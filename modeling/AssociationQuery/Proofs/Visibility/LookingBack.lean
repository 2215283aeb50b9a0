import AssociationQuery.Proofs.Planning.Terms
import AssociationQuery.Proofs.Visibility.Statements
import AssociationQuery.Proofs.Visibility.Terms

/-!
# AssociationQuery.Proofs.Visibility.LookingBack

Which tables the condition of a join may refer to.

A join sees the base table, the tables of the joins before it, and its own.  The keys that
planning compares and the tables that it attaches expressions to are such tables.  Handles are
only checked to stand for some table outside of subqueries: `Request.compile_looks_back_iff`
says that a statement looks back exactly if no handle in the condition of a join is that of a
table joined later.
-/

namespace AssociationQuery

open ChainNode (Position positionsAll)

/-! ## joins in turn -/

/-- The condition of each join refers to the given tables and those of the joins up to it. -/
def Join.LookBack : List Slot → List Join → Prop
  | _, [] => True
  | visible, j :: js =>
    (∀ c ∈ j.on, c.Within (visible ++ [j.slot])) ∧ LookBack (visible ++ [j.slot]) js

namespace Join.LookBack

variable {visible : List Slot} {js ks : List Join}

/-- Joins that look back may follow each other. -/
theorem append (hjs : LookBack visible js) (hks : LookBack (visible ++ js.map Join.slot) ks) :
    LookBack visible (js ++ ks) := by
  induction js generalizing visible with
  | nil => simpa using hks
  | cons j js ih =>
    refine ⟨hjs.1, ih hjs.2 ?_⟩
    rw [List.append_assoc]
    exact hks

/-- A join among others refers to what has been joined before it. -/
theorem within {before after : List Join} {j : Join}
    (h : LookBack visible (before ++ j :: after)) :
    ∀ c ∈ j.on, c.Within (visible ++ (before ++ [j]).map Join.slot) := by
  induction before generalizing visible with
  | nil => exact h.1
  | cons k before ih =>
    have hlater := ih h.2
    rwa [List.append_assoc] at hlater

end Join.LookBack

/-- A join with the keys of a table before it looks back, if its other conditions do. -/
theorem Join.within_of_on {visible : List Slot} {j : Join} {previous : Slot}
    {columns : List (String × String)} {es : List Expr} {tests : List Condition}
    (hon : j.on = .keys j.slot previous columns :: es.map (fun e => .expr e j.slot) ++ tests)
    (hprevious : previous ∈ visible) (htests : ∀ c ∈ tests, c.Within [j.slot]) :
    ∀ c ∈ j.on, c.Within (visible ++ [j.slot]) := by
  have hslot : j.slot ∈ visible ++ [j.slot] := List.mem_append_right _ (List.mem_singleton_self _)
  rw [hon]
  refine List.forall_mem_append.2 ⟨List.forall_mem_cons.2 ⟨?_, ?_⟩, fun c hc => ?_⟩
  · exact .keys hslot (List.mem_append_left _ hprevious)
  · exact Condition.within_conditionsOn hslot es
  · exact (htests c hc).mono (List.subset_append_right ..)

/-- The joins of a route look back. -/
theorem Join.Along.lookBack {refine : List Expr} {tests : List Condition} {previous : Slot}
    {hs : List Hop} {js : List Join} (h : Join.Along refine tests previous hs js)
    (htests : ∀ c ∈ tests, c.Within [Join.lastSlot previous js]) {visible : List Slot}
    (hprevious : previous ∈ visible) : Join.LookBack visible js := by
  induction h generalizing visible with
  | last _ hon => exact ⟨Join.within_of_on hon hprevious htests, trivial⟩
  | @next previous h hs j js _ hon _ ih =>
    have hon' : j.on = .keys j.slot previous (h.mapping.map Prod.swap) ::
        h.filters.map (fun e => .expr e j.slot) ++ [] := hon.trans (List.append_nil _).symm
    have hslot : j.slot ∈ visible ++ [j.slot] :=
      List.mem_append_right _ (List.mem_singleton_self _)
    exact ⟨Join.within_of_on hon' hprevious (List.forall_mem_nil _), ih htests hslot⟩

/-- The joins back along a route look back. -/
theorem Join.Back.lookBack {later : Hop} {previous : Slot} {hs : List Hop} {js : List Join}
    (h : Join.Back later previous hs js) {visible : List Slot} (hprevious : previous ∈ visible) :
    Join.LookBack visible js := by
  induction h generalizing visible with
  | done => trivial
  | @next later h previous hs j js _ hon _ ih =>
    have hon' : j.on = .keys j.slot previous later.mapping ::
        h.filters.map (fun e => .expr e j.slot) ++ [] := hon.trans (List.append_nil _).symm
    have hslot : j.slot ∈ visible ++ [j.slot] :=
      List.mem_append_right _ (List.mem_singleton_self _)
    exact ⟨Join.within_of_on hon' hprevious (List.forall_mem_nil _), ih hslot⟩

/-- The condition for a node refers to the table that the node hangs from. -/
theorem Draft.within_of_guards {slot : Slot} {nodes : List ChainNode} {tests : List Condition}
    (h : List.Forall₂ (Guards slot) nodes tests) : ∀ c ∈ tests, c.Within [slot] := by
  induction h with
  | nil => exact List.forall_mem_nil _
  | cons hguards _ ih =>
    obtain ⟨d, d', q, -, hq, rfl⟩ := hguards
    exact List.forall_mem_cons.2
      ⟨.existence (within_existence _ hq (List.mem_singleton_self _)), ih⟩

/-- The joins of nodes that hang from the given tables and from each other look back. -/
theorem ChainNode.Position.Fill.lookBack {slots : List Slot} {xs : List Position} {js : List Join}
    {order : List (OrderTerm × Slot)} (h : Fill slots xs js order) : Join.LookBack slots js := by
  induction h with
  | nil => trivial
  | cons puts _ ih =>
    obtain ⟨route, outer, tests, -, -, houter, hjoins, htests, -⟩ := puts
    exact (hjoins.lookBack (Draft.within_of_guards htests) houter).append ih

/-- If the joins for aggregates look back, all joins of the statement do. -/
theorem Statement.Places.lookBack {s : Statement} {own groups : List Expr} {order : List OrderTerm}
    {nodes : List ChainNode} {others : List Join} (h : s.Places own groups order nodes others)
    (hothers : ∀ visible, s.root ∈ visible → Join.LookBack visible others) :
    Join.LookBack [s.root] s.joins := by
  obtain ⟨js, more, hfill, hjoins, -⟩ := h.nodes
  rw [hjoins]
  exact hfill.lookBack.append (hothers _ List.mem_cons_self)

/-! ## handles -/

/-- Does a handle in the condition of a join stand for a table that is joined later? -/
def Join.readsAhead (m : AliasMap) : List Join → Bool
  | [] => false
  | j :: js =>
    (Condition.termsAll j.on).any (fun e => e.handles.any fun a =>
      js.any fun k => m.slotOf? a = some k.slot) || readsAhead m js

/-- A statement reads ahead if the ON clause of a join has a handle on a table that is joined later.
-/
theorem Join.readsAhead_iff {m : AliasMap} {js : List Join} :
    Join.readsAhead m js = true ↔
      ∃ before j after, js = before ++ j :: after ∧ ∃ e ∈ Condition.termsAll j.on,
        ∃ a ∈ e.handles, ∃ k ∈ after, m.slotOf? a = some k.slot := by
  -- along the joins: the one that looks ahead is the first or a later one
  induction js with
  | nil => simp [readsAhead]
  | cons j js ih =>
    rw [readsAhead, Bool.or_eq_true, ih]
    simp only [List.any_eq_true, decide_eq_true_eq]
    constructor
    · intro h
      rcases h with hhead | ⟨before, k, after, rfl, hk⟩
      · exact ⟨[], j, js, rfl, hhead⟩
      · exact ⟨j :: before, k, after, rfl, hk⟩
    · intro h
      obtain ⟨before, k, after, heq, hk⟩ := h
      cases before with
      | nil =>
        obtain ⟨rfl, rfl⟩ := List.cons.inj heq
        exact .inl hk
      | cons i before =>
        obtain ⟨rfl, rfl⟩ := List.cons.inj heq
        exact .inr ⟨before, k, after, rfl, hk⟩

mutual

/-- A condition that refers to early tables, and has no handle of a later one, sees early tables
only. -/
theorem Condition.Within.sees {m : AliasMap} {visible later : List Slot} : {c : Condition} →
    c.Within visible → c.Sees (Expr.Resolves m) (visible ++ later) →
    (∀ e ∈ c.terms, ∀ a ∈ e.handles, ∀ slot ∈ later, m.slotOf? a ≠ some slot) →
    c.Sees (Expr.Resolves m) visible
  | _, .keys hleft hright, _, _ => .keys hleft hright
  | .expr e slot, .expr hslot _, hsees, hlater => by
    cases hsees with
    | expr _ hresolves =>
      refine .expr hslot fun a ha => ?_
      obtain ⟨t, ht, heq⟩ := hresolves a ha
      rcases List.mem_append.1 ht with hmem | hmem
      · exact ⟨t, hmem, heq⟩
      · exact absurd heq (hlater e (by simp [Condition.terms]) a ha t hmem)
  | .existence q, .existence hq, hsees, hlater => by
    cases hsees with
    | existence hsees =>
      exact .existence (SubQuery.Within.sees hq hsees (by rwa [Condition.terms] at hlater))

theorem SubQuery.Within.sees {m : AliasMap} {visible later : List Slot} : {q : SubQuery} →
    q.Within visible → q.Sees (Expr.Resolves m) (visible ++ later) →
    (∀ e ∈ q.terms, ∀ a ∈ e.handles, ∀ slot ∈ later, m.slotOf? a ≠ some slot) →
    q.Sees (Expr.Resolves m) visible
  | .mk slot slots table joins conditions, .mk own joined filtered, hsees, hlater => by
    cases hsees with
    | mk _ joined' filtered' =>
      rw [SubQuery.terms, List.forall_mem_append] at hlater
      rw [← List.append_assoc] at joined' filtered'
      refine .mk own (fun j hj c hc => ?_) fun c hc => ?_
      · exact Condition.Within.sees (joined j hj c hc) (joined' j hj c hc) fun e he =>
          hlater.1 e (Join.mem_termsAll.2 ⟨j, hj, c, hc, he⟩)
      · exact Condition.Within.sees (filtered c hc) (filtered' c hc) fun e he =>
          hlater.2 e (Condition.mem_termsAll.2 ⟨c, hc, he⟩)

end

/-- A condition's tables in subqueries are among those of all conditions. -/
theorem Condition.owned_subset {cs : List Condition} {c : Condition} (hc : c ∈ cs) :
    c.owned ⊆ Condition.ownedAll cs := by
  induction cs with
  | nil => cases hc
  | cons d cs ih =>
    rw [Condition.ownedAll]
    rcases List.mem_cons.1 hc with rfl | hc
    · exact List.subset_append_left ..
    · exact List.subset_append_of_subset_right _ (ih hc)

/-- Those of a condition on a join are among those of all joins. -/
theorem Join.owned_subset {js : List Join} {j : Join} {c : Condition} (hj : j ∈ js)
    (hc : c ∈ j.on) : c.owned ⊆ Join.ownedAll js := by
  induction js with
  | nil => cases hj
  | cons k js ih =>
    rw [Join.ownedAll_cons]
    rcases List.mem_cons.1 hj with rfl | hj
    · exact List.subset_append_of_subset_left _ (Condition.owned_subset hc)
    · exact List.subset_append_of_subset_right _ (ih hj)

mutual

/-- The handles in a condition are on visible tables and on those of its own subqueries. -/
theorem Condition.Sees.resolves {m : AliasMap} {visible : List Slot} : {c : Condition} →
    c.Sees (Expr.Resolves m) visible → ∀ e ∈ c.terms, e.Resolves m (visible ++ c.owned)
  | _, .keys .. => by
    rw [Condition.terms]
    exact List.forall_mem_nil _
  | .expr e slot, .expr _ hresolves => by
    rw [Condition.terms, Condition.owned, List.append_nil]
    exact List.forall_mem_singleton.2 hresolves
  | .existence q, .existence hq => by
    rw [Condition.terms, Condition.owned]
    exact SubQuery.Sees.resolves hq

theorem SubQuery.Sees.resolves {m : AliasMap} {visible : List Slot} : {q : SubQuery} →
    q.Sees (Expr.Resolves m) visible → ∀ e ∈ q.terms, e.Resolves m (visible ++ q.owned)
  | .mk slot slots table joins conditions, .mk _ joined filtered => by
    -- what is visible to a condition inside is visible outside or owned by the subquery
    have hinside {c : Condition}
        (hc : c.owned ⊆ Join.ownedAll joins ++ Condition.ownedAll conditions) :
        slots ++ visible ++ c.owned ⊆
          visible ++ (slots ++ Join.ownedAll joins ++ Condition.ownedAll conditions) := by
      intro t ht
      have hc' := @hc t
      simp only [List.mem_append] at ht hc' ⊢
      tauto
    rw [SubQuery.terms, SubQuery.owned, List.forall_mem_append]
    refine ⟨fun e he a ha => ?_, fun e he a ha => ?_⟩
    · obtain ⟨j, hj, c, hc, he⟩ := Join.mem_termsAll.1 he
      obtain ⟨t, ht, heq⟩ := Condition.Sees.resolves (joined j hj c hc) e he a ha
      exact ⟨t, hinside (List.subset_append_of_subset_left _ (Join.owned_subset hj hc)) ht, heq⟩
    · obtain ⟨c, hc, he⟩ := Condition.mem_termsAll.1 he
      obtain ⟨t, ht, heq⟩ := Condition.Sees.resolves (filtered c hc) e he a ha
      exact ⟨t, hinside (List.subset_append_of_subset_right _ (Condition.owned_subset hc)) ht, heq⟩

end

/-! ## statements -/

namespace Statement

variable {s : Statement}

/-- The conditions of each join are such for the base table and the tables of the joins up to
it. -/
def OnInTurn (s : Statement) (P : List Slot → Condition → Prop) : Prop :=
  ∀ before j after, s.joins = before ++ j :: after →
    ∀ c ∈ j.on, P (s.root :: (before ++ [j]).map Join.slot) c

/-- Nothing in the condition of a join refers to a table that is joined later, not even from
inside a subquery. -/
def LooksBack (s : Statement) : Prop := s.OnInTurn (Condition.Sees (Expr.Resolves s.aliases))

/-- Does a handle in the condition of a join stand for a table that is joined later? -/
def readsAhead (s : Statement) : Bool := Join.readsAhead s.aliases s.joins

/-- The tables of a statement, before a join, and after it. -/
theorem slots_eq_append {before after : List Join} {j : Join}
    (h : s.joins = before ++ j :: after) :
    s.slots = s.root :: (before ++ [j]).map Join.slot ++ after.map Join.slot := by
  rw [slots, h, List.cons_append, ← List.map_append, List.append_assoc]
  rfl

/-- Conditions on joins that look back refer to what is visible at their turn. -/
theorem onInTurn_within (h : Join.LookBack [s.root] s.joins) : s.OnInTurn Condition.Within := by
  intro before j after hjoins
  rw [hjoins] at h
  exact h.within

/-- A statement whose tables are looked back to looks back if its handles do. -/
theorem looksBack_iff (h : s.Scoped) (hjoins : Join.LookBack [s.root] s.joins) :
    s.LooksBack ↔ s.readsAhead = false := by
  rw [← Bool.not_eq_true, readsAhead, Join.readsAhead_iff]
  constructor
  · intro hback hahead
    obtain ⟨before, j, after, hsplit, e, he, a, ha, k, hk, hslot⟩ := hahead
    obtain ⟨c, hc, he⟩ := Condition.mem_termsAll.1 he
    obtain ⟨t, ht, heq⟩ := (hback before j after hsplit c hc).resolves e he a ha
    obtain rfl : k.slot = t := Option.some.inj (hslot.symm.trans heq)
    have hj : j ∈ s.joins := by
      rw [hsplit]
      exact List.mem_append_right _ List.mem_cons_self
    -- the later table stands neither among the earlier ones nor in a subquery of the join
    have hnodup := h.nodup
    rw [slots_eq_append hsplit, List.append_assoc, List.nodup_append] at hnodup
    obtain ⟨-, hlater, hearlier⟩ := hnodup
    have hk : k.slot ∈ after.map Join.slot := List.mem_map_of_mem hk
    rcases List.mem_append.1 ht with hmem | hmem
    · exact hearlier _ hmem _ (List.mem_append_left _ hk) rfl
    · have howned : k.slot ∈ s.owned :=
        List.mem_append_left _ (List.mem_append_left _ (Join.owned_subset hj hc hmem))
      exact (List.nodup_append.1 hlater).2.2 _ hk _ howned rfl
  · intro hnot before j after hsplit c hc
    have hj : j ∈ s.joins := by
      rw [hsplit]
      exact List.mem_append_right _ List.mem_cons_self
    have hsees := h.joins j hj c hc
    rw [slots_eq_append hsplit] at hsees
    refine (onInTurn_within hjoins before j after hsplit c hc).sees hsees ?_
    intro e he a ha slot hslot heq
    obtain ⟨k, hk, rfl⟩ := List.mem_map.1 hslot
    exact hnot
      ⟨before, j, after, hsplit, e, Condition.mem_termsAll.2 ⟨c, hc, he⟩, a, ha, k, hk, heq⟩

end Statement

/-- The joins of a planned statement look back. -/
theorem Draft.PlannedFor.lookBack {config : Config} {n : ChainNode} {p : PrefetchPlan}
    (h : PlannedFor config n p) : Join.LookBack [p.statement.root] p.statement.joins := by
  obtain ⟨route, back, -, -, hback, -, hplaces⟩ := h.places
  exact hplaces.lookBack fun visible hroot => hback.lookBack hroot

namespace Request

open PrefetchPlan (Each)

/-- The joins for aggregates start from the base table, each on its own. -/
theorem lookBack_aggregates {root : Slot} {xs : List Draft.AggregateStep}
    (h : ∀ x ∈ xs, Join.Along [] [] root x.route.hops x.joins) {visible : List Slot}
    (hroot : root ∈ visible) : Join.LookBack visible (xs.flatMap Draft.AggregateStep.joins) := by
  induction xs generalizing visible with
  | nil => trivial
  | cons x xs ih =>
    obtain ⟨hx, hxs⟩ := List.forall_mem_cons.1 h
    rw [List.flatMap_cons]
    exact (hx.lookBack (List.forall_mem_nil _) hroot).append
      (ih hxs (List.mem_append_left _ hroot))

/-- The joins of a base statement look back. -/
theorem lookBack_rootStatement {r : Request} {config : Config} {s : Statement} {d : Draft}
    (h : r.rootStatement config = .ok (s, d)) : Join.LookBack [s.root] s.joins := by
  obtain ⟨_, xs, -, -, halong, -, hplaces⟩ := places_rootStatement h
  exact hplaces.lookBack fun visible hroot =>
    lookBack_aggregates (fun x hx => (halong x hx).2.2) hroot

/-- In every planned statement the keys that a join compares, and the tables that its conditions
are attached to, are those of the base table or of joins up to it; the statement looks back
exactly if its handles do. -/
theorem compile_looks_back_iff {r : Request} {config : Config} {q : CompiledQuery}
    (h : r.compile config = .ok q) :
    ∃ s d, r.rootStatement config = .ok (s, d) ∧ s.bind config.dialect [] = .ok q.root.text ∧
      s.OnInTurn Condition.Within ∧ (s.LooksBack ↔ s.readsAhead = false) ∧
      Each (fun _ p => p.statement.OnInTurn Condition.Within ∧
        (p.statement.LooksBack ↔ p.statement.readsAhead = false))
        (ChainNode.separateAll r.chain) q.prefetches := by
  obtain ⟨s, d, hs, hbind, -, -⟩ := compile_eq_ok h
  have hback := lookBack_rootStatement hs
  exact ⟨s, d, hs, hbind, Statement.onInTurn_within hback,
    Statement.looksBack_iff (scoped_rootStatement hs hbind) hback,
    (each_of_compile h).imp fun _ _ hp =>
      ⟨Statement.onInTurn_within hp.lookBack, Statement.looksBack_iff hp.scoped hp.lookBack⟩⟩

end Request

namespace Library

/-- Books with a chapter that has the number of their author. -/
def numberedAlike : Request where
  table := books
  chain := [
    { chaptersOfBook with
      inclusion := .joining, filters := [.binary .eq (.col "id") (writer.col "id")] },
    { author.aliased writer with inclusion := .joining }]

/-- The request compiles. -/
theorem exists_compile_numberedAlike : ∃ q, numberedAlike.compile = .ok q :=
  exists_of_isOk (by decide +kernel)

end Library

/-- The chapters are joined before the authors that the condition on them refers to. -/
theorem Request.compile_looks_back_numbered :
    ∃ (q : CompiledQuery) (s : Statement), Library.numberedAlike.compile = .ok q ∧
      s.bind .postgres [] = .ok q.root.text ∧ s.OnInTurn Condition.Within ∧ ¬s.LooksBack := by
  have hahead : (Library.numberedAlike.rootStatement {}).toOption.map (fun p => p.1.readsAhead) =
      some true := by decide +kernel
  obtain ⟨q, hq⟩ := Library.exists_compile_numberedAlike
  obtain ⟨s, d, hs, hbind, hwithin, hback, -⟩ := compile_looks_back_iff hq
  rw [hs] at hahead
  have hahead : s.readsAhead = true := Option.some.inj hahead
  refine ⟨q, s, hq, hbind, hwithin, fun h => ?_⟩
  rw [hback.1 h] at hahead
  cases hahead

end AssociationQuery
