import AssociationQuery.Proofs.Planning.Faults
import AssociationQuery.Proofs.Planning.Plans

/-!
# AssociationQuery.Proofs.Spelling.Drafts

One chain planned under two configurations.

Planning asks the configuration for nothing that it decides by: the drafts of both runs
differ in how the table instances will be numbered, and the plans that wait in them agree.
Every step of planning keeps it so, `agree_planNodes`.
-/

namespace AssociationQuery

/-! ## plans -/

/-- Two trees of plans that differ in nothing but the spelling of their statements: these bind
the same values for the same keys. -/
inductive PrefetchPlan.Matches : PrefetchPlan → PrefetchPlan → Prop
  | mk {p q : PrefetchPlan} (name : p.name = q.name) (parentScope : p.parentScope = q.parentScope)
      (parentKeyColumns : p.parentKeyColumns = q.parentKeyColumns) (layout : p.layout = q.layout)
      (binds : ∀ keys, ∃ s t, p.render keys = .ok s ∧ q.render keys = .ok t ∧
        s.text.params = t.text.params)
      (children : List.Forall₂ Matches p.children q.children) : Matches p q

/-! ## names -/

/-- Allocation with another numbering settles the same handles. -/
theorem AliasRequests.agree_allocate {E : AssociationError → Prop} (r : AliasRequests)
    (numbering : AliasNumbering) (hE : ∀ e, r.allocate = .error e → E e) :
    RunsAgree E (fun m m' => m'.handles = m.handles) r.allocate { r with numbering }.allocate := by
  have hclaims : { r with numbering }.claimAll = r.claimAll := rfl
  unfold allocate at hE ⊢
  rw [hclaims]
  cases h : r.claimAll with
  | ok claims => exact .ok rfl
  | error e => exact .error (hE e (by rw [h]; rfl))

/-- If the one statement can be rendered, so can the other. -/
theorem Statement.Matches.agree_discard {s t : Statement} (h : s.Matches t) (d d' : Dialect) :
    RunsAgree IsLookupFault (fun _ _ => ∃ ts, s.render d [] = .ok ts)
      (discard (s.render d [])) (discard (t.render d' [])) :=
  (h.agree_render d d' []).known.map fun ts _ hts => ⟨ts, hts.2.1⟩

/-- Two statements of which one can be rendered without keys bind the same values for all
keys. -/
theorem Statement.Matches.binds {s t : Statement} (h : s.Matches t) {d : Dialect} (d' : Dialect)
    {ts : List Token} (hs : s.render d [] = .ok ts) (keys : List (List Value)) :
    ∃ us vs, s.render d keys = .ok us ∧ t.render d' keys = .ok vs ∧
      Token.params us = Token.params vs := by
  obtain ⟨us, hus⟩ := Statement.exists_render hs keys
  rcases RunsAgree.cases_iff.1 (h.agree_render d d' keys) with
    ⟨e, he, -⟩ | ⟨us', vs, hus', hvs, -⟩
  · rw [hus] at he
    cases he
  · exact ⟨us', vs, hus', hvs, h.params_eq hus' hvs⟩

namespace Draft

open ChainNode (HangsFrom Fault everywhereAll)

/-! ## steps in closed form -/

/-- A subquery is planned in three steps: its route, the nodes inside, its handles. -/
theorem existence_eq (outer : Slot) (n : ChainNode) (d : Draft) :
    d.existence outer n = (do
      let route ← plainRoute .required n.association
      let (nested, d₁) ← (d.enter route).existences (insideLast d.next route)
        n.association.destination n.children
      return (subQuery d.next outer route n.filters nested,
        d₁.register (insideLast d.next route) n.aliases)) := by
  obtain ⟨association, key, inclusion, requirement, filters, order, aliases, children⟩ := n
  simp only [existence, addSlot_eq, joinInside_eq, next_withTables, withTables_append,
    tables_insideJoins]
  rfl

/-- A node is joined in three steps: its route, its name, its tables. -/
theorem planJoined_eq (anchor : Anchor) (n : ChainNode) (d : Draft) :
    d.planJoined anchor n = (do
      let route ← plainRoute n.requirement n.association
      if n.inclusion = .including then d.claimScope anchor.scope n.key
      return (below anchor n route d, d.join anchor n route)) := by
  obtain ⟨association, key, inclusion, requirement, filters, order, aliases, children⟩ := n
  cases inclusion <;> simp only [planJoined, joinHops_eq] <;> rfl

/-- The statement of a node is planned from the nodes below it. -/
theorem prefetchDraft_eq (config : Config) (n : ChainNode) (route : Route)
    (planChildren : Draft → Except AssociationError Draft) :
    prefetchDraft config n route planChildren = (do
      let d ← planChildren (.start config.numbering route.backwards.1.destination
        route.backwards.1.destination.width)
      return (d.keySlot route, d.prefetched n route)) := by
  simp only [prefetchDraft, joinBack_eq]
  rfl

/-- A node is checked, then left to a statement of its own or joined. -/
theorem planNode_eq (config : Config) (anchor : Anchor) (n : ChainNode) (d : Draft) :
    planNode config anchor n d = (do
      n.check anchor.table
      if n.inclusion = .including ∧ n.association.isToMany then
        d.planSeparate config anchor n
          (planNodes config (.base n.association.destination) n.children)
      else
        let (below, d) ← d.planJoined anchor n
        let d ← planNodes config below n.children d
        return d.register below.slot n.aliases) := by
  obtain ⟨association, key, inclusion, requirement, filters, order, aliases, children⟩ := n
  rw [planNode]

/-! ## drafts -/

section walk

variable {config config' : Config} {base : Table} {chain : List ChainNode}

/-- A draft with another numbering and with other plans that wait in it. -/
def spelled (numbering : AliasNumbering) (pending : List (Except AssociationError PrefetchPlan))
    (d : Draft) : Draft :=
  { d with aliases := { d.aliases with numbering }, pending }

/-- The drafts differ in nothing but the numbering and the plans that wait in them, and these
agree. -/
inductive Matches (E : AssociationError → Prop) : Draft → Draft → Prop
  | mk {d : Draft} (numbering : AliasNumbering)
      {pending : List (Except AssociationError PrefetchPlan)}
      (h : List.Forall₂ (RunsAgree E PrefetchPlan.Matches) d.pending pending) :
      Matches E d (d.spelled numbering pending)

/-- Handles are registered whatever the numbering is. -/
theorem register_spelled (d : Draft) (numbering : AliasNumbering)
    (pending : List (Except AssociationError PrefetchPlan)) (slot : Slot)
    (handles : List TableAlias) :
    (d.spelled numbering pending).register slot handles =
      (d.register slot handles).spelled numbering pending := by
  induction handles generalizing d with
  | nil => rfl
  | cons a rest ih => exact ih { d with aliases := d.aliases.attach slot a }

/-- So are conditions added. -/
theorem addCondition_spelled (d : Draft) (numbering : AliasNumbering)
    (pending : List (Except AssociationError PrefetchPlan)) (slot : Slot) (c : Condition) :
    (d.spelled numbering pending).addCondition slot c =
      (d.addCondition slot c).spelled numbering pending := by
  have hjoins : (d.spelled numbering pending).joins = d.joins := rfl
  unfold addCondition
  rw [hjoins]
  split <;> rfl

namespace Matches

variable {E : AssociationError → Prop} {d d' : Draft}

theorem start (numbering numbering' : AliasNumbering) (t : Table) (width : Nat) :
    Matches E (.start numbering t width) (.start numbering' t width) := .mk numbering' .nil

/-- Handles may be registered in both drafts. -/
theorem register (h : Matches E d d') (slot : Slot) (handles : List TableAlias) :
    Matches E (d.register slot handles) (d'.register slot handles) := by
  obtain ⟨numbering, h⟩ := h
  rw [register_spelled]
  exact .mk numbering h

/-- A condition may be added to both drafts. -/
theorem addCondition (h : Matches E d d') (slot : Slot) (c : Condition) :
    Matches E (d.addCondition slot c) (d'.addCondition slot c) := by
  obtain ⟨numbering, h⟩ := h
  rw [addCondition_spelled]
  exact .mk numbering (by rwa [pending_addCondition])

/-- Both drafts may go into a subquery. -/
theorem enter (h : Matches E d d') (route : Route) :
    Matches E (d.enter route) (d'.enter route) := by
  obtain ⟨numbering, h⟩ := h
  exact .mk (d := d.enter route) numbering h

/-- Joins may be added to both drafts. -/
theorem withJoins (h : Matches E d d') (js : List Join) :
    Matches E (d.withJoins js) (d'.withJoins js) := by
  obtain ⟨numbering, h⟩ := h
  exact .mk (d := d.withJoins js) numbering h

/-- A node may be joined in both drafts. -/
theorem join (h : Matches E d d') (anchor : Anchor) (n : ChainNode) (route : Route) :
    Matches E (d.join anchor n route) (d'.join anchor n route) := by
  obtain ⟨numbering, h⟩ := h
  unfold Draft.join
  cases n.inclusion with
  | joining => exact .mk (d := (d.withJoins _).addOrder _ _) numbering h
  | including =>
    exact .mk (d := { (d.withJoins _).addOrder _ _ with stars := _, layout := _ }) numbering h

/-- Both drafts have the same number of table instances. -/
theorem next (h : Matches E d d') : d'.next = d.next := by
  cases h
  rfl

/-- Both drafts have the same layout. -/
theorem layout (h : Matches E d d') : d'.layout = d.layout := by
  cases h
  rfl

/-- A name is in use in both drafts, or in neither. -/
theorem claimScope (h : Matches E d d') (scope : Nat) (key : String) :
    d'.claimScope scope key = d.claimScope scope key := by
  unfold Draft.claimScope
  rw [h.layout]

/-- The plans that wait in the two drafts agree. -/
theorem pending (h : Matches E d d') :
    List.Forall₂ (RunsAgree E PrefetchPlan.Matches) d.pending d'.pending := by
  obtain ⟨_, h⟩ := h
  exact h

end Matches

/-! ## subqueries -/

mutual

/-- The subquery of a node is the same in both drafts, or fails with one error. -/
theorem agree_existence : (n : ChainNode) →
    (∀ m ∈ n.everywhere, m ∈ everywhereAll chain) → (outer : Slot) → {d d' : Draft} →
    Matches (Fault config base chain) d d' →
    RunsAgree (Fault config base chain)
      (fun x y => x.1 = y.1 ∧ Matches (Fault config base chain) x.2 y.2)
      (d.existence outer n) (d'.existence outer n)
  | ⟨association, key, inclusion, requirement, filters, order, aliases, children⟩,
      hall, outer, d, d', h => by
    rw [ChainNode.everywhere_eq, List.forall_mem_cons] at hall
    rw [existence_eq, existence_eq, h.next]
    refine (RunsAgree.same fun e he => Fault.of_plainRoute he).bind fun route _ heq => ?_
    subst heq
    refine (agree_existences children hall.2 _ (fun m hm => .inr ⟨_, hall.1, hm, rfl⟩)
      (h.enter route)).bind ?_
    rintro ⟨nested, d₁⟩ ⟨nested', d₁'⟩ ⟨rfl, h₁⟩
    exact .ok ⟨rfl, h₁.register _ _⟩

theorem agree_existences : (nodes : List ChainNode) →
    (∀ m ∈ everywhereAll nodes, m ∈ everywhereAll chain) → (outer : Slot) → {table : Table} →
    (∀ m ∈ nodes, HangsFrom base chain m table) → {d d' : Draft} →
    Matches (Fault config base chain) d d' →
    RunsAgree (Fault config base chain)
      (fun x y => x.1 = y.1 ∧ Matches (Fault config base chain) x.2 y.2)
      (d.existences outer table nodes) (d'.existences outer table nodes)
  -- node by node: the configuration is not read, so both fail alike or go on alike
  | [], _, _, _, _, _, _, h => .ok ⟨rfl, h⟩
  | n :: rest, hall, outer, table, hangs, d, d', h => by
    rw [everywhereAll, List.forall_mem_append] at hall
    rw [List.forall_mem_cons] at hangs
    have hmem := hall.1 n n.mem_everywhere
    rw [existences, existences]
    split
    · refine (RunsAgree.same fun e he => Fault.of_check hmem hangs.1 he).bind fun _ _ _ => ?_
      refine (agree_existence n hall.1 outer h).bind ?_
      rintro ⟨q, d₁⟩ ⟨q', d₁'⟩ ⟨rfl, h₁⟩
      refine (agree_existences rest hall.2 outer hangs.2 h₁).bind ?_
      rintro ⟨conditions, d₂⟩ ⟨conditions', d₂'⟩ ⟨rfl, h₂⟩
      exact .ok ⟨rfl, h₂⟩
    · exact agree_existences rest hall.2 outer hangs.2 h

end

/-! ## plans -/

/-- Two functions of one list give related lists if they give related elements. -/
theorem forall₂_map_same {R : β → γ → Prop} {f : α → β} {g : α → γ} {xs : List α}
    (h : ∀ x ∈ xs, R (f x) (g x)) : List.Forall₂ R (xs.map f) (xs.map g) := by
  rw [List.forall₂_map_left_iff, List.forall₂_map_right_iff, List.forall₂_same]
  exact h

/-- Pairing columns may have any names. -/
theorem forall₂_pairingColumns (name name' : String) (slot : Slot) (columns : List String) :
    List.Forall₂ SelectItem.Matches (pairingColumns name slot columns)
      (pairingColumns name' slot columns) := by
  unfold pairingColumns
  rw [List.mapIdx_eq_zipIdx_map, List.mapIdx_eq_zipIdx_map]
  exact forall₂_map_same fun _ _ => .column ..

/-- The statements of a node differ at most in names. -/
theorem matches_prefetchStatement (config config' : Config) {E : AssociationError → Prop}
    {d d' : Draft} (h : Matches E d d') (n : ChainNode) (route : Route) (keySlot : Slot)
    {aliases aliases' : AliasMap} (handles : aliases'.handles = aliases.handles) :
    (d.prefetchStatement config n route keySlot aliases).Matches
      (d'.prefetchStatement config' n route keySlot aliases') := by
  cases h
  refine ⟨handles, List.rel_append ?_ (forall₂_pairingColumns ..), rfl⟩
  exact List.forall₂_same.2 fun i _ => .same i

section plan

variable {n : ChainNode} (hmem : n ∈ everywhereAll chain)
  (hkind : n.inclusion = .including ∧ n.association.isToMany) {route : Route}
  (hroute : n.association.routeFor n.requirement = .ok route)
  (hchildren : ∀ d d', Matches (Fault config base chain) d d' →
    RunsAgree (Fault config base chain) (Matches (Fault config base chain))
      (planNodes config (.base n.association.destination) n.children d)
      (planNodes config' (.base n.association.destination) n.children d'))

include hmem hkind hroute hchildren

/-- The drafts of a node's statements agree if planning the children of the node does. -/
theorem agree_prefetchDraft :
    RunsAgree (Fault config base chain)
      (fun x y => x.1 = y.1 ∧ Matches (Fault config base chain) x.2 y.2 ∧
        ∀ e, x.2.aliases.allocate = .error e → Fault config base chain e)
      (prefetchDraft config n route
        (planNodes config (.base n.association.destination) n.children))
      (prefetchDraft config' n route
        (planNodes config' (.base n.association.destination) n.children)) := by
  rw [prefetchDraft_eq, prefetchDraft_eq, Association.destination_backwards_routeFor hroute]
  refine (hchildren _ _ (.start ..)).known.bind ?_
  rintro d d' ⟨h, hd, -⟩
  have hkeys : keyJoins route d' = keyJoins route d := by rw [keyJoins, keyJoins, h.next]
  refine .ok ⟨by rw [keySlot, keySlot, hkeys], ?_, fun e he => .conflict hmem hkind hroute hd he⟩
  rw [prefetched, prefetched, hkeys]
  exact (h.withJoins _).register _ _

end plan

/-- The plans for a node agree if planning its children does. -/
theorem agree_prefetchPlan {n : ChainNode} {parent : Table} (hmem : n ∈ everywhereAll chain)
    (hkind : n.inclusion = .including ∧ n.association.isToMany)
    (hangs : HangsFrom base chain n parent) (hcheck : n.check parent = .ok ()) (scope offset : Nat)
    (hchildren : ∀ d d', Matches (Fault config base chain) d d' →
      RunsAgree (Fault config base chain) (Matches (Fault config base chain))
        (planNodes config (.base n.association.destination) n.children d)
        (planNodes config' (.base n.association.destination) n.children d')) :
    RunsAgree (Fault config base chain) PrefetchPlan.Matches
      (prefetchPlan config n scope offset parent
        (planNodes config (.base n.association.destination) n.children))
      (prefetchPlan config' n scope offset parent
        (planNodes config' (.base n.association.destination) n.children)) := by
  unfold prefetchPlan
  -- step by step: both fail with the same fault of the request, or both go on
  refine (RunsAgree.same fun e he => Fault.of_routeFor he).known.bind ?_
  rintro route _ ⟨rfl, hroute, -⟩
  refine (RunsAgree.same fun e he => .keyColumns hmem hangs hcheck hroute he).bind ?_
  rintro columns _ rfl
  refine (agree_prefetchDraft hmem hkind hroute hchildren).bind ?_
  rintro ⟨keySlot, d⟩ ⟨_, d'⟩ ⟨rfl, h, hconflict⟩
  dsimp only at h hconflict ⊢
  have hallocate : RunsAgree (Fault config base chain) (fun m m' => m'.handles = m.handles)
      d.aliases.allocate d'.aliases.allocate := by
    obtain ⟨numbering, -⟩ := h
    exact AliasRequests.agree_allocate d.aliases numbering hconflict
  refine hallocate.bind fun aliases aliases' handles => ?_
  have hmatches := matches_prefetchStatement config config' h n route keySlot handles
  have hrender := hmatches.agree_discard config.dialect config'.dialect
  refine (hrender.mono (fun e he => .lookup he) fun _ _ h => h).bind ?_
  rintro - - ⟨ts, hts⟩
  refine (RunsAgree.mapM h.pending).bind fun ps qs hps => .ok ?_
  refine .mk rfl rfl rfl ?_ ?_ hps
  · dsimp only
    rw [h.layout]
  · intro keys
    obtain ⟨us, vs, hus, hvs, hbind⟩ := hmatches.binds config'.dialect hts keys
    exact ⟨_, _, PrefetchPlan.render_eq_ok hus, PrefetchPlan.render_eq_ok hvs, hbind⟩

/-! ## nodes -/

/-- Drafts agree with one more plan in each, if these agree. -/
theorem Matches.leave {d d' : Draft} {anchor : Anchor} {n : ChainNode}
    (h : Matches (Fault config base chain) d d')
    (hplan : ∀ scope offset, RunsAgree (Fault config base chain) PrefetchPlan.Matches
      (prefetchPlan config n scope offset anchor.table
        (planNodes config (.base n.association.destination) n.children))
      (prefetchPlan config' n scope offset anchor.table
        (planNodes config' (.base n.association.destination) n.children))) :
    Matches (Fault config base chain) (d.leave config anchor n) (d'.leave config' anchor n) := by
  obtain ⟨numbering, h⟩ := h
  exact .mk (d := d.leave config anchor n) numbering (List.rel_append h (.cons (hplan ..) .nil))

/-- A node with a statement of its own leads to the same in both drafts. -/
theorem agree_planSeparate {anchor : Anchor} {n : ChainNode}
    (hall : ∀ m ∈ n.everywhere, m ∈ everywhereAll chain)
    (hplan : ∀ scope offset, RunsAgree (Fault config base chain) PrefetchPlan.Matches
      (prefetchPlan config n scope offset anchor.table
        (planNodes config (.base n.association.destination) n.children))
      (prefetchPlan config' n scope offset anchor.table
        (planNodes config' (.base n.association.destination) n.children)))
    {d d' : Draft} (h : Matches (Fault config base chain) d d') :
    RunsAgree (Fault config base chain) (Matches (Fault config base chain))
      (d.planSeparate config anchor n
        (planNodes config (.base n.association.destination) n.children))
      (d'.planSeparate config' anchor n
        (planNodes config' (.base n.association.destination) n.children)) := by
  have hmem := hall n n.mem_everywhere
  -- both drafts have the same names taken, so the same check fails
  rw [planSeparate, planSeparate]
  split
  · exact .error (.toManyBelowJoin _)
  · rw [h.claimScope]
    refine (RunsAgree.same fun e he => Fault.of_claimScope hmem he).bind fun _ _ _ => ?_
    dsimp only
    split
    · refine (agree_existence n hall anchor.slot h).bind ?_
      rintro ⟨q, d₁⟩ ⟨_, d₁'⟩ ⟨rfl, h₁⟩
      exact .ok ((h₁.addCondition _ _).leave hplan)
    · exact .ok (h.leave hplan)

/-- A joined node leads to the same in both drafts. -/
theorem agree_planJoined {anchor : Anchor} {n : ChainNode} (hmem : n ∈ everywhereAll chain)
    {d d' : Draft} (h : Matches (Fault config base chain) d d') :
    RunsAgree (Fault config base chain)
      (fun x y => x.1 = y.1 ∧ x.1.table = n.association.destination ∧
        Matches (Fault config base chain) x.2 y.2)
      (d.planJoined anchor n) (d'.planJoined anchor n) := by
  rw [planJoined_eq, planJoined_eq, h.claimScope]
  refine (RunsAgree.same fun e he => Fault.of_plainRoute he).bind ?_
  rintro route _ rfl
  have hbelow : below anchor n route d' = below anchor n route d := by
    rw [below, below, h.next, h.layout]
  rw [hbelow]
  dsimp only
  split
  · refine (RunsAgree.same fun e he => Fault.of_claimScope hmem he).bind fun _ _ _ => ?_
    exact .ok ⟨rfl, rfl, h.join ..⟩
  · exact .ok ⟨rfl, rfl, h.join ..⟩

/-- The walk through the nodes fails with one error or gives drafts that differ in nothing
but their spelling. -/
theorem agree_planNodes (config config' : Config) (nodes : List ChainNode) :
    (∀ m ∈ everywhereAll nodes, m ∈ everywhereAll chain) → ∀ anchor : Anchor,
    (∀ m ∈ nodes, HangsFrom base chain m anchor.table) →
    ∀ d d', Matches (Fault config base chain) d d' →
    RunsAgree (Fault config base chain) (Matches (Fault config base chain))
      (planNodes config anchor nodes d) (planNodes config' anchor nodes d') := by
  -- over the forest, from any two drafts that match
  induction nodes using ChainNode.forest_induction with
  | nil => exact fun _ _ _ _ _ h => .ok h
  | cons n rest ihChildren ihRest =>
    intro hall anchor hangs d d' h
    rw [everywhereAll, List.forall_mem_append] at hall
    rw [List.forall_mem_cons] at hangs
    have hbelow : ∀ m ∈ everywhereAll n.children, m ∈ everywhereAll chain := by
      rw [ChainNode.everywhere_eq, List.forall_mem_cons] at hall
      exact hall.1.2
    have hmem := hall.1 n n.mem_everywhere
    have hnode : RunsAgree (Fault config base chain) (Matches (Fault config base chain))
        (planNode config anchor n d) (planNode config' anchor n d') := by
      rw [planNode_eq, planNode_eq]
      refine (RunsAgree.same fun e he => Fault.of_check hmem hangs.1 he).known.bind ?_
      rintro _ _ ⟨-, hcheck, -⟩
      split
      · next hkind =>
        exact agree_planSeparate hall.1 (fun scope offset =>
          agree_prefetchPlan hmem hkind hangs.1 hcheck scope offset
            (ihChildren hbelow (.base n.association.destination)
              fun m hm => .inr ⟨n, hmem, hm, rfl⟩)) h
      · refine (agree_planJoined hmem h).bind ?_
        rintro ⟨below, d₁⟩ ⟨_, d₁'⟩ ⟨rfl, htable, h₁⟩
        have hchildren : ∀ m ∈ n.children, HangsFrom base chain m below.table :=
          fun m hm => .inr ⟨n, hmem, hm, htable⟩
        refine (ihChildren hbelow below hchildren _ _ h₁).bind fun _ _ h₂ => ?_
        exact .ok (h₂.register _ _)
    exact hnode.bind fun d₁ d₁' h₁ => ihRest hall.2 anchor hangs.2 d₁ d₁' h₁

end walk

end Draft

end AssociationQuery
