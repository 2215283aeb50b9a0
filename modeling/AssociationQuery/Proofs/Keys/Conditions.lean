import AssociationQuery.Proofs.Keys.Associations
import AssociationQuery.Proofs.Visibility.Subqueries

/-!
# AssociationQuery.Proofs.Keys.Conditions

The sides of key comparisons.

A comparison of keys names two table instances, and the pairs that come with it are turned for
some joins and not for others.  `Condition.Typed` says that every pair has a column of the left
table first and one of the right table second.  Joins along the hops of a route compare keys so
in either direction, and a subquery does together with all that are inside it.
-/

namespace AssociationQuery

open Text.Casing (sameIgnoringCase sameIgnoringCase_comm)

/-! ## typed conditions -/

/-- The table of the table instance has the column. -/
def Schema.ColumnAt (S : Schema) (tables : List (Slot × Table)) (slot : Slot) (column : String) :
    Prop :=
  ∃ t, (slot, t) ∈ tables ∧ S.HasColumn t.name column

mutual

/-- Every comparison of keys has columns of the left table on its left and columns of the right
table on its right.  A subquery adds its tables to those around it. -/
inductive Condition.Typed (S : Schema) : List (Slot × Table) → Condition → Prop
  | keys {tables : List (Slot × Table)} {left right : Slot} {columns : List (String × String)}
      (sides : ∀ p ∈ columns, S.ColumnAt tables left p.1 ∧ S.ColumnAt tables right p.2) :
      Condition.Typed S tables (.keys left right columns)
  | expr {tables : List (Slot × Table)} (e : Expr) (slot : Slot) :
      Condition.Typed S tables (.expr e slot)
  | existence {tables : List (Slot × Table)} {q : SubQuery}
      (subquery : SubQuery.Typed S tables q) : Condition.Typed S tables (.existence q)

inductive SubQuery.Typed (S : Schema) : List (Slot × Table) → SubQuery → Prop
  | mk {tables : List (Slot × Table)} {slots : List Slot} {slot : Slot} {table : Table}
      {joins : List Join} {conditions : List Condition}
      (joined : ∀ j ∈ joins, ∀ c ∈ j.on,
        Condition.Typed S ((slot, table) :: joins.map Join.instance ++ tables) c)
      (filtered : ∀ c ∈ conditions,
        Condition.Typed S ((slot, table) :: joins.map Join.instance ++ tables) c) :
      SubQuery.Typed S tables (.mk slot slots table joins conditions)

end

/-- The conditions of the join are typed. -/
def Join.Typed (S : Schema) (tables : List (Slot × Table)) (j : Join) : Prop :=
  ∀ c ∈ j.on, c.Typed S tables

variable {S : Schema} {tables tables' : List (Slot × Table)}

/-- There may be more tables. -/
theorem Schema.ColumnAt.mono (hsub : tables ⊆ tables') {slot : Slot} {column : String}
    (h : S.ColumnAt tables slot column) : S.ColumnAt tables' slot column := by
  obtain ⟨t, ht, hcolumn⟩ := h
  exact ⟨t, hsub ht, hcolumn⟩

mutual

/-- There may be more tables. -/
theorem Condition.Typed.mono {tables tables' : List (Slot × Table)} (hsub : tables ⊆ tables') :
    {c : Condition} → c.Typed S tables → c.Typed S tables'
  | _, .keys sides => .keys fun p hp => ⟨(sides p hp).1.mono hsub, (sides p hp).2.mono hsub⟩
  | _, .expr e slot => .expr e slot
  | _, .existence subquery => .existence (SubQuery.Typed.mono hsub subquery)

theorem SubQuery.Typed.mono {tables tables' : List (Slot × Table)} (hsub : tables ⊆ tables') :
    {q : SubQuery} → q.Typed S tables → q.Typed S tables'
  | _, .mk joined filtered =>
    have hinside (own : List (Slot × Table)) : own ++ tables ⊆ own ++ tables' :=
      List.append_subset.2
        ⟨List.subset_append_left .., List.Subset.trans hsub (List.subset_append_right ..)⟩
    .mk (fun j hj c hc => Condition.Typed.mono (hinside _) (joined j hj c hc))
      (fun c hc => Condition.Typed.mono (hinside _) (filtered c hc))

end

theorem Join.Typed.mono (hsub : tables ⊆ tables') {j : Join} (h : j.Typed S tables) :
    j.Typed S tables' := fun c hc => (h c hc).mono hsub

/-- Filters compare no keys. -/
theorem Condition.typed_conditionsOn (slot : Slot) (es : List Expr) :
    ∀ c ∈ conditionsOn slot es, c.Typed S tables := by
  intro c hc
  obtain ⟨e, -, rfl⟩ := List.mem_map.1 hc
  exact .expr e slot

/-- The keys of a hop, with the table that it leads to on the left. -/
theorem Hop.typed_keys {h : Hop} {slot previous : Slot} {t : Table}
    (hslot : (slot, h.destination) ∈ tables) (hprevious : (previous, t) ∈ tables)
    (keys : ∀ p ∈ h.mapping, S.HasColumn t.name p.1 ∧ S.HasColumn h.destination.name p.2) :
    (h.keys slot previous).Typed S tables := by
  refine .keys fun p hp => ?_
  obtain ⟨q, hq, rfl⟩ := List.mem_map.1 hp
  exact ⟨⟨_, hslot, (keys q hq).2⟩, ⟨_, hprevious, (keys q hq).1⟩⟩

/-! ## joins along hops -/

/-- The last of several joins along hops has the table that the last hop leads to. -/
theorem Join.lastInstance_mem {previous : Slot} {t : Table} {js : List Join} {hs : List Hop}
    (htables : js.map Join.table = hs.map Hop.destination) :
    (Join.lastSlot previous js, hs.getLast?.elim t Hop.destination) ∈
      (previous, t) :: js.map Join.instance := by
  have hlast : js.getLast?.map Join.table = hs.getLast?.map Hop.destination := by
    rw [← List.getLast?_map, htables, List.getLast?_map]
  rw [Join.lastSlot_eq]
  cases hj : js.getLast? with
  | none =>
    rw [hj, Option.map_none, eq_comm, Option.map_eq_none_iff] at hlast
    rw [hlast]
    exact List.mem_cons_self
  | some j =>
    rw [hj, Option.map_some, eq_comm, Option.map_eq_some_iff] at hlast
    obtain ⟨h, hh, htable⟩ := hlast
    rw [hh, Option.elim_some, Option.elim_some, htable]
    exact List.mem_cons_of_mem _ (List.mem_map_of_mem (List.mem_of_getLast? hj))

/-- A node that passes the check starts from the table that it hangs from. -/
theorem ChainNode.same_of_check {n : ChainNode} {parent : Table} (h : n.check parent = .ok ()) :
    sameIgnoringCase n.association.origin.name parent.name := by
  rw [check] at h
  split at h
  · assumption
  · cases h

namespace Draft

variable {previous : Slot} {t : Table} {b : String}

/-- Joins along hops are typed where the table before them stands. -/
theorem typed_hopJoins (left : Bool) (refine : List Expr) (next : Nat) {h : Hop} {rest : List Hop}
    (leads : Hop.Lead S t.name (h :: rest) b) (hprevious : (previous, t) ∈ tables)
    (hown : (hopJoins left refine previous next h rest).map Join.instance ⊆ tables) :
    ∀ j ∈ hopJoins left refine previous next h rest, j.Typed S tables := by
  -- along the hops: the join before a hop is the one its keys refer to
  induction rest generalizing left previous t next h with
  | nil =>
    cases leads with
    | cons keys _ =>
      have hslot := hown List.mem_cons_self
      refine List.forall_mem_singleton.2 (List.forall_mem_cons.2 ⟨?_, ?_⟩)
      · exact Hop.typed_keys hslot hprevious keys
      · exact Condition.typed_conditionsOn _ _
  | cons g gs ih =>
    cases leads with
    | cons keys later =>
      rw [hopJoins, List.map_cons, List.cons_subset] at hown
      refine List.forall_mem_cons.2 ⟨List.forall_mem_cons.2 ⟨?_, ?_⟩, ih _ _ later hown.1 hown.2⟩
      · exact Hop.typed_keys hown.1 hprevious keys
      · exact Condition.typed_conditionsOn _ _

/-- Joins inside a subquery are typed where the table before them stands. -/
theorem typed_insideJoins (next : Nat) {hs : List Hop} (leads : Hop.Lead S t.name hs b)
    (hprevious : (previous, t) ∈ tables)
    (hown : (insideJoins previous next hs).map Join.instance ⊆ tables) :
    ∀ j ∈ insideJoins previous next hs, j.Typed S tables := by
  induction hs generalizing previous t next with
  | nil => exact List.forall_mem_nil _
  | cons h rest ih =>
    cases leads with
    | cons keys later =>
      rw [insideJoins, List.map_cons, List.cons_subset] at hown
      refine List.forall_mem_cons.2 ⟨List.forall_mem_cons.2 ⟨?_, ?_⟩, ih _ later hown.1 hown.2⟩
      · exact Hop.typed_keys hown.1 hprevious keys
      · exact Condition.typed_conditionsOn _ _

/-- So are joins back along hops, whose pairs are not turned. -/
theorem typed_backJoins (next : Nat) {a : String} {later : Hop} {hs : List Hop}
    (leads : Hop.Lead S a (hs.reverse ++ [later]) b)
    (hprevious : (previous, later.destination) ∈ tables)
    (hown : (backJoins previous later next hs).map Join.instance ⊆ tables) :
    ∀ j ∈ backJoins previous later next hs, j.Typed S tables := by
  induction hs generalizing previous later next b with
  | nil => exact List.forall_mem_nil _
  | cons h rest ih =>
    rw [backJoins, List.map_cons, List.cons_subset] at hown
    rw [List.reverse_cons, List.append_assoc] at leads
    obtain ⟨before, behind⟩ := leads.split
    cases behind with
    | cons keys _ =>
      refine List.forall_mem_cons.2 ⟨List.forall_mem_cons.2 ⟨?_, ?_⟩, ih _ before hown.1 hown.2⟩
      · exact .keys fun p hp => ⟨⟨_, hown.1, (keys p hp).1⟩, ⟨_, hprevious, (keys p hp).2⟩⟩
      · exact Condition.typed_conditionsOn _ _

/-! ## subqueries -/

/-- The table instances of a subquery along a route. -/
def insideInstances (next : Nat) (route : Route) : List (Slot × Table) :=
  (⟨next⟩, route.first.destination) ::
    (insideJoins ⟨next⟩ (next + 1) route.rest).map Join.instance

/-- The last table of a subquery is the one that its route leads to. -/
theorem insideLast_mem_instances (next : Nat) (route : Route) :
    (insideLast next route, route.last.destination) ∈ insideInstances next route := by
  have hlast : route.rest.getLast?.elim route.first.destination Hop.destination =
      route.last.destination := by
    have hhops := route.getLast?_hops
    rw [Route.hops, List.getLast?_cons] at hhops
    rw [← Option.some.inj hhops]
    cases route.rest.getLast? <;> rfl
  rw [← hlast]
  exact Join.lastInstance_mem (tables_insideJoins ..)

/-- A subquery along a route is typed where the table that it hangs from stands. -/
theorem typed_subQuery {outer : Slot} (next : Nat) {route : Route}
    (leads : Hop.Lead S t.name route.hops b) (houter : (outer, t) ∈ tables)
    (filters : List Expr) {nested : List Condition}
    (hnested : ∀ c ∈ nested, c.Typed S (insideInstances next route ++ tables)) :
    (subQuery next outer route filters nested).Typed S tables := by
  have hown : insideInstances next route ⊆ insideInstances next route ++ tables :=
    List.subset_append_left ..
  cases leads with
  | cons keys later =>
    refine .mk (typed_insideJoins _ later (hown List.mem_cons_self)
      (List.cons_subset.1 hown).2) ?_
    refine List.forall_mem_append.2 ⟨List.forall_mem_append.2 ⟨List.forall_mem_cons.2 ⟨?_, ?_⟩, ?_⟩,
      hnested⟩
    · exact Hop.typed_keys (hown List.mem_cons_self) (List.mem_append_right _ houter) keys
    · exact Condition.typed_conditionsOn _ _
    · exact Condition.typed_conditionsOn _ _

mutual

/-- The subquery for a node of typed associations is typed. -/
theorem typed_existence (hS : S.WellFormed) : (n : ChainNode) →
    (∀ m ∈ n.everywhere, m.association.Typed S) → {outer : Slot} → {t : Table} →
    sameIgnoringCase n.association.origin.name t.name → {tables : List (Slot × Table)} →
    (outer, t) ∈ tables → {d d' : Draft} → {q : SubQuery} →
    d.existence outer n = .ok (q, d') → q.Typed S tables
  | ⟨association, key, inclusion, requirement, filters, order, aliases, children⟩,
      hall, outer, t, hsame, tables, houter, d, d', q, h => by
    obtain ⟨route, nested, d₁, hroute, hnested, rfl, -⟩ := existence_eq_ok h
    rw [ChainNode.everywhere_eq, List.forall_mem_cons] at hall
    have along := routeFor_of_plainRoute hroute
    have leads := (hall.1.leads hS along).congr hS hsame
    have hlast := insideLast_mem_instances d.next route
    rw [Association.destination_last_routeFor _ along] at hlast
    exact typed_subQuery d.next leads houter filters
      (typed_existences hS children hall.2 (List.mem_append_left _ hlast) hnested)

theorem typed_existences (hS : S.WellFormed) : (nodes : List ChainNode) →
    (∀ m ∈ ChainNode.everywhereAll nodes, m.association.Typed S) → {outer : Slot} →
    {t : Table} → {tables : List (Slot × Table)} → (outer, t) ∈ tables → {d d' : Draft} →
    {cs : List Condition} → d.existences outer t nodes = .ok (cs, d') →
    ∀ c ∈ cs, c.Typed S tables
  | [], hall, outer, t, tables, houter, d, d', cs, h => by
    obtain ⟨rfl, -⟩ : [] = cs ∧ d = d' := by simpa [existences] using h
    exact List.forall_mem_nil _
  | n :: rest, hall, outer, t, tables, houter, d, d', cs, h => by
    rw [ChainNode.everywhereAll, List.forall_mem_append] at hall
    rw [existences] at h
    split at h
    · simp only [bind_eq_ok, pure_eq_ok, Prod.mk.injEq] at h
      obtain ⟨⟨⟩, hcheck, ⟨q, d₁⟩, hq, ⟨cs', d₂⟩, hcs', rfl, -⟩ := h
      have hsame := ChainNode.same_of_check hcheck
      exact List.forall_mem_cons.2 ⟨.existence (typed_existence hS n hall.1 hsame houter hq),
        typed_existences hS rest hall.2 houter hcs'⟩
    · exact typed_existences hS rest hall.2 houter h

end

end Draft

end AssociationQuery
