import AssociationQuery.Proofs.Keys.Conditions
import AssociationQuery.Proofs.Naming.Conflicts
import AssociationQuery.Proofs.Planning.Columns
import AssociationQuery.Proofs.Planning.Optionality
import AssociationQuery.Proofs.Planning.Terms
import AssociationQuery.Proofs.Spelling.Statements
import AssociationQuery.Proofs.Visibility.Statements

/-!
# AssociationQuery.Proofs.Keys.Statements

Every key comparison of a compiled request is between columns that its tables have.

The walk through a chain keeps a draft typed, `Planned.typed`: what is joined for a node starts
from the table that the node hangs from.  The statement of a node then walks back along its
route, and its first table has the columns by which the statement is filtered and which it
returns for pairing.
-/

namespace AssociationQuery

open Text.Casing (sameIgnoringCase)

/-! ## kinds of errors -/

namespace AliasRequests

/-- Claims only fail over names. -/
theorem kind_of_claim {r : AliasRequests} {c : Claims} {slot : Slot} {a : TableAlias}
    {e : AssociationError} (h : r.claim c slot a = .error e) : e.kind = .aliasConflict := by
  rw [claim] at h
  split at h
  · split at h
    · cases h
    · rw [← Except.error.inj h, AssociationError.kind]
  · split at h
    · cases h
    · split at h
      · split at h
        · cases h
        · rw [← Except.error.inj h, AssociationError.kind]
      · split at h
        · rw [← Except.error.inj h, AssociationError.kind]
        · cases h

/-- So does allocation. -/
theorem kind_of_allocate {r : AliasRequests} {e : AssociationError}
    (h : r.allocate = .error e) : e.kind = .aliasConflict := by
  obtain ⟨_, _, _, _, -, -, he⟩ := claimAll_eq_error.1 (allocate_eq_error.1 h)
  exact kind_of_claim he

end AliasRequests

/-! ## typed statements -/

/-- A single column belongs to its table. -/
def SelectItem.Typed (S : Schema) (tables : List (Slot × Table)) : SelectItem → Prop
  | column slot c _ => S.ColumnAt tables slot c
  | star _ | expr .. => True

/-- Comparisons of keys, the columns that the statement is filtered by, and those that it returns
for pairing are columns of the tables that they are written for. -/
structure Statement.Typed (S : Schema) (s : Statement) : Prop where
  /-- No table instance stands for two tables. -/
  distinct : (s.slots ++ s.owned).Nodup
  select : ∀ i ∈ s.select, i.Typed S s.instances
  joins : ∀ j ∈ s.joins, j.Typed S s.instances
  keyFilter : ∀ f ∈ s.keyFilter, ∀ column ∈ f.columns, S.ColumnAt s.instances f.slot column
  filters : ∀ c ∈ s.filters, c.Typed S s.instances
  having : ∀ c ∈ s.having, c.Typed S s.instances

namespace Draft

/-! ## typed drafts -/

/-- The table instances outside of subqueries, where the base table is `t`. -/
def instancesOn (t : Table) (d : Draft) : List (Slot × Table) := (root, t) :: d.instances

/-- Comparisons of keys are typed in a draft whose base table is `t`. -/
structure Typed (S : Schema) (t : Table) (d : Draft) : Prop where
  joins : ∀ j ∈ d.joins, j.Typed S (d.instancesOn t)
  filters : ∀ c ∈ d.filters, c.Typed S (d.instancesOn t)

/-- Joined tables come last. -/
theorem instancesOn_withJoins (t : Table) (d : Draft) (js : List Join) :
    (d.withJoins js).instancesOn t = d.instancesOn t ++ js.map Join.instance := by
  rw [instancesOn, instances, joins_withJoins, List.map_append]
  rfl

/-- A condition joins no table. -/
theorem instancesOn_addCondition (t : Table) (d : Draft) (slot : Slot) (c : Condition) :
    (d.addCondition slot c).instancesOn t = d.instancesOn t := by
  rw [instancesOn, instances_addCondition, instancesOn]

/-- A node joins the tables of its hops. -/
theorem instancesOn_join (t : Table) (a : Anchor) (n : ChainNode) (route : Route) (d : Draft) :
    (d.join a n route).instancesOn t =
      d.instancesOn t ++ (nodeJoins a n route d.next).map Join.instance := by
  rw [instancesOn, instances, joins_join, List.map_append]
  rfl

namespace Typed

variable {S : Schema} {t : Table} {d : Draft}

theorem start (numbering : AliasNumbering) (width : Nat) :
    (Draft.start numbering t width).Typed S t := ⟨nofun, nofun⟩

theorem register (h : d.Typed S t) (slot : Slot) (handles : List TableAlias) :
    (d.register slot handles).Typed S t := ⟨h.joins, h.filters⟩

theorem leave (h : d.Typed S t) (config : Config) (a : Anchor) (n : ChainNode) :
    (d.leave config a n).Typed S t := ⟨h.joins, h.filters⟩

/-- Joins that are typed with the tables there leave a draft typed. -/
theorem withJoins (h : d.Typed S t) {js : List Join}
    (hjs : ∀ j ∈ js, j.Typed S (d.instancesOn t ++ js.map Join.instance)) :
    (d.withJoins js).Typed S t := by
  have hsub : d.instancesOn t ⊆ d.instancesOn t ++ js.map Join.instance :=
    List.subset_append_left ..
  constructor
  · rw [instancesOn_withJoins]
    exact List.forall_mem_append.2 ⟨fun j hj => (h.joins j hj).mono hsub, hjs⟩
  · rw [instancesOn_withJoins]
    exact fun c hc => (h.filters c hc).mono hsub

/-- So does a condition that is typed. -/
theorem addCondition (h : d.Typed S t) (slot : Slot) {c : Condition}
    (hc : c.Typed S (d.instancesOn t)) : (d.addCondition slot c).Typed S t := by
  constructor
  · rw [instancesOn_addCondition]
    exact forall_on_addCondition d slot c h.joins hc
  · rw [instancesOn_addCondition]
    exact forall_filters_addCondition d slot c h.filters hc

end Typed

variable {S : Schema} {t : Table}

/-- The condition for a required node leaves a draft typed. -/
theorem Guarded.typed (hS : S.WellFormed) {outer : Slot} {u : Table} {n : ChainNode} {d d' : Draft}
    (h : Guarded outer n d d') (hall : ∀ m ∈ n.everywhere, m.association.Typed S)
    (hsame : sameIgnoringCase n.association.origin.name u.name) (hd : d.Typed S t)
    (houter : (outer, u) ∈ d.instancesOn t) :
    d'.Typed S t ∧ d'.instancesOn t = d.instancesOn t := by
  cases h with
  | optional => exact ⟨hd, rfl⟩
  | @required q d₁ _ hq =>
    have haside := aside_existence n hq
    have htables : d₁.instancesOn t = d.instancesOn t := by rw [haside.eq]; rfl
    have hd₁ : d₁.Typed S t := by
      rw [haside.eq]
      exact ⟨hd.joins, hd.filters⟩
    have hq' := typed_existence hS n hall hsame houter hq
    refine ⟨hd₁.addCondition outer (.existence (htables ▸ hq')), ?_⟩
    rw [instancesOn_addCondition, htables]

/-- The last table of a joined node is the one that its association leads to. -/
theorem nodeSlot_mem_instancesOn (a : Anchor) {n : ChainNode} {route : Route}
    (hroute : n.association.routeFor n.requirement = .ok route) (d : Draft) :
    (nodeSlot a n route d.next, n.association.destination) ∈ (d.join a n route).instancesOn t := by
  have hlast : (joinedNode a n route d.next).last ∈
      (nodeJoins a n route d.next).map Join.instance := by
    rw [← instances_joinedNode]
    exact List.mem_append_right _ List.mem_cons_self
  rw [instancesOn_join, ← Association.destination_last_routeFor _ hroute]
  exact List.mem_append_right _ hlast

/-- Joining a typed node leaves a draft typed. -/
theorem Typed.join (hS : S.WellFormed) {d : Draft} (h : d.Typed S t) {a : Anchor} {n : ChainNode}
    {route : Route} (hn : n.association.Typed S)
    (hroute : n.association.routeFor n.requirement = .ok route)
    (hsame : sameIgnoringCase n.association.origin.name a.table.name)
    (ha : (a.slot, a.table) ∈ d.instancesOn t) : (d.join a n route).Typed S t := by
  have hjs : ∀ j ∈ nodeJoins a n route d.next,
      j.Typed S (d.instancesOn t ++ (nodeJoins a n route d.next).map Join.instance) :=
    typed_hopJoins _ _ _ ((hn.leads hS hroute).congr hS hsame) (List.mem_append_left _ ha)
      (List.subset_append_right ..)
  have hjoined := h.withJoins hjs
  constructor
  · rw [joins_join, instancesOn_join, ← instancesOn_withJoins]
    exact hjoined.joins
  · rw [filters_join, instancesOn_join, ← instancesOn_withJoins]
    exact hjoined.filters

/-- The walk keeps drafts typed. -/
theorem Planned.typed (hS : S.WellFormed) {config : Config} {a : Anchor} {nodes : List ChainNode}
    {d d' : Draft} (h : Planned config a nodes d d')
    (hall : ∀ m ∈ ChainNode.everywhereAll nodes, m.association.Typed S) (hd : d.Typed S t)
    (ha : (a.slot, a.table) ∈ d.instancesOn t) :
    d'.Typed S t ∧ d.instancesOn t ⊆ d'.instancesOn t := by
  -- along the walk: instances are only added, so the anchor keeps its table
  induction h with
  | done => exact ⟨hd, List.Subset.refl _⟩
  | @separate a n rest d d₁ d' check _ _ _ _ guarded _ _ _ ihOthers =>
    rw [ChainNode.everywhereAll, List.forall_mem_append] at hall
    obtain ⟨hd₁, htables⟩ := guarded.typed hS hall.1 (ChainNode.same_of_check check) hd ha
    obtain ⟨hd', hsub⟩ := ihOthers hall.2 (hd₁.leave config a n) (htables ▸ ha)
    exact ⟨hd', htables ▸ hsub⟩
  | @joined a n rest route d d₁ d' check _ plain _ _ _ ihChildren ihOthers =>
    rw [ChainNode.everywhereAll, List.forall_mem_append, ChainNode.everywhere_eq,
      List.forall_mem_cons] at hall
    have hroute := routeFor_of_plainRoute plain
    have hjoin := hd.join hS hall.1.1 hroute (ChainNode.same_of_check check) ha
    have hold : d.instancesOn t ⊆ (d.join a n route).instancesOn t := by
      rw [instancesOn_join]
      exact List.subset_append_left ..
    obtain ⟨hd₁, hsub⟩ := ihChildren hall.1.2 hjoin (nodeSlot_mem_instancesOn a hroute d)
    obtain ⟨hd', hsub'⟩ := ihOthers hall.2 (hd₁.register _ _) (hsub (hold ha))
    exact ⟨hd', List.Subset.trans (List.Subset.trans hold hsub) hsub'⟩

/-! ## statements of their own -/

/-- The tables on the way back to the keys come last. -/
theorem instancesOn_prefetched (n : ChainNode) (route : Route) (d : Draft) :
    (d.prefetched n route).instancesOn t = d.instancesOn t ++ (keyJoins route d).map Join.instance :=
  instancesOn_withJoins t d _

/-- Walking back along the route of a node ends at its first table. -/
theorem keySlot_mem_instancesOn (n : ChainNode) (route : Route) (d : Draft) :
    (d.keySlot route, route.first.destination) ∈
      (d.prefetched n route).instancesOn route.backwards.1.destination := by
  have hfirst : route.backwards.2.getLast?.elim route.backwards.1.destination Hop.destination =
      route.first.destination := by
    have hhead := congrArg List.head? route.reverse_backwards
    rw [List.head?_append, List.head?_reverse, Route.hops, List.head?_cons] at hhead
    cases hlast : route.backwards.2.getLast? with
    | none =>
      rw [hlast] at hhead
      exact congrArg Hop.destination (Option.some.inj hhead)
    | some h =>
      rw [hlast] at hhead
      exact congrArg Hop.destination (Option.some.inj hhead)
  rw [← hfirst, instancesOn_prefetched, instancesOn, List.cons_append]
  refine List.cons_subset_cons _ (List.subset_append_right ..) ?_
  exact Join.lastInstance_mem (tables_backJoins ..)

/-- The draft of a plan's statement is typed. -/
theorem Typed.prefetched {d : Draft} {n : ChainNode} {route : Route} {a b : String}
    (h : d.Typed S route.backwards.1.destination) (leads : Hop.Lead S a route.hops b) :
    (d.prefetched n route).Typed S route.backwards.1.destination := by
  rw [← Route.reverse_backwards] at leads
  have hjs : ∀ j ∈ keyJoins route d, j.Typed S
      (d.instancesOn route.backwards.1.destination ++ (keyJoins route d).map Join.instance) :=
    typed_backJoins _ leads (List.mem_append_left _ List.mem_cons_self)
      (List.subset_append_right ..)
  exact (h.withJoins hjs).register _ _

/-- The statement of a node is typed if the draft that it comes from is. -/
theorem Typed.prefetchStatement {d : Draft} {config : Config} {n : ChainNode} {route : Route}
    {aliases : AliasMap} {a b : String}
    (h : (d.prefetched n route).Typed S route.backwards.1.destination)
    (leads : Hop.Lead S a route.hops b)
    (hscoped : ((d.prefetched n route).prefetchStatement config n route (d.keySlot route)
      aliases).Scoped) :
    ((d.prefetched n route).prefetchStatement config n route (d.keySlot route)
      aliases).Typed S := by
  have hkey := keySlot_mem_instancesOn n route d
  -- the keys are compared with the far side of the first mapping
  have hcolumns : ∀ column ∈ route.first.mapping.map Prod.snd,
      S.HasColumn route.first.destination.name column := by
    cases leads with
    | cons keys _ => exact List.forall_mem_map.2 fun p hp => (keys p hp).2
  exact {
    distinct := hscoped.nodup
    select := by
      refine List.forall_mem_append.2 ⟨List.forall_mem_cons.2 ⟨trivial, ?_⟩, fun i hi => ?_⟩
      · exact List.forall_mem_map.2 fun _ _ => trivial
      · obtain ⟨k, hk, rfl⟩ := List.mem_mapIdx.1 hi
        exact ⟨_, hkey, hcolumns _ (List.getElem_mem hk)⟩
    joins := h.joins
    keyFilter := by
      intro f hf column hcolumn
      obtain rfl := Option.some.inj hf
      exact ⟨_, hkey, hcolumns column hcolumn⟩
    filters := List.forall_mem_append.2 ⟨Condition.typed_conditionsOn _ _, h.filters⟩
    having := nofun }

/-- The statement of a planned node is typed. -/
theorem PlannedFor.typed (hS : S.WellFormed) {config : Config} {n : ChainNode} {p : PrefetchPlan}
    (h : PlannedFor config n p) (hall : ∀ m ∈ n.everywhere, m.association.Typed S) :
    p.statement.Typed S := by
  obtain ⟨route, d, hroute, hwalk, -, hstatement, -⟩ := h.exists_planned
  rw [ChainNode.everywhere_eq, List.forall_mem_cons] at hall
  have leads := hall.1.leads hS hroute
  rw [← Association.destination_backwards_routeFor hroute] at hwalk
  obtain ⟨hd, -⟩ := hwalk.typed hS hall.2 (.start ..) List.mem_cons_self
  have hscoped := h.scoped
  rw [hstatement] at hscoped ⊢
  exact (hd.prefetched leads).prefetchStatement leads hscoped

/-! ## aggregates -/

/-- An association is joined for aggregates only if it starts from the base table. -/
theorem same_of_joinAggregate {base : Table} {a : Association} {d d' : Draft} {slot : Slot}
    (h : d.joinAggregate base a = .ok (slot, d')) : sameIgnoringCase a.origin.name base.name := by
  rw [joinAggregate] at h
  split at h
  · simp only [throw_bind_eq_ok] at h
  · next hsame => simpa using hsame

/-- What holds of each association that starts from the base table holds of those that are
joined for aggregates. -/
theorem forall_of_joinAggregates {base : Table} {P : Association → Prop} {as : List Association}
    (hP : ∀ a ∈ as, sameIgnoringCase a.origin.name base.name → P a) :
    {joined joined' : List (Association × Slot)} → {d d' : Draft} →
    d.joinAggregates base joined as = .ok (joined', d') →
    (∀ p ∈ joined, P p.1) → ∀ p ∈ joined', P p.1 := by
  -- association by association: one is joined only if it starts at the base table
  induction as with
  | nil =>
    intro joined joined' d d' h hjoined
    obtain ⟨rfl, -⟩ : joined = joined' ∧ d = d' := by simpa [joinAggregates] using h
    exact hjoined
  | cons a rest ih =>
    intro joined joined' d d' h hjoined
    obtain ⟨hfirst, hothers⟩ := List.forall_mem_cons.1 hP
    rw [joinAggregates] at h
    split at h
    · exact ih hothers h hjoined
    · simp only [bind_eq_ok] at h
      obtain ⟨⟨slot, d₁⟩, ha, hrest⟩ := h
      have hown := hfirst (same_of_joinAggregate ha)
      exact ih hothers hrest
        (List.forall_mem_append.2 ⟨hjoined, List.forall_mem_singleton.2 hown⟩)

/-- The joins for aggregates are typed where the base table stands. -/
theorem AggregateStep.typed_joins (hS : S.WellFormed) {next : Nat} {xs : List AggregateStep}
    (h : InTurn next xs) (hbase : ∀ x ∈ xs, x.association.Typed S ∧
      sameIgnoringCase x.association.origin.name t.name) {tables : List (Slot × Table)}
    (hroot : (root, t) ∈ tables) (hown : (xs.flatMap joins).map Join.instance ⊆ tables) :
    ∀ j ∈ xs.flatMap joins, j.Typed S tables := by
  intro j hj
  obtain ⟨x, hx, hjx⟩ := List.mem_flatMap.1 hj
  obtain ⟨hroute, -⟩ := h.along x hx
  obtain ⟨htyped, hsame⟩ := hbase x hx
  have hjoins : x.joins.map Join.instance ⊆ tables := by
    refine List.Subset.trans (List.map_subset _ fun k hk => ?_) hown
    exact List.mem_flatMap_of_mem hx hk
  exact typed_hopJoins _ _ _ ((htyped.leads hS hroute).congr hS hsame) hroot hjoins j hjx

end Draft

namespace Request

open Draft (AggregateStep)

/-- The base table and all associations of the request come from the catalogue. -/
structure BuiltFrom (S : Schema) (r : Request) : Prop where
  table : S.Describes r.table
  chain : ∀ n ∈ ChainNode.everywhereAll r.chain, n.association.BuiltFrom S
  aggregates : ∀ a ∈ r.aggregates, a.BuiltFrom S

variable {S : Schema} {r : Request} {config : Config}

/-- The associations that the base statement joins for aggregates start from the base table. -/
theorem forall_aggregates {P : Association → Prop}
    (hP : ∀ a ∈ r.aggregates, sameIgnoringCase a.origin.name r.table.name → P a) {s : Statement}
    {d' : Draft} (h : r.rootStatement config = .ok (s, d')) : ∀ p ∈ s.aggregates, P p.1 := by
  simp only [rootStatement, draft, bind_eq_ok, pure_eq_ok, Prod.mk.injEq] at h
  obtain ⟨_, ⟨d, -, ⟨aggregates, d₁⟩, hjoin, rfl⟩, aliases, -, rfl, rfl⟩ := h
  exact Draft.forall_of_joinAggregates hP hjoin (List.forall_mem_nil _)

/-- The base statement of a request from the catalogue is typed. -/
theorem BuiltFrom.typed_rootStatement (hS : S.WellFormed) (hr : r.BuiltFrom S) {s : Statement}
    {d' : Draft} (h : r.rootStatement config = .ok (s, d')) (hscoped : s.Scoped) : s.Typed S := by
  have haggregates := forall_aggregates (P := fun a => a.Typed S ∧
    sameIgnoringCase a.origin.name r.table.name)
    (fun a ha hsame => ⟨(hr.aggregates a ha).typed hS, hsame⟩) h
  obtain ⟨d, xs, hwalk, hxs, rfl, -, hs⟩ := rootStatement_steps h
  rw [hs] at haggregates
  have hsteps := List.forall_mem_map.1 haggregates
  obtain ⟨hd, -⟩ := hwalk.typed hS (fun m hm => (hr.chain m hm).typed hS) (.start ..)
    List.mem_cons_self
  -- the joins of an aggregate start at the base row or at one another
  have hjoins : ∀ j ∈ xs.flatMap AggregateStep.joins, j.Typed S
      (d.instancesOn r.table ++ (xs.flatMap AggregateStep.joins).map Join.instance) :=
    AggregateStep.typed_joins hS hxs hsteps (List.mem_append_left _ List.mem_cons_self)
      (List.subset_append_right ..)
  have htyped := (hd.withJoins hjoins).register Draft.root r.aliases
  rw [hs] at hscoped ⊢
  exact {
    distinct := hscoped.nodup
    select := by
      refine List.forall_mem_append.2 ⟨List.forall_mem_cons.2 ⟨trivial, ?_⟩, ?_⟩
      · exact List.forall_mem_map.2 fun _ _ => trivial
      · exact List.forall_mem_map.2 fun _ _ => trivial
    joins := htyped.joins
    keyFilter := nofun
    filters := List.forall_mem_append.2 ⟨Condition.typed_conditionsOn _ _, htyped.filters⟩
    having := Condition.typed_conditionsOn _ _ }

/-- The errors for what stands in the wrong place: a node below a table, or an aggregate over an
association, that does not start there, and a name that is in use. -/
inductive Misplaced (r : Request) : AssociationError → Prop
  | node {n : ChainNode} {parent : Table} (mem : n ∈ ChainNode.everywhereAll r.chain)
      (hangs : ChainNode.HangsFrom r.table r.chain n parent)
      (differs : sameIgnoringCase n.association.origin.name parent.name = false) :
      Misplaced r (.wrongParent n.association.name n.association.origin.name parent.name)
  | aggregate {a : Association} (mem : a ∈ r.aggregates)
      (differs : sameIgnoringCase a.origin.name r.table.name = false) :
      Misplaced r (.aggregateBase a.name a.origin.name r.table.name)
  | scope {n : ChainNode} (mem : n ∈ ChainNode.everywhereAll r.chain) :
      Misplaced r (.duplicateScope n.key)

/-- Nodes hang from tables of the catalogue. -/
theorem BuiltFrom.describes_parent (hS : S.WellFormed) (hr : r.BuiltFrom S) {n : ChainNode}
    {parent : Table} (h : ChainNode.HangsFrom r.table r.chain n parent) :
    S.Describes parent := by
  rcases h with ⟨-, rfl⟩ | ⟨m, hm, -, rfl⟩
  · exact hr.table
  · exact ((hr.chain m hm).typed hS).describes_destination

/-- The table that a node hangs from has the key columns of the node's route. -/
theorem BuiltFrom.parentKeyColumns_ne_error (hS : S.WellFormed) (hr : r.BuiltFrom S)
    {n : ChainNode} {parent : Table} (hmem : n ∈ ChainNode.everywhereAll r.chain)
    (hangs : ChainNode.HangsFrom r.table r.chain n parent) (check : n.check parent = .ok ())
    {route : Route} (along : n.association.routeFor n.requirement = .ok route)
    {e : AssociationError} {offset : Nat} :
    Draft.parentKeyColumns n.association.name parent offset route.first ≠ .error e := by
  intro h
  obtain ⟨p, hp, hnone, -⟩ := eq_of_parentKeyColumns h
  have leads := (((hr.chain n hmem).typed hS).leads hS along).congr hS
    (ChainNode.same_of_check check)
  have hcolumn : S.HasColumn parent.name p.1 := by
    cases leads with
    | cons keys _ => exact (keys p hp).1
  rw [← (hr.describes_parent hS hangs).isSome_columnIndex?, hnone] at hcolumn
  cases hcolumn

/-- Associations that are built from a well-formed catalogue are invalid only for their place in
the request. -/
theorem BuiltFrom.misplaced (hS : S.WellFormed) (hr : r.BuiltFrom S) {e : AssociationError}
    (h : r.Fault config e) (hkind : e.kind = .invalidAssociation) : r.Misplaced e := by
  cases h with
  | chain h =>
    cases h with
    | wrongParent mem hangs differs => exact .node mem hangs differs
    | aggregate | optionalPivot | toManyBelowJoin => cases hkind
    | duplicateScope mem => exact .scope mem
    | keyColumns mem hangs check along lacks =>
      exact absurd lacks (hr.parentKeyColumns_ne_error hS mem hangs check along)
    | conflict _ _ _ _ allocated =>
      rw [AliasRequests.kind_of_allocate allocated] at hkind
      cases hkind
    | lookup h => cases h <;> cases hkind
  | aggregateBase mem differs => exact .aggregate mem differs
  | conflict _ allocated =>
    rw [AliasRequests.kind_of_allocate allocated] at hkind
    cases hkind

open PrefetchPlan (Each) in
/-- In the statements of a request that is built from a well-formed catalogue every key comparison
is between columns of its two tables, and compiling it finds no association invalid but for its
place in the request. -/
theorem compile_typed (hS : S.WellFormed) (hr : r.BuiltFrom S) (config : Config) :
    (∀ q, r.compile config = .ok q →
      ∃ s d, r.rootStatement config = .ok (s, d) ∧ s.bind config.dialect [] = .ok q.root.text ∧
        s.Typed S ∧
        Each (fun _ p => p.statement.Typed S) (ChainNode.separateAll r.chain) q.prefetches) ∧
    ∀ e, r.compile config = .error (.association e) → e.kind = .invalidAssociation →
      r.Misplaced e := by
  constructor
  · intro q hq
    obtain ⟨s, d, hs, hbind, -, -⟩ := compile_eq_ok hq
    refine ⟨s, d, hs, hbind, hr.typed_rootStatement hS hs (scoped_rootStatement hs hbind), ?_⟩
    refine (each_separate_of_compile hq).imp ?_
    rintro n p ⟨⟨hmem, -⟩, hplan⟩
    refine hplan.typed hS fun m hm => (hr.chain m ?_).typed hS
    rw [ChainNode.everywhere_eq, List.mem_cons] at hm
    rcases hm with rfl | hm
    · exact hmem
    · exact ChainNode.everywhereAll_subset _ hmem hm
  · exact fun e he hkind => hr.misplaced hS (fault_of_compile he) hkind

end Request

namespace Library

/-- Authors with their books, and these with their chapters. -/
def catalogue : Schema where
  tables := [
    ("authors", (TableInfo.ofColumns "authors" ["id", "name"]).withPrimaryKey ["id"]),
    ("books", ((TableInfo.ofColumns "books" ["id", "authorId"]).withPrimaryKey ["id"]).withForeignKey
      ["authorId"] "authors" ["id"] none),
    ("chapters", ((TableInfo.ofColumns "chapters" ["id", "bookId"]).withPrimaryKey
      ["id"]).withForeignKey ["bookId"] "books" ["id"] none)]

/-- The catalogue is well formed. -/
theorem wellFormed_catalogue : catalogue.WellFormed :=
  ⟨by decide +kernel, by decide +kernel, by decide +kernel⟩

/-- The books of an author come from the catalogue. -/
theorem builtFrom_booksOfAuthor : booksOfAuthor.association.BuiltFrom catalogue :=
  .direct (b := ⟨.hasMany, "books", "authors", "books", none⟩) rfl

/-- So do the chapters of a book. -/
theorem builtFrom_chaptersOfBook : chaptersOfBook.association.BuiltFrom catalogue :=
  .direct (b := ⟨.hasMany, "chapters", "books", "chapters", none⟩) rfl

/-- The chapters of an author's books. -/
def chaptersByAuthor : ChainNode :=
  .ofAssociation (.through "chapters" booksOfAuthor.association chaptersOfBook.association [] []
    none)

/-- Authors with the number of their books and with the chapters of these. -/
def counted : Request where
  table := authors
  annotations := [(booksOfAuthor.association.count, "written")]
  chain := [chaptersByAuthor]

/-- The request comes from the catalogue. -/
theorem builtFrom_counted : counted.BuiltFrom catalogue where
  table := rfl
  chain := by
    have hall : ChainNode.everywhereAll counted.chain = [chaptersByAuthor] := rfl
    rw [hall, List.forall_mem_singleton]
    exact .manyThrough builtFrom_booksOfAuthor builtFrom_chaptersOfBook rfl
  aggregates := by
    have hall : counted.aggregates = [booksOfAuthor.association] := rfl
    rw [hall, List.forall_mem_singleton]
    exact builtFrom_booksOfAuthor

/-- Authors, wrongly with chapters. -/
def misattached : Request where
  table := authors
  chain := [chaptersOfBook]

/-- So does the one with chapters in the wrong place. -/
theorem builtFrom_misattached : misattached.BuiltFrom catalogue where
  table := rfl
  chain := by
    have hall : ChainNode.everywhereAll misattached.chain = [chaptersOfBook] := rfl
    rw [hall, List.forall_mem_singleton]
    exact builtFrom_chaptersOfBook
  aggregates := List.forall_mem_nil _

/-- The request compiles. -/
theorem exists_compile_counted : ∃ q, counted.compile = .ok q :=
  exists_of_isOk (by decide +kernel)

end Library

/-- The key columns along both hops are where they belong: under the test for chapters, in the
join for the books that are counted, and on the way back from the chapters.  Chapters are out of
place below authors. -/
theorem Request.compile_typed_counted :
    ∃ (q : CompiledQuery) (s : Statement), Library.counted.compile = .ok q ∧
      s.bind .postgres [] = .ok q.root.text ∧ s.Typed Library.catalogue ∧
      PrefetchPlan.Each (fun _ p => p.statement.Typed Library.catalogue)
        [Library.chaptersByAuthor] q.prefetches ∧
      Library.misattached.Misplaced (.wrongParent "chapters" "books" "authors") := by
  obtain ⟨q, hq⟩ := Library.exists_compile_counted
  obtain ⟨hcompiled, -⟩ :=
    compile_typed Library.wellFormed_catalogue Library.builtFrom_counted {}
  obtain ⟨s, d, -, hbind, hs, heach⟩ := hcompiled q hq
  obtain ⟨-, hmisplaced⟩ :=
    compile_typed Library.wellFormed_catalogue Library.builtFrom_misattached {}
  exact ⟨q, s, hq, hbind, hs, heach, hmisplaced _ rfl rfl⟩

end AssociationQuery
