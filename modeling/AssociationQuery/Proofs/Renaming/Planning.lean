import AssociationQuery.Proofs.Planning.Statements
import AssociationQuery.Proofs.Renaming.Rendering
import AssociationQuery.Proofs.Visibility.Subqueries

/-!
# AssociationQuery.Proofs.Renaming.Planning

The steps of planning with renamed handles.

A step that planning takes from a renamed draft leads to the renamed result of the step.  Most
steps only carry handles along.  Naming the table instances compares identities, and as it only
asks whether they are equal it gives the same names to the same instances,
`AliasRequests.allocate_renamed`.
-/

namespace AssociationQuery

/-! ## routes and drafts with other identities -/

def Hop.renamed (ρ : Nat → Nat) (h : Hop) : Hop :=
  { h with association := h.association.renamed ρ, filters := h.filters.map (Expr.renamed ρ) }

def Route.renamed (ρ : Nat → Nat) (r : Route) : Route where
  first := r.first.renamed ρ
  rest := r.rest.map (Hop.renamed ρ)
  order := r.order.map (OrderTerm.renamed ρ)

def AliasRequests.renamed (ρ : Nat → Nat) (r : AliasRequests) : AliasRequests :=
  { r with registrations := r.registrations.map fun p => (p.1, p.2.renamed ρ) }

def AliasRequests.Claims.renamed (ρ : Nat → Nat) (c : Claims) : Claims :=
  { c with handles := c.handles.map fun p => (ρ p.1, p.2) }

/-- The draft with other identities for its handles, in the plans that wait in it too. -/
def Draft.renamed (ρ : Nat → Nat) (d : Draft) : Draft :=
  { d with
    aliases := d.aliases.renamed ρ
    joins := d.joins.map (Join.renamed ρ)
    filters := d.filters.map (Condition.renamed ρ)
    order := renamedOn (OrderTerm.renamed ρ) d.order
    pending := d.pending.map fun p => PrefetchPlan.renamed ρ <$> p }

variable {ρ : Nat → Nat}

/-! ## results -/

/-- Work that goes on from a result goes on from the renamed result likewise. -/
theorem bind_of_eq_map {x : Except ε α} {x' : Except ε α'} {f : α → Except ε β}
    {f' : α' → Except ε β'} {s : α → α'} {t : β → β'} (hx : x' = s <$> x)
    (hf : ∀ a, f' (s a) = t <$> f a) : (x' >>= f') = t <$> (x >>= f) := by
  subst hx
  cases x with
  | ok a => exact hf a
  | error e => rfl

/-- Work that goes on from one and the same result. -/
theorem bind_of_eq {x x' : Except ε α} {f : α → Except ε β} {f' : α → Except ε β'} {t : β → β'}
    (hx : x' = x) (hf : ∀ a, f' a = t <$> f a) : (x' >>= f') = t <$> (x >>= f) := by
  subst hx
  rw [map_bind]
  exact congrArg (x' >>= ·) (funext hf)

/-- Results may be changed one by one or all together. -/
theorem mapM_id_map (t : α → β) (xs : List (Except ε α)) :
    (xs.map fun x => t <$> x).mapM id = List.map t <$> xs.mapM id := by
  induction xs with
  | nil => rfl
  | cons x xs ih =>
    rw [List.map_cons, List.mapM_cons, List.mapM_cons]
    exact bind_of_eq_map rfl fun a => bind_of_eq_map ih fun as => rfl

/-! ## routes -/

namespace Route

/-- Filters on the last hop are renamed with it. -/
theorem refineLast_renamed (filters : List Expr) (h : Hop) (rest : List Hop) :
    refineLast (filters.map (Expr.renamed ρ)) (h.renamed ρ) (rest.map (Hop.renamed ρ)) =
      Prod.map (Hop.renamed ρ) (List.map (Hop.renamed ρ)) (refineLast filters h rest) := by
  induction rest generalizing h with
  | nil => simp [refineLast, Hop.renamed]
  | cons g gs ih =>
    simp only [List.map_cons, refineLast, ih]
    rfl

/-- Refining may be done before or after renaming. -/
theorem refine_renamed (r : Route) (filters : List Expr) (order : List OrderTerm) :
    (r.renamed ρ).refine (filters.map (Expr.renamed ρ)) (order.map (OrderTerm.renamed ρ)) =
      (r.refine filters order).renamed ρ := by
  simp only [refine, renamed, refineLast_renamed, List.map_append, Prod.map]

/-- Routes may be put together before or after renaming. -/
theorem append_renamed (r s : Route) :
    (r.renamed ρ).append (s.renamed ρ) = (r.append s).renamed ρ := by
  simp [append, hops, renamed]

@[simp] theorem first_renamed (r : Route) : (r.renamed ρ).first = r.first.renamed ρ := rfl

theorem hops_renamed (r : Route) : (r.renamed ρ).hops = r.hops.map (Hop.renamed ρ) := rfl

/-- The filters of a renamed route are the renamed filters. -/
theorem filters_renamed (r : Route) :
    (r.renamed ρ).filters = r.filters.map (Expr.renamed ρ) := by
  rw [filters, hops_renamed, List.flatMap_map, filters, List.map_flatMap]
  rfl

/-- Hops may be turned before or after renaming. -/
theorem turn_renamed (passed : List Hop) (h : Hop) (rest : List Hop) :
    turn (passed.map (Hop.renamed ρ)) (h.renamed ρ) (rest.map (Hop.renamed ρ)) =
      Prod.map (Hop.renamed ρ) (List.map (Hop.renamed ρ)) (turn passed h rest) := by
  induction rest generalizing passed h with
  | nil => rfl
  | cons g gs ih => exact ih (h :: passed) g

/-- A renamed route may be walked back. -/
theorem backwards_renamed (r : Route) :
    (r.renamed ρ).backwards =
      Prod.map (Hop.renamed ρ) (List.map (Hop.renamed ρ)) r.backwards :=
  turn_renamed [] r.first r.rest

end Route

namespace Hop

@[simp] theorem destination_renamed (h : Hop) : (h.renamed ρ).destination = h.destination :=
  h.association.destination_renamed

@[simp] theorem mapping_renamed (h : Hop) : (h.renamed ρ).mapping = h.mapping :=
  h.association.mapping_renamed

@[simp] theorem isOptional_renamed (h : Hop) : (h.renamed ρ).isOptional = h.isOptional := rfl

@[simp] theorem filters_renamed (h : Hop) :
    (h.renamed ρ).filters = h.filters.map (Expr.renamed ρ) := rfl

/-- The keys of a hop have no handles. -/
theorem keys_renamed (h : Hop) (slot previous : Slot) :
    (h.renamed ρ).keys slot previous = (h.keys slot previous).renamed ρ := by
  rw [keys, mapping_renamed, keys, Condition.renamed]

end Hop

/-- What is required of a pivot has nothing to do with handles. -/
theorem Association.pivotRequirement_renamed (name : String) (pivot : Association)
    (requirement : Requirement) :
    pivotRequirement name (pivot.renamed ρ) requirement =
      pivotRequirement name pivot requirement := by
  simp only [pivotRequirement, optionality_renamed, name_renamed]

/-- The route of a renamed association is the renamed route, if there is one. -/
theorem Association.routeFor_renamed : (a : Association) → (requirement : Requirement) →
    (a.renamed ρ).routeFor requirement = Route.renamed ρ <$> a.routeFor requirement
  | .direct .., requirement => by
    show _ = Except.ok (Route.renamed ρ _)
    simp only [renamed, routeFor, Route.renamed, Hop.renamed, Expr.renamedAll_eq_map,
      OrderTerm.renamedAll_eq_map, List.map_nil]
  | .through name pivot target filters order _, requirement => by
    rw [renamed, routeFor, routeFor]
    refine bind_of_eq (pivotRequirement_renamed name pivot requirement) fun inner => ?_
    refine bind_of_eq_map (routeFor_renamed pivot inner) fun pivotRoute => ?_
    refine bind_of_eq_map (routeFor_renamed target requirement) fun targetRoute => ?_
    rw [Expr.renamedAll_eq_map, OrderTerm.renamedAll_eq_map, Route.append_renamed,
      Route.refine_renamed]
    rfl

/-! ## aggregates -/

namespace Expr

mutual

/-- The aggregates of a renamed expression are those of the renamed associations. -/
theorem aggregates_renamed : (e : Expr) →
    (e.renamed ρ).aggregates = e.aggregates.map (Association.renamed ρ)
  | .binary _ a b => by
    rw [renamed, aggregates, aggregates, List.map_append, aggregates_renamed a,
      aggregates_renamed b]
  | .unary _ a | .isNull a _ | .like a _ _ | .paren a => by
    rw [renamed, aggregates, aggregates, aggregates_renamed a]
  | .call _ args => by rw [renamed, aggregates, aggregates, aggregatesAll_renamed args]
  | .inList a vs _ => by
    rw [renamed, aggregates, aggregates, List.map_append, aggregates_renamed a,
      aggregatesAll_renamed vs]
  | .aggregate .. | .column .. | .literal _ | .raw _ | .countStar => by
    simp only [renamed, aggregates, List.map_cons, List.map_nil]

theorem aggregatesAll_renamed : (es : List Expr) →
    aggregatesAll (renamedAll ρ es) = (aggregatesAll es).map (Association.renamed ρ)
  | [] => rfl
  | e :: es => by
    rw [renamedAll, aggregatesAll, aggregatesAll, List.map_append, aggregates_renamed e,
      aggregatesAll_renamed es]

end

@[simp] theorem hasAggregate_renamed (e : Expr) : (e.renamed ρ).hasAggregate = e.hasAggregate := by
  rw [hasAggregate, aggregates_renamed, List.isEmpty_map, hasAggregate]

end Expr

@[simp] theorem OrderTerm.expr_renamed (o : OrderTerm) :
    (o.renamed ρ).expr = o.expr.renamed ρ := by
  cases o
  rfl

/-- Aggregates are rejected whatever their handles are. -/
theorem rejectAggregates_renamed (association : String) (es : List Expr) :
    rejectAggregates association (es.map (Expr.renamed ρ)) = rejectAggregates association es := by
  rw [rejectAggregates, rejectAggregates, List.any_map]
  simp only [Function.comp_def, Expr.hasAggregate_renamed]

/-- A node is checked in the same way after renaming. -/
theorem ChainNode.check_renamed (n : ChainNode) (parent : Table) :
    (n.renamed ρ).check parent = n.check parent := by
  simp only [check, renamed_eq, Association.origin_renamed, Association.name_renamed]
  have hterms : n.filters.map (Expr.renamed ρ) ++
      (n.order.map (OrderTerm.renamed ρ)).map OrderTerm.expr =
        (n.filters ++ n.order.map OrderTerm.expr).map (Expr.renamed ρ) := by
    simp [Function.comp_def]
  rw [hterms, rejectAggregates_renamed]

/-- The plain route of a renamed association is the renamed route, if there is one. -/
theorem plainRoute_renamed (requirement : Requirement) (a : Association) :
    plainRoute requirement (a.renamed ρ) = Route.renamed ρ <$> plainRoute requirement a := by
  refine bind_of_eq_map (a.routeFor_renamed requirement) fun route => ?_
  refine bind_of_eq ?_ fun _ => rfl
  rw [Association.name_renamed, Route.filters_renamed, rejectAggregates_renamed]

/-! ## names -/

namespace AliasRequests

variable (hρ : ρ.Injective)

include hρ

/-- A handle claims the same after renaming, or fails with the same error. -/
theorem claim_renamed (r : AliasRequests) (c : Claims) (slot : Slot) (a : TableAlias) :
    (r.renamed ρ).claim (c.renamed ρ) slot (a.renamed ρ) =
      Claims.renamed ρ <$> r.claim c slot a := by
  have hlookup : (c.renamed ρ).handles.lookup (a.renamed ρ).id = c.handles.lookup a.id :=
    lookup_renamed hρ c.handles a.id
  have htaken : (c.renamed ρ).isTaken = c.isTaken := rfl
  have htable : (r.renamed ρ).table = r.table := rfl
  simp only [claim, hlookup, htable, htaken]
  -- the same question decides both claims, and the same handles are settled by them
  cases c.handles.lookup a.id with
  | some previous => dsimp only; split <;> rfl
  | none =>
    have hlocked : (a.renamed ρ).locked = a.locked := rfl
    have hnames : (c.renamed ρ).locked = c.locked := rfl
    dsimp only
    rw [hlocked, hnames]
    cases a.locked with
    | none => rfl
    | some name =>
      dsimp only
      cases c.locked.lookup slot with
      | some existing => dsimp only; split <;> rfl
      | none => dsimp only; split <;> rfl

/-- So do several. -/
theorem claims_renamed (r : AliasRequests) (registrations : List (Slot × TableAlias))
    (c : Claims) :
    (registrations.map fun p => (p.1, p.2.renamed ρ)).foldlM
        (fun c (slot, a) => (r.renamed ρ).claim c slot a) (c.renamed ρ) =
      Claims.renamed ρ <$> registrations.foldlM (fun c (slot, a) => r.claim c slot a) c := by
  induction registrations generalizing c with
  | nil => rfl
  | cons p registrations ih =>
    rw [List.map_cons, List.foldlM_cons, List.foldlM_cons]
    exact bind_of_eq_map (claim_renamed hρ r c p.1 p.2) ih

/-- The table instances get the names they had, and the renamed handles the table instances. -/
theorem allocate_renamed (r : AliasRequests) :
    (r.renamed ρ).allocate = AliasMap.renamed ρ <$> r.allocate :=
  bind_of_eq_map (claims_renamed hρ r r.registrations {}) fun _ => rfl

end AliasRequests

/-! ## joins -/

/-- Conditions from renamed filters are the renamed conditions. -/
theorem conditionsOn_renamed (slot : Slot) (es : List Expr) :
    conditionsOn slot (es.map (Expr.renamed ρ)) =
      (conditionsOn slot es).map (Condition.renamed ρ) := by
  simp [conditionsOn, Condition.renamed, Function.comp_def]

namespace Join

@[simp] theorem slot_renamed (j : Join) : (j.renamed ρ).slot = j.slot := by
  cases j
  rfl

@[simp] theorem table_renamed (j : Join) : (j.renamed ρ).table = j.table := by
  cases j
  rfl

/-- A condition may be put on a join before or after renaming. -/
theorem under_renamed (j : Join) (c : Condition) :
    (j.renamed ρ).under (c.renamed ρ) = (j.under c).renamed ρ := by
  obtain ⟨kind, slot, table, on⟩ := j
  simp [renamed, under, Join.kind, Join.slot, Join.table, Join.on]

theorem slots_renamed (js : List Join) :
    (js.map (renamed ρ)).map Join.slot = js.map Join.slot := by
  simp [Function.comp_def]

theorem tables_renamed (js : List Join) :
    (js.map (renamed ρ)).map Join.table = js.map Join.table := by
  simp [Function.comp_def]

theorem lastSlot_renamed (previous : Slot) (js : List Join) :
    lastSlot previous (js.map (renamed ρ)) = lastSlot previous js := by
  rw [lastSlot, List.foldl_map, lastSlot]
  simp only [slot_renamed]

end Join

namespace Draft

/-- A renamed route is joined by the renamed joins. -/
theorem hopJoins_renamed (left : Bool) (refine : List Expr) (previous : Slot) (next : Nat)
    (h : Hop) (rest : List Hop) :
    hopJoins left (refine.map (Expr.renamed ρ)) previous next (h.renamed ρ)
        (rest.map (Hop.renamed ρ)) =
      (hopJoins left refine previous next h rest).map (Join.renamed ρ) := by
  induction rest generalizing left previous next h with
  | nil =>
    simp only [List.map_nil, hopJoins, List.map_cons, Join.renamed, Hop.isOptional_renamed,
      Hop.destination_renamed, Hop.keys_renamed, Condition.renamedAll_eq_map, Hop.filters_renamed,
      ← List.map_append, conditionsOn_renamed]
  | cons g gs ih =>
    simp only [hopJoins, List.map_cons, ih, Join.renamed, Hop.isOptional_renamed,
      Hop.destination_renamed, Hop.keys_renamed, Condition.renamedAll_eq_map, Hop.filters_renamed,
      conditionsOn_renamed]

/-- So it is inside a subquery. -/
theorem insideJoins_renamed (previous : Slot) (next : Nat) (hs : List Hop) :
    insideJoins previous next (hs.map (Hop.renamed ρ)) =
      (insideJoins previous next hs).map (Join.renamed ρ) := by
  induction hs generalizing previous next with
  | nil => rfl
  | cons h rest ih =>
    simp only [insideJoins, List.map_cons, ih, Join.renamed, Hop.destination_renamed,
      Hop.keys_renamed, Condition.renamedAll_eq_map, Hop.filters_renamed, conditionsOn_renamed]

/-- So it is on the way back. -/
theorem backJoins_renamed (previous : Slot) (later : Hop) (next : Nat) (hs : List Hop) :
    backJoins previous (later.renamed ρ) next (hs.map (Hop.renamed ρ)) =
      (backJoins previous later next hs).map (Join.renamed ρ) := by
  induction hs generalizing previous later next with
  | nil => rfl
  | cons h rest ih =>
    simp only [backJoins, List.map_cons, ih, Join.renamed, Hop.destination_renamed,
      Hop.mapping_renamed, Condition.renamedAll_eq_map, Hop.filters_renamed, conditionsOn_renamed,
      Condition.renamed]

theorem insideJoins_rest_renamed (previous : Slot) (next : Nat) (route : Route) :
    insideJoins previous next (route.renamed ρ).rest =
      (insideJoins previous next route.rest).map (Join.renamed ρ) :=
  insideJoins_renamed previous next route.rest

theorem insideLast_renamed (next : Nat) (route : Route) :
    insideLast next (route.renamed ρ) = insideLast next route := by
  rw [insideLast, insideJoins_rest_renamed, Join.lastSlot_renamed, insideLast]

theorem insideSlots_renamed (next : Nat) (route : Route) :
    insideSlots next (route.renamed ρ) = insideSlots next route := by
  rw [insideSlots, insideJoins_rest_renamed, Join.slots_renamed, insideSlots]

/-- The subquery along a renamed route is the renamed subquery. -/
theorem subQuery_renamed (next : Nat) (outer : Slot) (route : Route) (filters : List Expr)
    (nested : List Condition) :
    subQuery next outer (route.renamed ρ) (filters.map (Expr.renamed ρ))
        (nested.map (Condition.renamed ρ)) =
      (subQuery next outer route filters nested).renamed ρ := by
  simp only [subQuery, SubQuery.renamed, insideSlots_renamed, insideLast_renamed,
    insideJoins_rest_renamed, Route.first_renamed, Hop.filters_renamed, Hop.destination_renamed,
    Hop.keys_renamed, conditionsOn_renamed, Join.renamedAll_eq_map, Condition.renamedAll_eq_map,
    List.map_append, List.map_cons]

/-! ## drafts -/

theorem next_renamed (d : Draft) : (d.renamed ρ).next = d.next := rfl

/-- Joins may be added before or after renaming. -/
theorem withJoins_renamed (d : Draft) (js : List Join) :
    (d.renamed ρ).withJoins (js.map (Join.renamed ρ)) = (d.withJoins js).renamed ρ := by
  simp only [withJoins, withTables, renamed, Join.tables_renamed, List.map_append]
  rfl

/-- Handles may be registered before or after renaming. -/
theorem register_renamed (d : Draft) (slot : Slot) (handles : List TableAlias) :
    (d.renamed ρ).register slot (handles.map (TableAlias.renamed ρ)) =
      (d.register slot handles).renamed ρ := by
  induction handles generalizing d with
  | nil => rfl
  | cons a handles ih =>
    have hattach : (d.renamed ρ).aliases.attach slot (a.renamed ρ) =
        (d.aliases.attach slot a).renamed ρ := by
      simp [AliasRequests.attach, AliasRequests.renamed, renamed]
    rw [List.map_cons, register, List.foldl_cons, hattach]
    exact ih { d with aliases := d.aliases.attach slot a }

/-- Orderings may be added before or after renaming. -/
theorem addOrder_renamed (d : Draft) (slot : Slot) (terms : List OrderTerm) :
    (d.renamed ρ).addOrder slot (terms.map (OrderTerm.renamed ρ)) =
      (d.addOrder slot terms).renamed ρ := by
  simp only [addOrder, renamed, renamedOn_append, renamedOn_map]

/-- A subquery may be entered before or after renaming. -/
theorem enter_renamed (d : Draft) (route : Route) :
    (d.renamed ρ).enter (route.renamed ρ) = (d.enter route).renamed ρ := by
  have htables : (route.renamed ρ).hops.map Hop.destination = route.hops.map Hop.destination := by
    simp [Route.hops_renamed, Function.comp_def]
  have hslots : insideSlots (d.renamed ρ).next (route.renamed ρ) = insideSlots d.next route :=
    insideSlots_renamed ..
  rw [enter, enter, htables, hslots]
  rfl

/-- A condition finds its join before or after renaming. -/
theorem putOnJoin_renamed (slot : Slot) (c : Condition) (js : List Join) :
    putOnJoin slot (c.renamed ρ) (js.map (Join.renamed ρ)) =
      (putOnJoin slot c js).map (List.map (Join.renamed ρ)) := by
  induction js with
  | nil => rfl
  | cons j js ih =>
    rw [List.map_cons, putOnJoin, putOnJoin, Join.slot_renamed, ih, Join.under_renamed]
    split
    · rfl
    · cases putOnJoin slot c js <;> rfl

/-- A condition may be added before or after renaming. -/
theorem addCondition_renamed (d : Draft) (slot : Slot) (c : Condition) :
    (d.renamed ρ).addCondition slot (c.renamed ρ) = (d.addCondition slot c).renamed ρ := by
  have hjoins : putOnJoin slot (c.renamed ρ) (d.renamed ρ).joins =
      (putOnJoin slot c d.joins).map (List.map (Join.renamed ρ)) := putOnJoin_renamed ..
  rw [addCondition, addCondition, hjoins]
  cases putOnJoin slot c d.joins with
  | some joins => rfl
  | none => simp [renamed]

end Draft

end AssociationQuery
