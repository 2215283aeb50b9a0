import AssociationQuery.Association.Basic

/-!
# AssociationQuery.Association.Route

The joins that lead along an association.

A direct association is one hop; a through association takes the hops of its
pivot and then those of its target.  Filters stay with the hop of the
association that has them, and filters of a through association go to its last
hop.  Only the last table is ordered by: the orderings of a pivot are dropped.

A route is asked for with a requirement, which its target takes over.  The pivot
takes it over too, except that an optional pivot has no place below a required
association.
-/

namespace AssociationQuery

/-- One join along a direct association, with all filters on the table that it
leads to. -/
structure Hop where
  association : Association
  requirement : Requirement
  filters : List Expr

namespace Hop

/-- The table that the hop leads to. -/
def destination (h : Hop) : Table := h.association.destination

/-- Pairs of key columns, of the table before and of the table that the hop leads to. -/
def mapping (h : Hop) : List (String × String) := h.association.mapping

def isOptional (h : Hop) : Bool := h.requirement = .optional

end Hop

/-- One or more joins in a row, and the ordering of the last table. -/
structure Route where
  first : Hop
  rest : List Hop
  order : List OrderTerm

namespace Route

def hops (r : Route) : List Hop := r.first :: r.rest

/-- Add filters to the last of one or more hops. -/
def refineLast (filters : List Expr) : Hop → List Hop → Hop × List Hop
  | h, [] => ({ h with filters := h.filters ++ filters }, [])
  | h, g :: gs =>
    let (g, gs) := refineLast filters g gs
    (h, g :: gs)

/-- One route after the other. -/
def append (r s : Route) : Route := ⟨r.first, r.rest ++ s.hops, s.order⟩

/-- More filters and orderings on the last table. -/
def refine (r : Route) (filters : List Expr) (order : List OrderTerm) : Route :=
  let (first, rest) := refineLast filters r.first r.rest
  ⟨first, rest, r.order ++ order⟩

/-- The last of one or more hops, and those before it from back to front. -/
def turn (passed : List Hop) : Hop → List Hop → Hop × List Hop
  | h, [] => (h, passed)
  | h, g :: gs => turn (h :: passed) g gs

/-- The last hop, and those before it from back to front. -/
def backwards (r : Route) : Hop × List Hop := turn [] r.first r.rest

/-- One route after the other has the hops of both. -/
theorem hops_append (r s : Route) : (r.append s).hops = r.hops ++ s.hops := by
  simp [append, hops]

/-- Filters on the last hop leave the associations of the hops as they are. -/
theorem refineLast_associations (filters : List Expr) (h : Hop) (rest : List Hop) :
    ((refineLast filters h rest).1 :: (refineLast filters h rest).2).map Hop.association
      = (h :: rest).map Hop.association := by
  induction rest generalizing h with
  | nil => rfl
  | cons g gs ih => simpa [refineLast] using ih g

/-- Refining leaves the joined associations as they are. -/
theorem associations_refine (r : Route) (filters : List Expr) (order : List OrderTerm) :
    (r.refine filters order).hops.map Hop.association = r.hops.map Hop.association :=
  refineLast_associations filters r.first r.rest

/-- Turning a route around keeps all its hops, in the other order. -/
theorem reverse_turn (passed : List Hop) (h : Hop) (rest : List Hop) :
    (turn passed h rest).2.reverse ++ [(turn passed h rest).1] = passed.reverse ++ h :: rest := by
  induction rest generalizing passed h with
  | nil => rfl
  | cons g gs ih => simp [turn, ih]

/-- Going backwards visits every hop once. -/
theorem reverse_backwards (r : Route) : r.backwards.2.reverse ++ [r.backwards.1] = r.hops :=
  reverse_turn [] r.first r.rest

/-- The filters on all tables of the route. -/
def filters (r : Route) : List Expr := r.hops.flatMap Hop.filters

end Route

namespace Association

/-- The requirement with which a pivot is joined inside the through association
of the given name. -/
def pivotRequirement (name : String) (pivot : Association) (requirement : Requirement) :
    Except AssociationError Requirement :=
  match pivot.optionality, requirement with
  | some .optional, .required => .error (.optionalPivot name pivot.name)
  | some .optional, .optional => .ok .optional
  | _, requirement => .ok requirement

/-- The joins of an association that is asked for with a requirement. -/
def routeFor (requirement : Requirement) : Association → Except AssociationError Route
  | a@(direct _ _ _ _ _ filters order _) => .ok ⟨⟨a, requirement, filters⟩, [], order⟩
  | through name pivot target filters order _ => do
    let pivotRoute ← pivot.routeFor (← pivotRequirement name pivot requirement)
    let targetRoute ← target.routeFor requirement
    return (pivotRoute.append targetRoute).refine filters order

end Association

end AssociationQuery
