import AssociationQuery.Plan.Draft

/-!
# AssociationQuery.Plan.Existence

Conditions that an associated row exists.

The first hop is the table of the subquery and its keys and filters are
conditions of it; later hops are joined.  Required associations below the node
must exist in turn, each in a subquery inside this one; optional ones cannot
exclude a row and are left out.
-/

namespace AssociationQuery.Draft

/-- Join the later hops of a subquery: the joins, their table instances, and the
last of these. -/
def joinInside (previous : Slot) : List Hop → Draft → List Join × List Slot × Slot × Draft
  | [], d => ([], [], previous, d)
  | h :: rest, d =>
    let (slot, d) := d.addSlot h.destination
    let join := Join.mk .inner slot h.destination
      (h.keys slot previous :: conditionsOn slot h.filters)
    let (joins, slots, last, d) := joinInside slot rest d
    (join :: joins, slot :: slots, last, d)

mutual

/-- The subquery for a node below the table instance `outer`. -/
def existence (outer : Slot) : ChainNode → Draft → Except AssociationError (SubQuery × Draft)
  | ⟨association, _, _, _, filters, _, aliases, children⟩, d => do
    let route ← plainRoute .required association
    let (slot, d) := d.addSlot route.first.destination
    let (joins, slots, last, d) := joinInside slot route.rest d
    let d := { d with hidden := d.hidden ++ slot :: slots }
    let (nested, d) ← existences last association.destination children d
    let conditions := route.first.keys slot outer :: conditionsOn slot route.first.filters
      ++ conditionsOn last filters ++ nested
    return (.mk slot (slot :: slots) route.first.destination joins conditions,
      d.register last aliases)

/-- The conditions for the required ones of several nodes below a table. -/
def existences (outer : Slot) (table : Table) :
    List ChainNode → Draft → Except AssociationError (List Condition × Draft)
  | [], d => .ok ([], d)
  | n :: rest, d => do
    if n.requirement = .required then
      n.check table
      let (q, d) ← existence outer n d
      let (conditions, d) ← existences outer table rest d
      return (.existence q :: conditions, d)
    else existences outer table rest d

end

end AssociationQuery.Draft
