import AssociationQuery.Association.Route
import AssociationQuery.Chain.Node
import AssociationQuery.Config
import AssociationQuery.Query

/-!
# AssociationQuery.Plan.Draft

A statement in the making.

Planning walks through the chain and adds to a draft: table instances and
handles, joins, conditions, orderings, scopes.  The base table is the first
table instance of every draft.  Plans of further statements wait in the draft as
results, so that what is wrong with them is reported after what is wrong with
the statement itself.
-/

namespace AssociationQuery

structure Draft where
  aliases : AliasRequests
  joins : List Join := []
  /-- Conditions on the base table. -/
  filters : List Condition := []
  order : List (OrderTerm × Slot) := []
  /-- The tables whose columns are selected besides those of the base table. -/
  stars : List Slot := []
  /-- The table instances of subqueries. -/
  hidden : List Slot := []
  layout : Layout
  /-- Plans of further statements. -/
  pending : List (Except AssociationError PrefetchPlan) := []

namespace Draft

/-- The base table of every draft. -/
def root : Slot := ⟨0⟩

/-- A draft that reads a table and selects the given number of columns from it. -/
def start (numbering : AliasNumbering) (table : Table) (width : Nat) : Draft where
  aliases := { numbering, tables := [table.name] }
  layout := .ofWidth width

/-- One more table instance. -/
def addSlot (d : Draft) (t : Table) : Slot × Draft :=
  let (slot, aliases) := d.aliases.addSlot t.name
  (slot, { d with aliases })

/-- Handles on a table instance. -/
def register (d : Draft) (slot : Slot) (handles : List TableAlias) : Draft :=
  { d with aliases := handles.foldl (fun r a => r.attach slot a) d.aliases }

/-- One more join, last in order. -/
def addJoin (d : Draft) (j : Join) : Draft := { d with joins := d.joins ++ [j] }

/-- More orderings by the columns of a table. -/
def addOrder (d : Draft) (slot : Slot) (terms : List OrderTerm) : Draft :=
  { d with order := d.order ++ terms.map fun o => (o, slot) }

/-- Put a condition on the join of a table. -/
def putOnJoin (slot : Slot) (c : Condition) : List Join → Option (List Join)
  | [] => none
  | j :: rest =>
    if j.slot = slot then some (j.under c :: rest) else (putOnJoin slot c rest).map (j :: ·)

/-- A condition on a table: part of its join, or of the whole statement when the
table is not joined. -/
def addCondition (d : Draft) (slot : Slot) (c : Condition) : Draft :=
  match putOnJoin slot c d.joins with
  | some joins => { d with joins }
  | none => { d with filters := d.filters ++ [c] }

/-- The name must be free below the scope. -/
def claimScope (d : Draft) (scope : Nat) (key : String) : Except AssociationError Unit :=
  if d.layout.isTaken scope key then .error (.duplicateScope key) else .ok ()

end Draft

/-! ## conditions of hops -/

/-- The pairs of a mapping with the destination first. -/
def Hop.keys (h : Hop) (slot previous : Slot) : Condition :=
  .keys slot previous (h.mapping.map Prod.swap)

/-- Expressions as conditions on a table. -/
def conditionsOn (slot : Slot) (filters : List Expr) : List Condition :=
  filters.map fun e => .expr e slot

/-- Aggregates belong to the base request, not to an association. -/
def rejectAggregates (association : String) (es : List Expr) : Except AssociationError Unit :=
  if es.any Expr.hasAggregate then .error (.aggregateInAssociation association) else .ok ()

/-- A node must start from the table it hangs from and carry no aggregate. -/
def ChainNode.check (n : ChainNode) (parent : Table) : Except AssociationError Unit :=
  if Text.Casing.sameIgnoringCase n.association.origin.name parent.name then
    rejectAggregates n.association.name (n.filters ++ n.order.map OrderTerm.expr)
  else
    .error (.wrongParent n.association.name n.association.origin.name parent.name)

/-- The joins of an association whose filters carry no aggregate. -/
def plainRoute (requirement : Requirement) (a : Association) : Except AssociationError Route := do
  let route ← a.routeFor requirement
  rejectAggregates a.name route.filters
  return route

end AssociationQuery
