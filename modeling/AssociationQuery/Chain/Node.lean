import AssociationQuery.Association.Basic
import AssociationQuery.Expr.Equality

/-!
# AssociationQuery.Chain.Node

Associations attached to a request, and to each other.

A node asks for an association of the table it hangs from: with its rows in the
result or for filtering only, required or optional.  Two siblings for one
association under one name are the same wish twice, so attaching a node next to
such a sibling merges it in: the stronger demand counts, filters and orderings
add up, and children are attached in turn.
-/

namespace AssociationQuery

/-- Are the associated rows part of the result? -/
inductive Inclusion where
  /-- They form a scope of their own. -/
  | including
  /-- They only filter and order. -/
  | joining
  deriving DecidableEq, Repr

structure ChainNode where
  association : Association
  /-- The name of the scope. -/
  key : String
  inclusion : Inclusion
  requirement : Requirement
  filters : List Expr
  order : List OrderTerm
  aliases : List TableAlias
  children : List ChainNode

namespace ChainNode

section forest

variable {P : List ChainNode → Prop}

mutual

/-- What holds of all forests holds of the children of each node. -/
theorem children_of_forest (nil : P []) (cons : ∀ n ns, P n.children → P ns → P (n :: ns)) :
    (n : ChainNode) → P n.children
  | ⟨_, _, _, _, _, _, _, children⟩ => forest_induction nil cons children

/-- What holds of siblings as soon as it holds of the children of the first one and of the
others holds of all siblings. -/
@[elab_as_elim]
theorem forest_induction (nil : P []) (cons : ∀ n ns, P n.children → P ns → P (n :: ns)) :
    (ns : List ChainNode) → P ns
  | [] => nil
  | n :: ns => cons n ns (children_of_forest nil cons n) (forest_induction nil cons ns)

end

end forest

mutual

/-- The node and all below it, each before those below it. -/
def everywhere : ChainNode → List ChainNode
  | ⟨association, key, inclusion, requirement, filters, order, aliases, children⟩ =>
    ⟨association, key, inclusion, requirement, filters, order, aliases, children⟩ ::
      everywhereAll children

def everywhereAll : List ChainNode → List ChainNode
  | [] => []
  | n :: ns => everywhere n ++ everywhereAll ns

end

/-- A node everywhere is the node itself, then everything below it. -/
theorem everywhere_eq (n : ChainNode) : n.everywhere = n :: everywhereAll n.children := by
  cases n
  rfl

end ChainNode

/-- Add a handle unless it is there. -/
def addHandle (handles : List TableAlias) (a : TableAlias) : List TableAlias :=
  if handles.any a.same then handles else handles ++ [a]

def Inclusion.stronger : Inclusion → Inclusion → Inclusion
  | _, including => including
  | i, joining => i

def Requirement.stronger : Requirement → Requirement → Requirement
  | _, required => required
  | r, optional => r

namespace ChainNode

/-- A node that asks for an association.  The association's own filters and
orderings become the node's, so that they count apart from what is asked for. -/
def ofAssociation (a : Association) : ChainNode where
  association := a.bare
  key := a.name
  inclusion := .including
  requirement := .required
  filters := a.filters
  order := a.order
  aliases := []
  children := []

/-- Do the two nodes ask for one association under one name? -/
def alike (a b : ChainNode) : Bool := a.key == b.key && a.association.equal b.association

/-- Change the first sibling that is alike to a node, or add the node as the last. -/
def place (merged : ChainNode → ChainNode) (node : ChainNode) : List ChainNode → List ChainNode
  | [] => [node]
  | s :: rest => if s.alike node then merged s :: rest else s :: place merged node rest

mutual

/-- A node with the wishes of another one added. -/
def merge (a : ChainNode) : ChainNode → ChainNode
  | ⟨_, _, inclusion, requirement, filters, order, aliases, children⟩ =>
    { a with
      inclusion := a.inclusion.stronger inclusion
      requirement := a.requirement.stronger requirement
      filters := a.filters ++ filters
      order := a.order ++ order
      aliases := aliases.foldl addHandle a.aliases
      children := attachAll a.children children }

/-- Attach nodes to siblings, one after the other. -/
def attachAll (siblings : List ChainNode) : List ChainNode → List ChainNode
  | [] => siblings
  | c :: rest => attachAll (place (fun s => merge s c) c siblings) rest

end

/-- Attach a node to siblings. -/
def attach (siblings : List ChainNode) (node : ChainNode) : List ChainNode :=
  place (fun s => merge s node) node siblings

/-! ## building -/

/-- One more condition on the associated rows. -/
def filter (n : ChainNode) (e : Expr) : ChainNode := { n with filters := n.filters ++ [e] }

/-- One more ordering by the associated rows. -/
def orderBy (n : ChainNode) (o : OrderTerm) : ChainNode := { n with order := n.order ++ [o] }

/-- A handle on the associated table. -/
def aliased (n : ChainNode) (a : TableAlias) : ChainNode :=
  { n with aliases := addHandle n.aliases a }

/-- The node under another name. -/
def named (n : ChainNode) (key : String) : ChainNode := { n with key }

/-- A node with a further association hanging from it. -/
def attached (n : ChainNode) (inclusion : Inclusion) (requirement : Requirement)
    (child : ChainNode) : ChainNode :=
  { n with children := attach n.children { child with inclusion, requirement } }

end ChainNode

end AssociationQuery
