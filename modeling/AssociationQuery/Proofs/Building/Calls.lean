import AssociationQuery.Chain.Request

/-!
# AssociationQuery.Proofs.Building.Calls

The calls by which nodes and requests are built, as data.

A script lists the calls in the order in which they are made, and for every node that is
attached the script that makes it.  `parts` takes the calls apart by their kinds, at every
depth: two scripts with the same parts make the same calls of each kind in the same order, but
may mix the kinds in other ways, and may put a condition or an ordering on an association
instead of the node made from it.
-/

namespace AssociationQuery

/-! ## scripts -/

/-- A call that refines an association. -/
inductive AssociationCall where
  | filter (e : Expr)
  | orderBy (o : OrderTerm)
  | named (name : String)
  /-- How the association is joined as a pivot. -/
  | settle (r : Requirement)

mutual

/-- A node made from an association, which some calls refine before and others after. -/
inductive NodeScript where
  | mk (base : Association) (refinements : List AssociationCall) (calls : List NodeCall)

inductive NodeCall where
  | filter (e : Expr)
  | orderBy (o : OrderTerm)
  | aliased (a : TableAlias)
  | named (key : String)
  | attach (inclusion : Inclusion) (requirement : Requirement) (child : NodeScript)

end

inductive RequestCall where
  | filter (e : Expr)
  | having (e : Expr)
  | orderBy (o : OrderTerm)
  | annotated (e : Expr) (name : String)
  | aliased (a : TableAlias)
  | limit (n : Nat)
  | offset (n : Nat)
  | distinct
  | attach (inclusion : Inclusion) (requirement : Requirement) (child : NodeScript)

/-- A request for the rows of a table, and the calls on it. -/
structure RequestScript where
  table : Table
  calls : List RequestCall

def AssociationCall.run (a : Association) : AssociationCall → Association
  | filter e => a.filter e
  | orderBy o => a.orderBy o
  | named name => a.named name
  | settle r => a.withOptionality r

mutual

/-- The node that a script makes. -/
def NodeScript.build : NodeScript → ChainNode
  | ⟨base, refinements, calls⟩ =>
    NodeCall.runAll (.ofAssociation (refinements.foldl AssociationCall.run base)) calls

def NodeCall.run (n : ChainNode) : NodeCall → ChainNode
  | .filter e => n.filter e
  | .orderBy o => n.orderBy o
  | .aliased a => n.aliased a
  | .named key => n.named key
  | .attach inclusion requirement child => n.attached inclusion requirement child.build

def NodeCall.runAll (n : ChainNode) : List NodeCall → ChainNode
  | [] => n
  | c :: cs => NodeCall.runAll (NodeCall.run n c) cs

end

def RequestCall.run (r : Request) : RequestCall → Request
  | filter e => r.filter e
  | having e => r.havingTerm e
  | orderBy o => r.orderBy o
  | annotated e name => r.annotated e name
  | aliased a => r.aliased a
  | limit n => r.withLimit n
  | offset n => r.withOffset n
  | distinct => r.withDistinct
  | attach inclusion requirement child => r.attached inclusion requirement child.build

/-- The request that a script makes. -/
def RequestScript.build (s : RequestScript) : Request :=
  s.calls.foldl RequestCall.run { table := s.table }

/-! ## calls by their kinds -/

namespace AssociationCall

@[simp] def filter? : AssociationCall → Option Expr
  | filter e => some e
  | _ => none

@[simp] def order? : AssociationCall → Option OrderTerm
  | orderBy o => some o
  | _ => none

@[simp] def name? : AssociationCall → Option String
  | named name => some name
  | _ => none

@[simp] def requirement? : AssociationCall → Option Requirement
  | settle r => some r
  | _ => none

end AssociationCall

namespace NodeCall

@[simp] def filter? : NodeCall → Option Expr
  | filter e => some e
  | _ => none

@[simp] def order? : NodeCall → Option OrderTerm
  | orderBy o => some o
  | _ => none

@[simp] def alias? : NodeCall → Option TableAlias
  | aliased a => some a
  | _ => none

@[simp] def key? : NodeCall → Option String
  | named key => some key
  | _ => none

end NodeCall

namespace RequestCall

@[simp] def filter? : RequestCall → Option Expr
  | filter e => some e
  | _ => none

@[simp] def having? : RequestCall → Option Expr
  | having e => some e
  | _ => none

@[simp] def order? : RequestCall → Option OrderTerm
  | orderBy o => some o
  | _ => none

@[simp] def annotation? : RequestCall → Option (Expr × String)
  | annotated e name => some (e, name)
  | _ => none

@[simp] def alias? : RequestCall → Option TableAlias
  | aliased a => some a
  | _ => none

@[simp] def limit? : RequestCall → Option Nat
  | limit n => some n
  | _ => none

@[simp] def offset? : RequestCall → Option Nat
  | offset n => some n
  | _ => none

@[simp] def distinct? : RequestCall → Option Unit
  | distinct => some ()
  | _ => none

end RequestCall

/-- The calls that make a node, by their kinds; conditions and orderings on the association
come before those on the node. -/
structure NodeParts where
  base : Association
  names : List String
  requirements : List Requirement
  filters : List Expr
  order : List OrderTerm
  aliases : List TableAlias
  keys : List String
  attached : List (Inclusion × Requirement × NodeParts)

mutual

def NodeScript.parts : NodeScript → NodeParts
  | ⟨base, refinements, calls⟩ =>
    { base
      names := refinements.filterMap AssociationCall.name?
      requirements := refinements.filterMap AssociationCall.requirement?
      filters := refinements.filterMap AssociationCall.filter? ++ calls.filterMap NodeCall.filter?
      order := refinements.filterMap AssociationCall.order? ++ calls.filterMap NodeCall.order?
      aliases := calls.filterMap NodeCall.alias?
      keys := calls.filterMap NodeCall.key?
      attached := NodeCall.attachedParts calls }

@[simp] def NodeCall.attached? : NodeCall → Option (Inclusion × Requirement × NodeParts)
  | .attach inclusion requirement child => some (inclusion, requirement, child.parts)
  | _ => none

@[simp] def NodeCall.attachedParts : List NodeCall → List (Inclusion × Requirement × NodeParts)
  | [] => []
  | c :: cs => (NodeCall.attached? c).toList ++ NodeCall.attachedParts cs

end

@[simp] def RequestCall.attached? : RequestCall → Option (Inclusion × Requirement × NodeParts)
  | attach inclusion requirement child => some (inclusion, requirement, child.parts)
  | _ => none

/-- The calls that make a request, by their kinds. -/
structure RequestParts where
  table : Table
  filters : List Expr
  having : List Expr
  order : List OrderTerm
  annotations : List (Expr × String)
  aliases : List TableAlias
  limits : List Nat
  offsets : List Nat
  distincts : List Unit
  attached : List (Inclusion × Requirement × NodeParts)

def RequestScript.parts (s : RequestScript) : RequestParts where
  table := s.table
  filters := s.calls.filterMap RequestCall.filter?
  having := s.calls.filterMap RequestCall.having?
  order := s.calls.filterMap RequestCall.order?
  annotations := s.calls.filterMap RequestCall.annotation?
  aliases := s.calls.filterMap RequestCall.alias?
  limits := s.calls.filterMap RequestCall.limit?
  offsets := s.calls.filterMap RequestCall.offset?
  distincts := s.calls.filterMap RequestCall.distinct?
  attached := s.calls.filterMap RequestCall.attached?

end AssociationQuery
