import AssociationQuery.Chain.Node
import AssociationQuery.Schema.Basic

/-!
# AssociationQuery.Chain.Request

A query over a base table with associations hanging from it.

Building a request only collects: terms of one kind keep the order in which they
are given, and nothing is looked at before the request is compiled.
-/

namespace AssociationQuery

structure Request where
  table : Table
  aliases : List TableAlias := []
  filters : List Expr := []
  having : List Expr := []
  order : List OrderTerm := []
  /-- Further columns of the base rows: expressions and their names. -/
  annotations : List (Expr × String) := []
  chain : List ChainNode := []
  limit : Option Nat := none
  offset : Option Nat := none
  distinct : Bool := false

namespace Request

/-- All rows of a table of the catalogue. -/
def ofTable (schema : Schema) (name : String) : Except Error Request :=
  return { table := ← schema.describe name }

/-- All rows of the table that an association starts from. -/
def ofOrigin (a : Association) : Request := { table := a.origin }

/-- One more condition on the base rows. -/
def filter (r : Request) (e : Expr) : Request := { r with filters := r.filters ++ [e] }

/-- One more condition on groups of rows. -/
def havingTerm (r : Request) (e : Expr) : Request := { r with having := r.having ++ [e] }

/-- One more ordering of the base rows. -/
def orderBy (r : Request) (o : OrderTerm) : Request := { r with order := r.order ++ [o] }

/-- A handle on the base table. -/
def aliased (r : Request) (a : TableAlias) : Request :=
  { r with aliases := addHandle r.aliases a }

/-- One more column of the base rows. -/
def annotated (r : Request) (e : Expr) (name : String) : Request :=
  { r with annotations := r.annotations ++ [(e, name)] }

def withLimit (r : Request) (n : Nat) : Request := { r with limit := some n }

def withOffset (r : Request) (n : Nat) : Request := { r with offset := some n }

def withDistinct (r : Request) : Request := { r with distinct := true }

/-- The request with a further association hanging from the base table. -/
def attached (r : Request) (inclusion : Inclusion) (requirement : Requirement)
    (child : ChainNode) : Request :=
  { r with chain := ChainNode.attach r.chain { child with inclusion, requirement } }

end Request

end AssociationQuery
