/-!
# AssociationQuery.Alias.Basic

Handles on table instances.

A statement may read one table several times, so expressions refer to a table
instance through a handle.  Two handles are the same exactly when their
identities are; a handle may carry a name, which is then the alias that the
statement uses, or leave the choice to the allocation of aliases.
-/

namespace AssociationQuery

structure TableAlias where
  id : Nat
  /-- The name that the handle insists on. -/
  locked : Option String := none
  deriving DecidableEq, Repr

namespace TableAlias

/-- Are the two handles the same? -/
def same (a b : TableAlias) : Bool := a.id == b.id

/-- The handle as messages show it. -/
def shown (a : TableAlias) : String := a.locked.getD "<unnamed>"

end TableAlias

/-- How instances of a repeated table are numbered. -/
inductive AliasNumbering where
  /-- The first instance keeps the table's name, later ones are numbered. -/
  | keepFirst
  /-- When the table's name alone would be ambiguous, every instance is numbered. -/
  | numberAll
  deriving DecidableEq, Repr

/-- A table instance of one statement, by its position among them. -/
structure Slot where
  index : Nat
  deriving DecidableEq, Repr

end AssociationQuery
