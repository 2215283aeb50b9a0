import AssociationQuery.Text.Casing

/-!
# AssociationQuery.Table

A table as associations see it: its name, its columns in the order in which the
database returns them, and its primary key.
-/

namespace AssociationQuery

structure Table where
  name : String
  columns : List String
  primaryKey : List String
  deriving DecidableEq, Repr

namespace Table

/-- The number of columns. -/
def width (t : Table) : Nat := t.columns.length

/-- The position of a column: of that very name, else up to the case of letters. -/
def columnIndex? (t : Table) (column : String) : Option Nat :=
  t.columns.findIdx? (· == column)
    <|> t.columns.findIdx? fun c => Text.Casing.sameIgnoringCase c column

end Table

end AssociationQuery
