import AssociationQuery.Identifier

/-!
# AssociationQuery.Dialect

The three databases whose spelling the library knows.  They differ in how a
placeholder and a quoted identifier look and in a few clauses.
-/

namespace AssociationQuery

inductive Dialect where
  | postgres
  | sqlite
  | mysql
  deriving DecidableEq, Repr

namespace Dialect

/-- The placeholder of the parameter at a position, counted from one.  One
dialect does not number its placeholders. -/
def placeholder : Dialect → Nat → String
  | postgres, n => "$" ++ toString n
  | sqlite, n => "?" ++ toString n
  | mysql, _ => "?"

/-- The mark around a quoted identifier. -/
def mark : Dialect → Char
  | postgres | sqlite => '"'
  | mysql => '\x60'

/-- A quoted identifier. -/
def quoteIdentifier (d : Dialect) (name : String) : String := Identifier.quote d.mark name

end Dialect

end AssociationQuery
