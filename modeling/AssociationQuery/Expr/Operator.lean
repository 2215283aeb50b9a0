/-!
# AssociationQuery.Expr.Operator

The operators of SQL expressions and how tightly they bind.
-/

namespace AssociationQuery

inductive BinaryOp where
  | eq | ne | lt | le | gt | ge
  | and | or
  | add | sub | mul | div
  | concat
  deriving DecidableEq, Repr

namespace BinaryOp

def symbol : BinaryOp → String
  | eq => "="
  | ne => "<>"
  | lt => "<"
  | le => "<="
  | gt => ">"
  | ge => ">="
  | and => "AND"
  | or => "OR"
  | add => "+"
  | sub => "-"
  | mul => "*"
  | div => "/"
  | concat => "||"

/-- How tightly the operator binds; a larger number binds tighter. -/
def precedence : BinaryOp → Nat
  | or => 1
  | and => 2
  | eq | ne | lt | le | gt | ge => 3
  | add | sub | concat => 7
  | mul | div => 8

/-- Does a run of the operator mean the same however it is grouped? -/
def isAssociative : BinaryOp → Bool
  | and | or | add | mul | concat => true
  | _ => false

end BinaryOp

inductive UnaryOp where
  | not
  | neg
  deriving DecidableEq, Repr

/-- The tightness of tests such as IN, LIKE and IS NULL, that of comparisons. -/
def testPrecedence : Nat := 3

/-- The tightness of what needs no brackets anywhere. -/
def atomPrecedence : Nat := 9

end AssociationQuery
