import AssociationQuery.Expr.Basic

/-!
# AssociationQuery.Expr.Columns

Moving an expression onto another table, and finding the aggregates in it.

Both walk through the expression itself and stop at an aggregate: the filters of
the association that it ranges over belong to that association's own tables.
-/

namespace AssociationQuery

/-- A column of the attached table becomes one of the handle's; others stay. -/
def TableRef.rerooted (handle : TableAlias) : TableRef → TableRef
  | current => .handle handle
  | t => t

namespace Expr

mutual

/-- The expression with its columns of the attached table moved onto the table
instance of a handle. -/
def rerooted (handle : TableAlias) : Expr → Expr
  | column t n => column (t.rerooted handle) n
  | binary op a b => binary op (rerooted handle a) (rerooted handle b)
  | unary op a => unary op (rerooted handle a)
  | call f args => call f (rerootedAll handle args)
  | inList a vs n => inList (rerooted handle a) (rerootedAll handle vs) n
  | isNull a n => isNull (rerooted handle a) n
  | like a p n => like (rerooted handle a) p n
  | paren a => paren (rerooted handle a)
  | e => e

def rerootedAll (handle : TableAlias) : List Expr → List Expr
  | [] => []
  | e :: es => rerooted handle e :: rerootedAll handle es

end

mutual

/-- The associations that the aggregates of the expression range over, from left
to right. -/
def aggregates : Expr → List Association
  | aggregate _ a _ => [a]
  | binary _ a b => aggregates a ++ aggregates b
  | unary _ a | isNull a _ | like a _ _ | paren a => aggregates a
  | call _ args => aggregatesAll args
  | inList a vs _ => aggregates a ++ aggregatesAll vs
  | column .. | literal _ | raw _ | countStar => []

def aggregatesAll : List Expr → List Association
  | [] => []
  | e :: es => aggregates e ++ aggregatesAll es

end

/-- Is there an aggregate in the expression? -/
def hasAggregate (e : Expr) : Bool := !e.aggregates.isEmpty

end Expr

/-- The ordering moved onto the table instance of a handle. -/
def OrderTerm.rerooted (handle : TableAlias) (o : OrderTerm) : OrderTerm :=
  .mk (o.expr.rerooted handle) o.direction o.nulls

end AssociationQuery
