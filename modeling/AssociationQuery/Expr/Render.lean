import AssociationQuery.Association.Basic
import AssociationQuery.Expr.Columns
import AssociationQuery.Sql.Token

/-!
# AssociationQuery.Expr.Render

Expressions and orderings as SQL.

Brackets are written where the operator table asks for them and where the
caller put them: an operand that binds more loosely than its operator, the right
operand of an operator that does not associate, and every operand of a test that
is itself a test or binds more loosely.
-/

namespace AssociationQuery

/-- What an expression needs to know about the statement around it. -/
structure Resolver where
  /-- The alias of the table that the expression is attached to, if it has one. -/
  current : Option String
  /-- The alias of the table instance of a handle. -/
  handle : TableAlias → Except AssociationError String
  /-- The alias of the table that an aggregate over an association ranges over. -/
  aggregate : Association → Except AssociationError String

/-- Outside of a statement columns stay unqualified and only handles with a name
of their own can be written. -/
def Resolver.standalone : Resolver where
  current := none
  handle a := match a.locked with
    | some name => .ok name
    | none => .error .unnamedAlias
  aggregate _ := .error .aggregateOutsideRequest

/-! ## tightness -/

/-- How tightly the outermost operator of an expression binds. -/
def Expr.precedence : Expr → Nat
  | binary op _ _ => op.precedence
  | unary .not _ => BinaryOp.and.precedence
  | inList .. | isNull .. | like .. => testPrecedence
  | _ => atomPrecedence

/-- Does the left operand need brackets? -/
def BinaryOp.wrapsLeft (op : BinaryOp) (left : Expr) : Bool := left.precedence < op.precedence

/-- Does the right operand need brackets? -/
def BinaryOp.wrapsRight (op : BinaryOp) (right : Expr) : Bool :=
  right.precedence < op.precedence
    || (right.precedence == op.precedence && !op.isAssociative)

/-- Does the operand need brackets? -/
def UnaryOp.wraps : UnaryOp → Expr → Bool
  | not, e => e.precedence < testPrecedence
  | neg, e => e.precedence < atomPrecedence

/-- Does the operand of a test need brackets? -/
def Expr.wrapsInTest (e : Expr) : Bool := e.precedence ≤ testPrecedence

/-! ## expressions -/

/-- The column by which rows of a table are counted. -/
def Table.countedColumn (t : Table) : String :=
  (t.primaryKey.head? <|> t.columns.head?).getD "rowid"

open Token in
/-- An aggregate over the table instance of the given alias. -/
def AggregateFunction.tokens (f : AggregateFunction) (destination : Table) (table : String)
    (column : Option String) : List Token :=
  let counted :=
    word .countDistinctOpening :: Token.column table destination.countedColumn ++ [word .closing]
  let applied (w : Keyword) := word w :: Token.column table (column.getD "") ++ [word .closing]
  match f with
  | count => counted
  | isEmpty => word .opening :: counted ++ [word .equalsZero, word .closing]
  | sum => applied .sumOpening
  | average => applied .averageOpening
  | min => applied .minOpening
  | max => applied .maxOpening

namespace Expr

open Token

mutual

/-- The tokens of an expression. -/
def render (d : Dialect) (r : Resolver) : Expr → Except AssociationError (List Token)
  | column .current name =>
    match r.current with
    | some table => .ok (Token.column table name)
    | none => .ok [ident name]
  | column (.handle a) name => return Token.column (← r.handle a) name
  | column (.named table) name => .ok (Token.column table name)
  | literal v => .ok [param v]
  | binary o a b => do
    let left := bracketed (o.wrapsLeft a) (← render d r a)
    let right := bracketed (o.wrapsRight b) (← render d r b)
    if o = .concat ∧ d = .mysql then
      return word .concatOpening :: left ++ word .comma :: right ++ [word .closing]
    else return left ++ Token.op o :: right
  | unary o a => do
    let operand := bracketed (o.wraps a) (← render d r a)
    match o with
    | .not => return word .not :: operand
    | .neg => return word .minus :: operand
  | call f args => do
    return Token.call f :: listed (← renderAll d r args) ++ [word .closing]
  | inList _ [] negated => .ok [word (if negated then .always else .never)]
  | inList a (v :: vs) negated => do
    let operand := bracketed a.wrapsInTest (← render d r a)
    let values ← renderAll d r (v :: vs)
    return operand ++ word (if negated then .notInOpening else .inOpening) :: listed values
      ++ [word .closing]
  | isNull a negated => do
    let operand := bracketed a.wrapsInTest (← render d r a)
    return operand ++ [word (if negated then .isNotNull else .isNull)]
  | like a pattern negated => do
    let operand := bracketed a.wrapsInTest (← render d r a)
    return operand ++ [word (if negated then .notLike else .like), param (.text pattern)]
  | raw sql => .ok [Token.raw sql]
  | paren a => return bracketed true (← render d r a)
  | countStar => .ok [word .countStar]
  | aggregate f a c => do
    return f.tokens a.destination (← r.aggregate a) c

/-- The tokens of each expression of a list. -/
def renderAll (d : Dialect) (r : Resolver) :
    List Expr → Except AssociationError (List (List Token))
  | [] => .ok []
  | e :: es => do
    let ts ← render d r e
    return ts :: (← renderAll d r es)

end

/-- The tokens of an expression as one term of a conjunction. -/
def renderConjunct (d : Dialect) (r : Resolver) (e : Expr) :
    Except AssociationError (List Token) :=
  return bracketed (e.precedence < BinaryOp.and.precedence) (← e.render d r)

/-- An expression on its own, outside of a statement. -/
def toSql (d : Dialect) (e : Expr) : Except AssociationError BoundSql :=
  return bind d (← e.render d .standalone)

end Expr

/-! ## orderings -/

def Direction.keyword : Direction → Keyword
  | asc => .asc
  | desc => .desc

open Token in
/-- The tokens of one term of an ordering.  A dialect that cannot say where NULL
goes sorts by the test for it first, and so writes the expression twice. -/
def OrderTerm.render (d : Dialect) (r : Resolver) (o : OrderTerm) :
    Except AssociationError (List Token) := do
  let e ← o.expr.render d r
  let sorted := e ++ [word o.direction.keyword]
  match o.nulls, d with
  | none, _ => return sorted
  | some .first, .mysql =>
    return e ++ word .isNull :: word .desc :: word .comma :: mentioned sorted
  | some .last, .mysql =>
    return e ++ word .isNull :: word .asc :: word .comma :: mentioned sorted
  | some .first, _ => return sorted ++ [word .nullsFirst]
  | some .last, _ => return sorted ++ [word .nullsLast]

end AssociationQuery
