import AssociationQuery.Alias.Basic
import AssociationQuery.Association.Kind
import AssociationQuery.Expr.Operator
import AssociationQuery.Table
import AssociationQuery.Value.Basic

/-!
# AssociationQuery.Expr.Basic

Expressions, orderings and associations.

The three belong together: an association carries filters and orderings of its
own, and an expression may be an aggregate over an association.

A column of an expression belongs to a named table, to a table instance known by
a handle, or to the table that the expression is attached to, whichever that
turns out to be.
-/

namespace AssociationQuery

/-- The table that a column belongs to. -/
inductive TableRef where
  /-- The table that the expression is attached to. -/
  | current
  /-- The table instance of a handle. -/
  | handle (a : TableAlias)
  /-- A table or alias by its name. -/
  | named (table : String)
  deriving DecidableEq, Repr

inductive Direction where
  | asc
  | desc
  deriving DecidableEq, Repr

/-- Where NULL goes in an ordering. -/
inductive NullsOrder where
  | first
  | last
  deriving DecidableEq, Repr

mutual

inductive Expr where
  | column (table : TableRef) (name : String)
  /-- A value; it is always bound to a placeholder. -/
  | literal (value : Value)
  | binary (op : BinaryOp) (left right : Expr)
  | unary (op : UnaryOp) (operand : Expr)
  | call (function : String) (args : List Expr)
  | inList (operand : Expr) (values : List Expr) (negated : Bool)
  | isNull (operand : Expr) (negated : Bool)
  | like (operand : Expr) (pattern : String) (negated : Bool)
  /-- SQL text, taken as it is. -/
  | raw (sql : String)
  | paren (inner : Expr)
  /-- The number of rows. -/
  | countStar
  /-- A value computed over the rows that an association reaches from the base table. -/
  | aggregate (function : AggregateFunction) (association : Association) (column : Option String)

/-- One term of an ordering. -/
inductive OrderTerm where
  | mk (expr : Expr) (direction : Direction) (nulls : Option NullsOrder)

/-- An association from the rows of one table to the rows of another. -/
inductive Association where
  /-- Two tables joined by columns: `mapping` pairs columns of the origin with
  columns of the destination. -/
  | direct (kind : DirectKind) (name : String) (origin destination : Table)
      (mapping : List (String × String)) (filters : List Expr) (order : List OrderTerm)
      (optionality : Option Requirement)
  /-- Two associations one after the other: to the pivot and on to the target. -/
  | through (name : String) (pivot target : Association) (filters : List Expr)
      (order : List OrderTerm) (optionality : Option Requirement)

end

/-! ## orderings -/

namespace OrderTerm

def expr : OrderTerm → Expr
  | mk e _ _ => e

def direction : OrderTerm → Direction
  | mk _ d _ => d

def nulls : OrderTerm → Option NullsOrder
  | mk _ _ n => n

/-- The same ordering with NULL in a given place. -/
def withNulls (o : OrderTerm) (n : NullsOrder) : OrderTerm := mk o.expr o.direction (some n)

end OrderTerm

/-! ## expressions -/

namespace Expr

/-- A column of the table that the expression is attached to. -/
def col (name : String) : Expr := column .current name

/-- A column of a named table. -/
def qualified (table name : String) : Expr := column (.named table) name

def coalesce (args : List Expr) : Expr := call "COALESCE" args

def upper (e : Expr) : Expr := call "UPPER" [e]

def lower (e : Expr) : Expr := call "LOWER" [e]

def asc (e : Expr) : OrderTerm := .mk e .asc none

def desc (e : Expr) : OrderTerm := .mk e .desc none

end Expr

/-- A column of the table instance of a handle. -/
def TableAlias.col (a : TableAlias) (name : String) : Expr := .column (.handle a) name

end AssociationQuery
