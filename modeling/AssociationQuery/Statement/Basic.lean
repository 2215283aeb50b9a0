import AssociationQuery.Alias.Allocation
import AssociationQuery.Expr.Basic

/-!
# AssociationQuery.Statement.Basic

A SELECT statement as data: which tables it reads and how they are joined, what
it selects, and under which conditions and in which order.

Tables are known by their slots; names come in when the statement is rendered.
A condition is a comparison of keys, an expression attached to a table, or the
existence of associated rows, which is a statement inside the statement with
joins and conditions of its own.
-/

namespace AssociationQuery

inductive JoinKind where
  | inner
  /-- Keeps rows without a match. -/
  | left
  deriving DecidableEq, Repr

/-- The join that keeps rows without a match, or the one that does not. -/
def JoinKind.keeping (unmatched : Bool) : JoinKind := if unmatched then left else inner

mutual

/-- One term of a conjunction. -/
inductive Condition where
  /-- Columns of one table equal columns of another, pairwise. -/
  | keys (left right : Slot) (columns : List (String × String))
  /-- An expression attached to a table. -/
  | expr (e : Expr) (slot : Slot)
  /-- Some row of a subquery exists. -/
  | existence (q : SubQuery)

/-- A table joined to the tables before it. -/
inductive Join where
  | mk (kind : JoinKind) (slot : Slot) (table : Table) (on : List Condition)

/-- A search for associated rows.  `slots` lists the table instances that belong to
the subquery itself, without those of subqueries inside it. -/
inductive SubQuery where
  | mk (slot : Slot) (slots : List Slot) (table : Table) (joins : List Join)
      (conditions : List Condition)

end

namespace Join

def kind : Join → JoinKind
  | mk k _ _ _ => k

def slot : Join → Slot
  | mk _ s _ _ => s

def table : Join → Table
  | mk _ _ t _ => t

def on : Join → List Condition
  | mk _ _ _ on => on

/-- The join under one more condition. -/
def under (j : Join) (c : Condition) : Join := mk j.kind j.slot j.table (j.on ++ [c])

end Join

/-- One item of the SELECT list. -/
inductive SelectItem where
  /-- All columns of a table. -/
  | star (slot : Slot)
  /-- An expression attached to a table, under a name. -/
  | expr (e : Expr) (slot : Slot) (name : String)
  /-- One column of a table, under a name. -/
  | column (slot : Slot) (column : String) (name : String)

/-- A condition on key columns whose values are known only when the statement runs. -/
structure KeyFilter where
  slot : Slot
  columns : List String

structure Statement where
  aliases : AliasMap
  /-- The associations that aggregates range over, with the last table of each. -/
  aggregates : List (Association × Slot) := []
  /-- The table instances that only exist inside subqueries. -/
  hidden : List Slot
  distinct : Bool := false
  select : List SelectItem
  table : Table
  root : Slot
  joins : List Join
  keyFilter : Option KeyFilter := none
  filters : List Condition
  groupBy : List String := []
  having : List Condition := []
  order : List (OrderTerm × Slot)
  limit : Option Nat := none
  offset : Option Nat := none

end AssociationQuery
