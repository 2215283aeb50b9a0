import AssociationQuery.Decoded
import AssociationQuery.Statement.Render

/-!
# AssociationQuery.Query

The result of compiling a request: the statement for the base rows, and a tree
of plans for the associated rows that are fetched afterwards.

A plan's statement is complete but for the keys of the parent rows; which rows
those are is known only when the statement before it has run.
-/

namespace AssociationQuery

/-- SQL with its values, and the layout of the rows it returns. -/
structure CompiledStatement where
  text : BoundSql
  layout : Layout

/-- Rows of a to-many association, fetched by a statement of their own. -/
structure PrefetchPlan where
  /-- The name under which the rows are attached. -/
  name : String
  /-- The scope of the parent rows to which they are attached. -/
  parentScope : Nat
  /-- The columns of the parent rows that hold the key. -/
  parentKeyColumns : List Nat
  dialect : Dialect
  statement : Statement
  layout : Layout
  /-- Plans for which the rows of this one are the parents. -/
  children : List PrefetchPlan

namespace PrefetchPlan

/-- The first of several keys that are equal. -/
def firstOfEach (seen : List (List ValueKey)) :
    List (List ValueKey × List Value) → List (List Value)
  | [] => []
  | (key, values) :: rest =>
    if seen.contains key then firstOfEach seen rest
    else values :: firstOfEach (key :: seen) rest

/-- The distinct keys of the parent rows in the order of the rows; a key with NULL
in it is none. -/
def parentKeys (p : PrefetchPlan) (parents : List DecodedRow) : List (List Value) :=
  firstOfEach [] (parents.filterMap fun d =>
    let values := d.valuesAt p.parentKeyColumns
    (DecodedRow.keyOf values).map fun key => (key, values))

/-- The statement for a list of keys. -/
def render (p : PrefetchPlan) (keys : List (List Value)) :
    Except AssociationError CompiledStatement :=
  return ⟨← p.statement.bind p.dialect keys, p.layout⟩

mutual

/-- The number of statements of a plan and the plans below it. -/
def statementCount : PrefetchPlan → Nat
  | ⟨_, _, _, _, _, _, children⟩ => 1 + statementCountAll children

def statementCountAll : List PrefetchPlan → Nat
  | [] => 0
  | p :: ps => statementCount p + statementCountAll ps

end

end PrefetchPlan

structure CompiledQuery where
  root : CompiledStatement
  /-- Plans for which the base rows are the parents. -/
  prefetches : List PrefetchPlan

/-- The number of statements, if every one of them runs. -/
def CompiledQuery.statementCount (q : CompiledQuery) : Nat :=
  1 + PrefetchPlan.statementCountAll q.prefetches

end AssociationQuery
