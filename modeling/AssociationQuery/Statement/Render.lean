import AssociationQuery.Expr.Equality
import AssociationQuery.Expr.Render
import AssociationQuery.Statement.Basic

/-!
# AssociationQuery.Statement.Render

Statements as SQL.

The tables of a subquery can be named inside of it and inside the subqueries
that it encloses, nowhere else: the context of a place in the statement lists
the table instances that are hidden there.
-/

namespace AssociationQuery

open Token (bracketed listed conjoined column)

/-- What is known at a place in a statement. -/
structure RenderContext where
  aliases : AliasMap
  aggregates : List (Association × Slot)
  /-- The table instances of subqueries that do not enclose the place. -/
  hidden : List Slot

namespace RenderContext

def name (c : RenderContext) (slot : Slot) : String := c.aliases.name slot

/-- Inside a subquery that has the given table instances. -/
def inside (c : RenderContext) (slots : List Slot) : RenderContext :=
  { c with hidden := c.hidden.filter fun s => !slots.contains s }

/-- The alias of the table instance of a handle. -/
def resolve (c : RenderContext) (a : TableAlias) : Except AssociationError String :=
  match c.aliases.slotOf? a with
  | none => .error (.undefinedAlias a.shown)
  | some slot =>
    if c.hidden.contains slot then .error (.hiddenAlias a.shown) else .ok (c.name slot)

/-- The alias of the table that an aggregate over an association ranges over. -/
def resolveAggregate (c : RenderContext) (a : Association) : Except AssociationError String :=
  match c.aggregates.find? fun p => p.1.equal a with
  | some p => .ok (c.name p.2)
  | none => .error (.aggregateOffBase a.name)

/-- What an expression attached to a table needs to know. -/
def resolver (c : RenderContext) (slot : Slot) : Resolver where
  current := some (c.name slot)
  handle := c.resolve
  aggregate := c.resolveAggregate

/-- A table with its alias where that differs from its name. -/
def tableRef (c : RenderContext) (table : Table) (slot : Slot) : List Token :=
  if c.name slot = table.name then [.ident table.name]
  else [.ident table.name, .word .as, .ident (c.name slot)]

end RenderContext

/-! ## conditions and joins -/

def JoinKind.keyword : JoinKind → Keyword
  | inner => .join
  | left => .leftJoin

/-- Columns of one table equal to columns of another. -/
def keyTokens (c : RenderContext) (left right : Slot) (columns : List (String × String)) :
    List Token :=
  conjoined (columns.map fun p =>
    column (c.name left) p.1 ++ Token.op .eq :: column (c.name right) p.2)

mutual

def Condition.render (d : Dialect) (c : RenderContext) :
    Condition → Except AssociationError (List Token)
  | .keys left right columns => .ok (keyTokens c left right columns)
  | .expr e slot => e.renderConjunct d (c.resolver slot)
  | .existence q => do
    return .word .existsOpening :: (← SubQuery.render d c q) ++ [.word .closing]

def Condition.renderAll (d : Dialect) (c : RenderContext) :
    List Condition → Except AssociationError (List (List Token))
  | [] => .ok []
  | x :: xs => do
    let ts ← Condition.render d c x
    return ts :: (← Condition.renderAll d c xs)

def Join.render (d : Dialect) (c : RenderContext) : Join → Except AssociationError (List Token)
  | .mk kind slot table on => do
    let terms ← Condition.renderAll d c on
    return .word kind.keyword :: c.tableRef table slot ++ .word .on :: conjoined terms

def Join.renderAll (d : Dialect) (c : RenderContext) :
    List Join → Except AssociationError (List Token)
  | [] => .ok []
  | j :: js => do
    let ts ← Join.render d c j
    return ts ++ (← Join.renderAll d c js)

def SubQuery.render (d : Dialect) (outer : RenderContext) :
    SubQuery → Except AssociationError (List Token)
  | .mk slot slots table joins conditions => do
    let c := outer.inside slots
    let joined ← Join.renderAll d c joins
    let terms ← Condition.renderAll d c conditions
    let filtered := if conditions.isEmpty then [] else .word .whereClause :: conjoined terms
    return .word .select :: .word .one :: .word .fromClause :: c.tableRef table slot
      ++ joined ++ filtered

end

/-! ## clauses -/

def SelectItem.render (d : Dialect) (c : RenderContext) :
    SelectItem → Except AssociationError (List Token)
  | star slot => .ok [.ident (c.name slot), .word .star]
  | expr e slot name => return (← e.render d (c.resolver slot)) ++ [.word .as, .ident name]
  | column slot col name => .ok (Token.column (c.name slot) col ++ [.word .as, .ident name])

/-- The placeholders of one key: several in brackets. -/
def keyTuple : List Value → List Token
  | [v] => [.param v]
  | vs => bracketed true (listed (vs.map fun v => [.param v]))

/-- The key columns hold one of the given keys; no key, no row. -/
def KeyFilter.tokens (c : RenderContext) (f : KeyFilter) : List (List Value) → List Token
  | [] => [.word .never]
  | k :: ks =>
    let columns := listed (f.columns.map fun name => column (c.name f.slot) name)
    bracketed (f.columns.length != 1) columns ++ .word .inOpening
      :: listed ((k :: ks).map keyTuple) ++ [.word .closing]

/-- The end of the statement.  Where a dialect has no offset without a limit, the
limit is one that no result reaches. -/
def pageTokens (d : Dialect) : Option Nat → Option Nat → List Token
  | some l, some o => [.word .limit, .number l, .word .offset, .number o]
  | some l, none => [.word .limit, .number l]
  | none, some o =>
    match d with
    | .postgres => [.word .offset, .number o]
    | .sqlite => [.word .limit, .word .noLimit, .word .offset, .number o]
    | .mysql => [.word .limit, .number (Nat.pow 2 64 - 1), .word .offset, .number o]
  | none, none => []

/-- A clause, or nothing when it has no terms. -/
def clause (w : Keyword) (terms : List (List Token)) (joined : List (List Token) → List Token) :
    List Token :=
  if terms.isEmpty then [] else .word w :: joined terms

namespace Statement

/-- What is known in the outermost part of the statement. -/
def context (s : Statement) : RenderContext := ⟨s.aliases, s.aggregates, s.hidden⟩

/-- The tokens of the statement for a list of keys. -/
def render (d : Dialect) (keys : List (List Value)) (s : Statement) :
    Except AssociationError (List Token) := do
  let c := s.context
  let select ← s.select.mapM (SelectItem.render d c)
  let joins ← Join.renderAll d c s.joins
  let filters ← Condition.renderAll d c s.filters
  let having ← Condition.renderAll d c s.having
  let order ← s.order.mapM fun o => o.1.render d (c.resolver o.2)
  let keyTerms := s.keyFilter.toList.map fun f => f.tokens c keys
  let grouped := s.groupBy.map fun name => column (c.name s.root) name
  return .word .select :: (if s.distinct then [.word .distinct] else [])
    ++ listed select
    ++ .word .fromClause :: c.tableRef s.table s.root
    ++ joins
    ++ clause .whereClause (keyTerms ++ filters) conjoined
    ++ clause .groupBy grouped listed
    ++ clause .having having conjoined
    ++ clause .orderBy order listed
    ++ pageTokens d s.limit s.offset

/-- The SQL of the statement for a list of keys. -/
def bind (d : Dialect) (keys : List (List Value)) (s : Statement) :
    Except AssociationError BoundSql :=
  return Token.bind d (← s.render d keys)

end Statement

end AssociationQuery
