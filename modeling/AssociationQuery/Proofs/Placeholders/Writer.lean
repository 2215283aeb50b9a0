import AssociationQuery.Proofs.Placeholders.Positions
import AssociationQuery.Proofs.Placeholders.Values
import AssociationQuery.Proofs.Reading.Identifiers

/-!
# AssociationQuery.Proofs.Placeholders.Writer

Statements written in one go.

A writer puts every value aside when it comes to it and numbers the placeholder by how many
values there are then; what it has written is pasted together afterwards.  Tokens are numbered
only when they become text.  Both give the same text with the same values, or the same error, for
every statement in every dialect, `Statement.write_eq_bind`: the number of a placeholder is the
place of its value because the parts of a statement are written in the order in which they are
pasted.
-/

namespace AssociationQuery

open Token (params)

/-! ## the writer -/

/-- Writing with the values that are put aside so far. -/
abbrev Writer := StateT (List Value) (Except AssociationError)

/-- The placeholder of one more value. -/
def Writer.push (d : Dialect) (v : Value) : Writer String := do
  modify fun vs => vs ++ [v]
  return d.placeholder (← get).length

/-- In brackets where asked for. -/
def enclosed (wrap : Bool) (sql : String) : String := if wrap then "(" ++ sql ++ ")" else sql

def AggregateFunction.write (d : Dialect) (f : AggregateFunction) (destination : Table)
    (table : String) (column : Option String) : String :=
  let counted := "COUNT(DISTINCT " ++ d.quoteColumn table destination.countedColumn ++ ")"
  let column := d.quoteColumn table (column.getD "")
  match f with
  | count => counted
  | isEmpty => "(" ++ counted ++ " = 0)"
  | sum => "SUM(" ++ column ++ ")"
  | average => "AVG(" ++ column ++ ")"
  | min => "MIN(" ++ column ++ ")"
  | max => "MAX(" ++ column ++ ")"

namespace Expr

mutual

/-- An expression as SQL text, with its values put aside. -/
def write (d : Dialect) (r : Resolver) : Expr → Writer String
  | column .current name =>
    match r.current with
    | some table => return d.quoteColumn table name
    | none => return d.quoteIdentifier name
  | column (.handle a) name => return d.quoteColumn (← r.handle a) name
  | column (.named table) name => return d.quoteColumn table name
  | literal v => Writer.push d v
  | binary o a b => do
    let left := enclosed (o.wrapsLeft a) (← write d r a)
    let right := enclosed (o.wrapsRight b) (← write d r b)
    if o = .concat ∧ d = .mysql then return "CONCAT(" ++ left ++ ", " ++ right ++ ")"
    else return left ++ " " ++ o.symbol ++ " " ++ right
  | unary o a => do
    let operand := enclosed (o.wraps a) (← write d r a)
    match o with
    | .not => return "NOT " ++ operand
    | .neg => return "-" ++ operand
  | call f args => return f ++ "(" ++ ", ".intercalate (← writeAll d r args) ++ ")"
  | inList _ [] negated => return if negated then "1 = 1" else "1 = 0"
  | inList a (v :: vs) negated => do
    let operand := enclosed a.wrapsInTest (← write d r a)
    let values ← writeAll d r (v :: vs)
    return operand ++ (if negated then " NOT IN (" else " IN (") ++ ", ".intercalate values ++ ")"
  | isNull a negated => do
    let operand := enclosed a.wrapsInTest (← write d r a)
    return operand ++ if negated then " IS NOT NULL" else " IS NULL"
  | like a pattern negated => do
    let operand := enclosed a.wrapsInTest (← write d r a)
    let placeholder ← Writer.push d (.text pattern)
    return operand ++ (if negated then " NOT LIKE " else " LIKE ") ++ placeholder
  | raw sql => return sql
  | paren a => return "(" ++ (← write d r a) ++ ")"
  | countStar => return "COUNT(*)"
  | aggregate f a c => return f.write d a.destination (← r.aggregate a) c

def writeAll (d : Dialect) (r : Resolver) : List Expr → Writer (List String)
  | [] => return []
  | e :: es => return (← write d r e) :: (← writeAll d r es)

end

end Expr

/-- Where a dialect cannot say where NULL goes, the text of the expression is pasted twice. -/
def OrderTerm.write (d : Dialect) (r : Resolver) (o : OrderTerm) : Writer String := do
  let e ← o.expr.write d r
  let direction := match o.direction with
    | .asc => " ASC"
    | .desc => " DESC"
  match o.nulls, d with
  | none, _ => return e ++ direction
  | some .first, .mysql => return e ++ " IS NULL DESC, " ++ e ++ direction
  | some .last, .mysql => return e ++ " IS NULL ASC, " ++ e ++ direction
  | some .first, _ => return e ++ direction ++ " NULLS FIRST"
  | some .last, _ => return e ++ direction ++ " NULLS LAST"

/-- A table with its alias where that differs from its name. -/
def RenderContext.writeTable (d : Dialect) (c : RenderContext) (table : Table) (slot : Slot) :
    String :=
  if c.name slot = table.name then d.quoteIdentifier table.name
  else d.quoteIdentifier table.name ++ " AS " ++ d.quoteIdentifier (c.name slot)

mutual

def Condition.write (d : Dialect) (c : RenderContext) : Condition → Writer String
  | .keys left right columns =>
    return " AND ".intercalate (columns.map fun p =>
      d.quoteColumn (c.name left) p.1 ++ " = " ++ d.quoteColumn (c.name right) p.2)
  | .expr e slot =>
    return enclosed (e.precedence < BinaryOp.and.precedence) (← e.write d (c.resolver slot))
  | .existence q => return "EXISTS (" ++ (← SubQuery.write d c q) ++ ")"

def Condition.writeAll (d : Dialect) (c : RenderContext) : List Condition → Writer (List String)
  | [] => return []
  | x :: xs => return (← Condition.write d c x) :: (← Condition.writeAll d c xs)

def Join.write (d : Dialect) (c : RenderContext) : Join → Writer String
  | .mk kind slot table on => do
    let terms ← Condition.writeAll d c on
    let keyword := match kind with
      | .inner => " JOIN "
      | .left => " LEFT JOIN "
    return keyword ++ c.writeTable d table slot ++ " ON " ++ " AND ".intercalate terms

def Join.writeAll (d : Dialect) (c : RenderContext) : List Join → Writer String
  | [] => return ""
  | j :: js => return (← Join.write d c j) ++ (← Join.writeAll d c js)

def SubQuery.write (d : Dialect) (outer : RenderContext) : SubQuery → Writer String
  | .mk slot slots table joins conditions => do
    let c := outer.inside slots
    let joined ← Join.writeAll d c joins
    let terms ← Condition.writeAll d c conditions
    let filtered := if conditions.isEmpty then "" else " WHERE " ++ " AND ".intercalate terms
    return "SELECT 1 FROM " ++ c.writeTable d table slot ++ joined ++ filtered

end

def SelectItem.write (d : Dialect) (c : RenderContext) : SelectItem → Writer String
  | star slot => return d.quoteIdentifier (c.name slot) ++ ".*"
  | expr e slot name => return (← e.write d (c.resolver slot)) ++ " AS " ++ d.quoteIdentifier name
  | column slot col name =>
    return d.quoteColumn (c.name slot) col ++ " AS " ++ d.quoteIdentifier name

/-- The placeholders of one key: several in brackets. -/
def writeKey (d : Dialect) (key : List Value) : Writer String := do
  let placeholders ← key.mapM (Writer.push d)
  return enclosed (key.length != 1) (", ".intercalate placeholders)

/-- The key columns hold one of the given keys; no key, no row. -/
def KeyFilter.write (d : Dialect) (c : RenderContext) (f : KeyFilter) :
    List (List Value) → Writer String
  | [] => return "1 = 0"
  | k :: ks => do
    let columns := ", ".intercalate (f.columns.map fun name => d.quoteColumn (c.name f.slot) name)
    let keys ← (k :: ks).mapM (writeKey d)
    return enclosed (f.columns.length != 1) columns ++ " IN (" ++ ", ".intercalate keys ++ ")"

def writePage (d : Dialect) : Option Nat → Option Nat → String
  | some l, some o => " LIMIT " ++ toString l ++ " OFFSET " ++ toString o
  | some l, none => " LIMIT " ++ toString l
  | none, some o =>
    match d with
    | .postgres => " OFFSET " ++ toString o
    | .sqlite => " LIMIT -1 OFFSET " ++ toString o
    | .mysql => " LIMIT " ++ toString (Nat.pow 2 64 - 1) ++ " OFFSET " ++ toString o
  | none, none => ""

/-- A clause, or nothing when it has no terms. -/
def writeClause (heading between : String) (terms : List String) : String :=
  if terms.isEmpty then "" else heading ++ between.intercalate terms

namespace Statement

/-- The text of the statement for a list of keys, clause by clause. -/
def writeText (d : Dialect) (keys : List (List Value)) (s : Statement) : Writer String := do
  let c := s.context
  let select ← s.select.mapM (SelectItem.write d c)
  let joins ← Join.writeAll d c s.joins
  let keyTerms ← s.keyFilter.toList.mapM fun f => f.write d c keys
  let filters ← Condition.writeAll d c s.filters
  let having ← Condition.writeAll d c s.having
  let order ← s.order.mapM fun o => o.1.write d (c.resolver o.2)
  let grouped := s.groupBy.map fun name => d.quoteColumn (c.name s.root) name
  return "SELECT " ++ (if s.distinct then "DISTINCT " else "") ++ ", ".intercalate select
    ++ " FROM " ++ c.writeTable d s.table s.root ++ joins
    ++ writeClause " WHERE " " AND " (keyTerms ++ filters)
    ++ writeClause " GROUP BY " ", " grouped
    ++ writeClause " HAVING " " AND " having
    ++ writeClause " ORDER BY " ", " order
    ++ writePage d s.limit s.offset

/-- The statement written for a list of keys, with all the values that were put aside. -/
def write (d : Dialect) (keys : List (List Value)) (s : Statement) :
    Except AssociationError BoundSql := do
  let (sql, params) ← (s.writeText d keys).run []
  return ⟨sql, params⟩

end Statement

/-! ## text of tokens -/

namespace Token

variable {d : Dialect}

/-- The text of the tokens, where `n` placeholders stand before them. -/
def spell (d : Dialect) (n : Nat) (ts : List Token) : String := String.ofList (text d n ts)

/-- The texts of lists of tokens that stand one behind the other. -/
def spellAll (d : Dialect) : Nat → List (List Token) → List String
  | _, [] => []
  | n, ts :: rest => spell d n ts :: spellAll d (n + (params ts).length) rest

section spell

variable (n : Nat) (ts us : List Token)

@[simp] theorem spell_nil : spell d n [] = "" := rfl

/-- The second of two texts is numbered behind the parameters of the first. -/
@[simp] theorem spell_append :
    spell d n (ts ++ us) = spell d n ts ++ spell d (n + (params ts).length) us := by
  rw [spell, text_append, String.ofList_append]
  rfl

@[simp] theorem spell_word (w : Keyword) :
    spell d n (.word w :: ts) = w.spelling ++ spell d n ts := by
  simp [spell, text, chars]

@[simp] theorem spell_op (o : BinaryOp) :
    spell d n (.op o :: ts) = " " ++ o.symbol ++ " " ++ spell d n ts := by
  rw [← String.toList_inj]
  simp [spell, text, chars]

@[simp] theorem spell_ident (name : String) :
    spell d n (.ident name :: ts) = d.quoteIdentifier name ++ spell d n ts := by
  simp [spell, text, chars, Dialect.quoteIdentifier, Identifier.quote]

@[simp] theorem spell_call (f : String) :
    spell d n (.call f :: ts) = f ++ "(" ++ spell d n ts := by
  rw [← String.toList_inj]
  simp [spell, text, chars]

@[simp] theorem spell_raw (sql : String) : spell d n (.raw sql :: ts) = sql ++ spell d n ts := by
  simp [spell, text, chars]

@[simp] theorem spell_number (m : Nat) :
    spell d n (.number m :: ts) = toString m ++ spell d n ts := by
  rw [← String.toList_inj]
  simp [spell, text, chars]

/-- A parameter is spelled by the number after those before it. -/
@[simp] theorem spell_param (v : Value) :
    spell d n (.param v :: ts) = d.placeholder (n + 1) ++ spell d (n + 1) ts := by
  simp [spell, text, chars]

@[simp] theorem spell_column (table name : String) :
    spell d n (column table name) = d.quoteColumn table name := by
  simp [column, Dialect.quoteColumn, Keyword.spelling, String.append_assoc]

@[simp] theorem spell_bracketed (wrap : Bool) :
    spell d n (bracketed wrap ts) = enclosed wrap (spell d n ts) := by
  cases wrap <;> simp [bracketed, enclosed, Keyword.spelling, String.append_assoc]

end spell

/-- Parts are spelled one after the other, with the text of the separator between them. -/
theorem spell_separated {between : Token} (hnone : params [between] = []) {sql : String}
    (hbetween : ∀ n, spell d n [between] = sql) (n : Nat) : (parts : List (List Token)) →
    spell d n (separated between parts) = sql.intercalate (spellAll d n parts)
  | [] => rfl
  | [ts] => by simp [separated, spellAll]
  | ts :: us :: rest => by
    have hrest := spell_separated hnone hbetween (n + (params ts).length) (us :: rest)
    rw [spellAll] at hrest
    rw [separated, ← List.singleton_append, spell_append, spell_append, hbetween, hnone,
      List.length_nil, Nat.add_zero, hrest, spellAll, spellAll, String.intercalate_cons_cons,
      String.append_assoc]

@[simp] theorem spell_listed (n : Nat) (parts : List (List Token)) :
    spell d n (listed parts) = ", ".intercalate (spellAll d n parts) :=
  spell_separated rfl (fun n => by simp [Keyword.spelling]) n parts

@[simp] theorem spell_conjoined (n : Nat) (parts : List (List Token)) :
    spell d n (conjoined parts) = " AND ".intercalate (spellAll d n parts) :=
  spell_separated rfl (fun n => by simp [BinaryOp.symbol]) n parts

/-- Where placeholders have no numbers, what is written once more looks the same. -/
theorem spell_mentioned (n m : Nat) (ts : List Token) :
    spell .mysql n (mentioned ts) = spell .mysql m ts := by
  rw [spell, text_mentioned, text_mysql, spell, text_mysql]

/-! ## runs of the writer -/

/-- What the writer has written and put aside when it has come to the end of the tokens. -/
def written (d : Dialect) (vs : List Value) (ts : List Token) : String × List Value :=
  (spell d vs.length ts, vs ++ params ts)

def writtenAll (d : Dialect) (vs : List Value) (parts : List (List Token)) :
    List String × List Value :=
  (spellAll d vs.length parts, vs ++ parts.flatMap params)

end Token

open Token (spell spellAll written writtenAll)

namespace Writer

variable {d : Dialect} {vs : List Value}

/-- A pushed value is written as its placeholder. -/
theorem run_push (d : Dialect) (v : Value) (vs : List Value) :
    (push d v).run vs = pure (written d vs [.param v]) := by
  have hrun : (push d v).run vs = pure (d.placeholder (vs ++ [v]).length, vs ++ [v]) := rfl
  rw [hrun, List.length_append]
  simp [written]

/-- What is written behind something else is numbered on from there. -/
theorem run_bind {x : Writer α} {y : Except AssociationError β} {w : β → α × List Value}
    (h : x.run vs = w <$> y) {f : α → Writer γ} {g : β → Except AssociationError δ}
    {w' : δ → γ × List Value} (hfg : ∀ b, (f (w b).1).run (w b).2 = w' <$> g b) :
    (x >>= f).run vs = w' <$> (y >>= g) := by
  rw [StateT.run_bind, h, bind_map_left, map_bind]
  exact bind_congr hfg

/-- Several writers that write what is rendered write the list of it. -/
theorem run_mapM {f : α → Writer String} {g : α → Except AssociationError (List Token)}
    (h : ∀ x vs, (f x).run vs = written d vs <$> g x) : (xs : List α) → (vs : List Value) →
    (xs.mapM f).run vs = writtenAll d vs <$> xs.mapM g
  | [], vs => by simp [writtenAll, spellAll]
  | x :: xs, vs => by
    rw [List.mapM_cons, List.mapM_cons]
    refine run_bind (h x vs) fun ts => run_bind (run_mapM h xs _) fun parts => ?_
    simp [written, writtenAll, spellAll]

end Writer

/-! ## expressions -/

/-- An aggregate is spelled as it is written. -/
theorem AggregateFunction.spell_tokens (d : Dialect) (n : Nat) (f : AggregateFunction)
    (destination : Table) (table : String) (c : Option String) :
    spell d n (f.tokens destination table c) = f.write d destination table c := by
  unfold tokens AggregateFunction.write
  cases f <;> simp [Keyword.spelling, String.append_assoc]

namespace Expr

variable {d : Dialect} {r : Resolver}

mutual

/-- An expression is written as its tokens are spelled. -/
theorem run_write : (e : Expr) → (vs : List Value) →
    (e.write d r).run vs = written d vs <$> e.render d r
  -- by the expression: what is written between two parts pushes nothing, so numbers and values stay
  -- in step
  | column .current name, vs => by
    rw [write, render]
    cases r.current <;> simp [written]
  | column (.handle a) name, vs => by simp [write, render, written]
  | column (.named table) name, vs => by simp [write, render, written]
  | literal v, vs => Writer.run_push d v vs
  | binary o a b, vs => by
    rw [write, render]
    refine Writer.run_bind (run_write a vs) fun left =>
      Writer.run_bind (run_write b _) fun right => ?_
    split_ifs <;> simp [written, Keyword.spelling, String.append_assoc]
  | unary o a, vs => by
    rw [write, render]
    refine Writer.run_bind (run_write a vs) fun operand => ?_
    cases o <;> simp [written, Keyword.spelling]
  | call f args, vs => by
    rw [write, render]
    refine Writer.run_bind (run_writeAll args vs) fun parts => ?_
    simp [written, writtenAll, Keyword.spelling, String.append_assoc]
  | inList _ [] negated, vs => by
    cases negated <;> simp [write, render, written, Keyword.spelling]
  | inList a (v :: us) negated, vs => by
    rw [write, render]
    refine Writer.run_bind (run_write a vs) fun operand =>
      Writer.run_bind (run_writeAll (v :: us) _) fun parts => ?_
    cases negated <;> simp [written, writtenAll, Keyword.spelling, String.append_assoc]
  | isNull a negated, vs => by
    rw [write, render]
    refine Writer.run_bind (run_write a vs) fun operand => ?_
    cases negated <;> simp [written, Keyword.spelling]
  | like a pattern negated, vs => by
    rw [write, render]
    refine Writer.run_bind (run_write a vs) fun operand => ?_
    rw [StateT.run_bind, Writer.run_push]
    cases negated <;> simp [written, Keyword.spelling, String.append_assoc]
  | raw sql, vs => by simp [write, render, written]
  | paren a, vs => by
    rw [write, render]
    refine Writer.run_bind (run_write a vs) fun operand => ?_
    simp [written, enclosed, String.append_assoc]
  | countStar, vs => by simp [write, render, written, Keyword.spelling]
  | aggregate f a c, vs => by simp [write, render, written, AggregateFunction.spell_tokens]

theorem run_writeAll : (es : List Expr) → (vs : List Value) →
    (writeAll d r es).run vs = writtenAll d vs <$> renderAll d r es
  | [], vs => by simp [writeAll, renderAll, writtenAll, spellAll]
  | e :: es, vs => by
    rw [writeAll, renderAll]
    refine Writer.run_bind (run_write e vs) fun ts =>
      Writer.run_bind (run_writeAll es _) fun parts => ?_
    simp [written, writtenAll, spellAll]

end

end Expr

/-- The text that is pasted a second time needs no placeholders of its own in the dialect that
does so. -/
theorem OrderTerm.run_write {d : Dialect} {r : Resolver} (o : OrderTerm) (vs : List Value) :
    (o.write d r).run vs = written d vs <$> o.render d r := by
  refine Writer.run_bind (o.expr.run_write vs) fun ts => ?_
  have hdirection : (match o.direction with | .asc => " ASC" | .desc => " DESC") =
      o.direction.keyword.spelling := by
    cases o.direction <;> rfl
  simp only [hdirection]
  cases o.nulls with
  | none => simp [written]
  | some place =>
    cases place <;> cases d <;>
      simp [written, String.append_assoc, Token.spell_mentioned _ vs.length] <;> rfl

/-! ## conditions and joins -/

/-- What never binds anything is the same text wherever it stands. -/
theorem Token.spellAll_map {d : Dialect} {f : α → List Token} {g : α → String}
    (hnone : ∀ x, params (f x) = []) (hspell : ∀ x n, spell d n (f x) = g x) (xs : List α)
    (n : Nat) : spellAll d n (xs.map f) = xs.map g := by
  induction xs generalizing n with
  | nil => rfl
  | cons x xs ih => simp [spellAll, hspell, hnone, ih]

@[simp] theorem RenderContext.spell_tableRef (d : Dialect) (n : Nat) (c : RenderContext)
    (table : Table) (slot : Slot) :
    spell d n (c.tableRef table slot) = c.writeTable d table slot := by
  unfold tableRef writeTable
  split <;> simp [Keyword.spelling, String.append_assoc]

section conditions

variable {d : Dialect}

mutual

/-- A condition is written as it is rendered, with its values pushed in the order of their
placeholders. -/
theorem Condition.run_write : (x : Condition) → (c : RenderContext) → (vs : List Value) →
    (x.write d c).run vs = written d vs <$> x.render d c
  | .keys left right columns, c, vs => by
    have hspell := Token.spellAll_map (d := d)
      (f := fun p : String × String =>
        Token.column (c.name left) p.1 ++ Token.op .eq :: Token.column (c.name right) p.2)
      (g := fun p => d.quoteColumn (c.name left) p.1 ++ " = " ++ d.quoteColumn (c.name right) p.2)
      (fun p => by simp) (fun p n => by simp [BinaryOp.symbol, String.append_assoc]) columns
    simp [Condition.write, Condition.render, keyTokens, written, hspell, List.flatMap_map]
  | .expr e slot, c, vs => by
    rw [Condition.write, Condition.render, Expr.renderConjunct]
    refine Writer.run_bind (e.run_write vs) fun ts => ?_
    simp [written]
  | .existence q, c, vs => by
    rw [Condition.write, Condition.render]
    refine Writer.run_bind (SubQuery.run_write q c vs) fun ts => ?_
    simp [written, Keyword.spelling, String.append_assoc]

theorem Condition.run_writeAll : (xs : List Condition) → (c : RenderContext) →
    (vs : List Value) →
    (Condition.writeAll d c xs).run vs = writtenAll d vs <$> Condition.renderAll d c xs
  | [], c, vs => by simp [Condition.writeAll, Condition.renderAll, writtenAll, spellAll]
  | x :: xs, c, vs => by
    rw [Condition.writeAll, Condition.renderAll]
    refine Writer.run_bind (Condition.run_write x c vs) fun ts =>
      Writer.run_bind (Condition.run_writeAll xs c _) fun parts => ?_
    simp [written, writtenAll, spellAll]

theorem Join.run_write : (j : Join) → (c : RenderContext) → (vs : List Value) →
    (j.write d c).run vs = written d vs <$> j.render d c
  | .mk kind slot table on, c, vs => by
    simp only [Join.write, Join.render]
    refine Writer.run_bind (Condition.run_writeAll on c vs) fun parts => ?_
    cases kind <;>
      simp [written, writtenAll, JoinKind.keyword, Keyword.spelling, String.append_assoc]

theorem Join.run_writeAll : (js : List Join) → (c : RenderContext) → (vs : List Value) →
    (Join.writeAll d c js).run vs = written d vs <$> Join.renderAll d c js
  | [], c, vs => by simp [Join.writeAll, Join.renderAll, written]
  | j :: js, c, vs => by
    rw [Join.writeAll, Join.renderAll]
    refine Writer.run_bind (Join.run_write j c vs) fun ts =>
      Writer.run_bind (Join.run_writeAll js c _) fun us => ?_
    simp [written]

theorem SubQuery.run_write : (q : SubQuery) → (c : RenderContext) → (vs : List Value) →
    (q.write d c).run vs = written d vs <$> q.render d c
  | .mk slot slots table joins conditions, c, vs => by
    have hconditions := Condition.run_writeAll conditions (c.inside slots)
    have hselect (sql : String) : "SELECT " ++ ("1" ++ (" FROM " ++ sql)) =
        "SELECT 1 FROM " ++ sql := by simp [← String.append_assoc]
    rw [SubQuery.write, SubQuery.render]
    refine Writer.run_bind (Join.run_writeAll joins _ vs) fun joined => ?_
    cases conditions with
    | nil =>
      simp [Condition.writeAll, Condition.renderAll, written, Keyword.spelling,
        String.append_assoc, hselect]
    | cons x xs =>
      refine Writer.run_bind (hconditions _) fun parts => ?_
      simp [written, writtenAll, Keyword.spelling, String.append_assoc, hselect]

end

end conditions

/-! ## statements -/

/-- An item is written as it is rendered. -/
theorem SelectItem.run_write {d : Dialect} {c : RenderContext} (i : SelectItem)
    (vs : List Value) : (i.write d c).run vs = written d vs <$> i.render d c := by
  cases i with
  | star slot => simp [SelectItem.write, SelectItem.render, written, Keyword.spelling]
  | expr e slot name =>
    refine Writer.run_bind (e.run_write vs) fun ts => ?_
    simp [written, Keyword.spelling, String.append_assoc]
  | column slot col name =>
    simp [SelectItem.write, SelectItem.render, written, Keyword.spelling, String.append_assoc]

/-- A tuple of keys is written as a list of placeholders. -/
theorem run_writeKey (d : Dialect) (key vs : List Value) :
    (writeKey d key).run vs = pure (written d vs (keyTuple key)) := by
  have hpush := Writer.run_mapM (d := d) (f := Writer.push d) (g := fun v => pure [.param v])
    (fun v vs => Writer.run_push d v vs) key vs
  rw [List.mapM_pure] at hpush
  have htuple : keyTuple key =
      Token.bracketed (key.length != 1) (Token.listed (key.map fun v => [.param v])) := by
    rcases key with _ | ⟨v, _ | ⟨w, rest⟩⟩ <;> rfl
  rw [writeKey, StateT.run_bind, hpush, htuple]
  simp [written, writtenAll]

/-- The key filter is written as it is rendered. -/
theorem KeyFilter.run_write {d : Dialect} {c : RenderContext} (f : KeyFilter)
    (keys : List (List Value)) (vs : List Value) :
    (f.write d c keys).run vs = pure (written d vs (f.tokens c keys)) := by
  cases keys with
  | nil => simp [KeyFilter.write, KeyFilter.tokens, written, Keyword.spelling]
  | cons k ks =>
    have hkeys := Writer.run_mapM (d := d) (f := writeKey d) (g := fun key => pure (keyTuple key))
      (fun key vs => run_writeKey d key vs) (k :: ks) vs
    rw [List.mapM_pure] at hkeys
    have hcolumns := Token.spellAll_map (d := d)
      (f := fun name => Token.column (c.name f.slot) name)
      (g := fun name => d.quoteColumn (c.name f.slot) name) (fun _ => rfl)
      (fun name n => Token.spell_column n ..) f.columns
    have hparams : f.columns.flatMap (fun _ => ([] : List Value)) = [] := by simp
    rw [KeyFilter.write, StateT.run_bind, hkeys, KeyFilter.tokens]
    simp [written, writtenAll, Keyword.spelling, String.append_assoc, hcolumns, List.flatMap_map,
      hparams]

/-- The page is spelled as it is written. -/
theorem spell_pageTokens (d : Dialect) (n : Nat) (limit offset : Option Nat) :
    spell d n (pageTokens d limit offset) = writePage d limit offset := by
  have hall (sql : String) : " LIMIT " ++ ("-1" ++ (" OFFSET " ++ sql)) =
      " LIMIT -1 OFFSET " ++ sql := by simp [← String.append_assoc]
  unfold pageTokens writePage
  cases limit <;> cases offset <;> cases d <;>
    simp [Keyword.spelling, String.append_assoc, hall]

/-- Further parts are numbered behind the first ones. -/
theorem Token.spellAll_append {d : Dialect} (n : Nat) (parts others : List (List Token)) :
    spellAll d n (parts ++ others) =
      spellAll d n parts ++ spellAll d (n + (parts.flatMap params).length) others := by
  induction parts generalizing n with
  | nil => rfl
  | cons ts parts ih => simp [spellAll, ih, Nat.add_assoc]

/-- A clause is spelled by its keyword and its parts. -/
theorem Token.spell_clause {d : Dialect} {w : Keyword} {between : String}
    {joined : List (List Token) → List Token}
    (h : ∀ n parts, spell d n (joined parts) = between.intercalate (spellAll d n parts)) (n : Nat)
    (parts : List (List Token)) :
    spell d n (clause w parts joined) = writeClause w.spelling between (spellAll d n parts) := by
  cases parts with
  | nil => rfl
  | cons ts parts => simp [clause, h, writeClause, spellAll]

namespace Statement

/-- A statement is written as it is rendered, clause by clause. -/
theorem run_writeText (d : Dialect) (keys : List (List Value)) (s : Statement) (vs : List Value) :
    (s.writeText d keys).run vs = written d vs <$> s.render d keys := by
  rw [writeText, render]
  refine Writer.run_bind (Writer.run_mapM SelectItem.run_write s.select vs) fun select =>
    Writer.run_bind (Join.run_writeAll s.joins _ _) fun joins => ?_
  have hkeys := Writer.run_mapM (d := d) (f := fun f => KeyFilter.write d s.context f keys)
    (g := fun f => pure (f.tokens s.context keys)) (fun f vs => f.run_write keys vs)
    s.keyFilter.toList (written d (writtenAll d vs select).2 joins).2
  -- a key filter is written without looking anything up
  rw [List.mapM_pure] at hkeys
  rw [StateT.run_bind, hkeys, map_pure, pure_bind]
  refine Writer.run_bind (Condition.run_writeAll s.filters _ _) fun filters =>
    Writer.run_bind (Condition.run_writeAll s.having _ _) fun having =>
      Writer.run_bind (Writer.run_mapM (fun o vs => OrderTerm.run_write o.1 vs) s.order _)
        fun order => ?_
  have hgrouped := Token.spellAll_map (d := d)
    (f := fun name => Token.column (s.context.name s.root) name)
    (g := fun name => d.quoteColumn (s.context.name s.root) name) (fun _ => rfl)
    (fun name n => Token.spell_column n ..) s.groupBy
  have hhead : spell d vs.length (if s.distinct then [Token.word .distinct] else []) =
      if s.distinct then "DISTINCT " else "" := by
    cases s.distinct <;> simp [Keyword.spelling]
  have hnone : params (if s.distinct then [Token.word .distinct] else []) = [] := by
    cases s.distinct <;> rfl
  have hungrouped : params (clause .groupBy
      (s.groupBy.map fun name => Token.column (s.context.name s.root) name) Token.listed) = [] := by
    simp [Token.params_clause Token.params_listed, List.flatMap_map]
  simp [written, writtenAll, Keyword.spelling, String.append_assoc, Nat.add_assoc, hungrouped,
    Token.spell_clause Token.spell_listed, Token.spell_clause Token.spell_conjoined,
    Token.params_clause Token.params_listed, Token.params_clause Token.params_conjoined,
    Token.spellAll_append, hgrouped, hhead, hnone, spell_pageTokens, -List.length_flatMap]

/-- The statement is written as its tokens are numbered. -/
theorem write_eq_bind (d : Dialect) (keys : List (List Value)) (s : Statement) :
    s.write d keys = s.bind d keys := by
  rw [write, bind, run_writeText]
  simp [written, spell, Token.bind]

end Statement

end AssociationQuery
