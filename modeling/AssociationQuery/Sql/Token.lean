import AssociationQuery.Dialect
import AssociationQuery.Expr.Operator
import AssociationQuery.Sql.Bound

/-!
# AssociationQuery.Sql.Token

SQL as a list of tokens, the form in which expressions and statements are
rendered.

A token knows nothing of its neighbours: names are quoted and placeholders are
numbered only when the whole list becomes text, `bind`, from left to right.  So
the value of the `n`-th placeholder is the `n`-th value in the list, whatever
the tokens around it are.
-/

namespace AssociationQuery

/-- The fixed words and marks of the SQL that is written. -/
inductive Keyword where
  | opening | closing | comma | dot
  | not | minus
  | isNull | isNotNull | inOpening | notInOpening | like | notLike
  /-- A condition that no row meets, and one that every row meets. -/
  | never | always
  | countStar | concatOpening
  | countDistinctOpening | equalsZero | sumOpening | averageOpening | minOpening | maxOpening
  | asc | desc | nullsFirst | nullsLast
  | select | distinct | star | one | as | fromClause | join | leftJoin | on | whereClause
  | groupBy | having | orderBy | limit | offset | noLimit | existsOpening
  deriving DecidableEq, Repr

/-- The spelling of a word, with the blanks around it. -/
def Keyword.spelling : Keyword → String
  | opening => "("
  | closing => ")"
  | comma => ", "
  | dot => "."
  | not => "NOT "
  | minus => "-"
  | isNull => " IS NULL"
  | isNotNull => " IS NOT NULL"
  | inOpening => " IN ("
  | notInOpening => " NOT IN ("
  | like => " LIKE "
  | notLike => " NOT LIKE "
  | never => "1 = 0"
  | always => "1 = 1"
  | countStar => "COUNT(*)"
  | concatOpening => "CONCAT("
  | countDistinctOpening => "COUNT(DISTINCT "
  | equalsZero => " = 0"
  | sumOpening => "SUM("
  | averageOpening => "AVG("
  | minOpening => "MIN("
  | maxOpening => "MAX("
  | asc => " ASC"
  | desc => " DESC"
  | nullsFirst => " NULLS FIRST"
  | nullsLast => " NULLS LAST"
  | select => "SELECT "
  | distinct => "DISTINCT "
  | star => ".*"
  | one => "1"
  | as => " AS "
  | fromClause => " FROM "
  | join => " JOIN "
  | leftJoin => " LEFT JOIN "
  | on => " ON "
  | whereClause => " WHERE "
  | groupBy => " GROUP BY "
  | having => " HAVING "
  | orderBy => " ORDER BY "
  | limit => " LIMIT "
  | offset => " OFFSET "
  | noLimit => "-1"
  | existsOpening => "EXISTS ("

inductive Token where
  | word (w : Keyword)
  | op (o : BinaryOp)
  /-- A quoted identifier. -/
  | ident (name : String)
  /-- A function and the bracket before its arguments. -/
  | call (function : String)
  /-- SQL text, taken as it is. -/
  | raw (sql : String)
  | number (n : Nat)
  /-- A placeholder with its value. -/
  | param (v : Value)
  /-- One more mention of a placeholder whose value is bound elsewhere. -/
  | mention
  deriving DecidableEq, Repr

namespace Token

/-! ## lists of tokens -/

/-- Lists of tokens with one token between each two. -/
def separated (between : Token) : List (List Token) → List Token
  | [] => []
  | [ts] => ts
  | ts :: us :: rest => ts ++ between :: separated between (us :: rest)

/-- Lists of tokens with commas between them. -/
def listed (parts : List (List Token)) : List Token := separated (word .comma) parts

/-- Lists of tokens joined by AND. -/
def conjoined (parts : List (List Token)) : List Token := separated (op .and) parts

/-- A column of a table. -/
def column (table name : String) : List Token := [ident table, word .dot, ident name]

/-- In brackets where asked for. -/
def bracketed (wrap : Bool) (ts : List Token) : List Token :=
  if wrap then word .opening :: ts ++ [word .closing] else ts

/-- The same tokens with mentions in place of values. -/
def mentioned (ts : List Token) : List Token :=
  ts.map fun
    | param _ => mention
    | t => t

/-! ## text -/

/-- The values of the placeholders, from left to right. -/
def params (ts : List Token) : List Value :=
  ts.filterMap fun
    | param v => some v
    | _ => none

@[simp] theorem params_nil : params [] = [] := rfl

/-- The values of a text are those of its parts, in their order. -/
@[simp] theorem params_append (ss ts : List Token) : params (ss ++ ts) = params ss ++ params ts := by
  simp [params]

theorem params_cons (t : Token) (ts : List Token) : params (t :: ts) = params [t] ++ params ts :=
  params_append [t] ts

/-- Mentions bind nothing. -/
@[simp] theorem params_mentioned (ts : List Token) : params (mentioned ts) = [] := by
  induction ts with
  | nil => rfl
  | cons t ts ih => cases t <;> simpa [params, mentioned] using ih

/-- The text of a token, where `n` placeholders stand before it. -/
def chars (d : Dialect) (n : Nat) : Token → List Char
  | word w => w.spelling.toList
  | op o => ' ' :: o.symbol.toList ++ [' ']
  | ident name => Identifier.enclose d.mark name.toList
  | call function => function.toList ++ ['(']
  | raw sql => sql.toList
  | number n => Nat.toDigits 10 n
  | param _ => (d.placeholder (n + 1)).toList
  | mention => (d.placeholder n).toList

/-- The text of the tokens, where `n` placeholders stand before them. -/
def text (d : Dialect) : Nat → List Token → List Char
  | _, [] => []
  | n, t :: ts => t.chars d n ++ text d (n + (params [t]).length) ts

/-- What follows is numbered on from the placeholders before it. -/
theorem text_append (d : Dialect) (n : Nat) (ss ts : List Token) :
    text d n (ss ++ ts) = text d n ss ++ text d (n + (params ss).length) ts := by
  induction ss generalizing n with
  | nil => simp [text]
  | cons s ss ih => simp [text, ih, params_cons s ss, Nat.add_assoc]

/-- The tokens as SQL text with its values. -/
def bind (d : Dialect) (ts : List Token) : BoundSql := ⟨String.ofList (text d 0 ts), params ts⟩

end Token

end AssociationQuery
