import AssociationQuery.Expr.Render

/-!
# AssociationQuery.Proofs.Reading.Syntax

How a database reads the expressions that are written.

A token of this library may stand for several words of SQL, so its tokens are
first taken apart into lexemes.  `SqlExpr.read?` then groups the lexemes by the
operator table: OR binds loosest, then AND, NOT, the comparisons and tests,
addition, subtraction and `||`, multiplication and division, and the minus sign
before an operand; operators of one level group from the left.  Brackets leave
no trace in what is read.
-/

namespace AssociationQuery

/-! ## lexemes -/

/-- The words and marks of SQL expressions. -/
inductive Lexeme where
  | ident (name : String)
  | function (name : String)
  | placeholder (v : Value)
  | number (n : Nat)
  /-- An operator between operands; `-` also stands before one, `*` also for all rows. -/
  | op (o : BinaryOp)
  | not | is | null | among | like | distinct
  | opening | closing | comma | dot
  /-- What no expression contains. -/
  | other
  deriving DecidableEq

open Lexeme in
def Keyword.lexemes : Keyword → List Lexeme
  | opening => [.opening]
  | closing => [.closing]
  | comma => [.comma]
  | dot => [.dot]
  | not => [.not]
  | minus => [op .sub]
  | isNull => [is, null]
  | isNotNull => [is, .not, null]
  | inOpening => [among, .opening]
  | notInOpening => [.not, among, .opening]
  | like => [.like]
  | notLike => [.not, .like]
  | never => [number 1, op .eq, number 0]
  | always => [number 1, op .eq, number 1]
  | countStar => [function "COUNT", .opening, op .mul, .closing]
  | concatOpening => [function "CONCAT", .opening]
  | countDistinctOpening => [function "COUNT", .opening, .distinct]
  | equalsZero => [op .eq, number 0]
  | sumOpening => [function "SUM", .opening]
  | averageOpening => [function "AVG", .opening]
  | minOpening => [function "MIN", .opening]
  | maxOpening => [function "MAX", .opening]
  | _ => [other]

/-- The lexemes of a token. -/
def Token.lexemes : Token → List Lexeme
  | word w => w.lexemes
  | op o => [.op o]
  | ident name => [.ident name]
  | call function => [.function function, .opening]
  | raw _ | mention => [.other]
  | number n => [.number n]
  | param v => [.placeholder v]

/-- The lexemes of a list of tokens. -/
def lexemes (ts : List Token) : List Lexeme := ts.flatMap Token.lexemes

@[simp] theorem lexemes_nil : lexemes [] = [] := rfl

@[simp] theorem lexemes_cons (t : Token) (ts : List Token) :
    lexemes (t :: ts) = t.lexemes ++ lexemes ts := rfl

@[simp] theorem lexemes_append (ss ts : List Token) :
    lexemes (ss ++ ts) = lexemes ss ++ lexemes ts := by simp [lexemes]

/-! ## what is read -/

/-- An expression as it is read, with the brackets gone. -/
inductive SqlExpr where
  | column (table : Option String) (name : String)
  | placeholder (v : Value)
  | number (n : Nat)
  | binary (op : BinaryOp) (left right : SqlExpr)
  | unary (op : UnaryOp) (operand : SqlExpr)
  | call (function : String) (distinct : Bool) (args : List SqlExpr)
  /-- A function of whole rows. -/
  | callStar (function : String)
  | inList (operand : SqlExpr) (values : List SqlExpr) (negated : Bool)
  | isNull (operand : SqlExpr) (negated : Bool)
  | like (operand pattern : SqlExpr) (negated : Bool)
  /-- Text that nothing is known of. -/
  | raw (sql : String)

/-- The tests that follow their operand. -/
inductive TestWord where
  | isNull (negated : Bool)
  | inList (negated : Bool)
  | like (negated : Bool)

/-- The test whose words stand in front, and what follows them. -/
def testAt? : List Lexeme → Option (TestWord × List Lexeme)
  | .is :: .null :: ts => some (.isNull false, ts)
  | .is :: .not :: .null :: ts => some (.isNull true, ts)
  | .among :: .opening :: ts => some (.inList false, ts)
  | .not :: .among :: .opening :: ts => some (.inList true, ts)
  | .like :: ts => some (.like false, ts)
  | .not :: .like :: ts => some (.like true, ts)
  | _ => none

/-- A test takes at least one lexeme. -/
theorem length_lt_of_testAt? {ts rest : List Lexeme} {w : TestWord}
    (h : testAt? ts = some (w, rest)) : rest.length < ts.length := by
  unfold testAt? at h
  split at h <;> simp at h <;> grind

namespace SqlExpr

/-- The level of whole expressions. -/
def loosest : Nat := BinaryOp.or.precedence

/-- A column, whose first name has been read. -/
def readColumn (name : String) : List Lexeme → SqlExpr × List Lexeme
  | .dot :: .ident c :: ts => (column (some name) c, ts)
  | ts => (column none name, ts)

/- The tests on lengths always hold, since every reader takes at least one lexeme;
they only show that the recursion ends. -/
mutual

/-- An expression whose operators outside of brackets bind at least as tightly as the
level says, as long as it can be made, and what follows it. -/
def readLevel (level : Nat) (ts : List Lexeme) : Option (SqlExpr × List Lexeme) :=
  match readOperand level ts with
  | some (t, rest) => if rest.length < ts.length then extend level t rest else none
  | none => none
termination_by (ts.length, 1)

/-- What stands before the first operator between operands. -/
def readOperand (level : Nat) (ts : List Lexeme) : Option (SqlExpr × List Lexeme) :=
  match ts with
  | .not :: ts =>
    if level ≤ testPrecedence then
      (readLevel testPrecedence ts).map fun p => (unary .not p.1, p.2)
    else none
  | .op .sub :: ts => (readLevel atomPrecedence ts).map fun p => (unary .neg p.1, p.2)
  | .opening :: ts =>
    match readLevel loosest ts with
    | some (t, .closing :: rest) => some (t, rest)
    | _ => none
  | .ident name :: ts => some (readColumn name ts)
  | .placeholder v :: ts => some (placeholder v, ts)
  | .number n :: ts => some (number n, ts)
  | .function f :: .opening :: ts => readArguments f ts
  | _ => none
termination_by (ts.length, 0)

/-- The arguments of a function, up to the closing bracket. -/
def readArguments (f : String) (ts : List Lexeme) : Option (SqlExpr × List Lexeme) :=
  match ts with
  | .closing :: ts => some (call f false [], ts)
  | .op .mul :: .closing :: ts => some (callStar f, ts)
  | .distinct :: ts => (readItems ts).map fun p => (call f true p.1, p.2)
  | ts => (readItems ts).map fun p => (call f false p.1, p.2)
termination_by (ts.length, 3)

/-- One or more expressions with commas between them, up to the closing bracket. -/
def readItems (ts : List Lexeme) : Option (List SqlExpr × List Lexeme) :=
  match readLevel loosest ts with
  | some (t, .closing :: rest) => some ([t], rest)
  | some (t, .comma :: rest) =>
    if rest.length < ts.length then (readItems rest).map fun p => (t :: p.1, p.2) else none
  | _ => none
termination_by (ts.length, 2)

/-- The rest of a test on an operand, after the words of the test. -/
def readTest (t : SqlExpr) (w : TestWord) (ts : List Lexeme) : Option (SqlExpr × List Lexeme) :=
  match w with
  | .isNull negated => some (isNull t negated, ts)
  | .inList negated => (readItems ts).map fun p => (inList t p.1 negated, p.2)
  | .like negated =>
    (readLevel (testPrecedence + 1) ts).map fun p => (like t p.1 negated, p.2)
termination_by (ts.length, 3)

/-- Go on from an operand with the operators and tests that bind at least as tightly as
the level says, from left to right. -/
def extend (level : Nat) (t : SqlExpr) (ts : List Lexeme) : Option (SqlExpr × List Lexeme) :=
  match ts with
  | .op o :: rest =>
    if level ≤ o.precedence then
      match readLevel (o.precedence + 1) rest with
      | some (u, rest') =>
        if rest'.length < rest.length then extend level (binary o t u) rest' else none
      | none => none
    else some (t, .op o :: rest)
  | ts =>
    match _test : testAt? ts with
    | some (w, rest) =>
      if level ≤ testPrecedence then
        match readTest t w rest with
        | some (u, rest') => if rest'.length ≤ rest.length then extend level u rest' else none
        | none => none
      else some (t, ts)
    | none => some (t, ts)
termination_by (ts.length, 0)
decreasing_by
  · grind
  · grind
  · have := length_lt_of_testAt? _test
    grind
  · have := length_lt_of_testAt? _test
    grind

end

/-- The expression that a list of lexemes is. -/
def read? (ts : List Lexeme) : Option SqlExpr :=
  match readLevel loosest ts with
  | some (t, []) => some t
  | _ => none

end SqlExpr

end AssociationQuery
