import AssociationQuery.Proofs.Reading.Syntax
import AssociationQuery.Proofs.Result
import Mathlib.Data.List.Forall2

/-!
# AssociationQuery.Proofs.Reading.Grouping

How the tokens of an expression are grouped when they are read back.

Operands of one level that stand next to each other without brackets form a
chain, which the reader groups from the left whatever the tree they come from
looked like.  `Expr.chain` is the chain that the rendering of an expression
spreads out, and `read?_render` says that the expression is read as its chain,
grouped from the left.
-/

namespace AssociationQuery

/-! ## chains -/

/-- Operands of one level with the operators between them, as they stand in the text. -/
structure SqlChain where
  first : SqlExpr
  rest : List (BinaryOp × SqlExpr) := []

namespace SqlChain

/-- An operand followed by operators and operands, grouped from the left. -/
def groupFrom (t : SqlExpr) (rest : List (BinaryOp × SqlExpr)) : SqlExpr :=
  rest.foldl (fun t p => .binary p.1 t p.2) t

/-- The chain grouped from the left. -/
def grouped (c : SqlChain) : SqlExpr := groupFrom c.first c.rest

/-- The chain behind an operand and an operator, grouped from the left. -/
def after (c : SqlChain) (t : SqlExpr) (o : BinaryOp) : SqlExpr :=
  groupFrom (.binary o t c.first) c.rest

/-- The chain in brackets: a single operand. -/
def closed (c : SqlChain) : SqlChain := ⟨c.grouped, []⟩

/-- The chain, in brackets unless it is left open. -/
def openIf (isOpen : Bool) (c : SqlChain) : SqlChain := if isOpen then c else c.closed

/-- Two chains with an operator between them. -/
def joined (o : BinaryOp) (l r : SqlChain) : SqlChain :=
  ⟨l.first, l.rest ++ (o, r.first) :: r.rest⟩

@[simp] theorem grouped_single (t : SqlExpr) : grouped ⟨t, []⟩ = t := rfl

@[simp] theorem after_single (t u : SqlExpr) (o : BinaryOp) : after ⟨t, []⟩ u o = .binary o u t :=
  rfl

@[simp] theorem grouped_closed (c : SqlChain) : c.closed.grouped = c.grouped := rfl

@[simp] theorem rest_closed (c : SqlChain) : c.closed.rest = [] := rfl

@[simp] theorem grouped_openIf (b : Bool) (c : SqlChain) : (c.openIf b).grouped = c.grouped := by
  cases b <;> rfl

/-- The right one of two chains goes on with the left one as its first operand. -/
theorem grouped_joined (o : BinaryOp) (l r : SqlChain) :
    (joined o l r).grouped = r.after l.grouped o := by
  simp [joined, grouped, after, groupFrom]

/-- What stands before two chains stands before the left one. -/
theorem after_joined (o p : BinaryOp) (l r : SqlChain) (t : SqlExpr) :
    (joined o l r).after t p = r.after (l.after t p) o := by
  simp [joined, after, groupFrom]

/-- A single operand behind an operator is its right operand. -/
theorem after_of_rest_eq_nil {c : SqlChain} (h : c.rest = []) (t : SqlExpr) (o : BinaryOp) :
    c.after t o = .binary o t c.grouped := by
  simp [after, grouped, groupFrom, h]

end SqlChain

/-! ## leaves -/

/-- The alias under which a column's table is written. -/
def Resolver.qualifier (r : Resolver) : TableRef → Option String
  | .current => r.current
  | .handle a => (r.handle a).toOption
  | .named table => some table

/-- An aggregate over the table instance of the given alias. -/
def AggregateFunction.tree (f : AggregateFunction) (destination : Table) (table : Option String)
    (column : Option String) : SqlExpr :=
  let counted : SqlExpr := .call "COUNT" true [.column table destination.countedColumn]
  let applied (name : String) : SqlExpr := .call name false [.column table (column.getD "")]
  match f with
  | count => counted
  | isEmpty => .binary .eq counted (.number 0)
  | sum => applied "SUM"
  | average => applied "AVG"
  | min => applied "MIN"
  | max => applied "MAX"

/-- The condition that an empty list stands for. -/
def SqlExpr.ofEmptyList (negated : Bool) : SqlExpr :=
  .binary .eq (.number 1) (.number (if negated then 1 else 0))

/-- Is the operator written as a call? -/
def BinaryOp.isCall (o : BinaryOp) (d : Dialect) : Bool := o = .concat ∧ d = .mysql

/-- Does the left operand stand without brackets at the level of the operator? -/
def BinaryOp.opensLeft (o : BinaryOp) (a : Expr) : Bool := a.precedence = o.precedence

/-- Does the right operand stand without brackets at the level of the operator? -/
def BinaryOp.opensRight (o : BinaryOp) (b : Expr) : Bool :=
  b.precedence = o.precedence ∧ o.isAssociative

namespace Expr

mutual

/-- The chain that the expression spreads out at the level of its outermost operator. -/
def chain (d : Dialect) (r : Resolver) : Expr → SqlChain
  | column t name => ⟨.column (r.qualifier t) name, []⟩
  | literal v => ⟨.placeholder v, []⟩
  | binary o a b =>
    if o.isCall d then ⟨.call "CONCAT" false [(chain d r a).grouped, (chain d r b).grouped], []⟩
    else .joined o ((chain d r a).openIf (o.opensLeft a)) ((chain d r b).openIf (o.opensRight b))
  | unary o a => ⟨.unary o (chain d r a).grouped, []⟩
  | call f args => ⟨.call f false (groupedAll d r args), []⟩
  | inList _ [] negated => ⟨.ofEmptyList negated, []⟩
  | inList a (v :: vs) negated =>
    ⟨.inList (chain d r a).grouped (groupedAll d r (v :: vs)) negated, []⟩
  | isNull a negated => ⟨.isNull (chain d r a).grouped negated, []⟩
  | like a pattern negated =>
    ⟨.like (chain d r a).grouped (.placeholder (.text pattern)) negated, []⟩
  | raw sql => ⟨.raw sql, []⟩
  | paren a => (chain d r a).closed
  | countStar => ⟨.callStar "COUNT", []⟩
  | aggregate f a c => ⟨f.tree a.destination (r.aggregate a).toOption c, []⟩

def groupedAll (d : Dialect) (r : Resolver) : List Expr → List SqlExpr
  | [] => []
  | e :: es => (chain d r e).grouped :: groupedAll d r es

end

/-- The expression as its rendering is read. -/
def grouped (d : Dialect) (r : Resolver) (e : Expr) : SqlExpr := (e.chain d r).grouped

/-- The tightest level at which the rendering is still read as one operand. -/
def reach (d : Dialect) : Expr → Nat
  | binary o _ _ => if o.isCall d then atomPrecedence else o.precedence
  | unary .not _ | inList .. | isNull .. | like .. => testPrecedence
  | _ => atomPrecedence

/-- Nothing binds less tightly than the loosest operator. -/
theorem loosest_le_precedence (e : Expr) : SqlExpr.loosest ≤ e.precedence := by
  cases e with
  | binary o a b => cases o <;> simp [precedence, SqlExpr.loosest, BinaryOp.precedence]
  | unary o a => cases o <;> simp [precedence, SqlExpr.loosest, BinaryOp.precedence, atomPrecedence]
  | _ => simp [precedence, SqlExpr.loosest, BinaryOp.precedence, atomPrecedence, testPrecedence]

/-- An expression is read as one operand at its own level at least. -/
theorem precedence_le_reach (d : Dialect) (e : Expr) : e.precedence ≤ e.reach d := by
  cases e with
  | binary o a b =>
    simp only [precedence, reach]
    split
    · cases o <;> decide
    · exact Nat.le_refl _
  | unary o a => cases o <;> simp [precedence, reach, testPrecedence, BinaryOp.precedence]
  | _ => exact Nat.le_refl _

mutual

/-- Is there no text in the expression that is taken as it is? -/
def isPlain : Expr → Bool
  | raw _ => false
  | binary _ a b => isPlain a && isPlain b
  | unary _ a | isNull a _ | like a _ _ | paren a => isPlain a
  | call _ args => isPlainAll args
  | inList a vs _ => isPlain a && isPlainAll vs
  | column .. | literal _ | countStar | aggregate .. => true

def isPlainAll : List Expr → Bool
  | [] => true
  | e :: es => isPlain e && isPlainAll es

end

end Expr

/-! ## steps of the reader -/

/-- How tightly a text binds to an operand before it.  The dot is no operator and binds
tighter than any. -/
def tightness : List Lexeme → Nat
  | .op o :: _ => o.precedence
  | .dot :: _ => atomPrecedence + 1
  | ts => if (testAt? ts).isSome then testPrecedence else 0

/-- Can an expression begin this way? -/
def opensOperand : List Lexeme → Bool
  | [] | .closing :: _ | .op .mul :: _ | .distinct :: _ => false
  | _ => true

/-- Whether an expression can begin this way is seen from the first lexemes. -/
theorem opensOperand_append {ts : List Lexeme} (h : opensOperand ts) (rest : List Lexeme) :
    opensOperand (ts ++ rest) := by
  match ts with
  | [] => simp [opensOperand] at h
  | t :: ts => revert h; unfold opensOperand; simp; grind

/-- The words of a test bind as tightly as a test. -/
theorem tightness_of_testAt? {ts : List Lexeme} {p : TestWord × List Lexeme}
    (h : testAt? ts = some p) : tightness ts = testPrecedence := by
  unfold tightness
  split
  · simp [testAt?] at h
  · simp [testAt?] at h
  · simp [h]

namespace SqlExpr

theorem testAt?_op (o : BinaryOp) (ts : List Lexeme) : testAt? (.op o :: ts) = none := rfl

/-- What binds less tightly than the level ends the expression. -/
theorem extend_of_tightness_lt {level : Nat} {ts : List Lexeme} (t : SqlExpr)
    (h : tightness ts < level) : extend level t ts = some (t, ts) := by
  unfold tightness at h
  split at h
  · next o rest => rw [extend, if_neg (Nat.not_le.2 h)]
  · rw [extend.eq_2 _ _ _ (by simp)]
    rfl
  · next hop _ =>
    rw [extend.eq_2 _ _ _ hop]
    split
    · next ht =>
      rw [ht] at h
      exact if_neg (Nat.not_le.2 (by simpa using h))
    · rfl

/-- An operator goes on with its right operand. -/
theorem extend_op {level : Nat} {o : BinaryOp} {t u : SqlExpr} {ts rest : List Lexeme}
    (hl : level ≤ o.precedence) (hr : tightness rest ≤ o.precedence)
    (hlen : rest.length < ts.length)
    (h : readLevel (o.precedence + 1) ts = extend (o.precedence + 1) u rest) :
    extend level t (.op o :: ts) = extend level (binary o t u) rest := by
  rw [extend, if_pos hl, h, extend_of_tightness_lt u (by omega)]
  exact if_pos hlen

/-- A test goes on with what it needs. -/
theorem extend_test {level : Nat} {t u : SqlExpr} {w : TestWord} {ts rest rest' : List Lexeme}
    (hl : level ≤ testPrecedence) (hw : testAt? ts = some (w, rest))
    (hlen : rest'.length ≤ rest.length) (h : readTest t w rest = some (u, rest')) :
    extend level t ts = extend level u rest' := by
  have hop : ∀ o ts', ts = Lexeme.op o :: ts' → False := by
    intro o ts' heq
    subst heq
    simp [testAt?_op] at hw
  rw [extend.eq_2 _ _ _ hop]
  split
  · next w' rest'' hw' =>
    obtain ⟨rfl, rfl⟩ : w' = w ∧ rest'' = rest := by simpa [hw'] using hw
    simp [hl, h, hlen]
  · next hw' => simp [hw'] at hw

/-- An operand is read first, then what goes on from it. -/
theorem readLevel_of_readOperand {level : Nat} {t : SqlExpr} {ts rest : List Lexeme}
    (h : readOperand level ts = some (t, rest)) (hlen : rest.length < ts.length) :
    readLevel level ts = extend level t rest := by
  rw [readLevel, h]
  exact if_pos hlen

/-- Brackets make an operand of what is inside. -/
theorem readOperand_brackets {t : SqlExpr} {ts rest : List Lexeme} (level : Nat)
    (h : readLevel loosest (ts ++ .closing :: rest) = extend loosest t (.closing :: rest)) :
    readOperand level (.opening :: (ts ++ .closing :: rest)) = some (t, rest) := by
  rw [readOperand, h, extend_of_tightness_lt t Nat.zero_lt_one]

/-- The arguments of a function are items, and none of them is taken for DISTINCT. -/
theorem readArguments_of_opensOperand {ts : List Lexeme} (f : String) (h : opensOperand ts) :
    readArguments f ts = (readItems ts).map fun p => (call f false p.1, p.2) := by
  rw [readArguments.eq_4]
  all_goals
    intro ts' heq
    subst heq
    simp [opensOperand] at h

/-- The lexemes are read as a whole expression. -/
def IsItem (t : SqlExpr) (ts : List Lexeme) : Prop :=
  opensOperand ts ∧ ∀ rest, tightness rest = 0 →
    readLevel loosest (ts ++ rest) = extend loosest t rest

/-- An item ends where no operator goes on. -/
theorem IsItem.ends {t : SqlExpr} {ts : List Lexeme} (h : t.IsItem ts) (rest : List Lexeme)
    (hr : tightness rest = 0) : readLevel loosest (ts ++ rest) = some (t, rest) := by
  rw [h.2 rest hr, extend_of_tightness_lt t (hr ▸ Nat.zero_lt_one)]

open Token (listed) in
/-- Expressions with commas between them are read one by one. -/
theorem readItems_listed {ts : List SqlExpr} {uss : List (List Token)}
    (h : List.Forall₂ (fun t us => t.IsItem (lexemes us)) ts uss) (hne : uss ≠ [])
    (rest : List Lexeme) :
    readItems (lexemes (listed uss) ++ .closing :: rest) = some (ts, rest) := by
  induction h with
  | nil => simp at hne
  | @cons t us ts uss ht hts ih =>
    cases hts with
    | nil => rw [listed, Token.separated, readItems, ht.ends _ rfl]
    | @cons u vs us' uss' hu hus =>
      have hsplit : lexemes (listed (us :: vs :: uss')) ++ .closing :: rest =
          lexemes us ++ .comma :: (lexemes (listed (vs :: uss')) ++ .closing :: rest) := by
        simp [listed, Token.separated, Token.lexemes, Keyword.lexemes]
      rw [hsplit, readItems, ht.ends _ rfl]
      simp [ih (by simp)]
      omega

open Token (listed) in
/-- Listed items begin as the first of them does. -/
theorem opensOperand_listed {ts : List SqlExpr} {uss : List (List Token)}
    (h : List.Forall₂ (fun t us => t.IsItem (lexemes us)) ts uss) (hne : uss ≠ [])
    (rest : List Lexeme) : opensOperand (lexemes (listed uss) ++ rest) := by
  cases h with
  | nil => simp at hne
  | cons ht hts =>
    cases hts with
    | nil => exact opensOperand_append ht.1 rest
    | cons =>
      simp only [listed, Token.separated, lexemes_append, List.append_assoc]
      exact opensOperand_append ht.1 _

open Token (listed) in
/-- A function with its arguments. -/
theorem readOperand_call {ts : List SqlExpr} {uss : List (List Token)}
    (h : List.Forall₂ (fun t us => t.IsItem (lexemes us)) ts uss) (level : Nat) (f : String)
    (rest : List Lexeme) :
    readOperand level (.function f :: .opening :: (lexemes (listed uss) ++ .closing :: rest)) =
      some (call f false ts, rest) := by
  rw [readOperand]
  cases h with
  | nil => simp [listed, Token.separated, readArguments]
  | cons ht hts =>
    rw [readArguments_of_opensOperand f (opensOperand_listed (.cons ht hts) (by simp) _),
      readItems_listed (.cons ht hts) (by simp)]
    rfl

end SqlExpr

/-! ## operands -/

/-- An operand binds tighter than any operator. -/
theorem BinaryOp.precedence_lt_atom (o : BinaryOp) : o.precedence < atomPrecedence := by
  cases o <;> decide

/-- No lexeme binds as tightly as an operand. -/
theorem tightness_lt_atom {ts : List Lexeme} (h : tightness ts ≤ atomPrecedence) :
    tightness ts < atomPrecedence := by
  unfold tightness at *
  split at *
  · exact BinaryOp.precedence_lt_atom _
  · exact absurd h (by decide)
  · split <;> decide

open SqlExpr (readLevel readOperand readItems extend)
open Token (bracketed listed)

/-- The lexemes are read as the expression wherever the text around them lets them:
what stands before binds no tighter than the expression reaches, what stands behind no
tighter than its outermost operator. -/
structure Expr.ReadsAs (d : Dialect) (r : Resolver) (e : Expr) (ts : List Lexeme) : Prop where
  opens : opensOperand ts
  level {level : Nat} {rest : List Lexeme} (hl : level ≤ e.reach d)
    (hr : tightness rest ≤ e.precedence) :
    readLevel level (ts ++ rest) = extend level (e.grouped d r) rest
  /-- Behind an operator of its own level the chain is taken apart. -/
  after {level : Nat} {o : BinaryOp} {t : SqlExpr} {rest : List Lexeme}
    (ho : o.isAssociative) (hp : e.precedence = o.precedence) (hl : level ≤ o.precedence)
    (hr : tightness rest ≤ o.precedence) :
    extend level t (.op o :: (ts ++ rest)) = extend level ((e.chain d r).after t o) rest

namespace Expr.ReadsAs

variable {d : Dialect} {r : Resolver} {e a b : Expr} {us : List Token}

/-- What an expression begins with is more than nothing. -/
theorem length_lt {ts : List Lexeme} (h : opensOperand ts) (rest : List Lexeme) :
    rest.length < (ts ++ rest).length := by
  cases ts with
  | nil => simp [opensOperand] at h
  | cons =>
    rw [List.cons_append, List.length_cons, List.length_append]
    omega

/-- An expression that is read as one operand even by tighter operators is a chain of
its own behind an operator of its level. -/
theorem of_single {ts : List Lexeme} (hopens : opensOperand ts)
    (hchain : (e.chain d r).rest = [])
    (hreach : ∀ o : BinaryOp, o.isAssociative → e.precedence = o.precedence →
      o.precedence < e.reach d)
    (hlevel : ∀ {level rest}, level ≤ e.reach d → tightness rest ≤ e.precedence →
      readLevel level (ts ++ rest) = extend level (e.grouped d r) rest) :
    e.ReadsAs d r ts where
  opens := hopens
  level := hlevel
  after ho hp hl hr := by
    rw [SqlChain.after_of_rest_eq_nil hchain]
    exact SqlExpr.extend_op hl hr (length_lt hopens _) (hlevel (hreach _ ho hp) (hp ▸ hr))

/-- What binds tighter than every operator is a chain of its own. -/
theorem of_atom {ts : List Lexeme} (hopens : opensOperand ts)
    (hprecedence : e.precedence = atomPrecedence) (hchain : (e.chain d r).rest = [])
    (hoperand : ∀ {level rest}, tightness rest ≤ atomPrecedence →
      readOperand level (ts ++ rest) = some (e.grouped d r, rest)) :
    e.ReadsAs d r ts := by
  refine of_single hopens hchain (fun o _ hp => ?_) (fun _ hr => ?_)
  · have := o.precedence_lt_atom
    omega
  · rw [hprecedence] at hr
    exact SqlExpr.readLevel_of_readOperand (hoperand hr) (length_lt hopens _)

/-- With brackets or without, an expression can begin this way. -/
theorem opens_bracketed (h : e.ReadsAs d r (lexemes us)) (w : Bool) :
    opensOperand (lexemes (bracketed w us)) := by
  cases w
  · exact h.opens
  · rfl

/-- An operand with the brackets it needs. -/
theorem bracketed (h : e.ReadsAs d r (lexemes us)) {w : Bool} {level : Nat}
    {rest : List Lexeme}
    (hw : w = false → level ≤ e.reach d ∧ tightness rest ≤ e.precedence) :
    readLevel level (lexemes (bracketed w us) ++ rest) = extend level (e.grouped d r) rest := by
  cases w with
  | false => exact h.level (hw rfl).1 (hw rfl).2
  | true =>
    have hin : readLevel SqlExpr.loosest (lexemes us ++ .closing :: rest) =
        extend SqlExpr.loosest (e.grouped d r) (.closing :: rest) :=
      h.level (Nat.le_trans e.loosest_le_precedence (e.precedence_le_reach d))
        (Nat.zero_le _)
    have hout := SqlExpr.readLevel_of_readOperand (SqlExpr.readOperand_brackets level hin)
      (by simp; omega)
    simpa [Token.bracketed, Token.lexemes, Keyword.lexemes] using hout

/-- The left operand of an operator, up to the operator. -/
theorem left (ha : a.ReadsAs d r (lexemes us)) (o : BinaryOp) {level : Nat}
    (hl : level ≤ o.precedence) (rest : List Lexeme) :
    readLevel level (lexemes (Token.bracketed (o.wrapsLeft a) us) ++ .op o :: rest) =
      extend level (a.grouped d r) (.op o :: rest) := by
  refine ha.bracketed fun hw => ?_
  have hp : o.precedence ≤ a.precedence := by simpa [BinaryOp.wrapsLeft] using hw
  have := a.precedence_le_reach d
  exact ⟨by omega, hp⟩

/-- The left operand of an operator behind another one of its level. -/
theorem leftAfter (ha : a.ReadsAs d r (lexemes us)) {o p : BinaryOp} {level : Nat}
    (t : SqlExpr) (hassoc : p.isAssociative) (hp : p.precedence = o.precedence)
    (hl : level ≤ p.precedence) (rest : List Lexeme) :
    extend level t (.op p :: (lexemes (Token.bracketed (o.wrapsLeft a) us) ++ .op o :: rest)) =
      extend level (((a.chain d r).openIf (o.opensLeft a)).after t p) (.op o :: rest) := by
  by_cases hopen : a.precedence = o.precedence
  · have hw : o.wrapsLeft a = false := by simp [BinaryOp.wrapsLeft, hopen]
    rw [hw, show o.opensLeft a = true by simp [BinaryOp.opensLeft, hopen]]
    exact ha.after hassoc (by omega) hl (Nat.le_of_eq hp.symm)
  · rw [show o.opensLeft a = false by simp [BinaryOp.opensLeft, hopen]]
    refine SqlExpr.extend_op hl (Nat.le_of_eq hp.symm) ?_ (ha.bracketed fun hw => ?_)
    · exact length_lt (ha.opens_bracketed _) _
    · have hle : o.precedence ≤ a.precedence := by simpa [BinaryOp.wrapsLeft] using hw
      have := a.precedence_le_reach d
      exact ⟨by omega, hle⟩

/-- The right operand of an operator. -/
theorem right (hb : b.ReadsAs d r (lexemes us)) {o : BinaryOp} {level : Nat} (t : SqlExpr)
    (hl : level ≤ o.precedence) {rest : List Lexeme} (hr : tightness rest ≤ o.precedence) :
    extend level t (.op o :: (lexemes (Token.bracketed (o.wrapsRight b) us) ++ rest)) =
      extend level (((b.chain d r).openIf (o.opensRight b)).after t o) rest := by
  by_cases hopen : b.precedence = o.precedence ∧ o.isAssociative
  · have hw : o.wrapsRight b = false := by simp [BinaryOp.wrapsRight, hopen]
    rw [hw, show o.opensRight b = true by simp [BinaryOp.opensRight, hopen]]
    exact hb.after hopen.2 hopen.1 hl hr
  · rw [show o.opensRight b = false by simpa [BinaryOp.opensRight] using hopen]
    refine SqlExpr.extend_op hl hr ?_ (hb.bracketed fun hw => ?_)
    · exact length_lt (hb.opens_bracketed _) _
    · have hlt : o.precedence < b.precedence := by
        simp [BinaryOp.wrapsRight] at hw hopen
        grind
      have := b.precedence_le_reach d
      exact ⟨by omega, by omega⟩

/-- The operand of a test, up to the words of the test. -/
theorem tested (ha : a.ReadsAs d r (lexemes us)) {level : Nat} {rest : List Lexeme}
    (hl : level ≤ testPrecedence) (hr : tightness rest = testPrecedence) :
    readLevel level (lexemes (Token.bracketed a.wrapsInTest us) ++ rest) =
      extend level (a.grouped d r) rest := by
  refine ha.bracketed fun hw => ?_
  have hp : testPrecedence < a.precedence := by simpa [wrapsInTest] using hw
  have := a.precedence_le_reach d
  exact ⟨by omega, by omega⟩

/-- With brackets or without, an operand of a list is read as it is. -/
theorem isItem_bracketed (h : e.ReadsAs d r (lexemes us)) (w : Bool) :
    (e.grouped d r).IsItem (lexemes (Token.bracketed w us)) := by
  refine ⟨h.opens_bracketed w, fun rest hr => h.bracketed fun _ => ?_⟩
  exact ⟨Nat.le_trans e.loosest_le_precedence (e.precedence_le_reach d), hr ▸ Nat.zero_le _⟩

/-- Between commas an expression is read as it is. -/
theorem isItem (h : e.ReadsAs d r (lexemes us)) : (e.grouped d r).IsItem (lexemes us) :=
  h.isItem_bracketed false

/-! ## the parts of an expression -/

variable {vs : List Token}

/-- Both operands of an operator are read with the brackets that they were given. -/
theorem binary {o : BinaryOp} (hcall : o.isCall d = false) (ha : a.ReadsAs d r (lexemes us))
    (hb : b.ReadsAs d r (lexemes vs)) :
    (Expr.binary o a b).ReadsAs d r
      (lexemes (Token.bracketed (o.wrapsLeft a) us ++
        Token.op o :: Token.bracketed (o.wrapsRight b) vs)) := by
  have hsplit (rest : List Lexeme) :
      lexemes (Token.bracketed (o.wrapsLeft a) us ++
        Token.op o :: Token.bracketed (o.wrapsRight b) vs) ++ rest =
      lexemes (Token.bracketed (o.wrapsLeft a) us) ++
        .op o :: (lexemes (Token.bracketed (o.wrapsRight b) vs) ++ rest) := by
    simp [Token.lexemes]
  -- what comes behind binds no tighter than the operator, so it is not read into the right operand
  refine ⟨?_, fun {level rest} hl hr => ?_, fun {level p t rest} hassoc hp hl hr => ?_⟩
  · rw [lexemes_append]
    exact opensOperand_append (ha.opens_bracketed _) _
  · have hl' : level ≤ o.precedence := by simpa [reach, hcall] using hl
    rw [hsplit, ha.left o hl', hb.right _ hl' hr]
    simp [grouped, chain, hcall, SqlChain.grouped_joined]
  · have hp' : p.precedence = o.precedence := hp.symm
    rw [hsplit, ha.leftAfter t hassoc hp' hl, hb.right _ (hp' ▸ hl) (hp' ▸ hr)]
    simp [chain, hcall, SqlChain.after_joined]

/-- Concatenation that is written as a call is read as a call with two arguments. -/
theorem concatCall {o : BinaryOp} (hcall : o.isCall d = true) {wa wb : Bool}
    (ha : a.ReadsAs d r (lexemes us)) (hb : b.ReadsAs d r (lexemes vs)) :
    (Expr.binary o a b).ReadsAs d r
      (lexemes (Token.word .concatOpening :: Token.bracketed wa us ++
        Token.word .comma :: Token.bracketed wb vs ++ [Token.word .closing])) := by
  have hitems : List.Forall₂ (fun t us => SqlExpr.IsItem t (lexemes us))
      [a.grouped d r, b.grouped d r] [Token.bracketed wa us, Token.bracketed wb vs] :=
    .cons (ha.isItem_bracketed wa) (.cons (hb.isItem_bracketed wb) .nil)
  refine of_single rfl (by simp [chain, hcall]) (fun p _ _ => ?_) (fun {level rest} _ _ => ?_)
  · simpa [reach, hcall] using p.precedence_lt_atom
  · have hread := SqlExpr.readOperand_call hitems level "CONCAT" rest
    refine SqlExpr.readLevel_of_readOperand ?_ (length_lt rfl _)
    simpa [Token.lexemes, Keyword.lexemes, listed, Token.separated, grouped, chain, hcall]
      using hread

/-- A negated condition is read with the brackets that its operand was given. -/
theorem not (ha : a.ReadsAs d r (lexemes us)) :
    (Expr.unary .not a).ReadsAs d r
      (lexemes (Token.word .not :: Token.bracketed (UnaryOp.not.wraps a) us)) := by
  refine of_single rfl rfl (fun o ho hp => ?_) (fun {level rest} hl hr => ?_)
  · have hp' : o.precedence = 2 := hp.symm
    show o.precedence < 3
    omega
  · have hr' : tightness rest < testPrecedence := Nat.lt_succ_of_le hr
    have hread : readLevel testPrecedence
        (lexemes (Token.bracketed (UnaryOp.not.wraps a) us) ++ rest) =
        some (a.grouped d r, rest) := by
      rw [ha.bracketed fun hw => ?_, SqlExpr.extend_of_tightness_lt _ hr']
      have hp : testPrecedence ≤ a.precedence := by simpa [UnaryOp.wraps] using hw
      have := a.precedence_le_reach d
      exact ⟨by omega, by omega⟩
    refine SqlExpr.readLevel_of_readOperand ?_ (length_lt rfl _)
    have hl' : level ≤ testPrecedence := hl
    simp [Token.lexemes, Keyword.lexemes, SqlExpr.readOperand, hl', hread, grouped, chain]

/-- So is a number with a minus before it. -/
theorem neg (ha : a.ReadsAs d r (lexemes us)) :
    (Expr.unary .neg a).ReadsAs d r
      (lexemes (Token.word .minus :: Token.bracketed (UnaryOp.neg.wraps a) us)) := by
  refine of_atom rfl rfl rfl fun {level rest} hr => ?_
  have hread : readLevel atomPrecedence
      (lexemes (Token.bracketed (UnaryOp.neg.wraps a) us) ++ rest) =
      some (a.grouped d r, rest) := by
    rw [ha.bracketed fun hw => ?_, SqlExpr.extend_of_tightness_lt _ (tightness_lt_atom hr)]
    have hp : atomPrecedence ≤ a.precedence := by simpa [UnaryOp.wraps] using hw
    have := a.precedence_le_reach d
    exact ⟨by omega, by omega⟩
  simp [Token.lexemes, Keyword.lexemes, SqlExpr.readOperand, hread, grouped, chain]

/-- No run of comparisons or tests stays open on the right. -/
theorem precedence_ne_test {o : BinaryOp} (h : o.isAssociative) :
    o.precedence ≠ testPrecedence := by
  cases o <;> simp [BinaryOp.isAssociative] at h <;> decide

/-- A test: its words behind the operand, and what it needs behind these. -/
theorem test {u : SqlExpr} (w : TestWord) (words ts : List Lexeme)
    (he : e.precedence = testPrecedence) (hreach : e.reach d = testPrecedence)
    (hchain : e.chain d r = ⟨u, []⟩) (ha : a.ReadsAs d r (lexemes us))
    (hwords : ∀ rest, testAt? (words ++ rest) = some (w, rest))
    (htest : ∀ rest, tightness rest ≤ testPrecedence →
      SqlExpr.readTest (a.grouped d r) w (ts ++ rest) = some (u, rest)) :
    e.ReadsAs d r (lexemes (Token.bracketed a.wrapsInTest us) ++ (words ++ ts)) := by
  refine of_single (opensOperand_append (ha.opens_bracketed _) _) (by rw [hchain])
    (fun o ho hp => absurd (hp.symm.trans he) (precedence_ne_test ho))
    (fun {level rest} hl hr => ?_)
  have hl' : level ≤ testPrecedence := hreach ▸ hl
  have hw := hwords (ts ++ rest)
  rw [List.append_assoc, List.append_assoc, ha.tested hl' (tightness_of_testAt? hw),
    SqlExpr.extend_test hl' hw (by simp) (htest rest (he ▸ hr))]
  simp [grouped, hchain]

/-- A test for NULL is read behind its operand. -/
theorem isNull (ha : a.ReadsAs d r (lexemes us)) (negated : Bool) :
    (Expr.isNull a negated).ReadsAs d r (lexemes (Token.bracketed a.wrapsInTest us ++
      [Token.word (if negated then .isNotNull else .isNull)])) := by
  rw [lexemes_append]
  refine ha.test (.isNull negated)
    (Token.word (if negated then .isNotNull else .isNull)).lexemes [] rfl rfl rfl ?_
    fun rest _ => ?_
  · cases negated <;> intro rest <;> rfl
  · simp [SqlExpr.readTest, grouped]

/-- A comparison with a pattern is read behind its operand. -/
theorem like (ha : a.ReadsAs d r (lexemes us)) (pattern : String) (negated : Bool) :
    (Expr.like a pattern negated).ReadsAs d r (lexemes (Token.bracketed a.wrapsInTest us ++
      [Token.word (if negated then .notLike else .like), Token.param (.text pattern)])) := by
  rw [lexemes_append]
  refine ha.test (.like negated) (Token.word (if negated then .notLike else .like)).lexemes
    [.placeholder (.text pattern)] rfl rfl rfl ?_ fun rest hr => ?_
  · cases negated <;> intro rest <;> rfl
  · have hread : readLevel (testPrecedence + 1) (.placeholder (.text pattern) :: rest) =
        some (.placeholder (.text pattern), rest) := by
      rw [SqlExpr.readLevel_of_readOperand (by rw [readOperand]) (by simp),
        SqlExpr.extend_of_tightness_lt _ (by omega)]
    simp [SqlExpr.readTest, hread, grouped]

/-- Expressions that are read as they are make items that are. -/
theorem isItem_all {es : List Expr} {uss : List (List Token)}
    (h : List.Forall₂ (fun e us => e.ReadsAs d r (lexemes us)) es uss) :
    List.Forall₂ (fun t us => SqlExpr.IsItem t (lexemes us)) (groupedAll d r es) uss := by
  induction h with
  | nil => exact .nil
  | cons he _ ih => exact .cons he.isItem ih

/-- A list that is not empty is read item by item. -/
theorem inList {v : Expr} {vs : List Expr} {uss : List (List Token)}
    (ha : a.ReadsAs d r (lexemes us))
    (hvs : List.Forall₂ (fun e us => e.ReadsAs d r (lexemes us)) (v :: vs) uss)
    (negated : Bool) :
    (Expr.inList a (v :: vs) negated).ReadsAs d r
      (lexemes (Token.bracketed a.wrapsInTest us ++
        Token.word (if negated then .notInOpening else .inOpening) :: listed uss ++
        [Token.word .closing])) := by
  have hsplit (w : Keyword) : lexemes (Token.word w :: listed uss ++ [Token.word .closing]) =
      (Token.word w).lexemes ++ (lexemes (listed uss) ++ [.closing]) := by
    simp [Token.lexemes, Keyword.lexemes]
  rw [List.append_assoc, lexemes_append, hsplit]
  refine ha.test (e := .inList a (v :: vs) negated) (.inList negated) _
    (lexemes (listed uss) ++ [.closing]) rfl rfl (by rw [chain]) ?_ fun rest _ => ?_
  · cases negated <;> intro rest <;> rfl
  -- the list is not empty, so its items are read up to the bracket
  · have hne : uss ≠ [] := by
      intro heq
      subst heq
      cases hvs
    have hread := SqlExpr.readItems_listed (isItem_all hvs) hne rest
    simp [SqlExpr.readTest, hread, grouped]

/-- What is written for an empty list is a comparison of two numbers. -/
theorem emptyList (a : Expr) (negated : Bool) :
    (Expr.inList a [] negated).ReadsAs d r
      (lexemes [Token.word (if negated then .always else .never)]) := by
  have hsplit (rest : List Lexeme) :
      lexemes [Token.word (if negated then .always else .never)] ++ rest =
        .number 1 :: .op .eq :: .number (if negated then 1 else 0) :: rest := by
    cases negated <;> rfl
  refine of_single (by cases negated <;> rfl) rfl
    (fun o ho hp => absurd hp.symm (precedence_ne_test ho)) (fun {level rest} hl hr => ?_)
  have hright : readLevel (BinaryOp.eq.precedence + 1)
      (.number (if negated then 1 else 0) :: rest) =
      extend (BinaryOp.eq.precedence + 1) (.number (if negated then 1 else 0)) rest :=
    SqlExpr.readLevel_of_readOperand (by rw [readOperand]) (by simp)
  rw [hsplit, SqlExpr.readLevel_of_readOperand (by rw [readOperand]) (by simp),
    SqlExpr.extend_op hl hr (by simp) hright]
  rfl

/-- A call is read with its arguments. -/
theorem call {es : List Expr} {uss : List (List Token)} (f : String)
    (hes : List.Forall₂ (fun e us => e.ReadsAs d r (lexemes us)) es uss) :
    (Expr.call f es).ReadsAs d r
      (lexemes (Token.call f :: listed uss ++ [Token.word .closing])) := by
  refine of_atom rfl rfl rfl fun {level rest} _ => ?_
  have hread := SqlExpr.readOperand_call (isItem_all hes) level f rest
  simpa [Token.lexemes, Keyword.lexemes, grouped, chain] using hread

/-- Brackets are read as what is inside. -/
theorem paren (ha : a.ReadsAs d r (lexemes us)) :
    (Expr.paren a).ReadsAs d r (lexemes (Token.bracketed true us)) := by
  refine of_atom rfl rfl rfl fun {level rest} _ => ?_
  have hread := SqlExpr.readOperand_brackets level (ha.isItem.2 (.closing :: rest) rfl)
  simpa [Token.bracketed, Token.lexemes, Keyword.lexemes, grouped, chain] using hread

/-- A qualified column is one operand. -/
theorem readOperand_column (level : Nat) (table name : String) (rest : List Lexeme) :
    readOperand level (.ident table :: .dot :: .ident name :: rest) =
      some (.column (some table) name, rest) := by
  rw [readOperand]
  rfl

/-- A column is read with the qualifier that it was written with. -/
theorem column {t : TableRef} {table : String} (name : String)
    (ht : r.qualifier t = some table) :
    (Expr.column t name).ReadsAs d r (lexemes (Token.column table name)) := by
  refine of_atom rfl rfl rfl fun {level rest} _ => ?_
  have hread := readOperand_column level table name rest
  simpa [Token.column, Token.lexemes, Keyword.lexemes, grouped, chain, ht] using hread

/-- A column without a qualifier is read without one. -/
theorem bareColumn {t : TableRef} (name : String) (ht : r.qualifier t = none) :
    (Expr.column t name).ReadsAs d r (lexemes [Token.ident name]) := by
  refine of_atom rfl rfl rfl fun {level rest} hr => ?_
  have hread : SqlExpr.readColumn name rest = (.column none name, rest) := by
    unfold SqlExpr.readColumn
    split
    · exact absurd hr (Nat.not_succ_le_self _)
    · rfl
  simp [Token.lexemes, SqlExpr.readOperand, hread, grouped, chain, ht]

/-! ## aggregates -/

theorem isItem_column (table name : String) :
    SqlExpr.IsItem (.column (some table) name) (lexemes (Token.column table name)) := by
  refine ⟨rfl, fun rest _ => SqlExpr.readLevel_of_readOperand ?_ (length_lt rfl _)⟩
  simpa [Token.column, Token.lexemes, Keyword.lexemes] using
    readOperand_column SqlExpr.loosest table name rest

/-- An aggregate of one column. -/
theorem readOperand_applied (level : Nat) (w : Keyword) (f table name : String)
    (hw : w.lexemes = [.function f, .opening]) (rest : List Lexeme) :
    readOperand level
      (lexemes (Token.word w :: Token.column table name ++ [Token.word .closing]) ++ rest) =
      some (.call f false [.column (some table) name], rest) := by
  have hopening : (Token.word w).lexemes = [.function f, .opening] := hw
  have hclosing : lexemes [Token.word .closing] = [.closing] := rfl
  have hread :=
    SqlExpr.readOperand_call (.cons (isItem_column table name) .nil) level f rest
  simpa [hopening, hclosing, listed, Token.separated] using hread

/-- The number of different values of a column. -/
theorem readOperand_counted (level : Nat) (table name : String) (rest : List Lexeme) :
    readOperand level (lexemes (Token.word .countDistinctOpening ::
        Token.column table name ++ [Token.word .closing]) ++ rest) =
      some (.call "COUNT" true [.column (some table) name], rest) := by
  have hitem := SqlExpr.readItems_listed (.cons (isItem_column table name) .nil) (by simp) rest
  have hargs : SqlExpr.readArguments "COUNT"
      (.distinct :: (lexemes (Token.column table name) ++ .closing :: rest)) =
      some (.call "COUNT" true [.column (some table) name], rest) := by
    rw [SqlExpr.readArguments, show lexemes (Token.column table name) =
      lexemes (listed [Token.column table name]) from rfl, hitem]
    rfl
  simpa [Token.lexemes, Keyword.lexemes, readOperand] using hargs

/-- Is the number of different values of a column zero? -/
theorem readOperand_isEmpty (level : Nat) (table name : String) (rest : List Lexeme) :
    readOperand level (lexemes (Token.word .opening :: (Token.word .countDistinctOpening ::
        Token.column table name ++ [Token.word .closing]) ++
        [Token.word .equalsZero, Token.word .closing]) ++ rest) =
      some (.binary .eq (.call "COUNT" true [.column (some table) name]) (.number 0), rest) := by
  have hzero : readLevel (BinaryOp.eq.precedence + 1) (.number 0 :: .closing :: rest) =
      extend (BinaryOp.eq.precedence + 1) (.number 0) (.closing :: rest) :=
    SqlExpr.readLevel_of_readOperand (by rw [readOperand]) (by simp)
  have hin : readLevel SqlExpr.loosest ((lexemes (Token.word .countDistinctOpening ::
        Token.column table name ++ [Token.word .closing]) ++ [.op .eq, .number 0]) ++
        .closing :: rest) =
      extend SqlExpr.loosest
        (.binary .eq (.call "COUNT" true [.column (some table) name]) (.number 0))
        (.closing :: rest) := by
    rw [List.append_assoc, SqlExpr.readLevel_of_readOperand
      (readOperand_counted _ table name _) (length_lt rfl _)]
    exact SqlExpr.extend_op (by decide) (Nat.zero_le _) (by simp) hzero
  simpa [Token.lexemes, Keyword.lexemes] using SqlExpr.readOperand_brackets level hin

/-- An aggregate is read as the call that it is written as. -/
theorem aggregate {f : AggregateFunction} {assoc : Association} {table : String}
    (c : Option String) (ht : r.aggregate assoc = .ok table) :
    (Expr.aggregate f assoc c).ReadsAs d r (lexemes (f.tokens assoc.destination table c)) := by
  have hgrouped : (Expr.aggregate f assoc c).grouped d r =
      f.tree assoc.destination (some table) c := by
    simp [grouped, chain, ht, Except.toOption]
  refine of_atom (by cases f <;> rfl) rfl rfl fun {level rest} _ => ?_
  rw [hgrouped]
  cases f with
  | count => exact readOperand_counted level table _ rest
  | isEmpty => exact readOperand_isEmpty level table _ rest
  | sum => exact readOperand_applied level _ _ table _ rfl rest
  | average => exact readOperand_applied level _ _ table _ rfl rest
  | min => exact readOperand_applied level _ _ table _ rfl rest
  | max => exact readOperand_applied level _ _ table _ rfl rest

end Expr.ReadsAs

/-! ## whole expressions -/

namespace Expr

mutual

/-- What an expression is rendered as is read as the expression's chain. -/
theorem readsAs_render {d : Dialect} {r : Resolver} : (e : Expr) → e.isPlain →
    {ts : List Token} → e.render d r = .ok ts → e.ReadsAs d r (lexemes ts)
  -- by the expression, with any text behind it that does not bind its parts more tightly
  | column t name, _, ts, h => by
    cases t with
    | current =>
      cases hc : r.current with
      | none =>
        obtain rfl : [Token.ident name] = ts := by simpa [render, hc] using h
        exact .bareColumn name hc
      | some table =>
        obtain rfl : Token.column table name = ts := by simpa [render, hc] using h
        exact .column name hc
    | handle a =>
      obtain ⟨table, ha, rfl⟩ : ∃ table, r.handle a = .ok table ∧
          Token.column table name = ts := by simpa only [render, bind_eq_ok, pure_eq_ok] using h
      exact .column name (by simp [Resolver.qualifier, ha, Except.toOption])
    | named table =>
      obtain rfl : Token.column table name = ts := by simpa [render] using h
      exact .column name rfl
  | literal v, _, ts, h => by
    obtain rfl : [Token.param v] = ts := by simpa [render] using h
    exact .of_atom rfl rfl rfl fun _ => by rw [readOperand.eq_def]; rfl
  | binary o a b, hp, ts, h => by
    obtain ⟨hpa, hpb⟩ : a.isPlain ∧ b.isPlain := by simpa [isPlain] using hp
    simp only [render, bind_eq_ok] at h
    obtain ⟨us, hus, vs, hvs, h⟩ := h
    have ha := readsAs_render a hpa hus
    have hb := readsAs_render b hpb hvs
    by_cases hcall : o = .concat ∧ d = .mysql
    · rw [if_pos hcall, pure_eq_ok] at h
      exact h ▸ ha.concatCall (by simpa [BinaryOp.isCall] using hcall) hb
    · rw [if_neg hcall, pure_eq_ok] at h
      exact h ▸ ha.binary (by simpa [BinaryOp.isCall] using hcall) hb
  | unary o a, hp, ts, h => by
    simp only [render, bind_eq_ok] at h
    obtain ⟨us, hus, h⟩ := h
    have ha := readsAs_render a hp hus
    cases o with
    | not =>
      rw [pure_eq_ok] at h
      exact h ▸ ha.not
    | neg =>
      rw [pure_eq_ok] at h
      exact h ▸ ha.neg
  | .call f args, hp, ts, h => by
    simp only [render, bind_eq_ok, pure_eq_ok] at h
    obtain ⟨uss, huss, rfl⟩ := h
    exact .call f (readsAs_renderAll args hp huss)
  | inList a [] negated, hp, ts, h => by
    obtain rfl : [Token.word (if negated then .always else .never)] = ts := by
      simpa [render] using h
    exact .emptyList a negated
  | inList a (v :: vs) negated, hp, ts, h => by
    obtain ⟨hpa, hpvs⟩ : a.isPlain ∧ isPlainAll (v :: vs) := by simpa [isPlain] using hp
    simp only [render, bind_eq_ok, pure_eq_ok] at h
    obtain ⟨us, hus, uss, huss, rfl⟩ := h
    exact (readsAs_render a hpa hus).inList (readsAs_renderAll (v :: vs) hpvs huss) negated
  | isNull a negated, hp, ts, h => by
    simp only [render, bind_eq_ok, pure_eq_ok] at h
    obtain ⟨us, hus, rfl⟩ := h
    exact (readsAs_render a hp hus).isNull negated
  | like a pattern negated, hp, ts, h => by
    simp only [render, bind_eq_ok, pure_eq_ok] at h
    obtain ⟨us, hus, rfl⟩ := h
    exact (readsAs_render a hp hus).like pattern negated
  | raw sql, hp, _, _ => by simp [isPlain] at hp
  | paren a, hp, ts, h => by
    simp only [render, bind_eq_ok, pure_eq_ok] at h
    obtain ⟨us, hus, rfl⟩ := h
    exact (readsAs_render a hp hus).paren
  | countStar, _, ts, h => by
    obtain rfl : [Token.word .countStar] = ts := by simpa [render] using h
    refine .of_atom rfl rfl rfl fun _ => ?_
    simp [Token.lexemes, Keyword.lexemes, readOperand, SqlExpr.readArguments, grouped, chain]
  | aggregate f a c, _, ts, h => by
    simp only [render, bind_eq_ok, pure_eq_ok] at h
    obtain ⟨table, ha, rfl⟩ := h
    exact .aggregate c ha

theorem readsAs_renderAll {d : Dialect} {r : Resolver} : (es : List Expr) → isPlainAll es →
    {uss : List (List Token)} → renderAll d r es = .ok uss →
    List.Forall₂ (fun e us => e.ReadsAs d r (lexemes us)) es uss
  | [], _, uss, h => by
    obtain rfl : [] = uss := by simpa [renderAll] using h
    exact .nil
  | e :: es, hp, uss, h => by
    obtain ⟨hpe, hpes⟩ : e.isPlain ∧ isPlainAll es := by simpa [isPlainAll] using hp
    simp only [renderAll, bind_eq_ok, pure_eq_ok] at h
    obtain ⟨us, hus, uss, huss, rfl⟩ := h
    exact .cons (readsAs_render e hpe hus) (readsAs_renderAll es hpes huss)

end

/-- A rendered expression is read as its chain, grouped from the left. -/
theorem read?_render {d : Dialect} {r : Resolver} {e : Expr} (hp : e.isPlain) {ts : List Token}
    (h : e.render d r = .ok ts) : SqlExpr.read? (lexemes ts) = some (e.grouped d r) := by
  have hread := (readsAs_render e hp h).isItem.ends [] rfl
  rw [SqlExpr.read?, ← List.append_nil (lexemes ts), hread]

end Expr

end AssociationQuery
