import AssociationQuery.Proofs.Reading.Grouping

/-!
# AssociationQuery.Proofs.Reading.Orderings

How a database reads the terms of an ordering.

A term is an expression with its direction behind it.  A dialect that cannot say where NULL goes
sorts by the test for it first, `OrderTerm.meant`, and the words of that test are put behind the
expression as it stands.  They test the whole expression if it binds at least as tightly as a
test; behind a looser one they test its last operand only, `Expr.read?_isNull_iff`.
-/

namespace AssociationQuery

/-! ## the reader -/

/-- The direction that a token sorts in. -/
def Token.direction? : Token → Option Direction
  | word .asc => some .asc
  | word .desc => some .desc
  | _ => none

/-- The terms of an ordering, of whose first expression some tokens have been read.  Each
expression goes up to its direction, and a comma stands between two terms. -/
def readSortTerms? (before : List Token) : List Token → Option (List (SqlExpr × Direction))
  | [] => none
  | t :: ts =>
    match t.direction? with
    | none => readSortTerms? (before ++ [t]) ts
    | some direction =>
      (SqlExpr.read? (lexemes before)).bind fun e =>
        match ts with
        | [] => some [(e, direction)]
        | .word .comma :: ts => (readSortTerms? [] ts).map ((e, direction) :: ·)
        | _ => none

theorem readSortTerms?_append {us : List Token} (h : ∀ t ∈ us, t.direction? = none)
    (before ts : List Token) :
    readSortTerms? before (us ++ ts) = readSortTerms? (before ++ us) ts := by
  induction us generalizing before with
  | nil => simp
  | cons u us ih =>
    obtain ⟨hu, hus⟩ := List.forall_mem_cons.1 h
    rw [List.cons_append, readSortTerms?, hu]
    simp [ih hus]

theorem Direction.direction?_keyword (direction : Direction) :
    (Token.word direction.keyword).direction? = some direction := by
  cases direction <;> rfl

/-! ## what is to be read -/

/-- The direction in which the test for NULL is sorted to put it in its place. -/
def NullsOrder.testDirection : NullsOrder → Direction
  | first => .desc
  | last => .asc

namespace OrderTerm

/-- The tokens that an ordering stands for where the place of NULL cannot be said, with the values
at every mention of them. -/
def meant (o : OrderTerm) (us : List Token) : List Token :=
  match o.nulls with
  | none => us ++ [.word o.direction.keyword]
  | some n =>
    (us ++ [.word .isNull]) ++ .word n.testDirection.keyword :: .word .comma ::
      (us ++ [.word o.direction.keyword])

/-- The terms to sort by for the expression of an ordering. -/
def sortTerms (o : OrderTerm) (t : SqlExpr) : List (SqlExpr × Direction) :=
  match o.nulls with
  | none => [(t, o.direction)]
  | some n => [(.isNull t false, n.testDirection), (t, o.direction)]

end OrderTerm

/-! ## a test behind an expression -/

namespace SqlExpr

/-- Is the whole expression a test for NULL? -/
def isNullTest : SqlExpr → Bool
  | isNull .. => true
  | _ => false

theorem extend_nil (level : Nat) (t : SqlExpr) : extend level t [] = some (t, []) := by
  rw [extend.eq_2 _ _ _ (by simp)]
  rfl

/-- An operator goes on with a right operand that ends the text. -/
theorem extend_op_last {level : Nat} {o : BinaryOp} {t u : SqlExpr} {ts : List Lexeme}
    (hl : level ≤ o.precedence) (hne : ts ≠ [])
    (h : readLevel (o.precedence + 1) ts = some (u, [])) :
    extend level t (.op o :: ts) = some (binary o t u, []) := by
  rw [extend, if_pos hl, h]
  simp [List.length_pos_iff.2 hne, extend_nil]

theorem extend_isNull_last {level : Nat} (hl : level ≤ testPrecedence) (t : SqlExpr) :
    extend level t [.is, .null] = some (isNull t false, []) := by
  have hword : testAt? [.is, .null] = some (.isNull false, []) := rfl
  have hread : readTest t (.isNull false) [] = some (isNull t false, []) := by rw [readTest]
  rw [extend_test hl hword (Nat.le_refl _) hread, extend_nil]

end SqlExpr

namespace Expr

open SqlExpr (readLevel readOperand extend)

/-- A test for NULL behind the expression is read inside of it. -/
structure AbsorbsTest (e : Expr) (ts : List Lexeme) : Prop where
  level {level : Nat} (hl : level ≤ e.precedence) :
    ∃ t, readLevel level (ts ++ [.is, .null]) = some (t, []) ∧ t.isNullTest = false
  after {p : BinaryOp} {level : Nat} (u : SqlExpr) (hp : p.precedence = e.precedence)
      (hl : level ≤ p.precedence) :
    ∃ t, extend level u (.op p :: (ts ++ [.is, .null])) = some (t, []) ∧ t.isNullTest = false

variable {d : Dialect} {r : Resolver} {a b : Expr} {us vs : List Token}

theorem isAssociative_of_lt_test {o : BinaryOp} (h : o.precedence < testPrecedence) :
    o.isAssociative := by
  cases o <;> first | rfl | exact absurd h (by decide)

/-- A test behind an operand that stands in brackets or binds as tightly as tests do. -/
theorem ReadsAs.read_test (ha : a.ReadsAs d r (lexemes us)) (wrap : Bool)
    (h : wrap = false → testPrecedence ≤ a.precedence) {level : Nat} (hl : level ≤ testPrecedence) :
    readLevel level (lexemes (Token.bracketed wrap us) ++ [.is, .null]) =
      some (.isNull (a.grouped d r) false, []) := by
  have hreach := a.precedence_le_reach d
  have htight : tightness [.is, .null] = testPrecedence := rfl
  rw [ha.bracketed fun hw => ⟨Nat.le_trans hl (Nat.le_trans (h hw) hreach), htight ▸ h hw⟩,
    SqlExpr.extend_isNull_last hl]

/-- A loose operator goes on with its right operand and the test behind it. -/
theorem AbsorbsTest.right {o : BinaryOp} (ho : o.precedence < testPrecedence)
    (hb : b.ReadsAs d r (lexemes us))
    (hloose : b.precedence < testPrecedence → b.AbsorbsTest (lexemes us)) {level : Nat}
    (hl : level ≤ o.precedence) (u : SqlExpr) :
    ∃ t, extend level u (.op o :: (lexemes (Token.bracketed (o.wrapsRight b) us) ++ [.is, .null])) =
      some (t, []) ∧ t.isNullTest = false := by
  have hassoc := isAssociative_of_lt_test ho
  have hlast {ts : List Lexeme} {w : SqlExpr}
      (h : readLevel (o.precedence + 1) (ts ++ [.is, .null]) = some (w, [])) :
      ∃ t, extend level u (.op o :: (ts ++ [.is, .null])) = some (t, []) ∧ t.isNullTest = false :=
    ⟨_, SqlExpr.extend_op_last hl (by simp) h, rfl⟩
  by_cases hlow : o.wrapsRight b = false ∧ b.precedence < testPrecedence
  · obtain ⟨hw, hb3⟩ := hlow
    have hle : o.precedence ≤ b.precedence := by simpa [BinaryOp.wrapsRight, hassoc] using hw
    rw [hw]
    -- An operand of the same level is taken apart, a tighter one is read as a whole.
    obtain heq | hlt := Nat.eq_or_lt_of_le hle
    · exact (hloose hb3).after u heq hl
    · obtain ⟨w, hread, -⟩ := (hloose hb3).level hlt
      exact hlast hread
  · refine hlast (hb.read_test _ (fun hw => ?_) ho)
    exact Nat.le_of_not_lt fun hb3 => hlow ⟨hw, hb3⟩

theorem AbsorbsTest.binary {o : BinaryOp} (ho : o.precedence < testPrecedence)
    (ha : a.ReadsAs d r (lexemes us)) (hb : b.ReadsAs d r (lexemes vs))
    (hloose : b.precedence < testPrecedence → b.AbsorbsTest (lexemes vs)) :
    (Expr.binary o a b).AbsorbsTest (lexemes (Token.bracketed (o.wrapsLeft a) us ++
      Token.op o :: Token.bracketed (o.wrapsRight b) vs)) := by
  have hsplit : lexemes (Token.bracketed (o.wrapsLeft a) us ++
        Token.op o :: Token.bracketed (o.wrapsRight b) vs) ++ [.is, .null] =
      lexemes (Token.bracketed (o.wrapsLeft a) us) ++
        .op o :: (lexemes (Token.bracketed (o.wrapsRight b) vs) ++ [.is, .null]) := by
    simp [Token.lexemes]
  refine ⟨fun {level} hl => ?_, fun {p level} u hp hl => ?_⟩
  · rw [hsplit, ha.left o hl]
    exact AbsorbsTest.right ho hb hloose hl _
  · have hp' : p.precedence = o.precedence := hp
    have hassoc := isAssociative_of_lt_test (hp' ▸ ho)
    rw [hsplit, ha.leftAfter u hassoc hp' hl]
    exact AbsorbsTest.right ho hb hloose (hp' ▸ hl) _

theorem AbsorbsTest.not (ha : a.ReadsAs d r (lexemes us)) :
    (unary .not a).AbsorbsTest
      (lexemes (Token.word .not :: Token.bracketed (UnaryOp.not.wraps a) us)) := by
  -- NOT is looser than the test, so the test is read as part of its operand
  have hread {level : Nat} (hl : level ≤ testPrecedence) :
      readLevel level (lexemes (Token.word .not :: Token.bracketed (UnaryOp.not.wraps a) us) ++
        [.is, .null]) = some (.unary .not (.isNull (a.grouped d r) false), []) := by
    have htest := ha.read_test (UnaryOp.not.wraps a)
      (fun hw => by simpa [UnaryOp.wraps] using hw) (Nat.le_refl _)
    have hoperand : readOperand level
        (lexemes (Token.word .not :: Token.bracketed (UnaryOp.not.wraps a) us) ++ [.is, .null]) =
        some (.unary .not (.isNull (a.grouped d r) false), []) := by
      simp [Token.lexemes, Keyword.lexemes, readOperand, hl, htest]
    rw [SqlExpr.readLevel_of_readOperand hoperand (List.length_pos_iff.2 (by simp)),
      SqlExpr.extend_nil]
  refine ⟨fun {level} hl => ⟨_, hread ?_, rfl⟩, fun {p level} u hp hl => ?_⟩
  · have hl' : level ≤ 2 := hl
    exact Nat.le_trans hl' (Nat.le_succ 2)
  · have hp' : p.precedence = 2 := hp
    refine ⟨_, SqlExpr.extend_op_last hl (by simp) (hread ?_), rfl⟩
    simp [hp', testPrecedence]

/-- A loose expression takes a test behind it for its last operand. -/
theorem absorbsTest_render : (e : Expr) → e.isPlain → e.precedence < testPrecedence →
    {ts : List Token} → e.render d r = .ok ts → e.AbsorbsTest (lexemes ts)
  -- by the expression: the loosest operand at the end takes the test
  | binary o a b, hp, hloose, ts, h => by
    obtain ⟨hpa, hpb⟩ : a.isPlain ∧ b.isPlain := by simpa [isPlain] using hp
    simp only [render, bind_eq_ok] at h
    obtain ⟨us, hus, vs, hvs, h⟩ := h
    have hcall : ¬(o = .concat ∧ d = .mysql) := by
      rintro ⟨rfl, -⟩
      exact absurd hloose (Nat.not_lt.2 (Nat.le_of_ble_eq_true rfl))
    rw [if_neg hcall, pure_eq_ok] at h
    exact h ▸ .binary hloose (readsAs_render a hpa hus) (readsAs_render b hpb hvs)
      fun hb => absorbsTest_render b hpb hb hvs
  | unary .not a, hp, _, ts, h => by
    simp only [render, bind_eq_ok, pure_eq_ok] at h
    obtain ⟨us, hus, rfl⟩ := h
    exact .not (readsAs_render a hp hus)
  | unary .neg _, _, hloose, _, _ | column .., _, hloose, _, _ | literal _, _, hloose, _, _
  | call .., _, hloose, _, _ | inList .., _, hloose, _, _ | isNull .., _, hloose, _, _
  | like .., _, hloose, _, _ | raw _, _, hloose, _, _ | paren _, _, hloose, _, _
  | countStar, _, hloose, _, _ | aggregate .., _, hloose, _, _ =>
    absurd hloose (by simp [precedence, testPrecedence, atomPrecedence])

/-- A test for NULL behind an expression tests the whole of it exactly if the expression binds as
tightly as tests do. -/
theorem read?_isNull_iff {e : Expr} (hp : e.isPlain) {ts : List Token}
    (h : e.render d r = .ok ts) :
    SqlExpr.read? (lexemes ts ++ [.is, .null]) = some (.isNull (e.grouped d r) false) ↔
      testPrecedence ≤ e.precedence := by
  constructor
  · intro hread
    by_contra hloose
    obtain ⟨t, hlevel, ht⟩ :=
      (absorbsTest_render e hp (Nat.lt_of_not_le hloose) h).level e.loosest_le_precedence
    rw [SqlExpr.read?, hlevel] at hread
    obtain rfl := Option.some.inj hread
    cases ht
  · intro htight
    have hread : readLevel SqlExpr.loosest (lexemes ts ++ [.is, .null]) =
        some (.isNull (e.grouped d r) false, []) :=
      (readsAs_render e hp h).read_test false (fun _ => htight) (by decide)
    rw [SqlExpr.read?, hread]

end Expr

/-! ## the terms of a rendered ordering -/

namespace Token

/-- Tokens without a direction among them. -/
def Undirected (ts : List Token) : Prop := ∀ t ∈ ts, t.direction? = none

namespace Undirected

variable {ts us : List Token} {t : Token}

theorem single (h : t.direction? = none) : Undirected [t] := List.forall_mem_singleton.2 h

theorem append (h : Undirected ts) (h' : Undirected us) : Undirected (ts ++ us) :=
  List.forall_mem_append.2 ⟨h, h'⟩

theorem cons (ht : t.direction? = none) (h : Undirected ts) : Undirected (t :: ts) :=
  List.forall_mem_cons.2 ⟨ht, h⟩

theorem bracketed (h : Undirected ts) (wrap : Bool) : Undirected (bracketed wrap ts) := by
  cases wrap with
  | false => exact h
  | true => exact (h.cons rfl).append (single rfl)

theorem listed {parts : List (List Token)} (h : ∀ ts ∈ parts, Undirected ts) :
    Undirected (listed parts) := by
  induction parts with
  | nil => nofun
  | cons ts parts ih =>
    obtain ⟨hts, hparts⟩ := List.forall_mem_cons.1 h
    cases parts with
    | nil => exact hts
    | cons => exact hts.append ((ih hparts).cons rfl)

end Undirected

end Token

namespace Expr

open Token (Undirected)

variable {d : Dialect} {r : Resolver}

mutual

/-- No direction stands in an expression. -/
theorem undirected_render : (e : Expr) → {ts : List Token} → e.render d r = .ok ts → Undirected ts
  -- by the expression: no part of one is a direction
  | column .current name, ts, h => by
    rw [render] at h
    split at h
    · exact Except.ok.inj h ▸ by simp [Undirected, Token.column, Token.direction?]
    · exact Except.ok.inj h ▸ .single rfl
  | column (.handle a) name, ts, h => by
    simp only [render, bind_eq_ok, pure_eq_ok] at h
    obtain ⟨table, -, rfl⟩ := h
    simp [Undirected, Token.column, Token.direction?]
  | column (.named table) name, ts, h => by
    obtain rfl := Except.ok.inj h
    simp [Undirected, Token.column, Token.direction?]
  | literal v, ts, h | raw v, ts, h => Except.ok.inj h ▸ .single rfl
  | countStar, ts, h => Except.ok.inj h ▸ .single rfl
  | binary o a b, ts, h => by
    simp only [render, bind_eq_ok] at h
    obtain ⟨left, hleft, right, hright, h⟩ := h
    have ha := (undirected_render a hleft).bracketed (o.wrapsLeft a)
    have hb := (undirected_render b hright).bracketed (o.wrapsRight b)
    split_ifs at h
    · exact pure_eq_ok.1 h ▸ ((ha.cons rfl).append (hb.cons rfl)).append (.single rfl)
    · exact pure_eq_ok.1 h ▸ ha.append (hb.cons rfl)
  | unary o a, ts, h => by
    simp only [render, bind_eq_ok] at h
    obtain ⟨operand, hoperand, h⟩ := h
    have ha := (undirected_render a hoperand).bracketed (o.wraps a)
    cases o <;> exact pure_eq_ok.1 h ▸ ha.cons rfl
  | call f args, ts, h => by
    simp only [render, bind_eq_ok, pure_eq_ok] at h
    obtain ⟨parts, hparts, rfl⟩ := h
    exact ((Undirected.listed (undirected_renderAll args hparts)).cons rfl).append (.single rfl)
  | inList _ [] negated, ts, h => by
    obtain rfl := Except.ok.inj h
    cases negated <;> exact .single rfl
  | inList a (v :: vs) negated, ts, h => by
    simp only [render, bind_eq_ok, pure_eq_ok] at h
    obtain ⟨operand, hoperand, parts, hparts, rfl⟩ := h
    have ha := (undirected_render a hoperand).bracketed a.wrapsInTest
    have hvs := Undirected.listed (undirected_renderAll (v :: vs) hparts)
    refine (ha.append (hvs.cons ?_)).append (.single rfl)
    cases negated <;> rfl
  | isNull a negated, ts, h => by
    simp only [render, bind_eq_ok, pure_eq_ok] at h
    obtain ⟨operand, hoperand, rfl⟩ := h
    refine ((undirected_render a hoperand).bracketed a.wrapsInTest).append (.single ?_)
    cases negated <;> rfl
  | like a pattern negated, ts, h => by
    simp only [render, bind_eq_ok, pure_eq_ok] at h
    obtain ⟨operand, hoperand, rfl⟩ := h
    have ha := (undirected_render a hoperand).bracketed a.wrapsInTest
    refine ha.append (.cons ?_ (.single rfl))
    cases negated <;> rfl
  | paren a, ts, h => by
    simp only [render, bind_eq_ok, pure_eq_ok] at h
    obtain ⟨operand, hoperand, rfl⟩ := h
    exact (undirected_render a hoperand).bracketed true
  | aggregate f a c, ts, h => by
    simp only [render, bind_eq_ok, pure_eq_ok] at h
    obtain ⟨table, -, rfl⟩ := h
    cases f <;> simp [Undirected, AggregateFunction.tokens, Token.column, Token.direction?]

theorem undirected_renderAll : (es : List Expr) → {parts : List (List Token)} →
    renderAll d r es = .ok parts → ∀ ts ∈ parts, Undirected ts
  | [], parts, h => by
    obtain rfl := Except.ok.inj h
    nofun
  | e :: es, parts, h => by
    simp only [renderAll, bind_eq_ok, pure_eq_ok] at h
    obtain ⟨ts, hts, rest, hrest, rfl⟩ := h
    exact List.forall_mem_cons.2 ⟨undirected_render e hts, undirected_renderAll es hrest⟩

end

end Expr

namespace OrderTerm

variable {d : Dialect} {r : Resolver} {o : OrderTerm}

/-- An ordering that puts NULL in its place by a test is read as it is meant exactly if its
expression binds as tightly as the test. -/
theorem readSortTerms?_meant_iff (hp : o.expr.isPlain) {us : List Token}
    (h : o.expr.render d r = .ok us) :
    readSortTerms? [] (o.meant us) = some (o.sortTerms (o.expr.grouped d r)) ↔
      o.nulls = none ∨ testPrecedence ≤ o.expr.precedence := by
  have hus : Token.Undirected us := Expr.undirected_render o.expr h
  have hread := Expr.read?_render hp h
  have hsorted : readSortTerms? [] (us ++ [.word o.direction.keyword]) =
      some [(o.expr.grouped d r, o.direction)] := by
    rw [readSortTerms?_append hus, readSortTerms?, Direction.direction?_keyword]
    simp [hread]
  cases hn : o.nulls with
  | none => simp [meant, sortTerms, hn, hsorted]
  | some n =>
    -- the test is a term of its own before the comma, and the expression stands in it without
    -- brackets
    have htested : readSortTerms? [] (o.meant us) =
        (SqlExpr.read? (lexemes us ++ [.is, .null])).map fun e =>
          [(e, n.testDirection), (o.expr.grouped d r, o.direction)] := by
      have htest : Token.Undirected (us ++ [.word .isNull]) := hus.append (.single rfl)
      simp only [meant, hn]
      rw [readSortTerms?_append htest, readSortTerms?, Direction.direction?_keyword]
      simp [hsorted, Token.lexemes, Keyword.lexemes]
      cases SqlExpr.read? (lexemes us ++ [.is, .null]) <;> rfl
    rw [htested, ← Expr.read?_isNull_iff hp h]
    simp [sortTerms, hn]

end OrderTerm

end AssociationQuery
