import AssociationQuery.Proofs.Reading.Grouping
import AssociationQuery.Proofs.Reading.Lexing

/-!
# AssociationQuery.Proofs.Reading.Negations

The words and marks of an expression, and where its text loses them.

A minus sign before an operand is written without a blank, and an operand that is itself such a
negation gets no brackets.  So two of them directly inside each other open a comment, which takes
the rest of the line with it.  Nothing else in an expression does that:
`Expr.render_legible_iff` says that a scanner finds the very words and marks of an expression in
its text exactly if no negation stands directly in another.
-/

namespace AssociationQuery

/-! ## expressions -/

namespace Expr

mutual

/-- Is the expression made without SQL text, with function names of plain characters? -/
def isWorded : Expr → Bool
  | raw _ => false
  | call f args => f.toList.all Identifier.isPlain && isWordedAll args
  | binary _ a b => isWorded a && isWorded b
  | unary _ a | isNull a _ | like a _ _ | paren a => isWorded a
  | inList a vs _ => isWorded a && isWordedAll vs
  | column .. | literal _ | countStar | aggregate .. => true

def isWordedAll : List Expr → Bool
  | [] => true
  | e :: es => isWorded e && isWordedAll es

end

/-- Is the expression a minus sign before an operand? -/
def isNegation : Expr → Bool
  | unary .neg _ => true
  | _ => false

mutual

/-- Does a negation stand directly in another one?  What an empty list is compared with is not
written. -/
def stacksMinus : Expr → Bool
  | unary .neg a => isNegation a || stacksMinus a
  | unary .not a | isNull a _ | like a _ _ | paren a => stacksMinus a
  | binary _ a b => stacksMinus a || stacksMinus b
  | call _ args => stacksMinusAny args
  | inList _ [] _ => false
  | inList a (v :: vs) _ => stacksMinus a || stacksMinusAny (v :: vs)
  | column .. | literal _ | raw _ | countStar | aggregate .. => false

def stacksMinusAny : List Expr → Bool
  | [] => false
  | e :: es => stacksMinus e || stacksMinusAny es

end

end Expr

/-! ## tokens -/

namespace Token

/-- Clear tokens that stay apart, with a minus sign behind another where that is said. -/
structure Phrase (stacked : Bool) (ts : List Token) : Prop where
  clear : ∀ t ∈ ts, t.isClear
  parted : ts.IsChain Parted
  last : ∀ t ∈ ts.getLast?, t ≠ word .minus
  unstacked : ts.IsChain Unstacked ↔ stacked = false

/-- Is the token clear and no minus sign? -/
def isFirm (t : Token) : Bool := t.isClear && t ≠ word .minus

variable {b c : Bool} {t : Token} {ts us : List Token}

namespace Phrase

theorem nil : Phrase false [] := ⟨nofun, .nil, nofun, by simp⟩

/-- A single token that is no minus sign is a phrase. -/
theorem single (h : t.isFirm) : Phrase false [t] := by
  have hfirm : t.isClear ∧ t ≠ word .minus := by simpa [isFirm] using h
  exact ⟨List.forall_mem_singleton.2 hfirm.1, .singleton _,
    fun _ hu => Option.some.inj hu ▸ hfirm.2, by simp⟩

/-- Phrases that are parted follow each other. -/
theorem append (h : Phrase b ts) (h' : Phrase c us)
    (hparted : ∀ t ∈ ts.getLast?, ∀ u ∈ us.head?, Parted t u) : Phrase (b || c) (ts ++ us) where
  clear := List.forall_mem_append.2 ⟨h.clear, h'.clear⟩
  parted := List.isChain_append.2 ⟨h.parted, h'.parted, hparted⟩
  last t ht := by
    rw [List.getLast?_append, Option.mem_def, Option.or_eq_some_iff] at ht
    obtain ht | ⟨-, ht⟩ := ht
    · exact h'.last t ht
    · exact h.last t ht
  unstacked := by
    have hbetween : ∀ t ∈ ts.getLast?, ∀ u ∈ us.head?, Unstacked t u :=
      fun t ht _ _ hboth => h.last t ht hboth.1
    rw [List.isChain_append, h.unstacked, h'.unstacked, Bool.or_eq_false_iff]
    exact ⟨fun hall => ⟨hall.1, hall.2.1⟩, fun hboth => ⟨hboth.1, hboth.2, hbetween⟩⟩

/-- A token that is settled may stand before all tokens. -/
theorem cons (ht : t.isFirm) (hsettled : t.isSettled) (h : Phrase b ts) : Phrase b (t :: ts) := by
  refine (single ht).append h fun _ hu _ _ => ?_
  obtain rfl := Option.some.inj hu
  exact .inl hsettled

/-- A token that is detached may stand behind all tokens. -/
theorem concat (h : Phrase b ts) (ht : t.isFirm) (hdetached : t.isDetached) :
    Phrase b (ts ++ [t]) := by
  have hcat := h.append (single ht) fun _ _ _ hu => .inr (Option.some.inj hu ▸ hdetached)
  rwa [Bool.or_false] at hcat

/-- Two phrases with a token between them that keeps them apart. -/
theorem joined (h : Phrase b ts) (h' : Phrase c us) (ht : t.isFirm) (hsettled : t.isSettled)
    (hdetached : t.isDetached) : Phrase (b || c) (ts ++ t :: us) :=
  h.append (h'.cons ht hsettled) fun _ _ _ hu => .inr (Option.some.inj hu ▸ hdetached)

/-- Brackets around a phrase make a phrase. -/
theorem bracketed (h : Phrase b ts) (wrap : Bool) : Phrase b (bracketed wrap ts) := by
  cases wrap with
  | false => exact h
  | true => exact (h.cons rfl rfl).concat rfl rfl

/-- Listed expressions make a phrase, with a minus sign behind another if some of them have one. -/
theorem listed {es : List Expr} {uss : List (List Token)}
    (h : List.Forall₂ (fun e us => Phrase e.stacksMinus us) es uss) :
    Phrase (Expr.stacksMinusAny es) (listed uss) := by
  induction h with
  | nil => exact nil
  | @cons e us es uss he hes ih =>
    cases hes with
    | nil => simpa [Expr.stacksMinusAny, Token.listed, separated] using he
    | cons => exact he.joined ih rfl rfl rfl

/-- A minus sign before a phrase that begins with another or does not. -/
theorem minus (h : Phrase b ts) (hne : ts ≠ []) (hc : ts.head? = some (word .minus) ↔ c = true) :
    Phrase (c || b) (word .minus :: ts) := by
  obtain ⟨t, ts, rfl⟩ := List.exists_cons_of_ne_nil hne
  have hhead : t = word .minus ↔ c = true := by simpa using hc
  refine ⟨List.forall_mem_cons.2 ⟨rfl, h.clear⟩,
    List.isChain_cons_cons.2 ⟨.inl rfl, h.parted⟩, ?_, ?_⟩
  · rw [List.getLast?_cons_cons]
    exact h.last
  · rw [List.isChain_cons_cons, h.unstacked]
    simp [Unstacked, hhead]

/-- A qualified column is a phrase. -/
theorem column (table name : String) : Phrase false (column table name) :=
  (single (t := ident table) rfl).joined (single (t := ident name) rfl) rfl rfl rfl

/-- An aggregate is a phrase. -/
theorem aggregate (f : AggregateFunction) (destination : Table) (table : String)
    (c : Option String) : Phrase false (f.tokens destination table c) := by
  have hcounted := ((column table destination.countedColumn).cons (t := word .countDistinctOpening)
    rfl rfl).concat (t := word .closing) rfl rfl
  have happlied (w : Keyword) (hfirm : (word w).isFirm) (hsettled : (word w).isSettled) :=
    ((column table (c.getD "")).cons hfirm hsettled).concat (t := word .closing) rfl rfl
  cases f with
  | count => exact hcounted
  | isEmpty =>
    have hempty := ((hcounted.cons (t := word .opening) rfl rfl).concat (t := word .equalsZero)
      rfl rfl).concat (t := word .closing) rfl rfl
    simpa [AggregateFunction.tokens] using hempty
  | sum => exact happlied _ rfl rfl
  | average => exact happlied _ rfl rfl
  | min => exact happlied _ rfl rfl
  | max => exact happlied _ rfl rfl

end Phrase

end Token

open Token (Phrase)

/-! ## rendered expressions -/

namespace Expr

theorem precedence_test_lt_atom : testPrecedence < atomPrecedence := by decide

/-- Nothing binds tighter than an operand. -/
theorem precedence_le_atom (e : Expr) : e.precedence ≤ atomPrecedence := by
  cases e with
  | binary o a b => exact Nat.le_of_lt o.precedence_lt_atom
  | unary o a =>
    cases o with
    | not => exact Nat.le_of_lt BinaryOp.and.precedence_lt_atom
    | neg => exact Nat.le_refl _
  | inList | isNull | like => exact Nat.le_of_lt precedence_test_lt_atom
  | _ => exact Nat.le_refl _

/-- The tokens of an expression.  Those of an operand that needs no brackets begin with a minus
sign only if the operand is a negation. -/
structure Phrased (e : Expr) (ts : List Token) : Prop extends Phrase e.stacksMinus ts where
  ne_nil : ts ≠ []
  head : e.precedence = atomPrecedence → (ts.head? = some (.word .minus) ↔ e.isNegation)

namespace Phrased

variable {d : Dialect} {e a b : Expr} {ts us vs : List Token}

/-- Where the expression begins with a token of its own. -/
theorem of_head {t : Token} (h : Phrase e.stacksMinus (t :: ts)) (ht : t ≠ .word .minus)
    (he : e.isNegation = false) : e.Phrased (t :: ts) :=
  ⟨h, by simp, fun _ => by simp [ht, he]⟩

/-- Where the expression stands in brackets in a negation. -/
theorem of_loose (h : Phrase e.stacksMinus ts) (hne : ts ≠ [])
    (he : e.precedence < atomPrecedence) : e.Phrased ts :=
  ⟨h, hne, fun heq => absurd heq (Nat.ne_of_lt he)⟩

/-- A minus sign stands right before another if its operand begins with one. -/
theorem neg (h : a.Phrased us) :
    (unary .neg a).Phrased (.word .minus :: Token.bracketed (UnaryOp.neg.wraps a) us) := by
  refine ⟨?_, by simp, fun _ => by simp [isNegation]⟩
  have hle := a.precedence_le_atom
  cases hwraps : UnaryOp.neg.wraps a with
  | false =>
    have hatom : a.precedence = atomPrecedence := by
      simp only [UnaryOp.wraps, decide_eq_false_iff_not] at hwraps
      omega
    exact h.minus h.ne_nil (h.head hatom)
  | true =>
    have hnot : a.isNegation = false := by
      simp only [UnaryOp.wraps, decide_eq_true_eq] at hwraps
      unfold isNegation
      split
      · exact absurd hwraps (by simp [precedence])
      · rfl
    exact (h.bracketed true).minus (by simp [Token.bracketed]) (by simp [Token.bracketed, hnot])

/-- Between the operands of an operator there are blanks. -/
theorem binary (o : BinaryOp) (ha : a.Phrased us) (hb : b.Phrased vs) :
    (Expr.binary o a b).Phrased (Token.bracketed (o.wrapsLeft a) us ++
      Token.op o :: Token.bracketed (o.wrapsRight b) vs) := by
  refine of_loose ?_ (by simp) o.precedence_lt_atom
  exact (ha.bracketed _).joined (hb.bracketed _) rfl rfl rfl

/-- Between arguments there are commas. -/
theorem concatCall (o : BinaryOp) (ha : a.Phrased us) (hb : b.Phrased vs) :
    (Expr.binary o a b).Phrased (.word .concatOpening :: Token.bracketed (o.wrapsLeft a) us ++
      .word .comma :: Token.bracketed (o.wrapsRight b) vs ++ [.word .closing]) := by
  refine of_loose ?_ (by simp) o.precedence_lt_atom
  have hargs := (ha.bracketed (o.wrapsLeft a)).joined (hb.bracketed (o.wrapsRight b))
    (t := .word .comma) rfl rfl rfl
  simpa [stacksMinus] using
    (hargs.cons (t := .word .concatOpening) rfl rfl).concat (t := .word .closing) rfl rfl

end Phrased

mutual

/-- What is rendered for an expression is its phrase. -/
theorem phrased_render {d : Dialect} {r : Resolver} : (e : Expr) → e.isWorded →
    {ts : List Token} → e.render d r = .ok ts → e.Phrased ts
  -- by the expression: where no brackets are needed only a negation begins with a minus, and only
  -- a negation writes one
  | column .current name, _, ts, h => by
    rw [render] at h
    split at h
    · obtain rfl := Except.ok.inj h
      exact .of_head (Phrase.column _ _) nofun rfl
    · obtain rfl := Except.ok.inj h
      exact .of_head (.single rfl) nofun rfl
  | column (.handle a) name, _, ts, h => by
    simp only [render, bind_eq_ok, pure_eq_ok] at h
    obtain ⟨table, -, rfl⟩ := h
    exact .of_head (Phrase.column _ _) nofun rfl
  | column (.named table) name, _, ts, h => by
    obtain rfl := Except.ok.inj h
    exact .of_head (Phrase.column _ _) nofun rfl
  | literal v, _, ts, h => by
    obtain rfl := Except.ok.inj h
    exact .of_head (.single rfl) nofun rfl
  | binary o a b, hworded, ts, h => by
    simp only [isWorded, Bool.and_eq_true] at hworded
    simp only [render, bind_eq_ok] at h
    obtain ⟨left, hleft, right, hright, h⟩ := h
    have ha := phrased_render a hworded.1 hleft
    have hb := phrased_render b hworded.2 hright
    split_ifs at h
    · obtain rfl := pure_eq_ok.1 h
      exact ha.concatCall o hb
    · obtain rfl := pure_eq_ok.1 h
      exact ha.binary o hb
  | unary o a, hworded, ts, h => by
    simp only [render, bind_eq_ok] at h
    obtain ⟨operand, hoperand, h⟩ := h
    have ha := phrased_render a hworded hoperand
    cases o with
    | not =>
      obtain rfl := pure_eq_ok.1 h
      exact .of_loose ((ha.bracketed _).cons (t := .word .not) rfl rfl) (by simp)
        BinaryOp.and.precedence_lt_atom
    | neg =>
      obtain rfl := pure_eq_ok.1 h
      exact ha.neg
  | call f args, hworded, ts, h => by
    simp only [isWorded, Bool.and_eq_true] at hworded
    simp only [render, bind_eq_ok, pure_eq_ok] at h
    obtain ⟨parts, hparts, rfl⟩ := h
    have hcall : (Token.call f).isFirm := by
      simpa [Token.isFirm, Token.isClear] using hworded.1
    have hargs := Phrase.listed (phrased_renderAll args hworded.2 hparts)
    exact .of_head ((hargs.cons hcall rfl).concat rfl rfl) nofun rfl
  | inList _ [] negated, _, ts, h => by
    obtain rfl := Except.ok.inj h
    refine .of_loose (.single ?_) (by simp) precedence_test_lt_atom
    cases negated <;> rfl
  | inList a (v :: vs) negated, hworded, ts, h => by
    simp only [isWorded, Bool.and_eq_true] at hworded
    simp only [render, bind_eq_ok, pure_eq_ok] at h
    obtain ⟨operand, hoperand, parts, hparts, rfl⟩ := h
    have ha := (phrased_render a hworded.1 hoperand).bracketed a.wrapsInTest
    have hvs := Phrase.listed (phrased_renderAll (v :: vs) hworded.2 hparts)
    refine .of_loose ((ha.joined hvs ?_ ?_ ?_).concat rfl rfl) (by simp) precedence_test_lt_atom
    all_goals cases negated <;> rfl
  | isNull a negated, hworded, ts, h => by
    simp only [render, bind_eq_ok, pure_eq_ok] at h
    obtain ⟨operand, hoperand, rfl⟩ := h
    have ha := (phrased_render a hworded hoperand).bracketed a.wrapsInTest
    refine .of_loose (ha.concat ?_ ?_) (by simp) precedence_test_lt_atom
    all_goals cases negated <;> rfl
  | like a pattern negated, hworded, ts, h => by
    simp only [render, bind_eq_ok, pure_eq_ok] at h
    obtain ⟨operand, hoperand, rfl⟩ := h
    have ha := (phrased_render a hworded hoperand).bracketed a.wrapsInTest
    have hpattern := Phrase.single (t := .param (.text pattern)) rfl
    have hjoined := ha.joined hpattern (t := .word (if negated then .notLike else .like))
      (by cases negated <;> rfl) (by cases negated <;> rfl) (by cases negated <;> rfl)
    rw [Bool.or_false] at hjoined
    exact .of_loose hjoined (by simp) precedence_test_lt_atom
  | raw sql, hworded, ts, h => by cases hworded
  | paren a, hworded, ts, h => by
    simp only [render, bind_eq_ok, pure_eq_ok] at h
    obtain ⟨operand, hoperand, rfl⟩ := h
    exact .of_head ((phrased_render a hworded hoperand).bracketed true) nofun rfl
  | countStar, _, ts, h => by
    obtain rfl := Except.ok.inj h
    exact .of_head (.single rfl) nofun rfl
  | aggregate f a c, _, ts, h => by
    simp only [render, bind_eq_ok, pure_eq_ok] at h
    obtain ⟨table, -, rfl⟩ := h
    have hphrase := Phrase.aggregate f a.destination table c
    cases f <;> exact .of_head hphrase nofun rfl

theorem phrased_renderAll {d : Dialect} {r : Resolver} : (es : List Expr) → isWordedAll es →
    {parts : List (List Token)} → renderAll d r es = .ok parts →
    List.Forall₂ (fun e ts => Phrase e.stacksMinus ts) es parts
  | [], _, parts, h => by
    obtain rfl := Except.ok.inj h
    exact .nil
  | e :: es, hworded, parts, h => by
    simp only [isWordedAll, Bool.and_eq_true] at hworded
    simp only [renderAll, bind_eq_ok, pure_eq_ok] at h
    obtain ⟨ts, hts, rest, hrest, rfl⟩ := h
    exact .cons (phrased_render e hworded.1 hts).toPhrase (phrased_renderAll es hworded.2 hrest)

end

/-- The text of an expression, where `n` placeholders stand before it, has neither quotation marks
nor the end of a statement outside of quoted identifiers.  It opens no comment there, and a
scanner finds the expression's own words and marks in it, exactly if no negation stands directly
in another. -/
theorem render_legible_iff {d : Dialect} {r : Resolver} {e : Expr} (he : e.isWorded)
    {ts : List Token} (h : e.render d r = .ok ts) (n : Nat) :
    (∀ c, some c ∈ unquoted d false (Token.text d n ts) → Token.isHarmless c) ∧
      ((unquoted d false (Token.text d n ts)).IsChain NoOpening ↔ e.stacksMinus = false) ∧
      (scan d (Token.text d n ts) = Lexeme.spelled d n (lexemes ts) ↔ e.stacksMinus = false) := by
  have hphrase := phrased_render e he h
  refine ⟨fun c => isHarmless_of_mem_text hphrase.clear n, ?_⟩
  rw [isChain_noOpening_iff, ← hphrase.unstacked]
  by_cases hstack : ts.IsChain Token.Unstacked
  · have hscan := scan_text (d := d) hphrase.clear hphrase.parted hstack n
    have hnone : .comment ∉ scan d (Token.text d n ts) :=
      hscan ▸ Lexeme.comment_notMem_spelled d n _
    exact ⟨iff_of_true hnone hstack, iff_of_true hscan hstack⟩
  · have hcomment := comment_mem_scan_text (d := d) hphrase.clear hphrase.parted hstack n
    have hne : scan d (Token.text d n ts) ≠ Lexeme.spelled d n (lexemes ts) :=
      fun heq => Lexeme.comment_notMem_spelled d n _ (heq ▸ hcomment)
    exact ⟨iff_of_false (not_not_intro hcomment) hstack, iff_of_false hne hstack⟩

/-- A negation of a negation is lost in a comment. -/
theorem negation_of_negation_illegible :
    (unary .neg (unary .neg (.col "a"))).toSql .postgres = .ok ⟨"--\"a\"", []⟩ ∧
      ¬(unquoted .postgres false "--\"a\"".toList).IsChain NoOpening ∧
      scan .postgres "--\"a\"".toList ≠
        Lexeme.spelled .postgres 0 [.op .sub, .op .sub, .ident "a"] := by
  obtain ⟨-, hopens, hscan⟩ := render_legible_iff (d := .postgres) (r := .standalone)
    (e := .unary .neg (.unary .neg (.col "a"))) rfl rfl 0
  exact ⟨rfl, fun h => absurd (hopens.1 h) (by decide), fun h => absurd (hscan.1 h) (by decide)⟩

end Expr

end AssociationQuery
