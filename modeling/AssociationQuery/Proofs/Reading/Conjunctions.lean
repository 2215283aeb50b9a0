import AssociationQuery.Proofs.Reading.Negations
import AssociationQuery.Proofs.Reading.Splitting
import AssociationQuery.Proofs.Visibility.Terms

/-!
# AssociationQuery.Proofs.Reading.Conjunctions

Lists of conditions as conjunctions.

The conditions of a list are written one behind the other with AND between them, and only where an
expression is a disjunction does it get brackets of its own.  A condition may itself be a
conjunction: one equality for each pair of key columns, or an expression made with AND.  Its
factors, `Condition.factors`, are what a reader of the whole text finds between one AND and the
next: no operator of one condition reaches over to another, in the list itself as well as in every
list inside of an EXISTS, and in the WHERE clause of a statement.
-/

namespace AssociationQuery

open Token (Sealed)

/-! ## expressions -/

namespace Expr

/-- How loosely the operators of an expression bind that stand outside of brackets.  What NOT is
applied to binds as tightly as a test. -/
def floor : Expr → Nat
  | unary .not _ => testPrecedence
  | e => e.precedence

/-- Outside of brackets nothing binds more loosely than the expression. -/
theorem precedence_le_floor (e : Expr) : e.precedence ≤ e.floor := by
  unfold floor
  split
  · show BinaryOp.and.precedence ≤ testPrecedence
    decide
  · exact Nat.le_refl _

/-- What binds as tightly as AND and is no conjunction has only tighter operators outside of
brackets. -/
theorem test_le_floor (e : Expr) (hother : ∀ a b, e = binary .and a b → False)
    (h : BinaryOp.and.precedence ≤ e.precedence) : testPrecedence ≤ e.floor := by
  have htight (o : BinaryOp) : o ≠ .and → BinaryOp.and.precedence ≤ o.precedence →
      testPrecedence ≤ o.precedence := by cases o <;> decide
  cases e with
  | binary o a b =>
    have hne : o ≠ .and := by
      rintro rfl
      exact hother a b rfl
    exact htight o hne h
  | unary o a => cases o <;> simp [floor, precedence, testPrecedence, atomPrecedence]
  | _ => simp [floor, precedence, testPrecedence, atomPrecedence]

end Expr

namespace Token.Sealed

variable {level : Nat} {a : Expr} {ts us vs : List Token}

/-- A qualified column is sealed at any level. -/
theorem column (table name : String) : Sealed level (column table name) :=
  .cons rfl (.cons rfl (.single rfl))

/-- An operand needs no brackets if it binds as tightly as what is around it. -/
theorem operand {wrap : Bool} (h : Sealed a.floor ts)
    (hbare : wrap = false → level ≤ a.precedence) : Sealed level (Token.bracketed wrap ts) :=
  (h.mono (Nat.zero_le _)).bracketed fun hwrap =>
    h.mono (Nat.le_trans (hbare hwrap) a.precedence_le_floor)

/-- The operand of a test is sealed at the level of tests. -/
theorem tested (h : Sealed a.floor ts) :
    Sealed testPrecedence (Token.bracketed a.wrapsInTest ts) :=
  h.operand fun hwrap => by
    simp only [Expr.wrapsInTest, decide_eq_false_iff_not] at hwrap
    omega

/-- An aggregate is sealed at any level. -/
theorem aggregate (f : AggregateFunction) (destination : Table) (table : String)
    (c : Option String) : Sealed level (f.tokens destination table c) := by
  have happlied {l : Nat} {w : Keyword} (name : String) (hw : w.opens) :
      Sealed l (word w :: Token.column table name ++ [word .closing]) := .wrapped hw (column _ _)
  cases f with
  | isEmpty => exact .wrapped rfl ((happlied _ rfl).append (.single rfl))
  | _ => exact happlied _ rfl

/-- A conjunction of parts that are sealed at the level of AND is sealed at that level. -/
theorem conjoined {parts : List (List Token)}
    (h : ∀ ts ∈ parts, Sealed BinaryOp.and.precedence ts) :
    Sealed BinaryOp.and.precedence (Token.conjoined parts) :=
  .separated rfl h

end Token.Sealed

namespace Expr

mutual

/-- Outside of brackets an expression has no operator that binds more loosely than its own. -/
theorem sealed_render {d : Dialect} {r : Resolver} : (e : Expr) → e.isWorded →
    {ts : List Token} → e.render d r = .ok ts → Sealed e.floor ts
  -- by the expression: an operand without brackets holds no operator that is weaker than the one it
  -- belongs to
  | column .current name, _, ts, h => by
    rw [render] at h
    split at h
    · obtain rfl := Except.ok.inj h
      exact .column _ _
    · obtain rfl := Except.ok.inj h
      exact .single rfl
  | column (.handle a) name, _, ts, h => by
    simp only [render, bind_eq_ok, pure_eq_ok] at h
    obtain ⟨table, -, rfl⟩ := h
    exact .column _ _
  | column (.named table) name, _, ts, h => by
    obtain rfl := Except.ok.inj h
    exact .column _ _
  | literal v, _, ts, h => by
    obtain rfl := Except.ok.inj h
    exact .single rfl
  | binary o a b, hworded, ts, h => by
    simp only [isWorded, Bool.and_eq_true] at hworded
    simp only [render, bind_eq_ok] at h
    obtain ⟨left, hleft, right, hright, h⟩ := h
    have ha : Sealed o.precedence (Token.bracketed (o.wrapsLeft a) left) :=
      (sealed_render a hworded.1 hleft).operand fun hwrap : o.wrapsLeft a = false => by
        simpa [BinaryOp.wrapsLeft] using hwrap
    have hb : Sealed o.precedence (Token.bracketed (o.wrapsRight b) right) :=
      (sealed_render b hworded.2 hright).operand fun hwrap : o.wrapsRight b = false => by
        simp only [BinaryOp.wrapsRight, Bool.or_eq_false_iff, decide_eq_false_iff_not] at hwrap
        omega
    split_ifs at h
    · obtain rfl := pure_eq_ok.1 h
      exact .wrapped rfl ((ha.append (.cons rfl hb)).mono (Nat.zero_le _))
    · obtain rfl := pure_eq_ok.1 h
      exact ha.append (.cons (decide_eq_true (Nat.le_refl _)) hb)
  | unary o a, hworded, ts, h => by
    simp only [render, bind_eq_ok] at h
    obtain ⟨operand, hoperand, h⟩ := h
    have ha := sealed_render a hworded hoperand
    cases o with
    | not =>
      obtain rfl := pure_eq_ok.1 h
      refine .cons rfl (ha.operand fun hwrap => ?_)
      show testPrecedence ≤ a.precedence
      simpa [UnaryOp.wraps] using hwrap
    | neg =>
      obtain rfl := pure_eq_ok.1 h
      refine .cons rfl (ha.operand fun hwrap => ?_)
      show atomPrecedence ≤ a.precedence
      simpa [UnaryOp.wraps] using hwrap
  | call f args, hworded, ts, h => by
    simp only [isWorded, Bool.and_eq_true] at hworded
    simp only [render, bind_eq_ok, pure_eq_ok] at h
    obtain ⟨parts, hparts, rfl⟩ := h
    exact .wrapped hworded.1 (.listed (sealed_renderAll args hworded.2 hparts))
  | inList _ [] negated, _, ts, h => by
    obtain rfl := Except.ok.inj h
    cases negated <;> exact .single rfl
  | inList a (v :: vs) negated, hworded, ts, h => by
    simp only [isWorded, Bool.and_eq_true] at hworded
    simp only [render, bind_eq_ok, pure_eq_ok] at h
    obtain ⟨operand, hoperand, parts, hparts, rfl⟩ := h
    have hvalues := Sealed.listed (sealed_renderAll (v :: vs) hworded.2 hparts)
    rw [List.append_assoc]
    refine (sealed_render a hworded.1 hoperand).tested.append (.wrapped ?_ hvalues)
    cases negated <;> rfl
  | isNull a negated, hworded, ts, h => by
    simp only [render, bind_eq_ok, pure_eq_ok] at h
    obtain ⟨operand, hoperand, rfl⟩ := h
    refine (sealed_render a hworded hoperand).tested.append (.single ?_)
    cases negated <;> rfl
  | like a pattern negated, hworded, ts, h => by
    simp only [render, bind_eq_ok, pure_eq_ok] at h
    obtain ⟨operand, hoperand, rfl⟩ := h
    have hpattern : Sealed testPrecedence [.param (.text pattern)] := .single rfl
    refine (sealed_render a hworded hoperand).tested.append (.cons ?_ hpattern)
    cases negated <;> rfl
  | raw sql, hworded, ts, h => by cases hworded
  | paren a, hworded, ts, h => by
    simp only [render, bind_eq_ok, pure_eq_ok] at h
    obtain ⟨operand, hoperand, rfl⟩ := h
    exact .wrapped rfl ((sealed_render a hworded hoperand).mono (Nat.zero_le _))
  | countStar, _, ts, h => by
    obtain rfl := Except.ok.inj h
    exact .single rfl
  | aggregate f a c, _, ts, h => by
    simp only [render, bind_eq_ok, pure_eq_ok] at h
    obtain ⟨table, -, rfl⟩ := h
    exact .aggregate f a.destination table c

theorem sealed_renderAll {d : Dialect} {r : Resolver} : (es : List Expr) → isWordedAll es →
    {parts : List (List Token)} → renderAll d r es = .ok parts → ∀ ts ∈ parts, Sealed 0 ts
  | [], _, parts, h => by
    obtain rfl := Except.ok.inj h
    exact List.forall_mem_nil _
  | e :: es, hworded, parts, h => by
    simp only [isWordedAll, Bool.and_eq_true] at hworded
    simp only [renderAll, bind_eq_ok, pure_eq_ok] at h
    obtain ⟨ts, hts, rest, hrest, rfl⟩ := h
    have hfirst := (sealed_render e hworded.1 hts).mono (Nat.zero_le _)
    exact List.forall_mem_cons.2 ⟨hfirst, sealed_renderAll es hworded.2 hrest⟩

end

/-- The factors of a conjunction, or the expression itself. -/
def factors : Expr → List Expr
  | binary .and a b => a.factors ++ b.factors
  | e => [e]

end Expr

/-! ## conjunctions -/

namespace Token

/-- The tokens are the parts with AND between them.  No operator in a part binds as loosely as
that. -/
structure Factored (ts : List Token) (parts : List (List Token)) : Prop where
  eq : ts = conjoined parts
  ne_nil : parts ≠ []
  tight : ∀ part ∈ parts, Sealed testPrecedence part

/-- How the tokens are read as a conjunction: cut at AND, where it stands outside of brackets and
quoted identifiers, their text falls into that of the parts one by one, and OR stands nowhere
there. -/
structure Conjoins (d : Dialect) (ts : List Token) (parts : List (List Token)) : Prop where
  tight : ∀ part ∈ parts, Sealed testPrecedence part
  split : ∀ n, splitAtWord d "AND" (text d n ts) = texts d n parts
  whole : ∀ n, splitAtWord d "OR" (text d n ts) = [text d n ts]

variable {ts us : List Token} {parts parts' : List (List Token)}

/-- Two conjunctions are one with AND between them. -/
theorem conjoined_append (hne : parts ≠ []) (hne' : parts' ≠ []) :
    conjoined (parts ++ parts') = conjoined parts ++ op .and :: conjoined parts' := by
  obtain ⟨us, rest', rfl⟩ := List.exists_cons_of_ne_nil hne'
  induction parts with
  | nil => exact absurd rfl hne
  | cons ts rest ih =>
    cases rest with
    | nil => rfl
    | cons vs rest =>
      show ts ++ op .and :: conjoined (vs :: rest ++ us :: rest') = _
      rw [ih nofun, ← List.cons_append, ← List.append_assoc]
      rfl

/-- Each part is somewhere in the conjunction. -/
theorem infix_conjoined (h : ts ∈ parts) : ts <:+: conjoined parts := by
  induction parts with
  | nil => cases h
  | cons us rest ih =>
    cases rest with
    | nil =>
      obtain rfl := List.mem_singleton.1 h
      exact List.infix_refl _
    | cons vs rest =>
      show ts <:+: us ++ op .and :: conjoined (vs :: rest)
      obtain rfl | h := List.mem_cons.1 h
      · exact (List.prefix_append _ _).isInfix
      · exact ((ih h).trans (List.suffix_cons _ _).isInfix).trans (List.suffix_append _ _).isInfix

namespace Factored

/-- What binds as tightly as a test is one part. -/
theorem single (h : Sealed testPrecedence ts) : Factored ts [ts] :=
  ⟨rfl, nofun, List.forall_mem_singleton.2 h⟩

/-- Two conjunctions with AND between them have the parts of both. -/
theorem append (h : Factored ts parts) (h' : Factored us parts') :
    Factored (ts ++ op .and :: us) (parts ++ parts') where
  eq := by rw [conjoined_append h.ne_nil h'.ne_nil, ← h.eq, ← h'.eq]
  ne_nil := by simp [h.ne_nil]
  tight := List.forall_mem_append.2 ⟨h.tight, h'.tight⟩

/-- The whole is sealed at the level of AND. -/
theorem sealed (h : Factored ts parts) : Sealed BinaryOp.and.precedence ts := by
  rw [h.eq]
  exact .conjoined fun part hpart => (h.tight part hpart).mono (by decide)

/-- The text of the tokens is cut at the ANDs between the parts. -/
theorem conjoins (h : Factored ts parts) (d : Dialect) : Conjoins d ts parts where
  tight := h.tight
  split n := by rw [h.eq, splitAtWord_conjoined h.ne_nil h.tight (by decide)]
  whole n := h.sealed.splitAtWord_text (c := .or) (by decide) (by decide) n

end Factored

end Token

open Token (Factored)

/-! ## conditions -/

namespace Condition

/-- The factors of a condition: one equality for each pair of columns, and the factors of an
expression. -/
def factors : Condition → List Condition
  | keys left right [] => [keys left right []]
  | keys left right (p :: ps) => (p :: ps).map fun p => keys left right [p]
  | expr e slot => e.factors.map fun e => expr e slot
  | existence q => [existence q]

variable {d : Dialect} {c : RenderContext}

/-- Conditions of two lists are rendered one after the other. -/
theorem renderAll_append {xs ys : List Condition} {parts parts' : List (List Token)}
    (h : renderAll d c xs = .ok parts) (h' : renderAll d c ys = .ok parts') :
    renderAll d c (xs ++ ys) = .ok (parts ++ parts') := by
  induction xs generalizing parts with
  | nil =>
    obtain rfl := Except.ok.inj h
    exact h'
  | cons x xs ih =>
    simp only [renderAll, bind_eq_ok, pure_eq_ok] at h
    obtain ⟨ts, hts, rest, hrest, rfl⟩ := h
    rw [List.cons_append, renderAll, hts, ih hrest]
    rfl

/-- Each condition of a rendered list is rendered, and stands among the parts. -/
theorem exists_render_of_mem {x : Condition} {xs : List Condition} {parts : List (List Token)}
    (h : renderAll d c xs = .ok parts) (hx : x ∈ xs) : ∃ ts ∈ parts, x.render d c = .ok ts := by
  induction xs generalizing parts with
  | nil => cases hx
  | cons y xs ih =>
    simp only [renderAll, bind_eq_ok, pure_eq_ok] at h
    obtain ⟨ts, hts, rest, hrest, rfl⟩ := h
    obtain rfl | hx := List.mem_cons.1 hx
    · exact ⟨ts, List.mem_cons_self, hts⟩
    · obtain ⟨us, hmem, hus⟩ := ih hrest hx
      exact ⟨us, List.mem_cons_of_mem _ hmem, hus⟩

/-- An expression is written as its factors, each in brackets if it is a disjunction. -/
theorem factored_expr (slot : Slot) {e : Expr} (hworded : e.isWorded) {ts : List Token}
    (h : e.render d (c.resolver slot) = .ok ts) :
    ∃ parts, renderAll d c (e.factors.map fun e => expr e slot) = .ok parts ∧
      Factored (Token.bracketed (e.precedence < BinaryOp.and.precedence) ts) parts := by
  induction e using Expr.factors.induct generalizing ts with
  | case1 a b iha ihb =>
    simp only [Expr.isWorded, Bool.and_eq_true] at hworded
    simp only [Expr.render, bind_eq_ok] at h
    obtain ⟨left, hleft, right, hright, h⟩ := h
    obtain rfl := pure_eq_ok.1 h
    obtain ⟨parts, hparts, ha⟩ := iha hworded.1 hleft
    obtain ⟨parts', hparts', hb⟩ := ihb hworded.2 hright
    rw [Expr.factors, List.map_append]
    -- AND associates, so an operand gets brackets on either side exactly if it is a disjunction
    have hwraps : BinaryOp.and.wrapsRight b = (b.precedence < BinaryOp.and.precedence : Bool) := by
      simp [BinaryOp.wrapsRight, BinaryOp.isAssociative]
    rw [hwraps]
    exact ⟨parts ++ parts', renderAll_append hparts hparts', ha.append hb⟩
  | case2 e hother =>
    have hsealed := e.sealed_render hworded h
    have hsingle : e.factors = [e] := by rw [Expr.factors]; exact hother
    have hrender : (expr e slot).render d c = .ok
        (Token.bracketed (e.precedence < BinaryOp.and.precedence) ts) := by
      rw [render, Expr.renderConjunct, h]
      rfl
    refine ⟨_, by rw [hsingle, List.map_singleton, renderAll, hrender]; rfl, .single ?_⟩
    refine (hsealed.mono (Nat.zero_le _)).bracketed fun hwrap => hsealed.mono ?_
    exact e.test_le_floor hother (Nat.le_of_not_lt (of_decide_eq_false hwrap))

end Condition

/-! ## conditions inside of conditions -/

/-- A table with its alias is sealed. -/
theorem Token.Sealed.tableRef (c : RenderContext) {level : Nat} (table : Table) (slot : Slot) :
    Sealed level (c.tableRef table slot) := by
  unfold RenderContext.tableRef
  split
  · exact .single rfl
  · exact .cons rfl (.cons rfl (.single rfl))

/-- The comparison of keys is sealed at the level of AND. -/
theorem sealed_keyTokens (c : RenderContext) (left right : Slot)
    (columns : List (String × String)) :
    Sealed BinaryOp.and.precedence (keyTokens c left right columns) := by
  refine .conjoined (List.forall_mem_map.2 fun p _ => ?_)
  exact (Sealed.column _ _).append (.cons rfl (.column _ _))

mutual

/-- Outside of brackets a condition has no operator that binds more loosely than AND. -/
theorem Condition.sealed_render {d : Dialect} {c : RenderContext} : (x : Condition) →
    {ts : List Token} → (∀ e ∈ x.terms, e.isWorded) → x.render d c = .ok ts →
    Sealed BinaryOp.and.precedence ts
  | .keys left right columns, ts, _, h => by
    obtain rfl := Except.ok.inj h
    exact sealed_keyTokens c left right columns
  | .expr e slot, ts, hworded, h => by
    simp only [Condition.render, Expr.renderConjunct, bind_eq_ok, pure_eq_ok] at h
    obtain ⟨_, he, rfl⟩ := h
    rw [Condition.terms] at hworded
    refine (e.sealed_render (hworded e (List.mem_singleton_self e)) he).operand fun hwrap => ?_
    simpa using hwrap
  | .existence q, ts, hworded, h => by
    simp only [Condition.render, bind_eq_ok, pure_eq_ok] at h
    obtain ⟨_, hq, rfl⟩ := h
    rw [Condition.terms] at hworded
    exact .wrapped rfl (SubQuery.sealed_render q hworded hq)

theorem Condition.sealed_renderAll {d : Dialect} {c : RenderContext} :
    (xs : List Condition) → {parts : List (List Token)} →
    (∀ e ∈ Condition.termsAll xs, e.isWorded) → Condition.renderAll d c xs = .ok parts →
    ∀ ts ∈ parts, Sealed BinaryOp.and.precedence ts
  | [], parts, _, h => by
    obtain rfl := Except.ok.inj h
    exact List.forall_mem_nil _
  | x :: xs, parts, hworded, h => by
    simp only [Condition.renderAll, bind_eq_ok, pure_eq_ok] at h
    obtain ⟨ts, hts, rest, hrest, rfl⟩ := h
    rw [Condition.termsAll, List.forall_mem_append] at hworded
    exact List.forall_mem_cons.2
      ⟨Condition.sealed_render x hworded.1 hts, Condition.sealed_renderAll xs hworded.2 hrest⟩

theorem Join.sealed_renderAll {d : Dialect} {c : RenderContext} : (js : List Join) →
    {ts : List Token} → (∀ e ∈ Join.termsAll js, e.isWorded) → Join.renderAll d c js = .ok ts →
    Sealed 0 ts
  | [], ts, _, h => by
    obtain rfl := Except.ok.inj h
    exact .nil
  | .mk kind slot table on :: js, ts, hworded, h => by
    simp only [Join.renderAll, Join.render, bind_eq_ok, pure_eq_ok] at h
    obtain ⟨_, ⟨parts, hparts, rfl⟩, rest, hrest, rfl⟩ := h
    rw [Join.termsAll, List.forall_mem_append] at hworded
    have hon := (Sealed.conjoined
      (Condition.sealed_renderAll on hworded.1 hparts)).mono (Nat.zero_le _)
    have hjoin : Sealed 0 (c.tableRef table slot ++ .word .on :: Token.conjoined parts) :=
      (Sealed.tableRef c table slot).append (.cons rfl hon)
    refine .append (.cons ?_ hjoin) (Join.sealed_renderAll js hworded.2 hrest)
    cases kind <;> rfl

theorem SubQuery.sealed_render {d : Dialect} {c : RenderContext} : (q : SubQuery) →
    {ts : List Token} → (∀ e ∈ q.terms, e.isWorded) → q.render d c = .ok ts → Sealed 0 ts
  | .mk slot slots table joins conditions, ts, hworded, h => by
    simp only [SubQuery.render, bind_eq_ok, pure_eq_ok] at h
    obtain ⟨joined, hjoined, parts, hparts, rfl⟩ := h
    rw [SubQuery.terms, List.forall_mem_append] at hworded
    have hterms := (Sealed.conjoined
      (Condition.sealed_renderAll conditions hworded.2 hparts)).mono (Nat.zero_le _)
    have hfiltered : Sealed 0
        (if conditions.isEmpty then [] else .word .whereClause :: Token.conjoined parts) := by
      split
      · exact .nil
      · exact .cons rfl hterms
    have hfrom : Sealed 0 (.word .select :: .word .one :: .word .fromClause ::
        (c.inside slots).tableRef table slot) :=
      .cons rfl (.cons rfl (.cons rfl (.tableRef _ table slot)))
    exact (hfrom.append (Join.sealed_renderAll joins hworded.1 hjoined)).append hfiltered

end

/-! ## factors of conditions -/

namespace Condition

variable {d : Dialect} {c : RenderContext}

/-- One equality for each pair of columns. -/
theorem factored_keys (left right : Slot) {columns : List (String × String)}
    (hne : columns ≠ []) :
    ∃ parts, renderAll d c (columns.map fun p => keys left right [p]) = .ok parts ∧
      Factored (keyTokens c left right columns) parts := by
  have hrender (ps : List (String × String)) :
      renderAll d c (ps.map fun p => keys left right [p]) =
        .ok (ps.map fun p => keyTokens c left right [p]) := by
    induction ps with
    | nil => rfl
    | cons p ps ih =>
      rw [List.map_cons, renderAll, ih]
      rfl
  have htight (p : String × String) : Sealed testPrecedence (keyTokens c left right [p]) :=
    (Sealed.column _ _).append (.cons rfl (.column _ _))
  exact ⟨_, hrender columns, rfl, by simpa using hne, List.forall_mem_map.2 fun p _ => htight p⟩

/-- A condition is written as its factors. -/
theorem factored_render (x : Condition) (hworded : ∀ e ∈ x.terms, e.isWorded) {ts : List Token}
    (h : x.render d c = .ok ts) :
    ∃ parts, renderAll d c x.factors = .ok parts ∧ Factored ts parts := by
  -- keys are one factor for each pair, an expression is taken apart at its ANDs, an EXISTS stays
  -- whole
  cases x with
  | keys left right columns =>
    obtain rfl := Except.ok.inj h
    cases columns with
    | nil => exact ⟨[[]], rfl, .single .nil⟩
    | cons p columns => exact factored_keys left right nofun
  | expr e slot =>
    simp only [render, Expr.renderConjunct, bind_eq_ok, pure_eq_ok] at h
    obtain ⟨_, he, rfl⟩ := h
    rw [terms] at hworded
    exact factored_expr slot (hworded e (List.mem_singleton_self e)) he
  | existence q =>
    have hsingle : renderAll d c [existence q] = .ok [ts] := by
      rw [renderAll, h]
      rfl
    simp only [render, bind_eq_ok, pure_eq_ok] at h
    obtain ⟨_, hq, rfl⟩ := h
    rw [terms] at hworded
    exact ⟨_, hsingle, .single (.wrapped rfl (SubQuery.sealed_render q hworded hq))⟩

/-- Conditions with AND between them are written as the factors of all of them. -/
theorem factored_renderAll {xs : List Condition} (hne : xs ≠ [])
    (hworded : ∀ e ∈ termsAll xs, e.isWorded) {parts : List (List Token)}
    (h : renderAll d c xs = .ok parts) :
    ∃ parts', renderAll d c (xs.flatMap factors) = .ok parts' ∧
      Factored (Token.conjoined parts) parts' := by
  -- condition by condition: the factors of one follow those of the other across the AND between
  -- them
  induction xs generalizing parts with
  | nil => exact absurd rfl hne
  | cons x xs ih =>
    simp only [renderAll, bind_eq_ok, pure_eq_ok] at h
    obtain ⟨ts, hts, rest, hrest, rfl⟩ := h
    rw [termsAll, List.forall_mem_append] at hworded
    obtain ⟨first, hfirst, hx⟩ := factored_render x hworded.1 hts
    cases xs with
    | nil =>
      obtain rfl := Except.ok.inj hrest
      exact ⟨first, by simpa using hfirst, hx⟩
    | cons y ys =>
      obtain ⟨others, hothers, hxs⟩ := ih nofun hworded.2 hrest
      simp only [renderAll, bind_eq_ok, pure_eq_ok] at hrest
      obtain ⟨us, -, rest, -, rfl⟩ := hrest
      exact ⟨first ++ others, renderAll_append hfirst hothers, hx.append hxs⟩

/-- The conditions `ys`, with what is known where they stand, are those of a join or of the WHERE
clause of an EXISTS that is one of the conditions `xs` or stands inside of one. -/
inductive Encloses :
    RenderContext → List Condition → RenderContext → List Condition → Prop
  | filters {c : RenderContext} {xs ys : List Condition} {slot : Slot} {slots : List Slot}
    {table : Table} {joins : List Join} :
    existence (.mk slot slots table joins ys) ∈ xs → Encloses c xs (c.inside slots) ys
  | on {c : RenderContext} {xs ys filters : List Condition} {slot slot' : Slot}
    {slots : List Slot} {table table' : Table} {joins : List Join} {kind : JoinKind} :
    existence (.mk slot slots table joins filters) ∈ xs → .mk kind slot' table' ys ∈ joins →
    Encloses c xs (c.inside slots) ys
  | trans {c c' c'' : RenderContext} {xs ys zs : List Condition} :
    Encloses c xs c' ys → Encloses c' ys c'' zs → Encloses c xs c'' zs

/-- The expressions of enclosed conditions are among those of the conditions around them. -/
theorem Encloses.terms_subset {c c' : RenderContext} {xs ys : List Condition}
    (h : Encloses c xs c' ys) : ∀ e ∈ termsAll ys, e ∈ termsAll xs := by
  induction h with
  | filters hmem =>
    intro e he
    refine mem_termsAll.2 ⟨_, hmem, ?_⟩
    rw [terms, SubQuery.terms]
    exact List.mem_append_right _ he
  | on hmem hjoin =>
    intro e he
    obtain ⟨y, hy, he⟩ := mem_termsAll.1 he
    refine mem_termsAll.2 ⟨_, hmem, ?_⟩
    rw [terms, SubQuery.terms]
    exact List.mem_append_left _ (Join.mem_termsAll.2 ⟨_, hjoin, y, hy, he⟩)
  | trans _ _ ih ih' => exact fun e he => ih e (ih' e he)

end Condition

/-- The conditions of a join stand in its text. -/
theorem Join.infix_renderAll {d : Dialect} {c : RenderContext} {kind : JoinKind} {slot : Slot}
    {table : Table} {on : List Condition} {js : List Join} (hmem : .mk kind slot table on ∈ js)
    {ts : List Token} (h : Join.renderAll d c js = .ok ts) :
    ∃ parts, Condition.renderAll d c on = .ok parts ∧ Token.conjoined parts <:+: ts := by
  induction js generalizing ts with
  | nil => cases hmem
  | cons j js ih =>
    simp only [Join.renderAll, bind_eq_ok, pure_eq_ok] at h
    obtain ⟨us, hus, rest, hrest, rfl⟩ := h
    obtain rfl | hmem := List.mem_cons.1 hmem
    · simp only [Join.render, bind_eq_ok, pure_eq_ok] at hus
      obtain ⟨parts, hparts, rfl⟩ := hus
      exact ⟨parts, hparts, .word kind.keyword :: c.tableRef table slot ++ [.word .on], rest,
        by simp⟩
    · obtain ⟨parts, hparts, hinfix⟩ := ih hmem hrest
      exact ⟨parts, hparts, hinfix.trans (List.suffix_append _ _).isInfix⟩

namespace Condition

/-- What is enclosed is written, and stands in the text of what encloses it. -/
theorem Encloses.infix_renderAll {d : Dialect} {c c' : RenderContext} {xs ys : List Condition}
    (h : Encloses c xs c' ys) {parts : List (List Token)} (hparts : renderAll d c xs = .ok parts) :
    ∃ parts', renderAll d c' ys = .ok parts' ∧
      Token.conjoined parts' <:+: Token.conjoined parts := by
  have hbrackets (us : List Token) : us <:+: .word .existsOpening :: us ++ [.word .closing] :=
    ⟨[.word .existsOpening], [.word .closing], rfl⟩
  -- one step inside at a time: a condition is rendered whole, and so is the list it encloses
  induction h generalizing parts with
  | @filters c xs ys _ _ _ _ hmem =>
    obtain ⟨ts, hts, hrender⟩ := exists_render_of_mem hparts hmem
    simp only [render, SubQuery.render, bind_eq_ok, pure_eq_ok] at hrender
    obtain ⟨_, ⟨joined, -, parts', hparts', rfl⟩, rfl⟩ := hrender
    refine ⟨parts', hparts', .trans ?_ ((hbrackets _).trans (Token.infix_conjoined hts))⟩
    cases ys with
    | nil =>
      obtain rfl := Except.ok.inj hparts'
      exact List.nil_infix
    | cons y ys =>
      exact (List.suffix_cons _ _).isInfix.trans (List.suffix_append _ _).isInfix
  | on hmem hjoin =>
    obtain ⟨ts, hts, hrender⟩ := exists_render_of_mem hparts hmem
    simp only [render, SubQuery.render, bind_eq_ok, pure_eq_ok] at hrender
    obtain ⟨_, ⟨joined, hjoined, filters, -, rfl⟩, rfl⟩ := hrender
    obtain ⟨parts', hparts', hinfix⟩ := Join.infix_renderAll hjoin hjoined
    exact ⟨parts', hparts', hinfix.trans
      ((List.infix_append _ joined _).trans ((hbrackets _).trans (Token.infix_conjoined hts)))⟩
  | trans _ _ ih ih' =>
    obtain ⟨_, hmid, hinfix⟩ := ih hparts
    obtain ⟨parts', hparts', hinfix'⟩ := ih' hmid
    exact ⟨parts', hparts', hinfix'.trans hinfix⟩

end Condition

/-! ## the condition on keys -/

/-- A tuple of keys is sealed at any level. -/
theorem sealed_keyTuple {level : Nat} (vs : List Value) : Sealed level (keyTuple vs) := by
  have hvalues : Sealed 0 (Token.listed (vs.map fun v => [.param v])) :=
    .listed (List.forall_mem_map.2 fun v _ => .single rfl)
  unfold keyTuple
  split
  · exact .single rfl
  · exact .wrapped rfl hvalues

/-- The key filter is sealed at any level. -/
theorem KeyFilter.sealed_tokens (c : RenderContext) (f : KeyFilter) (keys : List (List Value))
    {level : Nat} : Sealed level (f.tokens c keys) := by
  cases keys with
  | nil => exact .single rfl
  | cons k ks =>
    have hcolumns {l : Nat} :
        Sealed l (Token.listed (f.columns.map fun name => Token.column (c.name f.slot) name)) :=
      .listed (List.forall_mem_map.2 fun name _ => .column _ _)
    have hkeys : Sealed 0 (Token.listed ((k :: ks).map keyTuple)) :=
      .listed (List.forall_mem_map.2 fun vs _ => sealed_keyTuple vs)
    rw [tokens, List.append_assoc]
    exact (hcolumns.bracketed fun _ => hcolumns).append (.wrapped rfl hkeys)

namespace Statement

/-- The condition on the keys as a term of the WHERE clause, if the statement has one. -/
def keyTerms (s : Statement) (keys : List (List Value)) : List (List Token) :=
  s.keyFilter.toList.map fun f => f.tokens s.context keys

variable {d : Dialect} {s : Statement} {keys : List (List Value)} {ts : List Token}

/-- The WHERE clause stands in the text of the statement. -/
theorem infix_where (h : s.render d keys = .ok ts) :
    ∃ parts, Condition.renderAll d s.context s.filters = .ok parts ∧
      clause .whereClause (s.keyTerms keys ++ parts) Token.conjoined <:+: ts := by
  simp only [render, bind_eq_ok, pure_eq_ok] at h
  obtain ⟨_, -, joins, -, parts, hparts, _, -, _, -, rfl⟩ := h
  refine ⟨parts, hparts, ?_⟩
  -- four clauses come behind this one
  iterate 4 refine .trans ?_ (List.prefix_append _ _).isInfix
  exact (List.suffix_append _ _).isInfix

/-- The condition on the keys is one more factor before those of the filters. -/
theorem factored_where (hworded : ∀ e ∈ Condition.termsAll s.filters, e.isWorded)
    {parts : List (List Token)} (h : Condition.renderAll d s.context s.filters = .ok parts) :
    ∃ factors, Condition.renderAll d s.context (s.filters.flatMap Condition.factors) = .ok factors ∧
      (s.keyTerms keys ++ parts ≠ [] →
        Factored (Token.conjoined (s.keyTerms keys ++ parts)) (s.keyTerms keys ++ factors)) := by
  have hterm (f : KeyFilter) : Factored (f.tokens s.context keys) [f.tokens s.context keys] :=
    .single (f.sealed_tokens s.context keys)
  unfold keyTerms
  -- the key filter is one factor more, and the only one without conditions
  by_cases hnone : s.filters = []
  · rw [hnone] at h ⊢
    obtain rfl := Except.ok.inj h
    refine ⟨[], rfl, fun hne => ?_⟩
    cases hf : s.keyFilter with
    | none => simp [hf] at hne
    | some f => exact hterm f
  · obtain ⟨factors, hfactors, hfactored⟩ := Condition.factored_renderAll hnone hworded h
    refine ⟨factors, hfactors, fun _ => ?_⟩
    obtain ⟨x, xs, hxs⟩ := List.exists_cons_of_ne_nil hnone
    simp only [hxs, Condition.renderAll, bind_eq_ok, pure_eq_ok] at h
    obtain ⟨first, -, rest, -, rfl⟩ := h
    cases s.keyFilter with
    | none => exact hfactored
    | some f => exact (hterm f).append hfactored

end Statement

/-! ## headline -/

/-- What is rendered for the conditions is read as the conjunction of their factors. -/
def Condition.ReadsAsFactors (d : Dialect) (c : RenderContext) (xs : List Condition)
    (parts : List (List Token)) : Prop :=
  ∃ factors, renderAll d c (xs.flatMap Condition.factors) = .ok factors ∧
    Token.Conjoins d (Token.conjoined parts) factors

/-- Conditions that are rendered in some context are read as the conjunction of their factors: AND
outside of brackets and quoted identifiers stands between those and nowhere else, and no OR stands
there at all.  So it is with all conditions inside of an EXISTS, and in the WHERE clause of a
statement, where the condition on the keys comes first. -/
theorem conditions_conjoined (d : Dialect) :
    (∀ (c : RenderContext) (xs : List Condition) (parts : List (List Token)), xs ≠ [] →
      (∀ e ∈ Condition.termsAll xs, e.isWorded) → Condition.renderAll d c xs = .ok parts →
      Condition.ReadsAsFactors d c xs parts ∧
        ∀ c' ys, Condition.Encloses c xs c' ys → ys ≠ [] →
          ∃ parts', Condition.renderAll d c' ys = .ok parts' ∧
            Token.conjoined parts' <:+: Token.conjoined parts ∧
            Condition.ReadsAsFactors d c' ys parts') ∧
      ∀ (s : Statement) (keys : List (List Value)) (ts : List Token),
        (∀ e ∈ Condition.termsAll s.filters, e.isWorded) → s.render d keys = .ok ts →
        ∃ parts factors, Condition.renderAll d s.context s.filters = .ok parts ∧
          Condition.renderAll d s.context (s.filters.flatMap Condition.factors) = .ok factors ∧
          clause .whereClause (s.keyTerms keys ++ parts) Token.conjoined <:+: ts ∧
          (s.keyTerms keys ++ parts ≠ [] →
            Token.Conjoins d (Token.conjoined (s.keyTerms keys ++ parts))
              (s.keyTerms keys ++ factors)) := by
  -- enclosed lists are read like any other, since their terms are among those around them
  have hlist {c : RenderContext} {xs : List Condition} {parts : List (List Token)}
      (hne : xs ≠ []) (hworded : ∀ e ∈ Condition.termsAll xs, e.isWorded)
      (h : Condition.renderAll d c xs = .ok parts) : Condition.ReadsAsFactors d c xs parts := by
    obtain ⟨factors, hfactors, hfactored⟩ := Condition.factored_renderAll hne hworded h
    exact ⟨factors, hfactors, hfactored.conjoins d⟩
  refine ⟨fun c xs parts hne hworded h => ⟨hlist hne hworded h, fun c' ys hys hne' => ?_⟩,
    fun s keys ts hworded h => ?_⟩
  · obtain ⟨parts', hparts', hinfix⟩ := hys.infix_renderAll h
    exact ⟨parts', hparts', hinfix,
      hlist hne' (fun e he => hworded e (hys.terms_subset e he)) hparts'⟩
  · obtain ⟨parts, hparts, hinfix⟩ := Statement.infix_where h
    obtain ⟨factors, hfactors, hfactored⟩ := Statement.factored_where hworded hparts
    exact ⟨parts, factors, hparts, hfactors, hinfix, fun hne => (hfactored hne).conjoins d⟩

namespace Library

/-- What makes a chapter one of an edition, with more to be asked of it. -/
def chapterConditions : List Condition := [
  .keys ⟨1⟩ ⟨0⟩ [("bookId", "bookId"), ("edition", "number")],
  .expr (.binary .and (.isNull (.col "name") true) (.unary .not (.call "AND" [.col "id"]))) ⟨1⟩]

/-- Editions that are free or sold out, with some such chapter. -/
def sellableEditions : Statement where
  aliases := ⟨["editions", "chapters"], []⟩
  hidden := [⟨1⟩]
  select := [.star ⟨0⟩]
  table := ⟨"editions", ["bookId", "number"], ["bookId", "number"]⟩
  root := ⟨0⟩
  joins := []
  keyFilter := some ⟨⟨0⟩, ["bookId", "number"]⟩
  filters := [
    .expr (.binary .or (.binary .eq (.col "price") (.literal (.int 0)))
      (.isNull (.col "in AND out") false)) ⟨0⟩,
    .existence (.mk ⟨1⟩ [⟨1⟩] ⟨"chapters", [], []⟩ [] chapterConditions)]
  order := []

end Library

/-- The condition on the keys, the disjunction and the EXISTS are a factor each, and what is asked
inside of the EXISTS has four. -/
theorem conditions_conjoined_library :
    ∃ parts inner,
      Condition.renderAll .postgres Library.sellableEditions.context
        Library.sellableEditions.filters = .ok parts ∧
      Condition.renderAll .postgres (Library.sellableEditions.context.inside [⟨1⟩])
        Library.chapterConditions = .ok inner ∧
      (splitAtWord .postgres "AND" (Token.text .postgres 0 (Token.conjoined
        (Library.sellableEditions.keyTerms [[.int 1, .int 2]] ++ parts)))).map String.ofList =
          ["(\"editions\".\"bookId\", \"editions\".\"number\") IN (($1, $2))",
            "(\"editions\".\"price\" = $3 OR \"editions\".\"in AND out\" IS NULL)",
            "EXISTS (SELECT 1 FROM \"chapters\" WHERE \"chapters\".\"bookId\" = " ++
              "\"editions\".\"bookId\" AND \"chapters\".\"edition\" = \"editions\".\"number\" " ++
              "AND \"chapters\".\"name\" IS NOT NULL AND NOT AND(\"chapters\".\"id\"))"] ∧
      (splitAtWord .postgres "AND"
        (Token.text .postgres 3 (Token.conjoined inner))).map String.ofList =
          ["\"chapters\".\"bookId\" = \"editions\".\"bookId\"",
            "\"chapters\".\"edition\" = \"editions\".\"number\"",
            "\"chapters\".\"name\" IS NOT NULL", "NOT AND(\"chapters\".\"id\")"] := by
  obtain ⟨hlists, hstatements⟩ := conditions_conjoined .postgres
  have hworded : ∀ e ∈ Condition.termsAll Library.sellableEditions.filters, e.isWorded :=
    List.all_eq_true.1 (by decide +kernel)
  obtain ⟨ts, hts⟩ : ∃ ts, Library.sellableEditions.render .postgres [[.int 1, .int 2]] = .ok ts :=
    ⟨_, rfl⟩
  obtain ⟨parts, factors, hparts, hfactors, -, hclause⟩ :=
    hstatements Library.sellableEditions [[.int 1, .int 2]] ts hworded hts
  obtain ⟨-, hinside⟩ := hlists _ Library.sellableEditions.filters parts nofun hworded hparts
  obtain ⟨inner, hinner, -, factors', hfactors', hconjoins⟩ :=
    hinside _ Library.chapterConditions (.filters (.tail _ (.head _))) nofun
  refine ⟨parts, inner, hparts, hinner, ?_, ?_⟩
  · obtain rfl := Except.ok.inj hfactors
    rw [(hclause nofun).split 0]
    decide +kernel
  · obtain rfl := Except.ok.inj hfactors'
    rw [hconjoins.split 3]
    decide +kernel

end AssociationQuery
