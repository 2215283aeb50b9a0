import AssociationQuery.Proofs.Placeholders.Reading
import AssociationQuery.Proofs.Placeholders.Values

/-!
# AssociationQuery.Proofs.Placeholders.Writing

Expressions whose placeholders can be read in their text.

Tokens are well written if the reader takes nothing else for a placeholder and the text behind
a placeholder does not run into its number.  What is rendered for an expression is well written,
`Expr.written_render`, as long as no SQL text of the caller is in it.
-/

namespace AssociationQuery

/-! ## expressions that can be read -/

namespace Expr

mutual

/-- Is the expression made without SQL text, with function names in which nothing can be taken
for a placeholder or for the beginning of a quoted identifier?  Plain names are such,
`Token.isNeutral_of_isPlain`. -/
def isNeutral (d : Dialect) : Expr → Bool
  | raw _ => false
  | call f args => f.toList.all d.isNeutral && isNeutralAll d args
  | binary _ a b => isNeutral d a && isNeutral d b
  | unary _ a | isNull a _ | like a _ _ | paren a => isNeutral d a
  | inList a vs _ => isNeutral d a && isNeutralAll d vs
  | column .. | literal _ | countStar | aggregate .. => true

def isNeutralAll (d : Dialect) : List Expr → Bool
  | [] => true
  | e :: es => isNeutral d e && isNeutralAll d es

end

end Expr

/-! ## tokens -/

namespace Token

/-- The placeholders among the tokens can be read. -/
structure Written (d : Dialect) (ts : List Token) : Prop where
  plain : ∀ t ∈ ts, t.isPlain d
  apart : ts.IsChain Apart

/-- The tokens may stand right behind a placeholder. -/
structure Follows (d : Dialect) (ts : List Token) : Prop extends Written d ts where
  breaks : ∀ t ∈ ts.head?, t.breaks

/-- Is the token the same in every text? -/
def isFixed (d : Dialect) (t : Token) : Bool := t.isPlain d && !t.isParam

variable {d : Dialect} {t : Token} {ts us : List Token}

namespace Written

theorem nil : Written d [] := ⟨nofun, .nil⟩

theorem param (v : Value) : Written d [.param v] := ⟨List.forall_mem_singleton.2 rfl, .singleton _⟩

/-- A fixed token may stand in front of what is written. -/
theorem cons (ht : t.isFixed d) (h : Written d ts) : Written d (t :: ts) := by
  have hfixed : t.isPlain d ∧ t.isParam = false := by simpa [isFixed] using ht
  have happart : (t :: ts).IsChain Apart := by
    refine List.isChain_cons.2 ⟨fun _ _ hparam => ?_, h.apart⟩
    rw [hfixed.2] at hparam
    cases hparam
  exact ⟨List.forall_mem_cons.2 ⟨hfixed.1, h.plain⟩, happart⟩

/-- So may several. -/
theorem fixed_append (hts : ∀ t ∈ ts, t.isFixed d) (h : Written d us) : Written d (ts ++ us) := by
  induction ts with
  | nil => exact h
  | cons t ts ih =>
    obtain ⟨ht, hts⟩ := List.forall_mem_cons.1 hts
    exact (ih hts).cons ht

/-- Fixed tokens are written. -/
theorem fixed (hts : ∀ t ∈ ts, t.isFixed d) : Written d ts := by
  simpa using fixed_append hts nil

/-- What is written may be followed by what begins with a break. -/
theorem append (h : Written d ts) (h' : Follows d us) : Written d (ts ++ us) where
  plain := List.forall_mem_append.2 ⟨h.plain, h'.plain⟩
  apart := List.isChain_append.2 ⟨h.apart, h'.apart, fun _ _ t ht _ => h'.breaks t ht⟩

/-- A fixed token that breaks may follow anything. -/
theorem follows (ht : t.isFixed d) (hbreaks : t.breaks) (h : Written d ts) : Follows d (t :: ts) :=
  ⟨h.cons ht, fun _ hu => Option.some.inj hu ▸ hbreaks⟩

/-- Tokens with one more behind. -/
theorem concat (h : Written d ts) (ht : t.isFixed d) (hbreaks : t.breaks) :
    Written d (ts ++ [t]) :=
  h.append (nil.follows ht hbreaks)

/-- Brackets around what is written are written too. -/
theorem bracketed (h : Written d ts) (wrap : Bool) : Written d (bracketed wrap ts) := by
  cases wrap with
  | false => exact h
  | true => exact (h.cons rfl).concat rfl rfl

/-- Parts with fixed tokens between them are written if each part is. -/
theorem separated {between : Token} (hfixed : between.isFixed d) (hbreaks : between.breaks) :
    (parts : List (List Token)) → (∀ ts ∈ parts, Written d ts) →
    Written d (separated between parts)
  | [], _ => nil
  | [_], h => List.forall_mem_singleton.1 h
  | _ :: us :: rest, h => by
    obtain ⟨hts, hrest⟩ := List.forall_mem_cons.1 h
    exact hts.append ((separated hfixed hbreaks (us :: rest) hrest).follows hfixed hbreaks)

theorem listed {parts : List (List Token)} (h : ∀ ts ∈ parts, Written d ts) :
    Written d (listed parts) := separated rfl rfl parts h

theorem conjoined {parts : List (List Token)} (h : ∀ ts ∈ parts, Written d ts) :
    Written d (conjoined parts) := separated rfl rfl parts h

end Written

namespace Follows

theorem nil : Follows d [] := ⟨.nil, nofun⟩

/-- What follows may itself be followed. -/
theorem append (h : Follows d ts) (h' : Follows d us) : Follows d (ts ++ us) where
  toWritten := h.toWritten.append h'
  breaks := by
    cases ts with
    | nil => exact h'.breaks
    | cons t ts => exact h.breaks

end Follows

/-- A qualified column has no parameters. -/
theorem isFixed_column (table name : String) : ∀ t ∈ column table name, t.isFixed d := by
  simp [column, isFixed, isPlain, isParam]

/-- An aggregate has no parameters. -/
theorem isFixed_aggregate (f : AggregateFunction) (destination : Table) (table : String)
    (c : Option String) : ∀ t ∈ f.tokens destination table c, t.isFixed d := by
  cases f <;> simp [AggregateFunction.tokens, column, isFixed, isPlain, isParam]

end Token

open Token (Written Follows isFixed)

/-! ## expressions -/

namespace Expr

mutual

/-- A rendered expression of neutral text is written. -/
theorem written_render {d : Dialect} {r : Resolver} : (e : Expr) →
    {ts : List Token} → e.isNeutral d → e.render d r = .ok ts → Written d ts
  -- by the expression: what stands between two parts is text of its own, so no placeholder grows
  | column .current name, ts, _, h => by
    rw [render] at h
    split at h
    · obtain rfl := Except.ok.inj h
      exact .fixed (Token.isFixed_column _ _)
    · obtain rfl := Except.ok.inj h
      exact .fixed (List.forall_mem_singleton.2 rfl)
  | column (.handle a) name, ts, _, h => by
    simp only [render, bind_eq_ok, pure_eq_ok] at h
    obtain ⟨table, -, rfl⟩ := h
    exact .fixed (Token.isFixed_column _ _)
  | column (.named table) name, ts, _, h => by
    obtain rfl := Except.ok.inj h
    exact .fixed (Token.isFixed_column _ _)
  | literal v, ts, _, h => by
    obtain rfl := Except.ok.inj h
    exact .param v
  | binary o a b, ts, hplain, h => by
    simp only [isNeutral, Bool.and_eq_true] at hplain
    simp only [render, bind_eq_ok] at h
    obtain ⟨left, hleft, right, hright, h⟩ := h
    have ha := (written_render a hplain.1 hleft).bracketed (o.wrapsLeft a)
    have hb := (written_render b hplain.2 hright).bracketed (o.wrapsRight b)
    split_ifs at h
    · obtain rfl := pure_eq_ok.1 h
      exact ((ha.cons rfl).append (hb.follows rfl rfl)).concat rfl rfl
    · obtain rfl := pure_eq_ok.1 h
      exact ha.append (hb.follows rfl rfl)
  | unary o a, ts, hplain, h => by
    simp only [render, bind_eq_ok] at h
    obtain ⟨operand, hoperand, h⟩ := h
    have ha := (written_render a hplain hoperand).bracketed (o.wraps a)
    cases o with
    | not =>
      obtain rfl := pure_eq_ok.1 h
      exact ha.cons rfl
    | neg =>
      obtain rfl := pure_eq_ok.1 h
      exact ha.cons rfl
  | call f args, ts, hplain, h => by
    simp only [isNeutral, Bool.and_eq_true] at hplain
    simp only [render, bind_eq_ok, pure_eq_ok] at h
    obtain ⟨parts, hparts, rfl⟩ := h
    have hcall : (Token.call f).isFixed d := by
      simpa [isFixed, Token.isPlain, Token.isParam] using hplain.1
    exact ((Written.listed (written_renderAll args hplain.2 hparts)).cons hcall).concat rfl rfl
  | inList _ [] negated, ts, _, h => by
    obtain rfl := Except.ok.inj h
    exact .fixed (List.forall_mem_singleton.2 rfl)
  | inList a (v :: vs) negated, ts, hplain, h => by
    simp only [isNeutral, Bool.and_eq_true] at hplain
    simp only [render, bind_eq_ok, pure_eq_ok] at h
    obtain ⟨operand, hoperand, parts, hparts, rfl⟩ := h
    have ha := (written_render a hplain.1 hoperand).bracketed a.wrapsInTest
    have hvs := Written.listed (written_renderAll (v :: vs) hplain.2 hparts)
    refine (ha.append (hvs.follows ?_ ?_)).concat rfl rfl
    · cases negated <;> rfl
    · cases negated <;> rfl
  | isNull a negated, ts, hplain, h => by
    simp only [render, bind_eq_ok, pure_eq_ok] at h
    obtain ⟨operand, hoperand, rfl⟩ := h
    have ha := (written_render a hplain hoperand).bracketed a.wrapsInTest
    refine ha.concat ?_ ?_
    · cases negated <;> rfl
    · cases negated <;> rfl
  | like a pattern negated, ts, hplain, h => by
    simp only [render, bind_eq_ok, pure_eq_ok] at h
    obtain ⟨operand, hoperand, rfl⟩ := h
    have ha := (written_render a hplain hoperand).bracketed a.wrapsInTest
    refine ha.append ((Written.param _).follows ?_ ?_)
    · cases negated <;> rfl
    · cases negated <;> rfl
  | raw sql, ts, hplain, h => by cases hplain
  | paren a, ts, hplain, h => by
    simp only [render, bind_eq_ok, pure_eq_ok] at h
    obtain ⟨operand, hoperand, rfl⟩ := h
    exact (written_render a hplain hoperand).bracketed true
  | countStar, ts, _, h => by
    obtain rfl := Except.ok.inj h
    exact .fixed (List.forall_mem_singleton.2 rfl)
  | aggregate f a c, ts, _, h => by
    simp only [render, bind_eq_ok, pure_eq_ok] at h
    obtain ⟨table, -, rfl⟩ := h
    exact .fixed (Token.isFixed_aggregate _ _ _ _)

theorem written_renderAll {d : Dialect} {r : Resolver} : (es : List Expr) →
    {parts : List (List Token)} → isNeutralAll d es → renderAll d r es = .ok parts →
    ∀ ts ∈ parts, Written d ts
  | [], parts, _, h => by
    obtain rfl := Except.ok.inj h
    exact List.forall_mem_nil _
  | e :: es, parts, hplain, h => by
    simp only [isNeutralAll, Bool.and_eq_true] at hplain
    simp only [renderAll, bind_eq_ok, pure_eq_ok] at h
    obtain ⟨ts, hts, rest, hrest, rfl⟩ := h
    exact List.forall_mem_cons.2
      ⟨written_render e hplain.1 hts, written_renderAll es hplain.2 hrest⟩

end

end Expr

/-- A rendered ordering is written, except for MySQL, where NULLS LAST needs the expression twice.
-/
theorem OrderTerm.written_render {d : Dialect} (hd : d ≠ .mysql) {r : Resolver} {o : OrderTerm}
    {ts : List Token} (hplain : o.expr.isNeutral d) (h : o.render d r = .ok ts) :
    Written d ts := by
  simp only [OrderTerm.render, bind_eq_ok] at h
  obtain ⟨e, he, h⟩ := h
  have hsorted : Written d (e ++ [.word o.direction.keyword]) := by
    refine (Expr.written_render _ hplain he).concat ?_ ?_
    · cases o.direction <;> rfl
    · cases o.direction <;> rfl
  split at h
  · exact pure_eq_ok.1 h ▸ hsorted
  · exact absurd rfl hd
  · exact absurd rfl hd
  · exact pure_eq_ok.1 h ▸ hsorted.concat rfl rfl
  · exact pure_eq_ok.1 h ▸ hsorted.concat rfl rfl

end AssociationQuery
