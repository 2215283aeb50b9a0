import AssociationQuery.Proofs.Placeholders.Writing
import AssociationQuery.Proofs.Reading.Orderings

/-!
# AssociationQuery.Proofs.Placeholders.Positions

Placeholders that are known by their position alone.

Where placeholders have no numbers, the values go to them one by one from left to right.  What
is written twice then needs its values twice.  An ordering that puts NULL in its place by a test
writes its expression twice and binds its values once, so `OrderTerm.render_mysql_iff` says when
every placeholder of it gets the value it was written for, and when the test is that of the whole
expression.
-/

namespace AssociationQuery

/-! ## the reader -/

/-- The pieces of a text with the values in the places of its placeholders, one by one. -/
def filled : List Value → List (Piece Nat) → List (Piece (Option Value))
  | _, [] => []
  | vs, .char c :: ps => .char c :: filled vs ps
  | vs, .placeholder _ :: ps => .placeholder vs.head? :: filled vs.tail ps

/-- The pieces with their placeholders known by their position alone. -/
def unnumbered (ps : List (Piece Value)) : List (Piece Nat) := ps.map (Piece.map fun _ => 0)

/-- Every placeholder gets its own value exactly if the values begin with those. -/
theorem filled_unnumbered_iff (vs : List Value) (ps : List (Piece Value)) :
    filled vs (unnumbered ps) = ps.map (Piece.map some) ↔
      ps.filterMap Piece.placeholder? <+: vs := by
  induction ps generalizing vs with
  | nil => simp [unnumbered, filled]
  | cons p ps ih =>
    rw [unnumbered] at ih ⊢
    cases p with
    | char c => simpa [Piece.map, filled, List.filterMap_cons, Piece.placeholder?] using ih vs
    | placeholder v =>
      cases vs with
      | nil => simp [Piece.map, Piece.placeholder?, filled]
      | cons w vs =>
        simpa [Piece.map, Piece.placeholder?, filled, List.cons_prefix_cons, eq_comm] using
          fun _ => ih vs

/-! ## tokens -/

namespace Token

/-- The placeholders with their values are those of the parameters. -/
theorem placeholders_valued {d : Dialect} {ts : List Token} (hplain : ∀ t ∈ ts, t.isPlain d) :
    (valued d ts).filterMap Piece.placeholder? = params ts := by
  induction ts with
  | nil => rfl
  | cons t ts ih =>
    obtain ⟨ht, hts⟩ := List.forall_mem_cons.1 hplain
    cases t with
    | param v => simp [valued, Piece.placeholder?, ih hts, params]
    | _ => simp [valued, Piece.placeholder?, ih hts, params, Function.comp_def]

/-- Where placeholders have no numbers, a token has the same text wherever it stands. -/
theorem chars_mysql (n : Nat) (t : Token) : t.chars .mysql n = t.chars .mysql 0 := by
  cases t <;> rfl

/-- Without numbers the text of tokens is put together from their own texts. -/
theorem text_mysql (n : Nat) (ts : List Token) :
    text .mysql n ts = ts.flatMap (chars .mysql 0) := by
  induction ts generalizing n with
  | nil => rfl
  | cons t ts ih => rw [text, ih, chars_mysql, List.flatMap_cons]

/-- A mention of a placeholder looks like the placeholder. -/
theorem text_mentioned (n : Nat) (ts : List Token) :
    text .mysql n (mentioned ts) = text .mysql n ts := by
  rw [text_mysql, text_mysql, mentioned, List.flatMap_map]
  refine List.flatMap_congr fun t _ => ?_
  cases t <;> rfl

/-- A parameter is read as a placeholder without a number. -/
theorem readPieces_param {cs : List Char} (h : endsNumber cs) (v : Value) (n : Nat) :
    readPieces .mysql .plain ((param v).chars .mysql n ++ cs) =
      .placeholder 0 :: readPieces .mysql .plain cs := by
  have hchars : (param v).chars .mysql n = [Dialect.mysql.sign] := by
    simp [chars, Dialect.placeholder, Dialect.sign]
  rw [hchars, List.singleton_append, readPieces, if_pos rfl, readPieces_number 0 h]

/-- Reading the text of tokens gives back their placeholders, without their values. -/
theorem readPieces_mysql {ts : List Token} (hplain : ∀ t ∈ ts, t.isPlain .mysql)
    (hapart : ts.IsChain Apart) (n : Nat) :
    readPieces .mysql .plain (text .mysql n ts) = unnumbered (valued .mysql ts) := by
  -- over the tokens: a question mark is read as it stands unless the text behind it goes on with a
  -- digit
  induction ts generalizing n with
  | nil => rfl
  | cons t ts ih =>
    obtain ⟨ht, hts⟩ := List.forall_mem_cons.1 hplain
    have hrest := ih hts hapart.tail
    cases hparam : t.isParam with
    | false =>
      have hvalued : valued .mysql (t :: ts) =
          (t.chars .mysql n).map .char ++ valued .mysql ts := by
        rw [chars_mysql]
        cases t with
        | param => cases hparam
        | _ => rfl
      rw [text, readPieces_chars ht hparam, hrest, hvalued, unnumbered, unnumbered,
        List.map_append, List.map_map]
      rfl
    | true =>
      cases t with
      | param v =>
        have hends (m : Nat) : endsNumber (text .mysql m ts) := by
          cases ts with
          | nil => rfl
          | cons u us => exact endsNumber_chars (hapart.rel rfl) _ _
        rw [text, readPieces_param (hends _), hrest]
        rfl
      | _ => cases hparam

/-- Tokens that are written for more values than are bound leave placeholders without a value. -/
theorem Written.filled_iff {ts : List Token} (h : Written .mysql ts) (bound : List Value)
    (n : Nat) :
    filled bound (readPieces .mysql .plain (text .mysql n ts)) =
      (valued .mysql ts).map (Piece.map some) ↔ params ts <+: bound := by
  rw [readPieces_mysql h.plain h.apart, filled_unnumbered_iff, placeholders_valued h.plain]

/-- There are as many placeholders as parameters. -/
theorem Written.length_placeholders {ts : List Token} (h : Written .mysql ts) (n : Nat) :
    (placeholders .mysql (String.ofList (text .mysql n ts))).length = (params ts).length := by
  have hpiece (p : Piece Value) :
      (p.map fun _ => 0).placeholder? = p.placeholder?.map fun _ => (0 : Nat) := by
    cases p <;> rfl
  rw [placeholders, String.toList_ofList, readPieces_mysql h.plain h.apart, unnumbered,
    List.filterMap_map, ← placeholders_valued h.plain]
  simp [hpiece, ← List.map_filterMap]

end Token

namespace OrderTerm

open Token (Written text valued)

variable {r : Resolver} {o : OrderTerm} {us : List Token}

/-- What an ordering is meant to be binds the values of each mention of its expression. -/
theorem params_meant (o : OrderTerm) (us : List Token) : Token.params (o.meant us) =
    if o.nulls = none then Token.params us else Token.params us ++ Token.params us := by
  cases hn : o.nulls with
  | none => simp [meant, hn]
  | some n => simp [meant, hn]

/-- What an ordering is meant to be is written. -/
theorem written_meant {d : Dialect} (hplain : o.expr.isNeutral d) (h : o.expr.render d r = .ok us) :
    Written d (o.meant us) := by
  have hus := Expr.written_render _ hplain h
  have hsorted : Written d (us ++ [.word o.direction.keyword]) := by
    refine hus.concat ?_ ?_
    · cases o.direction <;> rfl
    · cases o.direction <;> rfl
  cases hn : o.nulls with
  | none => simpa [meant, hn] using hsorted
  | some n =>
    have htested : Written d (us ++ [.word .isNull]) := hus.concat rfl rfl
    have hbehind := (hsorted.cons (t := .word .comma) rfl).follows
      (t := .word n.testDirection.keyword) (by cases n <;> rfl) (by cases n <;> rfl)
    simpa [meant, hn] using htested.append hbehind

/-- The tokens of an ordering look like those that are meant. -/
theorem text_render {ts : List Token} (h : o.render .mysql r = .ok ts) :
    ∃ us, o.expr.render .mysql r = .ok us ∧ ∀ n, text .mysql n ts = text .mysql n (o.meant us) := by
  simp only [OrderTerm.render, bind_eq_ok] at h
  obtain ⟨us, hus, h⟩ := h
  -- a mention is spelt like the value, only that nothing is pushed for it
  have htested (w v : Keyword) (ws : List Token) (n : Nat) :
      text .mysql n (us ++ .word .isNull :: .word w :: .word v :: Token.mentioned ws) =
        text .mysql n ((us ++ [.word .isNull]) ++ .word w :: .word v :: ws) := by
    simp [Token.text_append, text, Token.text_mentioned]
  refine ⟨us, hus, ?_⟩
  cases hn : o.nulls with
  | none =>
    rw [hn] at h
    obtain rfl := pure_eq_ok.1 h
    exact fun n => by simp [meant, hn]
  | some place =>
    rw [hn] at h
    simp only [meant, hn]
    cases place with
    | first => exact pure_eq_ok.1 h ▸ htested _ _ _
    | last => exact pure_eq_ok.1 h ▸ htested _ _ _

/-- An ordering is read as it is meant, where placeholders have no numbers, exactly if its
expression binds as tightly as the test that puts NULL in its place, or if there is no such test.
The values of the expression are bound once, and there are as many placeholders, each of which
gets the value that it is meant to have, exactly if there is no such test or no value. -/
theorem render_mysql_iff (hp : o.expr.isPlain) {ts : List Token} (h : o.render .mysql r = .ok ts) :
    ∃ us t, o.expr.render .mysql r = .ok us ∧ SqlExpr.read? (lexemes us) = some t ∧
      (∀ n, text .mysql n ts = text .mysql n (o.meant us)) ∧
      (readSortTerms? [] (o.meant us) = some (o.sortTerms t) ↔
        o.nulls = none ∨ testPrecedence ≤ o.expr.precedence) ∧
      (o.expr.isNeutral .mysql → (Token.bind .mysql ts).params = o.expr.values ∧
        (placeholders .mysql (Token.bind .mysql ts).sql).length =
          (if o.nulls = none then 1 else 2) * o.expr.values.length ∧
        (filled (Token.bind .mysql ts).params
            (readPieces .mysql .plain (Token.bind .mysql ts).sql.toList) =
            (valued .mysql (o.meant us)).map (Piece.map some) ↔
          o.nulls = none ∨ o.expr.values = [])) := by
  obtain ⟨us, hus, htext⟩ := text_render h
  refine ⟨us, _, hus, Expr.read?_render hp hus, htext, readSortTerms?_meant_iff hp hus,
    fun hneutral => ?_⟩
  have hbound : Token.params ts = o.expr.values := params_render h
  have hmeant := written_meant hneutral hus
  have hvalues := params_meant o us
  rw [o.expr.params_render hus] at hvalues
  refine ⟨hbound, ?_, ?_⟩
  · rw [Token.bind, htext, hmeant.length_placeholders, hvalues]
    split_ifs
    · rw [Nat.one_mul]
    · rw [List.length_append, Nat.two_mul]
  · rw [Token.bind, String.toList_ofList, htext, hmeant.filled_iff, hbound, hvalues]
    -- written twice, the values are needed twice, but they were pushed once
    split_ifs with hn
    · simp [hn]
    · have hshorter : o.expr.values ++ o.expr.values <+: o.expr.values ↔ o.expr.values = [] := by
        refine ⟨fun h => ?_, fun h => by simp [h]⟩
        have hle := h.length_le
        rw [List.length_append] at hle
        exact List.length_eq_zero_iff.1 (by omega)
      rw [hshorter, or_iff_right hn]

/-- What is printed or cheap, with what is neither known to be last. -/
def affordable : OrderTerm :=
  .mk (.binary .or (.col "printed") (.binary .lt (.col "price") (.literal (.int 9)))) .asc
    (some .last)

/-- The test for NULL is one of the price only, and there are two placeholders for one value. -/
theorem affordable_misread :
    ∃ ts us t, affordable.render .mysql .standalone = .ok ts ∧
      Token.bind .mysql ts =
        ⟨"\x60printed\x60 OR \x60price\x60 < ? IS NULL ASC, \x60printed\x60 OR \x60price\x60 < ? ASC",
          [.int 9]⟩ ∧
      (placeholders .mysql (Token.bind .mysql ts).sql).length = 2 ∧
      affordable.expr.render .mysql .standalone = .ok us ∧ SqlExpr.read? (lexemes us) = some t ∧
      readSortTerms? [] (affordable.meant us) ≠ some (affordable.sortTerms t) ∧
      filled (Token.bind .mysql ts).params
        (readPieces .mysql .plain (Token.bind .mysql ts).sql.toList) ≠
          (valued .mysql (affordable.meant us)).map (Piece.map some) := by
  obtain ⟨us, t, hus, hread, -, hterms, hplaces⟩ :=
    render_mysql_iff (r := .standalone) (o := affordable) rfl rfl
  obtain ⟨-, hlength, hfilled⟩ := hplaces rfl
  exact ⟨_, us, t, rfl, rfl, hlength, hus, hread, fun h => absurd (hterms.1 h) (by decide),
    fun h => absurd (hfilled.1 h) (by decide)⟩

end OrderTerm

end AssociationQuery
