import AssociationQuery.Proofs.Placeholders.Writer
import AssociationQuery.Proofs.Planning.Statements
import AssociationQuery.Statement.Render

/-!
# AssociationQuery.Proofs.Placeholders.Statements

The numbers in the text of a statement.

A statement is rendered clause by clause, with subqueries inside the conditions.  Each
clause is well written and may follow on the one before it, so the numbers in the text of a
statement are those of its values, `Statement.bind_numbered`.
-/

namespace AssociationQuery

open Token (Written Follows isFixed)

/-! ## conditions -/

/-- A table with its alias has no parameters. -/
theorem RenderContext.isFixed_tableRef (c : RenderContext) (table : Table) (slot : Slot)
    (d : Dialect) : ∀ t ∈ c.tableRef table slot, t.isFixed d := by
  unfold tableRef
  split <;> simp [isFixed, Token.isPlain, Token.isParam]

/-- The comparison of keys has no parameters. -/
theorem written_keyTokens (d : Dialect) (c : RenderContext) (left right : Slot)
    (columns : List (String × String)) : Written d (keyTokens c left right columns) := by
  refine .conjoined (List.forall_mem_map.2 fun p _ => ?_)
  have hright : Written d (Token.column (c.name right) p.2) := .fixed (Token.isFixed_column _ _)
  exact .fixed_append (Token.isFixed_column _ _) (hright.cons rfl)

/-- A clause begins with a keyword, which may follow anything. -/
theorem Token.Follows.clause {d : Dialect} {w : Keyword} (hw : (Token.word w).breaks)
    {joined : List (List Token) → List Token} {parts : List (List Token)}
    (h : Written d (joined parts)) : Follows d (clause w parts joined) := by
  cases parts with
  | nil => exact .nil
  | cons => exact h.follows rfl hw

mutual

/-- A rendered condition of neutral text is written. -/
theorem Condition.written_render {d : Dialect} {c : RenderContext} :
    (x : Condition) → {ts : List Token} → (∀ e ∈ x.exprs, e.isNeutral d) → x.render d c = .ok ts →
    Written d ts
  | .keys left right columns, ts, _, h => by
    obtain rfl := Except.ok.inj h
    exact written_keyTokens d c left right columns
  | .expr e slot, ts, hplain, h => by
    simp only [Condition.render, Expr.renderConjunct, bind_eq_ok, pure_eq_ok] at h
    obtain ⟨_, he, rfl⟩ := h
    exact (e.written_render (hplain e (List.mem_singleton_self e)) he).bracketed _
  | .existence q, ts, hplain, h => by
    simp only [Condition.render, bind_eq_ok, pure_eq_ok] at h
    obtain ⟨_, hq, rfl⟩ := h
    exact ((SubQuery.written_render q hplain hq).cons rfl).concat rfl rfl

theorem Condition.written_renderAll {d : Dialect} {c : RenderContext} :
    (xs : List Condition) → {parts : List (List Token)} →
    (∀ e ∈ Condition.exprsAll xs, e.isNeutral d) → Condition.renderAll d c xs = .ok parts →
    ∀ ts ∈ parts, Written d ts
  | [], parts, _, h => by
    obtain rfl := Except.ok.inj h
    exact List.forall_mem_nil _
  | x :: xs, parts, hplain, h => by
    simp only [Condition.renderAll, bind_eq_ok, pure_eq_ok] at h
    obtain ⟨ts, hts, rest, hrest, rfl⟩ := h
    obtain ⟨hx, hxs⟩ := List.forall_mem_append.1 hplain
    exact List.forall_mem_cons.2
      ⟨Condition.written_render x hx hts, Condition.written_renderAll xs hxs hrest⟩

theorem Join.written_renderAll {d : Dialect} {c : RenderContext} :
    (js : List Join) → {ts : List Token} → (∀ e ∈ Join.exprsAll js, e.isNeutral d) →
    Join.renderAll d c js = .ok ts → Follows d ts
  | [], ts, _, h => by
    obtain rfl := Except.ok.inj h
    exact .nil
  | .mk kind slot table on :: js, ts, hplain, h => by
    simp only [Join.renderAll, Join.render, bind_eq_ok, pure_eq_ok] at h
    obtain ⟨_, ⟨parts, hparts, rfl⟩, rest, hrest, rfl⟩ := h
    obtain ⟨hon, hjs⟩ := List.forall_mem_append.1 hplain
    have hterms := Written.conjoined (Condition.written_renderAll on hon hparts)
    have hjoined := Written.fixed_append (c.isFixed_tableRef table slot d)
      (hterms.cons (t := .word .on) rfl)
    refine (hjoined.follows ?_ ?_).append (Join.written_renderAll js hjs hrest)
    · cases kind <;> rfl
    · cases kind <;> rfl

theorem SubQuery.written_render {d : Dialect} {c : RenderContext} :
    (q : SubQuery) → {ts : List Token} → (∀ e ∈ q.exprs, e.isNeutral d) → q.render d c = .ok ts →
    Written d ts
  | .mk slot slots table joins conditions, ts, hplain, h => by
    simp only [SubQuery.render, bind_eq_ok, pure_eq_ok] at h
    obtain ⟨joined, hjoined, parts, hparts, rfl⟩ := h
    obtain ⟨hjoins, hconditions⟩ := List.forall_mem_append.1 hplain
    have hterms := Written.conjoined (Condition.written_renderAll conditions hconditions hparts)
    have hfrom : ∀ t ∈ Token.word .select :: .word .one :: .word .fromClause ::
        (c.inside slots).tableRef table slot, t.isFixed d := by
      simpa [isFixed, Token.isPlain, Token.isParam] using
        (c.inside slots).isFixed_tableRef table slot d
    have hfiltered : Follows d
        (if conditions.isEmpty then [] else .word .whereClause :: Token.conjoined parts) := by
      split
      · exact .nil
      · exact hterms.follows rfl rfl
    exact ((Written.fixed hfrom).append (Join.written_renderAll joins hjoins hjoined)).append
      hfiltered

end

/-! ## clauses -/

/-- A rendered item of neutral text is written. -/
theorem SelectItem.written_render {d : Dialect} {c : RenderContext} {i : SelectItem}
    {ts : List Token} (hplain : ∀ e ∈ i.exprs, e.isNeutral d) (h : i.render d c = .ok ts) :
    Written d ts := by
  cases i with
  | star slot =>
    obtain rfl := Except.ok.inj h
    exact .fixed (by simp [isFixed, Token.isPlain, Token.isParam])
  | expr e slot name =>
    simp only [SelectItem.render, bind_eq_ok, pure_eq_ok] at h
    obtain ⟨_, he, rfl⟩ := h
    have hname : Written d [Token.ident name] := .fixed (List.forall_mem_singleton.2 rfl)
    exact (e.written_render (hplain e (List.mem_singleton_self e)) he).append
      (hname.follows (t := .word .as) rfl rfl)
  | column slot name label =>
    obtain rfl := Except.ok.inj h
    have hlabel : Written d [Token.word .as, .ident label] :=
      .fixed (by simp [isFixed, Token.isPlain, Token.isParam])
    exact .fixed_append (Token.isFixed_column _ _) hlabel

/-- A tuple of keys is written. -/
theorem written_keyTuple (d : Dialect) (vs : List Value) : Written d (keyTuple vs) := by
  unfold keyTuple
  split
  · exact .param _
  · exact (Written.listed (List.forall_mem_map.2 fun v _ => .param v)).bracketed true

/-- The key filter is written, for any keys. -/
theorem KeyFilter.written_tokens (d : Dialect) (c : RenderContext) (f : KeyFilter)
    (keys : List (List Value)) : Written d (f.tokens c keys) := by
  cases keys with
  | nil => exact .fixed (List.forall_mem_singleton.2 rfl)
  | cons k ks =>
    have hcolumns : Written d
        (Token.listed (f.columns.map fun name => Token.column (c.name f.slot) name)) :=
      .listed (List.forall_mem_map.2 fun name _ => .fixed (Token.isFixed_column _ _))
    have hkeys : Written d (Token.listed ((k :: ks).map keyTuple)) :=
      .listed (List.forall_mem_map.2 fun vs _ => written_keyTuple d vs)
    have hoperand := hcolumns.bracketed (f.columns.length != 1)
    exact (hoperand.append (hkeys.follows (t := .word .inOpening) rfl rfl)).concat rfl rfl

/-- The page may follow, except for MySQL, which has no numbered placeholders. -/
theorem follows_pageTokens {d : Dialect} (hd : d ≠ .mysql) (limit offset : Option Nat) :
    Follows d (pageTokens d limit offset) := by
  have hfixed : ∀ t ∈ pageTokens d limit offset, t.isFixed d := by
    cases limit <;> cases offset <;> cases d <;>
      simp [pageTokens, isFixed, Token.isPlain, Token.isParam]
  have hbreaks : ∀ t ∈ (pageTokens d limit offset).head?, t.breaks := by
    cases limit <;> cases offset <;> cases d <;> simp [pageTokens, Token.breaks]
  exact ⟨.fixed hfixed, hbreaks⟩

/-! ## statements -/

namespace Statement

/-- The placeholders of a statement can be read in its text. -/
theorem written_render {d : Dialect} (hd : d ≠ .mysql) {s : Statement} {keys : List (List Value)}
    {ts : List Token} (hbefore : ∀ e ∈ s.exprsBefore, e.isNeutral d)
    (hafter : ∀ e ∈ s.exprsAfter, e.isNeutral d) (h : s.render d keys = .ok ts) :
    Written d ts := by
  simp only [render, bind_eq_ok, pure_eq_ok] at h
  obtain ⟨select, hselect, joins, hjoins, filters, hfilters, having, hhaving, order, horder, rfl⟩ :=
    h
  simp only [exprsBefore, exprsAfter, List.forall_mem_append] at hbefore hafter
  obtain ⟨⟨hfiltersPlain, hhavingPlain⟩, horderPlain⟩ := hafter
  have hselect : ∀ ts ∈ select, Written d ts := forall_of_mapM (fun i hi ts hts =>
    SelectItem.written_render (fun e he => hbefore.1 e (List.mem_flatMap.2 ⟨i, hi, he⟩)) hts) hselect
  have horder : ∀ ts ∈ order, Written d ts := forall_of_mapM (fun o ho ts hts =>
    OrderTerm.written_render hd (horderPlain _ (List.mem_map_of_mem ho)) hts) horder
  have hterms : ∀ ts ∈ (s.keyFilter.toList.map fun f => f.tokens s.context keys) ++ filters,
      Written d ts :=
    List.forall_mem_append.2 ⟨List.forall_mem_map.2 fun f _ => f.written_tokens d s.context keys,
      Condition.written_renderAll s.filters hfiltersPlain hfilters⟩
  have hgroups : ∀ ts ∈ s.groupBy.map fun name => Token.column (s.context.name s.root) name,
      Written d ts := List.forall_mem_map.2 fun name _ => .fixed (Token.isFixed_column _ _)
  have hhead : ∀ t ∈ Token.word .select :: (if s.distinct then [Token.word .distinct] else []),
      t.isFixed d := by
    cases s.distinct <;> simp [isFixed, Token.isPlain, Token.isParam]
  -- clause by clause: each begins with a word, which ends any placeholder before it
  have hfrom : Follows d (.word .fromClause :: s.context.tableRef s.table s.root) :=
    (Written.fixed (s.context.isFixed_tableRef s.table s.root d)).follows rfl rfl
  have hselected := ((Written.listed hselect).fixed_append hhead).append hfrom
  have hjoined := hselected.append (Join.written_renderAll s.joins hbefore.2 hjoins)
  have hfiltered := hjoined.append (.clause (w := .whereClause) rfl (.conjoined hterms))
  have hgrouped := (hfiltered.append (.clause (w := .groupBy) rfl (.listed hgroups))).append
    (.clause (w := .having) rfl
      (.conjoined (Condition.written_renderAll s.having hhavingPlain hhaving)))
  exact (hgrouped.append (.clause (w := .orderBy) rfl (.listed horder))).append
    (follows_pageTokens hd s.limit s.offset)

/-- A statement binds its values in their order, and it is what a writer makes of it that counts
the values as it puts them aside.  Where placeholders have numbers, those in its text go from one
on, one for each value, and each stands where its value was rendered. -/
theorem bind_numbered {d : Dialect} {s : Statement} {keys : List (List Value)} {b : BoundSql}
    (h : s.bind d keys = .ok b) :
    b.params = s.values keys ∧ s.write d keys = .ok b ∧
      (d ≠ .mysql → (∀ e ∈ s.exprsBefore ++ s.exprsAfter, e.isNeutral d) →
        placeholders d b.sql = List.range' 1 b.params.length ∧
        ∃ ts, s.render d keys = .ok ts ∧
          (readPieces d .plain b.sql.toList).map (Piece.map fun i => b.params[i - 1]?) =
            (Token.valued d ts).map (Piece.map some)) := by
  have hwrite : s.write d keys = .ok b := (s.write_eq_bind d keys).trans h
  simp only [bind, bind_eq_ok, pure_eq_ok] at h
  obtain ⟨ts, hts, rfl⟩ := h
  refine ⟨params_render hts, hwrite, fun hd hplain => ?_⟩
  obtain ⟨hbefore, hafter⟩ := List.forall_mem_append.1 hplain
  have hwritten := written_render hd hbefore hafter hts
  exact ⟨Token.placeholders_bind hd hwritten.plain hwritten.apart, ts, hts,
    Token.map_readPieces_bind hd hwritten.plain hwritten.apart⟩

end Statement

namespace Library

/-- Books with those chapters whose numbers look a certain way. -/
def numbered : Request where
  table := books
  chain := [chaptersOfBook.filter (.like (.col "id") "A%" false)]

/-- The plan for the numbered books binds the keys before the pattern of its filter. -/
theorem plans_numbered :
    numbered.compile.toOption.map (fun q => q.prefetches.map fun p =>
      ((p.statement.exprsBefore ++ p.statement.exprsAfter).all (Expr.isNeutral .postgres),
        (p.statement.bind .postgres [[.int 1], [.int 2]]).toOption.map BoundSql.params)) =
      some [(true, some [.int 1, .int 2, .text "A%"])] := by
  decide +kernel

end Library

/-- Two keys and a pattern. -/
theorem Statement.bind_numbered_library :
    ∃ (q : CompiledQuery) (p : PrefetchPlan) (b : BoundSql), Library.numbered.compile = .ok q ∧
      q.prefetches = [p] ∧ p.statement.bind .postgres [[.int 1], [.int 2]] = .ok b ∧
      p.statement.write .postgres [[.int 1], [.int 2]] = .ok b ∧
      placeholders .postgres b.sql = [1, 2, 3] ∧ b.params = [.int 1, .int 2, .text "A%"] := by
  have hplans := Library.plans_numbered
  -- the request compiles and its plan binds, as was computed
  cases hq : Library.numbered.compile with
  | error e =>
    rw [hq] at hplans
    cases hplans
  | ok q =>
    rw [hq] at hplans
    obtain ⟨p, hp, hfacts⟩ := List.map_eq_singleton_iff.1 (Option.some.inj hplans)
    obtain ⟨hneutral, hparams⟩ := Prod.mk.inj hfacts
    cases hb : p.statement.bind .postgres [[.int 1], [.int 2]] with
    | error e =>
      rw [hb] at hparams
      cases hparams
    | ok b =>
      rw [hb] at hparams
      have hvalues : b.params = [.int 1, .int 2, .text "A%"] := Option.some.inj hparams
      obtain ⟨-, hwrite, hnumbered⟩ := bind_numbered hb
      obtain ⟨hnumbers, -⟩ := hnumbered (by decide) (List.all_eq_true.1 hneutral)
      rw [hvalues] at hnumbers
      exact ⟨q, p, b, rfl, hp, hb, hwrite, hnumbers, hvalues⟩

end AssociationQuery
