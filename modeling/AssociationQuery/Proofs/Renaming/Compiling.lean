import AssociationQuery.Proofs.Renaming.Walk

/-!
# AssociationQuery.Proofs.Renaming.Compiling

Requests compiled with renamed handles.

Compiling a renamed request gives the renamed result or the same error.  A result does not show
the identities of handles, neither in the base statement nor in what its plans render, so that a
renaming that keeps the handles of a request apart cannot be seen: `Request.compile_renamed`.
-/

namespace AssociationQuery

/-- The result of compiling, with other identities for the handles in its plans. -/
def CompiledQuery.renamed (ρ : Nat → Nat) (q : CompiledQuery) : CompiledQuery :=
  { q with prefetches := q.prefetches.map (PrefetchPlan.renamed ρ) }

variable {ρ : Nat → Nat}

/-! ## joins for aggregates -/

namespace Draft

/-- An association is joined for aggregates before or after renaming, or fails with the same error.
-/
theorem joinAggregate_renamed (base : Table) (a : Association) (d : Draft) :
    (d.renamed ρ).joinAggregate base (a.renamed ρ) =
      Prod.map id (renamed ρ) <$> d.joinAggregate base a := by
  rw [joinAggregate, joinAggregate, Association.origin_renamed, Association.name_renamed]
  split
  · rfl
  · refine bind_of_eq_map (a.routeFor_renamed .optional) fun route => ?_
    have hjoins : hopJoins true [] root (d.renamed ρ).next (route.renamed ρ).first
          (route.renamed ρ).rest =
        (hopJoins true [] root d.next route.first route.rest).map (Join.renamed ρ) :=
      hopJoins_renamed true [] root d.next route.first route.rest
    rw [joinHops_eq, joinHops_eq, hjoins, Join.lastSlot_renamed, withJoins_renamed]
    rfl

/-- So are several, of which equal ones are joined once. -/
theorem joinAggregates_renamed (hρ : ρ.Injective) (base : Table) (as : List Association)
    (joined : List (Association × Slot)) (d : Draft) :
    (d.renamed ρ).joinAggregates base (renamedOn (Association.renamed ρ) joined)
        (as.map (Association.renamed ρ)) =
      Prod.map (renamedOn (Association.renamed ρ)) (renamed ρ) <$>
        d.joinAggregates base joined as := by
  induction as generalizing joined d with
  | nil => rfl
  | cons a as ih =>
    -- an association was joined before iff its renaming was
    have hany : (renamedOn (Association.renamed ρ) joined).any
          (fun p => p.1.equal (a.renamed ρ)) =
        joined.any fun p => p.1.equal a := by
      rw [renamedOn, List.any_map]
      exact congrArg joined.any (funext fun p => p.1.equal_renamed hρ a)
    rw [List.map_cons, joinAggregates, joinAggregates, hany]
    split
    · exact ih joined d
    · refine bind_of_eq_map (joinAggregate_renamed base a d) ?_
      rintro ⟨slot, d₁⟩
      have hjoined : renamedOn (Association.renamed ρ) joined ++ [(a.renamed ρ, slot)] =
          renamedOn (Association.renamed ρ) (joined ++ [(a, slot)]) := by
        rw [renamedOn_append]
        rfl
      show joinAggregates base (_ ++ [(a.renamed ρ, slot)]) _ _ = _
      rw [hjoined]
      exact ih _ d₁

end Draft

/-! ## requests -/

namespace Request

/-- The aggregates of a renamed request are those of the renamed associations. -/
theorem aggregates_renamed (r : Request) :
    (r.renamed ρ).aggregates = r.aggregates.map (Association.renamed ρ) := by
  have hterms : (r.renamed ρ).filters ++ (r.renamed ρ).having ++
        (r.renamed ρ).order.map OrderTerm.expr ++ (r.renamed ρ).annotations.map Prod.fst =
      (r.filters ++ r.having ++ r.order.map OrderTerm.expr ++ r.annotations.map Prod.fst).map
        (Expr.renamed ρ) := by
    simp [renamed, Function.comp_def]
  rw [aggregates, hterms, List.flatMap_map, aggregates, List.map_flatMap]
  exact congrArg (List.flatMap · _) (funext Expr.aggregates_renamed)

/-- The filters without aggregates are renamed one by one. -/
theorem rowFilters_renamed (r : Request) :
    (r.renamed ρ).rowFilters = r.rowFilters.map (Expr.renamed ρ) := by
  simp [rowFilters, renamed, List.filter_map, Function.comp_def]

/-- So are those with aggregates. -/
theorem groupFilters_renamed (r : Request) :
    (r.renamed ρ).groupFilters = r.groupFilters.map (Expr.renamed ρ) := by
  simp [groupFilters, renamed, List.filter_map, Function.comp_def]

section compile

variable (hρ : ρ.Injective) (config : Config)

include hρ

/-- The draft of a renamed request is the renamed draft. -/
theorem draft_renamed (r : Request) :
    (r.renamed ρ).draft config =
      Prod.map (renamedOn (Association.renamed ρ)) (Draft.renamed ρ) <$> r.draft config := by
  have hwidth : (r.renamed ρ).annotations.length = r.annotations.length := List.length_map _
  have hchain := Draft.planNodes_renamed hρ config r.chain (.base r.table)
    (.start config.numbering r.table (r.table.width + r.annotations.length))
  rw [draft, draft, hwidth, aggregates_renamed]
  refine bind_of_eq_map hchain fun d => ?_
  refine bind_of_eq_map (Draft.joinAggregates_renamed hρ r.table r.aggregates [] d) ?_
  rintro ⟨aggregates, d₁⟩
  show pure (_, (d₁.renamed ρ).register Draft.root (r.aliases.map (TableAlias.renamed ρ))) = _
  rw [Draft.register_renamed]
  rfl

omit hρ in
/-- The base statement of a renamed request is the renamed statement. -/
theorem statement_renamed (r : Request) (aliases : AliasMap)
    (aggregates : List (Association × Slot)) (d : Draft) :
    (r.renamed ρ).statement (aliases.renamed ρ) (renamedOn (Association.renamed ρ) aggregates)
        (d.renamed ρ) =
      (r.statement aliases aggregates d).renamed ρ := by
  have hannotations : (r.annotations.map fun p => SelectItem.expr p.1 Draft.root p.2).map
        (SelectItem.renamed ρ) =
      (r.renamed ρ).annotations.map fun p => .expr p.1 Draft.root p.2 := by
    simp [SelectItem.renamed, renamed, Function.comp_def]
  have hstars : (d.stars.map SelectItem.star).map (SelectItem.renamed ρ) =
      d.stars.map .star := by
    rw [List.map_map]
    rfl
  have hfilters : conditionsOn Draft.root (r.renamed ρ).rowFilters ++ (d.renamed ρ).filters =
      (conditionsOn Draft.root r.rowFilters ++ d.filters).map (Condition.renamed ρ) := by
    rw [rowFilters_renamed, conditionsOn_renamed, List.map_append]
    rfl
  have hhaving : conditionsOn Draft.root (r.renamed ρ).groupFilters =
      (conditionsOn Draft.root r.groupFilters).map (Condition.renamed ρ) := by
    rw [groupFilters_renamed, conditionsOn_renamed]
  have horder : (r.renamed ρ).order.map (·, Draft.root) ++ (d.renamed ρ).order =
      renamedOn (OrderTerm.renamed ρ) (r.order.map (·, Draft.root) ++ d.order) := by
    rw [renamedOn_append, renamedOn_map]
    rfl
  have hgrouped : (!(renamedOn (Association.renamed ρ) aggregates).isEmpty ||
        !(r.renamed ρ).groupFilters.isEmpty) =
      (!aggregates.isEmpty || !r.groupFilters.isEmpty) := by
    rw [groupFilters_renamed, renamedOn, List.isEmpty_map, List.isEmpty_map]
  simp only [statement, Statement.renamed, List.map_append, List.map_cons, hannotations, hstars,
    hfilters, hhaving, horder, hgrouped]
  rfl

/-- A renamed request is planned as the renamed query. -/
theorem plan_renamed (r : Request) :
    (r.renamed ρ).plan config = CompiledQuery.renamed ρ <$> r.plan config := by
  refine bind_of_eq_map (draft_renamed hρ config r) ?_
  rintro ⟨aggregates, d⟩
  refine bind_of_eq_map (AliasRequests.allocate_renamed hρ d.aliases) fun aliases => ?_
  dsimp only [Prod.map]
  rw [statement_renamed, Statement.bind_renamed hρ]
  refine bind_of_eq rfl fun text => ?_
  exact bind_of_eq_map (mapM_id_map (PrefetchPlan.renamed ρ) d.pending) fun prefetches => rfl

/-- A renamed request is compiled to the renamed result, or fails with the same error. -/
theorem compile_eq_map (r : Request) :
    (r.renamed ρ).compile config = CompiledQuery.renamed ρ <$> r.compile config := by
  refine bind_of_eq rfl fun _ => ?_
  rw [plan_renamed hρ]
  cases r.plan config <;> rfl

end compile

end Request

/-! ## results -/

/-- The two plans attach their rows alike and render the same statements, and so do the plans
below them. -/
inductive PrefetchPlan.Alike : PrefetchPlan → PrefetchPlan → Prop
  | mk {p q : PrefetchPlan} (name : p.name = q.name) (parentScope : p.parentScope = q.parentScope)
      (parentKeyColumns : p.parentKeyColumns = q.parentKeyColumns)
      (dialect : p.dialect = q.dialect) (layout : p.layout = q.layout)
      (render : ∀ keys, p.render keys = q.render keys)
      (children : List.Forall₂ Alike p.children q.children) : Alike p q

/-- The two results have the same base statement, with its values and its layout, and plans that
are alike. -/
structure CompiledQuery.Alike (q q' : CompiledQuery) : Prop where
  root : q.root = q'.root
  prefetches : List.Forall₂ PrefetchPlan.Alike q.prefetches q'.prefetches

/-- Both requests fail with one error, or have results that are alike. -/
def Request.CompileAlike (config : Config) (r r' : Request) : Prop :=
  (∃ e, r.compile config = .error e ∧ r'.compile config = .error e) ∨
    ∃ q q', r.compile config = .ok q ∧ r'.compile config = .ok q' ∧ q.Alike q'

mutual

/-- A renamed plan looks like the old one. -/
theorem PrefetchPlan.alike_renamed (hρ : ρ.Injective) : (p : PrefetchPlan) → p.Alike (p.renamed ρ)
  | ⟨name, parentScope, parentKeyColumns, dialect, statement, layout, children⟩ => by
    have hrender := PrefetchPlan.render_renamed hρ
    refine .mk ?_ ?_ ?_ ?_ ?_ (fun keys => (hrender keys _).symm) ?_
    all_goals rw [renamed]
    exact PrefetchPlan.alikeAll_renamed hρ children

theorem PrefetchPlan.alikeAll_renamed (hρ : ρ.Injective) : (ps : List PrefetchPlan) →
    List.Forall₂ PrefetchPlan.Alike ps (PrefetchPlan.renamedAll ρ ps)
  | [] => .nil
  | p :: ps => .cons (PrefetchPlan.alike_renamed hρ p) (PrefetchPlan.alikeAll_renamed hρ ps)

end

namespace Request

/-- A renamed request compiles to what looks the same. -/
theorem compileAlike_renamed (hρ : ρ.Injective) (config : Config) (r : Request) :
    CompileAlike config r (r.renamed ρ) := by
  have hrenamed := compile_eq_map hρ config r
  cases h : r.compile config with
  | error e =>
    rw [h] at hrenamed
    exact .inl ⟨e, h, hrenamed⟩
  | ok q =>
    rw [h] at hrenamed
    refine .inr ⟨q, q.renamed ρ, h, hrenamed, rfl, ?_⟩
    rw [CompiledQuery.renamed, ← PrefetchPlan.renamedAll_eq_map]
    exact PrefetchPlan.alikeAll_renamed hρ q.prefetches

/-- The identities of handles cannot be seen.  Under a renaming that keeps the handles of a
request apart, or those of the script that makes it, compiling fails with the same error or gives
the same base statement and plans that are alike. -/
theorem compile_renamed (config : Config) (ρ : Nat → Nat) :
    (∀ r : Request, KeepsApart ρ r.mentions → CompileAlike config r (r.renamed ρ)) ∧
    ∀ s : RequestScript, KeepsApart ρ s.mentions →
      CompileAlike config s.build (s.renamed ρ).build := by
  constructor
  · intro r h
    obtain ⟨σ, hσ, hagree⟩ := h.exists_injective
    rw [r.renamed_congr hagree]
    exact compileAlike_renamed hσ config r
  · intro s h
    obtain ⟨σ, hσ, hagree⟩ := h.exists_injective
    rw [s.renamed_congr hagree, s.build_renamed hσ]
    exact compileAlike_renamed hσ config s.build

end Request

namespace Library

def volume : TableAlias := { id := 4 }

def signedBy : TableAlias := { id := 7, locked := some "writer" }

def part : TableAlias := { id := 9 }

/-- The chapters of a book, in words of the book. -/
def ownChapters : Association :=
  chaptersOfBook.association.filter (.binary .eq (.col "bookId") (volume.col "id"))

/-- Books with their authors, who are asked for twice, and with their chapters, of which there
must be several. -/
def signed : RequestScript where
  table := books
  calls := [.aliased volume,
    .attach .including .required ⟨author.association, [], [.aliased signedBy]⟩,
    .attach .joining .required
      ⟨author.association, [.filter (.isNull (signedBy.col "name") true)], []⟩,
    .attach .including .required
      ⟨chaptersOfBook.association, [.filter (.isNull (part.col "id") true)], [.aliased part]⟩,
    .having (.binary .gt ownChapters.count (.literal (.int 1))),
    .orderBy (signedBy.col "name").asc]

/-- The request compiles. -/
theorem exists_compile_signed : ∃ q, signed.build.compile = .ok q :=
  exists_of_isOk (by decide +kernel)

end Library

/-- Halving keeps the three handles apart, though it does not keep all identities apart. -/
theorem Request.compile_renamed_library :
    KeepsApart (· / 2) Library.signed.mentions ∧
    KeepsApart (· / 2) Library.signed.build.mentions ∧
    (∃ q q', Library.signed.build.compile = .ok q ∧
      (Library.signed.renamed (· / 2)).build.compile = .ok q' ∧ q.Alike q') ∧
    CompileAlike {} Library.signed.build (Library.signed.build.renamed (· / 2)) := by
  have hscript : KeepsApart (· / 2) Library.signed.mentions := by decide +kernel
  have hrequest : KeepsApart (· / 2) Library.signed.build.mentions := by decide +kernel
  obtain ⟨hrequests, hscripts⟩ := compile_renamed {} (· / 2)
  refine ⟨hscript, hrequest, ?_, hrequests _ hrequest⟩
  obtain ⟨q, hq⟩ := Library.exists_compile_signed
  rcases hscripts _ hscript with ⟨e, he, -⟩ | halike
  · rw [hq] at he
    cases he
  · exact halike

end AssociationQuery
