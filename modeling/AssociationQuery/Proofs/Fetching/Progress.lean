import AssociationQuery.Proofs.Fetching.Course

/-!
# AssociationQuery.Proofs.Fetching.Progress

What can go wrong while a compiled query runs.

A request is compiled by rendering each of its statements, those of the plans without any keys;
what can fail in a statement does not depend on the keys.  So a fetch has every statement that it
asks for, and it fails only where the connection fails or answers with a row of another width,
`Request.fetch_fails_only_at_answers`.
-/

namespace AssociationQuery

variable {σ ρ : Type}

/-! ## plans at any depth -/

namespace PrefetchPlan

/-- The plan is one of the plans, or below one of them. -/
inductive Among : List PrefetchPlan → PrefetchPlan → Prop
  | here {ps : List PrefetchPlan} {p : PrefetchPlan} (h : p ∈ ps) : Among ps p
  | deeper {ps : List PrefetchPlan} {p p' : PrefetchPlan} (h : p ∈ ps)
      (among : Among p.children p') : Among ps p'

/-- What is among some plans is among more. -/
theorem Among.cons {p p' : PrefetchPlan} {ps : List PrefetchPlan} (h : Among ps p') :
    Among (p :: ps) p' := by
  cases h with
  | here h => exact .here (List.mem_cons_of_mem p h)
  | deeper h among => exact .deeper (List.mem_cons_of_mem p h) among

/-- What holds of the plan of each node holds of the plans at any depth. -/
theorem Each.exists_of_among {P : ChainNode → PrefetchPlan → Prop} {ns : List ChainNode}
    {ps : List PrefetchPlan} {p : PrefetchPlan} (h : Each P ns ps) (hp : Among ps p) :
    ∃ n, P n p := by
  induction h generalizing p with
  | nil =>
    cases hp with
    | here h | deeper h => cases h
  | @cons n first ns ps own _ _ ihBelow ihOthers =>
    cases hp with
    | here h =>
      rcases List.mem_cons.1 h with rfl | h
      · exact ⟨n, own⟩
      · exact ihOthers (.here h)
    | deeper h among =>
      rcases List.mem_cons.1 h with rfl | h
      · exact ihBelow among
      · exact ihOthers (.deeper h among)

mutual

/-- A plan that is visited is the first one or below it. -/
theorem eq_or_among_of_mem_visits {parent next : Nat} {v : Visit} : (p : PrefetchPlan) →
    v ∈ visits parent next p → v.plan = p ∨ Among p.children v.plan
  | ⟨_, _, _, _, _, _, children⟩, h => by
    rw [visits] at h
    rcases List.mem_cons.1 h with rfl | h
    · exact .inl rfl
    · exact .inr (among_of_mem_visitsAll children h)

/-- Only plans of the tree are visited. -/
theorem among_of_mem_visitsAll {parent next : Nat} {v : Visit} : (ps : List PrefetchPlan) →
    v ∈ visitsAll parent next ps → Among ps v.plan
  | [], h => by cases h
  | p :: ps, h => by
    rw [visitsAll] at h
    rcases List.mem_append.1 h with h | h
    · rcases eq_or_among_of_mem_visits p h with heq | among
      · exact .here (heq ▸ List.mem_cons_self)
      · exact .deeper List.mem_cons_self among
    · exact (among_of_mem_visitsAll ps h).cons

end

end PrefetchPlan

/-! ## statements that are asked for -/

namespace CompiledQuery

variable {q : CompiledQuery}

/-- A statement of the query: the base statement, or that of a plan at any depth for some keys. -/
inductive HasStatement (q : CompiledQuery) : CompiledStatement → Prop
  | base : HasStatement q q.root
  | keyed {p : PrefetchPlan} {keys : List (List Value)} {t : CompiledStatement}
      (among : PrefetchPlan.Among q.prefetches p) (rendered : p.render keys = .ok t) :
      HasStatement q t

/-- The visits that are still to come are the last ones of the query. -/
theorem Course.suffix_visits {xs : List (Exchange ρ)} {done : List (Option (List DecodedRow))}
    {vs : List Visit} (h : q.Course xs done vs) : vs <:+ q.visits := by
  induction h with
  | base => exact List.suffix_rfl
  | keyless _ _ _ ih | parentless _ _ ih | asked _ _ _ _ _ ih =>
    exact (List.suffix_cons _ _).trans ih

/-- The exchange that stops a fetch is about a statement of the query. -/
theorem Stopped.exists_last {xs : List (Exchange ρ)} {o : Outcome α ρ} (h : q.Stopped xs o) :
    ∃ ys x, xs = ys ++ [x] ∧ q.HasStatement x.statement ∧ x.Stops o := by
  cases h with
  | @base x o hroot stops => exact ⟨[], x, rfl, hroot ▸ .base, stops⟩
  | @asked ys done v vs parents x o before _ _ rendered stops =>
    have hv : v ∈ q.visits := before.suffix_visits.subset List.mem_cons_self
    exact ⟨ys, x, rfl, .keyed (PrefetchPlan.among_of_mem_visitsAll _ hv) rendered, stops⟩

end CompiledQuery

/-! ## fetches that fail -/

/-- The connection answers every statement of the query with rows that fit the statement's
layout. -/
def Connection.Suits (c : Connection σ ρ) (q : CompiledQuery) : Prop :=
  ∀ t, q.HasStatement t → ∀ s, ∃ rows s', c.query t.text s = (.ok rows, s') ∧
    ∀ r ∈ rows, r.width = t.layout.width

namespace Exchange

variable {x : Exchange ρ} {e : Error}

/-- An error is the answer itself, or says that a row does not fit the layout. -/
theorem Stops.err_cases (h : x.Stops (.err e : Outcome α ρ)) :
    x.answer = .err e ∨ ∃ rows, x.answer = .ok rows ∧
      ∃ r ∈ rows, ∃ e', x.statement.layout.checkWidth r = .error e' ∧ e = .type e' := by
  cases h with
  | err h => exact .inl h
  | width h _ misfit =>
    exact .inr ⟨_, h, _, List.mem_append_right _ List.mem_cons_self, _,
      Layout.checkWidth_eq_error.2 ⟨misfit, rfl⟩, rfl⟩

/-- Rows that fit the layout do not stop the work. -/
theorem not_stops_of_fits {rows : List Row} (h : x.answer = .ok rows)
    (hfit : ∀ r ∈ rows, r.width = x.statement.layout.width) (o : Outcome α ρ) : ¬x.Stops o := by
  intro hstops
  cases hstops with
  | err h' | cancelled h' | panicked h' => cases h.symm.trans h'
  | @width before after r h' _ misfit =>
    obtain rfl := Outcome.ok.inj (h.symm.trans h')
    exact misfit (hfit r (List.mem_append_right _ List.mem_cons_self))

end Exchange

/-- Every plan of a compiled query has a statement for any keys.  A fetch that fails does so at its
last statement, with the error that the connection answers, or because a row of the answer has
another width than the layout.  Where the connection answers with rows that fit, a fetch gets
through. -/
theorem Request.fetch_fails_only_at_answers {r : Request} {config : Config} {q : CompiledQuery}
    (h : r.compile config = .ok q) :
    (∀ p, PrefetchPlan.Among q.prefetches p → ∀ keys, ∃ t, p.render keys = .ok t) ∧
      (∀ {σ ρ : Type} (c : Connection σ ρ) (s s' : σ) (e : Error), q.fetch c s = (.err e, s') →
        ∃ t s₁, q.HasStatement t ∧ (c.query t.text s₁ = (.err e, s') ∨
          ∃ rows, c.query t.text s₁ = (.ok rows, s') ∧
            ∃ r ∈ rows, ∃ e', t.layout.checkWidth r = .error e' ∧ e = .type e')) ∧
      ∀ {σ ρ : Type} (c : Connection σ ρ), c.Suits q → ∀ s, ∃ f s', q.fetch c s = (.ok f, s') := by
  have heach := (each_of_compile h).imp fun _ _ hp => hp.renders
  -- every statement renders, so what ends a fetch is the answer to the last one it sent
  refine ⟨fun p hp => ?_, fun c s s' e hfetch => ?_, fun c hsuits s => ?_⟩
  · obtain ⟨_, hrenders⟩ := heach.exists_of_among hp
    exact hrenders
  · obtain ⟨xs, out, s₂, hcourse, answered, hends⟩ := CompiledQuery.course_of_fetch heach c s
    obtain ⟨rfl, rfl⟩ := Prod.mk.inj (hfetch.symm.trans hcourse)
    rcases hends with ⟨_, f, -, hok, -⟩ | stopped
    · cases hok
    · obtain ⟨ys, x, rfl, hstatement, hstops⟩ := stopped.exists_last
      obtain ⟨s₁, -, hquery⟩ := answered_concat_iff.1 answered
      refine ⟨x.statement, s₁, hstatement, ?_⟩
      rw [hquery]
      rcases hstops.err_cases with hanswer | ⟨rows, hanswer, hwidth⟩
      · exact .inl (Prod.ext hanswer rfl)
      · exact .inr ⟨rows, Prod.ext hanswer rfl, hwidth⟩
  · obtain ⟨xs, out, s', hcourse, answered, ⟨_, f, -, rfl, -⟩ | stopped⟩ :=
      CompiledQuery.course_of_fetch heach c s
    · exact ⟨f, s', hcourse⟩
    · obtain ⟨ys, x, rfl, hstatement, hstops⟩ := stopped.exists_last
      obtain ⟨s₁, -, hquery⟩ := answered_concat_iff.1 answered
      obtain ⟨rows, _, hrows, hfit⟩ := hsuits _ hstatement s₁
      exact absurd hstops
        (Exchange.not_stops_of_fits (Prod.mk.inj (hquery.symm.trans hrows)).1 hfit _)

/-- A connection to a database without any rows. -/
def Library.vacant : Connection Unit where
  query _ s := (.ok [], s)

/-- The plan for the chapters has a statement also for keys that no book has. -/
theorem Request.fetch_fails_only_at_answers_library :
    ∃ (q : CompiledQuery) (p : PrefetchPlan), Library.request.compile = .ok q ∧
      q.prefetches.head? = some p ∧ (∃ t, p.render [[.int 1], [], [.null, .text "x"]] = .ok t) ∧
      ∃ f s', q.fetch Library.vacant () = (.ok f, s') := by
  obtain ⟨q, hq⟩ := Library.exists_compile
  have hplans : (match Library.request.compile with
      | .ok q => q.prefetches.head?.isSome
      | .error _ => false) = true := by decide +kernel
  rw [hq] at hplans
  obtain ⟨p, hp⟩ := Option.isSome_iff_exists.1 hplans
  obtain ⟨hrenders, -, hthrough⟩ := fetch_fails_only_at_answers hq
  exact ⟨q, p, hq, hp, hrenders p (.here (List.mem_of_head? hp)) _,
    hthrough Library.vacant (fun _ _ s => ⟨[], s, rfl, nofun⟩) ()⟩

end AssociationQuery
