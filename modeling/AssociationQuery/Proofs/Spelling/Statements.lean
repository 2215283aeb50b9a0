import AssociationQuery.Proofs.Placeholders.Statements
import AssociationQuery.Proofs.Spelling.Drafts

/-!
# AssociationQuery.Proofs.Spelling.Statements

One request compiled under two configurations.

A configuration chooses the spelling of statements and nothing else: under any two valid ones
a request fails with the same error, or it gives the same layouts and the same tree of plans,
and corresponding statements bind the same values, `Request.compile_respelled`.
-/

namespace AssociationQuery

open Text (Casing.sameIgnoringCase)

/-- Two compiled queries that differ in nothing but the spelling of their statements. -/
structure CompiledQuery.Matches (q q' : CompiledQuery) : Prop where
  layout : q.root.layout = q'.root.layout
  params : q.root.text.params = q'.root.text.params
  prefetches : List.Forall₂ PrefetchPlan.Matches q.prefetches q'.prefetches

namespace Draft

/-- Drafts agree as well about more errors. -/
theorem Matches.mono {E E' : AssociationError → Prop} {d d' : Draft} (h : Matches E d d')
    (hE : ∀ e, E e → E' e) : Matches E' d d' := by
  obtain ⟨numbering, h⟩ := h
  exact .mk numbering (h.imp fun _ _ hplan => hplan.mono hE fun _ _ hp => hp)

variable {config : Config} {r : Request}

/-- An association is joined for its aggregates in the same way in both drafts. -/
theorem agree_joinAggregate {a : Association} (hmem : a ∈ r.aggregates) {d d' : Draft}
    (h : Matches (r.Fault config) d d') :
    RunsAgree (r.Fault config) (fun x y => x.1 = y.1 ∧ Matches (r.Fault config) x.2 y.2)
      (d.joinAggregate r.table a) (d'.joinAggregate r.table a) := by
  rw [joinAggregate, joinAggregate]
  simp only [joinHops_eq, h.next]
  split
  · next hdiffers => exact .error (.aggregateBase hmem (by simpa using hdiffers))
  · refine (RunsAgree.same fun e he => .chain (.of_routeFor he)).bind ?_
    rintro route _ rfl
    exact .ok ⟨rfl, h.withJoins _⟩

/-- So are several. -/
theorem agree_joinAggregates (as : List Association) (hmem : ∀ a ∈ as, a ∈ r.aggregates)
    (joined : List (Association × Slot)) {d d' : Draft} (h : Matches (r.Fault config) d d') :
    RunsAgree (r.Fault config) (fun x y => x.1 = y.1 ∧ Matches (r.Fault config) x.2 y.2)
      (d.joinAggregates r.table joined as) (d'.joinAggregates r.table joined as) := by
  induction as generalizing joined d d' with
  | nil => exact .ok ⟨rfl, h⟩
  | cons a rest ih =>
    obtain ⟨ha, hrest⟩ := List.forall_mem_cons.1 hmem
    rw [joinAggregates, joinAggregates]
    split
    · exact ih hrest joined h
    · refine (agree_joinAggregate ha h).bind ?_
      rintro ⟨slot, d₁⟩ ⟨_, d₁'⟩ ⟨rfl, h₁⟩
      exact ih hrest _ h₁

end Draft

namespace Request

open Draft (agree_planNodes agree_joinAggregates)

section compile

variable (config config' : Config)

/-- The drafts of the base statement agree, or fail with one error. -/
theorem agree_draft (r : Request) :
    RunsAgree (r.Fault config)
      (fun x y => x.1 = y.1 ∧ Draft.Matches (r.Fault config) x.2 y.2)
      (r.draft config) (r.draft config') := by
  have hfault : ∀ e, ChainNode.Fault config r.table r.chain e → r.Fault config e :=
    fun _ he => .chain he
  have hchain := agree_planNodes config config' r.chain (fun _ hm => hm) (.base r.table)
    (fun _ hm => .inl ⟨hm, rfl⟩) _ _
    (.start config.numbering config'.numbering r.table (r.table.width + r.annotations.length))
  refine (hchain.mono hfault fun _ _ h => h.mono hfault).bind ?_
  intro d d' h
  refine (agree_joinAggregates r.aggregates (fun _ ha => ha) [] h).bind ?_
  rintro ⟨aggregates, d₁⟩ ⟨_, d₁'⟩ ⟨rfl, h₁⟩
  exact .ok ⟨rfl, h₁.register _ _⟩

/-- The base statements differ at most in names. -/
theorem matches_statement (r : Request) {E : AssociationError → Prop} {d d' : Draft}
    (h : Draft.Matches E d d') (aggregates : List (Association × Slot))
    {aliases aliases' : AliasMap} (handles : aliases'.handles = aliases.handles) :
    (r.statement aliases aggregates d).Matches (r.statement aliases' aggregates d') := by
  cases h
  exact ⟨handles, List.forall₂_same.2 fun i _ => .same i, rfl⟩

/-- Planning fails with one error or gives queries that differ in spelling only. -/
theorem agree_plan (r : Request) :
    RunsAgree (r.Fault config) CompiledQuery.Matches (r.plan config) (r.plan config') := by
  unfold plan
  refine (r.agree_draft config config').known.bind ?_
  rintro ⟨aggregates, d⟩ ⟨_, d'⟩ ⟨⟨rfl, h⟩, hdraft, -⟩
  dsimp only at h ⊢
  have hallocate : RunsAgree (r.Fault config) (fun m m' => m'.handles = m.handles)
      d.aliases.allocate d'.aliases.allocate := by
    obtain ⟨numbering, -⟩ := h
    exact AliasRequests.agree_allocate d.aliases numbering fun e he => .conflict hdraft he
  refine hallocate.bind fun aliases aliases' handles => ?_
  have hbind := (r.matches_statement h aggregates handles).agree_bind config.dialect
    config'.dialect []
  refine (hbind.mono (fun e he => .chain (.lookup he)) fun _ _ hparams => hparams).bind
    fun text text' hparams => ?_
  refine (RunsAgree.mapM h.pending).bind fun ps ps' hps => .ok ⟨?_, hparams, hps⟩
  rw [h.layout]

end compile

variable {config config' : Config}

/-- An error of compiling a request is one of its faults. -/
theorem fault_of_compile {r : Request} {e : AssociationError}
    (h : r.compile config = .error (.association e)) : r.Fault config e := by
  rcases bind_eq_error.1 h with hconfig | ⟨_, -, hplan⟩
  · cases hvalid : config.validate with
    | ok => rw [hvalid] at hconfig; cases hconfig
    | error => rw [hvalid] at hconfig; cases hconfig
  · cases hresult : r.plan config with
    | ok => rw [hresult] at hplan; cases hplan
    | error e' =>
      rw [hresult] at hplan
      cases hplan
      exact (r.agree_plan config config).fault hresult

/-- Under two valid configurations a request fails with one error, or the compiled queries
differ in nothing but the spelling of their statements. -/
theorem compile_respelled (hvalid : config.validate = .ok ()) (hvalid' : config'.validate = .ok ())
    (r : Request) :
    (∃ e, r.compile config = .error e ∧ r.compile config' = .error e) ∨
      ∃ q q', r.compile config = .ok q ∧ r.compile config' = .ok q' ∧ q.Matches q' := by
  have hagree : RunsAgree (fun _ => True) CompiledQuery.Matches (r.compile config)
      (r.compile config') := by
    unfold compile
    rw [hvalid, hvalid']
    exact (r.agree_plan config config').mapError fun _ _ => trivial
  rcases RunsAgree.cases_iff.1 hagree with ⟨e, h, h', -⟩ | h
  · exact .inl ⟨e, h, h'⟩
  · exact .inr h

end Request

namespace Library

/-- A configuration that differs from the default one in everything. -/
def quoted : Config := { dialect := .mysql, numbering := .numberAll, pairingName := "key" }

end Library

/-- Two spellings of a request. -/
theorem Request.compile_respelled_quoted :
    ({} : Config).validate = .ok () ∧ Library.quoted.validate = .ok () ∧
    ∃ q q' : CompiledQuery, Library.numbered.compile = .ok q ∧
      Library.numbered.compile Library.quoted = .ok q' ∧ q.root.text.sql ≠ q'.root.text.sql ∧
      q.Matches q' := by
  have hquery : ∃ q, Library.numbered.compile = .ok q := exists_of_isOk (by decide +kernel)
  obtain ⟨q, hq⟩ := hquery
  have hvalid : ({} : Config).validate = .ok () := by decide
  have hvalid' : Library.quoted.validate = .ok () := by decide
  rcases Request.compile_respelled hvalid hvalid' Library.numbered with
    ⟨e, he, -⟩ | ⟨q₁, q', hq₁, hq', hmatches⟩
  · rw [hq] at he
    cases he
  · have htexts : (Library.numbered.compile.toOption.map fun q => q.root.text.sql) ≠
        (Library.numbered.compile Library.quoted).toOption.map fun q => q.root.text.sql := by
      decide +kernel
    rw [hq₁, hq'] at htexts
    exact ⟨hvalid, hvalid', q₁, q', hq₁, hq', fun h => htexts (congrArg some h), hmatches⟩

end AssociationQuery
