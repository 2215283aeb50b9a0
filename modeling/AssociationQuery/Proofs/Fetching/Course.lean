import AssociationQuery.Proofs.Fetching.Pairing
import AssociationQuery.Proofs.Planning.Plans

/-!
# AssociationQuery.Proofs.Fetching.Course

Which statements a fetch runs, in which order, and where it stops.

The plans of a query are visited one after the other, each before those below it.
`CompiledQuery.Course` says what has been asked and decoded when some visits are still to
come; a fetch goes on until no visit is left or an answer makes it stop,
`Request.fetch_course`.
-/

namespace AssociationQuery

variable {σ ρ : Type}

/-! ## visits -/

/-- A plan with the position of the statement whose rows are its parents.  The base statement
has position zero. -/
structure Visit where
  parent : Nat
  plan : PrefetchPlan

namespace PrefetchPlan

mutual

/-- The visits of a plan and of those below it, where `next` is the position of the plan. -/
def visits (parent next : Nat) : PrefetchPlan → List Visit
  | ⟨name, parentScope, parentKeyColumns, dialect, statement, layout, children⟩ =>
    ⟨parent, ⟨name, parentScope, parentKeyColumns, dialect, statement, layout, children⟩⟩ ::
      visitsAll next (next + 1) children

def visitsAll (parent next : Nat) : List PrefetchPlan → List Visit
  | [] => []
  | p :: ps => visits parent next p ++ visitsAll parent (next + statementCount p) ps

end

/-- A plan is visited before those below it, which have its position as their parent's. -/
theorem visits_eq (parent next : Nat) (p : PrefetchPlan) :
    p.visits parent next = ⟨parent, p⟩ :: visitsAll next (next + 1) p.children := by
  cases p
  rfl

/-- A plan is one statement, with those below it. -/
theorem statementCount_eq (p : PrefetchPlan) :
    p.statementCount = 1 + statementCountAll p.children := by
  cases p
  rfl

end PrefetchPlan

/-- The visits of a query, each plan before those below it. -/
def CompiledQuery.visits (q : CompiledQuery) : List Visit :=
  PrefetchPlan.visitsAll 0 1 q.prefetches

/-! ## exchanges -/

/-- A statement with the answer of the connection. -/
structure Exchange (ρ : Type) where
  statement : CompiledStatement
  answer : Outcome (List Row) ρ

namespace Exchange

/-- The answer is rows that fit the layout. -/
def Yields (x : Exchange ρ) (ds : List DecodedRow) : Prop :=
  ∃ rows, x.answer = .ok rows ∧ x.statement.layout.decodeAll rows = .ok ds

/-- The answer is no rows, or the first row that does not fit the layout is among them; the work
ends just so. -/
inductive Stops (x : Exchange ρ) : Outcome α ρ → Prop
  | err {e : Error} (h : x.answer = .err e) : Stops x (.err e)
  | cancelled {r : ρ} (h : x.answer = .cancelledBy r) : Stops x (.cancelledBy r)
  | panicked {m : String} (h : x.answer = .panicked m) : Stops x (.panicked m)
  | width {before after : List Row} {r : Row} (h : x.answer = .ok (before ++ r :: after))
      (fit : ∀ b ∈ before, b.width = x.statement.layout.width)
      (misfit : r.width ≠ x.statement.layout.width) :
      Stops x (.err (.type {
        expected := "row matching the compiled column layout"
        actual := s!"{r.width} columns, expected {x.statement.layout.width}" }))

end Exchange

/-- The connection gives the answers to the statements, one after the other. -/
inductive Answered (c : Connection σ ρ) (s : σ) : List (Exchange ρ) → σ → Prop
  | start : Answered c s [] s
  | next {xs : List (Exchange ρ)} {s₁ s' : σ} {x : Exchange ρ} (before : Answered c s xs s₁)
      (h : c.query x.statement.text s₁ = (x.answer, s')) : Answered c s (xs ++ [x]) s'

/-- Before the first statement the connection is as it was. -/
theorem answered_nil_iff {c : Connection σ ρ} {s s' : σ} : Answered c s [] s' ↔ s' = s := by
  constructor
  · intro h
    generalize hys : [] = ys at h
    cases h with
    | start => rfl
    | next => exact absurd hys (by simp)
  · rintro rfl
    exact .start

/-- After one more statement the connection is as its answer leaves it. -/
theorem answered_concat_iff {c : Connection σ ρ} {s s' : σ} {xs : List (Exchange ρ)}
    {x : Exchange ρ} : Answered c s (xs ++ [x]) s' ↔
      ∃ s₁, Answered c s xs s₁ ∧ c.query x.statement.text s₁ = (x.answer, s') := by
  constructor
  · intro h
    generalize hys : xs ++ [x] = ys at h
    cases h with
    | start => exact absurd hys (by simp)
    | next before hquery =>
      obtain ⟨rfl, hxy⟩ := List.append_inj' hys rfl
      obtain rfl := List.singleton_inj.1 hxy
      exact ⟨_, before, hquery⟩
  · rintro ⟨s₁, before, hquery⟩
    exact .next before hquery

/-! ## the course of a fetch -/

namespace CompiledQuery

/-- What the exchanges so far have given: the rows of each plan that has been visited, nothing for
a plan that was left out, and the visits that are still to come. -/
inductive Course (q : CompiledQuery) :
    List (Exchange ρ) → List (Option (List DecodedRow)) → List Visit → Prop
  /-- The base statement comes first. -/
  | base {x : Exchange ρ} {ds : List DecodedRow} (h : x.statement = q.root) (yields : x.Yields ds) :
      Course q [x] [some ds] q.visits
  /-- A plan whose parents have no key is left out. -/
  | keyless {xs : List (Exchange ρ)} {done : List (Option (List DecodedRow))} {v : Visit}
      {vs : List Visit} {parents : List DecodedRow} (before : Course q xs done (v :: vs))
      (decoded : done[v.parent]? = some (some parents)) (keys : v.plan.parentKeys parents = []) :
      Course q xs (done ++ [none]) vs
  /-- So is a plan below one that was left out. -/
  | parentless {xs : List (Exchange ρ)} {done : List (Option (List DecodedRow))} {v : Visit}
      {vs : List Visit} (before : Course q xs done (v :: vs))
      (left : done[v.parent]? = some none) : Course q xs (done ++ [none]) vs
  /-- Every other plan is asked for with the keys of its parents. -/
  | asked {xs : List (Exchange ρ)} {done : List (Option (List DecodedRow))} {v : Visit}
      {vs : List Visit} {parents ds : List DecodedRow} {x : Exchange ρ}
      (before : Course q xs done (v :: vs)) (decoded : done[v.parent]? = some (some parents))
      (keys : v.plan.parentKeys parents ≠ [])
      (rendered : v.plan.render (v.plan.parentKeys parents) = .ok x.statement)
      (yields : x.Yields ds) : Course q (xs ++ [x]) (done ++ [some ds]) vs

/-- The last of the exchanges stops the work, with the given end. -/
inductive Stopped (q : CompiledQuery) : List (Exchange ρ) → Outcome α ρ → Prop
  | base {x : Exchange ρ} {o : Outcome α ρ} (h : x.statement = q.root) (stops : x.Stops o) :
      Stopped q [x] o
  | asked {xs : List (Exchange ρ)} {done : List (Option (List DecodedRow))} {v : Visit}
      {vs : List Visit} {parents : List DecodedRow} {x : Exchange ρ} {o : Outcome α ρ}
      (before : Course q xs done (v :: vs)) (decoded : done[v.parent]? = some (some parents))
      (keys : v.plan.parentKeys parents ≠ [])
      (rendered : v.plan.render (v.plan.parentKeys parents) = .ok x.statement)
      (stops : x.Stops o) : Stopped q (xs ++ [x]) o

end CompiledQuery

/-! ## single statements -/

namespace Layout

/-- A row is refused if it is not as wide as the layout. -/
theorem checkWidth_eq_error {l : Layout} {r : Row} {e : TypeError} :
    l.checkWidth r = .error e ↔ r.width ≠ l.width ∧
      e = {
        expected := "row matching the compiled column layout"
        actual := s!"{r.width} columns, expected {l.width}" } := by
  unfold checkWidth
  split <;> simp_all [eq_comm]

/-- Decoding fails at the first row that does not fit. -/
theorem exists_of_decodeAll_eq_error {l : Layout} {rows : List Row} {e : TypeError}
    (h : l.decodeAll rows = .error e) :
    ∃ before r after, rows = before ++ r :: after ∧ (∀ b ∈ before, b.width = l.width) ∧
      l.checkWidth r = .error e := by
  cases rows with
  | nil => cases h
  | cons first rest =>
    -- the names are taken from the first row, so only a width can be wrong
    obtain ⟨before, r, after, hrows, hbefore, he⟩ := exists_of_mapM_eq_error h
    refine ⟨before, r, after, hrows, fun b hb => ?_, ?_⟩
    · obtain ⟨d, hd⟩ := hbefore b hb
      obtain ⟨_, hwidth, -⟩ := map_eq_ok.1 hd
      unfold checkWidth at hwidth
      split at hwidth
      · assumption
      · cases hwidth
    · unfold decodeAs at he
      cases hwidth : l.checkWidth r with
      | ok =>
        rw [hwidth] at he
        cases he
      | error e' =>
        rw [hwidth] at he
        exact congrArg Except.error (Except.error.inj he)

end Layout

namespace Exchange

variable {x : Exchange ρ}

/-- Work that goes on after an exchange that stops it ends in the same state. -/
theorem Stops.bind {o : Outcome α ρ} (h : x.Stops o) {y : Session σ ρ α} {s s' : σ}
    (hy : y s = (o, s')) (f : α → Session σ ρ β) : ∃ o', (y >>= f) s = (o', s') ∧ x.Stops o' := by
  have hbind : (y >>= f) s = Session.bind y f s := rfl
  rw [hbind, Session.bind, hy]
  cases h with
  | err h => exact ⟨_, rfl, .err h⟩
  | cancelled h => exact ⟨_, rfl, .cancelled h⟩
  | panicked h => exact ⟨_, rfl, .panicked h⟩
  | width h fit misfit => exact ⟨_, rfl, .width h fit misfit⟩

end Exchange

/-- Work that goes on after an exchange that stops it ends the same way. -/
theorem CompiledQuery.Stopped.bind {q : CompiledQuery} {xs : List (Exchange ρ)} {o : Outcome α ρ}
    (h : q.Stopped xs o) {y : Session σ ρ α} {s s' : σ} (hy : y s = (o, s'))
    (f : α → Session σ ρ β) : ∃ o', (y >>= f) s = (o', s') ∧ q.Stopped xs o' := by
  cases h with
  | base hroot stops =>
    obtain ⟨o', ho', hstops⟩ := stops.bind hy f
    exact ⟨o', ho', .base hroot hstops⟩
  | asked before decoded keys rendered stops =>
    obtain ⟨o', ho', hstops⟩ := stops.bind hy f
    exact ⟨o', ho', .asked before decoded keys rendered hstops⟩

/-- A session goes on with what it has got. -/
theorem Session.bind_of_ok {y : Session σ ρ α} {f : α → Session σ ρ β} {s s' : σ} {a : α}
    (hy : y s = (.ok a, s')) : (y >>= f) s = f a s' := by
  have hbind : (y >>= f) s = Session.bind y f s := rfl
  rw [hbind, Session.bind, hy]

/-- A statement that runs yields rows or stops the work. -/
theorem CompiledStatement.run_cases (c : Connection σ ρ) (t : CompiledStatement) (s : σ) :
    ∃ (x : Exchange ρ) (s' : σ), x.statement = t ∧ c.query t.text s = (x.answer, s') ∧
      ((∃ ds, x.Yields ds ∧ t.run c s = (.ok ds, s')) ∨ ∃ o, x.Stops o ∧ t.run c s = (o, s')) := by
  obtain ⟨answer, s', hquery⟩ : ∃ answer s', c.query t.text s = (answer, s') := ⟨_, _, rfl⟩
  refine ⟨⟨t, answer⟩, s', rfl, hquery, ?_⟩
  have hrun : t.run c s = Session.bind (c.query t.text) (fun rows =>
    Session.ofExcept ((t.layout.decodeAll rows).mapError .type)) s := rfl
  rw [hrun, Session.bind, hquery]
  cases answer with
  | err e => exact .inr ⟨_, .err rfl, rfl⟩
  | cancelledBy r => exact .inr ⟨_, .cancelled rfl, rfl⟩
  | panicked m => exact .inr ⟨_, .panicked rfl, rfl⟩
  | ok rows =>
    cases hdecode : t.layout.decodeAll rows with
    | ok ds =>
      refine .inl ⟨ds, ⟨rows, rfl, hdecode⟩, ?_⟩
      simp only [hdecode]
      rfl
    | error e =>
      obtain ⟨before, r, after, rfl, hfit, hmisfit⟩ := Layout.exists_of_decodeAll_eq_error hdecode
      obtain ⟨hwidth, rfl⟩ := Layout.checkWidth_eq_error.1 hmisfit
      refine .inr ⟨_, .width rfl hfit hwidth, ?_⟩
      simp only [hdecode]
      rfl

/-! ## keys of attached rows -/

namespace PrefetchPlan

/-- Rows that are attached to the parents do not change their keys. -/
theorem parentKeys_bare (p : PrefetchPlan) (parents : List DecodedRow) :
    p.parentKeys (parents.map DecodedRow.bare) = p.parentKeys parents := by
  rw [parentKeys, parentKeys, List.filterMap_map]
  rfl

/-- Rows that are attached are not part of the parents themselves. -/
theorem bare_attachTo (p : PrefetchPlan) (parents rows : List DecodedRow) :
    (p.attachTo parents rows).map DecodedRow.bare = parents.map DecodedRow.bare := by
  rw [attachTo, DecodedRow.pair, List.map_map]
  rfl

end PrefetchPlan

/-! ## the walk along the plans -/

namespace PrefetchPlan

variable {c : Connection σ ρ} {q : CompiledQuery} {s₀ s : σ} {xs : List (Exchange ρ)}
  {done : List (Option (List DecodedRow))} {vs ws : List Visit}

/-- A part of a fetch, after the exchanges `xs` and the plans `done`.  Either it gets through, with
`vs` still to come, and `Good` holds of what it gives, of its exchanges and of the plans that it
has done; or an exchange stops it. -/
inductive Passes (c : Connection σ ρ) (q : CompiledQuery) (s₀ : σ) (xs : List (Exchange ρ))
    (done : List (Option (List DecodedRow))) (vs : List Visit)
    (Good : α → List (Exchange ρ) → List (Option (List DecodedRow)) → Prop) : Outcome α ρ × σ → Prop
  | through {a : α} {ys : List (Exchange ρ)} {more : List (Option (List DecodedRow))} {s : σ}
      (answered : Answered c s₀ (xs ++ ys) s) (course : q.Course (xs ++ ys) (done ++ more) vs)
      (good : Good a ys more) : Passes c q s₀ xs done vs Good (.ok a, s)
  | stopped {o : Outcome α ρ} {zs : List (Exchange ρ)} {s : σ} (answered : Answered c s₀ zs s)
      (stopped : q.Stopped zs o) : Passes c q s₀ xs done vs Good (o, s)

/-- What needs no exchange gets through. -/
theorem Passes.pure {a : α} {Good : α → List (Exchange ρ) → List (Option (List DecodedRow)) → Prop}
    (answered : Answered c s₀ xs s) (course : q.Course xs done vs) (good : Good a [] []) :
    Passes c q s₀ xs done vs Good ((return a : Session σ ρ α) s) :=
  .through (by rwa [List.append_nil]) (by rwa [List.append_nil, List.append_nil]) good

/-- Two parts of a fetch in a row get through if both do. -/
theorem Passes.bind {y : Session σ ρ α} {f : α → Session σ ρ β}
    {Good : α → List (Exchange ρ) → List (Option (List DecodedRow)) → Prop}
    {Good' : β → List (Exchange ρ) → List (Option (List DecodedRow)) → Prop}
    (h : Passes c q s₀ xs done ws Good (y s))
    (hf : ∀ a ys more s₁, Answered c s₀ (xs ++ ys) s₁ → q.Course (xs ++ ys) (done ++ more) ws →
      Good a ys more → Passes c q s₀ (xs ++ ys) (done ++ more) vs
        (fun b ys' more' => Good' b (ys ++ ys') (more ++ more')) (f a s₁)) :
    Passes c q s₀ xs done vs Good' ((y >>= f) s) := by
  generalize hy : y s = end_ at h
  -- what stopped before stays stopped, what went through goes on from where it is
  cases h with
  | @through a ys more s₁ answered course good =>
    rw [Session.bind_of_ok hy]
    have hrest := hf a ys more s₁ answered course good
    generalize f a s₁ = end_' at hrest
    cases hrest with
    | @through b ys' more' _ answered' course' good' =>
      rw [List.append_assoc] at answered' course'
      rw [List.append_assoc] at course'
      exact .through answered' course' good'
    | stopped answered' stopped' => exact .stopped answered' stopped'
  | stopped answered stopped =>
    obtain ⟨o', ho', hstopped⟩ := stopped.bind hy f
    rw [ho']
    exact .stopped answered hstopped

/-- Without keys nothing is asked. -/
theorem runFor_of_keyless {p : PrefetchPlan} {parents : List DecodedRow}
    (h : p.parentKeys parents = []) : p.runFor c parents = return ([], []) := by
  unfold runFor
  split
  · rfl
  · next hne => exact (hne h).elim

/-- With keys the one statement is run. -/
theorem runFor_of_render {p : PrefetchPlan} {parents : List DecodedRow} {t : CompiledStatement}
    (hkeys : p.parentKeys parents ≠ []) (h : p.render (p.parentKeys parents) = .ok t) :
    p.runFor c parents = (do
      let rows ← t.run c
      return (rows, [t])) := by
  unfold runFor
  split
  · next hnone => exact (hkeys hnone).elim
  · rw [h]
    rfl

/-- A visit gives the rows of its plan, none if the plan was left out. -/
theorem passes_runFor {parent : Nat} {p : PrefetchPlan} {o : Option (List DecodedRow)}
    {parents : List DecodedRow} (hp : p.Renders) (answered : Answered c s₀ xs s)
    (course : q.Course xs done (⟨parent, p⟩ :: vs)) (ho : done[parent]? = some o)
    (hparents : parents.map DecodedRow.bare = o.getD []) :
    Passes c q s₀ xs done vs (fun out ys more => out.2 = ys.map Exchange.statement ∧
      ∃ o', more = [o'] ∧ out.1.map DecodedRow.bare = o'.getD []) (p.runFor c parents s) := by
  have hkeys : p.parentKeys parents = p.parentKeys (o.getD []) := by
    rw [← hparents, parentKeys_bare]
  -- without keys the plan is passed over; with keys its statement is run, and that may end the
  -- fetch
  by_cases hnone : p.parentKeys (o.getD []) = []
  · have course' : q.Course (xs ++ []) (done ++ [none]) vs := by
      rw [List.append_nil]
      -- there are no keys either because the parents were not asked for or because they have none
      cases o with
      | none => exact .parentless course ho
      | some ds => exact .keyless course ho hnone
    rw [runFor_of_keyless (hkeys.trans hnone)]
    exact .through (by rwa [List.append_nil]) course' ⟨rfl, none, rfl, rfl⟩
  · obtain _ | ds := o
    · exact (hnone rfl).elim
    · obtain ⟨t, ht⟩ := hp (p.parentKeys ds)
      obtain ⟨x, s₁, rfl, hquery, hrun⟩ := CompiledStatement.run_cases c t s
      have hrender : p.render (p.parentKeys parents) = .ok x.statement := hkeys ▸ ht
      rw [runFor_of_render (hkeys.trans_ne hnone) hrender]
      rcases hrun with ⟨rows, yields, hrun⟩ | ⟨end_, stops, hrun⟩
      · have ⟨raw, _, hrows⟩ := yields
        rw [Session.bind_of_ok hrun]
        exact .through (.next answered hquery) (.asked course ho hnone ht yields)
          ⟨rfl, some rows, rfl, DecodedRow.bare_of_decodeAll hrows⟩
      · obtain ⟨end', hend, hstops⟩ := stops.bind hrun fun rows =>
          (return (rows, [x.statement]) : Session σ ρ (List DecodedRow × List CompiledStatement))
        rw [hend]
        exact .stopped (.next answered hquery) (.asked course ho hnone ht hstops)

/-- A plan asks for its rows, then for those of the plans below, and attaches them. -/
theorem fetch_eq (p : PrefetchPlan) (parents : List DecodedRow) :
    fetch c p parents = (do
      let (rows, ran) ← p.runFor c parents
      let (rows, ranBelow) ← fetchEach c p.children rows
      return (p.attachTo parents rows, ran ++ ranBelow)) := by
  cases p
  rfl

/-- Plans with the same parents are visited one after the other, each with those below it. -/
theorem passes_fetchEach {ns : List ChainNode} {ps : List PrefetchPlan}
    (h : Each (fun _ p => p.Renders) ns ps) {parent : Nat} {o : Option (List DecodedRow)}
    {parents : List DecodedRow} (answered : Answered c s₀ xs s)
    (course : q.Course xs done (visitsAll parent done.length ps ++ vs))
    (ho : done[parent]? = some o) (hparents : parents.map DecodedRow.bare = o.getD []) :
    Passes c q s₀ xs done vs (fun out ys more => out.2 = ys.map Exchange.statement ∧
      more.length = statementCountAll ps ∧ out.1.map DecodedRow.bare = o.getD [])
      (fetchEach c ps parents s) := by
  induction h generalizing xs done vs s parent o parents with
  | nil => exact .pure answered course ⟨rfl, rfl, hparents⟩
  | @cons n p ns ps own below others ihBelow ihOthers =>
    rw [visitsAll, visits_eq, List.cons_append, List.cons_append, List.append_assoc] at course
    have hfetch : Passes c q s₀ xs done (visitsAll parent (done.length + p.statementCount) ps ++ vs)
        (fun out ys more => out.2 = ys.map Exchange.statement ∧
          more.length = p.statementCount ∧ out.1.map DecodedRow.bare = o.getD [])
        (fetch c p parents s) := by
      rw [fetch_eq]
      refine (passes_runFor own answered course ho hparents).bind ?_
      rintro ⟨rows, ran⟩ ys _ s₁ answered₁ course₁ ⟨rfl, o', rfl, hrows⟩
      -- the plan has its place behind those that are done, and those below it follow
      have hnext : (done ++ [o']).length = done.length + 1 := List.length_append
      rw [← hnext] at course₁
      refine (ihBelow answered₁ course₁ List.getElem?_concat_length hrows).bind ?_
      rintro ⟨rows', ran'⟩ ys' more s₂ answered₂ course₂ ⟨rfl, hlength, -⟩
      refine .pure answered₂ course₂ ⟨?_, ?_, ?_⟩
      · simp
      · simp [statementCount_eq, hlength, Nat.add_comm]
      · rw [bare_attachTo, hparents]
    refine hfetch.bind ?_
    rintro ⟨parents', ran⟩ ys more s₁ answered₁ course₁ ⟨rfl, hlength, hparents'⟩
    rw [← hlength, ← List.length_append] at course₁
    have ho' : (done ++ more)[parent]? = some o := by
      rw [List.getElem?_append_left (List.getElem?_eq_some_iff.1 ho).1, ho]
    refine (ihOthers answered₁ course₁ ho' hparents').bind ?_
    rintro ⟨parents'', ran'⟩ ys' more' s₂ answered₂ course₂ ⟨rfl, hlength', hparents''⟩
    refine .pure answered₂ course₂ ⟨?_, ?_, ?_⟩
    · simp
    · simp [statementCountAll, hlength, hlength']
    · exact hparents''

end PrefetchPlan

/-! ## recorded statements -/

/-- The connection, with a record of the statements that it is asked. -/
def Connection.recorded (c : Connection σ ρ) : Connection (σ × List BoundSql) ρ where
  query statement := fun (s, asked) =>
    let (answer, s') := c.query statement s
    (answer, s', asked ++ [statement])

/-- The record holds the statements of all exchanges. -/
theorem Answered.of_recorded {c : Connection σ ρ} {s : σ × List BoundSql} {xs : List (Exchange ρ)}
    {s' : σ × List BoundSql} (h : Answered c.recorded s xs s') :
    Answered c s.1 xs s'.1 ∧ s'.2 = s.2 ++ xs.map fun x => x.statement.text := by
  induction h with
  | start => exact ⟨.start, (List.append_nil _).symm⟩
  | @next xs s₁ s' x _ hquery ih =>
    obtain ⟨answered, hasked⟩ := ih
    obtain ⟨hanswer, rfl⟩ := Prod.mk.inj hquery
    refine ⟨.next answered (Prod.ext hanswer rfl), ?_⟩
    rw [hasked, List.map_append, List.append_assoc]
    rfl

/-- Both sessions do the same; the second keeps a record. -/
def Session.Recorded (x : Session σ ρ α) (y : Session (σ × List BoundSql) ρ α) : Prop :=
  ∀ s, x s.1 = ((y s).1, (y s).2.1)

namespace Session

/-- Sessions that do the same may go on with what does the same. -/
theorem Recorded.bind {x : Session σ ρ α} {y : Session (σ × List BoundSql) ρ α}
    {f : α → Session σ ρ β} {g : α → Session (σ × List BoundSql) ρ β} (h : Recorded x y)
    (hf : ∀ a, Recorded (f a) (g a)) : Recorded (x >>= f) (y >>= g) := by
  intro s
  change Session.bind x f s.1 = ((Session.bind y g s).1, (Session.bind y g s).2.1)
  rw [Session.bind, Session.bind, h s]
  obtain ⟨end_, s₁⟩ := y s
  cases end_ with
  | ok a => exact hf a s₁
  | err | cancelledBy | panicked => rfl

theorem recorded_pure (a : α) :
    Recorded (return a : Session σ ρ α) (return a : Session (σ × List BoundSql) ρ α) := fun _ => rfl

/-- What is no question is not recorded. -/
theorem recorded_ofExcept (x : Except Error α) :
    Recorded (ofExcept x : Session σ ρ α) (ofExcept x) := by
  cases x <;> exact fun _ => rfl

end Session

open Session (Recorded recorded_pure recorded_ofExcept)

/-- A statement runs in the same way with a record. -/
theorem CompiledStatement.recorded_run (c : Connection σ ρ) (t : CompiledStatement) :
    Recorded (t.run c) (t.run c.recorded) :=
  Recorded.bind (fun _ => rfl) fun _ => recorded_ofExcept _

namespace PrefetchPlan

/-- A plan runs in the same way with a record. -/
theorem recorded_runFor (c : Connection σ ρ) (p : PrefetchPlan) (parents : List DecodedRow) :
    Recorded (p.runFor c parents) (p.runFor c.recorded parents) := by
  unfold runFor
  split
  · exact recorded_pure _
  · exact (recorded_ofExcept _).bind fun t => (t.recorded_run c).bind fun _ => recorded_pure _

mutual

/-- A plan is fetched in the same way with a record. -/
theorem recorded_fetch (c : Connection σ ρ) : (p : PrefetchPlan) → (parents : List DecodedRow) →
    Recorded (fetch c p parents) (fetch c.recorded p parents)
  | ⟨_, _, _, _, _, _, children⟩, parents => by
    rw [fetch, fetch]
    exact (recorded_runFor c _ parents).bind fun out =>
      (recorded_fetchEach c children out.1).bind fun _ => recorded_pure _

theorem recorded_fetchEach (c : Connection σ ρ) :
    (ps : List PrefetchPlan) → (parents : List DecodedRow) →
    Recorded (fetchEach c ps parents) (fetchEach c.recorded ps parents)
  | [], parents => recorded_pure _
  | p :: ps, parents => by
    rw [fetchEach, fetchEach]
    exact (recorded_fetch c p parents).bind fun out =>
      (recorded_fetchEach c ps out.1).bind fun _ => recorded_pure _

end

end PrefetchPlan

/-- A fetch does the same on a connection that keeps a record. -/
theorem CompiledQuery.recorded_fetch (c : Connection σ ρ) (q : CompiledQuery) :
    Recorded (q.fetch c) (q.fetch c.recorded) :=
  (q.root.recorded_run c).bind fun rows =>
    (PrefetchPlan.recorded_fetchEach c q.prefetches rows).bind fun _ => recorded_pure _

/-! ## fetches -/

/-- A fetch gets through all visits, or an exchange stops it. -/
theorem CompiledQuery.course_of_fetch {q : CompiledQuery} {ns : List ChainNode}
    (h : PrefetchPlan.Each (fun _ p => p.Renders) ns q.prefetches) (c : Connection σ ρ) (s : σ) :
    ∃ xs out s', q.fetch c s = (out, s') ∧ Answered c s xs s' ∧
      ((∃ done f, q.Course xs done [] ∧ out = .ok f ∧ f.statements = xs.map Exchange.statement) ∨
        q.Stopped xs out) := by
  -- the root statement comes first; if its rows can be decoded, the plans follow in the order of
  -- `visitsAll`
  obtain ⟨x, s₁, hroot, hquery, ⟨rows, yields, hrun⟩ | ⟨end_, stops, hrun⟩⟩ :=
    q.root.run_cases c s
  · have answered : Answered c s [x] s₁ := .next .start (hroot ▸ hquery)
    have course : q.Course [x] [some rows] (PrefetchPlan.visitsAll 0 1 q.prefetches ++ []) := by
      rw [List.append_nil]
      exact .base hroot yields
    have ⟨raw, _, hrows⟩ := yields
    have hfetch : PrefetchPlan.Passes c q s [x] [some rows] []
        (fun f ys _ => f.statements = q.root :: ys.map Exchange.statement) (q.fetch c s) := by
      rw [fetch, Session.bind_of_ok hrun]
      refine (PrefetchPlan.passes_fetchEach h answered course rfl
        (DecodedRow.bare_of_decodeAll hrows)).bind ?_
      rintro ⟨rows', ran⟩ ys more s₂ answered₂ course₂ ⟨rfl, -, -⟩
      exact .pure answered₂ course₂ (by rw [List.append_nil])
    generalize q.fetch c s = end_ at hfetch
    cases hfetch with
    | through answered course good =>
      exact ⟨_, _, _, rfl, answered, .inl ⟨_, _, course, rfl, by rw [good, ← hroot]; rfl⟩⟩
    | stopped answered stopped => exact ⟨_, _, _, rfl, answered, .inr stopped⟩
  · have answered : Answered c s [x] s₁ := .next .start (hroot ▸ hquery)
    obtain ⟨out, hout, hstops⟩ := stops.bind hrun fun rows => do
      let (rows, ran) ← PrefetchPlan.fetchEach c q.prefetches rows
      return (⟨rows, q.root :: ran⟩ : Fetched)
    exact ⟨[x], out, s₁, hout, answered, .inr (.base hroot hstops)⟩

/-- A fetch of a compiled query asks for one statement after the other, and no other, until it is
through or the first answer that is no rows, or no rows of the layout, stops it. -/
theorem Request.fetch_course {r : Request} {config : Config} {q : CompiledQuery}
    (h : r.compile config = .ok q) (c : Connection σ ρ) (s : σ) :
    ∃ xs out s', q.fetch c s = (out, s') ∧ Answered c s xs s' ∧
      q.fetch c.recorded (s, []) = (out, s', xs.map fun x => x.statement.text) ∧
      ((∃ done f, q.Course xs done [] ∧ out = .ok f ∧ f.statements = xs.map Exchange.statement) ∨
        q.Stopped xs out) := by
  obtain ⟨xs, out, ⟨s', asked⟩, hfetch, answered, hends⟩ :=
    CompiledQuery.course_of_fetch ((each_of_compile h).imp fun _ _ hp => hp.renders)
      c.recorded (s, [])
  obtain ⟨hanswered, rfl⟩ := answered.of_recorded
  have hsame := CompiledQuery.recorded_fetch c q (s, [])
  rw [hfetch] at hsame
  exact ⟨xs, out, s', hsame, hanswered, hfetch, hends⟩

/-- An exchange that stops the work leaves no result. -/
theorem Exchange.not_stops_ok {x : Exchange ρ} {a : α} : ¬x.Stops (.ok a) := nofun

/-- A fetch with a result was not stopped. -/
theorem CompiledQuery.not_stopped_ok {q : CompiledQuery} {xs : List (Exchange ρ)} {a : α} :
    ¬q.Stopped xs (.ok a) := by
  intro h
  cases h with
  | base _ stops => exact Exchange.not_stops_ok stops
  | asked _ _ _ _ stops => exact Exchange.not_stops_ok stops

/-- What the statements of a fetch bind, and the state it leaves. -/
theorem Library.fetches_request :
    (Library.request.compile.toOption.bind fun q =>
      match q.fetch Library.connection 0 with
      | (.ok f, s') => some (f.statements.map fun t => t.text.params, s')
      | _ => none) = some ([[], [.int 1]], 2) := by decide +kernel

/-- The chapters of the book are asked for with its number, and the connection has one. -/
theorem Request.fetch_course_library :
    ∃ (q : CompiledQuery) (f : Fetched) (x₁ x₂ : Exchange Unit)
      (done : List (Option (List DecodedRow))), Library.request.compile = .ok q ∧
      q.fetch Library.connection 0 = (.ok f, 2) ∧ Answered Library.connection 0 [x₁, x₂] 2 ∧
      q.Course [x₁, x₂] done [] ∧ f.statements = [x₁.statement, x₂.statement] ∧
      x₂.statement.text.params = [.int 1] ∧
      x₂.answer =
        .ok [⟨["id", "bookId", "__sqlassoc_key_0"], [.bigInt 4, .bigInt 1, .bigInt 1]⟩] := by
  obtain ⟨q, hq⟩ := Library.exists_compile
  obtain ⟨xs, out, s', hfetch, answered, -, hends⟩ := fetch_course hq Library.connection 0
  have hruns := Library.fetches_request
  rw [hq, Except.toOption, Option.bind_some, hfetch] at hruns
  -- the run has a result, which a fetch that was stopped has not
  rcases hends with ⟨done, f, course, rfl, hstatements⟩ | stopped
  · obtain ⟨hparams, rfl⟩ := Prod.mk.inj (Option.some.inj hruns)
    rw [hstatements, List.map_map] at hparams
    obtain ⟨x₁, ys, rfl, -, hys⟩ := List.map_eq_cons_iff.1 hparams
    obtain ⟨x₂, rfl, hx₂⟩ := List.map_eq_singleton_iff.1 hys
    have hboth : Answered Library.connection 0 ([x₁] ++ [x₂]) 2 := answered
    obtain ⟨s₁, before, hsecond⟩ := answered_concat_iff.1 hboth
    have hone : Answered Library.connection 0 ([] ++ [x₁]) s₁ := before
    obtain ⟨s₀, hstart, hfirst⟩ := answered_concat_iff.1 hone
    obtain rfl := answered_nil_iff.1 hstart
    obtain ⟨-, rfl⟩ := Prod.mk.inj hfirst
    have hanswer := (Prod.mk.inj hsecond).1
    exact ⟨q, f, x₁, x₂, done, hq, hfetch, answered, course, hstatements, hx₂, hanswer.symm⟩
  · cases out with
    | ok f => exact absurd stopped CompiledQuery.not_stopped_ok
    | err | cancelledBy | panicked => cases hruns

end AssociationQuery
