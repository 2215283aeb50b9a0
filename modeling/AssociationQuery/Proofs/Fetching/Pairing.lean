import AssociationQuery.Fetch
import AssociationQuery.Proofs.Placeholders.Values
import AssociationQuery.Proofs.Planning.Places
import AssociationQuery.Proofs.Planning.Plans
import AssociationQuery.Proofs.Session

/-!
# AssociationQuery.Proofs.Fetching.Pairing

Which rows a fetch attaches to which parents.

`PrefetchPlan.Paired` describes a fetch by its result: at every level each parent
holds, at the place of each plan, exactly those rows of the plan's statement that
have the parent's key, and these rows are complete themselves.  The statement was
asked with the first of each of the parents' keys, in the state that the
statements before have left; without a key it was not asked at all.
-/

namespace AssociationQuery

variable {σ ρ : Type}

/-! ## statements -/

/-- A statement has run if its text was answered and the answer could be decoded. -/
theorem CompiledStatement.run_eq_ok {c : Connection σ ρ} {t : CompiledStatement}
    {rows : List DecodedRow} {s s' : σ} :
    t.run c s = (.ok rows, s') ↔
      ∃ raw, c.query t.text s = (.ok raw, s') ∧ t.layout.decodeAll raw = .ok rows := by
  simp only [run, Session.bind_eq_ok, Session.ofExcept_eq_ok, mapError_eq_ok]
  constructor
  · intro h
    obtain ⟨raw, _, hraw, hrows, rfl⟩ := h
    exact ⟨raw, hraw, hrows⟩
  · intro h
    obtain ⟨raw, hraw, hrows⟩ := h
    exact ⟨raw, s', hraw, hrows, rfl⟩

/-! ## keys -/

open DecodedRow (keyOf)

/-- The first of each of the keys among some tuples, in their order; tuples with NULL in them
are none. -/
structure FirstOfEach (tuples keys : List (List Value)) : Prop where
  distinct : keys.map keyOf = (tuples.filterMap keyOf).eraseDups.map some
  first : ∀ k ∈ keys, tuples.find? (fun t => keyOf t == keyOf k) = some k

namespace PrefetchPlan

/-- Tuples with their keys, as far as they have one. -/
def keyed (tuples : List (List Value)) : List (List ValueKey × List Value) :=
  tuples.filterMap fun t => (keyOf t).map fun key => (key, t)

/-- A tuple with a NULL in it has no key. -/
theorem keyed_cons_of_none {t : List Value} (h : keyOf t = none) (ts : List (List Value)) :
    keyed (t :: ts) = keyed ts := by simp [keyed, h]

/-- A tuple with a key stands under it. -/
theorem keyed_cons_of_some {t : List Value} {key : List ValueKey} (h : keyOf t = some key)
    (ts : List (List Value)) : keyed (t :: ts) = (key, t) :: keyed ts := by simp [keyed, h]

/-- The keys that are found are the ones not seen yet, each once. -/
theorem keyOf_firstOfEach (seen : List (List ValueKey)) (tuples : List (List Value)) :
    (firstOfEach seen (keyed tuples)).map keyOf =
      ((tuples.filterMap keyOf).filter (fun key => !seen.contains key)).eraseDups.map some := by
  -- with any keys seen so far, since the key of a tuple counts as seen behind it
  induction tuples generalizing seen with
  | nil => rfl
  | cons t ts ih =>
    cases hkey : keyOf t with
    | none => rw [keyed_cons_of_none hkey, List.filterMap_cons_none hkey, ih]
    | some key =>
      rw [keyed_cons_of_some hkey, List.filterMap_cons_some hkey, firstOfEach]
      by_cases hseen : seen.contains key
      · rw [if_pos hseen, List.filter_cons_of_neg (by simpa using hseen), ih]
      · rw [if_neg hseen, List.filter_cons_of_pos (by simpa using hseen), List.eraseDups_cons,
          List.map_cons, List.map_cons, ih, hkey, List.filter_filter]
        have hfilter : (fun k => !(key :: seen).contains k) =
            fun k => !(k == key) && !seen.contains k := by
          funext k
          rw [List.contains_cons, Bool.not_or]
        rw [hfilter]

/-- A tuple with another key is passed over. -/
theorem find?_cons_of_keyOf_ne {t k : List Value} (hne : keyOf k ≠ keyOf t)
    (ts : List (List Value)) :
    (t :: ts).find? (fun t => keyOf t == keyOf k) = ts.find? (fun t => keyOf t == keyOf k) := by
  apply List.find?_cons_of_neg
  intro heq
  exact hne (beq_iff_eq.1 heq).symm

/-- Every tuple that is found is the first of its key. -/
theorem find?_firstOfEach (seen : List (List ValueKey)) (tuples : List (List Value)) :
    ∀ k ∈ firstOfEach seen (keyed tuples), (∀ key ∈ seen, keyOf k ≠ some key) ∧
      (keyOf k).isSome ∧ tuples.find? (fun t => keyOf t == keyOf k) = some k := by
  -- with any keys seen so far, since the key of a tuple counts as seen behind it
  induction tuples generalizing seen with
  | nil => simp [keyed, firstOfEach]
  | cons t ts ih =>
    intro k hk
    cases hkey : keyOf t with
    | none =>
      obtain ⟨hnew, hsome, hfirst⟩ := ih seen k (keyed_cons_of_none hkey ts ▸ hk)
      have hne : keyOf k ≠ keyOf t := by
        intro heq
        simp [heq, hkey] at hsome
      exact ⟨hnew, hsome, (find?_cons_of_keyOf_ne hne ts).trans hfirst⟩
    | some key =>
      rw [keyed_cons_of_some hkey, firstOfEach] at hk
      by_cases hseen : seen.contains key
      · rw [if_pos hseen] at hk
        obtain ⟨hnew, hsome, hfirst⟩ := ih seen k hk
        have hne : keyOf k ≠ keyOf t := hkey ▸ hnew key (by simpa using hseen)
        exact ⟨hnew, hsome, (find?_cons_of_keyOf_ne hne ts).trans hfirst⟩
      · rw [if_neg hseen] at hk
        rcases List.mem_cons.1 hk with rfl | hk
        · have hnew : ∀ key' ∈ seen, keyOf k ≠ some key' := by
            intro key' hkey' heq
            obtain rfl : key = key' := by simpa [hkey] using heq
            exact hseen (by simpa using hkey')
          exact ⟨hnew, by simp [hkey], by simp⟩
        · obtain ⟨hnew, hsome, hfirst⟩ := ih (key :: seen) k hk
          obtain ⟨hne, hold⟩ := List.forall_mem_cons.1 hnew
          exact ⟨hold, hsome, (find?_cons_of_keyOf_ne (hkey ▸ hne) ts).trans hfirst⟩

/-- The keys of parent rows are the first of each of their keys. -/
theorem firstOfEach_parentKeys (p : PrefetchPlan) (parents : List DecodedRow) :
    FirstOfEach (parents.map fun d => d.valuesAt p.parentKeyColumns) (p.parentKeys parents) := by
  have hkeys : p.parentKeys parents =
      firstOfEach [] (keyed (parents.map fun d => d.valuesAt p.parentKeyColumns)) := by
    rw [parentKeys, keyed, List.filterMap_map]
    rfl
  rw [hkeys]
  exact ⟨by rw [keyOf_firstOfEach]; simp, fun k hk => (find?_firstOfEach _ _ k hk).2.2⟩

end PrefetchPlan

/-! ## attached rows -/

/-- What holds of the second of each pair holds of all second ones. -/
theorem forall_of_forall₂ {P : β → Prop} {xs : List α} {ys : List β}
    (h : List.Forall₂ (fun _ y => P y) xs ys) : ∀ y ∈ ys, P y := by
  induction h with
  | nil => simp
  | cons hy _ ih => exact List.forall_mem_cons.2 ⟨hy, ih⟩

namespace DecodedRow

/-- The row as it was decoded, with nothing attached. -/
def bare (d : DecodedRow) : DecodedRow := { d with prefetched := [] }

/-- Nothing has changed but what is attached at the given places. -/
structure SameBut (places : List (Nat × String)) (d d' : DecodedRow) : Prop where
  bare : d'.bare = d.bare
  others : ∀ m, m ∉ places → d'.prefetched.lookup m = d.prefetched.lookup m

/-- Attached rows are not among the values of a row. -/
theorem SameBut.valuesAt_eq {places : List (Nat × String)} {d d' : DecodedRow}
    (h : d.SameBut places d') (columns : List Nat) :
    d'.valuesAt columns = d.valuesAt columns :=
  congrArg (fun d => d.valuesAt columns) h.bare

/-- What does not change when rows are attached does not change for several rows. -/
theorem map_eq_of_sameBut {places : List (Nat × String)} {f : DecodedRow → α}
    (hf : ∀ {d d' : DecodedRow}, d.SameBut places d' → f d' = f d) {ds ds' : List DecodedRow}
    (h : List.Forall₂ (SameBut places) ds ds') : ds'.map f = ds.map f := by
  induction h with
  | nil => rfl
  | cons hd _ ih => rw [List.map_cons, List.map_cons, hf hd, ih]

/-- What two steps attach, they attach together. -/
theorem SameBut.trans {ms ns : List (Nat × String)} {d₁ d₂ d₃ : DecodedRow}
    (h : d₁.SameBut ms d₂) (h' : d₂.SameBut ns d₃) : d₁.SameBut (ms ++ ns) d₃ where
  bare := h'.bare.trans h.bare
  others m hm := by
    rw [List.mem_append, not_or] at hm
    rw [h'.others m hm.2, h.others m hm.1]

/-- Attaching rows changes what is attached at that place, nothing else. -/
theorem sameBut_attach (d : DecodedRow) (scope : Nat) (name : String) (rows : List DecodedRow) :
    d.SameBut [(scope, name)] (d.attach scope name rows) := by
  have hothers : ∀ m, m ∉ [(scope, name)] →
      (d.attach scope name rows).prefetched.lookup m = d.prefetched.lookup m := by
    intro m hm
    have hne : (m == (scope, name)) = false := by simpa using hm
    rw [attach, List.lookup_cons, hne]
  exact ⟨rfl, hothers⟩

/-- Decoded rows come with nothing attached. -/
theorem bare_of_decodeAll {l : Layout} {raw : List Row} {rows : List DecodedRow}
    (h : l.decodeAll raw = .ok rows) : rows.map bare = rows := by
  cases raw with
  | nil =>
    obtain rfl : [] = rows := by simpa [Layout.decodeAll] using h
    rfl
  | cons first rest =>
    have hall := mapM_eq_ok.1 h
    have hbare : ∀ d ∈ rows, d.bare = id d := by
      intro d hd
      have hmem : (.ok d : Except TypeError DecodedRow) ∈ rows.map .ok := List.mem_map_of_mem hd
      rw [← hall] at hmem
      obtain ⟨r, -, hr⟩ := List.mem_map.1 hmem
      obtain ⟨_, -, rfl⟩ := map_eq_ok.1 hr
      rfl
    exact (List.map_congr_left hbare).trans (List.map_id rows)

/-- A tuple has no key exactly if there is a NULL in it. -/
theorem keyOf_eq_none_iff {values : List Value} : keyOf values = none ↔ .null ∈ values := by
  induction values with
  | nil => simp [keyOf]
  | cons v vs ih =>
    rw [keyOf, List.mapM_cons, ← keyOf, List.mem_cons, ← ih]
    cases hv : v.key with
    | none =>
      rw [Value.key_eq_none_iff] at hv
      simp [hv]
    | some key =>
      have hne : .null ≠ v := by
        intro heq
        subst heq
        cases hv
      cases keyOf vs <;> simp [hne]

end DecodedRow

namespace PrefetchPlan

/-- Does a row of the plan have the key of the parent?  Without a key none does. -/
def belongs (p : PrefetchPlan) (parent row : DecodedRow) : Bool :=
  row.pairingKey.isSome && row.pairingKey == keyOf (parent.valuesAt p.parentKeyColumns)

/-- The rows that are found for a parent are those that belong to it. -/
theorem matching_eq (p : PrefetchPlan) (parent : DecodedRow) (rows : List DecodedRow) :
    DecodedRow.matching rows (keyOf (parent.valuesAt p.parentKeyColumns)) =
      rows.filter (p.belongs parent) := by
  unfold DecodedRow.matching belongs
  split
  · next key hkey =>
    apply List.filter_congr
    intro row _
    cases row.pairingKey <;> simp [hkey]
  · next hkey =>
    symm
    rw [List.filter_eq_nil_iff]
    intro row _
    cases row.pairingKey <;> simp [hkey]

/-- The parent has an entry for the plan: the rows with its key. -/
structure Attached (p : PrefetchPlan) (rows : List DecodedRow) (parent : DecodedRow) : Prop where
  entry : parent.prefetched.lookup p.place = some (rows.filter (p.belongs parent))
  /-- A parent without a key has no rows. -/
  null : .null ∈ parent.valuesAt p.parentKeyColumns → parent.prefetched.lookup p.place = some []

/-- The bare rows with which the connection answers for the keys: none without a key.  The keys
are bound, part by part, between the values that the statement has of its own. -/
inductive Answer (c : Connection σ ρ) (p : PrefetchPlan) (keys : List (List Value)) :
    List DecodedRow → σ → σ → Prop where
  | skipped {s : σ} (h : keys = []) : Answer c p keys [] s s
  | asked {t : CompiledStatement} {raw : List Row} {rows : List DecodedRow} {s s' : σ}
      (h : keys ≠ []) (rendered : p.render keys = .ok t)
      (bound : t.text.params = p.statement.exprsBefore.flatMap Expr.values ++ keys.flatten ++
        p.statement.exprsAfter.flatMap Expr.values)
      (answered : c.query t.text s = (.ok raw, s')) (decoded : t.layout.decodeAll raw = .ok rows) :
      Answer c p keys rows s s'

mutual

/-- The rows are the complete rows of the plan for the parents, fetched from one state of the
connection to another. -/
def Delivers (c : Connection σ ρ) :
    PrefetchPlan → List DecodedRow → List DecodedRow → σ → σ → Prop
  | ⟨name, parentScope, parentKeyColumns, dialect, statement, layout, children⟩,
      parents, rows, s, s' =>
    ∃ keys s₁, FirstOfEach (parents.map fun d => d.valuesAt parentKeyColumns) keys ∧
      Answer c ⟨name, parentScope, parentKeyColumns, dialect, statement, layout, children⟩ keys
        (rows.map DecodedRow.bare) s s₁ ∧
      Paired c children rows s₁ s'

/-- Each parent has the rows of each plan, fetched from one state of the connection to
another, one plan after the other. -/
def Paired (c : Connection σ ρ) : List PrefetchPlan → List DecodedRow → σ → σ → Prop
  | [], _, s, s' => s = s'
  | p :: ps, parents, s, s' =>
    ∃ rows s₁, Delivers c p parents rows s s₁ ∧ (∀ d ∈ parents, p.Attached rows d) ∧
      Paired c ps parents s₁ s'

end

/-- What a plan delivers, taken apart: its keys, the answer to its statement and what the plans
below attach. -/
theorem delivers_iff {c : Connection σ ρ} {p : PrefetchPlan} {parents rows : List DecodedRow}
    {s s' : σ} :
    Delivers c p parents rows s s' ↔
      ∃ keys s₁, FirstOfEach (parents.map fun d => d.valuesAt p.parentKeyColumns) keys ∧
        Answer c p keys (rows.map DecodedRow.bare) s s₁ ∧ Paired c p.children rows s₁ s' := by
  cases p
  rw [Delivers]

/-! ## fetching -/

variable {c : Connection σ ρ} {s s' : σ}

/-- A statement with a condition on its keys binds them. -/
theorem params_render {p : PrefetchPlan} (hp : p.statement.keyFilter.isSome)
    {keys : List (List Value)} {t : CompiledStatement} (h : p.render keys = .ok t) :
    t.text.params = p.statement.exprsBefore.flatMap Expr.values ++ keys.flatten ++
      p.statement.exprsAfter.flatMap Expr.values := by
  simp only [render, Statement.bind, bind_eq_ok, pure_eq_ok] at h
  obtain ⟨_, ⟨ts, hts, rfl⟩, rfl⟩ := h
  have hvalues := Statement.params_render hts
  rwa [Statement.values, if_pos hp] at hvalues

/-- A plan that has run was answered for the keys of its parents. -/
theorem answer_of_runFor {p : PrefetchPlan} (hp : p.statement.keyFilter.isSome)
    {parents rows : List DecodedRow} {ran : List CompiledStatement}
    (h : p.runFor c parents s = (.ok (rows, ran), s')) :
    Answer c p (p.parentKeys parents) rows s s' := by
  cases hkeys : p.parentKeys parents with
  | nil =>
    simp only [runFor, hkeys, Session.pure_eq_ok, Prod.mk.injEq] at h
    obtain ⟨⟨rfl, -⟩, rfl⟩ := h
    exact .skipped rfl
  | cons k ks =>
    simp only [runFor, hkeys, Session.bind_eq_ok, Session.ofExcept_eq_ok, mapError_eq_ok,
      CompiledStatement.run_eq_ok, Session.pure_eq_ok, Prod.mk.injEq] at h
    obtain ⟨t, _, ⟨ht, rfl⟩, _, _, ⟨raw, hraw, hrows⟩, ⟨rfl, -⟩, rfl⟩ := h
    exact .asked (List.cons_ne_nil k ks) ht (params_render hp ht) hraw hrows

/-- The rows of an answer come with nothing attached. -/
theorem Answer.bare_eq {p : PrefetchPlan} {keys : List (List Value)} {rows : List DecodedRow}
    (h : Answer c p keys rows s s') : rows.map DecodedRow.bare = rows := by
  cases h with
  | skipped => rfl
  | asked _ _ _ _ hrows => exact DecodedRow.bare_of_decodeAll hrows

/-- The rows that are attached to a parent are those that belong to it, in their order. -/
theorem attached_attachTo (p : PrefetchPlan) (rows : List DecodedRow) (parent : DecodedRow) :
    p.Attached rows (parent.attach p.parentScope p.name
      (DecodedRow.matching rows (keyOf (parent.valuesAt p.parentKeyColumns)))) := by
  have hentry : (parent.attach p.parentScope p.name (DecodedRow.matching rows
      (keyOf (parent.valuesAt p.parentKeyColumns)))).prefetched.lookup p.place =
      some (rows.filter (p.belongs parent)) := by
    rw [DecodedRow.attach, matching_eq]
    exact List.lookup_cons_self
  have hnone (hnull : .null ∈ parent.valuesAt p.parentKeyColumns) :
      DecodedRow.matching rows (keyOf (parent.valuesAt p.parentKeyColumns)) = [] := by
    rw [DecodedRow.keyOf_eq_none_iff.2 hnull]
    rfl
  exact ⟨hentry, fun hnull => by rw [hentry, ← matching_eq, hnone hnull]⟩

/-- Entries stay when rows are attached elsewhere. -/
theorem Attached.of_sameBut {p : PrefetchPlan} {rows : List DecodedRow} {d d' : DecodedRow}
    {places : List (Nat × String)} (h : p.Attached rows d) (hd : d.SameBut places d')
    (hp : p.place ∉ places) : p.Attached rows d' := by
  have hbelongs : p.belongs d' = p.belongs d := by
    funext row
    rw [belongs, belongs, hd.valuesAt_eq]
  constructor
  · rw [hd.others _ hp, hbelongs]
    exact h.entry
  · rw [hd.others _ hp, hd.valuesAt_eq]
    exact h.null

/-- Rows that were attached to do not change the keys. -/
theorem Delivers.of_sameBut {p : PrefetchPlan} {parents parents' rows : List DecodedRow}
    {places : List (Nat × String)} (h : Delivers c p parents rows s s')
    (hparents : List.Forall₂ (DecodedRow.SameBut places) parents parents') :
    Delivers c p parents' rows s s' := by
  have hvalues := DecodedRow.map_eq_of_sameBut
    (f := fun d => d.valuesAt p.parentKeyColumns) (fun h => h.valuesAt_eq _) hparents
  rw [delivers_iff] at h ⊢
  rw [hvalues]
  exact h

mutual

/-- A plan that is fetched delivers its rows, which are then attached to the parents. -/
theorem delivers_of_fetch : (p : PrefetchPlan) → p.Distinct → p.statement.keyFilter.isSome →
    {ns : List ChainNode} → Each (fun _ p => p.statement.keyFilter.isSome) ns p.children →
    {parents out : List DecodedRow} → {ran : List CompiledStatement} → {s s' : σ} →
    fetch c p parents s = (.ok (out, ran), s') →
    ∃ rows, Delivers c p parents rows s s' ∧ out = p.attachTo parents rows
  | ⟨name, parentScope, parentKeyColumns, dialect, statement, layout, children⟩, hdistinct,
      hkeyed, ns, hkeyedBelow, parents, out, ran, s, s', h => by
    simp only [fetch, Session.bind_eq_ok, Session.pure_eq_ok, Prod.mk.injEq] at h
    obtain ⟨⟨bare, _⟩, s₁, hrun, ⟨rows, _⟩, _, hbelow, ⟨rfl, -⟩, rfl⟩ := h
    have hanswer := answer_of_runFor hkeyed hrun
    obtain ⟨hsame, hpaired⟩ :=
      paired_of_fetchEach children ((distinct_iff _).1 hdistinct) hkeyedBelow hbelow
    have hbare : rows.map DecodedRow.bare = bare := by
      rw [DecodedRow.map_eq_of_sameBut (fun h => h.bare) hsame, hanswer.bare_eq]
    exact ⟨rows, delivers_iff.2
      ⟨_, s₁, firstOfEach_parentKeys _ parents, hbare.symm ▸ hanswer, hpaired⟩, rfl⟩

/-- Plans that are fetched leave each parent with the rows of each plan. -/
theorem paired_of_fetchEach : (ps : List PrefetchPlan) → DistinctAll ps →
    {ns : List ChainNode} → Each (fun _ p => p.statement.keyFilter.isSome) ns ps →
    {parents out : List DecodedRow} → {ran : List CompiledStatement} → {s s' : σ} →
    fetchEach c ps parents s = (.ok (out, ran), s') →
    List.Forall₂ (DecodedRow.SameBut (ps.map place)) parents out ∧ Paired c ps out s s'
  | [], _, ns, _, parents, out, ran, s, s', h => by
    simp only [fetchEach, Session.pure_eq_ok, Prod.mk.injEq] at h
    obtain ⟨⟨rfl, -⟩, rfl⟩ := h
    exact ⟨List.forall₂_same.2 fun d _ => ⟨rfl, fun _ _ => rfl⟩, by rw [Paired]⟩
  | p :: ps, hdistinct, _, .cons hkeyed hkeyedBelow hkeyedOthers, parents, out, ran, s, s', h => by
    simp only [fetchEach, Session.bind_eq_ok, Session.pure_eq_ok, Prod.mk.injEq] at h
    obtain ⟨⟨_, _⟩, s₁, hp, ⟨out, _⟩, s₂, hps, ⟨rfl, -⟩, rfl⟩ := h
    rw [DistinctAll] at hdistinct
    obtain ⟨⟨hnew, hbelow⟩, hothers⟩ := hdistinct
    obtain ⟨rows, hdelivers, rfl⟩ := delivers_of_fetch p hbelow hkeyed hkeyedBelow hp
    -- later plans attach under other names, so they leave these rows as they are
    obtain ⟨hsame, hpaired⟩ := paired_of_fetchEach ps hothers hkeyedOthers hps
    rw [attachTo, DecodedRow.pair, List.forall₂_map_left_iff] at hsame
    have hall : List.Forall₂ (DecodedRow.SameBut ((p :: ps).map place)) parents out :=
      hsame.imp fun d d' hd => (DecodedRow.sameBut_attach d _ _ _).trans hd
    have hattached : List.Forall₂ (fun _ d' => p.Attached rows d') parents out :=
      hsame.imp fun d d' hd => (attached_attachTo p rows d).of_sameBut hd hnew
    rw [Paired]
    exact ⟨hall, rows, s₁, hdelivers.of_sameBut hall, forall_of_forall₂ hattached, hpaired⟩

end

end PrefetchPlan

/-- One book with its author, and then one chapter of it. -/
def Library.connection : Connection Nat where
  query _ n :=
    (.ok (if n = 0 then
      [⟨["id", "authorId", "id", "name"], [.int 1, .int 7, .int 7, .text "Herbert"]⟩]
    else [⟨["id", "bookId", "__sqlassoc_key_0"], [.bigInt 4, .bigInt 1, .bigInt 1]⟩]), n + 1)

end AssociationQuery
