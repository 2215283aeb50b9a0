import AssociationQuery.Proofs.Meaning.Existence

/-!
# AssociationQuery.Proofs.Meaning.Combinations

Which combinations of rows the joins of a statement let through.

Left joins drop no combination, so only inner joins decide.  If these read rows of
inner joins and of the base table only, then a combination comes through exactly if
some assignment meets all of them at once; in which order they stand does not
matter.
-/

namespace AssociationQuery

/-! ## what a condition reads -/

namespace Condition

/-- The truth of the condition depends on the rows of these table instances only. -/
def ReadsOnly (db : Database) (P : Slot → Prop) (c : Condition) : Prop :=
  ∀ env env' : Assignment, (∀ s, P s → env' s = env s) → c.truth db env' = c.truth db env

/-- What reads few tables reads no others. -/
theorem ReadsOnly.mono {db : Database} {P Q : Slot → Prop} {c : Condition}
    (h : c.ReadsOnly db P) (hPQ : ∀ s, P s → Q s) : c.ReadsOnly db Q :=
  fun env env' henv => h env env' fun s hs => henv s (hPQ s hs)

/-- A condition on keys reads the two tables. -/
theorem readsOnly_keys (db : Database) (l r : Slot) (columns : List (String × String)) :
    (keys l r columns).ReadsOnly db fun s => s = l ∨ s = r := by
  intro env env' h
  rw [truth, truth, h l (.inl rfl), h r (.inr rfl)]

/-- An expression reads the table that it is attached to. -/
theorem readsOnly_expr (db : Database) (e : Expr) (slot : Slot) :
    (expr e slot).ReadsOnly db (· = slot) := by
  intro env env' h
  rw [truth, truth, h slot rfl]

/-- Conditions from filters read the one table. -/
theorem readsOnly_conditionsOn (db : Database) (slot : Slot) (filters : List Expr) :
    ∀ c ∈ conditionsOn slot filters, c.ReadsOnly db (· = slot) := by
  intro c hc
  obtain ⟨e, -, rfl⟩ := List.mem_map.1 hc
  exact readsOnly_expr db e slot

/-- An existence condition depends on the row of the table that it is put on. -/
theorem readsOnly_existence (db : Database) {n : ChainNode} {outer : Slot} {d d' : Draft}
    {q : SubQuery} (h : d.existence outer n = .ok (q, d')) (hout : outer.index < d.next) :
    (existence q).ReadsOnly db (· = outer) := by
  intro env env' henv
  have hfinds : q.finds db env' ↔ q.finds db env := by
    rw [Draft.finds_existence n h hout, Draft.finds_existence n h hout, henv outer rfl]
  rw [truth, truth, Bool.eq_iff_iff.2 hfinds]

end Condition

/-! ## combinations -/

namespace Join

/-- Whether a join is met depends on its own row and on the rows that it reads. -/
theorem Met.congr {db : Database} {j : Join} {P : Slot → Prop}
    (hreads : ∀ c ∈ j.on, c.ReadsOnly db P) {env env' : Assignment} (h : j.Met db env)
    (hslot : env' j.slot = env j.slot) (henv : ∀ s, P s → env' s = env s) : j.Met db env' where
  table := by rw [hslot, h.table]
  row := by rw [hslot]; exact h.row
  on c hc := by rw [hreads c hc env env' henv, h.on c hc]

/-- A combination that comes through meets the inner joins. -/
theorem met_of_mem_extendAll {db : Database} {js : List Join}
    (hnumbers : (js.map fun j => j.slot.index).Pairwise (· < ·))
    (hreads : ∀ j ∈ js, j.kind = .inner → ∀ c ∈ j.on,
      c.ReadsOnly db fun s => s.index ≤ j.slot.index)
    {env env' : Assignment} (h : env' ∈ extendAll db js env) :
    (∀ s, s ∉ js.map slot → env' s = env s) ∧ ∀ j ∈ js, j.kind = .inner → j.Met db env' := by
  -- over the joins: later ones fill later slots, which the conditions so far do not read
  induction js generalizing env with
  | nil =>
    obtain rfl : env' = env := by simpa [extendAll] using h
    exact ⟨fun _ _ => rfl, by simp⟩
  | cons j js ih =>
    obtain ⟨hless, hrest⟩ := List.pairwise_cons.1 hnumbers
    obtain ⟨env₁, h₁, h'⟩ := List.mem_flatMap.1 h
    obtain ⟨r, rfl⟩ := exists_of_mem_extend h₁
    obtain ⟨hkept, hmet⟩ := ih hrest (fun k hk => hreads k (List.mem_cons_of_mem _ hk)) h'
    have hlater (s : Slot) (hs : s.index ≤ j.slot.index) : s ∉ js.map slot := by
      intro hmem
      obtain ⟨k, hk, rfl⟩ := List.mem_map.1 hmem
      exact Nat.lt_irrefl _ (Nat.lt_of_lt_of_le (hless _ (List.mem_map_of_mem hk)) hs)
    constructor
    · intro s hs
      rw [List.map_cons, List.mem_cons, not_or] at hs
      rw [hkept s hs.2, Function.update_of_ne hs.1]
    · intro k hk hkind
      rcases List.mem_cons.1 hk with rfl | hk
      · obtain ⟨_, -, hk₁⟩ := (mem_extend_inner hkind).1 h₁
        exact hk₁.congr (hreads k List.mem_cons_self hkind) (hkept _ (hlater _ (Nat.le_refl _)))
          fun s hs => hkept s (hlater s hs)
      · exact hmet k hk hkind

/-- If an assignment meets the inner joins, some combination comes through that agrees with it
on all that these read. -/
theorem exists_mem_extendAll {db : Database} {P : Slot → Prop} {js : List Join}
    (hnumbers : (js.map fun j => j.slot.index).Pairwise (· < ·))
    (hreads : ∀ j ∈ js, j.kind = .inner → ∀ c ∈ j.on,
      c.ReadsOnly db fun s => P s ∧ s.index ≤ j.slot.index)
    (hleft : ∀ j ∈ js, j.kind = .left → ¬P j.slot)
    {ρ : Assignment} (hmet : ∀ j ∈ js, j.kind = .inner → j.Met db ρ)
    {env : Assignment} (henv : ∀ s, P s → s ∉ js.map slot → env s = ρ s) :
    ∃ env' ∈ extendAll db js env, ∀ s, P s → env' s = ρ s := by
  induction js generalizing env with
  | nil => exact ⟨env, by simp [extendAll], fun s hs => henv s hs (by simp)⟩
  | cons j js ih =>
    obtain ⟨hless, hrest⟩ := List.pairwise_cons.1 hnumbers
    -- once the first slot is filled as `ρ` fills it, the others follow by induction
    have hgo {r : TableRow} (hr : P j.slot → r = ρ j.slot)
        (hmem : Function.update env j.slot r ∈ j.extend db env) :
        ∃ env' ∈ extendAll db (j :: js) env, ∀ s, P s → env' s = ρ s := by
      have hupdated (s : Slot) (hs : P s) (hnot : s ∉ js.map slot) :
          Function.update env j.slot r s = ρ s := by
        by_cases hself : s = j.slot
        · subst hself
          rw [Function.update_self, hr hs]
        · rw [Function.update_of_ne hself]
          exact henv s hs (by simp [hself] at hnot ⊢; exact hnot)
      obtain ⟨env', hmem', hagree⟩ := ih hrest
        (fun k hk => hreads k (List.mem_cons_of_mem _ hk))
        (fun k hk => hleft k (List.mem_cons_of_mem _ hk))
        (fun k hk => hmet k (List.mem_cons_of_mem _ hk)) hupdated
      exact ⟨env', List.mem_flatMap.2 ⟨_, hmem, hmem'⟩, hagree⟩
    -- a left join finds some row in any case, and `P` does not speak of its slot
    cases hkind : j.kind with
    | left =>
      obtain ⟨r, hmem⟩ := exists_mem_extend_left hkind env
      exact hgo (fun hP => absurd hP (hleft j List.mem_cons_self hkind)) hmem
    | inner =>
      have hread (s : Slot) (hs : P s ∧ s.index ≤ j.slot.index) :
          Function.update env j.slot (ρ j.slot) s = ρ s := by
        by_cases hself : s = j.slot
        · subst hself
          exact Function.update_self ..
        · have hnot : s ∉ (j :: js).map slot := by
            intro hmem
            obtain ⟨k, hk, rfl⟩ := List.mem_map.1 hmem
            rcases List.mem_cons.1 hk with rfl | hk
            · exact hself rfl
            · exact Nat.lt_irrefl _ (Nat.lt_of_lt_of_le (hless _ (List.mem_map_of_mem hk)) hs.2)
          rw [Function.update_of_ne hself]
          exact henv s hs.1 hnot
      have hj : j.Met db (Function.update env j.slot (ρ j.slot)) :=
        (hmet j List.mem_cons_self hkind).congr (hreads j List.mem_cons_self hkind)
          (Function.update_self ..) hread
      exact hgo (fun _ => rfl) ((mem_extend_inner hkind).2 ⟨_, rfl, hj⟩)

end Join

end AssociationQuery
