import AssociationQuery.Proofs.Meaning.Combinations
import AssociationQuery.Proofs.Meaning.Routes
import AssociationQuery.Proofs.Planning.Nodes

/-!
# AssociationQuery.Proofs.Meaning.Models

What a draft asks of the rows of its table instances.

A model of a draft is an assignment that meets the inner joins and the conditions
of the draft.  `Planned.asks` says what the walk through a chain adds to what is
asked: that the required nodes let the row through of the table that they hang
from, and nothing else.
-/

namespace AssociationQuery

namespace Draft

variable {db : Database}

/-! ## what joins read -/

/-- Each join reads its own table and the one before. -/
def ReadInTurn (db : Database) (previous : Slot) : List Join → Prop
  | [] => True
  | j :: js => (∀ c ∈ j.on, c.ReadsOnly db fun s => s = j.slot ∨ s = previous) ∧
    ReadInTurn db j.slot js

/-- Joins that are read in turn read what is before them, never what comes later. -/
theorem ReadInTurn.readsOnly {previous : Slot} {next : Nat} {js : List Join}
    (h : ReadInTurn db previous js) (hjs : NumberedFrom next js) (hp : previous.index < next) :
    ∀ j ∈ js, ∀ c ∈ j.on, c.ReadsOnly db fun s =>
      (s = previous ∨ s ∈ js.map Join.slot) ∧ s.index ≤ j.slot.index := by
  -- along the joins: each reads its own slot and the one before
  induction js generalizing previous next with
  | nil => simp
  | cons k js ih =>
    obtain ⟨hk, hrest⟩ := h
    obtain ⟨hslot, hjs'⟩ := hjs.of_cons
    have hlt : k.slot.index < next + 1 := by rw [hslot]; exact Nat.lt_succ_self next
    have hle : previous.index ≤ k.slot.index := by rw [hslot]; exact Nat.le_of_lt hp
    intro j hj c hc
    rcases List.mem_cons.1 hj with rfl | hj
    · have hown (s : Slot) (hs : s = j.slot ∨ s = previous) :
          (s = previous ∨ s ∈ (j :: js).map Join.slot) ∧ s.index ≤ j.slot.index := by
        rcases hs with rfl | rfl
        · exact ⟨.inr List.mem_cons_self, Nat.le_refl _⟩
        · exact ⟨.inl rfl, hle⟩
      exact (hk c hc).mono hown
    · have hlater (s : Slot) (hs : s = k.slot ∨ s ∈ js.map Join.slot) :
          s ∈ (k :: js).map Join.slot := by
        rcases hs with rfl | hs
        · exact List.mem_cons_self
        · exact List.mem_cons_of_mem _ hs
      exact (ih hrest hjs' hlt j hj c hc).mono fun s hs => ⟨.inr (hlater s hs.1), hs.2⟩

/-- The join of a hop reads its own table and the one before it. -/
theorem readsOnly_hop {k : JoinKind} {slot previous : Slot} {t : Table}
    {columns : List (String × String)} {filters : List Expr} :
    ∀ c ∈ (Join.mk k slot t (.keys slot previous columns :: conditionsOn slot filters)).on,
      c.ReadsOnly db fun s => s = slot ∨ s = previous := by
  intro c hc
  rcases List.mem_cons.1 hc with rfl | hc
  · exact Condition.readsOnly_keys db slot previous columns
  · exact (Condition.readsOnly_conditionsOn db slot filters c hc).mono fun s hs => .inl hs

/-- The joins of a route are read in turn. -/
theorem readInTurn_hopJoins (left : Bool) (refine : List Expr) (previous : Slot) (next : Nat)
    (h : Hop) (rest : List Hop) :
    ReadInTurn db previous (hopJoins left refine previous next h rest) := by
  induction rest generalizing left previous next h with
  | nil => exact ⟨readsOnly_hop, trivial⟩
  | cons g gs ih => exact ⟨readsOnly_hop, ih ..⟩

/-- The joins back along a route are read in turn. -/
theorem readInTurn_backJoins (previous : Slot) (later : Hop) (next : Nat) (hs : List Hop) :
    ReadInTurn db previous (backJoins previous later next hs) := by
  induction hs generalizing previous later next with
  | nil => trivial
  | cons h rest ih => exact ⟨readsOnly_hop, ih ..⟩

/-! ## models of a draft -/

/-- The base table and the tables of inner joins: these have a row in every combination. -/
def Firm (d : Draft) (s : Slot) : Prop := s = root ∨ ∃ j ∈ d.joins, j.kind = .inner ∧ j.slot = s

/-- The inner joins read firm tables up to their own only, and the conditions read the base
table only. -/
structure Steady (db : Database) (d : Draft) : Prop where
  numbered : d.Numbered
  joins : ∀ j ∈ d.joins, j.kind = .inner → ∀ c ∈ j.on,
    c.ReadsOnly db fun s => d.Firm s ∧ s.index ≤ j.slot.index
  filters : ∀ c ∈ d.filters, c.ReadsOnly db (· = root)

/-- The assignment meets the inner joins and the conditions. -/
structure Models (db : Database) (d : Draft) (ρ : Assignment) : Prop where
  joins : ∀ j ∈ d.joins, j.kind = .inner → j.Met db ρ
  filters : ∀ c ∈ d.filters, c.truth db ρ = some true

/-- The table is the base table or one that is joined the way the anchor says. -/
structure Anchored (d : Draft) (a : Anchor) : Prop where
  lt : a.slot.index < d.next
  kept : (a.slot = root ∧ a.left = false) ∨
    ∃ j ∈ d.joins, j.slot = a.slot ∧ j.kind = .keeping a.left

/-- A table that always has a row was numbered before. -/
theorem Numbered.index_lt_of_firm {d : Draft} (h : d.Numbered) {s : Slot} (hs : d.Firm s) :
    s.index < d.next := by
  rcases hs with rfl | ⟨j, hj, -, rfl⟩
  · exact h.positive
  · exact (h.slot_bounds hj).2

/-- The table of an inner join always has a row. -/
theorem firm_of_mem {d : Draft} {j : Join} (hj : j ∈ d.joins) (hkind : j.kind = .inner) :
    d.Firm j.slot := .inr ⟨j, hj, hkind, rfl⟩

/-- Behind inner joins only, there always is a row. -/
theorem Anchored.firm {d : Draft} {a : Anchor} (h : d.Anchored a) (hleft : a.left = false) :
    d.Firm a.slot := by
  rcases h.kept with ⟨hroot, -⟩ | ⟨j, hj, hslot, hkind⟩
  · exact .inl hroot
  · rw [hleft] at hkind
    exact hslot ▸ firm_of_mem hj hkind

/-- Whether an assignment is a model depends on the tables of the draft. -/
theorem Models.congr {d : Draft} {ρ ρ' : Assignment} (h : d.Models db ρ) (hd : d.Steady db)
    (hagree : AgreeBelow d.next ρ ρ') : d.Models db ρ' := by
  constructor
  · intro j hj hkind
    have hslot : ρ' j.slot = ρ j.slot := hagree _ (hd.numbered.slot_bounds hj).2
    exact (h.joins j hj hkind).congr (hd.joins j hj hkind) hslot
      fun s hs => hagree s (hd.numbered.index_lt_of_firm hs.1)
  · intro c hc
    have hroot : ρ' root = ρ root := hagree root hd.numbered.positive
    rw [hd.filters c hc ρ ρ' fun s hs => hs ▸ hroot]
    exact h.filters c hc

/-- Whether a combination is a model depends on joins and filters. -/
theorem Models.of_eq {d d' : Draft} {ρ : Assignment} (h : d.Models db ρ)
    (hj : d'.joins = d.joins) (hf : d'.filters = d.filters) : d'.Models db ρ :=
  ⟨hj ▸ h.joins, hf ▸ h.filters⟩

/-- Steadiness depends on joins and filters. -/
theorem Steady.of_eq {d d' : Draft} (hd : d.Steady db) (hj : d'.joins = d.joins)
    (hf : d'.filters = d.filters) (hn : d.next ≤ d'.next) : d'.Steady db where
  numbered := hd.numbered.of_instances (congrArg (List.map Join.instance) hj) hn
  joins := by
    unfold Firm
    rw [hj]
    exact hd.joins
  filters := hf ▸ hd.filters

/-- A table that always has a row keeps it while the kinds of the joins are kept. -/
theorem Firm.of_kept {d d' : Draft}
    (hkept : ∀ j ∈ d.joins, ∃ j' ∈ d'.joins, j'.slot = j.slot ∧ j'.kind = j.kind) {s : Slot}
    (h : d.Firm s) : d'.Firm s := by
  rcases h with rfl | ⟨j, hj, hkind, rfl⟩
  · exact .inl rfl
  · obtain ⟨j', hj', hslot', hkind'⟩ := hkept j hj
    exact .inr ⟨j', hj', hkind'.trans hkind, hslot'⟩

/-- More joins do not take a row away. -/
theorem Firm.withJoins {d : Draft} {s : Slot} (h : d.Firm s) (js : List Join) :
    (d.withJoins js).Firm s :=
  h.of_kept fun j hj => ⟨j, List.mem_append_left _ hj, rfl, rfl⟩

/-- Further joins, all of one kind, that read in turn. -/
theorem Steady.withJoins {d : Draft} (hd : d.Steady db) {previous : Slot} {js : List Join}
    {unmatched : Bool} (hnumbers : NumberedFrom d.next js) (hreads : ReadInTurn db previous js)
    (hp : previous.index < d.next) (hkind : ∀ j ∈ js, j.kind = .keeping unmatched)
    (hfirm : unmatched = false → d.Firm previous) : (d.withJoins js).Steady db := by
  -- where rows have to match, the new joins are inner and start at a firm slot
  have hnew (hunmatched : unmatched = false) (s : Slot)
      (hs : s = previous ∨ s ∈ js.map Join.slot) : (d.withJoins js).Firm s := by
    rcases hs with rfl | hmem
    · exact (hfirm hunmatched).withJoins js
    · obtain ⟨k, hk, rfl⟩ := List.mem_map.1 hmem
      have hinner : k.kind = .inner := by rw [hkind k hk, keeping_eq_inner, hunmatched]
      exact firm_of_mem (List.mem_append_right _ hk) hinner
  have hjoins : ∀ j ∈ d.joins ++ js, j.kind = .inner → ∀ c ∈ j.on,
      c.ReadsOnly db fun s => (d.withJoins js).Firm s ∧ s.index ≤ j.slot.index := by
    intro j hj hinner c hc
    rcases List.mem_append.1 hj with hj | hj
    · exact (hd.joins j hj hinner c hc).mono fun s hs => ⟨hs.1.withJoins js, hs.2⟩
    · have hunmatched : unmatched = false := by
        rw [← keeping_eq_inner, ← hkind j hj, hinner]
      exact (hreads.readsOnly hnumbers hp j hj c hc).mono
        fun s hs => ⟨hnew hunmatched s hs.1, hs.2⟩
  exact ⟨hd.numbered.withJoins hnumbers, hjoins, hd.filters⟩

/-- More joins ask for more: each inner one has to be met. -/
theorem models_withJoins {d : Draft} {js : List Join} {ρ : Assignment} :
    (d.withJoins js).Models db ρ ↔
      d.Models db ρ ∧ ∀ j ∈ js, j.kind = .inner → j.Met db ρ := by
  constructor
  · intro h
    obtain ⟨hown, hjs⟩ := List.forall_mem_append.1 h.joins
    exact ⟨⟨hown, h.filters⟩, hjs⟩
  · intro h
    obtain ⟨hown, hjs⟩ := h
    exact ⟨List.forall_mem_append.2 ⟨hown.joins, hjs⟩, hown.filters⟩

/-! ## conditions -/

/-- One more condition on a join has to be true as well. -/
theorem Join.met_under {db : Database} {j : Join} {c : Condition} {ρ : Assignment} :
    (j.under c).Met db ρ ↔ j.Met db ρ ∧ c.truth db ρ = some true := by
  constructor
  · intro h
    obtain ⟨hown, hc⟩ := List.forall_mem_append.1 h.on
    exact ⟨⟨h.table, h.row, hown⟩, hc c List.mem_cons_self⟩
  · intro h
    obtain ⟨hj, hc⟩ := h
    have hon : ∀ c' ∈ j.on ++ [c], c'.truth db ρ = some true :=
      List.forall_mem_append.2 ⟨hj.on, List.forall_mem_singleton.2 hc⟩
    exact ⟨hj.table, hj.row, hon⟩

/-- What a step of the walk does to the models of a draft: it asks that the row of the table
that the anchor names meets `P`, and for nothing else. -/
structure Asks (db : Database) (a : Anchor) (P : TableRow → Prop) (d d' : Draft) : Prop where
  next_le : d.next ≤ d'.next
  kept : ∀ j ∈ d.joins, ∃ j' ∈ d'.joins, j'.slot = j.slot ∧ j'.kind = j.kind
  steady : d'.Steady db
  sound : ∀ ρ, d'.Models db ρ → d.Models db ρ ∧ P (ρ a.slot)
  complete : ∀ ρ, d.Models db ρ → P (ρ a.slot) →
    ∃ ρ', AgreeBelow d.next ρ ρ' ∧ d'.Models db ρ'

namespace Asks

variable {a : Anchor} {P Q : TableRow → Prop} {d₁ d₂ d₃ : Draft}

/-- An anchor stays one. -/
theorem anchored (h : Asks db a P d₁ d₂) {b : Anchor} (hb : d₁.Anchored b) : d₂.Anchored b := by
  have hlt : b.slot.index < d₂.next := Nat.lt_of_lt_of_le hb.lt h.next_le
  rcases hb.kept with hroot | ⟨j, hj, hslot, hkind⟩
  · exact ⟨hlt, .inl hroot⟩
  · obtain ⟨j', hj', hslot', hkind'⟩ := h.kept j hj
    exact ⟨hlt, .inr ⟨j', hj', hslot'.trans hslot, hkind'.trans hkind⟩⟩

/-- Two steps ask for what both ask for. -/
theorem trans (h : Asks db a P d₁ d₂) (h' : Asks db a Q d₂ d₃) (ha : d₁.Anchored a) :
    Asks db a (fun r => P r ∧ Q r) d₁ d₃ where
  next_le := Nat.le_trans h.next_le h'.next_le
  kept j hj := by
    obtain ⟨j', hj', hslot', hkind'⟩ := h.kept j hj
    obtain ⟨j'', hj'', hslot'', hkind''⟩ := h'.kept j' hj'
    exact ⟨j'', hj'', hslot''.trans hslot', hkind''.trans hkind'⟩
  steady := h'.steady
  sound ρ hρ := by
    obtain ⟨hρ', hQ⟩ := h'.sound ρ hρ
    obtain ⟨hρ'', hP⟩ := h.sound ρ hρ'
    exact ⟨hρ'', hP, hQ⟩
  complete ρ hρ hPQ := by
    obtain ⟨ρ₂, hagree, hρ₂⟩ := h.complete ρ hρ hPQ.1
    have hrow : ρ₂ a.slot = ρ a.slot := hagree a.slot ha.lt
    obtain ⟨ρ₃, hagree', hρ₃⟩ := h'.complete ρ₂ hρ₂ (hrow.symm ▸ hPQ.2)
    exact ⟨ρ₃, hagree.trans hagree' h.next_le, hρ₃⟩

/-- What is asked for may be said in other words. -/
theorem congr (h : Asks db a P d₁ d₂) (hPQ : ∀ r, P r ↔ Q r) : Asks db a Q d₁ d₂ := by
  obtain rfl : P = Q := funext fun r => propext (hPQ r)
  exact h

/-- A step that leaves joins and conditions alone asks for nothing. -/
theorem nothing (hd : d₁.Steady db) (hj : d₂.joins = d₁.joins) (hf : d₂.filters = d₁.filters)
    (hn : d₁.next ≤ d₂.next) : Asks db a (fun _ => True) d₁ d₂ where
  next_le := hn
  kept j hj' := ⟨j, hj ▸ hj', rfl, rfl⟩
  steady := hd.of_eq hj hf hn
  sound _ hρ := ⟨hρ.of_eq hj.symm hf.symm, trivial⟩
  complete ρ hρ _ := ⟨ρ, .refl _ _, hρ.of_eq hj hf⟩

end Asks

/-- A step that joins nothing asks for nothing. -/
theorem Aside.asks {a : Anchor} {d d' : Draft} (h : d.Aside d') (hd : d.Steady db) :
    Asks db a (fun _ => True) d d' := by
  have hjoins : d'.joins = d.joins := by rw [h.eq]
  have hfilters : d'.filters = d.filters := by rw [h.eq]
  exact .nothing hd hjoins hfilters h.next_le

section under

variable {d : Draft} {c : Condition} {before after : List Join} {j : Join}

/-- A condition more on one join keeps tables and kinds of all. -/
theorem kept_under (hjoins : d.joins = before ++ j :: after) :
    ∀ k ∈ d.joins, ∃ k' ∈ before ++ j.under c :: after, k'.slot = k.slot ∧ k'.kind = k.kind := by
  intro k hk
  rw [hjoins, List.mem_append, List.mem_cons] at hk
  rcases hk with hk | rfl | hk
  · exact ⟨k, List.mem_append_left _ hk, rfl, rfl⟩
  · exact ⟨k.under c, by simp, rfl, rfl⟩
  · exact ⟨k, by simp [hk], rfl, rfl⟩

/-- A condition that reads the join's own table leaves the draft steady. -/
theorem steady_under (hd : d.Steady db) (hjoins : d.joins = before ++ j :: after)
    (hreads : c.ReadsOnly db (· = j.slot)) :
    Steady db { d with joins := before ++ j.under c :: after } := by
  have hinstances : (before ++ j.under c :: after).map Join.instance = d.instances := by
    simp [instances, hjoins, Join.under, Join.instance, Join.slot, Join.table]
  -- the conditions there keep what they read, the new one reads its own slot only
  have hold (i : Join) (hi : i ∈ d.joins) (hinner : i.kind = .inner) : ∀ c' ∈ i.on,
      c'.ReadsOnly db fun s =>
        Firm { d with joins := before ++ j.under c :: after } s ∧ s.index ≤ i.slot.index :=
    fun c' hc' => (hd.joins i hi hinner c' hc').mono
      fun s hs => ⟨hs.1.of_kept (kept_under hjoins), hs.2⟩
  have hnew (hinner : j.kind = .inner) : c.ReadsOnly db fun s =>
      Firm { d with joins := before ++ j.under c :: after } s ∧ s.index ≤ j.slot.index := by
    have hfirm : d.Firm j.slot := firm_of_mem (by simp [hjoins]) hinner
    apply hreads.mono
    intro s hs
    subst hs
    exact ⟨hfirm.of_kept (kept_under hjoins), Nat.le_refl _⟩
  have hall : ∀ k ∈ before ++ j.under c :: after, k.kind = .inner → ∀ c' ∈ k.on,
      c'.ReadsOnly db fun s =>
        Firm { d with joins := before ++ j.under c :: after } s ∧ s.index ≤ k.slot.index := by
    intro k hk hinner
    rcases List.mem_append.1 hk with hk | hk
    · exact hold k (by simp [hjoins, hk]) hinner
    · rcases List.mem_cons.1 hk with rfl | hk
      · exact List.forall_mem_append.2
          ⟨hold j (by simp [hjoins]) hinner, List.forall_mem_singleton.2 (hnew hinner)⟩
      · exact hold k (by simp [hjoins, hk]) hinner
  exact ⟨hd.numbered.of_instances hinstances (Nat.le_refl _), hall, hd.filters⟩

/-- A condition on a join asks for nothing if the join keeps rows without a match. -/
theorem models_under (hjoins : d.joins = before ++ j :: after) {ρ : Assignment} :
    Models db { d with joins := before ++ j.under c :: after } ρ ↔
      d.Models db ρ ∧ (j.kind = .inner → c.truth db ρ = some true) := by
  have hmet : (∀ k ∈ before ++ j.under c :: after, k.kind = .inner → k.Met db ρ) ↔
      (∀ k ∈ d.joins, k.kind = .inner → k.Met db ρ) ∧
        (j.kind = .inner → c.truth db ρ = some true) := by
    have hkind : (j.under c).kind = j.kind := rfl
    rw [hjoins, List.forall_mem_append, List.forall_mem_append, List.forall_mem_cons,
      List.forall_mem_cons, hkind, Join.met_under]
    tauto
  constructor
  · intro h
    obtain ⟨hold, hnew⟩ := hmet.1 h.joins
    exact ⟨⟨hold, h.filters⟩, hnew⟩
  · intro h
    exact ⟨hmet.2 ⟨h.1.joins, h.2⟩, h.1.filters⟩

/-- A condition on the join of an anchor asks for it where the anchor always has a row. -/
theorem asks_under {a : Anchor} {P : TableRow → Prop} (hd : d.Steady db)
    (hjoins : d.joins = before ++ j :: after) (hslot : j.slot = a.slot)
    (hkind : j.kind = .keeping a.left) (hreads : c.ReadsOnly db (· = a.slot))
    (htruth : ∀ ρ, c.truth db ρ = some true ↔ P (ρ a.slot)) :
    Asks db a (fun r => a.left = false → P r) d
      { d with joins := before ++ j.under c :: after } where
  next_le := Nat.le_refl _
  kept := kept_under hjoins
  steady := steady_under hd hjoins (hslot ▸ hreads)
  sound ρ hρ := by
    rwa [models_under hjoins, hkind, keeping_eq_inner, htruth] at hρ
  complete ρ hρ hP := by
    have hmodel : Models db { d with joins := before ++ j.under c :: after } ρ := by
      rw [models_under hjoins, hkind, keeping_eq_inner, htruth]
      exact ⟨hρ, hP⟩
    exact ⟨ρ, .refl _ _, hmodel⟩

end under

/-- A condition on an anchored table. -/
theorem asks_addCondition {d : Draft} {a : Anchor} {c : Condition} {P : TableRow → Prop}
    (hd : d.Steady db) (ha : d.Anchored a) (hreads : c.ReadsOnly db (· = a.slot))
    (htruth : ∀ ρ, c.truth db ρ = some true ↔ P (ρ a.slot)) :
    Asks db a (fun r => a.left = false → P r) d (d.addCondition a.slot c) := by
  rw [addCondition]
  -- the condition goes under the join of its slot, or to WHERE where the slot is the root
  split
  · next joins hjoins =>
    obtain ⟨before, j, after, hsplit, hslot, rfl⟩ := putOnJoin_eq_some hjoins
    have hj : j ∈ d.joins := by simp [hsplit]
    obtain ⟨hroot, -⟩ | ⟨k, hk, hslot', hkind⟩ := ha.kept
    · exact absurd (hslot.trans hroot) (hd.numbered.slot_ne_root hj)
    · obtain rfl := hd.numbered.eq_of_slot hk hj (hslot'.trans hslot.symm)
      exact asks_under hd hsplit hslot hkind hreads htruth
  · next hnone =>
    obtain ⟨hroot, hleft⟩ | ⟨k, hk, hslot', -⟩ := ha.kept
    · have hfilters (ρ : Assignment) :
          (∀ c' ∈ d.filters ++ [c], c'.truth db ρ = some true) ↔
            (∀ c' ∈ d.filters, c'.truth db ρ = some true) ∧ P (ρ a.slot) := by
        rw [List.forall_mem_append, List.forall_mem_singleton, htruth]
      exact {
        next_le := Nat.le_refl _
        kept := fun j hj => ⟨j, hj, rfl, rfl⟩
        steady := {
          numbered := hd.numbered.of_instances rfl (Nat.le_refl _)
          joins := hd.joins
          filters := List.forall_mem_append.2
            ⟨hd.filters, List.forall_mem_singleton.2 (hroot ▸ hreads)⟩ }
        sound := fun ρ hρ =>
          have hsplit := (hfilters ρ).1 hρ.filters
          ⟨⟨hρ.joins, hsplit.1⟩, fun _ => hsplit.2⟩
        complete := fun ρ hρ hP =>
          ⟨ρ, .refl _ _, hρ.joins, (hfilters ρ).2 ⟨hρ.filters, hP hleft⟩⟩ }
    · exact absurd hslot' (putOnJoin_eq_none hnone k hk)

/-- A required node that is left to a statement of its own. -/
theorem Guarded.asks {a : Anchor} {n : ChainNode} {d d' : Draft} (h : Guarded a.slot n d d')
    (hd : d.Steady db) (ha : d.Anchored a) :
    Asks db a (fun r => a.left = false → n.requirement = .required → n.Satisfied db r) d d' := by
  cases h with
  | optional hreq => exact ((Aside.refl d).asks hd).congr fun r => by simp [hreq]
  | @required q d₁ hreq hq =>
    have haside := (aside_existence n hq).asks (a := a) hd
    have htruth (ρ : Assignment) : (Condition.existence q).truth db ρ = some true ↔
        n.Satisfied db (ρ a.slot) := by
      rw [Condition.truth, Option.some.injEq, finds_existence n hq ha.lt]
    exact (haside.trans (asks_addCondition haside.steady (haside.anchored ha)
      (Condition.readsOnly_existence db hq ha.lt) htruth) ha).congr fun r => by simp [hreq]

/-- What is left to a statement of its own asks for nothing here. -/
theorem asks_leave (config : Config) (a : Anchor) (n : ChainNode) {d : Draft}
    (hd : d.Steady db) : Asks db a (fun _ => True) d (d.leave config a n) :=
  .nothing hd rfl rfl (Nat.le_refl _)

/-! ## joined nodes -/

section join

variable {a : Anchor} {n : ChainNode} {route : Route} {d : Draft}

/-- A joined node can be built on. -/
theorem anchored_join (d : Draft) (plain : plainRoute n.requirement n.association = .ok route)
    (ha : d.Anchored a) : (d.join a n route).Anchored (below a n route d) := by
  have hlt : (nodeSlot a n route d.next).index < (d.join a n route).next := by
    rw [next_join]
    exact (numberedFrom_hopJoins ..).index_lastSlot_lt ha.lt
  obtain ⟨j, hj, hslot⟩ := nodeSlot_mem a n route d.next
  have hmem : j ∈ (d.join a n route).joins := by
    rw [joins_join]
    exact List.mem_append_right _ hj
  exact ⟨hlt, .inr ⟨j, hmem, hslot, kind_nodeJoins plain d.next j hj⟩⟩

/-- Joining a node leaves the draft steady. -/
theorem steady_join (plain : plainRoute n.requirement n.association = .ok route)
    (hd : d.Steady db) (ha : d.Anchored a) : (d.join a n route).Steady db := by
  have hfirm (hunmatched : keepsUnmatched a route = false) : d.Firm a.slot := by
    rw [keepsUnmatched, Bool.or_eq_false_iff] at hunmatched
    exact ha.firm hunmatched.1
  have hwith : (d.withJoins (nodeJoins a n route d.next)).Steady db :=
    hd.withJoins (numberedFrom_hopJoins ..) (readInTurn_hopJoins ..) ha.lt
      (kind_nodeJoins plain d.next) hfirm
  have hnext : (d.withJoins (nodeJoins a n route d.next)).next = (d.join a n route).next := by
    rw [next_join, next_withJoins]
  exact hwith.of_eq (joins_join a n route d) (filters_join a n route d) (Nat.le_of_eq hnext)

/-- A joined node has to be met where it is joined inwards. -/
theorem models_join {ρ : Assignment} :
    (d.join a n route).Models db ρ ↔
      d.Models db ρ ∧ ∀ j ∈ nodeJoins a n route d.next, j.kind = .inner → j.Met db ρ := by
  rw [← models_withJoins]
  have hjoins := joins_join a n route d
  have hfilters := filters_join a n route d
  exact ⟨fun h => h.of_eq hjoins.symm hfilters.symm, fun h => h.of_eq hjoins hfilters⟩

/-- A model after a node is joined: the route leads to its row of the node's table. -/
theorem sound_join (plain : plainRoute n.requirement n.association = .ok route) {ρ : Assignment}
    (hρ : (d.join a n route).Models db ρ) :
    d.Models db ρ ∧ (keepsUnmatched a route = false →
      Hop.LeadsAll db route.hops (ρ a.slot) (ρ (nodeSlot a n route d.next)) ∧
        ∀ e ∈ n.filters, db.holds e (ρ (nodeSlot a n route d.next)) = some true) := by
  obtain ⟨hρ', hmet⟩ := models_join.1 hρ
  have hinner (hunmatched : keepsUnmatched a route = false) :
      ∀ j ∈ nodeJoins a n route d.next, j.kind = .inner := by
    intro j hj
    rw [kind_nodeJoins plain d.next j hj, keeping_eq_inner, hunmatched]
  exact ⟨hρ', fun hunmatched =>
    leadsAll_of_met fun j hj => hmet j hj (hinner hunmatched j hj)⟩

/-- Where rows without a match are kept, joining a node asks for nothing. -/
theorem complete_join_left (plain : plainRoute n.requirement n.association = .ok route)
    (hunmatched : keepsUnmatched a route = true) {ρ : Assignment} (hρ : d.Models db ρ) :
    (d.join a n route).Models db ρ := by
  have hleft : ∀ j ∈ nodeJoins a n route d.next, j.kind = .inner → j.Met db ρ := by
    intro j hj hinner
    rw [kind_nodeJoins plain d.next j hj, hunmatched] at hinner
    contradiction
  exact models_join.2 ⟨hρ, hleft⟩

/-- Where the route leads to a row, a model can be chosen that has it. -/
theorem complete_join_inner (hd : d.Steady db) (ha : d.Anchored a) {ρ : Assignment}
    (hρ : d.Models db ρ) {target : TableRow}
    (hleads : Hop.LeadsAll db route.hops (ρ a.slot) target)
    (hfilters : ∀ e ∈ n.filters, db.holds e target = some true) :
    ∃ ρ', AgreeBelow d.next ρ ρ' ∧ (d.join a n route).Models db ρ' ∧
      ρ' (nodeSlot a n route d.next) = target := by
  have hchosen : ∃ ρ', AgreeBelow d.next ρ ρ' ∧
      (∀ j ∈ nodeJoins a n route d.next, j.Met db ρ') ∧ ρ' (nodeSlot a n route d.next) = target :=
    exists_met_hopJoins ha.lt hleads hfilters
  obtain ⟨ρ', hagree, hmet, hlast⟩ := hchosen
  exact ⟨ρ', hagree, models_join.2 ⟨hρ.congr hd hagree, fun j hj _ => hmet j hj⟩, hlast⟩

/-- A joined node with what hangs below it. -/
theorem asks_joined {d' : Draft} (plain : plainRoute n.requirement n.association = .ok route)
    (hd : d.Steady db) (ha : d.Anchored a)
    (hchildren : Asks db (below a n route d)
      (fun r => keepsUnmatched a route = false → ChainNode.SatisfiedAll db n.children r)
      (d.join a n route) d') :
    Asks db a (fun r => a.left = false → n.requirement = .required → n.Satisfied db r) d d' where
  next_le := Nat.le_trans (by rw [next_join]; exact Nat.le_add_right _ _) hchildren.next_le
  kept j hj := hchildren.kept j (by rw [joins_join]; exact List.mem_append_left _ hj)
  steady := hchildren.steady
  sound ρ hρ := by
    obtain ⟨hρ', hbelow⟩ := hchildren.sound ρ hρ
    obtain ⟨hρ'', hnode⟩ := sound_join plain hρ'
    have hsatisfied (hleft : a.left = false) (hreq : n.requirement = .required) :
        n.Satisfied db (ρ a.slot) := by
      have hunmatched : keepsUnmatched a route = false := by
        simp [(keepsUnmatched_eq a plain).1, hleft, hreq]
      obtain ⟨hleads, hfilters⟩ := hnode hunmatched
      rw [ChainNode.satisfied_iff]
      exact ⟨route, _, hreq ▸ routeFor_of_plainRoute plain, hleads, hfilters, hbelow hunmatched⟩
    exact ⟨hρ'', hsatisfied⟩
  complete ρ hρ hP := by
    have hle : d.next ≤ (d.join a n route).next := by
      rw [next_join]
      exact Nat.le_add_right _ _
    -- behind a join that keeps unmatched rows anything goes; behind an inner one a row has to be
    -- found, and the children ask for more below it
    cases hunmatched : keepsUnmatched a route with
    | true =>
      obtain ⟨ρ', hagree, hρ'⟩ := hchildren.complete ρ
        (complete_join_left plain hunmatched hρ) (by simp [hunmatched])
      exact ⟨ρ', (AgreeBelow.refl _ ρ).trans hagree hle, hρ'⟩
    | false =>
      obtain ⟨hleft, hopt⟩ : a.left = false ∧ n.requirement ≠ .optional := by
        simpa [hunmatched] using (keepsUnmatched_eq a plain).1.symm
      have hreq : n.requirement = .required := by
        cases hn : n.requirement with
        | required => rfl
        | optional => exact absurd hn hopt
      obtain ⟨route', target, hroute, hleads, hfilters, hbelow⟩ :=
        ChainNode.satisfied_iff.1 (hP hleft hreq)
      obtain rfl : route = route' :=
        Except.ok.inj ((hreq ▸ routeFor_of_plainRoute plain).symm.trans hroute)
      obtain ⟨ρ₁, hagree, hρ₁, hlast⟩ := complete_join_inner hd ha hρ hleads hfilters
      obtain ⟨ρ', hagree', hρ'⟩ := hchildren.complete ρ₁ hρ₁ fun _ => hlast.symm ▸ hbelow
      exact ⟨ρ', hagree.trans hagree' hle, hρ'⟩

end join

/-- The walk through nodes asks that the required ones let the anchor's row through, unless
the anchor's table is joined such that rows without a match are kept. -/
theorem Planned.asks {config : Config} {a : Anchor} {nodes : List ChainNode} {d d' : Draft}
    (h : Planned config a nodes d d') (hd : d.Steady db) (ha : d.Anchored a) :
    Asks db a (fun r => a.left = false → ChainNode.SatisfiedAll db nodes r) d d' := by
  -- along the walk: what a node asks and what the others ask come together
  induction h with
  | done => exact ((Aside.refl _).asks hd).congr fun r => by simp [ChainNode.SatisfiedAll]
  | @separate a n rest d d₁ d' _ _ _ _ _ guarded _ _ _ ih =>
    have hguard := guarded.asks hd ha
    have hleave := asks_leave config a n hguard.steady
    have hhead := hguard.trans hleave ha
    have hrest := ih hhead.steady (hhead.anchored ha)
    exact (hhead.trans hrest ha).congr fun r => by
      rw [ChainNode.SatisfiedAll, imp_and, and_true]
  | @joined a n rest route d d₁ d' _ _ plain _ _ _ ihChildren ihRest =>
    have hnode := asks_joined plain hd ha
      (ihChildren (steady_join plain hd ha) (anchored_join d plain ha))
    have hregister := (aside_register d₁ (nodeSlot a n route d.next) n.aliases).asks (a := a)
      hnode.steady
    have hhead := hnode.trans hregister ha
    have hrest := ihRest hhead.steady (hhead.anchored ha)
    exact (hhead.trans hrest ha).congr fun r => by
      rw [ChainNode.SatisfiedAll, imp_and, and_true]

/-- The draft with the base table alone is steady. -/
theorem steady_start (db : Database) (numbering : AliasNumbering) (t : Table) (width : Nat) :
    (start numbering t width).Steady db :=
  ⟨numbered_start numbering t width, by simp [start], by simp [start]⟩

/-- The base table is the first anchor. -/
theorem anchored_start (numbering : AliasNumbering) (t : Table) (width : Nat) :
    (start numbering t width).Anchored (.base t) :=
  ⟨Nat.zero_lt_one, .inl ⟨rfl, rfl⟩⟩

/-- A statement's draft has a model with a base row exactly if the required nodes let that row
through. -/
theorem Planned.exists_models_iff {config : Config} {numbering : AliasNumbering} {t : Table}
    {width : Nat} {nodes : List ChainNode} {d : Draft}
    (h : Planned config (.base t) nodes (.start numbering t width) d) (base : TableRow) :
    (∃ ρ, d.Models db ρ ∧ ρ root = base) ↔ ChainNode.SatisfiedAll db nodes base := by
  have hasks := h.asks (steady_start db numbering t width) (anchored_start ..)
  constructor
  · intro h
    obtain ⟨ρ, hρ, rfl⟩ := h
    exact (hasks.sound ρ hρ).2 rfl
  · intro hbase
    have hstart : (start numbering t width).Models db fun _ => base :=
      ⟨by simp [start], by simp [start]⟩
    obtain ⟨ρ, hagree, hρ⟩ := hasks.complete _ hstart fun _ => hbase
    exact ⟨ρ, hρ, hagree root Nat.zero_lt_one⟩

/-! ## models and combinations -/

/-- A combination that comes through joins and conditions is a model. -/
theorem Steady.models_of_mem_extendAll {d : Draft} (hd : d.Steady db) {env env' : Assignment}
    (h : env' ∈ Join.extendAll db d.joins env)
    (hfilters : ∀ c ∈ d.filters, c.truth db env' = some true) :
    d.Models db env' ∧ env' root = env root := by
  obtain ⟨hkept, hmet⟩ := Join.met_of_mem_extendAll hd.numbered.index_pairwise
    (fun j hj hkind c hc => (hd.joins j hj hkind c hc).mono fun s hs => hs.2) h
  exact ⟨⟨hmet, hfilters⟩, hkept root hd.numbered.root_notMem⟩

/-- For each model a combination comes through that has the same rows in all firm tables. -/
theorem Steady.exists_mem_extendAll_of_models {d : Draft} (hd : d.Steady db) {ρ env : Assignment}
    (hρ : d.Models db ρ) (henv : env root = ρ root) :
    ∃ env' ∈ Join.extendAll db d.joins env, ∀ s, d.Firm s → env' s = ρ s := by
  have hleft : ∀ j ∈ d.joins, j.kind = .left → ¬d.Firm j.slot := by
    intro j hj hkind hfirm
    rcases hfirm with hroot | ⟨k, hk, hkind', hslot⟩
    · exact hd.numbered.slot_ne_root hj hroot
    · obtain rfl := hd.numbered.eq_of_slot hk hj hslot
      rw [hkind] at hkind'
      contradiction
  have hbase : ∀ s, d.Firm s → s ∉ d.joins.map Join.slot → env s = ρ s := by
    intro s hfirm hnot
    rcases hfirm with rfl | ⟨k, hk, -, rfl⟩
    · exact henv
    · exact absurd (List.mem_map_of_mem hk) hnot
  exact Join.exists_mem_extendAll hd.numbered.index_pairwise hd.joins hleft hρ.joins hbase

end Draft

end AssociationQuery
