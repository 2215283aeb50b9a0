import AssociationQuery.Proofs.Naming.Allocation
import Mathlib.Data.Finset.Card
import Mathlib.Data.List.DropRight
import Mathlib.Order.Bounds.Defs

/-!
# AssociationQuery.Proofs.Naming.LeastNumbers

Derived names are the least that are free.

The names of a table are tried in a fixed order, its own name first and then that with each
number, `attempt`.  An instance without a locked name gets the first of them that no handle
insists on and no earlier instance has, `derive_least`.  So instances of one table are numbered
in their order, whatever other tables and locked names stand between them, as long as these do
not look like numbered names of the table themselves.
-/

namespace AssociationQuery

open Text.Casing (lower)

/-! ## names in the order of trial -/

namespace AliasRequests

/-- The name of a table at the `n`-th trial: its own, then that with each positive number. -/
def attempt (table : String) : ℕ → String
  | 0 => table
  | n + 1 => table ++ toString (n + 1)

/-- Later trials have their number behind the name of the table. -/
theorem attempt_of_pos {n : ℕ} (h : 0 < n) (table : String) :
    attempt table n = table ++ toString n := by
  obtain ⟨k, rfl⟩ := Nat.exists_eq_add_of_lt h
  simp [attempt]

/-- A number behind a name makes it another one. -/
theorem lower_ne_lower_append_number (name : String) (n : ℕ) :
    lower name ≠ lower (name ++ toString n) := by
  intro h
  have hlength := congrArg String.length h
  rw [Text.Casing.lower_append_number, String.length_append] at hlength
  have hdigits : 0 < (toString n).length := by
    rw [← String.length_toList, Nat.toString_eq_repr, Nat.toList_repr]
    exact List.length_pos_iff.2 Nat.toDigits_ne_nil
  omega

/-- No two trials give the same name. -/
theorem lower_attempt_inj {table : String} {m n : ℕ} :
    lower (attempt table m) = lower (attempt table n) ↔ m = n := by
  cases m with
  | zero =>
    cases n with
    | zero => simp
    | succ n => simpa [attempt] using lower_ne_lower_append_number table (n + 1)
  | succ m =>
    cases n with
    | zero => simpa [attempt] using (lower_ne_lower_append_number table (m + 1)).symm
    | succ n => exact Text.Casing.lower_append_number_inj

/-- The name in lower case without the number at its end. -/
def stem (name : String) : List Char := (lower name).toList.rdropWhile Char.isDigit

/-- Names that are alike have the same stem. -/
theorem stem_congr {name name' : String} (h : lower name = lower name') :
    stem name = stem name' := by
  rw [stem, stem, h]

/-- No trial changes the stem of the table's name. -/
theorem stem_attempt (table : String) (n : ℕ) : stem (attempt table n) = stem table := by
  cases n with
  | zero => rfl
  | succ n =>
    have hdigits : ∀ c ∈ (toString (n + 1)).toList.reverse, c.isDigit := by
      intro c hc
      rw [List.mem_reverse, Nat.toString_eq_repr, Nat.toList_repr] at hc
      exact Nat.isDigit_of_mem_toDigits (by decide) (by decide) hc
    rw [attempt, stem, Text.Casing.lower_append_number, String.toList_append, List.rdropWhile,
      List.reverse_append, List.dropWhile_append_of_pos hdigits]
    rfl

/-! ## one name -/

/-- The search from a number on ends with the least that is free. -/
theorem SearchEnds.least {taken : List String} {table name : String} {n : ℕ}
    (h : SearchEnds taken table n name) :
    ∃ k, IsLeast {k | n ≤ k ∧ lower (table ++ toString k) ∉ taken} k ∧
      name = table ++ toString k := by
  induction h with
  | @free n hfree => exact ⟨n, ⟨⟨Nat.le_refl n, hfree⟩, fun k hk => hk.1⟩, rfl⟩
  | @next n _ htaken _ ih =>
    obtain ⟨k, ⟨⟨hle, hfree⟩, hleast⟩, hname⟩ := ih
    refine ⟨k, ⟨⟨Nat.le_of_succ_le hle, hfree⟩, fun j hj => hleast ⟨?_, hj.2⟩⟩, hname⟩
    have hne : n ≠ j := by
      intro heq
      exact hj.2 (heq ▸ htaken)
    exact Nat.lt_of_le_of_ne hj.1 hne

/-- A derived name is the first that is not taken; where all instances of a repeated table are
numbered, the first with a number. -/
theorem derive_least (numbering : AliasNumbering) (repeated : Bool) (taken : List String)
    (table : String) :
    ∃ n, IsLeast {k | lower (attempt table k) ∉ taken ∧
        (numbering = .numberAll → k = 0 → repeated = false)} n ∧
      derive numbering repeated taken table = attempt table n := by
  by_cases hbare : lower table ∉ taken ∧ (numbering = .numberAll → repeated = false)
  · refine ⟨0, ⟨⟨hbare.1, fun h _ => hbare.2 h⟩, fun k _ => Nat.zero_le k⟩, ?_⟩
    cases numbering <;> simp_all [derive, attempt]
  · obtain ⟨n, ⟨⟨hpos, hfree⟩, hleast⟩, hname⟩ := (searchEnds_numbered taken table).least
    refine ⟨n, ⟨⟨?_, fun _ h => absurd h (Nat.ne_of_gt hpos)⟩, fun k hk => ?_⟩, ?_⟩
    · rwa [attempt_of_pos hpos]
    · have hk0 : k ≠ 0 := by
        rintro rfl
        exact hbare ⟨hk.1, fun h => hk.2 h rfl⟩
      have hkpos := Nat.pos_of_ne_zero hk0
      exact hleast ⟨hkpos, attempt_of_pos hkpos table ▸ hk.1⟩
    · rw [attempt_of_pos hpos, ← hname]
      cases numbering <;> simp_all [derive]

section takenAfter

variable (numbering : AliasNumbering) (isRepeated : String → Bool)

/-- The lower-case forms of the names that are taken once some instances are named. -/
def takenAfter : List String → List (String × Option String) → List String
  | taken, [] => taken
  | taken, (_, some _) :: rest => takenAfter taken rest
  | taken, (table, none) :: rest =>
    takenAfter (lower (derive numbering (isRepeated table) taken table) :: taken) rest

/-- Names for further instances are derived with those before taken. -/
theorem deriveAll_append (taken : List String) (xs ys : List (String × Option String)) :
    deriveAll numbering isRepeated taken (xs ++ ys) =
      deriveAll numbering isRepeated taken xs ++
        deriveAll numbering isRepeated (takenAfter numbering isRepeated taken xs) ys := by
  induction xs generalizing taken with
  | nil => rfl
  | cons x xs ih =>
    obtain ⟨table, _ | locked⟩ := x
    · simp only [List.cons_append, deriveAll, takenAfter, ih]
    · simp only [List.cons_append, deriveAll, takenAfter, ih]

/-- Names that are taken were so before, or have been derived. -/
theorem mem_takenAfter {taken : List String} {xs : List (String × Option String)} {form : String} :
    form ∈ takenAfter numbering isRepeated taken xs ↔
      form ∈ taken ∨ ∃ p ∈ xs.zip (deriveAll numbering isRepeated taken xs),
        p.1.2 = none ∧ lower p.2 = form := by
  induction xs generalizing taken with
  | nil => simp [takenAfter]
  | cons x xs ih =>
    obtain ⟨table, _ | locked⟩ := x
    · simp only [takenAfter, deriveAll, ih, List.mem_cons, List.zip_cons_cons, exists_eq_or_imp,
        true_and, or_assoc, eq_comm (a := form)]
      exact or_left_comm
    · simp [takenAfter, deriveAll, ih]

/-- Every instance has its name. -/
theorem length_deriveAll (taken : List String) (xs : List (String × Option String)) :
    (deriveAll numbering isRepeated taken xs).length = xs.length :=
  (names_deriveAll numbering isRepeated taken xs).length_eq.symm

/-- The name of an instance without a locked one depends on the names before it. -/
theorem getElem?_deriveAll {taken : List String} {xs : List (String × Option String)} {i : ℕ}
    {table : String} (h : xs[i]? = some (table, none)) :
    (deriveAll numbering isRepeated taken xs)[i]? =
      some (derive numbering (isRepeated table)
        (takenAfter numbering isRepeated taken (xs.take i)) table) := by
  obtain ⟨hi, hxi⟩ := List.getElem?_eq_some_iff.1 h
  have hsplit : xs = xs.take i ++ (table, none) :: xs.drop (i + 1) := by
    rw [← hxi, List.getElem_cons_drop, List.take_append_drop]
  have hlength : (deriveAll numbering isRepeated taken (xs.take i)).length = i := by
    rw [length_deriveAll, List.length_take_of_le (Nat.le_of_lt hi)]
  conv_lhs => rw [hsplit]
  rw [deriveAll_append, List.getElem?_append_right (Nat.le_of_eq hlength), hlength, Nat.sub_self]
  rfl

/-- The names of the first instances do not depend on those that follow. -/
theorem take_deriveAll (taken : List String) (xs : List (String × Option String)) (i : ℕ) :
    deriveAll numbering isRepeated taken (xs.take i) =
      (deriveAll numbering isRepeated taken xs).take i := by
  have hall := deriveAll_append numbering isRepeated taken (xs.take i) (xs.drop i)
  rw [List.take_append_drop] at hall
  have hlength := length_deriveAll numbering isRepeated taken (xs.take i)
  rcases Nat.le_total i xs.length with hi | hi
  · rw [hall, List.take_left' (hlength.trans (List.length_take_of_le hi))]
  · rw [List.take_of_length_le hi, List.take_of_length_le (by rwa [length_deriveAll])]

/-- What is taken when an instance's turn comes, by position. -/
theorem mem_takenAfter_take {taken : List String} {xs : List (String × Option String)} {i : ℕ}
    {form : String} : form ∈ takenAfter numbering isRepeated taken (xs.take i) ↔
      form ∈ taken ∨ ∃ j, j < i ∧ ∃ table, xs[j]? = some (table, none) ∧
        ∃ name, (deriveAll numbering isRepeated taken xs)[j]? = some name ∧ lower name = form := by
  rw [mem_takenAfter, take_deriveAll, List.zip, ← List.take_zipWith]
  refine or_congr_right ⟨?_, ?_⟩
  · rintro ⟨⟨⟨table, locked⟩, name⟩, hp, rfl, hform⟩
    obtain ⟨j, hj⟩ := List.getElem?_of_mem hp
    rw [List.getElem?_take] at hj
    split at hj
    · next hlt =>
      obtain ⟨hx, hname⟩ := List.getElem?_zip_eq_some.1 hj
      exact ⟨j, hlt, table, hx, name, hname, hform⟩
    · cases hj
  · rintro ⟨j, hj, table, hx, name, hname, hform⟩
    refine ⟨((table, none), name), List.mem_of_getElem? (i := j) ?_, rfl, hform⟩
    rw [List.getElem?_take_of_lt hj]
    exact List.getElem?_zip_eq_some.2 ⟨hx, hname⟩

end takenAfter

/-! ## the names of a statement -/

/-- Does no handle insist on a name for the instance? -/
def isUnlocked (r : AliasRequests) (slot : Slot) : Bool :=
  r.registrations.all fun p => p.1 ≠ slot || p.2.locked.isNone

/-- No handle insists on the name, and it is that of no earlier instance without a locked name. -/
structure Free (r : AliasRequests) (m : AliasMap) (slot : Slot) (name : String) : Prop where
  locked : ∀ p ∈ r.registrations, ∀ locked, p.2.locked = some locked → lower name ≠ lower locked
  derived : ∀ s : Slot, s.index < slot.index → r.isUnlocked s → lower name ≠ lower (m.name s)

/-- Another instance without a locked name reads a table of that name. -/
def Repeated (r : AliasRequests) (slot : Slot) : Prop :=
  ∃ s : Slot, s ≠ slot ∧ s.index < r.tables.length ∧ r.isUnlocked s ∧
    lower (r.table s) = lower (r.table slot)

/-- The name at the `n`-th trial is free; where all instances of a repeated table are numbered,
it also has a number. -/
structure Allows (r : AliasRequests) (m : AliasMap) (slot : Slot) (n : ℕ) : Prop where
  free : r.Free m slot (attempt (r.table slot) n)
  numbered : r.numbering = .numberAll → n = 0 → ¬r.Repeated slot

/-- Without a locked name no handle on the instance insists on one. -/
theorem isUnlocked_iff {r : AliasRequests} {slot : Slot} :
    r.isUnlocked slot ↔ ∀ p ∈ r.registrations, p.1 = slot → p.2.locked = none := by
  simp only [isUnlocked, List.all_eq_true, Bool.or_eq_true, decide_eq_true_iff,
    Option.isNone_iff_eq_none, ne_eq, ← imp_iff_not_or]

/-- Once the handles are settled, such an instance has nothing locked. -/
theorem isUnlocked_iff_lookup {r : AliasRequests} {c : Claims} (h : c.Settles r.registrations)
    {slot : Slot} : r.isUnlocked slot ↔ c.locked.lookup slot = none := by
  rw [isUnlocked_iff]
  constructor
  · intro hunlocked
    cases hlookup : c.locked.lookup slot with
    | none => rfl
    | some name =>
      obtain ⟨a, ha, hname⟩ := h.insisted _ (mem_of_lookup hlookup)
      rw [hunlocked _ ha rfl] at hname
      cases hname
  · rintro hlookup p hp rfl
    cases hname : p.2.locked with
    | none => rfl
    | some name =>
      rw [h.locked p hp name hname] at hlookup
      cases hlookup

/-- The names that are locked are those that handles insist on. -/
theorem mem_locked_iff {r : AliasRequests} {c : Claims} (h : c.Settles r.registrations)
    {form : String} : (form ∈ c.locked.map fun l => lower l.2) ↔
      ∃ p ∈ r.registrations, ∃ name, p.2.locked = some name ∧ lower name = form := by
  rw [List.mem_map]
  constructor
  · rintro ⟨l, hl, rfl⟩
    obtain ⟨a, ha, hname⟩ := h.insisted l hl
    exact ⟨_, ha, l.2, hname, rfl⟩
  · rintro ⟨p, hp, name, hname, rfl⟩
    exact ⟨_, mem_of_lookup (h.locked p hp name hname), rfl⟩

/-- More than one element has a property if one has it and another one too. -/
theorem one_lt_countP_iff {P : α → Bool} {xs : List α} {i : ℕ} {x : α} (h : xs[i]? = some x)
    (hx : P x) : 1 < xs.countP P ↔ ∃ j, j ≠ i ∧ ∃ y, xs[j]? = some y ∧ P y := by
  obtain ⟨hi, hxi⟩ := List.getElem?_eq_some_iff.1 h
  -- `x` counts once, so another one counts before it or behind it
  have hsplit : xs = xs.take i ++ x :: xs.drop (i + 1) := by
    rw [← hxi, List.getElem_cons_drop, List.take_append_drop]
  have hcount : xs.countP P = (xs.take i).countP P + ((xs.drop (i + 1)).countP P + 1) := by
    conv_lhs => rw [hsplit]
    rw [List.countP_append, List.countP_cons_of_pos hx]
  constructor
  · intro hlt
    have hother : 0 < (xs.take i).countP P ∨ 0 < (xs.drop (i + 1)).countP P := by omega
    rcases hother with hbefore | hbehind
    · obtain ⟨y, hy, hP⟩ := List.countP_pos_iff.1 hbefore
      obtain ⟨j, hj, rfl⟩ := List.mem_take_iff_getElem.1 hy
      exact ⟨j, by omega, _, List.getElem?_eq_getElem (by omega), hP⟩
    · obtain ⟨y, hy, hP⟩ := List.countP_pos_iff.1 hbehind
      obtain ⟨j, hj, rfl⟩ := List.mem_drop_iff_getElem.1 hy
      exact ⟨i + 1 + j, by omega, _, List.getElem?_eq_getElem (by omega), hP⟩
  · rintro ⟨j, hne, y, hy, hP⟩
    obtain ⟨hj, rfl⟩ := List.getElem?_eq_some_iff.1 hy
    rcases Nat.lt_or_gt_of_ne hne with hlt | hgt
    · have hmem : xs[j] ∈ xs.take i := List.mem_take_iff_getElem.2 ⟨j, by omega, rfl⟩
      have hpos := List.countP_pos_iff.2 ⟨_, hmem, hP⟩
      omega
    · have hmem : xs[j] ∈ xs.drop (i + 1) :=
        List.mem_drop_iff_getElem.2 ⟨j - (i + 1), by omega, by congr 1; omega⟩
      have hpos := List.countP_pos_iff.2 ⟨_, hmem, hP⟩
      omega

/-- The instances without locked names, by their position. -/
theorem getElem?_withLocked_iff {r : AliasRequests} {c : Claims} (h : c.Settles r.registrations)
    {i : ℕ} {table : String} : (r.withLocked c)[i]? = some (table, none) ↔
      i < r.tables.length ∧ r.table ⟨i⟩ = table ∧ r.isUnlocked ⟨i⟩ := by
  rw [getElem?_withLocked, isUnlocked_iff_lookup h]
  by_cases hi : i < r.tables.length <;> simp [hi, AliasRequests.table]

/-- A table is repeated if two instances without locked names read it. -/
theorem isRepeated_iff {r : AliasRequests} {c : Claims} (h : c.Settles r.registrations)
    {slot : Slot} (hslot : slot.index < r.tables.length) (hunlocked : r.isUnlocked slot) :
    isRepeated (r.withLocked c) (r.table slot) ↔ r.Repeated slot := by
  have hown := (getElem?_withLocked_iff h).2 ⟨hslot, rfl, hunlocked⟩
  rw [isRepeated, decide_eq_true_iff, one_lt_countP_iff hown (by simp)]
  constructor
  · rintro ⟨j, hne, ⟨table, locked⟩, hj, hP⟩
    simp only [Bool.and_eq_true, Option.isNone_iff_eq_none, beq_iff_eq] at hP
    obtain ⟨rfl, halike⟩ := hP
    obtain ⟨hlt, rfl, hfree⟩ := (getElem?_withLocked_iff h).1 hj
    exact ⟨⟨j⟩, fun heq => hne (congrArg Slot.index heq), hlt, hfree, halike⟩
  · rintro ⟨s, hne, hlt, hfree, halike⟩
    refine ⟨s.index, fun heq => hne ?_, _, (getElem?_withLocked_iff h).2 ⟨hlt, rfl, hfree⟩, ?_⟩
    · cases s
      cases slot
      exact congrArg Slot.mk heq
    · simpa using halike

/-- A name is free if it is not taken when the instance's turn comes. -/
theorem free_iff {r : AliasRequests} {c : Claims} (h : c.Settles r.registrations)
    {handles : List (Nat × Slot)} {slot : Slot} (hslot : slot.index < r.tables.length)
    {name : String} {taken : List String} (htaken : (c.locked.map fun l => lower l.2) = taken)
    {isRepeated : String → Bool} :
    r.Free ⟨deriveAll r.numbering isRepeated taken (r.withLocked c), handles⟩ slot name ↔
      lower name ∉ takenAfter r.numbering isRepeated taken ((r.withLocked c).take slot.index) := by
  subst htaken
  have hnames : (deriveAll r.numbering isRepeated (c.locked.map fun l => lower l.2)
      (r.withLocked c)).length = r.tables.length :=
    (length_deriveAll ..).trans (List.length_mapIdx ..)
  -- taken are the locked names and those derived for earlier slots
  rw [mem_takenAfter_take, not_or, mem_locked_iff h]
  constructor
  · intro hfree
    refine ⟨?_, ?_⟩
    · rintro ⟨p, hp, locked, hlocked, halike⟩
      exact hfree.locked p hp locked hlocked halike.symm
    · rintro ⟨j, hj, table, hx, own, hown, halike⟩
      obtain ⟨-, -, hunlocked⟩ := (getElem?_withLocked_iff h).1 hx
      refine hfree.derived ⟨j⟩ hj hunlocked ?_
      rw [AliasMap.name, List.getD_eq_getElem?_getD, hown, ← halike]
      rfl
  · rintro ⟨hlocked, hderived⟩
    refine ⟨fun p hp locked hname halike => hlocked ⟨p, hp, locked, hname, halike.symm⟩,
      fun s hs hunlocked halike => ?_⟩
    have hlt : s.index < r.tables.length := Nat.lt_trans hs hslot
    refine hderived ⟨s.index, hs, r.table s,
      (getElem?_withLocked_iff h).2 ⟨hlt, rfl, hunlocked⟩, _,
      List.getElem?_eq_getElem (hnames ▸ hlt), ?_⟩
    rw [halike, AliasMap.name, List.getD_eq_getElem?_getD, List.getElem?_eq_getElem (hnames ▸ hlt)]
    rfl

/-- Every instance without a locked name has the first name that is allowed when its turn
comes. -/
theorem least_of_allocate {r : AliasRequests} (hr : r.WellFormed) {m : AliasMap}
    (h : r.allocate = .ok m) {slot : Slot} (hslot : slot.index < r.tables.length)
    (hunlocked : r.isUnlocked slot) :
    ∃ n, IsLeast {k | r.Allows m slot k} n ∧ m.name slot = attempt (r.table slot) n := by
  simp only [allocate, bind_eq_ok, pure_eq_ok] at h
  obtain ⟨c, hc, rfl⟩ := h
  have hsettles := settles_of_claimAll hr hc
  have hown := (getElem?_withLocked_iff hsettles).2 ⟨hslot, rfl, hunlocked⟩
  obtain ⟨n, hleast, hname⟩ := derive_least r.numbering
    (isRepeated (r.withLocked c) (r.table slot))
    (takenAfter r.numbering (isRepeated (r.withLocked c)) (c.locked.map fun l => lower l.2)
      ((r.withLocked c).take slot.index)) (r.table slot)
  refine ⟨n, ?_, ?_⟩
  · convert hleast using 3 with k
    rw [← free_iff hsettles hslot rfl, ← Bool.not_eq_true, isRepeated_iff hsettles hslot hunlocked]
    exact ⟨fun h => ⟨h.free, h.numbered⟩, fun h => ⟨h.1, h.2⟩⟩
  · rw [AliasMap.name, List.getD_eq_getElem?_getD, getElem?_deriveAll _ _ hown, Option.getD_some,
      hname]

end AliasRequests

end AssociationQuery
