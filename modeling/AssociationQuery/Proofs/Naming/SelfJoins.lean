import AssociationQuery.Proofs.Naming.LeastNumbers
import Mathlib.Order.Bounds.Basic

/-!
# AssociationQuery.Proofs.Naming.SelfJoins

How the instances of one table are told apart.

If nothing else in the statement is named like the table with a number, its instances are numbered
one after the other: from the table's own name on where the first instance keeps it, from one on
where all are numbered.  What stands between them does not matter,
`AliasRequests.allocation_least`.
-/

namespace AssociationQuery

namespace AliasRequests

open Text.Casing (lower)

/-- The instances without locked names that read the table, as far as they stand before a
position. -/
def instancesBefore (r : AliasRequests) (table : String) (n : ℕ) : List Slot :=
  ((List.range n).map Slot.mk).filter fun s => r.isUnlocked s && r.table s = table

/-- The instances without locked names that read the table, in their order. -/
def instancesOf (r : AliasRequests) (table : String) : List Slot :=
  r.instancesBefore table r.tables.length

/-- Up to case and the number at its end, no other table of an instance without a locked name
and no locked name is like the table. -/
structure SetsApart (r : AliasRequests) (table : String) : Prop where
  tables : ∀ s : Slot, s.index < r.tables.length → r.isUnlocked s → r.table s ≠ table →
    stem (r.table s) ≠ stem table
  locked : ∀ p ∈ r.registrations, ∀ name, p.2.locked = some name → stem name ≠ stem table

/-- The number of the first of several instances of a table. -/
def firstNumber : AliasNumbering → ℕ
  | .keepFirst => 0
  | .numberAll => 1

section instances

variable {r : AliasRequests} {table : String} {m : AliasMap}

/-- The instances before a position are those without locked names that read the table. -/
theorem mem_instancesBefore {n : ℕ} {s : Slot} :
    s ∈ r.instancesBefore table n ↔ s.index < n ∧ r.isUnlocked s ∧ r.table s = table := by
  obtain ⟨i⟩ := s
  simp [instancesBefore]

/-- An instance of the table comes last among those before the next position. -/
theorem instancesBefore_succ_of_mem {slot : Slot} (h : slot ∈ r.instancesOf table) :
    r.instancesBefore table (slot.index + 1) = r.instancesBefore table slot.index ++ [slot] := by
  obtain ⟨-, hunlocked, htable⟩ := mem_instancesBefore.1 h
  rw [instancesBefore, List.range_succ, List.map_append, List.filter_append]
  simp [instancesBefore, hunlocked, htable]

/-- Any other instance does not count. -/
theorem instancesBefore_succ_of_notMem {n : ℕ} (hn : n < r.tables.length)
    (h : ⟨n⟩ ∉ r.instancesOf table) :
    r.instancesBefore table (n + 1) = r.instancesBefore table n := by
  have hother : ¬(r.isUnlocked ⟨n⟩ ∧ r.table ⟨n⟩ = table) :=
    fun hboth => h (mem_instancesBefore.2 ⟨hn, hboth⟩)
  rw [instancesBefore, List.range_succ, List.map_append, List.filter_append]
  simpa [instancesBefore] using hother

/-- No instance counts twice. -/
theorem nodup_instancesBefore (n : ℕ) : (r.instancesBefore table n).Nodup :=
  (List.nodup_range.map fun _ _ h => congrArg Slot.index h).filter _

/-- One of several instances reads a table that another one reads too. -/
theorem repeated_of_instances (h : 2 ≤ (r.instancesOf table).length) {slot : Slot}
    (hslot : slot ∈ r.instancesOf table) : r.Repeated slot := by
  have hcard : 1 < (r.instancesOf table).toFinset.card := by
    rw [instancesOf, List.toFinset_card_of_nodup (nodup_instancesBefore _)]
    exact h
  obtain ⟨other, hother, hne⟩ := Finset.exists_mem_ne hcard slot
  obtain ⟨-, -, htable⟩ := mem_instancesBefore.1 hslot
  obtain ⟨hlt, hunlocked, hsame⟩ := mem_instancesBefore.1 (List.mem_toFinset.1 hother)
  exact ⟨other, hne, hlt, hunlocked, by rw [hsame, htable]⟩

/-- When the turn of an instance comes, the names with the numbers of the instances before it are
taken, and no others of the table's. -/
theorem allows_iff (hapart : r.SetsApart table) (hrepeated : 2 ≤ (r.instancesOf table).length)
    (hderived : ∀ s : Slot, s.index < r.tables.length → r.isUnlocked s →
      ∃ n, m.name s = attempt (r.table s) n)
    {slot : Slot} (hslot : slot ∈ r.instancesOf table) {count : ℕ}
    (hbefore : (r.instancesBefore table slot.index).map m.name =
      (List.range' (firstNumber r.numbering) count).map (attempt table)) {k : ℕ} :
    r.Allows m slot k ↔ firstNumber r.numbering + count ≤ k := by
  obtain ⟨hinside, -, htable⟩ := mem_instancesBefore.1 hslot
  constructor
  · intro h
    by_contra hlt
    -- a smaller number was given to an instance before this one
    have hfirst : firstNumber r.numbering ≤ k := by
      cases hnumbering : r.numbering with
      | keepFirst => exact Nat.zero_le k
      | numberAll =>
        refine Nat.one_le_iff_ne_zero.2 fun hzero => ?_
        exact h.numbered hnumbering hzero (repeated_of_instances hrepeated hslot)
    have hgiven : attempt table k ∈ (r.instancesBefore table slot.index).map m.name := by
      rw [hbefore]
      exact List.mem_map_of_mem (List.mem_range'_1.2 ⟨hfirst, Nat.not_le.1 hlt⟩)
    obtain ⟨s, hs, hname⟩ := List.mem_map.1 hgiven
    obtain ⟨hearlier, hunlocked, -⟩ := mem_instancesBefore.1 hs
    exact h.free.derived s hearlier hunlocked (by rw [hname, htable])
  · intro hle
    refine ⟨⟨fun p hp name hname halike => ?_, fun s hearlier hunlocked halike => ?_⟩,
      fun hnumbering hzero => ?_⟩
    -- neither a lock nor another table has a name of this stem
    · refine hapart.locked p hp name hname ?_
      rw [← stem_congr halike, htable, stem_attempt]
    · have hlt : s.index < r.tables.length := Nat.lt_trans hearlier hinside
      by_cases hsame : r.table s = table
      · have hgiven : m.name s ∈ (r.instancesBefore table slot.index).map m.name :=
          List.mem_map_of_mem (mem_instancesBefore.2 ⟨hearlier, hunlocked, hsame⟩)
        rw [hbefore] at hgiven
        obtain ⟨j, hj, hname⟩ := List.mem_map.1 hgiven
        rw [← hname, htable, lower_attempt_inj] at halike
        have := (List.mem_range'_1.1 hj).2
        omega
      · obtain ⟨n, hname⟩ := hderived s hlt hunlocked
        refine hapart.tables s hlt hunlocked hsame ?_
        rw [← stem_attempt _ n, ← hname, ← stem_congr halike, htable, stem_attempt]
    · rw [hnumbering, hzero] at hle
      simp [firstNumber] at hle

/-- The instances before a position are numbered one after the other. -/
theorem map_instancesBefore (hapart : r.SetsApart table)
    (hrepeated : 2 ≤ (r.instancesOf table).length)
    (hleast : ∀ s : Slot, s.index < r.tables.length → r.isUnlocked s →
      ∃ n, IsLeast {k | r.Allows m s k} n ∧ m.name s = attempt (r.table s) n)
    {n : ℕ} (hn : n ≤ r.tables.length) : (r.instancesBefore table n).map m.name =
      (List.range' (firstNumber r.numbering) (r.instancesBefore table n).length).map
        (attempt table) := by
  -- slot by slot: the least number allowed is the one behind those given before
  induction n with
  | zero => rfl
  | succ n ih =>
    have hbefore := ih (Nat.le_of_succ_le hn)
    by_cases hslot : ⟨n⟩ ∈ r.instancesOf table
    · obtain ⟨hinside, hunlocked, htable⟩ := mem_instancesBefore.1 hslot
      obtain ⟨k, hk, hname⟩ := hleast ⟨n⟩ hinside hunlocked
      have hallows : {j | r.Allows m ⟨n⟩ j} =
          Set.Ici (firstNumber r.numbering + (r.instancesBefore table n).length) :=
        Set.ext fun j => allows_iff hapart hrepeated
          (fun s hs hs' => (hleast s hs hs').imp fun _ h => h.2) hslot hbefore
      rw [hallows] at hk
      obtain rfl := IsLeast.unique hk isLeast_Ici
      rw [instancesBefore_succ_of_mem hslot, List.map_append, hbefore, List.length_append,
        List.length_singleton, List.range'_1_concat, List.map_append, List.map_singleton, hname,
        htable]
      rfl
    · rw [instancesBefore_succ_of_notMem hn hslot]
      exact hbefore

end instances

/-- Every instance without a locked name gets the first of its table's names that is allowed when
its turn comes.  So several instances of a table that is set apart from all other names are
numbered one after the other. -/
theorem allocation_least {r : AliasRequests} (hr : r.WellFormed) {m : AliasMap}
    (h : r.allocate = .ok m) :
    (∀ slot : Slot, slot.index < r.tables.length → r.isUnlocked slot →
      ∃ n, IsLeast {k | r.Allows m slot k} n ∧ m.name slot = attempt (r.table slot) n) ∧
    ∀ table, r.SetsApart table → 2 ≤ (r.instancesOf table).length →
      (r.instancesOf table).map m.name =
        (List.range' (firstNumber r.numbering) (r.instancesOf table).length).map
          (attempt table) := by
  have hleast : ∀ slot : Slot, slot.index < r.tables.length → r.isUnlocked slot →
      ∃ n, IsLeast {k | r.Allows m slot k} n ∧ m.name slot = attempt (r.table slot) n :=
    fun slot hslot hunlocked => least_of_allocate hr h hslot hunlocked
  exact ⟨hleast, fun table hapart hrepeated =>
    map_instancesBefore hapart hrepeated hleast (Nat.le_refl _)⟩

/-- Employees with their managers and the managers of these, among other tables.  A handle insists
on a numbered name of another table. -/
def managers : AliasRequests where
  numbering := .numberAll
  tables := ["persons", "teams", "persons", "offices", "Persons9", "persons"]
  registrations := [(⟨3⟩, ⟨0, some "TEAMS1"⟩), (⟨4⟩, ⟨1, some "boss"⟩)]

/-- No other name is like that of the persons. -/
theorem setsApart_managers : managers.SetsApart "persons" where
  tables := by
    have hall : ∀ i < 6, managers.isUnlocked ⟨i⟩ → managers.table ⟨i⟩ ≠ "persons" →
        stem (managers.table ⟨i⟩) ≠ stem "persons" := by decide +kernel
    exact fun s hs => hall s.index hs
  locked := by
    have hall : ∀ p ∈ managers.registrations, ∀ name ∈ p.2.locked.toList,
        stem name ≠ stem "persons" := by decide +kernel
    exact fun p hp name hname => hall p hp name (by simp [hname])

/-- Three instances of a table, numbered from one on. -/
theorem allocation_least_managers :
    managers.WellFormed ∧ managers.SetsApart "persons" ∧
      managers.instancesOf "persons" = [⟨0⟩, ⟨2⟩, ⟨5⟩] ∧ ∃ m, managers.allocate = .ok m ∧
        (∃ n, IsLeast {k | managers.Allows m ⟨1⟩ k} n ∧ m.name ⟨1⟩ = attempt "teams" n) ∧
        [m.name ⟨0⟩, m.name ⟨2⟩, m.name ⟨5⟩] = ["persons1", "persons2", "persons3"] := by
  have hwell : managers.WellFormed := by
    constructor <;> decide
  have hinstances : managers.instancesOf "persons" = [⟨0⟩, ⟨2⟩, ⟨5⟩] := by decide +kernel
  obtain ⟨m, hm⟩ : ∃ m, managers.allocate = .ok m := exists_of_isOk (by decide +kernel)
  obtain ⟨hleast, hnumbered⟩ := allocation_least hwell hm
  have hnames := hnumbered "persons" setsApart_managers (by rw [hinstances]; decide)
  rw [hinstances] at hnames
  exact ⟨hwell, setsApart_managers, hinstances, m, hm,
    hleast ⟨1⟩ (by decide) (by decide), hnames.trans (by decide +kernel)⟩

end AliasRequests

end AssociationQuery
