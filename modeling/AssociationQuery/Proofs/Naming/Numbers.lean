import AssociationQuery.Alias.Allocation
import Mathlib.Data.List.Nodup
import Mathlib.Data.List.Perm.Subperm

/-!
# AssociationQuery.Proofs.Naming.Numbers

Numbers behind the name of a table.

A number has no case, and it does not hide what stands before it either: in lower
case a numbered name is the name in lower case with the same number.  So different
numbers give different names, and the search for a number that is free comes to an
end after as many tries as there are names taken.
-/

namespace AssociationQuery

namespace Text.Casing

/-! ## digits in lower case -/

theorem eq_ofNat_of_isDigit {c : Char} (h : c.isDigit) : ∃ k : Fin 10, c = Char.ofNat (48 + k) := by
  have hbounds : 48 ≤ c.toNat ∧ c.toNat ≤ 57 := by
    rw [Char.isDigit, Bool.and_eq_true, decide_eq_true_iff, decide_eq_true_iff] at h
    exact h
  refine ⟨⟨c.toNat - 48, by omega⟩, ?_⟩
  rw [Nat.add_sub_cancel' hbounds.1, Char.ofNat_toNat]

theorem lowerChar_of_isDigit {c : Char} (h : c.isDigit) : lowerChar c = [c] := by
  obtain ⟨k, rfl⟩ := eq_ofNat_of_isDigit h
  revert k
  decide

theorem ne_sigma_of_isDigit {c : Char} (h : c.isDigit) : c ≠ 'Σ' := by
  obtain ⟨k, rfl⟩ := eq_ofNat_of_isDigit h
  revert k
  decide

/-- Digits neither have case nor are passed over in the search for a letter that has. -/
theorem within_of_isDigit {c : Char} (h : c.isDigit) :
    within casedSpans c = false ∧ within ignorableSpans c = false := by
  obtain ⟨k, rfl⟩ := eq_ofNat_of_isDigit h
  revert k
  decide +kernel

theorem meetsCased_append_digits (cs : List Char) {ds : List Char} (h : ∀ d ∈ ds, d.isDigit) :
    meetsCased (cs ++ ds) = meetsCased cs := by
  induction cs with
  | nil =>
    cases ds with
    | nil => rfl
    | cons d ds =>
      obtain ⟨hcased, hignorable⟩ := within_of_isDigit (h d List.mem_cons_self)
      simp [meetsCased, hcased, hignorable]
  | cons c cs ih =>
    cases hc : within ignorableSpans c with
    | true => simpa [meetsCased, hc] using ih
    | false => simp [meetsCased, hc]

theorem lowerFrom_append_digits (before cs : List Char) {ds : List Char}
    (h : ∀ d ∈ ds, d.isDigit) : lowerFrom before (cs ++ ds) = lowerFrom before cs ++ ds := by
  induction cs generalizing before with
  | nil =>
    induction ds generalizing before with
    | nil => rfl
    | cons d ds ih =>
      obtain ⟨hd, hds⟩ := List.forall_mem_cons.1 h
      have hrest : lowerFrom (d :: before) ds = ds := ih hds (d :: before)
      change lowerFrom before (d :: ds) = d :: ds
      rw [lowerFrom, if_neg (ne_sigma_of_isDigit hd), lowerChar_of_isDigit hd, hrest]
      rfl
  | cons c cs ih =>
    rw [List.cons_append, lowerFrom, lowerFrom, meetsCased_append_digits cs h, ih,
      List.append_assoc]

/-- A number behind a name stays as it is. -/
theorem lower_append_number (name : String) (n : Nat) :
    lower (name ++ toString n) = lower name ++ toString n := by
  have hdigits : ∀ d ∈ (toString n).toList, d.isDigit := by
    intro d hd
    have hd' : d ∈ Nat.toDigits 10 n := by simpa using hd
    exact Nat.isDigit_of_mem_toDigits (by decide) (by decide) hd'
  rw [lower, String.toList_append, lowerFrom_append_digits [] _ hdigits, String.ofList_append,
    String.ofList_toList]
  rfl

/-- Names that differ in their numbers only are not alike. -/
theorem lower_append_number_inj {name : String} {m n : Nat} :
    lower (name ++ toString m) = lower (name ++ toString n) ↔ m = n := by
  constructor
  · intro h
    rw [lower_append_number, lower_append_number, String.append_right_inj] at h
    have hdigits := congrArg (fun s => Nat.ofDigitChars 10 s.toList 0) h
    simpa using hdigits
  · exact fun h => h ▸ rfl

end Text.Casing

namespace AliasRequests

open Text.Casing (lower lower_append_number_inj)

/-! ## the search for a free number -/

/-- The search for a number from `n` on: while the name with that number is taken it goes on
with the next one. -/
inductive SearchEnds (taken : List String) (table : String) : Nat → String → Prop where
  | free {n : Nat} (h : lower (table ++ toString n) ∉ taken) :
      SearchEnds taken table n (table ++ toString n)
  | next {n : Nat} {name : String} (h : lower (table ++ toString n) ∈ taken)
      (later : SearchEnds taken table (n + 1) name) : SearchEnds taken table n name

/-- The search ends with a number that is free. -/
theorem SearchEnds.exists_number {taken : List String} {table name : String} {n : Nat}
    (h : SearchEnds taken table n name) :
    ∃ k, n ≤ k ∧ name = table ++ toString k ∧ lower name ∉ taken := by
  induction h with
  | @free n hfree => exact ⟨n, Nat.le_refl n, rfl, hfree⟩
  | next _ _ ih =>
    obtain ⟨k, hle, hname, hfree⟩ := ih
    exact ⟨k, Nat.le_of_succ_le hle, hname, hfree⟩

/-- The numbered names of a table, from a number on. -/
def candidates (table : String) (first count : Nat) : List String :=
  (List.range' first count).map fun n => table ++ toString n

theorem searchEnds_of_find? {taken : List String} {table name : String} {first count : Nat}
    (h : (candidates table first count).find? (fun c => !taken.contains (lower c)) = some name) :
    SearchEnds taken table first name := by
  induction count generalizing first with
  | zero => simp [candidates] at h
  | succ count ih =>
    rw [candidates, List.range'_succ, List.map_cons, ← candidates, List.find?_cons] at h
    split at h
    · next hfree =>
      obtain rfl := Option.some.inj h
      exact .free (by simpa using hfree)
    · next htaken => exact .next (by simpa using htaken) (ih h)

/-- Among more numbers than there are names taken one is free. -/
theorem exists_find?_candidates (taken : List String) (table : String) (first : Nat) :
    ∃ name, (candidates table first (taken.length + 1)).find?
      (fun c => !taken.contains (lower c)) = some name := by
  rw [← Option.isSome_iff_exists, List.find?_isSome]
  by_contra hnone
  have hall : ∀ n ∈ List.range' first (taken.length + 1), lower (table ++ toString n) ∈ taken := by
    intro n hn
    by_contra hfree
    exact hnone ⟨_, List.mem_map_of_mem hn, by simpa using hfree⟩
  have hnodup : ((List.range' first (taken.length + 1)).map
      fun n => lower (table ++ toString n)).Nodup :=
    List.Nodup.map (fun _ _ h => lower_append_number_inj.1 h) List.nodup_range'
  have hle := (hnodup.subperm (List.forall_mem_map.2 hall)).length_le
  rw [List.length_map, List.length_range'] at hle
  omega

/-- The number that a table is given is the one that the search from one on ends with. -/
theorem searchEnds_numbered (taken : List String) (table : String) :
    SearchEnds taken table 1 (numbered taken table) := by
  have hcandidates : (List.range (taken.length + 1)).map (fun n => table ++ toString (n + 1)) =
      candidates table 1 (taken.length + 1) := by
    rw [candidates, List.range'_eq_map_range, List.map_map]
    exact List.map_congr_left fun n _ => by simp [Nat.add_comm]
  obtain ⟨name, hname⟩ := exists_find?_candidates taken table 1
  rw [numbered, hcandidates, hname]
  exact searchEnds_of_find? hname

end AliasRequests

end AssociationQuery
