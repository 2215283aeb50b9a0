import AssociationQuery.Proofs.Planning.Faults
import AssociationQuery.Proofs.Planning.Flattening

/-!
# AssociationQuery.Proofs.Planning.Pivots

What becomes of the marks on pivots.

A pivot may be marked as optional or as required, whatever is asked for of the association that it
is the pivot of.  If marks meant what they say, then each hop would have the requirement that is
handed down to it, `Association.handedDown`, and an association could not be traversed only where
it hands `required` to an association whose pivot is marked as optional.  This is so for everything
that is asked for as required.  Below an optional association, however, the mark `required` has no
effect: `Association.routeFor_honours_iff` says that marks are honoured exactly where there is no
such mark.
-/

namespace AssociationQuery

namespace Association

/-! ## marks -/

/-- The requirements of the leaves, from left to right: a through association hands its own down to
its target, and to its pivot unless that is marked with another one. -/
def handedDown (requirement : Requirement) : Association → List Requirement
  | direct .. => [requirement]
  | through _ pivot target .. =>
    pivot.handedDown (pivot.optionality.getD requirement) ++ target.handedDown requirement

/-- Some through association that is traversed as required has a pivot marked as optional. -/
def Contradicts (requirement : Requirement) : Association → Prop
  | direct .. => False
  | through _ pivot target .. =>
    (requirement = .required ∧ pivot.optionality = some .optional) ∨
      pivot.Contradicts (pivot.optionality.getD requirement) ∨ target.Contradicts requirement

/-- Some pivot inside the association has the mark. -/
def HasPivotMarked (mark : Requirement) : Association → Prop
  | direct .. => False
  | through _ pivot target .. =>
    pivot.optionality = some mark ∨ pivot.HasPivotMarked mark ∨ target.HasPivotMarked mark

/-- With the requirement the association is traversed as its marks say. -/
structure Honours (a : Association) (requirement : Requirement) : Prop where
  fails : (∃ e, a.routeFor requirement = .error e) ↔ a.Contradicts requirement
  requirements : ∀ r, a.routeFor requirement = .ok r →
    r.hops.map Hop.requirement = a.handedDown requirement

/-! ## what marks say -/

/-- A mark that is not the other requirement leaves the requirement as it is. -/
theorem getD_mark {q m : Requirement} (hm : m ≠ q) {mark : Option Requirement}
    (h : mark ≠ some m) : mark.getD q = q := by
  cases mark with
  | none => rfl
  | some p => cases p <;> cases q <;> cases m <;> simp_all

/-- Some leaf gets the requirement that the association is asked for. -/
theorem mem_handedDown (q : Requirement) : (a : Association) → q ∈ a.handedDown q
  | direct .. => List.mem_singleton_self _
  | through _ _ target _ _ _ => List.mem_append_right _ (mem_handedDown q target)

/-- Where no pivot has the other mark, the same requirement is handed down to every leaf. -/
theorem handedDown_of_unmarked {q m : Requirement} (hm : m ≠ q) : (a : Association) →
    ¬a.HasPivotMarked m → a.handedDown q = List.replicate a.leaves.length q
  | direct .., _ => rfl
  | through _ pivot target _ _ _, h => by
    simp only [HasPivotMarked, not_or] at h
    obtain ⟨hmark, hpivot, htarget⟩ := h
    rw [handedDown, getD_mark hm hmark, handedDown_of_unmarked hm pivot hpivot,
      handedDown_of_unmarked hm target htarget, leaves, List.length_append,
      List.replicate_append_replicate]

/-- Without a pivot that has the other mark there is no contradiction. -/
theorem not_contradicts_of_unmarked {q m : Requirement} (hm : m ≠ q) : (a : Association) →
    ¬a.HasPivotMarked m → ¬a.Contradicts q
  | direct .., _ => id
  | through _ pivot target _ _ _, h => by
    simp only [HasPivotMarked, not_or] at h
    obtain ⟨hmark, hpivot, htarget⟩ := h
    rw [Contradicts, getD_mark hm hmark, not_or, not_or]
    refine ⟨?_, not_contradicts_of_unmarked hm pivot hpivot,
      not_contradicts_of_unmarked hm target htarget⟩
    rintro ⟨rfl, hoptional⟩
    cases m with
    | required => exact hm rfl
    | optional => exact hmark hoptional

/-- What is asked for as required contradicts a pivot that is marked as optional, and nothing else.
-/
theorem contradicts_required_iff : (a : Association) →
    a.Contradicts .required ↔ a.HasPivotMarked .optional
  | direct .. => Iff.rfl
  | through _ pivot target _ _ _ => by
    have hne : Requirement.optional ≠ .required := nofun
    rw [Contradicts, HasPivotMarked, contradicts_required_iff target, and_iff_right rfl]
    by_cases hmark : pivot.optionality = some .optional
    · exact iff_of_true (.inl hmark) (.inl hmark)
    · rw [getD_mark hne hmark, contradicts_required_iff pivot]

/-- Some leaf below a pivot that is marked as required is required. -/
theorem required_mem_handedDown : (a : Association) → a.HasPivotMarked .required →
    .required ∈ a.handedDown .optional
  | through _ pivot target _ _ _, h => by
    rw [handedDown, List.mem_append]
    rcases h with hmark | hpivot | htarget
    · rw [hmark]
      exact .inl (mem_handedDown .required pivot)
    · refine .inl ?_
      cases hgiven : pivot.optionality.getD .optional with
      | required => exact mem_handedDown .required pivot
      | optional => exact required_mem_handedDown pivot hpivot
    · exact .inr (required_mem_handedDown target htarget)

/-! ## what becomes of them -/

/-- A pivot is refused if it is optional below a required association. -/
theorem exists_pivotRequirement_error_iff {name : String} {pivot : Association} {q : Requirement} :
    (∃ e, pivotRequirement name pivot q = .error e) ↔
      q = .required ∧ pivot.optionality = some .optional := by
  unfold pivotRequirement
  cases pivot.optionality with
  | none => simp
  | some mark => cases mark <;> cases q <;> simp

/-- An association cannot be traversed exactly if it is asked for as required and some pivot in it
is marked as optional. -/
theorem exists_routeFor_error_iff {q : Requirement} : (a : Association) →
    ((∃ e, a.routeFor q = .error e) ↔ q = .required ∧ a.HasPivotMarked .optional)
  | direct .. => by simp [routeFor, HasPivotMarked]
  | through name pivot target filters order optionality => by
    have hparts :
        (∃ e, (through name pivot target filters order optionality).routeFor q = .error e) ↔
        (∃ e, pivotRequirement name pivot q = .error e) ∨ (∃ e, pivot.routeFor q = .error e) ∨
          ∃ e, target.routeFor q = .error e := by
      rw [routeFor]
      cases hp : pivotRequirement name pivot q with
      | error e => simp [bind, Except.bind]
      | ok p =>
        obtain rfl := pivotRequirement_eq hp
        cases hv : pivot.routeFor p <;> cases target.routeFor p <;>
          simp [bind, Except.bind, pure, Except.pure, hv]
    rw [hparts, exists_pivotRequirement_error_iff, exists_routeFor_error_iff pivot,
      exists_routeFor_error_iff target, HasPivotMarked, and_or_left, and_or_left]

/-- Every hop gets the requirement that the association is asked for. -/
theorem map_requirement_routeFor {a : Association} {q : Requirement} {r : Route}
    (h : a.routeFor q = .ok r) :
    r.hops.map Hop.requirement = List.replicate a.leaves.length q := by
  have hlength : r.hops.length = a.leaves.length := by
    have hstages := congrArg List.length (a.carries_routeFor h).stages
    rwa [List.length_map, length_stages] at hstages
  refine List.eq_replicate_iff.2 ⟨(List.length_map _).trans hlength, ?_⟩
  exact List.forall_mem_map.2 (a.requirements_routeFor h)

/-- Whatever is asked for as required is traversed as the marks say. -/
theorem honours_required (a : Association) : a.Honours .required where
  fails := by rw [exists_routeFor_error_iff, contradicts_required_iff, and_iff_right rfl]
  requirements r hr := by
    have hne : Requirement.optional ≠ .required := nofun
    have hunmarked : ¬a.HasPivotMarked .optional := by
      intro hmarked
      obtain ⟨e, he⟩ := a.exists_routeFor_error_iff.2 ⟨rfl, hmarked⟩
      rw [he] at hr
      cases hr
    rw [map_requirement_routeFor hr, handedDown_of_unmarked hne a hunmarked]

/-- What is asked for as optional is always traversed, and with no requirement at any hop. -/
theorem honours_optional_iff (a : Association) :
    a.Honours .optional ↔ ¬a.HasPivotMarked .required := by
  have hnever : ¬∃ e, a.routeFor .optional = .error e := by
    rw [exists_routeFor_error_iff]
    exact fun hfails => absurd hfails.1 nofun
  constructor
  · intro h hmarked
    have hmem := a.required_mem_handedDown hmarked
    cases hr : a.routeFor .optional with
    | error e => exact hnever ⟨e, hr⟩
    | ok r =>
      rw [← h.requirements r hr, map_requirement_routeFor hr] at hmem
      exact absurd (List.eq_of_mem_replicate hmem) nofun
  · intro hunmarked
    have hne : Requirement.required ≠ .optional := nofun
    refine ⟨iff_of_false hnever (not_contradicts_of_unmarked hne a hunmarked), fun r hr => ?_⟩
    rw [map_requirement_routeFor hr, handedDown_of_unmarked hne a hunmarked]

/-- An association cannot be traversed, for its shape, exactly if it is asked for as required and
some pivot inside is marked as optional; one that can be has the requirement asked for at every
hop.  So the marks on pivots are honoured exactly if the association is asked for as required, or
no pivot inside is marked as required. -/
theorem routeFor_honours_iff (a : Association) (q : Requirement) :
    ((∃ e, a.routeFor q = .error e) ↔ q = .required ∧ a.HasPivotMarked .optional) ∧
      (∀ e, a.routeFor q = .error e → e.kind = .unsupportedChainShape) ∧
      (∀ r, a.routeFor q = .ok r → ∀ h ∈ r.hops, h.requirement = q) ∧
      (a.Honours q ↔ (q = .optional → ¬a.HasPivotMarked .required)) := by
  refine ⟨a.exists_routeFor_error_iff, fun e he => ?_, fun r hr => a.requirements_routeFor hr, ?_⟩
  · obtain ⟨_, _, rfl⟩ := a.exists_optionalPivot he
    rfl
  · cases q with
    | required => simp [honours_required]
    | optional => simp [honours_optional_iff]

end Association

namespace Library

/-- The chapters of an author's books, where the books are marked as required. -/
def chaptersOfRequiredBooks : Association :=
  .through "chapters" booksOfAuthor.association.required chaptersOfBook.association [] [] none

end Library

/-- The books are required, but below an author whose chapters are optional they are joined like
the chapters. -/
theorem Association.required_pivot_disregarded :
    ∃ r, Library.chaptersOfRequiredBooks.routeFor .optional = .ok r ∧
      Library.chaptersOfRequiredBooks.handedDown .optional = [.required, .optional] ∧
      (∀ h ∈ r.hops, h.requirement = .optional) ∧
      ¬Library.chaptersOfRequiredBooks.Honours .optional ∧
      Library.chaptersOfRequiredBooks.Honours .required := by
  obtain ⟨r, hr⟩ : ∃ r, Library.chaptersOfRequiredBooks.routeFor .optional = .ok r := ⟨_, rfl⟩
  obtain ⟨-, -, hoptional, hhonours⟩ :=
    routeFor_honours_iff Library.chaptersOfRequiredBooks .optional
  obtain ⟨-, -, -, hrequired⟩ := routeFor_honours_iff Library.chaptersOfRequiredBooks .required
  have hmarked : Library.chaptersOfRequiredBooks.HasPivotMarked .required := .inl rfl
  exact ⟨r, hr, rfl, hoptional r hr, fun h => hhonours.1 h rfl hmarked, hrequired.2 nofun⟩

end AssociationQuery
