import AssociationQuery.Proofs.Keys.Statements
import AssociationQuery.Proofs.Planning.Terms
import Mathlib.Data.List.Chain
import Mathlib.Data.List.Induction

/-!
# AssociationQuery.Proofs.Planning.Flattening

A through association as a line of joins.

An association is a tree: a through association stands above its pivot and its target, and the
direct associations are the leaves.  The joins run along the leaves from left to right.  Every
association in the tree ends at one of the leaves, the last one below it; that is where its
filters apply, those of inner associations before those of outer ones.  Of the orderings only
those of the associations that end at the very last leaf are left: `Association.traverses_routeFor`.
-/

namespace AssociationQuery

open Text.Casing (sameIgnoringCase)

namespace Association

/-! ## trees -/

/-- The direct associations that the association is made of, from left to right. -/
def leaves : Association → List Association
  | a@(direct ..) => [a]
  | through _ pivot target .. => pivot.leaves ++ target.leaves

/-- All associations that the association is made of, itself included: inner before outer. -/
def members : Association → List Association
  | a@(direct ..) => [a]
  | a@(through _ pivot target ..) => pivot.members ++ target.members ++ [a]

/-- The members, each with the position of the leaf at which it ends, the last one below it. -/
def endings : Association → List (Association × Nat)
  | a@(direct ..) => [(a, 0)]
  | a@(through _ pivot target ..) =>
    pivot.endings ++ (target.endings.map fun p => (p.1, pivot.leaves.length + p.2)) ++
      [(a, a.leaves.length - 1)]

/-- The members that end at the leaf at a position: inner before outer. -/
def endingAt (a : Association) (k : Nat) : List Association :=
  (a.endings.filter fun p => p.2 = k).map Prod.fst

/-- The association and the targets inside of it, one below the other: inner before outer. -/
def spine : Association → List Association
  | a@(direct ..) => [a]
  | a@(through _ _ target ..) => target.spine ++ [a]

/-- There is at least one leaf. -/
theorem leaves_ne_nil : (a : Association) → a.leaves ≠ []
  | direct .. => List.cons_ne_nil _ _
  | through _ pivot _ _ _ _ => List.append_ne_nil_of_left_ne_nil pivot.leaves_ne_nil _

theorem length_leaves_pos (a : Association) : 0 < a.leaves.length :=
  List.length_pos_iff.2 a.leaves_ne_nil

/-- Every member ends somewhere, and at one leaf only. -/
theorem map_fst_endings : (a : Association) → a.endings.map Prod.fst = a.members
  | direct .. => rfl
  | through _ pivot target _ _ _ => by
    simp only [endings, members, List.map_append, List.map_map, ← map_fst_endings]
    rfl

/-- Every member ends at one of the leaves. -/
theorem lt_of_mem_endings : (a : Association) → ∀ p ∈ a.endings, p.2 < a.leaves.length
  | direct .. => List.forall_mem_singleton.2 (Nat.lt_succ_self 0)
  | through name pivot target filters order optionality => by
    have hpos := pivot.length_leaves_pos
    simp only [endings, leaves, List.length_append, List.forall_mem_append, List.forall_mem_map,
      List.forall_mem_singleton]
    refine ⟨⟨fun p hp => ?_, fun p hp => ?_⟩, by omega⟩
    · have hlt := pivot.lt_of_mem_endings p hp
      omega
    · have hlt := target.lt_of_mem_endings p hp
      omega

section through

variable {name : String} {pivot target : Association} {filters : List Expr}
  {order : List OrderTerm} {optionality : Option Requirement} {k : Nat}

/-- At the leaves of the pivot end the members of the pivot. -/
theorem endingAt_pivot (h : k < pivot.leaves.length) :
    (through name pivot target filters order optionality).endingAt k = pivot.endingAt k := by
  have hpos := target.length_leaves_pos
  have htarget : (target.endings.map fun p => (p.1, pivot.leaves.length + p.2)).filter
      (fun p => p.2 = k) = [] := by
    refine List.filter_eq_nil_iff.2 (List.forall_mem_map.2 fun p _ => ?_)
    simp only [decide_eq_true_eq]
    omega
  have hlast : ¬pivot.leaves.length + target.leaves.length - 1 = k := by omega
  simp [endingAt, endings, leaves, htarget, hlast]

/-- At the leaves of the target end the members of the target, and at the last one the whole
association. -/
theorem endingAt_target :
    (through name pivot target filters order optionality).endingAt (pivot.leaves.length + k) =
      target.endingAt k ++ if k + 1 = target.leaves.length then
        [through name pivot target filters order optionality] else [] := by
  have hpos := target.length_leaves_pos
  have hpivot : pivot.endings.filter (fun p => p.2 = pivot.leaves.length + k) = [] := by
    refine List.filter_eq_nil_iff.2 fun p hp => ?_
    have hlt := pivot.lt_of_mem_endings p hp
    simp only [decide_eq_true_eq]
    omega
  have hlast : pivot.leaves.length + target.leaves.length - 1 = pivot.leaves.length + k ↔
      k + 1 = target.leaves.length := by omega
  simp only [endingAt, endings, leaves, List.length_append, List.filter_append, hpivot,
    List.nil_append, List.map_append, List.filter_map, List.map_map, Function.comp_def,
    Nat.add_left_cancel_iff]
  split_ifs with h
  · simp [hlast.2 h]
  · simp [mt hlast.1 h]

end through

/-! ## stages -/

/-- Only the last element is modified. -/
theorem getElem?_modifyLast (f : α → α) (xs : List α) (k : Nat) :
    (xs.modifyLast f)[k]? = if k + 1 = xs.length then xs[k]?.map f else xs[k]? := by
  induction xs using List.reverseRecOn with
  | nil => exact (if_neg (Nat.succ_ne_zero k)).symm
  | append_singleton xs x _ =>
    simp only [List.modifyLast_concat, List.length_append, List.length_singleton,
      Nat.add_right_cancel_iff]
    split_ifs with h
    · simp [h]
    · rw [List.getElem?_append, List.getElem?_append]
      split_ifs with hlt
      · rfl
      · have hbeyond : k - xs.length ≠ 0 := by omega
        simp [hbeyond]

/-- The stages are those of the leaves, in their order. -/
theorem map_fst_stages : (a : Association) → a.stages.map Prod.fst = a.leaves
  | direct .. => rfl
  | through _ pivot target filters _ _ => by
    have hsame (ps : List (Association × List Expr)) :
        (ps.modifyLast fun p => (p.1, p.2 ++ filters)).map Prod.fst = ps.map Prod.fst := by
      refine List.ext_getElem? fun k => ?_
      rw [List.getElem?_map, getElem?_modifyLast, List.getElem?_map]
      split_ifs
      · rw [Option.map_map]
        rfl
      · rfl
    rw [stages, hsame, List.map_append, map_fst_stages, map_fst_stages, leaves]

theorem length_stages (a : Association) : a.stages.length = a.leaves.length := by
  rw [← map_fst_stages, List.length_map]

/-- A stage has the filters of the members that end at its leaf. -/
theorem snd_of_getElem?_stages : (a : Association) → {k : Nat} → {p : Association × List Expr} →
    a.stages[k]? = some p → p.2 = (a.endingAt k).flatMap Association.filters
  | direct kind name origin destination mapping filters order optionality, k, p, h => by
    obtain ⟨rfl, rfl⟩ : k = 0 ∧ _ = p := by simpa [stages, List.getElem?_singleton] using h
    simp [endingAt, endings, Association.filters]
  | through name pivot target filters order optionality, k, p, h => by
    have htargetStages : target.stages ≠ [] :=
      List.ne_nil_of_length_pos (target.length_stages ▸ target.length_leaves_pos)
    rw [stages, List.modifyLast_append_of_right_ne_nil _ _ _ htargetStages] at h
    -- the first leaves are those of the pivot, the others those of the target, whose last one also
    -- carries the filters of the whole
    by_cases hk : k < pivot.leaves.length
    · rw [List.getElem?_append_left (pivot.length_stages ▸ hk)] at h
      rw [endingAt_pivot hk]
      exact snd_of_getElem?_stages pivot h
    · obtain ⟨i, rfl⟩ := Nat.exists_eq_add_of_le (Nat.le_of_not_lt hk)
      rw [List.getElem?_append_right (by rw [length_stages]; omega), length_stages,
        Nat.add_sub_cancel_left, getElem?_modifyLast, length_stages] at h
      rw [endingAt_target, List.flatMap_append]
      split_ifs at h ⊢ with hlast
      · obtain ⟨q, hq, rfl⟩ := Option.map_eq_some_iff.1 h
        rw [snd_of_getElem?_stages target hq]
        simp [Association.filters]
      · simpa using snd_of_getElem?_stages target h

/-- The filters are those of all members. -/
theorem allFilters_eq : (a : Association) → a.allFilters = a.members.flatMap Association.filters
  | direct .. => (List.append_nil _).symm
  | through .. => by
    rw [allFilters, members, List.flatMap_append, List.flatMap_append, allFilters_eq, allFilters_eq]
    simp [Association.filters]

/-- The orderings are those along the spine. -/
theorem allOrder_eq : (a : Association) → a.allOrder = a.spine.flatMap Association.order
  | direct .. => (List.append_nil _).symm
  | through .. => by
    rw [allOrder, spine, List.flatMap_append, allOrder_eq]
    simp [Association.order]

/-! ## leaves -/

/-- An association leads to many rows if one of its leaves does. -/
theorem cardinality_eq_toMany_iff : (a : Association) →
    a.cardinality = .toMany ↔ ∃ b ∈ a.leaves, b.kind = .direct .hasMany
  | direct kind .. => by cases kind <;> simp [cardinality, leaves, Association.kind]
  | through _ pivot target _ _ _ => by
    have hpivot := cardinality_eq_toMany_iff pivot
    have htarget := cardinality_eq_toMany_iff target
    simp only [cardinality, ite_eq_left_iff, reduceCtorEq, imp_false, not_not, hpivot, htarget,
      leaves, List.mem_append, or_and_right, exists_or]

/-- The first leaf starts where the association does. -/
theorem origin_of_head?_leaves : (a : Association) → ∀ b ∈ a.leaves.head?, b.origin = a.origin
  | direct .., b, h => by
    obtain rfl := Option.some.inj h
    rfl
  | through _ pivot _ _ _ _, b, h => by
    rw [leaves, List.head?_append_of_ne_nil _ pivot.leaves_ne_nil] at h
    exact origin_of_head?_leaves pivot b h

/-- The last leaf ends where the association does. -/
theorem destination_of_getLast?_leaves : (a : Association) →
    ∀ b ∈ a.leaves.getLast?, b.destination = a.destination
  | direct .., b, h => by
    obtain rfl := Option.some.inj h
    rfl
  | through _ _ target _ _ _, b, h => by
    rw [leaves, List.getLast?_append_of_ne_nil _ target.leaves_ne_nil] at h
    exact destination_of_getLast?_leaves target b h

/-- The second association starts at the table where the first one ends. -/
def Meets (a b : Association) : Prop := sameIgnoringCase a.destination.name b.origin.name

/-- In every through association inside, pivot and target meet. -/
def Joined : Association → Prop
  | direct .. => True
  | through _ pivot target _ _ _ => pivot.Joined ∧ target.Joined ∧ pivot.Meets target

/-- The leaves of joined associations meet. -/
theorem Joined.isChain_leaves : {a : Association} → a.Joined → a.leaves.IsChain Meets
  | direct .., _ => .singleton _
  | through _ pivot target _ _ _, ⟨hpivot, htarget, hmeets⟩ => by
    refine List.isChain_append.2
      ⟨hpivot.isChain_leaves, htarget.isChain_leaves, fun b hb c hc => ?_⟩
    rw [Meets, destination_of_getLast?_leaves pivot b hb, origin_of_head?_leaves target c hc]
    exact hmeets

/-! ## associations as they are made -/

/-- The association is made step by step: built from some catalogue, or led through others that are
made, or refined. -/
inductive Made : Association → Prop
  | built {S : Schema} {b : AssociationBuilder} {a : Association} (h : b.build S = .ok a) : Made a
  | oneThrough {name : String} {pivot target a : Association} (pivot_made : Made pivot)
      (target_made : Made target) (h : hasOneThrough name pivot target = .ok a) : Made a
  | manyThrough {name : String} {pivot target a : Association} (pivot_made : Made pivot)
      (target_made : Made target) (h : hasManyThrough name pivot target = .ok a) : Made a
  | terms {a : Association} (made : Made a) (fs : List Expr) (os : List OrderTerm) :
      Made (a.withTerms fs os)
  | named {a : Association} (made : Made a) (name : String) : Made (a.named name)
  | optionality {a : Association} (made : Made a) (r : Requirement) : Made (a.withOptionality r)

@[simp] theorem joined_withTerms (fs : List Expr) (os : List OrderTerm) (a : Association) :
    (a.withTerms fs os).Joined ↔ a.Joined := by
  cases a <;> rfl

@[simp] theorem joined_named (name : String) (a : Association) :
    (a.named name).Joined ↔ a.Joined := by
  cases a <;> rfl

@[simp] theorem joined_withOptionality (r : Requirement) (a : Association) :
    (a.withOptionality r).Joined ↔ a.Joined := by
  cases a <;> rfl

/-- An association through others is joined if these are and if the check went well. -/
theorem joined_of_joined {name : String} {pivot target a : Association}
    (h : joined name pivot target = .ok a) (hpivot : pivot.Joined) (htarget : target.Joined) :
    a.Joined := by
  rw [joined] at h
  split at h
  · next hsame =>
    obtain rfl := Except.ok.inj h
    exact ⟨hpivot, htarget, hsame⟩
  · cases h

/-- What is made is joined. -/
theorem Made.joined {a : Association} (h : a.Made) : a.Joined := by
  -- by the way it was made; terms, names and marks change no table
  induction h with
  | built h =>
    simp only [AssociationBuilder.build, bind_eq_ok, pure_eq_ok] at h
    obtain ⟨_, -, _, -, _, -, rfl⟩ := h
    trivial
  | oneThrough _ _ h hpivot htarget =>
    rw [hasOneThrough] at h
    split at h
    · cases h
    · exact joined_of_joined h hpivot htarget
  | manyThrough _ _ h hpivot htarget =>
    rw [hasManyThrough] at h
    split at h
    · exact joined_of_joined h hpivot htarget
    · cases h
  | terms _ fs os ih => exact (joined_withTerms fs os _).2 ih
  | named _ name ih => exact (joined_named name _).2 ih
  | optionality _ r ih => exact (joined_withOptionality r _).2 ih

/-- What is built from a catalogue is made. -/
theorem BuiltFrom.made {S : Schema} {a : Association} (h : a.BuiltFrom S) : a.Made := by
  induction h with
  | direct h => exact .built h
  | oneThrough _ _ h hpivot htarget => exact .oneThrough hpivot htarget h
  | manyThrough _ _ h hpivot htarget => exact .manyThrough hpivot htarget h
  | terms _ fs os ih => exact ih.terms fs os
  | named _ name ih => exact ih.named name
  | optionality _ r ih => exact ih.optionality r

end Association

/-! ## routes -/

/-- The route runs along the leaves of an association.  Its hops meet, from the origin of the
association to its destination.  Each hop has the filters of the members that end there, so that
each filter of a member is on one hop; the last table is ordered by the terms along the spine, and
no hop has orderings of its own. -/
structure Route.Traverses (a : Association) (r : Route) : Prop where
  ne_nil : r.hops ≠ []
  associations : r.hops.map Hop.association = a.leaves
  meets : r.hops.IsChain fun g h => g.association.Meets h.association
  origin : r.first.association.origin = a.origin
  destination : r.last.destination = a.destination
  filters : ∀ k h, r.hops[k]? = some h →
    h.filters = (a.endingAt k).flatMap Association.filters
  once : r.filters = a.members.flatMap Association.filters
  order : r.order = a.spine.flatMap Association.order
  toMany : a.cardinality = .toMany ↔ ∃ h ∈ r.hops, h.association.kind = .direct .hasMany

namespace Association

/-- The joins of an association that is made from catalogues run along its leaves, with every
filter where it applies. -/
theorem traverses_routeFor {a : Association} (ha : a.Made) {requirement : Requirement} {r : Route}
    (h : a.routeFor requirement = .ok r) : r.Traverses a := by
  have hcarries := a.carries_routeFor h
  -- hop by hop the route carries the stages of the association, one for each leaf
  have hassociations : r.hops.map Hop.association = a.leaves := by
    rw [← a.map_fst_stages, ← hcarries.stages, List.map_map]
    rfl
  have hfirst : r.first.association ∈ a.leaves.head? := by
    rw [← hassociations]
    rfl
  exact {
    ne_nil := List.cons_ne_nil _ _
    associations := hassociations
    meets := by
      have hchain := hassociations ▸ ha.joined.isChain_leaves
      exact (List.isChain_map Hop.association).1 hchain
    origin := a.origin_of_head?_leaves _ hfirst
    destination := a.destination_last_routeFor h
    filters := fun k g hg => by
      have hstage : a.stages[k]? = some g.stage := by
        rw [← hcarries.stages, List.getElem?_map, hg]
        rfl
      exact a.snd_of_getElem?_stages hstage
    once := hcarries.filters.trans a.allFilters_eq
    order := hcarries.order.trans a.allOrder_eq
    toMany := by
      rw [a.cardinality_eq_toMany_iff, ← hassociations]
      simp }

end Association

namespace Library

def bookOfChapter : Association :=
  .direct .belongsTo "book" chapters books [("bookId", "id")] [] [] none

/-- The authors of chapters, as far as they have a name, in the order of their names. -/
def authorOfChapter : Association :=
  .through "author" bookOfChapter author.association [.isNull (.col "name") true]
    [(Expr.col "name").asc] none

/-- All chapters by the author of a chapter, the latest ones first. -/
def siblings : Association :=
  .through "siblings" authorOfChapter chaptersByAuthor.association [.isNull (.col "id") true]
    [(Expr.col "id").desc] none

/-- The siblings of a chapter are made step by step. -/
theorem made_siblings : siblings.Made := by
  have hbook : bookOfChapter.Made :=
    .built (S := catalogue) (b := ⟨.belongsTo, "book", "chapters", "books", none⟩) rfl
  have hauthor : author.association.Made :=
    .built (S := catalogue) (b := ⟨.belongsTo, "author", "books", "authors", none⟩) rfl
  have hpivot : authorOfChapter.Made := (Association.Made.oneThrough hbook hauthor rfl).terms _ _
  have htarget : chaptersByAuthor.association.Made :=
    .manyThrough builtFrom_booksOfAuthor.made builtFrom_chaptersOfBook.made rfl
  exact (Association.Made.manyThrough hpivot htarget rfl).terms _ _

end Library

/-- Four joins from a chapter to its siblings.  The filter on authors stays with the second join,
and the ordering of authors is gone. -/
theorem Association.traverses_routeFor_siblings :
    ∃ r, Library.siblings.routeFor .required = .ok r ∧ r.Traverses Library.siblings ∧
      Library.siblings.endingAt 1 = [Library.author.association, Library.authorOfChapter] ∧
      r.order = [(Expr.col "id").desc] := by
  obtain ⟨r, hr⟩ : ∃ r, Library.siblings.routeFor .required = .ok r := ⟨_, rfl⟩
  have hroute := traverses_routeFor Library.made_siblings hr
  exact ⟨r, hr, hroute, rfl, hroute.order⟩

end AssociationQuery
