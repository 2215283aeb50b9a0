import AssociationQuery.Proofs.Naming.Allocation

/-!
# AssociationQuery.Proofs.Naming.Conflicts

Handles that no statement can have side by side.

Two registrations are in conflict when they put one handle on two table instances, want two
names for one instance, or names that are alike for two.  Allocation fails exactly when a
registration is in conflict with an earlier one, and reports the first that is,
`allocate_eq_error_iff`.
-/

namespace AssociationQuery

namespace AliasRequests

open Text.Casing (lower)

/-! ## conflicts -/

/-- Two registrations that contradict each other. -/
inductive Conflict (p q : Slot × TableAlias) : Prop
  /-- One handle is on two table instances. -/
  | moved (same : p.2.id = q.2.id) (apart : p.1 ≠ q.1)
  /-- Two handles insist on different names for one instance. -/
  | renamed (different : p.2.id ≠ q.2.id) (same : p.1 = q.1) {m n : String}
      (left : p.2.locked = some m) (right : q.2.locked = some n) (apart : m ≠ n)
  /-- Two handles insist on names that are alike for two instances. -/
  | alike (different : p.2.id ≠ q.2.id) (apart : p.1 ≠ q.1) {m n : String}
      (left : p.2.locked = some m) (right : q.2.locked = some n) (alike : lower m = lower n)

/-- No registration is in conflict with an earlier one. -/
def Consistent (ps : List (Slot × TableAlias)) : Prop := ps.Pairwise fun p q => ¬Conflict p q

/-- What an error calls a registration: the name of the handle, or the table that the instance
reads. -/
def nameOf (r : AliasRequests) (p : Slot × TableAlias) : String := p.2.locked.getD (r.table p.1)

/-- The registration is the first that is in conflict with an earlier one. -/
def FirstConflict (r : AliasRequests) (p : Slot × TableAlias) : Prop :=
  ∃ before after, r.registrations = before ++ p :: after ∧ Consistent before ∧
    ∃ q ∈ before, Conflict q p

/-! ## one registration -/

namespace Claims.Settles

variable {done : List (Slot × TableAlias)} {c : Claims}

/-- Registrations that are settled are not in conflict. -/
theorem not_conflict (h : c.Settles done) {p q : Slot × TableAlias} (hp : p ∈ done)
    (hq : q ∈ done) : ¬Conflict p q := by
  intro hconflict
  cases hconflict with
  | moved same apart =>
    have hslot := h.handles p hp
    rw [same, h.handles q hq] at hslot
    exact apart (Option.some.inj hslot).symm
  | renamed _ same left right apart =>
    have hname := h.locked p hp _ left
    rw [same, h.locked q hq _ right] at hname
    exact apart (Option.some.inj hname).symm
  | alike _ apart left right alike =>
    have hsame := List.inj_on_of_nodup_map h.apart (mem_of_lookup (h.locked p hp _ left))
      (mem_of_lookup (h.locked q hq _ right)) alike
    exact apart (Prod.mk.inj hsame).1

/-- Handles that have been settled are consistent. -/
theorem consistent (h : c.Settles done) : Consistent done :=
  List.pairwise_of_forall_mem_list fun _ hp _ hq => h.not_conflict hp hq

/-- A registration that is refused is in conflict with an earlier one. -/
theorem exists_conflict (h : c.Settles done) {r : AliasRequests} {p : Slot × TableAlias}
    {e : AssociationError} (he : r.claim c p.1 p.2 = .error e) :
    (∃ q ∈ done, Conflict q p) ∧ e = .aliasConflict (r.nameOf p) := by
  obtain ⟨slot, a⟩ := p
  -- each refusal names an earlier registration: of the same handle, for the same slot, or of the
  -- same name
  rw [claim] at he
  split at he
  · next previous hseen =>
    split at he
    · cases he
    · next hother =>
      obtain ⟨b, hb, hid⟩ := h.registered a.id previous hseen
      exact ⟨⟨_, hb, .moved hid hother⟩, (Except.error.inj he).symm⟩
  · next hnew =>
    have hdifferent : ∀ q ∈ done, q.2.id ≠ a.id := by
      intro q hq hid
      have hslot := h.handles q hq
      rw [hid, hnew] at hslot
      cases hslot
    split at he
    · cases he
    · next name hname =>
      have hnamed : r.nameOf (slot, a) = name := by rw [nameOf, hname, Option.getD_some]
      rw [hnamed]
      split at he
      · next existing hexisting =>
        split at he
        · cases he
        · next hother =>
          obtain ⟨b, hb, hlocked⟩ := h.insisted _ (mem_of_lookup hexisting)
          exact ⟨⟨_, hb, .renamed (hdifferent _ hb) rfl hlocked hname hother⟩,
            (Except.error.inj he).symm⟩
      · next hnone =>
        split at he
        · next htaken =>
          obtain ⟨l, hl, halike⟩ := List.any_eq_true.1 htaken
          obtain ⟨b, hb, hlocked⟩ := h.insisted l hl
          have hapart : l.1 ≠ slot := by
            intro heq
            have hlookup := h.locked _ hb _ hlocked
            rw [heq, hnone] at hlookup
            cases hlookup
          exact ⟨⟨_, hb, .alike (hdifferent _ hb) hapart hlocked hname (by simpa using halike)⟩,
            (Except.error.inj he).symm⟩
        · cases he

end Claims.Settles

/-! ## all registrations -/

/-- The first registrations as a statement of their own. -/
def upTo (r : AliasRequests) (before : List (Slot × TableAlias)) : AliasRequests :=
  { r with registrations := before }

theorem Identified.mono {ps qs : List (Slot × TableAlias)} (h : Identified ps) (hsub : qs ⊆ ps) :
    Identified qs := fun p hp q hq => h p (hsub hp) q (hsub hq)

/-- The first registrations have as few identities as all of them. -/
theorem identified_upTo {r : AliasRequests} (hr : Identified r.registrations)
    {before after : List (Slot × TableAlias)} (hall : r.registrations = before ++ after) :
    Identified (r.upTo before).registrations :=
  hr.mono (hall ▸ List.subset_append_left before after)

/-- Claiming fails at the first registration whose claim does. -/
theorem claimAll_eq_error {r : AliasRequests} {e : AssociationError} :
    r.claimAll = .error e ↔ ∃ before p after c, r.registrations = before ++ p :: after ∧
      (r.upTo before).claimAll = .ok c ∧ r.claim c p.1 p.2 = .error e := foldlM_eq_error

/-- Allocation fails only while claims are made. -/
theorem allocate_eq_error {r : AliasRequests} {e : AssociationError} :
    r.allocate = .error e ↔ r.claimAll = .error e := by
  rw [allocate, bind_eq_error]
  constructor
  · rintro (h | ⟨_, -, h⟩)
    · exact h
    · cases h
  · exact .inl

/-- Claims of consistent registrations are settled. -/
theorem exists_claims_of_consistent {r : AliasRequests} (hr : Identified r.registrations)
    (h : Consistent r.registrations) : ∃ c, r.claimAll = .ok c := by
  cases hclaims : r.claimAll with
  | ok c => exact ⟨c, rfl⟩
  | error e =>
    obtain ⟨before, p, after, c, hall, hc, he⟩ := claimAll_eq_error.1 hclaims
    have hsettles := settles_of_identified (identified_upTo hr hall) hc
    obtain ⟨⟨q, hq, hconflict⟩, -⟩ := hsettles.exists_conflict he
    rw [Consistent, hall, List.pairwise_append] at h
    exact absurd hconflict (h.2.2 q hq p List.mem_cons_self)

/-- Allocation succeeds exactly when no registration is in conflict with an earlier one. -/
theorem exists_allocate_iff {r : AliasRequests} (hr : Identified r.registrations) :
    (∃ m, r.allocate = .ok m) ↔ Consistent r.registrations := by
  constructor
  · rintro ⟨m, hm⟩
    obtain ⟨c, hc, -⟩ := bind_eq_ok.1 hm
    exact (settles_of_identified hr hc).consistent
  · intro h
    obtain ⟨c, hc⟩ := exists_claims_of_consistent hr h
    exact ⟨_, bind_eq_ok.2 ⟨c, hc, rfl⟩⟩

/-- The error of an allocation names the first registration that is in conflict with an earlier
one. -/
theorem allocate_eq_error_iff {r : AliasRequests} (hr : Identified r.registrations)
    {e : AssociationError} :
    r.allocate = .error e ↔ ∃ p, r.FirstConflict p ∧ e = .aliasConflict (r.nameOf p) := by
  rw [allocate_eq_error, claimAll_eq_error]
  constructor
  · rintro ⟨before, p, after, c, hall, hc, he⟩
    have hsettles := settles_of_identified (identified_upTo hr hall) hc
    obtain ⟨hconflict, hname⟩ := hsettles.exists_conflict he
    exact ⟨p, ⟨before, after, hall, hsettles.consistent, hconflict⟩, hname⟩
  · rintro ⟨p, ⟨before, after, hall, hconsistent, q, hq, hconflict⟩, rfl⟩
    have hidentified := identified_upTo hr hall
    obtain ⟨c, hc⟩ := exists_claims_of_consistent hidentified hconsistent
    have hsettles := settles_of_identified hidentified hc
    refine ⟨before, p, after, c, hall, hc, ?_⟩
    -- had the claim been accepted, the two registrations would not conflict
    cases hclaim : r.claim c p.1 p.2 with
    | error e => rw [(hsettles.exists_conflict hclaim).2]
    | ok c' =>
      rw [hall] at hr
      have hsame : ∀ q ∈ before, q.2.id = p.2.id → q.2 = p.2 := fun q hq =>
        hr q (List.mem_append_left _ hq) p (List.mem_append_right _ List.mem_cons_self)
      have hnext := hsettles.step hsame (accepts_of_claim hclaim)
      exact absurd hconflict (hnext.not_conflict (List.mem_append_left _ hq)
        (List.mem_append_right _ List.mem_cons_self))

end AliasRequests

end AssociationQuery
