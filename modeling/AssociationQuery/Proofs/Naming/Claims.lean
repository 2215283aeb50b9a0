import AssociationQuery.Alias.Allocation
import AssociationQuery.Proofs.Result
import Mathlib.Data.List.Nodup

/-!
# AssociationQuery.Proofs.Naming.Claims

What the handles of a statement have settled once all of them are registered without a
contradiction.

`Claims.Accepts` lists what a registration can do without contradicting those before it.
Whatever all of its cases keep holds after the last registration, `claimAll_induction`; so
it is with `Claims.Registered` and `Claims.Settles`.
-/

namespace AssociationQuery

namespace AliasRequests

open Text.Casing (lower)

/-- The handles are on table instances of the statement, and there are no two of one identity. -/
structure WellFormed (r : AliasRequests) : Prop where
  inside : ∀ p ∈ r.registrations, p.1.index < r.tables.length
  identity : ∀ p ∈ r.registrations, ∀ q ∈ r.registrations, p.2.id = q.2.id → p.2 = q.2

/-! ## one registration -/

/-- A registration that contradicts nothing that is settled, and what is settled then. -/
inductive Claims.Accepts (c : Claims) (slot : Slot) (a : TableAlias) : Claims → Prop where
  /-- The handle is on that instance already. -/
  | again (seen : c.handles.lookup a.id = some slot) : Accepts c slot a c
  /-- The handle insists on no name, or on the one that the instance has. -/
  | plain (new : c.handles.lookup a.id = none)
      (known : ∀ name, a.locked = some name → c.locked.lookup slot = some name) :
      Accepts c slot a ⟨(a.id, slot) :: c.handles, c.locked⟩
  /-- The handle insists on a name that is free. -/
  | named {name : String} (new : c.handles.lookup a.id = none) (insists : a.locked = some name)
      (unnamed : c.locked.lookup slot = none) (free : c.isTaken name = false) :
      Accepts c slot a ⟨(a.id, slot) :: c.handles, (slot, name) :: c.locked⟩

theorem accepts_of_claim {r : AliasRequests} {c c' : Claims} {slot : Slot} {a : TableAlias}
    (h : r.claim c slot a = .ok c') : c.Accepts slot a c' := by
  -- claims are accepted for a known handle at its slot, without a name to insist on, with the name
  -- the slot is locked to, and with a free one
  rw [claim] at h
  split at h
  · next previous hseen =>
    split at h
    · next heq =>
      obtain rfl := Except.ok.inj h
      exact .again (heq ▸ hseen)
    · cases h
  · next hnew =>
    split at h
    · next hunlocked =>
      obtain rfl := Except.ok.inj h
      exact .plain hnew (by simp [hunlocked])
    · next name hname =>
      split at h
      · next existing hexisting =>
        split at h
        · next heq =>
          obtain rfl := Except.ok.inj h
          exact .plain hnew (by simp [hname, hexisting, heq])
        · cases h
      · next hnone =>
        split at h
        · cases h
        · next hfree =>
          obtain rfl := Except.ok.inj h
          exact .named hnew hname hnone (Bool.eq_false_iff.2 hfree)

/-! ## all registrations -/

/-- What holds before the first registration, and after one that is accepted if it holds before
it, holds after the last. -/
theorem claimAll_induction {r : AliasRequests} {P : List (Slot × TableAlias) → Claims → Prop}
    (start : P [] {})
    (step : ∀ done c slot a c', done ++ [(slot, a)] <+: r.registrations → P done c →
      c.Accepts slot a c' → P (done ++ [(slot, a)]) c')
    {c : Claims} (h : r.claimAll = .ok c) : P r.registrations c := by
  -- the claims are a fold, so `P` is carried from what is done over what is left
  have hrest (rest : List (Slot × TableAlias)) : ∀ (done : List (Slot × TableAlias)) (c₁ : Claims),
      done ++ rest = r.registrations → P done c₁ →
      rest.foldlM (fun c p => r.claim c p.1 p.2) c₁ = .ok c → P r.registrations c := by
    induction rest with
    | nil =>
      intro done c₁ hall hdone h
      obtain rfl := Except.ok.inj h
      rwa [← hall, List.append_nil]
    | cons p rest ih =>
      intro done c₁ hall hdone h
      rw [List.foldlM_cons, bind_eq_ok] at h
      obtain ⟨c₂, hp, hrest⟩ := h
      rw [List.append_cons] at hall
      exact ih _ c₂ hall
        (step done c₁ p.1 p.2 c₂ ⟨rest, hall⟩ hdone (accepts_of_claim hp)) hrest
  exact hrest r.registrations [] {} rfl start h

/-- Every handle that is on an instance has been registered there. -/
def Claims.Registered (done : List (Slot × TableAlias)) (c : Claims) : Prop :=
  ∀ id slot, c.handles.lookup id = some slot → ∃ a, (slot, a) ∈ done ∧ a.id = id

theorem Claims.Registered.cons {done : List (Slot × TableAlias)} {c : Claims}
    (h : c.Registered done) (slot : Slot) (a : TableAlias) (locked : List (Slot × String)) :
    Registered (done ++ [(slot, a)]) ⟨(a.id, slot) :: c.handles, locked⟩ := by
  intro id s hs
  by_cases hid : id = a.id
  · subst hid
    rw [List.lookup_cons_self] at hs
    obtain rfl := Option.some.inj hs
    exact ⟨a, List.mem_append_right _ List.mem_cons_self, rfl⟩
  · rw [List.lookup_cons, beq_false_of_ne hid] at hs
    obtain ⟨b, hb, hid'⟩ := h id s hs
    exact ⟨b, List.mem_append_left _ hb, hid'⟩

theorem registered_of_claimAll {r : AliasRequests} {c : Claims} (h : r.claimAll = .ok c) :
    c.Registered r.registrations := by
  refine claimAll_induction nofun (fun done c slot a c' _ hdone haccepts => ?_) h
  cases haccepts with
  | again =>
    intro id s hs
    obtain ⟨b, hb, hid⟩ := hdone id s hs
    exact ⟨b, List.mem_append_left _ hb, hid⟩
  | plain => exact hdone.cons slot a _
  | named => exact hdone.cons slot a _

/-- What is settled after some registrations: each handle is on its table instance, and each
name that a handle insists on is the name of that instance and of no other. -/
structure Claims.Settles (done : List (Slot × TableAlias)) (c : Claims) : Prop where
  registered : c.Registered done
  handles : ∀ p ∈ done, c.handles.lookup p.2.id = some p.1
  locked : ∀ p ∈ done, ∀ name, p.2.locked = some name → c.locked.lookup p.1 = some name
  insisted : ∀ l ∈ c.locked, ∃ a, (l.1, a) ∈ done ∧ a.locked = some l.2
  apart : (c.locked.map fun l => lower l.2).Nodup

namespace Claims.Settles

variable {done : List (Slot × TableAlias)} {c : Claims} {slot : Slot} {a : TableAlias}

/-- A handle that is registered once more. -/
theorem again (h : c.Settles done) (hsame : ∀ p ∈ done, p.2.id = a.id → p.2 = a)
    (hseen : c.handles.lookup a.id = some slot) : c.Settles (done ++ [(slot, a)]) where
  registered id s hs := by
    obtain ⟨b, hb, hid⟩ := h.registered id s hs
    exact ⟨b, List.mem_append_left _ hb, hid⟩
  handles := List.forall_mem_append.2 ⟨h.handles, List.forall_mem_singleton.2 hseen⟩
  locked := by
    obtain ⟨b, hb, hid⟩ := h.registered a.id slot hseen
    obtain rfl : b = a := hsame _ hb hid
    exact List.forall_mem_append.2 ⟨h.locked, List.forall_mem_singleton.2 (h.locked _ hb)⟩
  insisted l hl := by
    obtain ⟨b, hb, hname⟩ := h.insisted l hl
    exact ⟨b, List.mem_append_left _ hb, hname⟩
  apart := h.apart

/-- A handle that is registered for the first time.  `locked` is what is settled of names
then. -/
theorem first (h : c.Settles done) (hnew : c.handles.lookup a.id = none)
    {locked : List (Slot × String)}
    (hkept : ∀ s name, c.locked.lookup s = some name → locked.lookup s = some name)
    (hown : ∀ name, a.locked = some name → locked.lookup slot = some name)
    (hinsisted : ∀ l ∈ locked, l ∈ c.locked ∨ (l.1 = slot ∧ a.locked = some l.2))
    (hapart : (locked.map fun l => lower l.2).Nodup) :
    Settles (done ++ [(slot, a)]) ⟨(a.id, slot) :: c.handles, locked⟩ where
  registered := h.registered.cons slot a locked
  handles := by
    have hold : ∀ p ∈ done, ((a.id, slot) :: c.handles).lookup p.2.id = some p.1 := by
      intro p hp
      -- the new handle hides no other, since it was not known
      have hne : p.2.id ≠ a.id := by
        intro heq
        have hp' := h.handles p hp
        rw [heq, hnew] at hp'
        cases hp'
      rw [List.lookup_cons, beq_false_of_ne hne]
      exact h.handles p hp
    exact List.forall_mem_append.2 ⟨hold, List.forall_mem_singleton.2 List.lookup_cons_self⟩
  locked := List.forall_mem_append.2
    ⟨fun p hp name hname => hkept p.1 name (h.locked p hp name hname),
      List.forall_mem_singleton.2 hown⟩
  insisted l hl := by
    rcases hinsisted l hl with hold | ⟨hslot, hname⟩
    · obtain ⟨b, hb, hname⟩ := h.insisted l hold
      exact ⟨b, List.mem_append_left _ hb, hname⟩
    · exact ⟨a, List.mem_append_right _ (hslot ▸ List.mem_cons_self), hname⟩
  apart := hapart

/-- A handle with a name that no other instance has. -/
theorem named (h : c.Settles done) {name : String} (hnew : c.handles.lookup a.id = none)
    (hinsists : a.locked = some name) (hunnamed : c.locked.lookup slot = none)
    (hfree : c.isTaken name = false) :
    Settles (done ++ [(slot, a)]) ⟨(a.id, slot) :: c.handles, (slot, name) :: c.locked⟩ := by
  have hkept : ∀ s n, c.locked.lookup s = some n →
      ((slot, name) :: c.locked).lookup s = some n := by
    intro s n hs
    have hne : s ≠ slot := by
      intro heq
      rw [heq, hunnamed] at hs
      cases hs
    rw [List.lookup_cons, beq_false_of_ne hne]
    exact hs
  have hown : ∀ n, a.locked = some n → ((slot, name) :: c.locked).lookup slot = some n := by
    intro n hn
    rw [List.lookup_cons_self, ← hinsists, hn]
  have hinsisted : ∀ l ∈ (slot, name) :: c.locked,
      l ∈ c.locked ∨ (l.1 = slot ∧ a.locked = some l.2) := by
    intro l hl
    rcases List.mem_cons.1 hl with rfl | hl
    · exact .inr ⟨rfl, hinsists⟩
    · exact .inl hl
  have hnot : lower name ∉ c.locked.map fun l => lower l.2 := by
    simpa [Claims.isTaken] using hfree
  exact h.first hnew hkept hown hinsisted (List.nodup_cons.2 ⟨hnot, h.apart⟩)

end Claims.Settles

/-- One more handle that contradicts nothing. -/
theorem Claims.Settles.step {done : List (Slot × TableAlias)} {c c' : Claims} {slot : Slot}
    {a : TableAlias} (h : c.Settles done) (hsame : ∀ p ∈ done, p.2.id = a.id → p.2 = a)
    (haccepts : c.Accepts slot a c') : c'.Settles (done ++ [(slot, a)]) := by
  cases haccepts with
  | again seen => exact h.again hsame seen
  | plain new known => exact h.first new (fun _ _ h => h) known (fun _ h => .inl h) h.apart
  | named new insists unnamed free => exact h.named new insists unnamed free

/-- Registrations of which no two have handles of one identity that differ. -/
def Identified (ps : List (Slot × TableAlias)) : Prop :=
  ∀ p ∈ ps, ∀ q ∈ ps, p.2.id = q.2.id → p.2 = q.2

theorem settles_of_identified {r : AliasRequests} (hr : Identified r.registrations) {c : Claims}
    (h : r.claimAll = .ok c) : c.Settles r.registrations := by
  refine claimAll_induction ⟨nofun, nofun, nofun, nofun, .nil⟩
    (fun done c slot a c' hall hdone haccepts => hdone.step (fun p hp => ?_) haccepts) h
  exact hr p (hall.subset (List.mem_append_left _ hp)) (slot, a)
    (hall.subset (List.mem_append_right _ List.mem_cons_self))

/-- What is settled once all handles are registered. -/
theorem settles_of_claimAll {r : AliasRequests} (hr : r.WellFormed) {c : Claims}
    (h : r.claimAll = .ok c) : c.Settles r.registrations :=
  settles_of_identified hr.identity h

end AliasRequests

end AssociationQuery
