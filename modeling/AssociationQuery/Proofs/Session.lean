import AssociationQuery.Connection

/-!
# AssociationQuery.Proofs.Session

What is known when work on a connection ends in a result: all its steps do.
-/

namespace AssociationQuery

variable {σ ρ : Type}

/-- Did the work end in a result? -/
def Outcome.isOk : Outcome α ρ → Bool
  | ok _ => true
  | _ => false

namespace Session

theorem bind_eq_ok {x : Session σ ρ α} {f : α → Session σ ρ β} {s s' : σ} {b : β} :
    (x >>= f) s = (.ok b, s') ↔ ∃ a s₁, x s = (.ok a, s₁) ∧ f a s₁ = (.ok b, s') := by
  change Session.bind x f s = _ ↔ _
  unfold Session.bind
  split
  · next a s₁ hx =>
    constructor
    · intro h
      exact ⟨a, s₁, hx, h⟩
    · rintro ⟨_, _, hx', h⟩
      obtain ⟨⟨⟩, rfl⟩ := Prod.mk.inj (hx.symm.trans hx')
      exact h
  all_goals simp_all

theorem pure_eq_ok {a b : α} {s s' : σ} :
    (Pure.pure a : Session σ ρ α) s = (.ok b, s') ↔ a = b ∧ s = s' := by
  change Session.pure a s = _ ↔ _
  simp [Session.pure]

theorem ofExcept_eq_ok {x : Except Error α} {a : α} {s s' : σ} :
    (ofExcept x : Session σ ρ α) s = (.ok a, s') ↔ x = .ok a ∧ s = s' := by
  cases x <;> simp [ofExcept]

theorem exists_of_isOk {x : Session σ ρ α} {s : σ} (h : (x s).1.isOk) :
    ∃ a s', x s = (.ok a, s') := by
  match hx : x s with
  | (.ok a, s') => exact ⟨a, s', rfl⟩
  | (.err _, _) | (.cancelledBy _, _) | (.panicked _, _) => simp [hx, Outcome.isOk] at h

/-- Work along a list ends in a result if each of its steps does. -/
theorem foldlM_of_forall {f : β → α → Session σ ρ β} {g : β → α → β}
    (h : ∀ b x s, ∃ s', f b x s = (.ok (g b x), s')) (xs : List α) (b : β) (s : σ) :
    ∃ s', xs.foldlM f b s = (.ok (xs.foldl g b), s') := by
  induction xs generalizing b s with
  | nil => exact ⟨s, rfl⟩
  | cons x xs ih =>
    obtain ⟨s₁, hx⟩ := h b x s
    obtain ⟨s', hxs⟩ := ih (g b x) s₁
    exact ⟨s', bind_eq_ok.2 ⟨_, s₁, hx, hxs⟩⟩

end Session

end AssociationQuery
