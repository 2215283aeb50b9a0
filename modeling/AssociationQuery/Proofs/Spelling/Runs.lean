import AssociationQuery.Proofs.Result

/-!
# AssociationQuery.Proofs.Spelling.Runs

Two runs of the same work side by side.

Two runs agree when both fail with one error, or both have results and these belong
together.  The relation also says which errors there can be, so that what is proved of two
runs tells of a single one, put beside itself, what may go wrong in it.
-/

namespace AssociationQuery

/-- Both runs fail with one error, of which `E` holds, or have results that `R` relates. -/
inductive RunsAgree (E : ε → Prop) (R : α → β → Prop) : Except ε α → Except ε β → Prop
  | ok {a : α} {b : β} (h : R a b) : RunsAgree E R (.ok a) (.ok b)
  | error {e : ε} (h : E e) : RunsAgree E R (.error e) (.error e)

namespace RunsAgree

variable {E E' : ε → Prop} {R S : α → β → Prop} {T : γ → δ → Prop}
  {x : Except ε α} {y : Except ε β}

/-- The error of a run is one of which `E` holds. -/
theorem fault (h : RunsAgree E R x y) {e : ε} (hx : x = .error e) : E e := by
  subst hx
  cases h with
  | error h => exact h

/-- The results of both runs, or the one error. -/
theorem cases_iff : RunsAgree E R x y ↔
    (∃ e, x = .error e ∧ y = .error e ∧ E e) ∨ ∃ a b, x = .ok a ∧ y = .ok b ∧ R a b := by
  constructor
  · rintro (h | h)
    · exact .inr ⟨_, _, rfl, rfl, h⟩
    · exact .inl ⟨_, rfl, rfl, h⟩
  · rintro (⟨e, rfl, rfl, h⟩ | ⟨a, b, rfl, rfl, h⟩)
    · exact .error h
    · exact .ok h

/-- The runs agree as well on less. -/
theorem mono (h : RunsAgree E R x y) (hE : ∀ e, E e → E' e) (hR : ∀ a b, R a b → S a b) :
    RunsAgree E' S x y := by
  cases h with
  | ok h => exact .ok (hR _ _ h)
  | error h => exact .error (hE _ h)

/-- One run beside itself. -/
theorem same {x : Except ε α} (h : ∀ e, x = .error e → E e) : RunsAgree E (· = ·) x x := by
  cases x with
  | ok a => exact .ok rfl
  | error e => exact .error (h e rfl)

/-- Related results are what the runs give. -/
theorem known (h : RunsAgree E R x y) :
    RunsAgree E (fun a b => R a b ∧ x = .ok a ∧ y = .ok b) x y := by
  cases h with
  | ok h => exact .ok ⟨h, rfl, rfl⟩
  | error h => exact .error h

/-- Runs that go on with related results agree if what follows does. -/
theorem bind (h : RunsAgree E R x y) {f : α → Except ε γ} {g : β → Except ε δ}
    (hf : ∀ a b, R a b → RunsAgree E T (f a) (g b)) : RunsAgree E T (x >>= f) (y >>= g) := by
  cases h with
  | ok h => exact hf _ _ h
  | error h => exact .error h

/-- Results may be changed on both sides. -/
theorem map (h : RunsAgree E R x y) {f : α → γ} {g : β → δ} (hf : ∀ a b, R a b → T (f a) (g b)) :
    RunsAgree E T (f <$> x) (g <$> y) := by
  cases h with
  | ok h => exact .ok (hf _ _ h)
  | error h => exact .error h

/-- The error of a run that goes on to other errors. -/
theorem mapError (h : RunsAgree E R x y) {f : ε → ε'} {E' : ε' → Prop} (hE : ∀ e, E e → E' (f e)) :
    RunsAgree E' R (x.mapError f) (y.mapError f) := by
  cases h with
  | ok h => exact .ok h
  | error h => exact .error (hE _ h)

/-- Runs over two lists, element by element. -/
theorem mapM {xs : List γ} {ys : List δ} {f : γ → Except ε α} {g : δ → Except ε β}
    (h : List.Forall₂ (fun c d => RunsAgree E R (f c) (g d)) xs ys) :
    RunsAgree E (List.Forall₂ R) (xs.mapM f) (ys.mapM g) := by
  induction h with
  | nil => exact .ok .nil
  | cons h _ ih =>
    rw [List.mapM_cons, List.mapM_cons]
    exact h.bind fun a b hab => ih.bind fun as bs habs => .ok (.cons hab habs)

end RunsAgree

end AssociationQuery
