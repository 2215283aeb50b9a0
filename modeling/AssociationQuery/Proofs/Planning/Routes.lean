import AssociationQuery.Association.Route
import AssociationQuery.Proofs.Result

/-!
# AssociationQuery.Proofs.Planning.Routes

Where the joins of an association lead.
-/

namespace AssociationQuery

namespace Route

/-- The last hop. -/
def last (r : Route) : Hop := r.hops.getLast (List.cons_ne_nil _ _)

/-- One route after the other ends where the second one does. -/
theorem last_append (r s : Route) : (r.append s).last = s.last := by
  simp only [last, hops_append]
  exact List.getLast_append_of_ne_nil _ (List.cons_ne_nil _ _)

theorem getLast?_hops (r : Route) : r.hops.getLast? = some r.last :=
  List.getLast?_eq_some_getLast _

/-- Seen from behind, a route begins with its last hop. -/
theorem last_backwards (r : Route) : r.backwards.1 = r.last := by
  have h : r.hops.getLast? = some r.backwards.1 := by
    rw [← reverse_backwards, List.getLast?_concat]
  rw [getLast?_hops] at h
  exact (Option.some.inj h).symm

/-- Refining leaves the last association as it is. -/
theorem association_last_refine (r : Route) (filters : List Expr) (order : List OrderTerm) :
    (r.refine filters order).last.association = r.last.association := by
  have h := congrArg List.getLast? (associations_refine r filters order)
  rw [List.getLast?_map, List.getLast?_map, getLast?_hops, getLast?_hops] at h
  exact Option.some.inj h

/-- Filters on the last hop leave the requirements of the hops as they are. -/
theorem refineLast_requirements (filters : List Expr) (h : Hop) (rest : List Hop) :
    ((refineLast filters h rest).1 :: (refineLast filters h rest).2).map Hop.requirement
      = (h :: rest).map Hop.requirement := by
  induction rest generalizing h with
  | nil => rfl
  | cons g gs ih => simpa [refineLast] using ih g

/-- Refining leaves the requirements as they are. -/
theorem requirements_refine (r : Route) (filters : List Expr) (order : List OrderTerm) :
    (r.refine filters order).hops.map Hop.requirement = r.hops.map Hop.requirement :=
  refineLast_requirements filters r.first r.rest

end Route

namespace Association

/-- The joins of an association lead to its destination. -/
theorem destination_last_routeFor {requirement : Requirement} : (a : Association) →
    {r : Route} → a.routeFor requirement = .ok r → r.last.destination = a.destination
  | direct .., r, h => by
    simp only [routeFor, Except.ok.injEq] at h
    subst h
    rfl
  | through name pivot target filters order optionality, r, h => by
    simp only [routeFor, bind_eq_ok, pure_eq_ok] at h
    obtain ⟨_, -, pivotRoute, -, targetRoute, htarget, rfl⟩ := h
    rw [Hop.destination, Route.association_last_refine, Route.last_append]
    exact destination_last_routeFor target htarget

/-- Seen from behind, the joins of an association begin with those of its destination. -/
theorem destination_backwards_routeFor {requirement : Requirement} {a : Association} {r : Route}
    (h : a.routeFor requirement = .ok r) : r.backwards.1.destination = a.destination := by
  rw [Route.last_backwards, a.destination_last_routeFor h]

/-- A pivot that is allowed is as required as its association. -/
theorem pivotRequirement_eq {name : String} {pivot : Association} {requirement q : Requirement}
    (h : pivotRequirement name pivot requirement = .ok q) : q = requirement := by
  unfold pivotRequirement at h
  split at h
  · cases h
  · simpa using h.symm
  · simpa using h.symm

/-- Every join of an association has the requirement that is asked for. -/
theorem requirements_routeFor {requirement : Requirement} : (a : Association) → {r : Route} →
    a.routeFor requirement = .ok r → ∀ g ∈ r.hops, g.requirement = requirement
  | direct .., r, h => by
    simp only [routeFor, Except.ok.injEq] at h
    subst h
    simp [Route.hops]
  | through name pivot target filters order optionality, r, h => by
    simp only [routeFor, bind_eq_ok, pure_eq_ok] at h
    obtain ⟨q, hq, pivotRoute, hpivot, targetRoute, htarget, rfl⟩ := h
    obtain rfl := pivotRequirement_eq hq
    intro g hg
    have hmem := List.mem_map_of_mem (f := Hop.requirement) hg
    rw [Route.requirements_refine, Route.hops_append, List.map_append] at hmem
    rcases List.mem_append.1 hmem with hmem | hmem
    · obtain ⟨k, hk, heq⟩ := List.mem_map.1 hmem
      exact heq ▸ requirements_routeFor pivot hpivot k hk
    · obtain ⟨k, hk, heq⟩ := List.mem_map.1 hmem
      exact heq ▸ requirements_routeFor target htarget k hk

end Association

end AssociationQuery
