import AssociationQuery.Proofs.Planning.Additions
import Mathlib.Data.List.Nodup

/-!
# AssociationQuery.Proofs.Planning.Nodes

What the walk through a chain does at one node.

A node that is joined adds the joins of its route, all of one kind; a required node that
has a statement of its own adds a condition, which goes onto the join of the table that the
node hangs from, or to the conditions of the statement where that is the base table.
-/

namespace AssociationQuery

/-- A required to-many node that is included: it has a statement of its own, and the statement of
its parent tests for it. -/
def ChainNode.isTested (n : ChainNode) : Bool :=
  n.inclusion = .including ∧ n.association.isToMany ∧ n.requirement = .required

namespace Draft

/-! ## joins by their numbers -/

theorem NumberedFrom.nodup {next : Nat} {js : List Join} (h : NumberedFrom next js) :
    (js.map Join.slot).Nodup := by
  rw [h]
  exact List.Nodup.map (fun _ _ heq => congrArg Slot.index heq) List.nodup_range'

theorem NumberedFrom.le_index {next : Nat} {js : List Join} (h : NumberedFrom next js) {j : Join}
    (hj : j ∈ js) : next ≤ j.slot.index := by
  have hmem := List.mem_map_of_mem (f := Join.slot) hj
  rw [h] at hmem
  obtain ⟨i, hi, heq⟩ := List.mem_map.1 hmem
  rw [← heq]
  exact (List.mem_range'_1.1 hi).1

theorem Numbered.slot_bounds {d : Draft} (h : d.Numbered) {j : Join} (hj : j ∈ d.joins) :
    0 < j.slot.index ∧ j.slot.index < d.next :=
  h.bounds _ (List.mem_map_of_mem hj)

theorem Numbered.slot_ne_root {d : Draft} (h : d.Numbered) {j : Join} (hj : j ∈ d.joins) :
    j.slot ≠ root := by
  intro heq
  have hpos := (h.slot_bounds hj).1
  rw [heq] at hpos
  exact Nat.lt_irrefl _ hpos

theorem Numbered.root_notMem {d : Draft} (h : d.Numbered) : root ∉ d.joins.map Join.slot := by
  intro hmem
  obtain ⟨j, hj, heq⟩ := List.mem_map.1 hmem
  exact h.slot_ne_root hj heq

theorem Numbered.index_pairwise {d : Draft} (h : d.Numbered) :
    (d.joins.map fun j => j.slot.index).Pairwise (· < ·) := by
  simpa [instances, Join.instance, Function.comp_def] using h.increasing

/-- No two joins are of one table instance. -/
theorem Numbered.eq_of_slot {d : Draft} (h : d.Numbered) {j k : Join} (hj : j ∈ d.joins)
    (hk : k ∈ d.joins) (heq : j.slot = k.slot) : j = k := by
  exact List.inj_on_of_nodup_map (h.index_pairwise.imp Nat.ne_of_lt) hj hk
    (congrArg Slot.index heq)

/-! ## conditions -/

theorem putOnJoin_eq_none {slot : Slot} {c : Condition} {js : List Join}
    (h : putOnJoin slot c js = none) : ∀ j ∈ js, j.slot ≠ slot := by
  induction js with
  | nil => simp
  | cons j js ih =>
    rw [putOnJoin] at h
    split at h
    · cases h
    · next hne => exact List.forall_mem_cons.2 ⟨hne, ih (Option.map_eq_none_iff.1 h)⟩

theorem putOnJoin_eq_some {slot : Slot} {c : Condition} {js js' : List Join}
    (h : putOnJoin slot c js = some js') :
    ∃ before j after, js = before ++ j :: after ∧ j.slot = slot ∧
      js' = before ++ j.under c :: after := by
  induction js generalizing js' with
  | nil => cases h
  | cons k js ih =>
    rw [putOnJoin] at h
    split at h
    · next heq => exact ⟨[], k, js, rfl, heq, (Option.some.inj h).symm⟩
    · obtain ⟨js'', hrest, rfl⟩ := Option.map_eq_some_iff.1 h
      obtain ⟨before, j, after, rfl, hslot, rfl⟩ := ih hrest
      exact ⟨k :: before, j, after, rfl, hslot, rfl⟩

theorem filters_addCondition_of_mem {d : Draft} {slot : Slot} (c : Condition)
    (h : slot ∈ d.joins.map Join.slot) : (d.addCondition slot c).filters = d.filters := by
  rw [addCondition]
  split
  · rfl
  · next hnone =>
    obtain ⟨j, hj, hslot⟩ := List.mem_map.1 h
    exact absurd hslot (putOnJoin_eq_none hnone j hj)

theorem filters_addCondition_of_notMem {d : Draft} {slot : Slot} (c : Condition)
    (h : slot ∉ d.joins.map Join.slot) :
    (d.addCondition slot c).filters = d.filters ++ [c] := by
  rw [addCondition]
  split
  · next hsome =>
    obtain ⟨before, j, after, hjoins, hslot, -⟩ := putOnJoin_eq_some hsome
    exact absurd (by simp [hjoins, hslot]) h
  · rfl

/-! ## joined nodes -/

section join

variable {a : Anchor} {n : ChainNode} {route : Route}

theorem joins_join (a : Anchor) (n : ChainNode) (route : Route) (d : Draft) :
    (d.join a n route).joins = d.joins ++ nodeJoins a n route d.next := by
  unfold join
  cases n.inclusion <;> rfl

theorem filters_join (a : Anchor) (n : ChainNode) (route : Route) (d : Draft) :
    (d.join a n route).filters = d.filters := by
  unfold join
  cases n.inclusion <;> rfl

theorem next_join (a : Anchor) (n : ChainNode) (route : Route) (d : Draft) :
    (d.join a n route).next = d.next + (nodeJoins a n route d.next).length := by
  rw [← next_withJoins]
  unfold join
  cases n.inclusion <;> rfl

/-- All hops of a node are joined in one way. -/
theorem keepsUnmatched_eq (a : Anchor)
    (plain : plainRoute n.requirement n.association = .ok route) :
    keepsUnmatched a route = (a.left || n.requirement = .optional) ∧
      ∀ g ∈ route.hops, (a.left || g.isOptional) = keepsUnmatched a route := by
  have hrequirements := Association.requirements_routeFor _ (routeFor_of_plainRoute plain)
  have hoptional : ∀ g ∈ route.hops, g.isOptional = decide (n.requirement = .optional) := by
    intro g hg
    rw [Hop.isOptional, hrequirements g hg]
  have hany : route.hops.any Hop.isOptional = decide (n.requirement = .optional) := by
    rw [← hoptional route.first List.mem_cons_self, Bool.eq_iff_iff, List.any_eq_true]
    constructor
    · intro h
      obtain ⟨g, hg, hopt⟩ := h
      rw [hoptional route.first List.mem_cons_self, ← hoptional g hg, hopt]
    · exact fun hopt => ⟨route.first, List.mem_cons_self, hopt⟩
  have hkeeps : keepsUnmatched a route = (a.left || n.requirement = .optional) := by
    rw [keepsUnmatched, hany]
  exact ⟨hkeeps, fun g hg => by rw [hkeeps, hoptional g hg]⟩

theorem kind_nodeJoins (plain : plainRoute n.requirement n.association = .ok route) (next : Nat) :
    ∀ j ∈ nodeJoins a n route next, j.kind = .keeping (keepsUnmatched a route) :=
  kinds_hopJoins n.filters a.slot next (keepsUnmatched_eq a plain).2

theorem nodeJoins_eq_append (a : Anchor) (n : ChainNode) (route : Route) (next : Nat) :
    ∃ before last, nodeJoins a n route next = before ++ [last] ∧
      last.slot = nodeSlot a n route next := by
  have hne : nodeJoins a n route next ≠ [] := by
    rw [nodeJoins]
    cases route.rest <;> simp [hopJoins]
  have hslot : nodeSlot a n route next = ((nodeJoins a n route next).getLast hne).slot := by
    rw [nodeSlot, Join.lastSlot_eq, List.getLast?_eq_some_getLast hne]
    rfl
  exact ⟨_, _, (List.dropLast_concat_getLast hne).symm, hslot.symm⟩

theorem nodeSlot_mem (a : Anchor) (n : ChainNode) (route : Route) (next : Nat) :
    ∃ j ∈ nodeJoins a n route next, j.slot = nodeSlot a n route next := by
  obtain ⟨before, last, hjoins, hslot⟩ := nodeJoins_eq_append a n route next
  refine ⟨last, ?_, hslot⟩
  rw [hjoins]
  exact List.mem_append_right _ List.mem_cons_self

theorem nodeSlot_mem_slots (a : Anchor) (n : ChainNode) (route : Route) (d : Draft) :
    nodeSlot a n route d.next ∈ (d.join a n route).joins.map Join.slot := by
  obtain ⟨j, hj, hslot⟩ := nodeSlot_mem a n route d.next
  rw [joins_join, ← hslot]
  exact List.mem_map_of_mem (List.mem_append_right _ hj)

end join

end Draft

end AssociationQuery
