import AssociationQuery.Proofs.Naming.Allocation
import AssociationQuery.Proofs.Planning.Nodes
import AssociationQuery.Proofs.Planning.Plans
import AssociationQuery.Proofs.Visibility.Subqueries

/-!
# AssociationQuery.Proofs.Visibility.Drafts

Every column of a planned statement belongs to a table that is visible where it stands.

A draft is closed if all its table instances are accounted for: the base table, the tables of
its joins, and those of its subqueries, which are the hidden ones.  The walk through a chain
keeps drafts closed, `Planned.closed`, and a statement from a closed draft that can be
rendered is scoped, `Closed.scoped`.
-/

namespace AssociationQuery

namespace Draft

/-- The table instances outside of subqueries. -/
def slots (d : Draft) : List Slot := root :: d.joins.map Join.slot

/-- All table instances of the draft stand at one place each, and conditions and orderings
refer to those that are visible where they stand. -/
structure Closed (d : Draft) : Prop where
  slots : (d.slots ++ d.hidden).Perm ((List.range d.next).map Slot.mk)
  owned : (Join.ownedAll d.joins ++ Condition.ownedAll d.filters).Perm d.hidden
  joins : ∀ j ∈ d.joins, ∀ c ∈ j.on, c.Within d.slots
  filters : ∀ c ∈ d.filters, c.Within d.slots
  order : ∀ o ∈ d.order, o.2 ∈ d.slots
  stars : ∀ slot ∈ d.stars, slot ∈ d.slots
  handles : d.HandlesInside

/-! ## conditions -/

section addCondition

variable (d : Draft) (slot : Slot) (c : Condition)

@[simp] theorem hidden_addCondition : (d.addCondition slot c).hidden = d.hidden := by
  rw [addCondition]
  split <;> rfl

/-- A condition joins no table. -/
theorem slots_addCondition : (d.addCondition slot c).slots = d.slots := by
  have hslots := congrArg (List.map Prod.fst) (instances_addCondition d slot c)
  simp only [instances, List.map_map] at hslots
  exact congrArg (root :: ·) hslots

/-- A condition brings in the table instances of its subqueries. -/
theorem owned_addCondition :
    (Join.ownedAll (d.addCondition slot c).joins ++
      Condition.ownedAll (d.addCondition slot c).filters).Perm
      (Join.ownedAll d.joins ++ Condition.ownedAll d.filters ++ c.owned) := by
  rw [addCondition]
  split
  · next js hsome =>
    obtain ⟨before, j, after, hjoins, -, rfl⟩ := putOnJoin_eq_some hsome
    have hunder : Condition.ownedAll (j.under c).on = Condition.ownedAll j.on ++ c.owned := by
      rw [Join.under, Join.on, Condition.ownedAll_append, Condition.ownedAll, Condition.ownedAll,
        List.append_nil]
    simp only [hjoins, Join.ownedAll_append, Join.ownedAll_cons, hunder, List.append_assoc]
    refine .append_left _ (.append_left _ ?_)
    rw [← List.append_assoc (Join.ownedAll after)]
    exact List.perm_append_comm
  · rw [Condition.ownedAll_append, Condition.ownedAll, Condition.ownedAll, List.append_nil,
      List.append_assoc]

/-- What holds of the conditions on joins and of the new one holds of those on the joins now. -/
theorem forall_on_addCondition {P : Condition → Prop} (h : ∀ j ∈ d.joins, ∀ x ∈ j.on, P x)
    (hc : P c) : ∀ j ∈ (d.addCondition slot c).joins, ∀ x ∈ j.on, P x := by
  rw [addCondition]
  split
  · next js hsome =>
    obtain ⟨before, j, after, hjoins, -, rfl⟩ := putOnJoin_eq_some hsome
    rw [hjoins, List.forall_mem_append, List.forall_mem_cons] at h
    obtain ⟨hbefore, hj, hafter⟩ := h
    have hunder : ∀ x ∈ (j.under c).on, P x :=
      List.forall_mem_append.2 ⟨hj, List.forall_mem_singleton.2 hc⟩
    exact List.forall_mem_append.2 ⟨hbefore, List.forall_mem_cons.2 ⟨hunder, hafter⟩⟩
  · exact h

/-- So with the filters. -/
theorem forall_filters_addCondition {P : Condition → Prop} (h : ∀ x ∈ d.filters, P x) (hc : P c) :
    ∀ x ∈ (d.addCondition slot c).filters, P x := by
  rw [addCondition]
  split
  · exact h
  · exact List.forall_mem_append.2 ⟨h, List.forall_mem_singleton.2 hc⟩

end addCondition

/-! ## closed drafts -/

/-- Table instances numbered on from all those before are all table instances with them. -/
theorem perm_range_append {next : Nat} {slots more : List Slot}
    (h : slots.Perm ((List.range next).map Slot.mk)) (hmore : SlotsFrom next more) :
    (slots ++ more).Perm ((List.range (next + more.length)).map Slot.mk) := by
  have hrange : (List.range (next + more.length)).map Slot.mk =
      (List.range next).map Slot.mk ++ more := by
    rw [List.range_eq_range', List.range_eq_range', ← List.range'_append_1, List.map_append,
      Nat.zero_add, ← hmore]
  rw [hrange]
  exact h.append_right more

namespace Closed

variable {d : Draft}

/-- The draft with the base table alone is closed. -/
theorem start (numbering : AliasNumbering) (t : Table) (width : Nat) :
    (start numbering t width).Closed where
  slots := List.Perm.refl _
  owned := List.Perm.refl _
  joins := nofun
  filters := nofun
  order := nofun
  stars := nofun
  handles := nofun

/-- The tables of a closed draft have been numbered. -/
theorem index_lt (h : d.Closed) {slot : Slot} (hslot : slot ∈ d.slots) : slot.index < d.next := by
  have hmem := h.slots.mem_iff.1 (List.mem_append_left _ hslot)
  obtain ⟨i, hi, rfl⟩ := List.mem_map.1 hmem
  exact List.mem_range.1 hi

/-- Handles on its tables leave a draft closed. -/
theorem register (h : d.Closed) {slot : Slot} (hslot : slot ∈ d.slots)
    (handles : List TableAlias) : (d.register slot handles).Closed where
  slots := by
    rw [next_register]
    exact h.slots
  owned := h.owned
  joins := h.joins
  filters := h.filters
  order := h.order
  stars := h.stars
  handles := h.handles.register (h.index_lt hslot) handles

/-- A plan that is left behind leaves a draft closed. -/
theorem leave (h : d.Closed) (config : Config) (a : Anchor) (n : ChainNode) :
    (d.leave config a n).Closed :=
  ⟨h.slots, h.owned, h.joins, h.filters, h.order, h.stars, h.handles⟩

/-- Orderings on its tables leave a draft closed. -/
theorem addOrder (h : d.Closed) {slot : Slot} (hslot : slot ∈ d.slots) (terms : List OrderTerm) :
    (d.addOrder slot terms).Closed where
  slots := h.slots
  owned := h.owned
  joins := h.joins
  filters := h.filters
  order := by
    refine List.forall_mem_append.2 ⟨h.order, fun o ho => ?_⟩
    obtain ⟨term, -, rfl⟩ := List.mem_map.1 ho
    exact hslot
  stars := h.stars
  handles := h.handles

/-- So does the star of one of its tables. -/
theorem withStar (h : d.Closed) {slot : Slot} (hslot : slot ∈ d.slots) (layout : Layout) :
    Closed { d with stars := d.stars ++ [slot], layout } where
  slots := h.slots
  owned := h.owned
  joins := h.joins
  filters := h.filters
  order := h.order
  stars := List.forall_mem_append.2 ⟨h.stars, List.forall_mem_singleton.2 hslot⟩
  handles := h.handles

/-- Joins that link to the tables there are, and to each other. -/
theorem withJoins (h : d.Closed) {js : List Join} (hnumbered : NumberedFrom d.next js)
    (hlinks : ∀ j ∈ js, j.LinksTo (d.slots ++ js.map Join.slot)) : (d.withJoins js).Closed := by
  -- links own no slots, so those hidden so far stay all there are
  have hslots : (d.withJoins js).slots = d.slots ++ js.map Join.slot := by
    simp only [Draft.slots, joins_withJoins, List.map_append, List.cons_append]
  have hold : d.slots ⊆ (d.withJoins js).slots := hslots ▸ List.subset_append_left ..
  exact {
    slots := by
      rw [next_withJoins, hslots, ← List.length_map (f := Join.slot)]
      refine List.Perm.trans ?_ (perm_range_append h.slots hnumbered.slotsFrom)
      rw [List.append_assoc, List.append_assoc]
      exact .append_left _ List.perm_append_comm
    owned := by
      rw [joins_withJoins, Join.ownedAll_append, Join.ownedAll_of_linksTo hlinks, List.append_nil]
      exact h.owned
    joins := by
      refine List.forall_mem_append.2
        ⟨fun j hj c hc => (h.joins j hj c hc).mono hold, fun j hj => ?_⟩
      rw [hslots]
      exact (hlinks j hj).within (List.mem_append_right _ (List.mem_map_of_mem hj))
        (List.Subset.refl _)
    filters := fun c hc => (h.filters c hc).mono hold
    order := fun o ho => hold (h.order o ho)
    stars := fun slot hslot => hold (h.stars slot hslot)
    handles := fun p hp => Nat.lt_of_lt_of_le (h.handles p hp)
      (by rw [next_withJoins]; exact Nat.le_add_right ..) }

/-- A condition with a subquery that has just been planned. -/
theorem addExistence (h : d.Closed) {d₁ : Draft} {q : SubQuery} (haside : d.Aside d₁)
    (hopens : Opens d d₁ q.owned) (hwithin : q.Within d.slots) (slot : Slot) :
    (d₁.addCondition slot (.existence q)).Closed := by
  -- the test is written in another draft, whose slots become hidden ones of this
  have hslots : (d₁.addCondition slot (.existence q)).slots = d.slots := by
    rw [slots_addCondition, haside.eq]
    rfl
  have hjoins : d₁.joins = d.joins := by rw [haside.eq]
  have hfilters : d₁.filters = d.filters := by rw [haside.eq]
  have hcondition : (Condition.existence q).Within d.slots := .existence hwithin
  exact {
    slots := by
      rw [hslots, hidden_addCondition, hopens.hidden, ← List.append_assoc, next,
        aliases_addCondition, ← next, hopens.next]
      exact perm_range_append h.slots hopens.numbered
    owned := by
      refine (owned_addCondition d₁ slot (.existence q)).trans ?_
      rw [hidden_addCondition, hopens.hidden, hjoins, hfilters]
      exact h.owned.append_right _
    joins := by
      rw [hslots]
      exact forall_on_addCondition d₁ slot _ (hjoins ▸ h.joins) hcondition
    filters := by
      rw [hslots]
      exact forall_filters_addCondition d₁ slot _ (hfilters ▸ h.filters) hcondition
    order := by
      rw [hslots, order_addCondition, haside.eq]
      exact h.order
    stars := by
      rw [hslots, stars_addCondition, haside.eq]
      exact h.stars
    handles := by
      rw [HandlesInside, next, aliases_addCondition]
      exact hopens.handles h.handles }

end Closed

/-! ## the walk -/

/-- The condition for a required node leaves a draft closed, with the same tables. -/
theorem Guarded.closed {outer : Slot} {n : ChainNode} {d d' : Draft} (h : Guarded outer n d d')
    (hd : d.Closed) (houter : outer ∈ d.slots) : d'.Closed ∧ d'.slots = d.slots := by
  cases h with
  | optional => exact ⟨hd, rfl⟩
  | @required q d₁ _ hq =>
    have haside := aside_existence n hq
    refine ⟨hd.addExistence haside (opens_existence n hq) (within_existence n hq houter) outer, ?_⟩
    rw [slots_addCondition, haside.eq]
    rfl

/-- A node adds the tables of its joins. -/
theorem slots_join (a : Anchor) (n : ChainNode) (route : Route) (d : Draft) :
    (d.join a n route).slots = d.slots ++ (nodeJoins a n route d.next).map Join.slot := by
  rw [slots, joins_join, List.map_append]
  rfl

/-- Joining a node leaves a draft closed. -/
theorem Closed.join {d : Draft} (h : d.Closed) {a : Anchor} (ha : a.slot ∈ d.slots)
    (n : ChainNode) (route : Route) : (d.join a n route).Closed := by
  have hlinks : ∀ j ∈ nodeJoins a n route d.next,
      j.LinksTo (d.slots ++ (nodeJoins a n route d.next).map Join.slot) := by
    intro j hj
    refine (linksTo_hopJoins _ _ _ _ _ _ j hj).mono (List.cons_subset.2 ⟨?_, ?_⟩)
    · exact List.mem_append_left _ ha
    · exact List.subset_append_right ..
  have hjoined := h.withJoins (numberedFrom_hopJoins ..) hlinks
  have hslot : nodeSlot a n route d.next ∈ (d.withJoins (nodeJoins a n route d.next)).slots := by
    obtain ⟨j, hj, heq⟩ := nodeSlot_mem a n route d.next
    rw [← heq]
    exact List.mem_cons_of_mem _ (List.mem_map_of_mem (List.mem_append_right _ hj))
  have hordered := hjoined.addOrder hslot (route.order ++ n.order)
  unfold Draft.join
  cases n.inclusion with
  | joining => exact hordered
  | including => exact hordered.withStar hslot _

/-- The walk keeps drafts closed. -/
theorem Planned.closed {config : Config} {a : Anchor} {nodes : List ChainNode} {d d' : Draft}
    (h : Planned config a nodes d d') (hd : d.Closed) (ha : a.slot ∈ d.slots) :
    d'.Closed ∧ d.slots ⊆ d'.slots := by
  -- along the walk: slots are only added, so the anchor stays visible
  induction h with
  | done => exact ⟨hd, List.Subset.refl _⟩
  | @separate a n rest d d₁ d' _ _ _ _ _ guarded _ _ _ ihOthers =>
    obtain ⟨hd₁, hslots⟩ := guarded.closed hd ha
    obtain ⟨hd', hsub⟩ := ihOthers (hd₁.leave config a n) (hslots ▸ ha)
    exact ⟨hd', hslots ▸ hsub⟩
  | @joined a n rest route d d₁ d' _ _ _ _ _ _ ihChildren ihOthers =>
    have hbelow : nodeSlot a n route d.next ∈ (d.join a n route).slots := by
      obtain ⟨j, hj, heq⟩ := nodeSlot_mem a n route d.next
      rw [slots_join, ← heq]
      exact List.mem_append_right _ (List.mem_map_of_mem hj)
    have hold : d.slots ⊆ (d.join a n route).slots := by
      rw [slots_join]
      exact List.subset_append_left ..
    obtain ⟨hd₁, hsub⟩ := ihChildren (hd.join ha n route) hbelow
    obtain ⟨hd', hsub'⟩ := ihOthers (hd₁.register (hsub hbelow) n.aliases) (hsub (hold ha))
    exact ⟨hd', List.Subset.trans (List.Subset.trans hold hsub) hsub'⟩

end Draft

end AssociationQuery
