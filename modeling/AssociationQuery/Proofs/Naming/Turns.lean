import AssociationQuery.Proofs.Naming.Conflicts
import AssociationQuery.Proofs.Planning.Plans
import AssociationQuery.Proofs.Visibility.Subqueries

/-!
# AssociationQuery.Proofs.Naming.Turns

The order in which handles are registered.

Every node of a statement registers its handles behind the nodes below it and behind the
siblings before it, be it joined or looked for in a subquery; the base of the statement comes
last.  The walk through a chain registers just these nodes in turn, each on a table instance
of its own that reads the table the node leads to, `Planned.registers`.
-/

namespace AssociationQuery

/-! ## turns -/

namespace ChainNode

mutual

/-- The nodes of the subquery for a node in their turn: the required ones below it, each behind
those below itself, and the node. -/
def turnsInside : ChainNode → List ChainNode
  | ⟨association, key, inclusion, requirement, filters, order, aliases, children⟩ =>
    turnsInsideAll children ++
      [⟨association, key, inclusion, requirement, filters, order, aliases, children⟩]

def turnsInsideAll : List ChainNode → List ChainNode
  | [] => []
  | n :: ns => (if n.requirement = .required then turnsInside n else []) ++ turnsInsideAll ns

end

mutual

/-- The nodes that register handles in the statement of the node's parent, in their turn.  A node
with a statement of its own does so only inside the subquery that tests for it. -/
def turns : ChainNode → List ChainNode
  | ⟨association, key, inclusion, requirement, filters, order, aliases, children⟩ =>
    let n : ChainNode :=
      ⟨association, key, inclusion, requirement, filters, order, aliases, children⟩
    if inclusion = .including ∧ association.isToMany then
      if requirement = .required then n.turnsInside else []
    else turnsAll children ++ [n]

def turnsAll : List ChainNode → List ChainNode
  | [] => []
  | n :: ns => turns n ++ turnsAll ns

end

/-- A node inside a subquery comes after those below it. -/
theorem turnsInside_eq (n : ChainNode) : n.turnsInside = turnsInsideAll n.children ++ [n] := by
  cases n
  rfl

/-- A node with a statement of its own takes its turns inside the test for it. -/
theorem turns_of_separate {n : ChainNode} (h : n.inclusion = .including ∧ n.association.isToMany) :
    n.turns = if n.requirement = .required then n.turnsInside else [] := by
  cases n
  exact if_pos h

/-- A joined node comes after those below it. -/
theorem turns_of_joined {n : ChainNode}
    (h : ¬(n.inclusion = .including ∧ n.association.isToMany)) :
    n.turns = turnsAll n.children ++ [n] := by
  cases n
  exact if_neg h

/-- Nodes that take turns inside a subquery are nodes of the chain. -/
theorem turnsInsideAll_subset (ns : List ChainNode) : turnsInsideAll ns ⊆ everywhereAll ns := by
  induction ns using forest_induction with
  | nil => exact List.nil_subset _
  | cons n ns ihChildren ihOthers =>
    rw [turnsInsideAll, everywhereAll, everywhere_eq]
    refine List.append_subset.2 ⟨?_, List.subset_append_of_subset_right _ ihOthers⟩
    split
    · rw [turnsInside_eq]
      refine List.subset_append_of_subset_left _ (List.append_subset.2 ⟨?_, ?_⟩)
      · exact List.subset_cons_of_subset _ ihChildren
      · exact List.cons_subset_cons _ (List.nil_subset _)
    · exact List.nil_subset _

/-- Only nodes of the chain register handles. -/
theorem turnsAll_subset (ns : List ChainNode) : turnsAll ns ⊆ everywhereAll ns := by
  induction ns using forest_induction with
  | nil => exact List.nil_subset _
  | cons n ns ihChildren ihOthers =>
    rw [turnsAll, everywhereAll, everywhere_eq]
    refine List.append_subset.2
      ⟨List.subset_append_of_subset_left _ ?_, List.subset_append_of_subset_right _ ihOthers⟩
    have hself : [n] ⊆ n :: everywhereAll n.children :=
      List.cons_subset_cons _ (List.nil_subset _)
    by_cases hkind : n.inclusion = .including ∧ n.association.isToMany
    · rw [turns_of_separate hkind]
      split
      · rw [turnsInside_eq]
        exact List.append_subset.2
          ⟨List.subset_cons_of_subset _ (turnsInsideAll_subset _), hself⟩
      · exact List.nil_subset _
    · rw [turns_of_joined hkind]
      exact List.append_subset.2 ⟨List.subset_cons_of_subset _ ihChildren, hself⟩

end ChainNode

/-! ## registrations of a walk -/

namespace Draft

/-- The handles of nodes, on the table instances of these. -/
def handlesOf (xs : List (ChainNode × Slot)) : List (Slot × TableAlias) :=
  xs.flatMap fun x => x.1.aliases.map fun a => (x.2, a)

/-- From one draft to another the handles of nodes are registered, each on a new table instance
of its own that reads the table the node leads to. -/
structure Registers (d d' : Draft) (xs : List (ChainNode × Slot)) : Prop where
  tables : d.aliases.tables <+: d'.aliases.tables
  registrations : d'.aliases.registrations = d.aliases.registrations ++ handlesOf xs
  named : ∀ x ∈ xs, d'.aliases.tables[x.2.index]? = some x.1.association.destination.name
  fresh : ∀ x ∈ xs, d.next ≤ x.2.index
  apart : (xs.map Prod.snd).Nodup

/-- What stands in a list stands in longer ones. -/
theorem getElem?_prefix_eq {ts us : List String} (h : ts <+: us) {i : Nat} {t : String}
    (ht : ts[i]? = some t) : us[i]? = some t := by
  obtain ⟨vs, rfl⟩ := h
  rwa [List.getElem?_append_left (List.getElem?_eq_some_iff.1 ht).1]

namespace Registers

variable {d d₁ d₂ d' : Draft} {xs ys : List (ChainNode × Slot)}

/-- A step that registers nothing. -/
theorem nothing (tables : d.aliases.tables <+: d'.aliases.tables)
    (registrations : d'.aliases.registrations = d.aliases.registrations) : Registers d d' [] :=
  ⟨tables, by rw [registrations]; exact (List.append_nil _).symm, nofun, nofun, .nil⟩

/-- Other parts of the draft do not matter. -/
theorem of_aliases (h : d'.aliases = d.aliases) : Registers d d' [] :=
  .nothing (h ▸ List.prefix_refl _) (congrArg _ h)

/-- The table instances have been numbered. -/
theorem index_lt (h : Registers d d' xs) : ∀ x ∈ xs, x.2.index < d'.next := fun x hx =>
  (List.getElem?_eq_some_iff.1 (h.named x hx)).1

/-- Two steps register the handles of both. -/
theorem trans (h : Registers d d₁ xs) (h' : Registers d₁ d' ys) : Registers d d' (xs ++ ys) where
  tables := h.tables.trans h'.tables
  registrations := by
    rw [h'.registrations, h.registrations, List.append_assoc, handlesOf, handlesOf, handlesOf,
      List.flatMap_append]
  named := List.forall_mem_append.2
    ⟨fun x hx => getElem?_prefix_eq h'.tables (h.named x hx), h'.named⟩
  fresh := List.forall_mem_append.2
    ⟨h.fresh, fun y hy => Nat.le_trans h.tables.length_le (h'.fresh y hy)⟩
  apart := by
    rw [List.map_append]
    refine h.apart.append h'.apart fun slot hslot hslot' => ?_
    obtain ⟨x, hx, rfl⟩ := List.mem_map.1 hslot
    obtain ⟨y, hy, heq⟩ := List.mem_map.1 hslot'
    exact Nat.lt_irrefl _ (Nat.lt_of_lt_of_le (heq ▸ h.index_lt x hx) (h'.fresh y hy))

/-- A node registers its handles behind those below it. -/
theorem register (h : Registers d d₁ []) (hbelow : Registers d₁ d' xs) {n : ChainNode} {slot : Slot}
    (hnew : d.next ≤ slot.index)
    (hnamed : d₁.aliases.tables[slot.index]? = some n.association.destination.name) :
    Registers d (d'.register slot n.aliases) (xs ++ [(n, slot)]) := by
  have hlt : slot.index < d₁.next := (List.getElem?_eq_some_iff.1 hnamed).1
  have hall := h.trans hbelow
  rw [List.nil_append] at hall
  refine ⟨?_, ?_, ?_, ?_, ?_⟩
  · rw [tables_register]
    exact hall.tables
  · rw [registrations_register, hall.registrations, List.append_assoc, handlesOf, handlesOf,
      List.flatMap_append, List.flatMap_singleton]
  · rw [tables_register]
    exact List.forall_mem_append.2
      ⟨hall.named, List.forall_mem_singleton.2 (getElem?_prefix_eq hbelow.tables hnamed)⟩
  · exact List.forall_mem_append.2 ⟨hall.fresh, List.forall_mem_singleton.2 hnew⟩
  -- what was registered below stands at slots opened since
  · rw [List.map_append]
    refine hall.apart.append (List.nodup_singleton _) fun s hs hs' => ?_
    obtain rfl := List.mem_singleton.1 hs'
    obtain ⟨x, hx, rfl⟩ := List.mem_map.1 hs
    exact Nat.lt_irrefl _ (Nat.lt_of_lt_of_le hlt (hbelow.fresh x hx))

end Registers

/-! ## the last table of a route -/

/-- The last of numbered joins has the number of all of them together. -/
theorem index_lastSlot {next : Nat} {js : List Join} (h : NumberedFrom (next + 1) js) :
    (Join.lastSlot ⟨next⟩ js).index = next + js.length := by
  induction js generalizing next with
  | nil => rfl
  | cons j js ih =>
    obtain ⟨hslot, hrest⟩ := h.of_cons
    rw [Join.lastSlot, List.foldl_cons, hslot, ← Join.lastSlot, ih hrest, List.length_cons]
    omega

/-- Behind other tables, the last table of a route is the one that its association leads to. -/
theorem named_last {requirement : Requirement} {a : Association} {route : Route}
    (h : a.routeFor requirement = .ok route) (tables : List String) :
    (tables ++
        (route.hops.map Hop.destination).map Table.name)[tables.length + route.rest.length]? =
      some a.destination.name := by
  have hlast : route.hops[route.rest.length]? = some route.last := by
    rw [← route.getLast?_hops, List.getLast?_eq_getElem?]
    rfl
  rw [List.getElem?_append_right (Nat.le_add_right ..), Nat.add_sub_cancel_left, List.getElem?_map,
    List.getElem?_map, hlast, Option.map_some, Option.map_some,
    Association.destination_last_routeFor a h]

/-- The last table of a subquery has the last of its numbers. -/
theorem index_insideLast (next : Nat) (route : Route) :
    (insideLast next route).index = next + route.rest.length := by
  have hlength := congrArg List.length (tables_insideJoins ⟨next⟩ (next + 1) route.rest)
  rw [List.length_map, List.length_map] at hlength
  rw [insideLast, index_lastSlot (numberedFrom_insideJoins ..), hlength]

/-- The last table of a joined node has the last of its numbers. -/
theorem index_nodeSlot (anchor : Anchor) (n : ChainNode) (route : Route) (next : Nat) :
    (nodeSlot anchor n route next).index = next + route.rest.length := by
  have hnumbered := numberedFrom_hopJoins anchor.left n.filters anchor.slot next route.first
    route.rest
  have hlength := congrArg List.length
    (tables_hopJoins anchor.left n.filters anchor.slot next route.first route.rest)
  rw [List.length_map, List.length_map, List.length_cons] at hlength
  rw [nodeSlot, nodeJoins]
  cases hjs : hopJoins anchor.left n.filters anchor.slot next route.first route.rest with
  | nil =>
    rw [hjs] at hlength
    cases hlength
  | cons j js =>
    rw [hjs] at hnumbered hlength
    obtain ⟨hslot, hrest⟩ := hnumbered.of_cons
    rw [Join.lastSlot, List.foldl_cons, hslot, ← Join.lastSlot, index_lastSlot hrest,
      Nat.succ.inj hlength]

/-! ## the walk -/

/-- Entering a subquery registers nothing. -/
theorem registers_enter (d : Draft) (route : Route) : Registers d (d.enter route) [] :=
  .nothing (List.prefix_append ..) rfl

/-- Joining a node reads the tables of its hops. -/
theorem tables_join (d : Draft) (anchor : Anchor) (n : ChainNode) (route : Route) :
    (d.join anchor n route).aliases.tables =
      d.aliases.tables ++ (route.hops.map Hop.destination).map Table.name := by
  have htables := tables_hopJoins anchor.left n.filters anchor.slot d.next route.first route.rest
  unfold join
  rw [Route.hops, ← htables]
  cases n.inclusion <;> rfl

/-- Joining a node registers nothing yet. -/
theorem registers_join (d : Draft) (anchor : Anchor) (n : ChainNode) (route : Route) :
    Registers d (d.join anchor n route) [] := by
  refine .nothing (tables_join d anchor n route ▸ List.prefix_append ..) ?_
  unfold join
  cases n.inclusion <;> rfl

mutual

/-- A subquery registers the handles of its nodes in turn. -/
theorem registers_existence : (n : ChainNode) → {outer : Slot} → {d d' : Draft} → {q : SubQuery} →
    d.existence outer n = .ok (q, d') →
    ∃ xs, xs.map Prod.fst = n.turnsInside ∧ Registers d d' xs
  | ⟨association, key, inclusion, requirement, filters, order, aliases, children⟩,
      outer, d, d', q, h => by
    obtain ⟨route, nested, d₁, hroute, hnested, -, rfl⟩ := existence_eq_ok h
    obtain ⟨xs, hxs, hbelow⟩ := registers_existences children hnested
    have hindex := index_insideLast d.next route
    have hnamed : (d.enter route).aliases.tables[(insideLast d.next route).index]? =
        some association.destination.name := by
      rw [hindex]
      exact named_last (routeFor_of_plainRoute hroute) d.aliases.tables
    refine ⟨_, ?_, (registers_enter d route).register hbelow (hindex ▸ Nat.le_add_right ..) hnamed⟩
    rw [List.map_append, hxs]
    rfl

theorem registers_existences : (nodes : List ChainNode) → {outer : Slot} → {table : Table} →
    {d d' : Draft} → {cs : List Condition} →
    d.existences outer table nodes = .ok (cs, d') →
    ∃ xs, xs.map Prod.fst = ChainNode.turnsInsideAll nodes ∧ Registers d d' xs
  | [], outer, table, d, d', cs, h => by
    obtain ⟨-, rfl⟩ : [] = cs ∧ d = d' := by simpa [existences] using h
    exact ⟨[], rfl, .of_aliases rfl⟩
  | n :: rest, outer, table, d, d', cs, h => by
    rw [existences] at h
    rw [ChainNode.turnsInsideAll]
    split at h
    · next hreq =>
      simp only [bind_eq_ok, pure_eq_ok, Prod.mk.injEq] at h
      obtain ⟨-, -, ⟨q, d₁⟩, hq, ⟨cs', d₂⟩, hcs', -, rfl⟩ := h
      obtain ⟨xs, hxs, hfirst⟩ := registers_existence n hq
      obtain ⟨ys, hys, hrest⟩ := registers_existences rest hcs'
      exact ⟨xs ++ ys, by rw [if_pos hreq, List.map_append, hxs, hys], hfirst.trans hrest⟩
    · next hreq =>
      obtain ⟨ys, hys, hrest⟩ := registers_existences rest h
      exact ⟨ys, by rw [if_neg hreq, hys, List.nil_append], hrest⟩

end

/-- The condition for a required node registers the handles inside its subquery. -/
theorem Guarded.registers {outer : Slot} {n : ChainNode} {d d' : Draft} (h : Guarded outer n d d') :
    ∃ xs, xs.map Prod.fst = (if n.requirement = .required then n.turnsInside else []) ∧
      Registers d d' xs := by
  cases h with
  | optional hreq => exact ⟨[], (if_neg hreq).symm, .of_aliases rfl⟩
  | @required q d₁ hreq hq =>
    obtain ⟨xs, hxs, hregisters⟩ := registers_existence n hq
    refine ⟨xs, by rw [if_pos hreq, hxs], ?_⟩
    have hsame := hregisters.trans (.of_aliases (aliases_addCondition d₁ outer (.existence q)))
    rwa [List.append_nil] at hsame

/-- The walk registers the handles of its nodes in turn. -/
theorem Planned.registers {config : Config} {anchor : Anchor} {nodes : List ChainNode}
    {d d' : Draft} (h : Planned config anchor nodes d d') :
    ∃ xs, xs.map Prod.fst = ChainNode.turnsAll nodes ∧ Registers d d' xs := by
  -- along the walk: children before their node, and what stands inside a guard before what follows
  -- it
  induction h with
  | done => exact ⟨[], rfl, .of_aliases rfl⟩
  | @separate anchor n rest d d₁ d' _ including toMany _ _ guarded _ _ _ ihOthers =>
    obtain ⟨xs, hxs, hguard⟩ := guarded.registers
    obtain ⟨ys, hys, hothers⟩ := ihOthers
    have hleave : Registers d₁ (d₁.leave config anchor n) [] := .of_aliases rfl
    refine ⟨xs ++ ys, ?_, hguard.trans (hleave.trans hothers)⟩
    rw [List.map_append, hxs, hys, ChainNode.turnsAll,
      ChainNode.turns_of_separate ⟨including, toMany⟩]
  | @joined anchor n rest route d d₁ d' _ kind plain _ _ _ ihChildren ihOthers =>
    obtain ⟨xs, hxs, hbelow⟩ := ihChildren
    obtain ⟨ys, hys, hothers⟩ := ihOthers
    have hindex := index_nodeSlot anchor n route d.next
    have hnamed : (d.join anchor n route).aliases.tables[(nodeSlot anchor n route d.next).index]? =
        some n.association.destination.name := by
      rw [hindex, tables_join]
      exact named_last (routeFor_of_plainRoute plain) d.aliases.tables
    have hnode := (registers_join d anchor n route).register hbelow
      (hindex ▸ Nat.le_add_right ..) hnamed
    refine ⟨_, ?_, hnode.trans hothers⟩
    rw [List.map_append, List.map_append, hxs, hys, ChainNode.turnsAll,
      ChainNode.turns_of_joined kind]
    rfl

end Draft

end AssociationQuery
