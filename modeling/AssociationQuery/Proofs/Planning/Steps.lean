import AssociationQuery.Proofs.Planning.Nodes
import Mathlib.Data.List.Forall2

/-!
# AssociationQuery.Proofs.Planning.Steps

The draft that a walk through a chain leaves behind, written out.

Each node that is joined is one step: it adds the joins of its route, orderings, and, if it
is included, a star and a scope.  The conditions for the required to-many nodes right below
it are put onto its last join while the walk is below it.  `Planned.exists_walked` says that
the draft holds what the steps add, step after step, and nothing else.
-/

namespace AssociationQuery

/-! ## places in a chain -/

namespace ChainNode

def isOptional (n : ChainNode) : Bool := n.requirement = .optional

/-- A node that is joined into a statement, with the nodes above it that are joined into that
statement too, the nearest first. -/
structure Position where
  node : ChainNode
  above : List ChainNode

/-- Is the node optional, or one above it in the statement? -/
def Position.isOptional (x : Position) : Bool := (x.node :: x.above).any ChainNode.isOptional

def Position.isIncluded (x : Position) : Bool := x.node.inclusion = .including

mutual

/-- The places of the nodes that are joined into the statement of the node's parent, each
before those below it. -/
def positions (above : List ChainNode) : ChainNode → List Position
  | ⟨association, key, inclusion, requirement, filters, order, aliases, children⟩ =>
    if inclusion = .including ∧ association.isToMany then []
    else
      let n : ChainNode :=
        ⟨association, key, inclusion, requirement, filters, order, aliases, children⟩
      ⟨n, above⟩ :: positionsAll (n :: above) children

def positionsAll (above : List ChainNode) : List ChainNode → List Position
  | [] => []
  | n :: ns => positions above n ++ positionsAll above ns

end

/-- A node with a statement of its own has no place in that of its parent. -/
theorem positions_of_separate {above : List ChainNode} {n : ChainNode}
    (h : n.inclusion = .including ∧ n.association.isToMany) : n.positions above = [] := by
  cases n
  exact if_pos h

/-- A joined node has a place, before those of the nodes below it. -/
theorem positions_of_joined {above : List ChainNode} {n : ChainNode}
    (h : ¬(n.inclusion = .including ∧ n.association.isToMany)) :
    n.positions above = ⟨n, above⟩ :: positionsAll (n :: above) n.children := by
  cases n
  exact if_neg h

end ChainNode

/-! ## conditions on the join of a table instance -/

namespace Join

/-- The join, under further conditions if it is that of the table instance. -/
def underAt (slot : Slot) (cs : List Condition) (j : Join) : Join :=
  if j.slot = slot then mk j.kind j.slot j.table (j.on ++ cs) else j

@[simp] theorem slot_underAt (slot : Slot) (cs : List Condition) (j : Join) :
    (j.underAt slot cs).slot = j.slot := by
  unfold underAt
  split <;> rfl

@[simp] theorem kind_underAt (slot : Slot) (cs : List Condition) (j : Join) :
    (j.underAt slot cs).kind = j.kind := by
  unfold underAt
  split <;> rfl

@[simp] theorem table_underAt (slot : Slot) (cs : List Condition) (j : Join) :
    (j.underAt slot cs).table = j.table := by
  unfold underAt
  split <;> rfl

theorem underAt_of_eq {slot : Slot} {cs : List Condition} {j : Join} (h : j.slot = slot) :
    j.underAt slot cs = mk j.kind j.slot j.table (j.on ++ cs) := if_pos h

/-- Other joins stay as they are. -/
theorem underAt_of_ne {slot : Slot} {cs : List Condition} {j : Join} (h : j.slot ≠ slot) :
    j.underAt slot cs = j := if_neg h

@[simp] theorem underAt_nil (slot : Slot) (j : Join) : j.underAt slot [] = j := by
  cases j
  simp [underAt, Join.slot, Join.kind, Join.table, Join.on]

/-- Conditions that are put on a join one after the other may be put on it together. -/
theorem underAt_underAt (slot : Slot) (cs ds : List Condition) (j : Join) :
    (j.underAt slot cs).underAt slot ds = j.underAt slot (cs ++ ds) := by
  by_cases h : j.slot = slot
  · have hslot : (mk j.kind j.slot j.table (j.on ++ cs)).slot = slot := h
    rw [underAt_of_eq h, underAt_of_eq hslot, underAt_of_eq h, ← List.append_assoc]
    rfl
  · rw [underAt_of_ne h, underAt_of_ne h, underAt_of_ne h]

/-- If none of the joins is that of the table, all stay as they are. -/
theorem map_underAt_of_notMem {slot : Slot} {cs : List Condition} {js : List Join}
    (h : slot ∉ js.map Join.slot) : js.map (underAt slot cs) = js := by
  have hsame : ∀ j ∈ js, underAt slot cs j = j := by
    intro j hj
    refine underAt_of_ne fun heq => h ?_
    rw [← heq]
    exact List.mem_map_of_mem hj
  rw [List.map_congr_left hsame, List.map_id']

/-- No further condition changes nothing. -/
theorem map_underAt_nil (slot : Slot) (js : List Join) : js.map (underAt slot []) = js := by
  rw [List.map_congr_left fun j _ => underAt_nil slot j, List.map_id']

end Join

namespace Draft

/-- A condition on a joined table goes to the end of its ON clause. -/
theorem joins_addCondition {d : Draft} (hd : d.Numbered) (slot : Slot) (c : Condition) :
    (d.addCondition slot c).joins = d.joins.map (Join.underAt slot [c]) := by
  rw [addCondition]
  split
  · next joins hsome =>
    obtain ⟨before, j, after, hjoins, rfl, rfl⟩ := putOnJoin_eq_some hsome
    -- slots are numbered apart, so one join only gets the condition
    have hnodup := hd.index_pairwise.imp Nat.ne_of_lt
    rw [hjoins, List.map_append, List.map_cons, List.pairwise_append, List.pairwise_cons] at hnodup
    obtain ⟨-, ⟨hafter, -⟩, hbefore⟩ := hnodup
    have hleft : j.slot ∉ before.map Join.slot := by
      intro hmem
      obtain ⟨k, hk, heq⟩ := List.mem_map.1 hmem
      exact hbefore _ (List.mem_map_of_mem hk) _ List.mem_cons_self (congrArg Slot.index heq)
    have hright : j.slot ∉ after.map Join.slot := by
      intro hmem
      obtain ⟨k, hk, heq⟩ := List.mem_map.1 hmem
      exact hafter _ (List.mem_map_of_mem hk) (congrArg Slot.index heq).symm
    rw [hjoins, List.map_append, List.map_cons, Join.map_underAt_of_notMem hleft,
      Join.map_underAt_of_notMem hright, Join.underAt_of_eq rfl]
    rfl
  · next hnone =>
    have hnot : slot ∉ d.joins.map Join.slot := by
      intro hmem
      obtain ⟨j, hj, heq⟩ := List.mem_map.1 hmem
      exact putOnJoin_eq_none hnone j hj heq
    exact (Join.map_underAt_of_notMem hnot).symm

/-- A condition on the base table goes to the filters. -/
theorem filters_addCondition (d : Draft) (slot : Slot) (c : Condition) :
    (d.addCondition slot c).filters =
      d.filters ++ if slot ∈ d.joins.map Join.slot then [] else [c] := by
  split
  · next h => rw [filters_addCondition_of_mem c h, List.append_nil]
  · next h => exact filters_addCondition_of_notMem c h

/-! ## one node -/

/-- The condition on a table that rows for a node exist. -/
def Guards (slot : Slot) (n : ChainNode) (c : Condition) : Prop :=
  ∃ (d d' : Draft) (q : SubQuery),
    slot.index < d.next ∧ d.existence slot n = .ok (q, d') ∧ c = .existence q

/-- A condition leaves the orderings as they are. -/
theorem Guarded.order {outer : Slot} {n : ChainNode} {d d' : Draft}
    (h : Guarded outer n d d') : d'.order = d.order := by
  cases h with
  | optional => rfl
  | required _ hq => rw [order_addCondition, (aside_existence n hq).eq]

/-- It leaves the stars as they are. -/
theorem Guarded.stars {outer : Slot} {n : ChainNode} {d d' : Draft}
    (h : Guarded outer n d d') : d'.stars = d.stars := by
  cases h with
  | optional => rfl
  | required _ hq => rw [stars_addCondition, (aside_existence n hq).eq]

/-- Tables for a condition only add to the numbers. -/
theorem Guarded.next_le {outer : Slot} {n : ChainNode} {d d' : Draft}
    (h : Guarded outer n d d') : d.next ≤ d'.next := by
  cases h with
  | optional => exact Nat.le_refl _
  | required _ hq =>
    rw [next, next, aliases_addCondition]
    exact (aside_existence n hq).next_le

/-- A node with a statement of its own puts one condition onto its table, or none. -/
theorem Guarded.exists_tests {outer : Slot} {n : ChainNode} {d d' : Draft}
    (h : Guarded outer n d d') (including : n.inclusion = .including)
    (toMany : n.association.isToMany) (hd : d.Numbered) (houter : outer.index < d.next) :
    ∃ tests, List.Forall₂ (Guards outer) ([n].filter ChainNode.isTested) tests ∧
      d'.joins = d.joins.map (Join.underAt outer tests) ∧
      d'.filters = d.filters ++ if outer ∈ d.joins.map Join.slot then [] else tests := by
  -- only a required node is tested, by one condition at the slot around it
  cases h with
  | optional hreq =>
    have hnot : n.isTested = false := by simp [ChainNode.isTested, hreq]
    exact ⟨[], by simp [hnot], (Join.map_underAt_nil ..).symm, by simp⟩
  | @required q d₁ hreq hq =>
    have htested : n.isTested = true := by simp [ChainNode.isTested, including, toMany, hreq]
    have haside := aside_existence n hq
    have hjoins : d₁.joins = d.joins := by rw [haside.eq]
    have hfilters : d₁.filters = d.filters := by rw [haside.eq]
    have hd₁ : d₁.Numbered := haside.adds.numbered hd
    refine ⟨[.existence q], ?_, ?_, ?_⟩
    · rw [List.filter_cons_of_pos htested]
      exact .cons ⟨d, d₁, q, houter, hq, rfl⟩ .nil
    · rw [joins_addCondition hd₁, hjoins]
    · rw [filters_addCondition, hfilters, hjoins]

/-- The table of a node is one of those that it joins. -/
theorem le_index_nodeSlot (a : Anchor) (n : ChainNode) (route : Route) (next : Nat) :
    next ≤ (nodeSlot a n route next).index := by
  obtain ⟨j, hj, heq⟩ := nodeSlot_mem a n route next
  have hnumbered : NumberedFrom next (nodeJoins a n route next) := numberedFrom_hopJoins ..
  have hmem : j.slot ∈ (nodeJoins a n route next).map Join.slot := List.mem_map_of_mem hj
  rw [hnumbered] at hmem
  obtain ⟨i, hi, hslot⟩ := List.mem_map.1 hmem
  rw [← heq, ← hslot]
  exact (List.mem_range'_1.1 hi).1

/-- After the join its table has been numbered. -/
theorem index_nodeSlot_lt {a : Anchor} {d : Draft} (ha : a.slot.index < d.next) (n : ChainNode)
    (route : Route) : (nodeSlot a n route d.next).index < (d.join a n route).next := by
  rw [next_join]
  exact (numberedFrom_hopJoins ..).index_lastSlot_lt ha

/-- Orderings of the route come before those of the node, all on the node's table. -/
theorem order_join (a : Anchor) (n : ChainNode) (route : Route) (d : Draft) :
    (d.join a n route).order =
      d.order ++ (route.order ++ n.order).map fun o => (o, nodeSlot a n route d.next) := by
  unfold join
  cases n.inclusion <;> rfl

/-! ## steps -/

/-- A node that is joined: its place, the table that it hangs from, its route, the number of
its first table instance, and the conditions for the nodes below it. -/
structure JoinStep where
  position : ChainNode.Position
  anchor : Anchor
  route : Route
  next : Nat
  tests : List Condition

namespace JoinStep

def node (x : JoinStep) : ChainNode := x.position.node

/-- The table that the node joins last. -/
def slot (x : JoinStep) : Slot := nodeSlot x.anchor x.node x.route x.next

def joins (x : JoinStep) : List Join :=
  (nodeJoins x.anchor x.node x.route x.next).map (Join.underAt x.slot x.tests)

def order (x : JoinStep) : List (OrderTerm × Slot) :=
  (x.route.order ++ x.node.order).map fun o => (o, x.slot)

/-- The steps of nodes whose rows are part of the result. -/
def included (xs : List JoinStep) : List JoinStep := xs.filter fun x => x.position.isIncluded

theorem included_append (xs ys : List JoinStep) :
    included (xs ++ ys) = included xs ++ included ys := List.filter_append _ _

theorem included_of_including {x : JoinStep} (h : x.node.inclusion = .including) :
    included [x] = [x] := List.filter_cons_of_pos (decide_eq_true h)

theorem included_of_joining {x : JoinStep} (h : x.node.inclusion = .joining) :
    included [x] = [] := by
  refine List.filter_cons_of_neg (fun hin => ?_)
  have hin := of_decide_eq_true hin
  rw [node] at h
  rw [h] at hin
  cases hin

structure Sound (x : JoinStep) : Prop where
  plain : plainRoute x.node.requirement x.node.association = .ok x.route
  unmatched : keepsUnmatched x.anchor x.route = x.position.isOptional
  tests : List.Forall₂ (Guards x.slot) (x.node.children.filter ChainNode.isTested) x.tests

theorem slots_joins (x : JoinStep) :
    x.joins.map Join.slot = (nodeJoins x.anchor x.node x.route x.next).map Join.slot := by
  simp [joins, Function.comp_def]

/-- Joins of a step have its number or a higher one. -/
theorem le_index {x : JoinStep} {j : Join} (hj : j ∈ x.joins) : x.next ≤ j.slot.index := by
  have hmem : j.slot ∈ x.joins.map Join.slot := List.mem_map_of_mem hj
  have hnumbered : NumberedFrom x.next (nodeJoins x.anchor x.node x.route x.next) :=
    numberedFrom_hopJoins ..
  rw [slots_joins, hnumbered] at hmem
  obtain ⟨i, hi, heq⟩ := List.mem_map.1 hmem
  rw [← heq]
  exact (List.mem_range'_1.1 hi).1

end JoinStep

/-- Each step hangs from one of the tables, or from one that a step before it joins last. -/
def JoinStep.HangInTurn : List Slot → List JoinStep → Prop
  | _, [] => True
  | slots, x :: xs => x.anchor.slot ∈ slots ∧ HangInTurn (x.slot :: slots) xs

namespace JoinStep.HangInTurn

/-- What hangs from some tables hangs from more. -/
theorem mono {slots slots' : List Slot} {xs : List JoinStep} (h : HangInTurn slots xs)
    (hsub : slots ⊆ slots') : HangInTurn slots' xs := by
  induction xs generalizing slots slots' with
  | nil => trivial
  | cons x xs ih => exact ⟨hsub h.1, ih h.2 (List.cons_subset_cons _ hsub)⟩

/-- Steps that hang from the same tables may follow each other. -/
theorem append {slots : List Slot} {xs ys : List JoinStep} (hxs : HangInTurn slots xs)
    (hys : HangInTurn slots ys) : HangInTurn slots (xs ++ ys) := by
  induction xs generalizing slots with
  | nil => exact hys
  | cons x xs ih => exact ⟨hxs.1, ih hxs.2 (hys.mono (List.subset_cons_self ..))⟩

end JoinStep.HangInTurn

/-- The name of a scope and whether it may be without a row. -/
def scopeMarks (d : Draft) : List (String × Bool) :=
  d.layout.scopes.map fun s => (s.name, s.nullable)

/-- What is left to a statement of its own gets no scope. -/
theorem scopeMarks_leave (config : Config) (a : Anchor) (n : ChainNode) (d : Draft) :
    (d.leave config a n).scopeMarks = d.scopeMarks := by
  have hmarks (s : Scope) : (fun s : Scope => (s.name, s.nullable))
      { s with prefetched := s.prefetched ++ [n.key] } = (s.name, s.nullable) := rfl
  exact map_modify hmarks _ _

/-- A new scope brings its name and whether it may be without a row. -/
theorem scopeMarks_pushScope (d : Draft) (parent : Nat) (name : String) (width : Nat)
    (nullable : Bool) :
    scopeMarks { d with layout := d.layout.pushScope parent name width nullable } =
      d.scopeMarks ++ [(name, nullable)] := by
  have hmarks (s : Scope) : (fun s : Scope => (s.name, s.nullable))
      { s with children := s.children ++ [d.layout.scopes.length] } = (s.name, s.nullable) := rfl
  simp only [scopeMarks, Layout.pushScope, List.map_append]
  exact congrArg (· ++ [(name, nullable)]) (map_modify hmarks _ _)

/-- The star of a node stands behind those before it, if the node is included. -/
theorem stars_join (d : Draft) (x : JoinStep) (h : x.next = d.next) :
    (d.join x.anchor x.node x.route).stars =
      d.stars ++ (JoinStep.included [x]).map JoinStep.slot := by
  cases hinclusion : x.node.inclusion with
  | joining =>
    rw [JoinStep.included_of_joining hinclusion, join]
    simp [hinclusion, addOrder, withJoins, withTables]
  | including =>
    rw [JoinStep.included_of_including hinclusion, join]
    simp [hinclusion, JoinStep.slot, h]

/-- So does its scope. -/
theorem scopeMarks_join (d : Draft) {x : JoinStep} (h : x.Sound) :
    (d.join x.anchor x.node x.route).scopeMarks =
      d.scopeMarks ++
        (JoinStep.included [x]).map fun x => (x.node.key, x.position.isOptional) := by
  cases hinclusion : x.node.inclusion with
  | joining =>
    rw [JoinStep.included_of_joining hinclusion, join]
    simp [hinclusion, addOrder, withJoins, withTables, scopeMarks]
  | including =>
    rw [JoinStep.included_of_including hinclusion, join]
    simp only [hinclusion]
    exact (scopeMarks_pushScope _ _ _ _ _).trans (by rw [h.unmatched]; rfl)

/-- What the walk through nodes that hang from a table makes of a draft: it puts `tests` onto
that table and takes the steps.  `above` are the nodes above, in the statement. -/
structure Walked (a : Anchor) (above nodes : List ChainNode) (d d' : Draft)
    (steps : List JoinStep) (tests : List Condition) : Prop where
  positions : steps.map JoinStep.position = ChainNode.positionsAll above nodes
  sound : ∀ x ∈ steps, x.Sound
  anchors : JoinStep.HangInTurn [a.slot] steps
  guards : List.Forall₂ (Guards a.slot) (nodes.filter ChainNode.isTested) tests
  joins : d'.joins = d.joins.map (Join.underAt a.slot tests) ++ steps.flatMap JoinStep.joins
  filters : d'.filters = d.filters ++ if a.slot ∈ d.joins.map Join.slot then [] else tests
  order : d'.order = d.order ++ steps.flatMap JoinStep.order
  stars : d'.stars = d.stars ++ (JoinStep.included steps).map JoinStep.slot
  scopes : d'.scopeMarks = d.scopeMarks ++
    (JoinStep.included steps).map fun x => (x.node.key, x.position.isOptional)
  fresh : ∀ x ∈ steps, d.next ≤ x.next
  next_le : d.next ≤ d'.next

namespace Walked

variable {a : Anchor} {above nodes : List ChainNode} {d d' : Draft} {steps : List JoinStep}
  {tests : List Condition}

/-- The joins of later steps are not of earlier table instances. -/
theorem slot_notMem (h : Walked a above nodes d d' steps tests) {slot : Slot}
    (hslot : slot.index < d.next) : slot ∉ (steps.flatMap JoinStep.joins).map Join.slot := by
  intro hmem
  obtain ⟨j, hj, rfl⟩ := List.mem_map.1 hmem
  obtain ⟨x, hx, hj⟩ := List.mem_flatMap.1 hj
  have hle := h.fresh x hx
  have hle' := JoinStep.le_index hj
  omega

/-- With no nodes there is nothing to do. -/
theorem done (a : Anchor) (above : List ChainNode) (d : Draft) : Walked a above [] d d [] [] where
  positions := rfl
  sound := nofun
  anchors := trivial
  guards := .nil
  joins := by simp [Join.map_underAt_nil]
  filters := by simp
  order := (List.append_nil _).symm
  stars := (List.append_nil _).symm
  scopes := (List.append_nil _).symm
  fresh := nofun
  next_le := Nat.le_refl _

/-- A node that has a statement of its own takes no step. -/
theorem separate {config : Config} {n : ChainNode} {d₁ : Draft} {cs : List Condition}
    (including : n.inclusion = .including) (toMany : n.association.isToMany)
    (guarded : Guarded a.slot n d d₁)
    (hcs : List.Forall₂ (Guards a.slot) ([n].filter ChainNode.isTested) cs)
    (hjoins : d₁.joins = d.joins.map (Join.underAt a.slot cs))
    (hfilters : d₁.filters = d.filters ++ if a.slot ∈ d.joins.map Join.slot then [] else cs)
    (h : Walked a above nodes (d₁.leave config a n) d' steps tests) :
    Walked a above (n :: nodes) d d' steps (cs ++ tests) := by
  have hnext : d.next ≤ (d₁.leave config a n).next := guarded.next_le
  -- tests leave every join at its slot
  have hslots : (d₁.leave config a n).joins.map Join.slot = d.joins.map Join.slot := by
    rw [leave, hjoins, List.map_map]
    exact List.map_congr_left fun j _ => Join.slot_underAt ..
  exact {
    positions := by
      rw [ChainNode.positionsAll, ChainNode.positions_of_separate ⟨including, toMany⟩, h.positions]
      rfl
    sound := h.sound
    anchors := h.anchors
    guards := by
      rw [← List.singleton_append, List.filter_append]
      exact List.rel_append hcs h.guards
    joins := by
      rw [h.joins, leave, hjoins, List.map_map]
      congr 2
      funext j
      exact Join.underAt_underAt ..
    filters := by
      rw [h.filters, hslots, leave, hfilters]
      split <;> simp
    order := by rw [h.order, leave, guarded.order]
    stars := by rw [h.stars, leave, guarded.stars]
    scopes := by rw [h.scopes, scopeMarks_leave, scopeMarks, guarded.layout, scopeMarks]
    fresh := fun x hx => Nat.le_trans hnext (h.fresh x hx)
    next_le := Nat.le_trans hnext h.next_le }

/-- A node that is joined takes a step, and the nodes below it take theirs. -/
theorem joined {n : ChainNode} {route : Route} {d₁ : Draft} {steps₁ : List JoinStep}
    {tests₁ : List Condition} (hd : d.Numbered) (ha : a.slot.index < d.next)
    (hleft : a.left = above.any ChainNode.isOptional)
    (kind : ¬(n.inclusion = .including ∧ n.association.isToMany))
    (plain : plainRoute n.requirement n.association = .ok route)
    (h₁ : Walked (below a n route d) (n :: above) n.children (d.join a n route) d₁ steps₁ tests₁)
    (h : Walked a above nodes (d₁.register (nodeSlot a n route d.next) n.aliases) d' steps
      tests) :
    Walked a above (n :: nodes) d d' (⟨⟨n, above⟩, a, route, d.next, tests₁⟩ :: steps₁ ++ steps)
      tests := by
  let x : JoinStep := ⟨⟨n, above⟩, a, route, d.next, tests₁⟩
  have hx : x.Sound := by
    refine ⟨plain, ?_, h₁.guards⟩
    rw [(keepsUnmatched_eq a plain).1, hleft]
    exact Bool.or_comm ..
  have hnext : d.next ≤ (d.join a n route).next := by
    rw [next_join]
    exact Nat.le_add_right ..
  have hlast : (d.join a n route).next ≤ (d₁.register (nodeSlot a n route d.next) n.aliases).next :=
    Nat.le_trans h₁.next_le (aside_register d₁ _ _).next_le
  have hincluded : JoinStep.included (x :: steps₁ ++ steps) =
      JoinStep.included [x] ++ JoinStep.included steps₁ ++ JoinStep.included steps := by
    rw [← JoinStep.included_append, ← JoinStep.included_append]
    rfl
  -- the conditions for the children of the node stand on its own last join only
  have hown : d₁.joins = d.joins ++ x.joins ++ steps₁.flatMap JoinStep.joins := by
    have hbefore : x.slot ∉ d.joins.map Join.slot := by
      intro hmem
      obtain ⟨j, hj, heq⟩ := List.mem_map.1 hmem
      have hlt := (hd.slot_bounds hj).2
      have hle := le_index_nodeSlot a n route d.next
      rw [heq] at hlt
      exact Nat.not_lt.2 hle hlt
    rw [h₁.joins, joins_join, List.map_append]
    congr 2
    exact Join.map_underAt_of_notMem hbefore
  have hafter : a.slot ∉ (x.joins ++ steps₁.flatMap JoinStep.joins).map Join.slot := by
    intro hmem
    rw [List.map_append, List.mem_append] at hmem
    rcases hmem with hmem | hmem
    · obtain ⟨j, hj, heq⟩ := List.mem_map.1 hmem
      have hle := JoinStep.le_index hj
      rw [heq] at hle
      exact Nat.not_lt.2 hle ha
    · exact h₁.slot_notMem (Nat.lt_of_lt_of_le ha hnext) hmem
  have hslots : (a.slot ∈ d₁.joins.map Join.slot) = (a.slot ∈ d.joins.map Join.slot) := by
    rw [hown, List.append_assoc, List.map_append, List.mem_append]
    exact propext (or_iff_left hafter)
  exact {
    positions := by
      rw [ChainNode.positionsAll, ChainNode.positions_of_joined kind, List.map_append,
        List.map_cons, h₁.positions, h.positions]
    sound := List.forall_mem_append.2 ⟨List.forall_mem_cons.2 ⟨hx, h₁.sound⟩, h.sound⟩
    anchors := by
      have hbelow : [x.slot] ⊆ [x.slot, a.slot] :=
        List.cons_subset_cons _ (List.nil_subset _)
      exact ⟨List.mem_cons_self, (h₁.anchors.mono hbelow).append
        (h.anchors.mono (List.subset_cons_self ..))⟩
    guards := by
      have hnot : n.isTested = false := by
        simpa [ChainNode.isTested] using fun hi hm => absurd ⟨hi, hm⟩ kind
      rw [List.filter_cons_of_neg (by simp [hnot])]
      exact h.guards
    joins := by
      have hregister : (d₁.register (nodeSlot a n route d.next) n.aliases).joins = d₁.joins := rfl
      rw [h.joins, hregister, hown, List.append_assoc, List.map_append,
        Join.map_underAt_of_notMem hafter, List.flatMap_append, List.flatMap_cons]
      simp only [List.append_assoc]
      rfl
    filters := by
      have hregister : (d₁.register (nodeSlot a n route d.next) n.aliases).filters = d.filters := by
        have hin : (below a n route d).slot ∈ (d.join a n route).joins.map Join.slot :=
          nodeSlot_mem_slots a n route d
        rw [register, h₁.filters, if_pos hin, List.append_nil, filters_join]
      rw [h.filters, hregister]
      simp only [register, hslots]
    order := by
      rw [h.order, register, h₁.order, order_join, List.flatMap_append, List.flatMap_cons]
      simp only [List.append_assoc]
      rfl
    stars := by
      have hjoin : (d.join a n route).stars = _ := stars_join d x rfl
      rw [h.stars, register, h₁.stars, hjoin, hincluded]
      simp only [List.map_append, List.append_assoc]
    scopes := by
      have hregister : (d₁.register (nodeSlot a n route d.next) n.aliases).scopeMarks =
          d₁.scopeMarks := rfl
      have hjoin : (d.join a n route).scopeMarks = _ := scopeMarks_join d hx
      rw [h.scopes, hregister, h₁.scopes, hjoin, hincluded]
      simp only [List.map_append, List.append_assoc]
    fresh := by
      refine List.forall_mem_append.2 ⟨List.forall_mem_cons.2 ⟨Nat.le_refl _, ?_⟩, ?_⟩
      · exact fun y hy => Nat.le_trans hnext (h₁.fresh y hy)
      · exact fun y hy => Nat.le_trans (Nat.le_trans hnext hlast) (h.fresh y hy)
    next_le := Nat.le_trans hnext (Nat.le_trans hlast h.next_le) }

end Walked

/-- The walk through nodes is written out by its steps. -/
theorem Planned.exists_walked {config : Config} {a : Anchor} {nodes : List ChainNode}
    {d d' : Draft} (h : Planned config a nodes d d') {above : List ChainNode} (hd : d.Numbered)
    (ha : a.slot.index < d.next) (hleft : a.left = above.any ChainNode.isOptional) :
    ∃ steps tests, Walked a above nodes d d' steps tests := by
  -- along the walk, with the nodes above: whether rows are kept depends on them
  induction h generalizing above with
  | @done a d => exact ⟨[], [], .done a above d⟩
  | @separate a n rest d d₁ d' _ including toMany _ _ guarded _ _ _ ihOthers =>
    obtain ⟨cs, hcs, hjoins, hfilters⟩ := guarded.exists_tests including toMany hd ha
    have hnumbered : (d₁.leave config a n).Numbered :=
      (adds_leave ..).numbered (guarded.adds.numbered hd)
    obtain ⟨steps, tests, hwalk⟩ :=
      ihOthers hnumbered (Nat.lt_of_lt_of_le ha guarded.next_le) hleft
    exact ⟨steps, cs ++ tests, hwalk.separate including toMany guarded hcs hjoins hfilters⟩
  | @joined a n rest route d d₁ d' _ kind plain _ hchildren _ ihChildren ihOthers =>
    have hjoin : (d.join a n route).Numbered :=
      (adds_join a d (routeFor_of_plainRoute plain)).numbered hd
    have hbelow : (Draft.below a n route d).left = (n :: above).any ChainNode.isOptional := by
      rw [Draft.below, (keepsUnmatched_eq a plain).1, hleft]
      exact Bool.or_comm ..
    obtain ⟨steps₁, tests₁, hwalk₁⟩ := ihChildren hjoin (index_nodeSlot_lt ha n route) hbelow
    obtain ⟨js, -, -, hadds⟩ := hchildren.exists_adds
    have hnumbered : (d₁.register (nodeSlot a n route d.next) n.aliases).Numbered :=
      (adds_register ..).numbered (hadds.numbered hjoin)
    have hnext : d.next ≤ (d₁.register (nodeSlot a n route d.next) n.aliases).next := by
      have hle : d.next ≤ (d.join a n route).next := by
        rw [next_join]
        exact Nat.le_add_right ..
      exact Nat.le_trans (Nat.le_trans hle hwalk₁.next_le) (aside_register d₁ _ _).next_le
    obtain ⟨steps, tests, hwalk⟩ := ihOthers hnumbered (Nat.lt_of_lt_of_le ha hnext) hleft
    exact ⟨_, tests, .joined hd ha hleft kind plain hwalk₁ hwalk⟩

/-- The walk from the base table of a statement is written out by its steps. -/
theorem Planned.exists_walked_base {config : Config} {numbering : AliasNumbering} {t : Table}
    {width : Nat} {nodes : List ChainNode} {d : Draft}
    (h : Planned config (.base t) nodes (.start numbering t width) d) :
    ∃ steps tests, Walked (.base t) [] nodes (.start numbering t width) d steps tests :=
  h.exists_walked (numbered_start ..) (numbered_start ..).positive rfl

end Draft

end AssociationQuery
