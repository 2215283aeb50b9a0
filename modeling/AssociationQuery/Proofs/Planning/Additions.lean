import AssociationQuery.Proofs.Planning.Routes
import AssociationQuery.Proofs.Planning.Statements
import Mathlib.Algebra.GroupWithZero.Nat

/-!
# AssociationQuery.Proofs.Planning.Additions

What the walk through a chain adds to a draft.

Each node that is joined adds table instances, numbered upwards, and an included
one adds a star and a scope besides.  `Planned.exists_adds` says that these come
for the same nodes and in the same order.
-/

namespace AssociationQuery

/-! ## ranges in a row -/

namespace Span

/-- Ranges of the given widths, one after the other. -/
def consecutive (start : Nat) : List Nat → List Span
  | [] => []
  | w :: ws => ⟨start, start + w⟩ :: consecutive (start + w) ws

/-- Ranges for two lists of widths: those for the second list start where the first one ends. -/
theorem consecutive_append (start : Nat) (vs ws : List Nat) :
    consecutive start (vs ++ ws) = consecutive start vs ++ consecutive (start + vs.sum) ws := by
  induction vs generalizing start with
  | nil => rfl
  | cons v vs ih =>
    rw [List.cons_append, consecutive, ih, consecutive, List.sum_cons, Nat.add_assoc]
    rfl

end Span

/-! ## nodes of one statement -/

namespace ChainNode

mutual

/-- The nodes that are joined into the statement of the node's parent, each before those
below it. -/
def joined : ChainNode → List ChainNode
  | ⟨association, key, inclusion, requirement, filters, order, aliases, children⟩ =>
    if inclusion = .including ∧ association.isToMany then []
    else ⟨association, key, inclusion, requirement, filters, order, aliases, children⟩ ::
      joinedAll children

def joinedAll : List ChainNode → List ChainNode
  | [] => []
  | n :: ns => joined n ++ joinedAll ns

end

mutual

/-- The first nodes on each path that have a statement of their own. -/
def separate : ChainNode → List ChainNode
  | ⟨association, key, inclusion, requirement, filters, order, aliases, children⟩ =>
    if inclusion = .including ∧ association.isToMany then
      [⟨association, key, inclusion, requirement, filters, order, aliases, children⟩]
    else separateAll children

def separateAll : List ChainNode → List ChainNode
  | [] => []
  | n :: ns => separate n ++ separateAll ns

end

/-- A node with a statement of its own is not joined. -/
theorem joined_of_separate {n : ChainNode}
    (h : n.inclusion = .including ∧ n.association.isToMany) : n.joined = [] := by
  cases n
  exact if_pos h

/-- A joined node comes before the joined nodes below it. -/
theorem joined_of_joined {n : ChainNode}
    (h : ¬(n.inclusion = .including ∧ n.association.isToMany)) :
    n.joined = n :: joinedAll n.children := by
  cases n
  exact if_neg h

/-- A node with a statement of its own stands for itself. -/
theorem separate_of_separate {n : ChainNode}
    (h : n.inclusion = .including ∧ n.association.isToMany) : n.separate = [n] := by
  cases n
  exact if_pos h

/-- Below a joined node, the first nodes with statements of their own are those of its children. -/
theorem separate_of_joined {n : ChainNode}
    (h : ¬(n.inclusion = .including ∧ n.association.isToMany)) :
    n.separate = separateAll n.children := by
  cases n
  exact if_neg h

end ChainNode

/-! ## numbers of table instances -/

namespace Draft

/-- The table instances of the joins are numbered upwards, above the base table. -/
structure Numbered (d : Draft) : Prop where
  increasing : (d.instances.map fun p => p.1.index).Pairwise (· < ·)
  bounds : ∀ p ∈ d.instances, 0 < p.1.index ∧ p.1.index < d.next
  positive : 0 < d.next

/-- With no joins there is nothing to number. -/
theorem numbered_start (numbering : AliasNumbering) (t : Table) (width : Nat) :
    (start numbering t width).Numbered :=
  ⟨.nil, by simp [instances, start], by simp [next, start]⟩

/-- Numbers depend on the table instances. -/
theorem Numbered.of_instances {d d' : Draft} (h : d.Numbered) (hi : d'.instances = d.instances)
    (hn : d.next ≤ d'.next) : d'.Numbered := by
  have hbounds : ∀ p ∈ d'.instances, 0 < p.1.index ∧ p.1.index < d'.next := by
    intro p hp
    obtain ⟨hpos, hlt⟩ := h.bounds p (hi ▸ hp)
    exact ⟨hpos, Nat.lt_of_lt_of_le hlt hn⟩
  exact ⟨hi ▸ h.increasing, hbounds, Nat.lt_of_lt_of_le h.positive hn⟩

/-- Joins that are numbered from a number have it and those after it. -/
theorem index_of_numberedFrom {next : Nat} {js : List Join} (h : NumberedFrom next js) :
    (js.map Join.instance).map (fun p => p.1.index) = List.range' next js.length := by
  have h' := congrArg (List.map Slot.index) h
  simpa [Function.comp_def, Join.instance] using h'

/-- Joins that are numbered from the next number leave the draft numbered. -/
theorem Numbered.withJoins {d : Draft} {js : List Join} (h : d.Numbered)
    (hjs : NumberedFrom d.next js) : (d.withJoins js).Numbered := by
  have hindex := index_of_numberedFrom hjs
  -- the new joins are numbered on from `next`
  have hnew : ∀ p ∈ js.map Join.instance, d.next ≤ p.1.index ∧
      p.1.index < d.next + js.length := by
    intro p hp
    have hmem := List.mem_map_of_mem (f := fun p : Slot × Table => p.1.index) hp
    rw [hindex] at hmem
    simpa using hmem
  have hsplit : (d.withJoins js).instances = d.instances ++ js.map Join.instance := by
    simp [instances]
  exact {
    increasing := by
      have hless : ∀ i ∈ d.instances.map fun p => p.1.index,
          ∀ k ∈ List.range' d.next js.length, i < k := by
        intro i hi k hk
        obtain ⟨p, hp, rfl⟩ := List.mem_map.1 hi
        have hlt : p.1.index < d.next := (h.bounds p hp).2
        have hle : d.next ≤ k := (List.mem_range'_1.1 hk).1
        exact Nat.lt_of_lt_of_le hlt hle
      rw [hsplit, List.map_append, List.pairwise_append, hindex]
      exact ⟨h.increasing, List.pairwise_lt_range', hless⟩
    bounds := by
      intro p hp
      rw [next_withJoins]
      rcases List.mem_append.1 (hsplit ▸ hp) with hp | hp
      · have := h.bounds p hp
        omega
      · have := hnew p hp
        have := h.positive
        omega
    positive := by
      have := h.positive
      rw [next_withJoins]
      omega }

/-- What is listed under increasing numbers is found by its number. -/
theorem lookup_of_increasing {xs : List (Slot × β)}
    (h : (xs.map fun p => p.1.index).Pairwise (· < ·)) {p : Slot × β} (hp : p ∈ xs) :
    xs.lookup p.1 = some p.2 := by
  obtain ⟨before, after, rfl⟩ := List.append_of_mem hp
  rw [List.map_append, List.pairwise_append] at h
  have hother : ∀ q ∈ before, (p.1 != q.1) = true := by
    intro q hq
    have hlt : q.1.index < p.1.index := h.2.2 _ (List.mem_map_of_mem hq) _ List.mem_cons_self
    simp only [bne_iff_ne, ne_eq]
    intro heq
    rw [heq] at hlt
    exact Nat.lt_irrefl _ hlt
  exact List.lookup_eq_some_iff.2 ⟨before, after, rfl, hother⟩

/-- The table of a joined table instance is found by its number. -/
theorem Numbered.lookup {d : Draft} (h : d.Numbered) {p : Slot × Table} (hp : p ∈ d.instances)
    (t : Table) : ((root, t) :: d.instances).lookup p.1 = some p.2 := by
  have hfirst : ∀ i ∈ d.instances.map fun p => p.1.index, root.index < i := by
    intro i hi
    obtain ⟨q, hq, rfl⟩ := List.mem_map.1 hi
    exact (h.bounds q hq).1
  have hall : (((root, t) :: d.instances).map fun p => p.1.index).Pairwise (· < ·) :=
    List.pairwise_cons.2 ⟨hfirst, h.increasing⟩
  exact lookup_of_increasing hall (List.mem_cons_of_mem _ hp)

/-! ## what the walk adds -/

/-- A node that is joined, with the table instances that are joined for it. -/
structure JoinedNode where
  node : ChainNode
  before : List (Slot × Table)
  last : Slot × Table

namespace JoinedNode

/-- All table instances of the node. -/
def instances (j : JoinedNode) : List (Slot × Table) := j.before ++ [j.last]

/-- The columns that the node contributes if it is included. -/
def width (j : JoinedNode) : Nat := j.last.2.width

/-- The table instances are those of the node's route, in order. -/
def Follows (j : JoinedNode) : Prop :=
  ∃ route, j.node.association.routeFor j.node.requirement = .ok route ∧
    j.instances.map Prod.snd = route.hops.map Hop.destination

/-- The nodes whose rows are part of the result. -/
def included (js : List JoinedNode) : List JoinedNode :=
  js.filter fun j => j.node.inclusion = .including

theorem included_append (js ks : List JoinedNode) :
    included (js ++ ks) = included js ++ included ks := List.filter_append _ _

/-- The last table is the one that the association leads to. -/
theorem Follows.last_eq {j : JoinedNode} (h : j.Follows) :
    j.last.2 = j.node.association.destination := by
  obtain ⟨route, hroute, hinstances⟩ := h
  have hlast := congrArg List.getLast? hinstances
  rw [List.getLast?_map, List.getLast?_map, instances, List.getLast?_concat,
    Route.getLast?_hops] at hlast
  rw [← Association.destination_last_routeFor _ hroute]
  exact Option.some.inj hlast

end JoinedNode

open JoinedNode (included)

/-- What a step of the walk adds to a draft: tables, stars, scopes and columns, all for the
same nodes. -/
structure Adds (d d' : Draft) (js : List JoinedNode) : Prop where
  instances : d'.instances = d.instances ++ js.flatMap JoinedNode.instances
  stars : d'.stars = d.stars ++ (included js).map fun j => j.last.1
  names : d'.layout.scopes.map Scope.name =
    d.layout.scopes.map Scope.name ++ (included js).map fun j => j.node.key
  ranges : d'.layout.scopes.map Scope.range =
    d.layout.scopes.map Scope.range ++
      Span.consecutive d.layout.width ((included js).map JoinedNode.width)
  width : d'.layout.width = d.layout.width + ((included js).map JoinedNode.width).sum
  pairing : d'.layout.pairing = d.layout.pairing
  numbered : d.Numbered → d'.Numbered

namespace Adds

/-- Steps in a row add what each of them adds. -/
theorem trans {d₁ d₂ d₃ : Draft} {js ks : List JoinedNode} (h : Adds d₁ d₂ js)
    (h' : Adds d₂ d₃ ks) : Adds d₁ d₃ (js ++ ks) where
  instances := by rw [h'.instances, h.instances, List.flatMap_append, List.append_assoc]
  stars := by
    rw [h'.stars, h.stars, JoinedNode.included_append, List.map_append, List.append_assoc]
  names := by
    rw [h'.names, h.names, JoinedNode.included_append, List.map_append, List.append_assoc]
  ranges := by
    rw [h'.ranges, h.ranges, h.width, JoinedNode.included_append, List.map_append,
      Span.consecutive_append, List.append_assoc]
  width := by
    rw [h'.width, h.width, JoinedNode.included_append, List.map_append, List.sum_append,
      Nat.add_assoc]
  pairing := h'.pairing.trans h.pairing
  numbered := h'.numbered ∘ h.numbered

/-- A step that joins no node. -/
theorem nothing {d d' : Draft} (hi : d'.instances = d.instances) (hs : d'.stars = d.stars)
    (hn : d'.layout.scopes.map Scope.name = d.layout.scopes.map Scope.name)
    (hr : d'.layout.ranges = d.layout.ranges) (hw : d'.layout.width = d.layout.width)
    (hp : d'.layout.pairing = d.layout.pairing) (hnext : d.next ≤ d'.next) : Adds d d' [] where
  instances := by rw [hi]; exact (List.append_nil _).symm
  stars := by rw [hs]; exact (List.append_nil _).symm
  names := by rw [hn]; exact (List.append_nil _).symm
  ranges := by
    have hranges := congrArg (List.map Prod.snd) hr
    simpa [Layout.ranges, included, Span.consecutive, Function.comp_def] using hranges
  width := by rw [hw]; rfl
  pairing := hp
  numbered h := h.of_instances hi hnext

end Adds

/-- A condition on a join changes none of the tables. -/
theorem instances_putOnJoin (slot : Slot) (c : Condition) : {js js' : List Join} →
    putOnJoin slot c js = some js' → js'.map Join.instance = js.map Join.instance
  | [], js', h => by simp [putOnJoin] at h
  | j :: rest, js', h => by
    rw [putOnJoin] at h
    split at h
    · obtain rfl := Option.some.inj h
      rfl
    · obtain ⟨js'', hrest, rfl⟩ := Option.map_eq_some_iff.1 h
      rw [List.map_cons, List.map_cons, instances_putOnJoin slot c hrest]

/-- A condition changes none of the tables. -/
theorem instances_addCondition (d : Draft) (slot : Slot) (c : Condition) :
    (d.addCondition slot c).instances = d.instances := by
  rw [addCondition]
  split
  · next joins hjoins => exact instances_putOnJoin slot c hjoins
  · rfl

/-- A step that joins no node adds nothing. -/
theorem Aside.adds {d d' : Draft} (h : d.Aside d') : Adds d d' [] := by
  refine .nothing ?_ ?_ ?_ ?_ ?_ ?_ h.next_le
  all_goals rw [h.eq]
  rfl

/-- A condition adds no table. -/
theorem adds_addCondition (d : Draft) (slot : Slot) (c : Condition) :
    Adds d (d.addCondition slot c) [] := by
  have hi := instances_addCondition d slot c
  revert hi
  rw [addCondition]
  split
  · exact fun hi => .nothing hi rfl rfl rfl rfl rfl (Nat.le_refl _)
  · exact fun hi => .nothing hi rfl rfl rfl rfl rfl (Nat.le_refl _)

/-- The condition for a required node joins nothing. -/
theorem Guarded.adds {outer : Slot} {n : ChainNode} {d d' : Draft} (h : Guarded outer n d d') :
    Adds d d' [] := by
  cases h with
  | optional => exact (Aside.refl d).adds
  | required _ hq => exact (aside_existence n hq).adds.trans (adds_addCondition _ _ _)

/-- What is not modified is the same in the modified list. -/
theorem map_modify {f : α → α} {g : α → β} (h : ∀ a, g (f a) = g a) (xs : List α) (i : Nat) :
    (xs.modify i f).map g = xs.map g := by
  induction xs generalizing i with
  | nil => simp
  | cons x xs ih => cases i <;> simp [h, ih]

/-- Announced rows are no scope. -/
theorem names_pushPrefetched (l : Layout) (parent : Nat) (name : String) :
    (l.pushPrefetched parent name).scopes.map Scope.name = l.scopes.map Scope.name := by
  have hname (s : Scope) :
      Scope.name { s with prefetched := s.prefetched ++ [name] } = s.name := rfl
  exact map_modify hname _ _

/-- Announced rows take no columns. -/
theorem ranges_pushPrefetched (l : Layout) (parent : Nat) (name : String) :
    (l.pushPrefetched parent name).scopes.map Scope.range = l.scopes.map Scope.range := by
  have hrange (s : Scope) :
      Scope.range { s with prefetched := s.prefetched ++ [name] } = s.range := rfl
  exact map_modify hrange _ _

/-- Nothing is added for a node with a statement of its own. -/
theorem adds_leave (config : Config) (anchor : Anchor) (n : ChainNode) (d : Draft) :
    Adds d (d.leave config anchor n) [] :=
  .nothing rfl rfl (names_pushPrefetched ..) (Layout.ranges_pushPrefetched ..) rfl rfl
    (Nat.le_refl _)

theorem adds_register (d : Draft) (slot : Slot) (handles : List TableAlias) :
    Adds d (d.register slot handles) [] := (aside_register d slot handles).adds

/-- Joins add the table instances of the nodes that they are made for. -/
theorem adds_withJoins {d : Draft} {js : List Join} (h : NumberedFrom d.next js)
    {ns : List JoinedNode} (hi : js.map Join.instance = ns.flatMap JoinedNode.instances)
    (hn : included ns = []) : Adds d (d.withJoins js) ns where
  instances := by rw [← hi, instances, instances, joins_withJoins, List.map_append]
  stars := by rw [hn]; exact (List.append_nil _).symm
  names := by rw [hn]; exact (List.append_nil _).symm
  ranges := by rw [hn]; exact (List.append_nil _).symm
  width := by rw [hn]; rfl
  pairing := rfl
  numbered hd := hd.withJoins h

/-- The table instances of a joined node. -/
def joinedNode (anchor : Anchor) (n : ChainNode) (route : Route) (next : Nat) : JoinedNode where
  node := n
  before := ((nodeJoins anchor n route next).map Join.instance).dropLast
  last := (nodeSlot anchor n route next, route.last.destination)

/-- The table instances of a joined node are those of its joins. -/
theorem instances_joinedNode (anchor : Anchor) (n : ChainNode) (route : Route) (next : Nat) :
    (joinedNode anchor n route next).instances =
      (nodeJoins anchor n route next).map Join.instance := by
  have htables := tables_hopJoins anchor.left n.filters anchor.slot next route.first route.rest
  have hlast : (nodeJoins anchor n route next).getLast?.map Join.table =
      some route.last.destination := by
    rw [← List.getLast?_map, nodeJoins, htables, List.getLast?_map]
    exact congrArg (Option.map Hop.destination) route.getLast?_hops
  obtain ⟨j, hj, htable⟩ := Option.map_eq_some_iff.1 hlast
  have hslot : nodeSlot anchor n route next = j.slot := by
    rw [nodeSlot, Join.lastSlot_eq, hj]
    rfl
  obtain ⟨js, hjs⟩ := List.getLast?_eq_some_iff.1 hj
  simp [JoinedNode.instances, joinedNode, hjs, hslot, ← htable, Join.instance]

/-- The table instances of a joined node follow its route. -/
theorem follows_joinedNode {anchor : Anchor} {n : ChainNode} {route : Route} (next : Nat)
    (h : n.association.routeFor n.requirement = .ok route) :
    (joinedNode anchor n route next).Follows := by
  have htables : (joinedNode anchor n route next).instances.map Prod.snd =
      route.hops.map Hop.destination := by
    rw [instances_joinedNode, List.map_map]
    exact tables_hopJoins anchor.left n.filters anchor.slot next route.first route.rest
  exact ⟨route, h, htables⟩

/-- Orderings add no table. -/
theorem adds_addOrder (d : Draft) (slot : Slot) (terms : List OrderTerm) :
    Adds d (d.addOrder slot terms) [] :=
  .nothing rfl rfl rfl rfl rfl rfl (Nat.le_refl _)

/-- One name more, at the end. -/
theorem names_pushScope (l : Layout) (parent : Nat) (name : String) (width : Nat)
    (nullable : Bool) : (l.pushScope parent name width nullable).scopes.map Scope.name =
      l.scopes.map Scope.name ++ [name] := by
  have hname (s : Scope) :
      Scope.name { s with children := s.children ++ [l.scopes.length] } = s.name := rfl
  simp only [Layout.pushScope, List.map_append]
  exact congrArg (· ++ [name]) (map_modify hname _ _)

/-- One range more, behind all others. -/
theorem ranges_pushScope (l : Layout) (parent : Nat) (name : String) (width : Nat)
    (nullable : Bool) : (l.pushScope parent name width nullable).scopes.map Scope.range =
      l.scopes.map Scope.range ++ [⟨l.width, l.width + width⟩] := by
  have hrange (s : Scope) :
      Scope.range { s with children := s.children ++ [l.scopes.length] } = s.range := rfl
  simp only [Layout.pushScope, List.map_append]
  exact congrArg (· ++ [⟨l.width, l.width + width⟩]) (map_modify hrange _ _)

/-- Joining a node adds that node. -/
theorem adds_join (anchor : Anchor) {n : ChainNode} {route : Route} (d : Draft)
    (h : n.association.routeFor n.requirement = .ok route) :
    Adds d (d.join anchor n route) [joinedNode anchor n route d.next] := by
  have hnumbered : NumberedFrom d.next (nodeJoins anchor n route d.next) :=
    numberedFrom_hopJoins ..
  have hinstances : (nodeJoins anchor n route d.next).map Join.instance =
      [joinedNode anchor n route d.next].flatMap JoinedNode.instances := by
    rw [List.flatMap_singleton, instances_joinedNode]
  have hwidth : n.association.destination.width = (joinedNode anchor n route d.next).width := by
    rw [← Association.destination_last_routeFor _ h]
    rfl
  -- a node that is only joined brings no columns
  cases hinclusion : n.inclusion with
  | joining =>
    have hnone : included [joinedNode anchor n route d.next] = [] := by
      simp [included, joinedNode, hinclusion]
    simp only [join, hinclusion]
    exact (adds_withJoins hnumbered hinstances hnone).trans (adds_addOrder _ _ _)
  | including =>
    have hone : included [joinedNode anchor n route d.next] =
        [joinedNode anchor n route d.next] := by
      simp [included, joinedNode, hinclusion]
    simp only [join, hinclusion]
    exact {
      instances := by
        rw [← hinstances]
        exact List.map_append
      stars := by
        rw [hone]
        rfl
      names := by
        rw [hone]
        exact names_pushScope ..
      ranges := by
        rw [hone, hwidth]
        exact ranges_pushScope ..
      width := by
        rw [hone, hwidth]
        rfl
      pairing := rfl
      numbered := fun hd => (hd.withJoins hnumbered).of_instances rfl (Nat.le_refl _) }

/-- The walk through nodes joins those that have no statement of their own. -/
theorem Planned.exists_adds {config : Config} {anchor : Anchor} {nodes : List ChainNode}
    {d d' : Draft} (h : Planned config anchor nodes d d') :
    ∃ js, js.map JoinedNode.node = ChainNode.joinedAll nodes ∧ (∀ j ∈ js, j.Follows) ∧
      Adds d d' js := by
  -- along the walk: a separate node brings no join, a joined one its own, then those of its
  -- children
  induction h with
  | done => exact ⟨[], rfl, by simp, (Aside.refl _).adds⟩
  | @separate anchor n rest d d₁ d' _ including toMany _ _ guarded _ _ _ ih =>
    obtain ⟨js, hnodes, hfollows, hadds⟩ := ih
    have hall : js.map JoinedNode.node = ChainNode.joinedAll (n :: rest) := by
      rw [ChainNode.joinedAll, ChainNode.joined_of_separate ⟨including, toMany⟩, hnodes]
      rfl
    exact ⟨js, hall, hfollows, (guarded.adds.trans (adds_leave config anchor n d₁)).trans hadds⟩
  | @joined anchor n rest route d d₁ d' _ kind plain _ _ _ ihChildren ihOthers =>
    obtain ⟨js, hjs, hjsFollows, hjsAdds⟩ := ihChildren
    obtain ⟨ks, hks, hksFollows, hksAdds⟩ := ihOthers
    have hroute := routeFor_of_plainRoute plain
    have hnodes : (joinedNode anchor n route d.next :: (js ++ ks)).map JoinedNode.node =
        ChainNode.joinedAll (n :: rest) := by
      rw [ChainNode.joinedAll, ChainNode.joined_of_joined kind, List.map_cons, List.map_append,
        hjs, hks]
      rfl
    have hfollows : ∀ j ∈ joinedNode anchor n route d.next :: (js ++ ks), j.Follows :=
      List.forall_mem_cons.2
        ⟨follows_joinedNode _ hroute, List.forall_mem_append.2 ⟨hjsFollows, hksFollows⟩⟩
    have hadds := (adds_join anchor d hroute).trans
      (hjsAdds.trans ((adds_register d₁ _ _).trans hksAdds))
    exact ⟨_, hnodes, hfollows, hadds⟩

end Draft

end AssociationQuery
