import AssociationQuery.Proofs.Nesting.Layouts
import AssociationQuery.Proofs.Planning.Columns
import AssociationQuery.Proofs.Planning.Optionality

/-!
# AssociationQuery.Proofs.Nesting.Mirrors

The plans of a compiled request are the tree of the nodes with statements of their own.

The walk notes a plan when it meets such a node, and the plan is made from the note later, with
the columns that the layout had by then.  `Planned.leaves` says what all the notes of one walk
are, with the columns that the finished layout has.  What a plan made from such a note is like
is `PrefetchPlan.Serves`, and `Request.compile_mirrors` says it of the whole tree.
-/

namespace AssociationQuery

open ChainNode (NearestIs Nested Position nestedAll scopePositions separatePositionsAll)
open ChainNode.Nested (scopes separates)

/-! ## nodes with statements of their own -/

namespace ChainNode

/-- How many nodes have statements of their own, at any depth? -/
def separateCount (nodes : List ChainNode) : Nat := (everywhereAll nodes).countP isSeparate

/-- Counting goes from the first such nodes on each path to those below them. -/
theorem separateCount_eq_sum (nodes : List ChainNode) :
    separateCount nodes =
      ((separateAll nodes).map fun n => 1 + separateCount n.children).sum := by
  induction nodes using forest_induction with
  | nil => rfl
  | cons n ns below others =>
    have hcons : separateCount (n :: ns) =
        (if n.isSeparate then 1 else 0) + separateCount n.children + separateCount ns := by
      simp only [separateCount, everywhereAll, everywhere_eq, List.countP_append, List.countP_cons]
      omega
    rw [hcons, others, separateAll, List.map_append, List.sum_append]
    by_cases h : n.inclusion = .including ∧ n.association.isToMany
    · rw [separate_of_separate h, if_pos (isSeparate_iff.2 h), List.map_singleton,
        List.sum_singleton]
    · rw [separate_of_joined h, if_neg (mt isSeparate_iff.1 h), below, Nat.zero_add]

/-- The table that nodes hang from, in a statement on the rows of a base table. -/
def tableAbove (base : Table) : List ChainNode → Table
  | [] => base
  | n :: _ => n.association.destination

/-- With scopes of these places after the first scope, `scope` is the number of that of the
node right above, or 0, the first scope, when there is none. -/
def DirectIs (places : List Position) : List ChainNode → Nat → Prop
  | [], scope => scope = 0
  | n :: above, scope => ∃ i, scope = i + 1 ∧ places[i]? = some ⟨n, above⟩

/-- If the node right above is included, the nearest scope is its own. -/
theorem NearestIs.directIs {places : List Position} {above : List ChainNode} {scope : Nat}
    (h : NearestIs places above scope) (hparent : ∀ n ∈ above.head?, n.inclusion = .including) :
    DirectIs places above scope := by
  cases above with
  | nil => exact h
  | cons n above =>
    have hn := hparent n rfl
    simpa [DirectIs, NearestIs, nearest, hn] using h

end ChainNode

open ChainNode (tableAbove DirectIs separateCount)

/-! ## notes of the walk -/

namespace Draft

/-- The place for the rows of a node is the scope of the node or base row right above it, and
starts with the columns of that table. -/
structure Stands (base : Table) (l : Layout) (above : List ChainNode) (i : Nat) : Prop where
  parent : ∀ n ∈ above.head?, n.inclusion = .including
  lt : i < l.scopes.length
  room : (l.scope i).range.start + (tableAbove base above).width ≤ (l.scope i).range.stop

/-- The plan that is noted for a node. -/
def note (config : Config) (base : Table) (l : Layout) (e : Nested) :
    Except AssociationError PrefetchPlan :=
  prefetchPlan config e.node e.around (l.scope e.around).range.start
    (tableAbove base e.position.above)
    (planNodes config (.base e.node.association.destination) e.node.children)

/-- What a walk leaves to further statements, as the finished layout has it. -/
structure Leaves (config : Config) (base : Table) (d d' : Draft) (es : List Nested) : Prop where
  ranges : d.layout.scopes.map Scope.range <+: d'.layout.scopes.map Scope.range
  prefetched : ∀ i, (d'.layout.scope i).prefetched = (d.layout.scope i).prefetched ++
    ((separates es).filter fun e => e.around = i).map fun e => e.node.key
  pending : d'.pending = d.pending ++ (separates es).map (note config base d'.layout)
  stands : ∀ e ∈ separates es, Stands base d'.layout e.position.above e.around

/-- Ranges stay as they are while scopes are added behind. -/
theorem range_eq_of_ranges {l l' : Layout}
    (h : l.scopes.map Scope.range <+: l'.scopes.map Scope.range) {i : Nat}
    (hi : i < l.scopes.length) : (l'.scope i).range = (l.scope i).range := by
  have hi' : i < l'.scopes.length := Nat.lt_of_lt_of_le hi (by simpa using h.length_le)
  have heq := h.getElem (i := i) (by simpa using hi)
  simpa [Layout.scope, List.getD_eq_getElem?_getD, List.getElem?_eq_getElem, hi, hi'] using heq.symm

/-- Where the nearest scope stands depends on the ranges. -/
theorem Stands.of_ranges {base : Table} {l l' : Layout} {above : List ChainNode} {i : Nat}
    (h : Stands base l above i) (hl : l.scopes.map Scope.range <+: l'.scopes.map Scope.range) :
    Stands base l' above i where
  parent := h.parent
  lt := Nat.lt_of_lt_of_le h.lt (by simpa using hl.length_le)
  room := by
    rw [range_eq_of_ranges hl h.lt]
    exact h.room

namespace Leaves

variable {config : Config} {base : Table}

/-- A step that adds columns at most. -/
theorem nothing {d d' : Draft}
    (hranges : d.layout.scopes.map Scope.range <+: d'.layout.scopes.map Scope.range)
    (hprefetched : ∀ i, (d'.layout.scope i).prefetched = (d.layout.scope i).prefetched)
    (hpending : d'.pending = d.pending) : Leaves config base d d' [] where
  ranges := hranges
  prefetched i := (hprefetched i).trans (List.append_nil _).symm
  pending := hpending.trans (List.append_nil _).symm
  stands := List.forall_mem_nil _

/-- A step that leaves layout and plans as they are leaves no plan behind. -/
theorem of_layout {d d' : Draft} (hl : d'.layout = d.layout) (hp : d'.pending = d.pending) :
    Leaves config base d d' [] :=
  .nothing (hl ▸ List.prefix_refl _) (fun _ => by rw [hl]) hp

/-- Two steps leave behind what each of them does. -/
theorem trans {d₁ d₂ d₃ : Draft} {es fs : List Nested} (h : Leaves config base d₁ d₂ es)
    (h' : Leaves config base d₂ d₃ fs) : Leaves config base d₁ d₃ (es ++ fs) where
  ranges := h.ranges.trans h'.ranges
  prefetched i := by
    rw [h'.prefetched, h.prefetched, ChainNode.Nested.separates_append, List.filter_append,
      List.map_append, List.append_assoc]
  pending := by
    have hnotes : (separates es).map (note config base d₃.layout) =
        (separates es).map (note config base d₂.layout) := by
      refine List.map_congr_left fun e he => ?_
      rw [note, note, range_eq_of_ranges h'.ranges (h.stands e he).lt]
    rw [h'.pending, h.pending, ChainNode.Nested.separates_append, List.map_append, hnotes,
      List.append_assoc]
  stands := by
    rw [ChainNode.Nested.separates_append]
    exact List.forall_mem_append.2
      ⟨fun e he => (h.stands e he).of_ranges h'.ranges, h'.stands⟩

/-- Only the nodes with statements of their own matter. -/
theorem of_separates {d d' : Draft} {es fs : List Nested} (h : Leaves config base d d' es)
    (heq : separates es = separates fs) : Leaves config base d d' fs where
  ranges := h.ranges
  prefetched i := heq ▸ h.prefetched i
  pending := heq ▸ h.pending
  stands := heq ▸ h.stands

end Leaves

/-! ## steps of the walk -/

/-- Nothing is announced below a scope that there is not. -/
theorem prefetched_of_length_le {l : Layout} {i : Nat} (h : l.scopes.length ≤ i) :
    (l.scope i).prefetched = [] := by
  rw [Layout.scope_of_length_le h]
  rfl

/-- A new scope leaves announced rows as they are. -/
theorem prefetched_pushScope (l : Layout) (parent : Nat) (name : String) (width : Nat)
    (nullable : Bool) (i : Nat) :
    ((l.pushScope parent name width nullable).scope i).prefetched = (l.scope i).prefetched := by
  rcases Nat.lt_trichotomy i l.scopes.length with hi | rfl | hi
  · rw [Layout.scope_pushScope hi]
  · rw [Layout.scope_pushScope_last, prefetched_of_length_le (Nat.le_refl _)]
  · rw [prefetched_of_length_le (Nat.le_of_lt hi), prefetched_of_length_le]
    rw [Layout.length_scopes_pushScope]
    exact hi

/-- Rows are announced below their parent, behind those before. -/
theorem prefetched_pushPrefetched {l : Layout} {parent : Nat} (h : parent < l.scopes.length)
    (name : String) (i : Nat) :
    ((l.pushPrefetched parent name).scope i).prefetched =
      (l.scope i).prefetched ++ if parent = i then [name] else [] := by
  by_cases hi : i < l.scopes.length
  · rw [Layout.scope_pushPrefetched hi]
  · have hle : (l.pushPrefetched parent name).scopes.length ≤ i := by
      simpa [Layout.pushPrefetched] using hi
    rw [prefetched_of_length_le hle, prefetched_of_length_le (Nat.not_lt.1 hi),
      if_neg (by omega)]
    rfl

/-- A table from which nodes below the given ones hang. -/
structure Hangs (base : Table) (l : Layout) (above : List ChainNode) (a : Anchor) : Prop where
  scope : a.scope < l.scopes.length
  table : a.table = tableAbove base above
  stands : a.joining = false → Stands base l above a.scope

variable {config : Config} {base : Table}

/-- Where nodes hang depends on the ranges. -/
theorem Hangs.of_ranges {l l' : Layout} {above : List ChainNode} {a : Anchor}
    (h : Hangs base l above a) (hl : l.scopes.map Scope.range <+: l'.scopes.map Scope.range) :
    Hangs base l' above a where
  scope := Nat.lt_of_lt_of_le h.scope (by simpa using hl.length_le)
  table := h.table
  stands hjoining := (h.stands hjoining).of_ranges hl

/-- The first nodes hang from the base table. -/
theorem hangs_base (numbering : AliasNumbering) (further : Nat) :
    Hangs base (start numbering base (base.width + further)).layout [] (.base base) where
  scope := Nat.zero_lt_one
  table := rfl
  stands _ := {
    parent := nofun
    lt := Nat.zero_lt_one
    room := by
      change 0 + base.width ≤ base.width + further
      omega }

/-- Nodes below a joined node hang from it. -/
theorem hangs_below {d : Draft} {anchor : Anchor} {n : ChainNode} {route : Route}
    {above : List ChainNode} (h : Hangs base d.layout above anchor) :
    Hangs base (d.join anchor n route).layout (n :: above) (below anchor n route d) where
  scope := scope_below_lt n route h.scope
  table := rfl
  stands hjoining := by
    have hn : n.inclusion = .including := by
      cases hinclusion : n.inclusion with
      | including => rfl
      | joining => simp [below, hinclusion] at hjoining
    refine ⟨fun m hm => Option.some.inj hm ▸ hn, scope_below_lt n route h.scope, ?_⟩
    rw [scope_below_included hn, layout_join_included hn, Layout.scope_pushScope_last]
    exact Nat.le_refl _

/-- Joining a node leaves no plan behind. -/
theorem leaves_join (d : Draft) (anchor : Anchor) (n : ChainNode) (route : Route) :
    Leaves config base d (d.join anchor n route) [] := by
  cases hinclusion : n.inclusion with
  | joining =>
    exact .of_layout (layout_join_joining hinclusion d anchor route) (pending_join d anchor n route)
  | including =>
    have hlayout := layout_join_included hinclusion d anchor route
    refine .nothing ?_ (fun i => ?_) (pending_join d anchor n route)
    · rw [hlayout, ranges_pushScope]
      exact List.prefix_append _ _
    · rw [hlayout, prefetched_pushScope]

theorem Guarded.leaves {outer : Slot} {n : ChainNode} {d d' : Draft} (h : Guarded outer n d d') :
    Leaves config base d d' [] := .of_layout h.layout h.pending

/-- Leaving a node to a statement of its own notes its plan. -/
theorem leaves_leave {d : Draft} {anchor : Anchor} {n : ChainNode} {above : List ChainNode}
    (hn : n.inclusion = .including ∧ n.association.isToMany) (hnot : anchor.joining = false)
    (h : Hangs base d.layout above anchor) :
    Leaves config base d (d.leave config anchor n) [⟨⟨n, above⟩, anchor.scope⟩] := by
  have hseparates : separates [⟨⟨n, above⟩, anchor.scope⟩] = [⟨⟨n, above⟩, anchor.scope⟩] :=
    ChainNode.separates_cons_of_separate hn []
  -- announcing a name changes no range
  have hranges : (d.leave config anchor n).layout.scopes.map Scope.range =
      d.layout.scopes.map Scope.range := ranges_pushPrefetched ..
  have hstays : d.layout.scopes.map Scope.range <+:
      (d.leave config anchor n).layout.scopes.map Scope.range := hranges ▸ List.prefix_refl _
  exact {
    ranges := hstays
    prefetched := by
      intro i
      rw [hseparates]
      refine (prefetched_pushPrefetched h.scope n.key i).trans (congrArg _ ?_)
      by_cases hi : anchor.scope = i <;> simp [hi, ChainNode.Nested.node]
    pending := by
      rw [hseparates, List.map_singleton, note, range_eq_of_ranges hstays h.scope, ← h.table]
      rfl
    stands := by
      rw [hseparates]
      exact List.forall_mem_singleton.2 ((h.stands hnot).of_ranges hstays) }

/-- A joined node has no plan. -/
theorem separates_ownNested (anchor : Anchor) (above : List ChainNode) {n : ChainNode}
    (h : ¬(n.inclusion = .including ∧ n.association.isToMany)) :
    separates (ownNested anchor above n) = [] := by
  rw [ownNested]
  split
  · next hn => exact ChainNode.separates_cons_of_included (fun hm => h ⟨hn, hm⟩) []
  · rfl

/-- The walk notes the plans of the nodes with statements of their own. -/
theorem Planned.leaves {anchor : Anchor} {nodes : List ChainNode} {d d' : Draft}
    (h : Planned config anchor nodes d d') {above : List ChainNode}
    (hangs : Hangs base d.layout above anchor) :
    Leaves config base d d' (nestedAll above anchor.scope d.layout.scopes.length nodes) := by
  -- along the walk: only separate nodes leave a plan, and later scopes do not move the one it hangs
  -- from
  induction h generalizing above with
  | done => exact .of_layout rfl rfl
  | @separate anchor n rest d d₁ d' _ including toMany notJoining _ guarded _ _ _ ihOthers =>
    have hleave : Leaves config base d₁ (d₁.leave config anchor n)
        [⟨⟨n, above⟩, anchor.scope⟩] :=
      leaves_leave ⟨including, toMany⟩ notJoining (guarded.layout.symm ▸ hangs)
    have hown := guarded.leaves.trans hleave
    have hlength : (d₁.leave config anchor n).layout.scopes.length = d.layout.scopes.length :=
      (List.length_modify _ _ _).trans (by rw [guarded.layout])
    have hothers := ihOthers (hangs.of_ranges hown.ranges)
    rw [nestedAll, ChainNode.nested_of_separate ⟨including, toMany⟩,
      ChainNode.scopes_cons_of_separate ⟨including, toMany⟩]
    rw [hlength] at hothers
    exact hown.trans hothers
  | @joined anchor n rest route d d₁ d' _ kind _ _ walk _ ihChildren ihOthers =>
    have hjoin : Leaves config base d (d.join anchor n route) [] := leaves_join d anchor n route
    have hbelow := hjoin.trans (ihChildren (hangs_below hangs))
    have hregister : Leaves config base d₁
        (d₁.register (nodeSlot anchor n route d.next) n.aliases) [] := .of_layout rfl rfl
    have hown : Leaves config base d (d₁.register (nodeSlot anchor n route d.next) n.aliases)
        (n.nested above anchor.scope d.layout.scopes.length) := by
      refine (hbelow.trans hregister).of_separates ?_
      simp only [nested_of_joined route d above kind, ChainNode.Nested.separates_append,
        separates_ownNested anchor above kind, List.nil_append]
      exact List.append_nil _
    have hothers := ihOthers (hangs.of_ranges hown.ranges)
    have hlength : (d₁.register (nodeSlot anchor n route d.next) n.aliases).layout.scopes.length =
        d.layout.scopes.length +
          (scopes (n.nested above anchor.scope d.layout.scopes.length)).length :=
      walk.length_scopes_of_joined kind above
    rw [hlength] at hothers
    exact hown.trans hothers

end Draft

/-! ## plans -/

namespace PrefetchPlan

/-- The columns by which the rows of a plan find their parents: of the parent rows, of the key
filter and of the rows themselves, pair by pair of the mapping of a route's first hop. -/
structure Aligned (parent : Table) (range : Span) (first : Hop) (slot : Slot) (p : PrefetchPlan) :
    Prop where
  parentKey : List.Forall₂
    (fun pair c => ∃ i, parent.columnIndex? pair.1 = some i ∧ c = range.start + i ∧ c < range.stop)
    first.mapping p.parentKeyColumns
  keyFilter : p.statement.keyFilter = some ⟨slot, first.mapping.map Prod.snd⟩
  table : p.statement.instances.lookup slot = some first.destination
  pairing : ∃ span, p.layout.pairing = some span ∧
    span.stop = span.start + first.mapping.length ∧
    List.Forall₂ (fun pair column => ∃ name, column = .ofItem (.column slot pair.2 name))
      first.mapping (span.slice p.statement.columns)

/-- The plan is that of the node at a place, for parent rows with the given scopes. -/
structure Serves (base : Table) (places : List Position) (l : Layout) (x : Position)
    (p : PrefetchPlan) : Prop where
  name : p.name = x.node.key
  parent : DirectIs places x.above p.parentScope
  keys : ∃ route slot, x.node.association.routeFor x.node.requirement = .ok route ∧
    p.Aligned (tableAbove base x.above) (l.scope p.parentScope).range route.first slot

/-- The plans for the rows of a statement are those of the nodes that have statements of their
own right below it, and the layout announces their names. -/
structure Mirrors (l : Layout) (base : Table) (nodes : List ChainNode)
    (plans : List PrefetchPlan) : Prop where
  serves : List.Forall₂ (Serves base (scopePositions nodes) l) (separatePositionsAll [] nodes) plans
  names : ∀ i, (plans.filter fun p => p.parentScope = i).map name = (l.scope i).prefetched
  distinct : ∀ i, (l.scope i).prefetched.Nodup

/-- Plans mirror the nodes of a layout whatever its pairing columns are. -/
theorem Mirrors.of_scopes {l l' : Layout} {base : Table} {nodes : List ChainNode}
    {plans : List PrefetchPlan} (h : Mirrors l base nodes plans) (hl : l'.scopes = l.scopes) :
    Mirrors l' base nodes plans := by
  obtain ⟨scopes, pairing, width⟩ := l
  obtain ⟨scopes', pairing', width'⟩ := l'
  obtain rfl : scopes' = scopes := hl
  refine ⟨h.serves.imp fun x p hp => ⟨hp.name, hp.parent, hp.keys⟩, h.names, h.distinct⟩

/-- A plan for every node that has a statement of its own, at any depth, and no others. -/
theorem Each.statementCountAll {P : ChainNode → PrefetchPlan → Prop} {ns : List ChainNode}
    {ps : List PrefetchPlan} (h : Each P ns ps) :
    statementCountAll ps = (ns.map fun n => 1 + separateCount n.children).sum := by
  induction h with
  | nil => rfl
  | @cons n p ns ps _ _ _ ihBelow ihOthers =>
    have hp : p.statementCount = 1 + separateCount n.children := by
      rw [ChainNode.separateCount_eq_sum, ← ihBelow]
      cases p
      rfl
    rw [PrefetchPlan.statementCountAll, hp, ihOthers, List.map_cons, List.sum_cons]

end PrefetchPlan

namespace Draft

open PrefetchPlan (Aligned Each Mirrors Serves)

/-- What is noted for a node is a plan for it. -/
theorem serves_of_note {config : Config} {base : Table} {places : List Position} {l : Layout}
    {e : Nested} {p : PrefetchPlan} (h : note config base l e = .ok p)
    (hnear : NearestIs places e.position.above e.around)
    (hstands : Stands base l e.position.above e.around) : Serves base places l e.position p := by
  have hplanned : PlannedFor config e.node p := ⟨_, _, _, h⟩
  obtain ⟨route, slot, start, hroute, hfilter, htable, hpairing, hfits⟩ := hplanned.fits_pairing
  obtain ⟨route', _, hroute', hcolumns, -, -, hname, hscope, -⟩ := prefetchPlan_eq_ok h
  obtain rfl := Except.ok.inj (hroute'.symm.trans hroute)
  have hslice := hfits.pairing
  rw [hpairing, Option.map_some, Option.map_some, Option.some.injEq] at hslice
  have hpairs : List.Forall₂
      (fun pair column => ∃ name, column = .ofItem (.column slot pair.2 name))
      route'.first.mapping ((Span.mk start (start + route'.first.mapping.length)).slice
        p.statement.columns) := by
    rw [hslice, pairingColumns, List.forall₂_iff_get]
    simp
  -- key columns are counted from the start of the scope around, which has room for the whole table
  have hkey : List.Forall₂ (fun pair c => ∃ i, (tableAbove base e.position.above).columnIndex?
      pair.1 = some i ∧ c = (l.scope p.parentScope).range.start + i ∧
        c < (l.scope p.parentScope).range.stop) route'.first.mapping p.parentKeyColumns := by
    rw [hscope]
    refine (forall₂_of_parentKeyColumns hcolumns).imp fun pair c hc => ?_
    obtain ⟨i, hi, rfl⟩ := hc
    have hlt := Table.columnIndex?_lt hi
    have hroom := hstands.room
    exact ⟨i, hi, rfl, by omega⟩
  exact {
    name := hname
    parent := hscope ▸ hnear.directIs hstands.parent
    keys := ⟨route', slot, hroute', hkey, hfilter, htable, _, hpairing, rfl, hpairs⟩ }

/-- The plans that the walk leaves behind are those of the nodes with statements of their own. -/
theorem Planned.mirrors {config : Config} {numbering : AliasNumbering} {base : Table}
    (further : Nat) {nodes : List ChainNode} {d : Draft} {plans : List PrefetchPlan}
    (h : Planned config (.base base) nodes (.start numbering base (base.width + further)) d)
    (hplans : d.pending = plans.map .ok) : Mirrors d.layout base nodes plans := by
  let es := nestedAll [] 0 1 nodes
  have hleaves : Leaves config base (.start numbering base (base.width + further)) d es :=
    h.leaves (hangs_base numbering further)
  have hnear : ∀ e ∈ es, NearestIs (scopePositions nodes) e.position.above e.around :=
    ChainNode.nearestIs_scopePositions nodes
  -- the drafts were all finished, so the notes are the plans
  have hnotes : List.Forall₂ (fun e p => note config base d.layout e = .ok p) (separates es)
      plans := by
    have heq : (separates es).map (note config base d.layout) = plans.map .ok :=
      hleaves.pending.symm.trans hplans
    rw [← List.forall₂_map_right_iff, ← List.forall₂_map_left_iff, ← heq, List.forall₂_eq_eq_eq]
  have hserves : List.Forall₂ (Serves base (scopePositions nodes) d.layout)
      (separatePositionsAll [] nodes) plans := by
    rw [← ChainNode.separates_nestedAll nodes [] 0 1, List.forall₂_map_left_iff]
    have hplace : ∀ e ∈ separates es, NearestIs (scopePositions nodes) e.position.above e.around ∧
        Stands base d.layout e.position.above e.around :=
      fun e he => ⟨hnear e (List.mem_of_mem_filter he), hleaves.stands e he⟩
    exact ((List.forall₂_and_left _ _).2 ⟨hplace, hnotes⟩).imp
      fun e p he => serves_of_note he.2 he.1.1 he.1.2
  have hprefetched (i : Nat) : (d.layout.scope i).prefetched =
      ((separates es).filter fun e => e.around = i).map fun e => e.node.key := by
    rw [hleaves.prefetched i]
    cases i <;> rfl
  have hplaces : plans.map PrefetchPlan.place =
      (separates es).map fun e => (e.around, e.node.key) := by
    rw [← List.forall₂_eq_eq_eq, List.forall₂_map_left_iff, List.forall₂_map_right_iff]
    refine hnotes.flip.imp fun p e hp => ?_
    obtain ⟨_, _, -, -, -, -, hname, hscope, -⟩ := prefetchPlan_eq_ok hp
    rw [PrefetchPlan.place, hname, hscope]
  have hnames (i : Nat) : (plans.filter fun p => p.parentScope = i).map PrefetchPlan.name =
      (d.layout.scope i).prefetched := by
    have hplace := congrArg (fun places => (places.filter fun x => x.1 = i).map Prod.snd) hplaces
    simp only [List.filter_map, List.map_map] at hplace
    rw [hprefetched]
    exact hplace
  have hdistinct (i : Nat) : (d.layout.scope i).prefetched.Nodup := by
    by_cases hi : i < d.layout.scopes.length
    · exact (List.nodup_append.1 (h.flattens.tree.names i hi)).2.1
    · rw [prefetched_of_length_le (Nat.not_lt.1 hi)]
      exact .nil
  exact ⟨hserves, hnames, hdistinct⟩

/-- The plans below a plan mirror the nodes below its node. -/
theorem PlannedFor.mirrors {config : Config} {n : ChainNode} {p : PrefetchPlan}
    (h : PlannedFor config n p) :
    Mirrors p.layout n.association.destination n.children p.children := by
  obtain ⟨scope, offset, parent, hplan⟩ := h
  obtain ⟨route, d, hroute, -, hd, -, -, -, -, -, hlayout, hpending⟩ := prefetchPlan_eq_ok hplan
  rw [Association.destination_backwards_routeFor hroute] at hd
  have hmirrors := Planned.mirrors 0 (planned_of_planNodes _ hd) hpending
  exact hmirrors.of_scopes (by rw [hlayout]; rfl)

end Draft

namespace Request

open PrefetchPlan (Each Mirrors)

/-- The plans of a compiled request are the tree of its nodes with statements of their own, and
their key columns are aligned with those of the parent rows. -/
theorem compile_mirrors {r : Request} {config : Config} {q : CompiledQuery}
    (h : r.compile config = .ok q) :
    Mirrors q.root.layout r.table r.chain q.prefetches ∧
      Each (fun n p => Mirrors p.layout n.association.destination n.children p.children)
        (ChainNode.separateAll r.chain) q.prefetches ∧
      q.statementCount = 1 + separateCount r.chain := by
  obtain ⟨s, d', hs, -, hlayout, hpending⟩ := compile_eq_ok h
  obtain ⟨aggregates, d, js, hwalk, -, rfl, -⟩ := rootStatement_eq_ok hs
  have heach := each_of_compile h
  have hroot : Mirrors q.root.layout r.table r.chain q.prefetches := by
    rw [hlayout]
    exact hwalk.mirrors r.annotations.length hpending
  have hcount : q.statementCount = 1 + separateCount r.chain := by
    rw [CompiledQuery.statementCount, heach.statementCountAll, ← ChainNode.separateCount_eq_sum]
  exact ⟨hroot, heach.imp fun _ _ hp => hp.mirrors, hcount⟩

end Request

namespace Library

/-- The chapters of all books of an author. -/
def writtenChapters : ChainNode :=
  .ofAssociation (.through "chapters" booksOfAuthor.association chaptersOfBook.association [] []
    none)

/-- Books with all chapters by their authors, each with its book and the chapters of that. -/
def collected : Request where
  table := books
  chain := [{ author with children := [{ writtenChapters with
    children := [{ book with children := [chaptersOfBook] }] }] }]

/-- The request compiles. -/
theorem exists_compile_collected : ∃ q, collected.compile = .ok q :=
  exists_of_isOk (by decide +kernel)

end Library

/-- The chapters are attached to the author in the second scope, and found by their books. -/
theorem Request.compile_mirrors_collected :
    ∃ (q : CompiledQuery) (p : PrefetchPlan) (slot : Slot), Library.collected.compile = .ok q ∧
      q.prefetches = [p] ∧ p.name = "chapters" ∧ p.parentScope = 1 ∧
      p.statement.keyFilter = some ⟨slot, ["authorId"]⟩ ∧
      p.statement.instances.lookup slot = some Library.books ∧ q.statementCount = 3 := by
  obtain ⟨q, hq⟩ := Library.exists_compile_collected
  obtain ⟨hroot, -, hcount⟩ := compile_mirrors hq
  obtain ⟨p, rest, hp, hrest, hplans⟩ := List.forall₂_cons_left_iff.1 hroot.serves
  obtain rfl := List.forall₂_nil_left_iff.1 hrest
  obtain ⟨route, slot, hroute, halign⟩ := hp.keys
  obtain rfl := Except.ok.inj hroute
  obtain ⟨i, hscope, hi⟩ := hp.parent
  obtain rfl : i = 0 := Nat.lt_one_iff.1 (List.getElem?_eq_some_iff.1 hi).1
  exact ⟨q, p, slot, hq, hplans, hp.name, hscope, halign.keyFilter, halign.table, hcount⟩

end AssociationQuery
