import AssociationQuery.Proofs.Planning.Joins

/-!
# AssociationQuery.Proofs.Planning.Walk

Planning as a relation between drafts.

What holds of every plan is proved along the walk through the chain.  `Planned`
says what the walk does at each node, with the draft that results written out, so
that such a proof is an induction with one case for each kind of node.
-/

namespace AssociationQuery

namespace Draft

/-! ## subqueries -/

/-- Nothing is added but table instances that belong to subqueries. -/
structure Aside (d d' : Draft) : Prop where
  eq : d' = { d with aliases := d'.aliases, hidden := d'.hidden }
  tables : d.aliases.tables <+: d'.aliases.tables

namespace Aside

theorem refl (d : Draft) : d.Aside d := ⟨rfl, List.prefix_refl _⟩

/-- What stays aside after each of two steps stays aside after both. -/
theorem trans {d₁ d₂ d₃ : Draft} (h : d₁.Aside d₂) (h' : d₂.Aside d₃) : d₁.Aside d₃ := by
  have heq : d₃ = { d₁ with aliases := d₃.aliases, hidden := d₃.hidden } := by
    rw [h'.eq, h.eq]
  exact ⟨heq, h.tables.trans h'.tables⟩

theorem next_le {d d' : Draft} (h : d.Aside d') : d.next ≤ d'.next := h.tables.length_le

theorem withTables (d : Draft) (ts : List Table) : d.Aside (d.withTables ts) :=
  ⟨rfl, List.prefix_append _ _⟩

theorem hide (d : Draft) (slots : List Slot) : d.Aside { d with hidden := d.hidden ++ slots } :=
  ⟨rfl, List.prefix_refl _⟩

end Aside

/-- Handles bring no tables with them. -/
theorem tables_register (d : Draft) (slot : Slot) (handles : List TableAlias) :
    (d.register slot handles).aliases.tables = d.aliases.tables := by
  simp only [register]
  induction handles generalizing d with
  | nil => rfl
  | cons a rest ih =>
    exact ih { d with aliases := d.aliases.attach slot a }

/-- Handles are no joins. -/
theorem aside_register (d : Draft) (slot : Slot) (handles : List TableAlias) :
    d.Aside (d.register slot handles) :=
  ⟨rfl, (tables_register d slot handles).symm ▸ List.prefix_refl _⟩

/-- The table instances of a subquery along a route that starts with the given number. -/
def insideSlots (next : Nat) (route : Route) : List Slot :=
  ⟨next⟩ :: (insideJoins ⟨next⟩ (next + 1) route.rest).map Join.slot

/-- The last table instance of a subquery along a route. -/
def insideLast (next : Nat) (route : Route) : Slot :=
  Join.lastSlot ⟨next⟩ (insideJoins ⟨next⟩ (next + 1) route.rest)

/-- The subquery for a node, given the conditions for the nodes below it. -/
def subQuery (next : Nat) (outer : Slot) (route : Route) (filters : List Expr)
    (nested : List Condition) : SubQuery :=
  .mk ⟨next⟩ (insideSlots next route) route.first.destination
    (insideJoins ⟨next⟩ (next + 1) route.rest)
    (route.first.keys ⟨next⟩ outer :: conditionsOn ⟨next⟩ route.first.filters
      ++ conditionsOn (insideLast next route) filters ++ nested)

/-- A draft with the table instances of a subquery along a route. -/
def enter (d : Draft) (route : Route) : Draft :=
  { d.withTables (route.hops.map Hop.destination) with
    hidden := d.hidden ++ insideSlots d.next route }

/-- The tables of a subquery are no joins of the statement. -/
theorem aside_enter (d : Draft) (route : Route) : d.Aside (d.enter route) :=
  (Aside.withTables d _).trans (Aside.hide _ _)

/-- A subquery takes the next numbers, one for each hop. -/
theorem next_enter (d : Draft) (route : Route) :
    (d.enter route).next = d.next + 1 + route.rest.length := by
  change (d.withTables (route.hops.map Hop.destination)).next = _
  simp [Route.hops]
  omega

/-- The last table of a subquery has been numbered. -/
theorem index_insideLast_lt (d : Draft) (route : Route) :
    (insideLast d.next route).index < (d.enter route).next := by
  have hlt := (numberedFrom_insideJoins ⟨d.next⟩ (d.next + 1) route.rest).index_lastSlot_lt
    (Nat.lt_succ_self d.next)
  have hlength := congrArg List.length (tables_insideJoins ⟨d.next⟩ (d.next + 1) route.rest)
  simp only [List.length_map] at hlength
  rw [next_enter, insideLast, ← hlength]
  exact hlt

/-- A subquery is made from the route of its node, with the conditions for the nodes below inside.
-/
theorem existence_eq_ok {outer : Slot} {n : ChainNode} {d d' : Draft} {q : SubQuery}
    (h : d.existence outer n = .ok (q, d')) :
    ∃ route nested d₁, plainRoute .required n.association = .ok route ∧
      (d.enter route).existences (insideLast d.next route) n.association.destination n.children =
        .ok (nested, d₁) ∧
      q = subQuery d.next outer route n.filters nested ∧
      d' = d₁.register (insideLast d.next route) n.aliases := by
  obtain ⟨association, key, inclusion, requirement, filters, order, aliases, children⟩ := n
  simp only [existence, addSlot_eq, joinInside_eq, bind_eq_ok, pure_eq_ok, Prod.mk.injEq,
    next_withTables, withTables_append, tables_insideJoins] at h
  obtain ⟨route, hroute, ⟨nested, d₁⟩, hnested, rfl, rfl⟩ := h
  exact ⟨route, nested, d₁, hroute, hnested, rfl, rfl⟩

mutual

/-- A subquery leaves joins, stars and scopes of the statement alone. -/
theorem aside_existence : (n : ChainNode) → {outer : Slot} → {d d' : Draft} → {q : SubQuery} →
    d.existence outer n = .ok (q, d') → d.Aside d'
  | ⟨association, key, inclusion, requirement, filters, order, aliases, children⟩,
      outer, d, d', q, h => by
    obtain ⟨route, nested, d₁, -, hnested, -, rfl⟩ := existence_eq_ok h
    exact ((aside_enter d route).trans (aside_existences children hnested)).trans
      (aside_register d₁ _ _)

theorem aside_existences : (nodes : List ChainNode) → {outer : Slot} → {table : Table} →
    {d d' : Draft} → {cs : List Condition} →
    d.existences outer table nodes = .ok (cs, d') → d.Aside d'
  | [], outer, table, d, d', cs, h => by
    obtain ⟨-, rfl⟩ : [] = cs ∧ d = d' := by simpa [existences] using h
    exact .refl d
  | n :: rest, outer, table, d, d', cs, h => by
    rw [existences] at h
    split at h
    · simp only [bind_eq_ok, pure_eq_ok, Prod.mk.injEq] at h
      obtain ⟨-, -, ⟨q, d₁⟩, hq, ⟨cs', d₂⟩, hcs', -, rfl⟩ := h
      exact (aside_existence n hq).trans (aside_existences rest hcs')
    · exact aside_existences rest h

end

/-- The plain route of an association is its route. -/
theorem routeFor_of_plainRoute {requirement : Requirement} {a : Association} {route : Route}
    (h : plainRoute requirement a = .ok route) : a.routeFor requirement = .ok route := by
  simp only [plainRoute, bind_eq_ok, pure_eq_ok] at h
  obtain ⟨_, hroute, _, _, rfl⟩ := h
  exact hroute

/-- The condition that a required node puts on the table that it hangs from. -/
inductive Guarded (outer : Slot) (n : ChainNode) (d : Draft) : Draft → Prop where
  | optional (h : n.requirement ≠ .required) : Guarded outer n d d
  | required {q : SubQuery} {d₁ : Draft} (h : n.requirement = .required)
      (subquery : d.existence outer n = .ok (q, d₁)) :
      Guarded outer n d (d₁.addCondition outer (.existence q))

/-- Conditions take no columns. -/
@[simp] theorem layout_addCondition (d : Draft) (slot : Slot) (c : Condition) :
    (d.addCondition slot c).layout = d.layout := by
  rw [addCondition]
  split <;> rfl

/-- Conditions leave the waiting plans as they are. -/
@[simp] theorem pending_addCondition (d : Draft) (slot : Slot) (c : Condition) :
    (d.addCondition slot c).pending = d.pending := by
  rw [addCondition]
  split <;> rfl

/-- Conditions bring no handles. -/
@[simp] theorem aliases_addCondition (d : Draft) (slot : Slot) (c : Condition) :
    (d.addCondition slot c).aliases = d.aliases := by
  rw [addCondition]
  split <;> rfl

@[simp] theorem order_addCondition (d : Draft) (slot : Slot) (c : Condition) :
    (d.addCondition slot c).order = d.order := by
  rw [addCondition]
  split <;> rfl

@[simp] theorem stars_addCondition (d : Draft) (slot : Slot) (c : Condition) :
    (d.addCondition slot c).stars = d.stars := by
  rw [addCondition]
  split <;> rfl

/-- The condition for a required node takes no columns. -/
theorem Guarded.layout {outer : Slot} {n : ChainNode} {d d' : Draft}
    (h : Guarded outer n d d') : d'.layout = d.layout := by
  cases h with
  | optional => rfl
  | required _ hq => rw [layout_addCondition, (aside_existence n hq).eq]

/-- It leaves the waiting plans as they are. -/
theorem Guarded.pending {outer : Slot} {n : ChainNode} {d d' : Draft}
    (h : Guarded outer n d d') : d'.pending = d.pending := by
  cases h with
  | optional => rfl
  | required _ hq => rw [pending_addCondition, (aside_existence n hq).eq]

/-- A draft that leaves a node to a statement of its own. -/
def leave (config : Config) (anchor : Anchor) (n : ChainNode) (d : Draft) : Draft :=
  { d with
    layout := d.layout.pushPrefetched anchor.scope n.key
    pending := d.pending ++ [prefetchPlan config n anchor.scope
      (d.layout.scope anchor.scope).range.start anchor.table
      (planNodes config (.base n.association.destination) n.children)] }

/-- The joins for a node. -/
def nodeJoins (anchor : Anchor) (n : ChainNode) (route : Route) (next : Nat) : List Join :=
  hopJoins anchor.left n.filters anchor.slot next route.first route.rest

/-- The table that a node joins last. -/
def nodeSlot (anchor : Anchor) (n : ChainNode) (route : Route) (next : Nat) : Slot :=
  Join.lastSlot anchor.slot (nodeJoins anchor n route next)

/-- Are rows without a match kept below a node? -/
def keepsUnmatched (anchor : Anchor) (route : Route) : Bool :=
  anchor.left || route.hops.any Hop.isOptional

/-- The table that the children of a joined node hang from. -/
def below (anchor : Anchor) (n : ChainNode) (route : Route) (d : Draft) : Anchor where
  slot := nodeSlot anchor n route d.next
  table := n.association.destination
  left := keepsUnmatched anchor route
  scope := match n.inclusion with
    | .joining => anchor.scope
    | .including => d.layout.scopes.length
  joining := n.inclusion = .joining

/-- Below an included node the scope is a new one. -/
theorem scope_below_included {n : ChainNode} (h : n.inclusion = .including) (anchor : Anchor)
    (route : Route) (d : Draft) : (below anchor n route d).scope = d.layout.scopes.length := by
  simp [below, h]

/-- Below a node that is only joined the scope stays the same. -/
theorem scope_below_joining {n : ChainNode} (h : n.inclusion = .joining) (anchor : Anchor)
    (route : Route) (d : Draft) : (below anchor n route d).scope = anchor.scope := by
  simp [below, h]

/-- A draft with a node joined. -/
def join (anchor : Anchor) (n : ChainNode) (route : Route) (d : Draft) : Draft :=
  let slot := nodeSlot anchor n route d.next
  let d' := (d.withJoins (nodeJoins anchor n route d.next)).addOrder slot (route.order ++ n.order)
  match n.inclusion with
  | .joining => d'
  | .including =>
    { d' with
      stars := d.stars ++ [slot]
      layout := d.layout.pushScope anchor.scope n.key n.association.destination.width
        (keepsUnmatched anchor route) }

/-- Joining a node leaves the waiting plans as they are. -/
theorem pending_join (d : Draft) (anchor : Anchor) (n : ChainNode) (route : Route) :
    (d.join anchor n route).pending = d.pending := by
  unfold join
  cases n.inclusion <;> rfl

/-- An included node gets a scope below that of its anchor. -/
theorem layout_join_included {n : ChainNode} (h : n.inclusion = .including) (d : Draft)
    (anchor : Anchor) (route : Route) :
    (d.join anchor n route).layout =
      d.layout.pushScope anchor.scope n.key n.association.destination.width
        (keepsUnmatched anchor route) := by
  simp [join, h]

/-- A node that is only joined gets no scope. -/
theorem layout_join_joining {n : ChainNode} (h : n.inclusion = .joining) (d : Draft)
    (anchor : Anchor) (route : Route) : (d.join anchor n route).layout = d.layout := by
  simp [join, h, addOrder, withJoins, withTables]

/-- For a node with a statement of its own a name is claimed, perhaps a condition put on the table
it hangs from, and a plan left behind. -/
theorem planSeparate_eq_ok {config : Config} {anchor : Anchor} {n : ChainNode} {d d' : Draft}
    (h : d.planSeparate config anchor n
      (planNodes config (.base n.association.destination) n.children) = .ok d') :
    anchor.joining = false ∧ d.claimScope anchor.scope n.key = .ok () ∧
      ∃ d₁, Guarded anchor.slot n d d₁ ∧ d' = d₁.leave config anchor n := by
  -- two things can fail, the place and the name; then the test is written if there is one
  rw [planSeparate] at h
  split at h
  · simp only [throw_bind_eq_ok] at h
  · next hnot =>
    simp only [bind_eq_ok] at h
    obtain ⟨⟨⟩, hfree, h⟩ := h
    have hbase : anchor.joining = false := by simpa using hnot
    split at h
    · next hreq =>
      simp only [bind_eq_ok, pure_eq_ok] at h
      obtain ⟨⟨q, d₀⟩, hq, _, rfl, rfl⟩ := h
      exact ⟨hbase, hfree, _, .required hreq hq, rfl⟩
    · next hreq =>
      simp only [bind_eq_ok, pure_eq_ok] at h
      obtain ⟨_, rfl, rfl⟩ := h
      exact ⟨hbase, hfree, d, .optional hreq, rfl⟩

/-- A node that is joined takes its plain route, and claims a name if it is included. -/
theorem planJoined_eq_ok {anchor a : Anchor} {n : ChainNode} {d d' : Draft}
    (h : d.planJoined anchor n = .ok (a, d')) :
    ∃ route, plainRoute n.requirement n.association = .ok route ∧
      (n.inclusion = .including → d.claimScope anchor.scope n.key = .ok ()) ∧
      a = below anchor n route d ∧ d' = d.join anchor n route := by
  obtain ⟨association, key, inclusion, requirement, filters, order, aliases, children⟩ := n
  simp only [planJoined, joinHops_eq, bind_eq_ok] at h
  obtain ⟨route, hroute, h⟩ := h
  cases inclusion with
  | joining =>
    simp only [pure_eq_ok, Prod.mk.injEq] at h
    obtain ⟨rfl, rfl⟩ := h
    exact ⟨route, hroute, nofun, rfl, rfl⟩
  | including =>
    simp only [bind_eq_ok, pure_eq_ok, Prod.mk.injEq] at h
    obtain ⟨⟨⟩, hfree, rfl, rfl⟩ := h
    exact ⟨route, hroute, fun _ => hfree, rfl, rfl⟩

/-- What planning does with nodes that hang from a table, from one draft to another. -/
inductive Planned (config : Config) : Anchor → List ChainNode → Draft → Draft → Prop where
  | done {anchor : Anchor} {d : Draft} : Planned config anchor [] d d
  /-- An included to-many node is left to a statement of its own. -/
  | separate {anchor : Anchor} {n : ChainNode} {rest : List ChainNode} {d d₁ d' : Draft}
      (check : n.check anchor.table = .ok ())
      (including : n.inclusion = .including) (toMany : n.association.isToMany)
      (notJoining : anchor.joining = false) (free : d.claimScope anchor.scope n.key = .ok ())
      (guarded : Guarded anchor.slot n d d₁)
      (children : ∀ c c', planNodes config (.base n.association.destination) n.children c = .ok c' →
        Planned config (.base n.association.destination) n.children c c')
      (others : Planned config anchor rest (d₁.leave config anchor n) d') :
      Planned config anchor (n :: rest) d d'
  /-- Every other node is joined. -/
  | joined {anchor : Anchor} {n : ChainNode} {rest : List ChainNode} {route : Route}
      {d d₁ d' : Draft}
      (check : n.check anchor.table = .ok ())
      (kind : ¬(n.inclusion = .including ∧ n.association.isToMany))
      (plain : plainRoute n.requirement n.association = .ok route)
      (free : n.inclusion = .including → d.claimScope anchor.scope n.key = .ok ())
      (children : Planned config (below anchor n route d) n.children (d.join anchor n route) d₁)
      (others : Planned config anchor rest
        (d₁.register (nodeSlot anchor n route d.next) n.aliases) d') :
      Planned config anchor (n :: rest) d d'

mutual

/-- What is planned for one node goes in front of what is planned for the others. -/
theorem planned_of_planNode {config : Config} {anchor : Anchor} : (n : ChainNode) →
    {rest : List ChainNode} → {d d₁ d' : Draft} → planNode config anchor n d = .ok d₁ →
    Planned config anchor rest d₁ d' → Planned config anchor (n :: rest) d d'
  | ⟨association, key, inclusion, requirement, filters, order, aliases, children⟩,
      rest, d, d₁, d', h, hrest => by
    rw [planNode] at h
    simp only [bind_eq_ok] at h
    obtain ⟨⟨⟩, hcheck, h⟩ := h
    split at h
    · next hkind =>
      obtain ⟨hnot, hfree, d₂, hguard, rfl⟩ := planSeparate_eq_ok h
      exact .separate hcheck hkind.1 hkind.2 hnot hfree hguard
        (fun c c' hc => planned_of_planNodes children hc) hrest
    · next hkind =>
      simp only [bind_eq_ok, pure_eq_ok] at h
      obtain ⟨⟨a, d₂⟩, hjoin, d₃, hchildren, rfl⟩ := h
      obtain ⟨route, hroute, hfree, rfl, rfl⟩ := planJoined_eq_ok hjoin
      exact .joined hcheck hkind hroute hfree (planned_of_planNodes children hchildren) hrest

theorem planned_of_planNodes {config : Config} {anchor : Anchor} : (nodes : List ChainNode) →
    {d d' : Draft} → planNodes config anchor nodes d = .ok d' →
    Planned config anchor nodes d d'
  | [], d, d', h => by
    obtain rfl : d = d' := by simpa [planNodes] using h
    exact .done
  | n :: rest, d, d', h => by
    simp only [planNodes, bind_eq_ok] at h
    obtain ⟨d₁, hn, hrest⟩ := h
    exact planned_of_planNode n hn (planned_of_planNodes rest hrest)

end

end Draft

end AssociationQuery
