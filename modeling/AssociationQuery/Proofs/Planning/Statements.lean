import AssociationQuery.Proofs.Planning.Walk

/-!
# AssociationQuery.Proofs.Planning.Statements

What the statements of a compiled request are made from.

Each statement comes from a draft that a walk through a chain has filled:
`prefetchPlan_eq_ok` gives the draft of a further statement and
`compile_eq_ok` that of the base statement.
-/

namespace AssociationQuery

namespace Draft

/-! ## statements of their own -/

/-- The joins back to the first table of a route. -/
def keyJoins (route : Route) (d : Draft) : List Join :=
  backJoins root route.backwards.1 d.next route.backwards.2

/-- The table that holds the keys of the parent rows. -/
def keySlot (route : Route) (d : Draft) : Slot := Join.lastSlot root (keyJoins route d)

/-- The draft of a node's statement, from the draft that the children of the node give. -/
def prefetched (n : ChainNode) (route : Route) (d : Draft) : Draft :=
  (d.withJoins (keyJoins route d)).register root n.aliases

/-- A plan is made from the draft that the children of its node give, with the joins back to the
table of the keys. -/
theorem prefetchPlan_eq_ok {config : Config} {n : ChainNode} {scope offset : Nat} {parent : Table}
    {planChildren : Draft → Except AssociationError Draft} {p : PrefetchPlan}
    (h : prefetchPlan config n scope offset parent planChildren = .ok p) :
    ∃ route d,
      n.association.routeFor n.requirement = .ok route ∧
      parentKeyColumns n.association.name parent offset route.first = .ok p.parentKeyColumns ∧
      planChildren (.start config.numbering route.backwards.1.destination
        route.backwards.1.destination.width) = .ok d ∧
      (d.prefetched n route).aliases.allocate = .ok p.statement.aliases ∧
      p.name = n.key ∧ p.parentScope = scope ∧ p.dialect = config.dialect ∧
      p.statement = (d.prefetched n route).prefetchStatement config n route (d.keySlot route)
        p.statement.aliases ∧
      p.layout = d.layout.pushPairing route.first.mapping.length ∧
      d.pending = p.children.map .ok := by
  simp only [prefetchPlan, prefetchDraft, joinBack_eq, bind_eq_ok, pure_eq_ok, mapM_eq_ok,
    List.map_id] at h
  obtain ⟨route, hroute, columns, hcolumns, _, ⟨d, hd, rfl⟩, aliases, haliases, _, -, children,
    hchildren, rfl⟩ := h
  exact ⟨route, d, hroute, hcolumns, hd, haliases, rfl, rfl, rfl, rfl, rfl, hchildren⟩

/-- The statement `s` fetches the rows of a node along a route: what the children of the node gave
stands in the draft `d`, and the joins back lead to the table of the keys. -/
structure Fetches (config : Config) (n : ChainNode) (route : Route) (d : Draft) (s : Statement) :
    Prop where
  root : s.root = root
  table : s.table = route.backwards.1.destination
  select : s.select = .star s.root :: d.stars.map .star ++
    pairingColumns config.pairingName (d.keySlot route) (route.first.mapping.map Prod.snd)
  joins : s.joins = d.joins ++ keyJoins route d
  keyFilter : s.keyFilter = some ⟨d.keySlot route, route.first.mapping.map Prod.snd⟩
  filters :
    s.filters = conditionsOn Draft.root (route.backwards.1.filters ++ n.filters) ++ d.filters
  having : s.having = []
  order : s.order = (route.order ++ n.order).map (·, Draft.root) ++ d.order

/-- The statement of a plan fetches the rows of its node. -/
theorem fetches_prefetchStatement {config : Config} {n : ChainNode} {route : Route} {d : Draft}
    {s : Statement} {aliases : AliasMap}
    (h : s = (d.prefetched n route).prefetchStatement config n route (d.keySlot route) aliases) :
    Fetches config n route d s := by
  subst h
  exact ⟨rfl, rfl, rfl, rfl, rfl, rfl, rfl, rfl⟩

/-- The statement of a plan can be rendered. -/
theorem exists_render_of_prefetchPlan {config : Config} {n : ChainNode} {scope offset : Nat}
    {parent : Table} {planChildren : Draft → Except AssociationError Draft} {p : PrefetchPlan}
    (h : prefetchPlan config n scope offset parent planChildren = .ok p) :
    ∃ ts, p.statement.render config.dialect [] = .ok ts := by
  simp only [prefetchPlan, bind_eq_ok, pure_eq_ok] at h
  obtain ⟨route, -, columns, -, ⟨keySlot, d⟩, -, aliases, -, ⟨⟩, hrender, children, -, rfl⟩ := h
  obtain ⟨ts, hts, -⟩ := map_eq_ok.1 hrender
  exact ⟨ts, hts⟩

/-! ## aggregates -/

/-- Joins of associations from the base table that keep rows without a match. -/
structure AggregateJoins (next : Nat) (js : List Join) : Prop where
  numbered : NumberedFrom next js
  left : ∀ j ∈ js, j.kind = .left
  links : ∀ j ∈ js, j.LinksTo (root :: js.map Join.slot)

/-- More joins for aggregates may follow. -/
theorem AggregateJoins.append {next : Nat} {js ks : List Join} (hjs : AggregateJoins next js)
    (hks : AggregateJoins (next + js.length) ks) : AggregateJoins next (js ++ ks) where
  numbered := hjs.numbered.append hks.numbered
  left := List.forall_mem_append.2 ⟨hjs.left, hks.left⟩
  links := by
    rw [List.map_append]
    refine List.forall_mem_append.2
      ⟨fun j hj => (hjs.links j hj).mono ?_, fun k hk => (hks.links k hk).mono ?_⟩
    · exact List.cons_subset_cons _ (List.subset_append_left ..)
    · exact List.cons_subset_cons _ (List.subset_append_right ..)

/-- An association that is joined for the aggregates over it, along its route, and the number
of its first table instance. -/
structure AggregateStep where
  association : Association
  route : Route
  next : Nat

namespace AggregateStep

def joins (x : AggregateStep) : List Join :=
  hopJoins true [] root x.next x.route.first x.route.rest

/-- The table that the aggregates range over. -/
def slot (x : AggregateStep) : Slot := Join.lastSlot root x.joins

/-- The steps come one after the other, each along the route of its association. -/
def InTurn : Nat → List AggregateStep → Prop
  | _, [] => True
  | next, x :: xs =>
    (x.association.routeFor .optional = .ok x.route ∧ x.next = next) ∧
      InTurn (next + x.joins.length) xs

/-- The joins of a step keep rows without a match. -/
theorem aggregateJoins (x : AggregateStep) : AggregateJoins x.next x.joins := by
  have hleft : ∀ j ∈ x.joins, j.kind = .keeping true :=
    kinds_hopJoins [] root x.next fun _ _ => rfl
  exact ⟨numberedFrom_hopJoins .., hleft, linksTo_hopJoins _ _ _ _ _ _⟩

/-- So do those of all steps. -/
theorem InTurn.aggregateJoins {next : Nat} {xs : List AggregateStep} (h : InTurn next xs) :
    AggregateJoins next (xs.flatMap joins) := by
  induction xs generalizing next with
  | nil => exact ⟨.nil _, nofun, nofun⟩
  | cons x xs ih =>
    obtain ⟨⟨-, rfl⟩, hrest⟩ := h
    exact x.aggregateJoins.append (ih hrest)

end AggregateStep

/-- An association that is joined for its aggregates takes a step. -/
theorem joinAggregate_eq_ok {base : Table} {a : Association} {d d' : Draft} {slot : Slot}
    (h : d.joinAggregate base a = .ok (slot, d')) :
    ∃ x : AggregateStep, x.association = a ∧ a.routeFor .optional = .ok x.route ∧
      x.next = d.next ∧ slot = x.slot ∧ d' = d.withJoins x.joins := by
  rw [joinAggregate] at h
  split at h
  · simp only [throw_bind_eq_ok] at h
  · simp only [joinHops_eq, bind_eq_ok, pure_eq_ok, Prod.mk.injEq] at h
    obtain ⟨route, hroute, rfl, rfl⟩ := h
    exact ⟨⟨a, route, d.next⟩, rfl, hroute, rfl, rfl, rfl⟩

/-- The associations are joined one after the other. -/
theorem joinAggregates_eq_ok {base : Table} {as : List Association} :
    {joined joined' : List (Association × Slot)} → {d d' : Draft} →
    d.joinAggregates base joined as = .ok (joined', d') →
    ∃ xs : List AggregateStep, AggregateStep.InTurn d.next xs ∧
      joined' = joined ++ xs.map (fun x => (x.association, x.slot)) ∧
      d' = d.withJoins (xs.flatMap AggregateStep.joins) := by
  -- association by association: an equal one was joined before and is passed over
  induction as with
  | nil =>
    intro joined joined' d d' h
    obtain ⟨rfl, rfl⟩ : joined = joined' ∧ d = d' := by simpa [joinAggregates] using h
    exact ⟨[], trivial, (List.append_nil _).symm, d.withJoins_nil.symm⟩
  | cons a rest ih =>
    intro joined joined' d d' h
    rw [joinAggregates] at h
    split at h
    · exact ih h
    · simp only [bind_eq_ok] at h
      obtain ⟨⟨slot, d₁⟩, ha, hrest⟩ := h
      obtain ⟨x, rfl, hroute, hnext, rfl, rfl⟩ := joinAggregate_eq_ok ha
      obtain ⟨xs, hxs, rfl, rfl⟩ := ih hrest
      rw [next_withJoins] at hxs
      exact ⟨x :: xs, ⟨⟨hroute, hnext⟩, hxs⟩, List.append_assoc .., withJoins_append ..⟩

end Draft

/-! ## the base statement -/

namespace Request

open Draft (AggregateStep Planned planned_of_planNodes)

/-- The base statement with the draft that it is made from. -/
def rootStatement (config : Config) (r : Request) :
    Except AssociationError (Statement × Draft) := do
  let (aggregates, d) ← r.draft config
  return (r.statement (← d.aliases.allocate) aggregates d, d)

/-- The statement `s` is the base statement of a request: what its nodes gave stands in the draft
`d`, and `js` are the joins for the aggregates. -/
structure Starts (r : Request) (aggregates : List (Association × Slot)) (d : Draft)
    (js : List Join) (s : Statement) : Prop where
  root : s.root = Draft.root
  aggregates : s.aggregates = aggregates
  table : s.table = r.table
  select : s.select =
    .star s.root :: r.annotations.map (fun p => .expr p.1 Draft.root p.2) ++ d.stars.map .star
  joins : s.joins = d.joins ++ js
  keyFilter : s.keyFilter = none
  filters : s.filters = conditionsOn Draft.root r.rowFilters ++ d.filters
  groupBy : s.groupBy =
    if !s.aggregates.isEmpty || !r.groupFilters.isEmpty then identity r.table else []
  having : s.having = conditionsOn Draft.root r.groupFilters
  order : s.order = r.order.map (·, Draft.root) ++ d.order

/-- The base statement is made from the draft of the chain with the joins for aggregates. -/
theorem starts_statement {r : Request} {aggregates : List (Association × Slot)} {d d' : Draft}
    {js : List Join} {s : Statement} {aliases : AliasMap}
    (hd : d' = (d.withJoins js).register Draft.root r.aliases)
    (h : s = r.statement aliases aggregates d') : r.Starts aggregates d js s := by
  subst hd h
  exact ⟨rfl, rfl, rfl, rfl, rfl, rfl, rfl, rfl, rfl, rfl⟩

/-- A compiled request comes from a base statement that was bound, and all waiting plans went well.
-/
theorem compile_eq_ok {r : Request} {config : Config} {q : CompiledQuery}
    (h : r.compile config = .ok q) :
    ∃ s d, r.rootStatement config = .ok (s, d) ∧ s.bind config.dialect [] = .ok q.root.text ∧
      q.root.layout = d.layout ∧ d.pending = q.prefetches.map .ok := by
  simp only [compile, bind_eq_ok, mapError_eq_ok] at h
  obtain ⟨⟨⟩, -, h⟩ := h
  simp only [plan, bind_eq_ok, pure_eq_ok, mapM_eq_ok,
    List.map_id] at h
  obtain ⟨⟨aggregates, d⟩, hd, aliases, haliases, text, htext, prefetches, hpending, rfl⟩ := h
  have hs : r.rootStatement config = .ok (r.statement aliases aggregates d, d) := by
    simp only [rootStatement, bind_eq_ok, pure_eq_ok]
    exact ⟨_, hd, aliases, haliases, rfl⟩
  exact ⟨_, d, hs, htext, rfl, hpending⟩

/-- The draft of the base statement is what the walk through the chain gives, with the joins
for aggregates behind. -/
theorem rootStatement_steps {r : Request} {config : Config} {s : Statement} {d' : Draft}
    (h : r.rootStatement config = .ok (s, d')) :
    ∃ (d : Draft) (xs : List AggregateStep),
      Planned config (.base r.table) r.chain
        (.start config.numbering r.table (r.table.width + r.annotations.length)) d ∧
      AggregateStep.InTurn d.next xs ∧
      d' = (d.withJoins (xs.flatMap AggregateStep.joins)).register Draft.root r.aliases ∧
      d'.aliases.allocate = .ok s.aliases ∧
      s = r.statement s.aliases (xs.map fun x => (x.association, x.slot)) d' := by
  simp only [rootStatement, draft, bind_eq_ok, pure_eq_ok, Prod.mk.injEq] at h
  obtain ⟨_, ⟨d, hd, ⟨aggregates, d₁⟩, hd₁, rfl⟩, aliases, haliases, rfl, rfl⟩ := h
  obtain ⟨xs, hxs, rfl, rfl⟩ := Draft.joinAggregates_eq_ok hd₁
  exact ⟨d, xs, planned_of_planNodes r.chain hd, hxs, rfl, haliases, rfl⟩

/-- The base statement comes from the walk through the chain and the joins for aggregates, with its
aliases allocated. -/
theorem rootStatement_planned {r : Request} {config : Config} {s : Statement} {d' : Draft}
    (h : r.rootStatement config = .ok (s, d')) :
    ∃ aggregates d js,
      Planned config (.base r.table) r.chain
        (.start config.numbering r.table (r.table.width + r.annotations.length)) d ∧
      Draft.AggregateJoins d.next js ∧
      d' = (d.withJoins js).register Draft.root r.aliases ∧
      d'.aliases.allocate = .ok s.aliases ∧
      s = r.statement s.aliases aggregates d' := by
  obtain ⟨d, xs, hwalk, hxs, hd', haliases, hs⟩ := rootStatement_steps h
  exact ⟨_, d, _, hwalk, hxs.aggregateJoins, hd', haliases, hs⟩

/-- The joins for aggregates are numbered behind those of the walk. -/
theorem rootStatement_eq_ok {r : Request} {config : Config} {s : Statement} {d' : Draft}
    (h : r.rootStatement config = .ok (s, d')) :
    ∃ aggregates d js,
      Planned config (.base r.table) r.chain
        (.start config.numbering r.table (r.table.width + r.annotations.length)) d ∧
      Draft.NumberedFrom d.next js ∧
      d' = (d.withJoins js).register Draft.root r.aliases ∧
      s = r.statement s.aliases aggregates d' := by
  obtain ⟨aggregates, d, js, hwalk, hjs, hd', -, hs⟩ := rootStatement_planned h
  exact ⟨aggregates, d, js, hwalk, hjs.numbered, hd', hs⟩

end Request

/-! ## a request to look at -/

namespace Library

def authors : Table := ⟨"authors", ["id", "name"], ["id"]⟩

def books : Table := ⟨"books", ["id", "authorId"], ["id"]⟩

def chapters : Table := ⟨"chapters", ["id", "bookId"], ["id"]⟩

def author : ChainNode :=
  .ofAssociation (.direct .belongsTo "author" books authors [("authorId", "id")] [] [] none)

def chaptersOfBook : ChainNode :=
  .ofAssociation (.direct .hasMany "chapters" books chapters [("id", "bookId")] [] [] none)

/-- Books with their authors and chapters, as far as they have both. -/
def request : Request where
  table := books
  chain := [author, chaptersOfBook]

theorem exists_compile : ∃ q, request.compile = .ok q :=
  exists_of_isOk (by decide +kernel)

end Library

end AssociationQuery
