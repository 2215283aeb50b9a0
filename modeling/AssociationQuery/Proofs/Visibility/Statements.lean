import AssociationQuery.Proofs.Visibility.Drafts

/-!
# AssociationQuery.Proofs.Visibility.Statements

Every column of a planned statement belongs to a table that is visible where it stands.

The hidden table instances of a statement are those of its subqueries, so a handle that may
be written outside of them is on a table of the statement's own.  A statement that has been
rendered has written all its handles, each as the alias of its table instance.
-/

namespace AssociationQuery

namespace Draft

variable {d : Draft} {s : Statement}

/-- Outside of subqueries the handles on the draft's own tables may be written, no others. -/
theorem Closed.shows (h : d.Closed) (haliases : d.aliases.allocate = .ok s.aliases)
    (hhidden : s.hidden = d.hidden) : s.context.Shows d.slots := by
  intro a slot ha hshown
  obtain ⟨p, hp, rfl, -⟩ := AliasRequests.exists_registration_of_allocate haliases ha
  have hall : p.1 ∈ (List.range d.next).map Slot.mk :=
    List.mem_map.2 ⟨p.1.index, List.mem_range.2 (h.handles p hp), rfl⟩
  rcases List.mem_append.1 (h.slots.mem_iff.2 hall) with hmem | hmem
  · exact hmem
  · rw [← hhidden] at hmem
    exact absurd hmem hshown

/-- An item that is rendered has handles on visible tables only. -/
theorem sees_of_render {c : RenderContext} {visible : List Slot} (hc : c.Shows visible)
    {dialect : Dialect} : {i : SelectItem} → {ts : List Token} →
    i.Sees (fun _ _ => True) visible → i.render dialect c = .ok ts →
    i.Sees (Expr.Resolves c.aliases) visible
  | .star _, _, hi, _ | .column .., _, hi, _ => hi
  | .expr e slot name, ts, hi, h => by
    simp only [SelectItem.render, bind_eq_ok] at h
    obtain ⟨_, he, -⟩ := h
    exact ⟨hi.1, hc.resolves he⟩

/-- The statement is made from the draft: it has its tables, joins, conditions and names, under
further expressions on the base table. -/
structure Yields (d : Draft) (s : Statement) : Prop where
  aliases : d.aliases.allocate = .ok s.aliases
  hidden : s.hidden = d.hidden
  root : s.root = root
  joins : s.joins = d.joins
  filters : ∃ own, s.filters = conditionsOn Draft.root own ++ d.filters
  having : ∃ groups, s.having = conditionsOn Draft.root groups
  select : ∀ i ∈ s.select, i.Sees (fun _ _ => True) d.slots
  keyFilter : ∀ f ∈ s.keyFilter, f.slot ∈ d.slots
  order : ∀ o ∈ s.order, o.2 ∈ d.slots

/-- A statement from a closed draft that has been rendered is scoped. -/
theorem Closed.scoped (h : d.Closed) (hs : d.Yields s) {dialect : Dialect}
    {keys : List (List Value)} {ts : List Token} (hrender : s.render dialect keys = .ok ts) :
    s.Scoped := by
  have hslots : s.slots = d.slots := by rw [Statement.slots, hs.root, hs.joins, Draft.slots]
  have hshows : s.context.Shows s.slots := hslots ▸ h.shows hs.aliases hs.hidden
  have hbase : root ∈ s.slots := hslots ▸ List.mem_cons_self
  obtain ⟨own, hfilters⟩ := hs.filters
  obtain ⟨groups, hhaving⟩ := hs.having
  simp only [Statement.render, bind_eq_ok] at hrender
  obtain ⟨_, hselect', _, hjoins', _, hfilters', _, hhaving', _, horder', -⟩ := hrender
  -- conditions on the base row open no slots, so all hidden ones are those of the draft
  have howned : s.owned.Perm d.hidden := by
    rw [Statement.owned, hs.joins, hfilters, hhaving, Condition.ownedAll_append,
      Condition.ownedAll_conditionsOn, Condition.ownedAll_conditionsOn, List.append_nil]
    exact h.owned
  exact {
    slots := by
      rw [AliasRequests.length_names_of_allocate hs.aliases, hslots]
      exact (howned.append_left _).trans h.slots
    select := by
      intro i hi
      obtain ⟨ts, hts⟩ := exists_of_mapM hselect' i hi
      exact sees_of_render hshows (hslots ▸ hs.select i hi) hts
    joins := by
      refine Join.sees_of_renderAll hshows s.joins ?_ hjoins'
      rw [hslots, hs.joins]
      exact h.joins
    keyFilter := hslots ▸ hs.keyFilter
    filters := by
      refine Condition.sees_of_renderAll hshows s.filters ?_ hfilters'
      rw [hfilters]
      refine List.forall_mem_append.2 ⟨Condition.within_conditionsOn hbase _, ?_⟩
      rw [hslots]
      exact h.filters
    having := by
      refine Condition.sees_of_renderAll hshows s.having ?_ hhaving'
      rw [hhaving]
      exact Condition.within_conditionsOn hbase _
    order := by
      intro o ho
      obtain ⟨ts, hts⟩ := exists_of_mapM horder' o ho
      simp only [OrderTerm.render, bind_eq_ok] at hts
      obtain ⟨_, he, -⟩ := hts
      exact ⟨hslots ▸ hs.order o ho, hshows.resolves he⟩
    written := fun _ _ _ => Statement.render_qualified }

/-! ## statements of their own -/

/-- The way back to the keys is joined behind the other tables. -/
theorem slots_prefetched (n : ChainNode) (route : Route) (d : Draft) :
    (d.prefetched n route).slots = d.slots ++ (keyJoins route d).map Join.slot := by
  rw [prefetched, slots, register, joins_withJoins, List.map_append]
  rfl

/-- The draft of a plan's statement is closed. -/
theorem Closed.prefetched (h : d.Closed) (n : ChainNode) (route : Route) :
    (d.prefetched n route).Closed := by
  have hlinks :
      ∀ j ∈ keyJoins route d, j.LinksTo (d.slots ++ (keyJoins route d).map Join.slot) := by
    intro j hj
    refine (linksTo_backJoins _ _ _ _ j hj).mono (List.cons_subset.2 ⟨?_, ?_⟩)
    · exact List.mem_append_left _ List.mem_cons_self
    · exact List.subset_append_right ..
  exact (h.withJoins (numberedFrom_backJoins ..) hlinks).register List.mem_cons_self _

/-- The statement of a plan is made from its draft. -/
theorem Closed.yields_prefetchStatement (h : d.Closed) (config : Config) {n : ChainNode}
    {route : Route} {aliases : AliasMap}
    (haliases : (d.prefetched n route).aliases.allocate = .ok aliases) :
    (d.prefetched n route).Yields ((d.prefetched n route).prefetchStatement config n route
      (d.keySlot route) aliases) := by
  have hclosed := h.prefetched n route
  have hbase : root ∈ (d.prefetched n route).slots := List.mem_cons_self
  -- the key row is that of the last join back, or the base row without any
  have hkey : d.keySlot route ∈ (d.prefetched n route).slots := by
    rw [slots_prefetched]
    rcases List.mem_cons.1 (Join.lastSlot_mem root (keyJoins route d)) with heq | hmem
    · rw [keySlot, heq]
      exact List.mem_append_left _ List.mem_cons_self
    · exact List.mem_append_right _ hmem
  exact {
    aliases := haliases
    hidden := rfl
    root := rfl
    joins := rfl
    filters := ⟨_, rfl⟩
    having := ⟨[], rfl⟩
    select := by
      refine List.forall_mem_append.2 ⟨List.forall_mem_cons.2 ⟨hbase, ?_⟩, ?_⟩
      · exact List.forall_mem_map.2 hclosed.stars
      · intro i hi
        obtain ⟨k, hk, rfl⟩ := List.mem_mapIdx.1 hi
        exact hkey
    keyFilter := by
      intro f hf
      rw [← Option.some.inj hf]
      exact hkey
    order := List.forall_mem_append.2 ⟨List.forall_mem_map.2 fun _ _ => hbase, hclosed.order⟩ }

/-- Planned statements are scoped. -/
theorem PlannedFor.scoped {config : Config} {n : ChainNode} {p : PrefetchPlan}
    (h : PlannedFor config n p) : p.statement.Scoped := by
  obtain ⟨route, d, -, hwalk, haliases, hstatement, -, ts, hrender⟩ := h.exists_planned
  obtain ⟨hclosed, -⟩ := hwalk.closed (.start ..) List.mem_cons_self
  have hyields := hclosed.yields_prefetchStatement config haliases
  rw [← hstatement] at hyields
  exact (hclosed.prefetched n route).scoped hyields hrender

end Draft

namespace Request

open Draft (AggregateJoins Closed Yields)
open PrefetchPlan (Each)

/-! ## the base statement -/

/-- The joins for aggregates leave a draft closed. -/
theorem closed_aggregates {d : Draft} (h : d.Closed) {js : List Join}
    (hjs : AggregateJoins d.next js) (handles : List TableAlias) :
    ((d.withJoins js).register Draft.root handles).Closed := by
  have hlinks : ∀ j ∈ js, j.LinksTo (d.slots ++ js.map Join.slot) := by
    intro j hj
    refine (hjs.links j hj).mono (List.cons_subset.2 ⟨?_, List.subset_append_right ..⟩)
    exact List.mem_append_left _ List.mem_cons_self
  exact (h.withJoins hjs.numbered hlinks).register List.mem_cons_self handles

/-- The base statement is made from its draft. -/
theorem yields_statement {d : Draft} (h : d.Closed) {r : Request} {aliases : AliasMap}
    (haliases : d.aliases.allocate = .ok aliases) (aggregates : List (Association × Slot)) :
    d.Yields (r.statement aliases aggregates d) where
  aliases := haliases
  hidden := rfl
  root := rfl
  joins := rfl
  filters := ⟨_, rfl⟩
  having := ⟨_, rfl⟩
  select := by
    refine List.forall_mem_append.2 ⟨List.forall_mem_cons.2 ⟨List.mem_cons_self, ?_⟩, ?_⟩
    · exact List.forall_mem_map.2 fun _ _ => ⟨List.mem_cons_self, trivial⟩
    · exact List.forall_mem_map.2 h.stars
  keyFilter := nofun
  order := List.forall_mem_append.2 ⟨List.forall_mem_map.2 fun _ _ => List.mem_cons_self, h.order⟩

/-- A base statement that could be bound is scoped. -/
theorem scoped_rootStatement {r : Request} {config : Config} {s : Statement} {d' : Draft}
    (h : r.rootStatement config = .ok (s, d')) {dialect : Dialect} {keys : List (List Value)}
    {text : BoundSql} (hbind : s.bind dialect keys = .ok text) : s.Scoped := by
  obtain ⟨aggregates, d, js, hwalk, hjs, rfl, haliases, hstatement⟩ := rootStatement_planned h
  obtain ⟨hclosed, -⟩ := hwalk.closed (.start ..) List.mem_cons_self
  have hroot := closed_aggregates hclosed hjs r.aliases
  have hyields := yields_statement hroot (r := r) haliases aggregates
  rw [← hstatement] at hyields
  simp only [Statement.bind, bind_eq_ok] at hbind
  obtain ⟨ts, hrender, -⟩ := hbind
  exact hroot.scoped hyields hrender

/-- Columns of a compiled request belong to tables that are visible where they stand. -/
theorem compile_scoped {r : Request} {config : Config} {q : CompiledQuery}
    (h : r.compile config = .ok q) :
    ∃ s d, r.rootStatement config = .ok (s, d) ∧ s.bind config.dialect [] = .ok q.root.text ∧
      s.Scoped ∧
      Each (fun _ p => p.statement.Scoped) (ChainNode.separateAll r.chain) q.prefetches := by
  obtain ⟨s, d, hs, hbind, -, -⟩ := compile_eq_ok h
  exact ⟨s, d, hs, hbind, scoped_rootStatement hs hbind,
    (each_of_compile h).imp fun _ _ hp => hp.scoped⟩

end Request

namespace Library

def writer : TableAlias := { id := 0 }

/-- Books that have chapters, with their authors, of whom only some are asked for. -/
def written : Request where
  table := books
  filters := [.like (writer.col "name") "A%" false]
  chain := [author.aliased writer, chaptersOfBook]

theorem exists_compile_written : ∃ q, written.compile = .ok q :=
  exists_of_isOk (by decide +kernel)

end Library

/-- The chapters that a book must have are seen inside their subquery only, the author is seen
everywhere. -/
theorem Request.compile_scoped_written :
    ∃ (q : CompiledQuery) (s : Statement), Library.written.compile = .ok q ∧ s.Scoped ∧
      s.slots = [⟨0⟩, ⟨1⟩] ∧ s.owned = [⟨2⟩] ∧
      PrefetchPlan.Each (fun _ p => p.statement.Scoped) [Library.chaptersOfBook] q.prefetches := by
  have hslots : (Library.written.rootStatement {}).toOption.map
      (fun p => (p.1.slots, p.1.owned)) = some ([⟨0⟩, ⟨1⟩], [⟨2⟩]) := by decide +kernel
  obtain ⟨q, hq⟩ := Library.exists_compile_written
  obtain ⟨s, d, hs, -, hscoped, heach⟩ := compile_scoped hq
  rw [hs] at hslots
  obtain ⟨hslots, howned⟩ := Prod.mk.inj (Option.some.inj hslots)
  exact ⟨q, s, hq, hscoped, hslots, howned, heach⟩

end AssociationQuery
