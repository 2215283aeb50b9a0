import AssociationQuery.Proofs.Planning.Plans
import AssociationQuery.Proofs.Planning.Steps

/-!
# AssociationQuery.Proofs.Planning.Optionality

Optional associations drop no rows of their parents.

In a statement a node counts as optional if it or a node above it there is.  The joins for
such a node keep rows without a match, those for every other node do not, and the scope of
the node is marked the same way.  The condition that a required to-many node has rows goes
where it may drop rows: to the join of the node above, or, right below the base table, to
the conditions of the statement.
-/

namespace AssociationQuery

open Draft (Guards JoinStep Walked)
open ChainNode (Position positions positionsAll)

/-- Is it the condition that an associated row exists? -/
def Condition.isExistence : Condition → Bool
  | existence _ => true
  | _ => false

/-- A join that links tables tests for no rows of others. -/
theorem Join.LinksTo.not_isExistence {slots : List Slot} {j : Join} (h : j.LinksTo slots) :
    ∀ c ∈ j.on, c.isExistence = false := by
  obtain ⟨previous, -, columns, es, hon⟩ := h
  rw [hon]
  refine List.forall_mem_cons.2 ⟨rfl, fun c hc => ?_⟩
  obtain ⟨e, -, rfl⟩ := List.mem_map.1 hc
  rfl

/-! ## one node -/

/-- The joins for a node at its place in a statement. -/
structure ChainNode.Position.JoinedBy (x : Position) (js : List Join) : Prop where
  tables : ∃ route, x.node.association.routeFor x.node.requirement = .ok route ∧
    js.map Join.table = route.hops.map Hop.destination
  kind : ∀ j ∈ js, j.kind = if x.isOptional then .left else .inner
  /-- The conditions that rows for nodes below exist stand on the last join. -/
  tests : ∃ before last own tests, js = before ++ [last] ∧
    (∀ j ∈ before, ∀ c ∈ j.on, c.isExistence = false) ∧
    last.on = own ++ tests ∧ (∀ c ∈ own, c.isExistence = false) ∧
    List.Forall₂ (Guards last.slot) (x.node.children.filter ChainNode.isTested) tests

namespace Draft

/-- A step joins its node as the place of the node asks for. -/
theorem JoinStep.joinedBy {x : JoinStep} (h : x.Sound) : x.position.JoinedBy x.joins := by
  obtain ⟨before, last, hjoins, hslot⟩ := nodeJoins_eq_append x.anchor x.node x.route x.next
  have hlinks : ∀ j ∈ nodeJoins x.anchor x.node x.route x.next, ∀ c ∈ j.on,
      c.isExistence = false :=
    fun j hj => (linksTo_hopJoins _ _ _ _ _ _ j hj).not_isExistence
  have hbefore : x.slot ∉ before.map Join.slot := by
    have hnodup : ((nodeJoins x.anchor x.node x.route x.next).map Join.slot).Nodup :=
      (numberedFrom_hopJoins ..).nodup
    rw [hjoins, List.map_append, List.nodup_append] at hnodup
    exact fun hmem => hnodup.2.2 _ hmem _ (List.mem_singleton_self _) hslot.symm
  -- the tests of the node stand under the last of its joins, the others are left alone
  have hsplit : x.joins = before ++ [last.underAt x.slot x.tests] := by
    rw [JoinStep.joins, hjoins, List.map_append, Join.map_underAt_of_notMem hbefore]
    rfl
  have hon : (last.underAt x.slot x.tests).on = last.on ++ x.tests := by
    rw [Join.underAt_of_eq (show last.slot = x.slot from hslot)]
    rfl
  rw [hjoins] at hlinks
  obtain ⟨hplain, hown⟩ := List.forall_mem_append.1 hlinks
  exact {
    tables := by
      refine ⟨x.route, routeFor_of_plainRoute h.plain, ?_⟩
      have htables : (nodeJoins x.anchor x.node x.route x.next).map Join.table =
          x.route.hops.map Hop.destination := tables_hopJoins ..
      rw [JoinStep.joins, List.map_map, ← htables]
      exact List.map_congr_left fun j _ => Join.table_underAt ..
    kind := by
      rw [← h.unmatched]
      refine List.forall_mem_map.2 fun j hj => ?_
      rw [Join.kind_underAt]
      exact kind_nodeJoins h.plain x.next j hj
    tests := by
      refine ⟨before, _, last.on, x.tests, hsplit, hplain, hon,
        hown last (List.mem_singleton_self _), ?_⟩
      rw [Join.slot_underAt, hslot]
      exact h.tests }

end Draft

/-! ## one statement -/

/-- The statement keeps the rows of the base table, and of each joined table, that an optional
node would drop: its joins are those for the nodes at their places, with `others` behind,
and its conditions are expressions on the base table and tests for nodes right below it. -/
structure Statement.KeepsRows (s : Statement) (l : Layout) (own : List Expr) (others : List Join)
    (nodes : List ChainNode) : Prop where
  joins : ∃ groups, s.joins = groups.flatten ++ others ∧
    List.Forall₂ Position.JoinedBy (positionsAll [] nodes) groups
  others : ∀ j ∈ others, ∀ c ∈ j.on, c.isExistence = false
  scopes : l.scopes.tail.map (fun s => (s.name, s.nullable)) =
    ((positionsAll [] nodes).filter Position.isIncluded).map fun x => (x.node.key, x.isOptional)
  filters : ∃ tests, s.filters = own.map (fun e => .expr e s.root) ++ tests ∧
    List.Forall₂ (Guards s.root) (nodes.filter ChainNode.isTested) tests
  having : ∀ c ∈ s.having, c.isExistence = false

namespace ChainNode

mutual

/-- What hangs below an optional node counts as optional too. -/
theorem isOptional_of_mem_positions : (n : ChainNode) → {above : List ChainNode} →
    (n :: above).any isOptional → ∀ x ∈ n.positions above, x.isOptional
  | ⟨association, key, inclusion, requirement, filters, order, aliases, children⟩, above, h => by
    rw [positions]
    split
    · exact List.forall_mem_nil _
    · exact List.forall_mem_cons.2 ⟨h, isOptional_of_mem_positionsAll children h⟩

theorem isOptional_of_mem_positionsAll : (ns : List ChainNode) → {above : List ChainNode} →
    above.any isOptional → ∀ x ∈ positionsAll above ns, x.isOptional
  | [], above, h => List.forall_mem_nil _
  | n :: ns, above, h => by
    have hn : (n :: above).any isOptional := by rw [List.any_cons, h, Bool.or_true]
    exact List.forall_mem_append.2
      ⟨isOptional_of_mem_positions n hn, isOptional_of_mem_positionsAll ns h⟩

end

/-- Below nodes that are all optional everything is. -/
theorem isOptional_of_forall {nodes : List ChainNode} (h : ∀ n ∈ nodes, n.isOptional) :
    ∀ x ∈ positionsAll [] nodes, x.isOptional := by
  induction nodes with
  | nil => exact List.forall_mem_nil _
  | cons n rest ih =>
    obtain ⟨hn, hrest⟩ := List.forall_mem_cons.1 h
    have hany : [n].any isOptional := by rw [List.any_cons, hn, Bool.true_or]
    exact List.forall_mem_append.2 ⟨isOptional_of_mem_positions n hany, ih hrest⟩

/-- Nodes that are all optional are joined by left joins. -/
theorem left_of_joinedBy {xs : List Position} {groups : List (List Join)}
    (h : List.Forall₂ Position.JoinedBy xs groups) (hxs : ∀ x ∈ xs, x.isOptional) :
    ∀ j ∈ groups.flatten, j.kind = .left := by
  induction h with
  | nil => exact List.forall_mem_nil _
  | cons hjoined _ ih =>
    obtain ⟨hx, hrest⟩ := List.forall_mem_cons.1 hxs
    refine List.forall_mem_append.2 ⟨fun j hj => ?_, ih hrest⟩
    rw [hjoined.kind j hj, hx]
    rfl

end ChainNode

namespace Statement.KeepsRows

variable {s : Statement} {l : Layout} {own : List Expr} {others : List Join}
  {nodes : List ChainNode}

/-- Below optional nodes no join drops rows. -/
theorem left_of_optional (h : s.KeepsRows l own others nodes) (hnodes : ∀ n ∈ nodes, n.isOptional)
    (hothers : ∀ j ∈ others, j.kind = .left) : ∀ j ∈ s.joins, j.kind = .left := by
  obtain ⟨groups, hjoins, hgroups⟩ := h.joins
  rw [hjoins]
  exact List.forall_mem_append.2
    ⟨ChainNode.left_of_joinedBy hgroups (ChainNode.isOptional_of_forall hnodes), hothers⟩

/-- Nothing but expressions on the base table drops rows above optional nodes. -/
theorem filters_of_optional (h : s.KeepsRows l own others nodes)
    (hnodes : ∀ n ∈ nodes, n.isOptional) : s.filters = own.map fun e => .expr e s.root := by
  obtain ⟨tests, hfilters, htests⟩ := h.filters
  have hnone : nodes.filter ChainNode.isTested = [] := by
    refine List.filter_eq_nil_iff.2 fun n hn htested => ?_
    have hoptional : n.requirement = .optional := of_decide_eq_true (hnodes n hn)
    have hrequired := (of_decide_eq_true htested).2.2
    rw [hoptional] at hrequired
    cases hrequired
  rw [hnone] at htests
  cases htests
  rw [hfilters, List.append_nil]

end Statement.KeepsRows

namespace Draft

/-- Filters test for no rows of other tables. -/
theorem isExistence_conditionsOn (slot : Slot) (es : List Expr) :
    ∀ c ∈ conditionsOn slot es, c.isExistence = false := by
  intro c hc
  obtain ⟨e, -, rfl⟩ := List.mem_map.1 hc
  rfl

/-- What the steps of the walk from a base table have made keeps rows. -/
theorem Walked.keepsRows {numbering : AliasNumbering} {t : Table} {width : Nat}
    {nodes : List ChainNode} {d : Draft} {steps : List JoinStep} {tests : List Condition}
    {s : Statement} {l : Layout} {own : List Expr} {others : List Join}
    (h : Walked (.base t) [] nodes (.start numbering t width) d steps tests)
    (hroot : s.root = root) (hjoins : s.joins = d.joins ++ others)
    (hothers : ∀ j ∈ others, ∀ c ∈ j.on, c.isExistence = false)
    (hscopes : l.scopes = d.layout.scopes)
    (hfilters : s.filters = conditionsOn root own ++ d.filters)
    (hhaving : ∀ c ∈ s.having, c.isExistence = false) : s.KeepsRows l own others nodes where
  joins := by
    refine ⟨steps.map JoinStep.joins, ?_, ?_⟩
    · rw [hjoins, h.joins, ← List.flatMap_def]
      rfl
    · rw [← h.positions, List.forall₂_map_left_iff, List.forall₂_map_right_iff,
        List.forall₂_same]
      exact fun x hx => JoinStep.joinedBy (h.sound x hx)
  others := hothers
  scopes := by
    have hmarks : d.layout.scopes.map (fun s => (s.name, s.nullable)) =
        ("", false) :: (JoinStep.included steps).map fun x => (x.node.key, x.position.isOptional) :=
      h.scopes
    rw [List.map_tail, hscopes, hmarks, ← h.positions, List.filter_map, List.map_map]
    rfl
  filters := by
    -- the base row has no join, so its tests are in WHERE
    have htests : d.filters = tests := by
      have hnone : (Anchor.base t).slot ∉ (start numbering t width).joins.map Join.slot := nofun
      rw [h.filters, if_neg hnone]
      rfl
    refine ⟨tests, by rw [hfilters, hroot, htests, conditionsOn], ?_⟩
    rw [hroot]
    exact h.guards
  having := hhaving

/-- The statement for the rows of a node keeps rows above the nodes below.  The joins behind
those lead back to the table that refers to the parent rows. -/
theorem PlannedFor.keepsRows {config : Config} {n : ChainNode} {p : PrefetchPlan}
    (h : PlannedFor config n p) :
    ∃ route back, n.association.routeFor n.requirement = .ok route ∧
      back.map Join.table = route.backwards.2.map Hop.destination ∧
      (∀ j ∈ back, j.kind = .inner) ∧
      p.statement.KeepsRows p.layout (route.last.filters ++ n.filters) back n.children := by
  obtain ⟨route, d, hroute, hwalk, -, hstatement, hlayout, -⟩ := h.exists_planned
  obtain ⟨steps, tests, hwalked⟩ := hwalk.exists_walked_base
  have hfetches := fetches_prefetchStatement hstatement
  have hback : ∀ j ∈ keyJoins route d, ∀ c ∈ j.on, c.isExistence = false :=
    fun j hj => (linksTo_backJoins _ _ _ _ j hj).not_isExistence
  have hscopes : p.layout.scopes = d.layout.scopes := by
    rw [hlayout]
    rfl
  have hhaving : ∀ c ∈ p.statement.having, c.isExistence = false :=
    hfetches.having ▸ List.forall_mem_nil _
  have hfilters := hfetches.filters
  rw [Route.last_backwards] at hfilters
  exact ⟨route, keyJoins route d, hroute, tables_backJoins .., backJoins_inner _ _ _ _,
    hwalked.keepsRows hfetches.root hfetches.joins hback hscopes hfilters hhaving⟩

end Draft

namespace Request

open PrefetchPlan (Each)

/-- No planned statement drops rows below optional nodes; the base statement drops none at all
on account of nodes when those below the base table are optional. -/
theorem compile_keeps_rows {r : Request} {config : Config} {q : CompiledQuery}
    (h : r.compile config = .ok q) :
    ∃ s d others, r.rootStatement config = .ok (s, d) ∧
      s.bind config.dialect [] = .ok q.root.text ∧
      s.KeepsRows q.root.layout r.rowFilters others r.chain ∧ (∀ j ∈ others, j.kind = .left) ∧
      ((∀ n ∈ r.chain, n.isOptional) → (∀ j ∈ s.joins, j.kind = .left) ∧
        s.filters = r.rowFilters.map (fun e => .expr e s.root) ∧ s.keyFilter.isNone) ∧
      Each (fun n p => ∃ route back, n.association.routeFor n.requirement = .ok route ∧
        back.map Join.table = route.backwards.2.map Hop.destination ∧
        (∀ j ∈ back, j.kind = .inner) ∧
        p.statement.KeepsRows p.layout (route.last.filters ++ n.filters) back n.children)
        (ChainNode.separateAll r.chain) q.prefetches := by
  obtain ⟨s, d', hs, hbind, hlayout, -⟩ := compile_eq_ok h
  obtain ⟨aggregates, d, js, hwalk, hjs, hd', -, hstatement⟩ := rootStatement_planned hs
  obtain ⟨steps, tests, hwalked⟩ := hwalk.exists_walked_base
  have hplain : ∀ j ∈ js, ∀ c ∈ j.on, c.isExistence = false :=
    fun j hj => (hjs.links j hj).not_isExistence
  have hstarts := starts_statement hd' hstatement
  have hhaving : ∀ c ∈ s.having, c.isExistence = false :=
    hstarts.having ▸ Draft.isExistence_conditionsOn _ _
  have hkeys : s.keyFilter.isNone := hstarts.keyFilter ▸ rfl
  have hscopes : q.root.layout.scopes = d.layout.scopes := by
    rw [hlayout, hd']
    rfl
  have hkeeps : s.KeepsRows q.root.layout r.rowFilters js r.chain :=
    hwalked.keepsRows hstarts.root hstarts.joins hplain hscopes hstarts.filters hhaving
  -- where every node is optional nothing is tested and nothing joined strictly
  have hoptional : (∀ n ∈ r.chain, n.isOptional) → (∀ j ∈ s.joins, j.kind = .left) ∧
      s.filters = r.rowFilters.map (fun e => .expr e s.root) ∧ s.keyFilter.isNone :=
    fun hn => ⟨hkeeps.left_of_optional hn hjs.left, hkeeps.filters_of_optional hn, hkeys⟩
  have heach := (each_of_compile h).imp fun _ _ hp => hp.keepsRows
  exact ⟨s, d', js, hs, hbind, hkeeps, hjs.left, hoptional, heach⟩

end Request

namespace Library

def booksOfAuthor : ChainNode :=
  .ofAssociation (.direct .hasMany "books" authors books [("id", "authorId")] [] [] none)

/-- Books with their authors where these are known, and with all books of the author. -/
def known : Request where
  table := books
  chain := [{ author with requirement := .optional, children := [booksOfAuthor] }]

/-- The request compiles. -/
theorem exists_compile_known : ∃ q, known.compile = .ok q :=
  exists_of_isOk (by decide +kernel)

end Library

/-- Books without an author stay, though an author must have books. -/
theorem Request.compile_keeps_rows_known :
    ∃ (q : CompiledQuery) (s : Statement), Library.known.compile = .ok q ∧
      s.bind .postgres [] = .ok q.root.text ∧
      (∀ j ∈ s.joins, j.kind = .left) ∧ s.filters = [] := by
  obtain ⟨q, hq⟩ := Library.exists_compile_known
  obtain ⟨s, d, others, -, hbind, -, -, hoptional, -⟩ := compile_keeps_rows hq
  obtain ⟨hleft, hfilters, -⟩ := hoptional (by decide)
  exact ⟨q, s, hq, hbind, hleft, hfilters⟩

end AssociationQuery
