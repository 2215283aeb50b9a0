import AssociationQuery.Proofs.Planning.Plans
import AssociationQuery.Proofs.Planning.Steps
import Mathlib.Data.List.ModifyLast

/-!
# AssociationQuery.Proofs.Planning.Terms

Every filter and every ordering has its place in a statement.

A route carries the filters of all associations along it, each with the hop at whose end it
applies, and the orderings of the last table.  In a statement the filters of a hop stand on
the hop's join, those of a node on the last join of the node, and orderings follow those of
the base table node by node.  `Statement.Places` says so term by term, with nothing besides;
it holds of every statement of a compiled request, `Request.compile_places_terms`.
-/

namespace AssociationQuery

open ChainNode (Position positionsAll)
open Draft (AggregateStep Guards JoinStep PlannedFor Walked)

/-! ## terms of a route -/

namespace Association

/-- The direct associations that the association is made of, in the order of its joins, each with
the filters on the table that it leads to. -/
def stages : Association → List (Association × List Expr)
  | a@(direct _ _ _ _ _ filters _ _) => [(a, filters)]
  | through _ pivot target filters _ _ =>
    (pivot.stages ++ target.stages).modifyLast fun p => (p.1, p.2 ++ filters)

/-- The filters of the association and of its parts, those of the parts first. -/
def allFilters : Association → List Expr
  | direct _ _ _ _ _ filters _ _ => filters
  | through _ pivot target filters _ _ => pivot.allFilters ++ target.allFilters ++ filters

/-- The orderings of rows of the destination, those of the target first. -/
def allOrder : Association → List OrderTerm
  | direct _ _ _ _ _ _ order _ => order
  | through _ _ target _ order _ => target.allOrder ++ order

end Association

/-- The association of the hop with all filters of the hop. -/
def Hop.stage (h : Hop) : Association × List Expr := (h.association, h.filters)

namespace Route

/-- The route has the filters and the orderings of an association: each hop those of its own
association, all of them once. -/
structure Carries (a : Association) (r : Route) : Prop where
  stages : r.hops.map Hop.stage = a.stages
  filters : r.filters = a.allFilters
  order : r.order = a.allOrder

/-- Filters on the last hop are filters of the last stage. -/
theorem stages_refineLast (filters : List Expr) (h : Hop) (rest : List Hop) :
    ((refineLast filters h rest).1 :: (refineLast filters h rest).2).map Hop.stage =
      ((h :: rest).map Hop.stage).modifyLast fun p => (p.1, p.2 ++ filters) := by
  induction rest generalizing h with
  | nil => rfl
  | cons g gs ih =>
    have hlater := List.modifyLast_append_of_right_ne_nil
      (fun p : Association × List Expr => (p.1, p.2 ++ filters)) [h.stage]
      ((g :: gs).map Hop.stage) (List.cons_ne_nil _ _)
    exact (congrArg (h.stage :: ·) (ih g)).trans hlater.symm

/-- They come last among the filters of the hops. -/
theorem filters_refineLast (filters : List Expr) (h : Hop) (rest : List Hop) :
    ((refineLast filters h rest).1 :: (refineLast filters h rest).2).flatMap Hop.filters =
      (h :: rest).flatMap Hop.filters ++ filters := by
  induction rest generalizing h with
  | nil => simp [refineLast]
  | cons g gs ih =>
    have hlater := congrArg (h.filters ++ ·) (ih g)
    exact hlater.trans (List.append_assoc ..).symm

end Route

namespace Association

/-- The joins of an association lose none of its terms and repeat none. -/
theorem carries_routeFor {requirement : Requirement} : (a : Association) → {r : Route} →
    a.routeFor requirement = .ok r → r.Carries a
  -- by the association: its own filters go to the last hop, its own orderings behind those of the
  -- target
  | direct .., r, h => by
    simp only [routeFor, Except.ok.injEq] at h
    subst h
    exact ⟨rfl, List.append_nil _, rfl⟩
  | through name pivot target filters order optionality, r, h => by
    simp only [routeFor, bind_eq_ok, pure_eq_ok] at h
    obtain ⟨_, -, pivotRoute, hpivot, targetRoute, htarget, rfl⟩ := h
    have hp := carries_routeFor pivot hpivot
    have ht := carries_routeFor target htarget
    have hstages : (pivotRoute.append targetRoute).hops.map Hop.stage =
        pivot.stages ++ target.stages := by
      rw [Route.hops_append, List.map_append, hp.stages, ht.stages]
    have hfilters : (pivotRoute.append targetRoute).filters =
        pivot.allFilters ++ target.allFilters := by
      rw [Route.filters, Route.hops_append, List.flatMap_append, ← hp.filters, ← ht.filters]
      rfl
    exact {
      stages := (Route.stages_refineLast ..).trans
        (congrArg (List.modifyLast fun p => (p.1, p.2 ++ filters)) hstages)
      filters := (Route.filters_refineLast ..).trans (congrArg (· ++ filters) hfilters)
      order := congrArg (· ++ order) ht.order }

end Association

/-! ## joins along hops -/

namespace Join

/-- The joins lead along the hops, from the table `previous` on.  Each compares the keys of its
hop, under the filters of the hop; the last one is under `refine` and `tests` besides. -/
inductive Along (refine : List Expr) (tests : List Condition) :
    Slot → List Hop → List Join → Prop where
  | last {previous : Slot} {h : Hop} {j : Join} (table : j.table = h.destination)
      (on : j.on = .keys j.slot previous (h.mapping.map Prod.swap) ::
        (h.filters ++ refine).map (fun e => .expr e j.slot) ++ tests) :
      Along refine tests previous [h] [j]
  | next {previous : Slot} {h : Hop} {hs : List Hop} {j : Join} {js : List Join}
      (table : j.table = h.destination)
      (on : j.on = .keys j.slot previous (h.mapping.map Prod.swap) ::
        h.filters.map fun e => .expr e j.slot)
      (later : Along refine tests j.slot hs js) : Along refine tests previous (h :: hs) (j :: js)

/-- The joins lead from the table `previous`, at the end of the hop `later`, back along hops that
are listed backwards. -/
inductive Back : Hop → Slot → List Hop → List Join → Prop where
  | done {later : Hop} {previous : Slot} : Back later previous [] []
  | next {later h : Hop} {previous : Slot} {hs : List Hop} {j : Join} {js : List Join}
      (table : j.table = h.destination)
      (on : j.on = .keys j.slot previous later.mapping :: h.filters.map fun e => .expr e j.slot)
      (earlier : Back h j.slot hs js) : Back later previous (h :: hs) (j :: js)

namespace Along

variable {refine : List Expr} {tests : List Condition} {previous : Slot} {hs : List Hop}
  {js : List Join}

/-- The last table is one that is joined. -/
theorem lastSlot_mem (h : Along refine tests previous hs js) :
    lastSlot previous js ∈ js.map slot := by
  cases h with
  | last => exact List.mem_singleton_self _
  | next => exact Join.lastSlot_mem ..

/-- Conditions that are put onto the last join stand behind its filters. -/
theorem underAt (h : Along refine [] previous hs js) (hnodup : (js.map slot).Nodup) :
    Along refine tests previous hs (js.map (underAt (lastSlot previous js) tests)) := by
  induction h with
  | @last previous h j htable hon =>
    have hlast : j.underAt (lastSlot previous [j]) tests =
        mk j.kind j.slot j.table (j.on ++ tests) := underAt_of_eq rfl
    rw [List.map_singleton, hlast]
    exact .last htable (congrArg (· ++ tests) (hon.trans (List.append_nil _)))
  | @next previous h hs j js htable hon later ih =>
    rw [List.map_cons, List.nodup_cons] at hnodup
    have hne : j.slot ≠ lastSlot j.slot js := fun heq => hnodup.1 (heq ▸ later.lastSlot_mem)
    have hfirst : j.underAt (lastSlot previous (j :: js)) tests = j := underAt_of_ne hne
    rw [List.map_cons, hfirst]
    exact .next htable hon (ih hnodup.2)

end Along

end Join

namespace Draft

/-- The joins of a route lead along its hops. -/
theorem along_hopJoins (left : Bool) (refine : List Expr) (previous : Slot) (next : Nat) (h : Hop)
    (rest : List Hop) :
    Join.Along refine [] previous (h :: rest) (hopJoins left refine previous next h rest) := by
  induction rest generalizing left previous next h with
  | nil => exact .last rfl (List.append_nil _).symm
  | cons g gs ih => exact .next rfl rfl (ih ..)

/-- The joins back along a route lead back along its hops. -/
theorem back_backJoins (previous : Slot) (later : Hop) (next : Nat) (hs : List Hop) :
    Join.Back later previous hs (backJoins previous later next hs) := by
  induction hs generalizing previous later next with
  | nil => exact .done
  | cons h rest ih => exact .next rfl rfl (ih ..)

end Draft

/-! ## one statement -/

/-- The joins and the orderings that a node at its place puts into a statement, hanging from one of
the given tables: the filters of its hops and its own on their joins, and behind those the tests
for the nodes right below, and the orderings of its last table. -/
def ChainNode.Position.Puts (x : Position) (slots : List Slot) (js : List Join)
    (order : List (OrderTerm × Slot)) : Prop :=
  ∃ route outer tests, x.node.association.routeFor x.node.requirement = .ok route ∧
    route.Carries x.node.association ∧ outer ∈ slots ∧
    Join.Along x.node.filters tests outer route.hops js ∧
    List.Forall₂ (Guards (Join.lastSlot outer js)) (x.node.children.filter ChainNode.isTested)
      tests ∧
    order = (route.order ++ x.node.order).map fun o => (o, Join.lastSlot outer js)

/-- The joins and the orderings that nodes at their places put into a statement, one node after the
other.  Each hangs from one of the tables given or from one that is joined before. -/
inductive ChainNode.Position.Fill :
    List Slot → List Position → List Join → List (OrderTerm × Slot) → Prop where
  | nil {slots : List Slot} : Fill slots [] [] []
  | cons {slots : List Slot} {x : Position} {xs : List Position} {js js' : List Join}
      {order order' : List (OrderTerm × Slot)} (puts : x.Puts slots js order)
      (others : Fill (slots ++ js.map Join.slot) xs js' order') :
      Fill slots (x :: xs) (js ++ js') (order ++ order')

/-- Every term stands at its place in the statement, in order, and nothing else does: `own` and
`order` on the base table, `groups` on groups of rows, those of the nodes on their tables, and
`others` behind the joins of the nodes. -/
structure Statement.Places (s : Statement) (own groups : List Expr) (order : List OrderTerm)
    (nodes : List ChainNode) (others : List Join) : Prop where
  distinct : (s.root :: s.joins.map Join.slot).Nodup
  filters : ∃ tests, s.filters = own.map (fun e => .expr e s.root) ++ tests ∧
    List.Forall₂ (Guards s.root) (nodes.filter ChainNode.isTested) tests
  having : s.having = groups.map fun e => .expr e s.root
  nodes : ∃ js more, Position.Fill [s.root] (positionsAll [] nodes) js more ∧
    s.joins = js ++ others ∧ s.order = order.map (fun o => (o, s.root)) ++ more

namespace Draft

/-- A step puts the terms of its node where they belong. -/
theorem JoinStep.Sound.puts {x : JoinStep} (h : x.Sound) {slots : List Slot}
    (hanchor : x.anchor.slot ∈ slots) : x.position.Puts slots x.joins x.order := by
  have hjoins : Join.Along x.node.filters x.tests x.anchor.slot x.route.hops x.joins :=
    (along_hopJoins ..).underAt (numberedFrom_hopJoins _ _ _ _ _ _).nodup
  have hslot : Join.lastSlot x.anchor.slot x.joins = x.slot := by
    rw [Join.lastSlot_eq, slot, nodeSlot, Join.lastSlot_eq, joins, List.getLast?_map]
    cases (nodeJoins x.anchor x.node x.route x.next).getLast? with
    | none => rfl
    | some j => exact Join.slot_underAt ..
  have hroute := routeFor_of_plainRoute h.plain
  refine ⟨x.route, x.anchor.slot, x.tests, hroute, Association.carries_routeFor _ hroute, hanchor,
    hjoins, ?_, ?_⟩
  · rw [hslot]
    exact h.tests
  · rw [hslot]
    rfl

/-- The table of a node is one of those that it joins. -/
theorem JoinStep.slot_mem (x : JoinStep) : x.slot ∈ x.joins.map Join.slot := by
  obtain ⟨j, hj, heq⟩ := nodeSlot_mem x.anchor x.node x.route x.next
  rw [slots_joins, slot, ← heq]
  exact List.mem_map_of_mem hj

/-- Steps that hang from the tables given and from each other fill a statement. -/
theorem JoinStep.fill {steps : List JoinStep} (h : ∀ x ∈ steps, x.Sound) {hang slots : List Slot}
    (hanchors : JoinStep.HangInTurn hang steps) (hsub : hang ⊆ slots) :
    Position.Fill slots (steps.map JoinStep.position) (steps.flatMap JoinStep.joins)
      (steps.flatMap JoinStep.order) := by
  induction steps generalizing hang slots with
  | nil => exact .nil
  | cons x xs ih =>
    obtain ⟨hx, hxs⟩ := List.forall_mem_cons.1 h
    have hafter : x.slot :: hang ⊆ slots ++ x.joins.map Join.slot :=
      List.cons_subset.2 ⟨List.mem_append_right _ x.slot_mem,
        List.subset_append_of_subset_left _ hsub⟩
    exact .cons (hx.puts (hsub hanchors.1)) (ih hxs hanchors.2 hafter)

/-- Numbered table instances are all different. -/
theorem Numbered.nodup_slots {d : Draft} (h : d.Numbered) :
    (root :: d.joins.map Join.slot).Nodup := by
  refine List.nodup_cons.2 ⟨h.root_notMem, ?_⟩
  have hindex : ((d.joins.map Join.slot).map Slot.index).Nodup := by
    rw [List.map_map]
    exact h.index_pairwise.imp Nat.ne_of_lt
  exact hindex.of_map

/-- What the steps of the walk from a base table have made has its terms in their places. -/
theorem Walked.places {numbering : AliasNumbering} {t : Table} {width : Nat}
    {nodes : List ChainNode} {d d' : Draft} {steps : List JoinStep} {tests : List Condition}
    {s : Statement} {own groups : List Expr} {order : List OrderTerm} {others : List Join}
    (h : Walked (.base t) [] nodes (.start numbering t width) d steps tests)
    (hd' : d'.Numbered) (hjoins' : s.joins = d'.joins)
    (hroot : s.root = root) (hjoins : s.joins = d.joins ++ others)
    (hfilters : s.filters = conditionsOn root own ++ d.filters)
    (hhaving : s.having = conditionsOn root groups)
    (horder : s.order = order.map (fun o => (o, root)) ++ d.order) :
    s.Places own groups order nodes others where
  distinct := by
    rw [hroot, hjoins']
    exact hd'.nodup_slots
  filters := by
    -- the base row has no join, so its tests are in WHERE
    have htests : d.filters = tests := by
      have hnone : (Anchor.base t).slot ∉ (start numbering t width).joins.map Join.slot := nofun
      rw [h.filters, if_neg hnone]
      rfl
    refine ⟨tests, by rw [hfilters, hroot, htests, conditionsOn], ?_⟩
    rw [hroot]
    exact h.guards
  having := by rw [hhaving, hroot, conditionsOn]
  nodes := by
    refine ⟨steps.flatMap JoinStep.joins, steps.flatMap JoinStep.order, ?_, ?_, ?_⟩
    · rw [hroot, ← h.positions]
      exact JoinStep.fill h.sound h.anchors (List.Subset.refl _)
    · rw [hjoins, h.joins]
      rfl
    · rw [horder, h.order, hroot]
      rfl

/-- The statement for the rows of a node has its terms in their places: on its base table the
filters and orderings of the node and of the last hop, and those of the hops before on the joins
that lead back. -/
theorem PlannedFor.places {config : Config} {n : ChainNode} {p : PrefetchPlan}
    (h : PlannedFor config n p) :
    ∃ route back, n.association.routeFor n.requirement = .ok route ∧
      route.Carries n.association ∧
      Join.Back route.backwards.1 p.statement.root route.backwards.2 back ∧
      p.statement.keyFilter =
        some ⟨Join.lastSlot p.statement.root back, route.first.mapping.map Prod.snd⟩ ∧
      p.statement.Places (route.last.filters ++ n.filters) [] (route.order ++ n.order)
        n.children back := by
  obtain ⟨route, d, hroute, hwalk, -, hstatement, -, -⟩ := h.exists_planned
  obtain ⟨steps, tests, hwalked⟩ := hwalk.exists_walked_base
  obtain ⟨js, -, -, hadds⟩ := hwalk.exists_adds
  have hnumbered : (d.withJoins (keyJoins route d)).Numbered :=
    (hadds.numbered (numbered_start ..)).withJoins (numberedFrom_backJoins ..)
  have hfetches := fetches_prefetchStatement hstatement
  have hfilters := hfetches.filters
  rw [Route.last_backwards] at hfilters
  refine ⟨route, keyJoins route d, hroute, Association.carries_routeFor _ hroute, ?_, ?_,
    hwalked.places hnumbered hfetches.joins hfetches.root hfetches.joins hfilters hfetches.having
      hfetches.order⟩
  · rw [hfetches.root]
    exact back_backJoins ..
  · rw [hfetches.root]
    exact hfetches.keyFilter

/-- The joins for an aggregate lead along the route of its association. -/
theorem AggregateStep.InTurn.along {next : Nat} {xs : List AggregateStep} (h : InTurn next xs) :
    ∀ x ∈ xs, x.association.routeFor .optional = .ok x.route ∧
      x.route.Carries x.association ∧ Join.Along [] [] root x.route.hops x.joins := by
  induction xs generalizing next with
  | nil => exact List.forall_mem_nil _
  | cons x xs ih =>
    obtain ⟨⟨hroute, -⟩, hrest⟩ := h
    exact List.forall_mem_cons.2
      ⟨⟨hroute, Association.carries_routeFor _ hroute, along_hopJoins ..⟩, ih hrest⟩

end Draft

namespace Request

open PrefetchPlan (Each)

/-- The base statement has its terms in their places.  The joins behind those of the nodes are
for aggregates. -/
theorem places_statement {r : Request} {config : Config} {s : Statement} {d : Draft}
    {xs : List AggregateStep}
    (hwalk : Draft.Planned config (.base r.table) r.chain
      (.start config.numbering r.table (r.table.width + r.annotations.length)) d)
    (hxs : AggregateStep.InTurn d.next xs)
    (hs : r.Starts (xs.map fun x => (x.association, x.slot)) d (xs.flatMap AggregateStep.joins) s) :
    s.Places r.rowFilters r.groupFilters r.order r.chain (xs.flatMap AggregateStep.joins) := by
  obtain ⟨steps, tests, hwalked⟩ := hwalk.exists_walked_base
  obtain ⟨js, -, -, hadds⟩ := hwalk.exists_adds
  have hnumbered : (d.withJoins (xs.flatMap AggregateStep.joins)).Numbered :=
    (hadds.numbered (Draft.numbered_start ..)).withJoins hxs.aggregateJoins.numbered
  exact hwalked.places hnumbered hs.joins hs.root hs.joins hs.filters hs.having hs.order

/-- The base statement has its terms in their places, with the joins for aggregates behind those of
the nodes. -/
theorem places_rootStatement {r : Request} {config : Config} {s : Statement} {d' : Draft}
    (h : r.rootStatement config = .ok (s, d')) :
    ∃ (d : Draft) (xs : List AggregateStep),
      Draft.Planned config (.base r.table) r.chain
        (.start config.numbering r.table (r.table.width + r.annotations.length)) d ∧
      s.aggregates = xs.map (fun x => (x.association, x.slot)) ∧
      (∀ x ∈ xs, x.association.routeFor .optional = .ok x.route ∧
        x.route.Carries x.association ∧ Join.Along [] [] s.root x.route.hops x.joins) ∧
      s.keyFilter = none ∧
      s.Places r.rowFilters r.groupFilters r.order r.chain (xs.flatMap AggregateStep.joins) := by
  obtain ⟨d, xs, hwalk, hxs, hd', -, hs⟩ := rootStatement_steps h
  have hstarts := starts_statement hd' hs
  exact ⟨d, xs, hwalk, hstarts.aggregates, hstarts.root.symm ▸ hxs.along, hstarts.keyFilter,
    places_statement hwalk hxs hstarts⟩

/-- In every planned statement each filter and each ordering stands once, in its place. -/
theorem compile_places_terms {r : Request} {config : Config} {q : CompiledQuery}
    (h : r.compile config = .ok q) :
    ∃ (s : Statement) (d : Draft) (xs : List AggregateStep),
      r.rootStatement config = .ok (s, d) ∧
      s.bind config.dialect [] = .ok q.root.text ∧
      s.aggregates = xs.map (fun x => (x.association, x.slot)) ∧
      (∀ x ∈ xs, x.association.routeFor .optional = .ok x.route ∧
        x.route.Carries x.association ∧ Join.Along [] [] s.root x.route.hops x.joins) ∧
      s.keyFilter = none ∧
      s.Places (r.filters.filter fun e => !e.hasAggregate)
        (r.filters.filter Expr.hasAggregate ++ r.having) r.order r.chain
        (xs.flatMap AggregateStep.joins) ∧
      Each (fun n p => ∃ route back, n.association.routeFor n.requirement = .ok route ∧
        route.Carries n.association ∧
        Join.Back route.backwards.1 p.statement.root route.backwards.2 back ∧
        p.statement.keyFilter =
          some ⟨Join.lastSlot p.statement.root back, route.first.mapping.map Prod.snd⟩ ∧
        p.statement.Places (route.last.filters ++ n.filters) [] (route.order ++ n.order)
          n.children back)
        (ChainNode.separateAll r.chain) q.prefetches := by
  obtain ⟨s, d', hs, hbind, -, -⟩ := compile_eq_ok h
  obtain ⟨d, xs, -, haggregates, halong, hkey, hplaces⟩ := places_rootStatement hs
  exact ⟨s, d', xs, hs, hbind, haggregates, halong, hkey, hplaces,
    (each_of_compile h).imp fun _ _ hp => hp.places⟩

end Request

namespace Library

/-- Has the book more than one chapter? -/
def severalChapters : Expr :=
  .binary .gt chaptersOfBook.association.count (.literal (.int 1))

/-- Books with several chapters, by authors with an A, the latest first. -/
def latest : Request where
  table := books
  filters := [severalChapters, .isNull (.col "authorId") true]
  order := [(Expr.col "id").desc]
  chain := [{ author with filters := [.like (.col "name") "A%" false] }, chaptersOfBook]

/-- The request compiles. -/
theorem exists_compile_latest : ∃ q, latest.compile = .ok q :=
  exists_of_isOk (by decide +kernel)

end Library

/-- What is asked of books stands in WHERE, with the condition that there are chapters, and what
is asked of the number of chapters in HAVING. -/
theorem Request.compile_places_terms_latest :
    ∃ (q : CompiledQuery) (s : Statement) (test : Condition), Library.latest.compile = .ok q ∧
      s.bind .postgres [] = .ok q.root.text ∧
      s.filters = [.expr (.isNull (.col "authorId") true) s.root, test] ∧
      Draft.Guards s.root Library.chaptersOfBook test ∧
      s.having = [.expr Library.severalChapters s.root] := by
  obtain ⟨q, hq⟩ := Library.exists_compile_latest
  obtain ⟨s, d, xs, -, hbind, -, -, -, hplaces, -⟩ := compile_places_terms hq
  obtain ⟨tests, hfilters, htests⟩ := hplaces.filters
  have htested : Library.latest.chain.filter ChainNode.isTested = [Library.chaptersOfBook] := rfl
  rw [htested, List.forall₂_cons_left_iff] at htests
  obtain ⟨test, _, htest, hnone, rfl⟩ := htests
  cases hnone
  exact ⟨q, s, test, hq, hbind, hfilters, htest, hplaces.having⟩

end AssociationQuery
