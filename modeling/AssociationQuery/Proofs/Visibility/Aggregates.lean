import AssociationQuery.Proofs.Planning.Optionality
import AssociationQuery.Proofs.Planning.Terms
import AssociationQuery.Proofs.Visibility.Terms

/-!
# AssociationQuery.Proofs.Visibility.Aggregates

Where the aggregates of a request are written.

Aggregates belong to the base request.  Planning rejects them in the filters and orderings of
nodes and in the filters of hops that it joins for nodes, and a statement of its own has no
association to aggregate over, so that one cannot be rendered there.  Neither check covers the
orderings of the last hop of a joined node or the filters of the association that an aggregate
ranges over: what is written there is written as soon as the base request asks for the same
aggregate, `Request.compile_places_aggregates_iff`.
-/

namespace AssociationQuery

open ChainNode (Position positionsAll)
open Draft (AggregateStep Guards Planned)

/-! ## written aggregates -/

namespace Expr

mutual

/-- The associations of the aggregates that are written for the expression.  Without values to
compare with, nothing is written for an operand. -/
def writtenAggregates : Expr → List Association
  | aggregate _ a _ => [a]
  | binary _ a b => writtenAggregates a ++ writtenAggregates b
  | unary _ a | isNull a _ | like a _ _ | paren a => writtenAggregates a
  | call _ args => writtenAggregatesAll args
  | inList _ [] _ => []
  | inList a (v :: vs) _ => writtenAggregates a ++ writtenAggregatesAll (v :: vs)
  | column .. | literal _ | raw _ | countStar => []

def writtenAggregatesAll : List Expr → List Association
  | [] => []
  | e :: es => writtenAggregates e ++ writtenAggregatesAll es

end

mutual

/-- The aggregates that are written are among those that the expression has. -/
theorem writtenAggregates_sublist : (e : Expr) → e.writtenAggregates.Sublist e.aggregates
  | aggregate .. => List.Sublist.refl _
  | column .. | literal _ | raw _ | countStar | inList _ [] _ => by
    rw [writtenAggregates]
    exact List.nil_sublist _
  | binary _ a b => by
    rw [writtenAggregates, aggregates]
    exact (writtenAggregates_sublist a).append (writtenAggregates_sublist b)
  | unary _ a | isNull a _ | like a _ _ | paren a => by
    rw [writtenAggregates, aggregates]
    exact writtenAggregates_sublist a
  | call _ args => by
    rw [writtenAggregates, aggregates]
    exact writtenAggregatesAll_sublist args
  | inList a (v :: vs) _ => by
    rw [writtenAggregates, aggregates]
    exact (writtenAggregates_sublist a).append (writtenAggregatesAll_sublist (v :: vs))

theorem writtenAggregatesAll_sublist : (es : List Expr) →
    (writtenAggregatesAll es).Sublist (aggregatesAll es)
  | [] => List.Sublist.refl _
  | e :: es => by
    rw [writtenAggregatesAll, aggregatesAll]
    exact (writtenAggregates_sublist e).append (writtenAggregatesAll_sublist es)

end

/-- An expression without aggregates writes none. -/
theorem writtenAggregates_eq_nil {e : Expr} (h : e.hasAggregate = false) :
    e.writtenAggregates = [] := by
  have hnone : e.aggregates = [] := by simpa [hasAggregate] using h
  exact List.sublist_nil.1 (hnone ▸ writtenAggregates_sublist e)

mutual

/-- Every aggregate that is written has a table. -/
theorem exists_aggregate_of_render {d : Dialect} {r : Resolver} : (e : Expr) → {ts : List Token} →
    e.render d r = .ok ts → ∀ a ∈ e.writtenAggregates, ∃ name, r.aggregate a = .ok name
  -- by the expression: rendering goes through all of it, so each aggregate was looked up
  | aggregate f b _, ts, h => by
    simp only [render, bind_eq_ok] at h
    obtain ⟨name, hname, -⟩ := h
    rw [writtenAggregates]
    exact List.forall_mem_singleton.2 ⟨name, hname⟩
  | column .., ts, h | literal _, ts, h | raw _, ts, h | countStar, ts, h
  | inList _ [] _, ts, h => by
    rw [writtenAggregates]
    exact List.forall_mem_nil _
  | binary _ a b, ts, h => by
    simp only [render, bind_eq_ok] at h
    obtain ⟨_, ha, _, hb, -⟩ := h
    rw [writtenAggregates]
    exact List.forall_mem_append.2
      ⟨exists_aggregate_of_render a ha, exists_aggregate_of_render b hb⟩
  | unary _ a, ts, h | isNull a _, ts, h | like a _ _, ts, h | paren a, ts, h => by
    simp only [render, bind_eq_ok] at h
    obtain ⟨_, ha, -⟩ := h
    rw [writtenAggregates]
    exact exists_aggregate_of_render a ha
  | call _ args, ts, h => by
    simp only [render, bind_eq_ok] at h
    obtain ⟨_, hargs, -⟩ := h
    rw [writtenAggregates]
    exact exists_aggregate_of_renderAll args hargs
  | inList a (v :: vs) _, ts, h => by
    simp only [render, bind_eq_ok] at h
    obtain ⟨_, ha, _, hvs, -⟩ := h
    rw [writtenAggregates]
    exact List.forall_mem_append.2
      ⟨exists_aggregate_of_render a ha, exists_aggregate_of_renderAll (v :: vs) hvs⟩

theorem exists_aggregate_of_renderAll {d : Dialect} {r : Resolver} : (es : List Expr) →
    {tss : List (List Token)} → renderAll d r es = .ok tss →
    ∀ a ∈ writtenAggregatesAll es, ∃ name, r.aggregate a = .ok name
  | [], tss, h => by
    rw [writtenAggregatesAll]
    exact List.forall_mem_nil _
  | e :: es, tss, h => by
    simp only [renderAll, bind_eq_ok] at h
    obtain ⟨_, he, _, hes, -⟩ := h
    rw [writtenAggregatesAll]
    exact List.forall_mem_append.2
      ⟨exists_aggregate_of_render e he, exists_aggregate_of_renderAll es hes⟩

end

end Expr

/-- Where no association is joined for aggregates, none is written. -/
theorem RenderContext.Renders.writtenAggregates_eq_nil {d : Dialect} {c : RenderContext} {e : Expr}
    (h : c.Renders d e) (hc : c.aggregates = []) : e.writtenAggregates = [] := by
  obtain ⟨hidden, slot, ts, hrender⟩ := h
  refine List.eq_nil_iff_forall_not_mem.2 fun a ha => ?_
  obtain ⟨name, hname⟩ := e.exists_aggregate_of_render hrender a ha
  simp only [resolver, resolveAggregate, hc, List.find?_nil] at hname
  cases hname

/-! ## what planning rejects -/

/-- The check for aggregates lets through what has none. -/
theorem rejectAggregates_eq_ok {name : String} {es : List Expr} {u : Unit} :
    rejectAggregates name es = .ok u ↔ ∀ e ∈ es, e.hasAggregate = false := by
  unfold rejectAggregates
  split <;> simp_all

/-- The filters of a plain route have no aggregates. -/
theorem Draft.plain_of_plainRoute {requirement : Requirement} {a : Association} {route : Route}
    (h : plainRoute requirement a = .ok route) : ∀ e ∈ route.filters, e.hasAggregate = false := by
  simp only [plainRoute, bind_eq_ok, pure_eq_ok] at h
  obtain ⟨_, -, _, hreject, rfl⟩ := h
  exact rejectAggregates_eq_ok.1 hreject

namespace ChainNode

/-- The filters and the orderings of the node have no aggregate. -/
structure Plain (n : ChainNode) : Prop where
  filters : ∀ e ∈ n.filters, e.hasAggregate = false
  order : ∀ o ∈ n.order, o.expr.hasAggregate = false

/-- A checked node has no aggregates in its own terms. -/
theorem plain_of_check {n : ChainNode} {parent : Table} {u : Unit} (h : n.check parent = .ok u) :
    n.Plain := by
  rw [check] at h
  split at h
  · obtain ⟨hfilters, horder⟩ := List.forall_mem_append.1 (rejectAggregates_eq_ok.1 h)
    exact ⟨hfilters, List.forall_mem_map.1 horder⟩
  · cases h

/-- Neither the node, nor the filters along its route, nor the nodes right below it have an
aggregate. -/
structure Position.Plain (x : Position) : Prop where
  node : x.node.Plain
  route : ∀ route, x.node.association.routeFor x.node.requirement = .ok route →
    ∀ e ∈ route.filters, e.hasAggregate = false
  children : ∀ n ∈ x.node.children, n.Plain

end ChainNode

namespace Draft

mutual

/-- A subquery has no aggregate, at whatever depth. -/
theorem plain_existence : (n : ChainNode) → {outer : Slot} → {d d' : Draft} → {q : SubQuery} →
    d.existence outer n = .ok (q, d') → (∀ e ∈ n.filters, e.hasAggregate = false) →
    ∀ e ∈ q.terms, e.hasAggregate = false
  | ⟨association, key, inclusion, requirement, filters, order, aliases, children⟩,
      outer, d, d', q, h, hfilters => by
    obtain ⟨route, nested, d₁, hroute, hnested, rfl, -⟩ := existence_eq_ok h
    obtain ⟨hfirst, hrest⟩ := List.forall_mem_append.1 (plain_of_plainRoute hroute)
    rw [terms_subQuery]
    exact List.forall_mem_append.2 ⟨hrest, List.forall_mem_append.2
      ⟨List.forall_mem_append.2 ⟨hfirst, hfilters⟩, plain_existences children hnested⟩⟩

theorem plain_existences : (nodes : List ChainNode) → {outer : Slot} → {table : Table} →
    {d d' : Draft} → {cs : List Condition} → d.existences outer table nodes = .ok (cs, d') →
    ∀ e ∈ Condition.termsAll cs, e.hasAggregate = false
  | [], outer, table, d, d', cs, h => by
    obtain ⟨rfl, -⟩ : [] = cs ∧ d = d' := by simpa [existences] using h
    exact List.forall_mem_nil _
  | n :: rest, outer, table, d, d', cs, h => by
    rw [existences] at h
    split at h
    · simp only [bind_eq_ok, pure_eq_ok, Prod.mk.injEq] at h
      obtain ⟨_, hcheck, ⟨q, d₁⟩, hq, ⟨cs', d₂⟩, hcs', rfl, -⟩ := h
      rw [Condition.termsAll, Condition.terms]
      exact List.forall_mem_append.2
        ⟨plain_existence n hq (ChainNode.plain_of_check hcheck).filters, plain_existences rest hcs'⟩
    · exact plain_existences rest h

end

/-- Conditions for plain nodes have no aggregates. -/
theorem plain_of_guards {slot : Slot} {nodes : List ChainNode} {tests : List Condition}
    (h : List.Forall₂ (Guards slot) nodes tests) (hnodes : ∀ n ∈ nodes, n.Plain) :
    ∀ e ∈ Condition.termsAll tests, e.hasAggregate = false := by
  induction h with
  | nil => exact List.forall_mem_nil _
  | @cons n c ns cs hguards _ ih =>
    obtain ⟨hn, hns⟩ := List.forall_mem_cons.1 hnodes
    obtain ⟨d, d', q, -, hq, rfl⟩ := hguards
    rw [Condition.termsAll, Condition.terms]
    exact List.forall_mem_append.2 ⟨plain_existence n hq hn.filters, ih hns⟩

/-- The walk goes through nodes without aggregates only. -/
theorem Planned.plain {config : Config} {a : Anchor} {nodes : List ChainNode} {d d' : Draft}
    (h : Planned config a nodes d d') (above : List ChainNode) :
    (∀ n ∈ nodes, n.Plain) ∧ ∀ x ∈ positionsAll above nodes, x.Plain := by
  -- along the walk: every node was checked before it was planned
  induction h generalizing above with
  | done => exact ⟨List.forall_mem_nil _, List.forall_mem_nil _⟩
  | @separate a n rest d d₁ d' check including toMany _ _ _ _ _ _ ihOthers =>
    obtain ⟨hrest, hpositions⟩ := ihOthers above
    rw [positionsAll, ChainNode.positions_of_separate ⟨including, toMany⟩]
    exact ⟨List.forall_mem_cons.2 ⟨ChainNode.plain_of_check check, hrest⟩, hpositions⟩
  | @joined a n rest route d d₁ d' check kind plain _ _ _ ihChildren ihOthers =>
    obtain ⟨hchildren, hbelow⟩ := ihChildren (n :: above)
    obtain ⟨hrest, hpositions⟩ := ihOthers above
    have hn : n.Plain := ChainNode.plain_of_check check
    have hroute : ∀ route', n.association.routeFor n.requirement = .ok route' →
        ∀ e ∈ route'.filters, e.hasAggregate = false := by
      intro route' hroute'
      obtain rfl : route = route' :=
        Except.ok.inj ((routeFor_of_plainRoute plain).symm.trans hroute')
      exact plain_of_plainRoute plain
    rw [positionsAll, ChainNode.positions_of_joined kind]
    exact ⟨List.forall_mem_cons.2 ⟨hn, hrest⟩, List.forall_mem_append.2
      ⟨List.forall_mem_cons.2 ⟨⟨hn, hroute, hchildren⟩, hbelow⟩, hpositions⟩⟩

end Draft

/-! ## terms of nodes -/

/-- The terms of the joins of a route are the filters of its hops, then what is asked for at the
end. -/
theorem Join.Along.termsAll {refine : List Expr} {tests : List Condition} {previous : Slot}
    {hs : List Hop} {js : List Join} (h : Join.Along refine tests previous hs js) :
    Join.termsAll js = hs.flatMap Hop.filters ++ (refine ++ Condition.termsAll tests) := by
  induction h with
  | last _ hon =>
    rw [Join.termsAll_cons, hon, Condition.termsAll_append, Condition.termsAll, Condition.terms,
      Condition.termsAll_map]
    simp [Join.termsAll]
  | next _ hon _ ih =>
    rw [Join.termsAll_cons, hon, Condition.termsAll, Condition.terms, Condition.termsAll_map, ih,
      List.nil_append, List.flatMap_cons, List.append_assoc]

/-- What holds of all terms of joins holds of those of each part. -/
theorem Join.forall_termsAll_flatMap {P : Expr → Prop} {f : α → List Join} {xs : List α} :
    (∀ e ∈ Join.termsAll (xs.flatMap f), P e) ↔ ∀ x ∈ xs, ∀ e ∈ Join.termsAll (f x), P e := by
  induction xs with
  | nil => simp [Join.termsAll]
  | cons x xs ih =>
    rw [List.flatMap_cons, Join.termsAll_append, List.forall_mem_append, ih, List.forall_mem_cons]

namespace ChainNode.Position

variable {slots : List Slot} {xs : List Position} {js : List Join} {order : List (OrderTerm × Slot)}

/-- The joins of a plain node have no aggregates. -/
theorem Puts.plain {x : Position} (h : x.Puts slots js order) (hx : x.Plain) :
    ∀ e ∈ Join.termsAll js, e.hasAggregate = false := by
  obtain ⟨route, outer, tests, hroute, -, -, hjoins, htests, -⟩ := h
  rw [hjoins.termsAll]
  refine List.forall_mem_append.2 ⟨hx.route route hroute, List.forall_mem_append.2
    ⟨hx.node.filters, Draft.plain_of_guards htests fun n hn => ?_⟩⟩
  exact hx.children n (List.mem_of_mem_filter hn)

/-- The joins of nodes without aggregates have none. -/
theorem Fill.plain (h : Fill slots xs js order) (hxs : ∀ x ∈ xs, x.Plain) :
    ∀ e ∈ Join.termsAll js, e.hasAggregate = false := by
  induction h with
  | nil => exact List.forall_mem_nil _
  | cons puts _ ih =>
    obtain ⟨hx, hxs⟩ := List.forall_mem_cons.1 hxs
    rw [Join.termsAll_append]
    exact List.forall_mem_append.2 ⟨puts.plain hx, ih hxs⟩

/-- The orderings of nodes have no aggregates if those along their routes have none. -/
theorem Fill.order_iff (h : Fill slots xs js order) (hxs : ∀ x ∈ xs, x.Plain) :
    (∀ o ∈ order, o.1.expr.writtenAggregates = []) ↔
      ∀ x ∈ xs, ∀ route, x.node.association.routeFor x.node.requirement = .ok route →
        ∀ o ∈ route.order, o.expr.writtenAggregates = [] := by
  induction h with
  | nil => simp
  | @cons slots x xs js js' order order' puts _ ih =>
    obtain ⟨hx, hxs⟩ := List.forall_mem_cons.1 hxs
    obtain ⟨route, outer, tests, hroute, -, -, -, -, rfl⟩ := puts
    have hnode : ∀ o ∈ x.node.order, o.expr.writtenAggregates = [] :=
      fun o ho => Expr.writtenAggregates_eq_nil (hx.node.order o ho)
    rw [List.forall_mem_append, List.forall_mem_map, List.forall_mem_append, List.forall_mem_cons,
      ih hxs, hroute]
    simp only [Except.ok.injEq, forall_eq', and_iff_left hnode]

end ChainNode.Position

/-! ## statements -/

/-- Aggregates are written in the SELECT list, in HAVING outside of subqueries, and in the first
orderings, `own`. -/
structure Statement.PlacesAggregates (s : Statement) (own : List OrderTerm) : Prop where
  joins : ∀ e ∈ Join.termsAll s.joins, e.writtenAggregates = []
  filters : ∀ e ∈ Condition.termsAll s.filters, e.writtenAggregates = []
  having : ∃ groups : List Expr, s.having = groups.map fun e => .expr e s.root
  order : ∃ more, s.order = own.map (fun o => (o, s.root)) ++ more ∧
    ∀ o ∈ more, o.1.expr.writtenAggregates = []

/-- No aggregate is written anywhere. -/
def Statement.WritesNoAggregate (s : Statement) : Prop :=
  ∀ e ∈ s.terms, e.writtenAggregates = []

/-- A statement of its own writes no aggregate, and the nodes in it ask for none. -/
theorem Draft.PlannedFor.writesNoAggregate {config : Config} {n : ChainNode} {p : PrefetchPlan}
    (h : PlannedFor config n p) :
    p.statement.WritesNoAggregate ∧ (∀ c ∈ n.children, c.Plain) ∧
      ∀ x ∈ positionsAll [] n.children, x.Plain := by
  obtain ⟨route, d, -, hwalk, -, hstatement, -, ts, hrender⟩ := h.exists_planned
  have hnone : p.statement.context.aggregates = [] := by
    rw [hstatement]
    rfl
  have hwritten : p.statement.WritesNoAggregate := fun e he =>
    (Statement.renders_of_render hrender e he).writtenAggregates_eq_nil hnone
  exact ⟨hwritten, hwalk.plain []⟩

namespace Request

open PrefetchPlan (Each)

/-- Aggregates are written in the base statement only, and there in no subquery, not in WHERE and
not for nodes.  They are where they belong exactly if the associations that they range over have
no filters with aggregates and the joined nodes have no such orderings along their routes. -/
theorem compile_places_aggregates_iff {r : Request} {config : Config} {q : CompiledQuery}
    (h : r.compile config = .ok q) :
    ∃ (s : Statement) (d : Draft), r.rootStatement config = .ok (s, d) ∧
      s.bind config.dialect [] = .ok q.root.text ∧
      (∀ e ∈ Condition.termsAll s.filters, e.writtenAggregates = []) ∧
      s.having = r.groupFilters.map (fun e => .expr e s.root) ∧
      (∀ n ∈ r.chain, n.Plain) ∧ (∀ x ∈ positionsAll [] r.chain, x.Plain) ∧
      (s.PlacesAggregates r.order ↔
        (∀ p ∈ s.aggregates, ∀ route, p.1.routeFor .optional = .ok route →
          ∀ e ∈ route.filters, e.writtenAggregates = []) ∧
        ∀ x ∈ positionsAll [] r.chain, ∀ route,
          x.node.association.routeFor x.node.requirement = .ok route →
          ∀ o ∈ route.order, o.expr.writtenAggregates = []) ∧
      Each (fun n p => p.statement.WritesNoAggregate ∧ (∀ c ∈ n.children, c.Plain) ∧
          ∀ x ∈ positionsAll [] n.children, x.Plain)
        (ChainNode.separateAll r.chain) q.prefetches := by
  obtain ⟨s, d', hs, hbind, -, -⟩ := compile_eq_ok h
  obtain ⟨d, xs, hwalk, haggregates, halong, -, hplaces⟩ := places_rootStatement hs
  obtain ⟨hnodes, hpositions⟩ := hwalk.plain []
  obtain ⟨tests, hfilters, htests⟩ := hplaces.filters
  obtain ⟨js, more, hfill, hjoins, horder⟩ := hplaces.nodes
  have hwhere : ∀ e ∈ Condition.termsAll s.filters, e.writtenAggregates = [] := by
    rw [hfilters, Condition.termsAll_append, Condition.termsAll_map]
    refine List.forall_mem_append.2 ⟨fun e he => ?_, fun e he => ?_⟩
    · have hnone := (List.mem_filter.1 he).2
      exact Expr.writtenAggregates_eq_nil (by simpa using hnone)
    · exact Expr.writtenAggregates_eq_nil (Draft.plain_of_guards htests
        (fun n hn => hnodes n (List.mem_of_mem_filter hn)) e he)
  have hown : ∀ e ∈ Join.termsAll js, e.writtenAggregates = [] :=
    fun e he => Expr.writtenAggregates_eq_nil (hfill.plain hpositions e he)
  -- the joins of the nodes are checked, so only the routes of the aggregates are left
  have hothers : (∀ e ∈ Join.termsAll s.joins, e.writtenAggregates = []) ↔
      ∀ p ∈ s.aggregates, ∀ route, p.1.routeFor .optional = .ok route →
        ∀ e ∈ route.filters, e.writtenAggregates = [] := by
    rw [hjoins, Join.termsAll_append, List.forall_mem_append, and_iff_right hown, haggregates,
      List.forall_mem_map, Join.forall_termsAll_flatMap]
    refine forall₂_congr fun x hx => ?_
    obtain ⟨hroute, -, hx⟩ := halong x hx
    have hterms : Join.termsAll x.joins = x.route.filters := by
      rw [hx.termsAll]
      exact List.append_nil _
    rw [hterms, hroute]
    simp only [Except.ok.injEq, forall_eq']
  have hplaced : s.PlacesAggregates r.order ↔
      (∀ e ∈ Join.termsAll s.joins, e.writtenAggregates = []) ∧
        ∀ o ∈ more, o.1.expr.writtenAggregates = [] := by
    constructor
    · intro h
      obtain ⟨more', horder', hmore⟩ := h.order
      obtain rfl : more = more' := List.append_cancel_left (horder.symm.trans horder')
      exact ⟨h.joins, hmore⟩
    · intro h
      exact ⟨h.1, hwhere, ⟨_, hplaces.having⟩, ⟨more, horder, h.2⟩⟩
  rw [hothers, hfill.order_iff hpositions] at hplaced
  exact ⟨s, d', hs, hbind, hwhere, hplaces.having, hnodes, hpositions, hplaced,
    (each_of_compile h).imp fun _ _ hp => hp.writesNoAggregate⟩

end Request

namespace Library

/-- The books of authors who have written more than one. -/
def booksOfMany : Association :=
  (booksOfAuthor.association.filter
    (.binary .gt booksOfAuthor.association.count (.literal (.int 1)))).named "many"

/-- Authors with the number of their books, and of those books again if there are several. -/
def prolific : Request where
  table := authors
  annotations := [(booksOfAuthor.association.count, "written"), (booksOfMany.count, "more")]

/-- The chapters of an author's books, by the number of books. -/
def chaptersOfAuthor : Association :=
  .through "pages" booksOfAuthor.association
    (chaptersOfBook.association.orderBy booksOfAuthor.association.count.desc) [] [] none

/-- Authors with the number of their books, joined with the chapters of these. -/
def paged : Request where
  table := authors
  annotations := [(booksOfAuthor.association.count, "written")]
  chain := [{ ChainNode.ofAssociation chaptersOfAuthor with
    inclusion := .joining, requirement := .optional }]

/-- The request compiles. -/
theorem exists_compile_prolific : ∃ q, prolific.compile = .ok q :=
  exists_of_isOk (by decide +kernel)

/-- The request of a page of books compiles. -/
theorem exists_compile_paged : ∃ q, paged.compile = .ok q :=
  exists_of_isOk (by decide +kernel)

/-- The second association that the request aggregates over has an aggregate in its filter. -/
theorem exists_written_prolific {s : Statement} {d : Draft}
    (h : prolific.rootStatement {} = .ok (s, d)) :
    ∃ p ∈ s.aggregates, ∃ route, p.1.routeFor .optional = .ok route ∧
      ∃ e ∈ route.filters, e.writtenAggregates ≠ [] := by
  have hwritten : (prolific.rootStatement {}).toOption.any (fun r => r.1.aggregates.any fun p =>
      (p.1.routeFor .optional).toOption.any fun route =>
        route.filters.any fun e => !e.writtenAggregates.isEmpty) = true := by decide +kernel
  rw [h, Except.toOption, Option.any_some] at hwritten
  obtain ⟨p, hp, hroute⟩ := List.any_eq_true.1 hwritten
  refine ⟨p, hp, ?_⟩
  cases hr : p.1.routeFor .optional with
  | error =>
    rw [hr] at hroute
    cases hroute
  | ok route =>
    rw [hr, Except.toOption, Option.any_some] at hroute
    obtain ⟨e, he, hwritten⟩ := List.any_eq_true.1 hroute
    exact ⟨route, rfl, e, he, by simpa using hwritten⟩

end Library

/-- Two requests whose aggregates are written where no group is: in the condition of a join, and
in an ordering that an association brings along. -/
theorem Request.compile_places_aggregates_library :
    (∃ (q : CompiledQuery) (s : Statement), Library.prolific.compile = .ok q ∧
      s.bind .postgres [] = .ok q.root.text ∧ ¬s.PlacesAggregates []) ∧
    ∃ (q : CompiledQuery) (s : Statement), Library.paged.compile = .ok q ∧
      s.bind .postgres [] = .ok q.root.text ∧ ¬s.PlacesAggregates [] := by
  constructor
  · obtain ⟨q, hq⟩ := Library.exists_compile_prolific
    obtain ⟨s, d, hs, hbind, -, -, -, -, hplaced, -⟩ := compile_places_aggregates_iff hq
    obtain ⟨p, hp, route, hroute, e, he, hwritten⟩ := Library.exists_written_prolific hs
    exact ⟨q, s, hq, hbind, fun h => hwritten ((hplaced.1 h).1 p hp route hroute e he)⟩
  · obtain ⟨q, hq⟩ := Library.exists_compile_paged
    obtain ⟨s, d, -, hbind, -, -, -, -, hplaced, -⟩ := compile_places_aggregates_iff hq
    refine ⟨q, s, hq, hbind, fun h => ?_⟩
    have hnone := (hplaced.1 h).2 _ List.mem_cons_self _ rfl _ List.mem_cons_self
    exact absurd hnone (by decide)

end AssociationQuery
