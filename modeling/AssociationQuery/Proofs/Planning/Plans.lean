import AssociationQuery.Proofs.Planning.Additions

/-!
# AssociationQuery.Proofs.Planning.Plans

The tree of plans that a compiled request holds.

The plans of a statement are those of the nodes below its base table that have statements
of their own, and so again below each of them.  What holds of the plan of any such node
holds of the whole tree, `Request.each_of_compile`.
-/

namespace AssociationQuery

/-! ## nodes of a chain -/

namespace ChainNode

/-- A node is everywhere below itself. -/
theorem mem_everywhere (n : ChainNode) : n ∈ n.everywhere := by
  rw [everywhere_eq]
  exact List.mem_cons_self

/-- Whatever is below a node among others is among them. -/
theorem everywhereAll_subset {n : ChainNode} (ns : List ChainNode) :
    n ∈ everywhereAll ns → everywhereAll n.children ⊆ everywhereAll ns := by
  induction ns using forest_induction with
  | nil => exact nofun
  | cons m ns ihChildren ihOthers =>
    intro h
    rw [everywhereAll, everywhere_eq, List.mem_append, List.mem_cons] at h
    rw [everywhereAll, everywhere_eq]
    rcases h with (rfl | h) | h
    · exact List.subset_append_of_subset_left _ (List.subset_cons_self ..)
    · exact List.subset_append_of_subset_left _ (List.subset_cons_of_subset _ (ihChildren h))
    · exact List.subset_append_of_subset_right _ (ihOthers h)

/-- First nodes with statements of their own are among the nodes, included and to-many. -/
theorem separateAll_subset (ns : List ChainNode) :
    ∀ n ∈ separateAll ns,
      n ∈ everywhereAll ns ∧ n.inclusion = .including ∧ n.association.isToMany := by
  induction ns using forest_induction with
  | nil => exact List.forall_mem_nil _
  | cons m ns ihChildren ihOthers =>
    rw [separateAll, everywhereAll, everywhere_eq]
    refine List.forall_mem_append.2 ⟨fun n hn => ?_, fun n hn => ?_⟩
    · by_cases hkind : m.inclusion = .including ∧ m.association.isToMany
      · rw [separate_of_separate hkind] at hn
        obtain rfl := List.mem_singleton.1 hn
        exact ⟨List.mem_append_left _ List.mem_cons_self, hkind⟩
      · rw [separate_of_joined hkind] at hn
        obtain ⟨hmem, hn⟩ := ihChildren n hn
        exact ⟨List.mem_append_left _ (List.mem_cons_of_mem _ hmem), hn⟩
    · obtain ⟨hmem, hn⟩ := ihOthers n hn
      exact ⟨List.mem_append_right _ hmem, hn⟩

end ChainNode

/-! ## trees of plans -/

namespace PrefetchPlan

variable {P Q : ChainNode → PrefetchPlan → Prop}

/-- Each of the nodes has a plan of which `P` holds, and so have the nodes with statements of
their own below it. -/
inductive Each (P : ChainNode → PrefetchPlan → Prop) : List ChainNode → List PrefetchPlan → Prop
  | nil : Each P [] []
  | cons {n : ChainNode} {p : PrefetchPlan} {ns : List ChainNode} {ps : List PrefetchPlan}
      (own : P n p) (below : Each P (ChainNode.separateAll n.children) p.children)
      (others : Each P ns ps) : Each P (n :: ns) (p :: ps)

namespace Each

/-- What is true of each plan may be said less precisely. -/
theorem imp (h : ∀ n p, P n p → Q n p) {ns : List ChainNode} {ps : List PrefetchPlan}
    (hp : Each P ns ps) : Each Q ns ps := by
  induction hp with
  | nil => exact .nil
  | cons own _ _ ihBelow ihOthers => exact .cons (h _ _ own) ihBelow ihOthers

/-- Plans for two lists of nodes make plans for both. -/
theorem append {ns ms : List ChainNode} {ps qs : List PrefetchPlan} (h : Each P ns ps)
    (h' : Each P ms qs) : Each P (ns ++ ms) (ps ++ qs) := by
  induction h with
  | nil => exact h'
  | cons own below _ _ ihOthers => exact .cons own below ihOthers

/-- The plans are for nodes of the chain that have statements of their own. -/
theorem separate {chain ns : List ChainNode} {ps : List PrefetchPlan} (h : Each P ns ps)
    (hall : ∀ n ∈ ns, n ∈ ChainNode.everywhereAll chain ∧
      n.inclusion = .including ∧ n.association.isToMany) :
    Each (fun n p => (n ∈ ChainNode.everywhereAll chain ∧
      n.inclusion = .including ∧ n.association.isToMany) ∧ P n p) ns ps := by
  induction h with
  | nil => exact .nil
  | cons own _ _ ihBelow ihOthers =>
    obtain ⟨hfirst, hothers⟩ := List.forall_mem_cons.1 hall
    refine .cons ⟨hfirst, own⟩ (ihBelow fun m hm => ?_) (ihOthers hothers)
    obtain ⟨hbelow, hm⟩ := ChainNode.separateAll_subset _ m hm
    exact ⟨ChainNode.everywhereAll_subset _ hfirst.1 hbelow, hm⟩

end Each

end PrefetchPlan

/-! ## statements for any keys -/

/-- A statement that can be rendered for some keys can be rendered for all. -/
theorem Statement.exists_render {s : Statement} {d : Dialect} {keys : List (List Value)}
    {ts : List Token} (h : s.render d keys = .ok ts) (keys' : List (List Value)) :
    ∃ us, s.render d keys' = .ok us := by
  simp only [render, bind_eq_ok, pure_eq_ok] at h ⊢
  obtain ⟨select, hselect, joins, hjoins, filters, hfilters, having, hhaving, order, horder, -⟩ := h
  exact ⟨_, select, hselect, joins, hjoins, filters, hfilters, having, hhaving, order, horder, rfl⟩

namespace PrefetchPlan

/-- What a plan renders is what its statement does, with the plan's layout. -/
theorem render_eq_ok {p : PrefetchPlan} {keys : List (List Value)} {ts : List Token}
    (h : p.statement.render p.dialect keys = .ok ts) :
    p.render keys = .ok ⟨Token.bind p.dialect ts, p.layout⟩ := by
  rw [render, Statement.bind, h]
  rfl

/-- There is a statement for any keys. -/
def Renders (p : PrefetchPlan) : Prop := ∀ keys, ∃ t, p.render keys = .ok t

end PrefetchPlan

/-! ## planned statements -/

namespace Draft

open PrefetchPlan (Each)

/-- A plan for the rows of a node. -/
def PlannedFor (config : Config) (n : ChainNode) (p : PrefetchPlan) : Prop :=
  ∃ scope offset parent, prefetchPlan config n scope offset parent
    (planNodes config (.base n.association.destination) n.children) = .ok p

/-- The statement of the plan comes from a walk through the children of the node. -/
theorem PlannedFor.exists_planned {config : Config} {n : ChainNode} {p : PrefetchPlan}
    (h : PlannedFor config n p) :
    ∃ route d,
      n.association.routeFor n.requirement = .ok route ∧
      Planned config (.base n.association.destination) n.children
        (.start config.numbering n.association.destination n.association.destination.width) d ∧
      (d.prefetched n route).aliases.allocate = .ok p.statement.aliases ∧
      p.statement = (d.prefetched n route).prefetchStatement config n route (d.keySlot route)
        p.statement.aliases ∧
      p.layout = d.layout.pushPairing route.first.mapping.length ∧
      ∃ ts, p.statement.render config.dialect [] = .ok ts := by
  obtain ⟨scope, offset, parent, hplan⟩ := h
  have hrender := exists_render_of_prefetchPlan hplan
  obtain ⟨route, d, hroute, -, hd, haliases, -, -, -, hstatement, hlayout, -⟩ :=
    prefetchPlan_eq_ok hplan
  rw [Association.destination_backwards_routeFor hroute] at hd
  exact ⟨route, d, hroute, planned_of_planNodes _ hd, haliases, hstatement, hlayout, hrender⟩

/-- The plans of a compiled request have a statement for any keys. -/
theorem PlannedFor.renders {config : Config} {n : ChainNode} {p : PrefetchPlan}
    (h : PlannedFor config n p) : p.Renders := by
  obtain ⟨scope, offset, parent, hplan⟩ := h
  obtain ⟨ts, hts⟩ := exists_render_of_prefetchPlan hplan
  obtain ⟨_, _, -, -, -, -, -, -, hdialect, -⟩ := prefetchPlan_eq_ok hplan
  rw [← hdialect] at hts
  intro keys
  obtain ⟨us, hus⟩ := Statement.exists_render hts keys
  exact ⟨_, PrefetchPlan.render_eq_ok hus⟩

/-- The plans that the walk leaves behind are those of the nodes with statements of their own. -/
theorem Planned.each {config : Config} {anchor : Anchor} {nodes : List ChainNode}
    {d d' : Draft} (h : Planned config anchor nodes d d') :
    ∃ more : List (Except AssociationError PrefetchPlan), d'.pending = d.pending ++ more ∧
      ∀ ps, more = ps.map .ok → Each (PlannedFor config) (ChainNode.separateAll nodes) ps := by
  -- along the walk: the plans below a joined node come before those of the nodes that follow
  induction h with
  | done =>
    refine ⟨[], (List.append_nil _).symm, fun ps hps => ?_⟩
    obtain rfl : ps = [] := by simpa using hps.symm
    exact .nil
  | @separate anchor n rest d d₁ d' _ including toMany _ _ guarded _ _ ihChildren ihOthers =>
    obtain ⟨more, hmore, heach⟩ := ihOthers
    refine ⟨_ :: more, by rw [hmore, leave, guarded.pending, List.append_assoc]; rfl, ?_⟩
    intro ps hps
    cases ps with
    | nil => cases hps
    | cons p ps =>
      obtain ⟨hp, hrest⟩ := List.cons.inj hps
      obtain ⟨route, c, hroute, -, hc, -, -, -, -, -, -, hpending⟩ := prefetchPlan_eq_ok hp
      rw [Association.destination_backwards_routeFor hroute] at hc
      obtain ⟨below, hbelow, hbelowEach⟩ := ihChildren _ _ hc
      have hchildren : below = p.children.map .ok := hbelow.symm.trans hpending
      rw [ChainNode.separateAll, ChainNode.separate_of_separate ⟨including, toMany⟩,
        List.singleton_append]
      exact .cons ⟨_, _, _, hp⟩ (hbelowEach _ hchildren) (heach ps hrest)
  | @joined anchor n rest route d d₁ d' _ kind _ _ _ _ ihChildren ihOthers =>
    obtain ⟨more, hmore, heach⟩ := ihChildren
    obtain ⟨more', hmore', heach'⟩ := ihOthers
    have hregister : (d₁.register (nodeSlot anchor n route d.next) n.aliases).pending =
        d.pending ++ more := by rw [← pending_join d anchor n route, ← hmore]; rfl
    refine ⟨more ++ more', by rw [hmore', hregister, List.append_assoc], ?_⟩
    intro ps hps
    obtain ⟨qs, qs', rfl, hqs, hqs'⟩ := List.append_eq_map_iff.1 hps
    rw [ChainNode.separateAll, ChainNode.separate_of_joined kind]
    exact (heach qs hqs.symm).append (heach' qs' hqs'.symm)

end Draft

namespace Request

open Draft (PlannedFor)

/-- The plans of a compiled request are those of the nodes that have statements of their own. -/
theorem each_of_compile {r : Request} {config : Config} {q : CompiledQuery}
    (h : r.compile config = .ok q) :
    PrefetchPlan.Each (PlannedFor config) (ChainNode.separateAll r.chain) q.prefetches := by
  obtain ⟨s, d', hs, -, -, hpending⟩ := compile_eq_ok h
  obtain ⟨aggregates, d, js, hwalk, -, rfl, -⟩ := rootStatement_eq_ok hs
  obtain ⟨more, hmore, heach⟩ := hwalk.each
  exact heach _ (hmore.symm.trans hpending)

/-- Plans of a compiled request were made for included to-many nodes of its chain. -/
theorem each_separate_of_compile {r : Request} {config : Config} {q : CompiledQuery}
    (h : r.compile config = .ok q) :
    PrefetchPlan.Each (fun n p => (n ∈ ChainNode.everywhereAll r.chain ∧
      n.inclusion = .including ∧ n.association.isToMany) ∧ PlannedFor config n p)
      (ChainNode.separateAll r.chain) q.prefetches :=
  (each_of_compile h).separate (ChainNode.separateAll_subset r.chain)

end Request

end AssociationQuery
