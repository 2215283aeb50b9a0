import AssociationQuery.Proofs.Renaming.Planning
import AssociationQuery.Proofs.Spelling.Drafts

/-!
# AssociationQuery.Proofs.Renaming.Walk

The walk through a chain with renamed handles.

Planning takes the same steps for a renamed chain: it fails with the same error, or it ends in
the renamed draft, `Draft.planNodes_renamed`.  The plans of further statements that wait in a
draft come from walks of their own, so that the children of a node come first in the induction.
-/

namespace AssociationQuery

variable {ρ : Nat → Nat}

namespace Draft

/-! ## subqueries -/

mutual

/-- The subquery of a renamed node is planned as the renamed subquery, or fails with the same error.
-/
theorem existence_renamed : (n : ChainNode) → (outer : Slot) → (d : Draft) →
    (d.renamed ρ).existence outer (n.renamed ρ) =
      Prod.map (SubQuery.renamed ρ) (renamed ρ) <$> d.existence outer n
  | ⟨association, key, inclusion, requirement, filters, order, aliases, children⟩, outer, d => by
    rw [existence_eq, existence_eq]
    simp only [ChainNode.renamed, ChainNode.renamedAll_eq_map]
    refine bind_of_eq_map (plainRoute_renamed .required association) fun route => ?_
    rw [enter_renamed, next_renamed, insideLast_renamed, Association.destination_renamed]
    refine bind_of_eq_map (existences_renamed children _ _ _) fun p => ?_
    simp only [Prod.map, subQuery_renamed, register_renamed]
    rfl

theorem existences_renamed : (nodes : List ChainNode) → (outer : Slot) → (table : Table) →
    (d : Draft) →
    (d.renamed ρ).existences outer table (nodes.map (ChainNode.renamed ρ)) =
      Prod.map (List.map (Condition.renamed ρ)) (renamed ρ) <$> d.existences outer table nodes
  | [], _, _, _ => rfl
  | n :: rest, outer, table, d => by
    rw [List.map_cons, existences, existences, ChainNode.requirement_renamed]
    split
    · refine bind_of_eq (n.check_renamed table) fun _ => ?_
      refine bind_of_eq_map (existence_renamed n outer d) fun p => ?_
      refine bind_of_eq_map (existences_renamed rest outer table p.2) fun q => ?_
      rfl
    · exact existences_renamed rest outer table d

end

/-! ## statements of their own -/

/-- The orderings of a renamed node are the renamed ones. -/
theorem order_renamed (n : ChainNode) (route : Route) :
    (route.renamed ρ).order ++ (n.renamed ρ).order =
      (route.order ++ n.order).map (OrderTerm.renamed ρ) := by
  rw [n.order_renamed, List.map_append]
  rfl

theorem start_renamed (numbering : AliasNumbering) (table : Table) (width : Nat) :
    (start numbering table width).renamed ρ = start numbering table width := rfl

/-- The columns of parent keys have nothing to do with handles. -/
theorem parentKeyColumns_renamed (association : String) (parent : Table) (offset : Nat)
    (first : Hop) :
    parentKeyColumns association parent offset (first.renamed ρ) =
      parentKeyColumns association parent offset first := by
  rw [parentKeyColumns, Hop.mapping_renamed, parentKeyColumns]

/-- The joins back along a renamed route are the renamed joins. -/
theorem keyJoins_renamed (route : Route) (d : Draft) :
    keyJoins (route.renamed ρ) (d.renamed ρ) = (keyJoins route d).map (Join.renamed ρ) := by
  rw [keyJoins, route.backwards_renamed, next_renamed]
  exact backJoins_renamed ..

theorem keySlot_renamed (route : Route) (d : Draft) :
    (d.renamed ρ).keySlot (route.renamed ρ) = d.keySlot route := by
  rw [keySlot, keyJoins_renamed, Join.lastSlot_renamed, keySlot]

/-- The draft of a plan's statement may be made before or after renaming. -/
theorem prefetched_renamed (n : ChainNode) (route : Route) (d : Draft) :
    (d.renamed ρ).prefetched (n.renamed ρ) (route.renamed ρ) =
      (d.prefetched n route).renamed ρ := by
  rw [prefetched, keyJoins_renamed, withJoins_renamed, ChainNode.aliases_renamed,
    register_renamed, prefetched]

/-- Pairing columns have no handles. -/
theorem pairingColumns_renamed (name : String) (slot : Slot) (columns : List String) :
    (pairingColumns name slot columns).map (SelectItem.renamed ρ) =
      pairingColumns name slot columns := by
  rw [pairingColumns, List.mapIdx_eq_zipIdx_map, List.map_map]
  rfl

/-- The statement of a renamed plan is the renamed statement. -/
theorem prefetchStatement_renamed (config : Config) (n : ChainNode) (route : Route)
    (keySlot : Slot) (aliases : AliasMap) (d : Draft) :
    (d.renamed ρ).prefetchStatement config (n.renamed ρ) (route.renamed ρ) keySlot
        (aliases.renamed ρ) =
      (d.prefetchStatement config n route keySlot aliases).renamed ρ := by
  have hlast : (route.renamed ρ).backwards.1 = route.backwards.1.renamed ρ := by
    rw [route.backwards_renamed, Prod.map_fst]
  -- the columns of a plan hold no handles
  have hselect (columns : List String) :
      (SelectItem.star root :: d.stars.map .star ++
          pairingColumns config.pairingName keySlot columns).map (SelectItem.renamed ρ) =
        .star root :: d.stars.map .star ++ pairingColumns config.pairingName keySlot columns := by
    rw [List.map_append, pairingColumns_renamed, List.map_cons, List.map_map]
    rfl
  have hterms : (route.backwards.1.renamed ρ).filters ++ (n.renamed ρ).filters =
      (route.backwards.1.filters ++ n.filters).map (Expr.renamed ρ) := by
    rw [n.filters_renamed, List.map_append]
    rfl
  have hfilters (es : List Expr) :
      conditionsOn root (es.map (Expr.renamed ρ)) ++ (d.renamed ρ).filters =
        (conditionsOn root es ++ d.filters).map (Condition.renamed ρ) := by
    rw [conditionsOn_renamed, List.map_append]
    rfl
  simp only [prefetchStatement, Statement.renamed, Route.first_renamed, Hop.mapping_renamed,
    Hop.destination_renamed, hlast, hselect, hterms, hfilters, order_renamed, renamedOn_append,
    renamedOn_map]
  rfl

/-- A node with a statement of its own is planned in three steps: its name, its condition, its plan.
-/
theorem planSeparate_eq (config : Config) (anchor : Anchor) (n : ChainNode) (d : Draft) :
    d.planSeparate config anchor n
        (planNodes config (.base n.association.destination) n.children) =
      if anchor.joining then .error (.toManyBelowJoin n.association.name)
      else do
        d.claimScope anchor.scope n.key
        if n.requirement = .required then do
          let (q, d) ← d.existence anchor.slot n
          return (d.addCondition anchor.slot (.existence q)).leave config anchor n
        else return d.leave config anchor n := by
  rw [planSeparate]
  split <;> rfl

section plans

variable {config : Config} {n : ChainNode}
  (hchildren : ∀ d : Draft,
    planNodes config (.base (n.renamed ρ).association.destination) (n.renamed ρ).children
        (d.renamed ρ) =
      renamed ρ <$> planNodes config (.base n.association.destination) n.children d)

include hchildren

/-- The draft of a renamed node's statement is the renamed draft. -/
theorem prefetchDraft_renamed (route : Route) :
    prefetchDraft config (n.renamed ρ) (route.renamed ρ)
        (planNodes config (.base (n.renamed ρ).association.destination) (n.renamed ρ).children) =
      Prod.map id (renamed ρ) <$> prefetchDraft config n route
        (planNodes config (.base n.association.destination) n.children) := by
  have hlast : (route.renamed ρ).backwards.1.destination = route.backwards.1.destination := by
    rw [route.backwards_renamed]
    exact Hop.destination_renamed _
  rw [prefetchDraft_eq, prefetchDraft_eq, hlast, ← start_renamed (ρ := ρ)]
  refine bind_of_eq_map (hchildren _) fun d => ?_
  rw [keySlot_renamed, prefetched_renamed]
  rfl

variable (hρ : ρ.Injective)

include hρ

/-- The plan for a renamed node is the renamed plan, if planning its children respects the
renaming. -/
theorem prefetchPlan_renamed (parentScope offset : Nat) (parent : Table) :
    prefetchPlan config (n.renamed ρ) parentScope offset parent
        (planNodes config (.base (n.renamed ρ).association.destination) (n.renamed ρ).children) =
      PrefetchPlan.renamed ρ <$> prefetchPlan config n parentScope offset parent
        (planNodes config (.base n.association.destination) n.children) := by
  have hroute : (n.renamed ρ).association.routeFor (n.renamed ρ).requirement =
      Route.renamed ρ <$> n.association.routeFor n.requirement := by
    rw [n.association_renamed, n.requirement_renamed, Association.routeFor_renamed]
  -- step by step: each gives the renamed result of the step before renaming
  unfold prefetchPlan
  refine bind_of_eq_map hroute fun route => ?_
  refine bind_of_eq ?_ fun columns => ?_
  · rw [n.association_renamed, Association.name_renamed]
    exact parentKeyColumns_renamed ..
  refine bind_of_eq_map (prefetchDraft_renamed hchildren route) fun p => ?_
  refine bind_of_eq_map (AliasRequests.allocate_renamed hρ p.2.aliases) fun aliases => ?_
  rw [id, prefetchStatement_renamed]
  dsimp only
  rw [Statement.render_renamed hρ]
  refine bind_of_eq rfl fun _ => ?_
  refine bind_of_eq_map (mapM_id_map (PrefetchPlan.renamed ρ) p.2.pending) fun children => ?_
  rw [n.key_renamed, Route.first_renamed, Hop.mapping_renamed, ← PrefetchPlan.renamedAll_eq_map]
  rfl

/-- A plan may be left behind before or after renaming. -/
theorem leave_renamed (anchor : Anchor) (d : Draft) :
    (d.renamed ρ).leave config anchor (n.renamed ρ) = (d.leave config anchor n).renamed ρ := by
  have hplan := prefetchPlan_renamed hchildren hρ anchor.scope
    (d.layout.scope anchor.scope).range.start anchor.table
  simp only [leave, Draft.renamed, n.key_renamed, List.map_append, List.map_singleton, ← hplan]

/-- A node with a statement of its own may be planned before or after renaming. -/
theorem planSeparate_renamed (anchor : Anchor) (d : Draft) :
    (d.renamed ρ).planSeparate config anchor (n.renamed ρ)
        (planNodes config (.base (n.renamed ρ).association.destination) (n.renamed ρ).children) =
      renamed ρ <$> d.planSeparate config anchor n
        (planNodes config (.base n.association.destination) n.children) := by
  rw [planSeparate_eq, planSeparate_eq, n.association_renamed, Association.name_renamed,
    n.requirement_renamed, n.key_renamed]
  split
  · rfl
  · refine bind_of_eq rfl fun _ => ?_
    split
    · refine bind_of_eq_map (existence_renamed n anchor.slot d) ?_
      rintro ⟨q, d₁⟩
      show pure _ = pure (Draft.renamed ρ _)
      rw [← leave_renamed hchildren hρ, ← addCondition_renamed]
      rfl
    · rw [leave_renamed hchildren hρ]
      rfl

end plans

/-! ## joined nodes -/

/-- A renamed node is joined by the renamed joins. -/
theorem nodeJoins_renamed (anchor : Anchor) (n : ChainNode) (route : Route) (next : Nat) :
    nodeJoins anchor (n.renamed ρ) (route.renamed ρ) next =
      (nodeJoins anchor n route next).map (Join.renamed ρ) := by
  rw [nodeJoins, n.filters_renamed]
  exact hopJoins_renamed ..

theorem nodeSlot_renamed (anchor : Anchor) (n : ChainNode) (route : Route) (next : Nat) :
    nodeSlot anchor (n.renamed ρ) (route.renamed ρ) next = nodeSlot anchor n route next := by
  rw [nodeSlot, nodeJoins_renamed, Join.lastSlot_renamed, nodeSlot]

/-- Whether unmatched rows are kept has nothing to do with handles. -/
theorem keepsUnmatched_renamed (anchor : Anchor) (route : Route) :
    keepsUnmatched anchor (route.renamed ρ) = keepsUnmatched anchor route := by
  rw [keepsUnmatched, Route.hops_renamed, List.any_map, keepsUnmatched]
  rfl

/-- Nodes below hang from the same table after renaming. -/
theorem below_renamed (anchor : Anchor) (n : ChainNode) (route : Route) (d : Draft) :
    below anchor (n.renamed ρ) (route.renamed ρ) (d.renamed ρ) = below anchor n route d := by
  simp only [below, next_renamed, nodeSlot_renamed, keepsUnmatched_renamed,
    ChainNode.association_renamed, ChainNode.inclusion_renamed, Association.destination_renamed]
  rfl

/-- A node may be joined before or after renaming. -/
theorem join_renamed (anchor : Anchor) (n : ChainNode) (route : Route) (d : Draft) :
    (d.renamed ρ).join anchor (n.renamed ρ) (route.renamed ρ) =
      (d.join anchor n route).renamed ρ := by
  simp only [join, next_renamed, nodeSlot_renamed, nodeJoins_renamed, withJoins_renamed,
    order_renamed, addOrder_renamed, n.inclusion_renamed, n.key_renamed, n.association_renamed,
    Association.destination_renamed, keepsUnmatched_renamed]
  cases n.inclusion <;> rfl

/-- A joined node may be planned before or after renaming. -/
theorem planJoined_renamed (anchor : Anchor) (n : ChainNode) (d : Draft) :
    (d.renamed ρ).planJoined anchor (n.renamed ρ) =
      Prod.map id (renamed ρ) <$> d.planJoined anchor n := by
  rw [planJoined_eq, planJoined_eq, n.association_renamed, n.requirement_renamed,
    n.inclusion_renamed, n.key_renamed]
  refine bind_of_eq_map (plainRoute_renamed ..) fun route => ?_
  rw [below_renamed, join_renamed]
  split
  · exact bind_of_eq rfl fun _ => rfl
  · rfl

/-! ## nodes -/

/-- Renamed nodes are added to a renamed draft as the nodes are to the draft. -/
theorem planNodes_renamed (hρ : ρ.Injective) (config : Config) (nodes : List ChainNode) :
    ∀ (anchor : Anchor) (d : Draft),
      planNodes config anchor (nodes.map (ChainNode.renamed ρ)) (d.renamed ρ) =
        renamed ρ <$> planNodes config anchor nodes d := by
  -- over the forest, from any draft: a separate node starts a draft of its own for its children
  induction nodes using ChainNode.forest_induction with
  | nil => exact fun _ _ => rfl
  | cons n rest ihChildren ihRest =>
    intro anchor d
    rw [List.map_cons, planNodes, planNodes]
    refine bind_of_eq_map ?_ fun d₁ => ihRest anchor d₁
    have hchildren (anchor : Anchor) (d : Draft) :
        planNodes config anchor (n.renamed ρ).children (d.renamed ρ) =
          renamed ρ <$> planNodes config anchor n.children d := by
      rw [n.children_renamed]
      exact ihChildren anchor d
    have hkind : ((n.renamed ρ).inclusion = .including ∧ (n.renamed ρ).association.isToMany) =
        (n.inclusion = .including ∧ n.association.isToMany) := by
      rw [n.inclusion_renamed, n.association_renamed, Association.isToMany_renamed]
    rw [planNode_eq, planNode_eq]
    refine bind_of_eq (n.check_renamed anchor.table) fun _ => ?_
    simp only [hkind]
    split
    · refine planSeparate_renamed (fun d => ?_) hρ anchor d
      rw [n.association_renamed, Association.destination_renamed, hchildren]
    · refine bind_of_eq_map (planJoined_renamed anchor n d) fun p => ?_
      refine bind_of_eq_map (hchildren p.1 p.2) fun d₁ => ?_
      rw [n.aliases_renamed, register_renamed]
      rfl

end Draft

end AssociationQuery
