import AssociationQuery.Proofs.Building.Merging
import AssociationQuery.Proofs.Renaming.Handles

/-!
# AssociationQuery.Proofs.Renaming.Building

Requests built with renamed handles.

Building looks at identities in two places: whether a handle is on a node already, and whether two
siblings ask for one association.  Both only ask whether identities are equal, so that a renaming
that keeps them apart changes neither, and a script with renamed handles makes the renamed
request, `RequestScript.build_renamed`.
-/

namespace AssociationQuery

variable {ρ : Nat → Nat}

/-! ## parts of associations -/

namespace Association

/-- New conditions and orderings are renamed for themselves. -/
theorem renamed_withTerms (fs : List Expr) (os : List OrderTerm) (a : Association) :
    (a.withTerms fs os).renamed ρ =
      (a.renamed ρ).withTerms (fs.map (Expr.renamed ρ)) (os.map (OrderTerm.renamed ρ)) := by
  cases a <;> simp [withTerms, renamed]

@[simp] theorem name_renamed (a : Association) : (a.renamed ρ).name = a.name := by
  cases a <;> rfl

@[simp] theorem filters_renamed (a : Association) :
    (a.renamed ρ).filters = a.filters.map (Expr.renamed ρ) := by
  cases a <;> simp [filters, renamed]

@[simp] theorem order_renamed (a : Association) :
    (a.renamed ρ).order = a.order.map (OrderTerm.renamed ρ) := by
  cases a <;> simp [order, renamed]

@[simp] theorem optionality_renamed (a : Association) :
    (a.renamed ρ).optionality = a.optionality := by
  cases a <;> rfl

@[simp] theorem mapping_renamed (a : Association) : (a.renamed ρ).mapping = a.mapping := by
  cases a <;> rfl

@[simp] theorem origin_renamed : (a : Association) → (a.renamed ρ).origin = a.origin
  | direct .. => rfl
  | through _ pivot .. => origin_renamed pivot

@[simp] theorem destination_renamed : (a : Association) → (a.renamed ρ).destination = a.destination
  | direct .. => rfl
  | through _ _ target .. => destination_renamed target

@[simp] theorem cardinality_renamed : (a : Association) → (a.renamed ρ).cardinality = a.cardinality
  | direct kind .. => by cases kind <;> rfl
  | through _ pivot target .. => by
    rw [renamed, cardinality, cardinality, cardinality_renamed pivot, cardinality_renamed target]

@[simp] theorem isToMany_renamed (a : Association) : (a.renamed ρ).isToMany = a.isToMany := by
  rw [isToMany, isToMany, cardinality_renamed]

end Association

/-! ## undoing a renaming -/

section undo

variable {σ : Nat → Nat}

/-- A renaming that is undone leaves a handle as it was. -/
theorem TableAlias.renamed_leftInverse (h : Function.LeftInverse σ ρ) (a : TableAlias) :
    (a.renamed ρ).renamed σ = a := by
  simp [TableAlias.renamed, h a.id]

theorem TableRef.renamed_leftInverse (h : Function.LeftInverse σ ρ) (t : TableRef) :
    (t.renamed ρ).renamed σ = t := by
  cases t with
  | handle a => exact congrArg handle (a.renamed_leftInverse h)
  | current | named => rfl

mutual

/-- Handles that get their old identities back make the old expression. -/
theorem Expr.renamed_leftInverse : (e : Expr) → Function.LeftInverse σ ρ →
    (e.renamed ρ).renamed σ = e
  | .column t _, h => by rw [Expr.renamed, Expr.renamed, t.renamed_leftInverse h]
  | .binary _ a b, h => by
    rw [Expr.renamed, Expr.renamed, Expr.renamed_leftInverse a h, Expr.renamed_leftInverse b h]
  | .unary _ a, h | .isNull a _, h | .like a _ _, h | .paren a, h => by
    rw [Expr.renamed, Expr.renamed, Expr.renamed_leftInverse a h]
  | .call _ args, h => by rw [Expr.renamed, Expr.renamed, Expr.renamedAll_leftInverse args h]
  | .inList a vs _, h => by
    rw [Expr.renamed, Expr.renamed, Expr.renamed_leftInverse a h, Expr.renamedAll_leftInverse vs h]
  | .aggregate _ a _, h => by rw [Expr.renamed, Expr.renamed, Association.renamed_leftInverse a h]
  | .literal _, _ | .raw _, _ | .countStar, _ => rfl

theorem Expr.renamedAll_leftInverse : (es : List Expr) → Function.LeftInverse σ ρ →
    Expr.renamedAll σ (Expr.renamedAll ρ es) = es
  | [], _ => rfl
  | e :: es, h => by
    rw [Expr.renamedAll, Expr.renamedAll, Expr.renamed_leftInverse e h,
      Expr.renamedAll_leftInverse es h]

theorem OrderTerm.renamed_leftInverse : (o : OrderTerm) → Function.LeftInverse σ ρ →
    (o.renamed ρ).renamed σ = o
  | .mk e _ _, h => by rw [OrderTerm.renamed, OrderTerm.renamed, Expr.renamed_leftInverse e h]

theorem OrderTerm.renamedAll_leftInverse : (os : List OrderTerm) → Function.LeftInverse σ ρ →
    OrderTerm.renamedAll σ (OrderTerm.renamedAll ρ os) = os
  | [], _ => rfl
  | o :: os, h => by
    rw [OrderTerm.renamedAll, OrderTerm.renamedAll, OrderTerm.renamed_leftInverse o h,
      OrderTerm.renamedAll_leftInverse os h]

theorem Association.renamed_leftInverse : (a : Association) → Function.LeftInverse σ ρ →
    (a.renamed ρ).renamed σ = a
  | .direct _ _ _ _ _ filters order _, h => by
    rw [Association.renamed, Association.renamed, Expr.renamedAll_leftInverse filters h,
      OrderTerm.renamedAll_leftInverse order h]
  | .through _ pivot target filters order _, h => by
    rw [Association.renamed, Association.renamed, Association.renamed_leftInverse pivot h,
      Association.renamed_leftInverse target h, Expr.renamedAll_leftInverse filters h,
      OrderTerm.renamedAll_leftInverse order h]

end

end undo

/-- Associations that are told apart are told apart under other identities. -/
theorem Association.identical_renamed (hρ : ρ.Injective) (a b : Association) :
    (a.renamed ρ).identical (b.renamed ρ) = a.identical b := by
  obtain ⟨σ, hσ⟩ := hρ.hasLeftInverse
  have hinjective : Function.Injective (Association.renamed ρ) :=
    Function.LeftInverse.injective fun a => a.renamed_leftInverse hσ
  rw [Bool.eq_iff_iff, identical_iff, identical_iff, hinjective.eq_iff]

/-! ## equality -/

/-- Handles are the same after renaming if they were before. -/
theorem TableAlias.same_renamed (hρ : ρ.Injective) (a b : TableAlias) :
    (a.renamed ρ).same (b.renamed ρ) = a.same b := by
  show (ρ a.id == ρ b.id) = (a.id == b.id)
  rw [Bool.eq_iff_iff, beq_iff_eq, beq_iff_eq, hρ.eq_iff]

/-- References are equal after renaming if they were before. -/
theorem TableRef.equal_renamed (hρ : ρ.Injective) (t u : TableRef) :
    (t.renamed ρ).equal (u.renamed ρ) = t.equal u := by
  cases t with
  | handle a =>
    cases u with
    | handle b => exact a.same_renamed hρ b
    | current | named => rfl
  | current | named => cases u <;> rfl

mutual

/-- Expressions are equal after renaming if they were before. -/
theorem Expr.equal_renamed (hρ : ρ.Injective) : (a b : Expr) →
    (a.renamed ρ).equal (b.renamed ρ) = a.equal b
  -- by both expressions: renaming keeps every constructor and changes handles only
  | .column t _, b => by
    cases b with
    | column u _ => simp only [Expr.renamed, Expr.equal, t.equal_renamed hρ u]
    | _ => simp only [Expr.renamed, Expr.equal]
  | .binary _ l r, b => by
    cases b with
    | binary _ l' r' =>
      simp only [Expr.renamed, Expr.equal, Expr.equal_renamed hρ l l', Expr.equal_renamed hρ r r']
    | _ => simp only [Expr.renamed, Expr.equal]
  | .unary _ e, b => by
    cases b with
    | unary _ e' => simp only [Expr.renamed, Expr.equal, Expr.equal_renamed hρ e e']
    | _ => simp only [Expr.renamed, Expr.equal]
  | .call _ es, b => by
    cases b with
    | call _ es' => simp only [Expr.renamed, Expr.equal, Expr.equalAll_renamed hρ es es']
    | _ => simp only [Expr.renamed, Expr.equal]
  | .inList e es _, b => by
    cases b with
    | inList e' es' _ =>
      simp only [Expr.renamed, Expr.equal, Expr.equal_renamed hρ e e',
        Expr.equalAll_renamed hρ es es']
    | _ => simp only [Expr.renamed, Expr.equal]
  | .isNull e _, b => by
    cases b with
    | isNull e' _ => simp only [Expr.renamed, Expr.equal, Expr.equal_renamed hρ e e']
    | _ => simp only [Expr.renamed, Expr.equal]
  | .like e _ _, b => by
    cases b with
    | like e' _ _ => simp only [Expr.renamed, Expr.equal, Expr.equal_renamed hρ e e']
    | _ => simp only [Expr.renamed, Expr.equal]
  | .paren e, b => by
    cases b with
    | paren e' => simp only [Expr.renamed, Expr.equal, Expr.equal_renamed hρ e e']
    | _ => simp only [Expr.renamed, Expr.equal]
  | .aggregate _ a _, b => by
    cases b with
    | aggregate _ a' _ => simp only [Expr.renamed, Expr.equal, Association.equal_renamed hρ a a']
    | _ => simp only [Expr.renamed, Expr.equal]
  | .literal _, b | .raw _, b | .countStar, b => by
    cases b <;> simp only [Expr.renamed, Expr.equal]

theorem Expr.equalAll_renamed (hρ : ρ.Injective) : (as bs : List Expr) →
    Expr.equalAll (Expr.renamedAll ρ as) (Expr.renamedAll ρ bs) = Expr.equalAll as bs
  | [], bs => by cases bs <;> simp only [Expr.renamedAll, Expr.equalAll]
  | a :: as, bs => by
    cases bs with
    | nil => simp only [Expr.renamedAll, Expr.equalAll]
    | cons b bs =>
      rw [Expr.renamedAll, Expr.renamedAll, Expr.equalAll, Expr.equalAll, Expr.equal_renamed hρ a b,
        Expr.equalAll_renamed hρ as bs]

theorem OrderTerm.equal_renamed (hρ : ρ.Injective) : (o p : OrderTerm) →
    (o.renamed ρ).equal (p.renamed ρ) = o.equal p
  | .mk e _ _, .mk e' _ _ => by
    rw [OrderTerm.renamed, OrderTerm.renamed, OrderTerm.equal, OrderTerm.equal,
      Expr.equal_renamed hρ e e']

theorem OrderTerm.equalAll_renamed (hρ : ρ.Injective) : (os ps : List OrderTerm) →
    OrderTerm.equalAll (OrderTerm.renamedAll ρ os) (OrderTerm.renamedAll ρ ps) =
      OrderTerm.equalAll os ps
  | [], ps => by cases ps <;> simp only [OrderTerm.renamedAll, OrderTerm.equalAll]
  | o :: os, ps => by
    cases ps with
    | nil => simp only [OrderTerm.renamedAll, OrderTerm.equalAll]
    | cons p ps =>
      rw [OrderTerm.renamedAll, OrderTerm.renamedAll, OrderTerm.equalAll, OrderTerm.equalAll,
        OrderTerm.equal_renamed hρ o p, OrderTerm.equalAll_renamed hρ os ps]

/-- Associations are equal under other identities if they are. -/
theorem Association.equal_renamed (hρ : ρ.Injective) : (a b : Association) →
    (a.renamed ρ).equal (b.renamed ρ) = a.equal b
  | .direct k n o d m fs os p, b => by
    have hsame := Association.identical_renamed hρ (.direct k n o d m fs os p) b
    cases b with
    | direct _ _ _ _ _ fs' os' _ =>
      rw [Association.renamed, Association.renamed] at hsame ⊢
      rw [Association.equal, Association.equal, hsame, Expr.equalAll_renamed hρ fs fs',
        OrderTerm.equalAll_renamed hρ os os']
    | through => simp only [Association.renamed, Association.equal]
  | .through n v t fs os p, b => by
    have hsame := Association.identical_renamed hρ (.through n v t fs os p) b
    cases b with
    | direct => simp only [Association.renamed, Association.equal]
    | through _ v' t' fs' os' _ =>
      rw [Association.renamed, Association.renamed] at hsame ⊢
      rw [Association.equal, Association.equal, hsame, Association.equal_renamed hρ v v',
        Association.equal_renamed hρ t t', Expr.equalAll_renamed hρ fs fs',
        OrderTerm.equalAll_renamed hρ os os']

end

/-! ## calls on associations -/

/-- A call on an association may be made before or after renaming. -/
theorem AssociationCall.run_renamed (c : AssociationCall) (a : Association) :
    (c.renamed ρ).run (a.renamed ρ) = (c.run a).renamed ρ := by
  cases c with
  | filter e => simp [renamed, run, Association.filter, Association.renamed_withTerms]
  | orderBy o => simp [renamed, run, Association.orderBy, Association.renamed_withTerms]
  | named name => cases a <;> rfl
  | settle r => cases a <;> rfl

/-- So may several. -/
theorem AssociationCall.runs_renamed (cs : List AssociationCall) (a : Association) :
    (cs.map (renamed ρ)).foldl run (a.renamed ρ) = (cs.foldl run a).renamed ρ := by
  induction cs generalizing a with
  | nil => rfl
  | cons c cs ih => rw [List.map_cons, List.foldl_cons, List.foldl_cons, run_renamed, ih]

/-! ## nodes -/

/-- A node is renamed part by part. -/
theorem ChainNode.renamed_eq (n : ChainNode) :
    n.renamed ρ = { n with
      association := n.association.renamed ρ
      filters := n.filters.map (Expr.renamed ρ)
      order := n.order.map (OrderTerm.renamed ρ)
      aliases := n.aliases.map (TableAlias.renamed ρ)
      children := n.children.map (ChainNode.renamed ρ) } := by
  cases n
  rw [renamed, renamedAll_eq_map]

namespace ChainNode

variable (n : ChainNode)

@[simp] theorem association_renamed :
    (n.renamed ρ).association = n.association.renamed ρ := by rw [renamed_eq]

@[simp] theorem key_renamed : (n.renamed ρ).key = n.key := by rw [renamed_eq]

@[simp] theorem inclusion_renamed : (n.renamed ρ).inclusion = n.inclusion := by rw [renamed_eq]

@[simp] theorem requirement_renamed : (n.renamed ρ).requirement = n.requirement := by
  rw [renamed_eq]

@[simp] theorem filters_renamed :
    (n.renamed ρ).filters = n.filters.map (Expr.renamed ρ) := by rw [renamed_eq]

@[simp] theorem order_renamed :
    (n.renamed ρ).order = n.order.map (OrderTerm.renamed ρ) := by rw [renamed_eq]

@[simp] theorem aliases_renamed :
    (n.renamed ρ).aliases = n.aliases.map (TableAlias.renamed ρ) := by rw [renamed_eq]

@[simp] theorem children_renamed :
    (n.renamed ρ).children = n.children.map (ChainNode.renamed ρ) := by rw [renamed_eq]

end ChainNode

/-- The node of a renamed association is the renamed one. -/
theorem ChainNode.ofAssociation_renamed (a : Association) :
    ofAssociation (a.renamed ρ) = (ofAssociation a).renamed ρ := by
  simp [renamed_eq, ofAssociation, Association.bare, Association.renamed_withTerms]

section merging

variable (hρ : ρ.Injective)

include hρ

/-- Whether a handle is there already does not depend on its identity. -/
theorem addHandle_renamed (handles : List TableAlias) (a : TableAlias) :
    addHandle (handles.map (TableAlias.renamed ρ)) (a.renamed ρ) =
      (addHandle handles a).map (TableAlias.renamed ρ) := by
  have hany : (handles.map (TableAlias.renamed ρ)).any (a.renamed ρ).same =
      handles.any a.same := by
    rw [List.any_map]
    exact congrArg handles.any (funext fun b => a.same_renamed hρ b)
  rw [addHandle, addHandle, hany]
  split
  · rfl
  · rw [List.map_append, List.map_singleton]

/-- Handles may be added before or after renaming. -/
theorem foldl_addHandle_renamed (as handles : List TableAlias) :
    (as.map (TableAlias.renamed ρ)).foldl addHandle (handles.map (TableAlias.renamed ρ)) =
      (as.foldl addHandle handles).map (TableAlias.renamed ρ) := by
  induction as generalizing handles with
  | nil => rfl
  | cons a as ih =>
    rw [List.map_cons, List.foldl_cons, List.foldl_cons, addHandle_renamed hρ, ih]

namespace ChainNode

/-- Nodes are alike after renaming if they were before. -/
theorem alike_renamed (a b : ChainNode) : (a.renamed ρ).alike (b.renamed ρ) = a.alike b := by
  simp only [alike, renamed_eq, Association.equal_renamed hρ]

/-- Attaching a renamed node to renamed siblings, if merging respects the renaming. -/
theorem attach_renamed_of_merge {c : ChainNode}
    (hmerge : ∀ s : ChainNode, (s.renamed ρ).merge (c.renamed ρ) = (s.merge c).renamed ρ)
    (siblings : List ChainNode) :
    attach (siblings.map (renamed ρ)) (c.renamed ρ) = (attach siblings c).map (renamed ρ) := by
  induction siblings with
  | nil => rfl
  | cons s siblings ih =>
    rw [List.map_cons, attach_cons, attach_cons, alike_renamed hρ, ih, hmerge]
    split <;> rfl

/-- Nodes may be merged before or after renaming if their children may be attached. -/
theorem merge_renamed_of_attachAll {b : ChainNode}
    (hchildren : ∀ siblings, attachAll (siblings.map (renamed ρ)) (b.children.map (renamed ρ)) =
      (attachAll siblings b.children).map (renamed ρ)) (a : ChainNode) :
    (a.renamed ρ).merge (b.renamed ρ) = (a.merge b).renamed ρ := by
  simp only [merge_eq, renamed_eq, List.map_append, foldl_addHandle_renamed hρ, hchildren]

/-- Nodes may be attached before or after renaming. -/
theorem attachAll_renamed (cs : List ChainNode) : ∀ siblings,
    attachAll (siblings.map (renamed ρ)) (cs.map (renamed ρ)) =
      (attachAll siblings cs).map (renamed ρ) := by
  induction cs using forest_induction with
  | nil => exact fun _ => rfl
  | cons c cs ihChildren ihRest =>
    intro siblings
    rw [List.map_cons, attachAll_cons, attachAll_cons,
      attach_renamed_of_merge hρ (merge_renamed_of_attachAll hρ ihChildren), ihRest]

theorem attach_renamed (siblings : List ChainNode) (c : ChainNode) :
    attach (siblings.map (renamed ρ)) (c.renamed ρ) = (attach siblings c).map (renamed ρ) :=
  attach_renamed_of_merge hρ (merge_renamed_of_attachAll hρ (attachAll_renamed hρ c.children))
    siblings

/-- So may a child with its wishes. -/
theorem attached_renamed (n : ChainNode) (inclusion : Inclusion) (requirement : Requirement)
    (child : ChainNode) :
    (n.renamed ρ).attached inclusion requirement (child.renamed ρ) =
      (n.attached inclusion requirement child).renamed ρ := by
  have hchild : { child.renamed ρ with inclusion, requirement } =
      ChainNode.renamed ρ { child with inclusion, requirement } := by
    rw [renamed_eq, renamed_eq]
  rw [attached, attached, hchild, children_renamed, attach_renamed hρ, renamed_eq, renamed_eq]

end ChainNode

end merging

/-! ## scripts -/

mutual

/-- Building a renamed script gives the renamed node. -/
theorem NodeScript.build_renamed (hρ : ρ.Injective) : (s : NodeScript) →
    (s.renamed ρ).build = s.build.renamed ρ
  | ⟨base, refinements, calls⟩ => by
    rw [NodeScript.renamed, NodeScript.build, NodeScript.build, AssociationCall.runs_renamed,
      ChainNode.ofAssociation_renamed, NodeCall.runAll_renamed hρ calls]

theorem NodeCall.run_renamed (hρ : ρ.Injective) : (c : NodeCall) → (n : ChainNode) →
    NodeCall.run (n.renamed ρ) (c.renamed ρ) = (NodeCall.run n c).renamed ρ
  | .filter e, n => by
    simp [NodeCall.renamed, NodeCall.run, ChainNode.filter, ChainNode.renamed_eq]
  | .orderBy o, n => by
    simp [NodeCall.renamed, NodeCall.run, ChainNode.orderBy, ChainNode.renamed_eq]
  | .aliased a, n => by
    simp [NodeCall.renamed, NodeCall.run, ChainNode.aliased, ChainNode.renamed_eq,
      addHandle_renamed hρ]
  | .named key, n => by
    simp [NodeCall.renamed, NodeCall.run, ChainNode.named, ChainNode.renamed_eq]
  | .attach inclusion requirement child, n => by
    rw [NodeCall.renamed, NodeCall.run, NodeCall.run, NodeScript.build_renamed hρ child,
      ChainNode.attached_renamed hρ]

theorem NodeCall.runAll_renamed (hρ : ρ.Injective) : (cs : List NodeCall) → (n : ChainNode) →
    NodeCall.runAll (n.renamed ρ) (NodeCall.renamedAll ρ cs) = (NodeCall.runAll n cs).renamed ρ
  | [], _ => rfl
  | c :: cs, n => by
    rw [NodeCall.renamedAll, NodeCall.runAll, NodeCall.runAll, NodeCall.run_renamed hρ c,
      NodeCall.runAll_renamed hρ cs]

end

/-- A call on a request may be made before or after renaming. -/
theorem RequestCall.run_renamed (hρ : ρ.Injective) (c : RequestCall) (r : Request) :
    (c.renamed ρ).run (r.renamed ρ) = (c.run r).renamed ρ := by
  cases c with
  | attach inclusion requirement child =>
    have hchild : { (child.renamed ρ).build with inclusion, requirement } =
        ChainNode.renamed ρ { child.build with inclusion, requirement } := by
      rw [NodeScript.build_renamed hρ, ChainNode.renamed_eq, ChainNode.renamed_eq]
    simp only [renamed, run, Request.attached, Request.renamed, hchild,
      ChainNode.attach_renamed hρ]
  | aliased a =>
    simp only [renamed, run, Request.aliased, Request.renamed, addHandle_renamed hρ]
  | filter | having | orderBy | annotated | limit | offset | distinct =>
    simp [renamed, run, Request.filter, Request.havingTerm, Request.orderBy, Request.annotated,
      Request.withLimit, Request.withOffset, Request.withDistinct, Request.renamed]

/-- So may several. -/
theorem RequestCall.runs_renamed (hρ : ρ.Injective) (cs : List RequestCall) (r : Request) :
    (cs.map (renamed ρ)).foldl run (r.renamed ρ) = (cs.foldl run r).renamed ρ := by
  induction cs generalizing r with
  | nil => rfl
  | cons c cs ih => rw [List.map_cons, List.foldl_cons, List.foldl_cons, run_renamed hρ, ih]

/-- A script with renamed handles makes the renamed request. -/
theorem RequestScript.build_renamed (hρ : ρ.Injective) (s : RequestScript) :
    (s.renamed ρ).build = s.build.renamed ρ :=
  RequestCall.runs_renamed hρ s.calls { table := s.table }

end AssociationQuery
