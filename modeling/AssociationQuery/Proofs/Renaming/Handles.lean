import AssociationQuery.Proofs.Building.Calls
import Mathlib.Algebra.Order.BigOperators.Group.List
import Mathlib.Algebra.Order.Group.Nat

/-!
# AssociationQuery.Proofs.Renaming.Handles

Other identities for the handles of a request.

A renaming gives every handle another identity and leaves its name alone.  It goes wherever a
handle can stand: into attachments and into expressions, also into those that associations and
the parts of through associations carry.  `mentions` lists the handles that stand there.

Only on these does a renaming matter, `renamed_congr`, so that one which keeps them apart is as
good as one that keeps all identities apart, `exists_injective`.
-/

namespace AssociationQuery

/-! ## renaming -/

/-- The handle with another identity. -/
def TableAlias.renamed (ρ : Nat → Nat) (a : TableAlias) : TableAlias := { a with id := ρ a.id }

def TableRef.renamed (ρ : Nat → Nat) : TableRef → TableRef
  | handle a => handle (a.renamed ρ)
  | t => t

mutual

/-- The expression with other identities for its handles. -/
def Expr.renamed (ρ : Nat → Nat) : Expr → Expr
  | .column t name => .column (t.renamed ρ) name
  | .binary op a b => .binary op (Expr.renamed ρ a) (Expr.renamed ρ b)
  | .unary op a => .unary op (Expr.renamed ρ a)
  | .call f args => .call f (Expr.renamedAll ρ args)
  | .inList a vs negated => .inList (Expr.renamed ρ a) (Expr.renamedAll ρ vs) negated
  | .isNull a negated => .isNull (Expr.renamed ρ a) negated
  | .like a pattern negated => .like (Expr.renamed ρ a) pattern negated
  | .paren a => .paren (Expr.renamed ρ a)
  | .aggregate f a c => .aggregate f (Association.renamed ρ a) c
  | .literal v => .literal v
  | .raw sql => .raw sql
  | .countStar => .countStar

def Expr.renamedAll (ρ : Nat → Nat) : List Expr → List Expr
  | [] => []
  | e :: es => Expr.renamed ρ e :: Expr.renamedAll ρ es

def OrderTerm.renamed (ρ : Nat → Nat) : OrderTerm → OrderTerm
  | .mk e direction nulls => .mk (Expr.renamed ρ e) direction nulls

def OrderTerm.renamedAll (ρ : Nat → Nat) : List OrderTerm → List OrderTerm
  | [] => []
  | o :: os => OrderTerm.renamed ρ o :: OrderTerm.renamedAll ρ os

/-- The association with other identities for the handles in its conditions and orderings. -/
def Association.renamed (ρ : Nat → Nat) : Association → Association
  | .direct kind name origin destination mapping filters order optionality =>
    .direct kind name origin destination mapping (Expr.renamedAll ρ filters)
      (OrderTerm.renamedAll ρ order) optionality
  | .through name pivot target filters order optionality =>
    .through name (Association.renamed ρ pivot) (Association.renamed ρ target)
      (Expr.renamedAll ρ filters) (OrderTerm.renamedAll ρ order) optionality

end

mutual

/-- The node and all below it with other identities for their handles. -/
def ChainNode.renamed (ρ : Nat → Nat) : ChainNode → ChainNode
  | ⟨association, key, inclusion, requirement, filters, order, aliases, children⟩ =>
    ⟨association.renamed ρ, key, inclusion, requirement, filters.map (Expr.renamed ρ),
      order.map (OrderTerm.renamed ρ), aliases.map (TableAlias.renamed ρ),
      ChainNode.renamedAll ρ children⟩

def ChainNode.renamedAll (ρ : Nat → Nat) : List ChainNode → List ChainNode
  | [] => []
  | n :: ns => ChainNode.renamed ρ n :: ChainNode.renamedAll ρ ns

end

/-- The request with other identities for its handles. -/
def Request.renamed (ρ : Nat → Nat) (r : Request) : Request where
  table := r.table
  aliases := r.aliases.map (TableAlias.renamed ρ)
  filters := r.filters.map (Expr.renamed ρ)
  having := r.having.map (Expr.renamed ρ)
  order := r.order.map (OrderTerm.renamed ρ)
  annotations := r.annotations.map fun p => (p.1.renamed ρ, p.2)
  chain := r.chain.map (ChainNode.renamed ρ)
  limit := r.limit
  offset := r.offset
  distinct := r.distinct

/-! ## renaming in scripts -/

def AssociationCall.renamed (ρ : Nat → Nat) : AssociationCall → AssociationCall
  | filter e => filter (e.renamed ρ)
  | orderBy o => orderBy (o.renamed ρ)
  | c => c

mutual

def NodeScript.renamed (ρ : Nat → Nat) : NodeScript → NodeScript
  | ⟨base, refinements, calls⟩ =>
    ⟨base.renamed ρ, refinements.map (AssociationCall.renamed ρ), NodeCall.renamedAll ρ calls⟩

def NodeCall.renamed (ρ : Nat → Nat) : NodeCall → NodeCall
  | .filter e => .filter (e.renamed ρ)
  | .orderBy o => .orderBy (o.renamed ρ)
  | .aliased a => .aliased (a.renamed ρ)
  | .named key => .named key
  | .attach inclusion requirement child =>
    .attach inclusion requirement (NodeScript.renamed ρ child)

def NodeCall.renamedAll (ρ : Nat → Nat) : List NodeCall → List NodeCall
  | [] => []
  | c :: cs => NodeCall.renamed ρ c :: NodeCall.renamedAll ρ cs

end

def RequestCall.renamed (ρ : Nat → Nat) : RequestCall → RequestCall
  | filter e => filter (e.renamed ρ)
  | having e => having (e.renamed ρ)
  | orderBy o => orderBy (o.renamed ρ)
  | annotated e name => annotated (e.renamed ρ) name
  | aliased a => aliased (a.renamed ρ)
  | attach inclusion requirement child => attach inclusion requirement (child.renamed ρ)
  | c => c

/-- The script with other identities for the handles in its calls. -/
def RequestScript.renamed (ρ : Nat → Nat) (s : RequestScript) : RequestScript where
  table := s.table
  calls := s.calls.map (RequestCall.renamed ρ)

/-! ## the handles that occur -/

def TableRef.mentions : TableRef → List TableAlias
  | handle a => [a]
  | _ => []

mutual

/-- Every handle in the expression, in the associations of its aggregates too. -/
def Expr.mentions : Expr → List TableAlias
  | .column t _ => t.mentions
  | .binary _ a b => Expr.mentions a ++ Expr.mentions b
  | .unary _ a | .isNull a _ | .like a _ _ | .paren a => Expr.mentions a
  | .call _ args => Expr.mentionsAll args
  | .inList a vs _ => Expr.mentions a ++ Expr.mentionsAll vs
  | .aggregate _ a _ => Association.mentions a
  | .literal _ | .raw _ | .countStar => []

def Expr.mentionsAll : List Expr → List TableAlias
  | [] => []
  | e :: es => Expr.mentions e ++ Expr.mentionsAll es

def OrderTerm.mentions : OrderTerm → List TableAlias
  | .mk e _ _ => Expr.mentions e

def OrderTerm.mentionsAll : List OrderTerm → List TableAlias
  | [] => []
  | o :: os => OrderTerm.mentions o ++ OrderTerm.mentionsAll os

/-- Every handle in the conditions and orderings of the association and of its parts. -/
def Association.mentions : Association → List TableAlias
  | .direct _ _ _ _ _ filters order _ => Expr.mentionsAll filters ++ OrderTerm.mentionsAll order
  | .through _ pivot target filters order _ =>
    Association.mentions pivot ++ Association.mentions target ++ Expr.mentionsAll filters
      ++ OrderTerm.mentionsAll order

end

mutual

/-- Every handle of the node and of all below it. -/
def ChainNode.mentions : ChainNode → List TableAlias
  | ⟨association, _, _, _, filters, order, aliases, children⟩ =>
    association.mentions ++ filters.flatMap Expr.mentions ++ order.flatMap OrderTerm.mentions
      ++ aliases ++ ChainNode.mentionsAll children

def ChainNode.mentionsAll : List ChainNode → List TableAlias
  | [] => []
  | n :: ns => ChainNode.mentions n ++ ChainNode.mentionsAll ns

end

/-- Every handle that occurs in the request. -/
def Request.mentions (r : Request) : List TableAlias :=
  r.aliases ++ r.filters.flatMap Expr.mentions ++ r.having.flatMap Expr.mentions
    ++ r.order.flatMap OrderTerm.mentions ++ r.annotations.flatMap (fun p => p.1.mentions)
    ++ r.chain.flatMap ChainNode.mentions

def AssociationCall.mentions : AssociationCall → List TableAlias
  | filter e => e.mentions
  | orderBy o => o.mentions
  | _ => []

mutual

def NodeScript.mentions : NodeScript → List TableAlias
  | ⟨base, refinements, calls⟩ =>
    base.mentions ++ refinements.flatMap AssociationCall.mentions ++ NodeCall.mentionsAll calls

def NodeCall.mentions : NodeCall → List TableAlias
  | .filter e => e.mentions
  | .orderBy o => o.mentions
  | .aliased a => [a]
  | .named _ => []
  | .attach _ _ child => NodeScript.mentions child

def NodeCall.mentionsAll : List NodeCall → List TableAlias
  | [] => []
  | c :: cs => NodeCall.mentions c ++ NodeCall.mentionsAll cs

end

def RequestCall.mentions : RequestCall → List TableAlias
  | filter e | having e | annotated e _ => e.mentions
  | orderBy o => o.mentions
  | aliased a => [a]
  | attach _ _ child => child.mentions
  | _ => []

/-- Every handle that occurs in the calls of the script. -/
def RequestScript.mentions (s : RequestScript) : List TableAlias :=
  s.calls.flatMap RequestCall.mentions

/-! ## lists -/

section lists

variable (ρ : Nat → Nat)

@[simp] theorem Expr.renamedAll_eq_map (es : List Expr) :
    Expr.renamedAll ρ es = es.map (Expr.renamed ρ) := by
  induction es with
  | nil => rfl
  | cons e es ih => rw [Expr.renamedAll, ih, List.map_cons]

@[simp] theorem OrderTerm.renamedAll_eq_map (os : List OrderTerm) :
    OrderTerm.renamedAll ρ os = os.map (OrderTerm.renamed ρ) := by
  induction os with
  | nil => rfl
  | cons o os ih => rw [OrderTerm.renamedAll, ih, List.map_cons]

@[simp] theorem ChainNode.renamedAll_eq_map (ns : List ChainNode) :
    ChainNode.renamedAll ρ ns = ns.map (ChainNode.renamed ρ) := by
  induction ns with
  | nil => rfl
  | cons n ns ih => rw [ChainNode.renamedAll, ih, List.map_cons]

end lists

/-! ## renamings that agree -/

section congr

variable {ρ σ : Nat → Nat}

/-- The two renamings give the handles the same identities. -/
def AgreeOn (ρ σ : Nat → Nat) (handles : List TableAlias) : Prop :=
  ∀ a ∈ handles, ρ a.id = σ a.id

/-- Renamings agree on two lists if they agree on each. -/
theorem agreeOn_append {as bs : List TableAlias} :
    AgreeOn ρ σ (as ++ bs) ↔ AgreeOn ρ σ as ∧ AgreeOn ρ σ bs := List.forall_mem_append

/-- Handles with the same new identity are the same. -/
theorem TableAlias.renamed_congr {a : TableAlias} (h : AgreeOn ρ σ [a]) :
    a.renamed ρ = a.renamed σ := by
  rw [TableAlias.renamed, TableAlias.renamed, h a (List.mem_singleton_self a)]

/-- A reference is renamed in the same way by renamings that agree on its handle. -/
theorem TableRef.renamed_congr (t : TableRef) (h : AgreeOn ρ σ t.mentions) :
    t.renamed ρ = t.renamed σ := by
  cases t with
  | handle a => exact congrArg TableRef.handle (a.renamed_congr h)
  | current | named => rfl

/-- Two ways to rename the elements of a list agree if they agree on each element. -/
theorem map_congr_of_agreeOn {f g : α → β} {mentions : α → List TableAlias} {xs : List α}
    (hf : ∀ x ∈ xs, AgreeOn ρ σ (mentions x) → f x = g x)
    (h : AgreeOn ρ σ (xs.flatMap mentions)) : xs.map f = xs.map g :=
  List.map_congr_left fun x hx =>
    hf x hx fun a ha => h a (List.mem_flatMap.2 ⟨x, hx, ha⟩)

mutual

/-- An expression is renamed in the same way by renamings that agree on its handles. -/
theorem Expr.renamed_congr : (e : Expr) → AgreeOn ρ σ e.mentions → e.renamed ρ = e.renamed σ
  | .column t _, h => by rw [Expr.renamed, Expr.renamed, t.renamed_congr h]
  | .binary _ a b, h => by
    obtain ⟨ha, hb⟩ := agreeOn_append.1 h
    rw [Expr.renamed, Expr.renamed, Expr.renamed_congr a ha, Expr.renamed_congr b hb]
  | .unary _ a, h | .isNull a _, h | .like a _ _, h | .paren a, h => by
    rw [Expr.renamed, Expr.renamed, Expr.renamed_congr a h]
  | .call _ args, h => by rw [Expr.renamed, Expr.renamed, Expr.renamedAll_congr args h]
  | .inList a vs _, h => by
    obtain ⟨ha, hvs⟩ := agreeOn_append.1 h
    rw [Expr.renamed, Expr.renamed, Expr.renamed_congr a ha, Expr.renamedAll_congr vs hvs]
  | .aggregate _ a _, h => by rw [Expr.renamed, Expr.renamed, Association.renamed_congr a h]
  | .literal _, _ | .raw _, _ | .countStar, _ => rfl

theorem Expr.renamedAll_congr : (es : List Expr) → AgreeOn ρ σ (Expr.mentionsAll es) →
    Expr.renamedAll ρ es = Expr.renamedAll σ es
  | [], _ => rfl
  | e :: es, h => by
    obtain ⟨he, hes⟩ := agreeOn_append.1 h
    rw [Expr.renamedAll, Expr.renamedAll, Expr.renamed_congr e he, Expr.renamedAll_congr es hes]

/-- So is an ordering. -/
theorem OrderTerm.renamed_congr : (o : OrderTerm) → AgreeOn ρ σ o.mentions →
    o.renamed ρ = o.renamed σ
  | .mk e _ _, h => by rw [OrderTerm.renamed, OrderTerm.renamed, Expr.renamed_congr e h]

theorem OrderTerm.renamedAll_congr : (os : List OrderTerm) →
    AgreeOn ρ σ (OrderTerm.mentionsAll os) →
    OrderTerm.renamedAll ρ os = OrderTerm.renamedAll σ os
  | [], _ => rfl
  | o :: os, h => by
    obtain ⟨ho, hos⟩ := agreeOn_append.1 h
    rw [OrderTerm.renamedAll, OrderTerm.renamedAll, OrderTerm.renamed_congr o ho,
      OrderTerm.renamedAll_congr os hos]

/-- So is an association. -/
theorem Association.renamed_congr : (a : Association) → AgreeOn ρ σ a.mentions →
    a.renamed ρ = a.renamed σ
  | .direct _ _ _ _ _ filters order _, h => by
    obtain ⟨hfilters, horder⟩ := agreeOn_append.1 h
    rw [Association.renamed, Association.renamed, Expr.renamedAll_congr filters hfilters,
      OrderTerm.renamedAll_congr order horder]
  | .through _ pivot target filters order _, h => by
    rw [Association.mentions, agreeOn_append, agreeOn_append, agreeOn_append] at h
    obtain ⟨⟨⟨hpivot, htarget⟩, hfilters⟩, horder⟩ := h
    rw [Association.renamed, Association.renamed, Association.renamed_congr pivot hpivot,
      Association.renamed_congr target htarget, Expr.renamedAll_congr filters hfilters,
      OrderTerm.renamedAll_congr order horder]

end

/-- So are handles themselves. -/
theorem map_renamed_congr {as : List TableAlias} (h : AgreeOn ρ σ as) :
    as.map (TableAlias.renamed ρ) = as.map (TableAlias.renamed σ) :=
  List.map_congr_left fun a ha =>
    a.renamed_congr fun _ hb => List.mem_singleton.1 hb ▸ h a ha

mutual

/-- A node is renamed in the same way by renamings that agree on its handles and those below. -/
theorem ChainNode.renamed_congr : (n : ChainNode) → AgreeOn ρ σ n.mentions →
    n.renamed ρ = n.renamed σ
  | ⟨association, key, inclusion, requirement, filters, order, aliases, children⟩, h => by
    rw [ChainNode.mentions, agreeOn_append, agreeOn_append, agreeOn_append, agreeOn_append] at h
    obtain ⟨⟨⟨⟨hassociation, hfilters⟩, horder⟩, haliases⟩, hchildren⟩ := h
    rw [ChainNode.renamed, ChainNode.renamed, association.renamed_congr hassociation,
      map_congr_of_agreeOn (fun e _ => e.renamed_congr) hfilters,
      map_congr_of_agreeOn (fun o _ => o.renamed_congr) horder, map_renamed_congr haliases,
      ChainNode.renamedAll_congr children hchildren]

theorem ChainNode.renamedAll_congr : (ns : List ChainNode) →
    AgreeOn ρ σ (ChainNode.mentionsAll ns) →
    ChainNode.renamedAll ρ ns = ChainNode.renamedAll σ ns
  | [], _ => rfl
  | n :: ns, h => by
    obtain ⟨hn, hns⟩ := agreeOn_append.1 h
    rw [ChainNode.renamedAll, ChainNode.renamedAll, ChainNode.renamed_congr n hn,
      ChainNode.renamedAll_congr ns hns]

end

/-- Renamings that agree on the handles of a request do the same to it. -/
theorem Request.renamed_congr (r : Request) (h : AgreeOn ρ σ r.mentions) :
    r.renamed ρ = r.renamed σ := by
  simp only [Request.mentions, agreeOn_append] at h
  obtain ⟨⟨⟨⟨⟨haliases, hfilters⟩, hhaving⟩, horder⟩, hannotations⟩, hchain⟩ := h
  rw [Request.renamed, Request.renamed, map_renamed_congr haliases,
    map_congr_of_agreeOn (fun e _ => e.renamed_congr) hfilters,
    map_congr_of_agreeOn (fun e _ => e.renamed_congr) hhaving,
    map_congr_of_agreeOn (fun o _ => o.renamed_congr) horder,
    map_congr_of_agreeOn (fun p _ hp => congrArg (·, p.2) (p.1.renamed_congr hp)) hannotations,
    map_congr_of_agreeOn (fun n _ => n.renamed_congr) hchain]

/-- A call on an association is renamed in the same way by renamings that agree on its handles. -/
theorem AssociationCall.renamed_congr (c : AssociationCall) (h : AgreeOn ρ σ c.mentions) :
    c.renamed ρ = c.renamed σ := by
  cases c with
  | filter e => exact congrArg filter (e.renamed_congr h)
  | orderBy o => exact congrArg orderBy (o.renamed_congr h)
  | named | settle => rfl

mutual

/-- So is a script for a node. -/
theorem NodeScript.renamed_congr : (s : NodeScript) → AgreeOn ρ σ s.mentions →
    s.renamed ρ = s.renamed σ
  | ⟨base, refinements, calls⟩, h => by
    rw [NodeScript.mentions, agreeOn_append, agreeOn_append] at h
    obtain ⟨⟨hbase, hrefinements⟩, hcalls⟩ := h
    rw [NodeScript.renamed, NodeScript.renamed, base.renamed_congr hbase,
      map_congr_of_agreeOn (fun c _ => c.renamed_congr) hrefinements,
      NodeCall.renamedAll_congr calls hcalls]

theorem NodeCall.renamed_congr : (c : NodeCall) → AgreeOn ρ σ c.mentions →
    c.renamed ρ = c.renamed σ
  | .filter e, h => congrArg NodeCall.filter (e.renamed_congr h)
  | .orderBy o, h => congrArg NodeCall.orderBy (o.renamed_congr h)
  | .aliased a, h => congrArg NodeCall.aliased (a.renamed_congr h)
  | .named _, _ => rfl
  | .attach inclusion requirement child, h =>
    congrArg (NodeCall.attach inclusion requirement) (NodeScript.renamed_congr child h)

theorem NodeCall.renamedAll_congr : (cs : List NodeCall) →
    AgreeOn ρ σ (NodeCall.mentionsAll cs) → NodeCall.renamedAll ρ cs = NodeCall.renamedAll σ cs
  | [], _ => rfl
  | c :: cs, h => by
    obtain ⟨hc, hcs⟩ := agreeOn_append.1 h
    rw [NodeCall.renamedAll, NodeCall.renamedAll, NodeCall.renamed_congr c hc,
      NodeCall.renamedAll_congr cs hcs]

end

/-- So is a call on a request. -/
theorem RequestCall.renamed_congr (c : RequestCall) (h : AgreeOn ρ σ c.mentions) :
    c.renamed ρ = c.renamed σ := by
  cases c with
  | filter e => exact congrArg filter (e.renamed_congr h)
  | having e => exact congrArg having (e.renamed_congr h)
  | orderBy o => exact congrArg orderBy (o.renamed_congr h)
  | annotated e name => exact congrArg (annotated · name) (e.renamed_congr h)
  | aliased a => exact congrArg aliased (a.renamed_congr h)
  | attach inclusion requirement child =>
    exact congrArg (attach inclusion requirement) (child.renamed_congr h)
  | limit | offset | distinct => rfl

/-- Renamings that agree on the handles of a script do the same to it. -/
theorem RequestScript.renamed_congr (s : RequestScript) (h : AgreeOn ρ σ s.mentions) :
    s.renamed ρ = s.renamed σ := by
  rw [RequestScript.renamed, RequestScript.renamed,
    map_congr_of_agreeOn (fun c _ => c.renamed_congr) h]

end congr

/-! ## renamings that keep handles apart -/

/-- Handles of different identities keep different identities. -/
def KeepsApart (ρ : Nat → Nat) (handles : List TableAlias) : Prop :=
  ∀ a ∈ handles, ∀ b ∈ handles, ρ a.id = ρ b.id → a.id = b.id

instance (ρ : Nat → Nat) (handles : List TableAlias) : Decidable (KeepsApart ρ handles) :=
  inferInstanceAs (Decidable (∀ a ∈ handles, ∀ b ∈ handles, ρ a.id = ρ b.id → a.id = b.id))

/-- A renaming that keeps some handles apart does to these what a renaming does that keeps all
identities apart. -/
theorem KeepsApart.exists_injective {ρ : Nat → Nat} {handles : List TableAlias}
    (h : KeepsApart ρ handles) : ∃ σ : Nat → Nat, σ.Injective ∧ AgreeOn ρ σ handles := by
  let ids := handles.map TableAlias.id
  let bound := (ids.map ρ).sum + 1
  have hbound : ∀ i ∈ ids, ρ i < bound := fun i hi =>
    Nat.lt_succ_of_le (List.le_sum_of_mem (List.mem_map_of_mem hi))
  have hids : ∀ i ∈ ids, ∀ j ∈ ids, ρ i = ρ j → i = j := by
    intro i hi j hj hij
    obtain ⟨a, ha, rfl⟩ := List.mem_map.1 hi
    obtain ⟨b, hb, rfl⟩ := List.mem_map.1 hj
    exact h a ha b hb hij
  -- identities that do not occur move behind all those that are given out
  refine ⟨fun i => if i ∈ ids then ρ i else bound + i, ?_, ?_⟩
  · intro i j hij
    dsimp only at hij
    split at hij <;> split at hij
    · next hi hj => exact hids i hi j hj hij
    · next hi _ => have := hbound i hi; omega
    · next _ hj => have := hbound j hj; omega
    · omega
  · intro a ha
    exact (if_pos (List.mem_map_of_mem ha)).symm

end AssociationQuery
