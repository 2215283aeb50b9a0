import AssociationQuery.Proofs.Renaming.Building
import AssociationQuery.Query

/-!
# AssociationQuery.Proofs.Renaming.Rendering

Statements rendered with renamed handles.

A statement knows the table instance of each handle by the identity of the handle, and the last
table of each aggregate's association by the association.  Renamed together with the handles in
its expressions both answer as before, so that the statement is written token by token as it was,
`Statement.render_renamed`.
-/

namespace AssociationQuery

/-! ## statements and plans with other identities -/

/-- The names of a statement whose handles have other identities. -/
def AliasMap.renamed (ρ : Nat → Nat) (m : AliasMap) : AliasMap :=
  { m with handles := m.handles.map fun p => (ρ p.1, p.2) }

mutual

def Condition.renamed (ρ : Nat → Nat) : Condition → Condition
  | .keys left right columns => .keys left right columns
  | .expr e slot => .expr (e.renamed ρ) slot
  | .existence q => .existence (SubQuery.renamed ρ q)

def Condition.renamedAll (ρ : Nat → Nat) : List Condition → List Condition
  | [] => []
  | x :: xs => Condition.renamed ρ x :: Condition.renamedAll ρ xs

def Join.renamed (ρ : Nat → Nat) : Join → Join
  | .mk kind slot table on => .mk kind slot table (Condition.renamedAll ρ on)

def Join.renamedAll (ρ : Nat → Nat) : List Join → List Join
  | [] => []
  | j :: js => Join.renamed ρ j :: Join.renamedAll ρ js

/-- The subquery with other identities for the handles in its conditions. -/
def SubQuery.renamed (ρ : Nat → Nat) : SubQuery → SubQuery
  | .mk slot slots table joins conditions =>
    .mk slot slots table (Join.renamedAll ρ joins) (Condition.renamedAll ρ conditions)

end

def SelectItem.renamed (ρ : Nat → Nat) : SelectItem → SelectItem
  | expr e slot name => expr (e.renamed ρ) slot name
  | i => i

/-- Expressions and associations with the table instances that belong to them. -/
def renamedOn (renamed : α → α) (ps : List (α × Slot)) : List (α × Slot) :=
  ps.map fun p => (renamed p.1, p.2)

theorem renamedOn_append (renamed : α → α) (ps qs : List (α × Slot)) :
    renamedOn renamed (ps ++ qs) = renamedOn renamed ps ++ renamedOn renamed qs :=
  List.map_append

theorem renamedOn_map (renamed : α → α) (slot : Slot) (xs : List α) :
    renamedOn renamed (xs.map (·, slot)) = (xs.map renamed).map (·, slot) := by
  simp [renamedOn, Function.comp_def]

/-- The statement with other identities for its handles. -/
def Statement.renamed (ρ : Nat → Nat) (s : Statement) : Statement :=
  { s with
    aliases := s.aliases.renamed ρ
    aggregates := renamedOn (Association.renamed ρ) s.aggregates
    select := s.select.map (SelectItem.renamed ρ)
    joins := s.joins.map (Join.renamed ρ)
    filters := s.filters.map (Condition.renamed ρ)
    having := s.having.map (Condition.renamed ρ)
    order := renamedOn (OrderTerm.renamed ρ) s.order }

mutual

/-- The plan with other identities for the handles in its statement and in those below. -/
def PrefetchPlan.renamed (ρ : Nat → Nat) : PrefetchPlan → PrefetchPlan
  | ⟨name, parentScope, parentKeyColumns, dialect, statement, layout, children⟩ =>
    ⟨name, parentScope, parentKeyColumns, dialect, statement.renamed ρ, layout,
      PrefetchPlan.renamedAll ρ children⟩

def PrefetchPlan.renamedAll (ρ : Nat → Nat) : List PrefetchPlan → List PrefetchPlan
  | [] => []
  | p :: ps => PrefetchPlan.renamed ρ p :: PrefetchPlan.renamedAll ρ ps

end

section lists

variable (ρ : Nat → Nat)

@[simp] theorem Condition.renamedAll_eq_map (xs : List Condition) :
    Condition.renamedAll ρ xs = xs.map (Condition.renamed ρ) := by
  induction xs with
  | nil => rfl
  | cons x xs ih => rw [Condition.renamedAll, ih, List.map_cons]

@[simp] theorem Join.renamedAll_eq_map (js : List Join) :
    Join.renamedAll ρ js = js.map (Join.renamed ρ) := by
  induction js with
  | nil => rfl
  | cons j js ih => rw [Join.renamedAll, ih, List.map_cons]

@[simp] theorem PrefetchPlan.renamedAll_eq_map (ps : List PrefetchPlan) :
    PrefetchPlan.renamedAll ρ ps = ps.map (PrefetchPlan.renamed ρ) := by
  induction ps with
  | nil => rfl
  | cons p ps ih => rw [PrefetchPlan.renamedAll, ih, List.map_cons]

end lists

variable {ρ : Nat → Nat}

/-! ## looking handles and associations up -/

/-- What was found under an identity is found under the new one. -/
theorem lookup_renamed (hρ : ρ.Injective) (handles : List (Nat × Slot)) (id : Nat) :
    (handles.map fun p => (ρ p.1, p.2)).lookup (ρ id) = handles.lookup id := by
  induction handles with
  | nil => rfl
  | cons p handles ih =>
    obtain ⟨other, slot⟩ := p
    have heq : (ρ id == ρ other) = (id == other) := by
      rw [Bool.eq_iff_iff, beq_iff_eq, beq_iff_eq, hρ.eq_iff]
    rw [List.map_cons, List.lookup_cons, List.lookup_cons, heq, ih]

/-- A handle is on the same table instance after renaming. -/
theorem AliasMap.slotOf?_renamed (hρ : ρ.Injective) (m : AliasMap) (a : TableAlias) :
    (m.renamed ρ).slotOf? (a.renamed ρ) = m.slotOf? a := lookup_renamed hρ m.handles a.id

/-- A renamed association is found with the table instance of the old one. -/
theorem find?_renamed (hρ : ρ.Injective) (aggregates : List (Association × Slot))
    (a : Association) :
    (renamedOn (Association.renamed ρ) aggregates).find? (fun p => p.1.equal (a.renamed ρ)) =
      (aggregates.find? fun p => p.1.equal a).map fun p => (p.1.renamed ρ, p.2) := by
  induction aggregates with
  | nil => rfl
  | cons p aggregates ih =>
    rw [renamedOn, List.map_cons, ← renamedOn, List.find?_cons, List.find?_cons,
      p.1.equal_renamed hρ a, ih]
    split <;> rfl

/-- The second resolver knows of renamed handles and associations what the first knows of the
handles and associations. -/
structure Resolver.Follows (ρ : Nat → Nat) (r s : Resolver) : Prop where
  current : s.current = r.current
  handle (a : TableAlias) : s.handle (a.renamed ρ) = r.handle a
  aggregate (a : Association) : s.aggregate (a.renamed ρ) = r.aggregate a

namespace RenderContext

def renamed (ρ : Nat → Nat) (c : RenderContext) : RenderContext :=
  { c with
    aliases := c.aliases.renamed ρ
    aggregates := renamedOn (Association.renamed ρ) c.aggregates }

@[simp] theorem name_renamed (c : RenderContext) : (c.renamed ρ).name = c.name := rfl

@[simp] theorem tableRef_renamed (c : RenderContext) : (c.renamed ρ).tableRef = c.tableRef := rfl

/-- Renaming does not change what is hidden. -/
theorem inside_renamed (c : RenderContext) (slots : List Slot) :
    (c.renamed ρ).inside slots = (c.inside slots).renamed ρ := rfl

/-- A renamed context answers as the old one does. -/
theorem follows_resolver (hρ : ρ.Injective) (c : RenderContext) (slot : Slot) :
    Resolver.Follows ρ (c.resolver slot) ((c.renamed ρ).resolver slot) where
  current := rfl
  handle a := by
    have hslot : (c.renamed ρ).aliases.slotOf? (a.renamed ρ) = c.aliases.slotOf? a :=
      c.aliases.slotOf?_renamed hρ a
    simp only [resolver, resolve, hslot]
    rfl
  aggregate a := by
    have hfind := find?_renamed hρ c.aggregates a
    simp only [resolver, resolveAggregate]
    rw [show (c.renamed ρ).aggregates = renamedOn (Association.renamed ρ) c.aggregates from rfl,
      hfind, Association.name_renamed]
    cases c.aggregates.find? fun p => p.1.equal a <;> rfl

end RenderContext

/-! ## expressions -/

namespace Expr

/-- A renamed expression binds as tightly as before. -/
@[simp] theorem precedence_renamed (e : Expr) : (e.renamed ρ).precedence = e.precedence := by
  cases e with
  | unary o => cases o <;> rfl
  | _ => rfl

theorem wrapsLeft_renamed (o : BinaryOp) (e : Expr) :
    o.wrapsLeft (e.renamed ρ) = o.wrapsLeft e := by
  rw [BinaryOp.wrapsLeft, precedence_renamed, BinaryOp.wrapsLeft]

theorem wrapsRight_renamed (o : BinaryOp) (e : Expr) :
    o.wrapsRight (e.renamed ρ) = o.wrapsRight e := by
  rw [BinaryOp.wrapsRight, precedence_renamed, BinaryOp.wrapsRight]

theorem wraps_renamed (o : UnaryOp) (e : Expr) : o.wraps (e.renamed ρ) = o.wraps e := by
  cases o <;> simp only [UnaryOp.wraps, precedence_renamed]

theorem wrapsInTest_renamed (e : Expr) : (e.renamed ρ).wrapsInTest = e.wrapsInTest := by
  rw [wrapsInTest, precedence_renamed, wrapsInTest]

section render

variable {d : Dialect} {r s : Resolver}

mutual

/-- A renamed expression is written as before. -/
theorem render_renamed (h : r.Follows ρ s) : (e : Expr) → (e.renamed ρ).render d s = e.render d r
  -- by the expression: what is looked up is found under the new identity as it was under the old
  | .column .current name => by simp only [renamed, TableRef.renamed, render, h.current]
  | .column (.handle a) name => by simp only [renamed, TableRef.renamed, render, h.handle]
  | .column (.named table) name => rfl
  | .binary o a b => by
    simp only [renamed, render, wrapsLeft_renamed, wrapsRight_renamed, render_renamed h a,
      render_renamed h b]
  | .unary o a => by simp only [renamed, render, wraps_renamed, render_renamed h a]
  | .call f args => by simp only [renamed, render, renderAll_renamed h args]
  | .inList a [] negated => by simp only [renamed, renamedAll, render]
  | .inList a (v :: vs) negated => by
    have hvalues := renderAll_renamed h (v :: vs)
    rw [renamedAll] at hvalues
    simp only [renamed, renamedAll, render, wrapsInTest_renamed, render_renamed h a, hvalues]
  | .isNull a negated => by simp only [renamed, render, wrapsInTest_renamed, render_renamed h a]
  | .like a pattern negated => by
    simp only [renamed, render, wrapsInTest_renamed, render_renamed h a]
  | .paren a => by simp only [renamed, render, render_renamed h a]
  | .aggregate f a c => by
    simp only [renamed, render, Association.destination_renamed, h.aggregate]
  | .literal _ | .raw _ | .countStar => by simp only [renamed, render]

theorem renderAll_renamed (h : r.Follows ρ s) : (es : List Expr) →
    renderAll d s (renamedAll ρ es) = renderAll d r es
  | [] => rfl
  | e :: es => by simp only [renamedAll, renderAll, render_renamed h e, renderAll_renamed h es]

end

/-- As a term of a conjunction it is written as before, too. -/
theorem renderConjunct_renamed (h : r.Follows ρ s) (e : Expr) :
    (e.renamed ρ).renderConjunct d s = e.renderConjunct d r := by
  rw [renderConjunct, renderConjunct, precedence_renamed, render_renamed h]

end render

end Expr

/-- A renamed ordering is written as before. -/
theorem OrderTerm.render_renamed {d : Dialect} {r s : Resolver} (h : r.Follows ρ s)
    (o : OrderTerm) : (o.renamed ρ).render d s = o.render d r := by
  obtain ⟨e, direction, nulls⟩ := o
  simp only [renamed, render, expr, OrderTerm.direction, OrderTerm.nulls, e.render_renamed h]

/-! ## conditions and joins -/

section conditions

variable (d : Dialect)

mutual

/-- A renamed condition is written as before. -/
theorem Condition.render_renamed (hρ : ρ.Injective) : (x : Condition) → (c : RenderContext) →
    (x.renamed ρ).render d (c.renamed ρ) = x.render d c
  | .keys left right columns, c => rfl
  | .expr e slot, c => by
    rw [Condition.renamed, Condition.render, Condition.render,
      e.renderConjunct_renamed (c.follows_resolver hρ slot)]
  | .existence q, c => by
    rw [Condition.renamed, Condition.render, Condition.render, SubQuery.render_renamed hρ q]

theorem Condition.renderAll_renamed (hρ : ρ.Injective) : (xs : List Condition) →
    (c : RenderContext) →
    Condition.renderAll d (c.renamed ρ) (Condition.renamedAll ρ xs) = Condition.renderAll d c xs
  | [], _ => rfl
  | x :: xs, c => by
    rw [Condition.renamedAll, Condition.renderAll, Condition.renderAll,
      Condition.render_renamed hρ x, Condition.renderAll_renamed hρ xs]

theorem Join.render_renamed (hρ : ρ.Injective) : (j : Join) → (c : RenderContext) →
    (j.renamed ρ).render d (c.renamed ρ) = j.render d c
  | .mk kind slot table on, c => by
    rw [Join.renamed, Join.render, Join.render, Condition.renderAll_renamed hρ on,
      RenderContext.tableRef_renamed]

theorem Join.renderAll_renamed (hρ : ρ.Injective) : (js : List Join) → (c : RenderContext) →
    Join.renderAll d (c.renamed ρ) (Join.renamedAll ρ js) = Join.renderAll d c js
  | [], _ => rfl
  | j :: js, c => by
    rw [Join.renamedAll, Join.renderAll, Join.renderAll, Join.render_renamed hρ j,
      Join.renderAll_renamed hρ js]

theorem SubQuery.render_renamed (hρ : ρ.Injective) : (q : SubQuery) → (c : RenderContext) →
    (q.renamed ρ).render d (c.renamed ρ) = q.render d c
  | .mk slot slots table joins conditions, c => by
    have hempty : (Condition.renamedAll ρ conditions).isEmpty = conditions.isEmpty := by
      cases conditions <;> rfl
    rw [SubQuery.renamed, SubQuery.render, SubQuery.render]
    simp only [RenderContext.inside_renamed, Join.renderAll_renamed hρ joins,
      Condition.renderAll_renamed hρ conditions, RenderContext.tableRef_renamed, hempty]

end

end conditions

/-! ## statements -/

section statements

variable (hρ : ρ.Injective) (d : Dialect)

include hρ

/-- A renamed item is written as before. -/
theorem SelectItem.render_renamed (c : RenderContext) (i : SelectItem) :
    (i.renamed ρ).render d (c.renamed ρ) = i.render d c := by
  cases i with
  | expr e slot name =>
    simp only [renamed, render, e.render_renamed (c.follows_resolver hρ slot)]
  | star | column => rfl

namespace Statement

/-- A statement with renamed handles is written as it was. -/
theorem render_renamed (keys : List (List Value)) (s : Statement) :
    (s.renamed ρ).render d keys = s.render d keys := by
  have hcontext : (s.renamed ρ).context = s.context.renamed ρ := rfl
  have hselect : (s.select.map (SelectItem.renamed ρ)).mapM
        (SelectItem.render d (s.context.renamed ρ)) =
      s.select.mapM (SelectItem.render d s.context) := by
    rw [List.mapM_map]
    exact congrArg s.select.mapM (funext fun i => i.render_renamed hρ d s.context)
  have horder : (renamedOn (OrderTerm.renamed ρ) s.order).mapM
        (fun o => o.1.render d ((s.context.renamed ρ).resolver o.2)) =
      s.order.mapM fun o => o.1.render d (s.context.resolver o.2) := by
    rw [renamedOn, List.mapM_map]
    exact congrArg s.order.mapM
      (funext fun o => o.1.render_renamed (s.context.follows_resolver hρ o.2))
  have hjoins := Join.renderAll_renamed d hρ s.joins s.context
  have hfilters := Condition.renderAll_renamed d hρ s.filters s.context
  have hhaving := Condition.renderAll_renamed d hρ s.having s.context
  rw [Join.renamedAll_eq_map] at hjoins
  rw [Condition.renamedAll_eq_map] at hfilters hhaving
  rw [render, render, hcontext]
  simp only [renamed, hselect, hjoins, hfilters, hhaving, horder]
  rfl

/-- A renamed statement is bound to the same text. -/
theorem bind_renamed (keys : List (List Value)) (s : Statement) :
    (s.renamed ρ).bind d keys = s.bind d keys := by
  rw [bind, bind, render_renamed hρ]

end Statement

/-- A renamed plan renders the same statements. -/
theorem PrefetchPlan.render_renamed (keys : List (List Value)) (p : PrefetchPlan) :
    (p.renamed ρ).render keys = p.render keys := by
  obtain ⟨name, parentScope, parentKeyColumns, dialect, statement, layout, children⟩ := p
  rw [renamed, render, render, statement.bind_renamed hρ]

end statements

end AssociationQuery
