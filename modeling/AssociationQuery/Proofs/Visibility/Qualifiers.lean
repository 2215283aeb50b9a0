import AssociationQuery.Proofs.Result
import AssociationQuery.Statement.Render

/-!
# AssociationQuery.Proofs.Visibility.Qualifiers

What is written in front of a column.

A column of the attached table and one of a handle could have been written with the alias of their
table instance instead.  `Statement.qualified` is the statement in which all of them are; whatever
can be rendered for a statement is rendered for that one too, token by token,
`Statement.render_qualified`.
-/

namespace AssociationQuery

/-! ## expressions -/

/-- The table by its alias, where the attached table is the instance `slot`. -/
def TableRef.qualified (m : AliasMap) (slot : Slot) : TableRef → TableRef
  | current => named (m.name slot)
  | handle a =>
    match m.slotOf? a with
    | some t => named (m.name t)
    | none => handle a
  | named table => named table

namespace Expr

section qualified

variable (m : AliasMap) (slot : Slot)

mutual

/-- The expression with the alias of the table instance in front of each column. -/
def qualifiedOn : Expr → Expr
  | column t name => column (t.qualified m slot) name
  | binary o a b => binary o (qualifiedOn a) (qualifiedOn b)
  | unary o a => unary o (qualifiedOn a)
  | call f args => call f (qualifiedOnAll args)
  | inList a vs negated => inList (qualifiedOn a) (qualifiedOnAll vs) negated
  | isNull a negated => isNull (qualifiedOn a) negated
  | like a pattern negated => like (qualifiedOn a) pattern negated
  | paren a => paren (qualifiedOn a)
  | e@(literal _) | e@(raw _) | e@countStar | e@(aggregate ..) => e

def qualifiedOnAll : List Expr → List Expr
  | [] => []
  | e :: es => qualifiedOn e :: qualifiedOnAll es

end

/-! Brackets are put where they were. -/

/-- An alias in front of columns binds no less tightly. -/
@[simp] theorem precedence_qualifiedOn (e : Expr) :
    (e.qualifiedOn m slot).precedence = e.precedence := by
  cases e with
  | unary o => cases o <;> rfl
  | _ => rfl

@[simp] theorem wrapsLeft_qualifiedOn (o : BinaryOp) (e : Expr) :
    o.wrapsLeft (e.qualifiedOn m slot) = o.wrapsLeft e := by
  simp [BinaryOp.wrapsLeft]

@[simp] theorem wrapsRight_qualifiedOn (o : BinaryOp) (e : Expr) :
    o.wrapsRight (e.qualifiedOn m slot) = o.wrapsRight e := by
  simp [BinaryOp.wrapsRight]

@[simp] theorem wraps_qualifiedOn (o : UnaryOp) (e : Expr) :
    o.wraps (e.qualifiedOn m slot) = o.wraps e := by
  cases o <;> simp [UnaryOp.wraps]

@[simp] theorem wrapsInTest_qualifiedOn (e : Expr) :
    (e.qualifiedOn m slot).wrapsInTest = e.wrapsInTest := by
  simp [wrapsInTest]

end qualified

/-- A column is written with the alias of its table. -/
theorem render_qualified_column {d : Dialect} {c : RenderContext} {slot : Slot} {t : TableRef}
    {name : String} {ts : List Token} (h : (column t name).render d (c.resolver slot) = .ok ts) :
    (column (t.qualified c.aliases slot) name).render d (c.resolver slot) = .ok ts := by
  cases t with
  | current => exact h
  | named table => exact h
  | handle a =>
    simp only [render, bind_eq_ok, pure_eq_ok] at h
    obtain ⟨table, htable, rfl⟩ := h
    simp only [RenderContext.resolver, RenderContext.resolve] at htable
    rw [TableRef.qualified]
    split at htable
    · cases htable
    · next t ht =>
      split at htable
      · cases htable
      · rw [ht]
        exact congrArg (fun table => Except.ok (Token.column table name)) (Except.ok.inj htable)

section render

variable {d : Dialect} {c : RenderContext} {slot : Slot}

mutual

/-- With the alias in front of each column, an expression is rendered as before. -/
theorem render_qualifiedOn : (e : Expr) → {ts : List Token} →
    e.render d (c.resolver slot) = .ok ts →
    (e.qualifiedOn c.aliases slot).render d (c.resolver slot) = .ok ts
  -- by the expression: naming the table changes no precedence, so the brackets stay as well
  | column t name, ts, h => render_qualified_column h
  | literal _, ts, h | raw _, ts, h | countStar, ts, h | aggregate .., ts, h => h
  | inList _ [] _, ts, h => h
  | binary o a b, ts, h => by
    simp only [render, bind_eq_ok] at h
    obtain ⟨left, ha, right, hb, h⟩ := h
    rw [qualifiedOn, render, render_qualifiedOn a ha, render_qualifiedOn b hb,
      wrapsLeft_qualifiedOn, wrapsRight_qualifiedOn]
    exact h
  | unary o a, ts, h => by
    simp only [render, bind_eq_ok] at h
    obtain ⟨operand, ha, h⟩ := h
    rw [qualifiedOn, render, render_qualifiedOn a ha, wraps_qualifiedOn]
    exact h
  | call f args, ts, h => by
    simp only [render, bind_eq_ok] at h
    obtain ⟨parts, hargs, h⟩ := h
    rw [qualifiedOn, render, render_qualifiedOnAll args hargs]
    exact h
  | inList a (v :: vs) negated, ts, h => by
    simp only [render, bind_eq_ok] at h
    obtain ⟨operand, ha, parts, hvs, h⟩ := h
    have hvs := render_qualifiedOnAll (v :: vs) hvs
    rw [qualifiedOnAll] at hvs
    rw [qualifiedOn, qualifiedOnAll, render, render_qualifiedOn a ha, hvs,
      wrapsInTest_qualifiedOn]
    exact h
  | isNull a negated, ts, h | like a _ negated, ts, h => by
    simp only [render, bind_eq_ok] at h
    obtain ⟨operand, ha, h⟩ := h
    rw [qualifiedOn, render, render_qualifiedOn a ha, wrapsInTest_qualifiedOn]
    exact h
  | paren a, ts, h => by
    simp only [render, bind_eq_ok] at h
    obtain ⟨operand, ha, h⟩ := h
    rw [qualifiedOn, render, render_qualifiedOn a ha]
    exact h

theorem render_qualifiedOnAll : (es : List Expr) → {parts : List (List Token)} →
    renderAll d (c.resolver slot) es = .ok parts →
    renderAll d (c.resolver slot) (qualifiedOnAll c.aliases slot es) = .ok parts
  | [], parts, h => h
  | e :: es, parts, h => by
    simp only [renderAll, bind_eq_ok] at h
    obtain ⟨ts, he, rest, hes, h⟩ := h
    rw [qualifiedOnAll, renderAll, render_qualifiedOn e he, render_qualifiedOnAll es hes]
    exact h

end

end render

end Expr

/-- The ordering with the alias of the table instance in front of each column. -/
def OrderTerm.qualifiedOn (m : AliasMap) (slot : Slot) (o : OrderTerm) : OrderTerm :=
  .mk (o.expr.qualifiedOn m slot) o.direction o.nulls

/-- So is an ordering. -/
theorem OrderTerm.render_qualifiedOn {d : Dialect} {c : RenderContext} {slot : Slot}
    {o : OrderTerm} {ts : List Token} (h : o.render d (c.resolver slot) = .ok ts) :
    (o.qualifiedOn c.aliases slot).render d (c.resolver slot) = .ok ts := by
  simp only [OrderTerm.render, bind_eq_ok] at h ⊢
  obtain ⟨us, hus, h⟩ := h
  exact ⟨us, o.expr.render_qualifiedOn hus, h⟩

/-! ## conditions -/

section conditions

variable (m : AliasMap)

mutual

/-- The condition with the alias of its table instance in front of each column. -/
def Condition.qualified : Condition → Condition
  | .keys left right columns => .keys left right columns
  | .expr e slot => .expr (e.qualifiedOn m slot) slot
  | .existence q => .existence (SubQuery.qualified q)

def Condition.qualifiedAll : List Condition → List Condition
  | [] => []
  | x :: xs => Condition.qualified x :: Condition.qualifiedAll xs

def Join.qualifiedAll : List Join → List Join
  | [] => []
  | .mk kind slot table on :: js =>
    .mk kind slot table (Condition.qualifiedAll on) :: Join.qualifiedAll js

def SubQuery.qualified : SubQuery → SubQuery
  | .mk slot slots table joins conditions =>
    .mk slot slots table (Join.qualifiedAll joins) (Condition.qualifiedAll conditions)

end

end conditions

/-- There are as many conditions as before. -/
theorem Condition.isEmpty_qualifiedAll (m : AliasMap) (xs : List Condition) :
    (Condition.qualifiedAll m xs).isEmpty = xs.isEmpty := by
  cases xs <;> rfl

section render

variable {d : Dialect}

mutual

/-- With the alias in front of each column, a condition is rendered as before. -/
theorem Condition.render_qualified : (x : Condition) → {c : RenderContext} → {ts : List Token} →
    x.render d c = .ok ts → (x.qualified c.aliases).render d c = .ok ts
  | .keys .., c, ts, h => h
  | .expr e slot, c, ts, h => by
    simp only [Condition.render, Expr.renderConjunct, bind_eq_ok] at h
    obtain ⟨us, he, h⟩ := h
    rw [Condition.qualified, Condition.render, Expr.renderConjunct, e.render_qualifiedOn he,
      Expr.precedence_qualifiedOn]
    exact h
  | .existence q, c, ts, h => by
    simp only [Condition.render, bind_eq_ok] at h
    obtain ⟨us, hq, h⟩ := h
    rw [Condition.qualified, Condition.render, SubQuery.render_qualified q hq]
    exact h

theorem Condition.renderAll_qualifiedAll : (xs : List Condition) → {c : RenderContext} →
    {parts : List (List Token)} → Condition.renderAll d c xs = .ok parts →
    Condition.renderAll d c (Condition.qualifiedAll c.aliases xs) = .ok parts
  | [], c, parts, h => h
  | x :: xs, c, parts, h => by
    simp only [Condition.renderAll, bind_eq_ok] at h
    obtain ⟨ts, hx, rest, hxs, h⟩ := h
    rw [Condition.qualifiedAll, Condition.renderAll, Condition.render_qualified x hx,
      Condition.renderAll_qualifiedAll xs hxs]
    exact h

theorem Join.renderAll_qualifiedAll : (js : List Join) → {c : RenderContext} → {ts : List Token} →
    Join.renderAll d c js = .ok ts → Join.renderAll d c (Join.qualifiedAll c.aliases js) = .ok ts
  | [], c, ts, h => h
  | .mk kind slot table on :: js, c, ts, h => by
    simp only [Join.renderAll, Join.render, bind_eq_ok] at h
    obtain ⟨us, ⟨parts, hon, hus⟩, rest, hjs, h⟩ := h
    simp only [Join.qualifiedAll, Join.renderAll, Join.render, bind_eq_ok]
    exact ⟨us, ⟨parts, Condition.renderAll_qualifiedAll on hon, hus⟩, rest,
      Join.renderAll_qualifiedAll js hjs, h⟩

theorem SubQuery.render_qualified : (q : SubQuery) → {c : RenderContext} → {ts : List Token} →
    q.render d c = .ok ts → (q.qualified c.aliases).render d c = .ok ts
  | .mk slot slots table joins conditions, c, ts, h => by
    simp only [SubQuery.render, bind_eq_ok] at h
    obtain ⟨joined, hjoins, parts, hconditions, h⟩ := h
    -- inside, other tables are hidden but the aliases are the same
    have hjoins := Join.renderAll_qualifiedAll joins hjoins
    have hconditions := Condition.renderAll_qualifiedAll conditions hconditions
    simp only [SubQuery.qualified, SubQuery.render, bind_eq_ok, Condition.isEmpty_qualifiedAll]
    exact ⟨joined, hjoins, parts, hconditions, h⟩

end

end render

/-! ## statements -/

/-- The item with the alias of its table instance in front of each column. -/
def SelectItem.qualified (m : AliasMap) : SelectItem → SelectItem
  | expr e slot name => expr (e.qualifiedOn m slot) slot name
  | star slot => star slot
  | column slot name label => column slot name label

/-- An item is rendered as before. -/
theorem SelectItem.render_qualified {d : Dialect} {c : RenderContext} {i : SelectItem}
    {ts : List Token} (h : i.render d c = .ok ts) :
    (i.qualified c.aliases).render d c = .ok ts := by
  cases i with
  | star slot | column slot name label => exact h
  | expr e slot name =>
    simp only [SelectItem.render, SelectItem.qualified, bind_eq_ok] at h ⊢
    obtain ⟨us, he, h⟩ := h
    exact ⟨us, e.render_qualifiedOn he, h⟩

/-- Work on other elements has the same results if it has on each of them. -/
theorem mapM_map_of_mapM {f g : α → Except ε β} {k : α → α} {xs : List α} {ys : List β}
    (hfg : ∀ x y, f x = .ok y → g (k x) = .ok y) (h : xs.mapM f = .ok ys) :
    (xs.map k).mapM g = .ok ys := by
  induction xs generalizing ys with
  | nil => exact h
  | cons x xs ih =>
    simp only [List.mapM_cons, bind_eq_ok] at h
    obtain ⟨y, hy, rest, hrest, h⟩ := h
    rw [List.map_cons, List.mapM_cons, hfg x y hy, ih hrest]
    exact h

namespace Statement

/-- The statement with the alias of its table instance in front of each column that is written for
an attached table or for a handle. -/
def qualified (s : Statement) : Statement :=
  { s with
    select := s.select.map (SelectItem.qualified s.aliases)
    joins := Join.qualifiedAll s.aliases s.joins
    filters := Condition.qualifiedAll s.aliases s.filters
    having := Condition.qualifiedAll s.aliases s.having
    order := s.order.map fun o => (o.1.qualifiedOn s.aliases o.2, o.2) }

/-- What is rendered for a statement is rendered with the aliases of the table instances in front
of the columns. -/
theorem render_qualified {d : Dialect} {s : Statement} {keys : List (List Value)}
    {ts : List Token} (h : s.render d keys = .ok ts) : s.qualified.render d keys = .ok ts := by
  simp only [render, bind_eq_ok] at h ⊢
  obtain ⟨select, hselect, joins, hjoins, filters, hfilters, having, hhaving, order, horder, h⟩ := h
  exact ⟨select, mapM_map_of_mapM (fun i ts => SelectItem.render_qualified) hselect, joins,
    Join.renderAll_qualifiedAll _ hjoins, filters, Condition.renderAll_qualifiedAll _ hfilters,
    having, Condition.renderAll_qualifiedAll _ hhaving, order,
    mapM_map_of_mapM (fun o ts => OrderTerm.render_qualifiedOn) horder, h⟩

end Statement

end AssociationQuery
