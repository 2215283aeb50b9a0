import AssociationQuery.Proofs.Planning.Walk
import AssociationQuery.Statement.Render

/-!
# AssociationQuery.Proofs.Visibility.Terms

The expressions that stand in conditions.

A condition is an expression, or has those of a subquery, at whatever depth.  Whatever is
rendered has had all its expressions rendered, `Condition.renders_of_render`: each in the
context of its place, which shares names and aggregates with that of the statement.
-/

namespace AssociationQuery

mutual

/-- The expressions of the condition, those of its subqueries included. -/
def Condition.terms : Condition → List Expr
  | .keys .. => []
  | .expr e _ => [e]
  | .existence q => SubQuery.terms q

def Condition.termsAll : List Condition → List Expr
  | [] => []
  | c :: cs => Condition.terms c ++ Condition.termsAll cs

def Join.termsAll : List Join → List Expr
  | [] => []
  | .mk _ _ _ on :: js => Condition.termsAll on ++ Join.termsAll js

def SubQuery.terms : SubQuery → List Expr
  | .mk _ _ _ joins conditions => Join.termsAll joins ++ Condition.termsAll conditions

end

theorem Condition.termsAll_append (cs ds : List Condition) :
    termsAll (cs ++ ds) = termsAll cs ++ termsAll ds := by
  induction cs with
  | nil => rfl
  | cons c cs ih => rw [List.cons_append, termsAll, termsAll, ih, List.append_assoc]

theorem Condition.termsAll_map (slot : Slot) (es : List Expr) :
    termsAll (es.map fun e => .expr e slot) = es := by
  induction es with
  | nil => rfl
  | cons e es ih => exact congrArg (e :: ·) ih

theorem Condition.termsAll_conditionsOn (slot : Slot) (es : List Expr) :
    termsAll (conditionsOn slot es) = es := termsAll_map slot es

theorem Condition.mem_termsAll {cs : List Condition} {e : Expr} :
    e ∈ termsAll cs ↔ ∃ c ∈ cs, e ∈ c.terms := by
  induction cs with
  | nil => simp [termsAll]
  | cons c cs ih => simp [termsAll, ih]

theorem Join.termsAll_cons (j : Join) (js : List Join) :
    termsAll (j :: js) = Condition.termsAll j.on ++ termsAll js := by
  cases j
  rw [termsAll]
  rfl

theorem Join.termsAll_append (js ks : List Join) :
    termsAll (js ++ ks) = termsAll js ++ termsAll ks := by
  induction js with
  | nil => rfl
  | cons j js ih => rw [List.cons_append, termsAll_cons, termsAll_cons, ih, List.append_assoc]

theorem Join.mem_termsAll {js : List Join} {e : Expr} :
    e ∈ termsAll js ↔ ∃ j ∈ js, ∃ c ∈ j.on, e ∈ c.terms := by
  induction js with
  | nil => simp [termsAll]
  | cons j js ih => simp [termsAll_cons, Condition.mem_termsAll, ih]

/-! ## planned subqueries -/

namespace Draft

theorem termsAll_insideJoins (previous : Slot) (next : Nat) (hs : List Hop) :
    Join.termsAll (insideJoins previous next hs) = hs.flatMap Hop.filters := by
  induction hs generalizing previous next with
  | nil => rfl
  | cons h rest ih =>
    rw [insideJoins, Join.termsAll_cons, ih, List.flatMap_cons]
    exact congrArg (· ++ _) (Condition.termsAll_conditionsOn ..)

/-- A planned subquery has the filters of its route and its node, and what is nested in it. -/
theorem terms_subQuery (next : Nat) (outer : Slot) (route : Route) (filters : List Expr)
    (nested : List Condition) :
    (subQuery next outer route filters nested).terms =
      route.rest.flatMap Hop.filters ++
        (route.first.filters ++ filters ++ Condition.termsAll nested) := by
  have hkeys : (route.first.keys ⟨next⟩ outer).terms = [] := by rw [Hop.keys, Condition.terms]
  rw [subQuery, SubQuery.terms, termsAll_insideJoins, Condition.termsAll_append,
    Condition.termsAll_append, Condition.termsAll, hkeys, Condition.termsAll_conditionsOn,
    Condition.termsAll_conditionsOn]
  rfl

end Draft

/-! ## rendered terms -/

/-- The expression is rendered at some place of a statement with the names and the aggregates of
the context. -/
def RenderContext.Renders (d : Dialect) (c : RenderContext) (e : Expr) : Prop :=
  ∃ hidden slot ts,
    e.render d (RenderContext.resolver ⟨c.aliases, c.aggregates, hidden⟩ slot) = .ok ts

mutual

theorem Condition.renders_of_render {d : Dialect} {c : RenderContext} : (x : Condition) →
    {ts : List Token} → x.render d c = .ok ts → ∀ e ∈ x.terms, c.Renders d e
  | .keys .., ts, h => by
    rw [Condition.terms]
    exact List.forall_mem_nil _
  | .expr e slot, ts, h => by
    simp only [Condition.render, Expr.renderConjunct, bind_eq_ok] at h
    obtain ⟨ts', he, -⟩ := h
    rw [Condition.terms]
    exact List.forall_mem_singleton.2 ⟨c.hidden, slot, ts', he⟩
  | .existence q, ts, h => by
    simp only [Condition.render, bind_eq_ok] at h
    obtain ⟨_, hq, -⟩ := h
    rw [Condition.terms]
    exact SubQuery.renders_of_render q hq

theorem Condition.renders_of_renderAll {d : Dialect} {c : RenderContext} :
    (xs : List Condition) → {tss : List (List Token)} → Condition.renderAll d c xs = .ok tss →
    ∀ e ∈ Condition.termsAll xs, c.Renders d e
  | [], tss, h => by
    rw [Condition.termsAll]
    exact List.forall_mem_nil _
  | x :: xs, tss, h => by
    simp only [Condition.renderAll, bind_eq_ok] at h
    obtain ⟨_, hx, _, hrest, -⟩ := h
    rw [Condition.termsAll]
    exact List.forall_mem_append.2
      ⟨Condition.renders_of_render x hx, Condition.renders_of_renderAll xs hrest⟩

theorem Join.renders_of_renderAll {d : Dialect} {c : RenderContext} : (js : List Join) →
    {ts : List Token} → Join.renderAll d c js = .ok ts →
    ∀ e ∈ Join.termsAll js, c.Renders d e
  | [], ts, h => by
    rw [Join.termsAll]
    exact List.forall_mem_nil _
  | .mk kind slot table on :: js, ts, h => by
    simp only [Join.renderAll, Join.render, bind_eq_ok] at h
    obtain ⟨_, ⟨_, hon, -⟩, _, hrest, -⟩ := h
    rw [Join.termsAll]
    exact List.forall_mem_append.2
      ⟨Condition.renders_of_renderAll on hon, Join.renders_of_renderAll js hrest⟩

theorem SubQuery.renders_of_render {d : Dialect} {c : RenderContext} : (q : SubQuery) →
    {ts : List Token} → q.render d c = .ok ts → ∀ e ∈ q.terms, c.Renders d e
  | .mk slot slots table joins conditions, ts, h => by
    simp only [SubQuery.render, bind_eq_ok] at h
    obtain ⟨_, hjoins, _, hconditions, -⟩ := h
    have hjoined := Join.renders_of_renderAll joins hjoins
    have hfiltered := Condition.renders_of_renderAll conditions hconditions
    rw [SubQuery.terms]
    exact List.forall_mem_append.2 ⟨hjoined, hfiltered⟩

end

/-- The expression of the item, if it has one. -/
def SelectItem.term? : SelectItem → Option Expr
  | star _ | column .. => none
  | expr e _ _ => some e

namespace Statement

/-- The expressions of the statement, those of its subqueries included. -/
def terms (s : Statement) : List Expr :=
  s.select.filterMap SelectItem.term? ++ Join.termsAll s.joins ++ Condition.termsAll s.filters ++
    Condition.termsAll s.having ++ s.order.map fun o => o.1.expr

theorem renders_of_render {d : Dialect} {keys : List (List Value)} {s : Statement}
    {ts : List Token} (h : s.render d keys = .ok ts) : ∀ e ∈ s.terms, s.context.Renders d e := by
  simp only [render, bind_eq_ok] at h
  obtain ⟨_, hselect, _, hjoins, _, hfilters, _, hhaving, _, horder, -⟩ := h
  -- clause by clause; the columns of the SELECT list that are no expressions have no term
  refine List.forall_mem_append.2 ⟨List.forall_mem_append.2 ⟨List.forall_mem_append.2
    ⟨List.forall_mem_append.2 ⟨?_, Join.renders_of_renderAll _ hjoins⟩,
      Condition.renders_of_renderAll _ hfilters⟩,
    Condition.renders_of_renderAll _ hhaving⟩, ?_⟩
  · intro e he
    obtain ⟨i, hi, hterm⟩ := List.mem_filterMap.1 he
    obtain ⟨ts, hts⟩ := exists_of_mapM hselect i hi
    cases i with
    | star | column => cases hterm
    | expr e slot name =>
      obtain rfl := Option.some.inj hterm
      simp only [SelectItem.render, bind_eq_ok] at hts
      obtain ⟨ts', he, -⟩ := hts
      exact ⟨s.hidden, slot, ts', he⟩
  · refine List.forall_mem_map.2 fun o ho => ?_
    obtain ⟨ts, hts⟩ := exists_of_mapM horder o ho
    simp only [OrderTerm.render, bind_eq_ok] at hts
    obtain ⟨ts', he, -⟩ := hts
    exact ⟨s.hidden, o.2, ts', he⟩

end Statement

end AssociationQuery
