import AssociationQuery.Proofs.Visibility.Qualifiers
import Mathlib.Data.List.Nodup

/-!
# AssociationQuery.Proofs.Visibility.Scopes

Which table instances the columns of a statement may belong to.

A column is written through the table that its expression is attached to, or through a
handle.  At each place in a statement some table instances are visible: outside of
subqueries the base table and the tables of the joins, and inside a subquery its own tables
besides those that are visible around it.  `Condition.Sees` says that a condition only has
columns of visible tables; that handles are such is checked when it is rendered,
`Condition.sees_of_render`.  What is written in front of a column is the alias of its table
instance, `Statement.render_qualified`.
-/

namespace AssociationQuery

/-! ## handles -/

namespace Expr

mutual

/-- The handles of the columns that are written for the expression.  Without values to compare
with, nothing is written for an operand. -/
def handles : Expr → List TableAlias
  | column (.handle a) _ => [a]
  | column .current _ | column (.named _) _ => []
  | binary _ a b => handles a ++ handles b
  | unary _ a | isNull a _ | like a _ _ | paren a => handles a
  | call _ args => handlesAll args
  | inList _ [] _ => []
  | inList a (v :: vs) _ => handles a ++ handlesAll (v :: vs)
  | literal _ | raw _ | countStar | aggregate .. => []

def handlesAll : List Expr → List TableAlias
  | [] => []
  | e :: es => handles e ++ handlesAll es

end

mutual

/-- Every handle of an expression that is rendered stands for a table. -/
theorem resolves_of_render {d : Dialect} {r : Resolver} : (e : Expr) → {ts : List Token} →
    e.render d r = .ok ts → ∀ a ∈ e.handles, ∃ name, r.handle a = .ok name
  -- by the expression: rendering goes through all of it, so each handle was looked up
  | column (.handle a) _, ts, h => by
    simp only [render, bind_eq_ok] at h
    obtain ⟨name, hname, -⟩ := h
    rw [handles]
    exact List.forall_mem_singleton.2 ⟨name, hname⟩
  | column .current _, ts, h | column (.named _) _, ts, h | literal _, ts, h | raw _, ts, h
  | countStar, ts, h | aggregate .., ts, h | inList _ [] _, ts, h => by
    rw [handles]
    exact List.forall_mem_nil _
  | binary _ a b, ts, h => by
    simp only [render, bind_eq_ok] at h
    obtain ⟨_, ha, _, hb, -⟩ := h
    rw [handles]
    exact List.forall_mem_append.2 ⟨resolves_of_render a ha, resolves_of_render b hb⟩
  | unary _ a, ts, h | isNull a _, ts, h | like a _ _, ts, h | paren a, ts, h => by
    simp only [render, bind_eq_ok] at h
    obtain ⟨_, ha, -⟩ := h
    rw [handles]
    exact resolves_of_render a ha
  | call _ args, ts, h => by
    simp only [render, bind_eq_ok] at h
    obtain ⟨_, hargs, -⟩ := h
    rw [handles]
    exact resolves_of_renderAll args hargs
  | inList a (v :: vs) _, ts, h => by
    simp only [render, bind_eq_ok] at h
    obtain ⟨_, ha, _, hvs, -⟩ := h
    rw [handles]
    exact List.forall_mem_append.2 ⟨resolves_of_render a ha, resolves_of_renderAll (v :: vs) hvs⟩

theorem resolves_of_renderAll {d : Dialect} {r : Resolver} : (es : List Expr) →
    {tss : List (List Token)} → renderAll d r es = .ok tss →
    ∀ a ∈ handlesAll es, ∃ name, r.handle a = .ok name
  | [], tss, h => by
    rw [handlesAll]
    exact List.forall_mem_nil _
  | e :: es, tss, h => by
    simp only [renderAll, bind_eq_ok] at h
    obtain ⟨_, he, _, hes, -⟩ := h
    rw [handlesAll]
    exact List.forall_mem_append.2 ⟨resolves_of_render e he, resolves_of_renderAll es hes⟩

end

/-- The handles of the expression are on visible table instances. -/
def Resolves (m : AliasMap) (visible : List Slot) (e : Expr) : Prop :=
  ∀ a ∈ e.handles, ∃ slot ∈ visible, m.slotOf? a = some slot

end Expr

/-- Every handle that may be written at the place is on a visible table instance. -/
def RenderContext.Shows (c : RenderContext) (visible : List Slot) : Prop :=
  ∀ a slot, c.aliases.slotOf? a = some slot → slot ∉ c.hidden → slot ∈ visible

namespace RenderContext

/-- The name that stands for a handle is that of its table, which is not hidden. -/
theorem resolve_eq_ok {c : RenderContext} {a : TableAlias} {name : String}
    (h : c.resolve a = .ok name) :
    ∃ slot, c.aliases.slotOf? a = some slot ∧ slot ∉ c.hidden ∧ name = c.name slot := by
  rw [resolve] at h
  split at h
  · cases h
  · next slot hslot =>
    split at h
    · cases h
    · next hhidden =>
      exact ⟨slot, hslot, by simpa using hhidden, (Except.ok.inj h).symm⟩

/-- Inside a subquery the tables of the subquery may be shown as well. -/
theorem Shows.inside {c : RenderContext} {visible : List Slot} (h : c.Shows visible)
    (slots : List Slot) : (c.inside slots).Shows (slots ++ visible) := by
  intro a slot ha hhidden
  by_cases hmem : slot ∈ slots
  · exact List.mem_append_left _ hmem
  · have hnot : slot ∉ c.hidden := fun hin =>
      hhidden (List.mem_filter.2 ⟨hin, by simpa using hmem⟩)
    exact List.mem_append_right _ (h a slot ha hnot)

/-- What is rendered has handles on visible tables only. -/
theorem Shows.resolves {c : RenderContext} {visible : List Slot} (h : c.Shows visible)
    {d : Dialect} {slot : Slot} {e : Expr} {ts : List Token}
    (he : e.render d (c.resolver slot) = .ok ts) : e.Resolves c.aliases visible := by
  intro a ha
  obtain ⟨name, hname⟩ := e.resolves_of_render he a ha
  obtain ⟨t, ht, hshown, -⟩ := resolve_eq_ok hname
  exact ⟨t, h a t ht hshown, ht⟩

end RenderContext

/-! ## conditions -/

mutual

/-- The columns of the condition are those of visible table instances, where `P` says what that
means for an expression.  A subquery adds its tables to those that are visible around it. -/
inductive Condition.Sees (P : List Slot → Expr → Prop) : List Slot → Condition → Prop where
  | keys {visible : List Slot} {left right : Slot} {columns : List (String × String)}
      (left_mem : left ∈ visible) (right_mem : right ∈ visible) :
      Condition.Sees P visible (.keys left right columns)
  | expr {visible : List Slot} {e : Expr} {slot : Slot} (mem : slot ∈ visible)
      (resolves : P visible e) : Condition.Sees P visible (.expr e slot)
  | existence {visible : List Slot} {q : SubQuery} (subquery : SubQuery.Sees P visible q) :
      Condition.Sees P visible (.existence q)

inductive SubQuery.Sees (P : List Slot → Expr → Prop) : List Slot → SubQuery → Prop where
  | mk {visible slots : List Slot} {slot : Slot} {table : Table} {joins : List Join}
      {conditions : List Condition} (own : slots = slot :: joins.map Join.slot)
      (joined : ∀ j ∈ joins, ∀ c ∈ j.on, Condition.Sees P (slots ++ visible) c)
      (filtered : ∀ c ∈ conditions, Condition.Sees P (slots ++ visible) c) :
      SubQuery.Sees P visible (.mk slot slots table joins conditions)

end

/-- The tables that the condition compares and that it attaches expressions to are visible. -/
def Condition.Within : List Slot → Condition → Prop := Condition.Sees fun _ _ => True

def SubQuery.Within : List Slot → SubQuery → Prop := SubQuery.Sees fun _ _ => True

mutual

/-- The table instances of the subqueries of the condition. -/
def Condition.owned : Condition → List Slot
  | .keys .. | .expr .. => []
  | .existence q => SubQuery.owned q

def Condition.ownedAll : List Condition → List Slot
  | [] => []
  | c :: cs => Condition.owned c ++ Condition.ownedAll cs

def Join.ownedAll : List Join → List Slot
  | [] => []
  | .mk _ _ _ on :: js => Condition.ownedAll on ++ Join.ownedAll js

/-- The table instances of the subquery and of the subqueries in it. -/
def SubQuery.owned : SubQuery → List Slot
  | .mk _ slots _ joins conditions => slots ++ Join.ownedAll joins ++ Condition.ownedAll conditions

end

mutual

/-- What is rendered refers to visible tables, handles included. -/
theorem Condition.sees_of_render {d : Dialect} {c : RenderContext} {visible : List Slot}
    (hc : c.Shows visible) : (x : Condition) → {ts : List Token} → x.Within visible →
    x.render d c = .ok ts → x.Sees (Expr.Resolves c.aliases) visible
  | .keys left right columns, ts, hx, h => by
    cases hx with
    | keys hleft hright => exact .keys hleft hright
  | .expr e slot, ts, hx, h => by
    simp only [Condition.render, Expr.renderConjunct, bind_eq_ok] at h
    obtain ⟨_, he, -⟩ := h
    cases hx with
    | expr hslot _ => exact .expr hslot (hc.resolves he)
  | .existence q, ts, hx, h => by
    simp only [Condition.render, bind_eq_ok] at h
    obtain ⟨_, hq, -⟩ := h
    cases hx with
    | existence hx => exact .existence (SubQuery.sees_of_render hc q hx hq)

theorem Condition.sees_of_renderAll {d : Dialect} {c : RenderContext} {visible : List Slot}
    (hc : c.Shows visible) : (xs : List Condition) → {tss : List (List Token)} →
    (∀ x ∈ xs, x.Within visible) → Condition.renderAll d c xs = .ok tss →
    ∀ x ∈ xs, x.Sees (Expr.Resolves c.aliases) visible
  | [], tss, hxs, h => List.forall_mem_nil _
  | x :: xs, tss, hxs, h => by
    simp only [Condition.renderAll, bind_eq_ok] at h
    obtain ⟨_, hx, _, hrest, -⟩ := h
    obtain ⟨hwithin, hwithins⟩ := List.forall_mem_cons.1 hxs
    exact List.forall_mem_cons.2
      ⟨Condition.sees_of_render hc x hwithin hx, Condition.sees_of_renderAll hc xs hwithins hrest⟩

theorem Join.sees_of_renderAll {d : Dialect} {c : RenderContext} {visible : List Slot}
    (hc : c.Shows visible) : (js : List Join) → {ts : List Token} →
    (∀ j ∈ js, ∀ x ∈ j.on, x.Within visible) → Join.renderAll d c js = .ok ts →
    ∀ j ∈ js, ∀ x ∈ j.on, x.Sees (Expr.Resolves c.aliases) visible
  | [], ts, hjs, h => List.forall_mem_nil _
  | .mk kind slot table on :: js, ts, hjs, h => by
    simp only [Join.renderAll, Join.render, bind_eq_ok] at h
    obtain ⟨_, ⟨_, hon, -⟩, _, hrest, -⟩ := h
    obtain ⟨hwithin, hwithins⟩ := List.forall_mem_cons.1 hjs
    exact List.forall_mem_cons.2
      ⟨Condition.sees_of_renderAll hc on hwithin hon, Join.sees_of_renderAll hc js hwithins hrest⟩

theorem SubQuery.sees_of_render {d : Dialect} {c : RenderContext} {visible : List Slot}
    (hc : c.Shows visible) : (q : SubQuery) → {ts : List Token} → q.Within visible →
    q.render d c = .ok ts → q.Sees (Expr.Resolves c.aliases) visible
  | .mk slot slots table joins conditions, ts, hq, h => by
    simp only [SubQuery.render, bind_eq_ok] at h
    obtain ⟨_, hjoins, _, hconditions, -⟩ := h
    cases hq with
    | mk own joined filtered =>
      exact .mk own (Join.sees_of_renderAll (hc.inside slots) joins joined hjoins)
        (Condition.sees_of_renderAll (hc.inside slots) conditions filtered hconditions)

end

/-! ## statements -/

/-- The item has columns of visible tables only. -/
def SelectItem.Sees (P : List Slot → Expr → Prop) (visible : List Slot) : SelectItem → Prop
  | star slot | column slot _ _ => slot ∈ visible
  | expr e slot _ => slot ∈ visible ∧ P visible e

namespace Statement

/-- The table instances outside of subqueries. -/
def slots (s : Statement) : List Slot := s.root :: s.joins.map Join.slot

/-- The table instances of the statement's subqueries. -/
def owned (s : Statement) : List Slot :=
  Join.ownedAll s.joins ++ Condition.ownedAll s.filters ++ Condition.ownedAll s.having

/-- All columns of the statement are those of table instances that are visible where they
stand, and every table instance stands at one place of the statement.  Columns are written with
the aliases of their table instances. -/
structure Scoped (s : Statement) : Prop where
  slots : (s.slots ++ s.owned).Perm ((List.range s.aliases.names.length).map Slot.mk)
  select : ∀ i ∈ s.select, i.Sees (Expr.Resolves s.aliases) s.slots
  joins : ∀ j ∈ s.joins, ∀ c ∈ j.on, c.Sees (Expr.Resolves s.aliases) s.slots
  keyFilter : ∀ f ∈ s.keyFilter, f.slot ∈ s.slots
  filters : ∀ c ∈ s.filters, c.Sees (Expr.Resolves s.aliases) s.slots
  having : ∀ c ∈ s.having, c.Sees (Expr.Resolves s.aliases) s.slots
  order : ∀ o ∈ s.order, o.2 ∈ s.slots ∧ o.1.expr.Resolves s.aliases s.slots
  written : ∀ d keys ts, s.render d keys = .ok ts → s.qualified.render d keys = .ok ts

/-- No table stands at two places. -/
theorem Scoped.nodup {s : Statement} (h : s.Scoped) : (s.slots ++ s.owned).Nodup := by
  rw [h.slots.nodup_iff]
  exact List.Nodup.map (fun _ _ heq => congrArg Slot.index heq) List.nodup_range

end Statement

end AssociationQuery
