import AssociationQuery.Proofs.Result
import AssociationQuery.Statement.Render

/-!
# AssociationQuery.Proofs.Placeholders.Values

The values that a statement binds, from left to right.

Which they are can be told without rendering anything: a statement binds the values in the
expressions of its clauses, with the keys before those of its filters.  Neither the dialect nor
the names of the table instances matter, and whatever SQL text the expressions hold, the tokens
that are rendered bind these values, `Statement.params_render`.
-/

namespace AssociationQuery

/-! ## values -/

namespace Expr

mutual

/-- The values in the expression that are bound, from left to right: literals and patterns.
Without values to compare with, nothing of an operand is bound. -/
def values : Expr → List Value
  | literal v => [v]
  | binary _ a b => values a ++ values b
  | unary _ a | isNull a _ | paren a => values a
  | like a pattern _ => values a ++ [.text pattern]
  | call _ args => valuesAll args
  | inList _ [] _ => []
  | inList a (v :: vs) _ => values a ++ valuesAll (v :: vs)
  | column .. | raw _ | countStar | aggregate .. => []

def valuesAll : List Expr → List Value
  | [] => []
  | e :: es => values e ++ valuesAll es

end

end Expr

mutual

/-- The expressions in the condition, from left to right. -/
def Condition.exprs : Condition → List Expr
  | .keys .. => []
  | .expr e _ => [e]
  | .existence q => SubQuery.exprs q

def Condition.exprsAll : List Condition → List Expr
  | [] => []
  | c :: cs => Condition.exprs c ++ Condition.exprsAll cs

def Join.exprsAll : List Join → List Expr
  | [] => []
  | .mk _ _ _ on :: js => Condition.exprsAll on ++ Join.exprsAll js

def SubQuery.exprs : SubQuery → List Expr
  | .mk _ _ _ joins conditions => Join.exprsAll joins ++ Condition.exprsAll conditions

end

def SelectItem.exprs : SelectItem → List Expr
  | expr e _ _ => [e]
  | star _ | column .. => []

namespace Statement

/-- The expressions of the statement before the condition on its keys, and those behind it. -/
def exprsBefore (s : Statement) : List Expr :=
  s.select.flatMap SelectItem.exprs ++ Join.exprsAll s.joins

def exprsAfter (s : Statement) : List Expr :=
  Condition.exprsAll s.filters ++ Condition.exprsAll s.having ++ s.order.map fun o => o.1.expr

/-- The values that the statement binds for a list of keys, from left to right. -/
def values (s : Statement) (keys : List (List Value)) : List Value :=
  s.exprsBefore.flatMap Expr.values ++ (if s.keyFilter.isSome then keys.flatten else []) ++
    s.exprsAfter.flatMap Expr.values

end Statement

/-! ## the values of tokens -/

namespace Token

@[simp] theorem params_word (w : Keyword) (ts : List Token) :
    params (.word w :: ts) = params ts := rfl

@[simp] theorem params_op (o : BinaryOp) (ts : List Token) : params (.op o :: ts) = params ts := rfl

@[simp] theorem params_call (f : String) (ts : List Token) :
    params (.call f :: ts) = params ts := rfl

@[simp] theorem params_ident (name : String) (ts : List Token) :
    params (.ident name :: ts) = params ts := rfl

@[simp] theorem params_raw (sql : String) (ts : List Token) :
    params (.raw sql :: ts) = params ts := rfl

@[simp] theorem params_number (n : Nat) (ts : List Token) :
    params (.number n :: ts) = params ts := rfl

@[simp] theorem params_param (v : Value) (ts : List Token) :
    params (.param v :: ts) = v :: params ts := rfl

@[simp] theorem params_column (table name : String) : params (column table name) = [] := rfl

/-- Brackets hold no values. -/
@[simp] theorem params_bracketed (wrap : Bool) (ts : List Token) :
    params (bracketed wrap ts) = params ts := by
  cases wrap <;> simp [bracketed]

/-- What stands between lists of tokens binds nothing. -/
theorem params_separated {between : Token} (h : params [between] = []) :
    (parts : List (List Token)) → params (separated between parts) = parts.flatMap params
  | [] => rfl
  | [ts] => by simp [separated]
  | ts :: us :: rest => by
    rw [separated, params_append, params_cons, h, List.nil_append, params_separated h (us :: rest),
      ← List.flatMap_cons]

@[simp] theorem params_listed (parts : List (List Token)) :
    params (listed parts) = parts.flatMap params := params_separated rfl parts

@[simp] theorem params_conjoined (parts : List (List Token)) :
    params (conjoined parts) = parts.flatMap params := params_separated rfl parts

/-- A clause binds what its terms bind, also when it is left out for want of terms. -/
theorem params_clause {w : Keyword} {joined : List (List Token) → List Token}
    (h : ∀ parts, params (joined parts) = parts.flatMap params) (parts : List (List Token)) :
    params (clause w parts joined) = parts.flatMap params := by
  cases parts with
  | nil => rfl
  | cons ts parts => exact h (ts :: parts)

end Token

open Token (params)

/-- What is written around the column of an aggregate holds no values. -/
@[simp] theorem AggregateFunction.params_tokens (f : AggregateFunction) (destination : Table)
    (table : String) (column : Option String) :
    params (f.tokens destination table column) = [] := by
  cases f <;> rfl

/-! ## expressions -/

namespace Expr

variable {d : Dialect} {r : Resolver}

mutual

/-- What is rendered for an expression binds the values in it. -/
theorem params_render : (e : Expr) → {ts : List Token} → e.render d r = .ok ts →
    params ts = e.values
  | column .current name, ts, h => by
    rw [render] at h
    split at h
    · exact Except.ok.inj h ▸ rfl
    · exact Except.ok.inj h ▸ rfl
  | column (.handle a) name, ts, h => by
    simp only [render, bind_eq_ok, pure_eq_ok] at h
    obtain ⟨_, -, rfl⟩ := h
    rfl
  | column (.named table) name, ts, h => Except.ok.inj h ▸ rfl
  | literal v, ts, h => Except.ok.inj h ▸ rfl
  | binary o a b, ts, h => by
    simp only [render, bind_eq_ok] at h
    obtain ⟨left, hleft, right, hright, h⟩ := h
    have ha := params_render a hleft
    have hb := params_render b hright
    -- a call with a comma or an operator between the operands
    split_ifs at h
    · obtain rfl := pure_eq_ok.1 h
      simp [values, ha, hb]
    · obtain rfl := pure_eq_ok.1 h
      simp [values, ha, hb]
  | unary o a, ts, h => by
    simp only [render, bind_eq_ok] at h
    obtain ⟨operand, hoperand, h⟩ := h
    have ha := params_render a hoperand
    cases o with
    | not =>
      obtain rfl := pure_eq_ok.1 h
      simp [values, ha]
    | neg =>
      obtain rfl := pure_eq_ok.1 h
      simp [values, ha]
  | call f args, ts, h => by
    simp only [render, bind_eq_ok, pure_eq_ok] at h
    obtain ⟨parts, hparts, rfl⟩ := h
    simp [values, params_renderAll args hparts]
  | inList _ [] negated, ts, h => Except.ok.inj h ▸ rfl
  | inList a (v :: vs) negated, ts, h => by
    simp only [render, bind_eq_ok, pure_eq_ok] at h
    obtain ⟨operand, hoperand, parts, hparts, rfl⟩ := h
    simp [values, params_render a hoperand, params_renderAll (v :: vs) hparts]
  | isNull a negated, ts, h => by
    simp only [render, bind_eq_ok, pure_eq_ok] at h
    obtain ⟨operand, hoperand, rfl⟩ := h
    simp [values, params_render a hoperand]
  | like a pattern negated, ts, h => by
    simp only [render, bind_eq_ok, pure_eq_ok] at h
    obtain ⟨operand, hoperand, rfl⟩ := h
    simp [values, params_render a hoperand]
  | raw sql, ts, h => Except.ok.inj h ▸ rfl
  | paren a, ts, h => by
    simp only [render, bind_eq_ok, pure_eq_ok] at h
    obtain ⟨operand, hoperand, rfl⟩ := h
    simp [values, params_render a hoperand]
  | countStar, ts, h => Except.ok.inj h ▸ rfl
  | aggregate f a c, ts, h => by
    simp only [render, bind_eq_ok, pure_eq_ok] at h
    obtain ⟨_, -, rfl⟩ := h
    simp [values]

theorem params_renderAll : (es : List Expr) → {parts : List (List Token)} →
    renderAll d r es = .ok parts → parts.flatMap params = valuesAll es
  | [], parts, h => Except.ok.inj h ▸ rfl
  | e :: es, parts, h => by
    simp only [renderAll, bind_eq_ok, pure_eq_ok] at h
    obtain ⟨ts, hts, rest, hrest, rfl⟩ := h
    rw [List.flatMap_cons, params_render e hts, params_renderAll es hrest, valuesAll]

end

end Expr

/-- Written twice, the expression of an ordering binds its values the first time only. -/
theorem OrderTerm.params_render {d : Dialect} {r : Resolver} {o : OrderTerm} {ts : List Token}
    (h : o.render d r = .ok ts) : params ts = o.expr.values := by
  simp only [OrderTerm.render, bind_eq_ok] at h
  obtain ⟨us, hus, h⟩ := h
  rw [← o.expr.params_render hus]
  split at h <;>
  · obtain rfl := pure_eq_ok.1 h
    simp

/-! ## conditions -/

@[simp] theorem RenderContext.params_tableRef (c : RenderContext) (table : Table) (slot : Slot) :
    params (c.tableRef table slot) = [] := by
  unfold tableRef
  split <;> rfl

@[simp] theorem params_keyTokens (c : RenderContext) (left right : Slot)
    (columns : List (String × String)) : params (keyTokens c left right columns) = [] := by
  simp [keyTokens, List.flatMap_map]

section conditions

variable {d : Dialect}

mutual

/-- A condition brings the values of its expressions, in their order. -/
theorem Condition.params_render : (x : Condition) → {c : RenderContext} → {ts : List Token} →
    x.render d c = .ok ts → params ts = x.exprs.flatMap Expr.values
  | .keys left right columns, c, ts, h => by
    obtain rfl := Except.ok.inj h
    exact params_keyTokens c left right columns
  | .expr e slot, c, ts, h => by
    simp only [Condition.render, Expr.renderConjunct, bind_eq_ok, pure_eq_ok] at h
    obtain ⟨_, he, rfl⟩ := h
    simp [Condition.exprs, e.params_render he]
  | .existence q, c, ts, h => by
    simp only [Condition.render, bind_eq_ok, pure_eq_ok] at h
    obtain ⟨_, hq, rfl⟩ := h
    simp [Condition.exprs, SubQuery.params_render q hq]

theorem Condition.params_renderAll : (xs : List Condition) → {c : RenderContext} →
    {parts : List (List Token)} → Condition.renderAll d c xs = .ok parts →
    parts.flatMap params = (Condition.exprsAll xs).flatMap Expr.values
  | [], c, parts, h => Except.ok.inj h ▸ rfl
  | x :: xs, c, parts, h => by
    simp only [Condition.renderAll, bind_eq_ok, pure_eq_ok] at h
    obtain ⟨ts, hts, rest, hrest, rfl⟩ := h
    rw [List.flatMap_cons, Condition.params_render x hts, Condition.params_renderAll xs hrest,
      Condition.exprsAll, List.flatMap_append]

theorem Join.params_renderAll : (js : List Join) → {c : RenderContext} → {ts : List Token} →
    Join.renderAll d c js = .ok ts → params ts = (Join.exprsAll js).flatMap Expr.values
  | [], c, ts, h => Except.ok.inj h ▸ rfl
  | .mk kind slot table on :: js, c, ts, h => by
    simp only [Join.renderAll, Join.render, bind_eq_ok, pure_eq_ok] at h
    obtain ⟨_, ⟨parts, hparts, rfl⟩, rest, hrest, rfl⟩ := h
    simp [Join.exprsAll, Condition.params_renderAll on hparts, Join.params_renderAll js hrest]

theorem SubQuery.params_render : (q : SubQuery) → {c : RenderContext} → {ts : List Token} →
    q.render d c = .ok ts → params ts = q.exprs.flatMap Expr.values
  | .mk slot slots table joins conditions, c, ts, h => by
    simp only [SubQuery.render, bind_eq_ok, pure_eq_ok] at h
    obtain ⟨joined, hjoined, parts, hparts, rfl⟩ := h
    have hconditions := Condition.params_renderAll conditions hparts
    have hfiltered : params
        (if conditions.isEmpty then [] else .word .whereClause :: Token.conjoined parts) =
          (Condition.exprsAll conditions).flatMap Expr.values := by
      cases conditions with
      | nil => rfl
      | cons => simpa using hconditions
    rw [SubQuery.exprs, List.flatMap_append, Token.params_append, hfiltered]
    simp [Join.params_renderAll joins hjoined]

end

end conditions

/-! ## statements -/

/-- An item brings the values of its expression. -/
theorem SelectItem.params_render {d : Dialect} {c : RenderContext} {i : SelectItem}
    {ts : List Token} (h : i.render d c = .ok ts) : params ts = i.exprs.flatMap Expr.values := by
  cases i with
  | star slot => exact Except.ok.inj h ▸ rfl
  | expr e slot name =>
    simp only [SelectItem.render, bind_eq_ok, pure_eq_ok] at h
    obtain ⟨_, he, rfl⟩ := h
    simpa [SelectItem.exprs] using e.params_render he
  | column slot name label => exact Except.ok.inj h ▸ rfl

/-- A tuple of keys brings its values. -/
@[simp] theorem params_keyTuple (vs : List Value) : params (keyTuple vs) = vs := by
  unfold keyTuple
  split <;> simp [List.flatMap_map]

/-- The condition on the keys binds the parts of the keys, key by key. -/
@[simp] theorem KeyFilter.params_tokens (c : RenderContext) (f : KeyFilter)
    (keys : List (List Value)) : params (f.tokens c keys) = keys.flatten := by
  cases keys with
  | nil => rfl
  | cons k ks => simp [KeyFilter.tokens, List.flatMap_map, List.flatMap_id']

/-- The page is written without parameters. -/
@[simp] theorem params_pageTokens (d : Dialect) (limit offset : Option Nat) :
    params (pageTokens d limit offset) = [] := by
  cases limit <;> cases offset <;> cases d <;> rfl

/-- The results of work along a list, put together. -/
theorem flatMap_of_mapM {f : α → Except ε β} {g : β → List γ} {g' : α → List γ} {xs : List α}
    {ys : List β} (hfg : ∀ x y, f x = .ok y → g y = g' x) (h : xs.mapM f = .ok ys) :
    ys.flatMap g = xs.flatMap g' := by
  have hmap : List.Forall₂ Eq (ys.map g) (xs.map g') :=
    List.forall₂_map_left_iff.2 (forall₂_of_mapM (fun x _ y => hfg x y) h)
  rw [List.forall₂_eq_eq_eq] at hmap
  rw [List.flatMap_def, List.flatMap_def, hmap]

/-- What is rendered for a statement binds the values of the statement. -/
theorem Statement.params_render {d : Dialect} {s : Statement} {keys : List (List Value)}
    {ts : List Token} (h : s.render d keys = .ok ts) : params ts = s.values keys := by
  simp only [render, bind_eq_ok, pure_eq_ok] at h
  obtain ⟨select, hselect, joins, hjoins, filters, hfilters, having, hhaving, order, horder, rfl⟩ :=
    h
  have hselect := flatMap_of_mapM (fun i ts => SelectItem.params_render) hselect
  have horder := flatMap_of_mapM (fun o ts => OrderTerm.params_render) horder
  have hhead : params (if s.distinct then [Token.word .distinct] else []) = [] := by
    cases s.distinct <;> rfl
  have hkeys : (s.keyFilter.toList.map fun f => f.tokens s.context keys).flatMap params =
      if s.keyFilter.isSome then keys.flatten else [] := by
    cases s.keyFilter <;> simp
  simp [hhead, Token.params_clause Token.params_listed, Token.params_clause Token.params_conjoined,
    hselect, hkeys, horder, Join.params_renderAll _ hjoins, Condition.params_renderAll _ hfilters,
    Condition.params_renderAll _ hhaving, values, exprsBefore, exprsAfter, List.flatMap_assoc,
    List.flatMap_map]

end AssociationQuery
