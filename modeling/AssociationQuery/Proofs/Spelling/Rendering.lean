import AssociationQuery.Proofs.Placeholders.Values
import AssociationQuery.Proofs.Spelling.Runs

/-!
# AssociationQuery.Proofs.Spelling.Rendering

One statement rendered twice.

A dialect and the names of the table instances decide how a statement is spelled.  Which
names can be looked up and which values are bound does not depend on them: two renderings
fail with one error or bind the same values, `Statement.Matches.agree_bind`.  All that can go
wrong is that a name cannot be looked up.
-/

namespace AssociationQuery

/-! ## expressions -/

/-- An error of looking a name up. -/
inductive IsLookupFault : AssociationError → Prop
  | undefined (shown : String) : IsLookupFault (.undefinedAlias shown)
  | hidden (shown : String) : IsLookupFault (.hiddenAlias shown)
  | offBase (association : String) : IsLookupFault (.aggregateOffBase association)

/-- The same handles and aggregates can be looked up, whatever the names are. -/
structure Resolver.Matches (r s : Resolver) : Prop where
  handle (a : TableAlias) : RunsAgree IsLookupFault (fun _ _ => True) (r.handle a) (s.handle a)
  aggregate (a : Association) :
    RunsAgree IsLookupFault (fun _ _ => True) (r.aggregate a) (s.aggregate a)

section expressions

variable {d d' : Dialect} {r s : Resolver}

mutual

/-- Both renderings of an expression have tokens, or a name is not found. -/
theorem Expr.agree_render (h : r.Matches s) : (e : Expr) →
    RunsAgree IsLookupFault (fun _ _ => True) (e.render d r) (e.render d' s)
  | .column .current name => by
    simp only [Expr.render]
    cases r.current <;> cases s.current <;> exact .ok trivial
  | .column (.handle a) name => (h.handle a).bind fun _ _ _ => .ok trivial
  | .column (.named table) name => .ok trivial
  | .literal v => .ok trivial
  | .binary o a b =>
    (Expr.agree_render h a).bind fun _ _ _ => (Expr.agree_render h b).bind fun _ _ _ => by
      -- one dialect writes some operators as a call, with a comma between the operands
      split <;> split <;> exact .ok trivial
  | .unary o a => (Expr.agree_render h a).bind fun _ _ _ => by cases o <;> exact .ok trivial
  | .call f args => (Expr.agree_renderAll h args).bind fun _ _ _ => .ok trivial
  | .inList _ [] negated => .ok trivial
  | .inList a (v :: vs) negated =>
    (Expr.agree_render h a).bind fun _ _ _ =>
      (Expr.agree_renderAll h (v :: vs)).bind fun _ _ _ => .ok trivial
  | .isNull a negated => (Expr.agree_render h a).bind fun _ _ _ => .ok trivial
  | .like a pattern negated => (Expr.agree_render h a).bind fun _ _ _ => .ok trivial
  | .raw sql => .ok trivial
  | .paren a => (Expr.agree_render h a).bind fun _ _ _ => .ok trivial
  | .countStar => .ok trivial
  | .aggregate f a c => (h.aggregate a).bind fun _ _ _ => .ok trivial

theorem Expr.agree_renderAll (h : r.Matches s) : (es : List Expr) →
    RunsAgree IsLookupFault (fun _ _ => True) (Expr.renderAll d r es) (Expr.renderAll d' s es)
  | [] => .ok trivial
  | e :: es =>
    (Expr.agree_render h e).bind fun _ _ _ =>
      (Expr.agree_renderAll h es).bind fun _ _ _ => .ok trivial

end

/-- Both renderings of an ordering have tokens, or a name is not found. -/
theorem OrderTerm.agree_render (h : r.Matches s) (o : OrderTerm) :
    RunsAgree IsLookupFault (fun _ _ => True) (o.render d r) (o.render d' s) := by
  refine (o.expr.agree_render h).bind fun ts us _ => ?_
  cases o.nulls with
  | none => exact .ok trivial
  | some place => cases place <;> cases d <;> cases d' <;> exact .ok trivial

end expressions

/-! ## conditions and joins -/

namespace RenderContext

/-- The two contexts differ in nothing but the names of the table instances. -/
structure Matches (c c' : RenderContext) : Prop where
  handles : c'.aliases.handles = c.aliases.handles
  aggregates : c'.aggregates = c.aggregates
  hidden : c'.hidden = c.hidden

variable {c c' : RenderContext}

/-- Inside a subquery the contexts still differ in names only. -/
theorem Matches.inside (h : c.Matches c') (slots : List Slot) :
    (c.inside slots).Matches (c'.inside slots) where
  handles := h.handles
  aggregates := h.aggregates
  hidden := congrArg (List.filter _) h.hidden

/-- The same handles and aggregates are found in both contexts. -/
theorem Matches.resolver (h : c.Matches c') (slot : Slot) :
    (c.resolver slot).Matches (c'.resolver slot) where
  handle a := by
    simp only [RenderContext.resolver, resolve, AliasMap.slotOf?, h.handles, h.hidden]
    cases c.aliases.handles.lookup a.id with
    | none => exact .error (.undefined _)
    | some owner =>
      dsimp only
      split
      · exact .error (.hidden _)
      · exact .ok trivial
  aggregate a := by
    simp only [RenderContext.resolver, resolveAggregate, h.aggregates]
    cases c.aggregates.find? fun p => p.1.equal a with
    | none => exact .error (.offBase _)
    | some p => exact .ok trivial

end RenderContext

section conditions

variable {d d' : Dialect}

mutual

/-- Both renderings of a condition have tokens, or a name is not found. -/
theorem Condition.agree_render : (x : Condition) → {c c' : RenderContext} → c.Matches c' →
    RunsAgree IsLookupFault (fun _ _ => True) (x.render d c) (x.render d' c')
  | .keys .., _, _, _ => .ok trivial
  | .expr e slot, _, _, h => (e.agree_render (h.resolver slot)).bind fun _ _ _ => .ok trivial
  | .existence q, _, _, h => (SubQuery.agree_render q h).bind fun _ _ _ => .ok trivial

theorem Condition.agree_renderAll : (xs : List Condition) → {c c' : RenderContext} →
    c.Matches c' → RunsAgree IsLookupFault (fun _ _ => True) (Condition.renderAll d c xs)
      (Condition.renderAll d' c' xs)
  | [], _, _, _ => .ok trivial
  | x :: xs, _, _, h =>
    (Condition.agree_render x h).bind fun _ _ _ =>
      (Condition.agree_renderAll xs h).bind fun _ _ _ => .ok trivial

theorem Join.agree_renderAll : (js : List Join) → {c c' : RenderContext} → c.Matches c' →
    RunsAgree IsLookupFault (fun _ _ => True) (Join.renderAll d c js) (Join.renderAll d' c' js)
  | [], _, _, _ => .ok trivial
  | .mk _ _ _ on :: js, c, c', h => by
    refine RunsAgree.bind (R := fun _ _ => True) ?_ fun _ _ _ =>
      (Join.agree_renderAll js h).bind fun _ _ _ => .ok trivial
    exact (Condition.agree_renderAll on h).bind fun _ _ _ => .ok trivial

theorem SubQuery.agree_render : (q : SubQuery) → {c c' : RenderContext} → c.Matches c' →
    RunsAgree IsLookupFault (fun _ _ => True) (q.render d c) (q.render d' c')
  | .mk _ slots _ joins conditions, _, _, h =>
    (Join.agree_renderAll joins (h.inside slots)).bind fun _ _ _ =>
      (Condition.agree_renderAll conditions (h.inside slots)).bind fun _ _ _ => .ok trivial

end

end conditions

/-! ## statements -/

/-- The two items differ at most in the name of a column. -/
inductive SelectItem.Matches : SelectItem → SelectItem → Prop
  | same (i : SelectItem) : Matches i i
  | column (slot : Slot) (column name name' : String) :
    Matches (.column slot column name) (.column slot column name')

namespace SelectItem.Matches

variable {i i' : SelectItem}

/-- Both renderings of an item have tokens, or a name is not found. -/
theorem agree_render {d d' : Dialect} {c c' : RenderContext} (h : c.Matches c')
    (hi : i.Matches i') :
    RunsAgree IsLookupFault (fun _ _ => True) (i.render d c) (i'.render d' c') := by
  cases hi with
  | same =>
    cases i with
    | star slot => exact .ok trivial
    | expr e slot name => exact (e.agree_render (h.resolver slot)).bind fun _ _ _ => .ok trivial
    | column slot name label => exact .ok trivial
  | column slot name label label' => exact .ok trivial

/-- The expression of an item does not depend on the name of a column. -/
theorem exprs_eq (hi : i.Matches i') : i.exprs = i'.exprs := by
  cases hi <;> rfl

end SelectItem.Matches

namespace Statement

/-- The two statements differ in nothing but the names of table instances and selected
columns. -/
structure Matches (s t : Statement) : Prop where
  handles : t.aliases.handles = s.aliases.handles
  select : List.Forall₂ SelectItem.Matches s.select t.select
  eq : t = { s with aliases := t.aliases, select := t.select }

/-- Two renderings of a statement for the same keys both have tokens, or fail with one error. -/
theorem Matches.agree_render {s t : Statement} (h : s.Matches t) (d d' : Dialect)
    (keys : List (List Value)) :
    RunsAgree IsLookupFault (fun _ _ => True) (s.render d keys) (t.render d' keys) := by
  obtain ⟨aliases, select, ht⟩ : ∃ aliases select, t = { s with aliases, select } := ⟨_, _, h.eq⟩
  subst ht
  have hcontext : s.context.Matches { s.context with aliases } := ⟨h.handles, rfl, rfl⟩
  have horder : List.Forall₂ (fun o o' : OrderTerm × Slot =>
      RunsAgree IsLookupFault (fun _ _ => True) (o.1.render d (s.context.resolver o.2))
        (o'.1.render d' (RenderContext.resolver { s.context with aliases } o'.2)))
      s.order s.order :=
    List.forall₂_same.2 fun o _ => o.1.agree_render (hcontext.resolver o.2)
  exact (RunsAgree.mapM (h.select.imp fun _ _ hi => hi.agree_render hcontext)).bind fun _ _ _ =>
    (Join.agree_renderAll s.joins hcontext).bind fun _ _ _ =>
      (Condition.agree_renderAll s.filters hcontext).bind fun _ _ _ =>
        (Condition.agree_renderAll s.having hcontext).bind fun _ _ _ =>
          (RunsAgree.mapM horder).bind fun _ _ _ => .ok trivial

/-- The values of a statement do not depend on its names. -/
theorem Matches.values_eq {s t : Statement} (h : s.Matches t) (keys : List (List Value)) :
    s.values keys = t.values keys := by
  have hselect : s.select.map SelectItem.exprs = t.select.map SelectItem.exprs := by
    have hexprs :
        List.Forall₂ Eq (s.select.map SelectItem.exprs) (t.select.map SelectItem.exprs) := by
      rw [List.forall₂_map_left_iff, List.forall₂_map_right_iff]
      exact h.select.imp fun _ _ hi => hi.exprs_eq
    rwa [List.forall₂_eq_eq_eq] at hexprs
  rw [h.eq, values, values, exprsBefore, exprsBefore, List.flatMap_def, List.flatMap_def, hselect]
  rfl

/-- Rendered for the same keys, the two statements have the same values in the same order. -/
theorem Matches.params_eq {s t : Statement} (h : s.Matches t) {d d' : Dialect}
    {keys : List (List Value)} {ts us : List Token} (hts : s.render d keys = .ok ts)
    (hus : t.render d' keys = .ok us) : Token.params ts = Token.params us := by
  rw [params_render hts, params_render hus, h.values_eq]

/-- Two renderings of a statement for the same keys bind the same values. -/
theorem Matches.agree_bind {s t : Statement} (h : s.Matches t) (d d' : Dialect)
    (keys : List (List Value)) :
    RunsAgree IsLookupFault (fun b b' : BoundSql => b.params = b'.params) (s.bind d keys)
      (t.bind d' keys) :=
  (h.agree_render d d' keys).known.bind fun _ _ ⟨_, hts, hus⟩ =>
    .ok (h.params_eq hts hus)

end Statement

end AssociationQuery
