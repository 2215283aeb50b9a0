import AssociationQuery.Statement.Render

/-!
# AssociationQuery.Proofs.Spelling.Rerooting

Expressions moved onto another table.

A filter that is written for one table can be moved onto the table instance of a handle, or be
attached to that instance from the start.  Both are written alike, whatever table the moved one is
attached to: `RenderContext.rerooting_attaches`.  What is wrong with one is wrong with the other.
-/

namespace AssociationQuery

/-- What is on a table already stays there. -/
theorem TableRef.rerooted_rerooted (a b : TableAlias) (t : TableRef) :
    (t.rerooted a).rerooted b = t.rerooted a := by
  cases t <;> rfl

namespace Expr

/-! ## aggregates -/

mutual

/-- The aggregates of the expression, from left to right: their functions, associations and
columns. -/
def aggregateTerms : Expr → List (AggregateFunction × Association × Option String)
  | aggregate f a c => [(f, a, c)]
  | binary _ a b => aggregateTerms a ++ aggregateTerms b
  | unary _ a | isNull a _ | like a _ _ | paren a => aggregateTerms a
  | call _ args => aggregateTermsAll args
  | inList a vs _ => aggregateTerms a ++ aggregateTermsAll vs
  | column .. | literal _ | raw _ | countStar => []

def aggregateTermsAll : List Expr → List (AggregateFunction × Association × Option String)
  | [] => []
  | e :: es => aggregateTerms e ++ aggregateTermsAll es

end

mutual

/-- The terms are those of the aggregates. -/
theorem map_aggregateTerms : (e : Expr) → e.aggregateTerms.map (fun x => x.2.1) = e.aggregates
  | .binary _ x y => by
    rw [aggregateTerms, aggregates, List.map_append, map_aggregateTerms x, map_aggregateTerms y]
  | .unary _ x | .isNull x _ | .like x _ _ | .paren x => map_aggregateTerms x
  | .call _ args => map_aggregateTermsAll args
  | .inList x vs _ => by
    rw [aggregateTerms, aggregates, List.map_append, map_aggregateTerms x,
      map_aggregateTermsAll vs]
  | .column .. | .literal _ | .raw _ | .countStar | .aggregate .. => rfl

theorem map_aggregateTermsAll :
    (es : List Expr) → (aggregateTermsAll es).map (fun x => x.2.1) = aggregatesAll es
  | [] => rfl
  | e :: es => by
    rw [aggregateTermsAll, aggregatesAll, List.map_append, map_aggregateTerms e,
      map_aggregateTermsAll es]

end

section rerooted

variable (a : TableAlias)

mutual

/-- Moving an expression leaves its aggregates as they are. -/
theorem aggregateTerms_rerooted : (e : Expr) → (e.rerooted a).aggregateTerms = e.aggregateTerms
  | .binary _ x y => by
    rw [rerooted, aggregateTerms, aggregateTerms, aggregateTerms_rerooted x,
      aggregateTerms_rerooted y]
  | .unary _ x | .isNull x _ | .like x _ _ | .paren x => aggregateTerms_rerooted x
  | .call _ args => aggregateTermsAll_rerootedAll args
  | .inList x vs _ => by
    rw [rerooted, aggregateTerms, aggregateTerms, aggregateTerms_rerooted x,
      aggregateTermsAll_rerootedAll vs]
  | .column .. | .literal _ | .raw _ | .countStar | .aggregate .. => rfl

theorem aggregateTermsAll_rerootedAll :
    (es : List Expr) → aggregateTermsAll (rerootedAll a es) = aggregateTermsAll es
  | [] => rfl
  | e :: es => by
    rw [rerootedAll, aggregateTermsAll, aggregateTermsAll, aggregateTerms_rerooted e,
      aggregateTermsAll_rerootedAll es]

end

/-- The associations of aggregates stay as they are. -/
theorem aggregates_rerooted (e : Expr) : (e.rerooted a).aggregates = e.aggregates := by
  rw [← map_aggregateTerms, aggregateTerms_rerooted, map_aggregateTerms]

/-- There is an aggregate in it or not, wherever it is moved. -/
theorem hasAggregate_rerooted (e : Expr) : (e.rerooted a).hasAggregate = e.hasAggregate := by
  rw [hasAggregate, aggregates_rerooted, hasAggregate]

/-! ## moving twice -/

mutual

/-- No column of the attached table is left to be moved once more. -/
theorem rerooted_rerooted (b : TableAlias) :
    (e : Expr) → (e.rerooted a).rerooted b = e.rerooted a
  | .column t name => by rw [rerooted, rerooted, t.rerooted_rerooted]
  | .binary _ x y => by
    rw [rerooted, rerooted, rerooted_rerooted b x, rerooted_rerooted b y]
  | .unary _ x | .isNull x _ | .like x _ _ | .paren x => by
    rw [rerooted, rerooted, rerooted_rerooted b x]
  | .call _ args => by rw [rerooted, rerooted, rerootedAll_rerootedAll b args]
  | .inList x vs _ => by
    rw [rerooted, rerooted, rerooted_rerooted b x, rerootedAll_rerootedAll b vs]
  | .literal _ | .raw _ | .countStar | .aggregate .. => rfl

theorem rerootedAll_rerootedAll (b : TableAlias) :
    (es : List Expr) → rerootedAll b (rerootedAll a es) = rerootedAll a es
  | [] => rfl
  | e :: es => by
    rw [rerootedAll, rerootedAll, rerooted_rerooted b e, rerootedAll_rerootedAll b es]

end

/-! ## brackets -/

/-- A moved expression binds as tightly as before. -/
theorem precedence_rerooted (e : Expr) : (e.rerooted a).precedence = e.precedence := by
  cases e with
  | unary o => cases o <;> rfl
  | _ => rfl

theorem wrapsLeft_rerooted (o : BinaryOp) (e : Expr) :
    o.wrapsLeft (e.rerooted a) = o.wrapsLeft e := by
  rw [BinaryOp.wrapsLeft, precedence_rerooted, BinaryOp.wrapsLeft]

theorem wrapsRight_rerooted (o : BinaryOp) (e : Expr) :
    o.wrapsRight (e.rerooted a) = o.wrapsRight e := by
  rw [BinaryOp.wrapsRight, precedence_rerooted, BinaryOp.wrapsRight]

theorem wraps_rerooted (o : UnaryOp) (e : Expr) : o.wraps (e.rerooted a) = o.wraps e := by
  cases o <;> simp only [UnaryOp.wraps, precedence_rerooted]

theorem wrapsInTest_rerooted (e : Expr) : (e.rerooted a).wrapsInTest = e.wrapsInTest := by
  rw [wrapsInTest, precedence_rerooted, wrapsInTest]

end rerooted

end Expr

/-! ## rendering -/

/-- The same place in a statement for an expression that is attached to another table. -/
def Resolver.onto (r : Resolver) (table : String) : Resolver := { r with current := some table }

section render

variable {d : Dialect} {r : Resolver} {a : TableAlias} {table : String}

mutual

/-- Moved onto the table of a handle, an expression is written as if it were attached to it. -/
theorem Expr.render_rerooted (h : r.handle a = .ok table) :
    (e : Expr) → (e.rerooted a).render d r = e.render d (r.onto table)
  -- by the expression: only columns without a table of their own are changed
  | .column .current name => by
    simp only [rerooted, TableRef.rerooted, render, h]
    rfl
  | .column (.handle _) _ | .column (.named _) _ => rfl
  | .literal _ | .raw _ | .countStar | .aggregate .. => rfl
  | .binary o x y => by
    rw [rerooted, render, render, wrapsLeft_rerooted, wrapsRight_rerooted,
      Expr.render_rerooted h x, Expr.render_rerooted h y]
  | .unary o x => by
    rw [rerooted, render, render, wraps_rerooted, Expr.render_rerooted h x]
  | .call f args => by rw [rerooted, render, render, Expr.renderAll_rerootedAll h args]
  | .inList _ [] _ => rfl
  | .inList x (v :: vs) n => by
    have hvalues := Expr.renderAll_rerootedAll h (v :: vs)
    rw [rerootedAll] at hvalues
    rw [rerooted, rerootedAll, render, render, wrapsInTest_rerooted, Expr.render_rerooted h x,
      hvalues]
  | .isNull x _ | .like x _ _ => by
    rw [rerooted, render, render, wrapsInTest_rerooted, Expr.render_rerooted h x]
  | .paren x => by rw [rerooted, render, render, Expr.render_rerooted h x]

theorem Expr.renderAll_rerootedAll (h : r.handle a = .ok table) :
    (es : List Expr) → renderAll d r (rerootedAll a es) = renderAll d (r.onto table) es
  | [] => rfl
  | e :: es => by
    rw [rerootedAll, renderAll, renderAll, Expr.render_rerooted h e,
      Expr.renderAll_rerootedAll h es]

end

/-- As a term of a conjunction it is written as if attached to the table of the handle. -/
theorem Expr.renderConjunct_rerooted (h : r.handle a = .ok table) (e : Expr) :
    (e.rerooted a).renderConjunct d r = e.renderConjunct d (r.onto table) := by
  rw [renderConjunct, precedence_rerooted, render_rerooted h, renderConjunct]

/-- So is an ordering. -/
theorem OrderTerm.render_rerooted (h : r.handle a = .ok table) (o : OrderTerm) :
    (o.rerooted a).render d r = o.render d (r.onto table) := by
  rw [OrderTerm.render, OrderTerm.render]
  exact congrArg (· >>= _) (o.expr.render_rerooted h)

end render

namespace RenderContext

variable {c : RenderContext} {a : TableAlias} {t : Slot}

/-- A handle on a visible table is written as the name of the table. -/
theorem resolve_of_notMem (hslot : c.aliases.slotOf? a = some t) (hvisible : t ∉ c.hidden) :
    c.resolve a = .ok (c.name t) := by
  simp [resolve, hslot, hvisible]

/-- Take a handle that can be named at a place of a statement, and the table instance that it is
attached to.  Whatever table is the current one there, expressions and orderings that are moved
onto the handle are written in the same tokens, or fail with the same error, as if they were
attached to that table instance.  Moving keeps their aggregates, and moves nothing a second time. -/
theorem rerooting_attaches (hslot : c.aliases.slotOf? a = some t) (hvisible : t ∉ c.hidden)
    (d : Dialect) (s : Slot) :
    (∀ e : Expr, (e.rerooted a).render d (c.resolver s) = e.render d (c.resolver t) ∧
      (e.rerooted a).renderConjunct d (c.resolver s) = e.renderConjunct d (c.resolver t) ∧
      (e.rerooted a).aggregateTerms = e.aggregateTerms ∧
      (e.rerooted a).aggregates = e.aggregates ∧
      (e.rerooted a).hasAggregate = e.hasAggregate ∧
      ∀ b, (e.rerooted a).rerooted b = e.rerooted a) ∧
    ∀ o : OrderTerm, (o.rerooted a).render d (c.resolver s) = o.render d (c.resolver t) ∧
      (o.rerooted a).expr.aggregateTerms = o.expr.aggregateTerms ∧
      ∀ b, (o.rerooted a).rerooted b = o.rerooted a := by
  have hhandle : (c.resolver s).handle a = .ok (c.name t) := resolve_of_notMem hslot hvisible
  -- naming the slot of the handle is standing at it
  have honto : (c.resolver s).onto (c.name t) = c.resolver t := rfl
  constructor
  · intro e
    exact ⟨honto ▸ e.render_rerooted hhandle, honto ▸ e.renderConjunct_rerooted hhandle,
      e.aggregateTerms_rerooted a, e.aggregates_rerooted a, e.hasAggregate_rerooted a,
      e.rerooted_rerooted a⟩
  · intro o
    refine ⟨honto ▸ o.render_rerooted hhandle, o.expr.aggregateTerms_rerooted a, fun b => ?_⟩
    exact congrArg (OrderTerm.mk · o.direction o.nulls) (o.expr.rerooted_rerooted a b)

end RenderContext

namespace Library

/-- A handle on the author of a book. -/
def ofAuthor : TableAlias := { id := 1 }

/-- Outside of a subquery on chapters, in a statement on books with their authors. -/
def besideChapters : RenderContext where
  aliases := ⟨["books", "authors", "chapters"], [(ofAuthor.id, ⟨1⟩)]⟩
  aggregates := []
  hidden := [⟨2⟩]

/-- Is the name neither missing nor empty? -/
def isNamed : Expr :=
  .binary .and (.isNull (.col "name") true)
    (.unary .not (.inList (.col "name") [.literal (.text "")] false))

end Library

open Library in
/-- A test on authors that is moved onto their handle and attached to books. -/
theorem RenderContext.rerooting_attaches_author :
    besideChapters.aliases.slotOf? ofAuthor = some ⟨1⟩ ∧ ⟨1⟩ ∉ besideChapters.hidden ∧
      (isNamed.rerooted ofAuthor).render .mysql (besideChapters.resolver ⟨0⟩) =
        .ok (Token.column "authors" "name" ++ .word .isNotNull :: .op .and :: .word .not ::
          Token.column "authors" "name" ++
          [.word .inOpening, .param (.text ""), .word .closing]) := by
  have hvisible : (⟨1⟩ : Slot) ∉ besideChapters.hidden := by decide
  obtain ⟨hexpr, -⟩ := rerooting_attaches (c := besideChapters) (a := ofAuthor) rfl hvisible
    .mysql ⟨0⟩
  exact ⟨rfl, hvisible, (hexpr isNamed).1⟩

end AssociationQuery
