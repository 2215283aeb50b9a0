import AssociationQuery.Proofs.Reading.Grouping
import Mathlib.Algebra.GroupWithZero.Nat

/-!
# AssociationQuery.Proofs.Reading.Regrouping

When an expression is read back as the tree it was built as.

Brackets do not count, and neither does how a run of one associative operator is
grouped: trees are compared with all such runs grouped from the left.  Whether an
operand on the right goes without brackets is decided by the outer operator alone,
so an operand whose own operator is another one of the same level is taken apart:
`a * (b / c)` is written `a * b / c`.  `Expr.keepsGroups` says that this happens
nowhere, and `read?_render_alike_iff` that the tree is read back in exactly
these cases.
-/

namespace AssociationQuery

/-! ## runs of one operator -/

namespace SqlExpr

/-- Two runs of an operator, each grouped from the left, as one that is. -/
def joinRuns (o : BinaryOp) (t : SqlExpr) : SqlExpr → SqlExpr
  | binary p u v => if p = o then binary o (joinRuns o t u) v else binary o t (binary p u v)
  | u => binary o t u

mutual

/-- The expression with every run of one associative operator grouped from the left. -/
def regrouped : SqlExpr → SqlExpr
  | binary o t u =>
    if o.isAssociative then joinRuns o t.regrouped u.regrouped
    else binary o t.regrouped u.regrouped
  | unary o t => unary o t.regrouped
  | call f distinct args => call f distinct (regroupedAll args)
  | inList t vs negated => inList t.regrouped (regroupedAll vs) negated
  | isNull t negated => isNull t.regrouped negated
  | like t u negated => like t.regrouped u.regrouped negated
  | t => t

def regroupedAll : List SqlExpr → List SqlExpr
  | [] => []
  | t :: ts => t.regrouped :: regroupedAll ts

end

/-- The first operand of a run that is grouped from the left. -/
def lead (o : BinaryOp) : SqlExpr → SqlExpr
  | binary p t u => if p = o then lead o t else binary p t u
  | t => t

/-- The number of operands of the operators outside of calls and tests. -/
def leaves : SqlExpr → Nat
  | binary _ t u => t.leaves + u.leaves
  | _ => 1

/-- There is at least one operand. -/
theorem leaves_pos (t : SqlExpr) : 0 < t.leaves := by
  induction t using leaves.induct with
  | case1 o t u iht ihu => simp only [leaves]; omega
  | case2 t ht => rw [leaves.eq_2 t ht]; exact Nat.one_pos

/-- What is not a run of the operator is one operand of it. -/
theorem joinRuns_of_not_run {o : BinaryOp} {u : SqlExpr} (t : SqlExpr)
    (h : ∀ v w, u ≠ binary o v w) : joinRuns o t u = binary o t u := by
  cases u with
  | binary p v w =>
    have hp : p ≠ o := by
      intro heq
      subst heq
      exact h v w rfl
    exact if_neg hp
  | _ => rfl

theorem joinRuns_run (o : BinaryOp) (t u v : SqlExpr) :
    joinRuns o t (binary o u v) = binary o (joinRuns o t u) v := if_pos rfl

/-- It does not matter in which order runs are joined. -/
theorem joinRuns_assoc (o : BinaryOp) (t u v : SqlExpr) :
    joinRuns o (joinRuns o t u) v = joinRuns o t (joinRuns o u v) := by
  induction v using joinRuns.induct (o := o) with
  | case1 v w ihv => rw [joinRuns_run, joinRuns_run, joinRuns_run, ihv]
  | case2 p v w hp =>
    have hne : ∀ v' w', binary p v w ≠ binary o v' w' := by simp [hp]
    rw [joinRuns_of_not_run _ hne, joinRuns_of_not_run _ hne, joinRuns_run]
  | case3 v hv =>
    have hne : ∀ v' w', v ≠ binary o v' w' := fun v' w' => hv o v' w'
    rw [joinRuns_of_not_run _ hne, joinRuns_of_not_run _ hne, joinRuns_run]

/-- Joined runs have the operands of both. -/
theorem leaves_joinRuns (o : BinaryOp) (t u : SqlExpr) :
    (joinRuns o t u).leaves = t.leaves + u.leaves := by
  induction u using joinRuns.induct (o := o) with
  | case1 u v ih => rw [joinRuns_run, leaves, leaves, ih, Nat.add_assoc]
  | case2 p u v hp => rw [joinRuns_of_not_run _ (by simp [hp]), leaves]
  | case3 u hu => rw [joinRuns_of_not_run _ (fun v w => hu o v w), leaves]

/-- A run that is joined to another stays one operand only if it is none of the operator. -/
theorem joinRuns_eq_binary {o : BinaryOp} {t t' u u' : SqlExpr} (hl : u.leaves = u'.leaves)
    (h : joinRuns o t u = binary o t' u') : t = t' ∧ u = u' := by
  by_cases hu : ∃ v w, u = binary o v w
  · obtain ⟨v, w, rfl⟩ := hu
    rw [joinRuns_run] at h
    obtain ⟨-, -, rfl⟩ := binary.inj h
    have := leaves_pos v
    simp only [leaves] at hl
    omega
  · rw [joinRuns_of_not_run t (by simpa using hu)] at h
    exact (binary.inj h).2

/-- Runs that are joined can be told apart by the number of their operands. -/
theorem joinRuns_inj {o : BinaryOp} {t t' u u' : SqlExpr} (hl : u.leaves = u'.leaves)
    (h : joinRuns o t u = joinRuns o t' u') : t = t' ∧ u = u' := by
  -- along the second tree: with as many leaves in both, a run in one is a run in the other
  induction u' using joinRuns.induct (o := o) generalizing u with
  | case1 v' w' ih =>
    by_cases hu : ∃ v w, u = binary o v w
    · obtain ⟨v, w, rfl⟩ := hu
      rw [joinRuns_run, joinRuns_run] at h
      obtain ⟨-, hjoin, rfl⟩ := binary.inj h
      obtain ⟨rfl, rfl⟩ := ih (by simpa [leaves] using hl) hjoin
      exact ⟨rfl, rfl⟩
    · rw [joinRuns_of_not_run t (by simpa using hu)] at h
      obtain ⟨rfl, rfl⟩ := joinRuns_eq_binary hl.symm h.symm
      exact ⟨rfl, rfl⟩
  | case2 p v' w' hp =>
    rw [joinRuns_of_not_run t' (by simp [hp])] at h
    exact joinRuns_eq_binary hl h
  | case3 u' hu' =>
    rw [joinRuns_of_not_run t' fun v w => hu' o v w] at h
    exact joinRuns_eq_binary hl h

/-! ## regrouping -/

/-- The same expression up to how runs of one associative operator are grouped. -/
def Alike (t u : SqlExpr) : Prop := t.regrouped = u.regrouped

/-- An associative operator may be grouped either way. -/
theorem alike_assoc {o : BinaryOp} (h : o.isAssociative) (t u v : SqlExpr) :
    (binary o t (binary o u v)).Alike (binary o (binary o t u) v) := by
  simp only [Alike, regrouped, if_pos h, joinRuns_assoc]

/-- Regrouping keeps the number of operands. -/
theorem leaves_regrouped (t : SqlExpr) : t.regrouped.leaves = t.leaves := by
  induction t using leaves.induct with
  | case1 o t u iht ihu =>
    rw [regrouped]
    split
    · rw [leaves_joinRuns, leaves, iht, ihu]
    · rw [leaves, leaves, iht, ihu]
  | case2 t ht =>
    cases t with
    | binary o u v => exact absurd rfl (ht o u v)
    | _ => simp [regrouped, leaves]

/-- If the right operands are of one size, two regrouped expressions are equal only if their
operands are. -/
theorem regrouped_binary_inj {o : BinaryOp} {t t' u u' : SqlExpr} (hl : u.leaves = u'.leaves) :
    (binary o t u).regrouped = (binary o t' u').regrouped ↔
      t.regrouped = t'.regrouped ∧ u.regrouped = u'.regrouped := by
  constructor
  · intro h
    simp only [regrouped] at h
    split at h
    · exact joinRuns_inj (by simpa only [leaves_regrouped] using hl) h
    · exact (binary.inj h).2
  · intro h
    obtain ⟨ht, hu⟩ := h
    simp only [regrouped, ht, hu]

/-- Regrouping an operand may be left for later. -/
theorem regrouped_binary_congr (o : BinaryOp) {t t' : SqlExpr} (h : t.regrouped = t'.regrouped)
    (u : SqlExpr) : (binary o t u).regrouped = (binary o t' u).regrouped := by
  simp only [regrouped, h]

/-- An operator stays outermost. -/
theorem exists_regrouped_binary (o : BinaryOp) (t u : SqlExpr) :
    ∃ v w, (binary o t u).regrouped = binary o v w := by
  rw [regrouped]
  split
  · cases hu : u.regrouped with
    | binary p v w => by_cases hp : p = o <;> simp [joinRuns, hp]
    | _ => exact ⟨_, _, rfl⟩
  · exact ⟨_, _, rfl⟩

/-! ## the first operand of a run -/

theorem lead_run (o : BinaryOp) (t u : SqlExpr) : lead o (binary o t u) = lead o t := if_pos rfl

/-- Joined runs begin as the first of them does. -/
theorem lead_joinRuns (o : BinaryOp) (t u : SqlExpr) : lead o (joinRuns o t u) = lead o t := by
  induction u using joinRuns.induct (o := o) with
  | case1 u v ih => rw [joinRuns_run, lead_run, ih]
  | case2 p u v hp => rw [joinRuns_of_not_run _ (by simp [hp]), lead_run]
  | case3 u hu => rw [joinRuns_of_not_run _ (fun v w => hu o v w), lead_run]

/-- The first operand of a run is that of its left part. -/
theorem lead_regrouped_binary {o : BinaryOp} (t u : SqlExpr) :
    lead o (binary o t u).regrouped = lead o t.regrouped := by
  rw [regrouped]
  split
  · exact lead_joinRuns o _ _
  · exact lead_run o _ _

/-- What is not a run of the operator begins with itself. -/
theorem lead_regrouped_of_ne {o p : BinaryOp} (h : p ≠ o) (t u : SqlExpr) :
    lead o (binary p t u).regrouped = (binary p t u).regrouped := by
  obtain ⟨v, w, hvw⟩ := exists_regrouped_binary p t u
  rw [hvw]
  exact if_neg h

/-- The first operand is no longer than the run. -/
theorem leaves_lead_le (o : BinaryOp) (t : SqlExpr) : (lead o t).leaves ≤ t.leaves := by
  induction t using lead.induct (o := o) with
  | case1 t u ih => rw [lead_run, leaves]; omega
  | case2 p t u hp => exact Nat.le_of_eq (by rw [lead, if_neg hp])
  | case3 t ht => exact Nat.le_of_eq (by rw [lead.eq_2 _ _ ht])

end SqlExpr

/-! ## chains -/

namespace SqlChain

open SqlExpr (binary lead leaves)

/-- A chain has the operands of all its parts. -/
theorem leaves_groupFrom (t : SqlExpr) (rest : List (BinaryOp × SqlExpr)) :
    (groupFrom t rest).leaves = t.leaves + (rest.map fun p => p.2.leaves).sum := by
  induction rest generalizing t with
  | nil => simp [groupFrom]
  | cons p rest ih =>
    rw [groupFrom, List.foldl_cons, ← groupFrom, ih, leaves, List.map_cons, List.sum_cons,
      Nat.add_assoc]

/-- A chain behind an operand has one part more. -/
theorem leaves_after (c : SqlChain) (t : SqlExpr) (o : BinaryOp) :
    (c.after t o).leaves = t.leaves + c.grouped.leaves := by
  rw [after, grouped, leaves_groupFrom, leaves_groupFrom, leaves, Nat.add_assoc]

/-- A chain may be regrouped from its first operand on. -/
theorem regrouped_groupFrom_congr {t t' : SqlExpr} (h : t.regrouped = t'.regrouped)
    (rest : List (BinaryOp × SqlExpr)) :
    (groupFrom t rest).regrouped = (groupFrom t' rest).regrouped := by
  induction rest generalizing t t' with
  | nil => exact h
  | cons p rest ih => exact ih (SqlExpr.regrouped_binary_congr p.1 h p.2)

/-- A chain of one associative operator is a run with the operand before it. -/
theorem regrouped_after {c : SqlChain} {o : BinaryOp} (ho : o.isAssociative)
    (h : ∀ p ∈ c.rest, p.1 = o) (t : SqlExpr) :
    (c.after t o).regrouped = (binary o t c.grouped).regrouped := by
  obtain ⟨u, rest⟩ := c
  simp only [after, grouped] at *
  induction rest generalizing u with
  | nil => rfl
  | cons p rest ih =>
    obtain ⟨rfl, hrest⟩ := List.forall_mem_cons.1 h
    have hassoc := (SqlExpr.alike_assoc ho t u p.2).symm
    rw [groupFrom, List.foldl_cons, ← groupFrom, regrouped_groupFrom_congr hassoc]
    exact ih (binary p.1 u p.2) hrest

/-- A chain of one operator begins with what its first operand begins with. -/
theorem lead_groupFrom {o : BinaryOp} {rest : List (BinaryOp × SqlExpr)}
    (h : ∀ p ∈ rest, p.1 = o) (t : SqlExpr) :
    lead o (groupFrom t rest).regrouped = lead o t.regrouped := by
  induction rest generalizing t with
  | nil => rfl
  | cons p rest ih =>
    obtain ⟨rfl, hrest⟩ := List.forall_mem_cons.1 h
    exact (ih hrest (binary p.1 t p.2)).trans (SqlExpr.lead_regrouped_binary t p.2)

/-- With another operator in the chain, a run does not begin before the chain is over that far:
all that stands before is part of its first operand. -/
theorem leaves_lt_leaves_lead {o : BinaryOp} {rest : List (BinaryOp × SqlExpr)}
    (h : ∃ p ∈ rest, p.1 ≠ o) (t : SqlExpr) :
    t.leaves < (lead o (groupFrom t rest).regrouped).leaves := by
  induction rest generalizing t with
  | nil => simp at h
  | cons p rest ih =>
    have hgrown : t.leaves < (binary p.1 t p.2).leaves := by
      have := SqlExpr.leaves_pos p.2
      rw [leaves]
      omega
    -- the last other operator ends the run, and all before it is on its left
    by_cases hrest : ∃ q ∈ rest, q.1 ≠ o
    · exact Nat.lt_trans hgrown (ih hrest (binary p.1 t p.2))
    · have hne : p.1 ≠ o := by
        obtain ⟨q, hq, hqo⟩ := h
        rcases List.mem_cons.1 hq with rfl | hq
        · exact hqo
        · exact absurd ⟨q, hq, hqo⟩ hrest
      have hlead : lead o (groupFrom (binary p.1 t p.2) rest).regrouped =
          (binary p.1 t p.2).regrouped := by
        rw [lead_groupFrom (by simpa using hrest), SqlExpr.lead_regrouped_of_ne hne]
      rw [groupFrom, List.foldl_cons, ← groupFrom, hlead, SqlExpr.leaves_regrouped]
      exact hgrown

/-- A chain is a run with the operand before it exactly if it has no other operator. -/
theorem regrouped_after_iff {c : SqlChain} {o : BinaryOp} (ho : o.isAssociative)
    {t t' u' : SqlExpr} (ht : t.leaves = t'.leaves) (hu : c.grouped.leaves = u'.leaves) :
    (c.after t o).regrouped = (binary o t' u').regrouped ↔
      (∀ p ∈ c.rest, p.1 = o) ∧ t.regrouped = t'.regrouped ∧
        c.grouped.regrouped = u'.regrouped := by
  by_cases hrest : ∀ p ∈ c.rest, p.1 = o
  · rw [regrouped_after ho hrest, SqlExpr.regrouped_binary_inj hu]
    exact (and_iff_right hrest).symm
  · refine iff_of_false (fun heq => ?_) fun h => hrest h.1
    have hlt := leaves_lt_leaves_lead (by simpa using hrest) (binary o t c.first)
    have hle := SqlExpr.leaves_lead_le o t'.regrouped
    rw [← after, heq, SqlExpr.lead_regrouped_binary] at hlt
    rw [SqlExpr.leaves_regrouped, ← ht] at hle
    rw [leaves] at hlt
    omega

end SqlChain

/-! ## the tree of an expression -/

namespace Expr

mutual

/-- The expression as it was built, without its brackets. -/
def tree (d : Dialect) (r : Resolver) : Expr → SqlExpr
  | column t name => .column (r.qualifier t) name
  | literal v => .placeholder v
  | binary o a b =>
    if o.isCall d then .call "CONCAT" false [tree d r a, tree d r b]
    else .binary o (tree d r a) (tree d r b)
  | unary o a => .unary o (tree d r a)
  | call f args => .call f false (treeAll d r args)
  | inList _ [] negated => .ofEmptyList negated
  | inList a (v :: vs) negated => .inList (tree d r a) (treeAll d r (v :: vs)) negated
  | isNull a negated => .isNull (tree d r a) negated
  | like a pattern negated => .like (tree d r a) (.placeholder (.text pattern)) negated
  | raw sql => .raw sql
  | paren a => tree d r a
  | countStar => .callStar "COUNT"
  | aggregate f a c => f.tree a.destination (r.aggregate a).toOption c

def treeAll (d : Dialect) (r : Resolver) : List Expr → List SqlExpr
  | [] => []
  | e :: es => tree d r e :: treeAll d r es

end

/-- The operators of the expression's level that stand outside of brackets in its rendering. -/
def openOperators (d : Dialect) : Expr → List BinaryOp
  | binary o a b =>
    if o.isCall d then []
    else (if o.opensLeft a then openOperators d a else []) ++
      o :: (if o.opensRight b then openOperators d b else [])
  | _ => []

mutual

/-- Is no right operand without brackets taken apart?  It is not if the operators that stand
open in it are the one before it. -/
def keepsGroups (d : Dialect) : Expr → Bool
  | binary o a b =>
    keepsGroups d a && keepsGroups d b &&
      (o.isCall d || !o.opensRight b || (openOperators d b).all (· = o))
  | unary _ a | isNull a _ | like a _ _ | paren a => keepsGroups d a
  | call _ args => keepsGroupsAll d args
  | inList _ [] _ => true
  | inList a (v :: vs) _ => keepsGroups d a && keepsGroupsAll d (v :: vs)
  | column .. | literal _ | raw _ | countStar | aggregate .. => true

def keepsGroupsAll (d : Dialect) : List Expr → Bool
  | [] => true
  | e :: es => keepsGroups d e && keepsGroupsAll d es

end

/-- Between brackets no operator stands open. -/
theorem ops_openIf (b : Bool) (c : SqlChain) :
    (c.openIf b).rest.map Prod.fst = if b then c.rest.map Prod.fst else [] := by
  cases b <;> rfl

/-- The operators of the chain are those that stand open in the rendering. -/
theorem ops_chain (d : Dialect) (r : Resolver) : (e : Expr) →
    (e.chain d r).rest.map Prod.fst = e.openOperators d
  | binary o a b => by
    rw [chain, openOperators]
    split
    · rfl
    · simp only [SqlChain.joined, List.map_append, List.map_cons, ops_openIf, ops_chain d r a,
        ops_chain d r b]
  | inList _ [] _ => by rw [chain]; rfl
  | inList _ (_ :: _) _ => by rw [chain]; rfl
  | column .. | literal _ | unary .. | call .. | isNull .. | like .. | raw _ | paren _
  | countStar | aggregate .. => by rw [chain]; rfl

/-- The operands on the right of an operator all stand behind that operator, or in brackets. -/
theorem forall_ops_iff (d : Dialect) (r : Resolver) (o : BinaryOp) (b : Expr) :
    (∀ p ∈ ((b.chain d r).openIf (o.opensRight b)).rest, p.1 = o) ↔
      (!o.opensRight b || (b.openOperators d).all (· = o)) = true := by
  rw [← ops_chain d r b]
  cases o.opensRight b <;> simp [SqlChain.openIf, SqlChain.closed]

/-- The right operand is a chain behind the left one, unless it is in brackets. -/
theorem grouped_binary {d : Dialect} (r : Resolver) {o : BinaryOp} {a b : Expr}
    (h : ¬o.isCall d) : ((binary o a b).chain d r).grouped =
      ((b.chain d r).openIf (o.opensRight b)).after (a.chain d r).grouped o := by
  rw [chain, if_neg h, SqlChain.grouped_joined, SqlChain.grouped_openIf]

/-- Reading keeps the number of operands. -/
theorem leaves_grouped (d : Dialect) (r : Resolver) : (e : Expr) →
    (e.chain d r).grouped.leaves = (e.tree d r).leaves
  | binary o a b => by
    by_cases h : o.isCall d
    · rw [chain, tree, if_pos h, if_pos h]
      rfl
    · rw [grouped_binary r h, tree, if_neg h, SqlChain.leaves_after, SqlChain.grouped_openIf,
        leaves_grouped d r a, leaves_grouped d r b, SqlExpr.leaves]
  | inList _ [] _ => by rw [chain, tree]; rfl
  | inList _ (_ :: _) _ => by rw [chain, tree]; rfl
  | paren a => by rw [chain, tree, SqlChain.grouped_closed, leaves_grouped d r a]
  | column .. | literal _ | unary .. | call .. | isNull .. | like .. | raw _
  | countStar | aggregate .. => by rw [chain, tree]; rfl

/-- An operator is read as it was built if its operands are and if nothing but that operator stands
open on its right. -/
theorem regrouped_binary_iff {d : Dialect} {r : Resolver} {o : BinaryOp} {a b : Expr}
    (h : ¬o.isCall d) :
    ((binary o a b).grouped d r).regrouped = ((binary o a b).tree d r).regrouped ↔
      ((a.grouped d r).regrouped = (a.tree d r).regrouped ∧
        (b.grouped d r).regrouped = (b.tree d r).regrouped) ∧
      (!o.opensRight b || (b.openOperators d).all (· = o)) = true := by
  rw [grouped, grouped_binary r h, tree, if_neg h, ← forall_ops_iff d r o b]
  by_cases ho : o.isAssociative
  · rw [SqlChain.regrouped_after_iff ho (leaves_grouped d r a)
      (by rw [SqlChain.grouped_openIf, leaves_grouped d r b]), SqlChain.grouped_openIf]
    exact and_comm
  · have hclosed : ((b.chain d r).openIf (o.opensRight b)).rest = [] := by
      simp [BinaryOp.opensRight, ho, SqlChain.openIf]
    rw [SqlChain.after_of_rest_eq_nil hclosed, SqlChain.grouped_openIf,
      SqlExpr.regrouped_binary_inj (leaves_grouped d r b), hclosed]
    simp [grouped]

mutual

/-- An expression is read as it was built, up to runs of one associative operator, exactly
if no operand of it is taken apart. -/
theorem regrouped_grouped_iff (d : Dialect) (r : Resolver) : (e : Expr) →
    ((e.grouped d r).regrouped = (e.tree d r).regrouped ↔ e.keepsGroups d)
  -- by the expression: groups are lost only where an operator is written between two operands
  | column .. | literal _ | raw _ | countStar | aggregate .. => by
    simp [grouped, chain, tree, keepsGroups]
  | binary o a b => by
    have iha := regrouped_grouped_iff d r a
    have ihb := regrouped_grouped_iff d r b
    by_cases h : o.isCall d
    · simp only [grouped] at iha ihb
      simp [grouped, chain, tree, keepsGroups, SqlExpr.regrouped, SqlExpr.regroupedAll, h, iha,
        ihb]
    · rw [regrouped_binary_iff h, iha, ihb]
      simp [keepsGroups, h]
  | unary o a | isNull a _ | like a _ _ => by
    have iha := regrouped_grouped_iff d r a
    simp only [grouped] at iha
    simp [grouped, chain, tree, keepsGroups, SqlExpr.regrouped, iha]
  | call f args => by
    have ihargs := regrouped_groupedAll_iff d r args
    simp [grouped, chain, tree, keepsGroups, SqlExpr.regrouped, ihargs]
  | inList _ [] _ => by simp [grouped, chain, tree, keepsGroups]
  | inList a (v :: vs) _ => by
    have iha := regrouped_grouped_iff d r a
    have ihvs := regrouped_groupedAll_iff d r (v :: vs)
    simp only [grouped] at iha
    simp [grouped, chain, tree, keepsGroups, SqlExpr.regrouped, iha, ihvs]
  | paren a => by
    have iha := regrouped_grouped_iff d r a
    simpa [grouped, chain, tree, keepsGroups] using iha

theorem regrouped_groupedAll_iff (d : Dialect) (r : Resolver) : (es : List Expr) →
    (SqlExpr.regroupedAll (groupedAll d r es) = SqlExpr.regroupedAll (treeAll d r es) ↔
      keepsGroupsAll d es)
  | [] => by simp [groupedAll, treeAll, keepsGroupsAll]
  | e :: es => by
    have ihe := regrouped_grouped_iff d r e
    have ihes := regrouped_groupedAll_iff d r es
    simp only [grouped] at ihe
    simp [groupedAll, treeAll, keepsGroupsAll, SqlExpr.regroupedAll, ihe, ihes]

end

/-- A rendered expression is read as the tree it was built as, up to the grouping of runs of one
associative operator, exactly if no operand of it is taken apart. -/
theorem read?_render_alike_iff {d : Dialect} {r : Resolver} {e : Expr} (hp : e.isPlain)
    {ts : List Token} (h : e.render d r = .ok ts) :
    ∃ t, SqlExpr.read? (lexemes ts) = some t ∧ (t.Alike (e.tree d r) ↔ e.keepsGroups d) :=
  ⟨e.grouped d r, read?_render hp h, regrouped_grouped_iff d r e⟩

/-- A product whose right factor is a quotient is read as a quotient. -/
theorem product_of_quotient_taken_apart :
    ∃ t, SqlExpr.read? (lexemes [.ident "a", .op .mul, .ident "b", .op .div, .ident "c"]) =
        some t ∧
      ¬t.Alike (.binary .mul (.column none "a")
        (.binary .div (.column none "b") (.column none "c"))) := by
  obtain ⟨t, hread, hiff⟩ := read?_render_alike_iff (d := .postgres) (r := .standalone)
    (e := .binary .mul (.col "a") (.binary .div (.col "b") (.col "c"))) rfl rfl
  exact ⟨t, hread, fun halike => absurd (hiff.1 halike) (by decide)⟩

end Expr

end AssociationQuery
