import AssociationQuery.Association.Basic
import AssociationQuery.Expr.Equality

/-!
# AssociationQuery.Proofs.Building.Equality

Equality of associations is an equivalence.

Between expressions it is not: an expression with a NaN in it does not equal itself.  But what
equals each other equals the same, `Expr.equal_congr`, and an association equals itself whatever
it holds, `Association.equal_self`.
-/

namespace AssociationQuery

/-! ## one and the same -/

mutual

/-- What holds the very same is the same. -/
theorem Expr.identical_iff : (a b : Expr) → (a.identical b ↔ a = b)
  | .column t n, b => by cases b <;> simp [Expr.identical]
  | .literal v, b => by cases b <;> simp [Expr.identical]
  | .binary o l r, b => by
    cases b <;> simp [Expr.identical, Expr.identical_iff l, Expr.identical_iff r, and_assoc]
  | .unary o e, b => by cases b <;> simp [Expr.identical, Expr.identical_iff e]
  | .call f es, b => by cases b <;> simp [Expr.identical, Expr.identicalAll_iff es]
  | .inList e es n, b => by
    cases b <;> simp [Expr.identical, Expr.identical_iff e, Expr.identicalAll_iff es, and_assoc]
  | .isNull e n, b => by cases b <;> simp [Expr.identical, Expr.identical_iff e]
  | .like e p n, b => by cases b <;> simp [Expr.identical, Expr.identical_iff e, and_assoc]
  | .raw s, b => by cases b <;> simp [Expr.identical]
  | .paren e, b => by cases b <;> simp [Expr.identical, Expr.identical_iff e]
  | .countStar, b => by cases b <;> simp [Expr.identical]
  | .aggregate f a c, b => by
    cases b <;> simp [Expr.identical, Association.identical_iff a, and_assoc]

theorem Expr.identicalAll_iff : (as bs : List Expr) → (Expr.identicalAll as bs ↔ as = bs)
  | [], bs => by cases bs <;> simp [Expr.identicalAll]
  | a :: as, bs => by
    cases bs <;> simp [Expr.identicalAll, Expr.identical_iff a, Expr.identicalAll_iff as]

theorem OrderTerm.identical_iff : (o p : OrderTerm) → (o.identical p ↔ o = p)
  | .mk e d n, .mk .. => by simp [OrderTerm.identical, Expr.identical_iff e, and_assoc]

theorem OrderTerm.identicalAll_iff : (os ps : List OrderTerm) →
    (OrderTerm.identicalAll os ps ↔ os = ps)
  | [], ps => by cases ps <;> simp [OrderTerm.identicalAll]
  | o :: os, ps => by
    cases ps <;>
      simp [OrderTerm.identicalAll, OrderTerm.identical_iff o, OrderTerm.identicalAll_iff os]

theorem Association.identical_iff : (a b : Association) → (a.identical b ↔ a = b)
  | .direct k n o d m fs os p, b => by
    cases b <;> simp [Association.identical, Expr.identicalAll_iff fs,
      OrderTerm.identicalAll_iff os, and_assoc]
  | .through n v t fs os p, b => by
    cases b <;> simp [Association.identical, Association.identical_iff v,
      Association.identical_iff t, Expr.identicalAll_iff fs, OrderTerm.identicalAll_iff os,
      and_assoc]

end

namespace Association

/-- Being identical goes both ways. -/
theorem identical_comm (a b : Association) : a.identical b = b.identical a := by
  rw [Bool.eq_iff_iff, identical_iff, identical_iff, eq_comm]

/-- Are the two equal part by part? -/
def equalParts : Association → Association → Bool
  | direct k n o d m fs os p, direct k' n' o' d' m' fs' os' p' =>
    k == k' && n == n' && o == o' && d == d' && m == m'
      && Expr.equalAll fs fs' && OrderTerm.equalAll os os' && p == p'
  | through n v t fs os p, through n' v' t' fs' os' p' =>
    n == n' && v.equal v' && t.equal t'
      && Expr.equalAll fs fs' && OrderTerm.equalAll os os' && p == p'
  | _, _ => false

/-- Associations are equal if they are one and the same, or if they are part by part. -/
theorem equal_eq (a b : Association) : a.equal b = (a.identical b || a.equalParts b) := by
  cases a <;> cases b <;> simp only [equal, equalParts, identical, Bool.or_self]

theorem eq_or_equalParts {a b : Association} (h : a.equal b) : a = b ∨ a.equalParts b := by
  rwa [equal_eq, Bool.or_eq_true, identical_iff] at h

/-- One object equals itself, also if it holds a NaN. -/
theorem equal_self (a : Association) : a.equal a := by
  rw [equal_eq, (identical_iff a a).2 rfl, Bool.true_or]

/-- Two associations equal the same ones if their parts do and if they are themselves equal part
by part. -/
theorem equal_congr_of_parts {a b : Association} (h : a.equalParts b) (hcomm : b.equalParts a)
    (hparts : ∀ c, a.equalParts c = b.equalParts c) (c : Association) :
    a.equal c = b.equal c := by
  have ha : a.identical c → b.equalParts c := fun hac => (identical_iff a c).1 hac ▸ hcomm
  have hb : b.identical c → b.equalParts c := fun hbc => by
    rwa [← (identical_iff b c).1 hbc, ← hparts]
  rw [equal_eq, equal_eq, hparts, Bool.eq_iff_iff, Bool.or_eq_true, Bool.or_eq_true]
  exact ⟨fun h => .inr (h.elim ha id), fun h => .inr (h.elim hb id)⟩

end Association

/-! ## values and tables -/

/-- Equality of numbers goes both ways, NaN or not. -/
theorem Binary64.equal_comm (x y : Binary64) : x.equal y = y.equal x := by
  simp only [equal, Bool.and_comm, BEq.comm]

/-- What equals a number equals the same numbers as it does; neither is a NaN. -/
theorem Binary64.equal_congr {x y : Binary64} (h : x.equal y) (z : Binary64) :
    x.equal z = y.equal z := by
  simp only [equal, Bool.and_eq_true, Bool.or_eq_true, beq_iff_eq] at h
  grind [equal, isZero]

theorem Binary32.equal_comm (x y : Binary32) : x.equal y = y.equal x := by
  simp only [equal, Bool.and_comm, BEq.comm]

theorem Binary32.equal_congr {x y : Binary32} (h : x.equal y) (z : Binary32) :
    x.equal z = y.equal z := by
  simp only [equal, Bool.and_eq_true, Bool.or_eq_true, beq_iff_eq] at h
  grind [equal, isZero]

theorem Value.equal_comm (v w : Value) : v.equal w = w.equal v := by
  cases v <;> cases w <;> simp [equal, Binary64.equal_comm, Binary32.equal_comm, BEq.comm]

/-- A value with a NaN equals nothing, so it is not concerned here. -/
theorem Value.equal_congr {v w : Value} (h : v.equal w) (u : Value) : v.equal u = w.equal u := by
  cases v with
  | float x =>
    cases w <;> simp [equal] at h
    rw [Bool.eq_iff_iff]
    cases u <;> simp [equal, Binary32.equal_congr h]
  | double x =>
    cases w <;> simp [equal] at h
    rw [Bool.eq_iff_iff]
    cases u <;> simp [equal, Binary64.equal_congr h]
  | _ => cases w <;> simp_all [equal]

theorem TableRef.equal_comm (t u : TableRef) : t.equal u = u.equal t := by
  cases t <;> cases u <;> simp [equal, TableAlias.same, BEq.comm]

theorem TableRef.equal_congr {t u : TableRef} (h : t.equal u) (v : TableRef) :
    t.equal v = u.equal v := by
  cases t <;> cases u <;> simp [equal, TableAlias.same] at h <;> cases v <;>
    simp [equal, TableAlias.same, h]

/-! ## associations -/

mutual

/-- Equality goes both ways. -/
theorem Expr.equal_comm : (a b : Expr) → a.equal b = b.equal a
  | .column t n, b => by cases b <;> simp [Expr.equal, TableRef.equal_comm t, BEq.comm (a := n)]
  | .literal v, b => by cases b <;> simp [Expr.equal, Value.equal_comm v]
  | .binary o l r, b => by
    cases b <;> simp [Expr.equal, BEq.comm (a := o), Expr.equal_comm l, Expr.equal_comm r]
  | .unary o e, b => by cases b <;> simp [Expr.equal, BEq.comm (a := o), Expr.equal_comm e]
  | .call f es, b => by cases b <;> simp [Expr.equal, BEq.comm (a := f), Expr.equalAll_comm es]
  | .inList e es n, b => by
    cases b <;> simp [Expr.equal, Expr.equal_comm e, Expr.equalAll_comm es, BEq.comm (a := n)]
  | .isNull e n, b => by cases b <;> simp [Expr.equal, Expr.equal_comm e, BEq.comm (a := n)]
  | .like e p n, b => by
    cases b <;> simp [Expr.equal, Expr.equal_comm e, BEq.comm (a := p), BEq.comm (a := n)]
  | .raw s, b => by cases b <;> simp [Expr.equal, BEq.comm (a := s)]
  | .paren e, b => by cases b <;> simp [Expr.equal, Expr.equal_comm e]
  | .countStar, b => by cases b <;> simp [Expr.equal]
  | .aggregate f a c, b => by
    cases b <;>
      simp [Expr.equal, BEq.comm (a := f), Association.equal_comm a, BEq.comm (a := c)]

theorem Expr.equalAll_comm : (as bs : List Expr) → Expr.equalAll as bs = Expr.equalAll bs as
  | [], bs => by cases bs <;> simp [Expr.equalAll]
  | a :: as, bs => by
    cases bs <;> simp [Expr.equalAll, Expr.equal_comm a, Expr.equalAll_comm as]

theorem OrderTerm.equal_comm : (o p : OrderTerm) → o.equal p = p.equal o
  | .mk e d n, .mk .. => by
    simp [OrderTerm.equal, Expr.equal_comm e, BEq.comm (a := d), BEq.comm (a := n)]

theorem OrderTerm.equalAll_comm : (os ps : List OrderTerm) →
    OrderTerm.equalAll os ps = OrderTerm.equalAll ps os
  | [], ps => by cases ps <;> simp [OrderTerm.equalAll]
  | o :: os, ps => by
    cases ps <;> simp [OrderTerm.equalAll, OrderTerm.equal_comm o, OrderTerm.equalAll_comm os]

theorem Association.equal_comm : (a b : Association) → a.equal b = b.equal a
  | .direct k n o d m fs os p, b => by
    cases b <;> simp [Association.equal, Association.identical_comm (.direct k n o d m fs os p),
      Expr.equalAll_comm fs, OrderTerm.equalAll_comm os, BEq.comm (a := k), BEq.comm (a := n),
      BEq.comm (a := o), BEq.comm (a := d), BEq.comm (a := m), BEq.comm (a := p)]
  | .through n v t fs os p, b => by
    cases b <;> simp [Association.equal, Association.identical_comm (.through n v t fs os p),
      Association.equal_comm v, Association.equal_comm t, Expr.equalAll_comm fs,
      OrderTerm.equalAll_comm os, BEq.comm (a := n), BEq.comm (a := p)]

end

theorem Association.equalParts_comm (a b : Association) : a.equalParts b = b.equalParts a := by
  cases a <;> cases b <;> simp [equalParts, equal_comm, Expr.equalAll_comm,
    OrderTerm.equalAll_comm, BEq.comm]

mutual

/-- What equals an expression equals the same expressions as it does. -/
theorem Expr.equal_congr : (a : Expr) → {b : Expr} → a.equal b → ∀ c, a.equal c = b.equal c
  -- by the first expression: what equals it has its constructor, and then both sides compare the
  -- same parts with those of `c`
  | .column t n, b, h, c => by
    cases b <;> simp [Expr.equal] at h
    cases c <;> simp [Expr.equal, TableRef.equal_congr h.1, h.2]
  | .literal v, b, h, c => by
    cases b <;> simp [Expr.equal] at h
    cases c <;> simp [Expr.equal, Value.equal_congr h]
  | .binary o l r, b, h, c => by
    cases b <;> simp [Expr.equal] at h
    cases c <;> simp [Expr.equal, h.1.1, Expr.equal_congr l h.1.2, Expr.equal_congr r h.2]
  | .unary o e, b, h, c => by
    cases b <;> simp [Expr.equal] at h
    cases c <;> simp [Expr.equal, h.1, Expr.equal_congr e h.2]
  | .call f es, b, h, c => by
    cases b <;> simp [Expr.equal] at h
    cases c <;> simp [Expr.equal, h.1, Expr.equalAll_congr es h.2]
  | .inList e es n, b, h, c => by
    cases b <;> simp [Expr.equal] at h
    cases c <;> simp [Expr.equal, Expr.equal_congr e h.1.1, Expr.equalAll_congr es h.1.2, h.2]
  | .isNull e n, b, h, c => by
    cases b <;> simp [Expr.equal] at h
    cases c <;> simp [Expr.equal, Expr.equal_congr e h.1, h.2]
  | .like e p n, b, h, c => by
    cases b <;> simp [Expr.equal] at h
    cases c <;> simp [Expr.equal, Expr.equal_congr e h.1.1, h.1.2, h.2]
  | .raw s, b, h, c => by
    cases b <;> simp [Expr.equal] at h
    rw [h]
  | .paren e, b, h, c => by
    cases b <;> simp [Expr.equal] at h
    cases c <;> simp [Expr.equal, Expr.equal_congr e h]
  | .countStar, b, h, c => by
    cases b <;> simp [Expr.equal] at h
    rfl
  | .aggregate f a k, b, h, c => by
    cases b <;> simp [Expr.equal] at h
    cases c <;> simp [Expr.equal, h.1.1, Association.equal_congr a h.1.2, h.2]

theorem Expr.equalAll_congr : (as : List Expr) → {bs : List Expr} → Expr.equalAll as bs →
    ∀ cs, Expr.equalAll as cs = Expr.equalAll bs cs
  | [], bs, h, cs => by
    cases bs <;> simp [Expr.equalAll] at h
    rfl
  | a :: as, bs, h, cs => by
    cases bs <;> simp [Expr.equalAll] at h
    cases cs <;> simp [Expr.equalAll, Expr.equal_congr a h.1, Expr.equalAll_congr as h.2]

theorem OrderTerm.equal_congr : (o : OrderTerm) → {p : OrderTerm} → o.equal p →
    ∀ q, o.equal q = p.equal q
  | .mk e d n, .mk .., h, .mk .. => by
    simp [OrderTerm.equal] at h
    simp [OrderTerm.equal, Expr.equal_congr e h.1.1, h.1.2, h.2]

theorem OrderTerm.equalAll_congr : (os : List OrderTerm) → {ps : List OrderTerm} →
    OrderTerm.equalAll os ps → ∀ qs, OrderTerm.equalAll os qs = OrderTerm.equalAll ps qs
  | [], ps, h, qs => by
    cases ps <;> simp [OrderTerm.equalAll] at h
    rfl
  | o :: os, ps, h, qs => by
    cases ps <;> simp [OrderTerm.equalAll] at h
    cases qs <;>
      simp [OrderTerm.equalAll, OrderTerm.equal_congr o h.1, OrderTerm.equalAll_congr os h.2]

/-- Equal associations equal the same ones. -/
theorem Association.equal_congr : (a : Association) → {b : Association} → a.equal b →
    ∀ c, a.equal c = b.equal c
  -- one object equals what it is; otherwise the parts decide, and they do so both ways round
  | .direct k n o d m fs os p, b, h, c => by
    obtain rfl | hparts := Association.eq_or_equalParts h
    · rfl
    · have hcomm := (Association.equalParts_comm _ _).symm.trans hparts
      refine Association.equal_congr_of_parts hparts hcomm (fun c => ?_) c
      cases b <;> simp [Association.equalParts] at hparts
      obtain ⟨⟨⟨⟨⟨⟨⟨rfl, rfl⟩, rfl⟩, rfl⟩, rfl⟩, hfilters⟩, horder⟩, rfl⟩ := hparts
      cases c <;> simp [Association.equalParts, Expr.equalAll_congr fs hfilters,
        OrderTerm.equalAll_congr os horder]
  | .through n v t fs os p, b, h, c => by
    obtain rfl | hparts := Association.eq_or_equalParts h
    · rfl
    · have hcomm := (Association.equalParts_comm _ _).symm.trans hparts
      refine Association.equal_congr_of_parts hparts hcomm (fun c => ?_) c
      cases b <;> simp [Association.equalParts] at hparts
      obtain ⟨⟨⟨⟨⟨rfl, hpivot⟩, htarget⟩, hfilters⟩, horder⟩, rfl⟩ := hparts
      cases c <;> simp [Association.equalParts, Association.equal_congr v hpivot,
        Association.equal_congr t htarget, Expr.equalAll_congr fs hfilters,
        OrderTerm.equalAll_congr os horder]

end

/-- Equal associations lead to the same table. -/
theorem Association.destination_eq_of_equal : (a : Association) → {b : Association} →
    a.equal b → a.destination = b.destination
  | .direct .., b, h => by
    obtain rfl | hparts := Association.eq_or_equalParts h
    · rfl
    · cases b <;> simp [Association.equalParts] at hparts
      obtain ⟨⟨⟨⟨⟨_, rfl⟩, _⟩, _⟩, _⟩, _⟩ := hparts
      rfl
  | .through _ _ target _ _ _, b, h => by
    obtain rfl | hparts := Association.eq_or_equalParts h
    · rfl
    · cases b <;> simp [Association.equalParts] at hparts
      rw [Association.destination, Association.destination,
        Association.destination_eq_of_equal target hparts.1.1.1.2]

end AssociationQuery
