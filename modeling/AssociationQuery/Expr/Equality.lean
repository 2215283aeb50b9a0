import AssociationQuery.Expr.Basic

/-!
# AssociationQuery.Expr.Equality

When two expressions, orderings or associations are the same: when they are
built alike, from the same handles and from equal values.

A NaN equals nothing, so that an expression with a NaN in it does not equal
itself.  An association does: it is one object however often it is used, and an
object is compared by its parts only with other objects.  Objects are told apart
by what they hold, down to the bits of its numbers, so that two associations
which hold the very same count as one.
-/

namespace AssociationQuery

/-! ## one and the same -/

mutual

/-- Do the two hold the very same, each number bit by bit? -/
def Expr.identical : Expr → Expr → Bool
  | .column t n, .column u m => t == u && n == m
  | .literal v, .literal w => v == w
  | .binary o a b, .binary p c d => o == p && Expr.identical a c && Expr.identical b d
  | .unary o a, .unary p b => o == p && Expr.identical a b
  | .call f as, .call g bs => f == g && Expr.identicalAll as bs
  | .inList a as m, .inList b bs n => Expr.identical a b && Expr.identicalAll as bs && m == n
  | .isNull a m, .isNull b n => Expr.identical a b && m == n
  | .like a s m, .like b t n => Expr.identical a b && s == t && m == n
  | .raw s, .raw t => s == t
  | .paren a, .paren b => Expr.identical a b
  | .countStar, .countStar => true
  | .aggregate f a c, .aggregate g b d => f == g && Association.identical a b && c == d
  | _, _ => false

def Expr.identicalAll : List Expr → List Expr → Bool
  | [], [] => true
  | a :: as, b :: bs => Expr.identical a b && Expr.identicalAll as bs
  | _, _ => false

def OrderTerm.identical : OrderTerm → OrderTerm → Bool
  | .mk a d m, .mk b e n => Expr.identical a b && d == e && m == n

def OrderTerm.identicalAll : List OrderTerm → List OrderTerm → Bool
  | [], [] => true
  | a :: as, b :: bs => OrderTerm.identical a b && OrderTerm.identicalAll as bs
  | _, _ => false

def Association.identical : Association → Association → Bool
  | .direct k n o d m fs os p, .direct k' n' o' d' m' fs' os' p' =>
    k == k' && n == n' && o == o' && d == d' && m == m'
      && Expr.identicalAll fs fs' && OrderTerm.identicalAll os os' && p == p'
  | .through n v t fs os p, .through n' v' t' fs' os' p' =>
    n == n' && Association.identical v v' && Association.identical t t'
      && Expr.identicalAll fs fs' && OrderTerm.identicalAll os os' && p == p'
  | _, _ => false

end

/-! ## equality -/

/-- The same table. -/
def TableRef.equal : TableRef → TableRef → Bool
  | current, current => true
  | handle a, handle b => a.same b
  | named s, named t => s == t
  | _, _ => false

mutual

def Expr.equal : Expr → Expr → Bool
  | .column t n, .column u m => t.equal u && n == m
  | .literal v, .literal w => v.equal w
  | .binary o a b, .binary p c d => o == p && Expr.equal a c && Expr.equal b d
  | .unary o a, .unary p b => o == p && Expr.equal a b
  | .call f as, .call g bs => f == g && Expr.equalAll as bs
  | .inList a as m, .inList b bs n => Expr.equal a b && Expr.equalAll as bs && m == n
  | .isNull a m, .isNull b n => Expr.equal a b && m == n
  | .like a s m, .like b t n => Expr.equal a b && s == t && m == n
  | .raw s, .raw t => s == t
  | .paren a, .paren b => Expr.equal a b
  | .countStar, .countStar => true
  | .aggregate f a c, .aggregate g b d => f == g && Association.equal a b && c == d
  | _, _ => false

def Expr.equalAll : List Expr → List Expr → Bool
  | [], [] => true
  | a :: as, b :: bs => Expr.equal a b && Expr.equalAll as bs
  | _, _ => false

def OrderTerm.equal : OrderTerm → OrderTerm → Bool
  | .mk a d m, .mk b e n => Expr.equal a b && d == e && m == n

def OrderTerm.equalAll : List OrderTerm → List OrderTerm → Bool
  | [], [] => true
  | a :: as, b :: bs => OrderTerm.equal a b && OrderTerm.equalAll as bs
  | _, _ => false

/-- One and the same association, or two that are equal part by part. -/
def Association.equal : Association → Association → Bool
  | a@(.direct k n o d m fs os p), b@(.direct k' n' o' d' m' fs' os' p') =>
    a.identical b || (k == k' && n == n' && o == o' && d == d' && m == m'
      && Expr.equalAll fs fs' && OrderTerm.equalAll os os' && p == p')
  | a@(.through n v t fs os p), b@(.through n' v' t' fs' os' p') =>
    a.identical b || (n == n' && Association.equal v v' && Association.equal t t'
      && Expr.equalAll fs fs' && OrderTerm.equalAll os os' && p == p')
  | _, _ => false

end

end AssociationQuery
