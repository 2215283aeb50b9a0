import AssociationQuery.Value.Basic

/-!
# AssociationQuery.Row

Rows of a result: values and the names of their columns.

Joined statements repeat column names, so a name stands for the first column
that bears it.  The two lists need not have the same length; a position or a
range outside of them gives nothing.
-/

namespace AssociationQuery

/-! ## ranges of positions -/

/-- The positions from `start` up to but not including `stop`. -/
structure Span where
  start : Nat
  stop : Nat
  deriving DecidableEq, Repr, Inhabited

namespace Span

def width (s : Span) : Nat := s.stop - s.start

/-- The part of a list that lies in the range. -/
def slice (s : Span) (xs : List α) : List α := (xs.take s.stop).drop s.start

/-- A slice is as long as its range, as far as there are values. -/
theorem length_slice (s : Span) (xs : List α) :
    (s.slice xs).length = min s.stop xs.length - s.start := by
  simp [slice]

end Span

/-! ## rows -/

/-- The position of the first column of that name. -/
def columnNamed? (columns : List String) (name : String) : Option Nat :=
  columns.findIdx? (· == name)

structure Row where
  columns : List String
  values : List Value
  deriving DecidableEq, Repr

namespace Row

/-- The number of values. -/
def width (r : Row) : Nat := r.values.length

/-- The value at a position. -/
def get? (r : Row) (i : Nat) : Option Value := r.values[i]?

/-- The value of the first column of that name. -/
def named? (r : Row) (name : String) : Option Value :=
  columnNamed? r.columns name >>= r.get?

/-- The values in a range. -/
def valuesIn (r : Row) (s : Span) : List Value := s.slice r.values

/-- The columns in a range as a row of their own. -/
def project (r : Row) (s : Span) : Row := ⟨s.slice r.columns, s.slice r.values⟩

/-- Names and values side by side, as far as both go. -/
def entries (r : Row) : List (String × Value) := r.columns.zip r.values

/-- The same columns and equal values. -/
def equal (a b : Row) : Bool :=
  a.columns == b.columns && a.values.length == b.values.length
    && (a.values.zip b.values).all fun p => p.1.equal p.2

end Row

end AssociationQuery
