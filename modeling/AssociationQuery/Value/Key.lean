import AssociationQuery.Json.Printer
import AssociationQuery.Value.Basic

/-!
# AssociationQuery.Value.Key

The form in which values are compared when rows of two statements are paired.

Databases disagree about the width of a whole number from one statement to the
next, so a key keeps the number and forgets the width; a decimal pairs with the
text that spells it, real numbers pair by their bits and JSON by its compact
text.  NULL has no key: it pairs with nothing.
-/

namespace AssociationQuery

inductive ValueKey where
  | integer (n : Int)
  | real (x : Binary64)
  | text (s : String)
  | bytes (bs : List UInt8)
  | json (text : String)
  deriving DecidableEq, Repr

namespace Value

/-- The key of a value; NULL has none. -/
def key : Value → Option ValueKey
  | null => none
  | bool b => some (.integer (if b then 1 else 0))
  | tinyInt n => some (.integer n.toInt)
  | smallInt n => some (.integer n.toInt)
  | int n => some (.integer n.toInt)
  | bigInt n => some (.integer n.toInt)
  | timestamp n => some (.integer n.toInt)
  | float x => some (.real x.widen)
  | double x => some (.real x)
  | decimal s => some (.text s)
  | text s => some (.text s)
  | bytes bs => some (.bytes bs)
  | json j => some (.json j.text)

/-- Only NULL has no key. -/
theorem key_eq_none_iff {v : Value} : v.key = none ↔ v = null := by
  cases v <;> simp [key]

end Value

namespace ValueKey

/-- The place of a key's kind in the order of keys. -/
def rank : ValueKey → Nat
  | integer _ => 0
  | real _ => 1
  | text _ => 2
  | bytes _ => 3
  | json _ => 4

/-- Lists of bytes in dictionary order. -/
def compareBytes : List UInt8 → List UInt8 → Ordering
  | [], [] => .eq
  | [], _ :: _ => .lt
  | _ :: _, [] => .gt
  | a :: as, b :: bs => (compare a b).then (compareBytes as bs)

/-- Keys of different kinds in the order of their kinds, keys of one kind by their
content: real numbers by their bits, text by its characters. -/
def compare : ValueKey → ValueKey → Ordering
  | integer a, integer b => Ord.compare a b
  | real a, real b => Ord.compare a.bits b.bits
  | text a, text b => Ord.compare a b
  | bytes a, bytes b => compareBytes a b
  | json a, json b => Ord.compare a b
  | a, b => Ord.compare a.rank b.rank

/-- A missing key comes before every key. -/
def compareOption : Option ValueKey → Option ValueKey → Ordering
  | none, none => .eq
  | none, some _ => .lt
  | some _, none => .gt
  | some a, some b => a.compare b

end ValueKey

end AssociationQuery
