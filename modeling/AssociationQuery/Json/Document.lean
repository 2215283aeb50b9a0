import AssociationQuery.Json.Basic
import AssociationQuery.Number.Decimal

/-!
# AssociationQuery.Json.Document

JSON text as it is written: a tree that keeps what reading a value forgets, the
order and repetition of members and the spelling of numbers.

Two things a text may hold name no value and are kept apart, since a reader may
still skip over them: a number with a fraction, an exponent or too many digits,
and a string that escapes half of a surrogate pair.
-/

namespace AssociationQuery.Json

/-- A string literal: its text, or `none` when it escapes half of a surrogate pair. -/
abbrev Literal := Option String

inductive Document where
  | null
  | bool (b : Bool)
  /-- A whole number that fits 64 bits, signed or unsigned. -/
  | integer (n : Int)
  /-- Any other number. -/
  | decimal (negative : Bool) (value : Decimal.Scaled)
  | string (s : Literal)
  | array (items : List Document)
  | object (members : List (Literal × Document))
  deriving Repr, Inhabited

namespace Document

mutual

/-- How many arrays and objects lie around the innermost value. -/
def depth : Document → Nat
  | array items => depthItems items + 1
  | object members => depthMembers members + 1
  | _ => 0

def depthItems : List Document → Nat
  | [] => 0
  | d :: rest => max d.depth (depthItems rest)

def depthMembers : List (Literal × Document) → Nat
  | [] => 0
  | (_, d) :: rest => max d.depth (depthMembers rest)

end

mutual

/-- The value that a document names, if its numbers are whole and its strings
are text. -/
def toJson? : Document → Option Json
  | null => some .null
  | bool b => some (.bool b)
  | integer n => some (.integer n)
  | decimal _ _ => none
  | string s => s.map .string
  | array items => (toJsonItems? items).map .array
  | object members => (toJsonMembers? members).map .ofMembers

def toJsonItems? : List Document → Option (List Json)
  | [] => some []
  | d :: rest => do return (← d.toJson?) :: (← toJsonItems? rest)

def toJsonMembers? : List (Literal × Document) → Option (List (String × Json))
  | [] => some []
  | (name, d) :: rest => do return (← name, ← d.toJson?) :: (← toJsonMembers? rest)

end

end Document

end AssociationQuery.Json
