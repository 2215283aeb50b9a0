import AssociationQuery.Text.Casing.Table

/-!
# AssociationQuery.Text.Casing

The two ways in which names are compared without regard to case.

Schema names fold ASCII letters only: `sameIgnoringCase`.  Aliases of one
statement are told apart by the full lower-case mapping of their text, `lower`,
because databases fold more than ASCII: every character takes its lower-case
form, a dotted capital I becomes two characters, and a capital sigma takes its
final form at the end of a word.
-/

namespace AssociationQuery.Text.Casing

/-! ## folding of ASCII letters -/

/-- The text with its ASCII capitals in lower case. -/
def foldAscii (s : String) : List Char := s.toList.map Char.toLower

/-- Equal up to the case of ASCII letters. -/
def sameIgnoringCase (a b : String) : Bool := foldAscii a == foldAscii b

/-- Names are the same if they are equal in lower case. -/
theorem sameIgnoringCase_iff {a b : String} :
    sameIgnoringCase a b = true ↔ foldAscii a = foldAscii b := by
  simp [sameIgnoringCase]

@[simp] theorem sameIgnoringCase_self (a : String) : sameIgnoringCase a a = true := by
  simp [sameIgnoringCase]

/-- It does not matter which of two names comes first. -/
theorem sameIgnoringCase_comm (a b : String) : sameIgnoringCase a b = sameIgnoringCase b a := by
  simp [sameIgnoringCase, Bool.beq_comm]

/-! ## the full lower-case mapping -/

/-- The distance from a character to its lower-case form; zero for most. -/
def shift (c : Char) : Int :=
  match lowerRuns.find? fun r => r.first ≤ c.toNat && c.toNat ≤ r.last with
  | some r => if (c.toNat - r.first) % r.step = 0 then r.shift else 0
  | none => 0

/-- The lower-case form of one character on its own. -/
def lowerChar (c : Char) : List Char :=
  if c.toNat < 128 then [c.toLower]
  else if c = '\u0130' then ['i', '\u0307']
  else [Char.ofNat (c.toNat + shift c).toNat]

/-- Does the character lie in one of the spans? -/
def within (spans : List (Nat × Nat)) (c : Char) : Bool :=
  spans.any fun s => s.1 ≤ c.toNat && c.toNat ≤ s.2

/-- Is the first character that counts one with case? -/
def meetsCased (cs : List Char) : Bool :=
  (cs.dropWhile (within ignorableSpans)).head?.any (within casedSpans)

/-- Lower-case forms of `after`, which follows the characters `before`, nearest
first: a sigma is final when a cased letter precedes it and none follows. -/
def lowerFrom (before : List Char) : List Char → List Char
  | [] => []
  | c :: after =>
    (if c = 'Σ' then
      [if meetsCased before && !meetsCased after then 'ς' else 'σ']
    else lowerChar c) ++ lowerFrom (c :: before) after

/-- The text in lower case. -/
def lower (s : String) : String := String.ofList (lowerFrom [] s.toList)

end AssociationQuery.Text.Casing
