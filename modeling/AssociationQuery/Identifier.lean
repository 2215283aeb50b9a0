/-!
# AssociationQuery.Identifier

Names inside SQL text.

A quoted identifier stands between two marks and doubles every mark inside it,
so that no name can end its own quotation.  Where a statement has no place for
quotes, a name is reduced to ASCII letters, digits and underscores.
-/

namespace AssociationQuery.Identifier

/-- The characters of a name between two marks, with every mark inside doubled. -/
def enclose (mark : Char) (cs : List Char) : List Char :=
  mark :: cs.flatMap (fun c => if c = mark then [mark, mark] else [c]) ++ [mark]

/-- A name quoted with the given mark. -/
def quote (mark : Char) (name : String) : String := String.ofList (enclose mark name.toList)

/-- May the character stand in a name without quotes? -/
def isPlain (c : Char) : Bool := c.isAlphanum || c = '_'

/-- Digits need no quotes. -/
theorem isPlain_of_isDigit {c : Char} (h : c.isDigit) : isPlain c := by
  simp [isPlain, Char.isAlphanum, h]

/-- The name without the characters that need quotes. -/
def sanitize (name : String) : String := String.ofList (name.toList.filter isPlain)

/-- Is the name made of plain characters only, at least one? -/
def isPlainName (name : String) : Bool := !name.toList.isEmpty && name.toList.all isPlain

end AssociationQuery.Identifier
