import AssociationQuery.Text.Casing
import AssociationQuery.Text.Quoted.Table

/-!
# AssociationQuery.Text.Quoted

Text shown inside a message: between double quotes, with everything that would
be invisible or ambiguous there written as an escape.
-/

namespace AssociationQuery.Text.Quoted

/-- Lower-case hexadecimal digits of a number, without leading zeros. -/
def hexDigits (n : Nat) : List Char := Nat.toDigits 16 n

/-- A character as quoted text shows it: the usual escapes by letter, quote and
backslash behind a backslash, other unprintable characters and characters that
would join the one before them by code point. -/
def escape (c : Char) : List Char :=
  match c with
  | '\x00' => ['\\', '0']
  | '\t' => ['\\', 't']
  | '\n' => ['\\', 'n']
  | '\r' => ['\\', 'r']
  | '"' => ['\\', '"']
  | '\\' => ['\\', '\\']
  | c =>
    if Casing.within extenderSpans c || Casing.within unprintableSpans c then
      ['\\', 'u', '\x7b'] ++ hexDigits c.toNat ++ ['\x7d']
    else [c]

/-- The text between double quotes. -/
def quoted (s : String) : String :=
  String.ofList ('"' :: s.toList.flatMap escape ++ ['"'])

end AssociationQuery.Text.Quoted
