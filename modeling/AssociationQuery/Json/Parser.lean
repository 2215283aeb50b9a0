import AssociationQuery.Json.Document

/-!
# AssociationQuery.Json.Parser

Reading JSON text, strictly: four kinds of blank, no leading zeros, no controls
inside strings, no comma after the last item, nothing but blanks after the
value.

A reader consumes characters from the front of a list.  Values nest, so the
readers of values take fuel; `Document.ofText?` gives them the length of the
text, and every step into a value consumes at least one character.
-/

namespace AssociationQuery.Json.Document

/-! ## blanks and literals -/

def isBlank (c : Char) : Bool := c = ' ' || c = '\t' || c = '\n' || c = '\r'

def skipBlanks (cs : List Char) : List Char := cs.dropWhile isBlank

/-- What follows a word, if the text starts with it. -/
def afterWord? : List Char → List Char → Option (List Char)
  | [], cs => some cs
  | w :: ws, c :: cs => if w = c then afterWord? ws cs else none
  | _ :: _, [] => none

/-! ## strings -/

def hexValue? (c : Char) : Option Nat :=
  if '0' ≤ c ∧ c ≤ '9' then some (c.toNat - '0'.toNat)
  else if 'a' ≤ c ∧ c ≤ 'f' then some (c.toNat - 'a'.toNat + 10)
  else if 'A' ≤ c ∧ c ≤ 'F' then some (c.toNat - 'A'.toNat + 10)
  else none

/-- The number that four hexadecimal digits name. -/
def hexQuad? : List Char → Option (Nat × List Char)
  | a :: b :: c :: d :: rest => do
    let a ← hexValue? a
    let b ← hexValue? b
    let c ← hexValue? c
    let d ← hexValue? d
    return (((a * 16 + b) * 16 + c) * 16 + d, rest)
  | _ => none

/-- The character that a letter after a backslash stands for. -/
def shortEscape? (c : Char) : Option Char :=
  match c with
  | '"' => some '"'
  | '\\' => some '\\'
  | '/' => some '/'
  | 'b' => some '\x08'
  | 'f' => some '\x0c'
  | 'n' => some '\n'
  | 'r' => some '\r'
  | 't' => some '\t'
  | _ => none

/-- A unit of a string literal: a character, or a 16-bit unit given by escape. -/
inductive CodeUnit where
  | char (c : Char)
  | unit (n : Nat)

/-- The units of a string literal up to its closing quote, and what follows it. -/
def units? : List Char → Option (List CodeUnit × List Char)
  | [] => none
  | '"' :: rest => some ([], rest)
  | ['\\'] => none
  | '\\' :: e :: rest =>
    if e = 'u' then
      match rest with
      | a :: b :: c :: d :: more => do
        let (n, _) ← hexQuad? [a, b, c, d]
        let (us, after) ← units? more
        return (.unit n :: us, after)
      | _ => none
    else do
      let ch ← shortEscape? e
      let (us, after) ← units? rest
      return (.char ch :: us, after)
  | c :: rest =>
    if c.toNat < 0x20 then none
    else do
      let (us, after) ← units? rest
      return (.char c :: us, after)

/-- The text of the units: a high surrogate joins the low one right after it,
and one without its partner names no text. -/
def textOfUnits? : List CodeUnit → Option (List Char)
  | [] => some []
  | .char c :: rest => (textOfUnits? rest).map (c :: ·)
  | [.unit n] => if 0xD800 ≤ n ∧ n < 0xE000 then none else some [Char.ofNat n]
  | .unit n :: u :: rest =>
    if 0xD800 ≤ n ∧ n < 0xDC00 then
      match u with
      | .unit m =>
        if 0xDC00 ≤ m ∧ m < 0xE000 then
          (textOfUnits? rest).map
            (Char.ofNat (0x10000 + (n - 0xD800) * 0x400 + (m - 0xDC00)) :: ·)
        else none
      | .char _ => none
    else if 0xDC00 ≤ n ∧ n < 0xE000 then none
    else (textOfUnits? (u :: rest)).map (Char.ofNat n :: ·)

/-- The rest of a string literal, after its opening quote. -/
def literal? (cs : List Char) : Option (Literal × List Char) :=
  (units? cs).map fun (us, rest) => ((textOfUnits? us).map String.ofList, rest)

/-! ## numbers -/

/-- The digits before the point: one zero, or digits that do not start with one. -/
def wholeDigits? (cs : List Char) : Option (List Char × List Char) :=
  match Decimal.spanDigits cs with
  | (['0'], rest) => some (['0'], rest)
  | (d :: ds, rest) => if d = '0' then none else some (d :: ds, rest)
  | ([], _) => none

/-- The digits after a point, if there is one; at least one digit. -/
def fractionDigits? : List Char → Option (Option (List Char) × List Char)
  | '.' :: cs =>
    match Decimal.spanDigits cs with
    | ([], _) => none
    | (ds, rest) => some (some ds, rest)
  | cs => some (none, cs)

/-- The exponent, if there is one; at least one digit. -/
def exponentPart? : List Char → Option (Option Int × List Char)
  | c :: cs =>
    if c = 'e' ∨ c = 'E' then
      let (negative, rest) := Decimal.splitSign cs
      match Decimal.spanDigits rest with
      | ([], _) => none
      | (ds, rest) =>
        let n : Int := Decimal.natOfDigits ds
        some (some (if negative then -n else n), rest)
    else some (none, c :: cs)
  | [] => some (none, [])

/-- One more digit of a significand, as long as it fits 64 bits. -/
def pushDigit? (n : Nat) (c : Char) : Option Nat :=
  let m := 10 * n + Decimal.digitValue c
  if m < Nat.pow 2 64 then some m else none

/-- Digits before the point: from the first that does not fit on, each only
raises the exponent. -/
def pushWhole (n : Nat) : List Char → Decimal.Scaled
  | [] => ⟨n, 0⟩
  | c :: cs =>
    match pushDigit? n c with
    | some m => pushWhole m cs
    | none => ⟨n, (c :: cs).length⟩

/-- Digits after the point: from the first that does not fit on they are dropped. -/
def pushFraction (s : Decimal.Scaled) : List Char → Decimal.Scaled
  | [] => s
  | c :: cs =>
    match pushDigit? s.digits c with
    | some m => pushFraction ⟨m, s.exponent - 1⟩ cs
    | none => s

/-- A number without its minus sign.  A whole number is an `integer` when it fits
64 bits; negative zero is not whole, since zero has no sign. -/
def number? (negative : Bool) (cs : List Char) : Option (Document × List Char) := do
  let (whole, cs) ← wholeDigits? cs
  let (fraction, cs) ← fractionDigits? cs
  let (exponent, cs) ← exponentPart? cs
  let n := Decimal.natOfDigits whole
  let fits := if negative then n ≠ 0 ∧ n ≤ Nat.pow 2 63 else n < Nat.pow 2 64
  if fraction.isNone ∧ exponent.isNone ∧ fits then
    return (.integer (if negative then -n else n), cs)
  else
    let s := pushFraction (pushWhole 0 whole) (fraction.getD [])
    return (.decimal negative ⟨s.digits, s.exponent + exponent.getD 0⟩, cs)

/-! ## values -/

mutual

/-- A value and what follows it. -/
def value? : Nat → List Char → Option (Document × List Char)
  | 0, _ => none
  | fuel + 1, cs =>
    match skipBlanks cs with
    | 'n' :: rest => (afterWord? ['u', 'l', 'l'] rest).map (.null, ·)
    | 't' :: rest => (afterWord? ['r', 'u', 'e'] rest).map (.bool true, ·)
    | 'f' :: rest => (afterWord? ['a', 'l', 's', 'e'] rest).map (.bool false, ·)
    | '"' :: rest => (literal? rest).map fun (s, rest) => (.string s, rest)
    | '[' :: rest =>
      match skipBlanks rest with
      | ']' :: rest => some (.array [], rest)
      | rest => (items? fuel rest).map fun (items, rest) => (.array items, rest)
    | '\x7b' :: rest =>
      match skipBlanks rest with
      | '\x7d' :: rest => some (.object [], rest)
      | rest => (members? fuel rest).map fun (members, rest) => (.object members, rest)
    | '-' :: rest => number? true rest
    | rest => number? false rest

/-- The items of an array up to its closing bracket; at least one. -/
def items? : Nat → List Char → Option (List Document × List Char)
  | 0, _ => none
  | fuel + 1, cs => do
    let (d, rest) ← value? fuel cs
    match skipBlanks rest with
    | ']' :: rest => return ([d], rest)
    | ',' :: rest =>
      let (ds, rest) ← items? fuel rest
      return (d :: ds, rest)
    | _ => none

/-- The members of an object up to its closing brace; at least one. -/
def members? : Nat → List Char → Option (List (Literal × Document) × List Char)
  | 0, _ => none
  | fuel + 1, cs =>
    match skipBlanks cs with
    | '"' :: rest => do
      let (name, rest) ← literal? rest
      match skipBlanks rest with
      | ':' :: rest =>
        let (d, rest) ← value? fuel rest
        match skipBlanks rest with
        | '\x7d' :: rest => return ([(name, d)], rest)
        | ',' :: rest =>
          let (ms, rest) ← members? fuel rest
          return ((name, d) :: ms, rest)
        | _ => none
      | _ => none
    | _ => none

end

/-- The document that a text holds, with nothing but blanks around it. -/
def ofText? (text : String) : Option Document := do
  let cs := text.toList
  let (d, rest) ← value? (2 * cs.length + 2) cs
  if (skipBlanks rest).isEmpty then some d else none

end AssociationQuery.Json.Document
