import AssociationQuery.Number.Binary

/-!
# AssociationQuery.Number.Decimal

Decimal text read as a double-precision number.

The text is an optional sign, then either digits with an optional point among
or around them and an optional exponent, or one of the words for infinity and
NaN in any case.  No blanks, no separators.  The value is rounded once, from the
exact decimal.
-/

namespace AssociationQuery.Decimal

/-- A decimal `digits · 10 ^ exponent`. -/
structure Scaled where
  digits : Nat
  exponent : Int
  deriving DecidableEq, Repr

/-- The value of a digit character. -/
def digitValue (c : Char) : Nat := c.toNat - '0'.toNat

/-- The number that a run of digits names. -/
def natOfDigits (cs : List Char) : Nat := cs.foldl (fun n c => 10 * n + digitValue c) 0

/-- The leading digits and what follows them. -/
def spanDigits (cs : List Char) : List Char × List Char :=
  (cs.takeWhile Char.isDigit, cs.dropWhile Char.isDigit)

/-- A sign, if there is one: is it a minus, and what follows it. -/
def splitSign : List Char → Bool × List Char
  | '-' :: cs => (true, cs)
  | '+' :: cs => (false, cs)
  | cs => (false, cs)

/-- The part after the mantissa: nothing, or a mark and a signed exponent. -/
def exponent? : List Char → Option Int
  | [] => some 0
  | c :: cs =>
    if c = 'e' ∨ c = 'E' then
      let (negative, rest) := splitSign cs
      let (ds, rest) := spanDigits rest
      if ds.isEmpty ∨ !rest.isEmpty then none
      else some (if negative then -(natOfDigits ds) else natOfDigits ds)
    else none

/-- An unsigned decimal: digits on at least one side of an optional point. -/
def scaled? (cs : List Char) : Option Scaled :=
  let (whole, rest) := spanDigits cs
  let (fraction, rest) :=
    match rest with
    | '.' :: more => spanDigits more
    | rest => ([], rest)
  if whole.isEmpty && fraction.isEmpty then none
  else (exponent? rest).map fun e =>
    ⟨natOfDigits (whole ++ fraction), e - fraction.length⟩

/-- The number nearest to a scaled decimal.  Far outside the range of the format
the answer is infinity or zero without forming the power of ten. -/
def Scaled.toBinary64 (s : Scaled) : Binary64 :=
  let size : Int := (Nat.toDigits 10 s.digits).length
  if s.digits = 0 then ⟨0⟩
  else if size + s.exponent > 400 then Binary64.infinity
  else if size + s.exponent < -400 then ⟨0⟩
  else Binary64.ofQuotient (s.digits * Nat.pow 10 s.exponent.toNat) (Nat.pow 10 (-s.exponent).toNat)

/-- The words for the values that are not finite. -/
def word? (cs : List Char) : Option Binary64 :=
  match String.ofList (cs.map Char.toLower) with
  | "inf" | "infinity" => some Binary64.infinity
  | "nan" => some Binary64.nan
  | _ => none

/-- The double-precision number that a decimal text names. -/
def toBinary64? (text : String) : Option Binary64 :=
  let (negative, cs) := splitSign text.toList
  ((scaled? cs).map Scaled.toBinary64 <|> word? cs).map fun x =>
    if negative then x.negate else x

end AssociationQuery.Decimal
