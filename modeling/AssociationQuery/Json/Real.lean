import AssociationQuery.Json.Document
import AssociationQuery.Number.Shortest

/-!
# AssociationQuery.Json.Real

Real numbers in JSON text.

Reading rounds twice: the significand to the nearest double, and its product or
quotient with a power of ten again.  For significands below `2 ^ 53` and powers
up to the twenty-second both operands are exact and the reading is the nearest
double; beyond that it may miss by a place.

Writing gives the shortest digits that read back, with a point even in a whole
number, and an exponent with its sign outside of a middle range.  What is not
finite is written as null.
-/

namespace AssociationQuery.Json.Real

open BinaryFormat (single double)

/-! ## reading -/

/-- Multiply a finite magnitude by another, or divide by it, rounding once. -/
def scaleBy (divide : Bool) (x factor : Nat) : Nat :=
  let (m, e) := double.decode x
  let (n, k) := double.decode factor
  let e := if divide then e - k else e + k
  if divide then double.round (m * Nat.pow 2 e.toNat) (n * Nat.pow 2 (-e).toNat)
  else double.round (m * n * Nat.pow 2 e.toNat) (Nat.pow 2 (-e).toNat)

/-- The double nearest to a power of ten. -/
def powerOfTen (n : Nat) : Nat := double.round (Nat.pow 10 n) 1

/-- The double that a decimal names; none when it is too large. -/
def ofScaled? (s : Decimal.Scaled) : Option Binary64 :=
  let x := double.round s.digits 1
  let bits :=
    if x = 0 then some 0
    else if s.exponent > 308 then none
    else if s.exponent ≥ 0 then
      let y := scaleBy false x (powerOfTen s.exponent.toNat)
      if y = double.infinity then none else some y
    else if s.exponent ≥ -308 then some (scaleBy true x (powerOfTen (-s.exponent).toNat))
    else if s.exponent ≥ -616 then
      some (scaleBy true (scaleBy true x (powerOfTen 308)) (powerOfTen (-s.exponent - 308).toNat))
    else some 0
  bits.map fun b => ⟨b.toUInt64⟩

/-- The double that a number names. -/
def toBinary64? : Document → Option Binary64
  | .integer n => some (.ofInt n)
  | .decimal negative s => (ofScaled? s).map fun x => if negative then x.negate else x
  | _ => none

/-- The single-precision number nearest to a double. -/
def narrow (x : Binary64) : Binary32 :=
  let b := x.bits.toNat
  let m := double.magnitude b
  let shift := Nat.pow 2 (double.fractionBits - single.fractionBits)
  let magnitude :=
    if m = double.infinity then single.infinity
    else if double.infinity < m then
      single.infinity + ((m - double.infinity) / shift ||| single.quietBit)
    else
      let (digits, e) := double.decode m
      single.round (digits * Nat.pow 2 e.toNat) (Nat.pow 2 (-e).toNat)
  ⟨(magnitude + if double.isNegative b then single.signBit else 0).toUInt32⟩

/-- The single-precision number that a number names: a whole number is rounded
once, any other by way of the double. -/
def toBinary32? : Document → Option Binary32
  | .integer n =>
    some ⟨(single.round n.natAbs 1 + if n < 0 then single.signBit else 0).toUInt32⟩
  | d => (toBinary64? d).map narrow

/-! ## writing -/

/-- Where positional notation ends: the largest count of digits before the point,
and the largest count of zeros after it before the first digit. -/
structure Layout where
  whole : Int
  zeros : Int

/-- Doubles are positional from `0.00001` up to sixteen digits. -/
def doubleLayout : Layout := ⟨16, 5⟩

/-- Single-precision numbers are positional from `0.000001` up to thirteen digits. -/
def singleLayout : Layout := ⟨13, 6⟩

/-- The digits `d · 10 ^ k` laid out. -/
def place (layout : Layout) (d : Nat) (k : Int) : List Char :=
  let ds := Nat.toDigits 10 d
  let point : Int := ds.length + k
  if 0 ≤ k ∧ point ≤ layout.whole then ds ++ List.replicate k.toNat '0' ++ ['.', '0']
  else if 0 < point ∧ point ≤ layout.whole then
    ds.take point.toNat ++ '.' :: ds.drop point.toNat
  else if -layout.zeros < point ∧ point ≤ 0 then
    '0' :: '.' :: List.replicate (-point).toNat '0' ++ ds
  else
    let e := point - 1
    let exponent := 'e' :: (if e < 0 then '-' else '+') :: Nat.toDigits 10 e.natAbs
    match ds with
    | [c] => c :: exponent
    | c :: rest => c :: '.' :: rest ++ exponent
    | [] => exponent

/-- A number of the given format as JSON text. -/
def print (f : BinaryFormat) (layout : Layout) (bits : Nat) : List Char :=
  let m := f.magnitude bits
  let sign := if f.isNegative bits then ['-'] else []
  if f.infinity ≤ m then ['n', 'u', 'l', 'l']
  else if m = 0 then sign ++ ['0', '.', '0']
  else
    let (d, k) := f.shortest m
    sign ++ place layout d k

def printDouble (x : Binary64) : List Char := print double doubleLayout x.bits.toNat

def printSingle (x : Binary32) : List Char := print single singleLayout x.bits.toNat

end AssociationQuery.Json.Real
