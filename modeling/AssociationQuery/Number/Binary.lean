/-!
# AssociationQuery.Number.Binary

Binary floating-point numbers as their bits, in the two widths that databases
return.  A finite number is a whole number times a power of two; rounding a
quotient of whole numbers to the nearest one, ties to even, is the one
operation from which widening and reading are built.

Equality of numbers is not equality of bits: the two zeros are equal and a NaN
equals nothing.
-/

namespace AssociationQuery

/-- A single-precision number: one sign bit, 8 exponent bits, 23 fraction bits. -/
structure Binary32 where
  bits : UInt32
  deriving DecidableEq, Repr

/-- A double-precision number: one sign bit, 11 exponent bits, 52 fraction bits. -/
structure Binary64 where
  bits : UInt64
  deriving DecidableEq, Repr

/-! ## formats -/

/-- The shape of a binary format: how many fraction bits and exponent bits. -/
structure BinaryFormat where
  fractionBits : Nat
  exponentBits : Nat

namespace BinaryFormat

def single : BinaryFormat := ⟨23, 8⟩

def double : BinaryFormat := ⟨52, 11⟩

/-- The exponent of the last place of subnormal numbers. -/
def leastExponent (f : BinaryFormat) : Int :=
  2 - Int.pow 2 (f.exponentBits - 1) - f.fractionBits

/-- The magnitude bits of infinity: a full exponent field over an empty fraction. -/
def infinity (f : BinaryFormat) : Nat := (Nat.pow 2 f.exponentBits - 1) * Nat.pow 2 f.fractionBits

/-- The bit that tells a quiet NaN. -/
def quietBit (f : BinaryFormat) : Nat := Nat.pow 2 (f.fractionBits - 1)

/-- The sign bit. -/
def signBit (f : BinaryFormat) : Nat := Nat.pow 2 (f.fractionBits + f.exponentBits)

/-- The bits without the sign. -/
def magnitude (f : BinaryFormat) (bits : Nat) : Nat := bits % f.signBit

def isNegative (f : BinaryFormat) (bits : Nat) : Bool := f.signBit ≤ bits

def isNaN (f : BinaryFormat) (bits : Nat) : Bool := f.infinity < f.magnitude bits

/-- A finite magnitude as `m · 2 ^ e`. -/
def decode (f : BinaryFormat) (bits : Nat) : Nat × Int :=
  let fraction := f.magnitude bits % Nat.pow 2 f.fractionBits
  let field := f.magnitude bits / Nat.pow 2 f.fractionBits
  if field = 0 then (fraction, f.leastExponent)
  else (Nat.pow 2 f.fractionBits + fraction, f.leastExponent + field - 1)

/-- The quotient rounded to the nearest whole number, ties to the even one. -/
def divideNearest (num den : Nat) : Nat :=
  let q := num / den
  let r := num % den
  if 2 * r < den then q
  else if 2 * r > den then q + 1
  else if q % 2 = 0 then q else q + 1

/-- The exponent of the leading binary digit of `num / den`. -/
def leadingExponent (num den : Nat) : Int :=
  let a : Int := (num.log2 : Int) - den.log2
  if den * Nat.pow 2 a.toNat ≤ num * Nat.pow 2 (-a).toNat then a else a - 1

/-- The magnitude bits of the format's number nearest to `num / den`, ties to
even; infinity when that exceeds every finite number. -/
def round (f : BinaryFormat) (num den : Nat) : Nat :=
  if num = 0 then 0
  else
    let e := max (leadingExponent num den - f.fractionBits) f.leastExponent
    let m := divideNearest (num * Nat.pow 2 (-e).toNat) (den * Nat.pow 2 e.toNat)
    min ((e - f.leastExponent).toNat * Nat.pow 2 f.fractionBits + m) f.infinity

end BinaryFormat

/-! ## double precision -/

namespace Binary64

open BinaryFormat (double)

def infinity : Binary64 := ⟨double.infinity.toUInt64⟩

/-- The quiet NaN with an empty payload. -/
def nan : Binary64 := ⟨(double.infinity + double.quietBit).toUInt64⟩

def isNaN (x : Binary64) : Bool := double.isNaN x.bits.toNat

/-- Is the magnitude zero? -/
def isZero (x : Binary64) : Bool := double.magnitude x.bits.toNat == 0

/-- Equality of numbers: zeros are equal whatever their sign, a NaN equals nothing. -/
def equal (x y : Binary64) : Bool :=
  !x.isNaN && !y.isNaN && (x.bits == y.bits || (x.isZero && y.isZero))

/-- The number with the opposite sign. -/
def negate (x : Binary64) : Binary64 := ⟨x.bits ^^^ double.signBit.toUInt64⟩

/-- The number nearest to `num / den`. -/
def ofQuotient (num den : Nat) : Binary64 := ⟨(double.round num den).toUInt64⟩

/-- The number nearest to a whole number. -/
def ofInt (n : Int) : Binary64 :=
  if n < 0 then (ofQuotient n.natAbs 1).negate else ofQuotient n.natAbs 1

end Binary64

/-! ## single precision -/

namespace Binary32

open BinaryFormat (single double)

def isNaN (x : Binary32) : Bool := single.isNaN x.bits.toNat

def isZero (x : Binary32) : Bool := single.magnitude x.bits.toNat == 0

/-- Equality of numbers: zeros are equal whatever their sign, a NaN equals nothing. -/
def equal (x y : Binary32) : Bool :=
  !x.isNaN && !y.isNaN && (x.bits == y.bits || (x.isZero && y.isZero))

/-- The magnitude of the double-precision number of the same value.  A NaN keeps
its payload and becomes quiet. -/
def widenMagnitude (bits : Nat) : Nat :=
  let m := single.magnitude bits
  let shift := Nat.pow 2 (double.fractionBits - single.fractionBits)
  if m = single.infinity then double.infinity
  else if single.infinity < m then
    double.infinity + ((m - single.infinity) * shift ||| double.quietBit)
  else
    let (digits, e) := single.decode bits
    double.round (digits * Nat.pow 2 e.toNat) (Nat.pow 2 (-e).toNat)

/-- The double-precision number of the same value. -/
def widen (x : Binary32) : Binary64 :=
  let wide : Binary64 := ⟨(widenMagnitude x.bits.toNat).toUInt64⟩
  if single.isNegative x.bits.toNat then wide.negate else wide

end Binary32

end AssociationQuery
