import AssociationQuery.Number.Binary

/-!
# AssociationQuery.Number.Shortest

The fewest decimal digits that read back as a given binary number, and among
those the ones nearest to it.

A finite number `m · 2 ^ e` stands for every real number that rounds to it, an
interval whose ends belong to it when `m` is even.  On the grid of multiples of
a power of ten only the two neighbours of the number can be its nearest points,
so the coarsest grid with a neighbour in the interval gives the answer.
-/

namespace AssociationQuery.BinaryFormat

/-- The real numbers that round to one binary number, as quotients over `den`:
the lower end, the number, the upper end, and whether the ends belong. -/
structure Interval where
  low : Nat
  value : Nat
  high : Nat
  den : Nat
  closed : Bool

/-- The interval of a finite magnitude.  Below a power of two the neighbours are
twice as dense. -/
def interval (f : BinaryFormat) (bits : Nat) : Interval :=
  let (m, e) := f.decode bits
  let unit := Nat.pow 2 e.toNat
  let atPower := m = Nat.pow 2 f.fractionBits ∧ f.leastExponent < e
  { low := (if atPower then 4 * m - 1 else 4 * m - 2) * unit
    value := 4 * m * unit
    high := (4 * m + 2) * unit
    den := 4 * Nat.pow 2 (-e).toNat
    closed := m % 2 = 0 }

/-- Does `num / den` lie in the interval? -/
def Interval.contains (i : Interval) (num den : Nat) : Bool :=
  if i.closed then i.low * den ≤ num * i.den && num * i.den ≤ i.high * den
  else i.low * den < num * i.den && num * i.den < i.high * den

/-- The multiple of `10 ^ k` in the interval that is nearest to the number, ties
to the even digit, as its count of `10 ^ k`. -/
def Interval.onGrid? (i : Interval) (k : Int) : Option Nat :=
  let up := Nat.pow 10 k.toNat
  let down := Nat.pow 10 (-k).toNat
  let below := i.value * down / (i.den * up)
  let rest := i.value * down % (i.den * up)
  let nearest := divideNearest (i.value * down) (i.den * up)
  let farther := if nearest = below then below + 1 else below
  if i.contains (nearest * up) down then some nearest
  else if rest ≠ 0 ∧ i.contains (farther * up) down then some farther
  else none

/-- Drop final zeros, each moving into the exponent. -/
def trimZeros : Nat → Nat → Int → Nat × Int
  | 0, d, k => (d, k)
  | fuel + 1, d, k => if d ≠ 0 ∧ d % 10 = 0 then trimZeros fuel (d / 10) (k + 1) else (d, k)

/-- The power of ten of the leading decimal digit. -/
def Interval.magnitude (i : Interval) : Int :=
  let digits (n : Nat) : Int := (Nat.toDigits 10 n).length
  let k := digits i.value - digits i.den
  if i.den * Nat.pow 10 k.toNat ≤ i.value * Nat.pow 10 (-k).toNat then k else k - 1

/-- The shortest decimal `d · 10 ^ k` that rounds to a finite magnitude that is
not zero; nearest of those.  Seventeen digits are always enough. -/
def shortest (f : BinaryFormat) (bits : Nat) : Nat × Int :=
  let i := f.interval bits
  let found := (List.range 17).findSome? fun (n : Nat) =>
    let k := i.magnitude - n
    (i.onGrid? k).map fun d => trimZeros 18 d k
  found.getD (0, 0)

end AssociationQuery.BinaryFormat
