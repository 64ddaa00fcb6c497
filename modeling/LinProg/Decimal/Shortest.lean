/-!
# The shortest decimal of a binary number

A binary floating point number stands for all reals that round to it: an interval around its
value, from halfway to the neighbour below to halfway to the neighbour above, with its ends when
the significand is even. The shortest decimal is the one with the fewest digits in the interval,
and of those the one nearest to the value; of two equally near, the larger.

The search goes from coarse decimal grids to fine ones. On each grid only the two points next to
the value can be the nearest ones in the interval, so only these are tried, in exact arithmetic. -/

namespace LinProg

/-- A decimal number, `digits * 10 ^ exponent`. -/
structure Decimal where
  /-- The digits, read as a natural number. -/
  digits : Nat
  /-- The power of ten of the last digit. -/
  exponent : Int
deriving DecidableEq

/-- The reals that round to a binary number, as fractions over one denominator. -/
structure RoundingInterval where
  /-- The lower end. -/
  low : Nat
  /-- The number itself. -/
  value : Nat
  /-- The upper end. -/
  high : Nat
  /-- The denominator of the three. -/
  denominator : Nat
  /-- Whether the ends belong to the interval. -/
  closed : Bool

namespace RoundingInterval

/-- The interval of `significand * 2 ^ exponent`. A number whose neighbour below is nearer than
the one above, a power of two, has a `narrow` interval: its lower end is half as far away. -/
def ofBinary (significand : Nat) (exponent : Int) (narrow : Bool) : RoundingInterval :=
  let unit := Nat.pow 2 exponent.toNat
  { low := (4 * significand - if narrow then 1 else 2) * unit
    value := 4 * significand * unit
    high := (4 * significand + 2) * unit
    denominator := 4 * Nat.pow 2 (-exponent).toNat
    closed := significand % 2 = 0 }

/-- The interval in units of `10 ^ exponent`. -/
def inUnits (I : RoundingInterval) (exponent : Int) : RoundingInterval :=
  let factor := Nat.pow 10 (-exponent).toNat
  { I with
    low := I.low * factor
    value := I.value * factor
    high := I.high * factor
    denominator := I.denominator * Nat.pow 10 exponent.toNat }

/-- Whether a natural number of units lies in the interval. -/
def contains (I : RoundingInterval) (k : Nat) : Bool :=
  let point := k * I.denominator
  if I.closed then I.low ≤ point && point ≤ I.high else I.low < point && point < I.high

/-- The natural number in the interval that is nearest to the value, if one of the two next to the
value is in the interval. Of two equally near the larger counts. -/
def nearest? (I : RoundingInterval) : Option Nat :=
  let k := I.value / I.denominator
  match I.contains k, I.contains (k + 1) with
  | true, true => if 2 * I.value < (2 * k + 1) * I.denominator then some k else some (k + 1)
  | true, false => some k
  | false, true => some (k + 1)
  | false, false => none

/-- The least power of ten above the value: the estimate from the binary logarithms is at most
three too small. -/
def magnitude (I : RoundingInterval) : Int :=
  let bits : Int := (I.value.log2 : Int) - I.denominator.log2
  let estimate := (bits - 1) * 30103 / 100000 - 1
  let above (i : Nat) : Bool :=
    let scaled := I.inUnits (estimate + i)
    scaled.value < scaled.denominator
  estimate + (((List.range 4).find? above).getD 4)

end RoundingInterval

namespace Decimal

/-- Drop zeros from the end of the digits, at most `most` many. -/
def dropZeros : (most : Nat) → Decimal → Decimal
  | 0, d => d
  | most + 1, d =>
    if d.digits % 10 = 0 then dropZeros most ⟨d.digits / 10, d.exponent + 1⟩ else d

/-- The shortest decimal of `significand * 2 ^ exponent`, which must not be zero. Seventeen digits
always suffice; should they not, the exact value is given. -/
def shortest (significand : Nat) (exponent : Int) (narrow : Bool) : Decimal :=
  let interval := RoundingInterval.ofBinary significand exponent narrow
  let magnitude := interval.magnitude
  -- The grid of one digit comes first, then those of two digits and more.
  let found := (List.range 17).findSome? fun (i : Nat) =>
    let unit := magnitude - 1 - i
    (interval.inUnits unit).nearest?.map fun digits => (⟨digits, unit⟩ : Decimal)
  match found with
  | some d => d.dropZeros 18
  | none => ⟨significand * Nat.pow 2 exponent.toNat * Nat.pow 5 (-exponent).toNat, min exponent 0⟩

end Decimal

end LinProg
