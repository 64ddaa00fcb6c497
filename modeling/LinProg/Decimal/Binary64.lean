import LinProg.Decimal.Shortest

/-!
# The parts of a binary64 number

Sign, significand and exponent of a double precision number, and its shortest decimal. -/

namespace LinProg

/-- A binary64 number by kind. -/
inductive Binary64 where
  /-- Not a number. -/
  | nan
  /-- An infinity with its sign. -/
  | infinity (negative : Bool)
  /-- The finite number `significand * 2 ^ exponent` with its sign. -/
  | finite (negative : Bool) (significand : Nat) (exponent : Int)

namespace Binary64

/-- Take a number apart by its bits: a sign bit, eleven bits of exponent and 52 bits of fraction. -/
def ofFloat (x : Float) : Binary64 :=
  let bits : Nat := x.toBits.toNat
  let negative := bits / Nat.pow 2 63 = 1
  let field : Nat := bits / Nat.pow 2 52 % Nat.pow 2 11
  let fraction : Nat := bits % Nat.pow 2 52
  if field = 2047 then
    if fraction = 0 then infinity negative else nan
  else if field = 0 then finite negative fraction (-1074)
  else finite negative (Nat.pow 2 52 + fraction) ((field : Int) - 1075)

/-- The shortest decimal of a finite number without its sign. Powers of two have a nearer neighbour
below, except where that is as fine as the numbers get. -/
def shortest (significand : Nat) (exponent : Int) : Decimal :=
  Decimal.shortest significand exponent (significand = Nat.pow 2 52 ∧ -1074 < exponent)

end Binary64

end LinProg
