import LinProg.Decimal.Binary64

/-!
# Numbers in texts

Two ways to write a binary64 number: plain, in the texts of models and solutions, and marked, which
shows that it is no integer type and keeps very large and very small numbers short. -/

namespace LinProg

/-- How the shortest decimal of a number is laid out. -/
structure NumberStyle where
  /-- The powers of ten of a leading digit that are written without an exponent: from the first
  up to, and without, the second. No range stands for all of them. -/
  positional : Option (Int × Int)
  /-- Whether an integral number written without an exponent ends in `.0`. -/
  pointZero : Bool

namespace NumberStyle

/-- All digits, no exponent, no point in integral numbers. -/
def plain : NumberStyle :=
  ⟨none, false⟩

/-- An exponent from `10 ^ 16` on and below `10 ^ (-4)`, and otherwise always a point. -/
def marked : NumberStyle :=
  ⟨some (-4, 16), true⟩

/-- So many zeros. -/
def zeros (n : Nat) : String :=
  String.ofList (List.replicate n '0')

/-- A decimal without an exponent. -/
def writePositional (style : NumberStyle) (d : Decimal) : String :=
  let digits := (toString d.digits).toList
  if 0 ≤ d.exponent then
    String.ofList digits ++ zeros d.exponent.toNat ++ if style.pointZero then ".0" else ""
  else
    -- The point falls within the digits or, after zeros, in front of them.
    let places := (-d.exponent).toNat
    if places < digits.length then
      let whole := digits.length - places
      String.ofList (digits.take whole) ++ "." ++ String.ofList (digits.drop whole)
    else "0." ++ zeros (places - digits.length) ++ String.ofList digits

/-- A decimal with an exponent: one digit, the others after a point, and the power of ten. -/
def writeScientific (d : Decimal) (leading : Int) : String :=
  match (toString d.digits).toList with
  | [] => ""
  | first :: others =>
    let point := if others.isEmpty then "" else "." ++ String.ofList others
    String.ofList [first] ++ point ++ "e" ++ toString leading

/-- A decimal that is not zero. -/
def writeDecimal (style : NumberStyle) (d : Decimal) : String :=
  let leading := d.exponent + (toString d.digits).length - 1
  match style.positional with
  | some (least, limit) =>
    if least ≤ leading && leading < limit then style.writePositional d
    else writeScientific d leading
  | none => style.writePositional d

/-- The sign of a number in front of its magnitude. -/
def signed (negative : Bool) (magnitude : String) : String :=
  if negative then "-" ++ magnitude else magnitude

/-- A number in the style. -/
def write (style : NumberStyle) (x : Float) : String :=
  match Binary64.ofFloat x with
  | .nan => "NaN"
  | .infinity negative => signed negative "inf"
  | .finite negative 0 _ => signed negative (style.writePositional ⟨0, 0⟩)
  | .finite negative significand exponent =>
    signed negative (style.writeDecimal (Binary64.shortest significand exponent))

end NumberStyle

/-- A number in plain style: the fewest digits that read back as the number. -/
def plainText (x : Float) : String :=
  NumberStyle.plain.write x

/-- A number in marked style. -/
def markedText (x : Float) : String :=
  NumberStyle.marked.write x

end LinProg
