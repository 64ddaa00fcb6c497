import LinProg.Expression
import LinProg.Scalar.Binary64
import LinProg.Text.Number

/-!
# The text of an expression

A sum of terms such as `2*x - y + 3`. Terms and constants that are zero are left out, a factor of
one is not written, and the empty sum is `0`. -/

namespace LinProg

/-- The sign between a part of a sum and what comes before it; a sum starts with a sign only when
that is negative. -/
def signText (isFirst : Bool) (value : Float) : String :=
  match isFirst, decide (value < 0) with
  | true, true => "-"
  | true, false => ""
  | false, true => " - "
  | false, false => " + "

/-- A term without its sign. -/
def Term.magnitudeText (t : Term Float) : String :=
  let magnitude := t.coefficient.abs
  if magnitude == 1 then t.var.name else plainText magnitude ++ "*" ++ t.var.name

/-- The parts of the sum that are not zero: the number that gives the sign, and the text. -/
def Expression.parts (e : Expression Float) : List (Float × String) :=
  let terms := (e.terms.filter fun t => !t.coefficient == 0).map fun t =>
    (t.coefficient, t.magnitudeText)
  if e.constant == 0 then terms else terms ++ [(e.constant, plainText e.constant.abs)]

/-- The expression as a text. -/
def Expression.text (e : Expression Float) : String :=
  match e.parts with
  | [] => "0"
  | first :: others =>
    signText true first.1 ++ first.2 ++
      String.join (others.map fun part => signText false part.1 ++ part.2)

end LinProg
