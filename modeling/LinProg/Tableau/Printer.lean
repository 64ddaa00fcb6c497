import LinProg.Tableau
import LinProg.Text.Number

/-!
# The text of a tableau

A line with the names of the columns and one for each row, in columns of ten characters. Longer
names and numbers are not cut. Numbers have three decimal places, rounded to the nearest, a tie
going to the even neighbour. -/

namespace LinProg

/-- The natural number nearest to `numerator / denominator`; of two equally near, the even one. -/
def Decimal.roundToEven (numerator denominator : Nat) : Nat :=
  let quotient := numerator / denominator
  match compare (2 * (numerator % denominator)) denominator with
  | .lt => quotient
  | .eq => quotient + quotient % 2
  | .gt => quotient + 1

/-- A finite number without its sign in thousandths, rounded. -/
def Binary64.thousandths (significand : Nat) (exponent : Int) : Nat :=
  Decimal.roundToEven (significand * Nat.pow 2 exponent.toNat * 1000)
    (Nat.pow 2 (-exponent).toNat)

/-- A number with three decimal places; a negative number keeps its sign when it rounds to zero. -/
def threePlacesText (x : Float) : String :=
  match Binary64.ofFloat x with
  | .nan => "NaN"
  | .infinity negative => NumberStyle.signed negative "inf"
  | .finite negative significand exponent =>
    let thousandths := Binary64.thousandths significand exponent
    let places := toString (thousandths % 1000)
    NumberStyle.signed negative
      (toString (thousandths / 1000) ++ "." ++ NumberStyle.zeros (3 - places.length) ++ places)

/-- A text with spaces in front, at least `width` characters long. -/
def alignRight (width : Nat) (text : String) : String :=
  String.ofList (List.replicate (width - text.length) ' ') ++ text

/-- A line of columns. -/
def columnsLine (columns : List String) : String :=
  String.join (columns.map (alignRight 10)) ++ "\n"

/-- A tableau as a text. -/
def Tableau.text (T : Tableau Float) : String :=
  columnsLine (T.model.vars.map (·.name) ++ ["rhs"]) ++
    String.join (T.matrix.rows.map fun row => columnsLine (row.map threePlacesText))

end LinProg
