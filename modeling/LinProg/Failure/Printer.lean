import LinProg.Failure
import LinProg.Text.Number

/-!
# The texts of failures

What an error says to the reader. Of the faults, those that name what they found have a text. -/

namespace LinProg

/-- What a quantity is called. -/
def Quantity.text : Quantity → String
  | coefficient v => "coefficient of " ++ v.name
  | constantTerm => "constant term"
  | bound index => "bound of constraint " ++ toString index

/-- What a breakdown is called. -/
def Breakdown.text : Breakdown → String
  | phaseOneUnbounded => "phase one objective is bounded by zero but was reported unbounded"
  | noLeavingRow column => "no leaving row for column " ++ toString column

/-- The text of an error. -/
def Error.message : Error → String
  | missingObjective => "the model has no objective; call `maximize` or `minimize` first"
  | noConstraints => "the model has no constraints"
  | emptyConstraint index =>
    "constraint " ++ toString index ++ " does not reference any variable"
  | unknownVariable v =>
    "variable `" ++ v.name ++ "` (index " ++ toString v.index ++
      ") does not belong to this model"
  | nonFinite quantity => quantity.text ++ " must be finite"
  | iterationLimit phase iterations =>
    "phase " ++ toString phase ++ " did not converge within " ++ toString iterations ++ " pivots"
  | numerical breakdown => "numerical error: " ++ breakdown.text

/-- The text of a fault, if it has one. -/
def Fault.message? : Fault Float → Option String
  | raggedRows => some "ragged matrix rows"
  | unscalableRow row factor =>
    some ("cannot scale row " ++ toString row ++ " by " ++ plainText factor)
  | zeroPivot entry row column =>
    some ("pivot element " ++ plainText entry ++ " at (" ++ toString row ++ ", " ++
      toString column ++ ") is numerically zero")
  | variableOutside v length =>
    some ("variable " ++ v.name ++ " has index " ++ toString v.index ++ " outside of 0.." ++
      toString length)
  | widthMismatch => some "tableau width does not match the model"
  | outOfRange | lengthMismatch | nonFiniteFactor | oversizedVector _ | notOptimal => none

end LinProg
