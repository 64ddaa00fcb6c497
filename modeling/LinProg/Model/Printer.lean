import LinProg.Expression.Printer
import LinProg.Model

/-!
# The text of a model

A line for the name, one for the objective, and one for each constraint. -/

namespace LinProg

/-- The sign of a relation. -/
def Relation.text : Relation → String
  | atMost => "<="
  | atLeast => ">="
  | equal => "="

/-- A constraint as a text. -/
def Constraint.text (c : Constraint Float) : String :=
  c.expression.text ++ " " ++ c.relation.text ++ " " ++ plainText c.bound

/-- An objective as a text. -/
def Objective.text (o : Objective Float) : String :=
  let direction := match o.direction with
    | .maximize => "max"
    | .minimize => "min"
  direction ++ " " ++ o.expression.text

/-- A model as a text. -/
def Model.text (M : Model Float) : String :=
  let objective := match M.objective with
    | some objective => objective.text
    | none => "(no objective)"
  "model " ++ M.name ++ "\n  " ++ objective ++ "\nsubject to\n" ++
    String.join (M.constraints.map fun c => "  " ++ c.text ++ "\n")

/-- A variable for a reader who knows neither its model nor its kind. -/
def Variable.text (v : Variable) : String :=
  "Variable(" ++ toString v.index ++ ", " ++ v.name ++ ")"

end LinProg
