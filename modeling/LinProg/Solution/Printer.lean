import LinProg.Scalar.Binary64
import LinProg.Solution
import LinProg.Text.Number

/-!
# The text of a solution

The verdict, and for an optimal solution the objective value and the value of each variable. -/

namespace LinProg

/-- The word for a verdict. -/
def Verdict.word {α : Type} : Verdict α → String
  | optimal .. => "optimal"
  | infeasible => "infeasible"
  | unbounded => "unbounded"

/-- A solution as a text. -/
def Solution.text (s : Solution Float) : String :=
  let details := match s.verdict with
    | .optimal values objectiveValue =>
      "objective value: " ++ plainText objectiveValue ++ "\n" ++
        String.join (List.zipWith
          (fun v value => "  " ++ v.name ++ " = " ++ plainText value ++ "\n") s.vars values)
    | _ => ""
  "status: " ++ s.verdict.word ++ "\n" ++ details

end LinProg
