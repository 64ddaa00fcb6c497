import LinProg.PhaseOne
import LinProg.Solution

/-!
# The two-phase simplex method

A model is brought into standard form. When every constraint has a slack its first tableau is
basic and feasible; otherwise phase one finds such a tableau or shows that there is none. Phase two
then pivots to an optimal tableau, or to a column that shows the model unbounded. The model itself
stays as it is. -/

namespace LinProg

variable {α : Type} [Scalar α]

/-- The values of the model's own variables at the front of those of all columns. -/
def Model.project (M : Model α) (values : List α) : Except (Fault α) (List α) :=
  if M.vars.length ≤ values.length then .ok (values.take M.vars.length)
  else .error .outOfRange

/-- Run phase two from its first tableau, after the pivots and the first tableau of a phase one. -/
def Model.phaseTwo (M : Model α) (objective : Objective α) (settings : Settings α)
    (initial : Tableau α) (phaseOneTableau : Option (Tableau α)) (earlier : Nat) :
    Recorded α (Solution α) := do
  let phase := Phase.run settings initial
  Recorded.record (.phase 2 phase)
  let solution (verdict : Verdict α) : Solution α :=
    { verdict, vars := M.vars, initialTableau := initial, finalTableau := phase.last,
      phaseOneTableau, iterations := earlier + phase.iterations }
  match phase.ending with
  | .failed failure => ⟨[], .error failure⟩
  | .exhausted => Recorded.fail (.iterationLimit 2 phase.iterations)
  | .unbounded _ =>
    Recorded.record (.unbounded M.name)
    return solution .unbounded
  | .optimal =>
    let values := phase.last.assignment
    let own ← Recorded.guarded (M.project values)
    let value ← Recorded.guarded (objective.expression.evaluate own)
    Recorded.record (.solved M.name (earlier + phase.iterations) value)
    return solution (.optimal values value)

/-- Solve a model, and record what happens. -/
def Model.solve (M : Model α) (settings : Settings α) : Recorded α (Solution α) := do
  match M.objective with
  | none => Recorded.fail .missingObjective
  | some objective =>
    if M.constraints.isEmpty then Recorded.fail .noConstraints else
    Recorded.record (.started M.name M.vars.length M.constraints.length)
    let form := StandardForm.ofModel M
    if form.needsPhaseOne then
      match ← form.phaseOne settings with
      | .feasible initial restored iterations =>
        M.phaseTwo objective settings restored (some initial) iterations
      | .infeasible initial last iterations =>
        Recorded.record (.infeasible M.name)
        return { verdict := .infeasible, vars := M.vars, initialTableau := initial,
                 finalTableau := last, phaseOneTableau := some initial, iterations }
    else
      Recorded.record .phaseOneSkipped
      let initial ← Recorded.guarded (form.model.tableau settings.tolerance)
      M.phaseTwo objective settings initial none 0

end LinProg
