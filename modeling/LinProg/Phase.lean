import LinProg.Tableau.PivotChoice

/-!
# Phases

A phase pivots a tableau until no column improves the objective, an improving column is
unbounded, or the pivots allowed are used up. It is kept whole: where it started, each pivot with
the choices behind it and the tableau after it, and how it ended.

A pivot is degenerate when the right-hand side of the leaving row was zero within the tolerance,
so that the objective stays where it is. When a phase under Dantzig's rule makes as many
degenerate pivots in a row as the settings allow, it follows Bland's rule for the rest. -/

namespace LinProg

/-- One pivot of a phase. -/
structure PivotStep (α : Type) where
  /-- The rule that chose the column and the row. -/
  rule : PivotRule
  /-- The column that entered the basis. -/
  column : Nat
  /-- The row that left the basis. -/
  row : Nat
  /-- How many degenerate pivots in a row end with this one; none when it is not degenerate. -/
  streak : Nat
  /-- Whether the phase turns to Bland's rule after this pivot. -/
  switches : Bool
  /-- The tableau after the pivot. -/
  tableau : Tableau α

/-- The rule of the pivot after this one. -/
def PivotStep.nextRule {α : Type} (step : PivotStep α) : PivotRule :=
  if step.switches then .bland else step.rule

/-- How a phase ends. -/
inductive PhaseEnd (α : Type) where
  /-- No column improves the objective. -/
  | optimal
  /-- The column improves the objective, and no row limits it. -/
  | unbounded (column : Nat)
  /-- A pivot would be needed, and all that are allowed have been made. -/
  | exhausted
  /-- The phase cannot go on. -/
  | failed (failure : Failure α)

/-- A phase from its first tableau to its end. -/
structure Phase (α : Type) where
  /-- The tableau that the phase starts from. -/
  start : Tableau α
  /-- The pivots, in order. -/
  steps : List (PivotStep α)
  /-- How the phase ends. -/
  ending : PhaseEnd α

namespace Phase

variable {α : Type}

/-- The tableaux that the phase goes through, the first one included. -/
def visited (phase : Phase α) : List (Tableau α) :=
  phase.start :: phase.steps.map (·.tableau)

/-- The tableau at the end. -/
def last (phase : Phase α) : Tableau α :=
  (phase.steps.getLast?.map (·.tableau)).getD phase.start

/-- The number of pivots. -/
def iterations (phase : Phase α) : Nat :=
  phase.steps.length

/-- The end of a phase is one of the tableaux that it goes through. -/
theorem last_mem_visited (phase : Phase α) : phase.last ∈ phase.visited := by
  unfold last visited
  cases h : phase.steps.getLast? with
  | none => simp
  | some step => simpa using Or.inr ⟨step, List.mem_of_getLast? h, rfl⟩

variable [Scalar α]

/-- Bring a column into the basis under a rule, after `streak` degenerate pivots in a row. -/
def makeStep (settings : Settings α) (rule : PivotRule) (streak : Nat) (T : Tableau α)
    (column : Nat) : Except (Failure α) (PivotStep α) := do
  match ← (T.readLeavingRow column rule).mapError .fault with
  | none => throw (.error (.numerical (.noLeavingRow column)))
  | some row =>
    let level ← (T.readRhs row).mapError .fault
    let tableau ← (T.pivot row column).mapError .fault
    let streak := if Scalar.isSignificant settings.tolerance level then 0 else streak + 1
    -- A streak just broken never switches, even when the settings allow none.
    let switches := rule = .dantzig ∧ 0 < streak ∧ settings.degenerateLimit ≤ streak
    return { rule, column, row, streak, switches, tableau }

/-- The pivots from a tableau on, at most `remaining` many, and how they end. -/
def pivots (settings : Settings α) (remaining : Nat) (rule : PivotRule) (streak : Nat)
    (T : Tableau α) : List (PivotStep α) × PhaseEnd α :=
  match T.enteringColumn rule with
  | none => ([], if T.isOptimal then .optimal else .failed (.fault .notOptimal))
  | some column =>
    -- Before the allowance is looked at: a phase that finds no limit on its last pivot is done.
    match T.readUnbounded column with
    | .error fault => ([], .failed (.fault fault))
    | .ok true => ([], .unbounded column)
    | .ok false =>
      match remaining with
      | 0 => ([], .exhausted)
      | remaining + 1 =>
        match makeStep settings rule streak T column with
        | .error failure => ([], .failed failure)
        | .ok step =>
          let rest := pivots settings remaining step.nextRule step.streak step.tableau
          (step :: rest.1, rest.2)

/-- The phase that starts from a tableau. -/
def run (settings : Settings α) (T : Tableau α) : Phase α :=
  let made := pivots settings settings.maxIterations settings.rule 0 T
  ⟨T, made.1, made.2⟩

@[simp] theorem start_run (settings : Settings α) (T : Tableau α) :
    (run settings T).start = T := rfl

/-- The allowance bounds the number of pivots. -/
theorem length_pivots_le (settings : Settings α) (remaining : Nat) (rule : PivotRule)
    (streak : Nat) (T : Tableau α) :
    (pivots settings remaining rule streak T).1.length ≤ remaining := by
  -- Only a pivot that is made adds a step, and it uses up one of those allowed.
  fun_induction pivots settings remaining rule streak T with
  | case1 | case2 | case3 | case4 | case5 => exact Nat.zero_le _
  | case6 _ _ _ _ _ _ _ _ _ _ ih => exact Nat.succ_le_succ ih

/-- A phase makes no more pivots than the settings allow. -/
theorem iterations_run_le (settings : Settings α) (T : Tableau α) :
    (run settings T).iterations ≤ settings.maxIterations :=
  length_pivots_le settings settings.maxIterations settings.rule 0 T

end Phase

end LinProg
