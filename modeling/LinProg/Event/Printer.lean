import LinProg.Event
import LinProg.Scalar.Binary64
import LinProg.Tableau.Printer

/-!
# The messages of events

What a solve reports while it runs, as messages of four levels. -/

namespace LinProg

/-- How much a message matters. -/
inductive Level where
  /-- Something that the caller may want to change. -/
  | warn
  /-- The course of a solve. -/
  | info
  /-- Single pivots and decisions. -/
  | debug
  /-- Whole tableaux. -/
  | trace
deriving DecidableEq

namespace Level

/-- The place of a level, from the most important on. -/
def rank : Level → Nat
  | warn => 0
  | info => 1
  | debug => 2
  | trace => 3

/-- The name of a level. -/
def name : Level → String
  | warn => "warn"
  | info => "info"
  | debug => "debug"
  | trace => "trace"

end Level

/-- A message with its level. -/
structure Message where
  /-- How much it matters. -/
  level : Level
  /-- What it says. -/
  text : String

/-- How messages name a phase. -/
def phaseText (number : Nat) : String :=
  "phase " ++ toString number

/-- The messages of a pivot, the `iteration`-th of its phase. -/
def PivotStep.messages (step : PivotStep Float) (number iteration : Nat) : List Message :=
  [⟨.debug, phaseText number ++ " pivot " ++ toString iteration ++ ": column " ++
      toString step.column ++ " enters at row " ++ toString step.row ++ ", objective " ++
      plainText step.tableau.objectiveValue⟩,
    ⟨.trace, "\n" ++ step.tableau.text⟩] ++
  if step.switches then
    [⟨.warn, phaseText number ++ ": " ++ toString step.streak ++
      " degenerate pivots in a row, switching to Bland's rule"⟩]
  else []

/-- The messages of a phase. -/
def Phase.messages (phase : Phase Float) (number : Nat) : List Message :=
  let steps := (phase.steps.zipIdx 1).map fun (step, iteration) => step.messages number iteration
  let ending := match phase.ending with
    | .unbounded column =>
      [⟨.debug, phaseText number ++ ": column " ++ toString column ++ " is unbounded"⟩]
    | _ => []
  ⟨.trace, phaseText number ++ " initial tableau\n" ++ phase.start.text⟩ :: steps.flatten ++ ending

/-- The messages of an event. -/
def Event.messages : Event Float → List Message
  | started name varCount constraintCount =>
    [⟨.info, "solving `" ++ name ++ "`: " ++ toString varCount ++ " variables, " ++
      toString constraintCount ++ " constraints"⟩]
  | phaseOneSkipped => [⟨.debug, "every constraint has a slack, skipping phase one"⟩]
  | phaseOneStarted artificials =>
    [⟨.info, "phase one with " ++ toString artificials ++ " artificial variables"⟩]
  | phase number run => run.messages number
  | artificialTotal total =>
    [⟨.debug, "artificial variables keep a total of " ++ plainText total ++ " after phase one"⟩]
  | drivenOut column row replacement =>
    [⟨.debug, "driving artificial column " ++ toString column ++ " out of row " ++
      toString row ++ " via column " ++ toString replacement⟩]
  | redundantRow row => [⟨.debug, "row " ++ toString row ++ " is redundant"⟩]
  | infeasible name => [⟨.info, "`" ++ name ++ "` is infeasible"⟩]
  | unbounded name => [⟨.info, "`" ++ name ++ "` is unbounded"⟩]
  | solved name iterations objectiveValue =>
    [⟨.info, "`" ++ name ++ "` solved after " ++ toString iterations ++
      " pivots, objective Some(" ++ markedText objectiveValue ++ ")"⟩]

/-- The messages of a solve, up to a level. -/
def messagesUpTo (level : Level) (events : List (Event Float)) : List Message :=
  (events.flatMap Event.messages).filter fun message => message.level.rank ≤ level.rank

end LinProg
