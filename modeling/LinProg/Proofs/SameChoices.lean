import LinProg.Proofs.PhaseRun

/-!
# Phases with the same choices

A phase reads its tableaux only to make choices and to pivot. So when a function takes each tableau
to one in which the same choices are made and the pivot leads to the image (`Phase.SameChoices`), it
takes the whole phase to the phase from the image of its first tableau (`Phase.run_map`): the same
columns and rows, the same end, and the images of the tableaux. It is enough to know this of the
tableaux that the phase goes through, each under the rule in force there (`Phase.stages`). -/

namespace LinProg

variable {α : Type}

/-- The same pivot, with the image of the tableau after it. -/
def PivotStep.map (f : Tableau α → Tableau α) (step : PivotStep α) : PivotStep α :=
  { step with tableau := f step.tableau }

namespace Phase

/-- The same pivots and the same end, with the images of the tableaux. -/
def map (f : Tableau α → Tableau α) (phase : Phase α) : Phase α :=
  ⟨f phase.start, phase.steps.map (PivotStep.map f), phase.ending⟩

/-- The last tableau is the image of the last one. -/
theorem last_map (f : Tableau α → Tableau α) (phase : Phase α) :
    (phase.map f).last = f phase.last := by
  unfold last map
  rw [List.getLast?_map]
  cases phase.steps.getLast? with
  | none => rfl
  | some step => rfl

/-- There are as many pivots. -/
theorem iterations_map (f : Tableau α → Tableau α) (phase : Phase α) :
    (phase.map f).iterations = phase.iterations :=
  List.length_map _

/-- The tableaux that the phase goes through, each with the rule in force there, when the phase
starts under the given one. -/
def stages (rule : PivotRule) (phase : Phase α) : List (PivotRule × Tableau α) :=
  (rule, phase.start) :: phase.steps.map fun step => (step.nextRule, step.tableau)

/-- The stages are those of the tableaux that the phase goes through. -/
theorem map_stages (rule : PivotRule) (phase : Phase α) :
    (phase.stages rule).map (·.2) = phase.visited := by
  unfold stages visited
  rw [List.map_cons, List.map_map]
  rfl

/-- Some rule is in force in the last tableau. -/
theorem exists_last_mem_stages (rule : PivotRule) (phase : Phase α) :
    ∃ rule', (rule', phase.last) ∈ phase.stages rule := by
  have hlast := phase.last_mem_visited
  rw [← map_stages rule] at hlast
  obtain ⟨⟨rule', T⟩, hmem, hT⟩ := List.mem_map.1 hlast
  exact ⟨rule', hT ▸ hmem⟩

variable [Scalar α]

/-- In the image of each tableau that meets a condition under a rule, the same choices are made
under the second settings as in the tableau under the first, and the pivot leads to the image. -/
structure SameChoices (settings settings' : Settings α) (f : Tableau α → Tableau α)
    (P : PivotRule → Tableau α → Prop) : Prop where
  /-- As many pivots are allowed. -/
  maxIterations : settings'.maxIterations = settings.maxIterations
  /-- The rule to start with is the same. -/
  rule : settings'.rule = settings.rule
  /-- As many degenerate pivots turn a phase to Bland's rule. -/
  degenerateLimit : settings'.degenerateLimit = settings.degenerateLimit
  /-- The same column enters. -/
  enteringColumn {rule : PivotRule} {T : Tableau α} (hT : P rule T) :
    (f T).enteringColumn rule = T.enteringColumn rule
  /-- When none does, both are optimal or neither is. -/
  isOptimal {rule : PivotRule} {T : Tableau α} (hT : P rule T)
    (h : T.enteringColumn rule = none) : (f T).isOptimal = T.isOptimal
  /-- The entering column is unbounded in both or in neither. -/
  readUnbounded {rule : PivotRule} {T : Tableau α} (hT : P rule T) {column : ℕ}
    (h : T.enteringColumn rule = some column) :
    (f T).readUnbounded column = T.readUnbounded column
  /-- The same row leaves. -/
  readLeavingRow {rule : PivotRule} {T : Tableau α} (hT : P rule T) {column : ℕ}
    (h : T.enteringColumn rule = some column) :
    (f T).readLeavingRow column rule = T.readLeavingRow column rule
  /-- The right-hand sides are the same. -/
  readRhs {rule : PivotRule} {T : Tableau α} (hT : P rule T) (row : ℕ) :
    (f T).readRhs row = T.readRhs row
  /-- The right-hand side of the leaving row is taken for zero in both or in neither. -/
  isSignificant {rule : PivotRule} {T : Tableau α} (hT : P rule T) {column row : ℕ} {level : α}
    (hcolumn : T.enteringColumn rule = some column)
    (hrow : T.readLeavingRow column rule = .ok (some row)) (h : T.readRhs row = .ok level) :
    Scalar.isSignificant settings'.tolerance level = Scalar.isSignificant settings.tolerance level
  /-- The pivot leads to the image. -/
  pivot {rule : PivotRule} {T : Tableau α} (hT : P rule T) {column row : ℕ}
    (hcolumn : T.enteringColumn rule = some column)
    (hrow : T.readLeavingRow column rule = .ok (some row)) :
    (f T).pivot row column = (T.pivot row column).map f

section SameChoices

variable {settings settings' : Settings α} {f : Tableau α → Tableau α}
  {P : PivotRule → Tableau α → Prop} (h : SameChoices settings settings' f P)

include h

/-- A step is refused for the same reason, or it is the same pivot. -/
theorem makeStep_map {rule : PivotRule} {T : Tableau α} (hT : P rule T) (streak : ℕ) {column : ℕ}
    (hcolumn : T.enteringColumn rule = some column) :
    makeStep settings' rule streak (f T) column =
      (makeStep settings rule streak T column).map (PivotStep.map f) := by
  unfold makeStep
  rw [h.readLeavingRow hT hcolumn]
  cases hrow : T.readLeavingRow column rule with
  | error fault => rfl
  | ok row? =>
    cases row? with
    | none => rfl
    | some row =>
      simp only [h.readRhs hT, h.pivot hT hcolumn hrow, bind, Except.bind, Except.mapError]
      cases hlevel : T.readRhs row with
      | error fault => rfl
      | ok level =>
        cases T.pivot row column with
        | error fault => rfl
        | ok U =>
          simp only [Except.map, pure, Except.pure,
            h.isSignificant hT hcolumn hrow hlevel, h.degenerateLimit, PivotStep.map]

/-- The pivots are the same when all tableaux on the way meet the condition. -/
theorem pivots_map (remaining : ℕ) (rule : PivotRule) (streak : ℕ) {T : Tableau α} (hT : P rule T)
    (hsteps : ∀ step ∈ (pivots settings remaining rule streak T).1,
      P step.nextRule step.tableau) :
    pivots settings' remaining rule streak (f T) =
      ((pivots settings remaining rule streak T).1.map (PivotStep.map f),
        (pivots settings remaining rule streak T).2) := by
  -- In each case the other run makes the same choice.
  fun_induction pivots settings remaining rule streak T with
  | case1 remaining rule streak T hentering =>
    unfold pivots
    simp only [h.enteringColumn hT, hentering, h.isOptimal hT hentering]
    rfl
  | case2 remaining rule streak T column hentering fault hread =>
    unfold pivots
    simp only [h.enteringColumn hT, hentering, h.readUnbounded hT hentering, hread]
    rfl
  | case3 remaining rule streak T column hentering hread =>
    unfold pivots
    simp only [h.enteringColumn hT, hentering, h.readUnbounded hT hentering, hread]
    rfl
  | case4 rule streak T column hentering hread =>
    unfold pivots
    simp only [h.enteringColumn hT, hentering, h.readUnbounded hT hentering, hread]
    rfl
  | case5 rule streak T column hentering hread remaining failure hstep =>
    unfold pivots
    simp only [h.enteringColumn hT, hentering, h.readUnbounded hT hentering, hread,
      makeStep_map h hT streak hentering, hstep, Except.map]
    rfl
  | case6 rule streak T column hentering hread remaining step hstep rest ih =>
    have hrest := ih (hsteps step List.mem_cons_self) fun later hlater =>
      hsteps later (List.mem_cons_of_mem step hlater)
    conv_lhs => unfold pivots
    simp only [h.enteringColumn hT, hentering, h.readUnbounded hT hentering, hread,
      makeStep_map h hT streak hentering, hstep, Except.map]
    have hnext : pivots settings' remaining (step.map f).nextRule (step.map f).streak
        (step.map f).tableau = _ := hrest
    rw [hnext]
    rfl

/-- A phase whose tableaux meet the condition has an image, which is the phase from the image of its
first tableau. -/
theorem run_map {T : Tableau α}
    (hstages : ∀ p ∈ (run settings T).stages settings.rule, P p.1 p.2) :
    run settings' (f T) = (run settings T).map f := by
  have hpivots := pivots_map h settings.maxIterations settings.rule 0
    (hstages (settings.rule, T) List.mem_cons_self) fun step hstep =>
      hstages _ (List.mem_cons_of_mem _ (List.mem_map.2 ⟨step, hstep, rfl⟩))
  unfold run map
  dsimp only
  rw [h.maxIterations, h.rule, hpivots]

end SameChoices

end Phase

end LinProg
