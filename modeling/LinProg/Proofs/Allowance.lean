import LinProg.Proofs.Course
import LinProg.Proofs.PhaseRun
import LinProg.Proofs.PhaseTwo
import LinProg.Proofs.Shapes

/-!
# The pivots allowed

The settings bound the pivots of a phase. All that the bound does is to cut a phase short. With
more pivots allowed a phase makes the same ones first, and it is the same phase unless it was cut
short (`Phase.pivots_of_le`). One that was cut short has made all pivots allowed, and the column
that would enter next is not unbounded (`Phase.Runs.exists_next_of_exhausted`), so a phase that is
done with its last pivot is not given up.

A solve is given up for its allowance exactly when one of its phases is cut short
(`Model.HasPhase.result_of_exhausted`, `Model.exists_phase_of_isLimit`). When none is, the solve is
the same with more pivots allowed, event by event (`Model.solve_eq_of_le`). -/

namespace LinProg

variable {α : Type}

/-- The settings with another number of pivots that a phase may make. -/
def Settings.allowing (settings : Settings α) (maxIterations : ℕ) : Settings α :=
  { settings with maxIterations }

/-- The error is that a phase has used up its pivots. -/
def Error.isLimit : Error → Bool
  | .iterationLimit .. => true
  | _ => false

/-- The failure is such an error. -/
def Failure.isLimit : Failure α → Bool
  | Failure.error e => e.isLimit
  | Failure.fault _ => false

/-- Two computations in a row are the same when the second ones are, on the result of the first. -/
theorem Recorded.bind_eq_of_ok {β γ : Type} {first : Recorded α β} {next next' : β → Recorded α γ}
    (h : ∀ b, first.result = .ok b → next' b = next b) : first >>= next' = first >>= next := by
  cases hfirst : first.result with
  | error failure => simp only [bind, andThen, hfirst]
  | ok b => simp only [bind, andThen, hfirst, h b hfirst]

variable [Scalar α]

/-! ## A phase -/

namespace Phase

/-- The rule that is in force after some steps, when it was `rule` before them. -/
def ruleAfter (rule : PivotRule) (steps : List (PivotStep α)) : PivotRule :=
  (steps.getLast?.map (·.nextRule)).getD rule

omit [Scalar α] in
/-- After a step its next rule is in force. -/
theorem ruleAfter_cons (rule : PivotRule) (step : PivotStep α) (rest : List (PivotStep α)) :
    ruleAfter rule (step :: rest) = ruleAfter step.nextRule rest := by
  unfold ruleAfter
  rw [List.getLast?_cons]
  cases rest.getLast? <;> rfl

/-- A column that could enter is left when a run is cut short, and it is not unbounded. -/
theorem Runs.exists_next_of_exhausted {settings : Settings α} {remaining streak : ℕ}
    {rule : PivotRule} {T : Tableau α} {steps : List (PivotStep α)}
    (h : Runs settings remaining rule streak T steps .exhausted) :
    ∃ column, (lastFrom T steps).enteringColumn (ruleAfter rule steps) = some column ∧
      (lastFrom T steps).isUnbounded column = false := by
  generalize hending : PhaseEnd.exhausted = ending at h
  induction h with
  | exhausted hentering hlimited => exact ⟨_, hentering, hlimited⟩
  | optimal | unbounded | failed => exact absurd hending nofun
  | step _ _ _ _ _ ih =>
    rw [lastFrom_cons, ruleAfter_cons]
    exact ih hending

/-- A step that is made does not depend on the allowance. -/
theorem makeStep_allowing (settings : Settings α) (m : ℕ) (rule : PivotRule) (streak : ℕ)
    (T : Tableau α) (column : ℕ) :
    makeStep (settings.allowing m) rule streak T column = makeStep settings rule streak T column :=
  rfl

/-- With more pivots allowed the same ones come first, and there are no others unless the pivots
allowed were used up. -/
theorem pivots_of_le (settings : Settings α) (m : ℕ) {remaining remaining' : ℕ}
    (h : remaining ≤ remaining') (rule : PivotRule) (streak : ℕ) (T : Tableau α) :
    (pivots settings remaining rule streak T).1 <+:
        (pivots (settings.allowing m) remaining' rule streak T).1 ∧
      ((pivots settings remaining rule streak T).2 ≠ .exhausted →
        pivots (settings.allowing m) remaining' rule streak T =
          pivots settings remaining rule streak T) := by
  -- Both runs make the same choice in each case, and only a pivot uses up the allowance.
  fun_induction pivots settings remaining rule streak T generalizing remaining' with
  | case1 remaining rule streak T hentering =>
    unfold pivots
    simp only [hentering]
    exact ⟨List.nil_prefix, fun _ => trivial⟩
  | case2 remaining rule streak T column hentering fault hread =>
    unfold pivots
    simp only [hentering, hread]
    exact ⟨List.nil_prefix, fun _ => trivial⟩
  | case3 remaining rule streak T column hentering hread =>
    unfold pivots
    simp only [hentering, hread]
    exact ⟨List.nil_prefix, fun _ => trivial⟩
  | case4 => exact ⟨List.nil_prefix, fun hne => absurd rfl hne⟩
  | case5 rule streak T column hentering hread remaining failure hstep =>
    obtain ⟨remaining', rfl⟩ := Nat.exists_eq_add_one_of_ne_zero (show remaining' ≠ 0 by omega)
    unfold pivots
    simp only [hentering, hread, makeStep_allowing, hstep]
    exact ⟨List.nil_prefix, fun _ => trivial⟩
  | case6 rule streak T column hentering hread remaining step hstep rest =>
    rename_i ih
    obtain ⟨remaining', rfl⟩ := Nat.exists_eq_add_one_of_ne_zero (show remaining' ≠ 0 by omega)
    obtain ⟨hfront, heq⟩ := ih (Nat.le_of_succ_le_succ h)
    have hunfold : pivots (settings.allowing m) (remaining' + 1) rule streak T =
        (step :: (pivots (settings.allowing m) remaining' step.nextRule step.streak
          step.tableau).1, (pivots (settings.allowing m) remaining' step.nextRule step.streak
          step.tableau).2) := by
      conv_lhs => unfold pivots
      simp only [hentering, hread, makeStep_allowing, hstep]
    rw [hunfold]
    exact ⟨(List.prefix_cons_inj step).2 hfront, fun hne => by rw [heq hne]⟩

/-- With more pivots allowed a phase makes the same ones first, and it is the same phase unless it
was cut short. -/
theorem run_allowing_of_le (settings : Settings α) {m₁ m₂ : ℕ} (h : m₁ ≤ m₂) (T : Tableau α) :
    (run (settings.allowing m₁) T).steps <+: (run (settings.allowing m₂) T).steps ∧
      ((run (settings.allowing m₁) T).ending ≠ .exhausted →
        run (settings.allowing m₂) T = run (settings.allowing m₁) T) := by
  obtain ⟨hfront, heq⟩ := pivots_of_le (settings.allowing m₁) m₂ h settings.rule 0 T
  refine ⟨hfront, fun hending => ?_⟩
  have hpivots : pivots (settings.allowing m₂) m₂ settings.rule 0 T = _ := heq hending
  unfold run
  exact congrArg (fun made => (⟨T, made.1, made.2⟩ : Phase α)) hpivots

/-- A phase that is cut short has made all pivots allowed, and the column to enter next is not
unbounded. -/
theorem exists_next_of_exhausted {settings : Settings α} {T : Tableau α}
    (h : (run settings T).ending = .exhausted) :
    (run settings T).iterations = settings.maxIterations ∧
      ∃ column, (run settings T).last.enteringColumn
          (ruleAfter settings.rule (run settings T).steps) = some column ∧
        (run settings T).last.isUnbounded column = false := by
  have hstop : (pivots settings settings.maxIterations settings.rule 0 T).2 = .exhausted := h
  have hruns := runs_pivots settings settings.maxIterations settings.rule 0 T
  rw [hstop] at hruns
  exact ⟨hruns.length_of_exhausted, hruns.exists_next_of_exhausted⟩

end Phase

/-! ## Failures that are not for the allowance -/

omit [Scalar α] in
/-- No fault is about the allowance. -/
theorem avoids_isLimit_mapError {β : Type} (result : Except (Fault α) β) :
    Avoids Failure.isLimit (result.mapError Failure.fault) := by
  cases result with
  | error fault => exact .error rfl
  | ok b => exact .ok b

omit [Scalar α] in
/-- A precondition comes first. -/
theorem Avoids.isLimit_guarded {β γ : Type} {result : Except (Fault α) β}
    {next : β → Recorded α γ}
    (hnext : ∀ b, result = .ok b → Avoids Failure.isLimit (next b).result) :
    Avoids Failure.isLimit (Recorded.guarded result >>= next).result := by
  rw [Recorded.result_bind]
  exact (avoids_isLimit_mapError result).bind fun b hb =>
    hnext b ((Recorded.result_guarded_eq_ok_iff result b).1 hb)

/-- A phase that cannot go on has another reason than its allowance. -/
theorem Phase.isLimit_of_failed_pivots (settings : Settings α) (remaining : ℕ) (rule : PivotRule)
    (streak : ℕ) (T : Tableau α) {failure : Failure α}
    (h : (pivots settings remaining rule streak T).2 = .failed failure) :
    failure.isLimit = false := by
  fun_induction pivots settings remaining rule streak T with
  | case1 =>
    split at h
    · cases h
    · cases h
      rfl
  | case2 =>
    cases h
    rfl
  | case3 => cases h
  | case4 => cases h
  | case5 rule streak T column _ _ _ failure hstep =>
    cases h
    have hmake : Avoids Failure.isLimit (makeStep settings rule streak T column) := by
      refine (avoids_isLimit_mapError _).bind fun row? _ => ?_
      cases row? with
      | none => exact .error rfl
      | some row =>
        exact (avoids_isLimit_mapError _).bind fun _ _ =>
          (avoids_isLimit_mapError _).bind fun _ _ => .ok _
    exact hmake _ hstep
  | case6 _ _ _ _ _ _ _ _ _ _ ih => exact ih h

/-- To drive artificial columns out takes no pivots of a phase. -/
theorem Tableau.avoids_isLimit_expunge (T : Tableau α) (tolerance : α)
    (artificials : List Artificial) :
    Avoids Failure.isLimit (T.expunge tolerance artificials).result := by
  unfold expunge
  rw [Recorded.result_foldlM]
  refine .foldlM (fun U p => ?_) _ _
  obtain ⟨row, column?⟩ := p
  cases column? with
  | none => exact .ok U
  | some column =>
    dsimp only
    split
    · unfold driveOut
      split
      all_goals
        rw [Recorded.result_record_bind]
        exact avoids_isLimit_mapError _
    · exact .ok U

/-- An expression is not refused for an allowance. -/
theorem Model.avoids_isLimit_requireExpression (M : Model α) (e : Expression α) :
    Avoids Error.isLimit (M.requireExpression e) := by
  unfold requireExpression expressionError?
  cases hterm : e.terms.findSome? M.termError? with
  | some error =>
    obtain ⟨t, -, ht⟩ := List.exists_of_findSome?_eq_some hterm
    refine .error ?_
    unfold termError? at ht
    split at ht
    · cases ht
      rfl
    · split at ht
      · cases ht
      · cases ht
        rfl
  | none =>
    dsimp only
    split
    · rename_i error herror
      split at herror
      · cases herror
      · cases herror
        exact .error rfl
    · exact .ok ()

/-- An objective is not refused for an allowance. -/
theorem Model.avoids_isLimit_maximize (M : Model α) (e : Expression α) :
    Avoids Error.isLimit (M.maximize e) := by
  unfold maximize
  rw [optimize_eq]
  exact (M.avoids_isLimit_requireExpression e).map _

/-- The program of phase one is not refused for an allowance. -/
theorem StandardForm.avoids_isLimit_phaseOneProgram (form : StandardForm α) :
    Avoids Failure.isLimit (Recorded.checked form.phaseOneProgram : Recorded α _).result := by
  have hprogram : Avoids Error.isLimit form.phaseOneProgram :=
    (Model.avoids_isLimit_maximize _ _).bind fun _ _ => .ok _
  cases h : form.phaseOneProgram with
  | error error => exact .error (hprogram error h)
  | ok program => exact .ok program

/-! ## Phase one -/

namespace StandardForm

variable {form : StandardForm α} {settings : Settings α}

/-- Out of pivots, phase one has no result. -/
theorem result_phaseOne_of_exhausted {program : PhaseOneProgram α} {initial : Tableau α}
    (hprogram : form.phaseOneProgram = .ok program)
    (hinitial : program.tableau settings.tolerance = .ok initial)
    (hending : (Phase.run settings initial).ending = .exhausted) :
    (form.phaseOne settings).result =
      .error (.error (.iterationLimit 1 (Phase.run settings initial).iterations)) := by
  unfold phaseOne
  rw [Recorded.result_bind_of_ok _ ((Recorded.result_checked_eq_ok_iff _ _).2 hprogram),
    Recorded.result_record_bind,
    Recorded.result_bind_of_ok _ ((Recorded.result_guarded_eq_ok_iff _ _).2 hinitial)]
  dsimp only
  rw [Recorded.result_record_bind, hending]
  rfl

/-- Phase one is not given up for its allowance unless its phase is cut short. -/
theorem avoids_isLimit_phaseOne (h : ∀ program initial, form.phaseOneProgram = .ok program →
      program.tableau settings.tolerance = .ok initial →
      (Phase.run settings initial).ending ≠ .exhausted) :
    Avoids Failure.isLimit (form.phaseOne settings).result := by
  unfold phaseOne
  rw [Recorded.result_bind]
  refine form.avoids_isLimit_phaseOneProgram.bind fun program hprogram => ?_
  rw [Recorded.result_checked_eq_ok_iff] at hprogram
  rw [Recorded.result_record_bind]
  refine Avoids.isLimit_guarded fun initial hinitial => ?_
  dsimp only
  rw [Recorded.result_record_bind]
  cases hending : (Phase.run settings initial).ending with
  | failed failure => exact .error (Phase.isLimit_of_failed_pivots _ _ _ _ _ hending)
  | exhausted => exact absurd hending (h program initial hprogram hinitial)
  | unbounded column => exact .error rfl
  | optimal =>
    refine Avoids.isLimit_guarded fun levels _ => ?_
    split
    · rw [Recorded.result_record_bind]
      exact .ok _
    · rw [Recorded.result_bind]
      exact (Tableau.avoids_isLimit_expunge _ _ _).bind fun expunged _ =>
        Avoids.isLimit_guarded fun _ _ => .ok _

/-- Phase one is the same when its phase is. -/
theorem phaseOne_eq_of_run_eq {settings' : Settings α}
    (htol : settings'.tolerance = settings.tolerance)
    (h : ∀ program initial, form.phaseOneProgram = .ok program →
      program.tableau settings.tolerance = .ok initial →
      Phase.run settings' initial = Phase.run settings initial) :
    form.phaseOne settings' = form.phaseOne settings := by
  unfold phaseOne
  rw [htol]
  refine Recorded.bind_eq_of_ok fun program hprogram => ?_
  rw [Recorded.result_checked_eq_ok_iff] at hprogram
  refine Recorded.bind_eq_of_ok fun _ _ => Recorded.bind_eq_of_ok fun initial hinitial => ?_
  rw [Recorded.result_guarded_eq_ok_iff] at hinitial
  rw [h program initial hprogram hinitial]

end StandardForm

/-! ## A solve -/

namespace Model

variable {M : Model α} {settings : Settings α}

/-- Phase two is not given up for its allowance unless its phase is cut short. -/
theorem avoids_isLimit_phaseTwo {initial : Tableau α}
    (h : (Phase.run settings initial).ending ≠ .exhausted) (o : Objective α)
    (phaseOneTableau : Option (Tableau α)) (earlier : ℕ) :
    Avoids Failure.isLimit (M.phaseTwo o settings initial phaseOneTableau earlier).result := by
  unfold phaseTwo
  rw [Recorded.result_record_bind]
  cases hending : (Phase.run settings initial).ending with
  | failed failure => exact .error (Phase.isLimit_of_failed_pivots _ _ _ _ _ hending)
  | exhausted => exact absurd hending h
  | unbounded column =>
    rw [Recorded.result_record_bind]
    exact .ok _
  | optimal =>
    refine Avoids.isLimit_guarded fun own _ => Avoids.isLimit_guarded fun value _ => ?_
    rw [Recorded.result_record_bind]
    exact .ok _

/-- A number stands for one phase of a solve at most. -/
theorem HasPhase.unique {number : ℕ} {phase other : Phase α}
    (h : M.HasPhase settings number phase) (hother : M.HasPhase settings number other) :
    other = phase := by
  cases h with
  | one hneeds hprogram hinitial =>
    cases hother with
    | one _ hprogram' hinitial' =>
      cases hprogram.symm.trans hprogram'
      cases hinitial.symm.trans hinitial'
      rfl
  | two hneeds hone =>
    cases hother with
    | two _ hone' =>
      cases hone.symm.trans hone'
      rfl
    | only hskip => exact absurd (hneeds.symm.trans hskip) nofun
  | only hskip hinitial =>
    cases hother with
    | two hneeds => exact absurd (hneeds.symm.trans hskip) nofun
    | only _ hinitial' =>
      cases hinitial.symm.trans hinitial'
      rfl

/-- A phase that a solve goes through is run from some tableau. -/
theorem HasPhase.exists_eq_run {number : ℕ} {phase : Phase α}
    (h : M.HasPhase settings number phase) : ∃ T, phase = Phase.run settings T := by
  cases h with
  | one | two | only => exact ⟨_, rfl⟩

/-- When a phase is cut short, the solve is given up for the allowance of that phase. -/
theorem HasPhase.result_of_exhausted {number : ℕ} {phase : Phase α}
    (h : M.HasPhase settings number phase) {o : Objective α} (ho : M.objective = some o)
    (hsome : M.constraints.isEmpty = false) (hending : phase.ending = .exhausted) :
    (M.solve settings).result = .error (.error (.iterationLimit number phase.iterations)) := by
  unfold solve
  simp only [ho, hsome, Bool.false_eq_true, if_false]
  rw [Recorded.result_record_bind]
  cases h with
  | one hneeds hprogram hinitial =>
    rw [if_pos hneeds]
    exact Recorded.result_bind_of_error _
      (StandardForm.result_phaseOne_of_exhausted hprogram hinitial hending)
  | two hneeds hone =>
    rw [if_pos hneeds, Recorded.result_bind_of_ok _ hone]
    exact result_phaseTwo_of_exhausted hending _ _
  | only hskip hinitial =>
    rw [hskip, if_neg Bool.false_ne_true, Recorded.result_record_bind,
      Recorded.result_bind_of_ok _ ((Recorded.result_guarded_eq_ok_iff _ _).2 hinitial)]
    exact result_phaseTwo_of_exhausted hending _ _

/-- A solve is not given up for an allowance unless one of its phases is cut short. -/
theorem avoids_isLimit_solve (h : ∀ number phase, .phase number phase ∈ (M.solve settings).events →
      phase.ending ≠ .exhausted) : Avoids Failure.isLimit (M.solve settings).result := by
  have hphases : ∀ o, M.objective = some o → M.constraints.isEmpty = false →
      ∀ number phase, M.HasPhase settings number phase → phase.ending ≠ .exhausted :=
    fun o ho hsome number phase hphase => h number phase (hphase.mem_events ho hsome)
  unfold solve
  cases ho : M.objective with
  | none => exact .error rfl
  | some o =>
    dsimp only
    split
    · exact .error rfl
    rename_i hempty
    have hending := hphases o ho (Bool.eq_false_iff.2 hempty)
    rw [Recorded.result_record_bind]
    split
    · rename_i hneeds
      rw [Recorded.result_bind]
      refine (StandardForm.avoids_isLimit_phaseOne fun program initial hprogram hinitial =>
        hending 1 _ (.one hneeds hprogram hinitial)).bind fun found hone => ?_
      cases found with
      | feasible initial restored iterations =>
        exact avoids_isLimit_phaseTwo (hending 2 _ (.two hneeds hone)) _ _ _
      | infeasible initial last iterations =>
        rw [Recorded.result_record_bind]
        exact .ok _
    · rename_i hskip
      rw [Recorded.result_record_bind]
      refine Avoids.isLimit_guarded fun initial hinitial => ?_
      exact avoids_isLimit_phaseTwo
        (hending 2 _ (.only (Bool.eq_false_iff.2 hskip) hinitial)) _ _ _

/-- A solve whose phases are the same under other settings with the same tolerance is the same
under them. -/
theorem solve_eq_of_run_eq {settings' : Settings α}
    (htol : settings'.tolerance = settings.tolerance)
    (h : ∀ number T, M.HasPhase settings number (Phase.run settings T) →
      Phase.run settings' T = Phase.run settings T) :
    M.solve settings' = M.solve settings := by
  have hphaseTwo : ∀ o initial phaseOneTableau earlier,
      M.HasPhase settings 2 (Phase.run settings initial) →
        M.phaseTwo o settings' initial phaseOneTableau earlier =
          M.phaseTwo o settings initial phaseOneTableau earlier := by
    intro o initial phaseOneTableau earlier hphase
    unfold phaseTwo
    rw [h 2 initial hphase]
  unfold solve
  cases M.objective with
  | none => rfl
  | some o =>
    dsimp only
    split
    · rfl
    refine Recorded.bind_eq_of_ok fun _ _ => ?_
    split
    · rename_i hneeds
      rw [StandardForm.phaseOne_eq_of_run_eq htol fun program initial hprogram hinitial =>
        h 1 initial (.one hneeds hprogram hinitial)]
      refine Recorded.bind_eq_of_ok fun found hone => ?_
      cases found with
      | feasible initial restored iterations => exact hphaseTwo _ _ _ _ (.two hneeds hone)
      | infeasible initial last iterations => rfl
    · rename_i hskip
      refine Recorded.bind_eq_of_ok fun _ _ => ?_
      rw [htol]
      refine Recorded.bind_eq_of_ok fun initial hinitial => ?_
      rw [Recorded.result_guarded_eq_ok_iff] at hinitial
      exact hphaseTwo _ _ _ _ (.only (Bool.eq_false_iff.2 hskip) hinitial)

/-- When no phase is cut short, the solve is the same with more pivots allowed. -/
theorem solve_allowing_of_le {m₁ m₂ : ℕ} (hle : m₁ ≤ m₂)
    (h : ∀ number phase, M.HasPhase (settings.allowing m₁) number phase →
      phase.ending ≠ .exhausted) :
    M.solve (settings.allowing m₂) = M.solve (settings.allowing m₁) :=
  solve_eq_of_run_eq rfl fun number T hphase =>
    (Phase.run_allowing_of_le settings hle T).2 (h number _ hphase)

/-- A solution shows no more pivots than the phases were allowed. -/
theorem iterations_le_of_solve_eq_ok {s : Solution α} (h : (M.solve settings).result = .ok s) :
    s.iterations ≤ (if s.phaseOneTableau.isSome then 2 * settings.maxIterations
      else settings.maxIterations) := by
  obtain ⟨o, -, -, hconcludes⟩ := concludes_of_solve_eq_ok h
  cases hconcludes with
  | feasible hneeds hone htwo =>
    obtain ⟨-, htableau, hiterations⟩ := fields_of_phaseTwo_eq_ok htwo
    obtain ⟨_, -, -, hfound⟩ := StandardForm.exists_of_phaseOne_eq_ok hone
    have hfirst := hfound.trans_le (Phase.iterations_run_le settings _)
    have hsecond := Phase.iterations_run_le settings
    rw [htableau, hiterations, Option.isSome_some, if_pos rfl, two_mul]
    exact Nat.add_le_add hfirst (hsecond _)
  | infeasible hneeds hone =>
    obtain ⟨_, -, -, hfound⟩ := StandardForm.exists_of_phaseOne_eq_ok hone
    have hfirst := hfound.trans_le (Phase.iterations_run_le settings _)
    rw [Option.isSome_some, if_pos rfl, two_mul]
    exact hfirst.trans (Nat.le_add_left _ _)
  | skipped hskip hinitial htwo =>
    obtain ⟨-, htableau, hiterations⟩ := fields_of_phaseTwo_eq_ok htwo
    rw [htableau, hiterations, Nat.zero_add]
    exact Phase.iterations_run_le settings _

/-- With more pivots allowed a solution stays the same, and so does all that the solve went through;
no phase made more pivots than were allowed. When the pivots of a phase are used up, it has made all
that were allowed, and a column that is not unbounded is to enter its last tableau. -/
theorem solve_allowance (M : Model α) (settings : Settings α) {m₁ m₂ : ℕ} (hle : m₁ ≤ m₂) :
    (∀ s, (M.solve (settings.allowing m₁)).result = .ok s →
      (M.solve (settings.allowing m₂)).result = .ok s ∧
      (M.solve (settings.allowing m₂)).events = (M.solve (settings.allowing m₁)).events ∧
      (∀ number phase, .phase number phase ∈ (M.solve (settings.allowing m₁)).events →
        phase.iterations ≤ m₁) ∧
      s.iterations ≤ if s.phaseOneTableau.isSome then 2 * m₁ else m₁) ∧
    ∀ number iterations, (M.solve (settings.allowing m₁)).result =
        .error (.error (.iterationLimit number iterations)) →
      iterations = m₁ ∧
      ∃ phase, (∀ other, .phase number other ∈ (M.solve (settings.allowing m₁)).events ↔
          other = phase) ∧
        phase.iterations = m₁ ∧
        ∃ column, phase.last.enteringColumn (Phase.ruleAfter settings.rule phase.steps) =
            some column ∧ phase.last.isUnbounded column = false := by
  refine ⟨fun s hs => ?_, fun number iterations hlimit => ?_⟩
  · obtain ⟨o, ho, hsome, -⟩ := concludes_of_solve_eq_ok hs
    -- A phase cut short would have been the end of the solve.
    have hsame := solve_allowing_of_le hle fun number phase hphase hending =>
      absurd ((hphase.result_of_exhausted ho hsome hending).symm.trans hs) nofun
    refine ⟨hsame ▸ hs, by rw [hsame], fun number phase hmem => ?_,
      iterations_le_of_solve_eq_ok hs⟩
    obtain ⟨-, -, hphase⟩ := hasPhase_of_mem_events hmem
    obtain ⟨T, rfl⟩ := hphase.exists_eq_run
    exact Phase.iterations_run_le (settings.allowing m₁) T
  · -- A solve that is given up has a phase that is cut short, which is the one reported.
    obtain ⟨number', phase, hmem, hending⟩ : ∃ number' phase,
        .phase number' phase ∈ (M.solve (settings.allowing m₁)).events ∧
          phase.ending = .exhausted := by
      by_contra hnone
      have hdone := avoids_isLimit_solve fun number' phase hmem hending =>
        hnone ⟨number', phase, hmem, hending⟩
      exact absurd (hdone _ hlimit) nofun
    obtain ⟨⟨o, ho⟩, hsome, hphase⟩ := hasPhase_of_mem_events hmem
    cases (hphase.result_of_exhausted ho hsome hending).symm.trans hlimit
    obtain ⟨T, rfl⟩ := hphase.exists_eq_run
    obtain ⟨hiterations, hcolumn⟩ := Phase.exists_next_of_exhausted hending
    refine ⟨hiterations, _, fun other => ⟨fun hother => ?_, fun heq => heq ▸ hmem⟩, hiterations,
      hcolumn⟩
    obtain ⟨-, -, hother'⟩ := hasPhase_of_mem_events hother
    exact hphase.unique hother'

/-- Make `2 x + 3 y` large, with `x + y ≤ 4`, `x + 3 y ≤ 6`, and `x + y ≥ 1`: phase one makes one
pivot and phase two makes two. -/
def tightCalls : List (Call Float) :=
  let x : Variable := ⟨0, "x"⟩
  let y : Variable := ⟨1, "y"⟩
  [.addVariable "x", .addVariable "y",
    .addConstraint ⟨[⟨1, x⟩, ⟨1, y⟩], 0⟩ .atMost 4,
    .addConstraint ⟨[⟨1, x⟩, ⟨3, y⟩], 0⟩ .atMost 6,
    .addConstraint ⟨[⟨1, x⟩, ⟨1, y⟩], 0⟩ .atLeast 1,
    .maximize ⟨[⟨2, x⟩, ⟨3, y⟩], 0⟩]

/-- The tight model is solved with just the two pivots that phase two makes, and so it is with a
hundred. With one pivot phase two is cut short. -/
theorem solve_allowance_tight :
    let M : Model Float := built "tight" tightCalls
    let solved (m : ℕ) := M.solve (Settings.standard.allowing m)
    2 ≤ 100 ∧ 1 ≤ 2 ∧
    (∃ s, (solved 2).result = .ok s ∧ s.isOptimal = true ∧ s.iterations = 3 ∧
      (solved 100).result = .ok s ∧ (solved 100).events = (solved 2).events ∧
      ∀ number phase, .phase number phase ∈ (solved 2).events → phase.iterations ≤ 2) ∧
    (solved 1).result = .error (.error (.iterationLimit 2 1)) ∧
    ∃ phase, (∀ other, .phase 2 other ∈ (solved 1).events ↔ other = phase) ∧
      phase.iterations = 1 ∧
      ∃ column, phase.last.enteringColumn
          (Phase.ruleAfter Settings.standard.rule phase.steps) = some column ∧
        phase.last.isUnbounded column = false := by
  intro M solved
  have hresult : (match (solved 2).result with
      | .ok s => s.isOptimal && decide (s.iterations = 3)
      | .error _ => false) = true := by
    decide +kernel
  have hlimit : (match (solved 1).result with
      | .ok _ => false
      | .error failure => decide (failure = .error (.iterationLimit 2 1))) = true := by
    decide +kernel
  have hshort : (solved 1).result = .error (.error (.iterationLimit 2 1)) := by
    split at hlimit
    · exact absurd hlimit Bool.false_ne_true
    · rename_i failure hfailure
      rw [hfailure, of_decide_eq_true hlimit]
  obtain ⟨-, phase, hphase⟩ :=
    (solve_allowance M Settings.standard (show 1 ≤ 2 by decide)).2 2 1 hshort
  refine ⟨by decide, by decide, ?_, hshort, phase, hphase⟩
  split at hresult
  · rename_i s hs
    rw [Bool.and_eq_true, decide_eq_true_eq] at hresult
    obtain ⟨hmore, hevents, hphases, -⟩ :=
      (solve_allowance M Settings.standard (show 2 ≤ 100 by decide)).1 s hs
    exact ⟨s, hs, hresult.1, hresult.2, hmore, hevents, hphases⟩
  · exact absurd hresult Bool.false_ne_true

end Model

end LinProg
