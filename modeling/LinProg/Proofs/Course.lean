import LinProg.Solve

/-!
# The course of a solve

What a solve goes through, read off its events and its result, for every kind of scalar. A phase
among the events is phase one from the first tableau of its program, phase two from the tableau that
phase one hands over, or, with a slack for each constraint, phase two alone (`Model.HasPhase`,
`Model.hasPhase_of_mem_events`). A phase one that ends feasible has driven out the artificial
columns and restored the objective (`StandardForm.exists_of_phaseOne_eq_feasible`), and the rows
that the solve records as redundant are those that it cleared on the way
(`Model.redundantRow_mem_events_solve_iff`). An optimal solution shows the last tableau of phase two
and holds the assignment there (`Model.exists_phase_of_isOptimal`). How any solution is come to is
told by `Model.Concludes`. -/

namespace LinProg

namespace Recorded

variable {α β γ : Type}

/-- The events of two computations in a row are those of the first and, when it has a result, those
of the second. -/
theorem mem_events_bind_iff (first : Recorded α β) (next : β → Recorded α γ) (event : Event α) :
    event ∈ (first >>= next).events ↔
      event ∈ first.events ∨ ∃ b, first.result = .ok b ∧ event ∈ (next b).events := by
  cases h : first.result with
  | error failure => simp [events_bind_of_error next h]
  | ok b => simp [events_bind_of_ok next h]

/-- The events of the first of two computations come first. -/
theorem exists_events_bind (first : Recorded α β) (next : β → Recorded α γ) :
    ∃ later, (first >>= next).events = first.events ++ later := by
  cases h : first.result with
  | error failure => exact ⟨[], by rw [events_bind_of_error next h, List.append_nil]⟩
  | ok b => exact ⟨_, events_bind_of_ok next h⟩

/-- An event of a loop is one of some step. -/
theorem exists_of_mem_events_foldlM {step : β → γ → Recorded α β} {event : Event α} {xs : List γ}
    {b : β} (h : event ∈ (xs.foldlM step b).events) : ∃ c, ∃ x ∈ xs, event ∈ (step c x).events := by
  induction xs generalizing b with
  | nil => exact absurd h List.not_mem_nil
  | cons x xs ih =>
    rw [List.foldlM_cons, mem_events_bind_iff] at h
    rcases h with hfirst | ⟨c, -, hrest⟩
    · exact ⟨b, x, List.mem_cons_self, hfirst⟩
    · obtain ⟨d, y, hy, hevent⟩ := ih hrest
      exact ⟨d, y, List.mem_cons_of_mem x hy, hevent⟩

end Recorded

namespace Event

variable {α : Type}

/-- The event belongs to driving artificial columns out of the basis. -/
def drivesOut : Event α → Bool
  | .drivenOut .. | .redundantRow _ => true
  | _ => false

/-- The number of a phase and the phase, when the event is one. -/
def phase? : Event α → Option (Nat × Phase α)
  | .phase number p => some (number, p)
  | _ => none

/-- The row that the event records as redundant. -/
def redundantRow? : Event α → Option Nat
  | .redundantRow row => some row
  | _ => none

/-- The phases among some events. -/
theorem mem_filterMap_phase?_iff {events : List (Event α)} {number : Nat} {phase : Phase α} :
    (number, phase) ∈ events.filterMap phase? ↔ .phase number phase ∈ events := by
  have hiff : ∀ event : Event α,
      event.phase? = some (number, phase) ↔ event = .phase number phase := by
    intro event
    cases event <;> simp [phase?]
  simp [List.mem_filterMap, hiff]

/-- The redundant rows among some events. -/
theorem mem_filterMap_redundantRow?_iff {events : List (Event α)} {row : Nat} :
    row ∈ events.filterMap redundantRow? ↔ .redundantRow row ∈ events := by
  have hiff : ∀ event : Event α,
      event.redundantRow? = some row ↔ event = .redundantRow row := by
    intro event
    cases event <;> simp [redundantRow?]
  simp [List.mem_filterMap, hiff]

end Event

variable {α : Type} [Scalar α]

/-! ## Phase one -/

namespace Tableau

/-- With another entry in the row, driving out is a pivot on the first one, which is recorded. -/
theorem driveOut_of_find?_eq_some {T : Tableau α} {tolerance : α} {first row replacement : Nat}
    (h : (List.range first).find? (fun j => Scalar.isSignificant tolerance (T.entry row j)) =
      some replacement) (column : Nat) :
    T.driveOut tolerance first row column =
      ⟨[.drivenOut column row replacement], (T.pivot row replacement).mapError .fault⟩ := by
  unfold driveOut
  rw [h]
  rfl

/-- Without another entry the row is cleared, which is recorded. -/
theorem driveOut_of_find?_eq_none {T : Tableau α} {tolerance : α} {first row : Nat}
    (h : (List.range first).find? (fun j => Scalar.isSignificant tolerance (T.entry row j)) = none)
    (column : Nat) :
    T.driveOut tolerance first row column =
      ⟨[.redundantRow row], (T.clearRow row).mapError .fault⟩ := by
  unfold driveOut
  rw [h]
  rfl

/-- No phase is run while the artificial columns are driven out. -/
theorem phase_notMem_events_expunge (T : Tableau α) (tolerance : α) (artificials : List Artificial)
    (number : Nat) (phase : Phase α) :
    Event.phase number phase ∉ (T.expunge tolerance artificials).events := by
  intro h
  obtain ⟨U, ⟨row, column?⟩, -, hevent⟩ := Recorded.exists_of_mem_events_foldlM h
  dsimp only at hevent
  split at hevent
  · split at hevent
    · cases hfind : (List.range (T.firstArtificial artificials)).find? fun j =>
          Scalar.isSignificant tolerance (U.entry row j) with
      | some replacement =>
        rw [driveOut_of_find?_eq_some hfind] at hevent
        simp at hevent
      | none =>
        rw [driveOut_of_find?_eq_none hfind] at hevent
        simp at hevent
    · simp at hevent
  · simp at hevent

end Tableau

namespace PhaseOneResult

omit [Scalar α]

/-- The first tableau of phase one. -/
def initial : PhaseOneResult α → Tableau α
  | feasible initial .. | infeasible initial .. => initial

/-- The pivots of phase one. -/
def iterations : PhaseOneResult α → Nat
  | feasible _ _ iterations | infeasible _ _ iterations => iterations

end PhaseOneResult

namespace StandardForm

variable {form : StandardForm α} {settings : Settings α}

/-- A phase one that ends shows the first tableau of its program, and the pivots from there. -/
theorem exists_of_phaseOne_eq_ok {found : PhaseOneResult α}
    (h : (form.phaseOne settings).result = .ok found) :
    ∃ program, form.phaseOneProgram = .ok program ∧
      program.tableau settings.tolerance = .ok found.initial ∧
      found.iterations = (Phase.run settings found.initial).iterations := by
  unfold phaseOne at h
  obtain ⟨program, hprogram, h⟩ := (Recorded.result_bind_eq_ok_iff _ _ _).1 h
  obtain ⟨-, -, h⟩ := (Recorded.result_bind_eq_ok_iff _ _ _).1 h
  obtain ⟨T, hT, h⟩ := (Recorded.result_bind_eq_ok_iff _ _ _).1 h
  obtain ⟨-, -, h⟩ := (Recorded.result_bind_eq_ok_iff _ _ _).1 h
  rw [Recorded.result_checked_eq_ok_iff] at hprogram
  rw [Recorded.result_guarded_eq_ok_iff] at hT
  refine ⟨program, hprogram, ?_⟩
  split at h
  · exact absurd h nofun
  · exact absurd h nofun
  · exact absurd h nofun
  · obtain ⟨levels, -, h⟩ := (Recorded.result_bind_eq_ok_iff _ _ _).1 h
    split at h
    · obtain ⟨-, -, h⟩ := (Recorded.result_bind_eq_ok_iff _ _ _).1 h
      cases h
      exact ⟨hT, rfl⟩
    · obtain ⟨expunged, -, h⟩ := (Recorded.result_bind_eq_ok_iff _ _ _).1 h
      obtain ⟨restored, -, h⟩ := (Recorded.result_bind_eq_ok_iff _ _ _).1 h
      cases h
      exact ⟨hT, rfl⟩

/-- A phase one that ends feasible ran to an optimal tableau of its program in which no artificial
variable exceeds the tolerance, drove the artificial columns out, and restored the objective. -/
theorem exists_of_phaseOne_eq_feasible {initial restored : Tableau α} {iterations : Nat}
    (h : (form.phaseOne settings).result = .ok (.feasible initial restored iterations)) :
    ∃ program levels expunged, form.phaseOneProgram = .ok program ∧
      program.tableau settings.tolerance = .ok initial ∧
      (Phase.run settings initial).ending = .optimal ∧
      (Phase.run settings initial).last.artificialValues program.artificials = .ok levels ∧
      (levels.any fun level => settings.tolerance < level) = false ∧
      ((Phase.run settings initial).last.expunge settings.tolerance
        program.artificials).result = .ok expunged ∧
      expunged.restore settings.tolerance form.model program.artificials = .ok restored := by
  unfold phaseOne at h
  obtain ⟨program, hprogram, h⟩ := (Recorded.result_bind_eq_ok_iff _ _ _).1 h
  obtain ⟨-, -, h⟩ := (Recorded.result_bind_eq_ok_iff _ _ _).1 h
  obtain ⟨T, hT, h⟩ := (Recorded.result_bind_eq_ok_iff _ _ _).1 h
  obtain ⟨-, -, h⟩ := (Recorded.result_bind_eq_ok_iff _ _ _).1 h
  rw [Recorded.result_checked_eq_ok_iff] at hprogram
  rw [Recorded.result_guarded_eq_ok_iff] at hT
  split at h
  · exact absurd h nofun
  · exact absurd h nofun
  · exact absurd h nofun
  · rename_i hending
    obtain ⟨levels, hlevels, h⟩ := (Recorded.result_bind_eq_ok_iff _ _ _).1 h
    rw [Recorded.result_guarded_eq_ok_iff] at hlevels
    split at h
    · -- With an artificial variable left the phase ends infeasible.
      exact absurd h nofun
    · rename_i hnone
      obtain ⟨expunged, hexpunged, h⟩ := (Recorded.result_bind_eq_ok_iff _ _ _).1 h
      obtain ⟨R, hR, h⟩ := (Recorded.result_bind_eq_ok_iff _ _ _).1 h
      rw [Recorded.result_guarded_eq_ok_iff] at hR
      cases h
      exact ⟨program, levels, expunged, hprogram, hT, hending, hlevels,
        Bool.eq_false_iff.2 hnone, hexpunged, hR⟩

/-- The phase that phase one records starts from the first tableau of its program. -/
theorem eq_run_of_phase_mem_events_phaseOne {number : Nat} {phase : Phase α}
    (h : .phase number phase ∈ (form.phaseOne settings).events) :
    number = 1 ∧ ∃ program initial, form.phaseOneProgram = .ok program ∧
      program.tableau settings.tolerance = .ok initial ∧ phase = Phase.run settings initial := by
  unfold phaseOne at h
  simp only [Recorded.mem_events_bind_iff, Recorded.events_checked, Recorded.events_guarded,
    Recorded.events_record, Recorded.result_checked_eq_ok_iff, Recorded.result_guarded_eq_ok_iff,
    List.not_mem_nil, List.mem_singleton, reduceCtorEq, false_or, Event.phase.injEq] at h
  obtain ⟨program, hprogram, -, -, T, hT, ⟨rfl, rfl⟩ | ⟨-, -, h⟩⟩ := h
  · exact ⟨rfl, program, T, hprogram, hT, rfl⟩
  · -- After the phase there is no other one.
    exfalso
    split at h
    · exact absurd h List.not_mem_nil
    · exact absurd h List.not_mem_nil
    · exact absurd h List.not_mem_nil
    · simp only [Recorded.mem_events_bind_iff, Recorded.events_guarded, List.not_mem_nil,
        Recorded.result_guarded_eq_ok_iff, false_or] at h
      obtain ⟨levels, -, h⟩ := h
      split at h
      · simp [Recorded.mem_events_bind_iff] at h
      · simp only [Recorded.mem_events_bind_iff, Recorded.events_guarded, Recorded.events_pure,
          List.not_mem_nil, and_false, exists_false, or_false] at h
        exact Tableau.phase_notMem_events_expunge _ _ _ _ _ h

/-- Phase one records the phase from the first tableau of its program. -/
theorem phase_mem_events_phaseOne {program : PhaseOneProgram α} {initial : Tableau α}
    (hprogram : form.phaseOneProgram = .ok program)
    (hinitial : program.tableau settings.tolerance = .ok initial) :
    .phase 1 (Phase.run settings initial) ∈ (form.phaseOne settings).events := by
  unfold phaseOne
  simp only [Recorded.mem_events_bind_iff, Recorded.events_checked, Recorded.events_guarded,
    Recorded.events_record, Recorded.result_checked_eq_ok_iff, Recorded.result_guarded_eq_ok_iff,
    List.not_mem_nil, List.mem_singleton, reduceCtorEq, false_or]
  exact ⟨program, hprogram, (), rfl, initial, hinitial, Or.inl rfl⟩

/-- When no artificial variable is left, the events of phase one are its start, its phase, and those
of driving out the artificial columns. -/
theorem events_phaseOne {program : PhaseOneProgram α} {initial : Tableau α} {levels : List α}
    (hprogram : form.phaseOneProgram = .ok program)
    (hinitial : program.tableau settings.tolerance = .ok initial)
    (hending : (Phase.run settings initial).ending = .optimal)
    (hlevels : (Phase.run settings initial).last.artificialValues program.artificials = .ok levels)
    (hnone : (levels.any fun level => settings.tolerance < level) = false) :
    (form.phaseOne settings).events =
      .phaseOneStarted program.artificials.length :: .phase 1 (Phase.run settings initial) ::
        ((Phase.run settings initial).last.expunge settings.tolerance
          program.artificials).events := by
  unfold phaseOne
  rw [Recorded.events_bind_of_ok _ ((Recorded.result_checked_eq_ok_iff _ _).2 hprogram),
    Recorded.events_bind_of_ok _ (Recorded.result_record _),
    Recorded.events_bind_of_ok _ ((Recorded.result_guarded_eq_ok_iff _ _).2 hinitial)]
  dsimp only
  rw [Recorded.events_bind_of_ok _ (Recorded.result_record _), hending]
  dsimp only
  rw [Recorded.events_bind_of_ok _ ((Recorded.result_guarded_eq_ok_iff _ _).2 hlevels), hnone,
    if_neg Bool.false_ne_true]
  -- Restoring the objective records nothing.
  have hrestore : ∀ expunged : Tableau α, ((do
      let restored ← Recorded.guarded
        (expunged.restore settings.tolerance form.model program.artificials)
      return PhaseOneResult.feasible initial restored (Phase.run settings initial).iterations) :
        Recorded α (PhaseOneResult α)).events = [] := by
    intro expunged
    cases hR : (Recorded.guarded (expunged.restore settings.tolerance form.model
        program.artificials) : Recorded α (Tableau α)).result with
    | error failure => rw [Recorded.events_bind_of_error _ hR]; rfl
    | ok restored => rw [Recorded.events_bind_of_ok _ hR]; rfl
  cases hexpunge : ((Phase.run settings initial).last.expunge settings.tolerance
      program.artificials).result with
  | error failure => rw [Recorded.events_bind_of_error _ hexpunge]; rfl
  | ok expunged => rw [Recorded.events_bind_of_ok _ hexpunge, hrestore, List.append_nil]; rfl

/-- When no artificial variable is left, and the artificial columns can be driven out and the
objective restored, phase one ends feasible with the restored tableau. -/
theorem phaseOne_eq_feasible {program : PhaseOneProgram α} {initial expunged restored : Tableau α}
    {levels : List α} (hprogram : form.phaseOneProgram = .ok program)
    (hinitial : program.tableau settings.tolerance = .ok initial)
    (hending : (Phase.run settings initial).ending = .optimal)
    (hlevels : (Phase.run settings initial).last.artificialValues program.artificials = .ok levels)
    (hnone : (levels.any fun level => settings.tolerance < level) = false)
    (hexpunged : ((Phase.run settings initial).last.expunge settings.tolerance
      program.artificials).result = .ok expunged)
    (hrestored : expunged.restore settings.tolerance form.model program.artificials =
      .ok restored) :
    (form.phaseOne settings).result =
      .ok (.feasible initial restored (Phase.run settings initial).iterations) := by
  unfold phaseOne
  rw [Recorded.result_bind_of_ok _ ((Recorded.result_checked_eq_ok_iff _ _).2 hprogram),
    Recorded.result_bind_of_ok _ (Recorded.result_record _),
    Recorded.result_bind_of_ok _ ((Recorded.result_guarded_eq_ok_iff _ _).2 hinitial)]
  dsimp only
  rw [Recorded.result_bind_of_ok _ (Recorded.result_record _), hending]
  dsimp only
  rw [Recorded.result_bind_of_ok _ ((Recorded.result_guarded_eq_ok_iff _ _).2 hlevels), hnone,
    if_neg Bool.false_ne_true, Recorded.result_bind_of_ok _ hexpunged,
    Recorded.result_bind_of_ok _ ((Recorded.result_guarded_eq_ok_iff _ _).2 hrestored)]
  rfl

end StandardForm

/-! ## The solve -/

namespace Model

variable {M : Model α} {settings : Settings α}

/-- The phases that a solve of the model goes through, with their numbers. -/
inductive HasPhase (M : Model α) (settings : Settings α) : Nat → Phase α → Prop
  /-- Phase one starts from the first tableau of its program. -/
  | one {program initial} (hneeds : (StandardForm.ofModel M).needsPhaseOne = true)
      (hprogram : (StandardForm.ofModel M).phaseOneProgram = .ok program)
      (hinitial : program.tableau settings.tolerance = .ok initial) :
      HasPhase M settings 1 (Phase.run settings initial)
  /-- Phase two starts from the tableau that phase one hands over. -/
  | two {initial restored iterations} (hneeds : (StandardForm.ofModel M).needsPhaseOne = true)
      (hone : ((StandardForm.ofModel M).phaseOne settings).result =
        .ok (.feasible initial restored iterations)) :
      HasPhase M settings 2 (Phase.run settings restored)
  /-- With a slack for each constraint phase two starts from the first tableau. -/
  | only {initial} (hskip : (StandardForm.ofModel M).needsPhaseOne = false)
      (hinitial : (StandardForm.ofModel M).model.tableau settings.tolerance = .ok initial) :
      HasPhase M settings 2 (Phase.run settings initial)

/-- Phase two records its phase, and no other one. -/
theorem eq_run_of_phase_mem_events_phaseTwo {o : Objective α} {initial : Tableau α}
    {phaseOneTableau : Option (Tableau α)} {earlier number : Nat} {phase : Phase α}
    (h : .phase number phase ∈ (M.phaseTwo o settings initial phaseOneTableau earlier).events) :
    number = 2 ∧ phase = Phase.run settings initial := by
  unfold phaseTwo at h
  simp only [Recorded.mem_events_bind_iff, Recorded.events_record, List.mem_singleton,
    Event.phase.injEq] at h
  rcases h with h | ⟨-, -, h⟩
  · exact h
  · exfalso
    split at h <;> simp [Recorded.mem_events_bind_iff] at h

/-- Phase two drives no artificial column out. -/
theorem drivesOut_of_mem_events_phaseTwo {o : Objective α} {initial : Tableau α}
    {phaseOneTableau : Option (Tableau α)} {earlier : Nat} {event : Event α}
    (h : event ∈ (M.phaseTwo o settings initial phaseOneTableau earlier).events) :
    event.drivesOut = false := by
  unfold phaseTwo at h
  simp only [Recorded.mem_events_bind_iff, Recorded.events_record, List.mem_singleton] at h
  rcases h with rfl | ⟨-, -, h⟩
  · rfl
  · split at h
    · exact absurd h List.not_mem_nil
    · exact absurd h List.not_mem_nil
    · simp only [Recorded.mem_events_bind_iff, Recorded.events_record, Recorded.events_pure,
        List.mem_singleton, List.not_mem_nil, and_false, exists_false, or_false] at h
      rw [h]
      rfl
    · simp only [Recorded.mem_events_bind_iff, Recorded.events_guarded, Recorded.events_record,
        Recorded.events_pure, List.mem_singleton, List.not_mem_nil, false_or, and_false,
        exists_false, or_false] at h
      obtain ⟨-, -, -, -, rfl⟩ := h
      rfl

/-- Phase two clears no row. -/
theorem redundantRow_notMem_events_phaseTwo (o : Objective α) (initial : Tableau α)
    (phaseOneTableau : Option (Tableau α)) (earlier row : Nat) :
    Event.redundantRow row ∉ (M.phaseTwo o settings initial phaseOneTableau earlier).events :=
  fun h => absurd (drivesOut_of_mem_events_phaseTwo h).symm Bool.false_ne_true

/-- A solve that records a phase has an objective and constraints, and the phase is one that it goes
through. -/
theorem hasPhase_of_mem_events {number : Nat} {phase : Phase α}
    (h : .phase number phase ∈ (M.solve settings).events) :
    (∃ o, M.objective = some o) ∧ M.constraints.isEmpty = false ∧
      HasPhase M settings number phase := by
  unfold solve at h
  split at h
  · exact absurd h List.not_mem_nil
  rename_i o ho
  split at h
  · exact absurd h List.not_mem_nil
  rename_i hsome
  refine ⟨⟨o, ho⟩, Bool.eq_false_iff.2 hsome, ?_⟩
  rw [Recorded.mem_events_bind_iff] at h
  rcases h with h | ⟨-, -, h⟩
  · simp at h
  dsimp only at h
  split at h
  · rename_i hneeds
    rw [Recorded.mem_events_bind_iff] at h
    rcases h with h | ⟨found, hone, h⟩
    · obtain ⟨rfl, program, initial, hprogram, hinitial, rfl⟩ :=
        StandardForm.eq_run_of_phase_mem_events_phaseOne h
      exact .one hneeds hprogram hinitial
    · cases found with
      | feasible initial restored iterations =>
        obtain ⟨rfl, rfl⟩ := eq_run_of_phase_mem_events_phaseTwo h
        exact .two hneeds hone
      | infeasible initial last iterations => simp [Recorded.mem_events_bind_iff] at h
  · rename_i hskip
    simp only [Recorded.mem_events_bind_iff, Recorded.events_record, Recorded.events_guarded,
      Recorded.result_guarded_eq_ok_iff, List.mem_singleton, List.not_mem_nil, reduceCtorEq,
      false_or] at h
    obtain ⟨-, -, initial, hinitial, h⟩ := h
    obtain ⟨rfl, rfl⟩ := eq_run_of_phase_mem_events_phaseTwo h
    exact .only (Bool.eq_false_iff.2 hskip) hinitial

/-- When phase one is needed, its events come after the start of the solve, and after it no
artificial column is driven out. -/
theorem exists_events_solve (settings : Settings α) {o : Objective α} (ho : M.objective = some o)
    (hsome : M.constraints.isEmpty = false)
    (hneeds : (StandardForm.ofModel M).needsPhaseOne = true) :
    ∃ later, (M.solve settings).events =
      .started M.name M.vars.length M.constraints.length ::
        (((StandardForm.ofModel M).phaseOne settings).events ++ later) ∧
      ∀ event ∈ later, event.drivesOut = false := by
  unfold solve
  simp only [ho, hsome, hneeds, Bool.false_eq_true, if_false, if_true]
  rw [Recorded.events_bind_of_ok _ (Recorded.result_record _)]
  cases hone : ((StandardForm.ofModel M).phaseOne settings).result with
  | error failure =>
    rw [Recorded.events_bind_of_error _ hone]
    exact ⟨[], by rw [List.append_nil]; rfl, nofun⟩
  | ok found =>
    rw [Recorded.events_bind_of_ok _ hone]
    refine ⟨_, rfl, fun event h => ?_⟩
    cases found with
    | feasible initial restored iterations => exact drivesOut_of_mem_events_phaseTwo h
    | infeasible initial last iterations =>
      simp only [Recorded.mem_events_bind_iff, Recorded.events_record, Recorded.events_pure,
        List.mem_singleton, List.not_mem_nil, and_false, exists_false, or_false] at h
      rw [h]
      rfl

/-- The rows that a solve records as redundant are those that phase one does. -/
theorem redundantRow_mem_events_solve_iff {o : Objective α} (ho : M.objective = some o)
    (hsome : M.constraints.isEmpty = false) (row : Nat) :
    .redundantRow row ∈ (M.solve settings).events ↔
      (StandardForm.ofModel M).needsPhaseOne = true ∧
        .redundantRow row ∈ ((StandardForm.ofModel M).phaseOne settings).events := by
  cases hneeds : (StandardForm.ofModel M).needsPhaseOne with
  | true =>
    obtain ⟨later, hevents, hlater⟩ := exists_events_solve settings ho hsome hneeds
    have hnot : Event.redundantRow row ∉ later :=
      fun h => absurd (hlater _ h).symm Bool.false_ne_true
    rw [hevents]
    simp [hnot]
  | false =>
    unfold solve
    simp [ho, hsome, hneeds, Recorded.mem_events_bind_iff, redundantRow_notMem_events_phaseTwo]

/-- A solve records each phase that it goes through. -/
theorem HasPhase.mem_events {o : Objective α} (ho : M.objective = some o)
    (hsome : M.constraints.isEmpty = false) {number : Nat} {phase : Phase α}
    (h : M.HasPhase settings number phase) : .phase number phase ∈ (M.solve settings).events := by
  have hsecond : ∀ initial phaseOneTableau earlier, .phase 2 (Phase.run settings initial) ∈
      (M.phaseTwo o settings initial phaseOneTableau earlier).events := by
    intro initial phaseOneTableau earlier
    unfold phaseTwo
    simp only [Recorded.mem_events_bind_iff, Recorded.events_record, List.mem_singleton, true_or]
  unfold solve
  simp only [ho, hsome, Bool.false_eq_true, if_false]
  cases h with
  | @one program initial hneeds hprogram hinitial =>
    rw [if_pos hneeds]
    refine (Recorded.mem_events_bind_iff _ _ _).2 (Or.inr ⟨(), rfl, ?_⟩)
    exact (Recorded.mem_events_bind_iff _ _ _).2
      (Or.inl (StandardForm.phase_mem_events_phaseOne hprogram hinitial))
  | @two initial restored iterations hneeds hone =>
    rw [if_pos hneeds]
    refine (Recorded.mem_events_bind_iff _ _ _).2 (Or.inr ⟨(), rfl, ?_⟩)
    exact (Recorded.mem_events_bind_iff _ _ _).2 (Or.inr ⟨_, hone, hsecond _ _ _⟩)
  | @only initial hskip hinitial =>
    rw [hskip, if_neg Bool.false_ne_true]
    refine (Recorded.mem_events_bind_iff _ _ _).2 (Or.inr ⟨(), rfl, ?_⟩)
    refine (Recorded.mem_events_bind_iff _ _ _).2 (Or.inr ⟨(), rfl, ?_⟩)
    exact (Recorded.mem_events_bind_iff _ _ _).2 (Or.inr
      ⟨_, (Recorded.result_guarded_eq_ok_iff _ _).2 hinitial, hsecond _ _ _⟩)

omit [Scalar α] in
/-- There is a value for each of the model's own variables. -/
theorem length_of_project_eq_ok {values own : List α} (h : M.project values = .ok own) :
    own.length = M.vars.length := by
  unfold project at h
  split at h
  · rename_i hle
    cases h
    exact List.length_take_of_le hle
  · exact absurd h nofun

/-- When phase two ends with an optimal solution, the solution shows the last tableau, and its
values are the assignment there, with the objective computed from the front of them. -/
theorem exists_of_phaseTwo_eq_ok {o : Objective α} {initial : Tableau α}
    {phaseOneTableau : Option (Tableau α)} {earlier : Nat} {s : Solution α}
    (h : (M.phaseTwo o settings initial phaseOneTableau earlier).result = .ok s)
    (hoptimal : s.isOptimal = true) :
    s.finalTableau = (Phase.run settings initial).last ∧ ∃ own value,
      s.verdict = .optimal (Phase.run settings initial).last.assignment value ∧
      M.project (Phase.run settings initial).last.assignment = .ok own ∧
      o.expression.evaluate own = .ok value := by
  unfold phaseTwo at h
  obtain ⟨-, -, h⟩ := (Recorded.result_bind_eq_ok_iff _ _ _).1 h
  split at h
  · exact absurd h nofun
  · exact absurd h nofun
  · -- An unbounded phase has no optimal solution.
    obtain ⟨-, -, h⟩ := (Recorded.result_bind_eq_ok_iff _ _ _).1 h
    cases h
    exact absurd hoptimal Bool.false_ne_true
  · obtain ⟨own, hown, h⟩ := (Recorded.result_bind_eq_ok_iff _ _ _).1 h
    obtain ⟨value, hvalue, h⟩ := (Recorded.result_bind_eq_ok_iff _ _ _).1 h
    obtain ⟨-, -, h⟩ := (Recorded.result_bind_eq_ok_iff _ _ _).1 h
    rw [Recorded.result_guarded_eq_ok_iff] at hown hvalue
    cases h
    exact ⟨rfl, own, value, rfl, hown, hvalue⟩

/-- The ways in which a solve of the model with an objective comes to a solution. -/
inductive Concludes (M : Model α) (settings : Settings α) (o : Objective α) : Solution α → Prop
  /-- Phase one finds a start for phase two. -/
  | feasible {initial restored iterations s}
      (hneeds : (StandardForm.ofModel M).needsPhaseOne = true)
      (hone : ((StandardForm.ofModel M).phaseOne settings).result =
        .ok (.feasible initial restored iterations))
      (htwo : (M.phaseTwo o settings restored (some initial) iterations).result = .ok s) :
      Concludes M settings o s
  /-- Phase one finds that there is none. -/
  | infeasible {initial last iterations}
      (hneeds : (StandardForm.ofModel M).needsPhaseOne = true)
      (hone : ((StandardForm.ofModel M).phaseOne settings).result =
        .ok (.infeasible initial last iterations)) :
      Concludes M settings o ⟨.infeasible, M.vars, initial, last, some initial, iterations⟩
  /-- With a slack for each constraint phase two comes first. -/
  | skipped {initial s} (hskip : (StandardForm.ofModel M).needsPhaseOne = false)
      (hinitial : (StandardForm.ofModel M).model.tableau settings.tolerance = .ok initial)
      (htwo : (M.phaseTwo o settings initial none 0).result = .ok s) : Concludes M settings o s

/-- A solution is come to in one of these ways, by a solve of a model with an objective and
constraints. -/
theorem concludes_of_solve_eq_ok {s : Solution α} (h : (M.solve settings).result = .ok s) :
    ∃ o, M.objective = some o ∧ M.constraints.isEmpty = false ∧ M.Concludes settings o s := by
  unfold solve at h
  split at h
  · exact absurd h nofun
  rename_i o ho
  split at h
  · exact absurd h nofun
  rename_i hempty
  refine ⟨o, ho, Bool.eq_false_iff.2 hempty, ?_⟩
  obtain ⟨-, -, h⟩ := (Recorded.result_bind_eq_ok_iff _ _ _).1 h
  dsimp only at h
  split at h
  · rename_i hneeds
    obtain ⟨found, hone, h⟩ := (Recorded.result_bind_eq_ok_iff _ _ _).1 h
    cases found with
    | feasible initial restored iterations => exact .feasible hneeds hone h
    | infeasible initial last iterations =>
      obtain ⟨-, -, h⟩ := (Recorded.result_bind_eq_ok_iff _ _ _).1 h
      cases h
      exact .infeasible hneeds hone
  · rename_i hskip
    obtain ⟨-, -, h⟩ := (Recorded.result_bind_eq_ok_iff _ _ _).1 h
    obtain ⟨initial, hinitial, h⟩ := (Recorded.result_bind_eq_ok_iff _ _ _).1 h
    rw [Recorded.result_guarded_eq_ok_iff] at hinitial
    exact .skipped (Bool.eq_false_iff.2 hskip) hinitial h

/-- The solution of a phase two shows its first tableau, the tableau before phase one, and the
pivots of both. -/
theorem fields_of_phaseTwo_eq_ok {o : Objective α} {initial : Tableau α}
    {phaseOneTableau : Option (Tableau α)} {earlier : Nat} {s : Solution α}
    (h : (M.phaseTwo o settings initial phaseOneTableau earlier).result = .ok s) :
    s.initialTableau = initial ∧ s.phaseOneTableau = phaseOneTableau ∧
      s.iterations = earlier + (Phase.run settings initial).iterations := by
  unfold phaseTwo at h
  obtain ⟨-, -, h⟩ := (Recorded.result_bind_eq_ok_iff _ _ _).1 h
  split at h
  · exact absurd h nofun
  · exact absurd h nofun
  · obtain ⟨-, -, h⟩ := (Recorded.result_bind_eq_ok_iff _ _ _).1 h
    cases h
    exact ⟨rfl, rfl, rfl⟩
  · obtain ⟨own, -, h⟩ := (Recorded.result_bind_eq_ok_iff _ _ _).1 h
    obtain ⟨value, -, h⟩ := (Recorded.result_bind_eq_ok_iff _ _ _).1 h
    obtain ⟨-, -, h⟩ := (Recorded.result_bind_eq_ok_iff _ _ _).1 h
    cases h
    exact ⟨rfl, rfl, rfl⟩

/-- An optimal solution comes of a phase two: it shows the last tableau, and its values are the
assignment there, with the objective computed from the front of them. -/
theorem exists_phase_of_isOptimal {s : Solution α} (h : (M.solve settings).result = .ok s)
    (hoptimal : s.isOptimal = true) :
    ∃ o phase own value, M.objective = some o ∧ M.constraints.isEmpty = false ∧
      M.HasPhase settings 2 phase ∧ s.finalTableau = phase.last ∧
      s.verdict = .optimal phase.last.assignment value ∧
      M.project phase.last.assignment = .ok own ∧ o.expression.evaluate own = .ok value := by
  obtain ⟨o, ho, hsome, hconcludes⟩ := concludes_of_solve_eq_ok h
  cases hconcludes with
  | feasible hneeds hone htwo =>
    obtain ⟨hfinal, own, value, hend⟩ := exists_of_phaseTwo_eq_ok htwo hoptimal
    exact ⟨o, _, own, value, ho, hsome, .two hneeds hone, hfinal, hend⟩
  | infeasible => exact absurd hoptimal Bool.false_ne_true
  | skipped hskip hinitial htwo =>
    obtain ⟨hfinal, own, value, hend⟩ := exists_of_phaseTwo_eq_ok htwo hoptimal
    exact ⟨o, _, own, value, ho, hsome, .only hskip hinitial, hfinal, hend⟩

end Model

end LinProg
