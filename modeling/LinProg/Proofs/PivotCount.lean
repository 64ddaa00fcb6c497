import LinProg.Proofs.Building
import LinProg.Proofs.Course
import LinProg.Proofs.PhaseRun

/-!
# The pivots of a solve

The events of a solve tell of every pivot that it makes: those of a phase stand in its steps, and
each artificial column that is driven out by way of another column takes one more. The solution
counts the pivots of the phases only. So there are as many pivots as its `iterations` and the
artificial columns that were driven out in this way (`Model.pivots_of_solve`), and one such column
makes the count fall short (`Model.iterations_lt_pivots_degenerate`).

That the events leave no pivot out is part of what is proved: the pivots at their places, one after
the other, make the final tableau of the first one, with nothing in between but rows that are
cleared and the objective that is restored (`Tableau.LeadsTo`). `Tallies` says both of a stretch of
events. There is a lemma for each kind of event, and a solve is put together by `Tallies.bind`. -/

namespace LinProg

variable {α : Type}

/-! ## The pivots that events tell of -/

namespace Event

/-- The places of the pivots that an event tells of, each a row and a column. -/
def pivots : Event α → List (ℕ × ℕ)
  | phase _ p => p.steps.map fun step => (step.row, step.column)
  | drivenOut _ row replacement => [(row, replacement)]
  | _ => []

/-- An artificial column was driven out by way of another column. -/
def isDrivenOut : Event α → Bool
  | drivenOut .. => true
  | _ => false

end Event

/-- The places of the pivots that events tell of, in order. -/
def pivotsOf (events : List (Event α)) : List (ℕ × ℕ) :=
  events.flatMap Event.pivots

variable [Scalar α]

/-- Pivots at the given places, one after the other, lead from a tableau to another one. In between
rows are cleared and an objective is restored. -/
inductive Tableau.LeadsTo : Tableau α → List (ℕ × ℕ) → Tableau α → Prop
  /-- Without a change the tableau stays. -/
  | stay (T : Tableau α) : LeadsTo T [] T
  /-- A pivot, and what comes after it. -/
  | pivot {T V U : Tableau α} {row column : ℕ} {places : List (ℕ × ℕ)}
      (hpivot : T.pivot row column = .ok V) (hrest : LeadsTo V places U) :
      LeadsTo T ((row, column) :: places) U
  /-- A row is cleared, without a pivot. -/
  | clear {T V U : Tableau α} {row : ℕ} {places : List (ℕ × ℕ)}
      (hclear : T.clearRow row = .ok V) (hrest : LeadsTo V places U) : LeadsTo T places U
  /-- The objective is restored, without a pivot. -/
  | restore {T V U : Tableau α} {tolerance : α} {model : Model α} {artificials : List Artificial}
      {places : List (ℕ × ℕ)} (hrestore : T.restore tolerance model artificials = .ok V)
      (hrest : LeadsTo V places U) : LeadsTo T places U

/-- Where the pivots lead, further pivots go on. -/
theorem Tableau.LeadsTo.trans {T U V : Tableau α} {places later : List (ℕ × ℕ)}
    (h : T.LeadsTo places U) (hlater : U.LeadsTo later V) : T.LeadsTo (places ++ later) V := by
  induction h with
  | stay T => exact hlater
  | pivot hpivot _ ih => exact .pivot hpivot (ih hlater)
  | clear hclear _ ih => exact .clear hclear (ih hlater)
  | restore hrestore _ ih => exact .restore hrestore (ih hlater)

/-- The steps of a run lead to its last tableau. -/
theorem Phase.Runs.leadsTo {settings : Settings α} {remaining streak : ℕ} {rule : PivotRule}
    {T : Tableau α} {steps : List (PivotStep α)} {ending : PhaseEnd α}
    (h : Runs settings remaining rule streak T steps ending) :
    T.LeadsTo (steps.map fun step => (step.row, step.column)) (lastFrom T steps) := by
  induction h with
  | optimal | unbounded | exhausted | failed => exact .stay _
  | step _ hchosen _ _ _ ih =>
    rw [lastFrom_cons]
    exact .pivot hchosen.pivot ih

/-! ## Counted pivots -/

/-- The events tell of pivots that lead from `T` to `U`. So many are counted, and the others drive
artificial columns out. -/
structure Tallies (T : Tableau α) (events : List (Event α)) (counted : ℕ) (U : Tableau α) :
    Prop where
  /-- The pivots lead from the one tableau to the other. -/
  leadsTo : T.LeadsTo (pivotsOf events) U
  /-- All pivots are counted or drive an artificial column out. -/
  length_pivots : (pivotsOf events).length = counted + events.countP Event.isDrivenOut

namespace Tallies

variable {T U V : Tableau α} {events later : List (Event α)} {counted n : ℕ}

/-- Without events there are no pivots. -/
theorem nil (T : Tableau α) : Tallies T [] 0 T :=
  ⟨.stay T, rfl⟩

/-- The events of two stretches of a solve. -/
theorem append (h : Tallies T events counted U) (hlater : Tallies U later n V) :
    Tallies T (events ++ later) (counted + n) V := by
  refine ⟨?_, ?_⟩
  · rw [pivotsOf, List.flatMap_append]
    exact h.leadsTo.trans hlater.leadsTo
  · have hfirst := h.length_pivots
    have hsecond := hlater.length_pivots
    unfold pivotsOf at hfirst hsecond ⊢
    rw [List.flatMap_append, List.length_append, List.countP_append, hfirst, hsecond]
    omega

/-- A computation that goes on after another one. -/
theorem bind {β γ : Type} {first : Recorded α β} {next : β → Recorded α γ} {b : β}
    (hb : first.result = .ok b) (h : Tallies T first.events counted U)
    (hnext : Tallies U (next b).events n V) :
    Tallies T (first >>= next).events (counted + n) V := by
  rw [Recorded.events_bind_of_ok next hb]
  exact h.append hnext

/-- A computation that tells of no pivot does not count. -/
theorem of_quiet {β γ : Type} {first : Recorded α β} {next : β → Recorded α γ} {b : β}
    (hb : first.result = .ok b) (hpivots : pivotsOf first.events = [])
    (hout : first.events.countP Event.isDrivenOut = 0) (hnext : Tallies T (next b).events n U) :
    Tallies T (first >>= next).events n U := by
  have hfirst : Tallies T first.events 0 T := by
    refine ⟨?_, ?_⟩
    · rw [hpivots]
      exact .stay T
    · rw [hpivots, hout]
      rfl
  have hboth := hfirst.bind hb hnext
  rwa [Nat.zero_add] at hboth

/-- The pivots of a phase are all counted. -/
theorem phase (settings : Settings α) (T : Tableau α) (number : ℕ) :
    Tallies T [.phase number (Phase.run settings T)] (Phase.run settings T).iterations
      (Phase.run settings T).last := by
  refine ⟨?_, ?_⟩
  · rw [pivotsOf, List.flatMap_singleton]
    exact (Phase.runs_pivots settings settings.maxIterations settings.rule 0 T).leadsTo
  · rw [pivotsOf, List.flatMap_singleton]
    exact List.length_map _

/-- The pivot that drives an artificial column out is not counted, and a row that is cleared takes
none. -/
theorem driveOut {tolerance : α} {first row column : ℕ}
    (h : (T.driveOut tolerance first row column).result = .ok U) :
    Tallies T (T.driveOut tolerance first row column).events 0 U := by
  cases hfind : (List.range first).find? fun j =>
      Scalar.isSignificant tolerance (T.entry row j) with
  | some replacement =>
    rw [Tableau.driveOut_of_find?_eq_some hfind] at h ⊢
    have hpivot := (Recorded.result_guarded_eq_ok_iff _ _).1 h
    exact ⟨.pivot hpivot (.stay U), rfl⟩
  | none =>
    rw [Tableau.driveOut_of_find?_eq_none hfind] at h ⊢
    have hclear := (Recorded.result_guarded_eq_ok_iff _ _).1 h
    exact ⟨.clear hclear (.stay U), rfl⟩

/-- What holds of each round of a loop that changes a tableau holds of the loop. -/
theorem foldlM {γ : Type} {round : Tableau α → γ → Recorded α (Tableau α)}
    (hround : ∀ {T x U}, (round T x).result = .ok U → Tallies T (round T x).events 0 U)
    {xs : List γ} (h : (xs.foldlM round T).result = .ok U) :
    Tallies T (xs.foldlM round T).events 0 U := by
  induction xs generalizing T with
  | nil =>
    cases h
    exact .nil _
  | cons x xs ih =>
    rw [List.foldlM_cons] at h ⊢
    obtain ⟨V, hV, hrest⟩ := (Recorded.result_bind_eq_ok_iff _ _ _).1 h
    refine .bind (n := 0) hV (hround hV) ?_
    exact ih hrest

/-- Of the pivots that drive all artificial columns out none is counted. -/
theorem expunge {tolerance : α} {artificials : List Artificial}
    (h : (T.expunge tolerance artificials).result = .ok U) :
    Tallies T (T.expunge tolerance artificials).events 0 U := by
  refine foldlM (fun {V p W} hround => ?_) h
  obtain ⟨row, column?⟩ := p
  cases column? with
  | none =>
    cases hround
    exact .nil V
  | some column =>
    dsimp only at hround ⊢
    split at hround
    · rename_i hle
      rw [if_pos hle]
      exact driveOut hround
    · rename_i hlt
      rw [if_neg hlt]
      cases hround
      exact .nil V

end Tallies

/-! ## The solve -/

/-- The tableau that phase one ends with: the restored one, or the last one when there is no
feasible point. -/
def PhaseOneResult.reached : PhaseOneResult α → Tableau α
  | feasible _ restored _ => restored
  | infeasible _ last _ => last

/-- Phase one counts the pivots of its phase, and not those that drive artificial columns out. -/
theorem StandardForm.tallies_phaseOne {form : StandardForm α} {settings : Settings α}
    {found : PhaseOneResult α} (h : (form.phaseOne settings).result = .ok found) :
    Tallies found.initial (form.phaseOne settings).events found.iterations found.reached := by
  unfold phaseOne at h ⊢
  obtain ⟨program, hprogram, h⟩ := (Recorded.result_bind_eq_ok_iff _ _ _).1 h
  obtain ⟨-, -, h⟩ := (Recorded.result_bind_eq_ok_iff _ _ _).1 h
  obtain ⟨T, hT, h⟩ := (Recorded.result_bind_eq_ok_iff _ _ _).1 h
  obtain ⟨-, -, h⟩ := (Recorded.result_bind_eq_ok_iff _ _ _).1 h
  refine .of_quiet hprogram rfl rfl (.of_quiet (Recorded.result_record _) rfl rfl
    (.of_quiet hT rfl rfl ?_))
  split at h
  · exact absurd h nofun
  · exact absurd h nofun
  · exact absurd h nofun
  · rename_i hending
    obtain ⟨levels, hlevels, h⟩ := (Recorded.result_bind_eq_ok_iff _ _ _).1 h
    split at h
    · rename_i hleft
      obtain ⟨-, -, h⟩ := (Recorded.result_bind_eq_ok_iff _ _ _).1 h
      cases h
      refine .bind (n := 0) (Recorded.result_record _) (.phase settings T 1) ?_
      rw [hending]
      refine .of_quiet hlevels rfl rfl ?_
      rw [if_pos hleft]
      exact .of_quiet (Recorded.result_record _) rfl rfl (.nil _)
    · rename_i hnone
      obtain ⟨expunged, hexpunged, h⟩ := (Recorded.result_bind_eq_ok_iff _ _ _).1 h
      obtain ⟨restored, hrestored, h⟩ := (Recorded.result_bind_eq_ok_iff _ _ _).1 h
      cases h
      -- No pivot after those of the phase is counted.
      refine .bind (n := 0) (Recorded.result_record _) (.phase settings T 1) ?_
      rw [hending]
      refine .of_quiet hlevels rfl rfl ?_
      rw [if_neg hnone]
      refine .bind (n := 0) hexpunged (.expunge hexpunged) (.of_quiet hrestored rfl rfl ?_)
      exact ⟨.restore ((Recorded.result_guarded_eq_ok_iff _ _).1 hrestored) (.stay _), rfl⟩

namespace Model

variable {M : Model α} {settings : Settings α}

/-- Phase two counts the pivots of its phase, and there are no others. -/
theorem tallies_phaseTwo {o : Objective α} {initial : Tableau α}
    {phaseOneTableau : Option (Tableau α)} {earlier : ℕ} {s : Solution α}
    (h : (M.phaseTwo o settings initial phaseOneTableau earlier).result = .ok s) :
    Tallies initial (M.phaseTwo o settings initial phaseOneTableau earlier).events
      (Phase.run settings initial).iterations s.finalTableau := by
  unfold phaseTwo at h ⊢
  obtain ⟨-, -, h⟩ := (Recorded.result_bind_eq_ok_iff _ _ _).1 h
  split at h
  · exact absurd h nofun
  · exact absurd h nofun
  · rename_i hending
    obtain ⟨-, -, h⟩ := (Recorded.result_bind_eq_ok_iff _ _ _).1 h
    cases h
    refine .bind (n := 0) (Recorded.result_record _) (.phase settings initial 2) ?_
    rw [hending]
    exact .of_quiet (Recorded.result_record _) rfl rfl (.nil _)
  · rename_i hending
    obtain ⟨own, hown, h⟩ := (Recorded.result_bind_eq_ok_iff _ _ _).1 h
    obtain ⟨value, hvalue, h⟩ := (Recorded.result_bind_eq_ok_iff _ _ _).1 h
    obtain ⟨-, -, h⟩ := (Recorded.result_bind_eq_ok_iff _ _ _).1 h
    cases h
    refine .bind (n := 0) (Recorded.result_record _) (.phase settings initial 2) ?_
    rw [hending]
    exact .of_quiet hown rfl rfl (.of_quiet hvalue rfl rfl
      (.of_quiet (Recorded.result_record _) rfl rfl (.nil _)))

/-- A solve counts the pivots of its phases. -/
theorem tallies_solve {s : Solution α} (h : (M.solve settings).result = .ok s) :
    Tallies (s.phaseOneTableau.getD s.initialTableau) (M.solve settings).events s.iterations
      s.finalTableau := by
  unfold solve at h ⊢
  split at h
  · exact absurd h nofun
  rename_i o _
  split at h
  · exact absurd h nofun
  rename_i hsome
  rw [if_neg hsome]
  obtain ⟨-, -, h⟩ := (Recorded.result_bind_eq_ok_iff _ _ _).1 h
  refine .of_quiet (Recorded.result_record _) rfl rfl ?_
  dsimp only at h ⊢
  split at h
  · rename_i hneeds
    rw [if_pos hneeds]
    obtain ⟨found, hone, h⟩ := (Recorded.result_bind_eq_ok_iff _ _ _).1 h
    have hfirst := StandardForm.tallies_phaseOne hone
    cases found with
    | feasible initial restored iterations =>
      obtain ⟨-, hphaseOne, hiterations⟩ := fields_of_phaseTwo_eq_ok h
      rw [hphaseOne, hiterations]
      exact .bind hone hfirst (tallies_phaseTwo h)
    | infeasible initial last iterations =>
      obtain ⟨-, -, h⟩ := (Recorded.result_bind_eq_ok_iff _ _ _).1 h
      cases h
      exact .bind (n := 0) hone hfirst (.of_quiet (Recorded.result_record _) rfl rfl (.nil _))
  · rename_i hskip
    rw [if_neg hskip]
    obtain ⟨-, -, h⟩ := (Recorded.result_bind_eq_ok_iff _ _ _).1 h
    obtain ⟨initial, hinitial, h⟩ := (Recorded.result_bind_eq_ok_iff _ _ _).1 h
    obtain ⟨hstart, hphaseOne, hiterations⟩ := fields_of_phaseTwo_eq_ok h
    rw [hphaseOne, hstart, hiterations, Nat.zero_add]
    exact .of_quiet (Recorded.result_record _) rfl rfl
      (.of_quiet hinitial rfl rfl (tallies_phaseTwo h))

/-- The pivots that a solve records lead from its first tableau to its final one. They are those
that the solution counts and those that drive artificial columns out, which it does not count. -/
theorem pivots_of_solve {s : Solution α} (h : (M.solve settings).result = .ok s) :
    (s.phaseOneTableau.getD s.initialTableau).LeadsTo (pivotsOf (M.solve settings).events)
      s.finalTableau ∧
    (pivotsOf (M.solve settings).events).length =
      s.iterations + (M.solve settings).events.countP Event.isDrivenOut :=
  ⟨(tallies_solve h).leadsTo, (tallies_solve h).length_pivots⟩

/-- Make `y` large where `x + y` is two, which is said twice, and `-z` is zero. -/
def leftoverCalls : List (Call Float) :=
  let x : Variable := ⟨0, "x"⟩
  let y : Variable := ⟨1, "y"⟩
  let z : Variable := ⟨2, "z"⟩
  [.addVariable "x", .addVariable "y", .addVariable "z",
    .addConstraint ⟨[⟨1, x⟩, ⟨1, y⟩], 0⟩ .equal 2, .addConstraint ⟨[⟨2, x⟩, ⟨2, y⟩], 0⟩ .equal 4,
    .addConstraint ⟨[⟨-1, z⟩], 0⟩ .equal 0, .maximize ⟨[⟨1, y⟩], 0⟩]

/-- Of the three pivots of the leftover model the two of the phases are counted. -/
theorem pivots_of_solve_leftover :
    let M : Model Float := built "leftover" leftoverCalls
    ∃ s, (M.solve Settings.standard).result = .ok s ∧ s.iterations = 2 ∧
      (s.phaseOneTableau.getD s.initialTableau).LeadsTo
        (pivotsOf (M.solve Settings.standard).events) s.finalTableau ∧
      (pivotsOf (M.solve Settings.standard).events).length =
        s.iterations + (M.solve Settings.standard).events.countP Event.isDrivenOut ∧
      pivotsOf (M.solve Settings.standard).events = [(1, 0), (3, 2), (1, 1)] := by
  intro M
  have hresult : (match (M.solve Settings.standard).result with
      | .ok s => decide (s.iterations = 2) &&
          decide (pivotsOf (M.solve Settings.standard).events = [(1, 0), (3, 2), (1, 1)])
      | .error _ => false) = true := by
    decide +kernel
  split at hresult
  · rename_i s hs
    simp only [Bool.and_eq_true, decide_eq_true_eq] at hresult
    obtain ⟨hiterations, hpivots⟩ := hresult
    obtain ⟨hleads, hlength⟩ := pivots_of_solve hs
    exact ⟨s, hs, hiterations, hleads, hlength, hpivots⟩
  · exact absurd hresult Bool.false_ne_true

/-- Make `x` large where `-x` is zero. -/
def degenerateCalls : List (Call Float) :=
  let x : Variable := ⟨0, "x"⟩
  [.addVariable "x", .addConstraint ⟨[⟨-1, x⟩], 0⟩ .equal 0, .maximize ⟨[⟨1, x⟩], 0⟩]

/-- The solve of the degenerate model makes one pivot and counts none. -/
theorem iterations_lt_pivots_degenerate :
    let M : Model Float := built "degenerate" degenerateCalls
    ∃ s, (M.solve Settings.standard).result = .ok s ∧ s.isOptimal = true ∧ s.iterations = 0 ∧
      pivotsOf (M.solve Settings.standard).events = [(1, 0)] := by
  intro M
  have hresult : (match (M.solve Settings.standard).result with
      | .ok s => s.isOptimal && decide (s.iterations = 0) &&
          decide (pivotsOf (M.solve Settings.standard).events = [(1, 0)])
      | .error _ => false) = true := by
    decide +kernel
  split at hresult
  · rename_i s hs
    simp only [Bool.and_eq_true, decide_eq_true_eq] at hresult
    obtain ⟨⟨hoptimal, hiterations⟩, hpivots⟩ := hresult
    exact ⟨s, hs, hoptimal, hiterations, hpivots⟩
  · exact absurd hresult Bool.false_ne_true

end Model

end LinProg
