import LinProg.Proofs.Correspondence
import LinProg.Proofs.Trail

/-!
# Solves that agree

When each tableau that a solve without tolerance goes through is apart from a tolerance, for the
numbers compared there, the solve under that tolerance goes through the same matrices and ends in
the same way, up to the values of columns that nobody reads (`Model.solve_withTolerance`). Choices
and pivots agree by the lemmas about `Tableau.Apart`, and what does not look at the tolerance, such
as building, pricing and clearing, just takes it over. Phase one and phase two are chains of such
computations. -/

namespace LinProg

/-! ## Phase one -/

namespace Tableau

variable {T U : Tableau ℚ} {read : ℕ → Bool} {t : ℚ}

/-- The tableau of a matrix takes the tolerance over. -/
theorem ofMatrix_withTolerance {n : ℕ} (model : Model ℚ) (matrix : DenseMatrix ℚ n) (u t : ℚ) :
    ofMatrix model matrix t = (ofMatrix model matrix u).map fun T => T.withTolerance t := by
  unfold ofMatrix
  split <;> rfl

/-- Pricing out does not look at the tolerance. -/
theorem priceOut_withTolerance (T : Tableau ℚ) (t : ℚ) (row column : ℕ) :
    (T.withTolerance t).priceOut row column =
      (T.priceOut row column).map fun U => U.withTolerance t := by
  show _ = (fun U => U.withTolerance t) <$> T.priceOut row column
  unfold priceOut
  simp only [map_bind, map_pure]
  rfl

/-- Clearing a row does not look at the tolerance. -/
theorem clearRow_withTolerance (T : Tableau ℚ) (t : ℚ) (row : ℕ) :
    (T.withTolerance t).clearRow row = (T.clearRow row).map fun U => U.withTolerance t := by
  show _ = (fun U => U.withTolerance t) <$> T.clearRow row
  unfold clearRow
  simp only [map_bind, map_pure]
  rfl

/-- The value of a column that is read is apart from zero. -/
theorem Apart.getElem?_assignment (h : T.Apart (T.assignmentNumbers read) t) {column : ℕ}
    (hread : read column = true) {x : ℚ} (hx : T.assignment[column]? = some x) :
    ApartFromZero t x := by
  have hvalue : T.basicPoint column = x := by
    rw [← entry_assignment h.tolerance_eq]
    unfold Row.entry
    rw [hx]
    rfl
  rw [← hvalue]
  by_cases hbasic : ∃ row, T.basicColumn row = some column
  · obtain ⟨row, hrow⟩ := hbasic
    rw [basicPoint_of_basicColumn hrow]
    have hmem := mem_constraintRows_of_basicColumn (tolerance_lt_half h.tolerance_eq) hrow
    exact h.basicRhs hmem hrow hread
  · exact Or.inl (basicPoint_of_forall_ne fun row hrow => hbasic ⟨row, hrow⟩)

/-- The values of the artificial variables are those of their columns. -/
theorem exists_getElem?_of_artificialValues {artificials : List Artificial} {levels : List ℚ}
    (h : T.artificialValues artificials = .ok levels) :
    ∀ x ∈ levels, ∃ a ∈ artificials, T.assignment[a.column]? = some x := by
  intro x hx
  obtain ⟨artificial, hmem, hlevel⟩ := exists_of_mem_mapM h x hx
  split at hlevel
  · rename_i value hvalue
    cases hlevel
    exact ⟨artificial, hmem, hvalue⟩
  · exact absurd hlevel nofun

/-- The artificial variables have the same values. -/
theorem Apart.artificialValues_eq (h : T.Apart (T.assignmentNumbers read) t)
    {artificials : List Artificial} (hread : ∀ a ∈ artificials, read a.column = true) :
    (T.withTolerance t).artificialValues artificials = T.artificialValues artificials := by
  unfold artificialValues
  refine mapM_congr_of_mem fun a ha => ?_
  rw [h.getElem?_assignment_eq (hread a ha)]

/-- The same artificial variables are left. -/
theorem Apart.any_level_eq (h : T.Apart (T.assignmentNumbers read) t)
    {artificials : List Artificial} (hread : ∀ a ∈ artificials, read a.column = true)
    {levels : List ℚ} (hlevels : T.artificialValues artificials = .ok levels) :
    (levels.any fun level => t < level) = levels.any fun level => 0 < level := by
  rw [Bool.eq_iff_iff, List.any_eq_true, List.any_eq_true]
  refine exists_congr fun x => and_congr_right fun hx => ?_
  obtain ⟨a, ha, hlevel⟩ := exists_getElem?_of_artificialValues hlevels x hx
  rw [decide_eq_true_iff, decide_eq_true_iff]
  exact (h.getElem?_assignment (hread a ha) hlevel).lt_iff h.nonneg

/-- An artificial column is driven out in the same way. -/
theorem driveOut_withTolerance {first row column : ℕ} {later : List (Event ℚ)}
    (h : ∀ p ∈ T.replay ((T.driveOut 0 first row column).events ++ later), p.1.Apart p.2 t) :
    ((T.withTolerance t).driveOut t first row column).result =
      (T.driveOut 0 first row column).result.map fun U => U.withTolerance t := by
  cases hfind : (List.range first).find? fun j => Scalar.isSignificant 0 (T.entry row j) with
  | some replacement =>
    rw [driveOut_of_find?_eq_some hfind] at h ⊢
    have hpivot : T.Apart [T.entry row replacement] t := h _ List.mem_cons_self
    -- The same column takes the place: the entries before it are zero.
    have hsame : (List.range first).find? (fun j => Scalar.isSignificant t (T.entry row j)) =
        some replacement := by
      obtain ⟨hsignificant, hmem, hbefore⟩ := List.find?_range_eq_some.1 hfind
      simp only [Bool.not_eq_true'] at hbefore
      refine List.find?_range_eq_some.2 ⟨?_, hmem, fun j hj => ?_⟩
      · rw [(hpivot.apart _ List.mem_cons_self).isSignificant_eq hpivot.nonneg]
        exact hsignificant
      · rw [isSignificant_eq_false_of_zero hpivot.nonneg (hbefore j hj)]
        rfl
    rw [driveOut_of_find?_eq_some (T := T.withTolerance t) hsame]
    exact Recorded.result_guarded_map hpivot.pivot_eq
  | none =>
    rw [driveOut_of_find?_eq_none hfind] at h ⊢
    have hnonneg : 0 ≤ t := (h _ List.mem_cons_self).nonneg
    have hsame : (List.range first).find? (fun j => Scalar.isSignificant t (T.entry row j)) =
        none := by
      simp only [List.find?_eq_none, Bool.not_eq_true] at hfind ⊢
      exact fun j hj => isSignificant_eq_false_of_zero hnonneg (hfind j hj)
    rw [driveOut_of_find?_eq_none (T := T.withTolerance t) hsame]
    exact Recorded.result_guarded_map (T.clearRow_withTolerance t row)

/-- A row is gone over in the same way. -/
theorem expungeRow_withTolerance {first : ℕ} {p : ℕ × Option ℕ} {later : List (Event ℚ)}
    (h : ∀ q ∈ T.replay ((expungeRow 0 first T p).events ++ later), q.1.Apart q.2 t) :
    (expungeRow t first (T.withTolerance t) p).result =
      (expungeRow 0 first T p).result.map fun U => U.withTolerance t := by
  obtain ⟨row, column?⟩ := p
  cases column? with
  | none => rfl
  | some column =>
    unfold expungeRow at h ⊢
    dsimp only at h ⊢
    split
    · rename_i hartificial
      rw [if_pos hartificial] at h
      exact driveOut_withTolerance h
    · rfl

/-- The rows are gone over in the same way when all tableaux on the way are apart. -/
theorem foldlM_expungeRow_withTolerance {first : ℕ} (ps : List (ℕ × Option ℕ))
    (h : ∀ q ∈ T.replay (ps.foldlM (expungeRow 0 first) T).events, q.1.Apart q.2 t) :
    (ps.foldlM (expungeRow t first) (T.withTolerance t)).result =
      (ps.foldlM (expungeRow 0 first) T).result.map fun U => U.withTolerance t := by
  induction ps generalizing T with
  | nil => rfl
  | cons p ps ih =>
    rw [List.foldlM_cons] at h
    rw [List.foldlM_cons, List.foldlM_cons]
    obtain ⟨later, hlater⟩ := Recorded.exists_events_bind (expungeRow 0 first T p)
      fun V => ps.foldlM (expungeRow 0 first) V
    refine Recorded.result_bind_map (expungeRow_withTolerance (hlater ▸ h)) fun V hV => ?_
    rw [Recorded.events_bind_of_ok _ hV] at h
    have hreplay := T.replay_foldl_subset (expungeRow 0 first T p).events
      (ps.foldlM (expungeRow 0 first) V).events
    rw [foldl_after_expungeRow hV] at hreplay
    exact ih fun q hq => h q (hreplay hq)

/-- The artificial columns are driven out in the same way when all tableaux on the way are apart. -/
theorem expunge_withTolerance {artificials : List Artificial} (hbasis : T.Apart T.basisNumbers t)
    (h : ∀ q ∈ T.replay (T.expunge 0 artificials).events, q.1.Apart q.2 t) :
    ((T.withTolerance t).expunge t artificials).result =
      (T.expunge 0 artificials).result.map fun U => U.withTolerance t := by
  rw [expunge_eq_foldlM] at h
  rw [expunge_eq_foldlM, expunge_eq_foldlM, funext hbasis.basicColumn_eq]
  exact foldlM_expungeRow_withTolerance _ h

/-- The restored tableau takes the tolerance over. -/
theorem restore_withTolerance (T : Tableau ℚ) (model : Model ℚ) (artificials : List Artificial)
    (u t : ℚ) :
    T.restore t model artificials =
      (T.restore u model artificials).map fun U => U.withTolerance t := by
  show _ = (fun U => U.withTolerance t) <$> T.restore u model artificials
  unfold restore
  simp only [map_bind]
  refine bind_congr fun remaining => bind_congr fun objective => bind_congr fun matrix => ?_
  rw [ofMatrix_withTolerance model matrix u t]
  refine (bind_map_left _ (ofMatrix model matrix u) _).trans (bind_congr fun R => ?_)
  refine foldlM_map (f := fun U => U.withTolerance t) (fun R p => ?_) _ R
  obtain ⟨row, column?⟩ := p
  cases column? with
  | none => rfl
  | some column => exact R.priceOut_withTolerance t row column

/-- The objective is restored in the same way. -/
theorem Apart.restore_eq (h : T.Apart T.basisNumbers t) (model : Model ℚ)
    (artificials : List Artificial) :
    (T.withTolerance t).restore t model artificials =
      (T.restore 0 model artificials).map fun U => U.withTolerance t := by
  rw [← T.restore_withTolerance model artificials 0 t]
  unfold restore
  rw [h.basis_eq]
  rfl

/-- A computed tableau that takes a tolerance over has that tolerance. -/
theorem tolerance_of_eq_map {ε : Type} {result : Except ε (Tableau ℚ)}
    (h : result = result.map fun T => T.withTolerance t) (hT : result = .ok T) :
    T.tolerance = t := by
  rw [hT] at h
  exact congrArg tolerance (Except.ok.inj h)

end Tableau

/-- The first tableau of a model takes the tolerance over. -/
theorem Model.tableau_withTolerance (M : Model ℚ) (u t : ℚ) :
    M.tableau t = (M.tableau u).map fun T => T.withTolerance t := by
  show _ = (fun T => T.withTolerance t) <$> M.tableau u
  unfold tableau
  simp only [map_bind]
  refine bind_congr fun objective => bind_congr fun constraints => bind_congr fun matrix => ?_
  exact Tableau.ofMatrix_withTolerance M matrix u t

/-- The first tableau of phase one takes the tolerance over. -/
theorem PhaseOneProgram.tableau_withTolerance (program : PhaseOneProgram ℚ) (u t : ℚ) :
    program.tableau t = (program.tableau u).map fun T => T.withTolerance t := by
  show _ = (fun T => T.withTolerance t) <$> program.tableau u
  unfold tableau
  rw [program.model.tableau_withTolerance u t]
  simp only [map_bind]
  refine (bind_map_left _ (program.model.tableau u) _).trans (bind_congr fun T => ?_)
  exact foldlM_map (f := fun T : Tableau ℚ => T.withTolerance t)
    (fun T (artificial : Artificial) =>
      T.priceOut_withTolerance t artificial.row artificial.column) _ T

/-- The same end of phase one, with another tolerance in the tableaux. -/
def PhaseOneResult.withTolerance (tolerance : ℚ) : PhaseOneResult ℚ → PhaseOneResult ℚ
  | .feasible initial restored iterations =>
    .feasible (initial.withTolerance tolerance) (restored.withTolerance tolerance) iterations
  | .infeasible initial last iterations =>
    .infeasible (initial.withTolerance tolerance) (last.withTolerance tolerance) iterations

section

variable {settings : Settings ℚ} {reads : ℕ → ℕ → Bool} {t : ℚ} (htol : settings.tolerance = 0)

include htol

/-- Phase one ends in the same way when all its tableaux are apart, and the values of the artificial
variables are among those that are read. -/
theorem StandardForm.phaseOne_withTolerance {form : StandardForm ℚ}
    (hreads : ∀ program, form.phaseOneProgram = .ok program →
      ∀ a ∈ program.artificials, reads 1 a.column = true)
    (h : ∀ p ∈ trail reads settings.rule (form.phaseOne settings).events, p.1.Apart p.2 t) :
    (form.phaseOne (settings.withTolerance t)).result =
      (form.phaseOne settings).result.map fun found => found.withTolerance t := by
  have hphases : ∀ program initial, form.phaseOneProgram = .ok program →
      program.tableau settings.tolerance = .ok initial →
      ∀ p ∈ (Phase.run settings initial).stages settings.rule,
        p.2.Apart (p.2.compared (reads 1) p.1) t :=
    fun program initial hprogram hinitial p hp =>
      h _ (stage_mem_trail reads settings.rule (phase_mem_events_phaseOne hprogram hinitial) hp)
  unfold phaseOne
  -- The program does not depend on the settings, and its first tableau takes the tolerance over.
  refine Recorded.result_bind_map_right fun program hprogram => ?_
  rw [Recorded.result_checked_eq_ok_iff] at hprogram
  refine Recorded.result_bind_map_right fun _ _ => ?_
  refine Recorded.result_bind_map (f := fun T : Tableau ℚ => T.withTolerance t)
    (Recorded.result_guarded_map
      (program.tableau_withTolerance settings.tolerance t)) fun initial hinitial => ?_
  rw [Recorded.result_guarded_eq_ok_iff] at hinitial
  have hstages := hphases _ _ hprogram hinitial
  dsimp only
  rw [Phase.run_withTolerance htol hstages, Phase.iterations_withTolerance,
    Phase.last_withTolerance]
  -- The phases that are recorded differ in the tolerance of their tableaux only.
  refine Recorded.result_bind_map (f := id) rfl fun _ _ => ?_
  dsimp only [Phase.withTolerance]
  cases hending : (Phase.run settings initial).ending with
  | failed failure => rfl
  | exhausted => rfl
  | unbounded column => rfl
  | optimal =>
    have hlast := Phase.apart_last_of_optimal hstages hending
    have hread := hreads program hprogram
    dsimp only
    rw [hlast.artificialValues_eq hread]
    refine Recorded.result_bind_map_right fun levels hlevels => ?_
    rw [Recorded.result_guarded_eq_ok_iff] at hlevels
    rw [show (settings.withTolerance t).tolerance = t from rfl, hlast.any_level_eq hread hlevels,
      htol]
    split
    · exact Recorded.result_bind_map_right fun _ _ => rfl
    · -- The artificial columns are driven out in tableaux that the events lead to.
      rename_i hnone
      have hevents := events_phaseOne hprogram hinitial hending hlevels
        (htol ▸ Bool.eq_false_iff.2 hnone)
      rw [hevents, htol] at h
      have hreplay : ∀ q ∈ (Phase.run settings initial).last.replay
          ((Phase.run settings initial).last.expunge 0 program.artificials).events,
            q.1.Apart q.2 t := by
        intro q hq
        rw [← Phase.replay_of_optimal hending] at hq
        exact h q (List.mem_append_left _ (List.mem_append_right _ hq))
      refine Recorded.result_bind_map
        (Tableau.expunge_withTolerance hlast.basisNumbers hreplay) fun expunged hexpunged => ?_
      have hexpungedApart : expunged.Apart expunged.basisNumbers t := by
        have hmem := Tableau.foldl_mem_replay (Phase.run settings initial).last
          ((Phase.run settings initial).last.expunge 0 program.artificials).events
        rw [Tableau.foldl_after_expunge hexpunged] at hmem
        exact hreplay _ hmem
      refine Recorded.result_bind_map (f := fun T : Tableau ℚ => T.withTolerance t)
        (Recorded.result_guarded_map (hexpungedApart.restore_eq _ _)) fun restored _ => ?_
      rfl

end

/-! ## The solve -/

/-- The same solution, with another tolerance in its tableaux. -/
def Solution.withTolerance (s : Solution ℚ) (tolerance : ℚ) : Solution ℚ :=
  { s with
    initialTableau := s.initialTableau.withTolerance tolerance
    finalTableau := s.finalTableau.withTolerance tolerance
    phaseOneTableau := s.phaseOneTableau.map (·.withTolerance tolerance) }

/-- The verdict with the values of the first columns only. -/
def Verdict.front (columns : ℕ) : Verdict ℚ → Verdict ℚ
  | .optimal values objectiveValue => .optimal (values.take columns) objectiveValue
  | .infeasible => .infeasible
  | .unbounded => .unbounded

namespace Solution

/-- The solution with the values of the first columns only. -/
def front (s : Solution ℚ) (columns : ℕ) : Solution ℚ :=
  { s with verdict := s.verdict.front columns }

/-- Leaving values out does not change whether a best point was found. -/
@[simp] theorem isOptimal_front (s : Solution ℚ) (columns : ℕ) :
    (s.front columns).isOptimal = s.isOptimal := by
  obtain ⟨verdict⟩ := s
  cases verdict <;> rfl

/-- The assignment of a model takes the values at the front. -/
@[simp] theorem assignment_front (s : Solution ℚ) (M : Model ℚ) :
    (s.front M.vars.length).assignment M = s.assignment M := by
  obtain ⟨verdict⟩ := s
  cases verdict with
  | optimal values value =>
    simp only [assignment, front, Verdict.front, List.length_take, List.take_take, le_min_iff,
      le_refl, true_and, min_self]
  | infeasible => rfl
  | unbounded => rfl

/-- The solution is the other one, with a tolerance in its tableaux, up to the values of columns
that are not variables of the model. -/
def SameUnder (tolerance : ℚ) (M : Model ℚ) (s s' : Solution ℚ) : Prop :=
  s'.front M.vars.length = (s.withTolerance tolerance).front M.vars.length

variable {s s' : Solution ℚ} {M : Model ℚ} {t : ℚ}

/-- Both found a best point, or neither did. -/
theorem SameUnder.isOptimal_eq (h : SameUnder t M s s') : s'.isOptimal = s.isOptimal := by
  rw [← isOptimal_front s' M.vars.length, h, isOptimal_front]
  rfl

/-- The model has the same assignment. -/
theorem SameUnder.assignment_eq (h : SameUnder t M s s') : s'.assignment M = s.assignment M := by
  rw [← assignment_front s' M, h, assignment_front]
  rfl

end Solution

namespace Model

variable {M : Model ℚ} {settings : Settings ℚ} {reads : ℕ → ℕ → Bool} {t : ℚ}

/-- The values of the model's variables are the same when they are read. -/
theorem take_assignment_withTolerance {T : Tableau ℚ} {read : ℕ → Bool}
    (hread : ∀ j < M.vars.length, read j = true) (h : T.Apart (T.assignmentNumbers read) t) :
    (T.withTolerance t).assignment.take M.vars.length = T.assignment.take M.vars.length := by
  refine List.ext_getElem? fun j => ?_
  rw [List.getElem?_take, List.getElem?_take]
  split
  · rename_i hj
    exact h.getElem?_assignment_eq (hread j hj)
  · rfl

variable (htol : settings.tolerance = 0) (hreads : ∀ j < M.vars.length, reads 2 j = true)

include htol hreads

/-- Phase two ends in the same way when all its tableaux are apart. -/
theorem phaseTwo_withTolerance (o : Objective ℚ) {initial : Tableau ℚ}
    (phaseOneTableau : Option (Tableau ℚ)) (earlier : ℕ)
    (h : ∀ p ∈ (Phase.run settings initial).stages settings.rule,
      p.2.Apart (p.2.compared (reads 2) p.1) t) :
    Agree (Solution.SameUnder t M) (M.phaseTwo o settings initial phaseOneTableau earlier).result
      (M.phaseTwo o (settings.withTolerance t) (initial.withTolerance t)
        (phaseOneTableau.map (·.withTolerance t)) earlier).result := by
  unfold phaseTwo
  dsimp only
  rw [Phase.run_withTolerance htol h, Phase.iterations_withTolerance, Phase.last_withTolerance,
    Recorded.result_record_bind, Recorded.result_record_bind]
  dsimp only [Phase.withTolerance]
  cases hending : (Phase.run settings initial).ending with
  | failed failure => exact .error failure
  | exhausted => exact .error _
  | unbounded column =>
    dsimp only
    rw [Recorded.result_record_bind, Recorded.result_record_bind]
    exact .ok rfl
  | optimal =>
    have hfront := take_assignment_withTolerance hreads (Phase.apart_last_of_optimal h hending)
    have hproject : M.project ((Phase.run settings initial).last.withTolerance t).assignment =
        M.project (Phase.run settings initial).last.assignment := by
      unfold project
      rw [Tableau.length_assignment, Tableau.length_assignment, hfront]
      rfl
    dsimp only
    rw [hproject, Recorded.result_bind, Recorded.result_bind]
    refine (Agree.refl (r := Eq) (fun _ => rfl) _).bind fun own _ _ hown => ?_
    subst hown
    rw [Recorded.result_bind, Recorded.result_bind]
    refine (Agree.refl (r := Eq) (fun _ => rfl) _).bind fun value _ _ hvalue => ?_
    subst hvalue
    rw [Recorded.result_record_bind, Recorded.result_record_bind]
    refine .ok ?_
    unfold Solution.SameUnder Solution.front Verdict.front
    dsimp only [Solution.withTolerance]
    rw [hfront]

/-- A solve ends in the same way when each tableau that the solve without tolerance goes through is
apart for the numbers compared there, and these include the values of the artificial variables after
phase one and those of the model's variables after phase two. -/
theorem solve_withTolerance
    (hartificials : ∀ program, (StandardForm.ofModel M).phaseOneProgram = .ok program →
      ∀ a ∈ program.artificials, reads 1 a.column = true)
    (h : ∀ p ∈ trail reads settings.rule (M.solve settings).events, p.1.Apart p.2 t) :
    Agree (Solution.SameUnder t M) (M.solve settings).result
      (M.solve (settings.withTolerance t)).result := by
  have hphases : ∀ o, M.objective = some o → M.constraints.isEmpty = false →
      ∀ number phase, M.HasPhase settings number phase →
        ∀ p ∈ phase.stages settings.rule, p.2.Apart (p.2.compared (reads number) p.1) t :=
    fun o ho hsome number phase hphase p hp =>
      h _ (stage_mem_trail reads settings.rule (hphase.mem_events ho hsome) hp)
  have hone : ∀ o, M.objective = some o → M.constraints.isEmpty = false →
      (StandardForm.ofModel M).needsPhaseOne = true →
      ∀ p ∈ trail reads settings.rule ((StandardForm.ofModel M).phaseOne settings).events,
        p.1.Apart p.2 t := by
    intro o ho hsome hneeds p hp
    obtain ⟨later, hevents, hlater⟩ := exists_events_solve settings ho hsome hneeds
    refine h p ?_
    rw [hevents]
    exact trail_subset_append reads settings.rule _ hlater hp
  unfold solve
  cases ho : M.objective with
  | none => exact .error _
  | some o =>
    dsimp only
    split
    · exact .error _
    rename_i hempty
    have hsome := Bool.eq_false_iff.2 hempty
    rw [Recorded.result_record_bind, Recorded.result_record_bind]
    split
    · -- Phase one ends in the same way, and phase two starts from what it hands over.
      rename_i hneeds
      rw [Recorded.result_bind, Recorded.result_bind,
        StandardForm.phaseOne_withTolerance htol hartificials (hone o ho hsome hneeds)]
      cases hfound : ((StandardForm.ofModel M).phaseOne settings).result with
      | error failure => exact .error failure
      | ok found =>
        cases found with
        | feasible initial restored iterations =>
          exact phaseTwo_withTolerance htol hreads o (some initial) iterations
            (hphases o ho hsome _ _ (.two hneeds hfound))
        | infeasible initial last iterations => exact .ok rfl
    · -- Phase two starts from the first tableau of the standard form.
      rename_i hskip
      have htableau := Recorded.result_guarded_map
        (tableau_withTolerance (StandardForm.ofModel M).model settings.tolerance
          (settings.withTolerance t).tolerance)
      rw [Recorded.result_record_bind, Recorded.result_record_bind, Recorded.result_bind,
        Recorded.result_bind, htableau]
      cases hinitial : (Recorded.guarded
          ((StandardForm.ofModel M).model.tableau settings.tolerance)).result with
      | error failure => exact .error failure
      | ok initial =>
        rw [Recorded.result_guarded_eq_ok_iff] at hinitial
        exact phaseTwo_withTolerance htol hreads o none 0
          (hphases o ho hsome _ _ (.only (Bool.eq_false_iff.2 hskip) hinitial))

end Model

end LinProg
