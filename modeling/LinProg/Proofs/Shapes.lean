import LinProg.Proofs.Artificials
import LinProg.Proofs.Correspondence
import LinProg.Proofs.Handover
import LinProg.Proofs.ModelStore
import LinProg.Proofs.TableauModels

/-!
# Shapes

A solve puts vectors and matrices together: rows into a matrix, a matrix under a model, an objective
row into a matrix that has lost its artificial columns. Each of these steps has a precondition on
lengths or indices, and a call that does not meet it has a fault (`Fault.isShape`).

`Avoids` says of a computation that none of its failures is of a bad kind. Operations on matrices
and tableaux keep the shape, so they avoid such faults whatever their arguments are. The others
avoid them when expressions mention existing variables only, which is so of all models that calls
build. Hence no solve has a fault of this kind, in any arithmetic (`Model.Scoped.avoids_solve`), and
the model of phase one exists where minus one is finite. -/

namespace LinProg

/-- The fault is about vectors, matrices or tableaux that do not fit together. -/
def Fault.isShape {α : Type} : Fault α → Bool
  | .raggedRows | .lengthMismatch | .variableOutside .. | .widthMismatch => true
  | _ => false

/-- The failure is such a fault. -/
def Failure.isShape {α : Type} : Failure α → Bool
  | Failure.fault f => f.isShape
  | Failure.error _ => false

/-! ## Computations without bad failures -/

/-- No failure of the computation is bad. -/
def Avoids {ε β : Type} (bad : ε → Bool) (result : Except ε β) : Prop :=
  ∀ e, result = .error e → bad e = false

namespace Avoids

variable {ε β γ : Type} {bad : ε → Bool}

theorem ok (b : β) : Avoids bad (.ok b) :=
  nofun

theorem error {e : ε} (h : bad e = false) : Avoids bad (.error e : Except ε β) := by
  intro _ he
  cases he
  exact h

theorem map {result : Except ε β} (h : Avoids bad result) (f : β → γ) :
    Avoids bad (result.map f) := by
  cases result with
  | error e => exact error (h e rfl)
  | ok b => exact ok (f b)

/-- Two computations in a row have the failures of the first, and those of the second on its
results. -/
theorem bind {first : Except ε β} {next : β → Except ε γ} (hfirst : Avoids bad first)
    (hnext : ∀ b, first = .ok b → Avoids bad (next b)) : Avoids bad (first >>= next) := by
  cases h : first with
  | error e => exact error (hfirst e h)
  | ok b => exact hnext b h

/-- A test with a failure of its own comes first. -/
theorem test {c : Bool} {e : ε} {next : Unit → Except ε β} (he : bad e = false)
    (hnext : Avoids bad (next ())) :
    Avoids bad (if c = true then next () else throw e >>= next) := by
  split
  · exact hnext
  · exact error he

/-- A traversal has the failures of its members. -/
theorem mapM {f : β → Except ε γ} {xs : List β} (h : ∀ x ∈ xs, Avoids bad (f x)) :
    Avoids bad (xs.mapM f) := by
  induction xs with
  | nil => exact ok []
  | cons x xs ih =>
    rw [List.forall_mem_cons] at h
    rw [List.mapM_cons]
    exact h.1.bind fun _ _ => (ih h.2).bind fun _ _ => ok _

/-- A loop has the failures of its steps. -/
theorem foldlM {step : β → γ → Except ε β} (h : ∀ b x, Avoids bad (step b x)) (xs : List γ)
    (b : β) : Avoids bad (xs.foldlM step b) := by
  induction xs generalizing b with
  | nil => exact ok b
  | cons x xs ih =>
    rw [List.foldlM_cons]
    exact (h b x).bind fun c _ => ih c

end Avoids

/-- A failure that comes of a fault is about shapes when the fault is. -/
theorem Avoids.mapError {α β : Type} {result : Except (Fault α) β}
    (h : Avoids Fault.isShape result) : Avoids Failure.isShape (result.mapError .fault) := by
  cases result with
  | error fault => exact Avoids.error (h fault rfl)
  | ok b => exact Avoids.ok b

/-- A precondition that is about shapes comes first. -/
theorem Avoids.guarded {α β γ : Type} {result : Except (Fault α) β} {next : β → Recorded α γ}
    (h : Avoids Fault.isShape result)
    (hnext : ∀ b, result = .ok b → Avoids Failure.isShape (next b).result) :
    Avoids Failure.isShape (Recorded.guarded result >>= next).result := by
  rw [Recorded.result_bind]
  exact h.mapError.bind fun b hb =>
    hnext b ((Recorded.result_guarded_eq_ok_iff result b).1 hb)

/-! ## Operations that keep the shape -/

namespace DenseMatrix

variable {α : Type} {n : ℕ} (M : DenseMatrix α n)

theorem avoids_requireRow (i : ℕ) : Avoids Fault.isShape (M.requireRow i) := by
  unfold requireRow
  split
  · exact .ok ()
  · exact .error rfl

theorem avoids_requirePlace (i j : ℕ) : Avoids Fault.isShape (M.requirePlace i j) := by
  unfold requirePlace
  split
  · exact .ok ()
  · exact .error rfl

theorem avoids_set (i j : ℕ) (x : α) : Avoids Fault.isShape (M.set i j x) :=
  (M.avoids_requirePlace i j).bind fun _ _ => .ok _

theorem avoids_fillRow (i : ℕ) (x : α) : Avoids Fault.isShape (M.fillRow i x) :=
  (M.avoids_requireRow i).bind fun _ _ => .ok _

/-- A row is replaced by one of the same length. -/
theorem avoids_replaceRow (i : ℕ) {entries : List α} (h : entries.length = n) :
    Avoids Fault.isShape (M.replaceRow i entries) := by
  refine (M.avoids_requireRow i).bind fun _ _ => ?_
  rw [dif_pos h]
  exact .ok _

variable [Scalar α]

theorem avoids_read (i j : ℕ) : Avoids Fault.isShape (M.read i j) :=
  (M.avoids_requirePlace i j).bind fun _ _ => .ok _

theorem avoids_scaleRow (i : ℕ) (factor : α) : Avoids Fault.isShape (M.scaleRow i factor) :=
  Avoids.test rfl ((M.avoids_requireRow i).bind fun _ _ => .ok _)

theorem avoids_rowOperation (target source : ℕ) (factor : α) :
    Avoids Fault.isShape (M.rowOperation target source factor) := by
  refine Avoids.test rfl ?_
  split
  · exact .ok M
  · exact (M.avoids_requireRow source).bind fun _ _ =>
      (M.avoids_requireRow target).bind fun _ _ => .ok _

theorem avoids_clearColumn (source column : ℕ) :
    Avoids Fault.isShape (M.clearColumn source column) := by
  unfold clearColumn
  split
  · exact .ok _
  · exact .error rfl

theorem avoids_pivot (tolerance : α) (row column : ℕ) :
    Avoids Fault.isShape (M.pivot tolerance row column) :=
  (M.avoids_read row column).bind fun entry _ => Avoids.test rfl
    ((M.avoids_scaleRow row (1 / entry)).bind fun scaled _ =>
      (scaled.avoids_set row column 1).bind fun normalized _ =>
        normalized.avoids_clearColumn row column)

theorem avoids_removeColumns (dropped : List ℕ) :
    Avoids Fault.isShape (M.removeColumns dropped) := by
  unfold removeColumns
  split
  · exact .ok _
  · exact .error rfl

end DenseMatrix

namespace Tableau

variable {α : Type} (T : Tableau α)

theorem avoids_requireColumn (column : ℕ) : Avoids Fault.isShape (T.requireColumn column) := by
  unfold requireColumn
  split
  · exact .ok ()
  · exact .error rfl

variable [Scalar α]

theorem avoids_clearRow (row : ℕ) : Avoids Fault.isShape (T.clearRow row) :=
  (T.matrix.avoids_fillRow row 0).bind fun _ _ => .ok _

theorem avoids_pivot (row column : ℕ) : Avoids Fault.isShape (T.pivot row column) :=
  (T.matrix.avoids_pivot T.tolerance row column).bind fun _ _ => .ok _

theorem avoids_priceOut (row column : ℕ) : Avoids Fault.isShape (T.priceOut row column) :=
  (T.matrix.avoids_read 0 column).bind fun factor _ =>
    (T.matrix.avoids_rowOperation 0 row factor).bind fun reduced _ =>
      (reduced.avoids_set 0 column 0).bind fun _ _ => .ok _

theorem avoids_artificialValues (artificials : List Artificial) :
    Avoids Fault.isShape (T.artificialValues artificials) := by
  refine .mapM fun artificial _ => ?_
  split
  · exact .ok _
  · exact .error rfl

theorem avoids_driveOut (tolerance : α) (first row column : ℕ) :
    Avoids Failure.isShape (T.driveOut tolerance first row column).result := by
  unfold driveOut
  split
  · rw [Recorded.result_record_bind]
    exact (T.avoids_pivot row _).mapError
  · rw [Recorded.result_record_bind]
    exact (T.avoids_clearRow row).mapError

theorem avoids_expunge (tolerance : α) (artificials : List Artificial) :
    Avoids Failure.isShape (T.expunge tolerance artificials).result := by
  unfold expunge
  rw [Recorded.result_foldlM]
  refine .foldlM (fun U p => ?_) _ _
  obtain ⟨row, column?⟩ := p
  cases column? with
  | none => exact .ok U
  | some column =>
    dsimp only
    split
    · exact U.avoids_driveOut tolerance _ row column
    · exact .ok U

end Tableau

namespace Phase

variable {α : Type} [Scalar α] (settings : Settings α)

theorem avoids_makeStep (rule : PivotRule) (streak : ℕ) (T : Tableau α) (column : ℕ) :
    Avoids Failure.isShape (makeStep settings rule streak T column) := by
  refine (Avoids.mapError ((T.avoids_requireColumn column).bind fun _ _ => .ok _)).bind
    fun row? _ => ?_
  cases row? with
  | none => exact .error rfl
  | some row =>
    exact (T.matrix.avoids_read row T.columns).mapError.bind fun _ _ =>
      (T.avoids_pivot row column).mapError.bind fun _ _ => .ok _

/-- A phase that cannot go on does not have tableaux of a wrong shape. -/
theorem isShape_of_failed_pivots (remaining : ℕ) (rule : PivotRule) (streak : ℕ) (T : Tableau α)
    {failure : Failure α} (h : (pivots settings remaining rule streak T).2 = .failed failure) :
    failure.isShape = false := by
  fun_induction pivots settings remaining rule streak T with
  | case1 =>
    split at h
    · cases h
    · cases h
      rfl
  | case2 _ rule streak T column _ fault hread =>
    cases h
    exact Avoids.bind (T.avoids_requireColumn column) (fun _ _ => .ok _) fault hread
  | case3 => cases h
  | case4 => cases h
  | case5 rule streak T column _ _ _ failure hstep =>
    cases h
    exact avoids_makeStep settings rule streak T column _ hstep
  | case6 _ _ _ _ _ _ _ _ _ _ ih => exact ih h

end Phase

/-! ## Models whose expressions mention existing variables -/

variable {α : Type} [Scalar α]

namespace Expression

/-- An expression that mentions existing variables only fits into a vector. -/
theorem Within.avoids_coefficients {e : Expression α} {n : ℕ} (h : e.Within n) :
    Avoids Fault.isShape (e.coefficients n) := by
  unfold coefficients
  split
  · exact .error rfl
  · split
    · rename_i t ht
      have hlt := h t (List.mem_of_find?_eq_some ht)
      have hle : n ≤ t.var.index := by simpa using List.find?_some ht
      omega
    · exact .ok _

/-- The vector of an expression has the length that was asked for. -/
theorem length_of_coefficients_eq_ok {e : Expression α} {n : ℕ} {dense : List α}
    (h : e.coefficients n = .ok dense) : dense.length = n := by
  obtain ⟨-, -, rfl⟩ := (coefficients_eq_ok_iff e n dense).1 h
  rw [List.length_map, List.length_range]

/-- The value under a value for each existing variable. -/
theorem Within.avoids_evaluate {e : Expression α} {values : List α} (h : e.Within values.length) :
    Avoids Fault.isShape (e.evaluate values) := by
  refine h.avoids_coefficients.bind fun dense hdense => Avoids.bind ?_ fun _ _ => .ok _
  unfold dot
  rw [if_pos (length_of_coefficients_eq_ok hdense)]
  exact .ok _

end Expression

namespace Model

variable {M : Model α}

theorem Scoped.avoids_objectiveRow (hM : M.Scoped) : Avoids Fault.isShape M.objectiveRow := by
  unfold objectiveRow
  cases h : M.objective with
  | none => exact .ok _
  | some o => exact (hM.objective o h).avoids_coefficients.bind fun _ _ => .ok _

/-- The objective row has a place for each variable and one for the objective value. -/
theorem length_of_objectiveRow_eq_ok {row : List α} (h : M.objectiveRow = .ok row) :
    row.length = M.vars.length + 1 := by
  unfold objectiveRow at h
  split at h
  all_goals
    obtain ⟨dense, hdense, h⟩ := (bind_eq_ok_iff _ _ _).1 h
    cases h
    rw [List.length_append, List.length_map, List.length_singleton]
  · rw [Expression.length_of_coefficients_eq_ok hdense]
  · cases hdense
    rw [List.length_replicate]

/-- The row of a constraint has a place for each variable and one for the bound. -/
theorem length_of_constraintRow_eq_ok {c : Constraint α} {row : List α}
    (h : M.constraintRow c = .ok row) : row.length = M.vars.length + 1 := by
  obtain ⟨dense, hdense, h⟩ := (bind_eq_ok_iff _ _ _).1 h
  cases h
  rw [List.length_append, Expression.length_of_coefficients_eq_ok hdense, List.length_singleton]

theorem Scoped.avoids_tableau (hM : M.Scoped) (tolerance : α) :
    Avoids Fault.isShape (M.tableau tolerance) := by
  refine hM.avoids_objectiveRow.bind fun objective hobjective =>
    Avoids.bind (.mapM fun c hc => (hM.constraints c hc).avoids_coefficients.bind fun _ _ => .ok _)
      fun constraints hconstraints => ?_
  -- Every row has an entry for each variable and one for the right-hand side.
  have hwidth : DenseMatrix.widthOf (objective :: constraints) = M.vars.length + 1 :=
    length_of_objectiveRow_eq_ok hobjective
  have hrows : ∀ row ∈ objective :: constraints,
      row.length = DenseMatrix.widthOf (objective :: constraints) := by
    rw [hwidth, List.forall_mem_cons]
    refine ⟨hwidth, fun row hrow => ?_⟩
    obtain ⟨c, -, hc⟩ := exists_of_mem_mapM hconstraints row hrow
    exact length_of_constraintRow_eq_ok hc
  unfold DenseMatrix.ofRows
  rw [dif_pos hrows]
  refine Avoids.bind (.ok _) fun matrix _ => ?_
  unfold Tableau.ofMatrix
  rw [dif_pos hwidth]
  exact .ok _

end Model

/-! ## Phase one -/

namespace ProgramShape

variable {form : StandardForm α} {program : PhaseOneProgram α}

theorem avoids_tableau (h : ProgramShape form program) (tolerance : α) :
    Avoids Fault.isShape (program.tableau tolerance) :=
  (h.isScoped.avoids_tableau tolerance).bind fun T _ =>
    .foldlM (fun U a => U.avoids_priceOut a.row a.column) _ T

/-- Without the artificial columns a tableau of phase one is as wide as the standard form. -/
theorem length_keptColumns (h : ProgramShape form program) {T : Tableau α}
    (hT : T.model = program.model) :
    (DenseMatrix.keptColumns (T.model.vars.length + 1)
      (program.artificials.map (·.column))).length = form.model.vars.length + 1 := by
  rw [h.map_column, hT, DenseMatrix.keptColumns_range' h.width_le, List.length_append,
    List.length_range, List.length_singleton]

theorem avoids_restore (h : ProgramShape form program) (hform : form.model.Scoped)
    {T : Tableau α} (hT : T.model = program.model) (tolerance : α) :
    Avoids Fault.isShape (T.restore tolerance form.model program.artificials) := by
  have hwidth := h.length_keptColumns hT
  refine (T.matrix.avoids_removeColumns _).bind fun remaining _ =>
    hform.avoids_objectiveRow.bind fun objective hobjective =>
      (remaining.avoids_replaceRow 0
        ((Model.length_of_objectiveRow_eq_ok hobjective).trans hwidth.symm)).bind
          fun matrix _ => Avoids.bind ?_ fun restored _ => .foldlM (fun R p => ?_) _ restored
  · unfold Tableau.ofMatrix
    rw [dif_pos hwidth]
    exact .ok _
  · obtain ⟨row, column?⟩ := p
    cases column? with
    | none => exact .ok R
    | some column => exact R.avoids_priceOut row column

end ProgramShape

/-- Driving artificial columns out keeps the model, the tolerance and the number of rows. -/
theorem Tableau.shape_of_expunge_eq_ok {T U : Tableau α} {tolerance : α}
    {artificials : List Artificial} (h : (T.expunge tolerance artificials).result = .ok U) :
    U.model = T.model ∧ U.tolerance = T.tolerance ∧ U.matrix.height = T.matrix.height := by
  unfold expunge at h
  rw [Recorded.result_foldlM] at h
  refine foldlM_eq_ok_induction (P := fun V => V.model = T.model ∧ V.tolerance = T.tolerance ∧
    V.matrix.height = T.matrix.height) (fun V p W hV hW => ?_) ⟨rfl, rfl, rfl⟩ h
  obtain ⟨hmodel, htolerance, hheight⟩ := hV
  obtain ⟨row, column?⟩ := p
  cases column? with
  | none =>
    cases hW
    exact ⟨hmodel, htolerance, hheight⟩
  | some column =>
    dsimp only at hW
    split at hW
    · unfold driveOut at hW
      split at hW
      · rw [Recorded.result_record_bind, Recorded.result_guarded_eq_ok_iff] at hW
        have hpivot := pivoted_of_eq_ok hW
        exact ⟨hpivot.model.trans hmodel, hpivot.tolerance.trans htolerance,
          hpivot.height.trans hheight⟩
      · rw [Recorded.result_record_bind, Recorded.result_guarded_eq_ok_iff] at hW
        have hclear := cleared_of_eq_ok hW
        exact ⟨hclear.model.trans hmodel, hclear.tolerance.trans htolerance,
          hclear.height.trans hheight⟩
    · cases hW
      exact ⟨hmodel, htolerance, hheight⟩

namespace StandardForm

variable {form : StandardForm α}

theorem avoids_phaseOne (hform : form.model.Scoped)
    (hlength : form.slacks.length = form.model.constraints.length) (settings : Settings α) :
    Avoids Failure.isShape (form.phaseOne settings).result := by
  unfold phaseOne
  rw [Recorded.result_bind]
  refine Avoids.bind ?_ fun program hprogram => ?_
  · cases form.phaseOneProgram with
    | error error => exact .error rfl
    | ok program => exact .ok program
  rw [Recorded.result_checked_eq_ok_iff] at hprogram
  have hshape := programShape_of_eq_ok hform hlength hprogram
  rw [Recorded.result_record_bind]
  refine (hshape.avoids_tableau settings.tolerance).guarded fun initial hinitial => ?_
  have hlast : (Phase.run settings initial).last.model = program.model :=
    (Phase.model_of_mem_visited settings _ (Phase.last_mem_visited _)).trans
      (PhaseOneProgram.model_of_tableau_eq_ok hinitial)
  dsimp only
  rw [Recorded.result_record_bind]
  cases hending : (Phase.run settings initial).ending with
  | failed failure => exact .error (Phase.isShape_of_failed_pivots _ _ _ _ _ hending)
  | exhausted => exact .error rfl
  | unbounded column => exact .error rfl
  | optimal =>
    refine (Tableau.avoids_artificialValues _ _).guarded fun levels _ => ?_
    split
    · rw [Recorded.result_record_bind]
      exact .ok _
    · rw [Recorded.result_bind]
      refine (Tableau.avoids_expunge _ _ _).bind fun expunged hexpunged => ?_
      exact (hshape.avoids_restore hform
        ((Tableau.shape_of_expunge_eq_ok hexpunged).1.trans hlast) _).guarded fun _ _ => .ok _

end StandardForm

/-! ## A solve -/

namespace Model

variable {M : Model α}

omit [Scalar α] in
theorem avoids_project (M : Model α) (values : List α) :
    Avoids Fault.isShape (M.project values) := by
  unfold project
  split
  · exact .ok _
  · exact .error rfl

theorem Scoped.avoids_phaseTwo (hM : M.Scoped) {o : Objective α} (ho : M.objective = some o)
    (settings : Settings α) (initial : Tableau α) (phaseOneTableau : Option (Tableau α))
    (earlier : ℕ) :
    Avoids Failure.isShape (M.phaseTwo o settings initial phaseOneTableau earlier).result := by
  unfold phaseTwo
  dsimp only
  rw [Recorded.result_record_bind]
  cases hending : (Phase.run settings initial).ending with
  | failed failure => exact .error (Phase.isShape_of_failed_pivots _ _ _ _ _ hending)
  | exhausted => exact .error rfl
  | unbounded column =>
    rw [Recorded.result_record_bind]
    exact .ok _
  | optimal =>
    refine (M.avoids_project _).guarded fun own hown => ?_
    have hwithin : o.expression.Within own.length := by
      rw [length_of_project_eq_ok hown]
      exact hM.objective o ho
    refine hwithin.avoids_evaluate.guarded fun value _ => ?_
    rw [Recorded.result_record_bind]
    exact .ok _

/-- No solve of a model whose expressions mention existing variables puts together what does not
fit. -/
theorem Scoped.avoids_solve (hM : M.Scoped) (settings : Settings α) :
    Avoids Failure.isShape (M.solve settings).result := by
  have hform := StandardForm.scoped_ofModel hM
  have hlength := StandardForm.length_slacks_ofModel M
  unfold solve
  cases ho : M.objective with
  | none => exact .error rfl
  | some o =>
    dsimp only
    split
    · exact .error rfl
    · rw [Recorded.result_record_bind]
      split
      · rw [Recorded.result_bind]
        refine (StandardForm.avoids_phaseOne hform hlength settings).bind fun found _ => ?_
        cases found with
        | feasible initial restored iterations => exact hM.avoids_phaseTwo ho _ _ _ _
        | infeasible initial last iterations =>
          rw [Recorded.result_record_bind]
          exact .ok _
      · rw [Recorded.result_record_bind]
        exact (hform.avoids_tableau _).guarded fun _ _ => hM.avoids_phaseTwo ho _ _ _ _

end Model

end LinProg
