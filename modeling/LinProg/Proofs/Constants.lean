import LinProg.Proofs.Correspondence
import LinProg.Proofs.Course
import LinProg.Proofs.SameChoices
import LinProg.Proofs.StandardForm

/-!
# Constants of constraints

A tableau has a place for the coefficients and the bound of each constraint, but none for the
constant of its expression. So a model that goes into a tableau may as well be without them
(`Model.withoutConstants`): the standard form, the program of phase one, each tableau, each pivot
and each choice are the same, and so is what phase one comes to
(`StandardForm.phaseOne_withoutConstants`). This holds in any arithmetic, as no number is computed
with that is not the same. -/

namespace LinProg

variable {α : Type} [Scalar α]

/-! ## Models -/

/-- The same constraint with the constant zero. -/
def Constraint.withoutConstant (c : Constraint α) : Constraint α :=
  { c with expression := c.expression.dropConstant }

/-- Adding a term leaves the constant alone. -/
theorem Expression.dropConstant_push (e : Expression α) (k : α) (v : Variable) :
    (e.push k v).dropConstant = e.dropConstant.push k v := by
  unfold push
  rw [show e.dropConstant.position? v.index = e.position? v.index from rfl]
  cases e.position? v.index with
  | none => rfl
  | some i => rfl

/-- A constraint absorbs a column in the same way. -/
theorem Constraint.absorb_withoutConstant (c : Constraint α) (k : α) (v : Variable) :
    c.withoutConstant.absorb k v = (c.absorb k v).withoutConstant := by
  unfold absorb withoutConstant
  rw [Expression.dropConstant_push]

/-- The same model, with constraints without constants. -/
def Model.withoutConstants (M : Model α) : Model α :=
  { M with constraints := M.constraints.map Constraint.withoutConstant }

/-- The same variables and columns are given to constraints without constants. -/
theorem attachColumns_withoutConstant (coefficient : α) (letter : String) (next i : ℕ)
    (pairs : List (Constraint α × Bool)) :
    attachColumns coefficient letter next i (pairs.map (Prod.map Constraint.withoutConstant id)) =
      ((attachColumns coefficient letter next i pairs).1,
        (attachColumns coefficient letter next i pairs).2.1.map Constraint.withoutConstant,
        (attachColumns coefficient letter next i pairs).2.2) := by
  induction pairs generalizing next i with
  | nil => rfl
  | cons pair rest ih =>
    obtain ⟨c, chosen⟩ := pair
    cases chosen with
    | false =>
      rw [List.map_cons]
      simp only [Prod.map, id_eq, attachColumns, ih, List.map_cons]
    | true =>
      rw [List.map_cons]
      simp only [Prod.map, id_eq, attachColumns, ih, List.map_cons, c.absorb_withoutConstant]

namespace Model

/-- Columns are attached to a model without constants in the same way. -/
theorem attachColumns_withoutConstants (M : Model α) (coefficient : α) (letter : String)
    (chosen : List Bool) :
    M.withoutConstants.attachColumns coefficient letter chosen =
      ((M.attachColumns coefficient letter chosen).1.withoutConstants,
        (M.attachColumns coefficient letter chosen).2) := by
  unfold attachColumns withoutConstants
  rw [List.zip_map_left, attachColumns_withoutConstant]

/-- The constraints have the same relations. -/
theorem withRelation_withoutConstants (M : Model α) (relation : Relation) :
    M.withoutConstants.withRelation relation = M.withRelation relation :=
  List.map_map ..

/-- A model without constants takes the objective in the same way. -/
theorem maximize_withoutConstants (M : Model α) (e : Expression α) :
    M.withoutConstants.maximize e = (M.maximize e).map withoutConstants := by
  have hrequire : M.withoutConstants.requireExpression e = M.requireExpression e := rfl
  unfold maximize
  rw [optimize_eq, optimize_eq, hrequire]
  cases M.requireExpression e with
  | error error => rfl
  | ok _ => rfl

end Model

namespace StandardForm

/-- The same standard form, with constraints without constants. -/
def withoutConstants (form : StandardForm α) : StandardForm α :=
  ⟨form.model.withoutConstants, form.slacks⟩

/-- The standard form of a model whose bounds are not negative and whose objective is to be made as
large as possible. -/
def ofSigned (S : Model α) : StandardForm α :=
  let slacked := S.attachColumns 1 "s" (S.withRelation .atMost)
  let full := slacked.1.attachColumns (-1) "e" (slacked.1.withRelation .atLeast)
  ⟨full.1, slacked.2⟩

/-- The standard form of a model is that of the model with its signs put right. -/
theorem ofModel_eq_ofSigned (M : Model α) : ofModel M = ofSigned (signed M) :=
  rfl

/-- The standard form does not look at the constants. -/
theorem ofSigned_withoutConstants (S : Model α) :
    ofSigned S.withoutConstants = (ofSigned S).withoutConstants := by
  unfold ofSigned withoutConstants
  simp only [Model.withRelation_withoutConstants, Model.attachColumns_withoutConstants]

/-- Phase one is needed for the same standard forms. -/
theorem needsPhaseOne_withoutConstants (form : StandardForm α) :
    form.withoutConstants.needsPhaseOne = form.needsPhaseOne :=
  rfl

end StandardForm

/-! ## Tableaux -/

namespace Tableau

/-- The same tableau, with constraints without constants in its model. -/
def withoutConstants (T : Tableau α) : Tableau α :=
  ⟨T.model.withoutConstants, T.tolerance, T.matrix⟩

variable (T : Tableau α)

/-- The basic point is the same. -/
theorem assignment_withoutConstants : T.withoutConstants.assignment = T.assignment :=
  rfl

/-- The same column enters. -/
theorem enteringColumn_withoutConstants (rule : PivotRule) :
    T.withoutConstants.enteringColumn rule = T.enteringColumn rule := by
  cases rule <;> rfl

/-- The same row leaves. -/
theorem readLeavingRow_withoutConstants (column : ℕ) (rule : PivotRule) :
    T.withoutConstants.readLeavingRow column rule = T.readLeavingRow column rule := by
  cases rule <;> rfl

/-- Pivots do not look at the constants. -/
theorem pivot_withoutConstants (row column : ℕ) :
    T.withoutConstants.pivot row column = (T.pivot row column).map withoutConstants := by
  show _ = withoutConstants <$> T.pivot row column
  unfold pivot
  simp only [map_bind, map_pure]
  rfl

/-- Pricing out does not look at the constants. -/
theorem priceOut_withoutConstants (row column : ℕ) :
    T.withoutConstants.priceOut row column = (T.priceOut row column).map withoutConstants := by
  show _ = withoutConstants <$> T.priceOut row column
  unfold priceOut
  simp only [map_bind, map_pure]
  rfl

/-- Clearing a row does not look at the constants. -/
theorem clearRow_withoutConstants (row : ℕ) :
    T.withoutConstants.clearRow row = (T.clearRow row).map withoutConstants := by
  show _ = withoutConstants <$> T.clearRow row
  unfold clearRow
  simp only [map_bind, map_pure]
  rfl

/-- The tableau of a matrix does not look at the constants. -/
theorem ofMatrix_withoutConstants {n : ℕ} (model : Model α) (matrix : DenseMatrix α n)
    (tolerance : α) :
    ofMatrix model.withoutConstants matrix tolerance =
      (ofMatrix model matrix tolerance).map withoutConstants := by
  have hvars : model.withoutConstants.vars = model.vars := rfl
  unfold ofMatrix
  by_cases h : n = model.vars.length + 1
  · rw [dif_pos h, dif_pos (hvars ▸ h)]
    rfl
  · rw [dif_neg h, dif_neg (hvars ▸ h)]
    rfl

end Tableau

namespace Model

/-- The first tableau of a model does not look at the constants. -/
theorem tableau_withoutConstants (M : Model α) (tolerance : α) :
    M.withoutConstants.tableau tolerance = (M.tableau tolerance).map Tableau.withoutConstants := by
  show _ = Tableau.withoutConstants <$> M.tableau tolerance
  have hrows : M.withoutConstants.constraints.mapM M.withoutConstants.constraintRow =
      M.constraints.mapM M.constraintRow :=
    List.mapM_map
  unfold tableau
  rw [hrows]
  simp only [map_bind]
  refine bind_congr fun objective => bind_congr fun constraints => bind_congr fun matrix => ?_
  exact Tableau.ofMatrix_withoutConstants M matrix tolerance

/-- Models that are the same but for the constants have such first tableaux. -/
theorem agree_tableau {M N : Model α} (h : M.withoutConstants = N.withoutConstants)
    (tolerance : α) :
    Agree (fun T U => T.withoutConstants = U.withoutConstants) (M.tableau tolerance)
      (N.tableau tolerance) := by
  refine .of_map_eq ?_
  rw [← tableau_withoutConstants, h, tableau_withoutConstants]

end Model

/-! ## A phase -/

namespace Phase

variable (settings : Settings α)

/-- The same choices are made without the constants. -/
theorem sameChoices_withoutConstants :
    SameChoices settings settings Tableau.withoutConstants fun _ _ => True where
  maxIterations := rfl
  rule := rfl
  degenerateLimit := rfl
  enteringColumn {rule T} _ := T.enteringColumn_withoutConstants rule
  isOptimal {_ _} _ _ := rfl
  readUnbounded {_ _} _ {_} _ := rfl
  readLeavingRow {rule T} _ {column} _ := T.readLeavingRow_withoutConstants column rule
  readRhs _ _ := rfl
  isSignificant {_ _} _ {_ _ _} _ _ _ := rfl
  pivot {_ T} _ {column row} _ _ := T.pivot_withoutConstants row column

/-- A phase goes through the same matrices. -/
theorem run_withoutConstants (T : Tableau α) :
    run settings T.withoutConstants = (run settings T).map Tableau.withoutConstants :=
  run_map (sameChoices_withoutConstants settings) fun _ _ => trivial

/-- Phases from tableaux that are the same but for the constants end in the same way. -/
theorem run_ends_alike {T U : Tableau α} (h : T.withoutConstants = U.withoutConstants) :
    (run settings T).ending = (run settings U).ending ∧
      (run settings T).iterations = (run settings U).iterations ∧
      (run settings T).last.withoutConstants = (run settings U).last.withoutConstants := by
  have hrun : (run settings T).map Tableau.withoutConstants =
      (run settings U).map Tableau.withoutConstants := by
    rw [← run_withoutConstants, ← run_withoutConstants, h]
  refine ⟨(congrArg ending hrun :), ?_, ?_⟩
  · rw [← iterations_map Tableau.withoutConstants, hrun, iterations_map]
  · rw [← last_map Tableau.withoutConstants, hrun, last_map]

end Phase

/-! ## Phase one -/

/-- The same program of phase one, with constraints without constants. -/
def PhaseOneProgram.withoutConstants (program : PhaseOneProgram α) : PhaseOneProgram α :=
  ⟨program.model.withoutConstants, program.artificials⟩

/-- The first tableau of phase one does not look at the constants. -/
theorem PhaseOneProgram.tableau_withoutConstants (program : PhaseOneProgram α) (tolerance : α) :
    program.withoutConstants.tableau tolerance =
      (program.tableau tolerance).map Tableau.withoutConstants := by
  show _ = Tableau.withoutConstants <$> program.tableau tolerance
  unfold tableau
  rw [show program.withoutConstants.model = program.model.withoutConstants from rfl,
    program.model.tableau_withoutConstants]
  simp only [map_bind]
  refine (bind_map_left _ (program.model.tableau tolerance) _).trans (bind_congr fun T => ?_)
  exact foldlM_map (f := Tableau.withoutConstants)
    (fun T (artificial : Artificial) =>
      T.priceOut_withoutConstants artificial.row artificial.column) _ T

namespace Tableau

/-- An artificial column is driven out in the same way. -/
theorem driveOut_withoutConstants (T : Tableau α) (tolerance : α) (first row column : ℕ) :
    (T.withoutConstants.driveOut tolerance first row column).result =
      (T.driveOut tolerance first row column).result.map withoutConstants := by
  cases hfind : (List.range first).find? fun j =>
      Scalar.isSignificant tolerance (T.entry row j) with
  | some replacement =>
    rw [driveOut_of_find?_eq_some hfind,
      driveOut_of_find?_eq_some (T := T.withoutConstants) hfind]
    exact Recorded.result_guarded_map (T.pivot_withoutConstants row replacement)
  | none =>
    rw [driveOut_of_find?_eq_none hfind,
      driveOut_of_find?_eq_none (T := T.withoutConstants) hfind]
    exact Recorded.result_guarded_map (T.clearRow_withoutConstants row)

/-- The artificial columns are driven out in the same way. -/
theorem expunge_withoutConstants (T : Tableau α) (tolerance : α) (artificials : List Artificial) :
    (T.withoutConstants.expunge tolerance artificials).result =
      (T.expunge tolerance artificials).result.map withoutConstants := by
  have hfirst : T.withoutConstants.firstArtificial artificials = T.firstArtificial artificials :=
    rfl
  unfold expunge
  rw [Recorded.result_foldlM, Recorded.result_foldlM, hfirst]
  refine foldlM_map (f := withoutConstants) (fun U p => ?_) _ T
  obtain ⟨row, column?⟩ := p
  cases column? with
  | none => rfl
  | some column =>
    dsimp only
    split
    · exact U.driveOut_withoutConstants tolerance _ row column
    · rfl

/-- The objective is restored in the same way. -/
theorem restore_withoutConstants (T : Tableau α) (tolerance : α) (model : Model α)
    (artificials : List Artificial) :
    T.withoutConstants.restore tolerance model.withoutConstants artificials =
      (T.restore tolerance model artificials).map withoutConstants := by
  show _ = withoutConstants <$> T.restore tolerance model artificials
  unfold restore
  simp only [map_bind]
  refine bind_congr fun remaining => bind_congr fun objective => bind_congr fun matrix => ?_
  rw [ofMatrix_withoutConstants]
  refine (bind_map_left _ (ofMatrix model matrix tolerance) _).trans (bind_congr fun R => ?_)
  refine foldlM_map (f := withoutConstants) (fun R p => ?_) _ R
  obtain ⟨row, column?⟩ := p
  cases column? with
  | none => rfl
  | some column => exact R.priceOut_withoutConstants row column

end Tableau

/-- The same end of phase one, with constraints without constants. -/
def PhaseOneResult.withoutConstants : PhaseOneResult α → PhaseOneResult α
  | .feasible initial restored iterations =>
    .feasible initial.withoutConstants restored.withoutConstants iterations
  | .infeasible initial last iterations =>
    .infeasible initial.withoutConstants last.withoutConstants iterations

namespace StandardForm

variable (form : StandardForm α)

/-- The program of phase one does not look at the constants. -/
theorem phaseOneProgram_withoutConstants :
    form.withoutConstants.phaseOneProgram =
      form.phaseOneProgram.map PhaseOneProgram.withoutConstants := by
  show _ = PhaseOneProgram.withoutConstants <$> form.phaseOneProgram
  unfold phaseOneProgram
  rw [show form.withoutConstants.model = form.model.withoutConstants from rfl,
    Model.attachColumns_withoutConstants]
  simp only [map_bind, Model.maximize_withoutConstants]
  refine (bind_map_left _ (Model.maximize _ _) _).trans (bind_congr fun model => ?_)
  rfl

/-- Phase one comes to the same end. -/
theorem phaseOne_withoutConstants (settings : Settings α) :
    (form.withoutConstants.phaseOne settings).result =
      (form.phaseOne settings).result.map PhaseOneResult.withoutConstants := by
  unfold phaseOne
  refine Recorded.result_bind_map (f := PhaseOneProgram.withoutConstants) ?_ fun program _ => ?_
  · rw [form.phaseOneProgram_withoutConstants]
    cases form.phaseOneProgram <;> rfl
  refine Recorded.result_bind_map_right fun _ _ => ?_
  refine Recorded.result_bind_map (f := Tableau.withoutConstants)
    (Recorded.result_guarded_map (program.tableau_withoutConstants _)) fun initial _ => ?_
  dsimp only
  rw [Phase.run_withoutConstants, Phase.iterations_map, Phase.last_map]
  -- The phases that are recorded differ in the constants only.
  refine Recorded.result_bind_map (f := id) rfl fun _ _ => ?_
  dsimp only [Phase.map]
  cases (Phase.run settings initial).ending with
  | failed failure => rfl
  | exhausted => rfl
  | unbounded column => rfl
  | optimal =>
    dsimp only
    refine Recorded.result_bind_map_right fun levels _ => ?_
    split
    · exact Recorded.result_bind_map_right fun _ _ => rfl
    · refine Recorded.result_bind_map (Tableau.expunge_withoutConstants _ _ _)
        fun expunged _ => ?_
      exact Recorded.result_bind_map (f := Tableau.withoutConstants)
        (Recorded.result_guarded_map (expunged.restore_withoutConstants _ _ _)) fun _ _ => rfl

/-- From standard forms that are the same but for the constants, phase one comes to such ends. -/
theorem agree_phaseOne {form other : StandardForm α}
    (h : form.withoutConstants = other.withoutConstants) (settings : Settings α) :
    Agree (fun found found' => found.withoutConstants = found'.withoutConstants)
      (form.phaseOne settings).result (other.phaseOne settings).result := by
  refine .of_map_eq ?_
  rw [← phaseOne_withoutConstants, h, phaseOne_withoutConstants]

end StandardForm

end LinProg
