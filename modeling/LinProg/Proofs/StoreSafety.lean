import LinProg.Proofs.Shapes
import LinProg.Scalar.Exact

/-!
# Solving the models of a store

What calls keep of a model is enough for a solve to put vectors and matrices together without a
fault: every expression mentions existing variables, also after slacks, surpluses and artificial
variables were added. `Store.run_wellFormed` says both, of every model that a caller can come to.

That the program of phase one exists takes a little of the arithmetic. Its objective is a sum of
artificial variables, each with the factor minus one, and the model accepts it when this factor and
zero are finite (`Scalar.FiniteTotal`). -/

namespace LinProg

/-- Arithmetic in which the negated sum of variables has finite numbers. -/
class Scalar.FiniteTotal (α : Type) [Scalar α] : Prop where
  /-- The factor of each variable is finite. -/
  isFinite_neg_one : isFinite (-1 * 1 : α) = true
  /-- Zero is finite. -/
  isFinite_zero : isFinite (0 : α) = true
  /-- The constant is zero, and a variable without a constant keeps it so. -/
  zero_add : (0 : α) + -1 * 0 = 0

/-- Minus one is a rational. -/
instance : Scalar.FiniteTotal ℚ where
  isFinite_neg_one := rfl
  isFinite_zero := rfl
  zero_add := by decide +kernel

/-- Minus one is a double precision number. -/
instance : Scalar.FiniteTotal Float where
  isFinite_neg_one := by decide +kernel
  isFinite_zero := by decide +kernel
  zero_add := by decide +kernel

variable {α : Type} [Scalar α]

/-- The constant of the negated total is zero. -/
theorem Expression.constant_negatedTotal [Scalar.FiniteTotal α] (vs : List Variable) :
    (negatedTotal vs : Expression α).constant = 0 := by
  unfold negatedTotal
  refine List.foldlRecOn (motive := fun e : Expression α => e.constant = 0) _ _ rfl
    fun e he v _ => ?_
  show e.constant + -1 * (0 : α) = 0
  rw [he]
  exact Scalar.FiniteTotal.zero_add

/-- Every standard form has a program of phase one: the model with the artificial variables accepts
their negated total as its objective. -/
theorem StandardForm.exists_phaseOneProgram_of_finiteTotal [Scalar.FiniteTotal α]
    (form : StandardForm α) (hlength : form.slacks.length = form.model.constraints.length) :
    ∃ program, form.phaseOneProgram = .ok program := by
  obtain ⟨N, columns, hattached, hprogram⟩ := form.exists_attached_phaseOneProgram hlength
  have hown : N.requireExpression
      (Expression.negatedTotal (N.vars.drop form.model.vars.length)) = .ok () := by
    refine (Model.requireExpression_eq_ok_iff N _).2
      ⟨fun t ht => ⟨hattached.getElem?_vars_negatedTotal t ht, ?_⟩, ?_⟩
    · rw [hattached.terms_negatedTotal] at ht
      obtain ⟨v, -, rfl⟩ := List.mem_map.1 ht
      exact Scalar.FiniteTotal.isFinite_neg_one
    · rw [Expression.constant_negatedTotal]
      exact Scalar.FiniteTotal.isFinite_zero
  have hmaximize := (Model.optimize_eq_ok_iff N _ .maximize _).2 ⟨hown, rfl⟩
  rw [hprogram]
  exact ⟨_, (bind_eq_ok_iff _ _ _).2 ⟨_, hmaximize, rfl⟩⟩

/-- What a solve of the model puts together has the right shape. -/
structure Model.FitsTogether (M : Model α) : Prop where
  /-- The objective row of the standard form. -/
  objectiveRow : Avoids Fault.isShape (StandardForm.ofModel M).model.objectiveRow
  /-- The first tableau of phase two, where there is no phase one. -/
  tableau : ∀ tolerance, Avoids Fault.isShape ((StandardForm.ofModel M).model.tableau tolerance)
  /-- The objective row of phase one. -/
  objectiveRow_program : ∀ program, (StandardForm.ofModel M).phaseOneProgram = .ok program →
    Avoids Fault.isShape program.model.objectiveRow
  /-- The first tableau of phase one. -/
  tableau_program : ∀ program, (StandardForm.ofModel M).phaseOneProgram = .ok program →
    ∀ tolerance, Avoids Fault.isShape (program.tableau tolerance)
  /-- The solve as a whole. -/
  solve : ∀ settings, Avoids Failure.isShape (M.solve settings).result

/-- A model whose expressions mention existing variables fits together. -/
theorem Model.Scoped.fitsTogether {M : Model α} (hM : M.Scoped) : M.FitsTogether := by
  have hform := StandardForm.scoped_ofModel hM
  have hshape : ∀ program, (StandardForm.ofModel M).phaseOneProgram = .ok program →
      ProgramShape (StandardForm.ofModel M) program := fun program h =>
    programShape_of_eq_ok hform (StandardForm.length_slacks_ofModel M) h
  exact
    { objectiveRow := hform.avoids_objectiveRow
      tableau := hform.avoids_tableau
      objectiveRow_program := fun program h => (hshape program h).isScoped.avoids_objectiveRow
      tableau_program := fun program h => (hshape program h).avoids_tableau
      solve := hM.avoids_solve }

namespace Store

/-- After any calls, refused ones among them, all models of the store are well formed, in any
arithmetic. A call that is refused leaves all of them as they were. No expression has two terms for
one index, when the expressions that are handed over are made by the operations on expressions. What
a solve puts together fits together, and there is a program of phase one where minus one is
finite. -/
theorem run_wellFormed (calls : List (Call α)) :
    (∀ c error, (run calls).call c = .error error → run (calls ++ [c]) = run calls) ∧
    ((∀ k c, .change k c ∈ calls → c.Made) → ∀ M ∈ run calls, M.DistinctTerms) ∧
    ∀ M ∈ run calls, M.WellFormed ∧ M.FitsTogether ∧
      (Scalar.FiniteTotal α →
        ∃ program, (StandardForm.ofModel M).phaseOneProgram = .ok program) := by
  refine ⟨fun c error hrefused => ?_, fun hmade M hM => ?_, fun M hM => ?_⟩
  · unfold run
    rw [List.foldl_append, List.foldl_cons, List.foldl_nil]
    exact after_of_error hrefused
  · obtain ⟨name, changes, rfl, hchanges⟩ := exists_built_of_mem_run hM
    refine Model.distinctTerms_built name fun c hc => ?_
    obtain ⟨k, hk⟩ := hchanges c hc
    exact hmade k c hk
  · obtain ⟨name, changes, rfl, -⟩ := exists_built_of_mem_run hM
    exact ⟨Model.wellFormed_built name changes, (Model.scoped_built name changes).fitsTogether,
      fun _ => StandardForm.exists_phaseOneProgram_of_finiteTotal _
        (StandardForm.length_slacks_ofModel _)⟩

/-- A model that is cloned before its objective is set, with a refused call on the way: the variable
`y` is not one of the model. -/
def clonedCalls : List (Call Float) :=
  [.create "first", .change 0 (.addVariable "x"), .change 0 (.maximize (.ofTerm 1 ⟨0, "y"⟩)),
    .change 0 (.addConstraint ((Expression.ofTerm 2 ⟨0, "x"⟩).add (.ofScalar 1)) .atLeast 3),
    .clone 0, .change 1 (.minimize (.ofTerm 1 ⟨0, "x"⟩))]

/-- The clone has the constraint and the objective, and it needs a phase one, which has a
program. -/
theorem run_wellFormed_cloned :
    (run clonedCalls).length = 2 ∧
    (run [.create "first", .change 0 (.addVariable "x")] : Store Float).call
        (.change 0 (.maximize (.ofTerm 1 ⟨0, "y"⟩))) = .error (.unknownVariable ⟨0, "y"⟩) ∧
    run ([.create "first", .change 0 (.addVariable "x")] ++
        [.change 0 (.maximize (.ofTerm 1 ⟨0, "y"⟩))]) =
      (run [.create "first", .change 0 (.addVariable "x")] : Store Float) ∧
    ∃ M, (run clonedCalls)[1]? = some M ∧ M.constraints.length = 1 ∧ M.WellFormed ∧
      M.DistinctTerms ∧ M.FitsTogether ∧ (StandardForm.ofModel M).needsPhaseOne = true ∧
      ∃ program, (StandardForm.ofModel M).phaseOneProgram = .ok program := by
  have hrefused : (run [.create "first", .change 0 (.addVariable "x")] : Store Float).call
      (.change 0 (.maximize (.ofTerm 1 ⟨0, "y"⟩))) = .error (.unknownVariable ⟨0, "y"⟩) := by
    rfl
  have hmade : ∀ k c, Call.change k c ∈ clonedCalls → c.Made := by
    intro k c hc
    simp only [clonedCalls, List.mem_cons, List.not_mem_nil, or_false, reduceCtorEq, false_or,
      Call.change.injEq] at hc
    rcases hc with ⟨-, rfl⟩ | ⟨-, rfl⟩ | ⟨-, rfl⟩ | ⟨-, rfl⟩
    · trivial
    · exact .term 1 _
    · exact .add (.term 2 _) (.scalar 1)
    · exact .term 1 _
  have hclone : (run clonedCalls)[1]?.map
      (fun M => (M.constraints.length, (StandardForm.ofModel M).needsPhaseOne)) =
        some (1, true) := by
    decide +kernel
  obtain ⟨M, hM, hparts⟩ := Option.map_eq_some_iff.1 hclone
  obtain ⟨hconstraints, hneeds⟩ := Prod.mk.injEq .. ▸ hparts
  obtain ⟨-, hdistinct, hmodels⟩ := run_wellFormed clonedCalls
  have hmem := List.mem_of_getElem? hM
  obtain ⟨hwell, hfits, hprogram⟩ := hmodels M hmem
  exact ⟨by decide +kernel, hrefused, (run_wellFormed _).1 _ _ hrefused, M, hM, hconstraints, hwell,
    hdistinct hmade M hmem, hfits, hneeds, hprogram inferInstance⟩

end Store

end LinProg
