import LinProg.Proofs.BasisScan
import LinProg.Proofs.StandardForm
import LinProg.Proofs.TableauModels

/-!
# What a solution answers

An optimal solution keeps the values of all columns of the standard form: first those of the
model's own variables, then one for each inequality. It is asked by number only. So for the model
that was solved it answers with the values of the variables, but for a model that has grown since,
the value of a slack or a surplus stands where that of a new variable would be, until there are more
new variables than such columns (`Model.solve_answers_by_index`). -/

namespace LinProg

namespace Model

variable {α : Type} [Scalar α]

/-- A call leaves the variables that there are in their places. -/
theorem vars_prefix_after (M : Model α) (c : Call α) : M.vars <+: (M.after c).vars := by
  cases h : M.call c with
  | error error => rw [after_of_error h]
  | ok N =>
    rw [after_of_ok h]
    cases c with
    | addVariable name =>
      cases h
      exact List.prefix_append _ _
    | addConstraint e relation bound =>
      obtain ⟨-, -, -, rfl⟩ := (addConstraint_eq_ok_iff M N e relation bound).1 h
      exact List.prefix_rfl
    | maximize e =>
      obtain ⟨-, rfl⟩ := (optimize_eq_ok_iff M N .maximize e).1 h
      exact List.prefix_rfl
    | minimize e =>
      obtain ⟨-, rfl⟩ := (optimize_eq_ok_iff M N .minimize e).1 h
      exact List.prefix_rfl
    | simplify =>
      cases h
      exact List.prefix_rfl

/-- Further calls leave the variables that there are in their places. -/
theorem vars_prefix_foldl_after (M : Model α) (calls : List (Call α)) :
    M.vars <+: (calls.foldl after M).vars := by
  induction calls generalizing M with
  | nil => exact List.prefix_rfl
  | cons c calls ih => exact (M.vars_prefix_after c).trans (ih _)

end Model

namespace Solution

variable {α : Type} {s : Solution α} {own auxiliary : List α} {value : α}

/-- A solution answers a model with as many values as it has variables, from the front on. -/
theorem assignment_of_optimal (h : s.verdict = .optimal (own ++ auxiliary) value) {M : Model α}
    (hle : own.length ≤ M.vars.length) :
    s.assignment M = if M.vars.length ≤ own.length + auxiliary.length then
      some (own ++ auxiliary.take (M.vars.length - own.length)) else none := by
  unfold assignment
  rw [h]
  dsimp only
  rw [List.length_append, List.take_append, List.take_of_length_le hle]

/-- A solution answers a variable with the value at its index. -/
theorem value_of_optimal (h : s.verdict = .optimal (own ++ auxiliary) value) (v : Variable) :
    s.value v = if v.index < own.length then own[v.index]?
      else auxiliary[v.index - own.length]? := by
  unfold Solution.value
  rw [h]
  exact List.getElem?_append

end Solution

namespace Model

variable {α : Type} [Scalar α]

/-- The values of an optimal solution are those of the model's own variables and one for each
inequality, which stand for the columns of the last tableau. The solution answers the model that was
solved with the values of its variables. It answers a model that further calls have made of it with
these and then, for the new variables, with the values of the added columns; there is no answer once
there are more new variables than added columns. A variable is answered with the value at its index,
be it that of an added column. -/
theorem solve_answers_by_index (name : String) (calls : List (Call α)) {settings : Settings α}
    {s : Solution α} (h : ((built name calls).solve settings).result = .ok s)
    (hoptimal : s.isOptimal = true) :
    let M : Model α := built name calls
    ∃ own auxiliary added,
      s.finalTableau.assignment = own ++ auxiliary ∧ s.finalTableau.model.vars = M.vars ++ added ∧
      own.length = M.vars.length ∧ auxiliary.length = added.length ∧
      added.length = (M.constraints.filter (·.relation ≠ .equal)).length ∧
      s.assignment M = some own ∧
      (∀ later : List (Call α), M.vars <+: (later.foldl after M).vars ∧
        s.assignment (later.foldl after M) =
          let created := (later.foldl after M).vars.length - M.vars.length
          if created ≤ auxiliary.length then some (own ++ auxiliary.take created) else none) ∧
      ∀ v : Variable, s.value v = if v.index < M.vars.length then own[v.index]?
        else auxiliary[v.index - M.vars.length]? := by
  intro M
  obtain ⟨o, phase, -, value, ho, -, hphase, hfinal, hverdict, -⟩ :=
    exists_phase_of_isOptimal h hoptimal
  obtain ⟨added, hvars, hadded⟩ := StandardForm.exists_vars_ofModel M
  have hmodel : s.finalTableau.model = (StandardForm.ofModel M).model := by
    rw [hfinal]
    exact hphase.model_of_mem_visited _ phase.last_mem_visited
  have hlength : s.finalTableau.assignment.length = M.vars.length + added.length := by
    rw [Tableau.length_assignment, Tableau.columns_eq_of_model_eq hmodel, hvars,
      List.length_append]
  -- The values of the model's own variables are the front of the assignment.
  obtain ⟨own, auxiliary, hvalues, hown⟩ :
      ∃ own auxiliary, s.finalTableau.assignment = own ++ auxiliary ∧
        own.length = M.vars.length := by
    refine ⟨_, _, (List.take_append_drop M.vars.length _).symm, ?_⟩
    rw [List.length_take]
    omega
  rw [← hfinal, hvalues] at hverdict
  rw [hvalues, List.length_append, hown] at hlength
  have hanswer := fun (N : Model α) (hle : M.vars.length ≤ N.vars.length) =>
    s.assignment_of_optimal hverdict (M := N) (by rw [hown]; exact hle)
  refine ⟨own, auxiliary, added, hvalues, by rw [hmodel, hvars], hown, by omega, hadded, ?_,
    fun later => ⟨M.vars_prefix_foldl_after later, ?_⟩, fun v => ?_⟩
  · rw [hanswer M le_rfl, hown, if_pos (Nat.le_add_right _ _), Nat.sub_self, List.take_zero,
      List.append_nil]
  · have hle := (M.vars_prefix_foldl_after later).length_le
    rw [hanswer _ hle, hown]
    dsimp only
    simp only [Nat.sub_le_iff_le_add']
  · rw [s.value_of_optimal hverdict, hown]

/-- Make `x` small, which is at most five. -/
def boundedCalls : List (Call Float) :=
  let x : Variable := ⟨0, "x"⟩
  [.addVariable "x", .addConstraint ⟨[⟨1, x⟩], 0⟩ .atMost 5, .minimize ⟨[⟨1, x⟩], 0⟩]

/-- The bounded model has an optimal solution, which answers in this way. -/
theorem solve_answers_by_index_bounded :
    let M : Model Float := built "bounded" boundedCalls
    ∃ s, (M.solve Settings.standard).result = .ok s ∧ s.isOptimal = true ∧
    ∃ own auxiliary added,
      s.finalTableau.assignment = own ++ auxiliary ∧ s.finalTableau.model.vars = M.vars ++ added ∧
      own.length = M.vars.length ∧ auxiliary.length = added.length ∧
      added.length = (M.constraints.filter (·.relation ≠ .equal)).length ∧
      s.assignment M = some own ∧
      (∀ later : List (Call Float), M.vars <+: (later.foldl after M).vars ∧
        s.assignment (later.foldl after M) =
          let created := (later.foldl after M).vars.length - M.vars.length
          if created ≤ auxiliary.length then some (own ++ auxiliary.take created) else none) ∧
      ∀ v : Variable, s.value v = if v.index < M.vars.length then own[v.index]?
        else auxiliary[v.index - M.vars.length]? := by
  intro M
  have hresult : (match (M.solve Settings.standard).result with
      | .ok s => s.isOptimal
      | .error _ => false) = true := by
    decide +kernel
  split at hresult
  · rename_i s hs
    exact ⟨s, hs, hresult, solve_answers_by_index "bounded" boundedCalls hs hresult⟩
  · exact absurd hresult Bool.false_ne_true

/-- A variable that is created after the solve is answered with the value of the slack. -/
theorem solve_answers_slack_bounded :
    let M : Model Float := built "bounded" boundedCalls
    let N := M.after (.addVariable "y")
    ∃ s, (M.solve Settings.standard).result = .ok s ∧ s.isOptimal = true ∧
      N.vars = M.vars ++ [⟨1, "y"⟩] ∧ s.finalTableau.model.vars = M.vars ++ [⟨1, "s0"⟩] ∧
      s.assignment M = some [0] ∧ s.assignment N = some [0, 5] ∧ s.value ⟨1, "y"⟩ = some 5 := by
  intro M N
  have hresult : (match (M.solve Settings.standard).result with
      | .ok s => s.isOptimal && decide (s.finalTableau.model.vars = M.vars ++ [⟨1, "s0"⟩]) &&
          decide (s.assignment M = some [0] ∧ s.assignment N = some [0, 5] ∧
            s.value ⟨1, "y"⟩ = some 5)
      | .error _ => false) = true := by
    decide +kernel
  split at hresult
  · rename_i s hs
    simp only [Bool.and_eq_true, decide_eq_true_eq] at hresult
    obtain ⟨⟨hoptimal, hvars⟩, hanswers⟩ := hresult
    exact ⟨s, hs, hoptimal, rfl, hvars, hanswers⟩
  · exact absurd hresult Bool.false_ne_true

end Model

end LinProg
