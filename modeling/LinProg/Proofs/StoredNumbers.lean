import LinProg.Proofs.Binary64Overflow
import LinProg.Proofs.ModelStore
import LinProg.Proofs.StandardForm

/-!
# The numbers that a model keeps

A model is asked to add a constraint with certain numbers, and it refuses those that are not finite
(`Model.exists_addConstraint`, `Model.exists_nonFinite_addConstraint`). The constant is moved to the
bound after that, and nobody looks at the difference. So every constraint of a model that calls
build has finite coefficients and no constant, and its bound is the difference of two finite numbers
(`Model.exists_storedBy_built`). In double precision this is a number, but it can be infinite, and
`Model.built_numbers` says where: from a difference of `2 ^ 1024 - 2 ^ 970` on. -/

namespace LinProg

open Scalar Scalar.Binary64

variable {α : Type} [Scalar α]

namespace Model

/-! ## Acceptance and refusal -/

section Accept

variable {M : Model α} {e : Expression α}
  (hown : ∀ t ∈ e.terms, M.vars[t.var.index]? = some t.var)
include hown

/-- Of expressions over its own variables the model accepts the finite ones. -/
theorem requireExpression_eq_ok_iff_finite : M.requireExpression e = .ok () ↔ e.Finite := by
  rw [requireExpression_eq_ok_iff]
  exact and_congr_left fun _ => forall₂_congr fun t ht => and_iff_right (hown t ht)

/-- An expression over the model's own variables is refused for a number that is not finite. -/
theorem exists_nonFinite_requireExpression (h : ¬e.Finite) :
    ∃ quantity, M.requireExpression e = .error (.nonFinite quantity) := by
  rw [← requireExpression_eq_ok_iff_finite hown] at h
  unfold requireExpression expressionError? at h ⊢
  cases hterms : e.terms.findSome? M.termError? with
  | some error =>
    obtain ⟨t, ht, herror⟩ := List.exists_of_findSome?_eq_some hterms
    unfold termError? at herror
    rw [if_neg (not_not.2 (hown t ht))] at herror
    split_ifs at herror
    cases herror
    exact ⟨_, rfl⟩
  | none =>
    rw [hterms] at h
    cases hconstant : isFinite e.constant with
    | true => simp [hconstant] at h
    | false => exact ⟨.constantTerm, by simp⟩

variable (hterm : e.isConstant = false) (relation : Relation) {bound : α}
include hterm

/-- A constraint with finite numbers is added, with its constant moved to the bound. -/
theorem exists_addConstraint (hfinite : e.Finite) (hbound : isFinite bound = true) :
    ∃ c, M.addConstraint e relation bound = .ok { M with constraints := M.constraints ++ [c] } ∧
      c.bound = bound - e.constant :=
  ⟨_, (addConstraint_eq_ok_iff M _ e relation bound).2
    ⟨(requireExpression_eq_ok_iff_finite hown).2 hfinite, hterm, hbound, rfl⟩, rfl⟩

/-- A constraint with a number that is not finite is refused for it. -/
theorem exists_nonFinite_addConstraint (h : ¬(e.Finite ∧ isFinite bound = true)) :
    ∃ quantity, M.addConstraint e relation bound = .error (.nonFinite quantity) := by
  rw [addConstraint_eq]
  unfold nextConstraint
  by_cases hfinite : e.Finite
  · have hbound : isFinite bound = false := by
      rw [Bool.eq_false_iff]
      exact fun hbound => h ⟨hfinite, hbound⟩
    rw [(requireExpression_eq_ok_iff_finite hown).2 hfinite, hterm, hbound]
    exact ⟨_, rfl⟩
  · obtain ⟨quantity, hrefused⟩ := exists_nonFinite_requireExpression hown hfinite
    rw [hrefused]
    exact ⟨quantity, rfl⟩

end Accept

/-! ## Where the numbers come from -/

/-- The constraint is what is left of a call with the expression and the bound, after its numbers
were found to be finite and the constant was moved. -/
structure StoredBy (calls : List (Call α)) (c : Constraint α) (e : Expression α) (bound : α) :
    Prop where
  /-- The call is one of those that were made. -/
  mem : .addConstraint e c.relation bound ∈ calls
  /-- The numbers of the expression were finite. -/
  finite : e.Finite
  /-- The bound was finite. -/
  isFinite_bound : isFinite bound = true
  /-- The terms are those of the expression. -/
  expression_eq : c.expression = e.dropConstant
  /-- The bound is the one of the call less the constant. -/
  bound_eq : c.bound = bound - e.constant

/-- Further calls do not matter. -/
theorem StoredBy.mono {calls later : List (Call α)} {c : Constraint α} {e : Expression α}
    {bound : α} (h : StoredBy calls c e bound) (hsub : calls ⊆ later) :
    StoredBy later c e bound :=
  { h with mem := hsub h.mem }

/-- The numbers of an expression that is not refused are finite. -/
theorem finite_of_requireExpression {M : Model α} {e : Expression α}
    (h : M.requireExpression e = .ok ()) : e.Finite := by
  obtain ⟨hterms, hconstant⟩ := (requireExpression_eq_ok_iff M e).1 h
  exact ⟨fun t ht => (hterms t ht).2, hconstant⟩

/-- A constraint was there before a call, or comes of it. Moving a constant that has been moved
changes nothing. -/
theorem mem_constraints_call [SignSymmetric α] {M N : Model α} {d : Call α}
    (hM : ∀ c ∈ M.constraints, c.expression.constant = 0) (h : M.call d = .ok N)
    {c : Constraint α} (hc : c ∈ N.constraints) :
    c ∈ M.constraints ∨ ∃ e bound, StoredBy [d] c e bound := by
  cases d with
  | addVariable name =>
    cases h
    exact Or.inl hc
  | addConstraint e relation bound =>
    obtain ⟨he, -, hbound, rfl⟩ := (addConstraint_eq_ok_iff M N e relation bound).1 h
    rcases List.mem_append.1 hc with hold | hnew
    · exact Or.inl hold
    · rw [List.mem_singleton.1 hnew]
      exact Or.inr ⟨e, bound, List.mem_singleton.2 rfl, finite_of_requireExpression he, hbound,
        rfl, rfl⟩
  | maximize e =>
    obtain ⟨-, rfl⟩ := (optimize_eq_ok_iff M N .maximize e).1 h
    exact Or.inl hc
  | minimize e =>
    obtain ⟨-, rfl⟩ := (optimize_eq_ok_iff M N .minimize e).1 h
    exact Or.inl hc
  | simplify =>
    cases h
    obtain ⟨d, hd, rfl⟩ := List.mem_map.1 hc
    rw [Constraint.simplify_of_sub_zero (SignSymmetric.sub_zero _) (hM d hd)]
    exact Or.inl hd

/-- Every constraint of a model comes of one of the calls that built it. -/
theorem exists_storedBy_built [SignSymmetric α] (name : String) (calls : List (Call α)) :
    ∀ c ∈ (built name calls).constraints, ∃ e bound, StoredBy calls c e bound := by
  induction calls using List.reverseRecOn with
  | nil => exact nofun
  | append_singleton calls d ih =>
    intro c hc
    have hold : c ∈ (built name calls).constraints →
        ∃ e bound, StoredBy (calls ++ [d]) c e bound := by
      intro hc
      obtain ⟨e, bound, hstored⟩ := ih c hc
      exact ⟨e, bound, hstored.mono (List.subset_append_left _ _)⟩
    rw [built_append_singleton] at hc
    cases hcall : (built name calls).call d with
    | error error =>
      rw [after_of_error hcall] at hc
      exact hold hc
    | ok N =>
      rw [after_of_ok hcall] at hc
      rcases mem_constraints_call (wellFormed_built name calls).constant_eq hcall hc with
        hbefore | ⟨e, bound, hstored⟩
      · exact hold hbefore
      · exact ⟨e, bound, hstored.mono (List.subset_append_right _ _)⟩

/-- An objective that a call sets has finite numbers. -/
theorem finite_objective_call {M N : Model α} {d : Call α}
    (hM : ∀ o, M.objective = some o → o.expression.Finite) (h : M.call d = .ok N) :
    ∀ o, N.objective = some o → o.expression.Finite := by
  intro o ho
  cases d with
  | addVariable name =>
    cases h
    exact hM o ho
  | addConstraint e relation bound =>
    obtain ⟨-, -, -, rfl⟩ := (addConstraint_eq_ok_iff M N e relation bound).1 h
    exact hM o ho
  | maximize e =>
    obtain ⟨he, rfl⟩ := (optimize_eq_ok_iff M N .maximize e).1 h
    cases ho
    exact finite_of_requireExpression he
  | minimize e =>
    obtain ⟨he, rfl⟩ := (optimize_eq_ok_iff M N .minimize e).1 h
    cases ho
    exact finite_of_requireExpression he
  | simplify =>
    cases h
    exact hM o ho

/-- The objective of a model has finite numbers. -/
theorem finite_objective_built (name : String) (calls : List (Call α)) :
    ∀ o, (built name calls).objective = some o → o.expression.Finite :=
  built_induction (fun _ => nofun) (fun _ _ _ => finite_objective_call) name calls

/-! ## Double precision -/

/-- What calls leave in a model of double precision numbers. The objective is finite, and so are the
terms of the constraints. The bound of a constraint is a difference of two finite numbers, each of
which has been checked, and it is finite as long as the two are closer than `2 ^ 1024 - 2 ^ 970`. A
constraint over the model's own variables is added when the numbers that are handed over are finite,
with a bound to which the same applies, and otherwise it is refused for one of them. -/
theorem built_numbers (name : String) (calls : List (Call Float)) :
    (∀ o, (built name calls).objective = some o → o.expression.Finite) ∧
    (∀ c ∈ (built name calls).constraints, c.expression.Finite ∧
      ∃ e bound, StoredBy calls c e bound ∧ c.bound.isNaN = false ∧
        (c.bound.isFinite = true ↔ |value bound - value e.constant| < overflowBound)) ∧
    ∀ (e : Expression Float) (relation : Relation) (bound : Float),
      (∀ t ∈ e.terms, (built name calls).vars[t.var.index]? = some t.var) →
      e.isConstant = false →
        (e.Finite ∧ bound.isFinite = true →
          ∃ c, (built name calls).addConstraint e relation bound =
              .ok { built name calls with
                constraints := (built name calls).constraints ++ [c] } ∧
            (c.bound.isFinite = true ↔ |value bound - value e.constant| < overflowBound)) ∧
        (¬(e.Finite ∧ bound.isFinite = true) →
          ∃ quantity, (built name calls).addConstraint e relation bound =
            .error (.nonFinite quantity)) := by
  refine ⟨finite_objective_built name calls, fun c hc => ?_,
    fun e relation bound hown hterm => ⟨fun hfinite => ?_,
      exists_nonFinite_addConstraint hown hterm relation⟩⟩
  · obtain ⟨e, bound, hstored⟩ := exists_storedBy_built name calls c hc
    have hzero : isFinite (0 : Float) = true := by decide +kernel
    have hexpression : c.expression.Finite := by
      rw [hstored.expression_eq]
      exact ⟨hstored.finite.1, hzero⟩
    refine ⟨hexpression, e, bound, hstored, ?_, ?_⟩
    · rw [hstored.bound_eq]
      exact isNaN_sub hstored.isFinite_bound hstored.finite.2
    · rw [hstored.bound_eq]
      exact isFinite_sub_iff hstored.isFinite_bound hstored.finite.2
  · obtain ⟨hfinite, hbound⟩ := hfinite
    obtain ⟨c, hadd, hdifference⟩ := exists_addConstraint hown hterm relation hfinite hbound
    refine ⟨c, hadd, ?_⟩
    rw [hdifference]
    exact isFinite_sub_iff hbound hfinite.2

/-- The expression `x - 10 ^ 308`. -/
def farExpression : Expression Float :=
  (Expression.ofTerm 1 ⟨0, "x"⟩).add (.ofScalar (-1e308))

/-- Calls that build a model with the constraint `x - 10 ^ 308 <= 10 ^ 308`. -/
def farCalls : List (Call Float) :=
  [.addVariable "x", .addConstraint farExpression .atMost 1e308]

/-- The numbers of these calls are finite, and the bound that the model keeps is not. -/
theorem built_numbers_far :
    farExpression.Finite ∧ (1e308 : Float).isFinite = true ∧
      (built "far" farCalls).constraints.length = 1 ∧
      ¬∀ c ∈ (built "far" farCalls).constraints, c.bound.isFinite = true := by
  refine ⟨⟨?_, ?_⟩, ?_, ?_, ?_⟩ <;> decide +kernel

/-- The bound is a difference that is too large. The model with this constraint adds another one
with a finite bound, and refuses an infinite one. -/
theorem built_numbers_near :
    (∃ c ∈ (built "far" farCalls).constraints, ∃ e bound, StoredBy farCalls c e bound ∧
      overflowBound ≤ |value bound - value e.constant|) ∧
    (∃ c, (built "far" farCalls).addConstraint (.ofTerm 2 ⟨0, "x"⟩) .atLeast 3 =
        .ok { built "far" farCalls with
          constraints := (built "far" farCalls).constraints ++ [c] } ∧
      c.bound.isFinite = true) ∧
    ∃ quantity, (built "far" farCalls).addConstraint (.ofTerm 2 ⟨0, "x"⟩) .atLeast (1 / 0) =
      .error (.nonFinite quantity) := by
  obtain ⟨-, hstored, hadd⟩ := built_numbers "far" farCalls
  have hown : ∀ t ∈ (Expression.ofTerm (2 : Float) ⟨0, "x"⟩).terms,
      (built "far" farCalls).vars[t.var.index]? = some t.var := by
    decide +kernel
  have hterm : (Expression.ofTerm (2 : Float) ⟨0, "x"⟩).isConstant = false := by decide +kernel
  have hfinite : (Expression.ofTerm (2 : Float) ⟨0, "x"⟩).Finite :=
    ⟨by decide +kernel, by decide +kernel⟩
  have hnear : |value (3 : Float) - value 0| < overflowBound :=
    (isFinite_sub_iff (by decide +kernel) (by decide +kernel)).1 (by decide +kernel)
  refine ⟨?_, ?_, ?_⟩
  · have hinfinite : ∃ c ∈ (built "far" farCalls).constraints, c.bound.isFinite = false := by
      decide +kernel
    obtain ⟨c, hc, hbound⟩ := hinfinite
    obtain ⟨-, e, bound, hcall, -, hiff⟩ := hstored c hc
    refine ⟨c, hc, e, bound, hcall, not_lt.1 fun hlt => ?_⟩
    rw [hiff.2 hlt] at hbound
    cases hbound
  · obtain ⟨c, hok, hiff⟩ := (hadd _ .atLeast 3 hown hterm).1 ⟨hfinite, by decide +kernel⟩
    exact ⟨c, hok, hiff.2 hnear⟩
  · have hinfinite : (1 / 0 : Float).isFinite = false := by decide +kernel
    refine (hadd _ .atLeast (1 / 0) hown hterm).2 fun h => ?_
    rw [hinfinite] at h
    cases h.2

end Model

end LinProg
