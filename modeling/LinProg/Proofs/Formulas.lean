import LinProg.Proofs.ModelStore

/-!
# The value of a formula

To build an expression and to evaluate it gives the value of the formula read as arithmetic
(`Formula.evaluate_expression`), whichever of the ways to write down a sum, a difference or a
multiple was taken.

Two readings of an expression meet here. The operations on expressions work term by term, so each of
them does to the sum of the terms (`termSum`) what its sign says, whether terms are merged or not.
The evaluation goes through a vector in which a later term overwrites an earlier one, and gives this
sum only because no index comes twice (`Expression.Distinct.linear_eq_termSum`). -/

namespace LinProg

/-! ## The sum of the terms -/

/-- The sum of the coefficients times the values of their variables, term by term. -/
def termSum (x : ℕ → ℚ) : List (Term ℚ) → ℚ
  | [] => 0
  | t :: terms => t.coefficient * x t.var.index + termSum x terms

/-- The sum of terms that are put together. -/
theorem termSum_append (x : ℕ → ℚ) (terms later : List (Term ℚ)) :
    termSum x (terms ++ later) = termSum x terms + termSum x later := by
  induction terms with
  | nil => exact (zero_add _).symm
  | cons t terms ih =>
    rw [List.cons_append, termSum, termSum, ih]
    ring

namespace Expression

/-- The sum of the terms and the constant. -/
def total (e : Expression ℚ) (x : ℕ → ℚ) : ℚ :=
  termSum x e.terms + e.constant

/-- A further term adds its multiple of the value, also when it is merged with an earlier one. -/
theorem termSum_push (e : Expression ℚ) (c : ℚ) (v : Variable) (x : ℕ → ℚ) :
    termSum x (e.push c v).terms = termSum x e.terms + c * x v.index := by
  cases hk : e.position? v.index with
  | none =>
    simp only [push, hk, termSum_append, termSum, add_zero]
  | some k =>
    obtain ⟨hlt, hfound, -⟩ := List.findIdx?_eq_some_iff_getElem.1 hk
    have hindex : e.terms[k].var.index = v.index := by simpa using hfound
    -- The terms before and after the one that grows are the same.
    have hsplit : termSum x e.terms =
        termSum x (e.terms.take k ++ e.terms[k] :: e.terms.drop (k + 1)) := by
      rw [List.cons_getElem_drop_succ, List.take_append_drop]
    rw [hsplit]
    simp only [push, hk, List.modify_eq_take_cons_drop hlt, termSum_append, termSum, hindex]
    ring

/-- A single term is worth its multiple of the value. -/
theorem total_ofTerm (c : ℚ) (v : Variable) (x : ℕ → ℚ) :
    (ofTerm c v).total x = c * x v.index := by
  have hempty : termSum x (empty : Expression ℚ).terms = 0 := rfl
  have hconstant : (ofTerm c v).constant = 0 := constant_push empty c v
  rw [total, hconstant, add_zero, ofTerm, termSum_push, hempty, zero_add]

/-- Adding a multiple of an expression adds the multiple of its value. -/
theorem total_accumulate (a b : Expression ℚ) (factor : ℚ) (x : ℕ → ℚ) :
    (a.accumulate b factor).total x = a.total x + factor * b.total x := by
  have hterms : ∀ (terms : List (Term ℚ)) (e : Expression ℚ),
      termSum x (terms.foldl (fun sum t => sum.push (factor * t.coefficient) t.var) e).terms =
        termSum x e.terms + factor * termSum x terms := by
    intro terms
    induction terms with
    | nil =>
      intro e
      rw [List.foldl_nil, termSum, mul_zero, add_zero]
    | cons t terms ih =>
      intro e
      rw [List.foldl_cons, ih, termSum_push, termSum]
      ring
  have hsum : termSum x (a.accumulate b factor).terms =
      termSum x a.terms + factor * termSum x b.terms := hterms b.terms a
  have hconstant : (a.accumulate b factor).constant = a.constant + factor * b.constant := rfl
  unfold total
  rw [hsum, hconstant]
  ring

/-- Multiplying an expression multiplies its value. -/
theorem total_scale (e : Expression ℚ) (factor : ℚ) (x : ℕ → ℚ) :
    (e.scale factor).total x = e.total x * factor := by
  have hterms : ∀ terms : List (Term ℚ),
      termSum x (terms.map fun t => { t with coefficient := t.coefficient * factor }) =
        termSum x terms * factor := by
    intro terms
    induction terms with
    | nil => exact (zero_mul factor).symm
    | cons t terms ih =>
      rw [List.map_cons, termSum, termSum, ih]
      ring
  have hsum : termSum x (e.scale factor).terms = termSum x e.terms * factor := hterms e.terms
  have hconstant : (e.scale factor).constant = e.constant * factor := rfl
  unfold total
  rw [hsum, hconstant, add_mul]

/-- The sum has the sum of the values. -/
theorem total_add (a b : Expression ℚ) (x : ℕ → ℚ) :
    (a.add b).total x = a.total x + b.total x := by
  rw [add, total_accumulate, one_mul]

/-- The difference has the difference of the values. -/
theorem total_subtract (a b : Expression ℚ) (x : ℕ → ℚ) :
    (a.subtract b).total x = a.total x - b.total x := by
  rw [subtract, total_accumulate]
  ring

/-- When no index comes twice, the vector of coefficients gives the sum of the terms. -/
theorem Distinct.linear_eq_termSum {e : Expression ℚ} (h : e.Distinct) {width : ℕ}
    (hwithin : e.Within width) (x : ℕ → ℚ) : e.linear width x = termSum x e.terms := by
  obtain ⟨terms, k⟩ := e
  -- From the last term on, which is one for a variable that did not come up before.
  induction terms using List.reverseRecOn with
  | nil => simp [linear, coefficientAt, termSum]
  | append_singleton terms t ih =>
    unfold Distinct vars at h
    rw [List.map_append, List.map_append, List.nodup_append] at h
    obtain ⟨hfront, -, hapart⟩ := h
    have hnew : ∀ s ∈ terms, s.var.index ≠ t.var.index := fun s hs =>
      hapart _ (List.mem_map_of_mem (List.mem_map_of_mem hs)) _ (by simp)
    have hpush : (⟨terms ++ [t], k⟩ : Expression ℚ) =
        (⟨terms, k⟩ : Expression ℚ).push t.coefficient t.var := by
      have hterms := terms_push_of_ne (e := ⟨terms, k⟩) hnew t.coefficient
      have hconstant := constant_push (⟨terms, k⟩ : Expression ℚ) t.coefficient t.var
      calc (⟨terms ++ [t], k⟩ : Expression ℚ)
          = ⟨((⟨terms, k⟩ : Expression ℚ).push t.coefficient t.var).terms,
              ((⟨terms, k⟩ : Expression ℚ).push t.coefficient t.var).constant⟩ := by
            rw [hterms, hconstant]
        _ = (⟨terms, k⟩ : Expression ℚ).push t.coefficient t.var := rfl
    rw [hpush, linear_push hnew (hwithin t (by simp)), termSum_push,
      ih hfront fun s hs => hwithin s (List.mem_append_left _ hs)]

end Expression

/-! ## Operands -/

/-- A multiple of an operand has the multiple of its value. -/
theorem Operand.total_times (c : ℚ) (a : Operand ℚ) (x : ℕ → ℚ) :
    (a.times c).total x = c * a.toExpression.total x := by
  cases a with
  | scalar k => exact (Expression.total_scale _ c x).trans (mul_comm _ _)
  | expression e => exact (e.total_scale c x).trans (mul_comm _ _)
  | var v =>
    have hone : (Expression.ofVariable v).total x = 1 * x v.index := Expression.total_ofTerm 1 v x
    calc (Expression.ofTerm c v).total x = c * x v.index := Expression.total_ofTerm c v x
      _ = c * (Expression.ofVariable v).total x := by rw [hone, one_mul]

/-- The opposite of an operand is worth its multiple by minus one. -/
theorem Operand.total_opposite (a : Operand ℚ) (x : ℕ → ℚ) :
    a.opposite.total x = -a.toExpression.total x := by
  have htimes : a.opposite = a.times (-1) := by cases a <;> rfl
  rw [htimes, total_times, neg_one_mul]

/-! ## Formulas -/

namespace Formula

/-- The expression of a formula is worth what the formula is worth as arithmetic. -/
theorem total_expression (f : Formula ℚ) (x : ℕ → ℚ) : f.expression.total x = f.value x := by
  induction f with
  | scalar k => exact zero_add k
  | empty => exact add_zero 0
  | var v => exact (Expression.total_ofTerm 1 v x).trans (one_mul _)
  | ofVariable v => exact (Expression.total_ofTerm 1 v x).trans (one_mul _)
  | term c v => exact Expression.total_ofTerm c v x
  | add a b iha ihb =>
    show (a.expression.add b.expression).total x = a.value x + b.value x
    rw [Expression.total_add, iha, ihb]
  | subtract a b iha ihb =>
    show (a.expression.subtract b.expression).total x = a.value x - b.value x
    rw [Expression.total_subtract, iha, ihb]
  | scale a c ih =>
    show (a.expression.scale c).total x = a.value x * c
    rw [Expression.total_scale, ih]
  | negate a ih =>
    show (a.expression.scale (-1)).total x = -a.value x
    rw [Expression.total_scale, ih, mul_neg_one]
  | times c a ih =>
    show (a.operand.times c).total x = c * a.value x
    rw [Operand.total_times, ← ih]
    rfl
  | opposite a ih =>
    show a.operand.opposite.total x = -a.value x
    rw [Operand.total_opposite, ← ih]
    rfl
  | call method receiver argument ihr iha =>
    cases method with
    | add =>
      show (receiver.expression.add argument.expression).total x = _ + _
      rw [Expression.total_add, ihr, iha]
    | reflectedAdd =>
      -- The receiver comes first, although it stands on the right of the sign.
      show (receiver.expression.add argument.expression).total x = argument.value x + _
      rw [Expression.total_add, ihr, iha, add_comm]
    | subtract =>
      show (receiver.expression.subtract argument.expression).total x = _ - _
      rw [Expression.total_subtract, ihr, iha]
    | reflectedSubtract =>
      show (argument.expression.subtract receiver.expression).total x = _ - _
      rw [Expression.total_subtract, iha, ihr]

/-- The variables of the expression fit into a vector when those that occur in the formula do. -/
theorem within_expression {f : Formula ℚ} {n : ℕ} (h : ∀ v ∈ f.occurrences, v.index < n) :
    f.expression.Within n := by
  intro t ht
  have hleader := (f.mem_vars_expression_iff t.var).1 (List.mem_map_of_mem ht)
  exact h t.var (index_of_leader hleader).1

/-- The expression of a formula is evaluated to the value of the formula, read as arithmetic over
the values, when every variable has a value and the vector of values can be addressed. Another
formula that has the same value is evaluated alike. -/
theorem evaluate_expression (f : Formula ℚ) {values : List ℚ}
    (hlength : values.length ≤ Expression.maxDenseLength)
    (hvars : ∀ v ∈ f.occurrences, v.index < values.length) :
    f.expression.evaluate values = .ok (f.value (Row.entry values)) ∧
    ∀ g : Formula ℚ, (∀ v ∈ g.occurrences, v.index < values.length) →
      g.value (Row.entry values) = f.value (Row.entry values) →
        g.expression.evaluate values = f.expression.evaluate values := by
  have heval : ∀ g : Formula ℚ, (∀ v ∈ g.occurrences, v.index < values.length) →
      g.expression.evaluate values = .ok (g.value (Row.entry values)) := by
    intro g hg
    have hwithin := within_expression hg
    refine (Expression.evaluate_eq_ok_iff _ _ _).2 ⟨hlength, hwithin, ?_⟩
    rw [g.made_expression.distinct.linear_eq_termSum hwithin, ← g.total_expression]
    rfl
  refine ⟨heval f hvars, fun g hg hvalue => ?_⟩
  rw [heval g hg, heval f hvars, hvalue]

/-- The formula `5 - (2 x + (y - x))`, by the reflected difference of an expression in which the
terms of `x` were merged. -/
def reflectedFormula : Formula ℚ :=
  .call .reflectedSubtract
    (.call .add (.times 2 (.var ⟨0, "x"⟩)) (.call .subtract (.var ⟨2, "y"⟩) (.var ⟨0, "x"⟩)))
    (.scalar 5)

/-- The formula `-(x + 1 y) + 5`, by functions on expressions. -/
def plainFormula : Formula ℚ :=
  .add (.negate (.add (.ofVariable ⟨0, "x"⟩) (.scale (.ofVariable ⟨2, "y"⟩) 1))) (.scalar 5)

/-- Both formulas are worth `5 / 2` where `x` is `3` and `y` is `-1 / 2`. -/
theorem evaluate_expression_reflected :
    ([3, 7, -1 / 2] : List ℚ).length ≤ Expression.maxDenseLength ∧
    (∀ v ∈ reflectedFormula.occurrences, v.index < ([3, 7, -1 / 2] : List ℚ).length) ∧
    reflectedFormula.expression.evaluate [3, 7, -1 / 2] = .ok (5 / 2) ∧
    plainFormula.expression.evaluate [3, 7, -1 / 2] =
      reflectedFormula.expression.evaluate [3, 7, -1 / 2] := by
  have hlength : ([3, 7, -1 / 2] : List ℚ).length ≤ Expression.maxDenseLength := by
    decide
  have hvars : ∀ v ∈ reflectedFormula.occurrences,
      v.index < ([3, 7, -1 / 2] : List ℚ).length := by
    decide
  have hvalue : reflectedFormula.value (Row.entry [3, 7, -1 / 2]) = 5 / 2 := by decide +kernel
  have hplain : plainFormula.value (Row.entry [3, 7, -1 / 2]) =
      reflectedFormula.value (Row.entry [3, 7, -1 / 2]) := by
    decide +kernel
  obtain ⟨heval, hagree⟩ := evaluate_expression reflectedFormula hlength hvars
  exact ⟨hlength, hvars, heval.trans (by rw [hvalue]), hagree plainFormula (by decide) hplain⟩

end Formula

end LinProg
