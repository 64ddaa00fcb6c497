import LinProg.Expression.Formula
import LinProg.Proofs.Building
import LinProg.Scalar.Binary64

/-!
# Foreign variables

Which variables a model looks at when an expression is handed to it. The variables of a formula are
merged by their index alone, so of the variables with an index the expression keeps the one that the
evaluation of the formula meets first, its leader (`Formula.mem_vars_expression_iff`). The model
compares the leaders with its own variables: it refuses the expression when one of them is foreign
and accepts it otherwise, if all numbers are finite (`Model.refuses_foreign_leader`). A foreign
variable that is not a leader is taken for the model's own (`Model.accepts_foreign_follower`). -/

namespace LinProg

/-- The variable of an index among variables, the first one if there are several. -/
def leader (vs : List Variable) (i : ℕ) : Option Variable :=
  vs.find? (·.index == i)

/-- The leader has the index. -/
theorem index_of_leader {vs : List Variable} {i : ℕ} {v : Variable} (h : leader vs i = some v) :
    v ∈ vs ∧ v.index = i :=
  ⟨List.mem_of_find?_eq_some h, by simpa using List.find?_some h⟩

/-- The index of a variable has a leader. -/
theorem exists_leader {vs : List Variable} {v : Variable} (h : v ∈ vs) :
    ∃ u, leader vs v.index = some u := by
  refine Option.isSome_iff_exists.1 ?_
  rw [leader, List.find?_isSome]
  exact ⟨v, h, by simp⟩

/-- Where no index comes twice, each variable is a leader. -/
theorem leader_of_nodup {vs : List Variable} (h : (vs.map (·.index)).Nodup) {v : Variable}
    (hv : v ∈ vs) : leader vs v.index = some v := by
  obtain ⟨u, hu⟩ := exists_leader hv
  obtain ⟨hmem, hindex⟩ := index_of_leader hu
  rw [hu, List.inj_on_of_nodup_map h hmem hv hindex]

/-- Variables with one more at the end, unless its index is taken. -/
def enroll (vs : List Variable) (v : Variable) : List Variable :=
  if v.index ∈ vs.map (·.index) then vs else vs ++ [v]

/-- A variable that is enrolled becomes the leader of its index if there was none. -/
theorem leader_enroll (vs : List Variable) (v : Variable) (i : ℕ) :
    leader (enroll vs v) i = (leader vs i).or (leader [v] i) := by
  unfold enroll
  split
  · rename_i hmem
    by_cases hi : v.index = i
    · -- The index is taken, so it has a leader.
      obtain ⟨u, hu, hindex⟩ := List.mem_map.1 hmem
      obtain ⟨w, hw⟩ := exists_leader hu
      rw [hindex, hi] at hw
      rw [hw, Option.some_or]
    · have hnone : leader [v] i = none := by simpa [leader] using hi
      rw [hnone, Option.or_none]
  · exact List.find?_append

/-- The leaders of variables that are enrolled one after the other come after those from before. -/
theorem leader_foldl_enroll (vs ws : List Variable) (i : ℕ) :
    leader (ws.foldl enroll vs) i = (leader vs i).or (leader ws i) := by
  induction ws generalizing vs with
  | nil => exact (Option.or_none).symm
  | cons w ws ih =>
    have hcons : leader ([w] ++ ws) i = (leader [w] i).or (leader ws i) := List.find?_append
    rw [List.singleton_append] at hcons
    rw [List.foldl_cons, ih, leader_enroll, Option.or_assoc, hcons]

/-- Enrolling keeps the indices apart. -/
theorem nodup_enroll {vs : List Variable} (h : (vs.map (·.index)).Nodup) (v : Variable) :
    ((enroll vs v).map (·.index)).Nodup := by
  unfold enroll
  split
  · exact h
  · rename_i hnot
    rw [List.map_append, List.nodup_append]
    refine ⟨h, List.nodup_singleton _, ?_⟩
    rintro i hi j hj rfl
    rw [List.mem_singleton.1 hj] at hi
    exact hnot hi

/-- Enrolling one after the other keeps the indices apart. -/
theorem nodup_foldl_enroll {vs : List Variable} (h : (vs.map (·.index)).Nodup)
    (ws : List Variable) : ((ws.foldl enroll vs).map (·.index)).Nodup := by
  induction ws generalizing vs with
  | nil => exact h
  | cons w ws ih => exact ih (nodup_enroll h w)

/-! ## The variables of an expression -/

namespace Expression

variable {α : Type} [Scalar α]

/-- Adding to a coefficient keeps the variables, and a new term adds its variable at the end. -/
theorem vars_push (e : Expression α) (c : α) (v : Variable) :
    (e.push c v).vars = enroll e.vars v := by
  unfold push enroll
  split
  · rename_i k hk
    have hmem : v.index ∈ e.vars.map (·.index) := by
      obtain ⟨hlt, hindex, -⟩ := List.findIdx?_eq_some_iff_getElem.1 hk
      rw [vars, List.map_map, List.mem_map]
      exact ⟨e.terms[k], List.getElem_mem hlt, by simpa using hindex⟩
    rw [if_pos hmem]
    refine List.ext_getElem? fun j => ?_
    simp only [vars, List.getElem?_map, List.getElem?_modify]
    split <;> simp [Function.comp_def]
  · rename_i hnone
    have hnot : v.index ∉ e.vars.map (·.index) := by
      rw [vars, List.map_map, List.mem_map]
      rintro ⟨t, ht, hindex⟩
      have := List.findIdx?_eq_none_iff.1 hnone t ht
      exact absurd hindex (by simpa using this)
    rw [if_neg hnot, vars, vars, List.map_append]
    rfl

/-- Adding a multiple enrolls the variables of the other expression. -/
theorem vars_accumulate (a b : Expression α) (factor : α) :
    (a.accumulate b factor).vars = b.vars.foldl enroll a.vars := by
  have h : ∀ (terms : List (Term α)) (e : Expression α),
      (terms.foldl (fun sum t => sum.push (factor * t.coefficient) t.var) e).vars =
        (terms.map (·.var)).foldl enroll e.vars := by
    intro terms
    induction terms with
    | nil => intro e; rfl
    | cons t terms ih =>
      intro e
      rw [List.foldl_cons, ih, vars_push, List.map_cons, List.foldl_cons]
  exact h b.terms a

/-- Multiplying keeps the variables. -/
theorem vars_scale (e : Expression α) (factor : α) : (e.scale factor).vars = e.vars := by
  simp [vars, scale, Function.comp_def]

/-- All numbers of the expression are finite. -/
def Finite (e : Expression α) : Prop :=
  (∀ t ∈ e.terms, Scalar.isFinite t.coefficient = true) ∧ Scalar.isFinite e.constant = true

/-- The expression has each index once, with the leader among the given variables. -/
structure LedBy (e : Expression α) (vs : List Variable) : Prop where
  /-- No index comes twice. -/
  nodup : (e.vars.map (·.index)).Nodup
  /-- The leaders are the same. -/
  leader_eq : ∀ i, leader e.vars i = leader vs i

/-- A sum or difference has the leaders of its first summand, then those of its second. -/
theorem LedBy.accumulate {a b : Expression α} {vs ws : List Variable} (ha : a.LedBy vs)
    (hb : b.LedBy ws) (factor : α) : (a.accumulate b factor).LedBy (vs ++ ws) := by
  refine ⟨?_, fun i => ?_⟩
  · rw [vars_accumulate]
    exact nodup_foldl_enroll ha.nodup _
  · rw [vars_accumulate, leader_foldl_enroll, ha.leader_eq, hb.leader_eq]
    exact List.find?_append.symm

omit [Scalar α] in
/-- Only the variables matter. -/
theorem LedBy.of_vars_eq {a b : Expression α} {vs : List Variable} (ha : a.LedBy vs)
    (h : b.vars = a.vars) : b.LedBy vs := by
  refine ⟨?_, fun i => ?_⟩
  · rw [h]
    exact ha.nodup
  · rw [h]
    exact ha.leader_eq i

end Expression

namespace Operand

variable {α : Type} [Scalar α]

/-- A multiple has the variables of the operand. -/
theorem vars_times (c : α) (a : Operand α) : (a.times c).vars = a.toExpression.vars := by
  cases a with
  | scalar k => rfl
  | var v => rfl
  | expression e => exact e.vars_scale c

/-- The opposite has the variables of the operand. -/
theorem vars_opposite (a : Operand α) : (a.opposite).vars = a.toExpression.vars := by
  cases a with
  | scalar k => rfl
  | var v => rfl
  | expression e => exact e.vars_scale (-1)

end Operand

/-! ## The variables of a formula -/

namespace Formula

variable {α : Type}

/-- The variables that stand in the formula, in the order in which the evaluation meets them. -/
def occurrences : Formula α → List Variable
  | scalar _ | empty => []
  | var v | term _ v | ofVariable v => [v]
  | add a b | subtract a b => a.occurrences ++ b.occurrences
  | scale a _ | negate a | times _ a | opposite a => a.occurrences
  | call .reflectedSubtract receiver argument => argument.occurrences ++ receiver.occurrences
  | call _ receiver argument => receiver.occurrences ++ argument.occurrences

variable [Scalar α]

/-- The expression of a formula is led by the variables that occur in it. -/
theorem ledBy_expression (f : Formula α) : f.expression.LedBy f.occurrences := by
  induction f with
  | scalar k => exact ⟨List.nodup_nil, fun _ => rfl⟩
  | empty => exact ⟨List.nodup_nil, fun _ => rfl⟩
  | var v => exact ⟨List.nodup_singleton _, fun _ => rfl⟩
  | term c v => exact ⟨List.nodup_singleton _, fun _ => rfl⟩
  | ofVariable v => exact ⟨List.nodup_singleton _, fun _ => rfl⟩
  | add a b iha ihb => exact iha.accumulate ihb 1
  | subtract a b iha ihb => exact iha.accumulate ihb (-1)
  | scale a c ih => exact ih.of_vars_eq (a.expression.vars_scale c)
  | negate a ih => exact ih.of_vars_eq (a.expression.vars_scale (-1))
  | times c a ih => exact ih.of_vars_eq (a.operand.vars_times c)
  | opposite a ih => exact ih.of_vars_eq a.operand.vars_opposite
  | call method receiver argument ihr iha =>
    cases method with
    | add => exact ihr.accumulate iha 1
    | reflectedAdd => exact ihr.accumulate iha 1
    | subtract => exact ihr.accumulate iha (-1)
    | reflectedSubtract => exact iha.accumulate ihr (-1)

/-- The variables of the expression are the leaders of the formula. -/
theorem mem_vars_expression_iff (f : Formula α) (v : Variable) :
    v ∈ f.expression.vars ↔ leader f.occurrences v.index = some v := by
  have h := f.ledBy_expression
  rw [← h.leader_eq]
  exact ⟨leader_of_nodup h.nodup, fun hv => (index_of_leader hv).1⟩

end Formula

/-! ## What a model refuses -/

namespace Model

variable {α : Type} [Scalar α]

/-- The model refuses the call and stays as it was. -/
def Refuses (M : Model α) (c : Call α) : Prop :=
  (∃ error, M.call c = .error error) ∧ M.after c = M

/-- The model does not refuse the call. -/
def Accepts (M : Model α) (c : Call α) : Prop :=
  ∃ N, M.call c = .ok N

/-- A call is refused when it is not accepted. -/
theorem refuses_of_not_accepts {M : Model α} {c : Call α} (h : ¬M.Accepts c) : M.Refuses c := by
  unfold Refuses
  cases hc : M.call c with
  | ok N => exact absurd ⟨N, hc⟩ h
  | error error => exact ⟨⟨error, rfl⟩, after_of_error hc⟩

/-- A constraint or an objective is accepted only if its expression is not refused. -/
theorem requireExpression_of_accepts {M : Model α} {e : Expression α} {c : Call α}
    (hc : c = .maximize e ∨ c = .minimize e ∨ ∃ relation bound, c = .addConstraint e relation bound)
    (h : M.Accepts c) : M.requireExpression e = .ok () := by
  obtain ⟨N, hN⟩ := h
  rcases hc with rfl | rfl | ⟨relation, bound, rfl⟩
  · exact ((optimize_eq_ok_iff M N .maximize e).1 hN).1
  · exact ((optimize_eq_ok_iff M N .minimize e).1 hN).1
  · exact ((addConstraint_eq_ok_iff M N e relation bound).1 hN).1

/-- The expression of a formula is not refused when its leaders are the model's own variables and
all its numbers are finite. -/
theorem requireExpression_expression_iff (M : Model α) (f : Formula α) :
    M.requireExpression f.expression = .ok () ↔
      (∀ v ∈ f.occurrences, leader f.occurrences v.index = M.vars[v.index]?) ∧
        f.expression.Finite := by
  rw [requireExpression_eq_ok_iff]
  constructor
  · rintro ⟨hterms, hconstant⟩
    refine ⟨fun v hv => ?_, fun t ht => (hterms t ht).2, hconstant⟩
    obtain ⟨u, hu⟩ := exists_leader hv
    have hindex := (index_of_leader hu).2
    -- The leader stands in the expression, where the model has compared it with its own variable.
    have hmem : u ∈ f.expression.vars := by
      rw [f.mem_vars_expression_iff, hindex, hu]
    obtain ⟨t, ht, rfl⟩ := List.mem_map.1 hmem
    rw [hu, ← hindex, (hterms t ht).1]
  · rintro ⟨hown, hfinite⟩
    refine ⟨fun t ht => ⟨?_, hfinite.1 t ht⟩, hfinite.2⟩
    have hleader := (f.mem_vars_expression_iff t.var).1 (List.mem_map_of_mem ht)
    rw [← hown t.var (index_of_leader hleader).1, hleader]

/-- A constraint or an objective is refused when the leader of some index is not the model's own
variable. Otherwise an objective with finite numbers is accepted, and so is a constraint with finite
numbers that is not constant; foreign variables that are not leaders do not matter. -/
theorem refuses_foreign_leader (M : Model α) (f : Formula α) :
    ((∃ v ∈ f.occurrences, leader f.occurrences v.index ≠ M.vars[v.index]?) →
      M.Refuses (.maximize f.expression) ∧ M.Refuses (.minimize f.expression) ∧
        ∀ relation bound, M.Refuses (.addConstraint f.expression relation bound)) ∧
    ((∀ v ∈ f.occurrences, leader f.occurrences v.index = M.vars[v.index]?) →
      f.expression.Finite →
        M.Accepts (.maximize f.expression) ∧ M.Accepts (.minimize f.expression) ∧
          ∀ relation bound, f.expression.isConstant = false → Scalar.isFinite bound = true →
            M.Accepts (.addConstraint f.expression relation bound)) := by
  constructor
  · rintro ⟨v, hv, hforeign⟩
    have hrefused : M.requireExpression f.expression ≠ .ok () := fun h =>
      hforeign (((M.requireExpression_expression_iff f).1 h).1 v hv)
    refine ⟨refuses_of_not_accepts fun h => hrefused (requireExpression_of_accepts (.inl rfl) h),
      refuses_of_not_accepts fun h => hrefused (requireExpression_of_accepts (.inr (.inl rfl)) h),
      fun relation bound => refuses_of_not_accepts fun h => hrefused
        (requireExpression_of_accepts (.inr (.inr ⟨relation, bound, rfl⟩)) h)⟩
  · intro hown hfinite
    have hok := (M.requireExpression_expression_iff f).2 ⟨hown, hfinite⟩
    exact ⟨⟨_, (optimize_eq_ok_iff M _ .maximize _).2 ⟨hok, rfl⟩⟩,
      ⟨_, (optimize_eq_ok_iff M _ .minimize _).2 ⟨hok, rfl⟩⟩, fun relation bound hconstant hbound =>
        ⟨_, (addConstraint_eq_ok_iff M _ _ relation bound).2 ⟨hok, hconstant, hbound, rfl⟩⟩⟩

/-- The model with one variable, `x`. -/
def singleVariable : Model Float :=
  built "single" [.addVariable "x"]

/-- The sum of a variable `y` of another model and `x`, which have the same index. -/
def foreignFirst : Formula Float :=
  .call .add (.var ⟨0, "y"⟩) (.var ⟨0, "x"⟩)

/-- The same sum with the operands exchanged. -/
def foreignSecond : Formula Float :=
  .call .add (.var ⟨0, "x"⟩) (.var ⟨0, "y"⟩)

/-- A foreign variable that comes first leads its index, and the sum is refused. -/
theorem refuses_foreign_leader_first :
    (∃ v ∈ foreignFirst.occurrences,
      leader foreignFirst.occurrences v.index ≠ singleVariable.vars[v.index]?) ∧
    singleVariable.Refuses (.maximize foreignFirst.expression) ∧
    singleVariable.Refuses (.minimize foreignFirst.expression) ∧
    singleVariable.Refuses (.addConstraint foreignFirst.expression .atMost 1) ∧
    (∀ v ∈ foreignSecond.occurrences,
      leader foreignSecond.occurrences v.index = singleVariable.vars[v.index]?) ∧
    foreignSecond.expression.Finite ∧
    singleVariable.Accepts (.maximize foreignSecond.expression) ∧
    singleVariable.Accepts (.minimize foreignSecond.expression) := by
  have hforeign : ∃ v ∈ foreignFirst.occurrences,
      leader foreignFirst.occurrences v.index ≠ singleVariable.vars[v.index]? := by
    decide
  have hown : ∀ v ∈ foreignSecond.occurrences,
      leader foreignSecond.occurrences v.index = singleVariable.vars[v.index]? := by
    decide
  have hfinite : foreignSecond.expression.Finite := by
    unfold Expression.Finite
    decide +kernel
  obtain ⟨hmaximize, hminimize, hconstraint⟩ :=
    (refuses_foreign_leader singleVariable foreignFirst).1 hforeign
  obtain ⟨hmaximize', hminimize', -⟩ :=
    (refuses_foreign_leader singleVariable foreignSecond).2 hown hfinite
  exact ⟨hforeign, hmaximize, hminimize, hconstraint .atMost 1, hown, hfinite, hmaximize',
    hminimize'⟩

/-- A foreign variable that follows the model's own variable with its index is taken for it: the
constraint and the objective are accepted, although they are refused with the operands exchanged. -/
theorem accepts_foreign_follower :
    (⟨0, "y"⟩ : Variable) ∈ foreignSecond.occurrences ∧
    singleVariable.vars[0]? ≠ some ⟨0, "y"⟩ ∧
    (singleVariable.addConstraint foreignSecond.expression .atMost 1).isOk = true ∧
    (singleVariable.maximize foreignSecond.expression).isOk = true ∧
    (singleVariable.after (.maximize foreignSecond.expression)).objective.isSome = true ∧
    (singleVariable.addConstraint foreignFirst.expression .atMost 1).isOk = false ∧
    (singleVariable.maximize foreignFirst.expression).isOk = false := by
  decide +kernel

end Model

end LinProg
