import LinProg.Proofs.Satisfaction

/-!
# Models that calls can build

A caller makes an empty model and then calls its operations, in any order and with any arguments. A
call may be refused, and then the model stays as it was (`Model.after_of_error`). `Model.built` is
the model after a list of calls, and `built_induction` the principle that every call keeps what
holds of every model so built. By it the expressions of such a model mention existing variables only
(`scoped_built`). -/

namespace LinProg

namespace Model

variable {α : Type} [Scalar α]

/-- A call that is to change a model. -/
inductive Call (α : Type) where
  /-- Add a variable of the given name. -/
  | addVariable (name : String)
  /-- Add a constraint. -/
  | addConstraint (e : Expression α) (relation : Relation) (bound : α)
  /-- Set the objective to an expression to make as large as possible. -/
  | maximize (e : Expression α)
  /-- Set the objective to an expression to make as small as possible. -/
  | minimize (e : Expression α)
  /-- Move the constants of all constraints to their bounds. -/
  | simplify

/-- What a call does to the state of its model. -/
def Call.update : Call α → Update (Model α) Unit
  | .addVariable name => modify fun M => M.addVariable name
  | .addConstraint e relation bound => storeConstraint e relation bound
  | .maximize e => storeObjective .maximize e
  | .minimize e => storeObjective .minimize e
  | .simplify => modify Model.simplify

/-- The model that a call gives, or why it is refused. -/
def call (M : Model α) (c : Call α) : Except Error (Model α) :=
  c.update.result M

/-- The model after a call, refused or not. -/
def after (M : Model α) (c : Call α) : Model α :=
  (c.update.on M).2

/-! ## Calls that are refused -/

section Refused

variable {M N : Model α}

/-- What there is to test of a constraint is tested before the model is changed. -/
theorem on_storeConstraint_of_error {e : Expression α} {relation : Relation} {bound : α}
    {error : Error} (h : M.nextConstraint e relation bound = .error error) :
    (storeConstraint e relation bound).on M = (.error error, M) := by
  have hread : (storeConstraint e relation bound).on M = Update.on (do
      let c ← (liftM (M.nextConstraint e relation bound) : Update (Model α) (Constraint α))
      modify fun M => { M with constraints := M.constraints ++ [c] }) M := rfl
  rw [hread, h]
  rfl

/-- A constraint that passes the tests comes to the end. -/
theorem on_storeConstraint_of_ok {e : Expression α} {relation : Relation} {bound : α}
    {c : Constraint α} (h : M.nextConstraint e relation bound = .ok c) :
    (storeConstraint e relation bound).on M =
      (.ok (), { M with constraints := M.constraints ++ [c] }) := by
  have hread : (storeConstraint e relation bound).on M = Update.on (do
      let c ← (liftM (M.nextConstraint e relation bound) : Update (Model α) (Constraint α))
      modify fun M => { M with constraints := M.constraints ++ [c] }) M := rfl
  rw [hread, h]
  rfl

/-- An objective is tested before the model is changed. -/
theorem on_storeObjective_of_error {direction : Direction} {e : Expression α} {error : Error}
    (h : M.requireExpression e = .error error) :
    (storeObjective direction e).on M = (.error error, M) := by
  have hread : (storeObjective direction e).on M = Update.on (do
      (liftM (M.requireExpression e) : Update (Model α) Unit)
      modify fun M => { M with objective := some ⟨e, direction⟩ }) M := rfl
  rw [hread, h]
  rfl

/-- An objective that passes the test takes the place of the one before. -/
theorem on_storeObjective_of_ok {direction : Direction} {e : Expression α}
    (h : M.requireExpression e = .ok ()) :
    (storeObjective direction e).on M =
      (.ok (), { M with objective := some ⟨e, direction⟩ }) := by
  have hread : (storeObjective direction e).on M = Update.on (do
      (liftM (M.requireExpression e) : Update (Model α) Unit)
      modify fun M => { M with objective := some ⟨e, direction⟩ }) M := rfl
  rw [hread, h]
  rfl

/-- The model with a further constraint, when there is such a constraint. -/
theorem addConstraint_eq (M : Model α) (e : Expression α) (relation : Relation) (bound : α) :
    M.addConstraint e relation bound = (M.nextConstraint e relation bound).map fun c =>
      { M with constraints := M.constraints ++ [c] } := by
  unfold addConstraint Update.result
  cases h : M.nextConstraint e relation bound with
  | error error =>
    rw [on_storeConstraint_of_error h]
    rfl
  | ok c =>
    rw [on_storeConstraint_of_ok h]
    rfl

/-- The model with another objective, when the expression belongs to it. -/
theorem optimize_eq (M : Model α) (direction : Direction) (e : Expression α) :
    M.optimize direction e = (M.requireExpression e).map fun _ =>
      { M with objective := some ⟨e, direction⟩ } := by
  unfold optimize Update.result
  cases h : M.requireExpression e with
  | error error =>
    rw [on_storeObjective_of_error h]
    rfl
  | ok _ =>
    rw [on_storeObjective_of_ok h]

/-- An objective that is refused leaves the model as it was. -/
theorem on_storeObjective_of_optimize {direction : Direction} {e : Expression α} {error : Error}
    (h : M.optimize direction e = .error error) :
    (storeObjective direction e).on M = (.error error, M) := by
  rw [optimize_eq] at h
  cases hrequire : M.requireExpression e with
  | error error' =>
    rw [hrequire] at h
    rw [on_storeObjective_of_error hrequire, Except.error.inj h]
  | ok _ =>
    rw [hrequire] at h
    exact absurd h nofun

/-- A constraint that is refused leaves the model as it was. -/
theorem on_storeConstraint_of_addConstraint {e : Expression α} {relation : Relation} {bound : α}
    {error : Error} (h : M.addConstraint e relation bound = .error error) :
    (storeConstraint e relation bound).on M = (.error error, M) := by
  rw [addConstraint_eq] at h
  cases hnext : M.nextConstraint e relation bound with
  | error error' =>
    rw [hnext] at h
    rw [on_storeConstraint_of_error hnext, Except.error.inj h]
  | ok c =>
    rw [hnext] at h
    exact absurd h nofun

/-- The model after a call that is not refused is the one that it gives. -/
theorem after_of_ok {c : Call α} (h : M.call c = .ok N) : M.after c = N := by
  unfold call Update.result at h
  unfold after
  cases hanswer : (c.update.on M).1 with
  | error error =>
    rw [hanswer] at h
    exact absurd h nofun
  | ok _ =>
    rw [hanswer] at h
    exact Except.ok.inj h

/-- A call that is refused leaves the model as it was. -/
theorem after_of_error {c : Call α} {error : Error} (h : M.call c = .error error) :
    M.after c = M := by
  cases c with
  | addVariable name | simplify => exact absurd h nofun
  | addConstraint e relation bound =>
    exact congrArg Prod.snd (on_storeConstraint_of_addConstraint h)
  | maximize e => exact congrArg Prod.snd (on_storeObjective_of_optimize h)
  | minimize e => exact congrArg Prod.snd (on_storeObjective_of_optimize h)

end Refused

/-! ## Models after calls -/

/-- The model of the given name after the calls, one after the other. -/
def built (name : String) (calls : List (Call α)) : Model α :=
  calls.foldl after (empty name)

/-- The last call is made of the model that the others build. -/
theorem built_append_singleton (name : String) (calls : List (Call α)) (c : Call α) :
    built name (calls ++ [c]) = (built name calls).after c :=
  List.foldl_concat ..

/-- What holds of an empty model and is kept by the calls that are not refused holds of every model
that calls build. -/
theorem built_induction {P : Model α → Prop} (hempty : ∀ name, P (empty name))
    (hcall : ∀ M N c, P M → M.call c = .ok N → P N) (name : String) (calls : List (Call α)) :
    P (built name calls) := by
  induction calls using List.reverseRecOn with
  | nil => exact hempty name
  | append_singleton calls c ih =>
    rw [built_append_singleton]
    cases hc : (built name calls).call c with
    | error error =>
      rw [after_of_error hc]
      exact ih
    | ok N =>
      rw [after_of_ok hc]
      exact hcall _ N c ih hc

/-- Every expression of the model mentions variables of the model only. -/
structure Scoped (M : Model α) : Prop where
  /-- The variables of the constraints exist. -/
  constraints : ∀ c ∈ M.constraints, c.expression.Within M.vars.length
  /-- The variables of the objective exist. -/
  objective : ∀ o, M.objective = some o → o.expression.Within M.vars.length

/-- An expression is not refused when its variables are the model's own and its numbers finite. -/
theorem requireExpression_eq_ok_iff (M : Model α) (e : Expression α) :
    M.requireExpression e = .ok () ↔
      (∀ t ∈ e.terms, M.vars[t.var.index]? = some t.var ∧ Scalar.isFinite t.coefficient = true) ∧
        Scalar.isFinite e.constant = true := by
  have hterm : ∀ t : Term α, M.termError? t = none ↔
      M.vars[t.var.index]? = some t.var ∧ Scalar.isFinite t.coefficient = true := by
    intro t
    unfold termError?
    split
    · rename_i hforeign
      exact ⟨nofun, fun h => absurd h.1 hforeign⟩
    · rename_i hown
      rw [not_not] at hown
      split <;> simp_all
  have hterms : e.terms.findSome? M.termError? = none ↔ ∀ t ∈ e.terms,
      M.vars[t.var.index]? = some t.var ∧ Scalar.isFinite t.coefficient = true := by
    rw [List.findSome?_eq_none_iff]
    exact forall₂_congr fun t _ => hterm t
  rw [← hterms]
  unfold requireExpression expressionError?
  cases e.terms.findSome? M.termError? with
  | some error => simp
  | none => cases Scalar.isFinite e.constant <;> simp

/-- An expression that is not refused mentions the model's own variables. -/
theorem getElem?_vars_of_requireExpression {M : Model α} {e : Expression α}
    (h : M.requireExpression e = .ok ()) : ∀ t ∈ e.terms, M.vars[t.var.index]? = some t.var :=
  fun t ht => (((requireExpression_eq_ok_iff M e).1 h).1 t ht).1

/-- An expression that is not refused fits into a vector with a place for each variable. -/
theorem within_of_requireExpression {M : Model α} {e : Expression α}
    (h : M.requireExpression e = .ok ()) : e.Within M.vars.length := by
  intro t ht
  have := getElem?_vars_of_requireExpression h t ht
  exact (List.getElem?_eq_some_iff.1 this).1

/-- Setting the objective changes nothing else. -/
theorem optimize_eq_ok_iff (M N : Model α) (direction : Direction) (e : Expression α) :
    M.optimize direction e = .ok N ↔
      M.requireExpression e = .ok () ∧ N = { M with objective := some ⟨e, direction⟩ } := by
  rw [optimize_eq]
  cases M.requireExpression e with
  | error error => simp [Except.map]
  | ok _ => simp [Except.map, eq_comm]

/-- A constraint that is added comes to the end, with its constant moved to the bound. A constant
expression and a bound that is not finite are refused as well. -/
theorem addConstraint_eq_ok_iff (M N : Model α) (e : Expression α) (relation : Relation)
    (bound : α) :
    M.addConstraint e relation bound = .ok N ↔
      M.requireExpression e = .ok () ∧ e.isConstant = false ∧ Scalar.isFinite bound = true ∧
        N = { M with constraints := M.constraints ++
          [({ expression := e, relation, bound, index := M.constraints.length } :
            Constraint α).simplify] } := by
  rw [addConstraint_eq]
  unfold nextConstraint
  cases M.requireExpression e with
  | error error => simp [bind, Except.bind, Except.map]
  | ok _ =>
    cases e.isConstant with
    | true => simp [bind, Except.bind, Except.map, throw, throwThe, MonadExceptOf.throw]
    | false =>
      cases Scalar.isFinite bound with
      | false => simp [bind, Except.bind, Except.map, throw, throwThe, MonadExceptOf.throw]
      | true => simp [bind, Except.bind, Except.map, pure, Except.pure, eq_comm]

/-- A call that is not refused keeps all expressions within the model. -/
theorem Scoped.call {M N : Model α} {c : Call α} (hM : M.Scoped) (h : M.call c = .ok N) :
    N.Scoped := by
  cases c with
  | addVariable name =>
    cases h
    have hle : M.vars.length ≤ (M.addVariable name).vars.length := by simp [Model.addVariable]
    exact ⟨fun c hc => (hM.constraints c hc).mono hle, fun o ho => (hM.objective o ho).mono hle⟩
  | addConstraint e relation bound =>
    obtain ⟨he, -, -, rfl⟩ := (addConstraint_eq_ok_iff M N e relation bound).1 h
    refine ⟨fun c hc => ?_, hM.objective⟩
    -- A constraint is one from before, or the new one, whose variables were looked up.
    rcases List.mem_append.1 hc with hold | hnew
    · exact hM.constraints c hold
    · rw [List.mem_singleton.1 hnew]
      exact fun t ht => within_of_requireExpression he t ht
  | maximize e =>
    obtain ⟨he, rfl⟩ := (optimize_eq_ok_iff M N .maximize e).1 h
    refine ⟨hM.constraints, fun o ho => ?_⟩
    cases ho
    exact within_of_requireExpression he
  | minimize e =>
    obtain ⟨he, rfl⟩ := (optimize_eq_ok_iff M N .minimize e).1 h
    refine ⟨hM.constraints, fun o ho => ?_⟩
    cases ho
    exact within_of_requireExpression he
  | simplify =>
    cases h
    refine ⟨fun c hc => ?_, hM.objective⟩
    obtain ⟨d, hd, rfl⟩ := List.mem_map.1 hc
    exact hM.constraints d hd

/-- The expressions of a model that calls build mention its variables only. -/
theorem scoped_built (name : String) (calls : List (Call α)) :
    (built name calls : Model α).Scoped :=
  built_induction (fun _ => ⟨nofun, nofun⟩) (fun _ _ _ => Scoped.call) name calls

end Model

end LinProg
