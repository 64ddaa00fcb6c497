import LinProg.Proofs.Occurrences

/-!
# A store of models

A caller keeps several models: makes empty ones, clones, and calls the operations of any of them, in
any order and with any arguments. A call that is refused leaves all models as they were
(`Store.after_of_error`). Every model in the store is one that calls build
(`Store.exists_built_of_mem_run`), so it is well formed (`Model.wellFormed_built`): variables and
constraints are numbered by their places, every term is about one of the model's own variables and
has a finite coefficient, and every constraint has a coefficient other than zero and no constant.

That no expression has two terms for one index is a matter of how expressions are made: all
operations on expressions keep it (`Expression.Made.distinct`), so it holds of the models too when
the arguments of the calls are expressions that these operations make
(`Model.distinctTerms_built`). -/

namespace LinProg

variable {α : Type}

/-! ## Expressions -/

namespace Expression

/-- No two terms are about variables of one index. -/
def Distinct (e : Expression α) : Prop :=
  (e.vars.map (·.index)).Nodup

variable [Scalar α]

/-- The expression comes of the operations on expressions. An expression that is read back from a
constraint has lost its constant, and one from a standard form has one more term. -/
inductive Made : Expression α → Prop
  /-- The expression without terms. -/
  | empty : Made empty
  /-- A number. -/
  | scalar (k : α) : Made (ofScalar k)
  /-- A single term. -/
  | term (c : α) (v : Variable) : Made (ofTerm c v)
  /-- A sum. -/
  | add {a b : Expression α} (ha : Made a) (hb : Made b) : Made (a.add b)
  /-- A difference. -/
  | subtract {a b : Expression α} (ha : Made a) (hb : Made b) : Made (a.subtract b)
  /-- A multiple. -/
  | scale {a : Expression α} (ha : Made a) (factor : α) : Made (a.scale factor)
  /-- An expression with one more term. -/
  | push {a : Expression α} (ha : Made a) (c : α) (v : Variable) : Made (a.push c v)
  /-- An expression without its constant. -/
  | dropConstant {a : Expression α} (ha : Made a) : Made a.dropConstant

/-- A further term keeps the indices apart. -/
theorem Distinct.push {e : Expression α} (h : e.Distinct) (c : α) (v : Variable) :
    (e.push c v).Distinct := by
  unfold Distinct
  rw [vars_push]
  exact nodup_enroll h v

/-- Adding a multiple keeps the indices apart. -/
theorem Distinct.accumulate {a : Expression α} (h : a.Distinct) (b : Expression α) (factor : α) :
    (a.accumulate b factor).Distinct := by
  unfold Distinct
  rw [vars_accumulate]
  exact nodup_foldl_enroll h _

/-- The operations on expressions merge the terms of one index. -/
theorem Made.distinct {e : Expression α} (h : e.Made) : e.Distinct := by
  induction h with
  | empty => exact List.nodup_nil
  | scalar k => exact List.nodup_nil
  | term c v => exact List.nodup_singleton _
  | add _ _ iha => exact iha.accumulate _ 1
  | subtract _ _ iha => exact iha.accumulate _ (-1)
  | scale _ factor ih =>
    unfold Distinct
    rw [vars_scale]
    exact ih
  | push _ c v ih => exact ih.push c v
  | dropConstant _ ih => exact ih

end Expression

/-- A multiple of an operand is a single term or a multiple of an expression. -/
theorem Operand.times_eq [Scalar α] (c : α) (a : Operand α) :
    (∃ v, a.times c = .ofTerm c v) ∨ a.times c = a.toExpression.scale c := by
  cases a with
  | scalar k => exact .inr rfl
  | var v => exact .inl ⟨v, rfl⟩
  | expression e => exact .inr rfl

/-- The opposite of an operand is a single term or the opposite of an expression. -/
theorem Operand.opposite_eq [Scalar α] (a : Operand α) :
    (∃ v, a.opposite = .ofTerm (-1) v) ∨ a.opposite = a.toExpression.negate := by
  cases a with
  | scalar k => exact .inr rfl
  | var v => exact .inl ⟨v, rfl⟩
  | expression e => exact .inr rfl

/-- The expression of a formula comes of the operations on expressions. -/
theorem Formula.made_expression [Scalar α] (f : Formula α) : f.expression.Made := by
  induction f with
  | scalar k => exact .scalar k
  | empty => exact .empty
  | var v => exact .term 1 v
  | term c v => exact .term c v
  | ofVariable v => exact .term 1 v
  | add a b iha ihb => exact .add iha ihb
  | subtract a b iha ihb => exact .subtract iha ihb
  | scale a c ih => exact .scale ih c
  | negate a ih => exact .scale ih (-1)
  | times c a ih =>
    show (a.operand.times c).Made
    rcases Operand.times_eq c a.operand with ⟨v, h⟩ | h
    · rw [h]
      exact .term c v
    · rw [h]
      exact .scale ih c
  | opposite a ih =>
    show a.operand.opposite.Made
    rcases Operand.opposite_eq a.operand with ⟨v, h⟩ | h
    · rw [h]
      exact .term (-1) v
    · rw [h]
      exact .scale ih (-1)
  | call method receiver argument ihr iha =>
    cases method with
    | add => exact .add ihr iha
    | reflectedAdd => exact .add ihr iha
    | subtract => exact .subtract ihr iha
    | reflectedSubtract => exact .subtract iha ihr

/-! ## Models -/

namespace Model

variable [Scalar α]

/-- Every term of the expression is about the variable that the model has at its index, and has a
finite coefficient. -/
def Owns (M : Model α) (e : Expression α) : Prop :=
  ∀ t ∈ e.terms, M.vars[t.var.index]? = some t.var ∧ Scalar.isFinite t.coefficient = true

/-- What calls keep of a model. -/
structure WellFormed (M : Model α) : Prop where
  /-- The index of a variable is its place. -/
  index_var : ∀ (k : ℕ) (v : Variable), M.vars[k]? = some v → v.index = k
  /-- The index of a constraint is its place. -/
  index_constraint : ∀ (k : ℕ) (c : Constraint α), M.constraints[k]? = some c → c.index = k
  /-- The constraints are about the model's own variables. -/
  owns_constraint : ∀ c ∈ M.constraints, M.Owns c.expression
  /-- The objective is about the model's own variables. -/
  owns_objective : ∀ o, M.objective = some o → M.Owns o.expression
  /-- Some coefficient of a constraint is not zero. -/
  exists_coefficient : ∀ c ∈ M.constraints, ∃ t ∈ c.expression.terms, (t.coefficient == 0) = false
  /-- The constant of a constraint has been moved to the bound. -/
  constant_eq : ∀ c ∈ M.constraints, c.expression.constant = 0

/-- A model with further variables still owns the expression. -/
theorem Owns.mono {M N : Model α} {e : Expression α} (h : M.Owns e) (hvars : M.vars <+: N.vars) :
    N.Owns e := by
  obtain ⟨added, hadded⟩ := hvars
  intro t ht
  obtain ⟨hown, hfinite⟩ := h t ht
  refine ⟨?_, hfinite⟩
  rw [← hadded, List.getElem?_append_left (List.getElem?_eq_some_iff.1 hown).1, hown]

/-- At the end of a list comes the new member, and before it stand the old ones. -/
theorem getElem?_append_singleton {β : Type} {xs : List β} {x y : β} {k : ℕ}
    (h : (xs ++ [x])[k]? = some y) : xs[k]? = some y ∨ k = xs.length ∧ y = x := by
  rcases lt_or_ge k xs.length with hk | hk
  · rw [List.getElem?_append_left hk] at h
    exact Or.inl h
  · rw [List.getElem?_append_right hk] at h
    obtain ⟨hlt, rfl⟩ := List.getElem?_eq_some_iff.1 h
    rw [List.length_singleton] at hlt
    exact Or.inr ⟨by omega, by simp⟩

/-- A call that is not refused keeps a model well formed. -/
theorem WellFormed.call {M N : Model α} {c : Call α} (hM : M.WellFormed) (h : M.call c = .ok N) :
    N.WellFormed := by
  cases c with
  | addVariable name =>
    cases h
    have hvars : M.vars <+: (M.addVariable name).vars := List.prefix_append _ _
    refine
      { hM with
        index_var := fun k v hv => ?_
        owns_constraint := fun d hd => (hM.owns_constraint d hd).mono hvars
        owns_objective := fun o ho => (hM.owns_objective o ho).mono hvars }
    rcases getElem?_append_singleton hv with hold | ⟨rfl, rfl⟩
    · exact hM.index_var k v hold
    · rfl
  | addConstraint e relation bound =>
    obtain ⟨he, hconstant, -, rfl⟩ := (addConstraint_eq_ok_iff M N e relation bound).1 h
    have howns := ((requireExpression_eq_ok_iff M e).1 he).1
    refine
      { hM with
        index_constraint := fun k d hd => ?_
        owns_constraint := fun d hd => ?_
        exists_coefficient := fun d hd => ?_
        constant_eq := fun d hd => ?_ }
    · rcases getElem?_append_singleton hd with hold | ⟨rfl, rfl⟩
      · exact hM.index_constraint k d hold
      · rfl
    all_goals rcases List.mem_append.1 hd with hold | hnew
    · exact hM.owns_constraint d hold
    · rw [List.mem_singleton.1 hnew]
      exact howns
    · exact hM.exists_coefficient d hold
    · rw [List.mem_singleton.1 hnew]
      obtain ⟨t, ht, hne⟩ := List.all_eq_false.1 hconstant
      exact ⟨t, ht, by simpa using hne⟩
    · exact hM.constant_eq d hold
    · rw [List.mem_singleton.1 hnew]
      rfl
  | maximize e =>
    obtain ⟨he, rfl⟩ := (optimize_eq_ok_iff M N .maximize e).1 h
    refine { hM with owns_objective := fun o ho => ?_ }
    cases ho
    exact ((requireExpression_eq_ok_iff M e).1 he).1
  | minimize e =>
    obtain ⟨he, rfl⟩ := (optimize_eq_ok_iff M N .minimize e).1 h
    refine { hM with owns_objective := fun o ho => ?_ }
    cases ho
    exact ((requireExpression_eq_ok_iff M e).1 he).1
  | simplify =>
    cases h
    refine
      { hM with
        index_constraint := fun k d hd => ?_
        owns_constraint := fun d hd => ?_
        exists_coefficient := fun d hd => ?_
        constant_eq := fun d hd => ?_ }
    · obtain ⟨c, hc, rfl⟩ := Option.map_eq_some_iff.1 ((List.getElem?_map ..).symm.trans hd)
      exact hM.index_constraint k c hc
    all_goals obtain ⟨c, hc, rfl⟩ := List.mem_map.1 hd
    · exact hM.owns_constraint c hc
    · exact hM.exists_coefficient c hc
    · rfl

/-- Every model that calls build is well formed. -/
theorem wellFormed_built (name : String) (calls : List (Call α)) :
    (built name calls : Model α).WellFormed :=
  built_induction (fun _ => ⟨nofun, nofun, nofun, nofun, nofun, nofun⟩)
    (fun _ _ _ => WellFormed.call) name calls

/-- No expression of the model has two terms for one index. -/
structure DistinctTerms (M : Model α) : Prop where
  /-- The constraints have not. -/
  constraints : ∀ c ∈ M.constraints, c.expression.Distinct
  /-- The objective has not. -/
  objective : ∀ o, M.objective = some o → o.expression.Distinct

/-- The expressions of a call come of the operations on expressions. -/
def Call.Made : Call α → Prop
  | .addConstraint e _ _ | .maximize e | .minimize e => e.Made
  | .addVariable _ | .simplify => True

/-- A call that is not refused keeps the terms of the expressions apart. -/
theorem DistinctTerms.call {M N : Model α} (hM : M.DistinctTerms) {c : Call α} (hc : c.Made)
    (h : M.call c = .ok N) : N.DistinctTerms := by
  cases c with
  | addVariable name =>
    cases h
    exact ⟨hM.constraints, hM.objective⟩
  | addConstraint e relation bound =>
    obtain ⟨-, -, -, rfl⟩ := (addConstraint_eq_ok_iff M N e relation bound).1 h
    refine ⟨fun d hd => ?_, hM.objective⟩
    rcases List.mem_append.1 hd with hold | hnew
    · exact hM.constraints d hold
    · have he : e.Distinct := Expression.Made.distinct (show e.Made from hc)
      rw [List.mem_singleton.1 hnew]
      exact he
  | maximize e =>
    obtain ⟨-, rfl⟩ := (optimize_eq_ok_iff M N .maximize e).1 h
    refine ⟨hM.constraints, fun o ho => ?_⟩
    cases ho
    exact Expression.Made.distinct hc
  | minimize e =>
    obtain ⟨-, rfl⟩ := (optimize_eq_ok_iff M N .minimize e).1 h
    refine ⟨hM.constraints, fun o ho => ?_⟩
    cases ho
    exact Expression.Made.distinct hc
  | simplify =>
    cases h
    refine ⟨fun d hd => ?_, hM.objective⟩
    obtain ⟨c, hc, rfl⟩ := List.mem_map.1 hd
    exact hM.constraints c hc

/-- A call keeps the terms of the expressions apart. -/
theorem DistinctTerms.after {M : Model α} (hM : M.DistinctTerms) {c : Call α} (hc : c.Made) :
    (M.after c).DistinctTerms := by
  cases h : M.call c with
  | error error =>
    rw [after_of_error h]
    exact hM
  | ok N =>
    rw [after_of_ok h]
    exact hM.call hc h

/-- The terms of the expressions stay apart when those of all arguments do. -/
theorem distinctTerms_built (name : String) {calls : List (Call α)} (h : ∀ c ∈ calls, c.Made) :
    (built name calls : Model α).DistinctTerms := by
  induction calls using List.reverseRecOn with
  | nil => exact ⟨nofun, nofun⟩
  | append_singleton calls c ih =>
    rw [built_append_singleton]
    exact (ih fun d hd => h d (List.mem_append_left _ hd)).after (h c (by simp))

end Model

/-! ## The store -/

/-- The models that a caller keeps, in the order in which they were made. -/
abbrev Store (α : Type) :=
  List (Model α)

namespace Store

variable [Scalar α]

/-- A call of a caller who keeps several models. -/
inductive Call (α : Type) where
  /-- Make an empty model of the given name. -/
  | create (name : String)
  /-- Make a clone of a model, if it exists. -/
  | clone (k : ℕ)
  /-- Change a model, if it exists. -/
  | change (k : ℕ) (c : Model.Call α)

/-- Let the model at a place, if there is one, answer a call. What the call leaves of the model
takes its place, also when the model refuses the call. -/
def changeAt (k : ℕ) (c : Model.Call α) : Option (Model α) → Update (Store α) Unit
  | some M => do
    modify fun store => store.set k (M.after c)
    liftM (c.update.on M).1
  | none => return

/-- What a call does to the store. -/
def Call.update : Call α → Update (Store α) Unit
  | .create name => modify fun store => store ++ [.empty name]
  | .clone k => modify fun store => store ++ store[k]?.toList
  | .change k c => do changeAt k c (← get)[k]?

/-- The store that a call gives, or why it is refused. -/
def call (store : Store α) (c : Call α) : Except Error (Store α) :=
  c.update.result store

/-- The store after a call, refused or not. -/
def after (store : Store α) (c : Call α) : Store α :=
  (c.update.on store).2

/-- The store after calls, one after the other, from none on. -/
def run (calls : List (Call α)) : Store α :=
  calls.foldl after []

/-- A change of a model that exists is answered by the model, which takes its place again. -/
theorem on_change_of_eq_some {store : Store α} {k : ℕ} {c : Model.Call α} {M : Model α}
    (h : store[k]? = some M) :
    (Call.change k c).update.on store = ((c.update.on M).1, store.set k (M.after c)) := by
  have hread : (Call.change k c).update.on store = (changeAt k c store[k]?).on store := rfl
  rw [hread, h]
  rfl

/-- A change of a model that does not exist does nothing. -/
theorem on_change_of_eq_none {store : Store α} {k : ℕ} {c : Model.Call α} (h : store[k]? = none) :
    (Call.change k c).update.on store = (.ok (), store) := by
  have hread : (Call.change k c).update.on store = (changeAt k c store[k]?).on store := rfl
  rw [hread, h]
  rfl

/-- A call that is refused leaves the store as it was, since the model that refuses it does. -/
theorem after_of_error {store : Store α} {c : Call α} {error : Error}
    (h : store.call c = .error error) : store.after c = store := by
  cases c with
  | create name | clone k => exact absurd h nofun
  | change k d =>
    unfold call Update.result at h
    unfold after
    cases hk : store[k]? with
    | none => rw [on_change_of_eq_none hk]
    | some M =>
      rw [on_change_of_eq_some hk] at h ⊢
      cases hanswer : (d.update.on M).1 with
      | ok _ =>
        rw [hanswer] at h
        exact absurd h nofun
      | error error' =>
        have hcall : M.call d = .error error' := by
          unfold Model.call Update.result
          rw [hanswer]
          rfl
        show store.set k (M.after d) = store
        rw [Model.after_of_error hcall]
        obtain ⟨hlt, hget⟩ := List.getElem?_eq_some_iff.1 hk
        rw [← hget, List.set_getElem_self]

/-- A model after a call was there before it, or is empty, or comes of the change. -/
theorem mem_after {store : Store α} {c : Call α} {M : Model α} (h : M ∈ store.after c) :
    M ∈ store ∨ (∃ name, M = .empty name) ∨
      ∃ k d, c = .change k d ∧ ∃ N ∈ store, M = N.after d := by
  cases c with
  | create name =>
    rcases List.mem_append.1 h with hold | hnew
    · exact .inl hold
    · exact .inr (.inl ⟨name, List.mem_singleton.1 hnew⟩)
  | clone k =>
    rcases List.mem_append.1 h with hold | hnew
    · exact .inl hold
    · exact .inl (List.mem_of_getElem? (Option.mem_toList.1 hnew))
  | change k d =>
    unfold after at h
    cases hk : store[k]? with
    | none =>
      rw [on_change_of_eq_none hk] at h
      exact .inl h
    | some N =>
      rw [on_change_of_eq_some hk] at h
      rcases List.mem_or_eq_of_mem_set h with hold | rfl
      · exact .inl hold
      · exact .inr (.inr ⟨k, d, rfl, N, List.mem_of_getElem? hk, rfl⟩)

/-- Every model in the store is one that calls build, of those that the caller has made. -/
theorem exists_built_of_mem_run {calls : List (Call α)} {M : Model α} (h : M ∈ run calls) :
    ∃ name changes, M = Model.built name changes ∧ ∀ c ∈ changes, ∃ k, .change k c ∈ calls := by
  unfold run at h
  induction calls using List.reverseRecOn generalizing M with
  | nil => exact absurd h List.not_mem_nil
  | append_singleton calls c ih =>
    rw [List.foldl_append, List.foldl_cons, List.foldl_nil] at h
    rcases mem_after h with hold | ⟨name, rfl⟩ | ⟨k, d, rfl, N, hN, rfl⟩
    · obtain ⟨name, changes, rfl, hchanges⟩ := ih hold
      exact ⟨name, changes, rfl, fun e he =>
        (hchanges e he).imp fun k hk => List.mem_append_left _ hk⟩
    · exact ⟨name, [], rfl, nofun⟩
    · obtain ⟨name, changes, rfl, hchanges⟩ := ih hN
      refine ⟨name, changes ++ [d], ?_, fun e he => ?_⟩
      · unfold Model.built
        rw [List.foldl_append]
        rfl
      · rcases List.mem_append.1 he with hold | hnew
        · exact (hchanges e hold).imp fun k hk => List.mem_append_left _ hk
        · rw [List.mem_singleton.1 hnew]
          exact ⟨k, by simp⟩

end Store

end LinProg
