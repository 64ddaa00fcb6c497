import LinProg.Proofs.Constants
import LinProg.Proofs.SignSymmetry

/-!
# Mirror images

A caller may write a constraint as it is or with both sides negated and the relation turned around,
and an objective as something to make small or its opposite to make large. Models `Mirror` each
other when they differ in this only, and calls that differ in this only build such models
(`Model.mirrors_built`).

Such models have the same standard form, in any arithmetic that is symmetric about zero
(`Model.Mirrors.ofModel_eq`). Constraints with a negative bound are turned around there, so of a
constraint and its mirror image exactly one is turned, and what comes out is the same but for the
constant of the expression, which may be a zero of either sign. A bound of zero is left out, since
neither side turns then. -/

namespace LinProg

open Scalar (SignSymmetric)

variable {α : Type} [Scalar α]

/-! ## Mirror images -/

namespace Constraint

/-- `d` is `c` with both sides negated and the relation turned around. Exactly one of the two
bounds is below zero, and neither of the expressions has a constant. -/
structure Turned (c d : Constraint α) : Prop where
  /-- Both sides are negated. -/
  eq : d = c.invert.withoutConstant
  /-- The constant was moved to the bound before. -/
  constant : c.expression.constant = 0
  /-- The bounds are on opposite sides of zero. -/
  sign : d.bound < 0 ↔ ¬c.bound < 0

/-- The mirror image has no constant, either. -/
theorem Turned.constant_right {c d : Constraint α} (h : c.Turned d) :
    d.expression.constant = 0 := by
  rw [h.eq]
  rfl

/-- The two are the same constraint, or one is the mirror image of the other. -/
def Mirrors (c d : Constraint α) : Prop :=
  d = c ∨ c.Turned d

/-- A constraint mirrors itself. -/
theorem Mirrors.refl (c : Constraint α) : c.Mirrors c :=
  Or.inl rfl

/-- A constraint without a constant stays as it is. -/
theorem simplify_of_constant [SignSymmetric α] {c : Constraint α}
    (h : c.expression.constant = 0) : c.simplify = c :=
  simplify_of_sub_zero (SignSymmetric.sub_zero _) h

/-- Constraints that mirror each other still do once their constants are moved to the bounds. -/
theorem Mirrors.simplify [SignSymmetric α] {c d : Constraint α} (h : c.Mirrors d) :
    c.simplify.Mirrors d.simplify := by
  rcases h with rfl | h
  · exact Or.inl rfl
  · rw [simplify_of_constant h.constant, simplify_of_constant h.constant_right]
    exact Or.inr h

end Constraint

/-- The two are the same objective, or one is the mirror image of the other. -/
def Objective.Mirrors (o p : Objective α) : Prop :=
  p = o ∨ p = o.invert

/-- The two models differ in how constraints and the objective are written only. -/
structure Model.Mirrors (M N : Model α) : Prop where
  /-- The models have the same name. -/
  name : N.name = M.name
  /-- The variables are the same. -/
  vars : N.vars = M.vars
  /-- The constraints mirror each other. -/
  constraints : List.Forall₂ Constraint.Mirrors M.constraints N.constraints
  /-- So do the objectives, if they are set. -/
  objective : Option.Rel Objective.Mirrors M.objective N.objective

/-! ## The same standard form -/

section StandardForm

variable [SignSymmetric α]

/-- To negate an expression twice changes nothing. -/
theorem Expression.negate_negate (e : Expression α) : e.negate.negate = e := by
  have htwice : ∀ x : α, x * -1 * -1 = x := by
    intro x
    rw [SignSymmetric.mul_neg_one, SignSymmetric.mul_neg_one, SignSymmetric.neg_neg]
  unfold negate scale
  rw [List.map_map, htwice]
  have hterms : e.terms.map ((fun t => { t with coefficient := t.coefficient * -1 }) ∘
      fun t => { t with coefficient := t.coefficient * -1 }) = e.terms := by
    refine List.map_id'' (fun t => ?_) e.terms
    show Term.mk (t.coefficient * -1 * -1) t.var = t
    rw [htwice]
  rw [hterms]

/-- An expression is constant when its negation is. -/
theorem Expression.isConstant_negate (e : Expression α) : e.negate.isConstant = e.isConstant := by
  unfold isConstant negate scale
  rw [List.all_map]
  refine congrArg (fun f => e.terms.all f) (funext fun t => ?_)
  show (t.coefficient * -1 == 0) = (t.coefficient == 0)
  rw [SignSymmetric.mul_neg_one, SignSymmetric.beq_neg_zero]

/-- To turn a relation around twice changes nothing. -/
theorem Relation.inverted_inverted (r : Relation) : r.inverted.inverted = r := by
  cases r <;> rfl

/-- To turn a constraint around twice changes nothing. -/
theorem Constraint.invert_invert (c : Constraint α) : c.invert.invert = c := by
  unfold invert
  dsimp only
  rw [Expression.negate_negate, Relation.inverted_inverted, SignSymmetric.neg_neg]

/-- Of a constraint and its mirror image exactly one is turned around, so what comes out is the
same but for the constant. -/
theorem Constraint.Turned.withPositiveBound_eq {c d : Constraint α} (h : c.Turned d) :
    d.withPositiveBound.withoutConstant = c.withPositiveBound.withoutConstant := by
  unfold withPositiveBound
  by_cases hc : c.bound < 0
  · rw [if_pos hc, if_neg (fun hd => h.sign.1 hd hc), h.eq]
    rfl
  · have hd : d.bound < 0 := h.sign.2 hc
    have hback : c.invert.withoutConstant.invert.withoutConstant =
        c.invert.invert.withoutConstant := rfl
    rw [if_neg hc, if_pos hd, h.eq, hback, c.invert_invert]

/-- Constraints that mirror each other are the same in the standard form, but for the constant. -/
theorem Constraint.Mirrors.standard_eq {c d : Constraint α} (h : c.Mirrors d) :
    d.simplify.withPositiveBound.withoutConstant =
      c.simplify.withPositiveBound.withoutConstant := by
  rcases h with rfl | h
  · rfl
  · rw [simplify_of_constant h.constant, simplify_of_constant h.constant_right]
    exact h.withPositiveBound_eq

/-- Objectives that mirror each other are to make the same expression as large as possible. -/
theorem Objective.Mirrors.asMaximization_eq {o p : Objective α} (h : o.Mirrors p) :
    p.asMaximization = o.asMaximization := by
  rcases h with rfl | rfl
  · rfl
  · obtain ⟨e, direction⟩ := o
    cases direction with
    | minimize => rfl
    | maximize =>
      show Objective.mk e.negate.negate .maximize = ⟨e, .maximize⟩
      rw [e.negate_negate]

/-- A list of such constraints is the same in the standard form, but for the constants. -/
theorem map_standard_eq {cs ds : List (Constraint α)} (h : List.Forall₂ Constraint.Mirrors cs ds) :
    ds.map (·.simplify.withPositiveBound.withoutConstant) =
      cs.map (·.simplify.withPositiveBound.withoutConstant) := by
  induction h with
  | nil => rfl
  | cons hc _ ih => rw [List.map_cons, List.map_cons, hc.standard_eq, ih]

/-- An objective that may not be set is the same in the standard form. -/
theorem map_asMaximization_eq {o? p? : Option (Objective α)}
    (h : Option.Rel Objective.Mirrors o? p?) :
    p?.map Objective.asMaximization = o?.map Objective.asMaximization := by
  cases h with
  | none => rfl
  | some ho => exact congrArg some ho.asMaximization_eq

namespace Model.Mirrors

variable {M N : Model α}

/-- The models are the same once the signs are put right, but for the constants. -/
theorem signed_eq (h : M.Mirrors N) :
    (StandardForm.signed N).withoutConstants = (StandardForm.signed M).withoutConstants := by
  have hconstraints : ((N.constraints.map Constraint.simplify).map
        Constraint.withPositiveBound).map Constraint.withoutConstant =
      ((M.constraints.map Constraint.simplify).map
        Constraint.withPositiveBound).map Constraint.withoutConstant := by
    simpa only [List.map_map, Function.comp_def] using map_standard_eq h.constraints
  unfold StandardForm.signed withoutConstants simplify
  dsimp only
  rw [h.name, h.vars, hconstraints, map_asMaximization_eq h.objective]

/-- The standard forms are the same but for the constants. -/
theorem ofModel_eq (h : M.Mirrors N) :
    (StandardForm.ofModel N).withoutConstants = (StandardForm.ofModel M).withoutConstants := by
  rw [StandardForm.ofModel_eq_ofSigned, StandardForm.ofModel_eq_ofSigned,
    ← StandardForm.ofSigned_withoutConstants, ← StandardForm.ofSigned_withoutConstants,
    h.signed_eq]

end Model.Mirrors

end StandardForm

/-! ## Calls -/

namespace Model

/-- A call for a model, and how it may be written as well. A constraint that is stored when it is
written the other way round must not have the bound zero. -/
inductive Call.Mirrors (M : Model α) : Call α → Call α → Prop
  /-- The call is the same. -/
  | same (c : Call α) : Mirrors M c c
  /-- The second caller turns the constraint around. -/
  | turned (e : Expression α) (relation : Relation) (bound : α)
      (h : ∀ c, M.nextConstraint e relation bound = .ok c → ¬Scalar.IsZero c.bound) :
      Mirrors M (.addConstraint e relation bound)
        (.addConstraint e.negate relation.inverted (-bound))
  /-- The first caller turns the constraint around. -/
  | turnedBack (e : Expression α) (relation : Relation) (bound : α)
      (h : ∀ c, M.nextConstraint e.negate relation.inverted (-bound) = .ok c →
        ¬Scalar.IsZero c.bound) :
      Mirrors M (.addConstraint e.negate relation.inverted (-bound))
        (.addConstraint e relation bound)
  /-- The second caller turns the objective around. -/
  | swapped (e : Expression α) : Mirrors M (.minimize e) (.maximize e.negate)
  /-- The first caller turns the objective around. -/
  | swappedBack (e : Expression α) : Mirrors M (.maximize e.negate) (.minimize e)

/-- From a model on, the same calls, up to how each of them is written. -/
inductive MirroredCalls : Model α → List (Call α) → List (Call α) → Prop
  /-- There are no calls. -/
  | nil (M : Model α) : MirroredCalls M [] []
  /-- A call and its mirror image are followed by such calls. -/
  | cons {M : Model α} {c d : Call α} {calls mirrored : List (Call α)} (h : c.Mirrors M d)
      (hrest : MirroredCalls (M.after c) calls mirrored) :
      MirroredCalls M (c :: calls) (d :: mirrored)

/-- The stored bound is the bound less the constant. -/
theorem bound_of_nextConstraint_eq_ok {M : Model α} {e : Expression α} {relation : Relation}
    {bound : α} {c : Constraint α} (h : M.nextConstraint e relation bound = .ok c) :
    c.bound = bound - e.constant := by
  have hadd : M.addConstraint e relation bound =
      .ok { M with constraints := M.constraints ++ [c] } := by
    rw [addConstraint_eq, h]
    rfl
  obtain ⟨-, -, -, hmodel⟩ := (addConstraint_eq_ok_iff M _ e relation bound).1 hadd
  have hlast := List.append_cancel_left (congrArg Model.constraints hmodel)
  rw [List.singleton_inj.1 hlast]
  rfl

section Calls

variable [SignSymmetric α]

/-- An expression is refused as its negation is. -/
theorem requireExpression_negate (M : Model α) (e : Expression α) :
    M.requireExpression e.negate = M.requireExpression e := by
  have hfinite : ∀ x : α, Scalar.isFinite (x * -1) = Scalar.isFinite x := by
    intro x
    rw [SignSymmetric.mul_neg_one, SignSymmetric.isFinite_neg]
  have hterms : e.negate.terms.findSome? M.termError? = e.terms.findSome? M.termError? := by
    unfold Expression.negate Expression.scale
    rw [List.findSome?_map]
    refine congrArg (fun f => e.terms.findSome? f) (funext fun t => ?_)
    show M.termError? { t with coefficient := t.coefficient * -1 } = M.termError? t
    unfold termError?
    rw [hfinite]
  have hconstant : Scalar.isFinite e.negate.constant = Scalar.isFinite e.constant :=
    hfinite e.constant
  unfold requireExpression expressionError?
  rw [hterms, hconstant]

/-- What is stored of a constraint and of its mirror image is turned around. -/
theorem turned_stored {e : Expression α} {relation : Relation} {bound : α} (index : ℕ)
    (hconstant : Scalar.isFinite e.constant = true) (hbound : Scalar.isFinite bound = true)
    (h : ¬Scalar.IsZero (bound - e.constant)) :
    (Constraint.mk e relation bound index).simplify.Turned
      (Constraint.mk e.negate relation.inverted (-bound) index).simplify := by
  have hopposite : -bound - e.constant * -1 = -(bound - e.constant) := by
    rw [SignSymmetric.mul_neg_one, SignSymmetric.neg_sub_neg h]
  refine ⟨?_, rfl, ?_⟩
  · show Constraint.mk ⟨e.negate.terms, 0⟩ relation.inverted (-bound - e.constant * -1) index =
      ⟨⟨e.negate.terms, 0⟩, relation.inverted, -(bound - e.constant), index⟩
    rw [hopposite]
  · show -bound - e.constant * -1 < 0 ↔ ¬bound - e.constant < 0
    rw [hopposite]
    exact SignSymmetric.neg_lt_zero_iff hbound hconstant h

variable {M N : Model α}

omit [SignSymmetric α] in
/-- The same expressions belong to both models. -/
theorem Mirrors.requireExpression_eq (hM : M.Mirrors N) (e : Expression α) :
    N.requireExpression e = M.requireExpression e := by
  have hterm : N.termError? = M.termError? := by
    funext t
    unfold termError?
    rw [hM.vars]
  unfold requireExpression expressionError?
  rw [hterm]

/-- A constraint is refused as its mirror image is, or both are stored. -/
theorem Mirrors.nextConstraint_turned (hM : M.Mirrors N) {e : Expression α} {relation : Relation}
    {bound : α}
    (h : ∀ c, M.nextConstraint e relation bound = .ok c → ¬Scalar.IsZero c.bound) :
    Agree Constraint.Turned (M.nextConstraint e relation bound)
      (N.nextConstraint e.negate relation.inverted (-bound)) := by
  unfold nextConstraint at h ⊢
  rw [hM.requireExpression_eq, M.requireExpression_negate, e.isConstant_negate,
    SignSymmetric.isFinite_neg, ← hM.constraints.length_eq]
  refine (Agree.refl (r := Eq) (fun _ => rfl) _).bind fun _ _ hexpression _ => ?_
  have hfinite := ((requireExpression_eq_ok_iff M e).1 hexpression).2
  rw [hexpression] at h
  -- Both pass the other two tests, or both fail.
  cases hconstant : e.isConstant with
  | true => exact .error _
  | false =>
    cases hbound : Scalar.isFinite bound with
    | false => exact .error _
    | true =>
      rw [hconstant, hbound] at h
      exact .ok (turned_stored _ hfinite hbound (h _ rfl))

omit [SignSymmetric α] in
/-- Constraints that mirror each other are added, or refused for the same reason. -/
theorem Mirrors.addConstraint (hM : M.Mirrors N) {e f : Expression α} {r q : Relation} {a b : α}
    (h : Agree Constraint.Mirrors (M.nextConstraint e r a) (N.nextConstraint f q b)) :
    Agree Mirrors (M.addConstraint e r a) (N.addConstraint f q b) := by
  rw [addConstraint_eq, addConstraint_eq]
  refine h.map fun c d hcd => ?_
  exact { hM with constraints := List.rel_append hM.constraints (.cons hcd .nil) }

omit [SignSymmetric α] in
/-- Objectives that mirror each other are set, or refused for the same reason. -/
theorem Mirrors.optimize (hM : M.Mirrors N) {e f : Expression α} {direction other : Direction}
    (hrequire : N.requireExpression f = M.requireExpression e)
    (h : Objective.Mirrors ⟨e, direction⟩ ⟨f, other⟩) :
    Agree Mirrors (M.optimize direction e) (N.optimize other f) := by
  rw [optimize_eq, optimize_eq, hrequire]
  refine (Agree.refl (r := Eq) (fun _ => rfl) _).map fun _ _ _ => ?_
  exact { hM with objective := .some h }

/-- A call and its mirror image are refused for the same reason, or they give models that mirror
each other. -/
theorem Mirrors.call (hM : M.Mirrors N) {c d : Call α} (h : c.Mirrors M d) :
    Agree Mirrors (M.call c) (N.call d) := by
  cases h with
  | same c =>
    cases c with
    | addVariable name =>
      refine .ok { hM with vars := ?_ }
      show N.vars ++ [⟨N.vars.length, name⟩] = M.vars ++ [⟨M.vars.length, name⟩]
      rw [hM.vars]
    | addConstraint e relation bound =>
      refine hM.addConstraint ?_
      have hnext : N.nextConstraint e relation bound = M.nextConstraint e relation bound := by
        unfold nextConstraint
        rw [hM.requireExpression_eq, hM.constraints.length_eq]
      rw [hnext]
      exact .refl Constraint.Mirrors.refl _
    | maximize e => exact hM.optimize (hM.requireExpression_eq e) (Or.inl rfl)
    | minimize e => exact hM.optimize (hM.requireExpression_eq e) (Or.inl rfl)
    | simplify =>
      refine .ok { hM with constraints := ?_ }
      exact List.forall₂_map_left_iff.2 (List.forall₂_map_right_iff.2
        (hM.constraints.imp fun _ _ hcd => hcd.simplify))
  | turned e relation bound h =>
    exact hM.addConstraint ((hM.nextConstraint_turned h).mono fun _ _ => Or.inr)
  | turnedBack e relation bound h =>
    have hback := hM.nextConstraint_turned h
    rw [e.negate_negate, relation.inverted_inverted, SignSymmetric.neg_neg] at hback
    exact hM.addConstraint (hback.mono fun _ _ => Or.inr)
  | swapped e =>
    refine hM.optimize ?_ (Or.inr rfl)
    rw [hM.requireExpression_eq, M.requireExpression_negate]
  | swappedBack e =>
    refine hM.optimize ?_ (Or.inr ?_)
    · rw [hM.requireExpression_eq, M.requireExpression_negate]
    · show Objective.mk e .minimize = ⟨e.negate.negate, .minimize⟩
      rw [e.negate_negate]

/-- After a call and its mirror image the models mirror each other. -/
theorem Mirrors.after (hM : M.Mirrors N) {c d : Call α} (h : c.Mirrors M d) :
    (M.after c).Mirrors (N.after d) := by
  have hcall := hM.call h
  generalize hc : M.call c = result at hcall
  generalize hd : N.call d = result' at hcall
  cases hcall with
  | error error =>
    rw [after_of_error hc, after_of_error hd]
    exact hM
  | ok hmodels =>
    rw [after_of_ok hc, after_of_ok hd]
    exact hmodels

/-- Calls and their mirror images lead to models that mirror each other. -/
theorem Mirrors.foldl_after (hM : M.Mirrors N) {calls mirrored : List (Call α)}
    (h : MirroredCalls M calls mirrored) :
    (calls.foldl Model.after M).Mirrors (mirrored.foldl Model.after N) := by
  induction h generalizing N with
  | nil => exact hM
  | cons hc _ ih => exact ih (hM.after hc)

/-- Models that calls and their mirror images build mirror each other. -/
theorem mirrors_built {name : String} {calls mirrored : List (Call α)}
    (h : MirroredCalls (empty name) calls mirrored) :
    (built name calls).Mirrors (built name mirrored) :=
  Mirrors.foldl_after ⟨rfl, rfl, .nil, .none⟩ h

end Calls

end Model

end LinProg
