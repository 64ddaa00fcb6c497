import LinProg.Proofs.Binary64Signs
import LinProg.Proofs.MirrorImages

/-!
# Solves of mirrored models

The solve of a model does not depend on how the caller wrote it (`Model.solve_mirrored`), and this
is so in any arithmetic that is symmetric about zero, although sums and products are rounded. Models
that mirror each other have the same standard form, but for constants that no tableau has a place
for, so all matrices and choices are the same. Only the value of the objective is computed from what
the caller wrote: coefficients are opposite, and so are their products and sums, up to the sign of
zeros (`Expression.agree_evaluate_negate`). -/

namespace LinProg

open Scalar (Opposite SignSymmetric)

variable {α : Type} [Scalar α]

/-! ## Values of opposite expressions -/

/-- Related entries at one place keep lists related. -/
theorem forall₂_set {β γ : Type} {r : β → γ → Prop} {xs : List β} {ys : List γ}
    (h : List.Forall₂ r xs ys) {x : β} {y : γ} (hxy : r x y) (i : ℕ) :
    List.Forall₂ r (xs.set i x) (ys.set i y) := by
  induction h generalizing i with
  | nil => exact .nil
  | cons hhead htail ih =>
    cases i with
    | zero => exact .cons hxy htail
    | succ i => exact .cons hhead (ih i)

section Values

variable [SignSymmetric α]

/-- The dot products of opposite vectors with a third one are opposite. -/
theorem opposite_dotProduct {xs ys : List α} (h : List.Forall₂ Opposite xs ys) (zs : List α) :
    Opposite (dotProduct xs zs) (dotProduct ys zs) := by
  have hproducts : List.Forall₂ Opposite (List.zipWith (· * ·) xs zs)
      (List.zipWith (· * ·) ys zs) := by
    induction h generalizing zs with
    | nil => exact .nil
    | cons hxy _ ih =>
      cases zs with
      | nil => exact .nil
      | cons z zs => exact .cons (SignSymmetric.opposite_mul hxy z) (ih zs)
  exact List.rel_foldl (P := Opposite) (R := Opposite)
    (fun _ _ h _ _ k => SignSymmetric.opposite_add h k)
    (Or.inr ⟨SignSymmetric.isZero_emptySum, SignSymmetric.isZero_emptySum⟩) hproducts

namespace Expression

/-- The vectors of coefficients of an expression and its negation are opposite, if they exist. -/
theorem agree_coefficients_negate (e : Expression α) (n : ℕ) :
    Agree (List.Forall₂ Opposite) (e.coefficients n) (e.negate.coefficients n) := by
  have hfind : e.negate.terms.find? (fun t => n ≤ t.var.index) =
      (e.terms.find? fun t => n ≤ t.var.index).map
        fun t => { t with coefficient := t.coefficient * -1 } :=
    List.find?_map ..
  unfold coefficients
  rw [hfind]
  split
  · exact .error _
  · cases e.terms.find? fun t => n ≤ t.var.index with
    | some t => exact .error _
    | none =>
      -- Each term writes opposite numbers into the two vectors.
      refine .ok (List.rel_foldl (R := fun t u : Term α =>
        u = { t with coefficient := t.coefficient * -1 }) ?_ ?_ ?_)
      · rintro dense dense' h t u rfl
        exact forall₂_set h (Or.inl (SignSymmetric.mul_neg_one t.coefficient)) t.var.index
      · refine List.forall₂_same.2 fun x hx => ?_
        rw [List.eq_of_mem_replicate hx]
        exact Or.inr ⟨SignSymmetric.isZero_zero, SignSymmetric.isZero_zero⟩
      · exact List.forall₂_map_right_iff.2 (List.forall₂_same.2 fun _ _ => rfl)

/-- The values of an expression and its negation are opposite, if they exist. -/
theorem agree_evaluate_negate (e : Expression α) (values : List α) :
    Agree Opposite (e.evaluate values) (e.negate.evaluate values) := by
  unfold evaluate
  refine (e.agree_coefficients_negate values.length).bind fun dense dense' _ hdense => ?_
  have hdot : Agree Opposite (dot dense values) (dot dense' values) := by
    unfold dot
    rw [hdense.length_eq]
    split
    · exact .ok (opposite_dotProduct hdense values)
    · exact .error _
  refine hdot.bind fun linear linear' _ hlinear => .ok ?_
  exact SignSymmetric.opposite_add hlinear (Or.inl (SignSymmetric.mul_neg_one e.constant))

end Expression

end Values

/-! ## The solve -/

/-- The two tableaux have the same columns and the same entries. -/
structure Tableau.SameMatrix (T U : Tableau α) : Prop where
  /-- The columns are the same variables. -/
  vars : U.model.vars = T.model.vars
  /-- The rows have the same entries. -/
  rows : U.matrix.rows = T.matrix.rows

/-- Tableaux that are the same but for the constants have the same matrix. -/
theorem Tableau.sameMatrix_of_eq {T U : Tableau α} (h : T.withoutConstants = U.withoutConstants) :
    T.SameMatrix U :=
  ⟨congrArg (fun V => V.model.vars) h.symm, congrArg (fun V => V.matrix.rows) h.symm⟩

/-- The two verdicts are the same, except that the values of objectives that were swapped are
opposite. -/
inductive Verdict.Mirrors (swapped : Bool) : Verdict α → Verdict α → Prop
  /-- Both found a best point, and it is the same. -/
  | optimal (values : List α) {x y : α} (h : if swapped then Opposite x y else y = x) :
      Mirrors swapped (.optimal values x) (.optimal values y)
  /-- Both found no feasible point. -/
  | infeasible : Mirrors swapped .infeasible .infeasible
  /-- Both found no limit. -/
  | unbounded : Mirrors swapped .unbounded .unbounded

/-- The two solutions are the same, except that the values of objectives that were swapped are
opposite. -/
structure Solution.Mirrors (swapped : Bool) (s t : Solution α) : Prop where
  /-- What was found out is the same. -/
  verdict : s.verdict.Mirrors swapped t.verdict
  /-- The variables are the same. -/
  vars : t.vars = s.vars
  /-- As many pivots were made. -/
  iterations : t.iterations = s.iterations
  /-- The first matrices are the same. -/
  initialTableau : s.initialTableau.SameMatrix t.initialTableau
  /-- The last matrices are the same. -/
  finalTableau : s.finalTableau.SameMatrix t.finalTableau
  /-- Both had a phase one or neither had, and the first matrices of it are the same. -/
  phaseOneTableau : Option.Rel Tableau.SameMatrix s.phaseOneTableau t.phaseOneTableau

/-- Both solutions give the same answers, except for the value of the objective. -/
theorem Solution.Mirrors.answers {swapped : Bool} {s t : Solution α} (h : s.Mirrors swapped t) :
    t.isOptimal = s.isOptimal ∧ t.isFeasible = s.isFeasible ∧ t.isBounded = s.isBounded ∧
      (∀ M, t.assignment M = s.assignment M) ∧ ∀ v, t.value v = s.value v := by
  have hverdict := h.verdict
  unfold isOptimal isFeasible isBounded assignment value
  generalize s.verdict = verdict at hverdict ⊢
  generalize t.verdict = verdict' at hverdict ⊢
  cases hverdict with
  | optimal | infeasible | unbounded => exact ⟨rfl, rfl, rfl, fun _ => rfl, fun _ => rfl⟩

namespace Model

/-- One of the objectives is to be made as large as possible and the other one as small. -/
def isSwapped (M N : Model α) : Bool :=
  M.objective.map (·.direction) ≠ N.objective.map (·.direction)

section Solve

variable [SignSymmetric α] {M N : Model α}

/-- The values of objectives that mirror each other are the same, or opposite when the objectives
were swapped. -/
theorem agree_objective {o p : Objective α} (ho : M.objective = some o)
    (hp : N.objective = some p) (h : o.Mirrors p) (values : List α) :
    Agree (fun x y => if M.isSwapped N then Opposite x y else y = x)
      (o.expression.evaluate values) (p.expression.evaluate values) := by
  unfold isSwapped
  rw [ho, hp]
  rcases h with rfl | rfl
  · exact .refl (fun _ => by simp) _
  · have hne : o.direction ≠ o.direction.inverted := by
      cases o.direction <;> decide
    refine (o.expression.agree_evaluate_negate values).mono fun x y hxy => ?_
    rw [if_pos (by simpa [Objective.invert] using hne)]
    exact hxy

omit [SignSymmetric α] in
/-- Both objectives are set, or neither is. -/
theorem Mirrors.objective_cases (h : M.Mirrors N) :
    M.objective = none ∧ N.objective = none ∨
      ∃ o p, M.objective = some o ∧ N.objective = some p ∧ o.Mirrors p := by
  have hobjective := h.objective
  generalize M.objective = o? at hobjective ⊢
  generalize N.objective = p? at hobjective ⊢
  cases hobjective with
  | none => exact Or.inl ⟨rfl, rfl⟩
  | some hop => exact Or.inr ⟨_, _, rfl, rfl, hop⟩

/-- Phase two comes to the same end from tableaux that are the same but for the constants. -/
theorem Mirrors.phaseTwo (h : M.Mirrors N) {o p : Objective α} (ho : M.objective = some o)
    (hp : N.objective = some p) (hop : o.Mirrors p) (settings : Settings α)
    {initial initial' : Tableau α}
    (hinitial : initial.withoutConstants = initial'.withoutConstants)
    {first? first?' : Option (Tableau α)} (hfirst : Option.Rel Tableau.SameMatrix first? first?')
    (earlier : ℕ) :
    Agree (Solution.Mirrors (M.isSwapped N))
      (M.phaseTwo o settings initial first? earlier).result
      (N.phaseTwo p settings initial' first?' earlier).result := by
  obtain ⟨hending, hiterations, hlast⟩ := Phase.run_ends_alike settings hinitial
  have hvalues : (Phase.run settings initial).last.assignment =
      (Phase.run settings initial').last.assignment := by
    rw [← Tableau.assignment_withoutConstants, hlast, Tableau.assignment_withoutConstants]
  have hsolution : ∀ {v w : Verdict α}, v.Mirrors (M.isSwapped N) w →
      Solution.Mirrors (M.isSwapped N)
        ⟨v, M.vars, initial, (Phase.run settings initial).last, first?,
          earlier + (Phase.run settings initial).iterations⟩
        ⟨w, N.vars, initial', (Phase.run settings initial').last, first?',
          earlier + (Phase.run settings initial').iterations⟩ := fun hverdict =>
    { verdict := hverdict
      vars := h.vars
      iterations := congrArg (earlier + ·) hiterations.symm
      initialTableau := Tableau.sameMatrix_of_eq hinitial
      finalTableau := Tableau.sameMatrix_of_eq hlast
      phaseOneTableau := hfirst }
  unfold Model.phaseTwo
  dsimp only
  rw [Recorded.result_record_bind, Recorded.result_record_bind, ← hending]
  cases (Phase.run settings initial).ending with
  | failed failure => exact .error failure
  | exhausted =>
    rw [hiterations]
    exact .error _
  | unbounded column =>
    dsimp only
    rw [Recorded.result_record_bind, Recorded.result_record_bind]
    exact .ok (hsolution .unbounded)
  | optimal =>
    have hproject : N.project (Phase.run settings initial').last.assignment =
        M.project (Phase.run settings initial).last.assignment := by
      unfold project
      rw [h.vars, hvalues]
    dsimp only
    rw [Recorded.result_bind, Recorded.result_bind, hproject]
    refine (Agree.refl (r := Eq) (fun _ => rfl) _).bind fun own _ _ hown => ?_
    subst hown
    rw [Recorded.result_bind, Recorded.result_bind]
    refine ((agree_objective ho hp hop own).mapError Failure.fault).bind fun x y _ hxy => ?_
    rw [Recorded.result_record_bind, Recorded.result_record_bind, ← hvalues]
    exact .ok (hsolution (.optimal _ hxy))

/-- Models that mirror each other have the same solution, up to the sign of the objective value when
the objectives were swapped, or they fail for the same reason. -/
theorem Mirrors.solve (h : M.Mirrors N) (settings : Settings α) :
    Agree (Solution.Mirrors (M.isSwapped N)) (M.solve settings).result
      (N.solve settings).result := by
  have hform := h.ofModel_eq.symm
  unfold Model.solve
  rcases h.objective_cases with ⟨ho, hp⟩ | ⟨o, p, ho, hp, hop⟩
  · rw [ho, hp]
    exact .error _
  · have hempty : N.constraints.isEmpty = M.constraints.isEmpty := by
      rw [Bool.eq_iff_iff, List.isEmpty_iff_length_eq_zero, List.isEmpty_iff_length_eq_zero,
        h.constraints.length_eq]
    have hneeds : (StandardForm.ofModel M).needsPhaseOne =
        (StandardForm.ofModel N).needsPhaseOne := by
      rw [← StandardForm.needsPhaseOne_withoutConstants, hform,
        StandardForm.needsPhaseOne_withoutConstants]
    rw [ho, hp]
    dsimp only
    rw [hempty, ← hneeds]
    split
    · exact .error _
    rw [Recorded.result_record_bind, Recorded.result_record_bind]
    split
    · -- Both go through phase one.
      rw [Recorded.result_bind, Recorded.result_bind]
      refine (StandardForm.agree_phaseOne hform settings).bind fun found found' _ hfound => ?_
      cases found with
      | feasible initial restored iterations =>
        cases found' with
        | infeasible => cases hfound
        | feasible initial' restored' iterations' =>
          obtain ⟨hinitial, hrestored, rfl⟩ := PhaseOneResult.feasible.inj hfound
          exact h.phaseTwo ho hp hop settings hrestored (.some (Tableau.sameMatrix_of_eq hinitial))
            iterations
      | infeasible initial last iterations =>
        cases found' with
        | feasible => cases hfound
        | infeasible initial' last' iterations' =>
          obtain ⟨hinitial, hlast, rfl⟩ := PhaseOneResult.infeasible.inj hfound
          dsimp only
          rw [Recorded.result_record_bind, Recorded.result_record_bind]
          exact .ok ⟨.infeasible, h.vars, rfl, Tableau.sameMatrix_of_eq hinitial,
            Tableau.sameMatrix_of_eq hlast, .some (Tableau.sameMatrix_of_eq hinitial)⟩
    · -- Both start from the first tableau of the standard form.
      have hmodel : (StandardForm.ofModel M).model.withoutConstants =
          (StandardForm.ofModel N).model.withoutConstants :=
        (congrArg StandardForm.model hform :)
      have htableau := agree_tableau hmodel settings.tolerance
      rw [Recorded.result_record_bind, Recorded.result_record_bind, Recorded.result_bind,
        Recorded.result_bind]
      exact (htableau.mapError Failure.fault).bind fun initial initial' _ hinitial =>
        h.phaseTwo ho hp hop settings hinitial .none 0

/-- The solve of a model does not depend on how the caller wrote it. When some constraints are
turned around, which are not stored with the bound zero, and the objective is swapped or not, both
solves fail for the same reason, or both find out the same: the same status after as many pivots,
with a phase one or without, the same first and last matrices, and the same values. The objective
values are the same as well, or opposite up to the sign of zeros when the objectives were swapped.
The arithmetic may be exact or in double precision. -/
theorem solve_mirrored {name : String} {calls mirrored : List (Call α)}
    (h : MirroredCalls (empty name) calls mirrored) (settings : Settings α) :
    let M : Model α := built name calls
    let N : Model α := built name mirrored
    Agree (Solution.Mirrors (M.isSwapped N)) (M.solve settings).result
      (N.solve settings).result :=
  (mirrors_built h).solve settings

end Solve

/-- Make `-2 x - 3 y + 1` small, with `x + y + 1 ≤ 5` and `x ≥ 1`. A constraint on a variable that
is not the model's own is refused. -/
def plainCalls : List (Call Float) :=
  let x : Variable := ⟨0, "x"⟩
  let y : Variable := ⟨1, "y"⟩
  [.addVariable "x", .addVariable "y",
    .addConstraint ⟨[⟨1, x⟩, ⟨1, y⟩], 1⟩ .atMost 5,
    .addConstraint ⟨[⟨1, ⟨2, "z"⟩⟩], 0⟩ .atMost 0,
    .addConstraint ⟨[⟨1, x⟩], 0⟩ .atLeast 1,
    .minimize ⟨[⟨-2, x⟩, ⟨-3, y⟩], 1⟩]

/-- Make `2 x + 3 y - 1` large, with `-x - y - 1 ≥ -5` and `x ≥ 1`. -/
def contraryCalls : List (Call Float) :=
  let x : Variable := ⟨0, "x"⟩
  let y : Variable := ⟨1, "y"⟩
  [.addVariable "x", .addVariable "y",
    .addConstraint (Expression.negate ⟨[⟨1, x⟩, ⟨1, y⟩], 1⟩) .atLeast (-5),
    .addConstraint (Expression.negate ⟨[⟨1, ⟨2, "z"⟩⟩], 0⟩) .atLeast (-0),
    .addConstraint ⟨[⟨1, x⟩], 0⟩ .atLeast 1,
    .maximize (Expression.negate ⟨[⟨-2, x⟩, ⟨-3, y⟩], 1⟩)]

/-- The plain model and the contrary one go through the same phases to the same point, with opposite
objective values. -/
theorem solve_mirrored_contrary :
    let M : Model Float := built "plain" plainCalls
    let N : Model Float := built "plain" contraryCalls
    MirroredCalls (empty "plain") plainCalls contraryCalls ∧ M.isSwapped N = true ∧
    ∃ s t, (M.solve Settings.standard).result = .ok s ∧
      (N.solve Settings.standard).result = .ok t ∧ s.Mirrors true t ∧
      s.phaseOneTableau.isSome = true ∧ s.iterations = 1 ∧ s.assignment M = some [1, 3] ∧
      t.assignment M = some [1, 3] ∧ s.objectiveValue = some (-10) ∧
      t.objectiveValue = some 10 := by
  intro M N
  have hcalls : MirroredCalls (empty "plain") plainCalls contraryCalls := by
    refine .cons (.same _) <| .cons (.same _) <| .cons (.turned _ .atMost 5 fun c hc => ?_) <|
      .cons (.turned _ .atMost 0 fun c hc => ?_) <| .cons (.same _) <| .cons (.swapped _) <| .nil _
    · rw [bound_of_nextConstraint_eq_ok hc]
      show ¬((5 - 1 : Float) == 0) = true
      decide +kernel
    · cases hc
  have hswapped : M.isSwapped N = true := by
    decide +kernel
  have hplain : (M.solve Settings.standard).result.toOption.map
      (fun s => (s.phaseOneTableau.isSome, s.iterations, s.assignment M, s.objectiveValue)) =
        some (true, 1, some [1, 3], some (-10)) := by
    decide +kernel
  have hcontrary : (N.solve Settings.standard).result.toOption.map (·.objectiveValue) =
      some (some 10) := by
    decide +kernel
  obtain ⟨s, hs, hparts⟩ := Option.map_eq_some_iff.1 hplain
  obtain ⟨hphase, hiterations, hassignment, hvalue⟩ := by simpa only [Prod.mk.injEq] using hparts
  obtain ⟨t, ht, hopposite⟩ := Option.map_eq_some_iff.1 hcontrary
  have hsolve := solve_mirrored hcalls Settings.standard
  have hsok := eq_ok_of_toOption_eq_some hs
  have htok := eq_ok_of_toOption_eq_some ht
  dsimp only at hsolve
  rw [hsok, htok, hswapped] at hsolve
  cases hsolve with
  | ok hmirrors =>
    obtain ⟨-, -, -, hanswer, -⟩ := hmirrors.answers
    exact ⟨hcalls, hswapped, s, t, hsok, htok, hmirrors, hphase, hiterations, hassignment,
      (hanswer M).trans hassignment, hvalue, hopposite⟩

/-- With the bound zero it depends on how a constraint is written whether it gets a slack. -/
example :
    let x : Variable := ⟨0, "x"⟩
    let M : Model ℚ := built "zero" [.addVariable "x", .addConstraint (.ofVariable x) .atMost 0]
    let N : Model ℚ :=
      built "zero" [.addVariable "x", .addConstraint (.negate (.ofVariable x)) .atLeast (-0)]
    (StandardForm.ofModel M).needsPhaseOne = false ∧
      (StandardForm.ofModel N).needsPhaseOne = true := by
  decide +kernel

end Model

end LinProg
