import LinProg.Proofs.Artificials
import LinProg.Proofs.Binary64Signs
import LinProg.Proofs.Course
import LinProg.Proofs.ModelStore
import LinProg.Proofs.TableauModels

/-!
# The layout of the first tableau

Which column of the first tableau belongs to which constraint. The columns of the model's own
variables come first. Then three passes add columns: a slack for each constraint that is at most its
bound, a surplus for each that is at least its bound, and in phase one an artificial variable for
each constraint without a slack. `Model.auxiliaries` lists them by the relations that the
constraints have once their bounds are not negative.

`Model.Widened` says that a model has such columns and is the same otherwise. One pass adds its
columns to those that are there (`Widened.attachColumns`), whatever the passes before it did to the
relations, and the three passes are instances of it. The first tableau then holds the numbers of the
constraints, turned around where the bound is negative, and a unit vector for each added column
(`Tableau.LaidOut`, `Model.solve_layout`). -/

namespace LinProg

variable {α : Type}

/-- A column that is added for a constraint. -/
structure Auxiliary (α : Type) where
  /-- What its name starts with. -/
  letter : String
  /-- The entry in the row of the constraint. -/
  entry : α
  /-- The place of the constraint among those of the model. -/
  place : ℕ

namespace Auxiliary

/-- A column for each of some places. -/
def each (letter : String) (entry : α) (places : List ℕ) : List (Auxiliary α) :=
  places.map fun place => ⟨letter, entry, place⟩

/-- The variables of added columns, which are numbered from `next` on. -/
def vars (next : ℕ) (added : List (Auxiliary α)) : List Variable :=
  added.mapIdx fun k a => ⟨next + k, a.letter ++ toString a.place⟩

@[simp] theorem length_vars (next : ℕ) (added : List (Auxiliary α)) :
    (vars next added).length = added.length :=
  List.length_mapIdx

/-- The columns of a second list are numbered after those of the first. -/
theorem vars_append (next : ℕ) (added more : List (Auxiliary α)) :
    vars next (added ++ more) = vars next added ++ vars (next + added.length) more := by
  simp [vars, List.mapIdx_append, Nat.add_assoc, Nat.add_comm added.length]

/-- The first column has the first number. -/
theorem vars_cons (next : ℕ) (a : Auxiliary α) (added : List (Auxiliary α)) :
    vars next (a :: added) =
      ⟨next, a.letter ++ toString a.place⟩ :: vars (next + 1) added := by
  simp [vars, List.mapIdx_cons, Nat.add_assoc, Nat.add_comm 1]

end Auxiliary

variable [Scalar α]

/-! ## One pass -/

/-- A pass adds a variable for each chosen constraint, named after its place. -/
theorem added_attachColumns (coefficient : α) (letter : String) (next i : ℕ)
    (pairs : List (Constraint α × Bool)) :
    (attachColumns coefficient letter next i pairs).1 =
      Auxiliary.vars next (Auxiliary.each letter coefficient (pairs.findIdxs (·.2) i)) := by
  induction pairs generalizing next i with
  | nil => rfl
  | cons pair rest ih =>
    obtain ⟨c, chosen⟩ := pair
    cases chosen with
    | false =>
      rw [List.findIdxs_cons, if_neg Bool.false_ne_true]
      exact ih next (i + 1)
    | true =>
      have hcons : Auxiliary.each letter coefficient (i :: rest.findIdxs (·.2) (i + 1)) =
          ⟨letter, coefficient, i⟩ ::
            Auxiliary.each letter coefficient (rest.findIdxs (·.2) (i + 1)) := rfl
      rw [List.findIdxs_cons, if_pos rfl, hcons, Auxiliary.vars_cons]
      exact congrArg _ (ih (next + 1) (i + 1))

/-- The constraint at a chosen place gets the column that is numbered for it. -/
theorem column_attachColumns (coefficient : α) (letter : String) (next i : ℕ)
    (pairs : List (Constraint α × Bool)) {k place : ℕ}
    (h : (pairs.findIdxs (·.2) i)[k]? = some place) :
    i ≤ place ∧
      (attachColumns coefficient letter next i pairs).2.2[place - i]? = some (some (next + k)) := by
  induction pairs generalizing next i k with
  | nil => exact absurd h nofun
  | cons pair rest ih =>
    obtain ⟨c, chosen⟩ := pair
    rw [List.findIdxs_cons] at h
    -- The rest starts one place further on, with the next number when this one is taken.
    have hrest : ∀ (next' : ℕ) {k' : ℕ}, (rest.findIdxs (·.2) (i + 1))[k']? = some place →
        i ≤ place ∧ ∀ first : Option ℕ, (first ::
          (attachColumns coefficient letter next' (i + 1) rest).2.2)[place - i]? =
            some (some (next' + k')) := by
      intro next' k' hk
      obtain ⟨hle, hcolumn⟩ := ih next' (i + 1) hk
      refine ⟨by omega, fun first => ?_⟩
      rw [show place - i = place - (i + 1) + 1 by omega, List.getElem?_cons_succ]
      exact hcolumn
    cases chosen with
    | false =>
      rw [if_neg Bool.false_ne_true] at h
      obtain ⟨hle, hcolumn⟩ := hrest next h
      exact ⟨hle, hcolumn none⟩
    | true =>
      rw [if_pos rfl] at h
      cases k with
      | zero =>
        cases Option.some.inj h
        rw [Nat.sub_self]
        exact ⟨le_rfl, rfl⟩
      | succ k =>
        obtain ⟨hle, hcolumn⟩ := hrest (next + 1) h
        rw [Nat.add_assoc, Nat.add_comm 1] at hcolumn
        exact ⟨hle, hcolumn (some next)⟩

/-- `N` is `M` with columns added for constraints, and the relations may differ. -/
structure Model.Widened (M : Model α) (added : List (Auxiliary α)) (N : Model α) : Prop where
  /-- The model's own variables come first, and then those of the columns. -/
  vars : N.vars = M.vars ++ Auxiliary.vars M.vars.length added
  /-- There are as many constraints. -/
  length_constraints : N.constraints.length = M.constraints.length
  /-- The bounds are the same. -/
  bound : ∀ (i : ℕ) (c d : Constraint α), M.constraints[i]? = some c →
    N.constraints[i]? = some d → d.bound = c.bound
  /-- The coefficients of the model's own variables are the same. -/
  coefficientAt : ∀ (i : ℕ) (c d : Constraint α), M.constraints[i]? = some c →
    N.constraints[i]? = some d →
      ∀ j < M.vars.length, d.expression.coefficientAt j = c.expression.coefficientAt j
  /-- An added column stands in its constraint only. -/
  auxiliary : ∀ (k : ℕ) (a : Auxiliary α), added[k]? = some a → ∀ (i : ℕ) (d : Constraint α),
    N.constraints[i]? = some d →
      d.expression.coefficientAt (M.vars.length + k) = if i = a.place then a.entry else 0

namespace Model.Widened

variable {M N : Model α} {added : List (Auxiliary α)}

/-- A model is itself without any added columns. -/
theorem refl (M : Model α) : M.Widened [] M := by
  refine ⟨(List.append_nil _).symm, rfl, fun i c d hc hd => ?_, fun i c d hc hd j _ => ?_, nofun⟩
  all_goals
    cases hc.symm.trans hd
    rfl

/-- There is a variable for each added column. -/
theorem length_vars (h : M.Widened added N) : N.vars.length = M.vars.length + added.length := by
  rw [h.vars, List.length_append, Auxiliary.length_vars]

/-- A pass adds a column for each chosen constraint after those that are there. -/
theorem attachColumns (h : M.Widened added N) (hN : N.Scoped) (coefficient : α) (letter : String)
    {chosen : List Bool} (hlength : chosen.length = N.constraints.length) :
    M.Widened (added ++ Auxiliary.each letter coefficient (chosen.findIdxs id))
      (N.attachColumns coefficient letter chosen).1 := by
  have hattached := N.attached_attachColumns coefficient letter hlength
  have hplaces : (N.constraints.zip chosen).findIdxs (·.2) = chosen.findIdxs id := by
    conv_rhs => rw [← List.map_snd_zip hlength.le, List.findIdxs_map]
    rfl
  have hwidth := h.length_vars
  refine ⟨?_, hattached.length_constraints.trans h.length_constraints, fun i c d' hc hd' => ?_,
    fun i c d' hc hd' j hj => ?_, fun k a ha i d' hd' => ?_⟩
  · have hvars : (N.attachColumns coefficient letter chosen).1.vars =
        N.vars ++ (LinProg.attachColumns coefficient letter N.vars.length 0
          (N.constraints.zip chosen)).1 := rfl
    rw [hvars, added_attachColumns, hplaces, Auxiliary.vars_append, ← List.append_assoc,
      ← h.vars, hwidth]
  · obtain ⟨d, hd, hbound, -⟩ := hattached.exists_constraint hN hd'
    exact hbound.trans (h.bound i c d hc hd)
  · obtain ⟨d, hd, -, hsame⟩ := hattached.exists_constraint hN hd'
    rw [hsame j (by omega), h.coefficientAt i c d hc hd j hj]
  · rcases lt_or_ge k added.length with hk | hk
    · -- A column from before is one that the pass finds there.
      obtain ⟨d, hd, -, hsame⟩ := hattached.exists_constraint hN hd'
      rw [List.getElem?_append_left hk] at ha
      rw [hsame _ (by omega), h.auxiliary k a ha i d hd]
    · rw [List.getElem?_append_right hk] at ha
      obtain ⟨place, hplace, rfl⟩ := Option.map_eq_some_iff.1
        ((List.getElem?_map ..).symm.trans ha)
      rw [← hplaces] at hplace
      obtain ⟨-, hcolumn⟩ :=
        column_attachColumns coefficient letter N.vars.length 0 _ hplace
      have hnumber : N.vars.length + (k - added.length) = M.vars.length + k := by omega
      rw [hnumber] at hcolumn
      exact hattached.coefficientAt_column hN hcolumn hd'

/-- Each constraint of the model with a bound that is not negative is still there. -/
theorem exists_constraint {M : Model α} (hsigned : (StandardForm.signed M).constraints =
      M.constraints.map Constraint.withPositiveBound)
    (h : (StandardForm.signed M).Widened added N) {i : ℕ} {c : Constraint α}
    (hc : M.constraints[i]? = some c) :
    ∃ d, N.constraints[i]? = some d ∧ d.bound = c.withPositiveBound.bound ∧
      ∀ j < M.vars.length, d.expression.coefficientAt j =
        c.withPositiveBound.expression.coefficientAt j := by
  have hturned : (StandardForm.signed M).constraints[i]? = some c.withPositiveBound := by
    rw [hsigned, List.getElem?_map, hc]
    rfl
  have hlt : i < N.constraints.length := by
    rw [h.length_constraints]
    exact (List.getElem?_eq_some_iff.1 hturned).1
  have hd := List.getElem?_eq_getElem hlt
  exact ⟨_, hd, h.bound i _ _ hturned hd, h.coefficientAt i _ _ hturned hd⟩

end Model.Widened

/-! ## The three passes -/

namespace Constraint

/-- The relation once the bound is not negative. -/
def normalRelation (c : Constraint α) : Relation :=
  if c.bound < 0 then c.relation.inverted else c.relation

/-- The opposite number where the bound is negative. -/
def turned (c : Constraint α) (x : α) : α :=
  if c.bound < 0 then -x else x

/-- The relation of the constraint with a bound that is not negative. -/
theorem relation_withPositiveBound (c : Constraint α) :
    c.withPositiveBound.relation = c.normalRelation := by
  unfold withPositiveBound normalRelation
  split <;> rfl

/-- The bound that is not negative. -/
theorem bound_withPositiveBound (c : Constraint α) :
    c.withPositiveBound.bound = c.turned c.bound := by
  unfold withPositiveBound turned
  split <;> rfl

end Constraint

/-- Negating an expression negates the coefficient at each index that comes up. -/
theorem Expression.coefficientAt_negate_of_mem (hneg : ∀ x : α, x * -1 = -x) {e : Expression α}
    {j : ℕ} (hj : ∃ t ∈ e.terms, t.var.index = j) :
    e.negate.coefficientAt j = -e.coefficientAt j := by
  -- From the first term with the index on, the two folds are opposite.
  have hfold : ∀ (terms : List (Term α)) (a b : α),
      (a = -b ∨ ∃ t ∈ terms, t.var.index = j) →
      (terms.map fun t => { t with coefficient := t.coefficient * (-1 : α) }).foldl
          (fun a t => if t.var.index = j then t.coefficient else a) a =
        -terms.foldl (fun a t => if t.var.index = j then t.coefficient else a) b := by
    intro terms
    induction terms with
    | nil =>
      intro a b h
      exact h.resolve_right (by simp)
    | cons t terms ih =>
      intro a b h
      rw [List.map_cons, List.foldl_cons, List.foldl_cons]
      apply ih
      by_cases ht : t.var.index = j
      · rw [if_pos ht, if_pos ht]
        exact Or.inl (hneg t.coefficient)
      · rw [if_neg ht, if_neg ht]
        rcases h with h | ⟨t', ht', hindex⟩
        · exact Or.inl h
        · rcases List.mem_cons.1 ht' with rfl | hrest
          · exact absurd hindex ht
          · exact Or.inr ⟨t', hrest, hindex⟩
  exact hfold e.terms 0 0 (Or.inr hj)

namespace Constraint

variable (c : Constraint α) {j : ℕ}

/-- The coefficient of a variable that comes up is turned around with the bound. -/
theorem coefficientAt_withPositiveBound (hneg : ∀ x : α, x * -1 = -x)
    (hj : ∃ t ∈ c.expression.terms, t.var.index = j) :
    c.withPositiveBound.expression.coefficientAt j =
      c.turned (c.expression.coefficientAt j) := by
  unfold withPositiveBound turned
  split
  · exact Expression.coefficientAt_negate_of_mem hneg hj
  · rfl

/-- A variable that does not come up has the coefficient zero on either side. -/
theorem coefficientAt_withPositiveBound_of_ne (hj : ∀ t ∈ c.expression.terms, t.var.index ≠ j) :
    c.withPositiveBound.expression.coefficientAt j = 0 := by
  apply Expression.coefficientAt_of_ne
  unfold withPositiveBound
  split
  · intro t ht
    obtain ⟨u, hu, rfl⟩ := List.mem_map.1 ht
    exact hj u hu
  · exact hj

end Constraint

/-- The columns that are added to a model: the slacks, then the surpluses, then in phase one the
artificial variables. -/
def Model.auxiliaries (M : Model α) (phaseOne : Bool) : List (Auxiliary α) :=
  Auxiliary.each "s" 1 (M.constraints.findIdxs (·.normalRelation = .atMost)) ++
    Auxiliary.each "e" (-1) (M.constraints.findIdxs (·.normalRelation = .atLeast)) ++
    if phaseOne then
      Auxiliary.each "R" 1 (M.constraints.findIdxs (·.normalRelation ≠ .atMost))
    else []

namespace StandardForm

variable {M : Model α}

/-- Without constants to move, the signs turn the constraints around where the bound is negative. -/
theorem constraints_signed (hsub : ∀ x : α, x - 0 = x)
    (hconstant : ∀ c ∈ M.constraints, c.expression.constant = 0) :
    (signed M).constraints = M.constraints.map Constraint.withPositiveBound := by
  have hsimplify : ∀ c ∈ M.constraints, c.simplify.withPositiveBound = c.withPositiveBound :=
    fun c hc => by rw [Constraint.simplify_of_sub_zero (hsub _) (hconstant c hc)]
  show (M.constraints.map Constraint.simplify).map Constraint.withPositiveBound = _
  rw [List.map_map]
  exact List.map_congr_left hsimplify

/-- The relations that the first pass meets are those of constraints with bounds that are not
negative. -/
theorem map_relation_signed (hsub : ∀ x : α, x - 0 = x)
    (hconstant : ∀ c ∈ M.constraints, c.expression.constant = 0) :
    (signed M).constraints.map (·.relation) = M.constraints.map (·.normalRelation) := by
  rw [constraints_signed hsub hconstant, List.map_map]
  exact List.map_congr_left fun c _ => c.relation_withPositiveBound

omit [Scalar α] in
/-- The choice by a relation, from the relations. -/
theorem withRelation_eq_map (N : Model α) (relation : Relation) :
    N.withRelation relation = (N.constraints.map (·.relation)).map (decide <| · = relation) := by
  rw [List.map_map]
  rfl

/-- The first pass chooses the constraints whose relation is at most once the bound is not
negative. -/
theorem withRelation_signed (hsub : ∀ x : α, x - 0 = x)
    (hconstant : ∀ c ∈ M.constraints, c.expression.constant = 0) :
    (signed M).withRelation .atMost =
      M.constraints.map fun c => decide (c.normalRelation = .atMost) := by
  rw [withRelation_eq_map, map_relation_signed hsub hconstant, List.map_map]
  rfl

omit [Scalar α] in
/-- There is a choice for each constraint. -/
theorem length_withRelation (N : Model α) (relation : Relation) :
    (N.withRelation relation).length = N.constraints.length :=
  List.length_map _

/-- The slacks and the surpluses widen the model with the signs. -/
theorem widened_ofModel (hsub : ∀ x : α, x - 0 = x) (hM : M.Scoped)
    (hconstant : ∀ c ∈ M.constraints, c.expression.constant = 0) :
    (signed M).Widened (M.auxiliaries false) (ofModel M).model := by
  let slacked := ((signed M).attachColumns 1 "s" ((signed M).withRelation .atMost)).1
  have hattached : (signed M).Attached 1 ((signed M).withRelation .atMost) slacked _ :=
    Model.attached_attachColumns _ 1 "s" (length_withRelation _ _)
  have hslacks : (signed M).Widened _ slacked :=
    (Model.Widened.refl (signed M)).attachColumns (scoped_signed hM) 1 "s"
      (length_withRelation _ _)
  have hsurpluses := hslacks.attachColumns (hattached.model_scoped (scoped_signed hM)) (-1) "e"
    (length_withRelation slacked .atLeast)
  -- A constraint that got a slack is an equality by then, and no other one changed.
  have hchosen : slacked.withRelation .atLeast =
      M.constraints.map fun c => decide (c.normalRelation = .atLeast) := by
    rw [withRelation_eq_map, hattached.map_relation, map_relation_signed hsub hconstant,
      List.map_map, List.map_map]
    refine List.map_congr_left fun c _ => ?_
    cases hrelation : c.normalRelation <;> simp [hrelation]
  have hmodel : (ofModel M).model =
      (slacked.attachColumns (-1) "e" (slacked.withRelation .atLeast)).1 := rfl
  have hadded : M.auxiliaries false =
      Auxiliary.each "s" 1 (M.constraints.findIdxs (·.normalRelation = .atMost)) ++
        Auxiliary.each "e" (-1) (M.constraints.findIdxs (·.normalRelation = .atLeast)) :=
    List.append_nil _
  rw [withRelation_signed hsub hconstant, List.nil_append, hchosen, List.findIdxs_map,
    List.findIdxs_map] at hsurpluses
  rw [hmodel, hadded, hchosen]
  exact hsurpluses

/-- A constraint has a slack when its relation is at most once the bound is not negative. -/
theorem map_isNone_slacks (hsub : ∀ x : α, x - 0 = x)
    (hconstant : ∀ c ∈ M.constraints, c.expression.constant = 0) :
    (ofModel M).slacks.map (·.isNone) =
      M.constraints.map fun c => decide (c.normalRelation ≠ .atMost) := by
  obtain ⟨slacked, surpluses, hslack, -⟩ := ofModel_attached M
  have hnone : (ofModel M).slacks.map (·.isNone) =
      ((ofModel M).slacks.map Option.isSome).map (!·) := by
    rw [List.map_map]
    exact List.map_congr_left fun slack _ => (Option.not_isSome slack).symm
  rw [hnone, hslack.map_isSome, withRelation_signed hsub hconstant, List.map_map]
  exact List.map_congr_left fun c _ => decide_not.symm

/-- Phase one is needed when some constraint has another relation. -/
theorem needsPhaseOne_iff (hsub : ∀ x : α, x - 0 = x)
    (hconstant : ∀ c ∈ M.constraints, c.expression.constant = 0) :
    (ofModel M).needsPhaseOne = true ↔ ∃ c ∈ M.constraints, c.normalRelation ≠ .atMost := by
  have hany : (ofModel M).needsPhaseOne = ((ofModel M).slacks.map (·.isNone)).any id := by
    rw [List.any_map]
    rfl
  rw [hany, map_isNone_slacks hsub hconstant, List.any_map, List.any_eq_true]
  simp

/-- The artificial variables widen the standard form. -/
theorem widened_phaseOneProgram (hsub : ∀ x : α, x - 0 = x) (hM : M.Scoped)
    (hconstant : ∀ c ∈ M.constraints, c.expression.constant = 0) {program : PhaseOneProgram α}
    (h : (ofModel M).phaseOneProgram = .ok program) :
    (signed M).Widened (M.auxiliaries true) program.model := by
  have hlength : ((ofModel M).slacks.map (·.isNone)).length =
      (ofModel M).model.constraints.length := by
    rw [List.length_map, length_slacks_ofModel]
  have hwidened := (widened_ofModel hsub hM hconstant).attachColumns (scoped_ofModel hM) 1 "R"
    hlength
  have hadded : M.auxiliaries true = M.auxiliaries false ++
      Auxiliary.each "R" 1 (((ofModel M).slacks.map (·.isNone)).findIdxs id) := by
    rw [map_isNone_slacks hsub hconstant, List.findIdxs_map]
    exact congrArg (· ++ _) (List.append_nil _).symm
  rw [← hadded] at hwidened
  unfold phaseOneProgram at h
  obtain ⟨model, hmodel, h⟩ := (bind_eq_ok_iff _ _ _).1 h
  cases h
  obtain ⟨-, rfl⟩ := (Model.optimize_eq_ok_iff _ model .maximize _).1 hmodel
  -- Setting the objective keeps the variables and the constraints.
  exact ⟨hwidened.vars, hwidened.length_constraints, hwidened.bound, hwidened.coefficientAt,
    hwidened.auxiliary⟩

end StandardForm

/-! ## The tableau -/

namespace Tableau

/-- The constraint rows and the columns of `T` are those of the model with the added columns. -/
structure LaidOut (T : Tableau α) (M : Model α) (added : List (Auxiliary α)) : Prop where
  /-- The model's own variables come first, and then those of the added columns. -/
  vars : T.model.vars = M.vars ++ Auxiliary.vars M.vars.length added
  /-- There is a row for the objective and one for each constraint. -/
  height : T.matrix.height = M.constraints.length + 1
  /-- A row holds the coefficients of its constraint, turned around where the bound is negative. -/
  entry : ∀ (i : ℕ) (c : Constraint α), M.constraints[i]? = some c → ∀ j < M.vars.length,
    (∃ t ∈ c.expression.terms, t.var.index = j) →
      T.entry (i + 1) j = c.turned (c.expression.coefficientAt j)
  /-- It is zero in the columns of the model's own variables that do not come up. -/
  entry_of_ne : ∀ (i : ℕ) (c : Constraint α), M.constraints[i]? = some c → ∀ j < M.vars.length,
    (∀ t ∈ c.expression.terms, t.var.index ≠ j) → T.entry (i + 1) j = 0
  /-- Its right-hand side is the bound, turned around where it is negative. -/
  rhs : ∀ (i : ℕ) (c : Constraint α), M.constraints[i]? = some c →
    T.rhs (i + 1) = c.turned c.bound
  /-- An added column is zero in every constraint row but that of its constraint. -/
  auxiliary : ∀ (k : ℕ) (a : Auxiliary α), added[k]? = some a → ∀ row ∈ T.constraintRows,
    T.entry row (M.vars.length + k) = if row = a.place + 1 then a.entry else 0

/-- Pricing out columns in constraint rows changes the objective row only. -/
theorem sameConstraintRows_of_foldlM_priceOut {T U : Tableau α} {places : List (ℕ × ℕ)}
    (hplaces : ∀ p ∈ places, p.1 ≠ 0)
    (h : places.foldlM (fun S p => S.priceOut p.1 p.2) T = .ok U) :
    U.model = T.model ∧ U.matrix.height = T.matrix.height ∧
      ∀ i ≠ 0, ∀ j, U.entry i j = T.entry i j := by
  induction places generalizing T with
  | nil =>
    cases h
    exact ⟨rfl, rfl, fun _ _ _ => rfl⟩
  | cons p places ih =>
    obtain ⟨hp, hrest⟩ := List.forall_mem_cons.1 hplaces
    rw [List.foldlM_cons] at h
    obtain ⟨S, hS, h⟩ := (bind_eq_ok_iff _ _ _).1 h
    have hpriced := pricedOut_of_eq_ok hp hS
    obtain ⟨hmodel, hheight, hentry⟩ := ih hrest h
    refine ⟨hmodel.trans hpriced.model, hheight.trans hpriced.height, fun i hi j => ?_⟩
    rw [hentry i hi j, hpriced.entry_of_ne i hi j]

/-- A tableau whose constraint rows are those of a widened model is laid out like it. -/
theorem laidOut_of_firstOf (hneg : ∀ x : α, x * -1 = -x) {M N : Model α}
    {added : List (Auxiliary α)} (hsigned : (StandardForm.signed M).constraints =
      M.constraints.map Constraint.withPositiveBound)
    (hwidened : (StandardForm.signed M).Widened added N) {first T : Tableau α} {o : Objective α}
    {tolerance : α} (hfirst : first.FirstOf N o tolerance) (hmodel : T.model = first.model)
    (hheight : T.matrix.height = first.matrix.height)
    (hentry : ∀ i ≠ 0, ∀ j, T.entry i j = first.entry i j) : T.LaidOut M added := by
  have hconstraints : N.constraints.length = M.constraints.length := by
    rw [hwidened.length_constraints, hsigned, List.length_map]
  have hwidth : N.vars.length = M.vars.length + added.length := hwidened.length_vars
  have hcolumns : T.columns = first.columns := columns_eq_of_model_eq hmodel
  refine ⟨?_, ?_, fun i c hc j hj hmem => ?_, fun i c hc j hj hne => ?_, fun i c hc => ?_,
    fun k a ha row hrow => ?_⟩
  · rw [hmodel, hfirst.model, hwidened.vars]
    rfl
  · rw [hheight, hfirst.height, hconstraints]
  · obtain ⟨d, hd, -, hcoefficient⟩ := hwidened.exists_constraint hsigned hc
    rw [hentry _ (Nat.succ_ne_zero i), hfirst.entry_succ i d hd j (by omega), hcoefficient j hj,
      c.coefficientAt_withPositiveBound hneg hmem]
  · obtain ⟨d, hd, -, hcoefficient⟩ := hwidened.exists_constraint hsigned hc
    rw [hentry _ (Nat.succ_ne_zero i), hfirst.entry_succ i d hd j (by omega), hcoefficient j hj,
      c.coefficientAt_withPositiveBound_of_ne hne]
  · obtain ⟨d, hd, hbound, -⟩ := hwidened.exists_constraint hsigned hc
    have hrhs : T.rhs (i + 1) = first.rhs (i + 1) := by
      unfold Tableau.rhs
      rw [hcolumns, hentry _ (Nat.succ_ne_zero i)]
    rw [hrhs, hfirst.rhs_succ i d hd, hbound, c.bound_withPositiveBound]
  · obtain ⟨hne, hlt⟩ : row ≠ 0 ∧ row < first.matrix.height := by
      rw [mem_constraintRows, hheight] at hrow
      exact hrow
    obtain ⟨i, rfl⟩ := Nat.exists_eq_add_one_of_ne_zero hne
    rw [hfirst.height, Nat.add_lt_add_iff_right] at hlt
    have hd := List.getElem?_eq_getElem hlt
    have hk : k < added.length := (List.getElem?_eq_some_iff.1 ha).1
    rw [hentry _ hne, hfirst.entry_succ i _ hd _ (by omega)]
    simp only [Nat.add_right_cancel_iff]
    exact hwidened.auxiliary k a ha i _ hd

end Tableau

namespace Model

/-- The first tableau of a solve that has a solution. Its columns are the model's own variables,
then a slack for each constraint that is at most its bound, a surplus for each that is at least its
bound, and in phase one an artificial variable for each constraint without a slack, where relations
are those for bounds that are not negative. There is a phase one when some constraint has no
slack. -/
theorem solve_layout (hsub : ∀ x : α, x - 0 = x) (hneg : ∀ x : α, x * -1 = -x) (name : String)
    (calls : List (Call α)) {settings : Settings α} {s : Solution α}
    (h : ((built name calls).solve settings).result = .ok s) :
    let M := built name calls
    let phaseOne := s.phaseOneTableau.isSome
    (StandardForm.ofModel M).model.vars =
        M.vars ++ Auxiliary.vars M.vars.length (M.auxiliaries false) ∧
      (phaseOne = true ↔ ∃ c ∈ M.constraints, c.normalRelation ≠ .atMost) ∧
      (s.phaseOneTableau.getD s.initialTableau).LaidOut M (M.auxiliaries phaseOne) := by
  intro M phaseOne
  have hM : M.Scoped := scoped_built name calls
  have hconstant := (wellFormed_built name calls).constant_eq
  have hsigned := StandardForm.constraints_signed hsub hconstant
  have hform := StandardForm.widened_ofModel hsub hM hconstant
  have hneeds := StandardForm.needsPhaseOne_iff hsub hconstant
  -- In phase one the artificial columns were priced out, which the constraint rows do not show.
  have hphaseOne : ∀ found, (StandardForm.ofModel M).needsPhaseOne = true →
      ((StandardForm.ofModel M).phaseOne settings).result = .ok found →
        found.initial.LaidOut M (M.auxiliaries true) := by
    intro found _ hone
    obtain ⟨program, hprogram, hinitial, -⟩ := StandardForm.exists_of_phaseOne_eq_ok hone
    have hshape := programShape_of_eq_ok (StandardForm.scoped_ofModel hM)
      (StandardForm.length_slacks_ofModel M) hprogram
    obtain ⟨total, htotal, -⟩ := hshape.exists_total
    rw [program.tableau_eq_bind] at hinitial
    obtain ⟨first, hfirst, hfold⟩ := (bind_eq_ok_iff _ _ _).1 hinitial
    have hwritten := firstOf_of_eq_ok hshape.isScoped htotal hfirst
    obtain ⟨hmodel, hheight, hentry⟩ := Tableau.sameConstraintRows_of_foldlM_priceOut
      (fun p hp => (hshape.place_bounds hwritten hp).1) hfold
    exact Tableau.laidOut_of_firstOf hneg hsigned
      (StandardForm.widened_phaseOneProgram hsub hM hconstant hprogram) hwritten hmodel hheight
      hentry
  refine ⟨hform.vars, ?_⟩
  obtain ⟨o, ho, -, hconcludes⟩ := concludes_of_solve_eq_ok h
  cases hconcludes with
  | feasible hneeded hone htwo =>
    obtain ⟨-, htableau, -⟩ := fields_of_phaseTwo_eq_ok htwo
    simp only [phaseOne, htableau]
    exact ⟨⟨fun _ => hneeds.1 hneeded, fun _ => rfl⟩, hphaseOne _ hneeded hone⟩
  | infeasible hneeded hone =>
    exact ⟨⟨fun _ => hneeds.1 hneeded, fun _ => rfl⟩, hphaseOne _ hneeded hone⟩
  | skipped hskip hinitial htwo =>
    obtain ⟨hfirst, htableau, -⟩ := fields_of_phaseTwo_eq_ok htwo
    have hwritten := firstOf_of_eq_ok (StandardForm.scoped_ofModel hM)
      (StandardForm.objective_ofModel ho) hinitial
    simp only [phaseOne, htableau, hfirst]
    refine ⟨⟨nofun, fun hsome => absurd (hneeds.2 hsome) ?_⟩, ?_⟩
    · rw [hskip]
      exact Bool.false_ne_true
    · exact Tableau.laidOut_of_firstOf hneg hsigned hform hwritten rfl rfl fun _ _ _ => rfl

/-- Relations of every kind, with bounds of both signs. -/
def interleavedCalls : List (Call Float) :=
  let x : Variable := ⟨0, "x"⟩
  let y : Variable := ⟨1, "y"⟩
  [.addVariable "x", .addVariable "y",
    .addConstraint ⟨[⟨1, x⟩, ⟨2, y⟩], 0⟩ .atLeast 1,
    .addConstraint ⟨[⟨1, x⟩, ⟨1, y⟩], 0⟩ .atMost 4,
    .addConstraint ⟨[⟨-1, x⟩, ⟨-1, y⟩], 0⟩ .atMost (-1),
    .addConstraint ⟨[⟨2, x⟩, ⟨1, y⟩], 0⟩ .equal 3,
    .addConstraint ⟨[⟨1, x⟩, ⟨-1, y⟩], 0⟩ .atLeast (-2),
    .maximize ⟨[⟨1, x⟩, ⟨1, y⟩], 0⟩]

/-- The interleaved model is solved, and its first tableau is laid out by its relations. -/
theorem solve_layout_interleaved :
    (∀ x : Float, x - 0 = x) ∧ (∀ x : Float, x * -1 = -x) ∧
    ∃ s, ((built "interleaved" interleavedCalls).solve Settings.standard).result = .ok s ∧
      s.phaseOneTableau.isSome = true ∧
      (s.phaseOneTableau.getD s.initialTableau).model.vars =
        [⟨0, "x"⟩, ⟨1, "y"⟩, ⟨2, "s1"⟩, ⟨3, "s4"⟩, ⟨4, "e0"⟩, ⟨5, "e2"⟩, ⟨6, "R0"⟩, ⟨7, "R2"⟩,
          ⟨8, "R3"⟩] ∧
      (s.phaseOneTableau.isSome = true ↔
        ∃ c ∈ (built "interleaved" interleavedCalls).constraints, c.normalRelation ≠ .atMost) ∧
      (s.phaseOneTableau.getD s.initialTableau).LaidOut (built "interleaved" interleavedCalls)
        ((built "interleaved" interleavedCalls).auxiliaries s.phaseOneTableau.isSome) := by
  have hsub : ∀ x : Float, x - 0 = x := Scalar.SignSymmetric.sub_zero
  have hneg : ∀ x : Float, x * -1 = -x := Scalar.SignSymmetric.mul_neg_one
  have hresult : (match ((built "interleaved" interleavedCalls).solve Settings.standard).result with
      | .ok s => s.phaseOneTableau.isSome &&
          decide ((s.phaseOneTableau.getD s.initialTableau).model.vars =
            [⟨0, "x"⟩, ⟨1, "y"⟩, ⟨2, "s1"⟩, ⟨3, "s4"⟩, ⟨4, "e0"⟩, ⟨5, "e2"⟩, ⟨6, "R0"⟩,
              ⟨7, "R2"⟩, ⟨8, "R3"⟩])
      | .error _ => false) = true := by
    decide +kernel
  split at hresult
  · rename_i s hs
    rw [Bool.and_eq_true, decide_eq_true_eq] at hresult
    obtain ⟨-, hneeds, hlayout⟩ := solve_layout hsub hneg "interleaved" interleavedCalls hs
    exact ⟨hsub, hneg, s, hs, hresult.1, hresult.2, hneeds, hlayout⟩
  · exact absurd hresult Bool.false_ne_true

end Model

end LinProg
