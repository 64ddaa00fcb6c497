import LinProg.Proofs.AntiCycling
import LinProg.Proofs.Verdicts

/-!
# The number of pivots

A phase without tolerance makes fewer pivots than `pivotBound` says, under either rule and whatever
the limit on degenerate pivots, so with that many allowed it is never cut short
(`Runs.length_lt_pivotBound`).

The bound counts bases, of which there are `baseCount` many. The steps that are not degenerate make
the objective value larger, so no two of them end at the same basis. By Bland's theorem no two steps
of Bland's rule do either. What is left are the degenerate steps of Dantzig's rule: the limit bounds
how many of them there are in a row, and a row of them ends with a step that is not degenerate, with
the switch to Bland's rule, or with the phase (`Runs.length_add_streak_le`). -/

namespace LinProg

namespace Phase

open Tableau

variable {settings : Settings ℚ} {remaining streak : ℕ} {rule : PivotRule} {T U : Tableau ℚ}
  {steps : List (PivotStep ℚ)} {ending : PhaseEnd ℚ}

/-! ## Steps of Bland's rule -/

/-- A phase that follows Bland's rule follows it to the end. -/
theorem Runs.rule_eq_bland (h : Runs settings remaining rule streak T steps ending)
    (hrule : rule = .bland) : ∀ step ∈ steps, step.rule = .bland := by
  induction h with
  | optimal | unbounded | exhausted | failed => exact nofun
  | @step _ _ _ _ step rest _ hsame _ _ _ _ ih =>
    have hbland : step.rule = .bland := hsame.trans hrule
    have hnext : step.nextRule = .bland := nextRule_of_bland hbland
    intro other hother
    rcases List.mem_cons.1 hother with rfl | hother
    · exact hbland
    · exact ih hnext other hother

/-- Under Bland's rule every tableau is reached by steps of that rule. -/
theorem Runs.transGen_of_bland (h : Runs settings remaining rule streak T steps ending)
    (hrule : rule = .bland) :
    ∀ step ∈ steps, Relation.TransGen BlandStep T step.tableau := by
  induction h with
  | optimal | unbounded | exhausted | failed => exact nofun
  | @step _ _ _ _ step rest _ hsame hchosen _ _ _ ih =>
    have hnext : step.nextRule = .bland := nextRule_of_bland (hsame.trans hrule)
    rw [hrule] at hchosen
    have hfirst : BlandStep _ step.tableau := ⟨_, _, hchosen⟩
    intro other hother
    rcases List.mem_cons.1 hother with rfl | hother
    · exact .single hfirst
    · exact .head hfirst (ih hnext other hother)

/-- Under Bland's rule no matrix is visited twice. -/
theorem Runs.nodup_rows_of_bland (h : Runs settings remaining rule streak T steps ending)
    (hrule : rule = .bland) (hT : T.Canonical) :
    ((T :: steps.map (·.tableau)).map (·.matrix.rows)).Nodup := by
  induction h with
  | optimal | unbounded | exhausted | failed => simp
  | @step _ _ _ T step rest _ hsame hchosen hstreak hswitches hrest ih =>
    have hnext : step.nextRule = .bland := nextRule_of_bland (hsame.trans hrule)
    have hpaths := (Runs.step hsame hchosen hstreak hswitches hrest).transGen_of_bland hrule
    rw [List.map_cons, List.nodup_cons]
    constructor
    · intro hmem
      obtain ⟨V, hV, hrows⟩ := List.mem_map.1 hmem
      obtain ⟨other, hother, rfl⟩ := List.mem_map.1 hV
      exact rows_ne_of_transGen hT (hpaths other hother) hrows
    · exact ih hnext (hchosen.canonical hT)

/-! ## Counting bases -/

/-- The number of ways to choose a column or none for each constraint row. -/
def baseCount (columns rows : ℕ) : ℕ :=
  (columns + 1) ^ (rows - 1)

/-- The basic columns of the constraint rows, as one of finitely many choices. -/
def basisCode (columns rows : ℕ) (T : Tableau ℚ) : Fin (rows - 1) → Option (Fin columns) :=
  fun r => (T.basicColumn (r + 1)).bind fun c => if h : c < columns then some ⟨c, h⟩ else none

/-- The choice tells the basic column of a row. -/
theorem map_val_basisCode {columns rows : ℕ} (hcolumns : T.columns = columns) (r : Fin (rows - 1)) :
    (basisCode columns rows T r).map (·.val) = T.basicColumn (r + 1) := by
  unfold basisCode
  cases hc : T.basicColumn (r + 1) with
  | none => rfl
  | some c =>
    have hlt : c < columns := by
      rw [← hcolumns]
      exact lt_columns_of_basicColumn hc
    rw [Option.bind_some, dif_pos hlt]
    rfl

/-- Canonical tableaux of one shape with the same choice have the same basic columns. -/
theorem basicColumn_eq_of_basisCode_eq {columns rows : ℕ} (hT : T.Canonical) (hU : U.Canonical)
    (hcolumnsT : T.columns = columns) (hcolumnsU : U.columns = columns)
    (hrowsT : T.matrix.height = rows) (hrowsU : U.matrix.height = rows)
    (h : basisCode columns rows T = basisCode columns rows U) (i : ℕ) :
    T.basicColumn i = U.basicColumn i := by
  by_cases hi : i ≠ 0 ∧ i < rows
  · let r : Fin (rows - 1) := ⟨i - 1, by omega⟩
    have hsucc : (r : ℕ) + 1 = i := by
      show i - 1 + 1 = i
      omega
    calc T.basicColumn i = T.basicColumn (r + 1) := by rw [hsucc]
      _ = (basisCode columns rows T r).map (·.val) := (map_val_basisCode hcolumnsT r).symm
      _ = (basisCode columns rows U r).map (·.val) := by rw [h]
      _ = U.basicColumn (r + 1) := map_val_basisCode hcolumnsU r
      _ = U.basicColumn i := by rw [hsucc]
  · -- Outside the constraint rows there are no basic columns.
    have hnone : ∀ V : Tableau ℚ, V.Canonical → V.matrix.height = rows →
        V.basicColumn i = none := by
      intro V hV hrows
      cases hc : V.basicColumn i with
      | none => rfl
      | some c =>
        have hin := (basicIn_of_basicColumn hV.tolerance_eq hc).mem_constraintRows
        rw [mem_constraintRows, hrows] at hin
        exact absurd hin hi
    rw [hnone T hT hrowsT, hnone U hU hrowsU]

/-- Tableaux with pairwise different choices are at most as many as there are choices. -/
theorem length_le_baseCount {columns rows : ℕ} {tableaux : List (Tableau ℚ)}
    (h : (tableaux.map (basisCode columns rows)).Nodup) :
    tableaux.length ≤ baseCount columns rows := by
  have hle := h.length_le_card
  rw [List.length_map, Fintype.card_fun, Fintype.card_option, Fintype.card_fin,
    Fintype.card_fin] at hle
  exact hle

/-- No step of a phase makes the objective value smaller than it was at the start. -/
theorem Runs.rhs_zero_le (h : Runs settings remaining rule streak T steps ending)
    (hT : T.Canonical) : ∀ step ∈ steps, T.rhs 0 ≤ step.tableau.rhs 0 := by
  induction h with
  | optimal | unbounded | exhausted | failed => exact nofun
  | @step _ _ _ _ step rest _ _ hchosen _ _ _ ih =>
    have hfirst := hchosen.rhs_zero_le hT
    intro other hother
    rcases List.mem_cons.1 hother with rfl | hother
    · exact hfirst
    · exact hfirst.trans (ih (hchosen.canonical hT) other hother)

/-- After a step that is not degenerate the objective value is larger than it was at the start. -/
theorem Runs.rhs_zero_lt (h : Runs settings remaining rule streak T steps ending)
    (hT : T.Canonical) (htol : settings.tolerance = 0) :
    ∀ step ∈ steps, step.streak = 0 → T.rhs 0 < step.tableau.rhs 0 := by
  induction h with
  | optimal | unbounded | exhausted | failed => exact nofun
  | @step _ _ _ T step rest _ _ hchosen hstreak _ _ ih =>
    intro other hother hzero
    rcases List.mem_cons.1 hother with rfl | hother
    · have hne : T.rhs other.row ≠ 0 := by
        rw [← Scalar.isSignificant_zero_iff, ← htol]
        by_contra hnot
        rw [if_neg hnot] at hstreak
        omega
      exact hchosen.rhs_zero_lt hT hne
    · exact lt_of_le_of_lt (hchosen.rhs_zero_le hT)
        (ih (hchosen.canonical hT) other hother hzero)

/-- A step keeps the shape of a tableau. -/
theorem Chosen.shape {column row columns rows : ℕ} (h : Chosen rule T column row U)
    (hT : T.Canonical) (hcolumns : T.columns = columns) (hrows : T.matrix.height = rows) :
    U.columns = columns ∧ U.matrix.height = rows :=
  ⟨(h.equivalent hT).columns.trans hcolumns, (h.equivalent hT).height.trans hrows⟩

/-- Steps that a test picks out end at different bases, when later ones always have other basic
columns. -/
theorem Runs.nodup_basisCode (p : PivotStep ℚ → Bool)
    (h : Runs settings remaining rule streak T steps ending) (hT : T.Canonical) {columns rows : ℕ}
    (hcolumns : T.columns = columns) (hrows : T.matrix.height = rows)
    (hdiffer : ∀ {remaining : ℕ} {step : PivotStep ℚ} {rest : List (PivotStep ℚ)}
      {ending : PhaseEnd ℚ}, p step = true → step.tableau.Canonical →
      Runs settings remaining step.nextRule step.streak step.tableau rest ending →
      ∀ other ∈ rest, p other = true →
        ∃ r, other.tableau.basicColumn r ≠ step.tableau.basicColumn r) :
    (((steps.filter p).map (·.tableau)).map (basisCode columns rows)).Nodup := by
  induction h with
  | optimal | unbounded | exhausted | failed => simp
  | @step _ _ _ T step rest _ _ hchosen _ _ hrest ih =>
    have hU := hchosen.canonical hT
    obtain ⟨hcolumns', hrows'⟩ := hchosen.shape hT hcolumns hrows
    have hnodup := ih hU hcolumns' hrows'
    by_cases hp : p step = true
    case neg =>
      rw [List.filter_cons_of_neg hp]
      exact hnodup
    rw [List.filter_cons_of_pos hp, List.map_cons, List.map_cons, List.nodup_cons]
    refine ⟨fun hmem => ?_, hnodup⟩
    obtain ⟨V, hV, hcode⟩ := List.mem_map.1 hmem
    obtain ⟨other, hother, rfl⟩ := List.mem_map.1 hV
    obtain ⟨hin, hp'⟩ := List.mem_filter.1 hother
    -- The later tableau has the same shape, so the same choice means the same basic columns.
    obtain ⟨hV, hequivalent⟩ := hrest.forall_mem hU other hin
    have hsame := basicColumn_eq_of_basisCode_eq hV hU (hequivalent.columns.trans hcolumns')
      hcolumns' (hequivalent.height.trans hrows') hrows' hcode
    obtain ⟨r, hr⟩ := hdiffer hp hU hrest other hin hp'
    exact hr (hsame r)

/-- No two steps that are not degenerate end at the same basis. -/
theorem Runs.nodup_nondegenerate (h : Runs settings remaining rule streak T steps ending)
    (hT : T.Canonical) (htol : settings.tolerance = 0) {columns rows : ℕ}
    (hcolumns : T.columns = columns) (hrows : T.matrix.height = rows) :
    (((steps.filter (·.streak = 0)).map (·.tableau)).map (basisCode columns rows)).Nodup := by
  apply h.nodup_basisCode _ hT hcolumns hrows
  intro _ step rest _ _ hU hrest other hin hzero
  by_contra hnone
  have hsame : ∀ r, other.tableau.basicColumn r = step.tableau.basicColumn r := by
    intro r
    by_contra hr
    exact hnone ⟨r, hr⟩
  -- With the same basic columns the objective values would be the same.
  obtain ⟨hV, hequivalent⟩ := hrest.forall_mem hU other hin
  have hvalue := hV.rhs_eq_of_basicColumn_eq hU hequivalent.symm hsame 0
  have hlarger := hrest.rhs_zero_lt hU htol other hin (of_decide_eq_true hzero)
  exact absurd hvalue hlarger.ne'

/-- No two steps of Bland's rule end at the same basis. -/
theorem Runs.nodup_bland (h : Runs settings remaining rule streak T steps ending)
    (hT : T.Canonical) {columns rows : ℕ} (hcolumns : T.columns = columns)
    (hrows : T.matrix.height = rows) :
    (((steps.filter (·.rule = .bland)).map (·.tableau)).map (basisCode columns rows)).Nodup := by
  apply h.nodup_basisCode _ hT hcolumns hrows
  intro _ step rest _ hbland hU hrest other hin _
  have hnext : step.nextRule = .bland := nextRule_of_bland (of_decide_eq_true hbland)
  exact exists_basicColumn_ne hU (hrest.transGen_of_bland hnext other hin)

/-! ## The bound -/

/-- Under Dantzig's rule, a phase has room for a streak of degenerate steps before its first step
that is not degenerate, and after each of them; from the switch on all steps follow Bland's rule. -/
theorem Runs.length_add_streak_le (h : Runs settings remaining rule streak T steps ending)
    (hrule : rule = .dantzig) (hstreak : streak < max settings.degenerateLimit 1) :
    steps.length + streak ≤
      ((steps.filter (·.streak = 0)).length + 1) * max settings.degenerateLimit 1 +
        (steps.filter (·.rule = .bland)).length := by
  induction h with
  | optimal | unbounded | exhausted | failed =>
    simp only [List.length_nil, List.filter_nil]
    omega
  | @step _ _ streak T step rest _ hsame _ hcount hswitches hrest ih =>
    have hdantzig : step.rule = .dantzig := hsame.trans hrule
    have hother : step.rule ≠ .bland := by
      rw [hdantzig]
      exact nofun
    -- The step is one of Dantzig's rule; what it counts for depends on whether it is degenerate.
    rw [List.filter_cons_of_neg (p := fun step : PivotStep ℚ => decide (step.rule = .bland))
      (by simpa using hother), List.length_cons]
    by_cases hsignificant : Scalar.isSignificant settings.tolerance (T.rhs step.row) = true
    · -- The streak is broken, and what was counted of it fits into one more limit.
      rw [if_pos hsignificant] at hcount
      have hno : step.switches = false := by
        rw [hswitches, hcount]
        simp
      have hstay : step.nextRule = .dantzig := (nextRule_of_switches_eq_false hno).trans hdantzig
      have hrest' := ih hstay (by omega)
      rw [List.filter_cons_of_pos (by simpa using hcount), List.length_cons, Nat.succ_mul]
      omega
    · rw [if_neg hsignificant] at hcount
      have hpositive : step.streak ≠ 0 := by omega
      rw [List.filter_cons_of_neg (p := fun step : PivotStep ℚ => decide (step.streak = 0))
        (by simpa using hpositive)]
      by_cases hlimit : settings.degenerateLimit ≤ streak + 1
      · -- The phase switches, and the rest is Bland's.
        have hyes : step.switches = true := by
          rw [hswitches, hcount]
          simpa [hrule] using hlimit
        have hswitch : step.nextRule = .bland := nextRule_of_switches hyes
        have hall : rest.filter (fun step => decide (step.rule = .bland)) = rest := by
          rw [List.filter_eq_self]
          intro other hin
          simpa using hrest.rule_eq_bland hswitch other hin
        have hroom : max settings.degenerateLimit 1 ≤
            ((rest.filter (·.streak = 0)).length + 1) * max settings.degenerateLimit 1 :=
          Nat.le_mul_of_pos_left _ (Nat.succ_pos _)
        rw [hall]
        omega
      · -- The streak goes on, and the room for it is one less.
        have hno : step.switches = false := by
          rw [hswitches, hcount]
          simpa [hrule] using hlimit
        have hstay : step.nextRule = .dantzig := (nextRule_of_switches_eq_false hno).trans hdantzig
        have hrest' := ih hstay (by omega)
        rw [hcount] at hrest'
        omega

/-- More pivots than a phase on a tableau of the shape can make. -/
def pivotBound (columns rows degenerateLimit : ℕ) : ℕ :=
  (baseCount columns rows + 1) * max degenerateLimit 1 + baseCount columns rows + 1

/-- More columns do not make the bound smaller. -/
theorem pivotBound_mono {columns columns' : ℕ} (h : columns ≤ columns') (rows limit : ℕ) :
    pivotBound columns rows limit ≤ pivotBound columns' rows limit := by
  have hbases : baseCount columns rows ≤ baseCount columns' rows :=
    Nat.pow_le_pow_left (by omega) _
  have hmul := Nat.mul_le_mul_right (max limit 1) (Nat.add_le_add_right hbases 1)
  unfold pivotBound
  omega

/-- A phase from a canonical tableau makes fewer pivots than the bound. -/
theorem Runs.length_lt_pivotBound (h : Runs settings remaining rule 0 T steps ending)
    (hT : T.Canonical) (htol : settings.tolerance = 0) :
    steps.length < pivotBound T.columns T.matrix.height settings.degenerateLimit := by
  -- There are no more steps of either kind than bases.
  have hnondegenerate := length_le_baseCount (h.nodup_nondegenerate hT htol rfl rfl)
  have hbland := length_le_baseCount (h.nodup_bland hT rfl rfl)
  rw [List.length_map] at hnondegenerate hbland
  unfold pivotBound
  cases rule with
  | dantzig =>
    have hlength := h.length_add_streak_le rfl (by omega)
    have hmul := Nat.mul_le_mul_right (max settings.degenerateLimit 1)
      (Nat.add_le_add_right hnondegenerate 1)
    omega
  | bland =>
    have hall : steps.filter (fun step => decide (step.rule = .bland)) = steps := by
      rw [List.filter_eq_self]
      intro step hstep
      simpa using h.rule_eq_bland rfl step hstep
    rw [hall] at hbland
    omega

/-- With as many pivots allowed as the bound says, a phase from a canonical tableau is not cut
short. -/
theorem ending_ne_exhausted (hT : T.Canonical) (htol : settings.tolerance = 0)
    (hbound : pivotBound T.columns T.matrix.height settings.degenerateLimit ≤
      settings.maxIterations) : (Phase.run settings T).ending ≠ .exhausted := by
  intro hending
  have hruns := runs_pivots settings settings.maxIterations settings.rule 0 T
  have hlength := hruns.length_lt_pivotBound hT htol
  rw [show (pivots settings settings.maxIterations settings.rule 0 T).2 = .exhausted from hending]
    at hruns
  -- A phase that is cut short has made all pivots allowed, which is too many.
  have hall := hruns.length_of_exhausted
  omega

/-- With as many pivots allowed as the bound says, a phase from a canonical tableau ends at an
optimal tableau or at an unbounded column. -/
theorem ending_eq_optimal_or_unbounded (hT : T.Canonical) (htol : settings.tolerance = 0)
    (hbound : pivotBound T.columns T.matrix.height settings.degenerateLimit ≤
      settings.maxIterations) :
    (Phase.run settings T).ending = .optimal ∨
      ∃ column, (Phase.run settings T).ending = .unbounded column := by
  cases hending : (Phase.run settings T).ending with
  | optimal => exact Or.inl rfl
  | unbounded column => exact Or.inr ⟨column, rfl⟩
  | exhausted => exact absurd hending (ending_ne_exhausted hT htol hbound)
  | failed failure => exact absurd hending (pivots_ne_failed settings _ _ _ hT failure)

end Phase

namespace Model

/-- The columns that the standard form and phase one can add to those of a model. -/
def maxColumns {α : Type} (M : Model α) : ℕ :=
  M.vars.length + 3 * M.constraints.length

/-- The rows of every tableau of a model. -/
def tableauHeight {α : Type} (M : Model α) : ℕ :=
  M.constraints.length + 1

/-- With as many pivots allowed as the bound says for a model, no solve of it is cut short. -/
theorem exists_solution_or_oversized {M : Model ℚ} {o : Objective ℚ} {settings : Settings ℚ}
    (hM : M.Scoped) (ho : M.objective = some o) (hsome : M.constraints ≠ [])
    (htol : settings.tolerance = 0)
    (hbound : Phase.pivotBound M.maxColumns M.tableauHeight settings.degenerateLimit ≤
      settings.maxIterations) :
    (∃ length, Expression.maxDenseLength < length ∧ length ≤ M.maxColumns ∧
      (M.solve settings).result = .error (.fault (.oversizedVector length))) ∨
      ∃ s, (M.solve settings).result = .ok s := by
  have houtcome := outcome_solve hM ho hsome htol
  generalize (M.solve settings).result = result at houtcome
  cases houtcome with
  | oversized hmax hlength => exact Or.inl ⟨_, hmax, hlength, rfl⟩
  | @exhausted T number hT hcolumns hheight hending =>
    have hmono := Phase.pivotBound_mono hcolumns T.matrix.height settings.degenerateLimit
    have hrows : T.matrix.height = M.tableauHeight := hheight
    rw [hrows] at hmono
    have hfewer : Phase.pivotBound T.columns T.matrix.height settings.degenerateLimit ≤
        settings.maxIterations := by
      rw [hrows]
      exact hmono.trans hbound
    exact absurd hending (Phase.ending_ne_exhausted hT htol hfewer)
  | infeasible | unbounded | optimal => exact Or.inr ⟨_, rfl⟩

end Model

/-! ## Anti-cycling -/

/-- Without tolerance, from a canonical tableau: under Bland's rule no matrix is visited twice, and
with enough pivots allowed for the columns, the rows and the limit on degenerate pivots, a phase
under either rule ends at an optimal tableau or at an unbounded column. So a solve of a model with
an objective and constraints decides it, unless its tableau is too large to be addressed. -/
theorem anti_cycling {settings : Settings ℚ} (htol : settings.tolerance = 0) :
    (∀ T : Tableau ℚ, T.Canonical → settings.rule = .bland →
      ((Phase.run settings T).visited.map (·.matrix.rows)).Nodup) ∧
    (∀ T : Tableau ℚ, T.Canonical →
      Phase.pivotBound T.columns T.matrix.height settings.degenerateLimit ≤
        settings.maxIterations →
      (Phase.run settings T).ending = .optimal ∨
        ∃ column, (Phase.run settings T).ending = .unbounded column) ∧
    ∀ (name : String) (calls : List (Model.Call ℚ)) (M : Model ℚ), M = .built name calls →
      Phase.pivotBound M.maxColumns M.tableauHeight settings.degenerateLimit ≤
        settings.maxIterations →
      (M.objective = none ∧ (M.solve settings).result = .error (.error .missingObjective)) ∨
      (M.objective ≠ none ∧ M.constraints = [] ∧
        (M.solve settings).result = .error (.error .noConstraints)) ∨
      (∃ length, Expression.maxDenseLength < length ∧ length ≤ M.maxColumns ∧
        (M.solve settings).result = .error (.fault (.oversizedVector length))) ∨
      ∃ s, (M.solve settings).result = .ok s := by
  refine ⟨fun T hT hrule => ?_, fun T hT hbound => ?_, ?_⟩
  · have hruns := Phase.runs_pivots settings settings.maxIterations settings.rule 0 T
    exact hruns.nodup_rows_of_bland hrule hT
  · exact Phase.ending_eq_optimal_or_unbounded hT htol hbound
  · rintro name calls M rfl hbound
    have hM : (Model.built name calls : Model ℚ).Scoped := Model.scoped_built name calls
    generalize Model.built name calls = M at *
    cases ho : M.objective with
    | none =>
      refine Or.inl ⟨rfl, ?_⟩
      unfold Model.solve
      rw [ho]
      rfl
    | some o =>
      refine Or.inr ?_
      by_cases hempty : M.constraints = []
      · refine Or.inl ⟨nofun, hempty, ?_⟩
        unfold Model.solve
        rw [ho, hempty]
        rfl
      · exact Or.inr (Model.exists_solution_or_oversized hM ho hempty htol hbound)

/-- Beale's program, on which Dantzig's rule cycles: make `-3/4 x + 150 y - 1/50 z + 6 w` small. -/
def bealeCalls : List (Model.Call ℚ) :=
  let x : Variable := ⟨0, "x"⟩
  let y : Variable := ⟨1, "y"⟩
  let z : Variable := ⟨2, "z"⟩
  let w : Variable := ⟨3, "w"⟩
  [.addVariable "x", .addVariable "y", .addVariable "z", .addVariable "w",
    .addConstraint ⟨[⟨1 / 4, x⟩, ⟨-60, y⟩, ⟨-1 / 25, z⟩, ⟨9, w⟩], 0⟩ .atMost 0,
    .addConstraint ⟨[⟨1 / 2, x⟩, ⟨-90, y⟩, ⟨-1 / 50, z⟩, ⟨3, w⟩], 0⟩ .atMost 0,
    .addConstraint ⟨[⟨1, z⟩], 0⟩ .atMost 1,
    .minimize ⟨[⟨-3 / 4, x⟩, ⟨150, y⟩, ⟨-1 / 50, z⟩, ⟨6, w⟩], 0⟩]

/-- Bland's rule without tolerance, with enough pivots for Beale's program. -/
def blandSettings : Settings ℚ :=
  { tolerance := 0, maxIterations := 10000, rule := .bland, degenerateLimit := 2 }

/-- From the first tableau of Beale's program no matrix is visited twice, the phase ends at an
optimal tableau or at an unbounded column, and the program is decided. -/
theorem anti_cycling_beale : ∃ T : Tableau ℚ,
    (StandardForm.ofModel (Model.built "beale" bealeCalls)).model.tableau 0 = .ok T ∧
    blandSettings.tolerance = 0 ∧ blandSettings.rule = .bland ∧ T.Canonical ∧
    Phase.pivotBound T.columns T.matrix.height blandSettings.degenerateLimit ≤
      blandSettings.maxIterations ∧
    ((Phase.run blandSettings T).visited.map (·.matrix.rows)).Nodup ∧
    ((Phase.run blandSettings T).ending = .optimal ∨
      ∃ column, (Phase.run blandSettings T).ending = .unbounded column) ∧
    ∃ s, ((Model.built "beale" bealeCalls).solve blandSettings).result = .ok s := by
  have htol : blandSettings.tolerance = 0 := rfl
  obtain ⟨hnodup, hends, hsolve⟩ := anti_cycling htol
  have hM : (Model.built "beale" bealeCalls : Model ℚ).Scoped := Model.scoped_built _ _
  have hobjective : (Model.built "beale" bealeCalls : Model ℚ).objective.isSome = true := by
    decide +kernel
  obtain ⟨o, ho⟩ := Option.isSome_iff_exists.1 hobjective
  have hskip : (StandardForm.ofModel (Model.built "beale" bealeCalls)).needsPhaseOne = false := by
    decide +kernel
  have hwidth : (StandardForm.ofModel (Model.built "beale" bealeCalls)).model.vars.length ≤
      Expression.maxDenseLength := by
    decide +kernel
  have hsize : (Model.built "beale" bealeCalls : Model ℚ).vars.length = 4 ∧
      (Model.built "beale" bealeCalls : Model ℚ).constraints.length = 3 := by
    decide +kernel
  have hstandard := StandardForm.isStandard_ofModel hM
  obtain ⟨T, hT, -⟩ := Model.exists_tableau_eq_ok hstandard.toScoped
    (StandardForm.objective_ofModel ho) hwidth 0
  have hstarts := startsFrom_of_tableau hM ho hskip hT
  have hbound : Phase.pivotBound T.columns T.matrix.height blandSettings.degenerateLimit ≤
      blandSettings.maxIterations := by
    have hcolumns : T.columns ≤ 10 := by
      have hle := hstarts.columns_le
      omega
    have hheight : T.matrix.height = 4 := by
      rw [hstarts.height, hsize.2]
    rw [hheight]
    exact (Phase.pivotBound_mono hcolumns 4 _).trans (by decide +kernel)
  refine ⟨T, hT, rfl, rfl, hstarts.canonical, hbound, hnodup T hstarts.canonical rfl,
    hends T hstarts.canonical hbound, ?_⟩
  have henough : Phase.pivotBound (Model.built "beale" bealeCalls : Model ℚ).maxColumns
      (Model.built "beale" bealeCalls : Model ℚ).tableauHeight blandSettings.degenerateLimit ≤
        blandSettings.maxIterations := by
    decide +kernel
  rcases hsolve "beale" bealeCalls _ rfl henough with
    ⟨hnone, -⟩ | ⟨-, hempty, -⟩ | ⟨length, hmax, hlength, -⟩ | hdecided
  · rw [hnone] at ho
    exact absurd ho nofun
  · rw [hempty] at hsize
    exact absurd hsize.2 (by decide)
  · have hsmall : (Model.built "beale" bealeCalls : Model ℚ).maxColumns ≤
        Expression.maxDenseLength := by
      decide +kernel
    omega
  · exact hdecided

end LinProg
