import LinProg.Proofs.PhaseRun

/-!
# Bland's rule does not cycle

Bland's theorem, for tableaux without tolerance: steps of Bland's rule never lead back to the basic
columns they started from (`exists_basicColumn_ne`), and so never to the same tableau.

Suppose they do (`Cycle`). The objective value never becomes smaller, so it stays the same, every
step is degenerate, and all tableaux have the same basic point. Let `q` be the last of the columns
that enter. It enters at some step `a`, where by the rule it is the first column with a negative
reduced cost, and it leaves at some step `b`, for a column `s` before it. The ray of `s` at step `b`
is a direction of all tableaux, and the objective row at step `a` is negative along it, as the one
at step `b` is. But no column contributes a negative term: `q` itself shrinks along the ray and has
a negative cost; a column after `q` never enters, so it is basic throughout and has cost zero; and a
column before `q` that shrinks is basic at `b` in a row that is tied with that of `q`, and the rule
would have let it leave instead. The tie is where degeneracy is needed: the row has right-hand side
zero, since its column is not basic at `a` and the basic point is the same.

That the basis is found by scanning, with the lowest column counting where a row has several, does
no harm: a step changes the basic column of its own row only, also as the scan finds it. -/

namespace LinProg.Phase

open Tableau

variable {T U : Tableau ℚ} {column row : ℕ}

/-! ## Degenerate steps -/

/-- A degenerate step keeps the basic point. -/
theorem Chosen.basicPoint_eq {rule : PivotRule} (h : Chosen rule T column row U) (hT : T.Canonical)
    (hzero : T.rhs row = 0) : U.basicPoint = T.basicPoint := by
  have hU := h.canonical hT
  have hrhs := (h.pivotOf hT).rhs_eq hzero
  have hcost := (h.column_spec hT).2.1.ne
  have hnew := h.basicColumn_row hT
  have hother : ∀ i ≠ row, U.basicColumn i = T.basicColumn i :=
    fun i hi => h.basicColumn_of_ne hT hi
  -- The entering column was not basic, so its value was zero.
  have hentering : T.basicPoint column = 0 :=
    basicPoint_of_forall_ne (basicColumn_ne_of_entry_zero_ne hT.tolerance_eq hcost)
  funext j
  by_cases hj : ∃ i, U.basicColumn i = some j
  · obtain ⟨i, hi⟩ := hj
    rw [basicPoint_of_basicColumn hi, hrhs]
    by_cases hir : i = row
    · rw [hir, hnew] at hi
      have hcj := Option.some.inj hi
      rw [hir, hzero, ← hcj, hentering]
    · rw [hother i hir] at hi
      exact (basicPoint_of_basicColumn hi).symm
  · rw [basicPoint_of_forall_ne fun i hi => hj ⟨i, hi⟩]
    by_cases hold : ∃ i, T.basicColumn i = some j
    · obtain ⟨i, hi⟩ := hold
      have hir : i = row := by
        by_contra hir
        exact hj ⟨i, (hother i hir).trans hi⟩
      rw [basicPoint_of_basicColumn hi, hir, hzero]
    · exact (basicPoint_of_forall_ne fun i hi => hold ⟨i, hi⟩).symm

/-! ## Cycles -/

/-- Steps of Bland's rule that come back to the basic columns they started from. -/
structure Cycle (T : ℕ → Tableau ℚ) (entering leaving : ℕ → ℕ) (n : ℕ) : Prop where
  /-- There is a step. -/
  pos : 0 < n
  /-- The first tableau is canonical. -/
  canonical_zero : (T 0).Canonical
  /-- Each step follows Bland's rule. -/
  chosen : ∀ i < n, Chosen .bland (T i) (entering i) (leaving i) (T (i + 1))
  /-- The last tableau has the basic columns of the first. -/
  basicColumn_eq : ∀ r, (T n).basicColumn r = (T 0).basicColumn r

/-- What every step keeps, and the way back keeps too, holds everywhere when it holds somewhere. -/
theorem of_cyclic {P : ℕ → Prop} {n : ℕ} (hstep : ∀ i < n, P i → P (i + 1)) (hback : P n → P 0)
    {a b : ℕ} (ha : a ≤ n) (hb : b ≤ n) (h : P a) : P b := by
  have hup : ∀ k l, k ≤ l → l ≤ n → P k → P l := by
    intro k l hkl
    induction l, hkl using Nat.le_induction with
    | base => exact fun _ hk => hk
    | succ l _ ih =>
      intro hl hk
      exact hstep l (by omega) (ih (by omega) hk)
  have hend := hup a n ha le_rfl h
  exact hup 0 b (Nat.zero_le b) hb (hback hend)

namespace Cycle

variable {T : ℕ → Tableau ℚ} {entering leaving : ℕ → ℕ} {n : ℕ}

/-- Every tableau is canonical. -/
theorem canonical (h : Cycle T entering leaving n) {i : ℕ} (hi : i ≤ n) : (T i).Canonical := by
  induction i with
  | zero => exact h.canonical_zero
  | succ i ih =>
    have hi' : i < n := by omega
    exact (h.chosen i hi').canonical (ih hi'.le)

/-- All tableaux have the same equations and the same objective. -/
theorem equivalent (h : Cycle T entering leaving n) {a b : ℕ} (ha : a ≤ n) (hb : b ≤ n) :
    (T a).Equivalent (T b) := by
  have hfirst : ∀ i ≤ n, (T 0).Equivalent (T i) := by
    intro i hi
    induction i with
    | zero => exact .refl _
    | succ i ih =>
      have hi' : i < n := by omega
      exact (ih hi'.le).trans ((h.chosen i hi').equivalent (h.canonical hi'.le))
  exact (hfirst a ha).symm.trans (hfirst b hb)

/-- Every step is degenerate. -/
theorem rhs_leaving_eq_zero (h : Cycle T entering leaving n) {i : ℕ} (hi : i < n) :
    (T i).rhs (leaving i) = 0 := by
  by_contra hne
  -- The objective value never becomes smaller, and in the end it is what it was.
  have hends : (T n).rhs 0 = (T 0).rhs 0 :=
    (h.canonical le_rfl).rhs_eq_of_basicColumn_eq (h.canonical (Nat.zero_le n))
      (h.equivalent le_rfl (Nat.zero_le n)) h.basicColumn_eq 0
  have hgrow : ∀ k l, k ≤ l → l ≤ n → (T k).rhs 0 ≤ (T l).rhs 0 := by
    intro k l hkl
    induction l, hkl using Nat.le_induction with
    | base => exact fun _ => le_rfl
    | succ l _ ih =>
      intro hl
      have hl' : l < n := by omega
      exact (ih hl'.le).trans ((h.chosen l hl').rhs_zero_le (h.canonical hl'.le))
  have hbefore := hgrow 0 i (Nat.zero_le i) hi.le
  have hstep := (h.chosen i hi).rhs_zero_lt (h.canonical hi.le) hne
  have hafter := hgrow (i + 1) n (by omega) le_rfl
  linarith

/-- All tableaux have the same basic point. -/
theorem basicPoint_eq (h : Cycle T entering leaving n) {a b : ℕ} (ha : a ≤ n) (hb : b ≤ n) :
    (T a).basicPoint = (T b).basicPoint := by
  have hfirst : ∀ i ≤ n, (T i).basicPoint = (T 0).basicPoint := by
    intro i hi
    induction i with
    | zero => rfl
    | succ i ih =>
      have hi' : i < n := by omega
      have hzero := h.rhs_leaving_eq_zero hi'
      exact ((h.chosen i hi').basicPoint_eq (h.canonical hi'.le) hzero).trans (ih hi'.le)
  exact (hfirst a ha).trans (hfirst b hb).symm

/-- A column that becomes basic has entered. -/
theorem basic_of_ne_entering (h : Cycle T entering leaving n) {i j : ℕ} (hi : i < n)
    (hne : entering i ≠ j) (hbasic : ∃ r, (T (i + 1)).basicColumn r = some j) :
    ∃ r, (T i).basicColumn r = some j := by
  obtain ⟨r, hr⟩ := hbasic
  have hT := h.canonical hi.le
  by_cases hrow : r = leaving i
  · rw [hrow, (h.chosen i hi).basicColumn_row hT] at hr
    exact absurd (Option.some.inj hr) hne
  · rw [(h.chosen i hi).basicColumn_of_ne hT hrow] at hr
    exact ⟨r, hr⟩

/-- A column that never enters is basic throughout when it is basic somewhere. -/
theorem basic_of_forall_ne_entering (h : Cycle T entering leaving n) {j : ℕ}
    (hnever : ∀ i < n, entering i ≠ j) {a b : ℕ} (ha : a ≤ n) (hb : b ≤ n)
    (hbasic : ∃ r, (T b).basicColumn r = some j) : ∃ r, (T a).basicColumn r = some j := by
  by_contra hnot
  have hlost : ¬∃ r, (T b).basicColumn r = some j := by
    refine of_cyclic (P := fun i => ¬∃ r, (T i).basicColumn r = some j) ?_ ?_ ha hb hnot
    · intro i hi hout hin
      exact hout (h.basic_of_ne_entering hi (hnever i hi) hin)
    · rintro hout ⟨r, hr⟩
      exact hout ⟨r, (h.basicColumn_eq r).trans hr⟩
  exact hlost hbasic

/-- A column that enters leaves at some step. -/
theorem exists_leaving (h : Cycle T entering leaving n) {a : ℕ} (ha : a < n) :
    ∃ b < n, (T b).basicColumn (leaving b) = some (entering a) := by
  by_contra hnone
  have hcost := ((h.chosen a ha).column_spec (h.canonical ha.le)).2.1.ne
  have hout : ∀ r, (T a).basicColumn r ≠ some (entering a) :=
    basicColumn_ne_of_entry_zero_ne (h.canonical ha.le).tolerance_eq hcost
  have hin : ∃ r, (T (a + 1)).basicColumn r = some (entering a) :=
    ⟨leaving a, (h.chosen a ha).basicColumn_row (h.canonical ha.le)⟩
  -- If it never left it would still be basic when the cycle comes back to step `a`.
  have hstay : ∃ r, (T a).basicColumn r = some (entering a) := by
    refine of_cyclic (P := fun i => ∃ r, (T i).basicColumn r = some (entering a)) ?_ ?_
      (show a + 1 ≤ n by omega) ha.le hin
    · rintro i hi ⟨r, hr⟩
      have hrow : r ≠ leaving i := by
        rintro rfl
        exact hnone ⟨i, hi, hr⟩
      exact ⟨r, ((h.chosen i hi).basicColumn_of_ne (h.canonical hi.le) hrow).trans hr⟩
    · rintro ⟨r, hr⟩
      exact ⟨r, (h.basicColumn_eq r).symm.trans hr⟩
  obtain ⟨r, hr⟩ := hstay
  exact hout r hr

/-- The last of the columns that enter. -/
theorem exists_last_entering (h : Cycle T entering leaving n) :
    ∃ a < n, ∀ i < n, entering i ≤ entering a := by
  obtain ⟨a, ha, hmax⟩ := Finset.exists_max_image (Finset.range n) entering
    ⟨0, Finset.mem_range.2 h.pos⟩
  exact ⟨a, Finset.mem_range.1 ha, fun i hi => hmax i (Finset.mem_range.2 hi)⟩

/-- A column with a cost at step `a` that shrinks along the ray at step `b` does not come before the
one that leaves there: its row is tied with that of the leaving column. -/
theorem le_of_shrinks (h : Cycle T entering leaving n) {a b i j q : ℕ} (ha : a < n) (hb : b < n)
    (hleaves : (T b).basicColumn (leaving b) = some q) (hi : (T b).basicColumn i = some j)
    (hcost : (T a).entry 0 j ≠ 0) (hshrinks : 0 < (T b).entry i (entering b)) : q ≤ j := by
  have htolA := (h.canonical ha.le).tolerance_eq
  have htolB := (h.canonical hb.le).tolerance_eq
  -- The column is not basic at `a`, and the basic point is the same at `b`.
  have hvalue : (T b).rhs i = 0 :=
    calc (T b).rhs i = (T b).basicPoint j := (basicPoint_of_basicColumn hi).symm
      _ = (T a).basicPoint j := by rw [h.basicPoint_eq hb.le ha.le]
      _ = 0 := basicPoint_of_forall_ne (basicColumn_ne_of_entry_zero_ne htolA hcost)
  have htie : (T b).rhs i / (T b).entry i (entering b) ≤
      (T b).rhs (leaving b) / (T b).entry (leaving b) (entering b) := by
    rw [hvalue, h.rhs_leaving_eq_zero hb, zero_div, zero_div]
  have hrow := mem_constraintRows_of_basicColumn (tolerance_lt_half htolB) hi
  have hpositive : (T b).tolerance < (T b).entry i (entering b) := by
    rw [htolB]
    exact hshrinks
  obtain ⟨k, hk, hkq⟩ := le_basicColumn_of_leavingRow_bland htolB.ge (h.chosen b hb).leaving hrow
    hpositive htie hi
  rw [hleaves] at hkq
  have hqk := Option.some.inj hkq
  omega

/-- No term of the objective row at step `a` along the ray at step `b` is negative. -/
theorem term_nonneg (h : Cycle T entering leaving n) {a b : ℕ} (ha : a < n) (hb : b < n)
    (hlast : ∀ i < n, entering i ≤ entering a)
    (hleaves : (T b).basicColumn (leaving b) = some (entering a)) (j : ℕ) :
    0 ≤ (T a).entry 0 j * (T b).ray (entering b) j := by
  have hA := h.canonical ha.le
  have hB := h.canonical hb.le
  obtain ⟨-, hcosta, -⟩ := (h.chosen a ha).column_spec hA
  obtain ⟨-, hcostb, -⟩ := (h.chosen b hb).column_spec hB
  obtain ⟨hrow, hpos, -⟩ := (h.chosen b hb).row_spec hB
  -- Columns before `q` have no negative cost at step `a`.
  have hfirst : ∀ c < entering a, 0 ≤ (T a).entry 0 c := by
    intro c hc
    have hle := le_of_enteringColumn_bland hA.tolerance_eq.ge (h.chosen a ha).entering c hc
    rwa [hA.tolerance_eq, neg_zero] at hle
  have hbefore : entering b < entering a := by
    apply lt_of_le_of_ne (hlast b hb)
    intro heq
    rw [← heq] at hleaves
    exact basicColumn_ne_of_entry_zero_ne hB.tolerance_eq hcostb.ne _ hleaves
  by_cases hbasic : ∃ i, (T b).basicColumn i = some j
  · obtain ⟨i, hi⟩ := hbasic
    have hjs : j ≠ entering b := by
      rintro rfl
      exact basicColumn_ne_of_entry_zero_ne hB.tolerance_eq hcostb.ne i hi
    have hray : (T b).ray (entering b) j = -(T b).entry i (entering b) := by
      unfold ray
      rw [if_neg hjs, add_zero, spread_of_basicColumn _ hi]
    rw [hray]
    rcases lt_trichotomy j (entering a) with hlt | heq | hgt
    · rcases le_or_gt ((T b).entry i (entering b)) 0 with hgrows | hshrinks
      · exact mul_nonneg (hfirst j hlt) (neg_nonneg.2 hgrows)
      · by_cases hcost : (T a).entry 0 j = 0
        · rw [hcost, zero_mul]
        · have hle := h.le_of_shrinks ha hb hleaves hi hcost hshrinks
          omega
    · -- The column is `q`, basic in the row that leaves.
      have hij : i = leaving b := by
        rw [heq] at hi
        exact row_eq_of_basicColumn (tolerance_lt_half hB.tolerance_eq) hi hleaves
      rw [heq, hij]
      exact (mul_pos_of_neg_of_neg hcosta (neg_neg_of_pos hpos)).le
    · -- The column never enters, so it is basic at step `a` too.
      have hnever : ∀ k < n, entering k ≠ j := by
        intro k hk heq
        have hle := hlast k hk
        omega
      obtain ⟨r, hr⟩ := h.basic_of_forall_ne_entering hnever ha.le hb.le ⟨i, hi⟩
      rw [entry_zero_eq_zero_of_basicColumn hA.tolerance_eq hr, zero_mul]
  · have hspread : (T b).spread (fun k => -(T b).entry k (entering b)) j = 0 :=
      spread_of_forall_ne _ fun i hi => hbasic ⟨i, hi⟩
    unfold ray
    rw [hspread, zero_add]
    split
    · rename_i hj
      rw [mul_one, hj]
      exact hfirst _ hbefore
    · rw [mul_zero]

/-- There is no cycle. -/
theorem not_cycle : ¬Cycle T entering leaving n := by
  intro h
  obtain ⟨a, ha, hlast⟩ := h.exists_last_entering
  obtain ⟨b, hb, hleaves⟩ := h.exists_leaving ha
  have hB := h.canonical hb.le
  obtain ⟨hcolumn, hcost, -⟩ := (h.chosen b hb).column_spec hB
  -- The ray changes the objective at step `a` as it does at step `b`.
  have hdirection : ∀ i ≠ 0, (T b).rowValue i ((T b).ray (entering b)) = 0 :=
    fun i hi => hB.rowValue_ray_eq_zero hcolumn hi
  have hnonneg : 0 ≤ (T a).rowValue 0 ((T b).ray (entering b)) :=
    Finset.sum_nonneg fun j _ => h.term_nonneg ha hb hlast hleaves j
  have hnegative : (T a).rowValue 0 ((T b).ray (entering b)) < 0 :=
    calc (T a).rowValue 0 ((T b).ray (entering b))
        = (T b).rowValue 0 ((T b).ray (entering b)) :=
          (h.equivalent hb.le ha.le).rowValue_zero_eq hdirection
      _ = (T b).entry 0 (entering b) := rowValue_zero_ray hB.tolerance_eq hcolumn
      _ < 0 := hcost
  exact absurd hnegative (not_lt.2 hnonneg)

end Cycle

/-! ## Paths of steps -/

/-- A step of Bland's rule. -/
def BlandStep (T U : Tableau ℚ) : Prop :=
  ∃ column row, Chosen .bland T column row U

/-- A path of steps as a sequence of tableaux, with the columns and rows chosen. -/
theorem exists_seq_of_transGen (h : Relation.TransGen BlandStep T U) :
    ∃ (n : ℕ) (S : ℕ → Tableau ℚ) (entering leaving : ℕ → ℕ), 0 < n ∧ S 0 = T ∧ S n = U ∧
      ∀ i < n, Chosen .bland (S i) (entering i) (leaving i) (S (i + 1)) := by
  induction h with
  | @single V hstep =>
    obtain ⟨column, row, hchosen⟩ := hstep
    refine ⟨1, fun i => if i = 0 then T else V, fun _ => column, fun _ => row, one_pos, rfl, rfl,
      fun i hi => ?_⟩
    have hi0 : i = 0 := by omega
    rw [hi0]
    exact hchosen
  | @tail V W _ hstep ih =>
    obtain ⟨column, row, hchosen⟩ := hstep
    obtain ⟨n, S, entering, leaving, hn, hfirst, hend, hsteps⟩ := ih
    -- The sequences go on with one more step.
    refine ⟨n + 1, fun i => if i ≤ n then S i else W, fun i => if i < n then entering i else column,
      fun i => if i < n then leaving i else row, by omega, ?_, ?_, fun i hi => ?_⟩
    · show (if 0 ≤ n then S 0 else W) = T
      rw [if_pos (Nat.zero_le n), hfirst]
    · show (if n + 1 ≤ n then S (n + 1) else W) = W
      rw [if_neg (show ¬n + 1 ≤ n by omega)]
    · dsimp only
      rcases Nat.lt_succ_iff_lt_or_eq.1 hi with hlt | heq
      · rw [if_pos hlt.le, if_pos hlt, if_pos hlt, if_pos (show i + 1 ≤ n by omega)]
        exact hsteps i hlt
      · rw [heq, if_pos le_rfl, if_neg (lt_irrefl n), if_neg (lt_irrefl n),
          if_neg (show ¬n + 1 ≤ n by omega), hend]
        exact hchosen

/-- Bland's theorem: steps of Bland's rule from a canonical tableau change the basic columns. -/
theorem exists_basicColumn_ne (hT : T.Canonical) (h : Relation.TransGen BlandStep T U) :
    ∃ r, U.basicColumn r ≠ T.basicColumn r := by
  by_contra hnone
  obtain ⟨n, S, entering, leaving, hn, hfirst, hend, hsteps⟩ := exists_seq_of_transGen h
  -- A path with the same basic columns at both ends is a cycle.
  have hcycle : Cycle S entering leaving n := by
    refine ⟨hn, by rw [hfirst]; exact hT, hsteps, fun r => ?_⟩
    by_contra hne
    rw [hfirst, hend] at hne
    exact hnone ⟨r, hne⟩
  exact Cycle.not_cycle hcycle

/-- Steps keep the model whose variables are the columns, and keep a tableau canonical. -/
theorem model_eq_and_canonical_of_transGen (hT : T.Canonical)
    (h : Relation.TransGen BlandStep T U) : U.model = T.model ∧ U.Canonical := by
  induction h with
  | single hstep =>
    obtain ⟨column, row, hchosen⟩ := hstep
    exact ⟨(hchosen.pivotOf hT).model, hchosen.canonical hT⟩
  | tail _ hstep ih =>
    obtain ⟨column, row, hchosen⟩ := hstep
    obtain ⟨hmodel, hV⟩ := ih
    exact ⟨((hchosen.pivotOf hV).model).trans hmodel, hchosen.canonical hV⟩

/-- Steps of Bland's rule from a canonical tableau never lead to the same matrix. -/
theorem rows_ne_of_transGen (hT : T.Canonical) (h : Relation.TransGen BlandStep T U) :
    U.matrix.rows ≠ T.matrix.rows := by
  intro hrows
  obtain ⟨hmodel, hU⟩ := model_eq_and_canonical_of_transGen hT h
  have heq : U = T :=
    Tableau.eq_of_rows_eq hmodel (hU.tolerance_eq.trans hT.tolerance_eq.symm) hrows
  obtain ⟨r, hr⟩ := exists_basicColumn_ne hT h
  rw [heq] at hr
  exact hr rfl

end LinProg.Phase
