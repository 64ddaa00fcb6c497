import LinProg.Tableau.PivotChoice
import LinProg.Proofs.BasisScan

/-!
# What the pivot rules choose

Over exact numbers the three scans for the least are one fold, which keeps the first of the least
members (`foldl_first_least`). From it follow the guarantees of the two rules. The entering column
improves the objective, and no earlier column has the same reduced cost; under Bland's rule no
earlier column improves at all. The leaving row passes the ratio test, and under Bland's rule its
basic column comes first among the ties. -/

namespace LinProg.Tableau

/-! ## Scans for the least -/

/-- A fold that lets a member take over when its key is less ends with the first of the members with
the least key; it ends with none only when there are no members. -/
theorem foldl_first_least {β κ : Type} [LinearOrder κ] (key : β → κ)
    (step : Option β → β → Option β) (hnone : ∀ x, step none x = some x)
    (hsome : ∀ b x, step (some b) x = if key x < key b then some x else some b) (xs : List β) :
    (xs = [] ∧ xs.foldl step none = none) ∨
      ∃ before b after, xs = before ++ b :: after ∧ xs.foldl step none = some b ∧
        (∀ x ∈ before, key b < key x) ∧ ∀ x ∈ after, key b ≤ key x := by
  induction xs using List.reverseRecOn with
  | nil => exact Or.inl ⟨rfl, rfl⟩
  | append_singleton xs last ih =>
    right
    rw [List.foldl_append, List.foldl_cons, List.foldl_nil]
    rcases ih with ⟨rfl, hfold⟩ | ⟨before, b, after, hsplit, hfold, hbefore, hafter⟩
    · exact ⟨[], last, [], rfl, by rw [hfold, hnone], nofun, nofun⟩
    · rw [hfold, hsome]
      by_cases hlt : key last < key b
      · -- The last member takes over, and all others come before it.
        refine ⟨xs, last, [], rfl, if_pos hlt, fun x hx => ?_, nofun⟩
        rw [hsplit, List.mem_append, List.mem_cons] at hx
        rcases hx with hx | rfl | hx
        · exact lt_trans hlt (hbefore x hx)
        · exact hlt
        · exact lt_of_lt_of_le hlt (hafter x hx)
      · -- The best so far stays, and the last member comes after it.
        refine ⟨before, b, after ++ [last], by simp [hsplit], if_neg hlt, hbefore, fun x hx => ?_⟩
        rcases List.mem_append.1 hx with hx | hx
        · exact hafter x hx
        · rw [List.mem_singleton.1 hx]
          exact not_lt.1 hlt

section Steps

variable {α : Type} [Scalar α]

/-- One step of `firstLeast`. -/
def keepLeast : Option (ℕ × α) → ℕ × α → Option (ℕ × α)
  | some (key, least), candidate =>
    if least ≤ candidate.2 then some (key, least) else some candidate
  | none, candidate => some candidate

/-- One step of `leastNumber`. -/
def keepLeastNumber : Option α → α → Option α
  | some least, x => if x < least then some x else some least
  | none, x => if x ≤ x then some x else none

/-- One step of `firstLowest`. -/
def keepLowest : Option (ℕ × Option ℕ) → ℕ × Option ℕ → Option (ℕ × Option ℕ)
  | some (_, none), (j, some key) => some (j, some key)
  | some (i, some lowest), (j, some key) =>
    if key < lowest then some (j, some key) else some (i, some lowest)
  | some best, (_, none) => some best
  | none, row => some row

/-- The first of the least candidates is found step by step. -/
theorem firstLeast_eq_foldl (candidates : List (ℕ × α)) :
    firstLeast candidates = (candidates.foldl keepLeast none).map (·.1) := by
  unfold firstLeast
  congr 2
  funext best candidate
  cases best with
  | none => rfl
  | some best => rfl

/-- The least number is found step by step. -/
theorem leastNumber_eq_foldl (values : List α) :
    leastNumber values = values.foldl keepLeastNumber none := by
  unfold leastNumber
  congr 1
  funext least? x
  cases least? with
  | none => rfl
  | some least => rfl

omit [Scalar α] in
/-- The row with the least key is found step by step. -/
theorem firstLowest_eq_foldl (rows : List (ℕ × Option ℕ)) :
    firstLowest rows = (rows.foldl keepLowest none).map (·.1) := by
  unfold firstLowest
  congr 2
  funext best row
  obtain ⟨j, key⟩ := row
  cases best with
  | none => cases key <;> rfl
  | some best =>
    obtain ⟨i, lowest⟩ := best
    cases lowest <;> cases key <;> rfl

/-- A fold that keeps the best so far or takes the next member ends with one of the members. -/
theorem mem_of_foldl_eq_some {β : Type} {step : Option β → β → Option β}
    (hstep : ∀ best x, step best x = best ∨ step best x = some x) {xs : List β} {b : β}
    (h : xs.foldl step none = some b) : b ∈ xs := by
  induction xs using List.reverseRecOn generalizing b with
  | nil => exact absurd h nofun
  | append_singleton xs last ih =>
    rw [List.foldl_append, List.foldl_cons, List.foldl_nil] at h
    rcases hstep (xs.foldl step none) last with hkeep | htake
    · rw [hkeep] at h
      exact List.mem_append_left _ (ih h)
    · rw [htake] at h
      exact List.mem_append_right _ (by simpa using h.symm)

/-- The key that is found is that of a candidate. -/
theorem exists_mem_of_firstLeast {candidates : List (ℕ × α)} {key : ℕ}
    (h : firstLeast candidates = some key) : ∃ p ∈ candidates, p.1 = key := by
  rw [firstLeast_eq_foldl] at h
  obtain ⟨p, hp, hkey⟩ := Option.map_eq_some_iff.1 h
  refine ⟨p, mem_of_foldl_eq_some (fun best x => ?_) hp, hkey⟩
  cases best with
  | none => exact Or.inr rfl
  | some best =>
    by_cases hle : best.2 ≤ x.2
    · exact Or.inl (if_pos hle)
    · exact Or.inr (if_neg hle)

omit [Scalar α] in
/-- The row that is found is one of those given. -/
theorem exists_mem_of_firstLowest {rows : List (ℕ × Option ℕ)} {row : ℕ}
    (h : firstLowest rows = some row) : ∃ p ∈ rows, p.1 = row := by
  rw [firstLowest_eq_foldl] at h
  obtain ⟨p, hp, hrow⟩ := Option.map_eq_some_iff.1 h
  refine ⟨p, mem_of_foldl_eq_some (fun best x => ?_) hp, hrow⟩
  unfold keepLowest
  split
  · exact Or.inr rfl
  · split
    · exact Or.inr rfl
    · exact Or.inl rfl
  · exact Or.inl rfl
  · exact Or.inr rfl

/-- The entering column is a column of the tableau. -/
theorem lt_columns_of_enteringColumn {T : Tableau α} {rule : PivotRule} {column : ℕ}
    (h : T.enteringColumn rule = some column) : column < T.columns := by
  -- It comes with an entry of the objective row, of which there are no more than columns.
  have hlt : ∀ p ∈ T.improvingColumns, p.1 < T.columns := by
    intro p hp
    obtain ⟨q, hq, rfl⟩ := List.mem_map.1 (List.mem_of_mem_filter hp)
    have hlength := List.snd_lt_of_mem_zipIdx hq
    unfold reducedCosts at hlength
    rw [List.length_take] at hlength
    exact lt_of_lt_of_le hlength (min_le_left _ _)
  cases rule with
  | dantzig =>
    obtain ⟨p, hp, rfl⟩ := exists_mem_of_firstLeast h
    exact hlt p hp
  | bland =>
    obtain ⟨p, hp, rfl⟩ := Option.map_eq_some_iff.1 h
    exact hlt p (List.mem_of_head? hp)

/-- The leaving row is a constraint row. -/
theorem mem_constraintRows_of_leavingRow {T : Tableau α} {rule : PivotRule} {column row : ℕ}
    (h : T.leavingRow column rule = some row) : row ∈ T.constraintRows := by
  have hmem : ∀ p ∈ T.ratios column, p.1 ∈ T.constraintRows := by
    intro p hp
    obtain ⟨i, hi, hsome⟩ := List.mem_filterMap.1 hp
    dsimp only at hsome
    split at hsome
    · cases hsome
      exact hi
    · exact absurd hsome nofun
  cases rule with
  | dantzig =>
    obtain ⟨p, hp, rfl⟩ := exists_mem_of_firstLeast h
    exact hmem p hp
  | bland =>
    unfold leavingRow at h
    dsimp only at h
    split at h
    · exact absurd h nofun
    · obtain ⟨q, hq, rfl⟩ := exists_mem_of_firstLowest h
      obtain ⟨p, hp, rfl⟩ := List.mem_map.1 hq
      exact hmem p (List.mem_of_mem_filter hp)

end Steps

/-- The first of the least candidates is chosen, and there is one unless there are no candidates. -/
theorem firstLeast_spec (candidates : List (ℕ × ℚ)) :
    (candidates = [] ∧ firstLeast candidates = none) ∨
      ∃ before p after, candidates = before ++ p :: after ∧ firstLeast candidates = some p.1 ∧
        (∀ q ∈ before, p.2 < q.2) ∧ ∀ q ∈ after, p.2 ≤ q.2 := by
  have hsome : ∀ b x : ℕ × ℚ,
      keepLeast (some b) x = if x.2 < b.2 then some x else some b := by
    rintro ⟨i, least⟩ ⟨j, x⟩
    by_cases hle : least ≤ x
    · exact (if_pos hle).trans (if_neg (not_lt.2 hle)).symm
    · exact (if_neg hle).trans (if_pos (not_le.1 hle)).symm
  rw [firstLeast_eq_foldl]
  rcases foldl_first_least (fun p : ℕ × ℚ => p.2) keepLeast (fun _ => rfl) hsome candidates with
    ⟨hnil, hfold⟩ | ⟨before, p, after, hsplit, hfold, hbefore, hafter⟩
  · exact Or.inl ⟨hnil, by rw [hfold]; rfl⟩
  · exact Or.inr ⟨before, p, after, hsplit, by rw [hfold]; rfl, hbefore, hafter⟩

/-- The least of some values is found, unless there are none. -/
theorem leastNumber_spec (values : List ℚ) :
    (values = [] ∧ leastNumber values = none) ∨
      ∃ least ∈ values, leastNumber values = some least ∧ ∀ x ∈ values, least ≤ x := by
  have hnone : ∀ x : ℚ, keepLeastNumber none x = some x := fun x => if_pos le_rfl
  have hsome : ∀ b x : ℚ, keepLeastNumber (some b) x = if x < b then some x else some b := by
    intro b x
    by_cases hlt : x < b
    · exact (if_pos hlt).trans (if_pos hlt).symm
    · exact (if_neg hlt).trans (if_neg hlt).symm
  rw [leastNumber_eq_foldl]
  rcases foldl_first_least (fun x : ℚ => x) keepLeastNumber hnone hsome values with
    ⟨hnil, hfold⟩ | ⟨before, least, after, hsplit, hfold, hbefore, hafter⟩
  · exact Or.inl ⟨hnil, hfold⟩
  · refine Or.inr ⟨least, by simp [hsplit], hfold, fun x hx => ?_⟩
    rw [hsplit, List.mem_append, List.mem_cons] at hx
    rcases hx with hx | rfl | hx
    · exact (hbefore x hx).le
    · exact le_rfl
    · exact hafter x hx

/-- A row with the least key is chosen, where no key counts as the greatest; there is one unless
there are no rows. -/
theorem firstLowest_spec (rows : List (ℕ × Option ℕ)) :
    (rows = [] ∧ firstLowest rows = none) ∨
      ∃ row key, (row, key) ∈ rows ∧ firstLowest rows = some row ∧
        ∀ q ∈ rows, ∀ l, q.2 = some l → ∃ k ≤ l, key = some k := by
  -- Without a key a row stands behind all others, as if its key were the top.
  have hsome : ∀ b x : ℕ × Option ℕ, keepLowest (some b) x =
      if (x.2.elim ⊤ fun k => (k : WithTop ℕ)) < b.2.elim ⊤ fun k => (k : WithTop ℕ) then some x
      else some b := by
    rintro ⟨i, lowest⟩ ⟨j, key⟩
    cases lowest <;> cases key <;> simp [keepLowest]
  rw [firstLowest_eq_foldl]
  rcases foldl_first_least (fun q : ℕ × Option ℕ => q.2.elim ⊤ fun k => (k : WithTop ℕ))
      keepLowest (fun _ => rfl) hsome rows with
    ⟨hnil, hfold⟩ | ⟨before, b, after, hsplit, hfold, hbefore, hafter⟩
  · exact Or.inl ⟨hnil, by rw [hfold]; rfl⟩
  · refine Or.inr ⟨b.1, b.2, by simp [hsplit], by rw [hfold]; rfl, fun q hq l hl => ?_⟩
    have hle : (b.2.elim ⊤ fun k => (k : WithTop ℕ)) ≤ q.2.elim ⊤ fun k => (k : WithTop ℕ) := by
      rw [hsplit, List.mem_append, List.mem_cons] at hq
      rcases hq with hq | rfl | hq
      · exact (hbefore q hq).le
      · exact le_rfl
      · exact hafter q hq
    rw [hl] at hle
    cases hb : b.2 with
    | none =>
      rw [hb] at hle
      exact absurd hle (not_le.2 (WithTop.coe_lt_top l))
    | some k =>
      rw [hb] at hle
      exact ⟨k, WithTop.coe_le_coe.1 hle, rfl⟩

variable {T : Tableau ℚ}

/-! ## The entering column -/

/-- The objective entries by column; there are none without an objective row. -/
theorem reducedCosts_eq_map (hheight : 0 < T.matrix.height) :
    T.reducedCosts = (List.range T.columns).map (T.entry 0) := by
  unfold reducedCosts
  have hlen : (T.matrix.row 0).length = T.columns + 1 := T.matrix.length_row_of_lt hheight
  refine List.ext_getElem (by simp [hlen]) fun j hj _ => ?_
  have hj' : j < T.columns := by simpa [hlen] using hj
  rw [List.getElem_take, List.getElem_map, List.getElem_range, entry, DenseMatrix.entry,
    Row.entry_of_lt (by rw [hlen]; omega)]

/-- The improving columns, from the first on, with their reduced costs. -/
theorem improvingColumns_eq (htol : 0 ≤ T.tolerance) :
    T.improvingColumns = ((List.range T.columns).filter fun j =>
      decide (T.entry 0 j < -T.tolerance)).map fun j => (j, T.entry 0 j) := by
  unfold improvingColumns
  rcases Nat.eq_zero_or_pos T.matrix.height with hheight | hheight
  · -- A matrix without rows has no objective row to read.
    have hnil : T.reducedCosts = [] := by
      have hrows : T.matrix.rows = [] := List.eq_nil_of_length_eq_zero hheight
      simp [reducedCosts, DenseMatrix.row, hrows]
    have hfilter : ((List.range T.columns).filter fun j =>
        decide (T.entry 0 j < -T.tolerance)) = [] := by
      refine List.filter_eq_nil_iff.2 fun j _ => ?_
      rw [T.entry_eq_zero_of_height_le (by omega)]
      simpa using htol
    rw [hnil, hfilter]
    rfl
  · have hmap : T.reducedCosts.zipIdx.map Prod.swap =
        (List.range T.columns).map fun j => (j, T.entry 0 j) := by
      rw [reducedCosts_eq_map hheight]
      refine List.ext_getElem (by simp) fun j _ _ => ?_
      simp
    show (T.reducedCosts.zipIdx.map Prod.swap).filter _ = _
    rw [hmap, List.filter_map]
    rfl

/-- Under either rule no column enters exactly when none improves the objective. -/
theorem enteringColumn_eq_none_iff (rule : PivotRule) :
    T.enteringColumn rule = none ↔ T.improvingColumns = [] := by
  cases rule with
  | dantzig =>
    refine ⟨fun h => ?_, fun hnil => by unfold enteringColumn; rw [hnil]; rfl⟩
    rcases firstLeast_spec T.improvingColumns with ⟨hnil, -⟩ | ⟨_, p, _, -, hsome, -, -⟩
    · exact hnil
    · exact absurd (h.symm.trans hsome) nofun
  | bland => exact Option.map_eq_none_iff.trans List.head?_eq_none_iff

/-- When no column enters, none improves the objective, and the tableau is optimal. -/
theorem le_of_enteringColumn_eq_none (htol : 0 ≤ T.tolerance) {rule : PivotRule}
    (h : T.enteringColumn rule = none) : ∀ j < T.columns, -T.tolerance ≤ T.entry 0 j := by
  have hnil := (enteringColumn_eq_none_iff rule).1 h
  rw [improvingColumns_eq htol, List.map_eq_nil_iff, List.filter_eq_nil_iff] at hnil
  intro j hj
  simpa using hnil j (List.mem_range.2 hj)

/-- A tableau is optimal when no column enters. -/
theorem isOptimal_of_enteringColumn_eq_none (htol : 0 ≤ T.tolerance) {rule : PivotRule}
    (h : T.enteringColumn rule = none) : T.isOptimal = true := by
  have hle := le_of_enteringColumn_eq_none htol h
  unfold isOptimal
  rcases Nat.eq_zero_or_pos T.matrix.height with hheight | hheight
  · have hrows : T.matrix.rows = [] := List.eq_nil_of_length_eq_zero hheight
    simp [reducedCosts, DenseMatrix.row, hrows]
  · rw [reducedCosts_eq_map hheight, List.all_map, List.all_eq_true]
    intro j hj
    simpa using hle j (List.mem_range.1 hj)

/-- What both rules make sure of: the entering column improves the objective, and no earlier column
has the same reduced cost. -/
theorem enteringColumn_eq_some (htol : 0 ≤ T.tolerance) {rule : PivotRule} {column : ℕ}
    (h : T.enteringColumn rule = some column) :
    column < T.columns ∧ T.entry 0 column < -T.tolerance ∧
      ∀ j < column, T.entry 0 j ≠ T.entry 0 column := by
  have hsorted : ((List.range T.columns).filter fun j =>
      decide (T.entry 0 j < -T.tolerance)).Pairwise (· < ·) :=
    List.pairwise_lt_range.filter _
  -- The improving columns before the chosen one are those that stand before it in the list.
  have hsplit : ∀ (before after : List (ℕ × ℚ)) (p : ℕ × ℚ),
      T.improvingColumns = before ++ p :: after → p.1 = column →
      (∀ q ∈ before, q.2 ≠ p.2) →
      column < T.columns ∧ T.entry 0 column < -T.tolerance ∧
        ∀ j < column, T.entry 0 j ≠ T.entry 0 column := by
    intro before after p hlist hp hbefore
    rw [improvingColumns_eq htol] at hlist
    obtain ⟨l₁, l₂, hl, rfl, hl₂⟩ := List.map_eq_append_iff.1 hlist
    obtain ⟨c, l₃, rfl, hc, rfl⟩ := List.map_eq_cons_iff.1 hl₂
    have hcc : c = column := by rw [← hp, ← hc]
    subst hcc
    have hmem : c ∈ (List.range T.columns).filter fun j =>
        decide (T.entry 0 j < -T.tolerance) := by rw [hl]; simp
    obtain ⟨hrange, hneg⟩ := List.mem_filter.1 hmem
    refine ⟨List.mem_range.1 hrange, of_decide_eq_true hneg, fun j hj heq => ?_⟩
    have hjmem : j ∈ l₁ ++ c :: l₃ := by
      rw [← hl]
      refine List.mem_filter.2 ⟨List.mem_range.2 ?_, ?_⟩
      · exact lt_trans hj (List.mem_range.1 hrange)
      · simpa [heq] using hneg
    rw [hl] at hsorted
    obtain ⟨-, hright, -⟩ := List.pairwise_append.1 hsorted
    rcases List.mem_append.1 hjmem with hj₁ | hj₂
    · refine hbefore (j, T.entry 0 j) (List.mem_map.2 ⟨j, hj₁, rfl⟩) ?_
      rw [← hc]
      exact heq
    · rcases List.mem_cons.1 hj₂ with rfl | hj₃
      · omega
      · have := (List.pairwise_cons.1 hright).1 j hj₃
        omega
  cases rule with
  | dantzig =>
    rcases firstLeast_spec T.improvingColumns with ⟨-, hnone⟩ | ⟨before, p, after, hlist, hsome,
      hbefore, -⟩
    · exact absurd (h.symm.trans hnone) nofun
    · exact hsplit before after p hlist (Option.some.inj (hsome.symm.trans h))
        fun q hq => (hbefore q hq).ne'
  | bland =>
    obtain ⟨p, hp, hcolumn⟩ := Option.map_eq_some_iff.1 h
    obtain ⟨after, hlist⟩ := List.head?_eq_some_iff.1 hp
    exact hsplit [] after p hlist hcolumn nofun

/-- Under Bland's rule no column before the entering one improves the objective. -/
theorem le_of_enteringColumn_bland (htol : 0 ≤ T.tolerance) {column : ℕ}
    (h : T.enteringColumn .bland = some column) :
    ∀ j < column, -T.tolerance ≤ T.entry 0 j := by
  obtain ⟨hlt, -, -⟩ := enteringColumn_eq_some htol h
  have hfind : (List.range T.columns).find? (fun j => decide (T.entry 0 j < -T.tolerance)) =
      some column := by
    rw [← List.head?_filter]
    have := h
    unfold enteringColumn at this
    rw [improvingColumns_eq htol, List.head?_map, Option.map_map] at this
    simpa [Function.comp_def] using this
  intro j hj
  simpa using (List.find?_range_eq_some.1 hfind).2.2 j hj

/-! ## The leaving row -/

/-- A column is unbounded when no constraint row has an entry above the tolerance in it. -/
theorem isUnbounded_iff (T : Tableau ℚ) (column : ℕ) :
    T.isUnbounded column = true ↔ ∀ i ∈ T.constraintRows, T.entry i column ≤ T.tolerance := by
  unfold isUnbounded
  simp

/-- The candidates of the ratio test. -/
theorem mem_ratios_iff (T : Tableau ℚ) (column : ℕ) (p : ℕ × ℚ) :
    p ∈ T.ratios column ↔ p.1 ∈ T.constraintRows ∧ T.tolerance < T.entry p.1 column ∧
      p.2 = T.rhs p.1 / T.entry p.1 column := by
  obtain ⟨i, q⟩ := p
  unfold ratios
  rw [List.mem_filterMap]
  constructor
  · rintro ⟨row, hrow, h⟩
    dsimp only at h
    split at h
    · cases h
      exact ⟨hrow, by assumption, rfl⟩
    · exact absurd h nofun
  · rintro ⟨hrow, hpos, hq⟩
    have hq : q = T.rhs i / T.entry i column := hq
    rw [hq]
    exact ⟨i, hrow, if_pos hpos⟩

/-- The choice among the ties of Bland's rule, as the rule makes it. -/
theorem leavingRow_bland_spec (htol : 0 ≤ T.tolerance) (column : ℕ) :
    (T.ratios column = [] ∧ T.leavingRow column .bland = none) ∨
      ∃ row least, T.leavingRow column .bland = some row ∧
        (∀ p ∈ T.ratios column, least ≤ p.2) ∧
        (∃ p ∈ T.ratios column, p.1 = row ∧ p.2 ≤ least + T.tolerance) ∧
        ∀ p ∈ T.ratios column, p.2 ≤ least + T.tolerance → ∀ l, T.basicColumn p.1 = some l →
          ∃ k ≤ l, T.basicColumn row = some k := by
  have hkey : ∀ p ∈ T.ratios column, (T.basis[p.1 - 1]?).join = T.basicColumn p.1 :=
    fun p hp => T.getElem?_basis_join ((T.mem_ratios_iff column p).1 hp).1
  unfold leavingRow
  dsimp only
  rcases leastNumber_spec ((T.ratios column).map (·.2)) with ⟨hnil, hnone⟩ | ⟨least, hmem, hsome,
    hleast⟩
  · rw [hnone]
    exact Or.inl ⟨List.map_eq_nil_iff.1 hnil, rfl⟩
  · rw [hsome]
    right
    dsimp only
    obtain ⟨p, hp, hpl⟩ := List.mem_map.1 hmem
    -- The row of the least ratio is one of the ties, so some row is chosen.
    have htie : (p.1, (T.basis[p.1 - 1]?).join) ∈
        ((T.ratios column).filter fun (_, ratio) => decide (ratio ≤ least + T.tolerance)).map
          fun (row, _) => (row, (T.basis[row - 1]?).join) := by
      refine List.mem_map.2 ⟨p, List.mem_filter.2 ⟨hp, ?_⟩, rfl⟩
      simp only [decide_eq_true_eq, hpl]
      exact le_add_of_nonneg_right htol
    rcases firstLowest_spec (((T.ratios column).filter fun (_, ratio) =>
        decide (ratio ≤ least + T.tolerance)).map
          fun (row, _) => (row, (T.basis[row - 1]?).join)) with
      ⟨hnil, -⟩ | ⟨row, key, hrow, hlowest, hkeys⟩
    · rw [hnil] at htie
      exact absurd htie (by simp)
    · obtain ⟨q, hq, hqrow⟩ := List.mem_map.1 hrow
      obtain ⟨hqmem, hqle⟩ := List.mem_filter.1 hq
      cases hqrow
      refine ⟨q.1, least, hlowest, fun r hr => hleast r.2 (List.mem_map.2 ⟨r, hr, rfl⟩),
        ⟨q, hqmem, rfl, by simpa using hqle⟩, fun r hr hrle l hl => ?_⟩
      have := hkeys (r.1, (T.basis[r.1 - 1]?).join)
        (List.mem_map.2 ⟨r, List.mem_filter.2 ⟨hr, by simpa using hrle⟩, rfl⟩) l
        (by rw [hkey r hr]; exact hl)
      rwa [hkey q hqmem] at this

/-- A row leaves when some row has an entry above the tolerance. -/
theorem exists_leavingRow (htol : 0 ≤ T.tolerance) {column : ℕ} (rule : PivotRule)
    (h : T.isUnbounded column = false) : ∃ row, T.leavingRow column rule = some row := by
  -- Without a candidate the column would be unbounded.
  have hne : T.ratios column ≠ [] := by
    intro hnil
    have hall : T.isUnbounded column = true := by
      rw [isUnbounded_iff]
      intro i hi
      by_contra hpos
      have := (T.mem_ratios_iff column (i, T.rhs i / T.entry i column)).2
        ⟨hi, not_le.1 hpos, rfl⟩
      rw [hnil] at this
      exact absurd this (by simp)
    rw [h] at hall
    exact absurd hall nofun
  cases rule with
  | dantzig =>
    rcases firstLeast_spec (T.ratios column) with ⟨hnil, -⟩ | ⟨_, p, _, -, hsome, -, -⟩
    · exact absurd hnil hne
    · exact ⟨p.1, hsome⟩
  | bland =>
    rcases leavingRow_bland_spec htol column with ⟨hnil, -⟩ | ⟨row, _, hsome, -⟩
    · exact absurd hnil hne
    · exact ⟨row, hsome⟩

/-- What both rules make sure of: the leaving row is a constraint row with an entry above the
tolerance, and its ratio is within the tolerance of the least. -/
theorem leavingRow_eq_some (htol : 0 ≤ T.tolerance) {column row : ℕ} {rule : PivotRule}
    (h : T.leavingRow column rule = some row) :
    row ∈ T.constraintRows ∧ T.tolerance < T.entry row column ∧
      ∀ i ∈ T.constraintRows, T.tolerance < T.entry i column →
        T.rhs row / T.entry row column ≤ T.rhs i / T.entry i column + T.tolerance := by
  -- Both rules choose a candidate whose ratio is within the tolerance of every other.
  have hchosen : ∀ p ∈ T.ratios column, p.1 = row →
      (∀ q ∈ T.ratios column, p.2 ≤ q.2 + T.tolerance) →
      row ∈ T.constraintRows ∧ T.tolerance < T.entry row column ∧
        ∀ i ∈ T.constraintRows, T.tolerance < T.entry i column →
          T.rhs row / T.entry row column ≤ T.rhs i / T.entry i column + T.tolerance := by
    rintro p hp rfl hle
    obtain ⟨hrow, hpos, hratio⟩ := (T.mem_ratios_iff column p).1 hp
    refine ⟨hrow, hpos, fun i hi hi' => ?_⟩
    rw [← hratio]
    exact hle (i, T.rhs i / T.entry i column) ((T.mem_ratios_iff column _).2 ⟨hi, hi', rfl⟩)
  cases rule with
  | dantzig =>
    rcases firstLeast_spec (T.ratios column) with ⟨-, hnone⟩ | ⟨before, p, after, hlist, hsome,
      hbefore, hafter⟩
    · exact absurd (h.symm.trans hnone) nofun
    · refine hchosen p (by rw [hlist]; simp) (Option.some.inj (hsome.symm.trans h)) fun q hq => ?_
      rw [hlist, List.mem_append, List.mem_cons] at hq
      have hle : p.2 ≤ q.2 := by
        rcases hq with hq | rfl | hq
        · exact (hbefore q hq).le
        · exact le_rfl
        · exact hafter q hq
      exact le_trans hle (le_add_of_nonneg_right htol)
  | bland =>
    rcases leavingRow_bland_spec htol column with ⟨-, hnone⟩ | ⟨r, least, hsome, hleast,
      ⟨p, hp, hpr, hple⟩, -⟩
    · exact absurd (h.symm.trans hnone) nofun
    · refine hchosen p hp (hpr.trans (Option.some.inj (hsome.symm.trans h))) fun q hq => ?_
      have := hleast q hq
      linarith

/-- Under Bland's rule no row with at most the ratio of the leaving row has an earlier basic
column. -/
theorem le_basicColumn_of_leavingRow_bland (htol : 0 ≤ T.tolerance) {column row i l : ℕ}
    (h : T.leavingRow column .bland = some row) (hi : i ∈ T.constraintRows)
    (hpos : T.tolerance < T.entry i column)
    (hratio : T.rhs i / T.entry i column ≤ T.rhs row / T.entry row column)
    (hl : T.basicColumn i = some l) : ∃ k ≤ l, T.basicColumn row = some k := by
  rcases leavingRow_bland_spec htol column with ⟨-, hnone⟩ | ⟨r, least, hsome, -,
    ⟨p, hp, hpr, hple⟩, hties⟩
  · exact absurd (h.symm.trans hnone) nofun
  · obtain rfl : r = row := Option.some.inj (hsome.symm.trans h)
    subst hpr
    have hp2 := ((T.mem_ratios_iff column p).1 hp).2.2
    refine hties (i, T.rhs i / T.entry i column)
      ((T.mem_ratios_iff column _).2 ⟨hi, hpos, rfl⟩) ?_ l hl
    dsimp only
    linarith

end LinProg.Tableau
