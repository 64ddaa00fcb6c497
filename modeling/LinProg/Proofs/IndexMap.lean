import LinProg.Expression.Indexed
import LinProg.Proofs.ModelStore
import LinProg.Proofs.Satisfaction

/-!
# The index map in step with the terms

An expression keeps its terms twice: in a list, and by index in a hash map of their places. Single
coefficients are looked up through the map, and the rows of a tableau are written from the list. The
two agree on every expression that the operations make (`Recipe.indexed_in_step`).

What carries this is a simulation. An indexed expression `Tracks` one without a map when it has the
same terms and its map finds each index where a search of the terms finds it first. Every operation
keeps to this (`Tracks.push`, `Tracks.accumulate`, `Tracks.scale`), and none meets a place beyond
the terms. The rest is about expressions without a map: their indices are apart, and their variables
are the first ones of each index among those that were added (`Recipe.vars_expression`). -/

namespace LinProg

/-! ## The first variables of their indices -/

/-- The first variable of each index, in the order in which they come. -/
def firsts (vs : List Variable) : List Variable :=
  vs.eraseDupsBy fun v w => v.index == w.index

/-- The indices after enrolling a variable. -/
theorem mem_indices_enroll_iff (vs : List Variable) (w : Variable) (i : ℕ) :
    i ∈ (enroll vs w).map (·.index) ↔ i ∈ vs.map (·.index) ∨ i = w.index := by
  unfold enroll
  split
  · rename_i hmem
    refine ⟨Or.inl, fun h => h.elim id fun hi => ?_⟩
    rw [hi]
    exact hmem
  · rw [List.map_append, List.mem_append, List.map_singleton, List.mem_singleton]

/-- The indices after enrolling one variable after the other. -/
theorem mem_indices_foldl_enroll_iff (vs ws : List Variable) (i : ℕ) :
    i ∈ (ws.foldl enroll vs).map (·.index) ↔
      i ∈ vs.map (·.index) ∨ i ∈ ws.map (·.index) := by
  induction ws generalizing vs with
  | nil => simp
  | cons w ws ih =>
    rw [List.foldl_cons, ih, mem_indices_enroll_iff, List.map_cons, List.mem_cons, or_assoc]

/-- Variables that follow others may be enrolled among themselves first. -/
theorem foldl_enroll_foldl_enroll (vs ws : List Variable) :
    (ws.foldl enroll []).foldl enroll vs = ws.foldl enroll vs := by
  -- From the last variable on, which either is dropped on both sides or comes last on both.
  induction ws using List.reverseRecOn with
  | nil => rfl
  | append_singleton ws w ih =>
    rw [List.foldl_append, List.foldl_append, List.foldl_cons, List.foldl_nil, List.foldl_cons,
      List.foldl_nil]
    by_cases h : w.index ∈ (ws.foldl enroll []).map (·.index)
    · have htaken : w.index ∈ (ws.foldl enroll vs).map (·.index) := by
        rw [← ih, mem_indices_foldl_enroll_iff]
        exact Or.inr h
      rw [enroll, if_pos h, ih, enroll, if_pos htaken]
    · rw [enroll, if_neg h, List.foldl_append, ih]
      rfl

/-- Enrolling variables after others adds the first ones of the indices that are not taken. -/
theorem foldl_enroll_eq_append (vs ws : List Variable) :
    ws.foldl enroll vs = vs ++ firsts (ws.filter fun w => w.index ∉ vs.map (·.index)) := by
  induction ws generalizing vs with
  | nil => simp [firsts]
  | cons w ws ih =>
    rw [List.foldl_cons, ih]
    by_cases h : w.index ∈ vs.map (·.index)
    · rw [enroll, if_pos h, List.filter_cons_of_neg (by simpa using h)]
    · -- From here on the index of `w` is taken as well.
      have hfilter : ∀ u : Variable,
          decide (u.index ∉ (vs ++ [w]).map (·.index)) =
            (decide ((u.index == w.index) = false) && decide (u.index ∉ vs.map (·.index))) := by
        intro u
        have hiff := List.mem_append (a := u.index) (s := vs.map (·.index)) (t := [w.index])
        grind
      rw [enroll, if_neg h, List.filter_cons_of_pos (by simpa using h), firsts, firsts,
        List.eraseDupsBy_cons, List.filter_filter, List.append_assoc, List.singleton_append]
      simp only [hfilter]

/-- Enrolling variables one after the other keeps the first ones of their indices. -/
theorem foldl_enroll_nil (ws : List Variable) : ws.foldl enroll [] = firsts ws := by
  rw [foldl_enroll_eq_append]
  simp

variable {α : Type}

/-! ## Places and coefficients in the terms -/

namespace Expression

/-- The place of an index is a matter of the variables. -/
theorem position?_eq_findIdx?_vars (e : Expression α) (i : ℕ) :
    e.position? i = e.vars.findIdx? (·.index == i) := by
  rw [vars, List.findIdx?_map]
  rfl

/-- When no index comes twice, the place of an index is where it stands. -/
theorem Distinct.position?_eq_some_iff {e : Expression α} (h : e.Distinct) (i k : ℕ) :
    e.position? i = some k ↔ ∃ t, e.terms[k]? = some t ∧ t.var.index = i := by
  rw [position?, List.findIdx?_eq_some_iff_getElem]
  constructor
  · rintro ⟨hk, hindex, -⟩
    exact ⟨e.terms[k], List.getElem?_eq_getElem hk, by simpa using hindex⟩
  · rintro ⟨t, ht, hindex⟩
    obtain ⟨hk, rfl⟩ := List.getElem?_eq_some_iff.1 ht
    refine ⟨hk, by simpa using hindex, fun j hj hearlier => ?_⟩
    -- An earlier term with the index would be a second one.
    have hsame : e.terms[j].var.index = e.terms[k].var.index := by
      rw [hindex]
      simpa using hearlier
    have hjk := (List.pairwise_iff_getElem.1 h) j k (by simp [vars]; omega)
      (by simpa [vars] using hk) hj
    simp [vars, hsame] at hjk

variable [Scalar α]

/-- The coefficient of a variable is that of the first term with its index. -/
theorem coefficient_eq_find? (e : Expression α) (v : Variable) :
    e.coefficient v =
      ((e.terms.find? (·.var.index == v.index)).map (·.coefficient)).getD 0 := by
  rw [List.find?_eq_bind_findIdx?_getElem?]
  rfl

/-- When no index comes twice, the coefficient in the vector is the one that is looked up. -/
theorem Distinct.coefficientAt_eq {e : Expression α} (h : e.Distinct) (v : Variable) :
    e.coefficientAt v.index = e.coefficient v := by
  -- The last term of an index is the first one, since no other follows.
  have hlast : ∀ (terms : List (Term α)) (a : α), ((terms.map (·.var)).map (·.index)).Nodup →
      terms.foldl (fun a t => if t.var.index = v.index then t.coefficient else a) a =
        ((terms.find? (·.var.index == v.index)).map (·.coefficient)).getD a := by
    intro terms
    induction terms with
    | nil => intro a _; rfl
    | cons t terms ih =>
      intro a hnodup
      rw [List.map_cons, List.map_cons, List.nodup_cons] at hnodup
      obtain ⟨hnew, hrest⟩ := hnodup
      rw [List.foldl_cons, ih _ hrest]
      by_cases ht : t.var.index = v.index
      · have hnone : terms.find? (·.var.index == v.index) = none := by
          rw [List.find?_eq_none]
          intro s hs hindex
          refine hnew (List.mem_map.2 ⟨s.var, List.mem_map_of_mem hs, ?_⟩)
          rw [ht]
          simpa using hindex
        rw [if_pos ht, hnone, List.find?_cons_of_pos (by simpa using ht)]
        rfl
      · rw [if_neg ht, List.find?_cons_of_neg (by simpa using ht)]
  rw [coefficient_eq_find?]
  exact hlast e.terms 0 h

/-- Adding terms keeps the constant. -/
theorem constant_foldl_push (e : Expression α) (factor : α) (terms : List (Term α)) :
    (terms.foldl (fun sum t => sum.push (factor * t.coefficient) t.var) e).constant =
      e.constant := by
  induction terms generalizing e with
  | nil => rfl
  | cons t terms ih => rw [List.foldl_cons, ih, constant_push]

end Expression

/-! ## One operation on an expression with a map -/

namespace IndexedExpression

/-- The indexed expression has the terms and the constant of the other, and its map has each index
where the terms have it first. -/
structure Tracks (a : IndexedExpression α) (e : Expression α) : Prop where
  /-- Without the map the two are the same. -/
  toExpression_eq : a.toExpression = e
  /-- The map finds what a search of the terms finds. -/
  positions_eq : ∀ i : ℕ, a.positions[i]? = e.position? i

/-- A number has no terms and an empty map. -/
theorem tracks_ofScalar (k : α) : (ofScalar k).Tracks (.ofScalar k) :=
  ⟨rfl, fun _ => Std.HashMap.getElem?_empty⟩

variable [Scalar α] {a b : IndexedExpression α} {e f : Expression α}

/-- A lookup through the map is a search of the terms. -/
theorem Tracks.coefficient_eq (h : a.Tracks e) (v : Variable) :
    a.coefficient v = .ok (e.coefficient v) := by
  obtain ⟨rfl, hpositions⟩ := h
  unfold coefficient Expression.coefficient
  rw [hpositions]
  cases hk : a.toExpression.position? v.index with
  | none => rfl
  | some k =>
    obtain ⟨hlt, -, -⟩ := List.findIdx?_eq_some_iff_getElem.1 hk
    have ht : a.terms[k]? = some a.terms[k] := List.getElem?_eq_getElem hlt
    simp [toExpression, ht]

/-- A further term keeps the map in step: it is merged at a place that exists, or its index is new
to the map as it is to the terms. -/
theorem Tracks.push (h : a.Tracks e) (c : α) (v : Variable) :
    ∃ b, a.push c v = .ok b ∧ b.Tracks (e.push c v) := by
  obtain ⟨rfl, hpositions⟩ := h
  unfold IndexedExpression.push
  rw [hpositions]
  cases hk : a.toExpression.position? v.index with
  | some k =>
    obtain ⟨hlt, hfound, -⟩ := List.findIdx?_eq_some_iff_getElem.1 hk
    refine ⟨_, if_pos hlt, by simp only [Expression.push, hk]; rfl, fun i => ?_⟩
    -- The index of the variable is among the others, so the variables stay.
    have hvars : (a.toExpression.push c v).vars = a.toExpression.vars := by
      have hmem : v.index ∈ a.toExpression.vars.map (·.index) :=
        List.mem_map.2 ⟨_, List.mem_map_of_mem (List.getElem_mem hlt), by simpa using hfound⟩
      rw [Expression.vars_push, enroll, if_pos hmem]
    rw [Expression.position?_eq_findIdx?_vars, hvars, ← Expression.position?_eq_findIdx?_vars]
    exact hpositions i
  | none =>
    refine ⟨_, rfl, by simp only [Expression.push, hk]; rfl, fun i => ?_⟩
    have hterms : (a.toExpression.push c v).terms = a.terms ++ [⟨c, v⟩] := by
      simp only [Expression.push, hk]
      rfl
    rw [Expression.position?, hterms, List.findIdx?_append, Std.HashMap.getElem?_insert, hpositions]
    by_cases hi : v.index = i
    · subst hi
      have hnone : a.terms.findIdx? (·.var.index == v.index) = none := hk
      simp [hnone]
    · simp [hi, Expression.position?, toExpression]

/-- One term after the other keeps the map in step. -/
theorem Tracks.pushAll (h : a.Tracks e) (factor : α) (terms : List (Term α)) :
    ∃ b, a.pushAll factor terms = .ok b ∧
      b.Tracks (terms.foldl (fun sum t => sum.push (factor * t.coefficient) t.var) e) := by
  induction terms generalizing a e with
  | nil => exact ⟨a, rfl, h⟩
  | cons t terms ih =>
    obtain ⟨b, hb, hstep⟩ := h.push (factor * t.coefficient) t.var
    obtain ⟨d, hd, hrun⟩ := ih hstep
    refine ⟨d, ?_, hrun⟩
    rw [IndexedExpression.pushAll, List.foldlM_cons, hb]
    exact hd

/-- A multiple that is added keeps the map in step. -/
theorem Tracks.accumulate (ha : a.Tracks e) (hb : b.Tracks f) (factor : α) :
    ∃ d, a.accumulate b factor = .ok d ∧ d.Tracks (e.accumulate f factor) := by
  obtain ⟨rfl, hpositions⟩ := hb
  obtain ⟨sum, hsum, hsame, hplaces⟩ := ha.pushAll factor b.terms
  refine ⟨{ sum with constant := sum.constant + factor * b.constant }, ?_, ?_, hplaces⟩
  · rw [IndexedExpression.accumulate, hsum]
    rfl
  · have hterms : sum.terms = _ := congrArg Expression.terms hsame
    have hconstant : sum.constant = e.constant :=
      (congrArg Expression.constant hsame).trans (e.constant_foldl_push factor b.terms)
    simp only [toExpression, Expression.accumulate, hterms, hconstant]

/-- A multiple has the places of the expression. -/
theorem Tracks.scale (h : a.Tracks e) (factor : α) : (a.scale factor).Tracks (e.scale factor) := by
  obtain ⟨rfl, hpositions⟩ := h
  refine ⟨rfl, fun i => ?_⟩
  rw [Expression.position?_eq_findIdx?_vars, Expression.vars_scale,
    ← Expression.position?_eq_findIdx?_vars]
  exact hpositions i

/-- An expression without its constant has the places from before. -/
theorem Tracks.takeConstant (h : a.Tracks e) : a.takeConstant.2.Tracks e.dropConstant := by
  obtain ⟨rfl, hpositions⟩ := h
  exact ⟨rfl, hpositions⟩

end IndexedExpression

/-! ## Recipes -/

namespace Recipe

variable [Scalar α]

/-- A recipe can be followed with an index map, and comes to the same expression as without. -/
theorem exists_tracks (r : Recipe α) : ∃ a, r.indexed = .ok a ∧ a.Tracks r.expression := by
  induction r with
  | empty => exact ⟨_, rfl, IndexedExpression.tracks_ofScalar 0⟩
  | ofScalar k => exact ⟨_, rfl, IndexedExpression.tracks_ofScalar k⟩
  | term c v => exact (IndexedExpression.tracks_ofScalar 0).push c v
  | ofVariable v => exact (IndexedExpression.tracks_ofScalar 0).push 1 v
  | add a b iha ihb =>
    obtain ⟨x, hx, htrackx⟩ := iha
    obtain ⟨y, hy, htracky⟩ := ihb
    rw [indexed, hx, hy]
    exact htrackx.accumulate htracky 1
  | subtract a b iha ihb =>
    obtain ⟨x, hx, htrackx⟩ := iha
    obtain ⟨y, hy, htracky⟩ := ihb
    rw [indexed, hx, hy]
    exact htrackx.accumulate htracky (-1)
  | scale a factor ih =>
    obtain ⟨x, hx, htrack⟩ := ih
    rw [indexed, hx]
    exact ⟨_, rfl, htrack.scale factor⟩
  | negate a ih =>
    obtain ⟨x, hx, htrack⟩ := ih
    rw [indexed, hx]
    exact ⟨_, rfl, htrack.scale (-1)⟩
  | push a c v ih =>
    obtain ⟨x, hx, htrack⟩ := ih
    rw [indexed, hx]
    exact htrack.push c v
  | takeConstant a ih =>
    obtain ⟨x, hx, htrack⟩ := ih
    rw [indexed, hx]
    exact ⟨_, rfl, htrack.takeConstant⟩

/-- The variables of an expression are the first ones of their indices among the variables that were
added. -/
theorem vars_expression (r : Recipe α) : r.expression.vars = firsts r.additions := by
  rw [← foldl_enroll_nil]
  -- An expression that is added brings its variables in the order in which they came to it.
  have hsum : ∀ {a b : Recipe α} (factor : α),
      a.expression.vars = a.additions.foldl enroll [] →
      b.expression.vars = b.additions.foldl enroll [] →
      (a.expression.accumulate b.expression factor).vars =
        (a.additions ++ b.additions).foldl enroll [] := by
    intro a b factor iha ihb
    rw [Expression.vars_accumulate, iha, ihb, foldl_enroll_foldl_enroll, List.foldl_append]
  induction r with
  | empty => rfl
  | ofScalar k => rfl
  | term c v => rfl
  | ofVariable v => rfl
  | add a b iha ihb => exact hsum 1 iha ihb
  | subtract a b iha ihb => exact hsum (-1) iha ihb
  | scale a factor ih => exact (Expression.vars_scale _ factor).trans ih
  | negate a ih => exact (Expression.vars_scale _ (-1)).trans ih
  | push a c v ih =>
    rw [expression, additions, Expression.vars_push, ih, List.foldl_append]
    rfl
  | takeConstant a ih => exact ih

/-- No index comes twice. -/
theorem distinct_expression (r : Recipe α) : r.expression.Distinct := by
  have hempty : (([] : List Variable).map (·.index)).Nodup := List.nodup_nil
  rw [Expression.Distinct, vars_expression, ← foldl_enroll_nil]
  exact nodup_foldl_enroll hempty _

/-- Every sequence of operations can be carried out with an index map. It gives the terms that it
gives without the map; no index comes twice among them; the map has exactly their indices and sends
each to its place; the variables are the first of their indices, in the order in which they were
added. So a coefficient that is looked up is the entry of the vector of coefficients, whatever its
length, if the variables fit and it can be addressed. -/
theorem indexed_in_step (r : Recipe α) :
    ∃ e, r.indexed = .ok e ∧ e.toExpression = r.expression ∧
      (e.terms.map (·.var.index)).Nodup ∧
      (∀ i k : ℕ, e.positions[i]? = some k ↔ ∃ t, e.terms[k]? = some t ∧ t.var.index = i) ∧
      e.terms.map (·.var) = firsts r.additions ∧
      ∀ length : ℕ, (∀ t ∈ e.terms, t.var.index < length) →
        ∃ dense : List α, dense.length = length ∧
          e.coefficients length =
            (if Expression.maxDenseLength < length then .error (.oversizedVector length)
              else .ok dense) ∧
          ∀ v : Variable, v.index < length →
            ∃ a, e.coefficient v = .ok a ∧ dense[v.index]? = some a := by
  obtain ⟨e, he, htrack⟩ := r.exists_tracks
  have hdistinct := r.distinct_expression
  have hvars := r.vars_expression
  rw [← htrack.toExpression_eq] at hdistinct hvars
  refine ⟨e, he, htrack.toExpression_eq, ?_, fun i k => ?_, hvars, fun length hwithin => ?_⟩
  · rw [Expression.Distinct, Expression.vars, List.map_map] at hdistinct
    exact hdistinct
  · rw [htrack.positions_eq, ← htrack.toExpression_eq]
    exact hdistinct.position?_eq_some_iff i k
  · refine ⟨(List.range length).map e.toExpression.coefficientAt, by simp, ?_, fun v hv => ?_⟩
    · split
      · rename_i hlong
        exact e.toExpression.coefficients_of_oversized hlong
      · rename_i hshort
        exact (Expression.coefficients_eq_ok_iff _ _ _).2 ⟨not_lt.1 hshort, hwithin, rfl⟩
    · refine ⟨_, htrack.coefficient_eq v, ?_⟩
      rw [← htrack.toExpression_eq, ← hdistinct.coefficientAt_eq, List.getElem?_map,
        List.getElem?_range hv]
      rfl

/-- The sum `x1 + 2 x2 - 3 x1 + 4`, whose last `x1` goes by another name. -/
def renamedSum : Recipe ℚ :=
  .add (.subtract (.add (.ofVariable ⟨0, "x1"⟩) (.term 2 ⟨1, "x2"⟩)) (.term 3 ⟨0, "x3"⟩))
    (.ofScalar 4)

/-- The terms of index zero are merged under the first name, and the coefficient that is looked up
under the other name is the first entry of the vector. -/
theorem indexed_in_step_renamed :
    ∃ e, renamedSum.indexed = .ok e ∧ e.terms.map (·.var) = [⟨0, "x1"⟩, ⟨1, "x2"⟩] ∧
      (∀ t ∈ e.terms, t.var.index < 2) ∧ e.coefficients 2 = .ok [-2, 2] ∧
      e.coefficient ⟨0, "x3"⟩ = .ok (-2) := by
  obtain ⟨e, he, hexpression, -, -, hvars, hvectors⟩ := indexed_in_step renamedSum
  have hnames : firsts renamedSum.additions = [⟨0, "x1"⟩, ⟨1, "x2"⟩] := by decide
  rw [hnames] at hvars
  have hwithin : ∀ t ∈ e.terms, t.var.index < 2 := by
    have hall : ∀ v ∈ e.terms.map (·.var), v.index < 2 := by
      rw [hvars]
      decide
    exact fun t ht => hall t.var (List.mem_map_of_mem ht)
  obtain ⟨dense, -, hdense, hentries⟩ := hvectors 2 hwithin
  rw [if_neg (by decide)] at hdense
  have hcomputed : e.coefficients 2 = .ok [-2, 2] := by
    rw [IndexedExpression.coefficients, hexpression]
    decide +kernel
  obtain ⟨a, ha, hentry⟩ := hentries ⟨0, "x3"⟩ (by decide)
  cases hdense.symm.trans hcomputed
  cases hentry
  exact ⟨e, he, hvars, hwithin, hcomputed, ha⟩

end Recipe

end LinProg
