import LinProg.Proofs.Expunge
import LinProg.Proofs.Tolerance

/-!
# The trail of a solve

The events of a solve tell all tableaux that it goes through: those of its phases, and those on the
way from the last one of phase one to the one without artificial columns. The trail has each of them
with the numbers that the solve compares with zero there, as far as these decide the pivots and the
values of the columns that are read after each phase (`trail`). -/

namespace LinProg

namespace Tableau

variable {T : Tableau ℚ}

/-! ## Replaying events -/

/-- An event leaves the tolerance as it is. -/
theorem tolerance_after (T : Tableau ℚ) (event : Event ℚ) :
    (T.after event).tolerance = T.tolerance := by
  cases event with
  | drivenOut column row replacement =>
    show ((T.pivot row replacement).toOption.getD T).tolerance = _
    unfold pivot
    cases T.matrix.pivot T.tolerance row replacement with
    | error fault => rfl
    | ok matrix => rfl
  | redundantRow row =>
    show ((T.clearRow row).toOption.getD T).tolerance = _
    unfold clearRow
    cases T.matrix.fillRow row 0 with
    | error fault => rfl
    | ok matrix => rfl
  | _ => rfl

/-- An event that drives no column out leaves the tableau as it is. -/
theorem after_of_drivesOut_eq_false (T : Tableau ℚ) {event : Event ℚ}
    (h : event.drivesOut = false) : T.after event = T := by
  cases event with
  | drivenOut | redundantRow => exact absurd h.symm Bool.false_ne_true
  | _ => rfl

/-- The numbers that are compared for an event. To drive a column out the row is searched for an
entry that is not zero, and the first one is pivoted on; the entries before it are zero. -/
def comparedFor (T : Tableau ℚ) : Event ℚ → List ℚ
  | .drivenOut _ row replacement => [T.entry row replacement]
  | _ => []

/-- The tableaux from one on while the events happen, that one included, with the numbers compared
there. In the last one the basis is read off. -/
def replay (T : Tableau ℚ) : List (Event ℚ) → List (Tableau ℚ × List ℚ)
  | [] => [(T, T.basisNumbers)]
  | event :: events => (T, T.comparedFor event) :: (T.after event).replay events

/-- Further events lead on from the tableau after the first ones. -/
theorem replay_foldl_subset (T : Tableau ℚ) (events later : List (Event ℚ)) :
    (events.foldl after T).replay later ⊆ T.replay (events ++ later) := by
  induction events generalizing T with
  | nil => exact List.Subset.refl _
  | cons event events ih => exact List.subset_cons_of_subset _ (ih _)

/-- The basis is read off in the tableau after the events. -/
theorem foldl_mem_replay (T : Tableau ℚ) (events : List (Event ℚ)) :
    (events.foldl after T, (events.foldl after T).basisNumbers) ∈ T.replay events := by
  have hlast := T.replay_foldl_subset events [] List.mem_cons_self
  rwa [List.append_nil] at hlast

/-- Later events that drive no column out take nothing away. -/
theorem replay_subset_append (T : Tableau ℚ) (events : List (Event ℚ)) {later : List (Event ℚ)}
    (hlater : ∀ event ∈ later, event.drivesOut = false) :
    T.replay events ⊆ T.replay (events ++ later) := by
  induction events generalizing T with
  | nil =>
    have hfixed : later.foldl after T = T :=
      List.foldlRecOn (motive := fun U => U = T) later after rfl fun U hU event hevent => by
        rw [after_of_drivesOut_eq_false U (hlater event hevent), hU]
    have hlast := T.foldl_mem_replay later
    rw [hfixed] at hlast
    exact List.cons_subset.2 ⟨hlast, List.nil_subset _⟩
  | cons event events ih => exact List.cons_subset_cons _ (ih _)

/-- All tableaux that events lead to have the same tolerance. -/
theorem tolerance_of_mem_replay {events : List (Event ℚ)} {p : Tableau ℚ × List ℚ}
    (h : p ∈ T.replay events) : p.1.tolerance = T.tolerance := by
  induction events generalizing T with
  | nil => rw [List.mem_singleton.1 h]
  | cons event events ih =>
    rcases List.mem_cons.1 h with rfl | h
    · rfl
    · rw [ih h, tolerance_after]

end Tableau

namespace Phase

/-- The tableaux that events lead to after a phase with an optimal end, with the numbers compared
there. -/
def replay (phase : Phase ℚ) (events : List (Event ℚ)) : List (Tableau ℚ × List ℚ) :=
  match phase.ending with
  | .optimal => phase.last.replay events
  | _ => []

variable {phase : Phase ℚ}

/-- After an optimal end the events lead on from the last tableau. -/
theorem replay_of_optimal (h : phase.ending = .optimal) (events : List (Event ℚ)) :
    phase.replay events = phase.last.replay events := by
  unfold replay
  rw [h]

/-- After any other end nothing is compared any more. -/
theorem replay_of_ne_optimal (h : phase.ending ≠ .optimal) (events : List (Event ℚ)) :
    phase.replay events = [] := by
  unfold replay
  split
  · rename_i hending
    exact absurd hending h
  · rfl

/-- Later events that drive no column out take nothing away. -/
theorem replay_subset_append (phase : Phase ℚ) (events : List (Event ℚ)) {later : List (Event ℚ)}
    (hlater : ∀ event ∈ later, event.drivesOut = false) :
    phase.replay events ⊆ phase.replay (events ++ later) := by
  by_cases h : phase.ending = .optimal
  · rw [replay_of_optimal h, replay_of_optimal h]
    exact phase.last.replay_subset_append events hlater
  · rw [replay_of_ne_optimal h]
    exact List.nil_subset _

end Phase

/-! ## The trail -/

/-- The tableaux of a solve with the events, that starts its phases under the rule and reads the
given columns after the phase with each number, with the numbers compared in each tableau: those
that each phase goes through, and those that the events after it lead to. -/
def trail (reads : ℕ → ℕ → Bool) (rule : PivotRule) : List (Event ℚ) → List (Tableau ℚ × List ℚ)
  | [] => []
  | .phase number phase :: events =>
    (phase.stages rule).map (fun p => (p.2, p.2.compared (reads number) p.1)) ++
      phase.replay events ++ trail reads rule events
  | _ :: events => trail reads rule events

section Trail

variable (reads : ℕ → ℕ → Bool) (rule : PivotRule)

/-- The trail of later events is part of the trail. -/
theorem trail_subset_cons (event : Event ℚ) (events : List (Event ℚ)) :
    trail reads rule events ⊆ trail reads rule (event :: events) := by
  cases event with
  | phase number phase => exact List.subset_append_right _ _
  | _ => exact List.Subset.refl _

/-- The trail of the events before others is part of the trail, when these drive no column out. -/
theorem trail_subset_append (events : List (Event ℚ)) {later : List (Event ℚ)}
    (hlater : ∀ event ∈ later, event.drivesOut = false) :
    trail reads rule events ⊆ trail reads rule (events ++ later) := by
  induction events with
  | nil => exact List.nil_subset _
  | cons event events ih =>
    cases event with
    | phase number phase =>
      refine List.append_subset.2 ⟨List.append_subset.2 ⟨?_, ?_⟩, ?_⟩
      · exact List.subset_append_of_subset_left _ (List.subset_append_left _ _)
      · exact List.subset_append_of_subset_left _ (List.subset_append_of_subset_right _
          (phase.replay_subset_append events hlater))
      · exact List.subset_append_of_subset_right _ ih
    | _ => exact ih

/-- The stages of a phase are part of the trail. -/
theorem stage_mem_trail {number : ℕ} {phase : Phase ℚ} {events : List (Event ℚ)}
    (h : .phase number phase ∈ events) {p : PivotRule × Tableau ℚ} (hp : p ∈ phase.stages rule) :
    (p.2, p.2.compared (reads number) p.1) ∈ trail reads rule events := by
  induction events with
  | nil => exact absurd h List.not_mem_nil
  | cons event events ih =>
    rcases List.mem_cons.1 h with rfl | h
    · exact List.mem_append_left _ (List.mem_append_left _ (List.mem_map.2 ⟨p, hp, rfl⟩))
    · exact trail_subset_cons reads rule event events (ih h)

/-- What holds of the tolerances of all phases holds of those of the trail. -/
theorem tolerance_of_mem_trail {tolerance : ℚ} {events : List (Event ℚ)}
    (hphases : ∀ number phase, .phase number phase ∈ events →
      ∀ U ∈ phase.visited, U.tolerance = tolerance) :
    ∀ p ∈ trail reads rule events, p.1.tolerance = tolerance := by
  induction events with
  | nil => exact nofun
  | cons event events ih =>
    have hrest := ih fun number phase h => hphases number phase (List.mem_cons_of_mem event h)
    cases event with
    | phase number phase =>
      have hvisited := hphases number phase List.mem_cons_self
      intro p hp
      rcases List.mem_append.1 hp with hp | hp
      · rcases List.mem_append.1 hp with hp | hp
        · obtain ⟨stage, hstage, rfl⟩ := List.mem_map.1 hp
          refine hvisited _ ?_
          rw [← Phase.map_stages rule]
          exact List.mem_map.2 ⟨stage, hstage, rfl⟩
        · by_cases h : phase.ending = .optimal
          · rw [Phase.replay_of_optimal h] at hp
            rw [Tableau.tolerance_of_mem_replay hp, hvisited _ phase.last_mem_visited]
          · rw [Phase.replay_of_ne_optimal h] at hp
            exact absurd hp List.not_mem_nil
      · exact hrest p hp
    | _ => exact hrest

end Trail

/-- The tableaux of a phase without tolerance have none. -/
theorem Phase.tolerance_of_mem_visited {settings : Settings ℚ} {T : Tableau ℚ}
    (htol : T.tolerance = 0) : ∀ U ∈ (Phase.run settings T).visited, U.tolerance = 0 :=
  forall_mem_visited_of_chosen
    (fun hchosen hU => (Tableau.pivoted_of_eq_ok hchosen.pivot).tolerance.trans hU) settings htol

end LinProg
