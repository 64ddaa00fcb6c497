import LinProg.Event.Printer
import LinProg.Proofs.Allowance

/-!
# The switch to Bland's rule

The pivots of a phase come in two parts: first those that the configured rule chooses, then those of
Bland's rule (`Phase.Divided`). The second part can be there under Dantzig's rule only. It begins
right after the first pivot at which as many pivots in a row as the settings allow, and at least
one, were degenerate. The warning belongs to that pivot and to no other, and each phase starts again
with the configured rule (`Phase.rules_divide_pivots`).

The loop does not look back at its history. It keeps a counter, which a pivot that is not degenerate
sets to zero, and the rule in force. What carries the proof is that both are functions of the
history (`Tracks`): the counter is the length of the degenerate run at its end, and the rule is
Bland's once some part of the history from the start on ended with a run as long as the limit. One
pivot keeps this (`Tracks.step`), and so it holds along every run (`Runs.follows`). -/

namespace LinProg

variable {α : Type}

namespace Phase

/-- A pivot of a phase, with the tableau that it was made in. -/
abbrev Move (α : Type) := Tableau α × PivotStep α

/-- The pivots from a tableau on, each with the tableau before it. -/
def movesFrom (T : Tableau α) (steps : List (PivotStep α)) : List (Move α) :=
  (T :: steps.map (·.tableau)).zip steps

/-- The pivots of the phase, each with the tableau before it. -/
def moves (phase : Phase α) : List (Move α) :=
  movesFrom phase.start phase.steps

theorem movesFrom_cons (T : Tableau α) (step : PivotStep α) (rest : List (PivotStep α)) :
    movesFrom T (step :: rest) = (T, step) :: movesFrom step.tableau rest := rfl

theorem map_snd_moves (phase : Phase α) : phase.moves.map (·.2) = phase.steps :=
  List.map_snd_zip (by simp)

variable [Scalar α]

/-- The rule chooses the column and the row of the pivot. -/
def ChosenBy (rule : PivotRule) (move : Move α) : Prop :=
  Chosen rule move.1 move.2.column move.2.row move.2.tableau

/-- The rule makes the last choice of a phase, at its last tableau: no column is to enter, or one is
to enter and there is no pivot for it. -/
def LastChoice (settings : Settings α) (rule : PivotRule) (T : Tableau α) : PhaseEnd α → Prop
  | .optimal => T.enteringColumn rule = none
  | .unbounded column => T.enteringColumn rule = some column ∧ T.isUnbounded column = true
  | .exhausted => ∃ column, T.enteringColumn rule = some column ∧ T.isUnbounded column = false
  | .failed failure =>
    (T.enteringColumn rule = none ∧ failure = .fault .notOptimal) ∨
      ∃ column, T.enteringColumn rule = some column ∧
        ((∃ fault, T.readUnbounded column = .error fault ∧ failure = .fault fault) ∨
          ∃ streak, makeStep settings rule streak T column = .error failure)

/-! ## Degenerate runs -/

/-- The right-hand side of the leaving row was zero within the tolerance before the pivot. -/
def isDegenerate (settings : Settings α) (move : Move α) : Bool :=
  !Scalar.isSignificant settings.tolerance (move.1.rhs move.2.row)

/-- The last pivots, as many as the settings allow and at least one, were all degenerate. -/
def Stalled (settings : Settings α) (history : List (Move α)) : Prop :=
  ∃ recent, recent <:+ history ∧ recent.length = max settings.degenerateLimit 1 ∧
    ∀ move ∈ recent, isDegenerate settings move = true

/-- The phase turns to Bland's rule right after these pivots, unless it did so before. -/
def Turned (settings : Settings α) (history : List (Move α)) : Prop :=
  settings.rule = .dantzig ∧ Stalled settings history

/-- How many degenerate pivots in a row the history ends with. -/
def trailing (settings : Settings α) (history : List (Move α)) : ℕ :=
  (history.rtakeWhile (isDegenerate settings)).length

/-- The history has stalled when the run at its end is as long as the limit. -/
theorem stalled_iff (settings : Settings α) (history : List (Move α)) :
    Stalled settings history ↔ max settings.degenerateLimit 1 ≤ trailing settings history := by
  constructor
  · rintro ⟨recent, ⟨front, rfl⟩, hlength, hrecent⟩
    have hall : ∀ move ∈ recent.reverse, isDegenerate settings move = true := fun move hmove =>
      hrecent move (List.mem_reverse.1 hmove)
    unfold trailing List.rtakeWhile
    rw [List.reverse_append, List.takeWhile_append_of_pos hall, List.length_reverse,
      List.length_append, List.length_reverse, hlength]
    exact Nat.le_add_right _ _
  · intro hle
    refine ⟨_, (List.drop_suffix (trailing settings history - max settings.degenerateLimit 1)
      _).trans (List.rtakeWhile_suffix (isDegenerate settings) history), ?_, fun move hmove => ?_⟩
    · rw [List.length_drop]
      unfold trailing at hle ⊢
      omega
    · exact List.mem_rtakeWhile_imp (List.mem_of_mem_drop hmove)

instance (settings : Settings α) (history : List (Move α)) :
    Decidable (Stalled settings history) :=
  decidable_of_iff _ (stalled_iff settings history).symm

instance (settings : Settings α) (history : List (Move α)) :
    Decidable (Turned settings history) :=
  inferInstanceAs (Decidable (settings.rule = .dantzig ∧ Stalled settings history))

/-- A further pivot prolongs the run at the end or breaks it. -/
theorem trailing_append_singleton (settings : Settings α) (history : List (Move α))
    (move : Move α) : trailing settings (history ++ [move]) =
      if Scalar.isSignificant settings.tolerance (move.1.rhs move.2.row) then 0
      else trailing settings history + 1 := by
  unfold trailing
  split
  · rename_i hsignificant
    rw [List.rtakeWhile_concat_neg _ _ _ (by simp [isDegenerate, hsignificant])]
    rfl
  · rename_i hnegligible
    rw [List.rtakeWhile_concat_pos _ _ _ (by simp [isDegenerate, hnegligible])]
    simp

/-! ## The rule in force -/

/-- The phase has turned to Bland's rule in the course of the history. -/
def HasTurned (settings : Settings α) (history : List (Move α)) : Prop :=
  ∃ past, past <+: history ∧ Turned settings past

/-- A further pivot may be the one after which the phase turns. -/
theorem hasTurned_append_singleton_iff (settings : Settings α) (history : List (Move α))
    (move : Move α) : HasTurned settings (history ++ [move]) ↔
      HasTurned settings history ∨ Turned settings (history ++ [move]) := by
  constructor
  · rintro ⟨past, hpast, hturned⟩
    rcases List.prefix_concat_iff.1 hpast with rfl | hpast
    · exact .inr hturned
    · exact .inl ⟨past, hpast, hturned⟩
  · rintro (⟨past, hpast, hturned⟩ | hturned)
    · exact ⟨past, hpast.trans (List.prefix_append _ _), hturned⟩
    · exact ⟨_, List.prefix_rfl, hturned⟩

/-- What the loop keeps of the history of a phase: the rule in force and the counter. -/
structure Tracks (settings : Settings α) (history : List (Move α)) (rule : PivotRule)
    (streak : ℕ) : Prop where
  /-- After the turn Bland's rule is in force. -/
  bland : HasTurned settings history → rule = .bland
  /-- Before it the configured rule is. -/
  configured : ¬HasTurned settings history → rule = settings.rule
  /-- The counter is the length of the degenerate run at the end. -/
  streak_eq : streak = trailing settings history

/-- Under Dantzig's rule the phase has not turned, and is configured to follow that rule. -/
theorem Tracks.of_dantzig {settings : Settings α} {history : List (Move α)} {streak : ℕ}
    (h : Tracks settings history .dantzig streak) :
    ¬HasTurned settings history ∧ settings.rule = .dantzig := by
  have hnot : ¬HasTurned settings history := fun hturned => absurd (h.bland hturned) nofun
  exact ⟨hnot, (h.configured hnot).symm⟩

/-- What the history before a pivot says about it. -/
structure Follows (settings : Settings α) (history : List (Move α)) (move : Move α) : Prop where
  /-- The rule in force chooses the pivot. -/
  chosen : ChosenBy move.2.rule move
  /-- Bland's rule is in force after the turn. -/
  bland : HasTurned settings history → move.2.rule = .bland
  /-- The configured rule is in force before it. -/
  configured : ¬HasTurned settings history → move.2.rule = settings.rule
  /-- The counter is the length of the degenerate run that ends with the pivot. -/
  streak_eq : move.2.streak = trailing settings (history ++ [move])
  /-- The phase turns at the pivot when it had not turned and now has reason to. -/
  switches_iff : move.2.switches = true ↔
    ¬HasTurned settings history ∧ Turned settings (history ++ [move])

/-- A pivot of the loop follows its history, and the loop goes on to track it. -/
theorem Tracks.step {settings : Settings α} {history : List (Move α)} {rule : PivotRule}
    {streak : ℕ} {T : Tableau α} {step : PivotStep α} (h : Tracks settings history rule streak)
    (hrule : step.rule = rule)
    (hchosen : Chosen rule T step.column step.row step.tableau)
    (hstreak : step.streak =
      if Scalar.isSignificant settings.tolerance (T.rhs step.row) then 0 else streak + 1)
    (hswitches : step.switches = decide (rule = .dantzig ∧ 0 < step.streak ∧
      settings.degenerateLimit ≤ step.streak)) :
    Follows settings history (T, step) ∧
      Tracks settings (history ++ [(T, step)]) step.nextRule step.streak := by
  have hcount : step.streak = trailing settings (history ++ [(T, step)]) := by
    rw [trailing_append_singleton, ← h.streak_eq]
    exact hstreak
  -- The test of the loop, on the counter, is the one on the history.
  have hstalled : Stalled settings (history ++ [(T, step)]) ↔
      0 < step.streak ∧ settings.degenerateLimit ≤ step.streak := by
    rw [stalled_iff, ← hcount]
    omega
  have hiff : step.switches = true ↔
      ¬HasTurned settings history ∧ Turned settings (history ++ [(T, step)]) := by
    rw [hswitches, decide_eq_true_eq, ← hstalled]
    constructor
    · rintro ⟨rfl, hstall⟩
      obtain ⟨hnot, hconfigured⟩ := h.of_dantzig
      exact ⟨hnot, hconfigured, hstall⟩
    · rintro ⟨hnot, hconfigured, hstall⟩
      exact ⟨(h.configured hnot).trans hconfigured, hstall⟩
  refine ⟨⟨hrule ▸ hchosen, fun hturned => hrule.trans (h.bland hturned),
    fun hnot => hrule.trans (h.configured hnot), hcount, hiff⟩, ?_⟩
  cases hswitch : step.switches with
  | true =>
    have hturned := (hiff.1 hswitch).2
    refine ⟨fun _ => nextRule_of_switches hswitch, fun hnot => ?_, hcount⟩
    exact absurd ⟨_, List.prefix_rfl, hturned⟩ hnot
  | false =>
    have hsame : step.nextRule = rule := (nextRule_of_switches_eq_false hswitch).trans hrule
    have hkept : HasTurned settings (history ++ [(T, step)]) ↔ HasTurned settings history := by
      rw [hasTurned_append_singleton_iff, or_iff_left_iff_imp]
      intro hturned
      by_contra hnot
      exact Bool.false_ne_true (hswitch.symm.trans (hiff.2 ⟨hnot, hturned⟩))
    refine ⟨fun hturned => ?_, fun hnot => ?_, hcount⟩
    · exact hsame.trans (h.bland (hkept.1 hturned))
    · exact hsame.trans (h.configured fun hturned => hnot (hkept.2 hturned))

/-- Each pivot of a run follows the history before it, and after the run its rule is the one in
force. -/
theorem Runs.follows {settings : Settings α} {remaining streak : ℕ} {rule : PivotRule}
    {T : Tableau α} {steps : List (PivotStep α)} {ending : PhaseEnd α}
    (h : Runs settings remaining rule streak T steps ending) {history : List (Move α)}
    (htracks : Tracks settings history rule streak) :
    (∀ past move later, movesFrom T steps = past ++ move :: later →
      Follows settings (history ++ past) move) ∧
    ∃ streak, Tracks settings (history ++ movesFrom T steps) (ruleAfter rule steps) streak := by
  induction h generalizing history with
  | optimal | unbounded | exhausted | failed =>
    refine ⟨fun past move later hmoves => ?_, _, (List.append_nil history).symm ▸ htracks⟩
    exact absurd (congrArg List.length hmoves) (by simp [movesFrom])
  | @step _ rule streak T step rest _ hrule hchosen hstreak hswitches _ ih =>
    obtain ⟨hfirst, hnext⟩ := htracks.step hrule hchosen hstreak hswitches
    obtain ⟨hrest, hlast⟩ := ih hnext
    rw [List.append_assoc] at hlast
    refine ⟨fun past move later hmoves => ?_, ?_⟩
    · rw [movesFrom_cons] at hmoves
      cases past with
      | nil =>
        rw [List.nil_append, List.cons.injEq] at hmoves
        rw [List.append_nil, ← hmoves.1]
        exact hfirst
      | cons first past =>
        rw [List.cons_append, List.cons.injEq] at hmoves
        have := hrest past move later hmoves.2
        rwa [List.append_assoc, List.singleton_append, hmoves.1] at this
    · rw [movesFrom_cons, ruleAfter_cons]
      exact hlast

/-- The last choice of a computed run is made by the rule in force. -/
theorem lastChoice_pivots (settings : Settings α) (remaining : ℕ) (rule : PivotRule) (streak : ℕ)
    (T : Tableau α) :
    LastChoice settings (ruleAfter rule (pivots settings remaining rule streak T).1)
      (lastFrom T (pivots settings remaining rule streak T).1)
      (pivots settings remaining rule streak T).2 := by
  fun_induction pivots settings remaining rule streak T with
  | case1 remaining rule streak T hentering =>
    split
    · exact hentering
    · exact .inl ⟨hentering, rfl⟩
  | case2 remaining rule streak T column hentering fault hread =>
    exact .inr ⟨column, hentering, .inl ⟨fault, hread, rfl⟩⟩
  | case3 remaining rule streak T column hentering hread =>
    exact ⟨hentering, isUnbounded_of_readUnbounded hread⟩
  | case4 rule streak T column hentering hread =>
    exact ⟨column, hentering, isUnbounded_of_readUnbounded hread⟩
  | case5 rule streak T column hentering hread remaining failure hstep =>
    exact .inr ⟨column, hentering, .inr ⟨streak, hstep⟩⟩
  | case6 rule streak T column hentering hread remaining step hstep rest ih =>
    rw [ruleAfter_cons, lastFrom_cons]
    exact ih

/-! ## The two parts of a phase -/

/-- A history in two parts, the second of which begins right after the turn. -/
structure Division (settings : Settings α) (history before after : List (Move α)) : Prop where
  /-- The parts make up the history. -/
  history_eq : history = before ++ after
  /-- There is a second part only after the turn. -/
  turned : after ≠ [] → Turned settings before
  /-- The phase turns as soon as it has reason to. -/
  first : ∀ past, past <+: before → Turned settings past → past = before

/-- Every history divides in this way. -/
theorem exists_division (settings : Settings α) (history : List (Move α)) :
    ∃ before after, Division settings history before after := by
  -- A further pivot goes to the second part when the phase has turned, else to the first.
  induction history using List.reverseRecOn with
  | nil => exact ⟨[], [], rfl, fun hne => absurd rfl hne, fun _ hpast _ => List.prefix_nil.1 hpast⟩
  | append_singleton history move ih =>
    obtain ⟨before, after, rfl, hturned, hfirst⟩ := ih
    by_cases hbefore : Turned settings before
    · exact ⟨before, after ++ [move], List.append_assoc .., fun _ => hbefore, hfirst⟩
    · have hnil : after = [] := by
        by_contra hne
        exact hbefore (hturned hne)
      subst hnil
      rw [List.append_nil]
      refine ⟨before ++ [move], [], (List.append_nil _).symm, fun hne => absurd rfl hne,
        fun past hpast hpastTurned => ?_⟩
      rcases List.prefix_concat_iff.1 hpast with heq | hpast
      · exact heq
      · exact absurd (hfirst past hpast hpastTurned ▸ hpastTurned) hbefore

/-- The phase has turned in the course of a part of the history when this goes beyond the turn. -/
theorem Division.hasTurned_iff {settings : Settings α} {history before after : List (Move α)}
    (h : Division settings history before after) {past : List (Move α)} (hpast : past <+: history) :
    HasTurned settings past ↔ Turned settings before ∧ before <+: past := by
  obtain ⟨rfl, hturned, hfirst⟩ := h
  constructor
  · rintro ⟨early, hearly, hearlyTurned⟩
    rcases List.prefix_or_prefix_of_prefix (hearly.trans hpast) (List.prefix_append before after)
      with hle | hle
    · obtain rfl := hfirst early hle hearlyTurned
      exact ⟨hearlyTurned, hearly⟩
    · refine ⟨?_, hle.trans hearly⟩
      by_cases hnil : after = []
      · subst hnil
        rw [List.append_nil] at hpast
        exact hfirst early (hearly.trans hpast) hearlyTurned ▸ hearlyTurned
      · exact hturned hnil
  · rintro ⟨hbefore, hprefix⟩
    exact ⟨before, hprefix, hbefore⟩

section Division

variable {settings : Settings α} {history before after past later : List (Move α)} {move : Move α}

/-- In the first part the phase has not turned yet. -/
theorem Division.not_hasTurned (h : Division settings history before after)
    (heq : before = past ++ move :: later) : ¬HasTurned settings past := by
  have hpast : past <+: history := ⟨move :: later ++ after, by rw [h.history_eq, heq]; simp⟩
  rw [h.hasTurned_iff hpast]
  rintro ⟨-, hlong⟩
  exact absurd hlong.length_le (by simp [heq])

/-- In the second part it has. -/
theorem Division.hasTurned (h : Division settings history before after)
    (heq : after = past ++ move :: later) : HasTurned settings (before ++ past) :=
  ⟨before, List.prefix_append _ _, h.turned (by simp [heq])⟩

/-- The pivot at which the phase turns is the last of the first part. -/
theorem Division.switches_iff (h : Division settings history before after)
    (heq : history = past ++ move :: later) (hmove : Follows settings past move) :
    move.2.switches = true ↔ Turned settings before ∧ past ++ [move] = before := by
  have hnext : past ++ [move] <+: history := ⟨later, by rw [heq]; simp⟩
  rw [hmove.switches_iff]
  constructor
  · rintro ⟨hnot, hturned⟩
    obtain ⟨hbefore, hle⟩ := (h.hasTurned_iff hnext).1 ⟨_, List.prefix_rfl, hturned⟩
    rcases List.prefix_concat_iff.1 hle with hlast | hle
    · exact ⟨hbefore, hlast.symm⟩
    · exact absurd ⟨before, hle, hbefore⟩ hnot
  · rintro ⟨hbefore, hlast⟩
    exact ⟨h.not_hasTurned hlast.symm, hlast.symm ▸ hbefore⟩

/-- At the turn the counter stands at the limit. -/
theorem Follows.streak_eq_limit (h : Follows settings past move)
    (hswitches : move.2.switches = true) :
    move.2.streak = max settings.degenerateLimit 1 := by
  obtain ⟨hnot, hturned⟩ := h.switches_iff.1 hswitches
  have hle := (stalled_iff settings _).1 hturned.2
  -- One pivot earlier the run was shorter than the limit.
  have hlt : trailing settings past < max settings.degenerateLimit 1 := by
    by_contra hge
    exact hnot ⟨past, List.prefix_rfl, hturned.1, (stalled_iff settings past).2 (not_lt.1 hge)⟩
  rw [h.streak_eq]
  rw [trailing_append_singleton] at hle ⊢
  split_ifs at hle ⊢
  · omega
  · omega

end Division

/-- The pivots of a phase in two parts: those that the configured rule chooses, and after the turn
those that Bland's rule chooses. -/
structure Divided (settings : Settings α) (phase : Phase α) (before after : List (Move α)) : Prop
    extends Division settings phase.moves before after where
  /-- The configured rule chooses the first part. -/
  configured : ∀ move ∈ before, ChosenBy settings.rule move
  /-- Bland's rule chooses the second part. -/
  bland : ∀ move ∈ after, ChosenBy .bland move
  /-- Bland's rule makes the last choice after the turn, and without a turn the configured rule. -/
  last : LastChoice settings (if Turned settings before then .bland else settings.rule) phase.last
    phase.ending
  /-- The pivot at which the phase turns is recorded as such, and no other is. -/
  switches_iff : ∀ past move later, phase.moves = past ++ move :: later →
    (move.2.switches = true ↔ Turned settings before ∧ past ++ [move] = before)
  /-- It is recorded with the limit as the number of degenerate pivots. -/
  streak_eq : ∀ past move later, phase.moves = past ++ move :: later →
    move.2.switches = true → move.2.streak = max settings.degenerateLimit 1

/-- A phase starts with the configured rule, and with the counter at zero. -/
theorem tracks_nil (settings : Settings α) : Tracks settings [] settings.rule 0 := by
  refine ⟨fun ⟨past, hpast, hturned⟩ => ?_, fun _ => rfl, rfl⟩
  -- No pivots are no run of degenerate ones, whatever the limit.
  rw [List.prefix_nil.1 hpast] at hturned
  have hle := (stalled_iff settings []).1 hturned.2
  exact absurd hle (by simp [trailing])

/-- Every phase that is run is divided in this way. -/
theorem divided_run (settings : Settings α) (T : Tableau α) :
    ∃ before after, (run settings T).Divided settings before after := by
  obtain ⟨hfollows, streak, hend⟩ :=
    (runs_pivots settings settings.maxIterations settings.rule 0 T).follows (tracks_nil settings)
  have hlast := lastChoice_pivots settings settings.maxIterations settings.rule 0 T
  obtain ⟨before, after, h⟩ := exists_division settings (run settings T).moves
  have hmoves := h.history_eq
  have hturned := h.hasTurned_iff List.prefix_rfl
  refine ⟨before, after, h, fun move hmove => ?_, fun move hmove => ?_, ?_,
    fun past move later heq => h.switches_iff heq (hfollows past move later heq),
    fun past move later heq => (hfollows past move later heq : Follows _ past move).streak_eq_limit⟩
  · obtain ⟨past, later, heq⟩ := List.append_of_mem hmove
    have hthis : Follows settings past move := by
      refine hfollows past move (later ++ after) (hmoves.trans ?_)
      rw [heq, List.append_assoc, List.cons_append]
    exact hthis.configured (h.not_hasTurned heq) ▸ hthis.chosen
  · obtain ⟨past, later, heq⟩ := List.append_of_mem hmove
    have hthis : Follows settings (before ++ past) move := by
      refine hfollows (before ++ past) move later (hmoves.trans ?_)
      rw [heq, List.append_assoc]
    exact hthis.bland (h.hasTurned heq) ▸ hthis.chosen
  · split
    · rename_i hbefore
      exact hend.bland (hturned.2 ⟨hbefore, _, hmoves.symm⟩) ▸ hlast
    · rename_i hnot
      exact hend.configured (fun hhas => hnot (hturned.1 hhas).1) ▸ hlast

/-- A phase that turns has recorded just the last pivot of the first part, and one that does not has
recorded none. -/
theorem Divided.filter_switches {settings : Settings α} {phase : Phase α}
    {before after : List (Move α)} (h : phase.Divided settings before after) :
    (Turned settings before → ∃ move : Move α, move.2.streak = max settings.degenerateLimit 1 ∧
      phase.steps.filter (·.switches) = [move.2]) ∧
    (¬Turned settings before → phase.steps.filter (·.switches) = []) := by
  rw [← phase.map_snd_moves]
  constructor
  · intro hturned
    -- The first part ends with a pivot, since the limit is at least one.
    obtain ⟨past, move, rfl⟩ : ∃ past move, before = past ++ [move] := by
      rcases List.eq_nil_or_concat' before with rfl | hconcat
      · exact absurd ((stalled_iff settings []).1 hturned.2) (by simp [trailing])
      · exact hconcat
    have hmoves : phase.moves = past ++ move :: after := h.history_eq.trans (by simp)
    have hmove := (h.switches_iff past move after hmoves).2 ⟨hturned, rfl⟩
    have hother : ∀ {front other back}, phase.moves = front ++ other :: back →
        front.length ≠ past.length → ¬other.2.switches = true := by
      intro front other back heq hne hswitches
      have hsame := ((h.switches_iff front other back heq).1 hswitches).2
      exact hne (by simpa using congrArg List.length hsame)
    have hpast : (past.map (·.2)).filter (·.switches) = [] := by
      rw [List.filter_eq_nil_iff, List.forall_mem_map]
      intro other hmem
      obtain ⟨front, back, rfl⟩ := List.append_of_mem hmem
      exact hother (hmoves.trans (List.append_assoc ..)) (by simp)
    have hafter : (after.map (·.2)).filter (·.switches) = [] := by
      rw [List.filter_eq_nil_iff, List.forall_mem_map]
      intro other hmem
      obtain ⟨front, back, rfl⟩ := List.append_of_mem hmem
      exact hother (hmoves.trans (List.append_assoc past (move :: front) _).symm) (by simp)
    refine ⟨move, h.streak_eq past move after hmoves hmove, ?_⟩
    rw [hmoves, List.map_append, List.map_cons, List.filter_append, List.filter_cons_of_pos hmove,
      hpast, hafter]
    rfl
  · intro hnot
    rw [List.filter_eq_nil_iff, List.forall_mem_map]
    intro move hmem hswitches
    obtain ⟨past, later, heq⟩ := List.append_of_mem hmem
    exact hnot ((h.switches_iff past move later heq).1 hswitches).1

/-! ## The warning -/

/-- The warnings among messages. -/
def warnings (messages : List Message) : List Message :=
  messages.filter (·.level = .warn)

/-- The warning that a phase turns to Bland's rule after so many degenerate pivots in a row. -/
def turnWarning (number count : ℕ) : Message :=
  ⟨.warn, phaseText number ++ ": " ++ toString count ++
    " degenerate pivots in a row, switching to Bland's rule"⟩

/-- A pivot comes with a warning when it is recorded as the one at which the phase turns. -/
theorem warnings_messages_step (step : PivotStep Float) (number iteration : ℕ) :
    warnings (step.messages number iteration) =
      if step.switches then [turnWarning number step.streak] else [] := by
  unfold warnings PivotStep.messages
  split
  · rfl
  · rfl

/-- The warnings of a phase are those of its pivots. -/
theorem warnings_messages (phase : Phase Float) (number : ℕ) :
    warnings (phase.messages number) =
      (phase.steps.filter (·.switches)).map fun step => turnWarning number step.streak := by
  have hsteps : ∀ (steps : List (PivotStep Float)) (n : ℕ),
      warnings ((steps.zipIdx n).map fun place => place.1.messages number place.2).flatten =
        (steps.filter (·.switches)).map fun step => turnWarning number step.streak := by
    intro steps
    induction steps with
    | nil => exact fun _ => rfl
    | cons step steps ih =>
      intro n
      have hrest := ih (n + 1)
      have hstep := warnings_messages_step step number n
      unfold warnings at hrest hstep ⊢
      rw [List.zipIdx_cons, List.map_cons, List.flatten_cons, List.filter_append, hrest, hstep]
      cases hswitches : step.switches with
      | true => rw [if_pos rfl, List.filter_cons_of_pos hswitches]; rfl
      | false => rw [if_neg Bool.false_ne_true, List.filter_cons_of_neg (by simp [hswitches])]; rfl
  rw [← hsteps phase.steps 1]
  unfold warnings messages
  cases phase.ending <;> simp [List.filter_append]

/-- The configured rule chooses the pivots of a phase up to the first at which the last ones, as
many as the settings allow and at least one, were all degenerate. If that rule is Dantzig's, Bland's
rule chooses all later ones, and the choice at the end. Every phase of a solve starts over in this
way. The pivot after which the rules change comes with a warning that counts the degenerate pivots,
and there is no other warning. -/
theorem rules_divide_pivots :
    (∀ {α : Type} [Scalar α] (settings : Settings α) (T : Tableau α),
      ∃ before after, (run settings T).Divided settings before after) ∧
    (∀ {α : Type} [Scalar α] (M : Model α) (settings : Settings α) (number : ℕ) (phase : Phase α),
      .phase number phase ∈ (M.solve settings).events →
        ∃ before after, phase.Divided settings before after) ∧
    ∀ (settings : Settings Float) (phase : Phase Float) (before after : List (Move Float)),
      phase.Divided settings before after → ∀ number,
        warnings (phase.messages number) =
          (if Turned settings before then [turnWarning number (max settings.degenerateLimit 1)]
          else []) ∧
        ∀ past move later, phase.moves = past ++ move :: later →
          (warnings (move.2.messages number (past.length + 1)) ≠ [] ↔
            Turned settings before ∧ past ++ [move] = before) := by
  refine ⟨divided_run, fun M settings number phase hmem => ?_,
    fun settings phase before after h number => ⟨?_, fun past move later heq => ?_⟩⟩
  · obtain ⟨-, -, hphase⟩ := Model.hasPhase_of_mem_events hmem
    obtain ⟨T, rfl⟩ := hphase.exists_eq_run
    exact divided_run settings T
  · obtain ⟨hsome, hnone⟩ := h.filter_switches
    rw [warnings_messages]
    split
    · rename_i hturned
      obtain ⟨move, hstreak, hfilter⟩ := hsome hturned
      rw [hfilter, List.map_singleton, hstreak]
    · rename_i hnot
      rw [hnone hnot]
      rfl
  · rw [warnings_messages_step, ← h.switches_iff past move later heq]
    cases move.2.switches with
    | true => simp
    | false => simp

/-- Beale's program, on which Dantzig's rule goes on with degenerate pivots: make
`-3/4 x + 150 y - 1/50 z + 6 w` small. -/
def cyclingCalls : List (Model.Call Float) :=
  let x : Variable := ⟨0, "x"⟩
  let y : Variable := ⟨1, "y"⟩
  let z : Variable := ⟨2, "z"⟩
  let w : Variable := ⟨3, "w"⟩
  [.addVariable "x", .addVariable "y", .addVariable "z", .addVariable "w",
    .addConstraint ⟨[⟨0.25, x⟩, ⟨-60, y⟩, ⟨-0.04, z⟩, ⟨9, w⟩], 0⟩ .atMost 0,
    .addConstraint ⟨[⟨0.5, x⟩, ⟨-90, y⟩, ⟨-0.02, z⟩, ⟨3, w⟩], 0⟩ .atMost 0,
    .addConstraint ⟨[⟨1, z⟩], 0⟩ .atMost 1,
    .minimize ⟨[⟨-0.75, x⟩, ⟨150, y⟩, ⟨-0.02, z⟩, ⟨6, w⟩], 0⟩]

/-- The standard settings, with at most three degenerate pivots in a row. -/
def turningSettings : Settings Float :=
  { Settings.standard with degenerateLimit := 3 }

/-- On Beale's program Dantzig's rule makes three pivots, all degenerate, and Bland's rule then
makes three more; the third pivot comes with the one warning. -/
theorem rules_divide_pivots_beale : ∃ (phase : Phase Float) (before after : List (Move Float)),
    .phase 2 phase ∈ ((Model.built "beale" cyclingCalls).solve turningSettings).events ∧
    phase.Divided turningSettings before after ∧ before.length = 3 ∧ after.length = 3 ∧
    warnings (phase.messages 2) = [turnWarning 2 3] ∧
    ∃ past move later, phase.moves = past ++ move :: later ∧
      warnings (move.2.messages 2 (past.length + 1)) ≠ [] ∧ past ++ [move] = before := by
  obtain ⟨-, hsolve, hwarnings⟩ := rules_divide_pivots
  have hphase : (2, [false, false, true, false, false, false]) ∈
      (((Model.built "beale" cyclingCalls).solve turningSettings).events.filterMap
        Event.phase?).map fun p => (p.1, p.2.steps.map (·.switches)) := by
    decide +kernel
  obtain ⟨⟨number, phase⟩, hphase, hmarked⟩ := List.mem_map.1 hphase
  obtain ⟨rfl, hmarks⟩ := Prod.mk.inj hmarked
  have hmem := Event.mem_filterMap_phase?_iff.1 hphase
  obtain ⟨before, after, h⟩ := hsolve _ turningSettings 2 phase hmem
  obtain ⟨hall, hstep⟩ := hwarnings turningSettings phase before after h 2
  have hflags : phase.moves.map (fun move => move.2.switches) =
      [false, false, true, false, false, false] := by
    calc phase.moves.map (fun move => move.2.switches)
        = (phase.moves.map (·.2)).map (·.switches) := List.map_map.symm
      _ = phase.steps.map (·.switches) := by rw [phase.map_snd_moves]
      _ = _ := hmarks
  obtain ⟨first, rest, hfirst, -, hrest⟩ := List.map_eq_cons_iff.1 hflags
  obtain ⟨second, rest, rfl, -, hrest⟩ := List.map_eq_cons_iff.1 hrest
  obtain ⟨third, later, rfl, hthird, hlater⟩ := List.map_eq_cons_iff.1 hrest
  have hmoves : phase.moves = [first, second] ++ third :: later := hfirst
  obtain ⟨hturned, hbefore⟩ := (h.switches_iff _ third later hmoves).1 hthird
  rw [if_pos hturned] at hall
  have hafter : after = later := by
    have heq := hmoves.symm.trans h.history_eq
    rw [← hbefore] at heq
    simpa using heq.symm
  refine ⟨phase, before, after, hmem, h, ?_, ?_, hall, [first, second], third, later, hmoves, ?_,
    hbefore⟩
  · rw [← hbefore]
    rfl
  · rw [hafter]
    simpa using congrArg List.length hlater
  · exact (hstep _ third later hmoves).2 ⟨hturned, hbefore⟩

end Phase

end LinProg
