import Mathlib.Algebra.Group.Nat.Defs
import ClapRci.Server.PollRounds

/-!
# The delay between two polls (`server/shareddata.cpp`)

A round that sent nothing schedules the next one with twice the delay, up to a limit, and one
that sent something goes back to `mPollFreqNs`. The steps are those of `PollRounds`, with the
rounds of the present session and the delays they passed to `enqueueFn`.

`adaptive_iff`: the delays are bounded, grow while nothing is sent, and are those of a session
of its own, exactly when no round that sends nothing comes after five such rounds, or after one
of an earlier session. The limit is no doubling of `mPollFreqNs`, the sixth doubling is
compared with nothing, and `tryStartPolling` leaves `mCurrExpBackoff` as it is.
-/

namespace ClapRci.PollDelays

open PollRounds (Lbl)

variable {κ : Type} [LinearOrder κ]

/-- How a round ends: no events, no stream took them, or one did. -/
inductive Outcome where
  | idle | failed | sent
deriving DecidableEq

/-! ## The rounds of a run -/

/-- The round this step ends. -/
def outcome (s : PollRounds.Sys κ) : Lbl κ → Option Outcome
  | .pop =>
    match s.pc with
    | .consumeMain n m =>
      match s.data.mPluginMainToClientsQueue.pop with
      | (none, _) => if n = 0 ∧ m = 0 then some .idle else none
      | (some _, _) => none
    | _ => none
  | .finish =>
    match s.pc with
    | .sending [] _ success => some (if success then .sent else .failed)
    | _ => none
  | _ => none

/-- The delay this step passes to `enqueueFn`. -/
def deferNs (s : PollRounds.Sys κ) (l : Lbl κ) : Option Nat :=
  match outcome s l with
  | some .sent => some mPollFreqNs
  | some _ => some s.data.nextExpBackoff.1
  | none =>
    match l with
    | .tryStartPolling cq => (s.data.tryStartPolling cq).2.2
    | _ => none

/-- The step starts a session. -/
def starts (s : PollRounds.Sys κ) : Lbl κ → Bool
  | .tryStartPolling cq => (s.data.tryStartPolling cq).1
  | _ => false

/-- One `SharedData` with what is scheduled and what was. -/
structure Sys (κ : Type) [LinearOrder κ] where
  poll : PollRounds.Sys κ
  /-- The callbacks enqueued that have not run. -/
  scheduled : Nat := 0
  /-- The rounds of the session, each with the delay it passed on. -/
  session : List (Outcome × Nat) := []
  /-- The rounds without a successful send since the last one with it. -/
  unsent : Nat := 0
  /-- Those of them in the present session. -/
  unsentHere : Nat := 0

/-- The history after a step. -/
def record (s : Sys κ) (l : Lbl κ) (poll : PollRounds.Sys κ) : Sys κ :=
  match outcome s.poll l, deferNs s.poll l with
  | some o, some ns =>
    { poll := poll
      scheduled := s.scheduled + 1
      session := s.session ++ [(o, ns)]
      unsent := if o = .sent then 0 else s.unsent + 1
      unsentHere := if o = .sent then 0 else s.unsentHere + 1 }
  | _, _ =>
    if starts s.poll l then
      { s with poll := poll, scheduled := s.scheduled + 1, session := [], unsentHere := 0 }
    else { s with poll := poll }

/-- One step; the callback runs when it was scheduled. -/
def step (s : Sys κ) (l : Lbl κ) : Option (Sys κ) :=
  match l with
  | .callback ok captured =>
    if s.scheduled = 0 then none
    else
      (PollRounds.step s.poll (.callback ok captured)).map fun poll =>
        { s with poll := poll, scheduled := s.scheduled - 1 }
  | l => (PollRounds.step s.poll l).map (record s l)

/-- A freshly constructed instance. -/
def init (κ : Type) [LinearOrder κ] (plugin : PluginPtr) : Sys κ where
  poll := PollRounds.init κ plugin

/-- The sessions of the instance of `plugin`. -/
def spec (κ : Type) [LinearOrder κ] (plugin : PluginPtr) :
    ActionSystem.Spec (Sys κ) (Lbl κ) where
  Init s := s = init κ plugin
  step := step

/-! ## What is promised -/

/-- `nextExpBackoff()` as a function of the delay before. -/
def nextBackoff (currExpBackoff : Nat) : Nat :=
  if currExpBackoff < mExpBackoffLimitNs then currExpBackoff * 2 else mExpBackoffLimitNs

/-- The delay after these rounds, in a session that starts from `mPollFreqNs`. -/
def ownDelay (rounds : List Outcome) : Nat :=
  rounds.foldl (fun ns o => if o = .sent then mPollFreqNs else nextBackoff ns) mPollFreqNs

/-- What is promised of a step. -/
structure Adaptive (s : Sys κ) (l : Lbl κ) (_ : Sys κ) : Prop where
  bounds : ∀ ns, deferNs s.poll l = some ns → mPollFreqNs ≤ ns ∧ ns ≤ mExpBackoffLimitNs
  /-- Two rounds after each other that send nothing. -/
  grows : ∀ o ns, outcome s.poll l = some o → o ≠ .sent → deferNs s.poll l = some ns →
    ∀ o' ns', s.session.getLast? = some (o', ns') → o' ≠ .sent → ns' ≤ ns
  reset : outcome s.poll l = some .sent → deferNs s.poll l = some mPollFreqNs
  start : starts s.poll l = true → deferNs s.poll l = some mPollFreqNs
  /-- The delay is that of the outcomes of the session. -/
  own : ∀ o ns, outcome s.poll l = some o → deferNs s.poll l = some ns →
    ns = ownDelay (s.session.map Prod.fst ++ [o])

/-- The condition on a step that ends a round without a successful send: fewer than five such
rounds come right before it, and all of them are of this session. -/
def FewUnsent (s : Sys κ) (l : Lbl κ) : Prop :=
  ∀ o, outcome s.poll l = some o → o ≠ .sent → s.unsent = s.unsentHere ∧ s.unsentHere < 5

/-! ## What a step does to the delay -/

section Steps

variable {s s' : PollRounds.Sys κ} {l : Lbl κ}

theorem nextExpBackoff_eq (d : SharedData κ) :
    d.nextExpBackoff = (nextBackoff d.mCurrExpBackoff,
      { d with mCurrExpBackoff := nextBackoff d.mCurrExpBackoff }) := rfl

theorem pop_mCurrExpBackoff (hstep : PollRounds.step s .pop = some s') :
    s'.data.mCurrExpBackoff =
      match outcome s .pop with
      | none => s.data.mCurrExpBackoff
      | some .sent => mPollFreqNs
      | some _ => nextBackoff s.data.mCurrExpBackoff := by
  simp only [PollRounds.step] at hstep
  simp only [outcome]
  split at hstep
  · split at hstep
    · cases hstep
      simp [*]
    · cases hstep
      simp [*, PollRounds.consumeOne]
  · split at hstep
    · -- both queues are empty: the round ends if it has taken nothing from them
      split at hstep
      · cases hstep
        simp only [*, and_self, if_true]
        rfl
      · cases hstep
        simp only [*, if_false]
    · cases hstep
      simp only [*, PollRounds.consumeOne]
  · cases hstep

/-- The member after a step: the end of a round sets it, and nothing else does. -/
theorem step_mCurrExpBackoff (hstep : PollRounds.step s l = some s') :
    s'.data.mCurrExpBackoff =
      match outcome s l with
      | none => s.data.mCurrExpBackoff
      | some .sent => mPollFreqNs
      | some _ => nextBackoff s.data.mCurrExpBackoff := by
  cases PollRounds.step_moves hstep with
  | processPopped | processDone | mainPopped | nothingToSend | mainDone =>
    exact pop_mCurrExpBackoff hstep
  | ended =>
    simp only [outcome]
    split <;> rfl
  | failed hpc =>
    simp only [outcome, hpc]
    rfl
  | succeeded hpc =>
    simp only [outcome, hpc]
    rfl
  | tryStartPolling hpc =>
    rename_i cq
    rcases s.data.tryStartPolling_cases cq with heq | ⟨h, -, -, -, heq⟩
    · simp only [heq, outcome]
    · simp only [heq, outcome]
  | stopPoll =>
    simp only [outcome, SharedData.stopPoll]
    split <;> rfl
  | _ => rfl

/-- The delay of a round is what it leaves in the member. -/
theorem deferNs_of_outcome {o : Outcome} (ho : outcome s l = some o) :
    deferNs s l = some (if o = .sent then mPollFreqNs else nextBackoff s.data.mCurrExpBackoff) := by
  cases o <;> simp [deferNs, ho, nextExpBackoff_eq]

/-- Without a round at its end a step schedules something only to start a session. -/
theorem deferNs_of_none (ho : outcome s l = none) :
    deferNs s l = if starts s l then some mPollFreqNs else none := by
  cases l with
  | tryStartPolling cq =>
    rcases s.data.tryStartPolling_cases cq with heq | ⟨h, -, -, -, heq⟩
    · simp [deferNs, outcome, starts, heq]
    · simp [deferNs, outcome, starts, heq]
  | _ => simp [deferNs, ho, starts]

end Steps

/-! ## What a step can do -/

variable {s s' : Sys κ} {l : Lbl κ}

/-- A step ends a round, starts a session, or touches neither the delay nor the history. -/
inductive Moves (s : Sys κ) (l : Lbl κ) : Sys κ → Prop where
  | round {o poll} (ho : outcome s.poll l = some o)
    (hcurr : poll.data.mCurrExpBackoff =
      if o = .sent then mPollFreqNs else nextBackoff s.poll.data.mCurrExpBackoff) :
    Moves s l {
      poll := poll
      scheduled := s.scheduled + 1
      session := s.session ++ [(o, poll.data.mCurrExpBackoff)]
      unsent := if o = .sent then 0 else s.unsent + 1
      unsentHere := if o = .sent then 0 else s.unsentHere + 1 }
  | start {poll} (ho : outcome s.poll l = none) (hstarts : starts s.poll l = true)
    (hcurr : poll.data.mCurrExpBackoff = s.poll.data.mCurrExpBackoff) :
    Moves s l { s with
      poll := poll
      scheduled := s.scheduled + 1
      session := []
      unsentHere := 0 }
  | other {poll scheduled} (ho : outcome s.poll l = none) (hstarts : starts s.poll l = false)
    (hcurr : poll.data.mCurrExpBackoff = s.poll.data.mCurrExpBackoff) :
    Moves s l { s with poll := poll, scheduled := scheduled }

theorem record_moves {poll : PollRounds.Sys κ} (hpoll : PollRounds.step s.poll l = some poll) :
    Moves s l (record s l poll) := by
  have hcurr := step_mCurrExpBackoff hpoll
  cases ho : outcome s.poll l with
  | some o =>
    have hround : poll.data.mCurrExpBackoff =
        if o = .sent then mPollFreqNs else nextBackoff s.poll.data.mCurrExpBackoff := by
      rw [ho] at hcurr
      cases o <;> simpa using hcurr
    have hdefer := deferNs_of_outcome ho
    rw [← hround] at hdefer
    simp only [record, ho, hdefer]
    exact .round ho hround
  | none =>
    have hsame : poll.data.mCurrExpBackoff = s.poll.data.mCurrExpBackoff := by
      rw [ho] at hcurr
      exact hcurr
    simp only [record, ho]
    split
    · rename_i hstarts
      exact .start ho hstarts hsame
    · rename_i hstarts
      exact .other ho (Bool.not_eq_true _ ▸ hstarts) hsame

theorem step_moves (hstep : step s l = some s') : Moves s l s' := by
  unfold step at hstep
  split at hstep
  · rename_i ok captured
    split at hstep
    · cases hstep
    · obtain ⟨poll, hpoll, rfl⟩ := Option.map_eq_some_iff.mp hstep
      exact .other rfl rfl (step_mCurrExpBackoff hpoll)
  · obtain ⟨poll, hpoll, rfl⟩ := Option.map_eq_some_iff.mp hstep
    exact record_moves hpoll

/-! ## The invariant -/

/-- Up to five rounds that send nothing double the delay each time, and so does the session
on its own. -/
structure Inv (s : Sys κ) : Prop where
  curr : s.poll.data.mCurrExpBackoff = mPollFreqNs * 2 ^ s.unsent
  own : ownDelay (s.session.map Prod.fst) = mPollFreqNs * 2 ^ s.unsentHere
  few : s.unsent ≤ 5
  here : s.unsentHere ≤ s.unsent
  last : ∀ o ns, s.session.getLast? = some (o, ns) → o ≠ .sent →
    ns = mPollFreqNs * 2 ^ s.unsentHere

theorem init_inv (plugin : PluginPtr) : Inv (init κ plugin) where
  curr := rfl
  own := rfl
  few := Nat.zero_le 5
  here := Nat.le_refl 0
  last _ _ hlast := by cases hlast

/-- Five doublings stay below the limit, so the next one is a doubling too. -/
theorem nextBackoff_pow {k : Nat} (hk : k ≤ 5) :
    nextBackoff (mPollFreqNs * 2 ^ k) = mPollFreqNs * 2 ^ (k + 1) := by
  have hpow : 2 ^ k ≤ 2 ^ 5 := Nat.pow_le_pow_right (by decide) hk
  have hlt : mPollFreqNs * 2 ^ k < mExpBackoffLimitNs := by
    unfold mPollFreqNs mExpBackoffLimitNs
    omega
  rw [nextBackoff, if_pos hlt, Nat.pow_succ, Nat.mul_assoc]

theorem ownDelay_append (rounds : List Outcome) (o : Outcome) :
    ownDelay (rounds ++ [o]) =
      if o = .sent then mPollFreqNs else nextBackoff (ownDelay rounds) := by
  rw [ownDelay, List.foldl_append]
  rfl

/-- The steps that meet the condition keep the delay a doubling of `mPollFreqNs`. -/
theorem step_inv (hinv : Inv s) (hfew : FewUnsent s l) (hstep : step s l = some s') :
    Inv s' := by
  cases step_moves hstep with
  | @round o poll ho hcurr =>
    by_cases hsent : o = .sent
    · subst hsent
      constructor
      · exact hcurr
      · rw [List.map_append]
        exact ownDelay_append _ _
      · exact Nat.zero_le 5
      · exact Nat.le_refl 0
      · intro o' ns' hlast hne
        rw [List.getLast?_concat, Option.some.injEq, Prod.mk.injEq] at hlast
        exact absurd hlast.1.symm hne
    · obtain ⟨hsame, hlt⟩ := hfew o ho hsent
      have hle : s.unsent ≤ 5 := hinv.few
      have hdelay : poll.data.mCurrExpBackoff = mPollFreqNs * 2 ^ (s.unsent + 1) := by
        rw [hcurr, if_neg hsent, hinv.curr, nextBackoff_pow hle]
      simp only [if_neg hsent]
      constructor
      · exact hdelay
      · rw [List.map_append, List.map_cons, List.map_nil, ownDelay_append, if_neg hsent,
          hinv.own, nextBackoff_pow (by omega)]
      · show s.unsent + 1 ≤ 5
        omega
      · show s.unsentHere + 1 ≤ s.unsent + 1
        omega
      · intro o' ns' hlast hne
        rw [List.getLast?_concat, Option.some.injEq, Prod.mk.injEq] at hlast
        rw [← hlast.2, hdelay, hsame]
  | start ho hstarts hcurr =>
    constructor
    · exact hcurr.trans hinv.curr
    · rfl
    · exact hinv.few
    · exact Nat.zero_le _
    · intro o ns hlast
      cases hlast
  | other ho hstarts hcurr =>
    exact ⟨hcurr.trans hinv.curr, hinv.own, hinv.few, hinv.here, hinv.last⟩

/-- The delay of a round that sends nothing, next to the one a session of its own has. -/
theorem Inv.unsent_delay (hinv : Inv s) {o : Outcome} (ho : outcome s.poll l = some o)
    (hne : o ≠ .sent) :
    deferNs s.poll l = some (mPollFreqNs * 2 ^ (s.unsent + 1)) ∧
      ownDelay (s.session.map Prod.fst ++ [o]) = mPollFreqNs * 2 ^ (s.unsentHere + 1) := by
  have hfew := hinv.few
  have hhere := hinv.here
  constructor
  · rw [deferNs_of_outcome ho, if_neg hne, hinv.curr, nextBackoff_pow hfew]
  · rw [ownDelay_append, if_neg hne, hinv.own, nextBackoff_pow (by omega)]

theorem delay_bounds {k : Nat} (hk : k ≤ 5) :
    mPollFreqNs ≤ mPollFreqNs * 2 ^ k ∧ mPollFreqNs * 2 ^ k ≤ mExpBackoffLimitNs := by
  have hpos : 1 ≤ 2 ^ k := Nat.one_le_two_pow
  have hpow : 2 ^ k ≤ 2 ^ 5 := Nat.pow_le_pow_right (by decide) hk
  unfold mPollFreqNs mExpBackoffLimitNs
  constructor <;> omega

/-- A step that ends no round schedules something only to start a session. -/
theorem adaptive_of_none (ho : outcome s.poll l = none) : Adaptive s l s' := by
  have hdefer := deferNs_of_none ho
  have hno : ∀ o, outcome s.poll l ≠ some o := by
    intro o ho'
    rw [ho] at ho'
    cases ho'
  constructor
  · intro ns hns
    rw [hdefer] at hns
    split at hns
    · cases hns
      decide
    · cases hns
  · intro o ns ho'
    exact absurd ho' (hno o)
  · intro ho'
    exact absurd ho' (hno _)
  · intro hstarts
    rw [hdefer, if_pos hstarts]
  · intro o ns ho'
    exact absurd ho' (hno o)

theorem adaptive_of_sent (ho : outcome s.poll l = some .sent) : Adaptive s l s' := by
  have hdefer := deferNs_of_outcome ho
  rw [if_pos rfl] at hdefer
  constructor
  · intro ns hns
    rw [hdefer, Option.some.injEq] at hns
    subst hns
    decide
  · intro o ns ho' hne
    rw [ho, Option.some.injEq] at ho'
    exact absurd ho'.symm hne
  · intro _
    exact hdefer
  · intro _
    exact hdefer
  · intro o ns ho' hns
    rw [hdefer, Option.some.injEq] at hns
    rw [ho, Option.some.injEq] at ho'
    rw [← ho', ownDelay_append, if_pos rfl, hns]

/-- A round that sends nothing, after fewer than five such rounds of its session. -/
theorem adaptive_of_unsent (hinv : Inv s) {o : Outcome} (ho : outcome s.poll l = some o)
    (hne : o ≠ .sent) (hsame : s.unsent = s.unsentHere) (hlt : s.unsentHere < 5) :
    Adaptive s l s' := by
  obtain ⟨hdefer, hown⟩ := hinv.unsent_delay ho hne
  have hstarts : starts s.poll l = false := by
    cases l <;> first | rfl | cases ho
  constructor
  · intro ns hns
    rw [hdefer, Option.some.injEq] at hns
    rw [← hns]
    exact delay_bounds (by omega)
  · intro o' ns _ _ hns o'' ns' hlast hne'
    rw [hdefer, Option.some.injEq] at hns
    rw [← hns, hinv.last o'' ns' hlast hne']
    exact Nat.mul_le_mul_left _ (Nat.pow_le_pow_right (by decide) (by omega))
  · intro ho'
    rw [ho, Option.some.injEq] at ho'
    exact absurd ho' hne
  · intro hstart
    rw [hstarts] at hstart
    cases hstart
  · intro o' ns ho' hns
    rw [ho, Option.some.injEq] at ho'
    rw [hdefer, Option.some.injEq] at hns
    rw [← ho', hown, ← hns, hsame]

/-- A step that meets the condition keeps its promise. -/
theorem step_adaptive (hinv : Inv s) (hfew : FewUnsent s l) : Adaptive s l s' := by
  cases ho : outcome s.poll l with
  | none => exact adaptive_of_none ho
  | some o =>
    by_cases hsent : o = .sent
    · rw [hsent] at ho
      exact adaptive_of_sent ho
    · obtain ⟨hsame, hlt⟩ := hfew o ho hsent
      exact adaptive_of_unsent hinv ho hsent hsame hlt

/-- A sixth round in a row that sends nothing goes over the limit, and one after such rounds
of an earlier session waits longer than its own session would. -/
theorem step_not_adaptive (hinv : Inv s) (hnot : ¬FewUnsent s l) : ¬Adaptive s l s' := by
  intro hadaptive
  apply hnot
  intro o ho hne
  obtain ⟨hdefer, hown⟩ := hinv.unsent_delay ho hne
  have hequal := (hadaptive.own o _ ho hdefer).trans hown
  have hsame : s.unsent = s.unsentHere := by
    have hpow : 2 ^ (s.unsent + 1) = 2 ^ (s.unsentHere + 1) :=
      Nat.eq_of_mul_eq_mul_left (by decide) hequal
    have hexp := Nat.pow_right_injective (Nat.le_refl 2) hpow
    omega
  refine ⟨hsame, ?_⟩
  have hbound := (hadaptive.bounds _ hdefer).2
  have hle := hinv.few
  have hne5 : s.unsent ≠ 5 := by
    intro h5
    rw [h5] at hbound
    exact absurd hbound (by decide)
  omega

/-- In a run the delays adapt as promised exactly when a round that sends nothing has fewer
than five such rounds right before it, all of its own session. -/
theorem adaptive_iff (plugin : PluginPtr) (ls : List (Lbl κ)) :
    (spec κ plugin).AllSteps Adaptive (init κ plugin) ls ↔
      (spec κ plugin).AllSteps (fun s l _ => FewUnsent s l) (init κ plugin) ls := by
  refine (spec κ plugin).allSteps_iff Inv ?_ ?_ (init_inv plugin) ls
  · intro s l s' hinv hfew hstep
    exact ⟨step_inv hinv hfew hstep, step_adaptive hinv hfew⟩
  · intro s l s' hinv hnot _
    exact step_not_adaptive hinv hnot

/-- A callback that finds both queues empty. -/
def idleRound : List (Lbl Nat) := [.callback true true, .pop, .pop]

/-- Six rounds without an event after polling has started: the last one waits for 320000. -/
theorem adaptive_fails : ¬∀ ls, (spec Nat 1).AllSteps Adaptive (init Nat 1) ls := by
  intro h
  have hlast := (spec Nat 1).forall_allSteps_last h
    (.addStream 7 :: .tryStartPolling (some 0) :: (idleRound ++ idleRound ++ idleRound ++
      idleRound ++ idleRound ++ [Lbl.callback true true, Lbl.pop]))
    .pop rfl rfl
  exact absurd (hlast.bounds 320000 rfl).2 (by decide)

end ClapRci.PollDelays
