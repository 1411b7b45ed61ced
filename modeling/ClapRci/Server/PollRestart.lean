import ClapRci.Server.PollRounds

/-!
# Polling again after a stop (`server/shareddata.cpp`)

`stopPoll` asks the poll callback to end the streams and polling; a client that connects
afterwards starts polling again through `tryStartPolling`. The steps are those of
`PollRounds`, with the callbacks that are scheduled and the sessions they belong to.

* `delivers_iff`: a callback serves the streams exactly when `pollStop` is not set;
* `restart_iff`: since nothing resets it, the promise for restarted sessions is kept exactly
  by the runs in which none of them comes to its first callback.
-/

namespace ClapRci.PollRestart

open PollRounds (Lbl)

variable {κ : Type} [LinearOrder κ]

/-- One `SharedData` with its callbacks. -/
structure Sys (κ : Type) [LinearOrder κ] where
  poll : PollRounds.Sys κ
  /-- The callbacks scheduled with `enqueueFn`. -/
  scheduled : Nat := 0
  /-- A callback has ended the streams because of `stopPoll`. -/
  stopped : Bool := false
  /-- Polling was started after such a stop, and nothing has asked it to end since. -/
  restarted : Bool := false

/-- The callback ends the streams because of `stopPoll`. -/
def stops (s : PollRounds.Sys κ) : Lbl κ → Bool
  | .callback ok _ => ok && s.data.coreplugin.isSome && s.data.mServerStreamCq.isSome &&
      !s.data.streams.toList.isEmpty && s.data.pollStop
  | _ => false

/-- `tryStartPolling()` returns true. -/
def starts (s : PollRounds.Sys κ) : Lbl κ → Bool
  | .tryStartPolling cq => (s.data.tryStartPolling cq).1
  | _ => false

/-- A call of `stopPoll`, a cancelled callback, or the removal of the last stream. -/
def asksToEnd (s : PollRounds.Sys κ) : Lbl κ → Bool
  | .stopPoll => true
  | .callback ok _ => !ok
  | .removeStream stream => (s.data.removeStream stream).2.streams.toList.isEmpty
  | _ => false

/-- The callbacks scheduled after a step. A callback that does not end polling schedules
itself again when it returns. -/
def schedule (s : Sys κ) (l : Lbl κ) (poll : PollRounds.Sys κ) : Nat :=
  match l with
  | .callback _ _ => s.scheduled - 1
  | .tryStartPolling _ => if starts s.poll l then s.scheduled + 1 else s.scheduled
  | .pop | .finish =>
    match poll.pc with
    | .idle => s.scheduled + 1
    | _ => s.scheduled
  | _ => s.scheduled

/-- Whether the step can be taken: a callback has to be scheduled. -/
def enabled (s : Sys κ) : Lbl κ → Bool
  | .callback _ _ => 0 < s.scheduled
  | _ => true

def step (s : Sys κ) (l : Lbl κ) : Option (Sys κ) :=
  if !enabled s l then none
  else
    (PollRounds.step s.poll l).map fun poll =>
      { poll := poll
        scheduled := schedule s l poll
        stopped := s.stopped || stops s.poll l
        restarted := if starts s.poll l then s.stopped else s.restarted && !asksToEnd s.poll l }

/-- A freshly constructed instance. -/
def init (κ : Type) [LinearOrder κ] (plugin : PluginPtr) : Sys κ where
  poll := PollRounds.init κ plugin

/-- Sessions of polling on the instance of `plugin`. -/
def spec (κ : Type) [LinearOrder κ] (plugin : PluginPtr) :
    ActionSystem.Spec (Sys κ) (Lbl κ) where
  Init s := s = init κ plugin
  step := step

/-! ## What is promised -/

/-- A callback ends neither a stream nor polling: it begins a round, in which every stream is
sent what there is to send. -/
structure Delivers (s s' : PollRounds.Sys κ) : Prop where
  begins : s'.pc = .consumeProcess 0
  stream : s'.stream = s.stream
  running : s'.data.pollRunning = s.data.pollRunning
  sends : s.data.HasEvents → ∃ evs, (s.data.pollCallback true s.stream).calls =
    s.data.streams.toList.map fun st => (st, .sendEvents evs)

/-- A callback of a restarted session delivers. -/
def Restarts (s : Sys κ) (l : Lbl κ) (s' : Sys κ) : Prop :=
  ∀ captured, l = .callback true captured → s.restarted = true → Delivers s.poll s'.poll

/-- The condition on a step: it is no callback of a restarted session, other than a cancelled
one. -/
def NotCalledBack (s : Sys κ) (l : Lbl κ) : Prop :=
  ∀ captured, l = .callback true captured → s.restarted = false

/-! ## The steps -/

theorem step_spec {s s' : Sys κ} {l : Lbl κ} (hstep : step s l = some s') :
    enabled s l = true ∧ PollRounds.step s.poll l = some s'.poll ∧
      s'.stopped = (s.stopped || stops s.poll l) ∧
      s'.restarted = if starts s.poll l then s.stopped
        else s.restarted && !asksToEnd s.poll l := by
  unfold step at hstep
  split at hstep
  · cases hstep
  · rename_i hen
    rcases Option.map_eq_some_iff.mp hstep with ⟨poll, hpoll, rfl⟩
    exact ⟨by simpa using hen, hpoll, rfl, rfl⟩

/-- No step resets `pollStop`. -/
theorem step_pollStop {s s' : PollRounds.Sys κ} {l : Lbl κ}
    (hstep : PollRounds.step s l = some s') (h : s.data.pollStop = true) :
    s'.data.pollStop = true := by
  cases PollRounds.step_moves hstep with
  | @ended ok captured =>
    cases captured
    · exact h
    · exact h
  | @tryStartPolling cq =>
    rcases s.data.tryStartPolling_cases cq with heq | ⟨hd, -, -, -, heq⟩
    · simp only [heq, h]
    · simp only [heq, h]
  | stopPoll =>
    unfold SharedData.stopPoll
    split
    · exact h
    · rfl
  | _ => exact h

/-- The callback has all it needs to serve the streams. -/
structure Session (d : SharedData κ) : Prop where
  coreplugin : d.coreplugin.isSome = true
  mServerStreamCq : d.mServerStreamCq.isSome = true
  streams : d.streams.toList ≠ []

/-- A session lasts until it is asked to end. -/
theorem step_session {s s' : PollRounds.Sys κ} {l : Lbl κ}
    (hstep : PollRounds.step s l = some s') (hasks : asksToEnd s l = false)
    (h : Session s.data) : Session s'.data := by
  cases PollRounds.step_moves hstep with
  | @ended ok captured =>
    cases captured
    · exact h
    · exact ⟨h.coreplugin, h.mServerStreamCq, h.streams⟩
  | @addStream stream =>
    refine ⟨h.coreplugin, h.mServerStreamCq, ?_⟩
    exact List.ne_nil_of_mem (OrdMap.mem_keys_emplace.mpr (Or.inl rfl))
  | @removeStream stream =>
    refine ⟨h.coreplugin, h.mServerStreamCq, ?_⟩
    exact List.isEmpty_eq_false_iff.mp hasks
  | @tryStartPolling cq =>
    rcases s.data.tryStartPolling_cases cq with heq | ⟨hd, -, -, -, heq⟩
    · simp only [heq]
      exact h
    · simp only [heq]
      exact ⟨h.coreplugin, rfl, h.streams⟩
  | stopPoll => cases hasks
  | _ => exact ⟨h.coreplugin, h.mServerStreamCq, h.streams⟩

/-- A session starts with a stream and a queue. -/
theorem session_of_starts {s s' : PollRounds.Sys κ} {l : Lbl κ}
    (hstep : PollRounds.step s l = some s') (hstarts : starts s l = true) : Session s'.data := by
  cases PollRounds.step_moves hstep with
  | @tryStartPolling cq =>
    rcases s.data.tryStartPolling_cases cq with heq | ⟨hd, -, hvalid, -, heq⟩
    · simp [starts, heq] at hstarts
    · simp only [SharedData.isValid, Bool.and_eq_true, Bool.not_eq_true'] at hvalid
      simp only [heq]
      exact ⟨hvalid.1, rfl, List.isEmpty_eq_false_iff.mp hvalid.2⟩
  | _ => cases hstarts

/-- In a session a callback serves the streams exactly when no stop was requested. -/
theorem delivers_iff {s s' : PollRounds.Sys κ} {captured : Bool} (hsession : Session s.data)
    (hstep : PollRounds.step s (.callback true captured) = some s') :
    Delivers s s' ↔ s.data.pollStop = false := by
  have hends : s.data.endsPoll true = s.data.pollStop := by
    simp [SharedData.endsPoll, Option.isNone_eq_false_iff.mpr hsession.coreplugin,
      Option.isNone_eq_false_iff.mpr hsession.mServerStreamCq,
      List.isEmpty_eq_false_iff.mpr hsession.streams]
  simp only [PollRounds.step] at hstep
  split at hstep
  · rename_i hidle
    cases hstop : s.data.pollStop with
    | false =>
      rw [hends, hstop] at hstep
      cases hstep
      refine iff_of_true ⟨rfl, rfl, rfl, ?_⟩ rfl
      intro hev
      rw [SharedData.pollCallback_round (hends.trans hstop)]
      exact SharedData.pollRound_calls hev s.stream
    | true =>
      rw [hends, hstop] at hstep
      cases hstep
      refine iff_of_false ?_ Bool.noConfusion
      intro hdel
      have hbegins := hdel.begins
      simp [hidle] at hbegins
  · cases hstep

/-! ## Runs -/

/-- `pollStop` stays set from the first stop on, also in the sessions that follow. -/
structure Inv (s : Sys κ) : Prop where
  stopped : s.stopped = true → s.poll.data.pollStop = true
  restarted : s.restarted = true → s.stopped = true ∧ Session s.poll.data

theorem init_inv (plugin : PluginPtr) : Inv (init κ plugin) where
  stopped h := by cases h
  restarted h := by cases h

/-- A callback that ends the streams has found `pollStop` set. -/
theorem pollStop_of_stops {s : PollRounds.Sys κ} {l : Lbl κ} (h : stops s l = true) :
    s.data.pollStop = true := by
  cases l with
  | callback ok captured =>
    simp only [stops, Bool.and_eq_true] at h
    exact h.2
  | _ => cases h

theorem step_inv {s s' : Sys κ} {l : Lbl κ} (hinv : Inv s) (hstep : step s l = some s') :
    Inv s' := by
  rcases step_spec hstep with ⟨-, hpoll, hstopped, hrestarted⟩
  constructor
  · intro h
    rw [hstopped, Bool.or_eq_true] at h
    rcases h with h | h
    · exact step_pollStop hpoll (hinv.stopped h)
    · exact step_pollStop hpoll (pollStop_of_stops h)
  · intro h
    rw [hrestarted] at h
    split at h
    · rename_i hstarts
      exact ⟨by rw [hstopped, h, Bool.true_or], session_of_starts hpoll hstarts⟩
    · rw [Bool.and_eq_true, Bool.not_eq_true'] at h
      rcases hinv.restarted h.1 with ⟨hstop, hsession⟩
      exact ⟨by rw [hstopped, hstop, Bool.true_or], step_session hpoll h.2 hsession⟩

/-- Restarted sessions work, in every step of a run, exactly when none of them comes to a
callback: the first one would end it. -/
theorem restart_iff (plugin : PluginPtr) (ls : List (Lbl κ)) :
    (spec κ plugin).AllSteps Restarts (init κ plugin) ls ↔
      (spec κ plugin).AllSteps (fun s l _ => NotCalledBack s l) (init κ plugin) ls := by
  refine (spec κ plugin).allSteps_iff Inv ?_ ?_ (init_inv plugin) ls
  · intro s l s' hinv hcond hstep
    refine ⟨step_inv hinv hstep, ?_⟩
    intro captured hl hre
    cases hre.symm.trans (hcond captured hl)
  · intro s l s' hinv hcond hstep hrestarts
    simp only [NotCalledBack, Classical.not_forall] at hcond
    rcases hcond with ⟨captured, rfl, hre⟩
    have hre : s.restarted = true := by simpa using hre
    rcases hinv.restarted hre with ⟨hstopped, hsession⟩
    have hdel := hrestarts captured rfl hre
    rw [delivers_iff hsession (step_spec hstep).2.1, hinv.stopped hstopped] at hdel
    cases hdel

/-- A client connects, `stopPoll` ends its stream, it goes, and another one connects: the
first callback of the new session ends it. -/
theorem restart_fails : ¬ ∀ (plugin : PluginPtr) (ls : List (Lbl Nat)),
    (spec Nat plugin).AllSteps Restarts (init Nat plugin) ls := by
  intro h
  have hlast := (spec Nat 1).forall_allSteps_last (h 1)
    [.addStream 7, .tryStartPolling (some 0), .setStream 7 { state := .WRITE }, .stopPoll,
      .callback true true, .removeStream 7, .addStream 8, .tryStartPolling (some 0),
      .setStream 8 { state := .WRITE }, .pushMain {}]
    (.callback true true) rfl rfl
  have hdel := hlast true rfl (by decide)
  exact absurd hdel.running (by decide)

end ClapRci.PollRestart
