import ClapRci.Server.PollRounds

/-!
# Sending again what no stream accepted (`server/shareddata.cpp`)

A round in which every `sendEvents` returns false leaves its events in
`mPluginToClientsData`. The steps are those of `PollRounds`, with the events that such
rounds have popped and that have not been sent since.

* `step_spec`: the response holds these events, and those the round under way has popped;
* `retries_iff`: they are sent by the first round that finds a stream open, in exactly the
  runs in which no round pops nothing while they wait and a stream is open.
-/

namespace ClapRci.PollRetry

open PollRounds (Lbl Pc Round)

variable {κ : Type} [LinearOrder κ]

/-- One `SharedData`, and what failed rounds have left behind. -/
structure Sys (κ : Type) [LinearOrder κ] where
  poll : PollRounds.Sys κ
  /-- The events popped in rounds that no stream accepted, and not sent since. -/
  failed : Api.ServerEvents := []

/-- The events popped in the round under way, or in the last one. -/
def popped (s : PollRounds.Sys κ) : Api.ServerEvents :=
  (s.popped.filter fun e => e.round = s.round).map fun e => e.ev.toServerEvent

/-- What is left behind after a step. A round that ends without success adds what it has
popped. -/
def failedAfter (s : Sys κ) (l : Lbl κ) : Api.ServerEvents :=
  match l, s.poll.pc with
  | .finish, .sending _ _ success => if success then [] else s.failed ++ popped s.poll
  | _, _ => s.failed

def step (s : Sys κ) (l : Lbl κ) : Option (Sys κ) :=
  (PollRounds.step s.poll l).map fun poll => { poll := poll, failed := failedAfter s l }

/-- A freshly constructed instance. -/
def init (κ : Type) [LinearOrder κ] (plugin : PluginPtr) : Sys κ where
  poll := PollRounds.init κ plugin

/-- The poll rounds of the instance of `plugin`. -/
def spec (κ : Type) [LinearOrder κ] (plugin : PluginPtr) :
    ActionSystem.Spec (Sys κ) (Lbl κ) where
  Init s := s = init κ plugin
  step := step

/-! ## What is promised -/

/-- A stream of the set is in `WRITE`: at its turn, in a round that has come to send. -/
def findsOpen (s : PollRounds.Sys κ) : Bool :=
  match s.pc with
  | .sending _ visits _ => visits.any fun v => v.2 = .WRITE
  | _ => s.data.streams.toList.any fun stream => (s.stream stream).state = .WRITE

/-- A round that ends after finding a stream open has sent everything that was left behind. -/
def Retries (s : Sys κ) (_ : Lbl κ) (s' : Sys κ) : Prop :=
  s.poll.pc ≠ .idle → s'.poll.pc = .idle → findsOpen s.poll = true → s.failed ≠ [] →
    ∃ r stream, s'.poll.rounds = s.poll.rounds ++ [r] ∧ r.writable stream = true ∧
      r.message ∈ s'.poll.handed stream ∧ s.failed <+: r.message

/-- The condition on a step: a round that has popped nothing finds nothing left behind, or no
stream open. -/
def NotIdle (s : Sys κ) (l : Lbl κ) : Prop :=
  l = .pop → s.poll.pc = .consumeMain 0 0 →
    s.poll.data.mPluginMainToClientsQueue.elems = [] →
      s.poll.data.mPluginToClientsData = [] ∨ findsOpen s.poll = false

/-! ## The response -/

/-- What the callback has popped in the round under way. -/
def Pc.count : Pc κ → Nat → Prop
  | .consumeProcess n, k => k = n
  | .consumeMain n m, k => k = n + m
  | _, _ => True

structure Inv (s : Sys κ) : Prop where
  poll : PollRounds.Inv s.poll
  /-- Between rounds the response holds what was left behind. -/
  idle : s.poll.pc = .idle → s.poll.data.mPluginToClientsData = s.failed
  /-- In a round, also what has been popped. -/
  busy : s.poll.pc ≠ .idle → s.poll.data.mPluginToClientsData = s.failed ++ popped s.poll
  count : Pc.count s.poll.pc (popped s.poll).length

theorem init_inv (plugin : PluginPtr) : Inv (init κ plugin) where
  poll := PollRounds.init_inv plugin
  idle _ := rfl
  busy h := absurd rfl h
  count := trivial

theorem step_spec {s s' : Sys κ} {l : Lbl κ} (hstep : step s l = some s') :
    PollRounds.step s.poll l = some s'.poll ∧ s'.failed = failedAfter s l := by
  rcases Option.map_eq_some_iff.mp hstep with ⟨poll, hpoll, rfl⟩
  exact ⟨hpoll, rfl⟩

section Steps

variable {s : Sys κ}

/-- A new round has popped nothing. -/
theorem popped_begun (hinv : PollRounds.Inv s.poll) :
    popped { s.poll with pc := .consumeProcess 0, round := s.poll.round + 1 } = [] := by
  simp only [popped, List.map_eq_nil_iff, List.filter_eq_nil_iff, decide_eq_true_eq]
  intro e he hround
  have hle := hinv.round_le e he
  omega

/-- A turn of a consume loop pops one event more. -/
theorem popped_consumeOne (s : PollRounds.Sys κ) (source : PollRounds.Source)
    (ev : ServerEventWrapper) (d : SharedData κ) (pc : Pc κ) :
    popped (PollRounds.consumeOne s source ev d pc) = popped s ++ [ev.toServerEvent] := by
  have hfilter (e : PollRounds.Popped) (he : e.round = s.round) (es : List PollRounds.Popped) :
      (es ++ [e]).filter (fun e => e.round = s.round) =
        es.filter (fun e => e.round = s.round) ++ [e] := by
    simp [he]
  exact (congrArg _ (hfilter ⟨s.round, source, ev⟩ rfl s.popped)).trans List.map_append

/-- A turn of a consume loop. -/
theorem Inv.consumeOne (hinv : Inv s) {source : PollRounds.Source}
    {ev : ServerEventWrapper} {d : SharedData κ} {pc : Pc κ}
    (hinv' : PollRounds.Inv (PollRounds.consumeOne s.poll source ev d pc))
    (hdata : d.mPluginToClientsData = s.poll.data.mPluginToClientsData)
    (hbusy : s.poll.pc ≠ .idle) (hpc : pc ≠ .idle)
    (hcount : Pc.count pc ((popped s.poll).length + 1)) :
    Inv { poll := PollRounds.consumeOne s.poll source ev d pc, failed := s.failed } where
  poll := hinv'
  idle h := absurd h hpc
  busy _ := by
    rw [popped_consumeOne, ← List.append_assoc, ← hinv.busy hbusy, ← hdata]
    rfl
  count := by
    rw [popped_consumeOne, List.length_append]
    exact hcount

/-- Steps that leave the response and the callback where they are. -/
theorem Inv.same (hinv : Inv s) {poll : PollRounds.Sys κ} (hinv' : PollRounds.Inv poll)
    (hpc : poll.pc = s.poll.pc) (hround : poll.round = s.poll.round)
    (hpopped : poll.popped = s.poll.popped)
    (hdata : poll.data.mPluginToClientsData = s.poll.data.mPluginToClientsData) :
    Inv { poll := poll, failed := s.failed } := by
  have hsame : popped poll = popped s.poll := by rw [popped, popped, hround, hpopped]
  refine ⟨hinv', ?_, ?_, ?_⟩
  · intro h
    exact hdata.trans (hinv.idle (hpc.symm.trans h))
  · intro h
    rw [hsame]
    exact hdata.trans (hinv.busy fun hidle => h (hpc.trans hidle))
  · rw [hsame]
    simpa only [hpc] using hinv.count

/-- The callback returns from the second consume loop only if both have popped nothing. -/
theorem step_nothingToSend {s s' : PollRounds.Sys κ} {n m : Nat}
    (hpc : s.pc = .consumeMain n m) (hstep : PollRounds.step s .pop = some s')
    (hidle : s'.pc = .idle) :
    n = 0 ∧ m = 0 ∧ s.data.mPluginMainToClientsQueue.elems = [] := by
  cases PollRounds.step_pops hstep with
  | nothingToSend hpc' hempty =>
    cases hpc.symm.trans hpc'
    exact ⟨rfl, rfl, hempty⟩
  | _ => cases hidle

theorem Inv.popped_of_idle (hinv : Inv s) {poll : PollRounds.Sys κ} {n m : Nat}
    (hpc : s.poll.pc = .consumeMain n m) (hstep : PollRounds.step s.poll .pop = some poll)
    (hidle : poll.pc = .idle) : popped s.poll = [] := by
  have hcount := hinv.count
  rcases step_nothingToSend hpc hstep hidle with ⟨rfl, rfl, -⟩
  rw [hpc] at hcount
  exact List.length_eq_zero_iff.mp hcount

/-- A round ends without success. -/
theorem Inv.failed (hinv : Inv s) {poll : PollRounds.Sys κ} (hinv' : PollRounds.Inv poll)
    (hbusy : s.poll.pc ≠ .idle) (hidle : poll.pc = .idle)
    (hdata : poll.data.mPluginToClientsData = s.poll.data.mPluginToClientsData) :
    Inv { poll := poll, failed := s.failed ++ popped s.poll } where
  poll := hinv'
  idle _ := hdata.trans (hinv.busy hbusy)
  busy h := absurd hidle h
  count := by
    simp only [hidle]
    trivial

theorem step_inv {s' : Sys κ} {l : Lbl κ} (hinv : Inv s) (hstep : step s l = some s') :
    Inv s' := by
  rcases s' with ⟨poll, failed⟩
  rcases step_spec hstep with ⟨hpoll, rfl⟩
  have hinv' : PollRounds.Inv poll := PollRounds.step_inv hinv.poll hpoll
  have hcount := hinv.count
  cases PollRounds.step_moves hpoll with
  | @ended ok captured hpc =>
    cases captured
    · exact hinv.same hinv' rfl rfl rfl rfl
    · exact hinv.same hinv' rfl rfl rfl rfl
  | begun hpc =>
    have hnone := popped_begun hinv.poll
    refine ⟨hinv', nofun, ?_, ?_⟩
    · intro _
      rw [hnone, List.append_nil]
      exact hinv.idle hpc
    · rw [hnone]
      rfl
  | processPopped hpc =>
    rw [hpc] at hcount
    exact hinv.consumeOne hinv' rfl (by simp [hpc]) nofun (congrArg (· + 1) hcount)
  | processDone hpc =>
    rw [hpc] at hcount
    exact ⟨hinv', nofun, fun _ => hinv.busy (by simp [hpc]), hcount⟩
  | mainPopped hpc =>
    rw [hpc] at hcount
    exact hinv.consumeOne hinv' rfl (by simp [hpc]) nofun (congrArg (· + 1) hcount)
  | nothingToSend hpc =>
    have hnone := hinv.popped_of_idle hpc hpoll rfl
    refine ⟨hinv', ?_, fun h => absurd rfl h, trivial⟩
    intro _
    have hbusy := hinv.busy (by simp [hpc])
    rw [hnone, List.append_nil] at hbusy
    exact hbusy
  | mainDone hpc => exact ⟨hinv', nofun, fun _ => hinv.busy (by simp [hpc]), trivial⟩
  | sent hpc => exact ⟨hinv', nofun, fun _ => hinv.busy (by simp [hpc]), trivial⟩
  | failed hpc =>
    have hafter : failedAfter s .finish = s.failed ++ popped s.poll := by simp [failedAfter, hpc]
    rw [hafter]
    exact hinv.failed hinv' (by simp [hpc]) rfl rfl
  | succeeded hpc =>
    have hafter : failedAfter s .finish = [] := by simp [failedAfter, hpc]
    rw [hafter]
    exact ⟨hinv', fun _ => rfl, fun h => absurd rfl h, trivial⟩
  | pushProcess => exact hinv.same hinv' rfl rfl rfl rfl
  | pushMain => exact hinv.same hinv' rfl rfl rfl rfl
  | setStream => exact hinv.same hinv' rfl rfl rfl rfl
  | addStream => exact hinv.same hinv' rfl rfl rfl rfl
  | removeStream => exact hinv.same hinv' rfl rfl rfl rfl
  | tryStartPolling => exact hinv.same hinv' rfl rfl rfl (SharedData.tryStartPolling_data _ _)
  | stopPoll => exact hinv.same hinv' rfl rfl rfl (SharedData.stopPoll_data _)
  | endElsewhere => exact hinv.same hinv' rfl rfl rfl rfl

/-- The first round that finds a stream open hands it what was left behind. -/
theorem step_retries {s' : Sys κ} {l : Lbl κ} (hinv : Inv s) (hcond : NotIdle s l)
    (hstep : step s l = some s') : Retries s l s' := by
  rcases s' with ⟨poll, failed⟩
  intro hbusy hidle hopen hfailed
  have hpoll := (step_spec hstep).1
  have hdata := hinv.busy hbusy
  have hturn := hinv.poll.pc
  have hdelivery := (PollRounds.step_inv hinv.poll hpoll).delivery
  revert hdelivery hidle
  cases PollRounds.step_moves hpoll with
  | ended hpc => exact absurd hpc hbusy
  | begun hpc => exact absurd hpc hbusy
  | processPopped hpc => nofun
  | processDone hpc => nofun
  | mainPopped hpc => nofun
  | mainDone hpc => nofun
  | sent hpc => nofun
  | nothingToSend hpc =>
    -- nothing popped: the condition leaves nothing behind, or no stream open
    intro hidle _
    have hnone := hinv.popped_of_idle hpc hpoll hidle
    rcases step_nothingToSend hpc hpoll hidle with ⟨rfl, rfl, hqueue⟩
    rw [hnone, List.append_nil] at hdata
    rcases hcond rfl hpc hqueue with hempty | hclosed
    · exact absurd (hdata.symm.trans hempty) hfailed
    · cases hopen.symm.trans hclosed
  | failed hpc =>
    intro _ _
    rw [hpc] at hturn
    simp only [findsOpen, hpc] at hopen
    cases hturn.2.trans hopen
  | @succeeded visits hpc =>
    intro hidle hdelivery
    simp only [findsOpen, hpc, List.any_eq_true, decide_eq_true_eq] at hopen
    rcases hopen with ⟨v, hv, hwrite⟩
    let r : Round κ := ⟨s.poll.data.mPluginToClientsData, s.poll.data.streams.toList, visits⟩
    have hopen : r.writable v.1 = true := by
      rw [Round.writable, ← hwrite]
      exact decide_eq_true hv
    refine ⟨r, v.1, rfl, hopen, ?_, ?_⟩
    · rw [hdelivery.handed hidle v.1]
      refine List.mem_map_of_mem (List.mem_filter.mpr ⟨?_, hopen⟩)
      exact List.mem_append_right _ (List.mem_singleton.mpr rfl)
    · exact ⟨popped s.poll, hdata.symm⟩
  | addStream hpc => exact absurd hpc hbusy
  | removeStream hpc => exact absurd hpc hbusy
  | tryStartPolling hpc => exact absurd hpc hbusy
  | endElsewhere hpc => exact absurd hpc hbusy
  | _ => intro hidle; exact absurd hidle hbusy

/-- A round that pops nothing sends nothing. -/
theorem step_not_retries {s' : Sys κ} {l : Lbl κ} (hinv : Inv s) (hcond : ¬ NotIdle s l)
    (hstep : step s l = some s') : ¬ Retries s l s' := by
  simp only [NotIdle, Classical.not_imp, not_or, Bool.not_eq_false] at hcond
  rcases hcond with ⟨rfl, hpc, hqueue, hleft, hopen⟩
  have hpoll := (step_spec hstep).1
  have hpop : s.poll.data.mPluginMainToClientsQueue.pop =
      (none, s.poll.data.mPluginMainToClientsQueue) := (PollRounds.pop_nil hqueue).1
  simp only [PollRounds.step, hpc, hpop] at hpoll
  have hpoll' := Option.some.inj hpoll
  intro hretries
  have hfailed : s.failed ≠ [] := by
    have hcount := hinv.count
    have hbusy := hinv.busy (by simp [hpc])
    rw [hpc] at hcount
    rw [List.length_eq_zero_iff.mp hcount, List.append_nil] at hbusy
    exact hbusy ▸ hleft
  rcases hretries (by simp [hpc]) (by simp [← hpoll']) hopen hfailed with ⟨r, stream, hrounds, -⟩
  rw [← hpoll'] at hrounds
  simp at hrounds

end Steps

/-! ## Runs -/

/-- What no stream accepted is sent by the first round that finds one open, throughout a run,
exactly when no round pops nothing while something is left behind and a stream is open. -/
theorem retries_iff (plugin : PluginPtr) (ls : List (Lbl κ)) :
    (spec κ plugin).AllSteps Retries (init κ plugin) ls ↔
      (spec κ plugin).AllSteps (fun s l _ => NotIdle s l) (init κ plugin) ls := by
  refine (spec κ plugin).allSteps_iff Inv ?_ ?_ (init_inv plugin) ls
  · intro s l s' hinv hcond hstep
    exact ⟨step_inv hinv hstep, step_retries hinv hcond hstep⟩
  · intro s l s' hinv hcond hstep
    exact step_not_retries hinv hcond hstep

/-- An event is popped while the only stream is still connecting; the stream opens, and the
next round finds nothing new. -/
theorem retries_fails : ¬ ∀ (plugin : PluginPtr) (ls : List (Lbl Nat)),
    (spec Nat plugin).AllSteps Retries (init Nat plugin) ls := by
  intro h
  have hlast := (spec Nat 1).forall_allSteps_last (h 1)
    [.addStream 7, .tryStartPolling (some 0), .pushProcess { ev := .note },
      .callback true true, .pop, .pop, .pop, .send, .finish,
      .setStream 7 { state := .WRITE }, .callback true true, .pop]
    .pop rfl rfl
  rcases hlast (by decide) rfl (by decide) (by decide) with ⟨r, stream, hrounds, -⟩
  cases hrounds

end ClapRci.PollRetry
