import Mathlib.Data.List.Basic
import Mathlib.Data.List.Flatten
import Mathlib.Tactic.Common
import ClapRci.Lib.LossyChannel
import ClapRci.Server.PollRounds

/-!
# The poll rounds as a lossy channel

From the pushes into the two queues of a `SharedData` to the messages its streams are
handed. Each queue, with the consume loop that empties it, carries a lossy channel: the
process queue loses the event it refuses, the main queue the one it overwrites, and
`endCallback` all that is there.

* `handed_of_run`: what a stream is handed is, queue by queue, a subsequence of what was
  pushed into it;
* `popped_eq_pushed_iff`: nothing is lost exactly when no push finds its queue full and
  no `endCallback` finds an event in it.
-/

namespace ClapRci.PollRounds

open ServerEventStream (State)
open scoped List

variable {κ : Type} [LinearOrder κ]

/-! ## The two queues and their events -/

/-- What is in a queue, oldest first. -/
def Sys.queue (s : Sys κ) : Source → List ServerEventWrapper
  | .process => s.data.mPluginProcessToClientsQueue.elems
  | .main => s.data.mPluginMainToClientsQueue.elems

/-- The events popped from a queue, in order. -/
def Sys.poppedFrom (s : Sys κ) (source : Source) : List ServerEventWrapper :=
  (s.popped.filter fun e => e.source = source).map (·.ev)

/-- The events pushed towards a queue. -/
def Lbl.pushed (source : Source) : Lbl κ → List ServerEventWrapper
  | .pushProcess ev => if source = .process then [ev] else []
  | .pushMain ev => if source = .main then [ev] else []
  | _ => []

/-- The step loses no event of the queue: a push finds room, `endCallback` finds nothing. -/
def Keeps (source : Source) (s : Sys κ) : Lbl κ → Prop
  | .pushProcess _ => source = .process → (s.queue .process).length < 64
  | .pushMain _ => source = .main → (s.queue .main).length < 64
  | .callback ok captured => s.data.endsPoll ok = true → captured = true → s.queue source = []
  | .endElsewhere => s.queue source = []
  | _ => True

/-- What is to be kept: an event that is pushed, and those in the queue when `endCallback`
runs. -/
theorem keeps_iff (source : Source) (s : Sys κ) (l : Lbl κ) :
    Keeps source s l ↔ (l.pushed source ≠ [] → (s.queue source).length < 64) ∧
      (Drains s l → s.queue source = []) := by
  cases l with
  | pushProcess ev | pushMain ev => cases source <;> simp [Keeps, Lbl.pushed, Drains]
  | _ => simp [Keeps, Lbl.pushed, Drains]

/-! ## A step as a run of the channel -/

/-- The step is a run of the channel of the queue, without a loss exactly if it keeps all. -/
def Carried (source : Source) (sent : List ServerEventWrapper) (s : Sys κ) (l : Lbl κ)
    (s' : Sys κ) : Prop :=
  ∃ ms, (LossyChannel.spec ServerEventWrapper).run ⟨sent, s.queue source, s.poppedFrom source⟩ ms =
      some ⟨sent ++ l.pushed source, s'.queue source, s'.poppedFrom source⟩ ∧
    (Keeps source s l ↔ ms.countP LossyChannel.Lbl.isDrop = 0)

section Carried

variable {source : Source} {sent : List ServerEventWrapper} {s s' : Sys κ} {l : Lbl κ}
  {ev : ServerEventWrapper}

/-- The queue and what was popped from it stay as they are. -/
theorem carried_same (hpopped : s'.popped = s.popped) (hqueue : s'.queue source = s.queue source)
    (hpush : l.pushed source = []) (hkeeps : Keeps source s l) : Carried source sent s l s' := by
  refine ⟨[], ?_, by simpa using hkeeps⟩
  rw [hpush, List.append_nil, hqueue, Sys.poppedFrom, Sys.poppedFrom, hpopped]
  rfl

/-- Everything in the queue is thrown away. -/
theorem carried_drained (hpopped : s'.popped = s.popped) (hqueue : s'.queue source = [])
    (hpush : l.pushed source = []) (hkeeps : Keeps source s l ↔ s.queue source = []) :
    Carried source sent s l s' := by
  refine ⟨List.replicate (s.queue source).length (.drop 0), ?_, ?_⟩
  · have hrun := LossyChannel.run_drops sent (s.poppedFrom source) (s.queue source) []
    rw [List.append_nil] at hrun
    rw [hrun, hpush, List.append_nil, hqueue, Sys.poppedFrom, Sys.poppedFrom, hpopped]
  · rw [hkeeps, List.countP_replicate, ← List.length_eq_zero_iff]
    simp [LossyChannel.Lbl.isDrop]

/-- A push that finds room. -/
theorem carried_pushed (hpopped : s'.popped = s.popped)
    (hqueue : s'.queue source = s.queue source ++ [ev]) (hpush : l.pushed source = [ev])
    (hkeeps : Keeps source s l) : Carried source sent s l s' := by
  refine ⟨[.send ev], ?_, by simpa [LossyChannel.Lbl.isDrop] using hkeeps⟩
  rw [hpush, hqueue, Sys.poppedFrom, Sys.poppedFrom, hpopped]
  rfl

/-- A push that is refused: the event is lost at the end of the queue. -/
theorem carried_refused (hpopped : s'.popped = s.popped) (hqueue : s'.queue source = s.queue source)
    (hpush : l.pushed source = [ev]) (hkeeps : ¬ Keeps source s l) :
    Carried source sent s l s' := by
  refine ⟨[.send ev, .drop (s.queue source).length], ?_, ?_⟩
  · rw [hpush, hqueue, Sys.poppedFrom, Sys.poppedFrom, hpopped]
    simp [LossyChannel.spec, ActionSystem.Spec.run, List.eraseIdx_append_of_length_le]
  · simpa [LossyChannel.Lbl.isDrop] using hkeeps

/-- A push that overwrites: the oldest event is lost. -/
theorem carried_overwritten {y : ServerEventWrapper} {ys : List ServerEventWrapper}
    (hpopped : s'.popped = s.popped) (hold : s.queue source = y :: ys)
    (hqueue : s'.queue source = ys ++ [ev]) (hpush : l.pushed source = [ev])
    (hkeeps : ¬ Keeps source s l) : Carried source sent s l s' := by
  refine ⟨[.drop 0, .send ev], ?_, ?_⟩
  · rw [hpush, hold, hqueue, Sys.poppedFrom, Sys.poppedFrom, hpopped]
    rfl
  · simpa [LossyChannel.Lbl.isDrop] using hkeeps

/-- The consume loop takes the oldest event. -/
theorem carried_popped (hold : s.queue source = ev :: s'.queue source)
    (hpopped : s'.poppedFrom source = s.poppedFrom source ++ [ev]) (hpush : l.pushed source = [])
    (hkeeps : Keeps source s l) : Carried source sent s l s' := by
  refine ⟨[.deliver], ?_, by simpa [LossyChannel.Lbl.isDrop] using hkeeps⟩
  rw [hpush, List.append_nil, hold, hpopped]
  rfl

end Carried

section Steps

variable {s s' : Sys κ} {source : Source} {sent : List ServerEventWrapper}

/-- A pop takes from one queue, or from none. -/
theorem pop_carried (hstep : step s .pop = some s') : Carried source sent s .pop s' := by
  cases step_pops hstep with
  | process hpc hpop =>
    have helems := BoundedFifo.elems_of_pop hpop
    cases source with
    | process => exact carried_popped helems (by simp [Sys.poppedFrom, consumeOne]) rfl trivial
    | main =>
      refine ⟨[], ?_, by simp [Keeps]⟩
      simp [Lbl.pushed, Sys.poppedFrom, consumeOne, Sys.queue]
  | main hpc hpop =>
    have helems := BoundedFifo.elems_of_pop hpop
    cases source with
    | main => exact carried_popped helems (by simp [Sys.poppedFrom, consumeOne]) rfl trivial
    | process =>
      refine ⟨[], ?_, by simp [Keeps]⟩
      simp [Lbl.pushed, Sys.poppedFrom, consumeOne, Sys.queue]
  | processDone => exact carried_same rfl (by cases source <;> rfl) rfl trivial
  | nothingToSend => exact carried_same rfl (by cases source <;> rfl) rfl trivial
  | mainDone => exact carried_same rfl (by cases source <;> rfl) rfl trivial

/-- The process queue refuses when it is full. -/
theorem pushProcess_carried (s : Sys κ) (ev : ServerEventWrapper) :
    Carried source sent s (.pushProcess ev) { s with data := (s.data.pushProcess ev).2 } := by
  cases source with
  | main => exact carried_same rfl rfl rfl nofun
  | process =>
    by_cases hroom : s.data.mPluginProcessToClientsQueue.elems.length < 64
    · refine carried_pushed rfl ?_ rfl fun _ => hroom
      simp [Sys.queue, SharedData.pushProcess, BoundedFifo.push, hroom]
    · refine carried_refused rfl ?_ rfl ?_
      · simp [Sys.queue, SharedData.pushProcess, BoundedFifo.push, hroom]
      · intro hkeeps
        exact hroom (hkeeps rfl)

/-- The main queue makes room. -/
theorem pushMain_carried (s : Sys κ) (ev : ServerEventWrapper) :
    Carried source sent s (.pushMain ev) { s with data := (s.data.pushMain ev).2 } := by
  cases source with
  | process => exact carried_same rfl rfl rfl nofun
  | main =>
    by_cases hroom : s.data.mPluginMainToClientsQueue.elems.length < 64
    · exact carried_pushed rfl (BoundedFifo.pushOverwrite_of_lt hroom ev) rfl fun _ => hroom
    · have hkeeps : ¬ Keeps .main s (.pushMain ev) := by
        intro hkeeps
        exact hroom (hkeeps rfl)
      cases hold : s.data.mPluginMainToClientsQueue.elems with
      | nil => rw [hold] at hroom; exact absurd (Nat.zero_lt_succ 63) hroom
      | cons y ys =>
        exact carried_overwritten rfl hold (BoundedFifo.pushOverwrite_of_full hold hroom ev) rfl
          hkeeps

theorem queue_endCallback (s : Sys κ) (stream : κ → ServerEventStream) (source : Source) :
    ({ s with data := s.data.endCallback, stream := stream } : Sys κ).queue source = [] := by
  cases source
  · simp [Sys.queue, BoundedFifo.empty]
  · simp [Sys.queue, BoundedFifo.empty]

/-- Every step of the poll rounds is a run of the channel. -/
theorem step_carried {l : Lbl κ} (hstep : step s l = some s') : Carried source sent s l s' := by
  cases step_moves hstep with
  | @ended ok captured hpc hends =>
    cases captured with
    | true =>
      exact carried_drained rfl (queue_endCallback s _ source) rfl (by simp [Keeps, hends])
    | false => exact carried_same rfl (by cases source <;> rfl) rfl nofun
  | @begun ok captured hpc =>
    have hends : s.data.endsPoll ok = false := endsPoll_of_begun hstep nofun
    exact carried_same rfl (by cases source <;> rfl) rfl (by simp [Keeps, hends])
  | processPopped => exact pop_carried hstep
  | processDone => exact pop_carried hstep
  | mainPopped => exact pop_carried hstep
  | nothingToSend => exact pop_carried hstep
  | mainDone => exact pop_carried hstep
  | pushProcess => exact pushProcess_carried s _
  | pushMain => exact pushMain_carried s _
  | tryStartPolling =>
    refine carried_same rfl ?_ rfl trivial
    cases source
    · exact congrArg BoundedFifo.elems (SharedData.tryStartPolling_processQueue _ _)
    · exact congrArg BoundedFifo.elems (SharedData.tryStartPolling_mainQueue _ _)
  | stopPoll =>
    refine carried_same rfl ?_ rfl trivial
    cases source
    · exact congrArg BoundedFifo.elems (SharedData.stopPoll_processQueue _)
    · exact congrArg BoundedFifo.elems (SharedData.stopPoll_mainQueue _)
  | endElsewhere => exact carried_drained rfl (queue_endCallback s _ source) rfl Iff.rfl
  | _ => exact carried_same rfl (by cases source <;> rfl) rfl trivial

end Steps

/-- The poll rounds carry a channel for each queue. -/
def carries (κ : Type) [LinearOrder κ] (plugin : PluginPtr) (source : Source) :
    LossyChannel.Carries (spec κ plugin) ServerEventWrapper where
  Inv _ := True
  sends _ l := l.pushed source
  pending s := s.queue source
  received s := s.poppedFrom source
  Keeps s l _ := Keeps source s l
  inv _ _ _ _ _ := trivial
  sim _ _ _ _ _ hstep := step_carried hstep

/-- For every run and each queue: nothing pushed is lost before the consume loops exactly
when no push finds its queue full and no `endCallback` finds an event in it. -/
theorem popped_eq_pushed_iff {plugin : PluginPtr} {ls : List (Lbl κ)} {s : Sys κ}
    (hrun : (spec κ plugin).run (init κ plugin) ls = some s) (source : Source) :
    s.poppedFrom source ++ s.queue source = ls.flatMap (Lbl.pushed source) ↔
      (spec κ plugin).AllSteps (fun s l _ => Keeps source s l) (init κ plugin) ls := by
  rw [← (spec κ plugin).outputs_of_label (Lbl.pushed source) hrun]
  refine (carries κ plugin source).lossless_iff trivial ?_ ?_ hrun
  · cases source <;> rfl
  · cases source <;> rfl

/-- Two events pushed, one of them popped, before another instance's callback drains. -/
def drainedRun : List (Lbl Nat) :=
  [.addStream 7, .tryStartPolling (some 0), .pushMain { ev := .note }, .callback true true, .pop,
    .pop, .pop, .send, .finish, .pushMain {}, .endElsewhere]

theorem popped_eq_pushed_drained :
    ¬ (spec Nat 1).AllSteps (fun s l _ => Keeps .main s l) (init Nat 1) drainedRun := by
  intro hkeeps
  have hval : ((spec Nat 1).run (init Nat 1) drainedRun).map
      (fun s => s.poppedFrom .main ++ s.queue .main) = some [{ ev := .note }] := by decide
  rcases Option.map_eq_some_iff.mp hval with ⟨s, hrun, hone⟩
  have hall := (popped_eq_pushed_iff hrun .main).mpr hkeeps
  rw [hone] at hall
  cases hall

/-! ## What a stream is handed -/

/-- What the loop over the streams has written to one of them is the response, once, or
nothing. -/
theorem sending_handed {s : Sys κ} (hinv : Inv s) (stream : κ) :
    (((s.pc.writes s.data.mPluginToClientsData).filter fun w => w.1 = stream).map
      Prod.snd).flatten <+ s.data.mPluginToClientsData := by
  have hturns := hinv.pc
  cases hpc : s.pc with
  | sending todo visits success =>
    rw [hpc] at hturns
    -- the streams of the set are distinct, hence those visited so far
    have hnodup : (visits.map Prod.fst).Nodup := by
      have hkeys : s.data.streams.toList.Nodup := s.data.streams.keys_nodup
      rw [← hturns.1] at hkeys
      exact (List.nodup_append.mp hkeys).1
    rw [Pc.writes, handed_visitWrites hnodup]
    split
    · simp
    · simp
  | _ => simp [Pc.writes]

/-- At any point of a run, what a stream was handed is a subsequence of what was popped. -/
theorem Inv.handed_sublist {s : Sys κ} (hinv : Inv s) (stream : κ) :
    (s.handed stream).flatten <+ s.popped.map fun e => e.ev.toServerEvent := by
  have hnodup : ∀ r ∈ s.rounds, (r.visits.map Prod.fst).Nodup := by
    intro r hr
    rcases hinv.rounds r hr with ⟨hturns, hnd, -⟩
    rwa [hturns]
  rw [← hinv.flow, Sys.handed, hinv.writes, List.filter_append, List.map_append,
    List.flatten_append, handed_rounds s.rounds hnodup]
  refine List.Sublist.append ?_ (sending_handed hinv stream)
  exact (List.filter_sublist.map _).flatten

/-- For every run and every stream: the messages it was handed, put together, are events
popped by the callback, and those of each queue, followed by what is still in it, are a
subsequence of the events pushed into it. None is invented, repeated or out of order. -/
theorem handed_of_run {plugin : PluginPtr} {ls : List (Lbl κ)} {s : Sys κ}
    (hrun : (spec κ plugin).run (init κ plugin) ls = some s) (stream : κ) :
    ∃ got : List Popped, (s.handed stream).flatten = got.map (fun e => e.ev.toServerEvent) ∧
      got.Pairwise Popped.Before ∧
      ∀ source, (got.filter fun e => e.source = source).map (·.ev) ++ s.queue source <+
        ls.flatMap (Lbl.pushed source) := by
  have hinv : Inv s :=
    (spec κ plugin).run_invariant Inv (fun _ _ _ => step_inv) (init_inv plugin) hrun
  rcases List.sublist_map_iff.mp (hinv.handed_sublist stream) with ⟨got, hgot, heq⟩
  refine ⟨got, heq, hinv.order.sublist hgot, ?_⟩
  intro source
  have hpopped : s.poppedFrom source ++ s.queue source <+ ls.flatMap (Lbl.pushed source) := by
    rw [← (spec κ plugin).outputs_of_label (Lbl.pushed source) hrun]
    refine (carries κ plugin source).sublist_of_run trivial ?_ ?_ hrun
    · cases source <;> rfl
    · cases source <;> rfl
  exact (((hgot.filter _).map _).append_right _).trans hpopped

theorem handed_one_round : ∃ s, (spec Nat 1).run (init Nat 1) oneRound = some s ∧
    ∃ got : List Popped, (s.handed 7).flatten = got.map (fun e => e.ev.toServerEvent) ∧
      got.length = 2 := by
  have hval : ((spec Nat 1).run (init Nat 1) oneRound).map (fun s => (s.handed 7).flatten.length) =
      some 2 := by decide
  rcases Option.map_eq_some_iff.mp hval with ⟨s, hrun, htwo⟩
  rcases handed_of_run hrun 7 with ⟨got, hgot, -, -⟩
  refine ⟨s, hrun, got, hgot, ?_⟩
  rw [hgot, List.length_map] at htwo
  exact htwo

end ClapRci.PollRounds
