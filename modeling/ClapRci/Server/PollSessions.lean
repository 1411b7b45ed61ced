import ClapRci.Server.PollRestart

/-!
# Events that outlive a session (`server/shareddata.cpp`)

Polling ends when `endCallback` resets `pollRunning` and drains both queues, and may start
again. The steps are those of `PollRounds`, with every event stamped with the number of
ends before it was pushed, and every stream with the number of ends before it was added.

* `step_inv`: between two ends the queues hold events of the present session only;
* `fresh_iff`: no stream is sent an event from before the end of a session it was not yet part
  of, in exactly the runs in which every end finds the response empty or is the last one.
-/

namespace ClapRci.PollSessions

open PollRounds (Lbl Pc)
open ServerEventStream (State)

variable {κ : Type} [LinearOrder κ]

/-- A number of ends of polling, and something from between this end and the next. -/
abbrev Stamped (α : Type) := Nat × α

/-- One `SharedData` with stamped copies of the queues and the response. -/
structure Sys (κ : Type) [LinearOrder κ] where
  poll : PollRounds.Sys κ
  /-- How often polling has ended. -/
  ended : Nat := 0
  /-- The number of ends before a stream was added. -/
  joined : κ → Nat := fun _ => 0
  process : BoundedFifo 64 (Stamped ServerEventWrapper) := .empty
  main : BoundedFifo 64 (Stamped ServerEventWrapper) := .empty
  response : List (Stamped Api.ServerEvent) := []

/-- Polling ends here: the callback runs `endCallback` on this instance. -/
def ends (s : PollRounds.Sys κ) : Lbl κ → Bool
  | .callback ok captured => s.data.endsPoll ok && captured
  | .endElsewhere => true
  | _ => false

/-- The event a pop finds, in the response. -/
def popInto (response : List (Stamped Api.ServerEvent))
    (queue : BoundedFifo 64 (Stamped ServerEventWrapper)) : List (Stamped Api.ServerEvent) :=
  response ++ (queue.pop.1.map fun e => (e.1, e.2.toServerEvent)).toList

/-- The stamps after a step. -/
def stamp (s : Sys κ) (l : Lbl κ) (poll : PollRounds.Sys κ) : Sys κ :=
  match l with
  | .pushProcess ev => { s with poll := poll, process := (s.process.push (s.ended, ev)).2 }
  | .pushMain ev => { s with poll := poll, main := (s.main.pushOverwrite (s.ended, ev)).2 }
  | .addStream stream =>
    { s with
      poll := poll
      joined := if (s.poll.data.addStream stream).1 then
        Function.update s.joined stream s.ended else s.joined }
  | .pop =>
    match s.poll.pc with
    | .consumeProcess _ =>
      { s with poll := poll, process := s.process.pop.2, response := popInto s.response s.process }
    | .consumeMain _ _ =>
      { s with poll := poll, main := s.main.pop.2, response := popInto s.response s.main }
    | _ => { s with poll := poll }
  | .finish =>
    match s.poll.pc with
    | .sending _ _ success =>
      { s with poll := poll, response := if success then [] else s.response }
    | _ => { s with poll := poll }
  | _ =>
    if ends s.poll l then
      { s with poll := poll, ended := s.ended + 1, process := .empty, main := .empty }
    else { s with poll := poll }

def step (s : Sys κ) (l : Lbl κ) : Option (Sys κ) :=
  (PollRounds.step s.poll l).map (stamp s l)

/-- A freshly constructed instance. -/
def init (κ : Type) [LinearOrder κ] (plugin : PluginPtr) : Sys κ where
  poll := PollRounds.init κ plugin

/-- The sessions of the instance of `plugin`. -/
def spec (κ : Type) [LinearOrder κ] (plugin : PluginPtr) :
    ActionSystem.Spec (Sys κ) (Lbl κ) where
  Init s := s = init κ plugin
  step := step

/-! ## What is promised -/

/-- A stream that takes the message has connected in the session its events are from, or in
an earlier one. -/
def Fresh (s : Sys κ) (l : Lbl κ) (_ : Sys κ) : Prop :=
  l = .send → ∀ stream todo visits success, s.poll.pc = .sending (stream :: todo) visits success →
    (s.poll.stream stream).state = .WRITE →
      s.response.map Prod.snd = s.poll.data.mPluginToClientsData ∧
        ∀ e ∈ s.response, s.joined stream ≤ e.1

/-- The condition on a step: polling ends with nothing in the response, or for good. -/
def Emptied (s : Sys κ) (l : Lbl κ) : Prop :=
  ends s.poll l = true → s.poll.data.mPluginToClientsData = [] ∨ s.poll.data.pollStop = true

/-! ## The stamps -/

structure Inv (s : Sys κ) : Prop where
  /-- The stamped copies follow the queues and the response. -/
  process : s.process.map Prod.snd = s.poll.data.mPluginProcessToClientsQueue
  main : s.main.map Prod.snd = s.poll.data.mPluginMainToClientsQueue
  response : s.response.map Prod.snd = s.poll.data.mPluginToClientsData
  /-- What is queued is from the present session. -/
  processNow : ∀ e ∈ s.process.elems, e.1 = s.ended
  mainNow : ∀ e ∈ s.main.elems, e.1 = s.ended
  joined_le : ∀ stream, s.joined stream ≤ s.ended

theorem init_inv (plugin : PluginPtr) : Inv (init κ plugin) where
  process := rfl
  main := rfl
  response := rfl
  processNow _ he := by cases he
  mainNow _ he := by cases he
  joined_le _ := Nat.le_refl 0

section Steps

variable {s : Sys κ} {poll : PollRounds.Sys κ}

/-- Steps that leave both queues and the response. -/
theorem Inv.same (hinv : Inv s)
    (hprocess : poll.data.mPluginProcessToClientsQueue = s.poll.data.mPluginProcessToClientsQueue)
    (hmain : poll.data.mPluginMainToClientsQueue = s.poll.data.mPluginMainToClientsQueue)
    (hresponse : poll.data.mPluginToClientsData = s.poll.data.mPluginToClientsData) :
    Inv { s with poll := poll } where
  process := hinv.process.trans hprocess.symm
  main := hinv.main.trans hmain.symm
  response := hinv.response.trans hresponse.symm
  processNow := hinv.processNow
  mainNow := hinv.mainNow
  joined_le := hinv.joined_le

/-- Polling ends: what comes then belongs to the next session. -/
theorem Inv.ended (hinv : Inv s) (hdata : poll.data = s.poll.data.endCallback) :
    Inv { s with poll := poll, ended := s.ended + 1, process := .empty, main := .empty } where
  process := by
    rw [hdata]
    simp [SharedData.endCallback, SharedData.drainPollingQueue]
  main := by
    rw [hdata]
    simp [SharedData.endCallback, SharedData.drainPollingQueue]
  response := hinv.response.trans (by rw [hdata]; rfl)
  processNow _ he := by cases he
  mainNow _ he := by cases he
  joined_le stream := Nat.le_succ_of_le (hinv.joined_le stream)

theorem Inv.pushProcess (hinv : Inv s) (ev : ServerEventWrapper)
    (hpoll : poll.data = (s.poll.data.pushProcess ev).2) :
    Inv { s with poll := poll, process := (s.process.push (s.ended, ev)).2 } where
  process := by
    have hmap := BoundedFifo.map_push Prod.snd s.process (s.ended, ev)
    rw [hinv.process] at hmap
    rw [hpoll]
    exact (congrArg Prod.snd hmap).symm
  main := hinv.main.trans (by rw [hpoll]; rfl)
  response := hinv.response.trans (by rw [hpoll]; rfl)
  processNow e he := by
    rcases BoundedFifo.mem_push he with he | ⟨-, rfl⟩
    · exact hinv.processNow e he
    · rfl
  mainNow := hinv.mainNow
  joined_le := hinv.joined_le

theorem Inv.pushMain (hinv : Inv s) (ev : ServerEventWrapper)
    (hpoll : poll.data = (s.poll.data.pushMain ev).2) :
    Inv { s with poll := poll, main := (s.main.pushOverwrite (s.ended, ev)).2 } where
  process := hinv.process.trans (by rw [hpoll]; rfl)
  main := by
    have hmap := BoundedFifo.map_pushOverwrite Prod.snd s.main (s.ended, ev)
    rw [hinv.main] at hmap
    rw [hpoll]
    exact (congrArg Prod.snd hmap).symm
  response := hinv.response.trans (by rw [hpoll]; rfl)
  processNow := hinv.processNow
  mainNow e he := by
    rcases BoundedFifo.mem_pushOverwrite he with he | rfl
    · exact hinv.mainNow e he
    · rfl
  joined_le := hinv.joined_le

/-- A stamped queue pops what the queue pops. -/
theorem pop_stamped {q : BoundedFifo 64 (Stamped ServerEventWrapper)}
    {queue queue' : BoundedFifo 64 ServerEventWrapper} {r : Option ServerEventWrapper}
    (hq : q.map Prod.snd = queue) (hpop : queue.pop = (r, queue')) :
    q.pop.2.map Prod.snd = queue' ∧ q.pop.1.map Prod.snd = r := by
  subst hq
  rw [BoundedFifo.map_pop] at hpop
  exact ⟨congrArg Prod.snd hpop, congrArg Prod.fst hpop⟩

theorem popInto_map (response : List (Stamped Api.ServerEvent))
    (q : BoundedFifo 64 (Stamped ServerEventWrapper)) :
    (popInto response q).map Prod.snd =
      response.map Prod.snd ++
        ((q.pop.1.map Prod.snd).map ServerEventWrapper.toServerEvent).toList := by
  unfold popInto
  rw [List.map_append]
  cases q.pop.1 with
  | none => rfl
  | some e => rfl

theorem Inv.popProcess (hinv : Inv s) {r : Option ServerEventWrapper}
    (hpop : s.poll.data.mPluginProcessToClientsQueue.pop =
      (r, poll.data.mPluginProcessToClientsQueue))
    (hmain : poll.data.mPluginMainToClientsQueue = s.poll.data.mPluginMainToClientsQueue)
    (hresponse : poll.data.mPluginToClientsData = s.poll.data.mPluginToClientsData ++
      (r.map ServerEventWrapper.toServerEvent).toList) :
    Inv { s with
      poll := poll, process := s.process.pop.2, response := popInto s.response s.process } where
  process := (pop_stamped hinv.process hpop).1
  main := hinv.main.trans hmain.symm
  response := by rw [popInto_map, (pop_stamped hinv.process hpop).2, hinv.response, hresponse]
  processNow e he := hinv.processNow e (List.mem_of_mem_tail he)
  mainNow := hinv.mainNow
  joined_le := hinv.joined_le

theorem Inv.popMain (hinv : Inv s) {r : Option ServerEventWrapper}
    (hpop : s.poll.data.mPluginMainToClientsQueue.pop = (r, poll.data.mPluginMainToClientsQueue))
    (hprocess : poll.data.mPluginProcessToClientsQueue =
      s.poll.data.mPluginProcessToClientsQueue)
    (hresponse : poll.data.mPluginToClientsData = s.poll.data.mPluginToClientsData ++
      (r.map ServerEventWrapper.toServerEvent).toList) :
    Inv { s with
      poll := poll, main := s.main.pop.2, response := popInto s.response s.main } where
  process := hinv.process.trans hprocess.symm
  main := (pop_stamped hinv.main hpop).1
  response := by rw [popInto_map, (pop_stamped hinv.main hpop).2, hinv.response, hresponse]
  processNow := hinv.processNow
  mainNow e he := hinv.mainNow e (List.mem_of_mem_tail he)
  joined_le := hinv.joined_le

theorem Inv.pop (hinv : Inv s) (hstep : PollRounds.step s.poll .pop = some poll) :
    Inv (stamp s .pop poll) := by
  cases PollRounds.step_pops hstep with
  | process hpc hpop =>
    simp only [stamp, hpc]
    exact hinv.popProcess hpop rfl rfl
  | processDone hpc hempty =>
    simp only [stamp, hpc]
    exact hinv.popProcess (PollRounds.pop_nil hempty).1 rfl (List.append_nil _).symm
  | main hpc hpop =>
    simp only [stamp, hpc]
    exact hinv.popMain hpop rfl rfl
  | nothingToSend hpc hempty =>
    simp only [stamp, hpc]
    exact hinv.popMain (PollRounds.pop_nil hempty).1 rfl (List.append_nil _).symm
  | mainDone hpc hempty =>
    simp only [stamp, hpc]
    exact hinv.popMain (PollRounds.pop_nil hempty).1 rfl (List.append_nil _).symm

/-- A stream joins the present session. -/
theorem Inv.addStream (hinv : Inv s) (stream : κ)
    (hdata : poll.data = (s.poll.data.addStream stream).2) : Inv { s with
      poll := poll
      joined := if (s.poll.data.addStream stream).1 then
        Function.update s.joined stream s.ended else s.joined } := by
  have hsame : Inv { s with poll := poll } :=
    hinv.same (by rw [hdata]; rfl) (by rw [hdata]; rfl) (by rw [hdata]; rfl)
  refine ⟨hsame.process, hsame.main, hsame.response, hsame.processNow, hsame.mainNow, ?_⟩
  intro st
  split
  · by_cases hst : st = stream
    · subst hst
      simp
    · show Function.update s.joined stream s.ended st ≤ s.ended
      rw [Function.update_of_ne hst]
      exact hinv.joined_le st
  · exact hinv.joined_le st

theorem step_inv {s' : Sys κ} {l : Lbl κ} (hinv : Inv s) (hstep : step s l = some s') :
    Inv s' := by
  rcases Option.map_eq_some_iff.mp hstep with ⟨poll, hpoll, rfl⟩
  cases PollRounds.step_moves hpoll with
  | @ended ok captured hpc hends =>
    cases captured
    · simp only [stamp, ends, Bool.and_false]
      exact hinv.same rfl rfl rfl
    · simp only [stamp, ends, hends, Bool.and_self, if_true]
      exact hinv.ended rfl
  | @begun ok captured hpc =>
    have hends : s.poll.data.endsPoll ok = false := PollRounds.endsPoll_of_begun hpoll nofun
    simp only [stamp, ends, hends, Bool.false_and]
    exact hinv.same rfl rfl rfl
  | processPopped => exact hinv.pop hpoll
  | processDone => exact hinv.pop hpoll
  | mainPopped => exact hinv.pop hpoll
  | nothingToSend => exact hinv.pop hpoll
  | mainDone => exact hinv.pop hpoll
  | sent => exact hinv.same rfl rfl rfl
  | failed hpc =>
    simp only [stamp, hpc]
    exact hinv.same rfl rfl rfl
  | succeeded hpc =>
    simp only [stamp, hpc]
    exact ⟨hinv.process, hinv.main, rfl, hinv.processNow, hinv.mainNow, hinv.joined_le⟩
  | @pushProcess ev => exact hinv.pushProcess ev rfl
  | @pushMain ev => exact hinv.pushMain ev rfl
  | setStream => exact hinv.same rfl rfl rfl
  | @addStream stream => exact hinv.addStream stream rfl
  | removeStream => exact hinv.same rfl rfl rfl
  | @tryStartPolling cq =>
    exact hinv.same (SharedData.tryStartPolling_processQueue _ _)
      (SharedData.tryStartPolling_mainQueue _ _) (SharedData.tryStartPolling_data _ _)
  | stopPoll =>
    exact hinv.same (SharedData.stopPoll_processQueue _) (SharedData.stopPoll_mainQueue _)
      (SharedData.stopPoll_data _)
  | endElsewhere => exact hinv.ended rfl

end Steps

/-! ## Runs -/

/-- Polling has been stopped for good: every callback ends it. -/
def Stopped (s : PollRounds.Sys κ) : Prop := s.data.pollStop = true ∧ s.pc = .idle

theorem step_stopped {s s' : PollRounds.Sys κ} {l : Lbl κ}
    (hstep : PollRounds.step s l = some s') (h : Stopped s) : Stopped s' := by
  rcases h with ⟨hstop, hidle⟩
  refine ⟨PollRestart.step_pollStop hstep hstop, ?_⟩
  have hbusy {pc : Pc κ} (hpc : s.pc = pc) (hne : pc ≠ .idle) : s'.pc = .idle :=
    absurd (hpc.symm.trans hidle) hne
  cases PollRounds.step_moves hstep with
  | begun =>
    have hends := PollRounds.endsPoll_of_begun hstep (by simp)
    simp [SharedData.endsPoll, hstop] at hends
  | processPopped hpc => exact hbusy hpc (by simp)
  | processDone hpc => exact hbusy hpc (by simp)
  | mainPopped hpc => exact hbusy hpc (by simp)
  | nothingToSend => rfl
  | mainDone hpc => exact hbusy hpc (by simp)
  | sent hpc => exact hbusy hpc (by simp)
  | failed => rfl
  | succeeded => rfl
  | _ => exact hidle

/-- The instance keeps its plugin. -/
theorem step_coreplugin {s s' : PollRounds.Sys κ} {l : Lbl κ}
    (hstep : PollRounds.step s l = some s') : s'.data.coreplugin = s.data.coreplugin := by
  cases PollRounds.step_moves hstep with
  | @ended ok captured => cases captured <;> rfl
  | @tryStartPolling cq =>
    rcases s.data.tryStartPolling_cases cq with heq | ⟨h, -, -, -, heq⟩
    · simp only [heq]
    · simp only [heq]
  | stopPoll =>
    unfold SharedData.stopPoll
    split
    · rfl
    · rfl
  | _ => rfl

/-- What waits in the response is from the present session, unless nothing is sent any more. -/
structure Current (s : Sys κ) : Prop extends Inv s where
  responseNow : (∀ e ∈ s.response, e.1 = s.ended) ∨ Stopped s.poll
  coreplugin : s.poll.data.coreplugin.isSome = true

theorem mem_popInto {response : List (Stamped Api.ServerEvent)}
    {q : BoundedFifo 64 (Stamped ServerEventWrapper)} {e : Stamped Api.ServerEvent}
    (h : e ∈ popInto response q) : e ∈ response ∨ ∃ e' ∈ q.elems, e.1 = e'.1 := by
  simp only [popInto, List.mem_append, Option.mem_toList, Option.map_eq_some_iff] at h
  rcases h with h | ⟨e', he', rfl⟩
  · exact Or.inl h
  · exact Or.inr ⟨e', List.mem_of_mem_head? he', rfl⟩

/-- What a pop puts into the response is from the present session. -/
theorem stamp_pop {s : Sys κ} (h : Inv s) (poll : PollRounds.Sys κ)
    (hresponse : ∀ e ∈ s.response, e.1 = s.ended) :
    ∀ e ∈ (stamp s .pop poll).response, e.1 = (stamp s .pop poll).ended := by
  have hpop {q : BoundedFifo 64 (Stamped ServerEventWrapper)}
      (hq : ∀ e ∈ q.elems, e.1 = s.ended) : ∀ e ∈ popInto s.response q, e.1 = s.ended := by
    intro e he
    rcases mem_popInto he with he | ⟨e', he', heq⟩
    · exact hresponse e he
    · exact heq.trans (hq e' he')
  unfold stamp
  cases s.poll.pc with
  | consumeProcess n => exact hpop h.processNow
  | consumeMain n m => exact hpop h.mainNow
  | idle => exact hresponse
  | sending todo visits success => exact hresponse

/-- An end of polling leaves nothing in the response, or is the last one. -/
theorem current_of_ended {s : Sys κ} (h : Inv s) (hcond : s.poll.data.mPluginToClientsData = [] ∨
      s.poll.data.pollStop = true) {poll : PollRounds.Sys κ}
    (hidle : poll.pc = .idle) (hstop : poll.data.pollStop = s.poll.data.pollStop) :
    (∀ e ∈ s.response, e.1 = s.ended + 1) ∨ Stopped poll := by
  rcases hcond with hempty | hstopped
  · left
    rw [← h.response, List.map_eq_nil_iff] at hempty
    rw [hempty]
    exact List.forall_mem_nil _
  · exact Or.inr ⟨hstop.trans hstopped, hidle⟩

theorem stamp_poll (s : Sys κ) (l : Lbl κ) (poll : PollRounds.Sys κ) :
    (stamp s l poll).poll = poll := by
  unfold stamp
  repeat' split
  all_goals rfl

theorem step_current {s s' : Sys κ} {l : Lbl κ} (h : Current s) (hcond : Emptied s l)
    (hstep : step s l = some s') : Current s' := by
  have hinv' := step_inv h.toInv hstep
  rcases Option.map_eq_some_iff.mp hstep with ⟨poll, hpoll, rfl⟩
  refine ⟨hinv', ?_, by rw [stamp_poll, step_coreplugin hpoll, h.coreplugin]⟩
  rcases h.responseNow with hnow | hstopped
  · cases PollRounds.step_moves hpoll with
    | @ended ok captured hpc hends =>
      cases captured
      · simp only [stamp, ends, Bool.and_false]
        exact Or.inl hnow
      · have hend : ends s.poll (.callback ok true) = true := by simp [ends, hends]
        simp only [stamp, hend, if_true]
        exact current_of_ended h.toInv (hcond hend) hpc rfl
    | @begun ok captured hpc =>
      have hends : s.poll.data.endsPoll ok = false := PollRounds.endsPoll_of_begun hpoll nofun
      simp only [stamp, ends, hends, Bool.false_and]
      exact Or.inl hnow
    | processPopped => exact Or.inl (stamp_pop h.toInv _ hnow)
    | processDone => exact Or.inl (stamp_pop h.toInv _ hnow)
    | mainPopped => exact Or.inl (stamp_pop h.toInv _ hnow)
    | nothingToSend => exact Or.inl (stamp_pop h.toInv _ hnow)
    | mainDone => exact Or.inl (stamp_pop h.toInv _ hnow)
    | failed hpc =>
      simp only [stamp, hpc]
      exact Or.inl hnow
    | succeeded hpc =>
      simp only [stamp, hpc]
      exact Or.inl (List.forall_mem_nil _)
    | endElsewhere hpc => exact current_of_ended h.toInv (hcond rfl) hpc rfl
    | _ => exact Or.inl hnow
  · rw [stamp_poll]
    exact Or.inr (step_stopped hpoll hstopped)

theorem Current.fresh {s : Sys κ} (h : Current s) (l : Lbl κ) (s' : Sys κ) : Fresh s l s' := by
  intro _ stream todo visits success hpc _
  refine ⟨h.response, ?_⟩
  intro e he
  rcases h.responseNow with hnow | ⟨-, hidle⟩
  · rw [hnow e he]
    exact h.joined_le stream
  · cases hpc.symm.trans hidle

theorem init_current (plugin : PluginPtr) : Current (init κ plugin) :=
  ⟨init_inv plugin, Or.inl (List.forall_mem_nil _), rfl⟩

/-! ## What an end leaves behind -/

section Left

variable {s : Sys κ}

/-- Polling has ended with events in the response, and can be started again. -/
structure Left (s : Sys κ) : Prop where
  idle : s.poll.pc = .idle
  coreplugin : s.poll.data.coreplugin.isSome = true
  pollRunning : s.poll.data.pollRunning = false
  pollStop : s.poll.data.pollStop = false
  process : s.poll.data.mPluginProcessToClientsQueue = .empty
  main : s.poll.data.mPluginMainToClientsQueue = .empty
  stale : ∃ e ∈ s.response, e.1 < s.ended

theorem left_of_ended (h : Current s) {l : Lbl κ} (hcond : ¬ Emptied s l) {s' : Sys κ}
    (hstep : step s l = some s') : Left s' := by
  simp only [Emptied, Classical.not_imp, not_or, Bool.not_eq_true] at hcond
  rcases hcond with ⟨hends, hleft, hstop⟩
  have hstale : ∃ e ∈ s.response, e.1 < s.ended + 1 := by
    have hne : s.response ≠ [] := by
      rintro hnil
      rw [← h.response, hnil] at hleft
      exact hleft rfl
    rcases List.exists_mem_of_ne_nil _ hne with ⟨e, he⟩
    rcases h.responseNow with hnow | hstopped
    · exact ⟨e, he, by rw [hnow e he]; exact Nat.lt_succ_self _⟩
    · cases hstop.symm.trans hstopped.1
  have hdrain : s.poll.data.endCallback.mPluginProcessToClientsQueue = .empty ∧
      s.poll.data.endCallback.mPluginMainToClientsQueue = .empty := by
    simp [SharedData.endCallback, SharedData.drainPollingQueue]
  rcases Option.map_eq_some_iff.mp hstep with ⟨poll, hpoll, rfl⟩
  cases PollRounds.step_moves hpoll with
  | @ended ok captured hpc hend =>
    cases captured
    · simp [ends] at hends
    · simp only [stamp, hends, if_true]
      exact ⟨hpc, h.coreplugin, rfl, hstop, hdrain.1, hdrain.2, hstale⟩
  | begun =>
    simp [ends, PollRounds.endsPoll_of_begun hpoll (by simp)] at hends
  | endElsewhere hpc => exact ⟨hpc, h.coreplugin, rfl, hstop, hdrain.1, hdrain.2, hstale⟩
  | _ => cases hends

variable {stream : κ} {t : PollRounds.Sys κ} (plugin : PluginPtr)

/-- The loop over the streams comes to an open stream, and finds it open. -/
theorem run_sends_to {p : PollRounds.Sys κ} {todo : List κ} {visits : List (κ × State)}
    {success : Bool} (hpc : p.pc = .sending todo visits success) (hmem : stream ∈ todo)
    (hopen : (p.stream stream).state = .WRITE) :
    ∃ n t todo' visits' success',
      (PollRounds.spec κ plugin).run p (List.replicate n .send) = some t ∧
      t.pc = .sending (stream :: todo') visits' success' ∧ (t.stream stream).state = .WRITE := by
  induction todo generalizing p visits success with
  | nil => cases hmem
  | cons st todo ih =>
    by_cases hst : st = stream
    · subst hst
      exact ⟨0, p, todo, visits, success, rfl, hpc, hopen⟩
    · let p' : PollRounds.Sys κ := { p with
        stream := Function.update p.stream st
          ((p.stream st).sendEvents p.data.mPluginToClientsData).2.1
        writes := p.writes ++
          PollRounds.writesOf st ((p.stream st).sendEvents p.data.mPluginToClientsData).2.2
        pc := .sending todo (visits ++ [(st, (p.stream st).state)])
          (success || ((p.stream st).sendEvents p.data.mPluginToClientsData).1) }
      have hstep : (PollRounds.spec κ plugin).step p .send = some p' := by
        simp [PollRounds.spec, PollRounds.step, hpc, p']
      have hmem' : stream ∈ todo := (List.mem_cons.mp hmem).resolve_left (Ne.symm hst)
      have hopen' : (p'.stream stream).state = .WRITE := by
        simp only [p', Function.update_of_ne (Ne.symm hst)]
        exact hopen
      rcases ih (p := p') rfl hmem' hopen' with ⟨n, t, todo', visits', success', hrun, hend⟩
      exact ⟨n + 1, t, todo', visits', success',
        ((PollRounds.spec κ plugin).run_cons_of_step hstep _).trans hrun, hend⟩

/-- Pops and sends only add to the response. -/
theorem run_lift {ms : List (Lbl κ)} (hms : ∀ l ∈ ms, l = .pop ∨ l = .send)
    (hrun : (PollRounds.spec κ plugin).run s.poll ms = some t) :
    ∃ s', (spec κ plugin).run s ms = some s' ∧ s'.poll = t ∧ s'.joined = s.joined ∧
      s.response ⊆ s'.response := by
  induction ms generalizing s with
  | nil =>
    cases hrun
    exact ⟨s, rfl, rfl, rfl, List.Subset.refl _⟩
  | cons l ms ih =>
    rcases (PollRounds.spec κ plugin).run_cons hrun with ⟨p, hp, hrest⟩
    have hstep : (spec κ plugin).step s l = some (stamp s l p) :=
      Option.map_eq_some_iff.mpr ⟨p, hp, rfl⟩
    have hkeeps : (stamp s l p).joined = s.joined ∧ s.response ⊆ (stamp s l p).response := by
      rcases hms l List.mem_cons_self with rfl | rfl
      · unfold stamp
        cases s.poll.pc <;> exact ⟨rfl, by simp [popInto]⟩
      · exact ⟨rfl, List.Subset.refl _⟩
    rw [← stamp_poll s l p] at hrest
    rcases ih (fun m hm => hms m (List.mem_cons_of_mem _ hm)) hrest with
      ⟨s', hrun', hpoll, hjoined, hsub⟩
    exact ⟨s', ((spec κ plugin).run_cons_of_step hstep ms).trans hrun', hpoll,
      hjoined.trans hkeeps.1, List.Subset.trans hkeeps.2 hsub⟩

/-- A client connects, and an event is pushed. -/
def reconnect (stream : κ) : List (Lbl κ) :=
  [.removeStream stream, .addStream stream, .setStream stream { state := .WRITE },
    .tryStartPolling (some 0), .pushMain {}]

/-- A session with an open stream that has just connected, and an event to send. -/
structure Reconnected (s : Sys κ) (stream : κ) (s' : Sys κ) : Prop where
  idle : s'.poll.pc = .idle
  continues : s'.poll.data.endsPoll true = false
  process : s'.poll.data.mPluginProcessToClientsQueue.elems = []
  main : s'.poll.data.mPluginMainToClientsQueue.elems = [{}]
  mem : stream ∈ s'.poll.data.streams.toList
  isOpen : (s'.poll.stream stream).state = .WRITE
  joined : s'.joined stream = s.ended
  response : s'.response = s.response

theorem run_reconnect (h : Left s) (stream : κ) :
    ∃ s', (spec κ plugin).run s (reconnect stream) = some s' ∧ Reconnected s stream s' := by
  let d1 := (s.poll.data.removeStream stream).2
  let d2 := (d1.addStream stream).2
  let d3 := { d2 with mServerStreamCq := some 0, pollRunning := true }
  let s1 := { s with poll := { s.poll with data := d1 } }
  let s2 := { s with
    poll := { s.poll with data := d2 }, joined := Function.update s.joined stream s.ended }
  let s3 := { s2 with
    poll := { s2.poll with stream := Function.update s.poll.stream stream { state := .WRITE } } }
  let s4 := { s3 with poll := { s3.poll with data := d3 } }
  let s5 := { s4 with
    poll := { s4.poll with data := (d3.pushMain {}).2 }
    main := (s.main.pushOverwrite (s.ended, {})).2 }
  have hadded : (d1.addStream stream).1 = true := by
    refine OrdMap.emplace_fst_of_not_mem ?_ ()
    simp [d1, SharedData.removeStream]
  have hmem : stream ∈ d2.streams.toList := OrdMap.mem_keys_emplace.mpr (Or.inl rfl)
  have hvalid : d2.isValid = true := by
    simp only [SharedData.isValid, Bool.and_eq_true, Bool.not_eq_true']
    exact ⟨h.coreplugin, List.isEmpty_eq_false_iff.mpr (List.ne_nil_of_mem hmem)⟩
  have hstart : d2.tryStartPolling (some 0) = (true, d3, some mPollFreqNs) := by
    have hrunning : d2.pollRunning = false := h.pollRunning
    simp [SharedData.tryStartPolling, hvalid, hrunning, d3]
  have h1 : step s (.removeStream stream) = some s1 :=
    Option.map_eq_some_iff.mpr ⟨_, PollRounds.between_of_idle h.idle _, rfl⟩
  have h2 : step s1 (.addStream stream) = some s2 := by
    refine Option.map_eq_some_iff.mpr ⟨_, PollRounds.between_of_idle h.idle _, ?_⟩
    simp only [stamp]
    rw [show (s1.poll.data.addStream stream).1 = true from hadded, if_pos rfl]
  have h3 : (spec κ plugin).step s2 (.setStream stream { state := .WRITE }) = some s3 := rfl
  have h4 : step s3 (.tryStartPolling (some 0)) = some s4 := by
    refine Option.map_eq_some_iff.mpr
      ⟨_, PollRounds.between_of_idle (s := s3.poll) h.idle _, ?_⟩
    rw [show s3.poll.data.tryStartPolling (some 0) = _ from hstart]
    rfl
  refine ⟨s5, ?_, ?_⟩
  · rw [reconnect, (spec κ plugin).run_cons_of_step h1, (spec κ plugin).run_cons_of_step h2,
      (spec κ plugin).run_cons_of_step h3, (spec κ plugin).run_cons_of_step h4]
    rfl
  · constructor
    · exact h.idle
    · have hcoreplugin : d3.coreplugin.isNone = false :=
        Option.isNone_eq_false_iff.mpr h.coreplugin
      have hstreams : d3.streams.toList.isEmpty = false :=
        List.isEmpty_eq_false_iff.mpr (List.ne_nil_of_mem hmem)
      have hstop : d3.pollStop = false := h.pollStop
      show d3.endsPoll true = false
      rw [SharedData.endsPoll, hcoreplugin, hstreams, hstop]
      rfl
    · exact congrArg BoundedFifo.elems h.process
    · have hmain : d3.mPluginMainToClientsQueue = .empty := h.main
      show (d3.mPluginMainToClientsQueue.pushOverwrite {}).2.elems = [{}]
      rw [hmain]
      rfl
    · exact hmem
    · simp [s5, s4, s3]
    · simp [s5, s4, s3, s2]
    · rfl

/-- The next round comes to send what was left behind to the stream that has just connected. -/
theorem run_to_send {s' : Sys κ} (hrec : Reconnected s stream s') :
    ∃ ms s'', (∀ l ∈ ms, l = .pop ∨ l = .send) ∧
      (spec κ plugin).run s' (.callback true true :: ms) = some s'' ∧
      (∃ todo visits success, s''.poll.pc = .sending (stream :: todo) visits success) ∧
      (s''.poll.stream stream).state = .WRITE ∧ s''.joined stream = s.ended ∧
      s.response ⊆ s''.response := by
  let p := { s'.poll with pc := .consumeProcess 0, round := s'.poll.round + 1 }
  have hbegun : (spec κ plugin).step s' (.callback true true) = some { s' with poll := p } := by
    refine Option.map_eq_some_iff.mpr ⟨p, ?_, ?_⟩
    · simp [PollRounds.step, hrec.idle, hrec.continues, p]
    · simp [stamp, ends, hrec.continues]
  -- nothing in the process queue, one event in the main queue
  rcases PollRounds.run_consumeProcess plugin (s := p) rfl hrec.process with ⟨es, hprocess⟩
  let q := { p with
    data := { p.data with
      mPluginToClientsData := p.data.mPluginToClientsData ++ [].map ServerEventWrapper.toServerEvent
      mPluginProcessToClientsQueue := .empty }
    popped := es
    pc := .consumeMain 0 0 }
  rcases PollRounds.run_consumeMain plugin (s := q) rfl hrec.main with ⟨es', hmain⟩
  let r := { q with
    data := { q.data with
      mPluginToClientsData := q.data.mPluginToClientsData ++
        [({} : ServerEventWrapper)].map ServerEventWrapper.toServerEvent
      mPluginMainToClientsQueue := .empty }
    popped := es'
    pc := .sending q.data.streams.toList [] false }
  rcases run_sends_to plugin (p := r) rfl hrec.mem hrec.isOpen with
    ⟨n, t, todo, visits, success, hsends, hpc, hopen⟩
  let ms : List (Lbl κ) :=
    List.replicate 1 Lbl.pop ++ (List.replicate 2 Lbl.pop ++ List.replicate n Lbl.send)
  have hms : ∀ l ∈ ms, l = .pop ∨ l = .send := by
    intro l hl
    simp only [ms, List.mem_append, List.mem_replicate] at hl
    rcases hl with ⟨-, rfl⟩ | ⟨-, rfl⟩ | ⟨-, rfl⟩
    · exact Or.inl rfl
    · exact Or.inl rfl
    · exact Or.inr rfl
  have hrun : (PollRounds.spec κ plugin).run p ms = some t := by
    rw [(PollRounds.spec κ plugin).run_append]
    refine (congrArg (Option.bind · _) hprocess).trans ?_
    refine ((PollRounds.spec κ plugin).run_append q _ _).trans ?_
    exact (congrArg (Option.bind · _) hmain).trans hsends
  rcases run_lift (s := { s' with poll := p }) plugin hms hrun with
    ⟨s'', hrun', hpoll, hjoined, hsub⟩
  refine ⟨ms, s'', hms, ((spec κ plugin).run_cons_of_step hbegun ms).trans hrun', ?_, ?_, ?_, ?_⟩
  · rw [hpoll]
    exact ⟨todo, visits, success, hpc⟩
  · rw [hpoll]
    exact hopen
  · rw [hjoined]
    exact hrec.joined
  · rw [← hrec.response]
    exact hsub

/-- From an end that leaves something behind, a stream that connects later can be sent it. -/
theorem exists_stale (h : Left s) (stream : κ) :
    ∃ ms t t', (spec κ plugin).run s ms = some t ∧ (spec κ plugin).step t .send = some t' ∧
      (spec κ plugin).AllSteps (fun s l _ => ends s.poll l = false) s (ms ++ [.send]) ∧
        ¬ Fresh t .send t' := by
  rcases run_reconnect plugin h stream with ⟨s', hrun, hrec⟩
  rcases run_to_send plugin hrec with
    ⟨ms, t, hms, hround, ⟨todo, visits, success, hpc⟩, hopen, hjoined, hsub⟩
  have hstep : ∃ t', (spec κ plugin).step t .send = some t' := by
    simp only [spec, step, PollRounds.step, hpc]
    exact ⟨_, rfl⟩
  rcases hstep with ⟨t', hstep⟩
  refine ⟨reconnect stream ++ .callback true true :: ms, t, t', ?_, hstep, ?_, ?_⟩
  · rw [(spec κ plugin).run_append, hrun]
    exact hround
  · rw [List.append_assoc]
    refine (spec κ plugin).allSteps_append.mpr ⟨?_, ?_⟩
    · exact fun _ _ => ⟨rfl, fun _ _ => ⟨rfl, fun _ _ => ⟨rfl, fun _ _ => ⟨rfl, fun _ _ =>
        ⟨rfl, trivial⟩⟩⟩⟩⟩
    · intro u hu
      cases hrun.symm.trans hu
      intro u' _
      refine ⟨by simp [ends, hrec.continues], ?_⟩
      apply (spec κ plugin).allSteps_of_steps
      intro ps l v v' hps _ _
      have hl : l ∈ ms ++ [.send] := hps.subset (by simp)
      rcases List.mem_append.mp hl with hl | hl
      · rcases hms l hl with rfl | rfl
        · rfl
        · rfl
      · rw [List.mem_singleton.mp hl]
        rfl
  · intro hfresh
    rcases h.stale with ⟨e, he, hlt⟩
    have hle := (hfresh rfl stream todo visits success hpc hopen).2 e (hsub he)
    rw [hjoined] at hle
    omega

end Left

/-- No stream is sent an event from before the end of a session it was not yet part of, in a
run and in all that may follow at any of its points up to the next end, exactly when polling
always ends with nothing in the response, or for good. -/
theorem fresh_iff (plugin : PluginPtr) (stream : κ) (ls : List (Lbl κ)) :
    (∀ ps ms, ps <+: ls → (∀ t, (spec κ plugin).run (init κ plugin) ps = some t →
        (spec κ plugin).AllSteps (fun s l _ => ends s.poll l = false) t ms) →
      (spec κ plugin).AllSteps Fresh (init κ plugin) (ps ++ ms)) ↔
      (spec κ plugin).AllSteps (fun s l _ => Emptied s l) (init κ plugin) ls := by
  have hgood : ∀ (s : Sys κ) l s', Current s → Emptied s l → step s l = some s' →
      Current s' ∧ Fresh s l s' :=
    fun s l s' h hcond hstep => ⟨step_current h hcond hstep, h.fresh l s'⟩
  constructor
  · intro hfresh
    apply (spec κ plugin).allSteps_of_first
    intro ps l t t' hps hall hrun hstep
    -- a first end that leaves something behind would be followed by a stale send
    by_contra hcond
    have hcurrent : Current t := (spec κ plugin).allSteps_invariant Current
      (fun s l s' h hc hstep => (hgood s l s' h hc hstep).1) (init_current plugin) hall hrun
    rcases exists_stale plugin (left_of_ended hcurrent hcond hstep) stream with
      ⟨ms, u, u', hrun', hsend, hends, hstale⟩
    have hrunl : (spec κ plugin).run (init κ plugin) (ps ++ [l]) = some t' := by
      rw [(spec κ plugin).run_append, hrun]
      exact (spec κ plugin).run_cons_of_step hstep []
    have hall' := hfresh (ps ++ [l]) (ms ++ [.send]) hps ?_
    · rw [← List.append_assoc] at hall'
      refine hstale ((spec κ plugin).allSteps_last hall' ?_ hsend)
      rw [(spec κ plugin).run_append, hrunl]
      exact hrun'
    · intro v hv
      cases hrunl.symm.trans hv
      exact hends
  · rintro hcond ps ms ⟨rest, rfl⟩ hends
    refine (spec κ plugin).allSteps_imp (C := fun s l _ => Emptied s l) Current hgood
      (init_current plugin) ?_
    refine (spec κ plugin).allSteps_append.mpr ⟨((spec κ plugin).allSteps_append.mp hcond).1, ?_⟩
    intro t ht
    refine (spec κ plugin).allSteps_imp (fun _ => True) ?_ trivial (hends t ht)
    intro s l s' _ hno _
    refine ⟨trivial, ?_⟩
    intro hend
    cases hno.symm.trans hend

/-- A round pops an event while its only stream is still connecting; the stream goes, polling
ends, and a client that connects then is sent the event. -/
theorem fresh_fails : ¬ ∀ (plugin : PluginPtr) (ls : List (Lbl Nat)),
    (spec Nat plugin).AllSteps Fresh (init Nat plugin) ls := by
  intro h
  have hlast := (spec Nat 1).forall_allSteps_last (h 1)
    [.addStream 7, .tryStartPolling (some 0), .pushProcess { ev := .note },
      .callback true true, .pop, .pop, .pop, .send, .finish, .removeStream 7,
      .callback true true, .addStream 8, .setStream 8 { state := .WRITE },
      .tryStartPolling (some 0), .pushMain {}, .callback true true, .pop, .pop, .pop]
    .send rfl rfl
  have hstale := (hlast rfl 8 [] [] false (by decide) (by decide)).2
  exact absurd hstale (by decide)

end ClapRci.PollSessions
