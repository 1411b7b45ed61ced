import ClapRci.Plugin.ClientView
import ClapRci.Server.PollChannel

/-!
# From the host to a client (`plugin/coreplugin.cpp`, `server/shareddata.h`)

Blocks of `process()` and calls of the host on one side, the poll loop and a stream that is
open throughout on the other, clients that set parameters in between. The way of an event goes
through the block schedule, `processEvent`, a queue, the consume loop, the response and the
loop over the streams.

* `pushes_eq`: what `processEvent` pushes for an event does not depend on the values that the
  parameters have by then;
* `host_events_delivered`: the stream is handed what the host sent, each queue in its order and
  nothing twice, and all of it exactly if every push finds room and no `endCallback` finds an
  event.
-/

namespace ClapRci.ClientView

open EnqueueAuxiliaries (ClapParamInfo paramInfoEvent)
open HostEvents (Outcome processEvent)
open PollRounds (Drains Popped Source)
open scoped List

/-! ## What the host sends -/

/-- The event pushed, if any. -/
def Outcome.pushed : Outcome → Option ServerEventWrapper
  | .done _ pushed => pushed
  | .terminated => none

/-- What `processEvent` pushes for a host event. -/
def pushes (params : ParamStore) (ev : InEvent) : Option ServerEventWrapper :=
  Outcome.pushed (processEvent params ev.coreSpace ev.ev)

section Labels

variable {κ : Type} [LinearOrder κ]

/-- The host events that the loop of `process` gets to. -/
def Lbl.given : Lbl κ → List InEvent
  | .process frames_count in_events => blockEvents frames_count.toNat 0 in_events
  | _ => []

/-- What the main thread pushes. -/
def Lbl.mainPushes : Lbl κ → List ServerEventWrapper
  | .call c => c.pushes.toList
  | .paramInfo info => [paramInfoEvent info]
  | _ => []

/-- The events a step pushes towards a queue. -/
def pushed (source : Source) (s : Sys κ) (l : Lbl κ) : List ServerEventWrapper :=
  match source, l with
  | .process, .processEvent => (s.nextEvent.bind (pushes s.client.params)).toList
  | .process, _ => []
  | .main, l => l.mainPushes

/-- The step loses no event of the queue: a push finds room, an `endCallback` finds nothing. -/
structure KeepsQueue (source : Source) (s : Sys κ) (l : Lbl κ) : Prop where
  push : pushed source s l ≠ [] → (s.poll.queue source).length < 64
  endCallback : drains s l → s.poll.queue source = []

/-- The pushes towards a queue, where these host events were processed in a run. -/
def sentTo (params : ParamStore) (processed : List InEvent) (ls : List (Lbl κ)) :
    Source → List ServerEventWrapper
  | .process => processed.filterMap (pushes params)
  | .main => ls.flatMap Lbl.mainPushes

end Labels

/-- The events that were popped from a queue. -/
def ofSource (source : Source) (got : List Popped) : List ServerEventWrapper :=
  (got.filter fun e => e.source = source).map (·.ev)

/-! ## The names of the parameters -/

/-- The ids and pointers by which events find parameters. -/
structure SameNames (params params' : Params) : Prop where
  hashed : params'.paramsHashed = params.paramsHashed
  deref : ∀ ptr, (params'.deref ptr).map (·.m_info.id) = (params.deref ptr).map (·.m_info.id)

section Names

variable {params params' params'' : ParamStore}

theorem SameNames.refl (params : Params) : SameNames params params := ⟨rfl, fun _ => rfl⟩

theorem SameNames.trans {params params' params'' : Params} (h : SameNames params params')
    (h' : SameNames params' params'') : SameNames params params'' :=
  ⟨h'.hashed.trans h.hashed, fun ptr => (h'.deref ptr).trans (h.deref ptr)⟩

/-- A method that keeps `this` and `m_info` keeps the names. -/
theorem SameNames.modify (params : ParamStore) (ptr : ParameterPtr) {f : Parameter → Parameter}
    (hcookie : ∀ p, (f p).cookie = p.cookie) (hinfo : ∀ p, (f p).m_info = p.m_info) :
    SameNames params.toParams (params.modify ptr f hcookie hinfo).toParams := by
  refine ⟨rfl, ?_⟩
  intro ptr'
  rw [show (params.modify ptr f hcookie hinfo).toParams = params.toParams.modify ptr f from rfl,
    Params.deref_modify _ _ _ hcookie]
  split
  · rename_i hptr
    simp [hptr, Function.comp_def, hinfo]
  · rfl

theorem sameNames_setValue (params : ParamStore) (ptr : ParameterPtr) (value : Double) :
    SameNames params.toParams (params.setValue ptr value).toParams :=
  SameNames.modify params ptr (f := fun p => p.setValue value) (fun _ => rfl) fun _ => rfl

theorem sameNames_setModulation (params : ParamStore) (ptr : ParameterPtr)
    (modulation : Double) :
    SameNames params.toParams (params.setModulation ptr modulation).toParams :=
  SameNames.modify params ptr (f := fun p => p.setModulation modulation) (fun _ => rfl)
    fun _ => rfl

theorem sameNames_processGuiEvent (params : ParamStore) (clientEv : ClientParamWrapper) :
    SameNames params.toParams (ClientParams.processGuiEvent params clientEv).1.toParams := by
  unfold ClientParams.processGuiEvent
  split
  · split
    · exact SameNames.refl _
    · exact sameNames_setValue params _ _
  · exact SameNames.refl _
  · exact SameNames.refl _
  · exact SameNames.refl _

/-- The two parameter cases of `processEvent`. -/
theorem pushed_processParamEvent (h : SameNames params.toParams params'.toParams)
    (cookie : Option ParameterPtr) (id : UInt32) (apply apply' : ParameterPtr → ParamStore)
    (wrapper : ClapEventParamWrapper) :
    Outcome.pushed (HostEvents.processParamEvent params' cookie id apply' wrapper) =
      Outcome.pushed (HostEvents.processParamEvent params cookie id apply wrapper) := by
  have hptr : HostEvents.eventParameter params' cookie id =
      HostEvents.eventParameter params cookie id := by
    simp [HostEvents.eventParameter, Params.getParameterById, h.hashed]
  unfold HostEvents.processParamEvent
  rw [hptr]
  cases HostEvents.eventParameter params cookie id with
  | none => rfl
  | some ptr =>
    have hid := h.deref ptr
    cases hp : params.deref ptr with
    | none =>
      rw [hp] at hid
      simp only [Option.map_eq_none_iff.mp hid, hp]
    | some p =>
      rw [hp] at hid
      rcases Option.map_eq_some_iff.mp hid with ⟨p', hp', hsame⟩
      simp only [hp', hp, hsame]
      split <;> rfl

/-- What is pushed for an event is decided by the names. -/
theorem pushes_eq (h : SameNames params.toParams params'.toParams) :
    pushes params' = pushes params := by
  funext ev
  rcases ev with ⟨time, coreSpace, ev⟩
  cases coreSpace with
  | false => rfl
  | true =>
    cases ev with
    | paramValue evParam => exact pushed_processParamEvent h _ _ _ _ _
    | paramMod evParam => exact pushed_processParamEvent h _ _ _ _ _
    | _ => rfl

/-- `processEvent` keeps the names. -/
theorem sameNames_processEvent {coreSpace : Bool} {ev : Clap.Event}
    {w : Option ServerEventWrapper} (h : processEvent params coreSpace ev = .done params' w) :
    SameNames params.toParams params'.toParams := by
  have hparam : ∀ {cookie id apply wrapper},
      (∀ ptr, SameNames params.toParams (apply ptr : ParamStore).toParams) →
      HostEvents.processParamEvent params cookie id apply wrapper = .done params' w →
      SameNames params.toParams params'.toParams := by
    intro cookie id apply wrapper happly h
    unfold HostEvents.processParamEvent at h
    split at h
    · cases h
      exact SameNames.refl _
    · split at h
      · cases h
      · split at h
        · cases h
        · cases h
          exact happly _
  unfold processEvent at h
  split at h
  · cases h
    exact SameNames.refl _
  · cases ev with
    | paramValue ev =>
      exact hparam (fun ptr => sameNames_setValue params ptr ev.value) h
    | paramMod ev =>
      exact hparam (fun ptr => sameNames_setModulation params ptr ev.amount) h
    | _ =>
      cases h
      exact SameNames.refl _

end Names

/-! ## The block schedule -/

section Schedule

variable {κ : Type} [LinearOrder κ] {stream : κ} {s s' : Sys κ}

/-- The names are those of the start, and what a step takes off the events that the host has
given is what it processes. -/
theorem step_schedule {params : ParamStore} {l : Lbl κ}
    (hnames : SameNames params.toParams s.client.params.toParams)
    (hstep : step stream s l = some s') :
    SameNames params.toParams s'.client.params.toParams ∧
      ∃ processed, s.todo.getD [] ++ l.given = processed ++ s'.todo.getD [] ∧
        pushed .process s l = processed.filterMap (pushes params) := by
  have hclient : ∀ {m client}, ClientParams.step s.client m = some client →
      SameNames params.toParams client.params.toParams := by
    intro m client hm
    cases ClientParams.step_moves hm with
    | popped => exact hnames.trans (sameNames_processGuiEvent _ _)
    | _ => exact hnames
  cases l with
  | process frames_count in_events =>
    simp only [step] at hstep
    split at hstep
    · cases hstep
    split at hstep
    · cases hstep
    · rename_i htodo
      rcases Option.map_eq_some_iff.mp hstep with ⟨client, hm, rfl⟩
      rw [Bool.not_eq_true, Option.isSome_eq_false_iff, Option.isNone_iff_eq_none] at htodo
      exact ⟨hclient hm, [], by simp [Lbl.given, htodo], rfl⟩
  | turn ok =>
    simp only [step] at hstep
    split at hstep
    · cases hstep
    · rcases Option.map_eq_some_iff.mp hstep with ⟨client, hm, rfl⟩
      exact ⟨hclient hm, [], by simp [Lbl.given], rfl⟩
  | processEvent =>
    simp only [step] at hstep
    split at hstep
    · cases hstep
    split at hstep
    · cases hstep
    split at hstep
    · cases hstep
    · rename_i htodo
      cases hstep
      exact ⟨hnames, [], by simp [Lbl.given, htodo], by simp [pushed, Sys.nextEvent, htodo]⟩
    · rename_i ev todo htodo
      have hpushed : pushed .process s .processEvent = (pushes params ev).toList := by
        simp [pushed, Sys.nextEvent, htodo, pushes_eq hnames]
      cases hout : processEvent s.client.params ev.coreSpace ev.ev with
      | terminated =>
        -- nothing is pushed, and the event is not done with
        rw [hout] at hstep
        cases hstep
        refine ⟨hnames, [], by simp [Lbl.given], ?_⟩
        rw [hpushed, ← pushes_eq hnames, pushes, hout]
        rfl
      | done params' w =>
        rw [hout] at hstep
        cases hstep
        refine ⟨hnames.trans (sameNames_processEvent hout), [ev], ?_, ?_⟩
        · simp [Lbl.given, htodo]
        · rw [hpushed]
          cases hev : pushes params ev <;> simp [hev]
  | client m =>
    simp only [step] at hstep
    split at hstep
    · cases hstep
    split at hstep
    · rcases Option.map_eq_some_iff.mp hstep with ⟨client, hm, rfl⟩
      exact ⟨hclient hm, [], by simp [Lbl.given], rfl⟩
    · cases hstep
  | call c =>
    simp only [step] at hstep
    split at hstep
    · cases hstep
    · cases hstep
      cases hpushes : c.pushes with
      | none => exact ⟨hnames, [], by simp [Lbl.given], rfl⟩
      | some ev => exact ⟨hnames, [], by simp [Lbl.given], rfl⟩
  | paramInfo info =>
    simp only [step] at hstep
    split at hstep
    · cases hstep
    · cases hstep
      exact ⟨hnames, [], by simp [Lbl.given], rfl⟩
  | poll m =>
    rcases poll_step hstep with ⟨-, poll, -, -, rfl⟩
    exact ⟨hnames, [], by simp [Lbl.given], rfl⟩

/-- Along a run, the host events are processed in the order in which the blocks give them. -/
theorem run_schedule {plugin : PluginPtr} {cq : CqHandle} {store : KeyedStore}
    {params : ParamStore} {t : Sys κ} {ls : List (Lbl κ)}
    (hnames : SameNames params.toParams s.client.params.toParams)
    (hrun : (spec plugin cq store stream).run s ls = some t) :
    ∃ processed, s.todo.getD [] ++ ls.flatMap Lbl.given = processed ++ t.todo.getD [] ∧
      (spec plugin cq store stream).outputs (pushed .process) s ls =
        processed.filterMap (pushes params) := by
  induction ls generalizing s with
  | nil =>
    cases hrun
    exact ⟨[], by simp, rfl⟩
  | cons l ls ih =>
    rcases (spec plugin cq store stream).run_cons hrun with ⟨s', hstep, hrest⟩
    rcases step_schedule hnames hstep with ⟨hnames', now, hnow, hpushed⟩
    rcases ih hnames' hrest with ⟨later, hlater, houtputs⟩
    refine ⟨now ++ later, ?_, ?_⟩
    · rw [List.flatMap_cons, ← List.append_assoc, hnow, List.append_assoc, hlater,
        List.append_assoc]
    · rw [(spec plugin cq store stream).outputs_cons_of_step _ hstep, hpushed, houtputs,
        List.filterMap_append]

end Schedule

/-! ## The queues -/

section Queues

variable {κ : Type} [LinearOrder κ] {stream : κ} {s s' : Sys κ} {source : Source}
  {sent : List ServerEventWrapper} {l : Lbl κ}

/-- A host event is processed: nothing is pushed, or one event to the process queue. -/
theorem poll_moves_processEvent (hstep : step stream s .processEvent = some s') :
    (s'.poll = s.poll ∧ ∀ source, pushed source s (.processEvent : Lbl κ) = []) ∨
      ∃ w, s'.poll = { s.poll with data := (s.poll.data.pushProcess w).2 } ∧
        ∀ source, (PollRounds.Lbl.pushProcess w : PollRounds.Lbl κ).pushed source =
          pushed source s (.processEvent : Lbl κ) := by
  simp only [step] at hstep
  split at hstep
  · cases hstep
  split at hstep
  · cases hstep
  split at hstep
  · cases hstep
  · rename_i htodo
    cases hstep
    refine Or.inl ⟨rfl, ?_⟩
    intro source
    cases source with
    | process => simp [pushed, Sys.nextEvent, htodo]
    | main => rfl
  · rename_i ev todo htodo
    have hpushed : pushed .process s .processEvent =
        (pushes s.client.params ev).toList := by simp [pushed, Sys.nextEvent, htodo]
    cases hout : processEvent s.client.params ev.coreSpace ev.ev with
    | terminated =>
      rw [hout] at hstep
      cases hstep
      refine Or.inl ⟨rfl, ?_⟩
      intro source
      cases source with
      | process => simp [hpushed, pushes, hout, Outcome.pushed]
      | main => rfl
    | done params' w =>
      rw [hout] at hstep
      cases hstep
      simp only [pushes, hout, Outcome.pushed] at hpushed
      cases w with
      | none =>
        refine Or.inl ⟨rfl, ?_⟩
        intro source
        cases source with
        | process => exact hpushed
        | main => rfl
      | some w =>
        refine Or.inr ⟨w, rfl, ?_⟩
        intro source
        cases source with
        | process => exact hpushed.symm
        | main => rfl

/-- What a step does to the poll loop: nothing, or a step of its own with the same pushes, which
is such a push or the step itself. -/
theorem poll_moves (hstep : step stream s l = some s') :
    (s'.poll = s.poll ∧ (∀ source, pushed source s l = []) ∧ ¬ drains s l) ∨
      ∃ m, PollRounds.step s.poll m = some s'.poll ∧
        (∀ source, m.pushed source = pushed source s l) ∧ (Drains s.poll m ↔ drains s l) ∧
        (isPush m = true ∨ l = .poll m) := by
  cases l with
  | process frames_count in_events =>
    simp only [step] at hstep
    split at hstep
    · cases hstep
    split at hstep
    · cases hstep
    · rcases Option.map_eq_some_iff.mp hstep with ⟨client, -, rfl⟩
      exact Or.inl ⟨rfl, fun source => by cases source <;> rfl, id⟩
  | turn ok =>
    simp only [step] at hstep
    split at hstep
    · cases hstep
    · rcases Option.map_eq_some_iff.mp hstep with ⟨client, -, rfl⟩
      exact Or.inl ⟨rfl, fun source => by cases source <;> rfl, id⟩
  | processEvent =>
    rcases poll_moves_processEvent hstep with ⟨hpoll, hnone⟩ | ⟨w, hpoll, hpushed⟩
    · exact Or.inl ⟨hpoll, hnone, id⟩
    · exact Or.inr ⟨.pushProcess w, congrArg some hpoll.symm, hpushed, Iff.rfl, Or.inl rfl⟩
  | client m =>
    simp only [step] at hstep
    split at hstep
    · cases hstep
    split at hstep
    · rcases Option.map_eq_some_iff.mp hstep with ⟨client, -, rfl⟩
      exact Or.inl ⟨rfl, fun source => by cases source <;> rfl, id⟩
    · cases hstep
  | call c =>
    simp only [step] at hstep
    split at hstep
    · cases hstep
    · cases hstep
      cases hpushes : c.pushes with
      | none =>
        refine Or.inl ⟨rfl, ?_, id⟩
        intro source
        cases source with
        | process => rfl
        | main => simp [pushed, Lbl.mainPushes, hpushes]
      | some ev =>
        refine Or.inr ⟨.pushMain ev, rfl, ?_, Iff.rfl, Or.inl rfl⟩
        intro source
        cases source with
        | process => rfl
        | main => simp [pushed, Lbl.mainPushes, hpushes, PollRounds.Lbl.pushed]
  | paramInfo info =>
    simp only [step] at hstep
    split at hstep
    · cases hstep
    · cases hstep
      exact Or.inr ⟨.pushMain (paramInfoEvent info), rfl,
        fun source => by cases source <;> rfl, Iff.rfl, Or.inl rfl⟩
  | poll m =>
    rcases poll_step hstep with ⟨hpush, poll, hpoll, -, rfl⟩
    refine Or.inr ⟨m, hpoll, ?_, Iff.rfl, Or.inr rfl⟩
    intro source
    cases m with
    | pushProcess ev | pushMain ev => cases hpush
    | _ => cases source <;> rfl

/-- The step is a run of the channel of the queue, without a loss exactly if it loses none of its
events. -/
theorem step_carried (hstep : step stream s l = some s') :
    ∃ ms, (LossyChannel.spec ServerEventWrapper).run
        ⟨sent, s.poll.queue source, s.poll.poppedFrom source⟩ ms =
        some ⟨sent ++ pushed source s l, s'.poll.queue source, s'.poll.poppedFrom source⟩ ∧
      (KeepsQueue source s l ↔ ms.countP LossyChannel.Lbl.isDrop = 0) := by
  rcases poll_moves hstep with ⟨hpoll, hnone, hdrains⟩ | ⟨m, hm, hpushed, hdrains, -⟩
  · refine ⟨[], ?_, ?_⟩
    · rw [hpoll, hnone, List.append_nil]
      rfl
    · have hkeeps : KeepsQueue source s l :=
        ⟨fun h => absurd (hnone source) h, fun h => absurd h hdrains⟩
      simpa using hkeeps
  · obtain ⟨ms, hms, hkeeps⟩ := @PollRounds.step_carried κ _ s.poll s'.poll source sent m hm
    rw [PollRounds.keeps_iff, hpushed, hdrains] at hkeeps
    rw [hpushed] at hms
    exact ⟨ms, hms, Iff.trans ⟨fun h => ⟨h.push, h.endCallback⟩, fun h => ⟨h.1, h.2⟩⟩ hkeeps⟩

/-- The way from the host to the consume loop, of either queue. -/
def carries (plugin : PluginPtr) (cq : CqHandle) (params : KeyedStore) (stream : κ)
    (source : Source) :
    LossyChannel.Carries (spec plugin cq params stream) ServerEventWrapper where
  Inv _ := True
  sends := pushed source
  pending s := s.poll.queue source
  received s := s.poll.poppedFrom source
  Keeps s l _ := KeepsQueue source s l
  inv _ _ _ _ _ := trivial
  sim _ _ _ _ _ hstep := step_carried hstep

end Queues

/-! ## The stream -/

section Stream

variable {κ : Type} [LinearOrder κ] {stream : κ} {p : PollRounds.Sys κ}

/-- What the open stream has been handed is what was popped, up to the response under way. -/
theorem Open.handed (h : Open stream p) :
    ∃ got, got <+: p.popped ∧
      (p.handed stream).flatten = got.map (fun e => e.ev.toServerEvent) ∧
      (p.pc = .idle → p.data.mPluginToClientsData = [] → got = p.popped) := by
  have hall : (p.rounds.filter fun r => r.writable stream) = p.rounds :=
    List.filter_eq_self.mpr h.rounds
  have hnodup : ∀ r ∈ p.rounds, (r.visits.map Prod.fst).Nodup := by
    intro r hr
    rcases h.poll.rounds r hr with ⟨hturns, hnd, -⟩
    rwa [hturns]
  have hflow := h.poll.flow
  -- the rounds that are over, and the one under way
  have hhanded : (p.handed stream).flatten = (p.rounds.map (·.message)).flatten ++
      (((p.pc.writes p.data.mPluginToClientsData).filter fun w => w.1 = stream).map
        Prod.snd).flatten := by
    rw [PollRounds.Sys.handed, h.poll.writes, List.filter_append, List.map_append,
      List.flatten_append, PollRounds.handed_rounds p.rounds hnodup, hall]
  have hprefix : (p.handed stream).flatten <+: p.popped.map fun e => e.ev.toServerEvent := by
    rw [← hflow, hhanded, List.prefix_append_right_inj]
    cases hpc : p.pc with
    | sending todo visits success =>
      have hturn := h.poll.pc
      rw [hpc] at hturn
      have hvisits : (visits.map Prod.fst).Nodup := by
        have hkeys : p.data.streams.toList.Nodup := p.data.streams.keys_nodup
        rw [← hturn.1] at hkeys
        exact (List.nodup_append.mp hkeys).1
      rw [PollRounds.Pc.writes, PollRounds.handed_visitWrites hvisits]
      split <;> simp
    | _ => simp [PollRounds.Pc.writes]
  refine ⟨p.popped.take (p.handed stream).flatten.length, List.take_prefix _ _, ?_, ?_⟩
  · rw [List.map_take]
    exact List.prefix_iff_eq_take.mp hprefix
  · intro hidle hdata
    have hlength : (p.handed stream).flatten.length = p.popped.length := by
      rw [hhanded, hidle]
      simpa [PollRounds.Pc.writes, hdata] using congrArg List.length hflow
    rw [hlength, List.take_length]

end Stream

section Delivered

variable {κ : Type} [LinearOrder κ] {plugin : PluginPtr} {cq : CqHandle} {params : KeyedStore}
  {stream : κ} {ls : List (Lbl κ)} {s : Sys κ} {source : Source}

theorem wired_of_run
    (hrun : (spec plugin cq params stream).run (start plugin cq params stream) ls = some s) :
    Wired stream s :=
  (spec plugin cq params stream).run_invariant (Wired stream)
    (fun _ _ _ h hstep => (h.step hstep).1) (start_inv plugin cq params stream).wired hrun

/-- The pushes of a run are those for the events processed, and those of the calls. -/
theorem outputs_of_run
    (hrun : (spec plugin cq params stream).run (start plugin cq params stream) ls = some s) :
    ∃ processed, ls.flatMap Lbl.given = processed ++ s.todo.getD [] ∧
      ∀ source, (spec plugin cq params stream).outputs (pushed source)
        (start plugin cq params stream) ls = sentTo params.toParamStore processed ls source := by
  rcases run_schedule (SameNames.refl params.toParams) hrun with ⟨processed, hgiven, hprocess⟩
  refine ⟨processed, hgiven, ?_⟩
  intro source
  cases source with
  | process => exact hprocess
  | main => exact (spec plugin cq params stream).outputs_of_label Lbl.mainPushes hrun

theorem popped_sublist
    (hrun : (spec plugin cq params stream).run (start plugin cq params stream) ls = some s)
    (source : Source) :
    s.poll.poppedFrom source <+ (spec plugin cq params stream).outputs (pushed source)
      (start plugin cq params stream) ls := by
  have hall := (carries plugin cq params stream source).sublist_of_run trivial
    (by cases source <;> rfl) (by cases source <;> rfl) hrun
  exact (List.sublist_append_left _ _).trans hall

theorem popped_eq_iff
    (hrun : (spec plugin cq params stream).run (start plugin cq params stream) ls = some s)
    (hqueue : s.poll.queue source = []) :
    s.poll.poppedFrom source = (spec plugin cq params stream).outputs (pushed source)
        (start plugin cq params stream) ls ↔
      (spec plugin cq params stream).AllSteps (fun s l _ => KeepsQueue source s l)
        (start plugin cq params stream) ls := by
  have hiff := (carries plugin cq params stream source).lossless_iff trivial
    (by cases source <;> rfl) (by cases source <;> rfl) hrun
  have hpopped : s.poll.poppedFrom source ++ s.poll.queue source = s.poll.poppedFrom source := by
    rw [hqueue, List.append_nil]
  rw [← hpopped]
  exact hiff

/-- In every run the blocks give the host events in the order in which they are processed, and
the stream is handed events popped from the two queues, those of each queue a subsequence of
what was pushed: by the audio thread for the events processed, by the main thread for the calls.
Once nothing is left on the way from a queue, they are all of it exactly if every push found
room and no `endCallback` an event in it. -/
theorem host_events_delivered
    (hrun : (spec plugin cq params stream).run (start plugin cq params stream) ls = some s) :
    ∃ processed got,
      ls.flatMap Lbl.given = processed ++ s.todo.getD [] ∧
      (s.poll.handed stream).flatten = got.map (fun e => e.ev.toServerEvent) ∧
      got.Pairwise Popped.Before ∧
      ∀ source, ofSource source got <+ sentTo params.toParamStore processed ls source ∧
        (s.poll.pc = .idle → s.poll.data.mPluginToClientsData = [] →
          s.poll.queue source = [] →
          (ofSource source got = sentTo params.toParamStore processed ls source ↔
            (spec plugin cq params stream).AllSteps (fun s l _ => KeepsQueue source s l)
              (start plugin cq params stream) ls)) := by
  have hopen := (wired_of_run hrun).isOpen
  rcases outputs_of_run hrun with ⟨processed, hgiven, houtputs⟩
  rcases hopen.handed with ⟨got, hgot, hhanded, hall⟩
  refine ⟨processed, got, hgiven, hhanded, hopen.poll.order.sublist hgot.sublist, ?_⟩
  intro source
  rw [← houtputs]
  constructor
  · exact ((hgot.sublist.filter _).map _).trans (popped_sublist hrun source)
  · intro hidle hdata hqueue
    rw [hall hidle hdata]
    exact popped_eq_iff hrun hqueue

/-- A note and a value in one block, and a call of the host before they are sent. -/
def noteAndValue : List (Lbl Nat) :=
  [.process 2
      [{ time := 0, coreSpace := true, ev := .noteOn ⟨1, 0, 0, 60, default⟩ },
        { time := 1, coreSpace := true, ev := .paramValue ⟨5, some 1, default⟩ }],
    .turn true, .processEvent, .call .reset, .processEvent, .processEvent,
    .poll (.callback true true), .poll .pop, .poll .pop, .poll .pop, .poll .pop, .poll .pop,
    .poll .send, .poll .finish]

theorem host_events_delivered_note : ∃ s,
    (spec 1 0 (oneParam 5) 7).run (start 1 0 (oneParam 5) 7) noteAndValue = some s ∧
      ∃ got : List Popped, (s.poll.handed 7).flatten = got.map (fun e => e.ev.toServerEvent) ∧
        got.length = 3 := by
  have hval : ((spec 1 0 (oneParam 5) 7).run (start 1 0 (oneParam 5) 7) noteAndValue).map
      (fun s => (s.poll.handed 7).flatten.length) = some 3 := by decide
  rcases Option.map_eq_some_iff.mp hval with ⟨s, hrun, hthree⟩
  rcases host_events_delivered hrun with ⟨-, got, -, hgot, -⟩
  refine ⟨s, hrun, got, hgot, ?_⟩
  rwa [hgot, List.length_map] at hthree

end Delivered

end ClapRci.ClientView
