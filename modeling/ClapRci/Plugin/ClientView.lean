import ClapRci.Plugin.ClientParamEffects
import ClapRci.Plugin.HostEvents
import ClapRci.Server.PollRounds

/-!
# What the clients see of the parameters (`plugin/coreplugin.cpp`)

Blocks of `process()` on the audio thread, which set parameters for the clients and for the
host, next to the poll loop that sends the events pushed to a stream that is open throughout.

* `blockEvents`: the host events that a block processes;
* `agrees_iff`: the stream is in step with the parameters in exactly the runs in which no
  client sets a parameter, no change by the host finds the queue full, a modulation of a
  parameter set before finds its value zero, which is what a client reads from it, and no
  `endCallback`, be it another instance's, throws values away.
-/

namespace ClapRci.ClientView

open EnqueueAuxiliaries (ClapParamInfo paramInfoEvent)
open HostEvents (Call Outcome processEvent)
open PollRounds (Drains Pc)

variable {κ : Type} [LinearOrder κ]

/-! ## Blocks -/

/-- An event of the host: its time, whether it is in the core event space, and what it is. -/
structure InEvent where
  time : UInt32
  coreSpace : Bool
  ev : Clap.Event

/-- The outer loop of `process`: at each frame the events next in line that are due then. An
event in the past is never due. -/
def blockEvents : (frames : Nat) → (frame : UInt32) → List InEvent → List InEvent
  | 0, _, _ => []
  | frames + 1, frame, evs =>
    let due := evs.takeWhile fun ev => ev.time = frame
    due ++ blockEvents frames (frame + 1) (evs.drop due.length)

/-- Every id is the one of its parameter, and every parameter is found by its id:
`addParameter` throws for an id that is taken. -/
structure KeyedStore extends ParamStore where
  keyed : ∀ p ∈ params, paramsHashed p.m_info.id = some p.cookie

/-- A plugin with one stream that is open throughout. -/
structure Sys (κ : Type) [LinearOrder κ] where
  client : ClientParams.Sys
  poll : PollRounds.Sys κ
  /-- The host events left of the block under way. -/
  todo : Option (List InEvent) := none
  terminated : Bool := false
  /-- The values that parameters were set to, by their ids. -/
  changes : List (UInt32 × Double) := []

/-- A block begins; a turn of `processGuiEvents`; a host event is processed, or the block
ends; the clients' side of `mClientsToPluginQueue`; events of the main thread; the poll loop
and other streams. -/
inductive Lbl (κ : Type) where
  | process (frames_count : UInt32) (in_events : List InEvent)
  | turn (ok : Bool)
  | processEvent
  | client (l : ClientParams.Lbl)
  | call (c : Call)
  | paramInfo (info : ClapParamInfo)
  | poll (l : PollRounds.Lbl κ)

/-- What the clients' side of the queue does. -/
def isClient : ClientParams.Lbl → Bool
  | .pushClientParam _ | .next | .tryPush => true
  | .processGuiEvents | .turn _ => false

/-- The pushes, which are those of the plugin here. -/
def isPush : PollRounds.Lbl κ → Bool
  | .pushProcess _ | .pushMain _ => true
  | _ => false

/-- The stream is in `WRITE`, and in the set. -/
def inWrite (stream : κ) (p : PollRounds.Sys κ) : Bool :=
  p.data.streams.contains stream && (p.stream stream).state = .WRITE

/-- `pushToProcessQueue(ev)`, whose result is not looked at. -/
def pushToProcessQueue (d : SharedData κ) (pushed : Option ServerEventWrapper) : SharedData κ :=
  match pushed with
  | none => d
  | some ev => (d.pushProcess ev).2

/-- The value `processGuiEvents` sets for an update. -/
def clientSet (params : ParamStore) (clientEv : ClientParamWrapper) : Option (UInt32 × Double) :=
  if clientEv.ev = .param then
    (params.getParameterById clientEv.paramId).map fun _ => (clientEv.paramId, clientEv.value)
  else none

/-- Whether `processEvent` gets to a parameter for an event that names it so. -/
def appliesTo (params : ParamStore) (coreSpace : Bool) (cookie : Option ParameterPtr)
    (param_id : UInt32) : Bool :=
  coreSpace && ((HostEvents.eventParameter params cookie param_id).bind params.deref).any
    fun p => p.m_info.id = param_id

/-- The value `processEvent` sets for a host event. -/
def hostSet (params : ParamStore) (ev : InEvent) : Option (UInt32 × Double) :=
  match ev.ev with
  | .paramValue evParam =>
    if appliesTo params ev.coreSpace evParam.cookie evParam.param_id then
      some (evParam.param_id, evParam.value)
    else none
  | _ => none

/-- The parameter whose modulation it sets. -/
def hostModulates (params : ParamStore) (ev : InEvent) : Option UInt32 :=
  match ev.ev with
  | .paramMod evParam =>
    if appliesTo params ev.coreSpace evParam.cookie evParam.param_id then some evParam.param_id
    else none
  | _ => none

/-- The host event that is processed next. -/
def Sys.nextEvent (s : Sys κ) : Option InEvent := s.todo.bind List.head?

/-- The value a step sets. -/
def applied (s : Sys κ) : Lbl κ → Option (UInt32 × Double)
  | .turn _ => s.client.queue.head?.bind (clientSet s.client.params)
  | .processEvent => s.nextEvent.bind (hostSet s.client.params)
  | _ => none

/-- The parameter a step modulates. -/
def modulated (s : Sys κ) : Lbl κ → Option UInt32
  | .processEvent => s.nextEvent.bind (hostModulates s.client.params)
  | _ => none

def step (stream : κ) (s : Sys κ) (l : Lbl κ) : Option (Sys κ) :=
  let changes := s.changes ++ (applied s l).toList
  if s.terminated then none
  else
    match l with
    | .process frames_count in_events =>
      if s.todo.isSome then none
      else
        (ClientParams.step s.client .processGuiEvents).map fun client =>
          { s with client := client, todo := some (blockEvents frames_count.toNat 0 in_events) }
    | .turn ok =>
      (ClientParams.step s.client (.turn ok)).map fun client =>
        { s with client := client, changes := changes }
    | .processEvent =>
      if s.client.processing then none
      else
        match s.todo with
        | none => none
        | some [] => some { s with todo := none }
        | some (ev :: todo) =>
          match processEvent s.client.params ev.coreSpace ev.ev with
          | .terminated => some { s with terminated := true }
          | .done params pushed =>
            some { s with
              client := { s.client with params := params }
              poll := { s.poll with data := pushToProcessQueue s.poll.data pushed }
              todo := some todo
              changes := changes }
    | .client l =>
      if isClient l then
        (ClientParams.step s.client l).map fun client => { s with client := client }
      else none
    | .call c =>
      some (match c.pushes with
      | none => s
      | some ev => { s with poll := { s.poll with data := (s.poll.data.pushMain ev).2 } })
    | .paramInfo info =>
      some { s with
        poll := { s.poll with data := (s.poll.data.pushMain (paramInfoEvent info)).2 } }
    | .poll l =>
      if isPush l then none
      else
        match PollRounds.step s.poll l with
        | none => none
        | some poll => if inWrite stream poll then some { s with poll := poll } else none

/-- The poll loop has started for an open stream, and no block has been processed. -/
def start (plugin : PluginPtr) (cq : CqHandle) (params : KeyedStore) (stream : κ) : Sys κ where
  client := ClientParams.start params.toParamStore
  poll :=
    { PollRounds.init κ plugin with
      data :=
        { SharedData.ofPlugin κ plugin with
          streams := (OrdSet.insert .empty stream).2
          mServerStreamCq := some cq
          pollRunning := true }
      stream := fun st => if st = stream then { state := .WRITE, sharedData := true } else {} }

def spec (plugin : PluginPtr) (cq : CqHandle) (params : KeyedStore) (stream : κ) :
    ActionSystem.Spec (Sys κ) (Lbl κ) where
  Init s := s = start plugin cq params stream
  step := step stream

/-! ## What is promised -/

/-- The value that a client reads from a message. -/
def valueOf (m : Api.ServerEvent) : Option (UInt32 × Double) :=
  match m.event, m.payload with
  | .param, .param arg => if arg.type = .value then some (arg.param_id, arg.value) else none
  | _, _ => none

/-- The last value of a parameter. -/
def lastValue (id : UInt32) (values : List (UInt32 × Double)) : Option Double :=
  ((values.filter fun c => c.1 = id).getLast?).map Prod.snd

/-- The messages sent so far, those that wait in the response, and the events that wait in the
process queue. -/
def onTheWay (s : PollRounds.Sys κ) : Api.ServerEvents :=
  (s.rounds.map (·.message)).flatten ++ s.data.mPluginToClientsData ++
    s.data.mPluginProcessToClientsQueue.elems.map ServerEventWrapper.toServerEvent

/-- Everything popped has been sent, and nothing waits in the process queue. -/
def Settled (s : PollRounds.Sys κ) : Prop :=
  s.pc = .idle ∧ s.data.mPluginToClientsData = [] ∧ s.data.mPluginProcessToClientsQueue.elems = []

/-- These values are in step with the parameters: every change is among them, and the last one
of every parameter that changed is its present value. -/
structure InStep (s : Sys κ) (values : List (UInt32 × Double)) : Prop where
  complete : s.changes.Sublist values
  current : ∀ c ∈ s.changes, lastValue c.1 values = s.client.params.paramsValue c.1

/-- A step that changes a parameter sends its new value on the way, and none takes a value off
it; what is on the way, and what the stream has been handed in the end, is in step with the
parameters. -/
structure Agrees (stream : κ) (s : Sys κ) (l : Lbl κ) (s' : Sys κ) : Prop where
  sendsOff : ∀ c, applied s l = some c →
    (onTheWay s'.poll).filterMap valueOf = (onTheWay s.poll).filterMap valueOf ++ [c]
  staysOn : (onTheWay s.poll).filterMap valueOf <+: (onTheWay s'.poll).filterMap valueOf
  onTheWay : InStep s' ((onTheWay s'.poll).filterMap valueOf)
  handed : Settled s'.poll → InStep s' ((s'.poll.handed stream).flatten.filterMap valueOf)

/-- There is room in the process queue. -/
def Room (s : Sys κ) : Prop := s.poll.data.mPluginProcessToClientsQueue.elems.length < 64

/-- The parameter was set before. -/
def Changed (s : Sys κ) (id : UInt32) : Prop := ∃ c ∈ s.changes, c.1 = id

/-- The values among the events in the process queue. -/
def queued (s : PollRounds.Sys κ) : List (UInt32 × Double) :=
  (s.data.mPluginProcessToClientsQueue.elems.map ServerEventWrapper.toServerEvent).filterMap
    valueOf

/-- The step runs `endCallback` on the plugin's instance. -/
def drains (s : Sys κ) : Lbl κ → Prop
  | .poll l => Drains s.poll l
  | _ => False

/-- The condition on a step: an update that a client has sent sets no parameter, a host event
that sets one finds room in the process queue, one that modulates a parameter set before
finds its value zero, or no room, and an `endCallback` finds no value in the process queue. -/
structure Keeps (s : Sys κ) (l : Lbl κ) : Prop where
  client : ∀ ok, l = .turn ok → applied s l = none
  host : l = .processEvent → (applied s l).isSome → Room s
  modulation : ∀ id, modulated s l = some id → Room s → Changed s id →
    s.client.params.paramsValue id = some default
  endCallback : drains s l → queued s.poll = []

/-! ## Events of the host -/

section HostEvents

variable {params : ParamStore}

/-- Every parameter is found by its id. -/
def Keyed (params : ParamStore) : Prop :=
  ∀ p ∈ params.params, params.paramsHashed p.m_info.id = some p.cookie

theorem Keyed.modify (h : Keyed params) (ptr : ParameterPtr) {f : Parameter → Parameter}
    (hcookie : ∀ p, (f p).cookie = p.cookie) (hinfo : ∀ p, (f p).m_info = p.m_info) :
    Keyed (params.modify ptr f hcookie hinfo) := by
  intro p hp
  rcases List.mem_map.mp hp with ⟨q, hq, rfl⟩
  have hkeyed := h q hq
  show params.paramsHashed _ = _
  split
  · rw [hinfo, hcookie]
    exact hkeyed
  · exact hkeyed

theorem Keyed.setValue (h : Keyed params) (ptr : ParameterPtr) (value : Double) :
    Keyed (params.setValue ptr value) :=
  h.modify ptr (f := fun p => p.setValue value) (fun _ => rfl) fun _ => rfl

theorem Keyed.setModulation (h : Keyed params) (ptr : ParameterPtr) (modulation : Double) :
    Keyed (params.setModulation ptr modulation) :=
  h.modify ptr (f := fun p => p.setModulation modulation) (fun _ => rfl) fun _ => rfl

/-- The parameter an event gets to is the one with its id. -/
theorem hashed_of_appliesTo (h : Keyed params) {coreSpace : Bool} {cookie : Option ParameterPtr}
    {id : UInt32} (happlies : appliesTo params coreSpace cookie id = true) :
    coreSpace = true ∧ ∃ ptr p, HostEvents.eventParameter params cookie id = some ptr ∧
      params.deref ptr = some p ∧ p.m_info.id = id ∧ params.paramsHashed id = some ptr := by
  simp only [appliesTo, Bool.and_eq_true, Option.any_eq_true, Option.bind_eq_some_iff,
    decide_eq_true_eq] at happlies
  rcases happlies with ⟨hcore, p, ⟨ptr, hptr, hp⟩, hid⟩
  refine ⟨hcore, ptr, p, hptr, hp, hid, ?_⟩
  have hmem := List.mem_of_find?_eq_some hp
  have hcookie : p.cookie = ptr := by simpa using List.find?_some hp
  rw [← hid, ← hcookie]
  exact h p hmem

/-- What `processEvent` does, by what it sets and what a client reads. -/
inductive HostMoves (params : ParamStore) (ev : InEvent) : Outcome → Prop where
  | set (id : UInt32) (value : Double) (ptr : ParameterPtr) (w : ServerEventWrapper)
    (hset : hostSet params ev = some (id, value)) (hmod : hostModulates params ev = none)
    (hptr : params.paramsHashed id = some ptr) (hw : valueOf w.toServerEvent = some (id, value)) :
    HostMoves params ev (.done (params.setValue ptr value) (some w))
  | modulated (id : UInt32) (amount : Double) (ptr : ParameterPtr) (w : ServerEventWrapper)
    (hset : hostSet params ev = none) (hmod : hostModulates params ev = some id)
    (hptr : params.paramsHashed id = some ptr)
    (hw : valueOf w.toServerEvent = some (id, default)) :
    HostMoves params ev (.done (params.setModulation ptr amount) (some w))
  | other (pushed : Option ServerEventWrapper) (hset : hostSet params ev = none)
    (hmod : hostModulates params ev = none)
    (hw : ∀ w, pushed = some w → valueOf w.toServerEvent = none) :
    HostMoves params ev (.done params pushed)
  | terminated (hset : hostSet params ev = none) (hmod : hostModulates params ev = none) :
    HostMoves params ev .terminated

/-- The two parameter cases of `processEvent`. -/
theorem processParamEvent_cases (h : Keyed params) (cookie : Option ParameterPtr) (id : UInt32)
    (apply : ParameterPtr → ParamStore) (wrapper : ClapEventParamWrapper) :
    (∃ ptr, appliesTo params true cookie id = true ∧ params.paramsHashed id = some ptr ∧
      HostEvents.processParamEvent params cookie id apply wrapper =
        .done (apply ptr) (some { ev := .param, data := .param wrapper })) ∨
    appliesTo params true cookie id = false ∧
      (HostEvents.processParamEvent params cookie id apply wrapper = .done params none ∨
        HostEvents.processParamEvent params cookie id apply wrapper = .terminated) := by
  cases happlies : appliesTo params true cookie id with
  | true =>
    left
    rcases hashed_of_appliesTo h happlies with ⟨-, ptr, p, hptr, hp, hid, hhashed⟩
    refine ⟨ptr, rfl, hhashed, ?_⟩
    simp [HostEvents.processParamEvent, hptr, hp, hid]
  | false =>
    refine Or.inr ⟨rfl, ?_⟩
    unfold HostEvents.processParamEvent
    cases hptr : HostEvents.eventParameter params cookie id with
    | none => exact Or.inl rfl
    | some ptr =>
      cases hp : params.deref ptr with
      | none => exact Or.inr (by simp only [hp])
      | some p =>
        have hid : p.m_info.id ≠ id := by simpa [appliesTo, hptr, hp] using happlies
        exact Or.inr (by simp only [hp, if_pos hid])

/-- An event that pushes nothing and moves no parameter. -/
theorem HostMoves.nothing {ev : InEvent} (hset : hostSet params ev = none)
    (hmod : hostModulates params ev = none) : HostMoves params ev (.done params none) :=
  .other none hset hmod fun _ hw => absurd hw (Option.some_ne_none _).symm

theorem processEvent_moves (h : Keyed params) (ev : InEvent) :
    HostMoves params ev (processEvent params ev.coreSpace ev.ev) := by
  rcases ev with ⟨time, coreSpace, ev⟩
  cases coreSpace with
  | false =>
    apply HostMoves.nothing
    · cases ev <;> simp [hostSet, appliesTo]
    · cases ev <;> simp [hostModulates, appliesTo]
  | true =>
    cases ev with
    | paramValue evParam =>
      rcases processParamEvent_cases h evParam.cookie evParam.param_id
        (fun param => params.setValue param evParam.value) (.ofValue evParam) with
        ⟨ptr, happlies, hptr, heq⟩ | ⟨happlies, heq | heq⟩
      all_goals
        simp only [processEvent, Bool.not_true, Bool.false_eq_true, if_false, heq]
      · exact .set evParam.param_id evParam.value ptr _ (by simp [hostSet, happlies]) rfl hptr rfl
      · exact .nothing (by simp [hostSet, happlies]) rfl
      · exact .terminated (by simp [hostSet, happlies]) rfl
    | paramMod evParam =>
      rcases processParamEvent_cases h evParam.cookie evParam.param_id
        (fun param => params.setModulation param evParam.amount) (.ofMod evParam) with
        ⟨ptr, happlies, hptr, heq⟩ | ⟨happlies, heq | heq⟩
      all_goals
        simp only [processEvent, Bool.not_true, Bool.false_eq_true, if_false, heq]
      · exact .modulated evParam.param_id evParam.amount ptr _ rfl
          (by simp [hostModulates, happlies]) hptr rfl
      · exact .nothing rfl (by simp [hostModulates, happlies])
      · exact .terminated rfl (by simp [hostModulates, happlies])
    | noteOn evNote => exact .other _ rfl rfl fun w hw => by cases hw; rfl
    | noteOff evNote => exact .other _ rfl rfl fun w hw => by cases hw; rfl
    | noteChoke evNote => exact .other _ rfl rfl fun w hw => by cases hw; rfl
    | noteEnd evNote => exact .other _ rfl rfl fun w hw => by cases hw; rfl
    | noteExpression evNote => exact .other _ rfl rfl fun w hw => by cases hw; rfl
    | midi => exact .nothing rfl rfl
    | midi2 => exact .nothing rfl rfl
    | midiSysex => exact .nothing rfl rfl
    | other type => exact .nothing rfl rfl

end HostEvents

/-! ## The poll loop -/

section Poll

variable {stream : κ} {p p' : PollRounds.Sys κ}

/-- The values a client reads from what is on the way. -/
abbrev values (p : PollRounds.Sys κ) : List (UInt32 × Double) := (onTheWay p).filterMap valueOf

/-- The stream is open and in the set, of a plugin with a completion queue. -/
structure Open (stream : κ) (p : PollRounds.Sys κ) : Prop where
  poll : PollRounds.Inv p
  coreplugin : p.data.coreplugin.isSome = true
  mServerStreamCq : p.data.mServerStreamCq.isSome = true
  mem : stream ∈ p.data.streams.toList
  isOpen : (p.stream stream).state = .WRITE
  turn : ∀ todo visits success, p.pc = .sending todo visits success →
    ∀ v ∈ visits, v.1 = stream → v.2 = .WRITE
  rounds : ∀ r ∈ p.rounds, r.writable stream = true
  /-- The main thread sends no values. -/
  main : ∀ w ∈ p.data.mPluginMainToClientsQueue.elems, valueOf w.toServerEvent = none

/-- A callback whose alarm has expired goes on, unless a stop was requested. -/
theorem Open.endsPoll (h : Open stream p) : p.data.endsPoll true = p.data.pollStop := by
  simp [SharedData.endsPoll, Option.isNone_eq_false_iff.mpr h.coreplugin,
    Option.isNone_eq_false_iff.mpr h.mServerStreamCq,
    List.isEmpty_eq_false_iff.mpr (List.ne_nil_of_mem h.mem)]

theorem inWrite_iff : inWrite stream p = true ↔
    stream ∈ p.data.streams.toList ∧ (p.stream stream).state = .WRITE := by
  rw [inWrite, Bool.and_eq_true, decide_eq_true_eq]
  exact and_congr_left' OrdMap.contains_iff

/-- `endCallback` throws the values in the process queue away. -/
theorem values_drained (hrounds : p'.rounds = p.rounds) (hdata : p'.data = p.data.endCallback) :
    values p = values p' ++ queued p := by
  have hqueue : p'.data.mPluginProcessToClientsQueue.elems = [] := by
    rw [hdata, SharedData.endCallback_processQueue]
    rfl
  have hresponse : p'.data.mPluginToClientsData = p.data.mPluginToClientsData := by
    rw [hdata]
    rfl
  simp [values, onTheWay, queued, hrounds, hqueue, hresponse]

/-- `endCallback` leaves the stream alone. -/
theorem Open.endCallback (h : Open stream p) (hinv : PollRounds.Inv { p with
    data := p.data.endCallback }) : Open stream { p with data := p.data.endCallback } :=
  { h with
    poll := hinv
    main := by
      simp only [SharedData.endCallback_mainQueue]
      exact List.forall_mem_nil _ }

/-- A callback begins a round, or it was cancelled: the other ways to end polling need a stream
less, or end the streams. -/
theorem Open.callback (h : Open stream p) {ok captured : Bool}
    (hstep : PollRounds.step p (.callback ok captured) = some p')
    (hwrite : inWrite stream p' = true) :
    Open stream p' ∧ (¬ Drains p (.callback ok captured) → values p' = values p) ∧
      (Drains p (.callback ok captured) → values p = values p' ++ queued p) := by
  have hinv := PollRounds.step_inv h.poll hstep
  cases PollRounds.step_moves hstep with
  | begun hpc =>
    have hends : p.data.endsPoll ok = false := PollRounds.endsPoll_of_begun hstep nofun
    refine ⟨{ h with poll := hinv, turn := nofun }, fun _ => rfl, ?_⟩
    rintro ⟨hends', -⟩
    cases hends.symm.trans hends'
  | ended hpc hends =>
    cases ok with
    | true =>
      -- a stop was requested, so that the stream is told to end
      have hstate := (inWrite_iff.mp hwrite).2
      simp [h.coreplugin, h.mServerStreamCq, PollRounds.endAll, h.mem,
        ServerEventStream.endStream, h.isOpen] at hstate
    | false =>
      cases captured with
      | true =>
        refine ⟨h.endCallback hinv, fun hkeeps => absurd ⟨hends, rfl⟩ hkeeps, fun _ => ?_⟩
        exact values_drained rfl rfl
      | false =>
        exact ⟨h, fun _ => rfl, fun hdrains => absurd hdrains.2 Bool.false_ne_true⟩

/-- What the main queue is left with, no client reads a value from it. -/
theorem Open.main_pop (h : Open stream p) {ev : ServerEventWrapper}
    {queue : BoundedFifo 64 ServerEventWrapper}
    (hpop : p.data.mPluginMainToClientsQueue.pop = (some ev, queue)) :
    valueOf ev.toServerEvent = none ∧
      ∀ w ∈ queue.elems, valueOf w.toServerEvent = none := by
  have hmain := h.main
  rw [BoundedFifo.elems_of_pop hpop] at hmain
  exact List.forall_mem_cons.mp hmain

/-- A pop moves an event on, and what a client will read stays as it is. -/
theorem Open.pop (h : Open stream p) (hstep : PollRounds.step p .pop = some p') :
    Open stream p' ∧ values p' = values p := by
  have hinv := PollRounds.step_inv h.poll hstep
  have hturn {pc : PollRounds.Pc κ}
      (hpc : ∀ todo visits success, pc ≠ .sending todo visits success) :
      ∀ todo visits success, pc = .sending todo visits success →
        ∀ v ∈ visits, v.1 = stream → v.2 = .WRITE :=
    fun todo visits success heq => absurd heq (hpc todo visits success)
  cases PollRounds.step_pops hstep with
  | process hpc hpop =>
    refine ⟨{ h with poll := hinv, turn := hturn (by simp [PollRounds.consumeOne]) }, ?_⟩
    have helems := BoundedFifo.elems_of_pop hpop
    simp [values, onTheWay, PollRounds.consumeOne, helems]
  | processDone hpc hempty => exact ⟨{ h with poll := hinv, turn := hturn (by simp) }, rfl⟩
  | main hpc hpop =>
    rcases h.main_pop hpop with ⟨hev, hmain⟩
    refine ⟨{ h with
      poll := hinv, turn := hturn (by simp [PollRounds.consumeOne]), main := hmain }, ?_⟩
    simp [values, onTheWay, PollRounds.consumeOne, hev]
  | nothingToSend hpc hempty => exact ⟨{ h with poll := hinv, turn := hturn (by simp) }, rfl⟩
  | mainDone hpc hempty =>
    refine ⟨{ h with poll := hinv, turn := ?_ }, rfl⟩
    rintro todo visits success heq v hv
    cases heq
    cases hv

/-- A turn of the loop over the streams. -/
theorem Open.sent (h : Open stream p) (hstep : PollRounds.step p .send = some p') :
    Open stream p' ∧ values p' = values p := by
  have hinv := PollRounds.step_inv h.poll hstep
  cases PollRounds.step_moves hstep with
  | @sent st todo visits success hpc =>
    refine ⟨{ h with poll := hinv, isOpen := ?_, turn := ?_ }, rfl⟩
    · by_cases hst : stream = st
      · subst hst
        simp [ServerEventStream.sendEvents, h.isOpen]
      · simp only [Function.update_of_ne hst]
        exact h.isOpen
    · rintro todo' visits' success' heq v hv hstream
      cases heq
      rcases List.mem_append.mp hv with hv | hv
      · exact h.turn _ _ _ hpc v hv hstream
      · obtain rfl := List.mem_singleton.mp hv
        obtain rfl : st = stream := hstream
        exact h.isOpen

/-- The end of a round, in which the stream was open. -/
theorem Open.finish (h : Open stream p) (hstep : PollRounds.step p .finish = some p') :
    Open stream p' ∧ values p' = values p := by
  have hinv := PollRounds.step_inv h.poll hstep
  cases PollRounds.step_moves hstep with
  | failed hpc => exact ⟨{ h with poll := hinv, turn := nofun }, rfl⟩
  | @succeeded visits hpc =>
    refine ⟨{ h with poll := hinv, turn := nofun, rounds := ?_ }, by simp [values, onTheWay]⟩
    intro r hr
    rcases List.mem_append.mp hr with hr | hr
    · exact h.rounds r hr
    · obtain rfl := List.mem_singleton.mp hr
      have hturn := h.poll.pc
      rw [hpc] at hturn
      have hmem := h.mem
      rw [← hturn.1, List.append_nil] at hmem
      rcases List.mem_map.mp hmem with ⟨v, hv, rfl⟩
      have hwrite := h.turn _ _ _ hpc v hv rfl
      exact decide_eq_true (hwrite ▸ hv)

theorem Open.tryStartPolling (h : Open stream p) {cq : Option CqHandle}
    (hstep : PollRounds.step p (.tryStartPolling cq) = some p') :
    Open stream p' ∧ values p' = values p := by
  have hinv := PollRounds.step_inv h.poll hstep
  rcases PollRounds.between_spec hstep with ⟨hpc, rfl⟩
  rcases p.data.tryStartPolling_cases cq with heq | ⟨cq', -, -, -, heq⟩
  · rw [heq] at hinv ⊢
    exact ⟨h, rfl⟩
  · rw [heq] at hinv ⊢
    exact ⟨{ h with poll := hinv, mServerStreamCq := rfl }, rfl⟩

/-- A stop is requested. -/
theorem Open.stopPoll (h : Open stream p) :
    Open stream { p with data := p.data.stopPoll.2 } ∧
      values { p with data := p.data.stopPoll.2 } = values p := by
  have hinv := PollRounds.step_inv h.poll (l := .stopPoll) rfl
  unfold SharedData.stopPoll at hinv ⊢
  split
  · exact ⟨h, rfl⟩
  · rename_i hguard
    rw [if_neg hguard] at hinv
    exact ⟨{ h with poll := hinv }, rfl⟩

/-- The poll loop and the other streams lose no value but by `endCallback`, and a stream that
is in `WRITE` throughout stays open. -/
theorem Open.step (h : Open stream p) {l : PollRounds.Lbl κ} (hpush : isPush l = false)
    (hstep : PollRounds.step p l = some p') (hwrite : inWrite stream p' = true) :
    Open stream p' ∧ (¬ Drains p l → values p' = values p) ∧
      (Drains p l → values p = values p' ++ queued p) := by
  have hinv := PollRounds.step_inv h.poll hstep
  have hkept {q : PollRounds.Sys κ} (hopen : Open stream q ∧ values q = values p)
      (hdrains : ¬ Drains p l) : Open stream q ∧ (¬ Drains p l → values q = values p) ∧
      (Drains p l → values p = values q ++ queued p) :=
    ⟨hopen.1, fun _ => hopen.2, fun h => absurd h hdrains⟩
  cases l with
  | callback ok captured => exact h.callback hstep hwrite
  | pop => exact hkept (h.pop hstep) id
  | send => exact hkept (h.sent hstep) id
  | finish => exact hkept (h.finish hstep) id
  | setStream st obj =>
    cases hstep
    exact hkept ⟨{ h with poll := hinv, isOpen := (inWrite_iff.mp hwrite).2 }, rfl⟩ id
  | addStream st =>
    rcases PollRounds.between_spec hstep with ⟨hpc, rfl⟩
    exact hkept ⟨{ h with poll := hinv, mem := (inWrite_iff.mp hwrite).1 }, rfl⟩ id
  | removeStream st =>
    rcases PollRounds.between_spec hstep with ⟨hpc, rfl⟩
    exact hkept ⟨{ h with poll := hinv, mem := (inWrite_iff.mp hwrite).1 }, rfl⟩ id
  | tryStartPolling cq => exact hkept (h.tryStartPolling hstep) id
  | stopPoll =>
    cases hstep
    exact hkept h.stopPoll id
  | endElsewhere =>
    rcases PollRounds.between_spec hstep with ⟨hpc, rfl⟩
    refine ⟨h.endCallback hinv, fun hkeeps => absurd trivial hkeeps, fun _ => ?_⟩
    exact values_drained rfl rfl
  | pushProcess ev | pushMain ev => cases hpush

/-- The main thread pushes an event without a value. -/
theorem Open.pushMain (h : Open stream p) {ev : ServerEventWrapper}
    (hev : valueOf ev.toServerEvent = none) :
    Open stream { p with data := (p.data.pushMain ev).2 } where
  poll := PollRounds.step_inv h.poll (l := .pushMain ev) rfl
  coreplugin := h.coreplugin
  mServerStreamCq := h.mServerStreamCq
  mem := h.mem
  isOpen := h.isOpen
  turn := h.turn
  rounds := h.rounds
  main := by
    intro w hw
    rcases BoundedFifo.mem_pushOverwrite hw with hw | rfl
    · exact h.main w hw
    · exact hev

/-- The audio thread pushes one. -/
theorem Open.pushToProcessQueue (h : Open stream p) (pushed : Option ServerEventWrapper) :
    Open stream { p with data := pushToProcessQueue p.data pushed } := by
  cases pushed with
  | none => exact h
  | some ev => exact { h with poll := PollRounds.step_inv h.poll (l := .pushProcess ev) rfl }

/-- A push into a queue with room sends the value on its way. -/
theorem values_pushed {ev : ServerEventWrapper}
    (hroom : p.data.mPluginProcessToClientsQueue.elems.length < 64) :
    values { p with data := pushToProcessQueue p.data (some ev) } =
      values p ++ (valueOf ev.toServerEvent).toList := by
  have hpush : (p.data.mPluginProcessToClientsQueue.push ev).2.elems =
      p.data.mPluginProcessToClientsQueue.elems ++ [ev] := by
    rw [BoundedFifo.push, dif_pos hroom]
  simp only [values, onTheWay, pushToProcessQueue, SharedData.pushProcess, hpush, List.map_append,
    List.filterMap_append, List.append_assoc, List.map_cons, List.map_nil]
  cases hvalue : valueOf ev.toServerEvent <;> simp [hvalue]

/-- A full queue refuses it. -/
theorem pushToProcessQueue_full {d : SharedData κ} {ev : ServerEventWrapper}
    (hfull : ¬ d.mPluginProcessToClientsQueue.elems.length < 64) :
    pushToProcessQueue d (some ev) = d := by
  have hpush : d.mPluginProcessToClientsQueue.push ev = (false, d.mPluginProcessToClientsQueue) :=
    by rw [BoundedFifo.push, dif_neg hfull]
  simp [pushToProcessQueue, SharedData.pushProcess, hpush]

/-- An event without a value changes nothing of what a client will read. -/
theorem values_other {pushed : Option ServerEventWrapper}
    (h : ∀ w, pushed = some w → valueOf w.toServerEvent = none) :
    values { p with data := pushToProcessQueue p.data pushed } = values p := by
  cases pushed with
  | none => rfl
  | some ev =>
    by_cases hroom : p.data.mPluginProcessToClientsQueue.elems.length < 64
    · rw [values_pushed hroom, h ev rfl]
      exact List.append_nil _
    · rw [pushToProcessQueue_full hroom]

end Poll

/-! ## What a step can do -/

theorem valueOf_pushes {c : Call} {ev : ServerEventWrapper} (h : c.pushes = some ev) :
    valueOf ev.toServerEvent = none := by
  cases c with
  | guiSetTransient window =>
    rcases Option.map_eq_some_iff.mp h with ⟨wid, -, rfl⟩
    rfl
  | _ =>
    cases h
    rfl

/-- The clients' side of the queue touches no parameter. -/
theorem client_params {c c' : ClientParams.Sys} {l : ClientParams.Lbl} (hl : isClient l = true)
    (hstep : ClientParams.step c l = some c') : c'.params = c.params := by
  cases ClientParams.step_moves hstep with
  | empty | popped | entered => cases hl
  | _ => rfl

/-- An update that sets no parameter leaves them all alone. -/
theorem processGuiEvent_params {params : ParamStore} {clientEv : ClientParamWrapper}
    (h : clientSet params clientEv = none) :
    (ClientParams.processGuiEvent params clientEv).1 = params := by
  unfold ClientParams.processGuiEvent
  split
  · rename_i hev
    have hnone : params.getParameterById clientEv.paramId = none := by
      simpa [clientSet, hev] using h
    rw [hnone]
  · rfl
  · rfl
  · rfl

theorem keyed_processGuiEvent {params : ParamStore} (h : Keyed params)
    (clientEv : ClientParamWrapper) :
    Keyed (ClientParams.processGuiEvent params clientEv).1 := by
  unfold ClientParams.processGuiEvent
  split
  · split
    · exact h
    · exact h.setValue _ _
  · exact h
  · exact h
  · exact h

/-- What a step does to the parameters, and to the values that a client will read. -/
inductive Effect (s : Sys κ) (l : Lbl κ) (s' : Sys κ) : Prop where
  | nothing (hset : applied s l = none) (hmod : modulated s l = none)
    (hchanges : s'.changes = s.changes)
    (hvalue : ∀ id, s'.client.params.paramsValue id = s.client.params.paramsValue id)
    (hvalues : values s'.poll = values s.poll) (hdrains : ¬ drains s l)
  | drained (hset : applied s l = none) (hmod : modulated s l = none)
    (hchanges : s'.changes = s.changes)
    (hvalue : ∀ id, s'.client.params.paramsValue id = s.client.params.paramsValue id)
    (hdrains : drains s l) (hvalues : values s.poll = values s'.poll ++ queued s.poll)
  | client (ok : Bool) (c : UInt32 × Double) (hl : l = .turn ok) (hset : applied s l = some c)
    (hvalues : values s'.poll = values s.poll)
  | host (id : UInt32) (value : Double) (hl : l = .processEvent)
    (hset : applied s l = some (id, value)) (hmod : modulated s l = none)
    (hchanges : s'.changes = s.changes ++ [(id, value)])
    (hvalue : ∀ id', s'.client.params.paramsValue id' =
      if id' = id then some value else s.client.params.paramsValue id')
    (hroom : Room s → values s'.poll = values s.poll ++ [(id, value)])
    (hfull : ¬ Room s → values s'.poll = values s.poll)
  | modulated (id : UInt32) (hl : l = .processEvent) (hset : applied s l = none)
    (hmod : modulated s l = some id) (hchanges : s'.changes = s.changes)
    (hvalue : ∀ id, s'.client.params.paramsValue id = s.client.params.paramsValue id)
    (hroom : Room s → values s'.poll = values s.poll ++ [(id, default)])
    (hfull : ¬ Room s → values s'.poll = values s.poll)

section Steps

variable {stream : κ} {s s' : Sys κ}

/-- What is relied on throughout: the stream is open, and events reach the parameters they
name. -/
structure Wired (stream : κ) (s : Sys κ) : Prop where
  isOpen : Open stream s.poll
  keyed : Keyed s.client.params

/-- A turn of the loop of `processGuiEvents`. -/
theorem Wired.turn (h : Wired stream s) {ok : Bool} {client : ClientParams.Sys}
    (hstep : ClientParams.step s.client (.turn ok) = some client) :
    let s' := { s with
      client := client, changes := s.changes ++ (applied s (.turn ok : Lbl κ)).toList }
    Wired stream s' ∧ Effect s (.turn ok) s' := by
  cases ClientParams.step_moves hstep with
  | empty ok hqueue =>
    have hset : applied s (.turn ok : Lbl κ) = none := by simp [applied, hqueue]
    refine ⟨⟨h.isOpen, h.keyed⟩, .nothing hset rfl ?_ (fun _ => rfl) rfl id⟩
    simp [hset]
  | popped ok clientEv queue hqueue processing reported =>
    have happlied : applied s (.turn ok : Lbl κ) = clientSet s.client.params clientEv := by
      simp [applied, hqueue]
    refine ⟨⟨h.isOpen, keyed_processGuiEvent h.keyed clientEv⟩, ?_⟩
    cases hset : clientSet s.client.params clientEv with
    | none =>
      rw [hset] at happlied
      refine .nothing happlied rfl ?_ ?_ rfl id
      · simp [happlied]
      · intro id
        simp only [processGuiEvent_params hset]
    | some c => exact .client ok c rfl (happlied.trans hset) rfl

/-- A host event is processed. -/
theorem Wired.processEvent (h : Wired stream s)
    (hstep : step stream s .processEvent = some s') :
    Wired stream s' ∧ Effect s .processEvent s' := by
  simp only [step] at hstep
  split at hstep
  · cases hstep
  split at hstep
  · cases hstep
  split at hstep
  · cases hstep
  · rename_i htodo
    cases hstep
    refine ⟨⟨h.isOpen, h.keyed⟩, .nothing ?_ ?_ rfl (fun _ => rfl) rfl id⟩
    · simp [applied, Sys.nextEvent, htodo]
    · simp [modulated, Sys.nextEvent, htodo]
  · rename_i ev todo htodo
    have happlied : applied s (.processEvent : Lbl κ) = hostSet s.client.params ev := by
      simp [applied, Sys.nextEvent, htodo]
    have hmodulated : ClientView.modulated s (.processEvent : Lbl κ) =
        hostModulates s.client.params ev := by
      simp [ClientView.modulated, Sys.nextEvent, htodo]
    rw [happlied] at hstep
    have hmoves := processEvent_moves h.keyed ev
    cases hout : HostEvents.processEvent s.client.params ev.coreSpace ev.ev with
    | terminated =>
      rw [hout] at hmoves hstep
      cases hstep
      cases hmoves with
      | terminated hset hmod =>
        exact ⟨⟨h.isOpen, h.keyed⟩, .nothing (happlied.trans hset) (hmodulated.trans hmod) rfl
          (fun _ => rfl) rfl id⟩
    | done params pushed =>
      rw [hout] at hmoves hstep
      cases hstep
      have hopen := h.isOpen.pushToProcessQueue pushed
      cases hmoves with
      | set id value ptr w hset hmod hptr hw =>
        refine ⟨⟨hopen, h.keyed.setValue ptr value⟩, .host id value rfl (happlied.trans hset)
          (hmodulated.trans hmod) ?_ ?_ ?_ ?_⟩
        · simp [hset]
        · exact s.client.params.paramsValue_setValue hptr value
        · intro hroom
          exact (values_pushed hroom).trans (by rw [hw]; rfl)
        · intro hfull
          simp only [pushToProcessQueue_full hfull]
      | modulated id amount ptr w hset hmod hptr hw =>
        refine ⟨⟨hopen, h.keyed.setModulation ptr amount⟩, .modulated id rfl
          (happlied.trans hset) (hmodulated.trans hmod) ?_ ?_ ?_ ?_⟩
        · simp [hset]
        · exact s.client.params.paramsValue_setModulation hptr amount
        · intro hroom
          exact (values_pushed hroom).trans (by rw [hw]; rfl)
        · intro hfull
          simp only [pushToProcessQueue_full hfull]
      | other _ hset hmod hw =>
        refine ⟨⟨hopen, h.keyed⟩, .nothing (happlied.trans hset) (hmodulated.trans hmod) ?_
          (fun _ => rfl) ?_ id⟩
        · simp [hset]
        · exact values_other hw

/-- A step of the poll loop, or of other streams. -/
theorem poll_step {l : PollRounds.Lbl κ} (hstep : ClientView.step stream s (.poll l) = some s') :
    isPush l = false ∧ ∃ poll, PollRounds.step s.poll l = some poll ∧
      inWrite stream poll = true ∧ s' = { s with poll := poll } := by
  simp only [ClientView.step] at hstep
  split at hstep
  · cases hstep
  split at hstep
  · cases hstep
  rename_i hpush
  split at hstep
  · cases hstep
  rename_i poll hpoll
  split at hstep
  · rename_i hwrite
    cases hstep
    exact ⟨Bool.eq_false_iff.mpr hpush, poll, hpoll, hwrite, rfl⟩
  · cases hstep

/-- Every step keeps the stream open, and does one of five things. -/
theorem Wired.step (h : Wired stream s) {l : Lbl κ} (hstep : step stream s l = some s') :
    Wired stream s' ∧ Effect s l s' := by
  cases l with
  | processEvent => exact h.processEvent hstep
  | process frames_count in_events =>
    simp only [ClientView.step] at hstep
    split at hstep
    · cases hstep
    split at hstep
    · cases hstep
    · rcases Option.map_eq_some_iff.mp hstep with ⟨client, hclient, rfl⟩
      cases ClientParams.step_moves hclient with
      | entered => exact ⟨⟨h.isOpen, h.keyed⟩, .nothing rfl rfl rfl (fun _ => rfl) rfl id⟩
  | turn ok =>
    simp only [ClientView.step] at hstep
    split at hstep
    · cases hstep
    · rcases Option.map_eq_some_iff.mp hstep with ⟨client, hclient, rfl⟩
      exact h.turn hclient
  | client l =>
    simp only [ClientView.step] at hstep
    split at hstep
    · cases hstep
    split at hstep
    · rename_i hl
      rcases Option.map_eq_some_iff.mp hstep with ⟨client, hclient, rfl⟩
      have hparams := client_params hl hclient
      refine ⟨⟨h.isOpen, hparams ▸ h.keyed⟩, .nothing rfl rfl rfl ?_ rfl id⟩
      intro id
      simp only [hparams]
    · cases hstep
  | call c =>
    simp only [ClientView.step] at hstep
    split at hstep
    · cases hstep
    · cases hstep
      cases hpushes : c.pushes with
      | none => exact ⟨⟨h.isOpen, h.keyed⟩, .nothing rfl rfl rfl (fun _ => rfl) rfl id⟩
      | some ev =>
        exact ⟨⟨h.isOpen.pushMain (valueOf_pushes hpushes), h.keyed⟩,
          .nothing rfl rfl rfl (fun _ => rfl) rfl id⟩
  | paramInfo info =>
    simp only [ClientView.step] at hstep
    split at hstep
    · cases hstep
    · cases hstep
      exact ⟨⟨h.isOpen.pushMain rfl, h.keyed⟩, .nothing rfl rfl rfl (fun _ => rfl) rfl id⟩
  | poll l =>
    rcases poll_step hstep with ⟨hpush, poll, hpoll, hwrite, rfl⟩
    rcases h.isOpen.step hpush hpoll hwrite with ⟨hopen, hkept, hthrown⟩
    refine ⟨⟨hopen, h.keyed⟩, ?_⟩
    by_cases hdrains : Drains s.poll l
    · exact .drained rfl rfl rfl (fun _ => rfl) hdrains (hthrown hdrains)
    · exact .nothing rfl rfl rfl (fun _ => rfl) (hkept hdrains) hdrains

/-! ## In step -/

theorem lastValue_concat (values : List (UInt32 × Double)) (c : UInt32 × Double) (id : UInt32) :
    lastValue id (values ++ [c]) = if id = c.1 then some c.2 else lastValue id values := by
  by_cases hid : id = c.1
  · simp [lastValue, hid]
  · simp [lastValue, hid, Ne.symm hid]

/-- A value is set and sent. -/
theorem InStep.set {vs : List (UInt32 × Double)} (h : InStep s vs) {c : UInt32 × Double}
    (hchanges : s'.changes = s.changes ++ [c])
    (hvalue : ∀ id, s'.client.params.paramsValue id =
      if id = c.1 then some c.2 else s.client.params.paramsValue id) :
    InStep s' (vs ++ [c]) where
  complete := by
    rw [hchanges]
    exact h.complete.append (List.Sublist.refl _)
  current := by
    intro c' hc'
    rw [hvalue, lastValue_concat]
    split
    · rfl
    · rename_i hid
      rw [hchanges] at hc'
      rcases List.mem_append.mp hc' with hc' | hc'
      · exact h.current c' hc'
      · exact absurd (congrArg Prod.fst (List.mem_singleton.mp hc')) hid

/-- No value is set, and what is sent of a parameter set before is its present value. -/
theorem InStep.resent {vs ws : List (UInt32 × Double)} (h : InStep s vs)
    (hchanges : s'.changes = s.changes)
    (hvalue : ∀ id, s'.client.params.paramsValue id = s.client.params.paramsValue id)
    (hws : ws = vs ∨ ∃ id v, ws = vs ++ [(id, v)] ∧
      (Changed s id → s.client.params.paramsValue id = some v)) : InStep s' ws where
  complete := by
    rw [hchanges]
    rcases hws with rfl | ⟨id, v, rfl, -⟩
    · exact h.complete
    · exact h.complete.trans (List.sublist_append_left _ _)
  current := by
    intro c hc
    rw [hchanges] at hc
    rw [hvalue]
    rcases hws with rfl | ⟨id, v, rfl, hpresent⟩
    · exact h.current c hc
    · rw [lastValue_concat]
      split
      · rename_i hid
        rw [show c.1 = id from hid]
        exact (hpresent ⟨c, hc, hid⟩).symm
      · exact h.current c hc

/-- The invariant of the runs that keep to the condition. -/
structure Inv (stream : κ) (s : Sys κ) : Prop where
  wired : Wired stream s
  inStep : InStep s (values s.poll)

/-- In the end the stream has been handed all that was on the way. -/
theorem handed_of_settled (h : Open stream s.poll) (hsettled : Settled s.poll) :
    (s.poll.handed stream).flatten.filterMap valueOf = values s.poll := by
  rcases hsettled with ⟨hidle, hdata, hqueue⟩
  have hall : (s.poll.rounds.filter fun r => r.writable stream) = s.poll.rounds :=
    List.filter_eq_self.mpr h.rounds
  rw [h.poll.delivery.handed hidle stream, hall]
  simp [values, onTheWay, hdata, hqueue]

theorem Inv.agrees (h : Inv stream s') {l : Lbl κ}
    (hsends : ∀ c, applied s l = some c → values s'.poll = values s.poll ++ [c])
    (hstays : values s.poll <+: values s'.poll) : Agrees stream s l s' where
  sendsOff := hsends
  staysOn := hstays
  onTheWay := h.inStep
  handed hsettled := by
    rw [handed_of_settled h.wired.isOpen hsettled]
    exact h.inStep

/-- A step that keeps to the condition leaves the stream in step. -/
theorem step_agrees (h : Inv stream s) {l : Lbl κ} (hkeeps : Keeps s l)
    (hstep : step stream s l = some s') : Inv stream s' ∧ Agrees stream s l s' := by
  rcases h.wired.step hstep with ⟨hwired, heffect⟩
  cases heffect with
  | nothing hset hmod hchanges hvalue hvalues =>
    have hinv : Inv stream s' := ⟨hwired, h.inStep.resent hchanges hvalue (Or.inl hvalues)⟩
    refine ⟨hinv, hinv.agrees ?_ (hvalues ▸ List.prefix_refl _)⟩
    intro c hc
    cases hset.symm.trans hc
  | drained hset hmod hchanges hvalue hdrains hvalues =>
    rw [hkeeps.endCallback hdrains, List.append_nil] at hvalues
    have hinv : Inv stream s' :=
      ⟨hwired, h.inStep.resent hchanges hvalue (Or.inl hvalues.symm)⟩
    refine ⟨hinv, hinv.agrees ?_ (hvalues ▸ List.prefix_refl _)⟩
    intro c hc
    cases hset.symm.trans hc
  | client ok c hl hset hvalues => cases (hkeeps.client ok hl).symm.trans hset
  | host id value hl hset hmod hchanges hvalue hroom hfull =>
    have hvalues := hroom (hkeeps.host hl (by rw [hset]; rfl))
    have hinv : Inv stream s' := ⟨hwired, hvalues ▸ h.inStep.set hchanges hvalue⟩
    refine ⟨hinv, hinv.agrees ?_ (hvalues ▸ List.prefix_append _ _)⟩
    intro c hc
    cases hset.symm.trans hc
    exact hvalues
  | modulated id hl hset hmod hchanges hvalue hroom hfull =>
    have hsent : values s'.poll = values s.poll ∨
        ∃ v, values s'.poll = values s.poll ++ [(id, v)] ∧
          (Changed s id → s.client.params.paramsValue id = some v) := by
      by_cases hr : Room s
      · exact Or.inr ⟨default, hroom hr, hkeeps.modulation id hmod hr⟩
      · exact Or.inl (hfull hr)
    have hinv : Inv stream s' := by
      refine ⟨hwired, h.inStep.resent hchanges hvalue ?_⟩
      rcases hsent with hsame | ⟨v, hv, hpresent⟩
      · exact Or.inl hsame
      · exact Or.inr ⟨id, v, hv, hpresent⟩
    refine ⟨hinv, hinv.agrees ?_ ?_⟩
    · intro c hc
      cases hset.symm.trans hc
    · rcases hsent with hsame | ⟨v, hv, -⟩
      · simp only [hsame, List.prefix_refl]
      · rw [hv]
        exact List.prefix_append _ _

/-- A step that does not keep to it takes the stream out of step. -/
theorem keeps_of_agrees (h : Wired stream s) {l : Lbl κ} (hagrees : Agrees stream s l s')
    (hstep : step stream s l = some s') : Keeps s l := by
  -- a value that is set and not sent
  have hlost : ∀ c, applied s l = some c → values s'.poll ≠ values s.poll := by
    intro c hc hsame
    have hlength := congrArg List.length ((hagrees.sendsOff c hc).symm.trans hsame)
    simp at hlength
  rcases h.step hstep with ⟨-, heffect⟩
  cases heffect with
  | nothing hset hmod _ _ _ hdrains =>
    refine ⟨fun _ _ => hset, ?_, ?_, fun hd => absurd hd hdrains⟩
    · rw [hset]
      nofun
    · rw [hmod]
      nofun
  | drained hset hmod _ _ _ hvalues =>
    refine ⟨fun _ _ => hset, ?_, ?_, ?_⟩
    · rw [hset]
      nofun
    · rw [hmod]
      nofun
    · intro _
      have hlength : (values s.poll).length ≤ (values s'.poll).length :=
        hagrees.staysOn.length_le
      rw [hvalues, List.length_append] at hlength
      exact List.length_eq_zero_iff.mp (by omega)
  | client ok c hl hset hvalues => exact absurd hvalues (hlost c hset)
  | host id value hl hset hmod hchanges hvalue hroom hfull =>
    subst hl
    refine ⟨nofun, ?_, ?_, False.elim⟩
    · intro _ _
      by_contra hr
      exact hlost _ hset (hfull hr)
    · rw [hmod]
      nofun
  | modulated id hl hset hmod hchanges hvalue hroom hfull =>
    subst hl
    refine ⟨nofun, ?_, ?_, False.elim⟩
    · rw [hset]
      nofun
    · intro id' hmod' hr hchanged
      cases hmod.symm.trans hmod'
      rcases hchanged with ⟨c, hc, rfl⟩
      -- zero is what a client reads last
      have hlast : lastValue c.1 (values s'.poll) = some default := by
        rw [hroom hr, lastValue_concat, if_pos rfl]
      rw [← hvalue, ← hlast]
      exact (hagrees.onTheWay.current c (hchanges ▸ hc)).symm

end Steps

theorem start_inv (plugin : PluginPtr) (cq : CqHandle) (params : KeyedStore) (stream : κ) :
    Inv stream (start plugin cq params stream) := by
  have hpoll : PollRounds.Inv (start plugin cq params stream).poll := by
    refine (PollRounds.init_inv plugin).setData _ rfl (Or.inl rfl)
  refine ⟨⟨⟨hpoll, rfl, rfl, ?_, ?_, nofun, ?_, ?_⟩, params.keyed⟩, ?_⟩
  · exact OrdMap.mem_keys_emplace.mpr (Or.inl rfl)
  · simp [start]
  · exact List.forall_mem_nil _
  · exact List.forall_mem_nil _
  · exact ⟨List.Sublist.refl _, List.forall_mem_nil _⟩

/-- The open stream is in step with the parameters, in a run, exactly when its steps keep to the
condition. -/
theorem agrees_iff (plugin : PluginPtr) (cq : CqHandle) (params : KeyedStore) (stream : κ)
    (ls : List (Lbl κ)) :
    (spec plugin cq params stream).AllSteps (Agrees stream) (start plugin cq params stream) ls ↔
      (spec plugin cq params stream).AllSteps (fun s l _ => Keeps s l)
        (start plugin cq params stream) ls := by
  refine (spec plugin cq params stream).allSteps_iff (Inv stream) ?_ ?_
    (start_inv plugin cq params stream) ls
  · intro s l s' hinv hkeeps hstep
    exact step_agrees hinv hkeeps hstep
  · intro s l s' hinv hkeeps hstep hagrees
    exact hkeeps (keeps_of_agrees hinv.wired hagrees hstep)

/-- The one parameter is found by its id. -/
def oneParam (id : UInt32) : KeyedStore where
  toParamStore := HostEvents.oneParam id
  keyed := by
    intro p hp
    rw [List.mem_singleton.mp hp]
    exact if_pos rfl

/-- A client sets a parameter, and the audio thread processes the update: nothing of it goes
to the streams. -/
def clientUpdate : List (Lbl Nat) :=
  [.client (.pushClientParam
      [{ event := .param, param := { param_id := 5 }, timestamp := { seconds := 1 } }]),
    .client .next, .client .tryPush, .process 0 []]

theorem agrees_fails : ¬ ∀ (plugin : PluginPtr) (cq : CqHandle) (params : KeyedStore)
    (stream : Nat) (ls : List (Lbl Nat)),
    (spec plugin cq params stream).AllSteps (Agrees stream) (start plugin cq params stream) ls := by
  intro h
  have hlast := (spec 1 0 (oneParam 5) 7).forall_allSteps_last (h 1 0 (oneParam 5) 7)
    clientUpdate (.turn true) rfl rfl
  have hsent := hlast.sendsOff (5, default) rfl
  cases hsent

end ClapRci.ClientView
