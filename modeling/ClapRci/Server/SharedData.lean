import Mathlib.Data.List.Basic
import Mathlib.Tactic.Common
import ClapRci.Lib.BoundedFifo
import ClapRci.Lib.OrdMap
import ClapRci.Server.ServerEventStream

/-!
# The data between a plugin and its streams (`server/shareddata.cpp`)

The streaming half of `SharedData`: the set of streams, the two queues from the plugin to
its clients, and the poll callback that moves events from the one to the other. The
members for the way back are used by none of these operations and are modelled apart.
-/

namespace ClapRci

/-- The address of a `CorePlugin`. -/
abbrev PluginPtr := BitVec 64

/-- Names a `CqEventHandler`. -/
abbrev CqHandle := Nat

/-- `mPollFreqNs`. -/
def mPollFreqNs : Nat := 5000

/-- `mExpBackoffLimitNs`. -/
def mExpBackoffLimitNs : Nat := 250000

/-- The members of `SharedData` that take part in streaming. `κ` are the addresses of
`ServerEventStream`s. Both queues are built with capacity 64. -/
structure SharedData (κ : Type) [LinearOrder κ] where
  coreplugin : Option PluginPtr
  streams : OrdSet κ := OrdMap.empty
  mPluginToClientsData : Api.ServerEvents := []
  mServerStreamCq : Option CqHandle := none
  pollRunning : Bool := false
  pollStop : Bool := false
  mCurrExpBackoff : Nat := mPollFreqNs
  mPluginProcessToClientsQueue : BoundedFifo 64 ServerEventWrapper := .empty
  mPluginMainToClientsQueue : BoundedFifo 64 ServerEventWrapper := .empty

namespace SharedData

variable {κ : Type} [LinearOrder κ]

/-- `SharedData(plugin)`. -/
def ofPlugin (κ : Type) [LinearOrder κ] (plugin : PluginPtr) : SharedData κ :=
  { coreplugin := some plugin }

/-! ## Streams -/

def addStream (d : SharedData κ) (stream : κ) : Bool × SharedData κ :=
  let (inserted, streams) := d.streams.insert stream
  (inserted, { d with streams := streams })

def removeStream (d : SharedData κ) (stream : κ) : Bool × SharedData κ :=
  let (erased, streams) := d.streams.erase stream
  (erased, { d with streams := streams })

/-- `isValid()`: the plugin is there and at least one stream. -/
def isValid (d : SharedData κ) : Bool := d.coreplugin.isSome && !d.streams.toList.isEmpty

/-! ## Queues

The last option of each queue type is the producer's: the process queue refuses an event
when it is full, the main queue drops its oldest one. -/

/-- `pluginToClientsQueue().push(ev)`. -/
def pushProcess (d : SharedData κ) (ev : ServerEventWrapper) : Bool × SharedData κ :=
  let (ok, queue) := d.mPluginProcessToClientsQueue.push ev
  (ok, { d with mPluginProcessToClientsQueue := queue })

/-- `pluginMainToClientsQueue().push(ev)`. -/
def pushMain (d : SharedData κ) (ev : ServerEventWrapper) : Bool × SharedData κ :=
  let (ok, queue) := d.mPluginMainToClientsQueue.pushOverwrite ev
  (ok, { d with mPluginMainToClientsQueue := queue })

/-- `consumeEventToStream(queue)`: the count, the response, and the queue. -/
def consumeEventToStream (data : Api.ServerEvents) (queue : BoundedFifo 64 ServerEventWrapper) :
    Nat × Api.ServerEvents × BoundedFifo 64 ServerEventWrapper :=
  let (outs, queue) := queue.popAll
  (outs.length, data ++ outs.map ServerEventWrapper.toServerEvent, queue)

/-- `drainPollingQueue()`. -/
def drainPollingQueue (d : SharedData κ) : Nat × SharedData κ :=
  let (process, processQueue) := d.mPluginProcessToClientsQueue.popAll
  let (main, mainQueue) := d.mPluginMainToClientsQueue.popAll
  (process.length + main.length, { d with
    mPluginProcessToClientsQueue := processQueue
    mPluginMainToClientsQueue := mainQueue })

/-! ## Polling -/

/-- `tryStartPolling()`; `cq` is what `tryGetServerStreamCqHandle()` finds. The last
component is the delay of the callback it schedules. -/
def tryStartPolling (d : SharedData κ) (cq : Option CqHandle) :
    Bool × SharedData κ × Option Nat :=
  if !d.isValid || d.pollRunning then (false, d, none)
  else
    match cq with
    | none => (false, d, none)
    | some cq =>
      (true, { d with mServerStreamCq := some cq, pollRunning := true }, some mPollFreqNs)

/-- `stopPoll()`. -/
def stopPoll (d : SharedData κ) : Bool × SharedData κ :=
  if d.coreplugin.isNone || d.mServerStreamCq.isNone || !d.pollRunning then (false, d)
  else (true, { d with pollStop := true })

/-- `nextExpBackoff()`. -/
def nextExpBackoff (d : SharedData κ) : Nat × SharedData κ :=
  let next := if d.mCurrExpBackoff < mExpBackoffLimitNs then d.mCurrExpBackoff * 2
    else mExpBackoffLimitNs
  (next, { d with mCurrExpBackoff := next })

/-- The body of the lambda `endCallback`, run on the instance it captured. -/
def endCallback (d : SharedData κ) : SharedData κ :=
  ({ d with pollRunning := false }).drainPollingQueue.2

/-- A call on a stream. -/
inductive StreamCall where
  | endStream
  | sendEvents (evs : Api.ServerEvents)
deriving DecidableEq

/-- How `pollCallback` ends: by `endCallback()`, or by scheduling itself again. -/
inductive PollExit where
  | ended
  | again (deferNs : Nat)
deriving DecidableEq

/-- What one `pollCallback` does: the members after it, the calls on streams, the exit. -/
structure Poll (κ : Type) [LinearOrder κ] where
  data : SharedData κ
  calls : List (κ × StreamCall)
  exit : PollExit

/-- Both `consumeEventToStream` calls of `pollCallback`: the two counts and the members. -/
def consumeEvents (d : SharedData κ) : Nat × Nat × SharedData κ :=
  let (nProcessEvs, data, processQueue) :=
    consumeEventToStream d.mPluginToClientsData d.mPluginProcessToClientsQueue
  let (nMainEvs, data, mainQueue) := consumeEventToStream data d.mPluginMainToClientsQueue
  (nProcessEvs, nMainEvs, { d with
    mPluginToClientsData := data
    mPluginProcessToClientsQueue := processQueue
    mPluginMainToClientsQueue := mainQueue })

/-- The callback is scheduled again with a longer delay. -/
def backOff (d : SharedData κ) (calls : List (κ × StreamCall)) : Poll κ :=
  let (deferNs, d) := d.nextExpBackoff
  ⟨d, calls, .again deferNs⟩

/-- `pollCallback` once the events are consumed; `stream` gives the objects behind the
addresses. A call on one stream changes that stream only, so all can be looked up
beforehand. -/
def sendRound (nProcessEvs nMainEvs : Nat) (d : SharedData κ) (stream : κ → ServerEventStream) :
    Poll κ :=
  -- the counts of this round decide, not what an earlier one left in the response
  if nProcessEvs = 0 ∧ nMainEvs = 0 then d.backOff []
  else
    let evs := d.mPluginToClientsData
    let calls := d.streams.toList.map fun s => (s, StreamCall.sendEvents evs)
    let success := d.streams.toList.any fun s => ((stream s).sendEvents evs).1
    -- a message nobody took stays in the response, and the next round adds to it
    if !success then d.backOff calls
    else
      ⟨{ d with mPluginToClientsData := [], mCurrExpBackoff := mPollFreqNs }, calls,
        .again mPollFreqNs⟩

/-- `pollCallback` after its three checks. -/
def pollRound (d : SharedData κ) (stream : κ → ServerEventStream) : Poll κ :=
  let (nProcessEvs, nMainEvs, d) := d.consumeEvents
  sendRound nProcessEvs nMainEvs d stream

/-- `pollCallback(ok)`. -/
def pollCallback (d : SharedData κ) (ok : Bool) (stream : κ → ServerEventStream) : Poll κ :=
  if !ok || d.coreplugin.isNone || d.mServerStreamCq.isNone then ⟨d, [], .ended⟩
  else if d.streams.toList.isEmpty then ⟨d, [], .ended⟩
  -- `pollStop` is read here and reset nowhere
  else if d.pollStop then ⟨d, d.streams.toList.map fun s => (s, .endStream), .ended⟩
  else d.pollRound stream

/-! ## What the operations leave alone -/

@[simp] theorem endCallback_pollRunning (d : SharedData κ) :
    d.endCallback.pollRunning = false := rfl

@[simp] theorem endCallback_processQueue (d : SharedData κ) :
    d.endCallback.mPluginProcessToClientsQueue = .empty := by
  simp [endCallback, drainPollingQueue]

@[simp] theorem endCallback_mainQueue (d : SharedData κ) :
    d.endCallback.mPluginMainToClientsQueue = .empty := by
  simp [endCallback, drainPollingQueue]

@[simp] theorem endCallback_streams (d : SharedData κ) : d.endCallback.streams = d.streams := rfl

/-- Both loops take all there is, the process queue first. -/
theorem consumeEvents_eq (d : SharedData κ) :
    d.consumeEvents = (d.mPluginProcessToClientsQueue.elems.length,
      d.mPluginMainToClientsQueue.elems.length, { d with
        mPluginToClientsData := d.mPluginToClientsData ++
          d.mPluginProcessToClientsQueue.elems.map ServerEventWrapper.toServerEvent ++
          d.mPluginMainToClientsQueue.elems.map ServerEventWrapper.toServerEvent
        mPluginProcessToClientsQueue := .empty
        mPluginMainToClientsQueue := .empty }) := by
  simp [consumeEvents, consumeEventToStream]

/-- `tryStartPolling` does nothing, or starts polling where it was not running. -/
theorem tryStartPolling_cases (d : SharedData κ) (cq : Option CqHandle) :
    d.tryStartPolling cq = (false, d, none) ∨
      ∃ h, cq = some h ∧ d.isValid = true ∧ d.pollRunning = false ∧
        d.tryStartPolling cq =
          (true, { d with mServerStreamCq := some h, pollRunning := true }, some mPollFreqNs) := by
  unfold tryStartPolling
  split
  · exact Or.inl rfl
  · rename_i hguard
    rw [Bool.or_eq_true, not_or, Bool.not_eq_true, Bool.not_eq_true, Bool.not_eq_false'] at hguard
    cases cq with
    | none => exact Or.inl rfl
    | some h => exact Or.inr ⟨h, rfl, hguard.1, hguard.2, rfl⟩

@[simp] theorem tryStartPolling_data (d : SharedData κ) (cq : Option CqHandle) :
    (d.tryStartPolling cq).2.1.mPluginToClientsData = d.mPluginToClientsData := by
  rcases d.tryStartPolling_cases cq with heq | ⟨h, -, -, -, heq⟩ <;> rw [heq]

theorem tryStartPolling_streams (d : SharedData κ) (cq : Option CqHandle) :
    (d.tryStartPolling cq).2.1.streams = d.streams := by
  rcases d.tryStartPolling_cases cq with heq | ⟨h, -, -, -, heq⟩ <;> rw [heq]

theorem tryStartPolling_mainQueue (d : SharedData κ) (cq : Option CqHandle) :
    (d.tryStartPolling cq).2.1.mPluginMainToClientsQueue = d.mPluginMainToClientsQueue := by
  rcases d.tryStartPolling_cases cq with heq | ⟨h, -, -, -, heq⟩ <;> rw [heq]

theorem tryStartPolling_processQueue (d : SharedData κ) (cq : Option CqHandle) :
    (d.tryStartPolling cq).2.1.mPluginProcessToClientsQueue =
      d.mPluginProcessToClientsQueue := by
  rcases d.tryStartPolling_cases cq with heq | ⟨h, -, -, -, heq⟩ <;> rw [heq]

theorem stopPoll_processQueue (d : SharedData κ) :
    d.stopPoll.2.mPluginProcessToClientsQueue = d.mPluginProcessToClientsQueue := by
  unfold stopPoll
  split <;> rfl

theorem stopPoll_mainQueue (d : SharedData κ) :
    d.stopPoll.2.mPluginMainToClientsQueue = d.mPluginMainToClientsQueue := by
  unfold stopPoll
  split <;> rfl

@[simp] theorem stopPoll_data (d : SharedData κ) :
    d.stopPoll.2.mPluginToClientsData = d.mPluginToClientsData := by
  unfold stopPoll
  split <;> rfl

@[simp] theorem stopPoll_streams (d : SharedData κ) : d.stopPoll.2.streams = d.streams := by
  unfold stopPoll
  split <;> rfl

@[simp] theorem stopPoll_pollRunning (d : SharedData κ) :
    d.stopPoll.2.pollRunning = d.pollRunning := by
  unfold stopPoll
  split <;> rfl

/-- Whether this call of `pollCallback` runs `endCallback()`. -/
def endsPoll (d : SharedData κ) (ok : Bool) : Bool :=
  !ok || d.coreplugin.isNone || d.mServerStreamCq.isNone || d.streams.toList.isEmpty || d.pollStop

/-- The exits of `pollCallback` that end polling leave all members to `endCallback`. -/
theorem pollCallback_ended {d : SharedData κ} {ok : Bool} (h : d.endsPoll ok = true)
    (stream : κ → ServerEventStream) :
    (d.pollCallback ok stream).exit = .ended ∧ (d.pollCallback ok stream).data = d ∧
      ∀ c ∈ (d.pollCallback ok stream).calls, c.2 = .endStream := by
  unfold pollCallback
  split
  · exact ⟨rfl, rfl, by simp⟩
  split
  · exact ⟨rfl, rfl, by simp⟩
  split
  · exact ⟨rfl, rfl, by simp⟩
  · simp_all [endsPoll]

theorem pollCallback_round {d : SharedData κ} {ok : Bool} (h : d.endsPoll ok = false)
    (stream : κ → ServerEventStream) : d.pollCallback ok stream = d.pollRound stream := by
  simp only [endsPoll, Bool.or_eq_false_iff] at h
  simp [pollCallback, h]

/-- The other exits schedule the callback again. -/
theorem pollRound_again (d : SharedData κ) (stream : κ → ServerEventStream) :
    (∃ deferNs, (d.pollRound stream).exit = .again deferNs) ∧
      (d.pollRound stream).data.pollRunning = d.pollRunning ∧
      (d.pollRound stream).data.streams = d.streams := by
  simp only [pollRound, sendRound]
  split
  · exact ⟨⟨_, rfl⟩, rfl, rfl⟩
  split
  · exact ⟨⟨_, rfl⟩, rfl, rfl⟩
  · exact ⟨⟨_, rfl⟩, rfl, rfl⟩

/-! ## The calls on streams -/

/-- There is an event to send in one of the queues. -/
def HasEvents (d : SharedData κ) : Prop :=
  d.mPluginProcessToClientsQueue.elems ≠ [] ∨ d.mPluginMainToClientsQueue.elems ≠ []

/-- A round without events calls no stream. -/
theorem pollRound_calls_idle {d : SharedData κ} (h : ¬ d.HasEvents)
    (stream : κ → ServerEventStream) : (d.pollRound stream).calls = [] := by
  simp only [HasEvents, not_or, not_not] at h
  simp [pollRound, consumeEvents_eq, sendRound, backOff, h]

/-- A round with events sends them all to every stream of the set. -/
theorem pollRound_calls {d : SharedData κ} (h : d.HasEvents) (stream : κ → ServerEventStream) :
    ∃ evs, (d.pollRound stream).calls =
      d.streams.toList.map fun s => (s, StreamCall.sendEvents evs) := by
  simp only [pollRound, consumeEvents_eq, sendRound]
  split
  · rename_i hnone
    rcases h with h | h
    · exact absurd (List.length_eq_zero_iff.mp hnone.1) h
    · exact absurd (List.length_eq_zero_iff.mp hnone.2) h
  split
  · exact ⟨_, rfl⟩
  · exact ⟨_, rfl⟩

/-- A callback that ends polling calls no stream, or tells all of them to end. -/
theorem pollCallback_calls_ended {d : SharedData κ} {ok : Bool} (h : d.endsPoll ok = true)
    (stream : κ → ServerEventStream) : (d.pollCallback ok stream).calls = [] ∨
      (d.pollCallback ok stream).calls = d.streams.toList.map fun s => (s, .endStream) := by
  unfold pollCallback
  split
  · exact Or.inl rfl
  split
  · exact Or.inl rfl
  split
  · exact Or.inr rfl
  · simp_all [endsPoll]

/-- All calls of a poll callback are the same one, on every stream of the set. -/
theorem pollCallback_calls (d : SharedData κ) (ok : Bool) (stream : κ → ServerEventStream) :
    (d.pollCallback ok stream).calls = [] ∧ (d.endsPoll ok = false → ¬ d.HasEvents) ∨
      ∃ call, (d.pollCallback ok stream).calls = d.streams.toList.map (fun s => (s, call)) ∧
        (d.endsPoll ok = true ∧ call = .endStream ∨
          d.endsPoll ok = false ∧ d.HasEvents ∧ ∃ evs, call = .sendEvents evs) := by
  cases hends : d.endsPoll ok with
  | true =>
    rcases pollCallback_calls_ended hends stream with hcalls | hcalls
    · exact Or.inl ⟨hcalls, nofun⟩
    · exact Or.inr ⟨_, hcalls, Or.inl ⟨rfl, rfl⟩⟩
  | false =>
    rw [pollCallback_round hends]
    by_cases hev : d.HasEvents
    · rcases pollRound_calls hev stream with ⟨evs, hcalls⟩
      exact Or.inr ⟨_, hcalls, Or.inr ⟨rfl, hev, evs, rfl⟩⟩
    · exact Or.inl ⟨pollRound_calls_idle hev stream, fun _ => hev⟩

end SharedData

end ClapRci
