import Mathlib.Data.List.TakeWhile
import ClapRci.Lib.Decimal
import ClapRci.Plugin.ClientParams
import ClapRci.Server.Handshake
import ClapRci.Server.ServerCtrl
import ClapRci.Server.UnaryCalls

/-!
# How calls are authenticated (`server/tags`, `server/serverctrl.cpp`)

A client names its plugin in the metadata `plugin-hash-id`, by the decimal text of the
plugin's hash. The three handlers read it with `std::stoull`, which throws on some texts and
reads a number in others that nobody wrote as such; nothing above the handlers catches.

`authenticated_iff`: a call is handled as promised exactly when there is no metadata, or
`stoull` reads it and what it reads names no plugin or is the text of the plugin's hash.
-/

namespace ClapRci

/-! ## `std::stoull` -/

/-- `std::isspace`: the blank and the control characters from tab to carriage return. -/
def isspace (b : UInt8) : Bool := b.toNat = 32 || 9 ≤ b.toNat && b.toNat ≤ 13

/-- What `std::stoull` throws. -/
inductive StoullError where
  | invalid_argument | out_of_range
deriving DecidableEq

/-- The sign of a number: whether it is a minus, and the text after it. -/
def takeSign : StdString → Bool × StdString
  | [] => (false, [])
  | b :: str =>
    if b = 45 then (true, str)
    else if b = 43 then (false, str)
    else (false, b :: str)

/-- `std::stoull(str)`: blanks, a sign, digits, and anything. A minus negates the value in
64 bits, after the range check. -/
def stoull (str : StdString) : Except StoullError Hash :=
  let (negative, str) := takeSign (str.dropWhile isspace)
  let digits := str.takeWhile Decimal.isDigit
  if digits = [] then .error .invalid_argument
  else if 2 ^ 64 ≤ Decimal.value digits then .error .out_of_range
  else
    let n := BitVec.ofNat 64 (Decimal.value digits)
    .ok (if negative then n.neg else n).toFin

/-- `std::to_string(hash)`. -/
def to_string (hash : Hash) : StdString := Decimal.text hash.val

theorem takeSign_of_isDigit {b : UInt8} {str : StdString} (h : Decimal.isDigit b = true) :
    takeSign (b :: str) = (false, b :: str) := by
  simp only [Decimal.isDigit, Bool.and_eq_true, decide_eq_true_eq] at h
  have hminus : b ≠ 45 := by
    rintro rfl
    exact absurd h.1 (by decide)
  have hplus : b ≠ 43 := by
    rintro rfl
    exact absurd h.1 (by decide)
  simp [takeSign, hminus, hplus]

theorem isspace_of_isDigit {b : UInt8} (h : Decimal.isDigit b = true) : isspace b = false := by
  simp only [Decimal.isDigit, Bool.and_eq_true, decide_eq_true_eq] at h
  simp only [isspace, Bool.or_eq_false_iff, Bool.and_eq_false_iff, decide_eq_false_iff_not]
  omega

/-- The text of a hash is read as this hash. -/
theorem stoull_to_string (hash : Hash) : stoull (to_string hash) = .ok hash := by
  have hdigits : ∀ b ∈ to_string hash, Decimal.isDigit b = true :=
    fun b hb => Decimal.isDigit_of_mem_text hb
  -- nothing is skipped before the digits, and nothing is left after them
  have hsign : takeSign ((to_string hash).dropWhile isspace) = (false, to_string hash) := by
    cases htext : to_string hash with
    | nil => exact absurd htext (Decimal.text_ne_nil _)
    | cons b str =>
      have hb : Decimal.isDigit b = true := hdigits b (by simp [htext])
      rw [List.dropWhile_cons_of_neg (by simp [isspace_of_isDigit hb]), takeSign_of_isDigit hb]
  have hall : (to_string hash).takeWhile Decimal.isDigit = to_string hash :=
    List.takeWhile_eq_self_iff.mpr hdigits
  have hvalue : Decimal.value (to_string hash) = hash.val := Decimal.value_text hash.val
  have hrange : ¬ 2 ^ 64 ≤ hash.val := Nat.not_le.mpr hash.isLt
  have hne : to_string hash ≠ [] := Decimal.text_ne_nil _
  simp only [stoull, hsign, hall, hvalue, hne, hrange, if_false, Bool.false_eq_true]
  congr 1
  exact Fin.ext (Nat.mod_eq_of_lt hash.isLt)

/-! ## The handlers -/

/-- `client_metadata()`, a `std::multimap`. -/
abbrev GrpcMetadata := List (StdString × StdString)

/-- `Metadata::PluginHashId`. -/
def PluginHashId : StdString := "plugin-hash-id".toUTF8.toList

/-- `extractMetadata(cmp)`, which each handler has a copy of. -/
def extractMetadata (metadata : GrpcMetadata) (cmp : StdString) : Option StdString :=
  (metadata.find? fun e => e.1 = cmp).map Prod.snd

/-- `ServerCtrl::connectClient(stream, hash)`. -/
def ServerCtrl.connectClient {κ : Type} [LinearOrder κ] (c : ServerCtrl κ) (stream : κ)
    (hash : Hash) : Bool × ServerCtrl κ :=
  match c.mSharedData.find? hash with
  | none => (false, c)
  | some sharedData =>
    let (ok, sharedData) := sharedData.addStream stream
    (ok, { c with mSharedData := c.mSharedData.modify hash fun _ => sharedData })

namespace Metadata

/-- The members of `SharedData` on the way from the clients. -/
structure ClientQueues where
  mBlockingClientEventQueue : BlkRingQueue.Allocated Event :=
    .ofCapacity Event 1 BlkRingQueue.Allocated.one_allocates
  params : ClientParams.Data := {}

/-- The controller, and the way back for each plugin registered with it. -/
structure Backend (κ : Type) [LinearOrder κ] where
  ctrl : ServerCtrl κ := {}
  queues : Hash → ClientQueues := fun _ => {}

/-- A call with what comes with it. For the parameters this includes how many entries the
audio thread takes out of a full queue while the handler waits, for a stream what
`tryGetServerStreamCqHandle()` finds. -/
inductive Request (κ : Type) where
  | serverEventStream (this : κ) (cq : Option CqHandle)
  | clientEventCall (event : Event)
  | clientParamCall (request : Api.ClientParams) (takes : Nat)

/-- How the processing of a call ends, if it does. -/
inductive Outcome where
  | threw (e : StoullError)
  | blocked
  | connected
  | finished (status : Status)
  | answered (status : UnaryStatus)

section Handlers

variable {κ : Type} [LinearOrder κ]

/-- Change the queues of one plugin. -/
def Backend.setQueues (b : Backend κ) (hash : Hash) (queues : ClientQueues) : Backend κ :=
  { b with queues := Function.update b.queues hash queues }

/-- `ServerEventStream::connectClient()`, with the hash it leaves in `sharedHash`. -/
def connectClient (c : ServerCtrl κ) (metadata : GrpcMetadata) (this : κ) :
    Except StoullError (ServerEventStream.ConnectResult × Hash × ServerCtrl κ) :=
  match extractMetadata metadata PluginHashId with
  | none => .ok (.rejected, (0#64).toFin, c)
  | some id =>
    match stoull id with
    | .error e => .error e
    | .ok sharedHash =>
      match c.connectClient this sharedHash with
      | (false, c) => .ok (.rejected, sharedHash, c)
      | (true, c) =>
        match c.getSharedData sharedHash with
        | none => .ok (.orphaned, sharedHash, c)
        | some _ => .ok (.connected, sharedHash, c)

/-- What the calls of `ServerEventStream::process` do; `connectClient` has put the stream into
its set. -/
def runEffect (sharedHash : Hash) (cq : Option CqHandle) (o : Outcome × Backend κ) :
    ServerEventStream.Effect → Outcome × Backend κ
  | .start (.finish status) => (.finished status, o.2)
  | .tryStartPolling => (o.1, { o.2 with ctrl := { o.2.ctrl with
      mSharedData := o.2.ctrl.mSharedData.modify sharedHash fun sharedData =>
        (sharedData.tryStartPolling cq).2.1 } })
  | _ => o

/-- `ServerEventStream::process(true)` in state `CONNECT`. -/
def serverEventStream (b : Backend κ) (metadata : GrpcMetadata) (this : κ)
    (cq : Option CqHandle) : Outcome × Backend κ :=
  match connectClient b.ctrl metadata this with
  | .error e => (.threw e, b)
  | .ok (result, sharedHash, ctrl) =>
    (ServerEventStream.process {} true result).2.foldl (runEffect sharedHash cq)
      (.connected, { b with ctrl := ctrl })

/-- What the two `handleEvent()` share; `deliver` is the rest, `none` where it does not
return. -/
def handleEvent (deliver : Hash → Backend κ → Option UnaryStatus × Backend κ) (b : Backend κ)
    (metadata : GrpcMetadata) : Except StoullError (Option UnaryStatus × Backend κ) :=
  match extractMetadata metadata PluginHashId with
  | none => .ok (some ⟨.INVALID_ARGUMENT, "No PluginHashId"⟩, b)
  | some id =>
    match stoull id with
    | .error e => .error e
    | .ok hash =>
      match b.ctrl.getSharedData hash with
      | none => .ok (some ⟨.NOT_FOUND, "Plugin not found"⟩, b)
      | some _ => .ok (deliver hash b)

/-- `blockingPushClientEvent(request.event())` and the answer to it. The queue is as it is
when the wait is over. -/
def deliverEvent (event : Event) (hash : Hash) (b : Backend κ) :
    Option UnaryStatus × Backend κ :=
  let queues := b.queues hash
  match Handshake.blockingPushClientEvent queues.mBlockingClientEventQueue event with
  | (false, queue) =>
    (some ⟨.INTERNAL, "Failed to push event"⟩,
      b.setQueues hash { queues with mBlockingClientEventQueue := queue })
  | (true, queue) =>
    (some { code := .OK }, b.setQueues hash { queues with mBlockingClientEventQueue := queue })

/-- `progressive_backoff_wait` on the push of one update: whether it ends, and how many
entries the audio thread still takes after it. -/
def pushWait (p : Api.ClientParam) : Nat → ClientParams.Data → Bool × Nat × ClientParams.Data
  | takes, d =>
    match ClientParams.pushClientParamTry d p with
    | (true, d) => (true, takes, d)
    | (false, d) =>
      match takes with
      | 0 => (false, 0, d)
      | takes + 1 =>
        pushWait p takes { d with mClientsToPluginQueue := d.mClientsToPluginQueue.pop.2 }

/-- `pushClientParam(ev)`, and whether it returns. -/
def pushClientParam : Api.ClientParams → Nat → ClientParams.Data → Bool × ClientParams.Data
  | [], _, d => (true, d)
  | p :: todo, takes, d =>
    match ClientParams.pushClientParamFilter d p todo with
    | (.push p _, d) =>
      match pushWait p takes d with
      | (false, _, d) => (false, d)
      | (true, takes, d) => pushClientParam todo takes d
    | (_, d) => pushClientParam todo takes d

/-- `pushClientParam(request)` and the answer. -/
def deliverParams (request : Api.ClientParams) (takes : Nat) (hash : Hash) (b : Backend κ) :
    Option UnaryStatus × Backend κ :=
  let queues := b.queues hash
  match pushClientParam request takes queues.params with
  | (false, params) => (none, b.setQueues hash { queues with params := params })
  | (true, params) => (some { code := .OK }, b.setQueues hash { queues with params := params })

/-- `ClientEventCallHandler::handleEvent()`. -/
def ClientEventCallHandler.handleEvent (b : Backend κ) (metadata : GrpcMetadata)
    (event : Event) : Except StoullError (Option UnaryStatus × Backend κ) :=
  Metadata.handleEvent (deliverEvent event) b metadata

/-- `ClientParamCall::handleEvent()`. -/
def ClientParamCall.handleEvent (b : Backend κ) (metadata : GrpcMetadata)
    (request : Api.ClientParams) (takes : Nat) :
    Except StoullError (Option UnaryStatus × Backend κ) :=
  Metadata.handleEvent (deliverParams request takes) b metadata

/-- What `process(true)` of a unary handler makes of its `handleEvent()`. -/
def answer (b : Backend κ) :
    Except StoullError (Option UnaryStatus × Backend κ) → Outcome × Backend κ
  | .error e => (.threw e, b)
  | .ok (none, b) => (.blocked, b)
  | .ok (some status, b) => (.answered status, b)

/-- The handler of a call processes it. -/
def process (b : Backend κ) (metadata : GrpcMetadata) : Request κ → Outcome × Backend κ
  | .serverEventStream this cq => serverEventStream b metadata this cq
  | .clientEventCall event =>
    answer b (ClientEventCallHandler.handleEvent b metadata event)
  | .clientParamCall request takes =>
    answer b (ClientParamCall.handleEvent b metadata request takes)

end Handlers

/-! ## What is promised -/

/-- An error status is sent. -/
def Outcome.IsError : Outcome → Prop
  | .finished status => status.code ≠ .OK
  | .answered status => status.code ≠ .OK
  | _ => False

/-- The client is connected, or its call succeeds. -/
def Outcome.Accepts : Outcome → Prop
  | .connected => True
  | .answered status => status.code = .OK
  | _ => False

section Promise

variable {κ : Type} [LinearOrder κ]

/-- The metadata is the text of a registered plugin's hash, as `guiCreate` passes it on. -/
def Authentic (b : Backend κ) (metadata : GrpcMetadata) : Prop :=
  ∃ hash ∈ b.ctrl.mSharedData.keys,
    extractMetadata metadata PluginHashId = some (to_string hash)

/-- The processing ends by connecting or answering; only authentic calls are accepted; and
others get an error and change nothing. -/
structure Authenticated (b : Backend κ) (metadata : GrpcMetadata) (o : Outcome × Backend κ) :
    Prop where
  ends : o.1.Accepts ∨ o.1.IsError
  accepts : o.1.Accepts → Authentic b metadata
  refuses : ¬ Authentic b metadata → o.1.IsError ∧ o.2 = b

/-- A call that is refused whatever its metadata: the stream is in the set already, or the
slot for the event is still taken when the wait for it is over. -/
def Refused (b : Backend κ) (hash : Hash) : Request κ → Prop
  | .serverEventStream this _ =>
    ∃ sharedData, b.ctrl.mSharedData.find? hash = some sharedData ∧
      this ∈ sharedData.streams.toList
  | .clientEventCall _ => (b.queues hash).mBlockingClientEventQueue.slots = 0
  | .clientParamCall _ _ => False

/-- The updates that find a place in the queue. -/
def room (takes : Nat) (d : ClientParams.Data) : Nat :=
  64 - d.mClientsToPluginQueue.elems.length + takes

/-- The updates of the call that are newer than all before find a place in the queue. -/
def HasRoom (b : Backend κ) (hash : Hash) : Request κ → Prop
  | .serverEventStream _ _ => True
  | .clientEventCall _ => True
  | .clientParamCall request takes =>
    let d := (b.queues hash).params
    (RunningMax.runningMaxima ClientParams.stampOf d.mLastClientStamp request).length ≤
      room takes d

end Promise

/-! ## The push of parameters -/

open ClientParams in
theorem pushWait_of_lt (p : Api.ClientParam) (takes : Nat) {d : Data}
    (h : d.mClientsToPluginQueue.elems.length < 64) :
    ∃ d', pushWait p takes d = (true, takes, d') ∧
      d'.mClientsToPluginQueue.elems.length = d.mClientsToPluginQueue.elems.length + 1 ∧
      d'.mLastClientStamp = d.mLastClientStamp := by
  unfold pushWait
  simp only [pushClientParamTry, BoundedFifo.push, h, dif_pos]
  exact ⟨_, rfl, List.length_append, rfl⟩

open ClientParams in
theorem pushWait_of_room {p : Api.ClientParam} {takes : Nat} {d : Data}
    (h : 0 < room takes d) :
    ∃ takes' d', pushWait p takes d = (true, takes', d') ∧
      room takes' d' + 1 = room takes d ∧ d'.mLastClientStamp = d.mLastClientStamp := by
  have hb := d.mClientsToPluginQueue.bounded
  by_cases hlt : d.mClientsToPluginQueue.elems.length < 64
  · rcases pushWait_of_lt p takes hlt with ⟨d', heq, hlen, hlast⟩
    refine ⟨takes, d', heq, ?_, hlast⟩
    simp only [room]
    omega
  · cases takes with
    | zero =>
      simp only [room] at h
      omega
    | succ takes =>
      -- the entry taken out makes room for this one
      have hpop : d.mClientsToPluginQueue.pop.2.elems.length < 64 := by
        rw [BoundedFifo.pop_snd_elems, List.length_tail]
        omega
      rcases pushWait_of_lt p takes
        (d := { d with mClientsToPluginQueue := d.mClientsToPluginQueue.pop.2 }) hpop
        with ⟨d', heq, hlen, hlast⟩
      refine ⟨takes, d', ?_, ?_, hlast⟩
      · unfold pushWait
        simp only [pushClientParamTry, BoundedFifo.push, hlt, dif_neg, not_false_eq_true]
        exact heq
      · rw [BoundedFifo.pop_snd_elems, List.length_tail] at hlen
        simp only [room]
        omega

open ClientParams in
theorem pushWait_of_full {p : Api.ClientParam} {takes : Nat} {d : Data}
    (h : room takes d = 0) : ∃ takes' d', pushWait p takes d = (false, takes', d') := by
  obtain ⟨hlen, rfl⟩ : ¬ d.mClientsToPluginQueue.elems.length < 64 ∧ takes = 0 := by
    simp only [room] at h
    omega
  unfold pushWait
  simp only [pushClientParamTry, BoundedFifo.push, hlen, dif_neg, not_false_eq_true]
  exact ⟨_, _, rfl⟩

/-- The loop ends exactly when there is room for the updates that are newer than all before. -/
theorem pushClientParam_fst (ev : Api.ClientParams) (takes : Nat) (d : ClientParams.Data) :
    (pushClientParam ev takes d).1 = true ↔
      (RunningMax.runningMaxima ClientParams.stampOf d.mLastClientStamp ev).length ≤
        room takes d := by
  induction ev generalizing takes d with
  | nil => simp [pushClientParam]
  | cons p todo ih =>
    have hstamp : (⟨p.timestamp.seconds, p.timestamp.nanos⟩ : Stamp) = ClientParams.stampOf p :=
      rfl
    rw [RunningMax.runningMaxima_cons]
    simp only [pushClientParam, ClientParams.pushClientParamFilter, Stamp.setIfNewer_eq, hstamp]
    by_cases hnew : d.mLastClientStamp < ClientParams.stampOf p
    · simp only [hnew, if_true, List.length_cons]
      rcases Nat.eq_zero_or_pos (room takes
        { d with mLastClientStamp := ClientParams.stampOf p }) with hzero | hpos
      · rcases pushWait_of_full (p := p) hzero with ⟨takes', d', heq⟩
        have hroom : room takes d = 0 := hzero
        simp [heq, hroom]
      · rcases pushWait_of_room (p := p) hpos with ⟨takes', d', heq, hroom, hlast⟩
        have hroom : room takes' d' + 1 = room takes d := hroom
        simp only [heq]
        rw [ih, hlast, ← hroom]
        exact Nat.add_le_add_iff_right.symm
    · simp only [hnew, if_false]
      exact ih takes d

/-! ## What becomes of a call -/

section Calls

variable {κ : Type} [LinearOrder κ]

/-- Without metadata the call is refused. -/
theorem process_absent {b : Backend κ} {metadata : GrpcMetadata}
    (habsent : extractMetadata metadata PluginHashId = none) (req : Request κ) :
    (process b metadata req).1.IsError ∧ (process b metadata req).2 = b := by
  cases req with
  | serverEventStream this cq =>
    simp only [process, serverEventStream, connectClient, habsent]
    exact ⟨by simp [ServerEventStream.process, ServerEventStream.connectClient, runEffect,
      Outcome.IsError], rfl⟩
  | clientEventCall event =>
    simp [process, ClientEventCallHandler.handleEvent, handleEvent, habsent, answer,
      Outcome.IsError]
  | clientParamCall request takes =>
    simp [process, ClientParamCall.handleEvent, handleEvent, habsent, answer, Outcome.IsError]

/-- What `stoull` throws leaves the handler. -/
theorem process_threw {b : Backend κ} {metadata : GrpcMetadata} {id : StdString}
    {e : StoullError} (hid : extractMetadata metadata PluginHashId = some id)
    (hread : stoull id = .error e) (req : Request κ) : process b metadata req = (.threw e, b) := by
  cases req with
  | serverEventStream this cq => simp only [process, serverEventStream, connectClient, hid, hread]
  | clientEventCall event =>
    simp only [process, ClientEventCallHandler.handleEvent, handleEvent, hid, hread, answer]
  | clientParamCall request takes =>
    simp only [process, ClientParamCall.handleEvent, handleEvent, hid, hread, answer]

/-- A hash that is not registered is refused. -/
theorem process_unregistered {b : Backend κ} {metadata : GrpcMetadata} {id : StdString}
    {hash : Hash} (hid : extractMetadata metadata PluginHashId = some id)
    (hread : stoull id = .ok hash) (hnone : b.ctrl.mSharedData.find? hash = none)
    (req : Request κ) :
    (process b metadata req).1.IsError ∧ (process b metadata req).2 = b := by
  cases req with
  | serverEventStream this cq =>
    simp only [process, serverEventStream, connectClient, ServerCtrl.connectClient, hid, hread,
      hnone]
    exact ⟨by simp [ServerEventStream.process, ServerEventStream.connectClient, runEffect,
      Outcome.IsError], rfl⟩
  | clientEventCall event =>
    simp [process, ClientEventCallHandler.handleEvent, handleEvent, hid, hread,
      ServerCtrl.getSharedData, hnone, answer, Outcome.IsError]
  | clientParamCall request takes =>
    simp [process, ClientParamCall.handleEvent, handleEvent, hid, hread,
      ServerCtrl.getSharedData, hnone, answer, Outcome.IsError]

/-- A stream is connected to the plugin with the hash, unless it is in its set. -/
theorem connectClient_registered {c : ServerCtrl κ} {hash : Hash} {sharedData : SharedData κ}
    (hfind : c.mSharedData.find? hash = some sharedData) (this : κ) :
    this ∈ sharedData.streams.toList ∧ c.connectClient this hash = (false, c) ∨
      this ∉ sharedData.streams.toList ∧
        ∃ c' sharedData', c.connectClient this hash = (true, c') ∧
          c'.mSharedData.find? hash = some sharedData' := by
  simp only [ServerCtrl.connectClient, hfind]
  by_cases hmem : this ∈ sharedData.streams.toList
  · left
    refine ⟨hmem, ?_⟩
    simp only [SharedData.addStream, OrdSet.insert, OrdMap.emplace_of_mem hmem]
    rw [OrdMap.modify_eq_self hfind rfl]
  · right
    have hnew : (sharedData.addStream this).1 = true := OrdMap.emplace_fst_of_not_mem hmem ()
    rw [hnew]
    exact ⟨hmem, _, _, rfl, OrdMap.find?_modify hfind fun _ => (sharedData.addStream this).2⟩

/-- A registered hash is served, whatever text it was read from. -/
theorem process_registered {b : Backend κ} {metadata : GrpcMetadata} {id : StdString}
    {hash : Hash} {sharedData : SharedData κ}
    (hid : extractMetadata metadata PluginHashId = some id) (hread : stoull id = .ok hash)
    (hfind : b.ctrl.mSharedData.find? hash = some sharedData) (req : Request κ) :
    Refused b hash req ∧ (process b metadata req).1.IsError ∧ (process b metadata req).2 = b ∨
      ¬ Refused b hash req ∧ HasRoom b hash req ∧ (process b metadata req).1.Accepts ∨
      ¬ Refused b hash req ∧ ¬ HasRoom b hash req ∧ (process b metadata req).1 = .blocked := by
  cases req with
  | serverEventStream this cq =>
    simp only [process, serverEventStream, connectClient, hid, hread]
    rcases connectClient_registered hfind this with ⟨hmem, heq⟩ | ⟨hmem, c', d', heq, hfind'⟩
    · left
      refine ⟨⟨sharedData, hfind, hmem⟩, ?_⟩
      simp only [heq]
      exact ⟨by simp [ServerEventStream.process, ServerEventStream.connectClient, runEffect,
        Outcome.IsError], rfl⟩
    · right
      left
      refine ⟨?_, trivial, ?_⟩
      · rintro ⟨d, hd, hin⟩
        obtain rfl : sharedData = d := Option.some.inj (hfind.symm.trans hd)
        exact hmem hin
      · simp only [heq, ServerCtrl.getSharedData, hfind']
        simp [ServerEventStream.process, ServerEventStream.connectClient, runEffect,
          Outcome.Accepts]
  | clientEventCall event =>
    simp only [process, ClientEventCallHandler.handleEvent, handleEvent, hid, hread,
      ServerCtrl.getSharedData, hfind, deliverEvent, Handshake.blockingPushClientEvent]
    have hfst := (b.queues hash).mBlockingClientEventQueue.tryEnqueue_fst event
    by_cases hslot : 0 < (b.queues hash).mBlockingClientEventQueue.slots
    · right
      left
      refine ⟨Nat.ne_of_gt hslot, trivial, ?_⟩
      rw [decide_eq_true hslot] at hfst
      generalize (b.queues hash).mBlockingClientEventQueue.tryEnqueue event = r at hfst
      rcases r with ⟨ok, queue⟩
      obtain rfl : ok = true := hfst
      simp [answer, Outcome.Accepts]
    · left
      refine ⟨Nat.eq_zero_of_not_pos hslot, ?_⟩
      rw [decide_eq_false hslot] at hfst
      simp [BlkRingQueue.Allocated.tryEnqueue_refused hfst, answer, Outcome.IsError,
        Backend.setQueues]
  | clientParamCall request takes =>
    simp only [process, ClientParamCall.handleEvent, handleEvent, hid, hread,
      ServerCtrl.getSharedData, hfind, deliverParams]
    right
    have hroom := pushClientParam_fst request takes (b.queues hash).params
    rcases hpush : pushClientParam request takes (b.queues hash).params with ⟨ok, params⟩
    rw [hpush] at hroom
    cases ok with
    | true => exact Or.inl ⟨not_false, hroom.mp rfl, rfl⟩
    | false => exact Or.inr ⟨not_false, fun h => Bool.noConfusion (hroom.mpr h), rfl⟩

/-- An answer with an error that changes nothing is always right. -/
theorem Authenticated.of_error {b : Backend κ} {metadata : GrpcMetadata}
    {o : Outcome × Backend κ} (h : o.1.IsError ∧ o.2 = b) : Authenticated b metadata o where
  ends := Or.inr h.1
  accepts := by
    intro hacc
    rcases o with ⟨o, b'⟩
    cases o <;> simp_all [Outcome.IsError, Outcome.Accepts]
  refuses := fun _ => h

/-- What is accepted is right if it is authentic. -/
theorem authenticated_of_accepts {b : Backend κ} {metadata : GrpcMetadata}
    {o : Outcome × Backend κ} (h : o.1.Accepts) :
    Authenticated b metadata o ↔ Authentic b metadata := by
  constructor
  · intro hauth
    exact hauth.accepts h
  · intro hauth
    exact ⟨Or.inl h, fun _ => hauth, fun hnot => absurd hauth hnot⟩

/-- Of the texts that are read as a registered hash one is authentic. -/
theorem authentic_iff {b : Backend κ} {metadata : GrpcMetadata} {id : StdString} {hash : Hash}
    (hid : extractMetadata metadata PluginHashId = some id) (hread : stoull id = .ok hash)
    (hmem : hash ∈ b.ctrl.mSharedData.keys) :
    Authentic b metadata ↔ id = to_string hash := by
  constructor
  · rintro ⟨hash', -, htext⟩
    obtain rfl : id = to_string hash' := Option.some.inj (hid.symm.trans htext)
    rw [stoull_to_string] at hread
    rw [Except.ok.inj hread]
  · rintro rfl
    exact ⟨hash, hmem, hid⟩

/-- The metadata is absent; or `stoull` reads a number from it that is the hash of no plugin,
or the hash of one for which the text is its `to_string` and there is room, or that the call
is refused by for another reason. -/
def Orderly (b : Backend κ) (metadata : GrpcMetadata) (req : Request κ) : Prop :=
  extractMetadata metadata PluginHashId = none ∨
    ∃ id hash, extractMetadata metadata PluginHashId = some id ∧ stoull id = .ok hash ∧
      (hash ∉ b.ctrl.mSharedData.keys ∨ Refused b hash req ∨
        id = to_string hash ∧ HasRoom b hash req)

/-- The handlers authenticate a call as promised exactly when its metadata is orderly. -/
theorem authenticated_iff (b : Backend κ) (metadata : GrpcMetadata) (req : Request κ) :
    Authenticated b metadata (process b metadata req) ↔ Orderly b metadata req := by
  cases hid : extractMetadata metadata PluginHashId with
  | none =>
    refine iff_of_true ?_ (Or.inl hid)
    exact .of_error (process_absent hid req)
  | some id =>
    cases hread : stoull id with
    | error e =>
      refine iff_of_false ?_ ?_
      · intro hauth
        rw [process_threw hid hread] at hauth
        exact hauth.ends.elim False.elim False.elim
      · rintro (habsent | ⟨id', hash, hid', hread', -⟩)
        · cases hid.symm.trans habsent
        · cases hid.symm.trans hid'
          cases hread.symm.trans hread'
    | ok hash =>
      -- the text is read, so only the last part of the condition is left
      have horderly : Orderly b metadata req ↔ hash ∉ b.ctrl.mSharedData.keys ∨
          Refused b hash req ∨ id = to_string hash ∧ HasRoom b hash req := by
        constructor
        · rintro (habsent | ⟨id', hash', hid', hread', hcond⟩)
          · cases hid.symm.trans habsent
          · cases hid.symm.trans hid'
            cases hread.symm.trans hread'
            exact hcond
        · intro hcond
          exact Or.inr ⟨id, hash, hid, hread, hcond⟩
      rw [horderly]
      cases hfind : b.ctrl.mSharedData.find? hash with
      | none =>
        exact iff_of_true (.of_error (process_unregistered hid hread hfind req))
          (Or.inl (OrdMap.find?_eq_none.mp hfind))
      | some sharedData =>
        have hmem := OrdMap.mem_keys_of_find? hfind
        rcases process_registered hid hread hfind req with
          ⟨hrefused, herror⟩ | ⟨hnot, hroom, hacc⟩ | ⟨hnot, hroom, hblocked⟩
        · exact iff_of_true (.of_error herror) (Or.inr (Or.inl hrefused))
        · rw [authenticated_of_accepts hacc, authentic_iff hid hread hmem]
          simp [hmem, hnot, hroom]
        · refine iff_of_false ?_ (by simp [hmem, hnot, hroom])
          intro hauth
          rcases hauth.ends with h | h
          · rw [hblocked] at h
            exact h
          · rw [hblocked] at h
            exact h

end Calls

/-- A client that sends `x` ends the thread of the completion queue. -/
theorem authenticated_fails :
    ¬ ∀ (b : Backend Nat) (metadata : GrpcMetadata) (req : Request Nat),
      Authenticated b metadata (process b metadata req) := by
  intro h
  have hx := h {} [(PluginHashId, [120])] (.clientEventCall .guiCreate)
  have hid : extractMetadata [(PluginHashId, [120])] PluginHashId = some [120] := by
    simp [extractMetadata]
  have hread : stoull [120] = .error .invalid_argument := by decide
  rw [process_threw hid hread] at hx
  exact hx.ends.elim False.elim False.elim

end Metadata

end ClapRci
