import Mathlib.Data.List.Basic
import Mathlib.Tactic.Common
import ClapRci.Lib.ActionSystem
import ClapRci.Server.Wrappers

/-!
# A client's event stream (`server/tags/servereventstream.cpp`)

`ServerEventStream` answers completions by calls on the objects around it. Its handlers
return these calls as a list of effects, in call order, so that they can be run against
one stream and what gRPC owes it (`spec` below) as well as against the completion queue
with all its streams.
-/

namespace ClapRci

/-- The `grpc::StatusCode`s a stream finishes with. -/
inductive StatusCode where
  | OK | UNAUTHENTICATED
deriving DecidableEq

/-- `grpc::Status`. -/
structure Status where
  code : StatusCode
  message : String
deriving DecidableEq

namespace ServerEventStream

/-- `ServerEventStream::State`. -/
inductive State where
  | CONNECT | WRITE | DISCONNECT | FINISH
deriving DecidableEq

/-- The operations started with the stream's own tag: the request for a call, writes and
finishes on `stream`, and the alarm. Each completes once. -/
inductive Op where
  | request
  | write (evs : Api.ServerEvents)
  | finish (status : Status)
  | alarm
deriving DecidableEq

def Op.isFinish : Op → Bool
  | .finish _ => true
  | _ => false

def Op.isWrite : Op → Bool
  | .write _ => true
  | _ => false

/-- How `connectClient()` can end: the metadata is missing, or no plugin has the hash
(`rejected`); the plugin took the stream but was removed before its data was looked up
(`orphaned`); or all went well. -/
inductive ConnectResult where
  | rejected | orphaned | connected
deriving DecidableEq

/-- The calls a handler of the stream makes. -/
inductive Effect where
  /-- An operation is started with the stream as its tag. -/
  | start (op : Op)
  /-- `parent->create<ServerEventStream>()` -/
  | create
  /-- `connectClient` put the stream into the set of its `SharedData`. -/
  | addStream
  /-- `sharedData->tryStartPolling()` -/
  | tryStartPolling
  /-- `sharedData->removeStream(this)` -/
  | removeStream
  /-- `parent->destroyTag(hash())` -/
  | destroyTag
deriving DecidableEq

end ServerEventStream

/-- The members of `ServerEventStream` its behaviour depends on; of `sharedData` it is
whether the pointer is set. -/
structure ServerEventStream where
  state : ServerEventStream.State := .CONNECT
  sharedData : Bool := false
  response : Api.ServerEvents := []
deriving DecidableEq

namespace ServerEventStream

/-! ## The handlers -/

/-- `kill()`. -/
def kill (s : ServerEventStream) : List Effect :=
  (if s.sharedData then [.removeStream] else []) ++ [.destroyTag]

/-- `connectClient()`: the result, the stream, and what it did to the registry. The
metadata and the registry are outside; what they lead to is an argument. -/
def connectClient (s : ServerEventStream) :
    ConnectResult → Bool × ServerEventStream × List Effect
  | .rejected => (false, s, [])
  | .orphaned => (false, s, [.addStream])
  | .connected => (true, { s with sharedData := true }, [.addStream])

/-- `process(ok)`. -/
def process (s : ServerEventStream) (ok : Bool) (connect : ConnectResult) :
    ServerEventStream × List Effect :=
  match s.state with
  | .CONNECT =>
    if !ok then (s, s.kill)
    else
      -- a new stream waits for the next client while this one is served
      match s.connectClient connect with
      | (false, s, effs) =>
        ({ s with state := .FINISH }, [.create] ++ effs ++
          [.start (.finish ⟨.UNAUTHENTICATED, "Couldn't authenticate client"⟩)])
      | (true, s, effs) =>
        ({ s with state := .WRITE }, [.create] ++ effs ++ [.tryStartPolling])
  | .WRITE =>
    if !ok then
      ({ s with state := .DISCONNECT }, [.start (.finish ⟨.OK, "Client Write Finished"⟩)])
    else (s, [])
  -- entered by the alarm of `endStream`, but also by whatever completes after a failed write
  | .DISCONNECT =>
    ({ s with state := .FINISH }, [.start (.finish ⟨.OK, "Client Disconnected"⟩)])
  | .FINISH => (s, s.kill)

/-- The function the constructor gives to `AsyncNotifyWhenDone`; `kill()` is commented
out there. -/
def onDone (s : ServerEventStream) : ServerEventStream := { s with state := .FINISH }

/-- `sendEventNow(ev)`. -/
def sendEventNow (s : ServerEventStream) (ev : Api.ServerEvent) :
    Bool × ServerEventStream × List Effect :=
  if s.state ≠ .WRITE then (false, s, [])
  else (true, { s with response := [ev] }, [.start (.write [ev])])

/-- `sendEvents(evs)`. -/
def sendEvents (s : ServerEventStream) (evs : Api.ServerEvents) :
    Bool × ServerEventStream × List Effect :=
  if s.state ≠ .WRITE then (false, s, [])
  else (true, s, [.start (.write evs)])

/-- `endStream()`. -/
def endStream (s : ServerEventStream) : Bool × ServerEventStream × List Effect :=
  if s.state ≠ .WRITE then (false, s, [])
  else (true, { s with state := .DISCONNECT }, [.start .alarm])

/-! ## One stream and what gRPC owes it -/

/-- The notification of `AsyncNotifyWhenDone`: gRPC delivers it once if a call was
accepted, and not at all otherwise. -/
inductive Done where
  | idle | outstanding | delivered
deriving DecidableEq

/-- A stream with the operations of its tag that have not completed, and all it ever
started. -/
structure Call where
  obj : ServerEventStream := {}
  outstanding : List Op := [.request]
  done : Done := .idle
  started : List Op := [.request]
deriving DecidableEq

/-- A stream, whether `pendingTags` holds it, and whether a set `streams` does. -/
structure Sys where
  call : Call := {}
  pendingTag : Bool := true
  inStreams : Bool := false
deriving DecidableEq

/-- Start an operation. -/
def Call.start (c : Call) (op : Op) : Call :=
  { c with outstanding := c.outstanding ++ [op], started := c.started ++ [op] }

/-- Assign `state`. -/
def Call.setState (c : Call) (state : State) : Call :=
  { c with obj := { c.obj with state := state } }

/-- What one effect does to the stream and the places that hold it. -/
def Sys.apply (s : Sys) : Effect → Sys
  | .start op => { s with call := s.call.start op }
  | .addStream => { s with inStreams := true }
  | .removeStream => { s with inStreams := false }
  | .destroyTag => { s with pendingTag := false }
  | .create | .tryStartPolling => s

/-- All effects of a handler, in order. -/
def Sys.applyAll (s : Sys) (effs : List Effect) : Sys := effs.foldl Sys.apply s

/-- The `k`-th outstanding operation leaves the completion queue. A request that succeeds
makes the notification of the call's end due. -/
def Call.complete (c : Call) (k : Nat) (ok : Bool) : Option Call :=
  match c.outstanding[k]? with
  | none => none
  | some op =>
    some { c with
      outstanding := c.outstanding.eraseIdx k
      done := if op = .request ∧ ok then .outstanding else c.done }

/-- What happens to one stream. -/
inductive Lbl where
  | complete (k : Nat) (ok : Bool) (connect : ConnectResult)
  | done
  | sendEventNow (ev : Api.ServerEvent)
  | sendEvents (evs : Api.ServerEvents)
  | endStream
deriving DecidableEq

/-- One event. Completions are delivered in any order. One that refers to a stream no
longer in `pendingTags` refers to freed memory; here it only leaves the queue. Sends and
`endStream` come from those who hold the stream in a set of streams. -/
def step (s : Sys) : Lbl → Option Sys
  | .complete k ok connect =>
    match s.call.complete k ok with
    | none => none
    | some c =>
      if s.pendingTag then
        let (obj, effs) := c.obj.process ok connect
        some (Sys.applyAll { s with call := { c with obj := obj } } effs)
      else some { s with call := c }
  | .done =>
    if s.call.done = .outstanding then
      some { s with call := { s.call with
        done := .delivered
        obj := if s.pendingTag then s.call.obj.onDone else s.call.obj } }
    else none
  | .sendEventNow ev =>
    if s.pendingTag ∧ s.inStreams then
      let (_, obj, effs) := s.call.obj.sendEventNow ev
      some (Sys.applyAll { s with call := { s.call with obj := obj } } effs)
    else none
  | .sendEvents evs =>
    if s.pendingTag ∧ s.inStreams then
      let (_, obj, effs) := s.call.obj.sendEvents evs
      some (Sys.applyAll { s with call := { s.call with obj := obj } } effs)
    else none
  | .endStream =>
    if s.pendingTag ∧ s.inStreams then
      let (_, obj, effs) := s.call.obj.endStream
      some (Sys.applyAll { s with call := { s.call with obj := obj } } effs)
    else none

/-- A stream from `create<ServerEventStream>()` on: its request is posted. -/
def spec : ActionSystem.Spec Sys Lbl where
  Init s := s = {}
  step := step

/-! ## What a step can do -/

section Fields

variable (c : Call) (op : Op) (state : State)

@[simp] theorem Call.start_obj : (c.start op).obj = c.obj := rfl
@[simp] theorem Call.start_outstanding : (c.start op).outstanding = c.outstanding ++ [op] := rfl
@[simp] theorem Call.start_done : (c.start op).done = c.done := rfl
@[simp] theorem Call.start_started : (c.start op).started = c.started ++ [op] := rfl
@[simp] theorem Call.setState_state : (c.setState state).obj.state = state := rfl
@[simp] theorem Call.setState_outstanding :
    (c.setState state).outstanding = c.outstanding := rfl
@[simp] theorem Call.setState_done : (c.setState state).done = c.done := rfl
@[simp] theorem Call.setState_started : (c.setState state).started = c.started := rfl

end Fields

/-- `kill()` takes the stream from the handler, and from the set its pointer leads to. -/
def Sys.killed (s : Sys) : Sys :=
  { s with pendingTag := false, inStreams := s.inStreams && !s.call.obj.sharedData }

@[simp] theorem Sys.killed_call (s : Sys) : s.killed.call = s.call := rfl
@[simp] theorem Sys.killed_pendingTag (s : Sys) : s.killed.pendingTag = false := rfl
@[simp] theorem Sys.killed_inStreams (s : Sys) :
    s.killed.inStreams = (s.inStreams && !s.call.obj.sharedData) := rfl

/-- The two calls of `kill()` are all that happens to a stream that is killed. -/
theorem Sys.applyAll_kill (s : Sys) : s.applyAll s.call.obj.kill = s.killed := by
  rcases s with ⟨⟨⟨state, sharedData, response⟩, outstanding, done, started⟩, tag, inStreams⟩
  cases sharedData <;> cases inStreams <;> rfl

/-- A completion taken off the queue leaves the stream and its history alone. -/
theorem Call.complete_spec {c c' : Call} {k : Nat} {ok : Bool} (h : c.complete k ok = some c') :
    ∃ op, c.outstanding[k]? = some op ∧
      c' = { c with
        outstanding := c.outstanding.eraseIdx k
        done := if op = .request ∧ ok then .outstanding else c.done } := by
  unfold Call.complete at h
  split at h
  · cases h
  · rename_i op hop
    cases h
    exact ⟨op, hop, rfl⟩

theorem Call.complete_obj {c c' : Call} {k : Nat} {ok : Bool}
    (h : c.complete k ok = some c') : c'.obj = c.obj := by
  rcases Call.complete_spec h with ⟨op, -, rfl⟩
  rfl

theorem Call.complete_started {c c' : Call} {k : Nat} {ok : Bool}
    (h : c.complete k ok = some c') : c'.started = c.started := by
  rcases Call.complete_spec h with ⟨op, -, rfl⟩
  rfl

/-- What is started in answer to a completion is added to what was started before. -/
theorem Call.complete_start_started {c c' : Call} {k : Nat} {ok : Bool}
    (h : c.complete k ok = some c') (state : State) (op : Op) :
    ((c'.setState state).start op).started = c.started ++ [op] := by
  rw [Call.start_started, Call.setState_started, Call.complete_started h]

/-- The steps of a stream, case by case; `c` is the call with the completed operation
taken off the queue. -/
inductive Moves (s : Sys) : Lbl → Sys → Prop where
  | stale {k ok connect c} (hc : s.call.complete k ok = some c) (htag : s.pendingTag = false) :
    Moves s (.complete k ok connect) { s with call := c }
  | refused {k connect c} (hc : s.call.complete k false = some c) (htag : s.pendingTag = true)
    (hstate : s.call.obj.state = .CONNECT) :
    Moves s (.complete k false connect) (Sys.killed { s with call := c })
  | rejected {k c} (hc : s.call.complete k true = some c) (htag : s.pendingTag = true)
    (hstate : s.call.obj.state = .CONNECT) :
    Moves s (.complete k true .rejected) { s with
      call := (c.setState .FINISH).start
        (.finish ⟨.UNAUTHENTICATED, "Couldn't authenticate client"⟩) }
  | orphaned {k c} (hc : s.call.complete k true = some c) (htag : s.pendingTag = true)
    (hstate : s.call.obj.state = .CONNECT) :
    Moves s (.complete k true .orphaned) { s with
      call := (c.setState .FINISH).start
        (.finish ⟨.UNAUTHENTICATED, "Couldn't authenticate client"⟩)
      inStreams := true }
  | connected {k c} (hc : s.call.complete k true = some c) (htag : s.pendingTag = true)
    (hstate : s.call.obj.state = .CONNECT) :
    Moves s (.complete k true .connected) { s with
      call := { c with obj := { c.obj with state := .WRITE, sharedData := true } }
      inStreams := true }
  | written {k connect c} (hc : s.call.complete k true = some c) (htag : s.pendingTag = true)
    (hstate : s.call.obj.state = .WRITE) :
    Moves s (.complete k true connect) { s with call := c }
  | writeFailed {k connect c} (hc : s.call.complete k false = some c)
    (htag : s.pendingTag = true) (hstate : s.call.obj.state = .WRITE) :
    Moves s (.complete k false connect) { s with
      call := (c.setState .DISCONNECT).start (.finish ⟨.OK, "Client Write Finished"⟩) }
  | disconnected {k ok connect c} (hc : s.call.complete k ok = some c)
    (htag : s.pendingTag = true) (hstate : s.call.obj.state = .DISCONNECT) :
    Moves s (.complete k ok connect) { s with
      call := (c.setState .FINISH).start (.finish ⟨.OK, "Client Disconnected"⟩) }
  | finished {k ok connect c} (hc : s.call.complete k ok = some c)
    (htag : s.pendingTag = true) (hstate : s.call.obj.state = .FINISH) :
    Moves s (.complete k ok connect) (Sys.killed { s with call := c })
  | done (hdone : s.call.done = .outstanding) (htag : s.pendingTag = true) :
    Moves s .done { s with call := { s.call.setState .FINISH with done := .delivered } }
  | staleDone (hdone : s.call.done = .outstanding) (htag : s.pendingTag = false) :
    Moves s .done { s with call := { s.call with done := .delivered } }
  | sentNow {ev} (htag : s.pendingTag = true) (hin : s.inStreams = true)
    (hstate : s.call.obj.state = .WRITE) :
    Moves s (.sendEventNow ev) { s with
      call := Call.start { s.call with obj := { s.call.obj with response := [ev] } }
        (.write [ev]) }
  | sent {evs} (htag : s.pendingTag = true) (hin : s.inStreams = true)
    (hstate : s.call.obj.state = .WRITE) :
    Moves s (.sendEvents evs) { s with call := s.call.start (.write evs) }
  | ended (htag : s.pendingTag = true) (hin : s.inStreams = true)
    (hstate : s.call.obj.state = .WRITE) :
    Moves s .endStream { s with call := (s.call.setState .DISCONNECT).start .alarm }
  | notSent {l} (hl : ∀ k ok connect, l ≠ .complete k ok connect) (hdone : l ≠ .done)
    (htag : s.pendingTag = true) (hin : s.inStreams = true)
    (hstate : s.call.obj.state ≠ .WRITE) : Moves s l s

/-- A send leaves the stream as it is. -/
@[simp] theorem sendEvents_obj (s : ServerEventStream) (evs : Api.ServerEvents) :
    (s.sendEvents evs).2.1 = s := by
  unfold sendEvents
  split <;> rfl

theorem step_complete {s s' : Sys} {k : Nat} {ok : Bool} {connect : ConnectResult}
    (h : step s (.complete k ok connect) = some s') :
    Moves s (.complete k ok connect) s' := by
  simp only [step] at h
  split at h
  · cases h
  rename_i c hc
  rcases s with ⟨⟨⟨state, sharedData, response⟩, outstanding, done, started⟩, tag, inStreams⟩
  rcases c with ⟨obj, outstanding', done', started'⟩
  obtain rfl : obj = ⟨state, sharedData, response⟩ := Call.complete_obj hc
  -- one case for each branch of `process`, which then computes
  cases tag
  case false =>
    cases h
    exact .stale hc rfl
  cases h
  cases state
  case CONNECT =>
    cases ok
    · have hkill := Sys.applyAll_kill
        ⟨⟨⟨.CONNECT, sharedData, response⟩, outstanding', done', started'⟩, true, inStreams⟩
      exact hkill ▸ .refused hc rfl rfl
    · cases connect
      · exact .rejected hc rfl rfl
      · exact .orphaned hc rfl rfl
      · exact .connected hc rfl rfl
  case WRITE =>
    cases ok
    · exact .writeFailed hc rfl rfl
    · exact .written hc rfl rfl
  case DISCONNECT => exact .disconnected hc rfl rfl
  case FINISH =>
    have hkill := Sys.applyAll_kill
      ⟨⟨⟨.FINISH, sharedData, response⟩, outstanding', done', started'⟩, true, inStreams⟩
    exact hkill ▸ .finished hc rfl rfl

/-- The inversion lemma: a step is one of the moves. -/
theorem step_moves {s s' : Sys} {l : Lbl} (h : step s l = some s') : Moves s l s' := by
  cases l with
  | complete k ok connect => exact step_complete h
  | done =>
    simp only [step] at h
    split at h
    · rename_i hdone
      cases h
      cases htag : s.pendingTag
      · have hmove := Moves.staleDone hdone htag
        simpa [htag] using hmove
      · have hmove := Moves.done hdone htag
        simpa [htag, onDone, Call.setState] using hmove
    · cases h
  | sendEventNow ev =>
    simp only [step] at h
    split at h
    · rename_i hguard
      cases h
      by_cases hstate : s.call.obj.state = .WRITE
      · simpa [sendEventNow, hstate, Sys.applyAll, Sys.apply]
          using (Moves.sentNow hguard.1 hguard.2 hstate : Moves s (.sendEventNow ev) _)
      · simpa [sendEventNow, hstate, Sys.applyAll]
          using Moves.notSent (l := .sendEventNow ev) nofun nofun hguard.1 hguard.2 hstate
    · cases h
  | sendEvents evs =>
    simp only [step] at h
    split at h
    · rename_i hguard
      cases h
      by_cases hstate : s.call.obj.state = .WRITE
      · simpa [sendEvents, hstate, Sys.applyAll, Sys.apply]
          using (Moves.sent hguard.1 hguard.2 hstate : Moves s (.sendEvents evs) _)
      · simpa [sendEvents, hstate, Sys.applyAll]
          using Moves.notSent (l := .sendEvents evs) nofun nofun hguard.1 hguard.2 hstate
    · cases h
  | endStream =>
    simp only [step] at h
    split at h
    · rename_i hguard
      cases h
      by_cases hstate : s.call.obj.state = .WRITE
      · simpa [endStream, hstate, Sys.applyAll, Sys.apply, Call.setState]
          using Moves.ended hguard.1 hguard.2 hstate
      · simpa [endStream, hstate, Sys.applyAll]
          using Moves.notSent (l := .endStream) nofun nofun hguard.1 hguard.2 hstate
    · cases h

end ServerEventStream

end ClapRci
