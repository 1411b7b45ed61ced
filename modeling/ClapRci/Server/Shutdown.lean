import ClapRci.Server.StreamCq
import ClapRci.Server.UnaryCalls

/-!
# Stopping the server (`server/server.cpp`, `server/cqeventhandler.cpp`)

`Server::stop` cancels the pending alarms, shuts the server down and then each completion
queue, which it drains itself while the queue's own thread may still be at work. Handlers
start their operations one after the other here, so that the stop can come between any two.

* `handle_eq_nil_iff`: which completions lead to no operation;
* `startsInTime_iff`: no operation is started after its queue's `Shutdown`, however the
  handlers under way go on, exactly when `Shutdown` finds no handler with something left to
  start and what is drained afterwards leads to no operation.
-/

namespace ClapRci.Shutdown

open ServerEventStream (ConnectResult Effect)

/-- The queues of `cqHandlers`: the one of the streams, at `PosStreamCq`, and the one of the
unary calls. -/
inductive CqPos where
  | stream | unary
deriving DecidableEq

/-- What the tags of the queues stand for: a stream, the notification that its call has ended, a
poll callback, a unary handler. -/
inductive Tag (ι κ : Type) where
  | stream (st : κ)
  | done (st : κ)
  | poll (i : ι)
  | unary (h : Nat)

/-- The operations started on a queue: those of a stream, its alarm among them; the alarm of a
poll callback; those of a unary handler. -/
inductive Op (ι κ : Type) where
  | stream (st : κ) (op : ServerEventStream.Op)
  | poll (i : ι)
  | unary (h : Nat) (op : UnaryCalls.Op)

def Op.tag {ι κ : Type} : Op ι κ → Tag ι κ
  | .stream st _ => .stream st
  | .poll i => .poll i
  | .unary h _ => .unary h

def Op.isRequest {ι κ : Type} : Op ι κ → Bool
  | .stream _ .request => true
  | .unary _ .request => true
  | _ => false

/-- The alarm of a poll callback is in `pendingAlarmTags`; the one a stream sets is not. -/
def Op.isPendingAlarm {ι κ : Type} : Op ι κ → Bool
  | .poll _ => true
  | _ => false

/-- The objects the handlers work on: the `SharedData` of each plugin with the instance that
`endCallback` has captured, the streams with the addresses used so far, and the unary
handlers by the order of their creation. -/
structure Objs (ι κ : Type) [LinearOrder κ] where
  data : ι → SharedData κ
  endOwner : Option ι := none
  stream : κ → ServerEventStream := fun _ => {}
  born : List κ
  unary : Nat → UnaryCalls.Kind × UnaryCalls.State
  nextUnary : Nat

/-- What is outside the objects when a handler runs: the address of a new stream, the outcome
of `connectClient`, what `tryGetServerStreamCqHandle` finds, what `handleEvent` returns. -/
structure Turn (κ : Type) where
  fresh : κ
  connect : ConnectResult := .rejected
  cq : Option CqHandle := none
  status : UnaryStatus := { code := .OK }

/-! ## The handlers -/

section Handlers

variable {ι κ : Type} [DecidableEq ι] [LinearOrder κ]

def Objs.setData (o : Objs ι κ) (i : ι) (d : SharedData κ) : Objs ι κ :=
  { o with data := Function.update o.data i d }

def Objs.setStream (o : Objs ι κ) (st : κ) (obj : ServerEventStream) : Objs ι κ :=
  { o with stream := Function.update o.stream st obj }

/-- An effect of the stream `st`: the objects, and the operations to start so far. -/
def applyEffect (home : κ → ι) (turn : Turn κ) (st : κ) (r : Objs ι κ × List (Op ι κ)) :
    Effect → Objs ι κ × List (Op ι κ)
  | .start op => (r.1, r.2 ++ [.stream st op])
  | .create =>
    ({ r.1.setStream turn.fresh {} with born := turn.fresh :: r.1.born },
      r.2 ++ [.stream turn.fresh .request])
  | .addStream => (r.1.setData (home st) ((r.1.data (home st)).addStream st).2, r.2)
  | .tryStartPolling =>
    match (r.1.data (home st)).tryStartPolling turn.cq with
    | (_, d, none) => (r.1.setData (home st) d, r.2)
    | (_, d, some _) => (r.1.setData (home st) d, r.2 ++ [.poll (home st)])
  | .removeStream => (r.1.setData (home st) ((r.1.data (home st)).removeStream st).2, r.2)
  | .destroyTag => r

/-- `ServerEventStream::process(ok)`. -/
def processStream (home : κ → ι) (turn : Turn κ) (o : Objs ι κ) (st : κ) (ok : Bool) :
    Objs ι κ × List (Op ι κ) :=
  let (obj, effs) := (o.stream st).process ok turn.connect
  effs.foldl (applyEffect home turn st) (o.setStream st obj, [])

/-- A call of the poll callback on a stream. -/
def applyCall (r : Objs ι κ × List (Op ι κ)) (call : κ × SharedData.StreamCall) :
    Objs ι κ × List (Op ι κ) :=
  let (obj, effs) := StreamCq.callEffects (r.1.stream call.1) call.2
  (r.1.setStream call.1 obj, r.2 ++ effs.filterMap fun
    | .start op => some (.stream call.1 op)
    | _ => none)

/-- `pollCallback(ok)`, the function of an alarm's tag. -/
def processPoll (o : Objs ι κ) (i : ι) (ok : Bool) : Objs ι κ × List (Op ι κ) :=
  let p := (o.data i).pollCallback ok o.stream
  let owner := o.endOwner.getD i
  let o := { o.setData i p.data with endOwner := some owner }
  let (o, ops) := p.calls.foldl applyCall (o, [])
  match p.exit with
  | .ended => (o.setData owner (o.data owner).endCallback, ops)
  | .again _ => (o, ops ++ [.poll i])

/-- An effect of the unary handler `h`. Its `handleEvent` has returned when the `Finish` is
started. -/
def applyUnary (turn : Turn κ) (h : Nat) (r : Objs ι κ × List (Op ι κ)) :
    UnaryCalls.Effect → Objs ι κ × List (Op ι κ)
  | .create kind =>
    ({ r.1 with
      unary := Function.update r.1.unary r.1.nextUnary (kind, .PROCESS)
      nextUnary := r.1.nextUnary + 1 }, r.2 ++ [.unary r.1.nextUnary .request])
  | .handleEvent => (r.1, r.2 ++ [.unary h (.finish turn.status)])
  | .destroyTag => r

/-- `process(ok)` of a unary handler. -/
def processUnary (turn : Turn κ) (o : Objs ι κ) (h : Nat) (ok : Bool) :
    Objs ι κ × List (Op ι κ) :=
  let (kind, state) := o.unary h
  let (state, effs) := UnaryCalls.process kind state ok
  effs.foldl (applyUnary turn h) ({ o with unary := Function.update o.unary h (kind, state) }, [])

/-- The virtual call `tag->process(ok)`: what it does to the objects, which it reads as it
begins, and the operations it starts in turn. -/
def handle (home : κ → ι) (turn : Turn κ) (o : Objs ι κ) (ok : Bool) :
    Tag ι κ → Objs ι κ × List (Op ι κ)
  | .stream st => processStream home turn o st ok
  | .done st => (o.setStream st (o.stream st).onDone, [])
  | .poll i => processPoll o i ok
  | .unary h => processUnary turn o h ok

end Handlers

/-! ## The queues and the stop -/

/-- Who processes the events of a queue: the thread in `run`, and the one in `teardown`. -/
inductive Worker where
  | run | teardown
deriving DecidableEq

/-- A completion queue: the operations that have not completed, with whether their alarm was
cancelled; the events for `Next`; and the operations the handlers under way are to start. -/
structure Cq (ι κ : Type) where
  shutdown : Bool := false
  outstanding : List (Op ι κ × Bool) := []
  ready : List (Tag ι κ × Bool) := []
  todo : Worker → List (Op ι κ) := fun _ => []

/-- Where `Server::stop` is. -/
inductive Stop where
  | running
  | cancelled
  | serverDown
  | teardown (pos : CqPos)
deriving DecidableEq

structure Sys (ι κ : Type) [LinearOrder κ] where
  objs : Objs ι κ
  cq : CqPos → Cq ι κ
  /-- The streams whose call was accepted, and its end not yet notified. -/
  accepted : List κ := []
  stop : Stop := .running

/-- The steps. An operation completes; the end of a call is notified; a worker takes the next
event, or starts the next operation of its handler; the steps of `stop`; and what the
plugins do meanwhile. -/
inductive Lbl (ι κ : Type) where
  | complete (pos : CqPos) (k : Nat) (ok : Bool)
  | notifyDone (st : κ) (ok : Bool)
  | next (pos : CqPos) (w : Worker) (turn : Turn κ)
  | go (pos : CqPos) (w : Worker)
  | cancelAllPendingTags
  | serverShutdown
  | cqShutdown (pos : CqPos)
  | pushProcess (i : ι) (ev : ServerEventWrapper)
  | pushMain (i : ι) (ev : ServerEventWrapper)
  | stopPoll (i : ι)

section Model

variable {ι κ : Type} [DecidableEq ι] [LinearOrder κ]

def Sys.setCq (s : Sys ι κ) (pos : CqPos) (cq : Cq ι κ) : Sys ι κ :=
  { s with cq := Function.update s.cq pos cq }

/-- The flags an operation can complete with: a request succeeds only while the server is
up, and an alarm fails exactly when it was cancelled. -/
def canComplete (stop : Stop) (op : Op ι κ) (cancelled ok : Bool) : Bool :=
  if op.isRequest then !ok || stop = .running || stop = .cancelled
  else if op.isPendingAlarm then ok = !cancelled
  else true

/-- `cancelAllPendingTags()` of a queue. -/
def Cq.cancelAll (cq : Cq ι κ) : Cq ι κ :=
  { cq with outstanding := cq.outstanding.map fun e => (e.1, e.2 || e.1.isPendingAlarm) }

/-- `teardown()` of a queue returns when `Next` finds nothing more to come. -/
def Cq.drained (cq : Cq ι κ) : Bool :=
  cq.outstanding.isEmpty && cq.ready.isEmpty && (cq.todo .teardown).isEmpty

/-- The worker is in `Next` on this queue. -/
def Sys.inNext (s : Sys ι κ) (pos : CqPos) : Worker → Bool
  | .run => ((s.cq pos).todo .run).isEmpty
  | .teardown => s.stop = .teardown pos && ((s.cq pos).todo .teardown).isEmpty

def step (home : κ → ι) (s : Sys ι κ) : Lbl ι κ → Option (Sys ι κ)
  | .complete pos k ok =>
    let cq := s.cq pos
    match cq.outstanding[k]? with
    | none => none
    | some (op, cancelled) =>
      if !canComplete s.stop op cancelled ok then none
      else
        let s := s.setCq pos { cq with
          outstanding := cq.outstanding.eraseIdx k
          ready := cq.ready ++ [(op.tag, ok)] }
        match op, ok with
        | .stream st .request, true => some { s with accepted := s.accepted ++ [st] }
        | _, _ => some s
  | .notifyDone st ok =>
    if s.accepted.contains st then
      let cq := s.cq .stream
      some { s.setCq .stream { cq with ready := cq.ready ++ [(.done st, ok)] } with
        accepted := s.accepted.erase st }
    else none
  | .next pos w turn =>
    let cq := s.cq pos
    match cq.ready with
    | [] => none
    | (tag, ok) :: ready =>
      if !s.inNext pos w || s.objs.born.contains turn.fresh then none
      else
        let (objs, ops) := handle home turn s.objs ok tag
        some { s.setCq pos { cq with
          ready := ready
          todo := Function.update cq.todo w ops } with objs := objs }
  | .go pos w =>
    let cq := s.cq pos
    match cq.todo w with
    | [] => none
    | op :: ops =>
      some (s.setCq pos { cq with
        outstanding := cq.outstanding ++ [(op, false)]
        todo := Function.update cq.todo w ops })
  | .cancelAllPendingTags =>
    match s.stop with
    | .running => some { s with cq := fun pos => (s.cq pos).cancelAll, stop := .cancelled }
    | _ => none
  -- returns once the calls are over, be it that their clients are gone
  | .serverShutdown =>
    match s.stop with
    | .cancelled => some { s with stop := .serverDown }
    | _ => none
  | .cqShutdown .stream =>
    match s.stop with
    | .serverDown =>
      some { s.setCq .stream { s.cq .stream with shutdown := true } with
        stop := .teardown .stream }
    | _ => none
  | .cqShutdown .unary =>
    match s.stop with
    | .teardown .stream =>
      if (s.cq .stream).drained then
        some { s.setCq .unary { s.cq .unary with shutdown := true } with
          stop := .teardown .unary }
      else none
    | _ => none
  | .pushProcess i ev =>
    some { s with objs := s.objs.setData i ((s.objs.data i).pushProcess ev).2 }
  | .pushMain i ev => some { s with objs := s.objs.setData i ((s.objs.data i).pushMain ev).2 }
  | .stopPoll i => some { s with objs := s.objs.setData i (s.objs.data i).stopPoll.2 }

/-- `Server::start()` has created a handler for each of the three calls. -/
def init (plugin : ι → PluginPtr) (first : κ) : Sys ι κ where
  objs :=
    { data := fun i => .ofPlugin κ (plugin i)
      born := [first]
      unary := fun h => if h = 0 then (.clientEventCall, .PROCESS) else (.clientParamCall, .PROCESS)
      nextUnary := 2 }
  cq
    | .stream => { outstanding := [(.stream first .request, false)] }
    | .unary => { outstanding := [(.unary 0 .request, false), (.unary 1 .request, false)] }

/-- The server with its two queues. -/
def spec (home : κ → ι) (plugin : ι → PluginPtr) (first : κ) :
    ActionSystem.Spec (Sys ι κ) (Lbl ι κ) where
  Init s := s = init plugin first
  step := step home

end Model

/-! ## What is promised -/

section Promise

variable {ι κ : Type} [LinearOrder κ]

/-- An operation is started before its queue's `Shutdown`. -/
def StartsInTime (s : Sys ι κ) : Lbl ι κ → Prop
  | .go pos _ => (s.cq pos).shutdown = false
  | _ => True

/-- A handler under way goes on. -/
def Lbl.IsGo {ι κ : Type} : Lbl ι κ → Prop
  | .go _ _ => True
  | _ => False

/-- The completion leads to no operation: a request that failed, a write that succeeded, the
last completion of a stream or a unary handler, a notification; a callback that was cancelled,
that has nobody to serve, or that was asked to stop and finds no stream to end. -/
def Harmless (o : Objs ι κ) (ok : Bool) : Tag ι κ → Prop
  | .stream st =>
    match (o.stream st).state with
    | .CONNECT => ok = false
    | .WRITE => ok = true
    | .DISCONNECT => False
    | .FINISH => True
  | .done _ => True
  | .poll i => ok = false ∨ (o.data i).coreplugin = none ∨ (o.data i).mServerStreamCq = none ∨
      (o.data i).streams.toList = [] ∨ (o.data i).pollStop = true ∧
        ∀ st ∈ (o.data i).streams.toList, (o.stream st).state ≠ .WRITE
  | .unary h => ok = false ∨ (o.unary h).2 = .FINISH

/-- The condition on a step: `Shutdown` finds no handler of the queue with something left to
start, and an event taken after it leads to no operation. -/
def Orderly (s : Sys ι κ) : Lbl ι κ → Prop
  | .cqShutdown pos => ∀ w, (s.cq pos).todo w = []
  | .next pos _ _ => (s.cq pos).shutdown = true →
      ∀ e ∈ (s.cq pos).ready.head?, Harmless s.objs e.2 e.1
  | _ => True

end Promise

/-! ## What the handlers start -/

section Handlers

variable {ι κ : Type} [DecidableEq ι] [LinearOrder κ]

/-- Effects only add operations. -/
theorem applyEffects_prefix (home : κ → ι) (turn : Turn κ) (st : κ) (effs : List Effect)
    (r : Objs ι κ × List (Op ι κ)) : r.2 <+: (effs.foldl (applyEffect home turn st) r).2 := by
  induction effs generalizing r with
  | nil => exact List.prefix_refl _
  | cons eff effs ih =>
    have hone : r.2 <+: (applyEffect home turn st r eff).2 := by
      cases eff with
      | start op => exact List.prefix_append _ _
      | create => exact List.prefix_append _ _
      | tryStartPolling =>
        simp only [applyEffect]
        split
        · exact List.prefix_refl _
        · exact List.prefix_append _ _
      | _ => exact List.prefix_refl _
    exact hone.trans (ih _)

theorem processStream_eq_nil_iff (home : κ → ι) (turn : Turn κ) (o : Objs ι κ) (st : κ)
    (ok : Bool) : (processStream home turn o st ok).2 = [] ↔ Harmless o ok (.stream st) := by
  cases hstate : (o.stream st).state with
  | CONNECT =>
    cases ok with
    | false =>
      simp only [Harmless, hstate, iff_true, processStream, ServerEventStream.process,
        ServerEventStream.kill]
      cases (o.stream st).sharedData <;> rfl
    | true =>
      simp only [Harmless, hstate, Bool.true_eq_false, iff_false]
      -- the request of the next stream comes first, and is not taken back
      obtain ⟨obj, effs, hproc⟩ : ∃ obj effs,
          (o.stream st).process true turn.connect = (obj, .create :: effs) := by
        unfold ServerEventStream.process
        rw [hstate]
        cases turn.connect
        · exact ⟨_, _, rfl⟩
        · exact ⟨_, _, rfl⟩
        · exact ⟨_, _, rfl⟩
      intro hnil
      simp only [processStream, hproc, List.foldl_cons] at hnil
      have hpre := applyEffects_prefix home turn st effs
        (applyEffect home turn st (o.setStream st obj, []) .create)
      rw [hnil, List.prefix_nil] at hpre
      simp [applyEffect] at hpre
  | WRITE =>
    cases ok with
    | false => simp [Harmless, hstate, processStream, ServerEventStream.process, applyEffect]
    | true => simp [Harmless, hstate, processStream, ServerEventStream.process]
  | DISCONNECT => simp [Harmless, hstate, processStream, ServerEventStream.process, applyEffect]
  | FINISH =>
    simp only [Harmless, hstate, iff_true, processStream, ServerEventStream.process,
      ServerEventStream.kill]
    cases (o.stream st).sharedData <;> rfl

omit [DecidableEq ι] in
/-- `endStream` on several streams sets an alarm for each that is open. -/
theorem applyCalls_endStream_eq_nil_iff (sts : List κ) (r : Objs ι κ × List (Op ι κ)) :
    ((sts.map fun st => (st, SharedData.StreamCall.endStream)).foldl applyCall r).2 = [] ↔
      r.2 = [] ∧ ∀ st ∈ sts, (r.1.stream st).state ≠ .WRITE := by
  induction sts generalizing r with
  | nil => simp
  | cons st sts ih =>
    rw [List.map_cons, List.foldl_cons, ih]
    by_cases hopen : (r.1.stream st).state = .WRITE
    · simp [applyCall, StreamCq.callEffects, ServerEventStream.endStream, hopen]
    · -- a stream that is not open stays as it is
      have hsame : applyCall r (st, .endStream) = r := by
        simp [applyCall, StreamCq.callEffects, ServerEventStream.endStream, hopen,
          Objs.setStream]
      rw [hsame]
      simp [hopen]

theorem processPoll_eq_nil_iff (o : Objs ι κ) (i : ι) (ok : Bool) :
    (processPoll o i ok).2 = [] ↔ Harmless o ok (.poll i) := by
  simp only [processPoll, Harmless]
  cases hends : (o.data i).endsPoll ok with
  | false =>
    -- a round schedules the callback again
    rcases (o.data i).pollRound_again o.stream with ⟨⟨deferNs, hexit⟩, -, -⟩
    rw [SharedData.pollCallback_round hends, hexit]
    simp only [SharedData.endsPoll, Bool.or_eq_false_iff, Bool.not_eq_false',
      Option.isNone_eq_false_iff, List.isEmpty_eq_false_iff] at hends
    rcases hends with ⟨⟨⟨⟨hok, hcore⟩, hcq⟩, hstreams⟩, hstop⟩
    simp [hok, Option.isSome_iff_ne_none.mp hcore, Option.isSome_iff_ne_none.mp hcq, hstreams,
      hstop]
  | true =>
    by_cases hguard : (!ok || (o.data i).coreplugin.isNone ||
        (o.data i).mServerStreamCq.isNone) = true
    · have hpoll : (o.data i).pollCallback ok o.stream = ⟨o.data i, [], .ended⟩ := by
        simp only [SharedData.pollCallback, hguard, if_true]
      rw [hpoll]
      simp only [Bool.or_eq_true, Bool.not_eq_true', Option.isNone_iff_eq_none] at hguard
      refine iff_of_true rfl ?_
      rcases hguard with (hok | hcore) | hcq
      · exact Or.inl hok
      · exact Or.inr (Or.inl hcore)
      · exact Or.inr (Or.inr (Or.inl hcq))
    by_cases hempty : (o.data i).streams.toList.isEmpty = true
    · have hpoll : (o.data i).pollCallback ok o.stream = ⟨o.data i, [], .ended⟩ := by
        simp only [SharedData.pollCallback, hguard, hempty, if_true, Bool.false_eq_true, if_false]
      rw [hpoll]
      exact iff_of_true rfl (Or.inr (Or.inr (Or.inr (Or.inl (List.isEmpty_iff.mp hempty)))))
    · have hstop : (o.data i).pollStop = true := by
        simp only [Bool.not_eq_true] at hguard hempty
        simpa [SharedData.endsPoll, hguard, hempty] using hends
      have hpoll : (o.data i).pollCallback ok o.stream = ⟨o.data i,
          (o.data i).streams.toList.map fun st => (st, .endStream), .ended⟩ := by
        simp only [SharedData.pollCallback, hguard, hempty, hstop, if_true, Bool.false_eq_true,
          if_false]
      rw [hpoll]
      simp only [Bool.not_eq_true, Bool.or_eq_false_iff, Bool.not_eq_false'] at hguard
      rcases hguard with ⟨⟨hok, hcore⟩, hcq⟩
      rw [Option.isNone_eq_false_iff, Option.isSome_iff_ne_none] at hcore hcq
      have hne : (o.data i).streams.toList ≠ [] := fun h => hempty (List.isEmpty_iff.mpr h)
      simp only [applyCalls_endStream_eq_nil_iff, hok, hcore, hcq, hne, hstop, Bool.true_eq_false,
        false_or, true_and]
      rfl

omit [DecidableEq ι] in
theorem processUnary_eq_nil_iff (turn : Turn κ) (o : Objs ι κ) (h : Nat) (ok : Bool) :
    (processUnary turn o h ok).2 = [] ↔ Harmless o ok (.unary h) := by
  rcases hunary : o.unary h with ⟨kind, state⟩
  simp only [processUnary, Harmless, hunary]
  cases ok <;> cases state <;>
    simp [UnaryCalls.process, UnaryCalls.kill, applyUnary]

/-- The completions that lead to no operation. -/
theorem handle_eq_nil_iff (home : κ → ι) (turn : Turn κ) (o : Objs ι κ) (ok : Bool)
    (tag : Tag ι κ) : (handle home turn o ok tag).2 = [] ↔ Harmless o ok tag := by
  cases tag with
  | stream st => exact processStream_eq_nil_iff home turn o st ok
  | done st => exact iff_of_true rfl trivial
  | poll i => exact processPoll_eq_nil_iff o i ok
  | unary h => exact processUnary_eq_nil_iff turn o h ok

end Handlers

/-! ## The steps -/

section Steps

variable {ι κ : Type} [DecidableEq ι] [LinearOrder κ] {home : κ → ι} {s s' : Sys ι κ}

/-- A step that neither shuts a queue down nor moves a handler. -/
def Lbl.IsOther {ι κ : Type} : Lbl ι κ → Prop
  | .next _ _ _ | .go _ _ | .cqShutdown _ => False
  | _ => True

omit [DecidableEq ι] in
/-- The queues are shut down, and the handlers under way, as before. -/
def SameWork (s s' : Sys ι κ) : Prop :=
  ∀ pos, (s'.cq pos).shutdown = (s.cq pos).shutdown ∧ (s'.cq pos).todo = (s.cq pos).todo

/-- The steps, by what they do to the queues and the handlers. -/
inductive Moves (home : κ → ι) (s : Sys ι κ) : Lbl ι κ → Sys ι κ → Prop where
  | took {pos w turn tag ok ready} (hready : (s.cq pos).ready = (tag, ok) :: ready)
    (hidle : (s.cq pos).todo w = []) :
    Moves home s (.next pos w turn) { s.setCq pos { s.cq pos with
      ready := ready
      todo := Function.update (s.cq pos).todo w (handle home turn s.objs ok tag).2 } with
      objs := (handle home turn s.objs ok tag).1 }
  | went {pos w op ops} (htodo : (s.cq pos).todo w = op :: ops) :
    Moves home s (.go pos w) (s.setCq pos { s.cq pos with
      outstanding := (s.cq pos).outstanding ++ [(op, false)]
      todo := Function.update (s.cq pos).todo w ops })
  | shut {pos} :
    Moves home s (.cqShutdown pos) { s.setCq pos { s.cq pos with shutdown := true } with
      stop := .teardown pos }
  | other {l s'} (hl : l.IsOther) (hsame : SameWork s s') : Moves home s l s'

omit [DecidableEq ι] in
theorem sameWork_setCq (pos : CqPos) {cq : Cq ι κ}
    (hshutdown : cq.shutdown = (s.cq pos).shutdown) (htodo : cq.todo = (s.cq pos).todo) :
    SameWork s (s.setCq pos cq) := by
  intro pos'
  by_cases h : pos' = pos
  · subst h
    simp [Sys.setCq, hshutdown, htodo]
  · simp [Sys.setCq, h]

omit [DecidableEq ι] in
theorem todo_eq_nil_of_inNext {pos : CqPos} {w : Worker} (h : s.inNext pos w = true) :
    (s.cq pos).todo w = [] := by
  cases w with
  | run => simpa [Sys.inNext] using h
  | teardown =>
    simp only [Sys.inNext, Bool.and_eq_true, List.isEmpty_iff] at h
    exact h.2

/-- The inversion lemma. -/
theorem step_moves {l : Lbl ι κ} (hstep : step home s l = some s') : Moves home s l s' := by
  cases l with
  | complete pos k ok =>
    simp only [step] at hstep
    split at hstep
    · cases hstep
    split at hstep
    · cases hstep
    split at hstep
    · cases hstep
      exact .other trivial (sameWork_setCq pos rfl rfl)
    · cases hstep
      exact .other trivial (sameWork_setCq pos rfl rfl)
  | notifyDone st ok =>
    simp only [step] at hstep
    split at hstep
    · cases hstep
      exact .other trivial (sameWork_setCq .stream rfl rfl)
    · cases hstep
  | next pos w turn =>
    simp only [step] at hstep
    split at hstep
    · cases hstep
    · rename_i tag ok ready hready
      split at hstep
      · cases hstep
      · rename_i hguard
        rw [Bool.or_eq_true, not_or, Bool.not_eq_true', Bool.not_eq_false] at hguard
        cases hstep
        exact .took hready (todo_eq_nil_of_inNext hguard.1)
  | go pos w =>
    simp only [step] at hstep
    split at hstep
    · cases hstep
    · rename_i op ops htodo
      cases hstep
      exact .went htodo
  | cancelAllPendingTags =>
    simp only [step] at hstep
    split at hstep
    · cases hstep
      exact .other trivial fun pos => ⟨rfl, rfl⟩
    · cases hstep
  | serverShutdown =>
    simp only [step] at hstep
    split at hstep
    · cases hstep
      exact .other trivial fun pos => ⟨rfl, rfl⟩
    · cases hstep
  | cqShutdown pos =>
    cases pos with
    | stream =>
      simp only [step] at hstep
      split at hstep
      · cases hstep
        exact .shut
      · cases hstep
    | unary =>
      simp only [step] at hstep
      split at hstep
      · split at hstep
        · cases hstep
          exact .shut
        · cases hstep
      · cases hstep
  | pushProcess i ev =>
    cases hstep
    exact .other trivial fun pos => ⟨rfl, rfl⟩
  | pushMain i ev =>
    cases hstep
    exact .other trivial fun pos => ⟨rfl, rfl⟩
  | stopPoll i =>
    cases hstep
    exact .other trivial fun pos => ⟨rfl, rfl⟩

/-- On a queue that is shut down no handler under way has anything left to start. -/
def Inv (s : Sys ι κ) : Prop := ∀ pos w, (s.cq pos).shutdown = true → (s.cq pos).todo w = []

omit [DecidableEq ι] in
theorem init_inv (plugin : ι → PluginPtr) (first : κ) : Inv (init plugin first) := by
  intro pos w h
  cases pos <;> cases h

theorem step_inv {l : Lbl ι κ} (hinv : Inv s) (hcond : Orderly s l)
    (hstep : step home s l = some s') : Inv s' := by
  intro pos' w' hshutdown
  cases step_moves hstep with
  | @took pos w turn tag ok ready hready hidle =>
    by_cases hpos : pos' = pos
    · subst hpos
      simp only [Sys.setCq, Function.update_self] at hshutdown ⊢
      by_cases hw : w' = w
      · subst hw
        rw [Function.update_self, handle_eq_nil_iff]
        exact hcond hshutdown (tag, ok) (by simp [hready])
      · rw [Function.update_of_ne hw]
        exact hinv pos' w' hshutdown
    · simp only [Sys.setCq, Function.update_of_ne hpos] at hshutdown ⊢
      exact hinv pos' w' hshutdown
  | @went pos w op ops htodo =>
    by_cases hpos : pos' = pos
    · subst hpos
      simp only [Sys.setCq, Function.update_self] at hshutdown ⊢
      have hnil := hinv pos' w hshutdown
      rw [htodo] at hnil
      cases hnil
    · simp only [Sys.setCq, Function.update_of_ne hpos] at hshutdown ⊢
      exact hinv pos' w' hshutdown
  | @shut pos =>
    by_cases hpos : pos' = pos
    · subst hpos
      simp only [Sys.setCq, Function.update_self]
      exact hcond w'
    · simp only [Sys.setCq, Function.update_of_ne hpos] at hshutdown ⊢
      exact hinv pos' w' hshutdown
  | other hl hsame =>
    rw [(hsame pos').1] at hshutdown
    rw [(hsame pos').2]
    exact hinv pos' w' hshutdown

/-- While the invariant holds, operations are started in time. -/
theorem startsInTime {l : Lbl ι κ} (hinv : Inv s) (hstep : step home s l = some s') :
    StartsInTime s l := by
  cases step_moves hstep with
  | @went pos w op ops htodo =>
    show (s.cq pos).shutdown = false
    cases hshutdown : (s.cq pos).shutdown with
    | false => rfl
    | true =>
      have hnil := hinv pos w hshutdown
      rw [htodo] at hnil
      cases hnil
  | took hready hidle => trivial
  | shut => trivial
  | other hl hsame => cases l <;> trivial

/-- A step that is not orderly leaves a handler with something to start on a queue that is
shut down. -/
theorem pending_of_not_orderly {l : Lbl ι κ} (hcond : ¬ Orderly s l)
    (hstep : step home s l = some s') :
    ∃ pos w, (s'.cq pos).shutdown = true ∧ (s'.cq pos).todo w ≠ [] := by
  cases step_moves hstep with
  | @took pos w turn tag ok ready hready hidle =>
    simp only [Orderly, hready, List.head?_cons, Option.mem_some_iff, forall_eq', Classical.not_imp]
      at hcond
    refine ⟨pos, w, ?_, ?_⟩
    · simpa [Sys.setCq] using hcond.1
    · simp only [Sys.setCq, Function.update_self]
      rw [Ne, handle_eq_nil_iff]
      exact hcond.2
  | went htodo => exact absurd trivial hcond
  | @shut pos =>
    simp only [Orderly, not_forall] at hcond
    rcases hcond with ⟨w, hw⟩
    exact ⟨pos, w, by simp [Sys.setCq], by simpa [Sys.setCq] using hw⟩
  | other hl hsame => cases l <;> first | exact absurd trivial hcond | exact hl.elim

/-- A handler with something to start can do so. -/
theorem step_go (home : κ → ι) {pos : CqPos} {w : Worker} (h : (s.cq pos).todo w ≠ []) :
    ∃ s', step home s (.go pos w) = some s' := by
  cases htodo : (s.cq pos).todo w with
  | nil => exact absurd htodo h
  | cons op ops => exact ⟨_, by simp only [step, htodo]; rfl⟩

end Steps

section Runs

variable {ι κ : Type} [DecidableEq ι] [LinearOrder κ]

/-- In a run nothing is started too late, however the handlers under way go on at any of its
points, exactly when all steps are orderly. -/
theorem startsInTime_iff (home : κ → ι) (plugin : ι → PluginPtr) (first : κ) (ls : List (Lbl ι κ)) :
    (∀ ps ms, ps <+: ls → (∀ l ∈ ms, l.IsGo) →
      (spec home plugin first).AllSteps (fun s l _ => StartsInTime s l) (init plugin first)
        (ps ++ ms)) ↔
      (spec home plugin first).AllSteps (fun s l _ => Orderly s l) (init plugin first) ls := by
  constructor
  · -- a step that is not orderly lets a handler start something too late, as its next step
    intro hquiet
    apply (spec home plugin first).allSteps_of_steps
    intro ps l t t' hps hrun hstep
    by_contra hcond
    rcases pending_of_not_orderly hcond hstep with ⟨pos, w, hshutdown, htodo⟩
    rcases step_go home htodo with ⟨t'', hgo⟩
    have hrun' : (spec home plugin first).run (init plugin first) (ps ++ [l]) = some t' := by
      rw [ActionSystem.Spec.run_append, hrun]
      exact (spec home plugin first).run_cons_of_step hstep []
    have hall := hquiet (ps ++ [l]) [.go pos w] hps fun m hm => by
      rw [List.mem_singleton.mp hm]
      trivial
    have htime : (t'.cq pos).shutdown = false :=
      (spec home plugin first).allSteps_last hall hrun' hgo
    rw [hshutdown] at htime
    cases htime
  · -- the steps of handlers under way are orderly
    intro horderly ps ms hps hms
    rcases hps with ⟨rest, rfl⟩
    refine (spec home plugin first).allSteps_imp (C := fun s l _ => Orderly s l) Inv ?_
      (init_inv plugin first) ?_
    · intro s l s' hinv hcond hstep
      exact ⟨step_inv hinv hcond hstep, startsInTime hinv hstep⟩
    · have hps := ((spec home plugin first).allSteps_append.mp horderly).1
      refine (spec home plugin first).allSteps_append.mpr ⟨hps, ?_⟩
      intro t _
      apply (spec home plugin first).allSteps_of_steps
      intro qs l u u' hqs _ _
      have hl := hms l (hqs.subset (by simp))
      cases l <;> trivial

end Runs

/-- A poll callback is due when the server is stopped; its client is gone, but its stream is
still in the set, so that it sets its next alarm on a queue that is shut down. -/
theorem startsInTime_fails : ¬ ∀ (home : Nat → Unit) (plugin : Unit → PluginPtr) (first : Nat)
    (ls : List (Lbl Unit Nat)), (spec home plugin first).AllSteps (fun s l _ => StartsInTime s l)
      (init plugin first) ls := by
  intro h
  have hlast : true = false :=
    (spec _ _ 7).forall_allSteps_last (h (fun _ => ()) (fun _ => 1) 7)
      [.complete .stream 0 true,
        .next .stream .run { fresh := 8, connect := .connected, cq := some 0 },
        .go .stream .run, .go .stream .run, .complete .stream 1 true, .cancelAllPendingTags,
        .serverShutdown, .cqShutdown .stream, .next .stream .run { fresh := 9 }]
      (.go .stream .run) rfl rfl
  cases hlast

end ClapRci.Shutdown
