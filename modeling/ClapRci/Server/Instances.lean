import Mathlib.Data.Nat.Basic
import Mathlib.Logic.Function.Basic
import ClapRci.Server.CqEventHandler
import ClapRci.Server.PollRounds
import ClapRci.Server.ServerCtrl

/-!
# The instances of `SharedData` and those who share them

`addPlugin` makes an instance and registers it under the plugin's hash. It is shared by the
registry, by those who call `getSharedData` and by the streams that connect to it, and lives
as long as one of them has it. Streams are served by the thread of the stream completion
queue, which also runs the poll callbacks; the registry is used by other threads meanwhile.

The address of a stream that was destroyed may be the address of a new one.
-/

namespace ClapRci.Instances

open ServerEventStream (Effect State)

/-- What the thread of the completion queue is doing: nothing; a `connectClient`, between its
two lookups, of a stream with the hash it presented and the instance it was added to; or a
poll callback, with its tag and its instance. -/
inductive Task (κ : Type) where
  | idle
  | connecting (st : κ) (hash : Hash) (i : Nat)
  | polling (tag i : Nat)
deriving DecidableEq

/-- The instances by number, with their callbacks, and the `shared_ptr`s to them: in the
registry, with those outside the server, and in the streams. The streams are in memory, by
address; `pendingTags` tells which addresses are in use. Of a stream it is also known where
it `belongs`: which instance was registered under the hash it presented when it was added.
Of an instance, what was `pushed` to its queues; and of every message, where its stream
belonged when it was written. -/
structure Sys (κ : Type) [LinearOrder κ] where
  poll : Nat → PollRounds.Sys κ := fun _ => PollRounds.init κ 0
  count : Nat := 0
  mSharedData : OrdMap Hash Nat := OrdMap.empty
  holders : OrdMap Nat Nat := OrdMap.empty
  sharedData : OrdMap κ Nat := OrdMap.empty
  isRunning : Bool := false
  pendingTags : OrdSet κ := OrdMap.empty
  stream : κ → ServerEventStream := fun _ => {}
  belongs : κ → Option Nat := fun _ => none
  alarms : AlarmTags Nat := {}
  endOwner : Option Nat := none
  task : Task κ := .idle
  pushed : Nat → List ServerEventWrapper := fun _ => []
  written : List (Option Nat × Api.ServerEvents) := []

/-- What other threads do: plugins come and go, someone outside, as a `CorePlugin` is, gets
hold of an instance, uses and releases it, and the server is started and stopped. What the
thread of the queue does: `connectClient` and then `getSharedData` are the two lookups of a
stream that connects; `id` is the hash in its metadata, `fresh` the address of the next
stream, and `cq` what `tryGetServerStreamCqHandle` finds. -/
inductive Lbl (κ : Type) where
  | addPlugin (plugin : PluginPtr)
  | removePlugin (hash : Hash)
  | hold (h : Nat) (hash : Hash)
  | release (h : Nat)
  | pushProcess (h : Nat) (ev : ServerEventWrapper)
  | pushMain (h : Nat) (ev : ServerEventWrapper)
  | stopPoll (h : Nat)
  | endStreams (h : Nat)
  | start (first : κ)
  | stop
  | connectClient (st : κ) (id : Option Hash) (fresh : κ)
  | getSharedData (cq : Option CqHandle)
  | process (st : κ) (ok : Bool)
  | done (st : κ)
  | callback (tag : Nat) (ok : Bool)
  | pop
  | send
  | finish

variable {κ : Type} [LinearOrder κ]

/-! ## Instances -/

/-- `use_count()` of the pointers to an instance. -/
def Sys.useCount (s : Sys κ) (i : Nat) : Nat :=
  s.mSharedData.count i + s.holders.count i + s.sharedData.count i

/-- Replace the members of an instance. -/
def Sys.setData (s : Sys κ) (i : Nat) (d : SharedData κ) : Sys κ :=
  { s with poll := Function.update s.poll i { s.poll i with data := d } }

/-- Someone outside pushes an event to a queue of the instance he holds. -/
def Sys.push (s : Sys κ) (h : Nat) (ev : ServerEventWrapper)
    (push : SharedData κ → Bool × SharedData κ) : Option (Sys κ) :=
  (s.holders.find? h).map fun i =>
    let (ok, d) := push (s.poll i).data
    { s.setData i d with
      pushed := Function.update s.pushed i (s.pushed i ++ if ok then [ev] else []) }

/-- A step of the callback of an instance, which finds the streams in memory. -/
def Sys.onPoll (s : Sys κ) (i : Nat) (l : PollRounds.Lbl κ) : Option (Sys κ) :=
  (PollRounds.step { s.poll i with stream := s.stream } l).map fun p =>
    { s with
      poll := Function.update s.poll i p
      stream := p.stream
      written := s.written ++ (p.writes.drop (s.poll i).writes.length).map fun w =>
        (s.belongs w.1, w.2) }

/-- The callback goes on. A callback of an instance that is gone has no next step. When it
returns it has scheduled its successor, and its tag is destroyed. -/
def Sys.goOn (s : Sys κ) (l : PollRounds.Lbl κ) : Option (Sys κ) :=
  match s.task with
  | .polling tag i =>
    if s.useCount i = 0 then none
    else
      (s.onPoll i l).map fun s' =>
        if (s'.poll i).pc = .idle then
          { s' with
            alarms := ((s.alarms.enqueueFn i).2.destroyAlarmTag tag).2
            task := .idle }
        else s'
  | _ => none

/-! ## Streams -/

/-- `create<ServerEventStream>()`. -/
def Sys.create (s : Sys κ) (fresh : κ) : Sys κ :=
  { s with
    pendingTags := (s.pendingTags.insert fresh).2
    stream := Function.update s.stream fresh {}
    belongs := Function.update s.belongs fresh none }

/-- The stream after `connectClient`, as `process` leaves it. -/
def Sys.answer (s : Sys κ) (st : κ) (connect : ServerEventStream.ConnectResult) : Sys κ :=
  let (connected, obj, _) := (s.stream st).connectClient connect
  { s with
    stream := Function.update s.stream st
      { obj with state := if connected then .WRITE else .FINISH } }

/-- What a handler of a stream does to what is around it. -/
def applyEffect (st : κ) (s : Sys κ) : Effect → Sys κ
  | .removeStream =>
    match s.sharedData.find? st with
    | none => s
    | some i => s.setData i ((s.poll i).data.removeStream st).2
  | .destroyTag =>
    { s with
      pendingTags := (s.pendingTags.erase st).2
      sharedData := (s.sharedData.erase st).2 }
  | _ => s

/-! ## Steps -/

def step (s : Sys κ) : Lbl κ → Option (Sys κ)
  | .addPlugin plugin =>
    let (inserted, mSharedData) := s.mSharedData.emplace (hashOf plugin) s.count
    if !inserted then some s
    else
      some { s with
        poll := Function.update s.poll s.count (PollRounds.init κ plugin)
        count := s.count + 1
        mSharedData := mSharedData }
  | .removePlugin hash =>
    if hash.val = 0 then some s
    else some { s with mSharedData := (s.mSharedData.erase hash).2 }
  | .hold h hash =>
    match s.mSharedData.find? hash with
    | none => some s
    | some i =>
      if s.holders.contains h then none
      else some { s with holders := (s.holders.emplace h i).2 }
  | .release h => some { s with holders := (s.holders.erase h).2 }
  | .pushProcess h ev => s.push h ev fun d => d.pushProcess ev
  | .pushMain h ev => s.push h ev fun d => d.pushMain ev
  | .stopPoll h => (s.holders.find? h).map fun i => s.setData i (s.poll i).data.stopPoll.2
  | .endStreams h =>
    (s.holders.find? h).map fun i =>
      { s with stream := PollRounds.endAll (s.poll i).data.streams.toList s.stream }
  | .start first =>
    if s.isRunning ∨ s.pendingTags.contains first then none
    else some { s.create first with isRunning := true }
  | .stop =>
    -- the threads have been joined; what is left of the streams goes with the server
    if s.isRunning ∧ s.task = .idle then
      some { s with
        isRunning := false
        pendingTags := OrdMap.empty
        sharedData := OrdMap.empty
        alarms := {} }
    else none
  | .connectClient st id fresh =>
    if s.task = .idle ∧ s.pendingTags.contains st ∧ (s.stream st).state = .CONNECT ∧
        s.pendingTags.contains fresh = false then
      let s := s.create fresh
      match id with
      | none => some (s.answer st .rejected)
      | some hash =>
        match s.mSharedData.find? hash with
        | none => some (s.answer st .rejected)
        | some i =>
          match (s.poll i).data.addStream st with
          | (false, _) => some (s.answer st .rejected)
          | (true, d) =>
            some { s.setData i d with
              belongs := Function.update s.belongs st (some i)
              task := .connecting st hash i }
    else none
  | .getSharedData cq =>
    match s.task with
    | .connecting st hash _ =>
      match s.mSharedData.find? hash with
      | none => some { s.answer st .orphaned with task := .idle }
      | some j =>
        let (_, d, deferNs) := (s.poll j).data.tryStartPolling cq
        some { (s.answer st .connected).setData j d with
          sharedData := (s.sharedData.emplace st j).2
          alarms := if deferNs.isSome then (s.alarms.enqueueFn j).2 else s.alarms
          task := .idle }
    | _ => none
  | .process st ok =>
    if s.task = .idle ∧ s.pendingTags.contains st ∧
        ¬ ((s.stream st).state = .CONNECT ∧ ok = true) then
      let (obj, effs) := (s.stream st).process ok .rejected
      some (effs.foldl (applyEffect st) { s with stream := Function.update s.stream st obj })
    else none
  | .done st =>
    if s.task = .idle ∧ s.pendingTags.contains st then
      some { s with stream := Function.update s.stream st (s.stream st).onDone }
    else none
  | .callback tag ok =>
    match s.task, s.alarms.next tag with
    | .idle, some (i, alarms) =>
      if s.useCount i = 0 then none
      else
        (s.onPoll i (.callback ok false)).map fun s' =>
          let owner := s.endOwner.getD i
          if (s.poll i).data.endsPoll ok then
            -- the lambda runs on the instance it captured, whichever callback this is
            { s'.setData owner (s'.poll owner).data.endCallback with
              alarms := (alarms.destroyAlarmTag tag).2
              endOwner := some owner }
          else { s' with alarms := alarms, endOwner := some owner, task := .polling tag i }
    | _, _ => none
  | .pop => s.goOn .pop
  | .send => s.goOn .send
  | .finish => s.goOn .finish

/-- No plugin yet, and no server. -/
def spec (κ : Type) [LinearOrder κ] : ActionSystem.Spec (Sys κ) (Lbl κ) where
  Init s := s = {}
  step := step

/-! ## The invariant -/

/-- Only living streams that have connected have a pointer, and their flag says so; the
stream between its lookups is in the set of the instance it belongs to. -/
structure Inv (s : Sys κ) : Prop where
  flag : ∀ st ∈ s.pendingTags.keys, (s.stream st).sharedData = s.sharedData.contains st
  pointer : ∀ st ∈ s.sharedData.keys,
    st ∈ s.pendingTags.keys ∧ (s.stream st).state ≠ .CONNECT
  connecting : ∀ st hash i, s.task = .connecting st hash i →
    st ∈ s.pendingTags.keys ∧ st ∉ s.sharedData.keys ∧
      st ∈ (s.poll i).data.streams.toList ∧ s.belongs st = some i ∧ i < s.count
  count : ∀ i, 0 < s.useCount i → i < s.count

theorem init_inv : Inv ({} : Sys κ) where
  flag := List.forall_mem_nil _
  pointer := List.forall_mem_nil _
  connecting st hash i h := by cases h
  count i h := by cases h

/-- What is left when a stream has been killed. -/
def Sys.killed (s : Sys κ) (st : κ) : Sys κ :=
  { s with
    poll := (applyEffect st s .removeStream).poll
    pendingTags := (s.pendingTags.erase st).2
    sharedData := (s.sharedData.erase st).2 }

/-- A stream that has no pointer yet has not got the flag either. -/
theorem Inv.kill_eq {s : Sys κ} (h : Inv s) {st : κ} (hmem : st ∈ s.pendingTags.keys) :
    (s.stream st).kill.foldl (applyEffect st) s = s.killed st := by
  unfold ServerEventStream.kill
  rw [h.flag st hmem]
  cases hfind : s.sharedData.find? st with
  | none =>
    have hcontains := OrdMap.contains_eq_false.mpr (OrdMap.find?_eq_none.mp hfind)
    simp [hcontains, Sys.killed, applyEffect, hfind]
  | some i =>
    have hcontains := OrdMap.contains_iff.mpr (OrdMap.mem_keys_of_find? hfind)
    simp [hcontains, Sys.killed, applyEffect, hfind, Sys.setData]

/-! ## What a step can do -/

/-- A poll callback of the instance is scheduled or running. -/
def Sys.Busy (s : Sys κ) (i : Nat) : Prop :=
  0 < s.alarms.scheduled i ∨ ∃ tag, s.task = .polling tag i

/-- What most steps leave alone. They open no stream, set no pointer and call for no new
callback. -/
structure Same (s s' : Sys κ) : Prop where
  count : s'.count = s.count
  mSharedData : s'.mSharedData = s.mSharedData
  holders : s'.holders = s.holders
  sharedData : s'.sharedData = s.sharedData
  pendingTags : s'.pendingTags = s.pendingTags
  streams : ∀ i, (s'.poll i).data.streams = (s.poll i).data.streams
  belongs : s'.belongs = s.belongs
  flag : ∀ st, (s'.stream st).sharedData = (s.stream st).sharedData
  state : ∀ st, (s'.stream st).state = (s.stream st).state ∨
    (s'.stream st).state = .DISCONNECT ∨ (s'.stream st).state = .FINISH
  connecting : ∀ st hash i, s'.task = .connecting st hash i ↔ s.task = .connecting st hash i
  busy : ∀ i, s'.Busy i → s.Busy i

/-- Whether the step is one of the lookups of a stream. -/
def Lbl.connects {κ : Type} : Lbl κ → Bool
  | .connectClient _ _ _ | .getSharedData _ => true
  | _ => false

/-- The steps, case by case. -/
inductive Moves (s : Sys κ) : Lbl κ → Sys κ → Prop where
  | same {l s'} (hl : l.connects = false) (hsame : Same s s') : Moves s l s'
  | added {plugin} (hnew : hashOf plugin ∉ s.mSharedData.keys) :
    Moves s (.addPlugin plugin) { s with
      poll := Function.update s.poll s.count (PollRounds.init κ plugin)
      count := s.count + 1
      mSharedData := (s.mSharedData.emplace (hashOf plugin) s.count).2 }
  | removed {hash} (hzero : hash.val ≠ 0) :
    Moves s (.removePlugin hash) { s with mSharedData := (s.mSharedData.erase hash).2 }
  | held {h hash i} (hfind : s.mSharedData.find? hash = some i) (hnew : h ∉ s.holders.keys) :
    Moves s (.hold h hash) { s with holders := (s.holders.emplace h i).2 }
  | released {h} : Moves s (.release h) { s with holders := (s.holders.erase h).2 }
  | started {first} (hnew : first ∉ s.pendingTags.keys) :
    Moves s (.start first) { s.create first with isRunning := true }
  | stopped (hidle : s.task = .idle) :
    Moves s .stop { s with
      isRunning := false
      pendingTags := OrdMap.empty
      sharedData := OrdMap.empty
      alarms := {} }
  | rejected {st id fresh} (hidle : s.task = .idle) (hmem : st ∈ s.pendingTags.keys)
    (hnew : fresh ∉ s.pendingTags.keys) (hstate : (s.stream st).state = .CONNECT)
    (hin : ∀ hash i, id = some hash → s.mSharedData.find? hash = some i →
      st ∈ (s.poll i).data.streams.toList) :
    Moves s (.connectClient st id fresh) ((s.create fresh).answer st .rejected)
  | adding {st hash fresh i} (hidle : s.task = .idle) (hmem : st ∈ s.pendingTags.keys)
    (hnew : fresh ∉ s.pendingTags.keys) (hstate : (s.stream st).state = .CONNECT)
    (hfind : s.mSharedData.find? hash = some i)
    (hadd : st ∉ (s.poll i).data.streams.toList) :
    Moves s (.connectClient st (some hash) fresh)
      { (s.create fresh).setData i ((s.poll i).data.addStream st).2 with
        belongs := Function.update (s.create fresh).belongs st (some i)
        task := .connecting st hash i }
  | orphaned {cq st hash i} (htask : s.task = .connecting st hash i)
    (hfind : s.mSharedData.find? hash = none) :
    Moves s (.getSharedData cq) { s.answer st .orphaned with task := .idle }
  | connected {cq st hash i j alarms} (htask : s.task = .connecting st hash i)
    (hfind : s.mSharedData.find? hash = some j)
    (halarms : ∀ k, 0 < alarms.scheduled k → j = k ∨ 0 < s.alarms.scheduled k) :
    Moves s (.getSharedData cq)
      { (s.answer st .connected).setData j ((s.poll j).data.tryStartPolling cq).2.1 with
        sharedData := (s.sharedData.emplace st j).2
        alarms := alarms
        task := .idle }
  | killed {st ok} (hidle : s.task = .idle) (hmem : st ∈ s.pendingTags.keys)
    (hstate : (s.stream st).state = .CONNECT ∨ (s.stream st).state = .FINISH) :
    Moves s (.process st ok) (s.killed st)

section Frame

variable {s s' : Sys κ} {i : Nat} {d : SharedData κ}

theorem setData_self (s : Sys κ) (i : Nat) (d : SharedData κ) :
    ((s.setData i d).poll i).data = d := by
  simp [Sys.setData]

theorem setData_ne {j : Nat} (h : j ≠ i) : ((s.setData i d).poll j).data = (s.poll j).data := by
  simp [Sys.setData, h]

theorem setData_streams (h : d.streams = (s.poll i).data.streams) (j : Nat) :
    ((s.setData i d).poll j).data.streams = (s.poll j).data.streams := by
  by_cases hj : j = i
  · subst hj
    rw [setData_self, h]
  · rw [setData_ne hj]

theorem Same.refl (s : Sys κ) : Same s s where
  count := rfl
  mSharedData := rfl
  holders := rfl
  sharedData := rfl
  pendingTags := rfl
  streams _ := rfl
  belongs := rfl
  flag _ := rfl
  state _ := Or.inl rfl
  connecting _ _ _ := Iff.rfl
  busy _ h := h

/-- A call on an instance that does not touch its set of streams. -/
theorem Same.setData (h : d.streams = (s.poll i).data.streams) : Same s (s.setData i d) :=
  { Same.refl s with streams := setData_streams h }

/-- What a stream can become without `connectClient`. -/
def Fades (obj obj' : ServerEventStream) : Prop :=
  obj'.sharedData = obj.sharedData ∧
    (obj'.state = obj.state ∨ obj'.state = .DISCONNECT ∨ obj'.state = .FINISH)

theorem fades_endStream (obj : ServerEventStream) : Fades obj obj.endStream.2.1 := by
  unfold ServerEventStream.endStream
  split
  · exact ⟨rfl, Or.inl rfl⟩
  · exact ⟨rfl, Or.inr (Or.inl rfl)⟩

theorem fades_endAll (streams : List κ) (stream : κ → ServerEventStream) (st : κ) :
    Fades (stream st) (PollRounds.endAll streams stream st) := by
  unfold PollRounds.endAll
  split
  · exact fades_endStream _
  · exact ⟨rfl, Or.inl rfl⟩

theorem fades_update {stream : κ → ServerEventStream} {st : κ} {obj : ServerEventStream}
    (h : Fades (stream st) obj) (st' : κ) :
    Fades (stream st') (Function.update stream st obj st') := by
  by_cases hst : st' = st
  · subst hst
    rwa [Function.update_self]
  · rw [Function.update_of_ne hst]
    exact ⟨rfl, Or.inl rfl⟩

/-- Streams change where they are. -/
theorem Same.setStream {stream : κ → ServerEventStream}
    (h : ∀ st, Fades (s.stream st) (stream st)) : Same s { s with stream := stream } :=
  { Same.refl s with
    flag := fun st => (h st).1
    state := fun st => (h st).2 }

/-- A step of a callback leaves the sets of streams alone. -/
theorem onPoll_same {l : PollRounds.Lbl κ} (hl : l.IsOwn) (hstep : s.onPoll i l = some s') :
    Same s s' := by
  rcases Option.map_eq_some_iff.mp hstep with ⟨p, hp, rfl⟩
  have hmoves := PollRounds.step_moves hp
  have hstreams : p.data.streams = (s.poll i).data.streams := by
    cases hmoves with
    | @ended ok captured => cases captured <;> rfl
    | pushProcess => cases hl
    | pushMain => cases hl
    | addStream => cases hl
    | removeStream => cases hl
    | tryStartPolling => cases hl
    | stopPoll => cases hl
    | endElsewhere => cases hl
    | _ => rfl
  have hfades : ∀ st, Fades (s.stream st) (p.stream st) := by
    intro st
    cases hmoves with
    | ended =>
      dsimp only
      split
      · exact fades_endAll _ _ _
      · exact ⟨rfl, Or.inl rfl⟩
    | sent => exact fades_update ⟨by simp, Or.inl (by simp)⟩ st
    | setStream => cases hl
    | _ => exact ⟨rfl, Or.inl rfl⟩
  refine { Same.refl s with
    streams := ?_, flag := fun st => (hfades st).1, state := fun st => (hfades st).2 }
  intro j
  by_cases hj : j = i
  · subst hj
    simpa using hstreams
  · simp [Function.update_of_ne hj]

theorem Same.trans {s'' : Sys κ} (h : Same s s') (h' : Same s' s'') : Same s s'' where
  count := h'.count.trans h.count
  mSharedData := h'.mSharedData.trans h.mSharedData
  holders := h'.holders.trans h.holders
  sharedData := h'.sharedData.trans h.sharedData
  pendingTags := h'.pendingTags.trans h.pendingTags
  streams i := (h'.streams i).trans (h.streams i)
  belongs := h'.belongs.trans h.belongs
  flag st := (h'.flag st).trans (h.flag st)
  state st := by
    rcases h'.state st with heq | hend
    · rw [heq]
      exact h.state st
    · exact Or.inr hend
  connecting st hash i := (h'.connecting st hash i).trans (h.connecting st hash i)
  busy i hi := h.busy i (h'.busy i hi)

/-- A callback begins or returns. -/
theorem Same.ofTask (h : Same s s') {task : Task κ} {alarms : AlarmTags Nat}
    (endOwner : Option Nat) (hs : ∀ st hash i, s.task ≠ .connecting st hash i)
    (htask : ∀ st hash i, task ≠ .connecting st hash i)
    (hbusy : ∀ i, 0 < alarms.scheduled i ∨ (∃ tag, task = .polling tag i) → s.Busy i) :
    Same s { s' with alarms := alarms, endOwner := endOwner, task := task } :=
  { h with
    connecting := fun st hash i =>
      ⟨fun heq => absurd heq (htask st hash i), fun heq => absurd heq (hs st hash i)⟩
    busy := hbusy }

theorem push_same {h : Nat} {ev : ServerEventWrapper} {push : SharedData κ → Bool × SharedData κ}
    (hstreams : ∀ d, (push d).2.streams = d.streams) (hstep : s.push h ev push = some s') :
    Same s s' := by
  rcases Option.map_eq_some_iff.mp hstep with ⟨i, -, rfl⟩
  exact { Same.setData (hstreams (s.poll i).data) with }

theorem goOn_same {l : PollRounds.Lbl κ} (hl : l.IsOwn) (hstep : s.goOn l = some s') :
    Same s s' := by
  unfold Sys.goOn at hstep
  split at hstep
  · rename_i tag i htask
    have hs : ∀ st hash j, s.task ≠ .connecting st hash j := by simp [htask]
    split at hstep
    · cases hstep
    · rcases Option.map_eq_some_iff.mp hstep with ⟨t, hpoll, rfl⟩
      have hsame := onPoll_same hl hpoll
      split
      · refine hsame.ofTask _ hs (by simp) ?_
        rintro j (hsched | ⟨tag', hidle⟩)
        · have henqueued := AlarmTags.scheduled_of_destroyAlarmTag hsched
          rcases AlarmTags.scheduled_of_enqueueFn henqueued with rfl | hold
          · exact Or.inr ⟨tag, htask⟩
          · exact Or.inl hold
        · cases hidle
      · exact hsame
  · cases hstep

theorem callback_same {tag : Nat} {ok : Bool} (hstep : step s (.callback tag ok) = some s') :
    Same s s' := by
  simp only [step] at hstep
  split at hstep
  · rename_i i alarms hidle hnext
    have hs : ∀ st hash j, s.task ≠ .connecting st hash j := by simp [hidle]
    rcases AlarmTags.next_spec hnext with ⟨-, hfind, halarms⟩
    have hbusy : ∀ j, 0 < alarms.scheduled j → s.Busy j := by
      intro j hj
      rw [halarms] at hj
      exact Or.inl hj
    split at hstep
    · cases hstep
    · rcases Option.map_eq_some_iff.mp hstep with ⟨t, hpoll, rfl⟩
      have hsame := onPoll_same (by trivial) hpoll
      split
      · have hended := Same.setData (s := t) (i := s.endOwner.getD i)
          (SharedData.endCallback_streams _)
        refine { hsame.trans hended with busy := ?_ }
        rintro j (hdestroyed | hpolling)
        · exact hbusy j (AlarmTags.scheduled_of_destroyAlarmTag hdestroyed)
        · exact hsame.busy j (Or.inr hpolling)
      · refine hsame.ofTask _ hs (by simp) ?_
        rintro j (hsched' | ⟨tag', hpolling⟩)
        · exact hbusy j hsched'
        · cases hpolling
          exact Or.inl (AlarmTags.scheduled_pos.mpr ⟨tag, hfind⟩)
  · cases hstep

theorem connectClient_moves {st : κ} {id : Option Hash} {fresh : κ}
    (hstep : step s (.connectClient st id fresh) = some s') :
    Moves s (.connectClient st id fresh) s' := by
  simp only [step] at hstep
  split at hstep
  · rename_i hguard
    rcases hguard with ⟨hidle, hmem, hstate, hfresh⟩
    have hmem := OrdMap.contains_iff.mp hmem
    have hnew := OrdMap.contains_eq_false.mp hfresh
    split at hstep
    · cases hstep
      exact .rejected hidle hmem hnew hstate (by simp)
    · rename_i hash
      split at hstep
      · rename_i hfind
        cases hstep
        refine .rejected hidle hmem hnew hstate ?_
        intro hash' i heq hfind'
        cases heq
        cases hfind.symm.trans hfind'
      · rename_i i hfind
        split at hstep
        · rename_i d hadd
          cases hstep
          refine .rejected hidle hmem hnew hstate ?_
          intro hash' i' heq hfind'
          cases heq
          cases hfind.symm.trans hfind'
          by_contra hin
          have htrue : ((s.poll i).data.addStream st).1 = true :=
            OrdMap.emplace_fst_of_not_mem hin ()
          have hfalse : ((s.poll i).data.addStream st).1 = false := congrArg Prod.fst hadd
          rw [htrue] at hfalse
          cases hfalse
        · rename_i d hadd
          cases hstep
          have hd : d = ((s.poll i).data.addStream st).2 := (congrArg Prod.snd hadd).symm
          subst hd
          refine .adding hidle hmem hnew hstate hfind ?_
          intro hin
          have hfalse : ((s.poll i).data.addStream st).1 = false :=
            congrArg Prod.fst (OrdMap.emplace_of_mem hin ())
          have htrue : ((s.poll i).data.addStream st).1 = true := congrArg Prod.fst hadd
          rw [hfalse] at htrue
          cases htrue
  · cases hstep

theorem getSharedData_moves {cq : Option CqHandle}
    (hstep : step s (.getSharedData cq) = some s') : Moves s (.getSharedData cq) s' := by
  simp only [step] at hstep
  split at hstep
  · rename_i st hash i htask
    split at hstep
    · rename_i hfind
      cases hstep
      exact .orphaned htask hfind
    · rename_i j hfind
      cases hstep
      refine .connected htask hfind ?_
      intro k hk
      split at hk
      · exact AlarmTags.scheduled_of_enqueueFn hk
      · exact Or.inr hk
  · cases hstep

theorem process_moves (h : Inv s) {st : κ} {ok : Bool} (hstep : step s (.process st ok) = some s') :
    Moves s (.process st ok) s' := by
  simp only [step] at hstep
  split at hstep
  · rename_i hguard
    rcases hguard with ⟨hidle, hmem, hstate⟩
    have hsame {obj : ServerEventStream} (hobj : Fades (s.stream st) obj) :
        Moves s (.process st ok) { s with stream := Function.update s.stream st obj } :=
      .same rfl (Same.setStream (fades_update hobj))
    have hkilled (hend : (s.stream st).state = .CONNECT ∨ (s.stream st).state = .FINISH) :
        Moves s (.process st ok) ((s.stream st).kill.foldl (applyEffect st)
          { s with stream := Function.update s.stream st (s.stream st) }) := by
      have hmem := OrdMap.contains_iff.mp hmem
      rw [Function.update_eq_self, h.kill_eq hmem]
      exact .killed hidle hmem hend
    unfold ServerEventStream.process at hstep
    split at hstep
    · rename_i hconnect
      cases ok with
      | false =>
        cases hstep
        exact hkilled (Or.inl hconnect)
      | true => exact absurd ⟨hconnect, rfl⟩ hstate
    · split at hstep
      · cases hstep
        exact hsame ⟨rfl, Or.inr (Or.inl rfl)⟩
      · cases hstep
        exact hsame ⟨rfl, Or.inl rfl⟩
    · cases hstep
      exact hsame ⟨rfl, Or.inr (Or.inr rfl)⟩
    · rename_i hfinish
      cases hstep
      exact hkilled (Or.inr hfinish)
  · cases hstep

/-- A completion that finds the stream in `FINISH` kills it. -/
theorem process_finish (h : Inv s) {st : κ} {ok : Bool} (hstate : (s.stream st).state = .FINISH)
    (hstep : step s (.process st ok) = some s') : s' = s.killed st := by
  simp only [step] at hstep
  split at hstep
  · rename_i hguard
    have hkill : (s.stream st).process ok .rejected = (s.stream st, (s.stream st).kill) := by
      simp only [ServerEventStream.process, hstate]
    rw [hkill, Function.update_eq_self] at hstep
    cases hstep
    exact h.kill_eq (OrdMap.contains_iff.mp hguard.2.1)
  · cases hstep

/-- The inversion lemma: a step is one of the moves. -/
theorem step_moves (hinv : Inv s) {l : Lbl κ} (hstep : step s l = some s') : Moves s l s' := by
  cases l with
  | addPlugin plugin =>
    simp only [step] at hstep
    by_cases hmem : hashOf plugin ∈ s.mSharedData.keys
    · rw [OrdMap.emplace_of_mem hmem] at hstep
      cases hstep
      exact .same rfl (Same.refl s)
    · rw [OrdMap.emplace_fst_of_not_mem hmem] at hstep
      cases hstep
      exact .added hmem
  | removePlugin hash =>
    simp only [step] at hstep
    split at hstep
    · cases hstep
      exact .same rfl (Same.refl s)
    · rename_i hzero
      cases hstep
      exact .removed hzero
  | hold h hash =>
    simp only [step] at hstep
    split at hstep
    · cases hstep
      exact .same rfl (Same.refl s)
    · rename_i i hfind
      split at hstep
      · cases hstep
      · rename_i hnew
        cases hstep
        exact .held hfind (mt OrdMap.contains_iff.mpr hnew)
  | release h =>
    cases hstep
    exact .released
  | pushProcess h ev =>
    have hpush : s.push h ev (fun d => d.pushProcess ev) = some s' := hstep
    exact .same rfl (push_same (fun _ => rfl) hpush)
  | pushMain h ev =>
    have hpush : s.push h ev (fun d => d.pushMain ev) = some s' := hstep
    exact .same rfl (push_same (fun _ => rfl) hpush)
  | stopPoll h =>
    rcases Option.map_eq_some_iff.mp hstep with ⟨i, -, rfl⟩
    exact .same rfl (Same.setData (SharedData.stopPoll_streams _))
  | endStreams h =>
    rcases Option.map_eq_some_iff.mp hstep with ⟨i, -, rfl⟩
    exact .same rfl (Same.setStream (fades_endAll _ _))
  | start first =>
    simp only [step] at hstep
    split at hstep
    · cases hstep
    · rename_i hguard
      rw [not_or] at hguard
      cases hstep
      exact .started (mt OrdMap.contains_iff.mpr hguard.2)
  | stop =>
    simp only [step] at hstep
    split at hstep
    · rename_i hguard
      cases hstep
      exact .stopped hguard.2
    · cases hstep
  | connectClient st id fresh => exact connectClient_moves hstep
  | getSharedData cq => exact getSharedData_moves hstep
  | process st ok => exact process_moves hinv hstep
  | done st =>
    simp only [step] at hstep
    split at hstep
    · cases hstep
      exact .same rfl (Same.setStream (fades_update ⟨rfl, Or.inr (Or.inr rfl)⟩))
    · cases hstep
  | callback tag ok => exact .same rfl (callback_same hstep)
  | pop => exact .same rfl (goOn_same (l := .pop) trivial hstep)
  | send => exact .same rfl (goOn_same (l := .send) trivial hstep)
  | finish => exact .same rfl (goOn_same (l := .finish) trivial hstep)

end Frame

section Steps

variable {s s' : Sys κ}

/-- An instance is in use as long as one of the pointers to it is there. -/
theorem useCount_pos {i : Nat} : 0 < s.useCount i ↔
    (∃ hash, s.mSharedData.find? hash = some i) ∨ (∃ h, s.holders.find? h = some i) ∨
      ∃ st, s.sharedData.find? st = some i := by
  rw [← OrdMap.count_pos, ← OrdMap.count_pos, ← OrdMap.count_pos, Sys.useCount]
  omega

theorem useCount_of_registered {hash : Hash} {i : Nat}
    (h : s.mSharedData.find? hash = some i) : 0 < s.useCount i :=
  useCount_pos.mpr (Or.inl ⟨hash, h⟩)

theorem useCount_of_held {h i : Nat} (hheld : s.holders.find? h = some i) : 0 < s.useCount i :=
  useCount_pos.mpr (Or.inr (Or.inl ⟨h, hheld⟩))

theorem useCount_of_stream {st : κ} {i : Nat} (hst : s.sharedData.find? st = some i) :
    0 < s.useCount i :=
  useCount_pos.mpr (Or.inr (Or.inr ⟨st, hst⟩))

/-- An instance in use was in use before, whoever has it now. -/
theorem used_before {i : Nat} (hi : 0 < s'.useCount i)
    (hreg : ∀ hash, s'.mSharedData.find? hash = some i → 0 < s.useCount i)
    (hheld : ∀ h, s'.holders.find? h = some i → 0 < s.useCount i)
    (hst : ∀ st, s'.sharedData.find? st = some i → 0 < s.useCount i) : 0 < s.useCount i := by
  rcases useCount_pos.mp hi with ⟨hash, hfind⟩ | ⟨h, hfind⟩ | ⟨st, hfind⟩
  · exact hreg hash hfind
  · exact hheld h hfind
  · exact hst st hfind

theorem Same.useCount (h : Same s s') (i : Nat) : s'.useCount i = s.useCount i := by
  rw [Sys.useCount, Sys.useCount, h.mSharedData, h.holders, h.sharedData]

/-- A stream that is killed leaves the set of the instance it has. -/
theorem mem_streams_removeStream {st st' : κ} {i : Nat} :
    st' ∈ ((applyEffect st s .removeStream).poll i).data.streams.toList ↔
      st' ∈ (s.poll i).data.streams.toList ∧ ¬ (s.sharedData.find? st = some i ∧ st' = st) := by
  cases hfind : s.sharedData.find? st with
  | none => simp [applyEffect, hfind]
  | some j =>
    by_cases hij : i = j
    · subst hij
      simp [applyEffect, hfind, setData_self, SharedData.removeStream]
    · simp [applyEffect, hfind, setData_ne hij, Ne.symm hij]

/-- A stream that is added is in the set of one more instance. -/
theorem mem_streams_addStream {st st' : κ} {i j : Nat} :
    st' ∈ ((s.setData i ((s.poll i).data.addStream st).2).poll j).data.streams.toList ↔
      st' ∈ (s.poll j).data.streams.toList ∨ j = i ∧ st' = st := by
  by_cases hij : j = i
  · subst hij
    simp [setData_self, SharedData.addStream, OrdSet.insert, or_comm]
  · simp [setData_ne hij, hij]

theorem Same.inv (h : Same s s') (hinv : Inv s) : Inv s' where
  flag st hst := by
    rw [h.pendingTags] at hst
    rw [h.flag, h.sharedData]
    exact hinv.flag st hst
  pointer st hst := by
    rw [h.sharedData] at hst
    rcases hinv.pointer st hst with ⟨hmem, hstate⟩
    rw [h.pendingTags]
    refine ⟨hmem, ?_⟩
    rcases h.state st with heq | heq | heq
    · rw [heq]
      exact hstate
    · simp [heq]
    · simp [heq]
  connecting st hash i htask := by
    rw [h.connecting] at htask
    rw [h.pendingTags, h.sharedData, h.streams, h.belongs, h.count]
    exact hinv.connecting st hash i htask
  count i hi := by
    rw [h.useCount] at hi
    rw [h.count]
    exact hinv.count i hi

/-- Only a new instance comes into use. -/
theorem Moves.used {l : Lbl κ} (h : Moves s l s') {i : Nat} (hi : 0 < s'.useCount i) :
    0 < s.useCount i ∨ i = s.count ∧ ∃ plugin, l = .addPlugin plugin := by
  cases h with
  | same hl hsame => exact Or.inl (hsame.useCount i ▸ hi)
  | @added plugin hnew =>
    rcases useCount_pos.mp hi with ⟨hash, hfind⟩ | hrest
    · rcases OrdMap.find?_of_emplace hfind with ⟨-, rfl⟩ | hold
      · exact Or.inr ⟨rfl, plugin, rfl⟩
      · exact Or.inl (useCount_of_registered hold)
    · exact Or.inl (useCount_pos.mpr (Or.inr hrest))
  | removed =>
    refine Or.inl (used_before hi ?_ (fun h => useCount_of_held (s := s))
      (fun st => useCount_of_stream (s := s)))
    intro hash hfind
    exact useCount_of_registered (OrdMap.find?_of_erase hfind).2
  | held hfind hnew =>
    refine Or.inl (used_before hi (fun hash => useCount_of_registered (s := s)) ?_
      (fun st => useCount_of_stream (s := s)))
    intro h hheld
    rcases OrdMap.find?_of_emplace hheld with ⟨-, rfl⟩ | hold
    · exact useCount_of_registered hfind
    · exact useCount_of_held hold
  | released =>
    refine Or.inl (used_before hi (fun hash => useCount_of_registered (s := s)) ?_
      (fun st => useCount_of_stream (s := s)))
    intro h hheld
    exact useCount_of_held (OrdMap.find?_of_erase hheld).2
  | stopped =>
    refine Or.inl (used_before hi (fun hash => useCount_of_registered (s := s))
      (fun h => useCount_of_held (s := s)) ?_)
    intro st hst
    cases hst
  | connected htask hfind halarms =>
    refine Or.inl (used_before hi (fun hash => useCount_of_registered (s := s))
      (fun h => useCount_of_held (s := s)) ?_)
    intro st hst
    rcases OrdMap.find?_of_emplace hst with ⟨-, rfl⟩ | hold
    · exact useCount_of_registered hfind
    · exact useCount_of_stream hold
  | killed =>
    refine Or.inl (used_before hi (fun hash => useCount_of_registered (s := s))
      (fun h => useCount_of_held (s := s)) ?_)
    intro st hst
    exact useCount_of_stream (OrdMap.find?_of_erase hst).2
  | _ => exact Or.inl hi

theorem Moves.used_of_ne {l : Lbl κ} (h : Moves s l s') (hl : ∀ plugin, l ≠ .addPlugin plugin)
    {i : Nat} (hi : 0 < s'.useCount i) : 0 < s.useCount i := by
  rcases h.used hi with hold | ⟨-, plugin, heq⟩
  · exact hold
  · exact absurd heq (hl plugin)

theorem Moves.count_le {l : Lbl κ} (h : Moves s l s') : s.count ≤ s'.count := by
  cases h with
  | same hl hsame => exact Nat.le_of_eq hsame.count.symm
  | added => exact Nat.le_succ _
  | _ => exact Nat.le_refl _

/-- Only numbers of instances that have been made are in use. -/
theorem Inv.count_step (h : Inv s) {l : Lbl κ} (hmoves : Moves s l s') {i : Nat}
    (hi : 0 < s'.useCount i) : i < s'.count := by
  rcases hmoves.used hi with hold | ⟨rfl, plugin, rfl⟩
  · exact Nat.lt_of_lt_of_le (h.count i hold) hmoves.count_le
  · cases hmoves with
    | same hl hsame =>
      rw [hsame.useCount] at hi
      exact absurd (h.count _ hi) (Nat.lt_irrefl _)
    | added => exact Nat.lt_succ_self _

/-- A stream is created at an address that is not in use. -/
theorem Inv.create (h : Inv s) {fresh : κ} (hnew : fresh ∉ s.pendingTags.keys) :
    Inv (s.create fresh) where
  flag st hst := by
    show (Function.update s.stream fresh {} st).sharedData = _
    by_cases hfresh : st = fresh
    · subst hfresh
      have hcontains : s.sharedData.contains st = false := by
        rw [OrdMap.contains_eq_false]
        exact fun hptr => hnew (h.pointer st hptr).1
      rw [Function.update_self]
      exact hcontains.symm
    · rw [Function.update_of_ne hfresh]
      exact h.flag st ((OrdMap.mem_keys_emplace.mp hst).resolve_left hfresh)
  pointer st hst := by
    rcases h.pointer st hst with ⟨hmem, hstate⟩
    have hne : st ≠ fresh := fun heq => hnew (heq ▸ hmem)
    refine ⟨OrdMap.mem_keys_emplace.mpr (Or.inr hmem), ?_⟩
    show (Function.update s.stream fresh {} st).state ≠ _
    rwa [Function.update_of_ne hne]
  connecting st hash i htask := by
    rcases h.connecting st hash i htask with ⟨hmem, hptr, hin, hbelongs, hlt⟩
    have hne : st ≠ fresh := fun heq => hnew (heq ▸ hmem)
    refine ⟨OrdMap.mem_keys_emplace.mpr (Or.inr hmem), hptr, hin, ?_, hlt⟩
    show Function.update s.belongs fresh none st = _
    rwa [Function.update_of_ne hne]
  count := h.count

/-- A stream that could not connect waits for the end of its call. -/
theorem answer_refused (s : Sys κ) (st : κ) {connect : ServerEventStream.ConnectResult}
    (hne : connect ≠ .connected) : s.answer st connect =
      { s with stream := Function.update s.stream st { s.stream st with state := .FINISH } } := by
  cases connect with
  | connected => exact absurd rfl hne
  | _ => rfl

theorem Inv.refused (h : Inv s) (st : κ) :
    Inv { s with
      stream := Function.update s.stream st { s.stream st with state := .FINISH } } := by
  refine ⟨?_, ?_, h.connecting, h.count⟩
  · intro st' hst'
    refine Eq.trans ?_ (h.flag st' hst')
    show (Function.update s.stream st _ st').sharedData = _
    by_cases hst : st' = st
    · subst hst
      rw [Function.update_self]
    · rw [Function.update_of_ne hst]
  · intro st' hst'
    refine ⟨(h.pointer st' hst').1, ?_⟩
    show (Function.update s.stream st _ st').state ≠ _
    by_cases hst : st' = st
    · subst hst
      rw [Function.update_self]
      exact State.noConfusion
    · rw [Function.update_of_ne hst]
      exact (h.pointer st' hst').2

/-- A stream has found its instance. -/
theorem Inv.connected (h : Inv s) {cq : Option CqHandle} {st : κ} {hash : Hash} {i j : Nat}
    {alarms : AlarmTags Nat} (htask : s.task = .connecting st hash i)
    (hcount : ∀ i, 0 < s'.useCount i → i < s'.count)
    (heq : s' = { (s.answer st .connected).setData j ((s.poll j).data.tryStartPolling cq).2.1 with
      sharedData := (s.sharedData.emplace st j).2
      alarms := alarms
      task := .idle }) : Inv s' := by
  have hmem := (h.connecting st hash i htask).1
  subst heq
  refine ⟨?_, ?_, ?_, hcount⟩
  · intro st' hst'
    show (Function.update s.stream st _ st').sharedData = _
    by_cases hst : st' = st
    · subst hst
      rw [Function.update_self]
      exact OrdMap.contains_emplace_self.symm
    · rw [Function.update_of_ne hst]
      exact (h.flag st' hst').trans (OrdMap.contains_emplace_ne hst).symm
  · intro st' hst'
    show st' ∈ s.pendingTags.keys ∧ (Function.update s.stream st _ st').state ≠ _
    by_cases hst : st' = st
    · subst hst
      rw [Function.update_self]
      exact ⟨hmem, State.noConfusion⟩
    · rw [Function.update_of_ne hst]
      exact h.pointer st' ((OrdMap.mem_keys_emplace.mp hst').resolve_left hst)
  · intro st' hash' i' htask'
    cases htask'

/-- A stream is gone, and its pointer. -/
theorem Inv.killed (h : Inv s) {st : κ} (hidle : s.task = .idle)
    (hcount : ∀ i, 0 < (s.killed st).useCount i → i < (s.killed st).count) :
    Inv (s.killed st) where
  flag st' hst' := by
    rcases OrdMap.mem_keys_erase.mp hst' with ⟨hmem, hne⟩
    exact (h.flag st' hmem).trans (OrdMap.contains_erase_ne hne).symm
  pointer st' hst' := by
    rcases OrdMap.mem_keys_erase.mp hst' with ⟨hptr, hne⟩
    rcases h.pointer st' hptr with ⟨hmem, hstate⟩
    exact ⟨OrdMap.mem_keys_erase.mpr ⟨hmem, hne⟩, hstate⟩
  connecting st' hash i htask := by cases hidle.symm.trans htask
  count := hcount

theorem step_inv {l : Lbl κ} (h : Inv s) (hstep : step s l = some s') : Inv s' := by
  have hmoves := step_moves h hstep
  have hcount : ∀ i, 0 < s'.useCount i → i < s'.count := fun i => h.count_step hmoves
  cases hmoves with
  | same hl hsame => exact hsame.inv h
  | added hnew =>
    refine ⟨h.flag, h.pointer, ?_, hcount⟩
    intro st hash i htask
    rcases h.connecting st hash i htask with ⟨hmem, hptr, hin, hbelongs, hlt⟩
    refine ⟨hmem, hptr, ?_, hbelongs, Nat.lt_succ_of_lt hlt⟩
    simpa [Nat.ne_of_lt hlt] using hin
  | removed hzero => exact ⟨h.flag, h.pointer, h.connecting, hcount⟩
  | held hfind hnew => exact ⟨h.flag, h.pointer, h.connecting, hcount⟩
  | released => exact ⟨h.flag, h.pointer, h.connecting, hcount⟩
  | started hnew => exact { h.create hnew with }
  | stopped hidle =>
    refine ⟨List.forall_mem_nil _, List.forall_mem_nil _, ?_, hcount⟩
    intro st hash i htask
    cases hidle.symm.trans htask
  | @rejected st id fresh hidle hmem hnew hstate hin =>
    rw [answer_refused _ st (by simp)]
    exact (h.create hnew).refused st
  | adding hidle hmem hnew hstate hfind hadd =>
    refine ⟨(h.create hnew).flag, (h.create hnew).pointer, ?_, hcount⟩
    intro st hash i htask
    cases htask
    refine ⟨OrdMap.mem_keys_emplace.mpr (Or.inr hmem), ?_, ?_, Function.update_self _ _ _,
      h.count _ (useCount_of_registered hfind)⟩
    · exact fun hptr => (h.pointer _ hptr).2 hstate
    · exact mem_streams_addStream.mpr (Or.inr ⟨rfl, rfl⟩)
  | @orphaned cq st hash i htask hfind =>
    rw [answer_refused _ st (by simp)]
    refine ⟨(h.refused st).flag, (h.refused st).pointer, ?_, h.count⟩
    intro st hash i hidle
    cases hidle
  | connected htask hfind halarms => exact h.connected htask hcount rfl
  | killed hidle hmem hstate => exact h.killed hidle hcount

end Steps

end ClapRci.Instances
