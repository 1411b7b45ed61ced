import Mathlib.Data.Nat.Basic
import Mathlib.Logic.Function.Basic
import ClapRci.Lib.ActionSystem
import ClapRci.Server.SharedData

/-!
# Poll rounds of one `SharedData`, step by step

`pollCallback` cut at each pop and each send, so that pushes, stops and changes of the
streams fall between them. The history keeps what was popped, what each stream was
handed, and the rounds in which a stream accepted the message.

* `pollCallback_run`: without interference the steps do what `SharedData.pollCallback`
  does at once;
* `delivery_of_reachable`: what the successful rounds sent, and what waits in
  `mPluginToClientsData`, is what was popped, in order; every open stream was handed every
  message.
-/

namespace ClapRci.PollRounds

open ServerEventStream (State)

/-- Which queue an event comes from. -/
inductive Source where
  | process | main
deriving DecidableEq

/-- An event popped by `consumeEventToStream`: the number of the round, the queue. -/
structure Popped where
  round : Nat
  source : Source
  ev : ServerEventWrapper
deriving DecidableEq

/-- Where the callback is: not running, in one of the two `consumeEventToStream` loops
with the events counted so far, or in the loop over the streams, with those to come,
those visited and the state each was found in, and the flag `success`. -/
inductive Pc (κ : Type) where
  | idle
  | consumeProcess (nProcessEvs : Nat)
  | consumeMain (nProcessEvs nMainEvs : Nat)
  | sending (todo : List κ) (visits : List (κ × State)) (success : Bool)
deriving DecidableEq

/-- A round in which a send succeeded: the message, the streams of the set, and the state
each was in when its turn came. -/
structure Round (κ : Type) where
  message : Api.ServerEvents
  streams : List κ
  visits : List (κ × State)
deriving DecidableEq

/-- The members, the streams behind the addresses, the callback, and the history. -/
structure Sys (κ : Type) [LinearOrder κ] where
  data : SharedData κ
  stream : κ → ServerEventStream := fun _ => {}
  pc : Pc κ := .idle
  round : Nat := 0
  popped : List Popped := []
  writes : List (κ × Api.ServerEvents) := []
  rounds : List (Round κ) := []

/-- The steps of the callback (`callback` to `finish`), and what others do meanwhile. The
lambda `endCallback` may have captured this instance or another one (`captured`), and the
callback of another one may run it on this instance (`endElsewhere`). -/
inductive Lbl (κ : Type) where
  | callback (ok captured : Bool)
  | pop
  | send
  | finish
  | pushProcess (ev : ServerEventWrapper)
  | pushMain (ev : ServerEventWrapper)
  | setStream (stream : κ) (obj : ServerEventStream)
  | addStream (stream : κ)
  | removeStream (stream : κ)
  | tryStartPolling (cq : Option CqHandle)
  | stopPoll
  | endElsewhere

variable {κ : Type} [LinearOrder κ]

/-- One turn of `while (queue.pop(out))`. -/
def consumeOne (s : Sys κ) (source : Source) (ev : ServerEventWrapper) (d : SharedData κ)
    (pc : Pc κ) : Sys κ :=
  { s with
    data := { d with mPluginToClientsData := d.mPluginToClientsData ++ [ev.toServerEvent] }
    popped := s.popped ++ [⟨s.round, source, ev⟩]
    pc := pc }

/-- The messages among the effects of a send. -/
def writesOf (stream : κ) (effs : List ServerEventStream.Effect) : List (κ × Api.ServerEvents) :=
  effs.filterMap fun
    | .start (.write evs) => some (stream, evs)
    | _ => none

/-- `endStream()` on each stream of the set. -/
def endAll (streams : List κ) (stream : κ → ServerEventStream) : κ → ServerEventStream :=
  fun s => if s ∈ streams then (stream s).endStream.2.1 else stream s

/-- A call that happens only between callbacks, and leaves these members. -/
def Sys.between (s : Sys κ) (d : SharedData κ) : Option (Sys κ) :=
  match s.pc with
  | .idle => some { s with data := d }
  | _ => none

/-- One step. The set of streams changes, and polling starts, on the thread that runs the
callback, hence only between callbacks. -/
def step (s : Sys κ) : Lbl κ → Option (Sys κ)
  | .callback ok captured =>
    match s.pc with
    | .idle =>
      if s.data.endsPoll ok then
        some { s with
          data := if captured then s.data.endCallback else s.data
          -- only the third check finds streams to end
          stream := if ok && s.data.coreplugin.isSome && s.data.mServerStreamCq.isSome then
            endAll s.data.streams.toList s.stream else s.stream }
      else some { s with pc := .consumeProcess 0, round := s.round + 1 }
    | _ => none
  | .pop =>
    match s.pc with
    | .consumeProcess n =>
      match s.data.mPluginProcessToClientsQueue.pop with
      | (none, _) => some { s with pc := .consumeMain n 0 }
      | (some ev, queue) =>
        some (consumeOne s .process ev { s.data with mPluginProcessToClientsQueue := queue }
          (.consumeProcess (n + 1)))
    | .consumeMain n m =>
      match s.data.mPluginMainToClientsQueue.pop with
      | (none, _) =>
        -- both loops are over: is there anything to send?
        if n = 0 ∧ m = 0 then some { s with data := s.data.nextExpBackoff.2, pc := .idle }
        else some { s with pc := .sending s.data.streams.toList [] false }
      | (some ev, queue) =>
        some (consumeOne s .main ev { s.data with mPluginMainToClientsQueue := queue }
          (.consumeMain n (m + 1)))
    | _ => none
  | .send =>
    match s.pc with
    | .sending (st :: todo) visits success =>
      let (sent, obj, effs) := (s.stream st).sendEvents s.data.mPluginToClientsData
      some { s with
        stream := Function.update s.stream st obj
        writes := s.writes ++ writesOf st effs
        pc := .sending todo (visits ++ [(st, (s.stream st).state)]) (success || sent) }
    | _ => none
  | .finish =>
    match s.pc with
    | .sending [] visits success =>
      if !success then some { s with data := s.data.nextExpBackoff.2, pc := .idle }
      else
        some { s with
          data := { s.data with mPluginToClientsData := [], mCurrExpBackoff := mPollFreqNs }
          rounds := s.rounds ++ [⟨s.data.mPluginToClientsData, s.data.streams.toList, visits⟩]
          pc := .idle }
    | _ => none
  | .pushProcess ev => some { s with data := (s.data.pushProcess ev).2 }
  | .pushMain ev => some { s with data := (s.data.pushMain ev).2 }
  | .setStream stream obj => some { s with stream := Function.update s.stream stream obj }
  | .addStream stream => s.between (s.data.addStream stream).2
  | .removeStream stream => s.between (s.data.removeStream stream).2
  | .tryStartPolling cq => s.between (s.data.tryStartPolling cq).2.1
  | .stopPoll => some { s with data := s.data.stopPoll.2 }
  | .endElsewhere => s.between s.data.endCallback

/-- A freshly constructed instance. -/
def init (κ : Type) [LinearOrder κ] (plugin : PluginPtr) : Sys κ where
  data := .ofPlugin κ plugin

/-- The poll rounds of the instance of `plugin`. -/
def spec (κ : Type) [LinearOrder κ] (plugin : PluginPtr) :
    ActionSystem.Spec (Sys κ) (Lbl κ) where
  Init s := s = init κ plugin
  step := step

/-! ## What a step can do -/

/-- The steps, case by case. -/
inductive Moves (s : Sys κ) : Lbl κ → Sys κ → Prop where
  | ended {ok captured} (hpc : s.pc = .idle) (hends : s.data.endsPoll ok = true) :
    Moves s (.callback ok captured) { s with
      data := if captured then s.data.endCallback else s.data
      stream := if ok && s.data.coreplugin.isSome && s.data.mServerStreamCq.isSome then
        endAll s.data.streams.toList s.stream else s.stream }
  | begun {ok captured} (hpc : s.pc = .idle) :
    Moves s (.callback ok captured) { s with pc := .consumeProcess 0, round := s.round + 1 }
  | processPopped {n ev queue} (hpc : s.pc = .consumeProcess n) :
    Moves s .pop (consumeOne s .process ev
      { s.data with mPluginProcessToClientsQueue := queue } (.consumeProcess (n + 1)))
  | processDone {n} (hpc : s.pc = .consumeProcess n) :
    Moves s .pop { s with pc := .consumeMain n 0 }
  | mainPopped {n m ev queue} (hpc : s.pc = .consumeMain n m)
    (hpop : s.data.mPluginMainToClientsQueue.pop = (some ev, queue)) :
    Moves s .pop (consumeOne s .main ev
      { s.data with mPluginMainToClientsQueue := queue } (.consumeMain n (m + 1)))
  | nothingToSend {n m} (hpc : s.pc = .consumeMain n m) :
    Moves s .pop { s with data := s.data.nextExpBackoff.2, pc := .idle }
  | mainDone {n m} (hpc : s.pc = .consumeMain n m) :
    Moves s .pop { s with pc := .sending s.data.streams.toList [] false }
  | sent {st todo visits success} (hpc : s.pc = .sending (st :: todo) visits success) :
    Moves s .send { s with
      stream := Function.update s.stream st
        ((s.stream st).sendEvents s.data.mPluginToClientsData).2.1
      writes := s.writes ++ writesOf st ((s.stream st).sendEvents s.data.mPluginToClientsData).2.2
      pc := .sending todo (visits ++ [(st, (s.stream st).state)])
        (success || ((s.stream st).sendEvents s.data.mPluginToClientsData).1) }
  | failed {visits} (hpc : s.pc = .sending [] visits false) :
    Moves s .finish { s with data := s.data.nextExpBackoff.2, pc := .idle }
  | succeeded {visits} (hpc : s.pc = .sending [] visits true) :
    Moves s .finish { s with
      data := { s.data with mPluginToClientsData := [], mCurrExpBackoff := mPollFreqNs }
      rounds := s.rounds ++ [⟨s.data.mPluginToClientsData, s.data.streams.toList, visits⟩]
      pc := .idle }
  | pushProcess {ev} : Moves s (.pushProcess ev) { s with data := (s.data.pushProcess ev).2 }
  | pushMain {ev} : Moves s (.pushMain ev) { s with data := (s.data.pushMain ev).2 }
  | setStream {stream obj} :
    Moves s (.setStream stream obj) { s with stream := Function.update s.stream stream obj }
  | addStream {stream} (hpc : s.pc = .idle) :
    Moves s (.addStream stream) { s with data := (s.data.addStream stream).2 }
  | removeStream {stream} (hpc : s.pc = .idle) :
    Moves s (.removeStream stream) { s with data := (s.data.removeStream stream).2 }
  | tryStartPolling {cq} (hpc : s.pc = .idle) :
    Moves s (.tryStartPolling cq) { s with data := (s.data.tryStartPolling cq).2.1 }
  | stopPoll : Moves s .stopPoll { s with data := s.data.stopPoll.2 }
  | endElsewhere (hpc : s.pc = .idle) :
    Moves s .endElsewhere { s with data := s.data.endCallback }

theorem between_spec {s s' : Sys κ} {d : SharedData κ} (hstep : s.between d = some s') :
    s.pc = .idle ∧ s' = { s with data := d } := by
  unfold Sys.between at hstep
  split at hstep
  · rename_i hidle
    cases hstep
    exact ⟨hidle, rfl⟩
  · cases hstep

theorem between_of_idle {s : Sys κ} (hidle : s.pc = .idle) (d : SharedData κ) :
    s.between d = some { s with data := d } := by
  unfold Sys.between
  split
  · rfl
  · rename_i hbusy
    exact absurd hidle hbusy

/-- The inversion lemma: a step is one of the moves. -/
theorem step_moves {s s' : Sys κ} {l : Lbl κ} (hstep : step s l = some s') : Moves s l s' := by
  cases l with
  | callback ok captured =>
    simp only [step] at hstep
    split at hstep
    · rename_i hpc
      split at hstep
      · rename_i hends
        cases hstep
        exact .ended hpc hends
      · cases hstep
        exact .begun hpc
    · cases hstep
  | pop =>
    simp only [step] at hstep
    split at hstep
    · rename_i n hpc
      split at hstep
      · cases hstep
        exact .processDone hpc
      · cases hstep
        exact .processPopped hpc
    · rename_i n m hpc
      split at hstep
      · split at hstep
        · cases hstep
          exact .nothingToSend hpc
        · cases hstep
          exact .mainDone hpc
      · rename_i ev queue hpop
        cases hstep
        exact .mainPopped hpc hpop
    · cases hstep
  | send =>
    simp only [step] at hstep
    split at hstep
    · rename_i st todo visits success hpc
      cases hstep
      exact .sent hpc
    · cases hstep
  | finish =>
    simp only [step] at hstep
    split at hstep
    · rename_i visits success hpc
      cases success
      · cases hstep
        exact .failed hpc
      · cases hstep
        exact .succeeded hpc
    · cases hstep
  | pushProcess ev =>
    cases hstep
    exact .pushProcess
  | pushMain ev =>
    cases hstep
    exact .pushMain
  | setStream stream obj =>
    cases hstep
    exact .setStream
  | addStream stream =>
    rcases between_spec hstep with ⟨hpc, rfl⟩
    exact .addStream hpc
  | removeStream stream =>
    rcases between_spec hstep with ⟨hpc, rfl⟩
    exact .removeStream hpc
  | tryStartPolling cq =>
    rcases between_spec hstep with ⟨hpc, rfl⟩
    exact .tryStartPolling hpc
  | stopPoll =>
    cases hstep
    exact .stopPoll
  | endElsewhere =>
    rcases between_spec hstep with ⟨hpc, rfl⟩
    exact .endElsewhere hpc

/-- A callback that begins a round does not end polling. -/
theorem endsPoll_of_begun {s s' : Sys κ} {ok captured : Bool}
    (hstep : step s (.callback ok captured) = some s') (hbegun : s'.pc ≠ .idle) :
    s.data.endsPoll ok = false := by
  simp only [step] at hstep
  split at hstep
  · rename_i hidle
    split at hstep
    · cases hstep
      exact absurd hidle hbegun
    · rename_i hends
      exact Bool.not_eq_true _ ▸ hends
  · cases hstep

/-- What a pop finds in the queues. -/
inductive Pops (s : Sys κ) : Sys κ → Prop where
  | process {n ev queue} (hpc : s.pc = .consumeProcess n)
    (hpop : s.data.mPluginProcessToClientsQueue.pop = (some ev, queue)) :
    Pops s (consumeOne s .process ev
      { s.data with mPluginProcessToClientsQueue := queue } (.consumeProcess (n + 1)))
  | processDone {n} (hpc : s.pc = .consumeProcess n)
    (hempty : s.data.mPluginProcessToClientsQueue.elems = []) :
    Pops s { s with pc := .consumeMain n 0 }
  | main {n m ev queue} (hpc : s.pc = .consumeMain n m)
    (hpop : s.data.mPluginMainToClientsQueue.pop = (some ev, queue)) :
    Pops s (consumeOne s .main ev
      { s.data with mPluginMainToClientsQueue := queue } (.consumeMain n (m + 1)))
  | nothingToSend (hpc : s.pc = .consumeMain 0 0)
    (hempty : s.data.mPluginMainToClientsQueue.elems = []) :
    Pops s { s with data := s.data.nextExpBackoff.2, pc := .idle }
  | mainDone {n m} (hpc : s.pc = .consumeMain n m)
    (hempty : s.data.mPluginMainToClientsQueue.elems = []) :
    Pops s { s with pc := .sending s.data.streams.toList [] false }

theorem step_pops {s s' : Sys κ} (hstep : step s .pop = some s') : Pops s s' := by
  simp only [step] at hstep
  split at hstep
  · rename_i n hpc
    split at hstep
    · rename_i hpop
      cases hstep
      exact .processDone hpc (List.head?_eq_none_iff.mp (congrArg Prod.fst hpop))
    · rename_i hpop
      cases hstep
      exact .process hpc hpop
  · rename_i n m hpc
    split at hstep
    · rename_i hpop
      have hempty := List.head?_eq_none_iff.mp (congrArg Prod.fst hpop)
      split at hstep
      · rename_i hcount
        rcases hcount with ⟨rfl, rfl⟩
        cases hstep
        exact .nothingToSend hpc hempty
      · cases hstep
        exact .mainDone hpc hempty
    · rename_i hpop
      cases hstep
      exact .main hpc hpop
  · cases hstep

/-! ## What is delivered -/

/-- The stream was in `WRITE` when its turn came. -/
def Round.writable (r : Round κ) (stream : κ) : Bool := (stream, State.WRITE) ∈ r.visits

/-- The messages a stream was handed, in order. -/
def Sys.handed (s : Sys κ) (stream : κ) : List Api.ServerEvents :=
  (s.writes.filter fun w => w.1 = stream).map Prod.snd

/-- Rounds follow each other, and in a round the process queue comes first. -/
def Popped.Before (a b : Popped) : Prop :=
  a.round < b.round ∨ a.round = b.round ∧ (a.source = .main → b.source = .main)

/-- What holds at every point of a run. -/
structure Delivery (s : Sys κ) : Prop where
  /-- Nothing popped is lost, duplicated or reordered. -/
  flow : (s.rounds.map (·.message)).flatten ++ s.data.mPluginToClientsData =
    s.popped.map fun e => e.ev.toServerEvent
  order : s.popped.Pairwise Popped.Before
  /-- In a successful round every stream of the set has its turn, and one is open. -/
  turns : ∀ r ∈ s.rounds, r.visits.map Prod.fst = r.streams ∧
    ∃ stream, r.writable stream = true
  /-- Between callbacks, each stream has been handed, whole and once, the message of each
  successful round it was open in, and nothing else. -/
  handed : s.pc = .idle → ∀ stream,
    s.handed stream = (s.rounds.filter fun r => r.writable stream).map (·.message)

/-- Streams open in the same rounds are handed identical sequences. -/
theorem Delivery.same {s : Sys κ} (h : Delivery s) (hidle : s.pc = .idle) {a b : κ}
    (hab : ∀ r ∈ s.rounds, r.writable a = r.writable b) : s.handed a = s.handed b := by
  rw [h.handed hidle, h.handed hidle, List.filter_congr hab]

/-! ## The invariant -/

/-- The writes of a loop over the streams, by the states it found them in. -/
def visitWrites (evs : Api.ServerEvents) (visits : List (κ × State)) :
    List (κ × Api.ServerEvents) :=
  (visits.filter fun v => v.2 = .WRITE).map fun v => (v.1, evs)

/-- The writes of the round that is under way. -/
def Pc.writes (evs : Api.ServerEvents) : Pc κ → List (κ × Api.ServerEvents)
  | .sending _ visits _ => visitWrites evs visits
  | _ => []

/-- Where the callback is, against the set of streams and what was popped. -/
def PcInv (s : Sys κ) : Pc κ → Prop
  | .consumeProcess _ => ∀ e ∈ s.popped, e.round = s.round → e.source = .process
  | .sending todo visits success =>
    visits.map Prod.fst ++ todo = s.data.streams.toList ∧
      success = visits.any fun v => v.2 = .WRITE
  | _ => True

/-- The invariant of the steps. -/
structure Inv (s : Sys κ) : Prop where
  flow : (s.rounds.map (·.message)).flatten ++ s.data.mPluginToClientsData =
    s.popped.map fun e => e.ev.toServerEvent
  order : s.popped.Pairwise Popped.Before
  round_le : ∀ e ∈ s.popped, e.round ≤ s.round
  writes : s.writes = (s.rounds.flatMap fun r => visitWrites r.message r.visits) ++
    s.pc.writes s.data.mPluginToClientsData
  rounds : ∀ r ∈ s.rounds, r.visits.map Prod.fst = r.streams ∧ r.streams.Nodup ∧
    ∃ v ∈ r.visits, v.2 = .WRITE
  pc : PcInv s s.pc

theorem init_inv (plugin : PluginPtr) : Inv (init κ plugin) where
  flow := rfl
  order := List.Pairwise.nil
  round_le _ he := by cases he
  writes := rfl
  rounds _ hr := by cases hr
  pc := trivial

/-- A send writes exactly if it finds the stream open. -/
theorem writesOf_sendEvents {κ : Type} (stream : κ) (obj : ServerEventStream)
    (evs : Api.ServerEvents) :
    writesOf stream (obj.sendEvents evs).2.2 = visitWrites evs [(stream, obj.state)] ∧
      (obj.sendEvents evs).1 = decide (obj.state = .WRITE) := by
  by_cases h : obj.state = .WRITE
  · simp [ServerEventStream.sendEvents, writesOf, visitWrites, h]
  · simp [ServerEventStream.sendEvents, writesOf, visitWrites, h]

theorem visitWrites_append {κ : Type} (evs : Api.ServerEvents) (xs ys : List (κ × State)) :
    visitWrites evs (xs ++ ys) = visitWrites evs xs ++ visitWrites evs ys := by
  simp [visitWrites]

section Steps

variable {s s' : Sys κ}

/-- What others do leaves the response alone, and the set of streams while it is in use. -/
theorem Inv.setData (hinv : Inv s) {d : SharedData κ} (stream : κ → ServerEventStream)
    (hdata : d.mPluginToClientsData = s.data.mPluginToClientsData)
    (hstreams : s.pc = .idle ∨ d.streams = s.data.streams) :
    Inv { s with data := d, stream := stream } where
  flow := by rw [hdata]; exact hinv.flow
  order := hinv.order
  round_le := hinv.round_le
  writes := by rw [hdata]; exact hinv.writes
  rounds := hinv.rounds
  pc := by
    have hpc := hinv.pc
    show PcInv _ s.pc
    cases hs : s.pc with
    | sending todo visits success =>
      rw [hs] at hpc hstreams
      rcases hstreams with hidle | hstreams
      · cases hidle
      · simpa [PcInv, hstreams] using hpc
    | consumeProcess n =>
      rw [hs] at hpc
      exact hpc
    | _ => trivial

/-- One turn of a consume loop. -/
theorem Inv.consumeOne (hinv : Inv s) {source : Source} {ev : ServerEventWrapper}
    {d : SharedData κ} {pc : Pc κ}
    (hdata : d.mPluginToClientsData = s.data.mPluginToClientsData)
    (hold : s.pc.writes s.data.mPluginToClientsData = [])
    (hpc : source = .process ∧ (∃ n, pc = .consumeProcess n) ∧
        (∀ e ∈ s.popped, e.round = s.round → e.source = .process) ∨
      source = .main ∧ ∃ n m, pc = .consumeMain n m) :
    Inv (PollRounds.consumeOne s source ev d pc) where
  flow := by
    have hflow := hinv.flow
    simp only [PollRounds.consumeOne, hdata, ← List.append_assoc, hflow, List.map_append,
      List.map_cons, List.map_nil]
  order := by
    refine List.pairwise_append.mpr ⟨hinv.order, List.pairwise_singleton _ _, ?_⟩
    intro e he f hf
    obtain rfl := List.mem_singleton.mp hf
    rcases Nat.lt_or_eq_of_le (hinv.round_le e he) with hlt | heq
    · exact Or.inl hlt
    · -- in one round the process queue is emptied before the main queue is looked at
      refine Or.inr ⟨heq, ?_⟩
      intro hmain
      rcases hpc with ⟨-, -, hproc⟩ | ⟨hsource, -⟩
      · rw [hproc e he heq] at hmain
        cases hmain
      · exact hsource
  round_le e he := by
    rcases List.mem_append.mp he with he | he
    · exact hinv.round_le e he
    · obtain rfl := List.mem_singleton.mp he
      exact Nat.le_refl _
  writes := by
    have hw := hinv.writes
    rw [hold] at hw
    rcases hpc with ⟨-, ⟨n, rfl⟩, -⟩ | ⟨-, n, m, rfl⟩ <;> exact hw
  rounds := hinv.rounds
  pc := by
    rcases hpc with ⟨rfl, ⟨n, rfl⟩, hproc⟩ | ⟨-, n, m, rfl⟩
    · intro e he hround
      rcases List.mem_append.mp he with he | he
      · exact hproc e he hround
      · obtain rfl := List.mem_singleton.mp he
        rfl
    · trivial

/-- The callback moves on without touching the response. -/
theorem Inv.move (hinv : Inv s) {d : SharedData κ} {pc : Pc κ}
    (hdata : d.mPluginToClientsData = s.data.mPluginToClientsData)
    (hold : s.pc.writes s.data.mPluginToClientsData = [])
    (hnew : pc.writes s.data.mPluginToClientsData = [])
    (hpc : PcInv { s with data := d, pc := pc } pc) : Inv { s with data := d, pc := pc } where
  flow := by rw [hdata]; exact hinv.flow
  order := hinv.order
  round_le := hinv.round_le
  writes := by rw [hdata, hnew, ← hold]; exact hinv.writes
  rounds := hinv.rounds
  pc := hpc

/-- A callback begins a round. -/
theorem Inv.begun (hinv : Inv s) (hpc : s.pc = .idle) :
    Inv { s with pc := .consumeProcess 0, round := s.round + 1 } := by
  have hw := hinv.writes
  rw [hpc] at hw
  refine ⟨hinv.flow, hinv.order, ?_, hw, hinv.rounds, ?_⟩
  · intro e he
    exact Nat.le_succ_of_le (hinv.round_le e he)
  · -- nothing has been popped in the new round
    intro e he hround
    have hle := hinv.round_le e he
    simp only at hround
    omega

/-- A turn of the loop over the streams. -/
theorem Inv.sent (hinv : Inv s) {st : κ} {todo : List κ} {visits : List (κ × State)}
    {success : Bool} (hpc : s.pc = .sending (st :: todo) visits success)
    (stream : κ → ServerEventStream) :
    Inv { s with
      stream := stream
      writes := s.writes ++ writesOf st ((s.stream st).sendEvents s.data.mPluginToClientsData).2.2
      pc := .sending todo (visits ++ [(st, (s.stream st).state)])
        (success || ((s.stream st).sendEvents s.data.mPluginToClientsData).1) } := by
  have hturn := hinv.pc
  have hw := hinv.writes
  rw [hpc] at hturn hw
  rcases hturn with ⟨hturns, hsuccess⟩
  rcases writesOf_sendEvents st (s.stream st) s.data.mPluginToClientsData with ⟨hwrites, hsent⟩
  refine ⟨hinv.flow, hinv.order, hinv.round_le, ?_, hinv.rounds, ?_, ?_⟩
  · simp only [hw, hwrites, Pc.writes, visitWrites_append, List.append_assoc]
  · simpa using hturns
  · simp [hsuccess, hsent]

/-- The end of a round in which no stream was open: nothing was written. -/
theorem Inv.failed (hinv : Inv s) {visits : List (κ × State)}
    (hpc : s.pc = .sending [] visits false) :
    Inv { s with data := s.data.nextExpBackoff.2, pc := .idle } := by
  have hturn := hinv.pc
  have hw := hinv.writes
  rw [hpc] at hturn hw
  rcases hturn with ⟨-, hsuccess⟩
  have hnone : visitWrites s.data.mPluginToClientsData visits = [] := by
    simp only [visitWrites, List.map_eq_nil_iff, List.filter_eq_nil_iff]
    intro v hv
    simpa using List.any_eq_false.mp hsuccess.symm v hv
  rw [Pc.writes, hnone] at hw
  exact ⟨hinv.flow, hinv.order, hinv.round_le, hw, hinv.rounds, trivial⟩

/-- The end of another round: the response becomes the message of the round. -/
theorem Inv.succeeded (hinv : Inv s) {visits : List (κ × State)}
    (hpc : s.pc = .sending [] visits true) :
    Inv { s with
      data := { s.data with mPluginToClientsData := [], mCurrExpBackoff := mPollFreqNs }
      rounds := s.rounds ++ [⟨s.data.mPluginToClientsData, s.data.streams.toList, visits⟩]
      pc := .idle } := by
  have hturn := hinv.pc
  have hw := hinv.writes
  rw [hpc] at hturn hw
  rcases hturn with ⟨hturns, hsuccess⟩
  rw [List.append_nil] at hturns
  have hopen : ∃ v ∈ visits, v.2 = .WRITE := by
    simpa using List.any_eq_true.mp hsuccess.symm
  refine ⟨?_, hinv.order, hinv.round_le, ?_, ?_, trivial⟩
  · simpa using hinv.flow
  · simpa [Pc.writes] using hw
  · intro r hr
    rcases List.mem_append.mp hr with hr | hr
    · exact hinv.rounds r hr
    · obtain rfl := List.mem_singleton.mp hr
      exact ⟨hturns, s.data.streams.keys_nodup, hopen⟩

/-- Every step keeps the invariant. -/
theorem step_inv {l : Lbl κ} (hinv : Inv s) (hstep : step s l = some s') : Inv s' := by
  have hturn := hinv.pc
  have hold : ∀ {pc : Pc κ}, s.pc = pc → pc.writes s.data.mPluginToClientsData = [] →
      s.pc.writes s.data.mPluginToClientsData = [] := by
    rintro pc rfl hnone
    exact hnone
  cases step_moves hstep with
  | @ended ok captured hpc =>
    cases captured
    · exact hinv.setData _ rfl (Or.inl hpc)
    · exact hinv.setData _ rfl (Or.inl hpc)
  | begun hpc => exact hinv.begun hpc
  | processPopped hpc =>
    rw [hpc] at hturn
    exact hinv.consumeOne rfl (hold hpc rfl) (Or.inl ⟨rfl, ⟨_, rfl⟩, hturn⟩)
  | processDone hpc => exact hinv.move rfl (hold hpc rfl) rfl trivial
  | mainPopped hpc => exact hinv.consumeOne rfl (hold hpc rfl) (Or.inr ⟨rfl, _, _, rfl⟩)
  | nothingToSend hpc => exact hinv.move rfl (hold hpc rfl) rfl trivial
  | mainDone hpc => exact hinv.move rfl (hold hpc rfl) rfl ⟨rfl, rfl⟩
  | sent hpc => exact hinv.sent hpc _
  | failed hpc => exact hinv.failed hpc
  | succeeded hpc => exact hinv.succeeded hpc
  | pushProcess => exact hinv.setData _ rfl (Or.inr rfl)
  | pushMain => exact hinv.setData _ rfl (Or.inr rfl)
  | setStream => exact hinv.setData _ rfl (Or.inr rfl)
  | addStream hpc => exact hinv.setData _ rfl (Or.inl hpc)
  | removeStream hpc => exact hinv.setData _ rfl (Or.inl hpc)
  | tryStartPolling hpc =>
    exact hinv.setData _ (SharedData.tryStartPolling_data _ _) (Or.inl hpc)
  | stopPoll =>
    exact hinv.setData _ (SharedData.stopPoll_data _) (Or.inr (SharedData.stopPoll_streams _))
  | endElsewhere hpc => exact hinv.setData _ rfl (Or.inl hpc)

end Steps

/-! ## Delivery -/

/-- A stream is handed the message of a round once, if it was open at its turn. -/
theorem handed_visitWrites {visits : List (κ × State)} (hnd : (visits.map Prod.fst).Nodup)
    (evs : Api.ServerEvents) (stream : κ) :
    ((visitWrites evs visits).filter fun w => w.1 = stream).map Prod.snd =
      if (stream, State.WRITE) ∈ visits then [evs] else [] := by
  induction visits with
  | nil => rfl
  | cons v visits ih =>
    rcases v with ⟨st, state⟩
    rw [List.map_cons, List.nodup_cons] at hnd
    have hrest := ih hnd.2
    rw [← List.singleton_append, visitWrites_append, List.filter_append, List.map_append, hrest]
    by_cases hst : st = stream
    · subst hst
      -- its only turn in this round
      have hno : (st, State.WRITE) ∉ visits := by
        intro hmem
        exact hnd.1 (List.mem_map.mpr ⟨_, hmem, rfl⟩)
      by_cases hstate : state = .WRITE
      · simp [visitWrites, hstate, hno]
      · simp [visitWrites, hstate, hno, Ne.symm hstate]
    · have hne : stream ≠ st := Ne.symm hst
      by_cases hstate : state = .WRITE
      · simp [visitWrites, hstate, hst, hne]
      · simp [visitWrites, hstate, hne]

theorem handed_rounds (rounds : List (Round κ))
    (hnd : ∀ r ∈ rounds, (r.visits.map Prod.fst).Nodup) (stream : κ) :
    ((rounds.flatMap fun r => visitWrites r.message r.visits).filter
      fun w => w.1 = stream).map Prod.snd =
      (rounds.filter fun r => r.writable stream).map (·.message) := by
  induction rounds with
  | nil => rfl
  | cons r rounds ih =>
    have hrest := ih fun r' hr' => hnd r' (List.mem_cons_of_mem _ hr')
    have hr := handed_visitWrites (hnd r List.mem_cons_self) r.message stream
    rw [List.flatMap_cons, List.filter_append, List.map_append, hr, hrest]
    by_cases hopen : (stream, State.WRITE) ∈ r.visits
    · simp [Round.writable, hopen]
    · simp [Round.writable, hopen]

theorem Inv.delivery {s : Sys κ} (hinv : Inv s) : Delivery s where
  flow := hinv.flow
  order := hinv.order
  turns r hr := by
    rcases hinv.rounds r hr with ⟨hturns, -, v, hv, hopen⟩
    refine ⟨hturns, v.1, ?_⟩
    rw [Round.writable, ← hopen]
    exact decide_eq_true hv
  handed hidle stream := by
    have hw := hinv.writes
    rw [hidle] at hw
    have hnil : (Pc.idle : Pc κ).writes s.data.mPluginToClientsData = [] := rfl
    rw [hnil, List.append_nil] at hw
    rw [Sys.handed, hw]
    refine handed_rounds s.rounds ?_ stream
    intro r hr
    rcases hinv.rounds r hr with ⟨hturns, hnd, -⟩
    rwa [hturns]

/-- At every point of every run of poll callbacks, with anything happening to the queues
and the streams meanwhile. -/
theorem delivery_of_reachable {plugin : PluginPtr} {s : Sys κ} (h : (spec κ plugin).Reachable s) :
    Delivery s := by
  refine Inv.delivery ((spec κ plugin).reachable_invariant Inv ?_ ?_ h)
  · rintro s rfl
    exact init_inv plugin
  · intro s l s' hinv hstep
    exact step_inv hinv hstep

/-- One event of each queue, for one open stream and one told to disconnect. -/
def oneRound : List (Lbl Nat) :=
  [.addStream 7, .addStream 8, .tryStartPolling (some 0), .setStream 7 { state := .WRITE },
    .setStream 8 { state := .DISCONNECT }, .pushMain {}, .callback true true,
    .pushProcess { ev := .note }, .pop, .pop, .pop, .pop, .send, .send, .finish]

theorem delivery_one_round : ∃ s, (spec Nat 1).run (init Nat 1) oneRound = some s ∧
    s.handed 7 = [[({ ev := .note } : ServerEventWrapper).toServerEvent,
      ({} : ServerEventWrapper).toServerEvent]] ∧ s.handed 8 = [] ∧ Delivery s :=
  ⟨_, rfl, by decide, by decide, @delivery_of_reachable Nat _ 1 _ ⟨init Nat 1, oneRound, rfl, rfl⟩⟩

/-! ## What a step does to the queues -/

/-- The events popped from the main queue, in order. -/
def Sys.poppedMain (s : Sys κ) : List ServerEventWrapper :=
  (s.popped.filter fun e => e.source = .main).map (·.ev)

/-- The step runs `endCallback` on this instance. -/
def Drains (s : Sys κ) : Lbl κ → Prop
  | .callback ok captured => s.data.endsPoll ok = true ∧ captured = true
  | .endElsewhere => True
  | _ => False

/-- The step pushes an event to the main queue. -/
def Lbl.pushesMain : Lbl κ → Bool
  | .pushMain _ => true
  | _ => false

/-- The main queue and what has been popped from it, across a step. -/
inductive MainQueueMoves (s : Sys κ) : Lbl κ → Sys κ → Prop where
  /-- The queue is emptied. -/
  | drained {l s'} (hdrains : Drains s l) (hpopped : s'.popped = s.popped)
    (hqueue : s'.data.mPluginMainToClientsQueue = .empty) : MainQueueMoves s l s'
  /-- An event is pushed. -/
  | pushed {ev s'} (hpopped : s'.poppedMain = s.poppedMain)
    (hqueue : s'.data.mPluginMainToClientsQueue =
      (s.data.mPluginMainToClientsQueue.pushOverwrite ev).2) :
    MainQueueMoves s (.pushMain ev) s'
  /-- The callback takes the oldest event, or nothing happens to the queue. -/
  | taken {l s'} (hdrains : ¬ Drains s l) (hpush : l.pushesMain = false)
    (hflow : s'.poppedMain ++ s'.data.mPluginMainToClientsQueue.elems =
      s.poppedMain ++ s.data.mPluginMainToClientsQueue.elems) : MainQueueMoves s l s'

/-- A turn of the second consume loop takes from the queue what it adds to the history. -/
theorem mainPopped_mainQueue {s : Sys κ} {ev : ServerEventWrapper}
    {queue : BoundedFifo 64 ServerEventWrapper} (pc : Pc κ)
    (hpop : s.data.mPluginMainToClientsQueue.pop = (some ev, queue)) :
    (consumeOne s .main ev { s.data with mPluginMainToClientsQueue := queue } pc).poppedMain ++
        queue.elems =
      s.poppedMain ++ s.data.mPluginMainToClientsQueue.elems := by
  have helems := BoundedFifo.elems_of_pop hpop
  simp [consumeOne, Sys.poppedMain, helems]

/-- Steps that neither pop nor touch the main queue. -/
theorem MainQueueMoves.same {s s' : Sys κ} {l : Lbl κ} (hdrains : ¬ Drains s l)
    (hpush : l.pushesMain = false) (hpopped : s'.popped = s.popped)
    (hqueue : s'.data.mPluginMainToClientsQueue = s.data.mPluginMainToClientsQueue) :
    MainQueueMoves s l s' :=
  .taken hdrains hpush (by rw [Sys.poppedMain, Sys.poppedMain, hpopped, hqueue])

theorem step_mainQueue {s s' : Sys κ} {l : Lbl κ} (hstep : step s l = some s') :
    MainQueueMoves s l s' := by
  cases step_moves hstep with
  | @ended ok captured hpc hends =>
    cases captured with
    | true => exact .drained ⟨hends, rfl⟩ rfl (SharedData.endCallback_mainQueue _)
    | false => exact .same (fun hdrains => Bool.false_ne_true hdrains.2) rfl rfl rfl
  | @begun ok captured hpc =>
    have hends : s.data.endsPoll ok = false := endsPoll_of_begun hstep nofun
    refine .same ?_ rfl rfl rfl
    rintro ⟨hends', -⟩
    cases hends.symm.trans hends'
  | processPopped => exact .taken id rfl (by simp [consumeOne, Sys.poppedMain])
  | mainPopped _ hpop => exact .taken id rfl (mainPopped_mainQueue _ hpop)
  | pushMain => exact .pushed rfl rfl
  | tryStartPolling => exact .same id rfl rfl (SharedData.tryStartPolling_mainQueue _ _)
  | stopPoll => exact .same id rfl rfl (SharedData.stopPoll_mainQueue _)
  | endElsewhere => exact .drained trivial rfl (SharedData.endCallback_mainQueue _)
  | _ => exact .same id rfl rfl rfl

/-! ## The callback without interference -/

/-- The steps of the callback itself. -/
def Lbl.IsOwn : Lbl κ → Prop
  | .callback _ _ | .pop | .send | .finish => True
  | _ => False

theorem isOwn_replicate {κ : Type} {l : Lbl κ} (n : Nat) (hl : l.IsOwn) :
    ∀ l' ∈ List.replicate n l, l'.IsOwn := by
  intro l' hmem
  rw [List.eq_of_mem_replicate hmem]
  exact hl

/-- What a call of `pollCallback` on a stream writes. -/
def callWrites (stream : κ → ServerEventStream) :
    κ × SharedData.StreamCall → List (κ × Api.ServerEvents)
  | (s, .sendEvents evs) => writesOf s ((stream s).sendEvents evs).2.2
  | (_, .endStream) => []

section Atomic

variable (plugin : PluginPtr) {s : Sys κ}

theorem pop_nil {queue : BoundedFifo 64 ServerEventWrapper} (h : queue.elems = []) :
    queue.pop = (none, queue) ∧ queue = .empty := by
  have hempty : queue = .empty := BoundedFifo.ext h
  subst hempty
  exact ⟨rfl, rfl⟩

/-- The first consume loop empties the process queue. -/
theorem run_consumeProcess {evs : List ServerEventWrapper} {n : Nat}
    (hpc : s.pc = .consumeProcess n)
    (hevs : s.data.mPluginProcessToClientsQueue.elems = evs) :
    ∃ popped, (spec κ plugin).run s (List.replicate (evs.length + 1) .pop) = some { s with
      data := { s.data with
        mPluginToClientsData := s.data.mPluginToClientsData ++
          evs.map ServerEventWrapper.toServerEvent
        mPluginProcessToClientsQueue := .empty }
      popped := popped
      pc := .consumeMain (n + evs.length) 0 } := by
  induction evs generalizing s n with
  | nil =>
    rcases pop_nil hevs with ⟨hpop, hempty⟩
    have hstep : (spec κ plugin).step s .pop = some { s with pc := .consumeMain n 0 } := by
      simp only [spec, step, hpc, hpop]
    refine ⟨s.popped, ((spec κ plugin).run_cons_of_step hstep []).trans ?_⟩
    simp [← hempty]
  | cons ev evs ih =>
    have hpop : s.data.mPluginProcessToClientsQueue.pop =
        (some ev, s.data.mPluginProcessToClientsQueue.pop.2) :=
      Prod.ext (by simp [hevs]) rfl
    have hstep : (spec κ plugin).step s .pop = some (consumeOne s .process ev { s.data with
        mPluginProcessToClientsQueue := s.data.mPluginProcessToClientsQueue.pop.2 }
        (.consumeProcess (n + 1))) := by
      simp only [spec, step, hpc]
      rw [hpop]
    obtain ⟨popped, hrun⟩ := ih (s := consumeOne s .process ev { s.data with
        mPluginProcessToClientsQueue := s.data.mPluginProcessToClientsQueue.pop.2 }
        (.consumeProcess (n + 1))) rfl (by simp [consumeOne, hevs])
    refine ⟨popped, ((spec κ plugin).run_cons_of_step hstep _).trans (hrun.trans ?_)⟩
    simp [consumeOne, Nat.add_assoc, Nat.add_comm 1]

/-- The second one empties the main queue, and looks at what was counted. -/
theorem run_consumeMain {evs : List ServerEventWrapper} {n m : Nat}
    (hpc : s.pc = .consumeMain n m) (hevs : s.data.mPluginMainToClientsQueue.elems = evs) :
    ∃ popped, (spec κ plugin).run s (List.replicate (evs.length + 1) .pop) = some (
      let d := { s.data with
        mPluginToClientsData := s.data.mPluginToClientsData ++
          evs.map ServerEventWrapper.toServerEvent
        mPluginMainToClientsQueue := .empty }
      if n = 0 ∧ m + evs.length = 0 then
        { s with data := d.nextExpBackoff.2, popped := popped, pc := .idle }
      else
        { s with data := d, popped := popped, pc := .sending d.streams.toList [] false }) := by
  induction evs generalizing s m with
  | nil =>
    rcases pop_nil hevs with ⟨hpop, hempty⟩
    have hstep : (spec κ plugin).step s .pop = some (if n = 0 ∧ m = 0 then
        { s with data := s.data.nextExpBackoff.2, pc := .idle }
        else { s with pc := .sending s.data.streams.toList [] false }) := by
      simp only [spec, step, hpc, hpop]
      split <;> rfl
    refine ⟨s.popped, ((spec κ plugin).run_cons_of_step hstep []).trans ?_⟩
    simp [← hempty]
  | cons ev evs ih =>
    have hpop : s.data.mPluginMainToClientsQueue.pop =
        (some ev, s.data.mPluginMainToClientsQueue.pop.2) :=
      Prod.ext (by simp [hevs]) rfl
    have hstep : (spec κ plugin).step s .pop = some (consumeOne s .main ev { s.data with
        mPluginMainToClientsQueue := s.data.mPluginMainToClientsQueue.pop.2 }
        (.consumeMain n (m + 1))) := by
      simp only [spec, step, hpc]
      rw [hpop]
    obtain ⟨popped, hrun⟩ := ih (s := consumeOne s .main ev { s.data with
        mPluginMainToClientsQueue := s.data.mPluginMainToClientsQueue.pop.2 }
        (.consumeMain n (m + 1))) rfl (by simp [consumeOne, hevs])
    refine ⟨popped, ((spec κ plugin).run_cons_of_step hstep _).trans (hrun.trans ?_)⟩
    simp [consumeOne, Nat.add_assoc, Nat.add_comm 1]

/-- The loop over the streams. -/
theorem run_sends {todo : List κ} {visits : List (κ × State)} {success : Bool}
    (hpc : s.pc = .sending todo visits success) :
    (spec κ plugin).run s (List.replicate todo.length .send) = some { s with
      writes := s.writes ++ todo.flatMap fun st =>
        writesOf st ((s.stream st).sendEvents s.data.mPluginToClientsData).2.2
      pc := .sending [] (visits ++ todo.map fun st => (st, (s.stream st).state)) (success ||
        todo.any fun st => ((s.stream st).sendEvents s.data.mPluginToClientsData).1) } := by
  induction todo generalizing s visits success with
  | nil => simp [← hpc]
  | cons st todo ih =>
    have hstep : (spec κ plugin).step s .send = some { s with
        writes := s.writes ++
          writesOf st ((s.stream st).sendEvents s.data.mPluginToClientsData).2.2
        pc := .sending todo (visits ++ [(st, (s.stream st).state)])
          (success || ((s.stream st).sendEvents s.data.mPluginToClientsData).1) } := by
      simp [spec, step, hpc]
    refine ((spec κ plugin).run_cons_of_step hstep _).trans ((ih rfl).trans ?_)
    simp [Bool.or_assoc]

/-- The callback can run to its end by its own steps, with these members and writes. -/
def Returns (s : Sys κ) (d : SharedData κ) (writes : List (κ × Api.ServerEvents)) : Prop :=
  ∃ ls s', (∀ l ∈ ls, Lbl.IsOwn l) ∧ (spec κ plugin).run s ls = some s' ∧ s'.pc = .idle ∧
    s'.data = d ∧ s'.writes = writes

theorem Returns.after {t : Sys κ} {ls : List (Lbl κ)} {d : SharedData κ}
    {writes : List (κ × Api.ServerEvents)} (hls : ∀ l ∈ ls, l.IsOwn)
    (hrun : (spec κ plugin).run s ls = some t) (h : Returns plugin t d writes) :
    Returns plugin s d writes := by
  rcases h with ⟨ms, s', hms, hrun', hend⟩
  refine ⟨ls ++ ms, s', ?_, ?_, hend⟩
  · intro l hl
    rcases List.mem_append.mp hl with hl | hl
    · exact hls l hl
    · exact hms l hl
  · rw [(spec κ plugin).run_append, hrun]
    exact hrun'

/-- The part of a round after the events have been consumed. -/
theorem returns_sending (hpc : s.pc = .sending s.data.streams.toList [] false) :
    Returns plugin s
      (if !s.data.streams.toList.any fun st =>
          ((s.stream st).sendEvents s.data.mPluginToClientsData).1
        then s.data.nextExpBackoff.2
        else { s.data with mPluginToClientsData := [], mCurrExpBackoff := mPollFreqNs })
      (s.writes ++ s.data.streams.toList.flatMap fun st =>
        writesOf st ((s.stream st).sendEvents s.data.mPluginToClientsData).2.2) := by
  have hown : Lbl.IsOwn (.send : Lbl κ) := trivial
  -- all sends, then `finish`, which takes the branch the flag says
  refine Returns.after plugin (isOwn_replicate _ hown) (run_sends plugin hpc) ?_
  cases hany : s.data.streams.toList.any fun st =>
      ((s.stream st).sendEvents s.data.mPluginToClientsData).1 with
  | false => exact ⟨[.finish], _, by simp [Lbl.IsOwn], rfl, rfl, rfl, rfl⟩
  | true => exact ⟨[.finish], _, by simp [Lbl.IsOwn], rfl, rfl, rfl, rfl⟩

/-- From the second consume loop on. -/
theorem returns_main {n : Nat} {d : SharedData κ} {p : SharedData.Poll κ}
    (hpc : s.pc = .consumeMain n 0)
    (hd : d = { s.data with
      mPluginToClientsData := s.data.mPluginToClientsData ++
        s.data.mPluginMainToClientsQueue.elems.map ServerEventWrapper.toServerEvent
      mPluginMainToClientsQueue := .empty })
    (hp : p = SharedData.sendRound n s.data.mPluginMainToClientsQueue.elems.length d s.stream) :
    Returns plugin s p.data (s.writes ++ p.calls.flatMap (callWrites s.stream)) := by
  have hown : Lbl.IsOwn (.pop : Lbl κ) := trivial
  rcases run_consumeMain plugin hpc rfl with ⟨popped, hrun⟩
  rw [Nat.zero_add] at hrun
  refine Returns.after plugin (isOwn_replicate _ hown) hrun ?_
  subst hp
  by_cases hcount : n = 0 ∧ s.data.mPluginMainToClientsQueue.elems.length = 0
  · rw [if_pos hcount, SharedData.sendRound, if_pos hcount]
    exact ⟨[], _, by simp, rfl, rfl, by rw [hd]; rfl, by simp [SharedData.backOff]⟩
  · rw [if_neg hcount, SharedData.sendRound, if_neg hcount]
    have hsending := returns_sending plugin (s := { s with
      data := d, popped := popped, pc := .sending d.streams.toList [] false }) rfl
    subst hd
    cases hany : s.data.streams.toList.any fun st =>
        ((s.stream st).sendEvents (s.data.mPluginToClientsData ++
          s.data.mPluginMainToClientsQueue.elems.map ServerEventWrapper.toServerEvent)).1 with
    | false => simpa [hany, SharedData.backOff, List.flatMap_map, callWrites] using hsending
    | true => simpa [hany, List.flatMap_map, callWrites] using hsending

/-- A callback that runs a round. -/
theorem returns_round (hidle : s.pc = .idle) {ok : Bool} (hends : s.data.endsPoll ok = false)
    (captured : Bool) :
    Returns plugin s (s.data.pollRound s.stream).data
      (s.writes ++ (s.data.pollRound s.stream).calls.flatMap (callWrites s.stream)) := by
  have hown : Lbl.IsOwn (.pop : Lbl κ) := trivial
  have hcallback : (spec κ plugin).run s [.callback ok captured] =
      some { s with pc := .consumeProcess 0, round := s.round + 1 } := by
    refine (spec κ plugin).run_cons_of_step ?_ []
    simp [spec, step, hidle, hends]
  refine Returns.after plugin (by simp [Lbl.IsOwn]) hcallback ?_
  obtain ⟨popped, hrun⟩ := run_consumeProcess plugin
    (s := { s with pc := .consumeProcess 0, round := s.round + 1 }) rfl rfl
  refine Returns.after plugin (isOwn_replicate _ hown) hrun ?_
  refine returns_main plugin rfl rfl ?_
  simp only [SharedData.pollRound, SharedData.consumeEvents_eq, Nat.zero_add]

/-- A callback that ends polling. -/
theorem returns_ended (hidle : s.pc = .idle) {ok : Bool} (hends : s.data.endsPoll ok = true)
    (captured : Bool) :
    Returns plugin s (if captured then s.data.endCallback else s.data) s.writes := by
  refine ⟨[.callback ok captured], { s with
    data := if captured then s.data.endCallback else s.data
    stream := if ok && s.data.coreplugin.isSome && s.data.mServerStreamCq.isSome then
      endAll s.data.streams.toList s.stream else s.stream }, by simp [Lbl.IsOwn], ?_, hidle,
    rfl, rfl⟩
  refine (spec κ plugin).run_cons_of_step ?_ []
  simp only [spec, step, hidle, hends, if_true]

/-- Without interference, the steps of one callback leave the members and write the
messages that `SharedData.pollCallback` does. -/
theorem pollCallback_run (hidle : s.pc = .idle) (ok captured : Bool) :
    Returns plugin s
      (if (s.data.pollCallback ok s.stream).exit = .ended ∧ captured = true then
          (s.data.pollCallback ok s.stream).data.endCallback
        else (s.data.pollCallback ok s.stream).data)
      (s.writes ++ (s.data.pollCallback ok s.stream).calls.flatMap (callWrites s.stream)) := by
  cases hends : s.data.endsPoll ok with
  | true =>
    rcases SharedData.pollCallback_ended hends s.stream with ⟨hexit, hdata, hcalls⟩
    have hnone : (s.data.pollCallback ok s.stream).calls.flatMap (callWrites s.stream) = [] := by
      refine List.flatMap_eq_nil_iff.mpr ?_
      intro c hc
      rcases c with ⟨st, call⟩
      obtain rfl := hcalls _ hc
      rfl
    simpa [hexit, hdata, hnone] using returns_ended plugin hidle hends captured
  | false =>
    rcases s.data.pollRound_again s.stream with ⟨⟨deferNs, hexit⟩, -, -⟩
    rw [SharedData.pollCallback_round hends, hexit]
    simpa using returns_round plugin hidle hends captured

end Atomic

/-- An open stream, and an event in the main queue. -/
def oneToSend : Sys Nat where
  data :=
    { ((SharedData.ofPlugin Nat 1).addStream 7).2 with
      mServerStreamCq := some 0
      pollRunning := true
      mPluginMainToClientsQueue := (BoundedFifo.empty.push { ev := .guiShow }).2 }
  stream := fun _ => { state := .WRITE, sharedData := true }

theorem pollCallback_run_one : ∃ d, d.mPluginToClientsData = [] ∧
    Returns 1 oneToSend d [(7, [{ event := .guiShow, payload := .main_sync {} }])] :=
  ⟨_, rfl, pollCallback_run 1 (s := oneToSend) rfl true true⟩

end ClapRci.PollRounds
