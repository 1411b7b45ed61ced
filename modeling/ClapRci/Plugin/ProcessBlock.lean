import Mathlib.Algebra.Group.Nat.Defs
import ClapRci.Lib.FrameSchedule
import ClapRci.Plugin.ClientView
import ClapRci.Plugin.ProcessGuiEvents

/-!
# One block of audio (`plugin/coreplugin.cpp`)

`CorePlugin::process` with its two loops: over the frames, and at each frame over the events
of the host that are due. The calls it makes are recorded.

* `process_inOrder`: events in order are processed sample by sample, each before the audio
  of its frame, unless one of them terminates the program;
* `noSkip_iff`: an event that is early, or at or beyond the last frame, holds up all events
  behind it, and nothing is said about it.
-/

namespace ClapRci.ProcessBlock

open ClientView (InEvent)
open ClientParams (OutEvents processGuiEvents)

/-! ## What the host hands over -/

/-- `clap_process_status`. -/
abbrev ProcessStatus := Int32

def CLAP_PROCESS_SLEEP : ProcessStatus := 4

/-- `clap_input_events`. -/
structure InEvents where
  events : List InEvent
  size_lt : events.length < 2 ^ 32

namespace InEvents

def size (evs : InEvents) : UInt32 := UInt32.ofNat evs.events.length

def get (evs : InEvents) (index : UInt32) : Option InEvent := evs.events[index.toNat]?

end InEvents

/-- `clap_process`, what of it `process` reads. -/
structure Process (ω : Type) where
  frames_count : UInt32
  in_events : InEvents
  out_events : OutEvents ω

/-! ## The code -/

/-- What a block works on: the queue of the clients' updates, the parameters, the host, and
the root module. -/
structure State (ω μ : Type) where
  queue : BoundedFifo 64 ClientParamWrapper
  params : ParamStore
  host : ω
  root : μ

/-- The root module: its `process(process, frame)`, which can get at everything. -/
structure RootModule (ω μ : Type) where
  process : UInt32 → State ω μ → ProcessStatus × State ω μ

/-- The calls of a block; an event by its index. -/
inductive Act where
  | processEvent (evIdx : UInt32) (ev : InEvent)
  | process (frame : UInt32)
  | hostMisbehaving (evIdx : UInt32) (msg : String)
  | critical (evIdx : UInt32) (msg : String)
  | error (evIdx : UInt32) (msg : String)

variable {ω μ : Type}

/-- The state, what was pushed to the process queue, `retStatus`, the calls made so far, and
the answers of the root module. -/
structure Run (ω μ : Type) where
  state : State ω μ
  pushed : List ServerEventWrapper := []
  retStatus : ProcessStatus := CLAP_PROCESS_SLEEP
  calls : List Act := []
  statuses : List ProcessStatus := []

/-- Why there is no result: `std::terminate`, or the loops have been cut off. -/
inductive Stop (ω μ : Type) where
  | terminated (run : Run ω μ)
  | cutOff

namespace Run

/-- A call that only says something. -/
def say (run : Run ω μ) (act : Act) : Run ω μ := { run with calls := run.calls ++ [act] }

/-- `processEvent(ev)`. -/
def processEvent (run : Run ω μ) (evIdx : UInt32) (ev : InEvent) : Except (Stop ω μ) (Run ω μ) :=
  let run := run.say (.processEvent evIdx ev)
  match HostEvents.processEvent run.state.params ev.coreSpace ev.ev with
  | .terminated => .error (.terminated run)
  | .done params pushed =>
    .ok { run with state := { run.state with params := params },
                   pushed := run.pushed ++ pushed.toList }

/-- `retStatus = dPtr->rootModule->process(process, frame)`. -/
def processAudio (root : RootModule ω μ) (run : Run ω μ) (frame : UInt32) : Run ω μ :=
  let run := run.say (.process frame)
  let (status, state) := root.process frame run.state
  { run with state := state, retStatus := status, statuses := run.statuses ++ [status] }

end Run

/-- The local variables of `process`. -/
structure Locals (ω μ : Type) where
  run : Run ω μ
  ev : Option InEvent := none
  evIdx : UInt32 := 0
  frame : UInt32 := 0

/-- `++evIdx; ev = (evIdx < nEvts) ? inEvs->get(inEvs, evIdx) : nullptr`. -/
def Locals.advance (inEvs : InEvents) (b : Locals ω μ) : Locals ω μ :=
  let b := { b with evIdx := b.evIdx + 1 }
  { b with ev := if b.evIdx < inEvs.size then inEvs.get b.evIdx else none }

/-- `processEvent(ev)`, and on to the next event. -/
def nextEvent (inEvs : InEvents) (b : Locals ω μ) (ev : InEvent) :
    Except (Stop ω μ) (Locals ω μ) := do
  let run ← b.run.processEvent b.evIdx ev
  return { b with run := run }.advance inEvs

/-- The inner loop, `while (ev && ev->time == frame)`, cut off after `fuel` rounds. Its own
condition rules out both checks. -/
def eventLoop (inEvs : InEvents) : Nat → Locals ω μ → Except (Stop ω μ) (Locals ω μ)
  | 0, _ => .error .cutOff
  | fuel + 1, b =>
    match b.ev with
    | none => .ok b
    | some ev =>
      if ev.time = b.frame then
        if ev.time < b.frame then do
          let run := b.run.say (.hostMisbehaving b.evIdx "Event time is in the past")
          let run := run.say (.critical b.evIdx "Process: event time is in the past")
          let b ← nextEvent inEvs { b with run := run } ev
          eventLoop inEvs fuel b
        else if ev.time > b.frame then
          .ok { b with run := b.run.say (.error b.evIdx "Process: event time is in the future") }
        else do
          let b ← nextEvent inEvs b ev
          eventLoop inEvs fuel b
      else .ok b

/-- The outer loop, `while (frame < maxFrames)`, cut off likewise. -/
def frameLoop (root : RootModule ω μ) (inEvs : InEvents) (maxFrames : UInt32) :
    Nat → Locals ω μ → Except (Stop ω μ) (Locals ω μ)
  | 0, _ => .error .cutOff
  | fuel + 1, b =>
    if b.frame < maxFrames then do
      let b ← eventLoop inEvs fuel b
      let run := b.run.processAudio root b.frame
      frameLoop root inEvs maxFrames fuel { b with run := run, frame := b.frame + 1 }
    else .ok b

/-- `if (nEvts != 0) ev = inEvs->get(inEvs, evIdx)`. -/
def Locals.firstEvent (inEvs : InEvents) (b : Locals ω μ) : Locals ω μ :=
  if inEvs.size ≠ 0 then { b with ev := inEvs.get b.evIdx } else b

/-- The block after the updates of the clients. -/
def begin (process : Process ω) (s : State ω μ) : Run ω μ :=
  let gui := processGuiEvents process.out_events
    { queue := s.queue, params := s.params, host := s.host }
  { state := { s with queue := gui.queue, params := gui.params, host := gui.host } }

/-- `process(process)`: the status and the block, if the loops end within `fuel` rounds. -/
def process (root : RootModule ω μ) (fuel : Nat) (process : Process ω) (s : State ω μ) :
    Except (Stop ω μ) (ProcessStatus × Run ω μ) := do
  let inEvs := process.in_events
  let b := { run := begin process s : Locals ω μ }.firstEvent inEvs
  let b ← frameLoop root inEvs process.frames_count fuel b
  return (b.run.retStatus, b.run)

/-! ## The schedule of a block -/

/-- An event with its index. -/
abbrev Indexed := InEvent × Nat

/-- When it is due. -/
def dueAt (e : Indexed) : Nat := e.1.time.toNat

/-- The events of the host, numbered. -/
def InEvents.indexed (evs : InEvents) : List Indexed := evs.events.zipIdx

/-- The call for an event, or for the audio of a frame. -/
def act : Indexed ⊕ Nat → Act
  | .inl e => .processEvent (UInt32.ofNat e.2) e.1
  | .inr f => .process (UInt32.ofNat f)

/-- What is to be done for these events: for each frame of the block, each event of its time,
in the order of the list, and then the audio. -/
def toDo (process : Process ω) (evs : List Indexed) : List (Indexed ⊕ Nat) :=
  FrameSchedule.schedule dueAt process.frames_count.toNat evs

/-- The events up to the first that is early, or at or beyond the last frame. -/
def inOrder (process : Process ω) : List Indexed :=
  FrameSchedule.inOrder dueAt process.frames_count.toNat 0 process.in_events.indexed

/-- Do it, up to an event that terminates the program. -/
def perform (root : RootModule ω μ) :
    List (Indexed ⊕ Nat) → Run ω μ → Except (Stop ω μ) (Run ω μ)
  | [], run => .ok run
  | .inl e :: xs, run => do
    let run ← run.processEvent (UInt32.ofNat e.2) e.1
    perform root xs run
  | .inr f :: xs, run => perform root xs (run.processAudio root (UInt32.ofNat f))

/-! ## The loops -/

theorem perform_append (root : RootModule ω μ) (xs ys : List (Indexed ⊕ Nat)) (run : Run ω μ) :
    perform root (xs ++ ys) run = (perform root xs run).bind (perform root ys) := by
  induction xs generalizing run with
  | nil => rfl
  | cons x xs ih =>
    cases x with
    | inl e =>
      simp only [List.cons_append, perform]
      cases run.processEvent (UInt32.ofNat e.2) e.1 with
      | error stop => rfl
      | ok run => exact ih run
    | inr f => exact ih _

/-- The cursor stands at these events. -/
structure At (inEvs : InEvents) (b : Locals ω μ) (xs : List Indexed) : Prop where
  evIdx_le : b.evIdx.toNat ≤ inEvs.events.length
  suffix : inEvs.indexed.drop b.evIdx.toNat = xs
  ev : b.ev = xs.head?.map Prod.fst

section Cursor

variable {inEvs : InEvents} {b : Locals ω μ} {e : Indexed} {xs : List Indexed}

/-- The event at the cursor has the cursor for its index. -/
theorem At.cons (h : At inEvs b (e :: xs)) :
    b.evIdx.toNat < inEvs.events.length ∧ b.ev = some e.1 ∧ b.evIdx = UInt32.ofNat e.2 := by
  have hget : inEvs.indexed[b.evIdx.toNat]? = some e := by
    rw [← List.head?_drop, h.suffix, List.head?_cons]
  rw [InEvents.indexed, List.getElem?_zipIdx, Option.map_eq_some_iff] at hget
  rcases hget with ⟨ev, hev, he⟩
  refine ⟨(List.getElem?_eq_some_iff.mp hev).1, h.ev, ?_⟩
  rw [← he, Nat.zero_add, UInt32.ofNat_toNat]

theorem InEvents.size_toNat (inEvs : InEvents) : inEvs.size.toNat = inEvs.events.length :=
  UInt32.toNat_ofNat_of_lt' inEvs.size_lt

theorem At.advance (h : At inEvs b (e :: xs)) : At inEvs (b.advance inEvs) xs := by
  have hlt := h.cons.1
  have hsize := inEvs.size_lt
  have hone : (1 : UInt32).toNat = 1 := rfl
  have hidx : (b.evIdx + 1).toNat = b.evIdx.toNat + 1 := by
    rw [UInt32.toNat_add, hone]
    exact Nat.mod_eq_of_lt (by omega)
  have hmore : b.evIdx + 1 < inEvs.size ↔ b.evIdx.toNat + 1 < inEvs.events.length := by
    rw [UInt32.lt_iff_toNat_lt, hidx, inEvs.size_toNat]
  have hsuffix : inEvs.indexed.drop (b.evIdx.toNat + 1) = xs := by
    rw [← List.drop_drop, h.suffix]
    rfl
  constructor
  · show (b.evIdx + 1).toNat ≤ _
    omega
  · show inEvs.indexed.drop (b.evIdx + 1).toNat = xs
    rw [hidx, hsuffix]
  · show (if b.evIdx + 1 < inEvs.size then inEvs.get (b.evIdx + 1) else none) = _
    have hfst : (Prod.fst ∘ fun ev : InEvent => (ev, 0 + (b.evIdx.toNat + 1))) = id := rfl
    rw [← hsuffix, List.head?_drop, InEvents.indexed, List.getElem?_zipIdx, Option.map_map, hfst,
      Option.map_id, id, InEvents.get, hidx]
    split
    · rfl
    · rename_i hge
      rw [hmore] at hge
      exact (List.getElem?_eq_none (by omega)).symm

end Cursor

/-- An event that is due is processed. -/
theorem eventLoop_due (inEvs : InEvents) (fuel : Nat) {b : Locals ω μ} {ev : InEvent}
    (hev : b.ev = some ev) (htime : ev.time = b.frame) :
    eventLoop inEvs (fuel + 1) b = (nextEvent inEvs b ev).bind (eventLoop inEvs fuel) := by
  have hpast : ¬ ev.time < b.frame := by
    rw [htime]
    exact UInt32.lt_irrefl _
  have hfuture : ¬ ev.time > b.frame := by
    rw [htime]
    exact UInt32.lt_irrefl _
  simp only [eventLoop, hev, if_pos htime, if_neg hpast, if_neg hfuture]
  rfl

/-- At any other event, and at the end of the list, the loop is over. -/
theorem eventLoop_done (inEvs : InEvents) (fuel : Nat) {b : Locals ω μ}
    (h : ∀ ev, b.ev = some ev → ev.time ≠ b.frame) : eventLoop inEvs (fuel + 1) b = .ok b := by
  cases hev : b.ev with
  | none => simp only [eventLoop, hev]
  | some ev => simp only [eventLoop, hev, if_neg (h ev hev)]

section Loops

variable (root : RootModule ω μ) {inEvs : InEvents} {fuel : Nat} {b b' : Locals ω μ}
  {e : Indexed} {xs : List Indexed}

/-- The loop at an event that is due: it is processed, and the loop goes on behind it. -/
theorem At.loop_due (h : At inEvs b (e :: xs)) (htime : dueAt e = b.frame.toNat) :
    eventLoop inEvs (fuel + 1) b = (b.run.processEvent (UInt32.ofNat e.2) e.1).bind fun run =>
      eventLoop inEvs fuel (({ b with run := run } : Locals ω μ).advance inEvs) := by
  rcases h.cons with ⟨-, hev, hidx⟩
  have hdue : e.1.time = b.frame := UInt32.toNat_inj.mp htime
  rw [eventLoop_due inEvs fuel hev hdue, nextEvent, ← hidx]
  cases b.run.processEvent b.evIdx e.1 with
  | error stop => rfl
  | ok run => rfl

/-- The cursor does not look at the run. -/
theorem At.setRun (h : At inEvs b xs) (run : Run ω μ) : At inEvs { b with run := run } xs :=
  ⟨h.evIdx_le, h.suffix, h.ev⟩

/-- At an event that is not due, and at the end of the list, it is over. -/
theorem At.loop_done (h : At inEvs b xs) (hhead : ∀ e ∈ xs.head?, dueAt e ≠ b.frame.toNat) :
    eventLoop inEvs (fuel + 1) b = .ok b := by
  apply eventLoop_done
  intro ev hev hsame
  rw [h.ev, Option.map_eq_some_iff] at hev
  rcases hev with ⟨e, he, rfl⟩
  exact hhead e he (congrArg UInt32.toNat hsame)

/-- The inner loop performs the events that are due. -/
theorem eventLoop_run (h : At inEvs b xs) (hfuel : xs.length < fuel) :
    (eventLoop inEvs fuel b).map Locals.run =
      perform root ((FrameSchedule.due dueAt b.frame.toNat xs).map .inl) b.run := by
  induction xs generalizing fuel b with
  | nil =>
    -- one more round finds the end of the list
    obtain ⟨fuel, rfl⟩ := Nat.exists_eq_add_one_of_ne_zero (Nat.ne_of_gt hfuel)
    rw [h.loop_done nofun]
    rfl
  | cons e xs ih =>
    obtain ⟨fuel, rfl⟩ := Nat.exists_eq_add_one_of_ne_zero (Nat.ne_of_gt (Nat.zero_lt_of_lt hfuel))
    rw [List.length_cons] at hfuel
    by_cases htime : dueAt e = b.frame.toNat
    · rw [FrameSchedule.due_cons_of_eq xs htime, List.map_cons, perform, h.loop_due htime]
      cases b.run.processEvent (UInt32.ofNat e.2) e.1 with
      | error stop => rfl
      | ok run => exact ih (h.setRun run).advance (Nat.lt_of_succ_lt_succ hfuel)
    · rw [FrameSchedule.due_cons_of_ne xs htime, h.loop_done (by simpa using htime)]
      rfl

/-- When it is over the cursor stands behind them, in the same frame. -/
theorem eventLoop_cursor (h : At inEvs b xs) (hfuel : xs.length < fuel)
    (hloop : eventLoop inEvs fuel b = .ok b') :
    b'.frame = b.frame ∧ At inEvs b' (FrameSchedule.later dueAt b.frame.toNat xs) := by
  induction xs generalizing fuel b with
  | nil =>
    obtain ⟨fuel, rfl⟩ := Nat.exists_eq_add_one_of_ne_zero (Nat.ne_of_gt hfuel)
    rw [h.loop_done nofun] at hloop
    cases hloop
    exact ⟨rfl, h⟩
  | cons e xs ih =>
    obtain ⟨fuel, rfl⟩ := Nat.exists_eq_add_one_of_ne_zero (Nat.ne_of_gt (Nat.zero_lt_of_lt hfuel))
    rw [List.length_cons] at hfuel
    by_cases htime : dueAt e = b.frame.toNat
    · rw [FrameSchedule.later_cons_of_eq xs htime]
      rw [h.loop_due htime] at hloop
      cases hproc : b.run.processEvent (UInt32.ofNat e.2) e.1 with
      | error stop =>
        rw [hproc] at hloop
        cases hloop
      | ok run =>
        rw [hproc] at hloop
        have hrest := ih (h.setRun run).advance (Nat.lt_of_succ_lt_succ hfuel) hloop
        exact hrest
    · rw [h.loop_done (by simpa using htime)] at hloop
      cases hloop
      rw [FrameSchedule.later_cons_of_ne xs htime]
      exact ⟨rfl, h⟩

/-- The outer loop performs a walk over the frames left. -/
theorem frameLoop_eq (maxFrames : UInt32) {k : Nat} (h : At inEvs b xs)
    (hk : b.frame.toNat + k = maxFrames.toNat) (hfuel : k + xs.length < fuel) :
    (frameLoop root inEvs maxFrames fuel b).map Locals.run =
      perform root (FrameSchedule.walk dueAt k b.frame.toNat xs) b.run := by
  induction k generalizing fuel b xs with
  | zero =>
    obtain ⟨fuel, rfl⟩ := Nat.exists_eq_add_one_of_ne_zero (Nat.ne_of_gt (Nat.zero_lt_of_lt hfuel))
    have hend : ¬ b.frame < maxFrames := by
      rw [UInt32.lt_iff_toNat_lt]
      omega
    rw [frameLoop, if_neg hend]
    rfl
  | succ k ih =>
    obtain ⟨fuel, rfl⟩ := Nat.exists_eq_add_one_of_ne_zero (Nat.ne_of_gt (Nat.zero_lt_of_lt hfuel))
    have hframe : b.frame < maxFrames := by
      rw [UInt32.lt_iff_toNat_lt]
      omega
    have hevents : xs.length < fuel := by omega
    rw [frameLoop, if_pos hframe, FrameSchedule.walk, perform_append,
      ← eventLoop_run root h hevents]
    cases hloop : eventLoop inEvs fuel b with
    | error stop => rfl
    | ok b' =>
      rcases eventLoop_cursor h hevents hloop with ⟨hsame, hcursor⟩
      -- `frame` is below `maxFrames`, so that `++frame` does not wrap
      have hone : (1 : UInt32).toNat = 1 := rfl
      have hlt := maxFrames.toNat_lt
      have hnext : (b.frame + 1).toNat = b.frame.toNat + 1 := by
        rw [UInt32.toNat_add, hone]
        exact Nat.mod_eq_of_lt (by omega)
      have hlen : (FrameSchedule.later dueAt b.frame.toNat xs).length ≤ xs.length :=
        (List.dropWhile_sublist _).length_le
      have hrest := ih
        (b := { b' with run := b'.run.processAudio root b'.frame, frame := b'.frame + 1 })
        ⟨hcursor.evIdx_le, hcursor.suffix, hcursor.ev⟩ (by rw [hsame, hnext]; omega)
        (by omega : k + (FrameSchedule.later dueAt b.frame.toNat xs).length < fuel)
      simp only [hsame, hnext] at hrest
      -- the audio of this frame, and the frames after it
      show (frameLoop root inEvs maxFrames fuel
          { b' with run := b'.run.processAudio root b'.frame, frame := b'.frame + 1 }).map
            Locals.run =
        perform root (FrameSchedule.walk dueAt k (b.frame.toNat + 1) _)
          (b'.run.processAudio root (UInt32.ofNat b.frame.toNat))
      rw [UInt32.ofNat_toNat, hsame]
      exact hrest

end Loops

theorem firstEvent_at (inEvs : InEvents) (run : Run ω μ) :
    (({ run := run } : Locals ω μ).firstEvent inEvs).run = run ∧
      (({ run := run } : Locals ω μ).firstEvent inEvs).frame = 0 ∧
      At inEvs (({ run := run } : Locals ω μ).firstEvent inEvs) inEvs.indexed := by
  unfold Locals.firstEvent
  by_cases hsize : inEvs.size = 0
  · have hnil : inEvs.events = [] := by
      rw [← List.length_eq_zero_iff, ← inEvs.size_toNat, hsize]
      rfl
    rw [if_neg (not_not.mpr hsize)]
    refine ⟨rfl, rfl, Nat.zero_le _, rfl, ?_⟩
    rw [InEvents.indexed, hnil]
    rfl
  · rw [if_pos hsize]
    refine ⟨rfl, rfl, Nat.zero_le _, rfl, ?_⟩
    show inEvs.events[0]? = (inEvs.events.zipIdx.head?).map Prod.fst
    rw [← List.head?_eq_getElem?]
    cases inEvs.events with
    | nil => rfl
    | cons ev evs => rfl

/-- How long the loops run at most. -/
def rounds (process : Process ω) : Nat :=
  process.frames_count.toNat + process.in_events.events.length

/-- A block does what is to be done for the events in order. -/
theorem process_eq (root : RootModule ω μ) (p : Process ω) (s : State ω μ) {fuel : Nat}
    (hfuel : rounds p < fuel) :
    process root fuel p s =
      (perform root (toDo p (inOrder p)) (begin p s)).map fun run => (run.retStatus, run) := by
  have hfirst := firstEvent_at p.in_events (begin p s)
  rcases hfirst with ⟨hrun, hframe, hcursor⟩
  have hzero : (0 : UInt32).toNat = 0 := rfl
  have hlength : p.in_events.indexed.length = p.in_events.events.length := List.length_zipIdx
  have hleft : p.frames_count.toNat + p.in_events.indexed.length < fuel := by
    rw [hlength]
    exact hfuel
  have hloop := frameLoop_eq root p.frames_count hcursor
    (by rw [hframe, hzero, Nat.zero_add]) hleft
  rw [hframe, hrun, hzero, FrameSchedule.walk_eq_schedule] at hloop
  rw [toDo, inOrder, ← hloop, process]
  cases frameLoop root p.in_events p.frames_count fuel
    (({ run := begin p s } : Locals ω μ).firstEvent p.in_events) with
  | error stop => rfl
  | ok b => rfl

/-! ## What has been performed -/

theorem processEvent_ok {run run' : Run ω μ} {evIdx : UInt32} {ev : InEvent}
    (h : run.processEvent evIdx ev = .ok run') :
    run'.calls = run.calls ++ [.processEvent evIdx ev] ∧ run'.statuses = run.statuses ∧
      run'.retStatus = run.retStatus := by
  simp only [Run.processEvent] at h
  split at h
  · cases h
  · cases h
    exact ⟨rfl, rfl, rfl⟩

theorem processEvent_error {run : Run ω μ} {evIdx : UInt32} {ev : InEvent} {stop : Stop ω μ}
    (h : run.processEvent evIdx ev = .error stop) :
    stop = .terminated (run.say (.processEvent evIdx ev)) ∧
      HostEvents.processEvent run.state.params ev.coreSpace ev.ev = .terminated := by
  simp only [Run.processEvent] at h
  split at h
  · rename_i hterminated
    cases h
    exact ⟨rfl, hterminated⟩
  · cases h

/-- The status is the last answer of the root module. -/
def Run.StatusOk (run : Run ω μ) : Prop :=
  run.retStatus = run.statuses.getLast?.getD CLAP_PROCESS_SLEEP

/-- What is performed to the end is recorded, with one answer for each frame. -/
theorem perform_ok {root : RootModule ω μ} {xs : List (Indexed ⊕ Nat)} {run run' : Run ω μ}
    (h : perform root xs run = .ok run') :
    run'.calls = run.calls ++ xs.map act ∧
      run'.statuses.length = run.statuses.length + xs.countP Sum.isRight ∧
      (run.StatusOk → run'.StatusOk) := by
  induction xs generalizing run with
  | nil =>
    cases h
    simp
  | cons x xs ih =>
    cases x with
    | inl e =>
      rw [perform] at h
      cases hproc : run.processEvent (UInt32.ofNat e.2) e.1 with
      | error stop =>
        rw [hproc] at h
        cases h
      | ok run₁ =>
        rw [hproc] at h
        rcases processEvent_ok hproc with ⟨hcalls, hstatuses, hret⟩
        rcases ih h with ⟨hcalls', hlen, hok⟩
        refine ⟨?_, ?_, ?_⟩
        · rw [hcalls', hcalls, List.append_assoc]
          rfl
        · rw [hlen, hstatuses]
          simp
        · intro hrun
          apply hok
          unfold Run.StatusOk at hrun ⊢
          rw [hret, hstatuses, hrun]
    | inr f =>
      rcases ih h with ⟨hcalls, hlen, hok⟩
      refine ⟨?_, ?_, ?_⟩
      · rw [hcalls, Run.processAudio, Run.say]
        simp [act]
      · have hframe : (Run.processAudio root run (UInt32.ofNat f)).statuses.length =
            run.statuses.length + 1 := List.length_append
        rw [hlen, hframe, List.countP_cons, if_pos (by rfl)]
        omega
      · intro _
        apply hok
        simp [Run.StatusOk, Run.processAudio]

/-- What is not performed to the end stops at an event that terminates the program. -/
theorem perform_error {root : RootModule ω μ} {xs : List (Indexed ⊕ Nat)} {run : Run ω μ}
    {stop : Stop ω μ} (h : perform root xs run = .error stop) :
    ∃ run' ys e zs, stop = .terminated run' ∧ xs = ys ++ .inl e :: zs ∧
      run'.calls = run.calls ++ (ys ++ [.inl e]).map act ∧
      HostEvents.processEvent run'.state.params e.1.coreSpace e.1.ev = .terminated := by
  induction xs generalizing run with
  | nil => cases h
  | cons x xs ih =>
    cases x with
    | inl e =>
      rw [perform] at h
      cases hproc : run.processEvent (UInt32.ofNat e.2) e.1 with
      | error stop' =>
        rw [hproc] at h
        cases h
        rcases processEvent_error hproc with ⟨hstop, hterminated⟩
        exact ⟨_, [], e, xs, hstop, rfl, rfl, hterminated⟩
      | ok run₁ =>
        rw [hproc] at h
        rcases ih h with ⟨run', ys, e', zs, hstop, hxs, hcalls, hterminated⟩
        refine ⟨run', .inl e :: ys, e', zs, hstop, by rw [hxs]; rfl, ?_, hterminated⟩
        rw [hcalls, (processEvent_ok hproc).1, List.append_assoc]
        rfl
    | inr f =>
      rcases ih h with ⟨run', ys, e', zs, hstop, hxs, hcalls, hterminated⟩
      refine ⟨run', .inr f :: ys, e', zs, hstop, by rw [hxs]; rfl, ?_, hterminated⟩
      rw [hcalls, Run.processAudio, Run.say]
      simp [act]

/-! ## Events in order -/

/-- The times do not decrease, and are below `frames_count`. -/
structure InOrder (p : Process ω) : Prop where
  sorted : p.in_events.events.Pairwise fun a b => a.time ≤ b.time
  below : ∀ ev ∈ p.in_events.events, ev.time < p.frames_count

theorem InEvents.indexed_map_fst (evs : InEvents) : evs.indexed.map Prod.fst = evs.events :=
  List.zipIdx_map_fst 0 evs.events

theorem inOrder_iff (p : Process ω) : inOrder p = p.in_events.indexed ↔ InOrder p := by
  rw [inOrder, FrameSchedule.inOrder_eq_self_iff]
  constructor
  · rintro ⟨hsorted, hbelow⟩
    constructor
    · rw [← p.in_events.indexed_map_fst, List.pairwise_map]
      exact hsorted.imp fun hle => UInt32.le_iff_toNat_le.mpr hle
    · rw [← p.in_events.indexed_map_fst, List.forall_mem_map]
      intro e he
      exact UInt32.lt_iff_toNat_lt.mpr (hbelow e he).2
  · rintro ⟨hsorted, hbelow⟩
    rw [← p.in_events.indexed_map_fst, List.pairwise_map] at hsorted
    rw [← p.in_events.indexed_map_fst, List.forall_mem_map] at hbelow
    refine ⟨hsorted.imp fun hle => UInt32.le_iff_toNat_le.mp hle, ?_⟩
    intro e he
    exact ⟨Nat.zero_le _, UInt32.lt_iff_toNat_lt.mp (hbelow e he)⟩

/-- What a block that returns has done: for each frame the events of its time, in the order of
the list, and then the audio; every event once; and its status is the last answer. -/
structure Returned (p : Process ω) (status : ProcessStatus) (run : Run ω μ) : Prop where
  calls : run.calls = (toDo p p.in_events.indexed).map act
  once : (toDo p p.in_events.indexed).filterMap Sum.getLeft? = p.in_events.indexed
  statuses : run.statuses.length = p.frames_count.toNat
  status : status = run.statuses.getLast?.getD CLAP_PROCESS_SLEEP

/-- What it has done if an event terminates the program: the same, up to this event. -/
structure Terminated (p : Process ω) (run : Run ω μ) : Prop where
  calls : run.calls <+: (toDo p p.in_events.indexed).map act
  last : ∃ e ∈ p.in_events.indexed, run.calls.getLast? = some (act (.inl e)) ∧
    HostEvents.processEvent run.state.params e.1.coreSpace e.1.ev = .terminated

/-- Events in order are processed each before the audio of its own frame and after that of all
frames before, or up to one that terminates the program; the loops always end. -/
theorem process_inOrder (root : RootModule ω μ) (p : Process ω) (s : State ω μ)
    (h : InOrder p) {fuel : Nat} (hfuel : rounds p < fuel) :
    (∃ status run, process root fuel p s = .ok (status, run) ∧ Returned p status run) ∨
      ∃ run, process root fuel p s = .error (.terminated run) ∧ Terminated p run := by
  have hall := (inOrder_iff p).mpr h
  rw [process_eq root p s hfuel, hall]
  cases hperform : perform root (toDo p p.in_events.indexed) (begin p s) with
  | ok run =>
    left
    rcases perform_ok hperform with ⟨hcalls, hlen, hstatus⟩
    refine ⟨run.retStatus, run, rfl, ?_⟩
    constructor
    · rw [hcalls]
      rfl
    · exact FrameSchedule.schedule_events hall
    · rw [hlen, toDo, FrameSchedule.countP_schedule]
      exact Nat.zero_add _
    · exact hstatus rfl
  | error stop =>
    right
    rcases perform_error hperform with ⟨run, ys, e, zs, rfl, hxs, hcalls, hterminated⟩
    refine ⟨run, rfl, ?_⟩
    constructor
    · have hbegins : ys ++ [.inl e] <+: toDo p p.in_events.indexed := by
        rw [hxs, List.append_cons ys (.inl e) zs]
        exact List.prefix_append _ _
      rw [hcalls]
      exact hbegins.map act
    · have hmem : .inl e ∈ toDo p p.in_events.indexed := by
        rw [hxs]
        simp
      refine ⟨e, FrameSchedule.mem_of_mem_schedule hmem, ?_, hterminated⟩
      rw [hcalls, List.map_append, ← List.append_assoc]
      simp

/-- A root module that is asleep. -/
def sleeping : RootModule Unit Unit := ⟨fun _ s => (CLAP_PROCESS_SLEEP, s)⟩

/-- No update of a client, and a host that accepts everything. -/
def idleState : State Unit Unit := ⟨.empty, ClientParams.twoParams, (), ()⟩

def idleHost : OutEvents Unit := ⟨fun _ _ => (true, ())⟩

/-- An event at the first of two frames and one at the second. -/
def twoEvents : Process Unit where
  frames_count := 2
  in_events := ⟨[⟨0, true, .midi⟩, ⟨1, true, .midi⟩], by decide⟩
  out_events := idleHost

theorem process_inOrder_two : (2 : Nat) + 2 < 5 ∧
    ((∃ status run, process sleeping 5 twoEvents idleState = .ok (status, run) ∧
        Returned twoEvents status run) ∨
      ∃ run, process sleeping 5 twoEvents idleState = .error (.terminated run) ∧
        Terminated twoEvents run) := by
  refine ⟨by decide, process_inOrder sleeping twoEvents idleState ⟨?_, ?_⟩ (by decide)⟩
  · simp [twoEvents]
  · simp [twoEvents]

/-- An event for the parameter 2 with the cookie of the parameter 1. -/
def wrongCookie : Process Unit where
  frames_count := 1
  in_events := ⟨[⟨0, true, .paramValue ⟨2, some 1, default⟩⟩], by decide⟩
  out_events := idleHost

/-- `processEvent` terminates the program for it, so that its frame has no audio. -/
theorem process_inOrder_fails : ¬ ∀ (root : RootModule Unit Unit) (p : Process Unit)
    (s : State Unit Unit) (fuel : Nat), InOrder p → rounds p < fuel →
    ∃ status run, process root fuel p s = .ok (status, run) ∧ Returned p status run := by
  intro h
  have horder : InOrder wrongCookie := by
    constructor
    · simp [wrongCookie]
    · simp [wrongCookie]
  obtain ⟨status, run, hprocess, -⟩ := h sleeping wrongCookie idleState 3 horder (by decide)
  cases hprocess

/-! ## Any events -/

/-- The event has been handed to `processEvent`. -/
def Handed (run : Run ω μ) (i : Nat) (ev : InEvent) : Prop :=
  .processEvent (UInt32.ofNat i) ev ∈ run.calls

/-- The host has been told about it, or an error logged. -/
def Reported (run : Run ω μ) (i : Nat) : Prop :=
  ∃ msg, .hostMisbehaving (UInt32.ofNat i) msg ∈ run.calls ∨
    .critical (UInt32.ofNat i) msg ∈ run.calls ∨ .error (UInt32.ofNat i) msg ∈ run.calls

/-- The event belongs to a frame of the block, none before that of an event ahead of it. -/
def WellTimed (p : Process ω) (i : Nat) (ev : InEvent) : Prop :=
  ev.time < p.frames_count ∧
    ∀ j < i, ∀ ev', p.in_events.events[j]? = some ev' → ev'.time < p.frames_count →
      ev'.time ≤ ev.time

/-- Every event has been handed over or reported, and every well-timed one handed over. -/
structure NoneSkipped (p : Process ω) (run : Run ω μ) : Prop where
  noticed : ∀ i ev, p.in_events.events[i]? = some ev → Handed run i ev ∨ Reported run i
  wellTimed : ∀ i ev, p.in_events.events[i]? = some ev → WellTimed p i ev → Handed run i ev

/-- So it is whenever the block returns. -/
def NoSkip (root : RootModule ω μ) (p : Process ω) (s : State ω μ) : Prop :=
  ∀ fuel status run, rounds p < fuel → process root fuel p s = .ok (status, run) →
    NoneSkipped p run

/-- One of the events up to the first that is early, or at or beyond the last frame,
terminates the program. -/
def Terminates (root : RootModule ω μ) (p : Process ω) (s : State ω μ) : Prop :=
  ∃ run, perform root (toDo p (inOrder p)) (begin p s) = .error (.terminated run)

theorem mem_indexed {evs : InEvents} {i : Nat} {ev : InEvent} :
    (ev, i) ∈ evs.indexed ↔ evs.events[i]? = some ev := by
  rw [InEvents.indexed, List.mem_zipIdx_iff_getElem?]

/-- An event has an index that a `uint32_t` can hold. -/
theorem index_lt {evs : InEvents} {e : Indexed} (h : e ∈ evs.indexed) :
    e.2 < evs.events.length ∧ (UInt32.ofNat e.2).toNat = e.2 := by
  have hlt : e.2 < evs.events.length := (List.getElem?_eq_some_iff.mp (mem_indexed.mp h)).1
  have hsize := evs.size_lt
  exact ⟨hlt, UInt32.toNat_ofNat_of_lt' (hlt.trans hsize)⟩

theorem InEvents.indexed_nodup (evs : InEvents) : evs.indexed.Nodup := by
  apply List.Nodup.of_map Prod.snd
  rw [InEvents.indexed, List.zipIdx_map_snd]
  exact List.nodup_range'

/-- What has been noticed was among the events performed: nothing is ever reported. -/
theorem mem_of_noticed {p : Process ω} {run : Run ω μ} {xs : List Indexed} {i : Nat}
    {ev : InEvent} (hxs : xs <+: p.in_events.indexed) (hi : (ev, i) ∈ p.in_events.indexed)
    (hcalls : run.calls = (toDo p xs).map act) (h : Handed run i ev ∨ Reported run i) :
    (ev, i) ∈ xs := by
  rcases h with hhanded | ⟨msg, hreported⟩
  · rw [Handed, hcalls, List.mem_map] at hhanded
    rcases hhanded with ⟨x, hx, hact⟩
    cases x with
    | inr f => cases hact
    | inl e =>
      simp only [act, Act.processEvent.injEq] at hact
      have he := FrameSchedule.mem_of_mem_schedule hx
      have hidx : e.2 = i := by
        have hnat := congrArg UInt32.toNat hact.1
        rwa [(index_lt (hxs.subset he)).2, (index_lt hi).2] at hnat
      rw [← hact.2, ← hidx]
      exact he
  · rw [hcalls] at hreported
    rcases hreported with hmem | hmem | hmem
    all_goals
      rcases List.mem_map.mp hmem with ⟨x, -, hact⟩
      cases x with
      | inl e => cases hact
      | inr f => cases hact

/-- If every event is in the part in order, this is the whole list. -/
theorem inOrder_eq_of_mem {p : Process ω} (h : ∀ e ∈ p.in_events.indexed, e ∈ inOrder p) :
    inOrder p = p.in_events.indexed := by
  have hbegins : inOrder p <+: p.in_events.indexed :=
    FrameSchedule.inOrder_prefix p.frames_count.toNat 0 p.in_events.indexed
  apply hbegins.eq_of_length
  have hsub : p.in_events.indexed ⊆ inOrder p := h
  exact Nat.le_antisymm hbegins.length_le (p.in_events.indexed_nodup.length_le_of_subset hsub)

/-- Events in order are all handed over by a block that returns. -/
theorem Returned.noneSkipped {p : Process ω} {status : ProcessStatus} {run : Run ω μ}
    (hreturned : Returned p status run) (h : InOrder p) : NoneSkipped p run := by
  have hhanded : ∀ i ev, p.in_events.events[i]? = some ev → Handed run i ev := by
    intro i ev hev
    have hmem : (ev, i) ∈ p.in_events.indexed := mem_indexed.mpr hev
    have hlt : ev.time < p.frames_count := h.below ev (List.mem_of_getElem? hev)
    rw [Handed, hreturned.calls]
    refine List.mem_map.mpr ⟨.inl (ev, i), ?_, rfl⟩
    exact FrameSchedule.mem_schedule hmem (UInt32.lt_iff_toNat_lt.mp hlt)
  constructor
  · intro i ev hev
    exact Or.inl (hhanded i ev hev)
  · intro i ev hev _
    exact hhanded i ev hev

/-- No event is skipped exactly when the events are in order, or one of them terminates the
program before the first that is not. -/
theorem noSkip_iff (root : RootModule ω μ) (p : Process ω) (s : State ω μ) :
    NoSkip root p s ↔ InOrder p ∨ Terminates root p s := by
  constructor
  · intro h
    have hblock := process_eq root p s (Nat.lt_add_one (rounds p))
    cases hperform : perform root (toDo p (inOrder p)) (begin p s) with
    | error stop =>
      rcases perform_error hperform with ⟨run, -, -, -, rfl, -⟩
      exact Or.inr ⟨run, hperform⟩
    | ok run =>
      left
      rw [hperform] at hblock
      have hnone := h _ _ _ (Nat.lt_add_one _) hblock
      have hcalls : run.calls = (toDo p (inOrder p)).map act := (perform_ok hperform).1
      -- what is not in the part in order has been neither handed over nor reported
      apply (inOrder_iff p).mp
      apply inOrder_eq_of_mem
      rintro ⟨ev, i⟩ he
      exact mem_of_noticed (FrameSchedule.inOrder_prefix _ _ _) he hcalls
        (hnone.noticed i ev (mem_indexed.mp he))
  · intro h fuel status run hfuel hprocess
    rcases h with h | ⟨run', hperform⟩
    · rcases process_inOrder root p s h hfuel with ⟨status', run', hreturn, hreturned⟩ |
        ⟨run', herror, -⟩
      · cases hreturn.symm.trans hprocess
        exact hreturned.noneSkipped h
      · cases herror.symm.trans hprocess
    · rw [process_eq root p s hfuel, hperform] at hprocess
      cases hprocess

/-- Events at the frames 1, 0 and 1 of a block of two. -/
def earlyEvent : Process Unit where
  frames_count := 2
  in_events := ⟨[⟨1, true, .midi⟩, ⟨0, true, .midi⟩, ⟨1, true, .midi⟩], by decide⟩
  out_events := idleHost

/-- The second event is early; neither it nor the third is noticed. -/
theorem noSkip_fails : ¬ ∀ (root : RootModule Unit Unit) (p : Process Unit) (s : State Unit Unit),
    NoSkip root p s := by
  intro h
  have hnone := h sleeping earlyEvent idleState 6 _ _ (by decide) rfl
  have hwell : WellTimed earlyEvent 2 ⟨1, true, .midi⟩ := by
    refine ⟨by decide, ?_⟩
    intro j hj ev' hev' hlt
    exact UInt32.le_iff_toNat_le.mpr (Nat.le_of_lt_succ (UInt32.lt_iff_toNat_lt.mp hlt))
  have hhanded := hnone.wellTimed 2 ⟨1, true, .midi⟩ rfl hwell
  change Act.processEvent (UInt32.ofNat 2) _ ∈
    [Act.process 0, Act.processEvent 0 ⟨1, true, .midi⟩, Act.process 1] at hhanded
  simp at hhanded

/-! ## The events of a block as the clients' view of it has them -/

theorem blockEvents_eq_walk (k : Nat) (f : UInt32) (hk : f.toNat + k < 2 ^ 32)
    (evs : List InEvent) :
    ClientView.blockEvents k f evs =
      (FrameSchedule.walk (fun ev : InEvent => ev.time.toNat) k f.toNat evs).filterMap
        Sum.getLeft? := by
  induction k generalizing f evs with
  | zero => rfl
  | succ k ih =>
    have hone : (1 : UInt32).toNat = 1 := rfl
    have hnext : (f + 1).toNat = f.toNat + 1 := by
      rw [UInt32.toNat_add, hone]
      exact Nat.mod_eq_of_lt (by omega)
    have hdue : (evs.takeWhile fun ev => ev.time = f) =
        FrameSchedule.due (fun ev : InEvent => ev.time.toNat) f.toNat evs := by
      simp only [FrameSchedule.due, UInt32.toNat_inj]
    have hlater : evs.drop (FrameSchedule.due (fun ev : InEvent => ev.time.toNat) f.toNat
          evs).length = FrameSchedule.later (fun ev => ev.time.toNat) f.toNat evs :=
      FrameSchedule.drop_length_due f.toNat evs
    rw [FrameSchedule.walk, List.filterMap_append, List.filterMap_cons, ← hnext,
      ← ih (f + 1) (by omega), ClientView.blockEvents, hdue, hlater]
    simp [Function.comp_def]

/-- `blockEvents` are the events in order. -/
theorem blockEvents_eq (p : Process ω) :
    ClientView.blockEvents p.frames_count.toNat 0 p.in_events.events =
      (inOrder p).map Prod.fst := by
  have hzero : (0 : UInt32).toNat = 0 := rfl
  have hlt := p.frames_count.toNat_lt
  rw [blockEvents_eq_walk _ _ (by rw [hzero]; omega), FrameSchedule.walk_events, hzero,
    Nat.zero_add, ← p.in_events.indexed_map_fst]
  exact (FrameSchedule.inOrder_map Prod.fst _ _ _).symm

end ClapRci.ProcessBlock
