import ClapRci.Core.Timestamp
import ClapRci.Lib.RunningMax
import ClapRci.Plugin.Parameter

/-!
# Parameter updates from the clients (`server/shareddata.cpp`, `plugin/coreplugin.cpp`)

`pushClientParam` filters the updates of a `ClientParams` batch by their time stamps and
pushes them to `mClientsToPluginQueue`, waiting while it is full; `processGuiEvents` pops
them on the audio thread and applies them. The two run side by side here, one evaluation of
a loop condition or of a wait predicate at a time.

`clientParams_in_order`: what enters the queue are the strict running maxima of the time
stamps received, and what comes out is what entered.
-/

namespace ClapRci

namespace Api

/-- Message `TimestampMsg`. -/
structure TimestampMsg where
  seconds : Int64 := 0
  nanos : Int64 := 0

/-- Message `ClientParam`; a submessage that is not set reads as its default. -/
structure ClientParam where
  event : Event := .pluginActivate
  param : ClapEventParam := {}
  timestamp : TimestampMsg := {}

/-- Message `ClientParams`: its repeated field `params`. -/
abbrev ClientParams := List ClientParam

end Api

/-- `ClientParamWrapper`. -/
structure ClientParamWrapper where
  ev : Event := .eventInvalid
  paramId : UInt32 := 0
  value : Double := default
deriving DecidableEq

/-- `ClientParamWrapper(other)`. -/
def ClientParamWrapper.ofClientParam (other : Api.ClientParam) : ClientParamWrapper where
  ev := other.event
  paramId := other.param.param_id
  value := other.param.value

/-- The `clap_event_param_value` that `processGuiEvents` fills in for the host; its `note_id`
and `port_index` are left as they are in memory. -/
structure OutParamValue where
  time : UInt32 := 0
  space_id : UInt16 := 0
  type : UInt16 := 5
  flags : UInt32 := 0
  param_id : UInt32
  value : Double
  channel : Int16 := -1
  key : Int16 := -1
  cookie : ParameterPtr
deriving DecidableEq

namespace ClientParams

open RunningMax

/-! ## The code -/

/-- The members of `SharedData` on the way from the clients to the audio thread. -/
structure Data where
  mClientsToPluginQueue : BoundedFifo 64 ClientParamWrapper := .empty
  mLastClientStamp : Stamp := {}

/-- Where the completion-queue thread is in `pushClientParam`: not in it, at the head of the
loop over the updates left, or waiting to push one of them. -/
inductive Producer where
  | idle
  | loop (todo : Api.ClientParams)
  | push (p : Api.ClientParam) (todo : Api.ClientParams)

/-- The loop body up to the wait: drop the update, or go on to push it. -/
def pushClientParamFilter (d : Data) (p : Api.ClientParam) (todo : Api.ClientParams) :
    Producer × Data :=
  match d.mLastClientStamp.setIfNewer p.timestamp.seconds p.timestamp.nanos with
  | (false, stamp) => (.loop todo, { d with mLastClientStamp := stamp })
  | (true, stamp) => (.push p todo, { d with mLastClientStamp := stamp })

/-- The predicate `progressive_backoff_wait` evaluates until it is true. -/
def pushClientParamTry (d : Data) (p : Api.ClientParam) : Bool × Data :=
  let (ok, queue) := d.mClientsToPluginQueue.push (.ofClientParam p)
  (ok, { d with mClientsToPluginQueue := queue })

/-- The loop body of `processGuiEvents` for a popped event, and what it tries to push to the
host. -/
def processGuiEvent (params : ParamStore) (clientEv : ClientParamWrapper) :
    ParamStore × Option OutParamValue :=
  match clientEv.ev with
  | .param =>
    match params.getParameterById clientEv.paramId with
    | none => (params, none)
    | some param =>
      (params.setValue param clientEv.value,
        some { param_id := clientEv.paramId, value := clientEv.value, cookie := param })
  | .paramInfo => (params, none)
  | .note => (params, none)
  | _ => (params, none)

/-! ## The two threads -/

/-- Both sides, the parameters, and the history: the batches handed to `pushClientParam`, the
updates its loop has looked at, those that entered the queue, the events popped, and what
was pushed to the host with its answer. -/
structure Sys where
  data : Data := {}
  producer : Producer := .idle
  processing : Bool := false
  params : ParamStore
  batches : List Api.ClientParams := []
  received : List Api.ClientParam := []
  entered : List Api.ClientParam := []
  popped : List ClientParamWrapper := []
  reported : List (OutParamValue × Bool) := []

/-- A step of either thread. `turn ok` is one turn of the loop of `processGuiEvents`, where
`ok` is what `try_push` answers if it is called. -/
inductive Lbl where
  | pushClientParam (ev : Api.ClientParams)
  | next
  | tryPush
  | processGuiEvents
  | turn (ok : Bool)

def step (s : Sys) : Lbl → Option Sys
  | .pushClientParam ev =>
    match s.producer with
    | .idle => some { s with producer := .loop ev, batches := s.batches ++ [ev] }
    | _ => none
  | .next =>
    match s.producer with
    | .loop [] => some { s with producer := .idle }
    | .loop (p :: todo) =>
      let (producer, data) := pushClientParamFilter s.data p todo
      some { s with data := data, producer := producer, received := s.received ++ [p] }
    | _ => none
  | .tryPush =>
    match s.producer with
    | .push p todo =>
      match pushClientParamTry s.data p with
      | (false, data) => some { s with data := data }
      | (true, data) =>
        some { s with data := data, producer := .loop todo, entered := s.entered ++ [p] }
    | _ => none
  | .processGuiEvents => if s.processing then none else some { s with processing := true }
  | .turn ok =>
    if !s.processing then none
    else
      match s.data.mClientsToPluginQueue.pop with
      | (none, _) => some { s with processing := false }
      | (some clientEv, queue) =>
        let s := { s with data := { s.data with mClientsToPluginQueue := queue },
                          popped := s.popped ++ [clientEv] }
        match processGuiEvent s.params clientEv with
        | (params, none) => some { s with params := params }
        | (params, some out) =>
          some { s with params := params, processing := ok, reported := s.reported ++ [(out, ok)] }

/-- Nothing received yet, with these parameters. -/
def start (params : ParamStore) : Sys := { params := params }

/-- The two threads, started on a plugin with any parameters. -/
def spec : ActionSystem.Spec Sys Lbl where
  Init s := ∃ params, s = start params
  step := step

/-! ## What the steps do -/

/-- The stamp of an update. -/
def stampOf (p : Api.ClientParam) : Stamp := ⟨p.timestamp.seconds, p.timestamp.nanos⟩

/-- The updates whose stamp is newer than `(0, 0)` and than all before. -/
abbrev newest (ps : List Api.ClientParam) : List Api.ClientParam := runningMaxima stampOf {} ps

/-- The update waiting to be pushed. -/
def Producer.pushing : Producer → List Api.ClientParam
  | .idle => []
  | .loop _ => []
  | .push p _ => [p]

/-- The updates of the current batch that are still to be looked at. -/
def Producer.todo : Producer → List Api.ClientParam
  | .idle => []
  | .loop todo => todo
  | .push _ todo => todo

/-- The queue. -/
abbrev Sys.queue (s : Sys) : List ClientParamWrapper := s.data.mClientsToPluginQueue.elems

/-- The steps, by what they do. -/
inductive Moves (s : Sys) : Lbl → Sys → Prop where
  | began (ev : Api.ClientParams) (hproducer : s.producer = .idle) :
      Moves s (.pushClientParam ev)
        { s with producer := .loop ev, batches := s.batches ++ [ev] }
  | ended (hproducer : s.producer = .loop []) : Moves s .next { s with producer := .idle }
  | dropped (p : Api.ClientParam) (todo : Api.ClientParams)
      (hproducer : s.producer = .loop (p :: todo))
      (hstamp : ¬ s.data.mLastClientStamp < stampOf p) :
      Moves s .next { s with producer := .loop todo, received := s.received ++ [p] }
  | accepted (p : Api.ClientParam) (todo : Api.ClientParams)
      (hproducer : s.producer = .loop (p :: todo))
      (hstamp : s.data.mLastClientStamp < stampOf p) :
      Moves s .next { s with data := { s.data with mLastClientStamp := stampOf p },
                             producer := .push p todo, received := s.received ++ [p] }
  | waited (p : Api.ClientParam) (todo : Api.ClientParams)
      (hproducer : s.producer = .push p todo) (hfull : ¬ s.queue.length < 64) :
      Moves s .tryPush s
  | pushed (p : Api.ClientParam) (todo : Api.ClientParams)
      (hproducer : s.producer = .push p todo) (queue : BoundedFifo 64 ClientParamWrapper)
      (hqueue : queue.elems = s.queue ++ [.ofClientParam p]) :
      Moves s .tryPush { s with data := { s.data with mClientsToPluginQueue := queue },
                                producer := .loop todo, entered := s.entered ++ [p] }
  | entered (hprocessing : s.processing = false) :
      Moves s .processGuiEvents { s with processing := true }
  | empty (ok : Bool) (hqueue : s.queue = []) :
      Moves s (.turn ok) { s with processing := false }
  | popped (ok : Bool) (clientEv : ClientParamWrapper) (queue : BoundedFifo 64 ClientParamWrapper)
      (hqueue : s.queue = clientEv :: queue.elems) (processing : Bool)
      (reported : List (OutParamValue × Bool)) :
      Moves s (.turn ok) { s with data := { s.data with mClientsToPluginQueue := queue },
                                  popped := s.popped ++ [clientEv],
                                  params := (processGuiEvent s.params clientEv).1,
                                  processing := processing, reported := reported }

theorem step_moves {s s' : Sys} {l : Lbl} (hstep : step s l = some s') : Moves s l s' := by
  cases l with
  | pushClientParam ev =>
    simp only [step] at hstep
    split at hstep
    · rename_i hproducer
      cases hstep
      exact .began ev hproducer
    · cases hstep
  | next =>
    simp only [step] at hstep
    split at hstep
    · rename_i hproducer
      cases hstep
      exact .ended hproducer
    · rename_i p todo hproducer
      cases hstep
      simp only [pushClientParamFilter, Stamp.setIfNewer_eq]
      by_cases hstamp : s.data.mLastClientStamp < stampOf p
      · have hcond : s.data.mLastClientStamp < ⟨p.timestamp.seconds, p.timestamp.nanos⟩ := hstamp
        rw [if_pos hcond]
        exact .accepted p todo hproducer hstamp
      · have hcond : ¬ s.data.mLastClientStamp < ⟨p.timestamp.seconds, p.timestamp.nanos⟩ := hstamp
        rw [if_neg hcond]
        exact .dropped p todo hproducer hstamp
    · cases hstep
  | tryPush =>
    simp only [step] at hstep
    split at hstep
    · rename_i p todo hproducer
      by_cases hroom : s.queue.length < 64
      · simp only [pushClientParamTry, BoundedFifo.push, hroom, dite_true] at hstep
        cases hstep
        exact .pushed p todo hproducer _ rfl
      · simp only [pushClientParamTry, BoundedFifo.push, hroom, dite_false] at hstep
        cases hstep
        exact .waited p todo hproducer hroom
    · cases hstep
  | processGuiEvents =>
    simp only [step] at hstep
    split at hstep
    · cases hstep
    · rename_i hprocessing
      cases hstep
      exact .entered (by simpa using hprocessing)
  | turn ok =>
    simp only [step] at hstep
    split at hstep
    · cases hstep
    · cases hqueue : s.queue with
      | nil =>
        simp only [BoundedFifo.pop, hqueue, List.head?_nil] at hstep
        cases hstep
        exact .empty ok hqueue
      | cons clientEv rest =>
        rcases BoundedFifo.pop_of_cons hqueue with ⟨queue, hpop, hrest⟩
        rw [← hrest] at hqueue
        rw [hpop] at hstep
        -- reported to the host or not, the parameters are those of the loop body
        rcases hev : processGuiEvent s.params clientEv with ⟨params, out⟩
        have hparams : params = (processGuiEvent s.params clientEv).1 := by rw [hev]
        cases out with
        | none =>
          simp only [hev] at hstep
          cases hstep
          rw [hparams]
          exact .popped ok clientEv queue hqueue s.processing s.reported
        | some out =>
          simp only [hev] at hstep
          cases hstep
          rw [hparams]
          exact .popped ok clientEv queue hqueue ok (s.reported ++ [(out, ok)])

/-! ## Every reachable state -/

/-- `accepted` and `stamp` say what the filter does, `received` what it has looked at, and
`fifo` that the queue neither loses nor reorders. -/
structure Inv (s : Sys) : Prop where
  stamp : s.data.mLastClientStamp = highest stampOf {} s.received
  accepted : s.entered ++ s.producer.pushing = newest s.received
  received : s.received ++ s.producer.todo = s.batches.flatten
  fifo : s.popped ++ s.queue = s.entered.map .ofClientParam

theorem inv_start (params : ParamStore) : Inv (start params) := ⟨rfl, rfl, rfl, rfl⟩

/-- The filter keeps the greatest stamp, and passes an update on exactly when it exceeds it. -/
theorem inv_step (s : Sys) (l : Lbl) (s' : Sys) (hinv : Inv s) (hstep : step s l = some s') :
    Inv s' := by
  rcases hinv with ⟨hstamp, haccepted, hreceived, hfifo⟩
  cases step_moves hstep with
  | began ev hproducer =>
    rw [hproducer] at haccepted hreceived
    refine ⟨hstamp, haccepted, ?_, hfifo⟩
    rw [List.flatten_concat, ← hreceived]
    simp [Producer.todo]
  | ended hproducer =>
    rw [hproducer] at haccepted hreceived
    exact ⟨hstamp, haccepted, hreceived, hfifo⟩
  | dropped p todo hproducer hold =>
    rw [hproducer] at haccepted hreceived
    rw [hstamp] at hold
    have hmax : max (highest stampOf {} s.received) (stampOf p) =
        highest stampOf {} s.received := max_eq_left (not_lt.mp hold)
    refine ⟨?_, ?_, ?_, hfifo⟩
    · rw [highest_concat, hmax]
      exact hstamp
    · rw [newest, runningMaxima_concat, if_neg hold, ← newest, ← haccepted]
      simp [Producer.pushing]
    · rw [← hreceived]
      simp [Producer.todo]
  | accepted p todo hproducer hnew =>
    rw [hproducer] at haccepted hreceived
    rw [hstamp] at hnew
    refine ⟨?_, ?_, ?_, hfifo⟩
    · rw [highest_concat, max_eq_right (le_of_lt hnew)]
    · rw [newest, runningMaxima_concat, if_pos hnew, ← newest, ← haccepted]
      simp [Producer.pushing]
    · rw [← hreceived]
      simp [Producer.todo]
  | waited => exact ⟨hstamp, haccepted, hreceived, hfifo⟩
  | pushed p todo hproducer queue hqueue =>
    rw [hproducer] at haccepted hreceived
    refine ⟨hstamp, ?_, hreceived, ?_⟩
    · rw [← haccepted]
      simp [Producer.pushing]
    · simp only [Sys.queue, hqueue, List.map_append, List.map_singleton]
      rw [← List.append_assoc, hfifo]
  | entered => exact ⟨hstamp, haccepted, hreceived, hfifo⟩
  | empty => exact ⟨hstamp, haccepted, hreceived, hfifo⟩
  | popped ok clientEv queue hqueue =>
    refine ⟨hstamp, haccepted, hreceived, ?_⟩
    rw [← hfifo, hqueue, List.append_assoc]
    rfl

theorem reachable_inv {s : Sys} (h : spec.Reachable s) : Inv s := by
  apply spec.reachable_invariant Inv _ inv_step h
  rintro s ⟨params, rfl⟩
  exact inv_start params

/-! ## Progress -/

/-- The history of `t` continues that of `s`. -/
structure Later (s t : Sys) : Prop where
  received : s.received <+: t.received
  entered : s.entered <+: t.entered
  popped : s.popped <+: t.popped

theorem step_later {s s' : Sys} {l : Lbl} (hstep : step s l = some s') : Later s s' := by
  have hsame : Later s s := ⟨List.prefix_rfl, List.prefix_rfl, List.prefix_rfl⟩
  cases step_moves hstep with
  | dropped | accepted => exact ⟨List.prefix_append _ _, List.prefix_rfl, List.prefix_rfl⟩
  | pushed => exact ⟨List.prefix_rfl, List.prefix_append _ _, List.prefix_rfl⟩
  | popped => exact ⟨List.prefix_rfl, List.prefix_rfl, List.prefix_append _ _⟩
  | _ => exact ⟨hsame.received, hsame.entered, hsame.popped⟩

theorem run_later {s t : Sys} {ls : List Lbl} (hrun : spec.run s ls = some t) : Later s t := by
  apply spec.run_invariant (Later s) _ ⟨List.prefix_rfl, List.prefix_rfl, List.prefix_rfl⟩ hrun
  intro s₁ l s₂ h hstep
  rcases step_later hstep with ⟨hreceived, hentered, hpopped⟩
  exact ⟨h.received.trans hreceived, h.entered.trans hentered, h.popped.trans hpopped⟩

/-- A turn of the loop of `processGuiEvents`. -/
def Lbl.isTurn : Lbl → Bool
  | .turn _ => true
  | _ => false

/-- Every turn pops an event until all that had entered are out. -/
theorem turns_pop {s t : Sys} {ls : List Lbl} (hinv : Inv s) (hrun : spec.run s ls = some t) :
    s.entered.length ≤ t.popped.length ∨
      s.popped.length + ls.countP Lbl.isTurn ≤ t.popped.length := by
  induction ls generalizing s with
  | nil =>
    cases hrun
    exact Or.inr (Nat.le_refl _)
  | cons l ls ih =>
    rcases spec.run_cons hrun with ⟨s', hstep, hrest⟩
    have hlater := step_later hstep
    have hentered := hlater.entered.length_le
    have hpopped := hlater.popped.length_le
    rcases ih (inv_step s l s' hinv hstep) hrest with h | h
    · left
      omega
    · rw [List.countP_cons]
      cases step_moves hstep with
      | empty ok hqueue =>
        -- nothing queued: everything that entered has been popped
        left
        have hlen := congrArg List.length hinv.fifo
        have hlater := (run_later hrun).popped.length_le
        rw [hqueue] at hlen
        simp only [List.append_nil, List.length_map] at hlen
        omega
      | popped ok clientEv =>
        right
        simp only [List.length_append, List.length_singleton] at h
        simp only [Lbl.isTurn, if_true]
        omega
      | _ =>
        right
        simpa [Lbl.isTurn] using h

/-- An update that waits to be pushed waits, or has entered. -/
def Waits (p : Api.ClientParam) (todo : Api.ClientParams) (n : Nat) (s : Sys) : Prop :=
  n < s.entered.length ∨ (s.producer = .push p todo ∧ s.entered.length = n)

/-- And while it waits there is room. -/
def HasRoom (p : Api.ClientParam) (todo : Api.ClientParams) (n : Nat) (s : Sys) : Prop :=
  n < s.entered.length ∨
    (s.producer = .push p todo ∧ s.entered.length = n ∧ s.queue.length < 64)

section Waiting

variable {p : Api.ClientParam} {todo : Api.ClientParams} {n : Nat}

/-- A step pushes the update that waits, or leaves it waiting with no less room than before. -/
theorem pushing_step {s s' : Sys} {l : Lbl} (hpush : s.producer = .push p todo)
    (hstep : step s l = some s') :
    s.entered.length < s'.entered.length ∨
      s'.producer = .push p todo ∧ s'.entered = s.entered ∧ s'.queue.length ≤ s.queue.length := by
  cases step_moves hstep with
  | began ev hproducer | ended hproducer | dropped p todo hproducer | accepted p todo hproducer =>
    rw [hpush] at hproducer
    cases hproducer
  | pushed =>
    left
    rw [List.length_append, List.length_singleton]
    omega
  | popped ok clientEv queue hqueue =>
    refine Or.inr ⟨hpush, rfl, ?_⟩
    rw [hqueue, List.length_cons]
    exact Nat.le_succ _
  | _ => exact Or.inr ⟨hpush, rfl, Nat.le_refl _⟩

theorem waits_step (s : Sys) (l : Lbl) (s' : Sys) (h : Waits p todo n s)
    (hstep : step s l = some s') : Waits p todo n s' := by
  have hentered := (step_later hstep).entered.length_le
  rcases h with h | ⟨hpush, hn⟩
  · left
    omega
  · rcases pushing_step hpush hstep with hpushed | ⟨hpush', hsame, -⟩
    · left
      omega
    · right
      rw [hsame]
      exact ⟨hpush', hn⟩

theorem hasRoom_step (s : Sys) (l : Lbl) (s' : Sys) (h : HasRoom p todo n s)
    (hstep : step s l = some s') : HasRoom p todo n s' := by
  have hentered := (step_later hstep).entered.length_le
  rcases h with h | ⟨hpush, hn, hroom⟩
  · left
    omega
  · rcases pushing_step hpush hstep with hpushed | ⟨hpush', hsame, hqueue⟩
    · left
      omega
    · right
      rw [hsame]
      exact ⟨hpush', hn, Nat.lt_of_le_of_lt hqueue hroom⟩

/-- A turn of the consumer makes room. -/
theorem turn_hasRoom {s s' : Sys} {ok : Bool} (h : Waits p todo n s)
    (hstep : step s (.turn ok) = some s') : HasRoom p todo n s' := by
  have hentered := (step_later hstep).entered.length_le
  rcases h with h | ⟨hpush, hn⟩
  · left
    omega
  · cases step_moves hstep with
    | empty ok hqueue =>
      refine Or.inr ⟨hpush, hn, ?_⟩
      show s.queue.length < 64
      rw [hqueue]
      decide
    | popped ok clientEv queue hqueue =>
      refine Or.inr ⟨hpush, hn, ?_⟩
      have hbound := s.data.mClientsToPluginQueue.bounded
      rw [← Sys.queue, hqueue, List.length_cons] at hbound
      show queue.elems.length < 64
      omega

/-- With room the push succeeds. -/
theorem tryPush_enters {s s' : Sys} (h : HasRoom p todo n s)
    (hstep : step s .tryPush = some s') : n < s'.entered.length := by
  have hentered := (step_later hstep).entered.length_le
  rcases h with h | ⟨hpush, hn, hroom⟩
  · omega
  · cases step_moves hstep with
    | waited p todo hproducer hfull => exact absurd hroom hfull
    | pushed =>
      rw [List.length_append, List.length_singleton]
      omega

end Waiting

/-- After a turn and, later, an evaluation of the push predicate, what the filter had let
through has entered. -/
theorem turn_tryPush_enter {s t : Sys} {ls ms ns : List Lbl} {ok : Bool} (hinv : Inv s)
    (hrun : spec.run s (ls ++ .turn ok :: (ms ++ .tryPush :: ns)) = some t) :
    ∃ u, spec.run u ns = some t ∧ Inv u ∧
      (newest s.received).length ≤ u.entered.length := by
  rcases spec.run_split hrun with ⟨s₁, h₁, hrun⟩
  rcases spec.run_cons hrun with ⟨s₂, h₂, hrun⟩
  rcases spec.run_split hrun with ⟨s₃, h₃, hrun⟩
  rcases spec.run_cons hrun with ⟨u, h₄, hrun⟩
  change step s₁ (.turn ok) = some s₂ at h₂
  change step s₃ .tryPush = some u at h₄
  have hinv₁ := spec.run_invariant Inv inv_step hinv h₁
  have hinv₃ := spec.run_invariant Inv inv_step (inv_step _ _ _ hinv₁ h₂) h₃
  refine ⟨u, hrun, inv_step _ _ _ hinv₃ h₄, ?_⟩
  rw [← hinv.accepted, List.length_append]
  have hentered : s.entered.length ≤ u.entered.length := by
    have h₁ := (run_later h₁).entered.length_le
    have h₂ := (step_later h₂).entered.length_le
    have h₃ := (run_later h₃).entered.length_le
    have h₄ := (step_later h₄).entered.length_le
    omega
  cases hproducer : s.producer with
  | idle => simpa [Producer.pushing] using hentered
  | loop todo => simpa [Producer.pushing] using hentered
  | push p todo =>
    -- the turn makes room for `p`, which then stays until `p` is pushed
    have hwaits : Waits p todo s.entered.length s := Or.inr ⟨hproducer, rfl⟩
    have hwaits₁ := spec.run_invariant (Waits p todo s.entered.length) waits_step hwaits h₁
    have hroom₂ := turn_hasRoom hwaits₁ h₂
    have hroom₃ := spec.run_invariant (HasRoom p todo s.entered.length) hasRoom_step hroom₂ h₃
    exact tryPush_enters hroom₃ h₄

/-- What the filter has let through stays ahead of what it lets through later. -/
theorem run_maxima {s t : Sys} {ls : List Lbl} (hinv : Inv s) (hrun : spec.run s ls = some t) :
    newest s.received <+: t.entered ++ t.producer.pushing := by
  rcases (run_later hrun).received with ⟨more, hmore⟩
  rw [(spec.run_invariant Inv inv_step hinv hrun).accepted, ← hmore]
  exact runningMaxima_prefix _ _

/-- And 64 more turns bring it out of the queue. -/
theorem accepted_popped {s t : Sys} {ls ms ns : List Lbl} {ok : Bool} (hinv : Inv s)
    (hrun : spec.run s (ls ++ .turn ok :: (ms ++ .tryPush :: ns)) = some t)
    (hturns : 64 ≤ ns.countP Lbl.isTurn) :
    (newest s.received).map .ofClientParam <+: t.popped := by
  rcases turn_tryPush_enter hinv hrun with ⟨u, hrest, hinvu, hentered⟩
  have hinvt := spec.run_invariant Inv inv_step hinv hrun
  have hlength : (newest s.received).length ≤ t.popped.length := by
    have hbound := u.data.mClientsToPluginQueue.bounded
    have hfifo := congrArg List.length hinvu.fifo
    rw [List.length_append, List.length_map] at hfifo
    rcases turns_pop hinvu hrest with h | h
    · omega
    · simp only [Sys.queue] at hfifo
      omega
  -- both are prefixes of what has been let through by the end of the run
  have hmaxima := run_maxima hinv hrun
  have hpopped : t.popped <+: (t.entered ++ t.producer.pushing).map .ofClientParam := by
    rw [List.map_append, ← hinvt.fifo, List.append_assoc]
    exact List.prefix_append _ _
  apply List.prefix_of_prefix_length_le (hmaxima.map _) hpopped
  rwa [List.length_map]

/-! ## What is promised -/

/-- What enters the queue in a state, and what comes out. -/
structure InOrder (s : Sys) : Prop where
  /-- The updates that entered, and the one about to, are the strict running maxima. -/
  accepted : s.entered ++ s.producer.pushing = newest s.received
  /-- Their stamps strictly increase. -/
  increasing : (s.entered ++ s.producer.pushing).Pairwise fun p q => stampOf p < stampOf q
  /-- All updates of the batches have been looked at, up to those of the current one left. -/
  received : s.received ++ s.producer.todo = s.batches.flatten
  /-- `mLastClientStamp` is the greatest of `(0, 0)` and all stamps received. -/
  stamp : IsGreatest {k | k = {} ∨ ∃ p ∈ s.received, k = stampOf p} s.data.mLastClientStamp
  /-- What entered has come out, in this order, or is still queued. -/
  popped : s.popped ++ s.queue = s.entered.map .ofClientParam

/-- In every reachable state the queue has been given exactly the strict running maxima of
the stamps received, however they were split into batches, and every one that the filter
has let through is popped, once and in order, by any run that goes on with a turn of the
consumer, a push attempt and 64 more turns. -/
theorem clientParams_in_order {s : Sys} (h : spec.Reachable s) :
    InOrder s ∧
      (∀ t, spec.Reachable t → s.producer = .idle → t.producer = .idle →
        s.batches.flatten = t.batches.flatten →
        s.entered = t.entered ∧ s.data.mLastClientStamp = t.data.mLastClientStamp) ∧
      (∀ ls ok ms ns t, spec.run s (ls ++ .turn ok :: (ms ++ .tryPush :: ns)) = some t →
        64 ≤ ns.countP Lbl.isTurn → (newest s.received).map .ofClientParam <+: t.popped) := by
  have hinv := reachable_inv h
  refine ⟨⟨hinv.accepted, ?_, hinv.received, ?_, hinv.fifo⟩, ?_, ?_⟩
  · rw [hinv.accepted]
    exact pairwise_runningMaxima s.received
  · rw [hinv.stamp]
    exact isGreatest_highest s.received
  · intro t ht hidle hidle' hbatches
    have hinv' := reachable_inv ht
    have hreceived : s.received = t.received := by
      have hs := hinv.received
      have ht := hinv'.received
      rw [hidle, Producer.todo, List.append_nil] at hs
      rw [hidle', Producer.todo, List.append_nil] at ht
      rw [hs, ht, hbatches]
    constructor
    · have hs := hinv.accepted
      have ht := hinv'.accepted
      rw [hidle, Producer.pushing, List.append_nil] at hs
      rw [hidle', Producer.pushing, List.append_nil] at ht
      rw [hs, ht, hreceived]
    · rw [hinv.stamp, hinv'.stamp, hreceived]
  · intro ls ok ms ns t hrun hturns
    exact accepted_popped hinv hrun hturns

/-- Three updates, the second one late. -/
def threeUpdates : Api.ClientParams :=
  [{ event := .param, param := { param_id := 1 }, timestamp := { seconds := 1 } },
   { event := .param, param := { param_id := 1 }, timestamp := { nanos := 5 } },
   { event := .param, param := { param_id := 2 }, timestamp := { seconds := 1, nanos := 1 } }]

/-- They are received, and those let through are pushed. -/
def threeUpdatesRun : List Lbl :=
  [.pushClientParam threeUpdates, .next, .tryPush, .next, .next, .tryPush]

/-- The first and the third one enter. -/
theorem clientParams_in_order_three : ∃ t, spec.run (start .empty) threeUpdatesRun = some t ∧
    t.entered.length = 2 ∧ InOrder t := by
  refine ⟨_, rfl, rfl, ?_⟩
  exact (clientParams_in_order ⟨start .empty, threeUpdatesRun, ⟨_, rfl⟩, rfl⟩).1

end ClientParams

end ClapRci
