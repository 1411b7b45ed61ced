import Mathlib.Data.List.Nodup
import Mathlib.Data.List.Range
import Mathlib.Logic.Function.Basic
import ClapRci.Lib.ActionSystem
import ClapRci.Server.ServerCtrl

/-!
# `ServerCtrl` called from many threads (`server/serverctrl.cpp`)

`start` and `stop` serialise on `mServerMtx`, but `stop` asks `isRunning` before it takes the
mutex, and `address` takes none. Each call is cut at its uses of `mServer` here, and any
number of threads call in any order.

* `sequential_start`, `sequential_stop`: one call after the other they are `ServerCtrl.start`
  and `ServerCtrl.stop`;
* `safe_iff`: calls from many threads are safe, over a whole run, exactly when no stop loses
  its server to another one between its check and its lock, and `address` is only asked for
  a server that is there.
-/

namespace ClapRci.ServerCtrlThreads

inductive Call where
  | start | stop | address
deriving DecidableEq

/-- Where a thread is: outside a call, or before the named step of one. -/
inductive Pc where
  | idle
  | startLock
  | startCreate
  | startCheck
  | startUse
  | stopCheck
  | stopLock
  | stopUse
  /-- `server` is the one that was stopped. -/
  | stopReset (server : Nat)
  | addressUse
deriving DecidableEq

/-- What a call returns. A stop that returns true comes with the server it has stopped, one
that returns false with none; of an address it is whether there is one. -/
inductive Result where
  | start (ok : Bool)
  | stop (server : Option Nat)
  | address (found : Bool)
deriving DecidableEq

deriving instance DecidableEq for Server

/-- `mServer` with the number of its object, the mutex, the threads, and the history. -/
structure Sys (ι : Type) where
  mServer : Option (Nat × Server) := none
  mServerMtx : Option ι := none
  pc : ι → Pc := fun _ => .idle
  /-- A call used `mServer` while it was null. -/
  crashed : Bool := false
  /-- The number of servers made and of those destroyed again. -/
  made : Nat := 0
  resets : Nat := 0
  /-- The servers started and stopped. -/
  started : List Nat := []
  stopped : List Nat := []
  /-- The call the thread is in has changed `mServer`. -/
  touched : ι → Bool := fun _ => false
  /-- Since the thread has checked `isRunning`, a stop has reset the server, and no start has
  made one. -/
  lost : ι → Bool := fun _ => false
  /-- What the calls returned, and whether they had changed `mServer`. -/
  returned : List (Result × Bool) := []

/-- A thread calls, or takes the next step of its call; `built` says whether
`BuildAndStart` returns a server. -/
inductive Lbl (ι : Type) where
  | call (t : ι) (call : Call)
  | step (t : ι) (built : Bool)

/-- The first step of a call. -/
def Call.entry : Call → Pc
  | .start => .startLock
  | .stop => .stopCheck
  | .address => .addressUse

variable {ι : Type} [DecidableEq ι]

def Sys.goto (s : Sys ι) (t : ι) (pc : Pc) : Sys ι := { s with pc := Function.update s.pc t pc }

/-- Leave the scope of the lock. -/
def Sys.unlock (s : Sys ι) : Sys ι := { s with mServerMtx := none }

/-- `isRunning()`. -/
def Sys.isRunning (s : Sys ι) : Bool :=
  match s.mServer with
  | none => false
  | some (_, mServer) => mServer.isRunning

/-- The next step of the thread, and what it returns if it is the last of its call. -/
def act (s : Sys ι) (t : ι) (built : Bool) : Option (Sys ι × Option Result) :=
  match s.pc t with
  | .idle => none
  -- `start`
  | .startLock =>
    match s.mServerMtx with
    | some _ => none
    | none => some ({ s with mServerMtx := some t }.goto t .startCreate, none)
  | .startCreate =>
    match s.mServer with
    | some _ => some (s.goto t .startCheck, none)
    | none =>
      some ({ s with
        mServer := some (s.made, {})
        made := s.made + 1
        lost := fun _ => false }.goto t .startCheck, none)
  | .startCheck =>
    if s.isRunning then some (s.unlock.goto t .idle, some (.start false))
    else some (s.goto t .startUse, none)
  | .startUse =>
    match s.mServer with
    | none => some ({ s with crashed := true }, none)
    | some (server, mServer) =>
      match mServer.start built with
      | (false, mServer) =>
        some ({ s with mServer := some (server, mServer) }.unlock.goto t .idle,
          some (.start false))
      | (true, mServer) =>
        -- `start` is called again, and its result ignored
        let (_, mServer) := mServer.start built
        some ({ s with
          mServer := some (server, mServer)
          started := s.started ++ [server] }.unlock.goto t .idle, some (.start true))
  -- `stop`
  | .stopCheck =>
    if s.isRunning then
      some ({ s with lost := Function.update s.lost t false }.goto t .stopLock, none)
    else some (s.goto t .idle, some (.stop none))
  | .stopLock =>
    match s.mServerMtx with
    | some _ => none
    | none => some ({ s with mServerMtx := some t }.goto t .stopUse, none)
  | .stopUse =>
    match s.mServer with
    | none => some ({ s with crashed := true }, none)
    | some (server, mServer) =>
      match mServer.stop with
      -- a null pointer inside the server: nothing runs on from here
      | none => none
      | some (false, mServer) =>
        some ({ s with mServer := some (server, mServer) }.unlock.goto t .idle,
          some (.stop none))
      | some (true, mServer) =>
        some ({ s with
          mServer := some (server, mServer)
          stopped := s.stopped ++ [server] }.goto t (.stopReset server), none)
  | .stopReset server =>
    some ({ s with
      mServer := none
      resets := s.resets + 1
      lost := fun _ => true }.unlock.goto t .idle, some (.stop (some server)))
  -- `address`
  | .addressUse =>
    match s.mServer with
    | none => some ({ s with crashed := true }, none)
    | some (_, mServer) => some (s.goto t .idle, some (.address mServer.isRunning))

/-- Keep the history of a step. -/
def record (s s' : Sys ι) (t : ι) (result : Option Result) : Sys ι :=
  let touched := s.touched t || decide (s'.mServer ≠ s.mServer)
  { s' with
    touched := Function.update s.touched t touched
    returned := s.returned ++ result.toList.map fun r => (r, touched) }

def step (s : Sys ι) : Lbl ι → Option (Sys ι)
  | .call t call =>
    if s.crashed then none
    else
      match s.pc t with
      | .idle => some { s.goto t call.entry with touched := Function.update s.touched t false }
      | _ => none
  | .step t built =>
    if s.crashed then none
    else (act s t built).map fun (s', result) => record s s' t result

/-- The controller before any call. -/
def spec (ι : Type) [DecidableEq ι] : ActionSystem.Spec (Sys ι) (Lbl ι) where
  Init s := s = {}
  step := step

/-! ## One call at a time -/

theorem stop_of_isRunning {mServer : Server} (h : mServer.isRunning = true) :
    mServer.stop = if mServer.server then some (true, { mServer with state := .FINISHED })
      else none := by
  cases hserver : mServer.server <;> simp [Server.stop, h, hserver]

/-- A call with its steps, which nobody interrupts. -/
def alone (t : ι) (call : Call) (built : Bool) (steps : Nat) : List (Lbl ι) :=
  .call t call :: List.replicate steps (.step t built)

/-- The server, and what the calls returned. -/
def Sys.outcome (s : Sys ι) : Option Server × List Result :=
  (s.mServer.map Prod.snd, s.returned.map Prod.fst)

section Sequential

variable {κ : Type} [LinearOrder κ] {s : Sys ι} {t : ι}

-- a call that nobody interrupts is executed step by step
attribute [local simp] alone ActionSystem.Spec.run spec step act record Call.entry Sys.goto
  Sys.unlock Sys.isRunning Sys.outcome ServerCtrl.isRunning ServerCtrl.start ServerCtrl.stop

/-- `start` is `ServerCtrl.start`. -/
theorem sequential_start (hidle : s.pc t = .idle) (hfree : s.mServerMtx = none)
    (hpresent : s.crashed = false) (c : ServerCtrl κ)
    (hc : c.mServer = s.mServer.map Prod.snd) (built : Bool) :
    ((spec ι).run s (alone t .start built (if c.isRunning then 3 else 4))).map Sys.outcome =
      some ((c.start built).2.mServer,
        s.returned.map Prod.fst ++ [.start (c.start built).1]) := by
  cases hserver : s.mServer with
  | none =>
    rw [hserver] at hc
    have hrun : c.isRunning = false := by simp [hc]
    rw [hrun]
    simp [List.replicate, hidle, hfree, hpresent, hserver, Server.isRunning, Server.start, hc]
  | some e =>
    rcases e with ⟨server, mServer⟩
    rw [hserver] at hc
    have hrun : c.isRunning = mServer.isRunning := by simp [hc]
    rw [hrun]
    cases hm : mServer.isRunning with
    | true => simp [List.replicate, hidle, hfree, hpresent, hserver, hm, hc]
    | false =>
      rcases hstart : mServer.start built with ⟨ok, mServer'⟩
      cases ok with
      | false => simp [List.replicate, hidle, hfree, hpresent, hserver, hm, hstart, hc]
      | true => simp [List.replicate, hidle, hfree, hpresent, hserver, hm, hstart, hc]

/-- `stop` is `ServerCtrl.stop`. -/
theorem sequential_stop (hidle : s.pc t = .idle) (hfree : s.mServerMtx = none)
    (hpresent : s.crashed = false) (c : ServerCtrl κ)
    (hc : c.mServer = s.mServer.map Prod.snd) (built : Bool) :
    ((spec ι).run s (alone t .stop built (if c.isRunning then 4 else 1))).map Sys.outcome =
      c.stop.map fun r => (r.2.mServer, s.returned.map Prod.fst ++
        [.stop (if r.1 then s.mServer.map Prod.fst else none)]) := by
  cases hserver : s.mServer with
  | none =>
    rw [hserver] at hc
    have hrun : c.isRunning = false := by simp [hc]
    rw [hrun]
    simp [hidle, hpresent, hserver, hc]
  | some e =>
    rcases e with ⟨server, mServer⟩
    rw [hserver] at hc
    have hrun : c.isRunning = mServer.isRunning := by simp [hc]
    rw [hrun]
    cases hm : mServer.isRunning with
    | false => simp [hidle, hpresent, hserver, hm, hc]
    | true =>
      have hstop := stop_of_isRunning hm
      cases hset : mServer.server with
      | false => simp [List.replicate, hidle, hfree, hpresent, hserver, hm, hstop, hset, hc]
      | true => simp [List.replicate, hidle, hfree, hpresent, hserver, hm, hstop, hset, hc]

end Sequential

/-! ## What is promised -/

/-- The server a call has stopped. -/
def Result.stopped : Result → Option Nat
  | .stop server => server
  | _ => none

/-- The call returned false. -/
def Result.IsFalse : Result → Prop
  | .start ok => ok = false
  | .stop server => server = none
  | .address _ => False

/-- The servers that the stops that returned true have stopped. -/
def Sys.stops (s : Sys ι) : List Nat := s.returned.filterMap fun r => r.1.stopped

/-- No call uses a null `mServer`; the stops that returned true have stopped different
servers, which were started; at most one server is running; and a call that returned false
has changed nothing. -/
structure Safe (s : Sys ι) : Prop where
  present : s.crashed = false
  distinct : s.stops.Nodup
  stopped : ∀ server ∈ s.stops, server ∈ s.started ∧ server ∈ s.stopped
  running : (s.started.filter fun server => server ∉ s.stopped).length ≤ 1
  unchanged : ∀ r ∈ s.returned, r.1.IsFalse → r.2 = false

/-- The condition on a step: a stop that takes the server it has checked has not lost it, and
`address` is asked for a server that was made and not destroyed. -/
def Orderly (s : Sys ι) : Lbl ι → Prop
  | .call _ _ => True
  | .step t _ => (s.pc t = .stopUse → s.lost t = false) ∧
      (s.pc t = .addressUse → s.resets < s.made)

/-! ## The life of a server -/

/-- Where the current server is in its life. -/
inductive Phase where
  | absent | created | running | finished

/-- The server is in this phase. All before it were made, started, stopped and destroyed in
the order of their numbers. -/
def Sys.At (s : Sys ι) : Phase → Prop
  | .absent => s.mServer = none ∧ s.made = s.resets ∧
      s.started = List.range s.resets ∧ s.stopped = List.range s.resets
  | .created => s.mServer = some (s.resets, {}) ∧ s.made = s.resets + 1 ∧
      s.started = List.range s.resets ∧ s.stopped = List.range s.resets
  | .running => (∃ mServer, s.mServer = some (s.resets, mServer) ∧ mServer.isRunning = true) ∧
      s.made = s.resets + 1 ∧
      s.started = List.range (s.resets + 1) ∧ s.stopped = List.range s.resets
  | .finished => (∃ mServer, s.mServer = some (s.resets, mServer)) ∧ s.made = s.resets + 1 ∧
      s.started = List.range (s.resets + 1) ∧ s.stopped = List.range (s.resets + 1)

/-- The steps taken with the mutex. -/
def Pc.holds : Pc → Bool
  | .startCreate | .startCheck | .startUse | .stopUse | .stopReset _ => true
  | _ => false

/-- The phases a step can find; outside the mutex a server is absent or running. -/
def Pc.Finds (resets : Nat) : Pc → Phase → Prop
  | .startCheck, p => p = .created ∨ p = .running
  | .startUse, p => p = .created
  | .stopReset server, p => server = resets ∧ p = .finished
  | _, p => p = .absent ∨ p = .running

/-- Where the thread with the mutex is. -/
def Sys.holder (s : Sys ι) : Pc :=
  match s.mServerMtx with
  | none => .idle
  | some t => s.pc t

/-- The mutex is with the thread that is behind it, which finds the server as it expects. -/
structure Core (s : Sys ι) : Prop where
  mtx : ∀ t, s.mServerMtx = some t ↔ (s.pc t).holds = true
  phase : ∃ p, s.At p ∧ s.holder.Finds s.resets p

section Core

variable {s : Sys ι} {t : ι} {pc : Pc} {p : Phase}

omit [DecidableEq ι] in
theorem Core.holder_eq (h : Core s) (hin : (s.pc t).holds = true) : s.holder = s.pc t := by
  simp [Sys.holder, (h.mtx t).mpr hin]

/-- A thread without the mutex goes on without it. -/
theorem Core.outside (h : Core s) (hout : (s.pc t).holds = false) (hpc : pc.holds = false) :
    Core (s.goto t pc) where
  mtx u := by
    by_cases hu : u = t
    · subst hu
      simp [Sys.goto, hpc, h.mtx u, hout]
    · simp [Sys.goto, hu, h.mtx u]
  phase := by
    rcases h.phase with ⟨p, hat, hfinds⟩
    refine ⟨p, hat, ?_⟩
    have hholder : (s.goto t pc).holder = s.holder := by
      unfold Sys.holder
      cases hmtx : s.mServerMtx with
      | none => simp [Sys.goto, hmtx]
      | some u =>
        have hu : u ≠ t := by
          rintro rfl
          rw [(h.mtx u).mp hmtx] at hout
          cases hout
        simp [Sys.goto, hmtx, hu]
    rw [hholder]
    exact hfinds

/-- A thread takes the mutex. -/
theorem Core.take (h : Core s) (hfree : s.mServerMtx = none) (hpc : pc.holds = true)
    (hfinds : ∀ p, p = .absent ∨ p = .running → pc.Finds s.resets p) :
    Core ({ s with mServerMtx := some t }.goto t pc) where
  mtx u := by
    by_cases hu : u = t
    · subst hu
      simp [Sys.goto, hpc]
    · have hout : (s.pc u).holds = false := by
        rw [← Bool.not_eq_true, ← h.mtx u, hfree]
        exact nofun
      simp [Sys.goto, hu, Ne.symm hu, hout]
  phase := by
    rcases h.phase with ⟨p, hat, hp⟩
    refine ⟨p, hat, ?_⟩
    simp only [Sys.holder, hfree, Pc.Finds] at hp
    simp only [Sys.holder, Sys.goto, Function.update_self]
    exact hfinds p hp

/-- The thread with the mutex goes on with it. -/
theorem Core.inside {s' : Sys ι} (h : Core s) (hin : (s.pc t).holds = true)
    (hpc : pc.holds = true) (hpcs : s'.pc = Function.update s.pc t pc)
    (hmtx : s'.mServerMtx = s.mServerMtx) (hat : s'.At p) (hfinds : pc.Finds s'.resets p) :
    Core s' where
  mtx u := by
    rw [hmtx, hpcs]
    by_cases hu : u = t
    · subst hu
      simp [hpc, (h.mtx u).mpr hin]
    · simp [hu, h.mtx u]
  phase := by
    refine ⟨p, hat, ?_⟩
    have hself : s'.mServerMtx = some t := hmtx.trans ((h.mtx t).mpr hin)
    simp only [Sys.holder, hself, hpcs, Function.update_self]
    exact hfinds

/-- The thread with the mutex releases it and returns. -/
theorem Core.leave {s' : Sys ι} (h : Core s) (hin : (s.pc t).holds = true)
    (hpcs : s'.pc = Function.update s.pc t .idle) (hmtx : s'.mServerMtx = none)
    (hat : s'.At p) (hp : p = .absent ∨ p = .running) : Core s' where
  mtx u := by
    rw [hmtx, hpcs]
    by_cases hu : u = t
    · subst hu
      simp [Pc.holds]
    · have hout : (s.pc u).holds = false := by
        rw [← Bool.not_eq_true, ← h.mtx u, (h.mtx t).mpr hin, Option.some.injEq]
        exact Ne.symm hu
      simp [hu, hout]
  phase := by
    refine ⟨p, hat, ?_⟩
    simp only [Sys.holder, hmtx, Pc.Finds]
    exact hp

omit [DecidableEq ι] in
/-- What the thread with the mutex finds. -/
theorem Core.finds (h : Core s) {pc : Pc} (hpc : s.pc t = pc) (hin : pc.holds = true) :
    ∃ p, s.At p ∧ pc.Finds s.resets p := by
  subst hpc
  rw [← h.holder_eq hin]
  exact h.phase

omit [DecidableEq ι] in
/-- There is no server exactly when as many were destroyed as were made. -/
theorem Core.mServer_eq_none (h : Core s) : s.mServer = none ↔ ¬ s.resets < s.made := by
  rcases h.phase with ⟨p, hat, -⟩
  cases p with
  | absent => simp [hat.1, hat.2.1]
  | created => simp [hat.1, hat.2.1]
  | running =>
    rcases hat with ⟨⟨mServer, hserver, -⟩, hmade, -⟩
    simp [hserver, hmade]
  | finished =>
    rcases hat with ⟨⟨mServer, hserver⟩, hmade, -⟩
    simp [hserver, hmade]

end Core

/-! ## The steps -/

/-- The steps a thread can take, by what they do. -/
inductive Moves (s : Sys ι) (t : ι) : Sys ι → Option Result → Prop where
  | startLocked (hpc : s.pc t = .startLock) (hfree : s.mServerMtx = none) :
    Moves s t ({ s with mServerMtx := some t }.goto t .startCreate) none
  | created (hpc : s.pc t = .startCreate) (hat : s.At .absent) :
    Moves s t ({ s with
      mServer := some (s.made, {})
      made := s.made + 1
      lost := fun _ => false }.goto t .startCheck) none
  | kept (hpc : s.pc t = .startCreate) (hat : s.At .running) :
    Moves s t (s.goto t .startCheck) none
  | startRefused (hpc : s.pc t = .startCheck) (hat : s.At .running) :
    Moves s t (s.unlock.goto t .idle) (some (.start false))
  | startChecked (hpc : s.pc t = .startCheck) (hat : s.At .created) :
    Moves s t (s.goto t .startUse) none
  | started {mServer} (hpc : s.pc t = .startUse) (hat : s.At .created)
    (hrun : mServer.isRunning = true) :
    Moves s t ({ s with
      mServer := some (s.resets, mServer)
      started := s.started ++ [s.resets] }.unlock.goto t .idle) (some (.start true))
  | stopRefused (hpc : s.pc t = .stopCheck) : Moves s t (s.goto t .idle) (some (.stop none))
  | stopChecked (hpc : s.pc t = .stopCheck) (hsome : s.mServer ≠ none) :
    Moves s t ({ s with lost := Function.update s.lost t false }.goto t .stopLock) none
  | stopLocked (hpc : s.pc t = .stopLock) (hfree : s.mServerMtx = none) :
    Moves s t ({ s with mServerMtx := some t }.goto t .stopUse) none
  | stopped {mServer} (hpc : s.pc t = .stopUse) (hat : s.At .running) :
    Moves s t ({ s with
      mServer := some (s.resets, mServer)
      stopped := s.stopped ++ [s.resets] }.goto t (.stopReset s.resets)) none
  | reset (hpc : s.pc t = .stopReset s.resets) (hat : s.At .finished) :
    Moves s t ({ s with
      mServer := none
      resets := s.resets + 1
      lost := fun _ => true }.unlock.goto t .idle) (some (.stop (some s.resets)))
  | addressed {found} (hpc : s.pc t = .addressUse) (hsome : s.mServer ≠ none) :
    Moves s t (s.goto t .idle) (some (.address found))
  | crashed (hpc : s.pc t = .stopUse ∨ s.pc t = .addressUse) (hnone : s.mServer = none) :
    Moves s t { s with crashed := true } none

omit [DecidableEq ι] in
theorem isRunning_of_running {s : Sys ι} (hat : s.At .running) : s.isRunning = true := by
  rcases hat with ⟨⟨mServer, hserver, hrun⟩, -⟩
  simp [Sys.isRunning, hserver, hrun]

omit [DecidableEq ι] in
theorem isRunning_of_created {s : Sys ι} (hat : s.At .created) : s.isRunning = false := by
  simp only [Sys.isRunning, hat.1]
  rfl

/-- The inversion lemma: behind the mutex the server is as each step expects it. -/
theorem act_moves {s s' : Sys ι} {t : ι} {built : Bool} {result : Option Result} (h : Core s)
    (hact : act s t built = some (s', result)) : Moves s t s' result := by
  unfold act at hact
  split at hact
  · cases hact
  · -- `startLock`
    rename_i hpc
    split at hact
    · cases hact
    · rename_i hfree
      cases hact
      exact .startLocked hpc hfree
  · -- `startCreate`
    rename_i hpc
    rcases h.finds hpc rfl with ⟨p, hat, hfinds⟩
    rcases hfinds with rfl | rfl
    · rw [hat.1] at hact
      cases hact
      exact .created hpc hat
    · rcases hat with ⟨⟨mServer, hserver, hrun⟩, hrest⟩
      rw [hserver] at hact
      cases hact
      exact .kept hpc ⟨⟨mServer, hserver, hrun⟩, hrest⟩
  · -- `startCheck`
    rename_i hpc
    rcases h.finds hpc rfl with ⟨p, hat, hfinds⟩
    rcases hfinds with rfl | rfl
    · rw [isRunning_of_created hat] at hact
      cases hact
      exact .startChecked hpc hat
    · rw [isRunning_of_running hat] at hact
      cases hact
      exact .startRefused hpc hat
  · -- `startUse`
    rename_i hpc
    rcases h.finds hpc rfl with ⟨p, hat, hfinds⟩
    obtain rfl : p = .created := hfinds
    rw [hat.1] at hact
    cases hact
    exact .started hpc hat rfl
  · -- `stopCheck`
    rename_i hpc
    split at hact
    · rename_i hrun
      cases hact
      refine .stopChecked hpc ?_
      intro hnone
      simp [Sys.isRunning, hnone] at hrun
    · cases hact
      exact .stopRefused hpc
  · -- `stopLock`
    rename_i hpc
    split at hact
    · cases hact
    · rename_i hfree
      cases hact
      exact .stopLocked hpc hfree
  · -- `stopUse`
    rename_i hpc
    rcases h.finds hpc rfl with ⟨p, hat, hfinds⟩
    rcases hfinds with rfl | rfl
    · split at hact
      · cases hact
        exact .crashed (Or.inl hpc) hat.1
      · rename_i hserver
        rw [hat.1] at hserver
        cases hserver
    · rcases hat with ⟨⟨mServer, hserver, hrun⟩, hrest⟩
      have hat : s.At .running := ⟨⟨mServer, hserver, hrun⟩, hrest⟩
      simp only [hserver, stop_of_isRunning hrun] at hact
      cases hset : mServer.server with
      | true =>
        simp only [hset, if_true] at hact
        cases hact
        exact .stopped hpc hat
      | false =>
        simp only [hset, Bool.false_eq_true, if_false] at hact
        cases hact
  · -- `stopReset`
    rename_i server hpc
    rcases h.finds hpc rfl with ⟨p, hat, hfinds⟩
    obtain ⟨rfl, rfl⟩ : server = s.resets ∧ p = .finished := hfinds
    cases hact
    exact .reset hpc hat
  · -- `addressUse`
    rename_i hpc
    split at hact
    · rename_i hnone
      cases hact
      exact .crashed (Or.inr hpc) hnone
    · rename_i hserver
      cases hact
      exact .addressed hpc (by simp [hserver])

/-! ## The invariant -/

/-- A stop between its check and its use of the server. -/
def Pc.Awaits (pc : Pc) : Prop := pc = .stopLock ∨ pc = .stopUse

/-- Where a call can be once it has changed `mServer`. -/
def Sys.Touches (s : Sys ι) (pc : Pc) : Prop :=
  pc ≠ .startLock ∧ pc ≠ .startCreate ∧ pc ≠ .stopCheck ∧ (pc = .startCheck → s.At .created)

structure Inv (s : Sys ι) : Prop where
  core : Core s
  stops : s.stops = List.range s.resets
  lost : ∀ t, (s.pc t).Awaits → (s.lost t = true ↔ s.mServer = none)
  touched : ∀ t, s.touched t = true → s.Touches (s.pc t)
  unchanged : ∀ r ∈ s.returned, r.1.IsFalse → r.2 = false

omit [DecidableEq ι] in
theorem init_inv : Inv ({} : Sys ι) where
  core := ⟨fun _ => by simp [Pc.holds], .absent, ⟨rfl, rfl, rfl, rfl⟩, Or.inl rfl⟩
  stops := rfl
  lost t ht := by rcases ht with ht | ht <;> cases ht
  touched t ht := by cases ht
  unchanged r hr := by cases hr

section Moves

variable {s s' : Sys ι} {t u : ι} {result : Option Result}

theorem Moves.core (h : Core s) (hm : Moves s t s' result) : Core s' := by
  cases hm with
  | startLocked hpc hfree => exact h.take hfree rfl fun p hp => hp
  | created hpc hat =>
    refine h.inside (p := .created) (by rw [hpc]; rfl) rfl rfl rfl ?_ (Or.inl rfl)
    rcases hat with ⟨-, hmade, hstarted, hstopped⟩
    exact ⟨by simp [Sys.goto, hmade], by simp [Sys.goto, hmade], hstarted, hstopped⟩
  | kept hpc hat => exact h.inside (p := .running) (by rw [hpc]; rfl) rfl rfl rfl hat (Or.inr rfl)
  | startRefused hpc hat =>
    exact h.leave (p := .running) (by rw [hpc]; rfl) rfl rfl hat (Or.inr rfl)
  | startChecked hpc hat =>
    exact h.inside (p := .created) (by rw [hpc]; rfl) rfl rfl rfl hat rfl
  | @started mServer hpc hat hrun =>
    refine h.leave (p := .running) (by rw [hpc]; rfl) rfl rfl ?_ (Or.inr rfl)
    rcases hat with ⟨-, hmade, hstarted, hstopped⟩
    refine ⟨⟨mServer, rfl, hrun⟩, hmade, ?_, hstopped⟩
    simp [Sys.goto, Sys.unlock, hstarted, List.range_succ]
  | stopRefused hpc => exact h.outside (by rw [hpc]; rfl) rfl
  | stopChecked hpc hsome =>
    have hcore : Core (s.goto t .stopLock) := h.outside (by rw [hpc]; rfl) rfl
    exact ⟨hcore.mtx, hcore.phase⟩
  | stopLocked hpc hfree => exact h.take hfree rfl fun p hp => hp
  | @stopped mServer hpc hat =>
    refine h.inside (p := .finished) (by rw [hpc]; rfl) rfl rfl rfl ?_ ⟨rfl, rfl⟩
    rcases hat with ⟨-, hmade, hstarted, hstopped⟩
    refine ⟨⟨mServer, rfl⟩, hmade, hstarted, ?_⟩
    simp [Sys.goto, hstopped, List.range_succ]
  | reset hpc hat =>
    refine h.leave (p := .absent) (by rw [hpc]; rfl) rfl rfl ?_ (Or.inl rfl)
    rcases hat with ⟨-, hmade, hstarted, hstopped⟩
    exact ⟨rfl, hmade, hstarted, hstopped⟩
  | addressed hpc hsome => exact h.outside (by rw [hpc]; rfl) rfl
  | crashed hpc hnone => exact ⟨h.mtx, h.phase⟩

omit [DecidableEq ι] in
theorem Core.unique (h : Core s) (ht : (s.pc t).holds = true) (hu : (s.pc u).holds = true) :
    u = t :=
  Option.some.inj (((h.mtx u).mpr hu).symm.trans ((h.mtx t).mpr ht))

/-- Only a step of its own moves a thread. -/
theorem Moves.pc_other (hm : Moves s t s' result) (hne : u ≠ t) : s'.pc u = s.pc u := by
  cases hm <;> simp [Sys.goto, Sys.unlock, hne]

/-- What a stop knows of the server stays true. -/
theorem Moves.lost (hinv : Inv s) (hm : Moves s t s' result) :
    ∀ u, (s'.pc u).Awaits → (s'.lost u = true ↔ s'.mServer = none) := by
  intro u hu
  -- where neither the server nor `lost` changes, a thread that awaits has awaited before
  have hkeep : (s.pc u).Awaits → s'.lost u = s.lost u → s'.mServer = s.mServer →
      (s'.lost u = true ↔ s'.mServer = none) := by
    intro hawaits hlost hserver
    rw [hlost, hserver]
    exact hinv.lost u hawaits
  have hother : u ≠ t → (s.pc u).Awaits := by
    intro hne
    rwa [hm.pc_other hne] at hu
  by_cases hut : u = t
  · subst hut
    cases hm with
    | stopChecked hpc hsome => simp [Sys.goto, hsome]
    | stopLocked hpc hfree => exact hkeep (Or.inl hpc) rfl rfl
    | crashed hpc hnone => exact hkeep hu rfl rfl
    | _ => simp [Sys.goto, Pc.Awaits] at hu
  · have hawaits := hother hut
    cases hm with
    | created hpc hat => simp [Sys.goto]
    | started hpc hat hrun =>
      have hlost := hinv.lost u hawaits
      simp only [hat.1, reduceCtorEq, iff_false] at hlost
      simpa [Sys.goto, Sys.unlock] using hlost
    | stopChecked hpc hsome =>
      refine hkeep hawaits ?_ rfl
      simp [Sys.goto, hut]
    | stopped hpc hat =>
      rcases hat with ⟨⟨mServer, hserver, -⟩, -⟩
      have hlost := hinv.lost u hawaits
      simp only [hserver, reduceCtorEq, iff_false] at hlost
      simpa [Sys.goto] using hlost
    | reset hpc hat => simp [Sys.goto, Sys.unlock]
    | _ => exact hkeep hawaits rfl rfl

/-- The thread that moves has changed `mServer` only where it may have. -/
theorem Moves.touches_self (hinv : Inv s) (hm : Moves s t s' result)
    (htouched : s.touched t = true ∨ s'.mServer ≠ s.mServer) : s'.Touches (s'.pc t) := by
  have hbefore : s'.mServer = s.mServer → s.Touches (s.pc t) := by
    intro hserver
    exact hinv.touched t (htouched.resolve_right (not_not_intro hserver))
  cases hm with
  | startLocked hpc hfree => exact absurd hpc (hbefore rfl).1
  | created hpc hat =>
    simp only [Sys.goto, Function.update_self, Sys.Touches]
    refine ⟨nofun, nofun, nofun, fun _ => ?_⟩
    rcases hat with ⟨-, hmade, hstarted, hstopped⟩
    exact ⟨by simp [hmade], by simp [hmade], hstarted, hstopped⟩
  | kept hpc hat => exact absurd hpc (hbefore rfl).2.1
  | crashed hpc hnone =>
    rcases hpc with hpc | hpc <;> simp [Sys.Touches, hpc]
  | _ => simp [Sys.goto, Sys.Touches]

/-- A thread without the mutex leaves the server as it is. -/
theorem Moves.at_of_outside (hm : Moves s t s' result) (hout : (s.pc t).holds = false)
    {p : Phase} (hat : s.At p) : s'.At p := by
  cases hm with
  | startLocked | stopRefused | stopChecked | stopLocked | addressed | crashed => exact hat
  | created hpc | kept hpc | startRefused hpc | startChecked hpc | started hpc | stopped hpc
  | reset hpc =>
    rw [hpc] at hout
    cases hout

/-- The server another thread has made is as it was. -/
theorem Moves.touches_other (hinv : Inv s) (hm : Moves s t s' result) (hne : u ≠ t)
    (h : s.Touches (s.pc u)) : s'.Touches (s'.pc u) := by
  rw [hm.pc_other hne]
  refine ⟨h.1, h.2.1, h.2.2.1, ?_⟩
  intro hcheck
  -- `u` has the mutex, so `t` does nothing that needs it
  have hout : (s.pc t).holds = false := by
    rw [← Bool.not_eq_true]
    intro hholds
    exact hne (hinv.core.unique hholds (by rw [hcheck]; rfl))
  exact hm.at_of_outside hout (h.2.2.2 hcheck)

/-- A call that returns false has changed nothing. -/
theorem Moves.unchanged (hinv : Inv s) {r : Result} (hm : Moves s t s' (some r))
    (hfalse : r.IsFalse) : s.touched t = false ∧ s'.mServer = s.mServer := by
  cases hm with
  | startRefused hpc hat =>
    refine ⟨?_, rfl⟩
    rw [← Bool.not_eq_true]
    intro htouched
    have hcreated := (hinv.touched t htouched).2.2.2 hpc
    have hrun := isRunning_of_running hat
    rw [isRunning_of_created hcreated] at hrun
    cases hrun
  | stopRefused hpc =>
    refine ⟨?_, rfl⟩
    rw [← Bool.not_eq_true]
    intro htouched
    exact (hinv.touched t htouched).2.2.1 hpc
  | started hpc hat hrun => cases hfalse
  | reset hpc hat => cases hfalse
  | addressed hpc hsome => exact hfalse.elim

/-- A server is destroyed by the stop that returns true. -/
theorem Moves.range_resets (hm : Moves s t s' result) :
    List.range s'.resets = List.range s.resets ++ (result.bind Result.stopped).toList := by
  cases hm with
  | reset hpc hat => simp [Sys.goto, Sys.unlock, Result.stopped, List.range_succ]
  | _ => simp [Sys.goto, Sys.unlock, Result.stopped]

end Moves

section Steps

variable {s s' : Sys ι}

/-- Another call begins. -/
theorem Inv.call (hinv : Inv s) {t : ι} (hidle : s.pc t = .idle) (call : Call) :
    Inv { s.goto t call.entry with touched := Function.update s.touched t false } where
  core := by
    have hcore : Core (s.goto t call.entry) :=
      hinv.core.outside (by rw [hidle]; rfl) (by cases call <;> rfl)
    exact ⟨hcore.mtx, hcore.phase⟩
  stops := hinv.stops
  lost u hu := by
    by_cases hut : u = t
    · subst hut
      cases call <;> simp [Sys.goto, Call.entry, Pc.Awaits] at hu
    · simp only [Sys.goto, Function.update_of_ne hut] at hu
      exact hinv.lost u hu
  touched u hu := by
    by_cases hut : u = t
    · subst hut
      simp at hu
    · simp only [Function.update_of_ne hut] at hu
      simp only [Sys.goto, Function.update_of_ne hut]
      exact hinv.touched u hu
  unchanged := hinv.unchanged

/-- A call goes on. -/
theorem Inv.move (hinv : Inv s) {t : ι} {result : Option Result} (hm : Moves s t s' result) :
    Inv (record s s' t result) where
  core := by
    have hcore := hm.core hinv.core
    exact ⟨hcore.mtx, hcore.phase⟩
  stops := by
    show ((s.returned ++ _).filterMap _) = List.range s'.resets
    rw [hm.range_resets, ← hinv.stops, List.filterMap_append]
    cases result with
    | none => rfl
    | some r => cases hr : r.stopped <;> simp [Sys.stops, hr]
  lost u hu := by
    have hlost := hm.lost hinv u hu
    exact hlost
  touched u hu := by
    by_cases hut : u = t
    · subst hut
      simp only [record, Function.update_self, Bool.or_eq_true, decide_eq_true_eq] at hu
      have htouches := hm.touches_self hinv hu
      exact htouches
    · simp only [record, Function.update_of_ne hut] at hu
      have htouches := hm.touches_other hinv hut (hinv.touched u hu)
      exact htouches
  unchanged r hr hfalse := by
    rcases List.mem_append.mp hr with hr | hr
    · exact hinv.unchanged r hr hfalse
    · cases result with
      | none => cases hr
      | some r' =>
        obtain rfl : r = _ := List.mem_singleton.mp hr
        rcases hm.unchanged hinv hfalse with ⟨htouched, hserver⟩
        simp [htouched, hserver]

/-- A step of a call is one of the moves. -/
theorem step_spec {t : ι} {built : Bool} (hinv : Inv s)
    (hstep : step s (.step t built) = some s') :
    s.crashed = false ∧ ∃ s1 result, Moves s t s1 result ∧ s' = record s s1 t result := by
  simp only [step] at hstep
  split at hstep
  · cases hstep
  · rename_i hcrashed
    rcases Option.map_eq_some_iff.mp hstep with ⟨⟨s1, result⟩, hact, rfl⟩
    exact ⟨by simpa using hcrashed, s1, result, act_moves hinv.core hact, rfl⟩

theorem step_inv {l : Lbl ι} (hinv : Inv s) (hstep : step s l = some s') : Inv s' := by
  cases l with
  | call t call =>
    simp only [step] at hstep
    split at hstep
    · cases hstep
    split at hstep
    · rename_i hidle
      cases hstep
      exact hinv.call hidle call
    · cases hstep
  | step t built =>
    rcases step_spec hinv hstep with ⟨-, s1, result, hm, rfl⟩
    exact hinv.move hm

/-- A call finds no server exactly when its step is not orderly. -/
theorem crashed_iff {l : Lbl ι} (hinv : Inv s) (hstep : step s l = some s') :
    s'.crashed = false ↔ Orderly s l := by
  cases l with
  | call t call =>
    refine iff_of_true ?_ trivial
    simp only [step] at hstep
    split at hstep
    · cases hstep
    · rename_i hcrashed
      split at hstep
      · cases hstep
        simpa [Sys.goto] using hcrashed
      · cases hstep
  | step t built =>
    rcases step_spec hinv hstep with ⟨hcrashed, s1, result, hm, rfl⟩
    -- `lost` and the counts say whether the server is there
    have hlost : s.pc t = .stopUse → (s.lost t = false ↔ s.mServer ≠ none) := by
      intro hpc
      rw [← Bool.not_eq_true, hinv.lost t (Or.inr hpc)]
    have hcount : s.resets < s.made ↔ s.mServer ≠ none := by
      rw [Ne, hinv.core.mServer_eq_none, not_not]
    by_cases huse : s.pc t = .stopUse ∨ s.pc t = .addressUse
    · have horderly : Orderly s (.step t built) ↔ s.mServer ≠ none := by
        simp only [Orderly, hcount]
        rcases huse with hpc | hpc
        · simp [hpc, hlost hpc]
        · simp [hpc]
      rw [horderly]
      cases hm with
      | stopped hpc hat =>
        rcases hat with ⟨⟨mServer, hserver, -⟩, -⟩
        exact iff_of_true hcrashed (by simp [hserver])
      | addressed hpc hsome => exact iff_of_true hcrashed hsome
      | crashed hpc hnone => exact iff_of_false (by simp [record]) (by simp [hnone])
      | _ => simp_all
    · rw [not_or] at huse
      refine iff_of_true ?_ ⟨fun h => absurd h huse.1, fun h => absurd h huse.2⟩
      cases hm with
      | crashed hpc hnone => exact (hpc.elim huse.1 huse.2).elim
      | _ => exact hcrashed

omit [DecidableEq ι] in
/-- What the invariant says of a run in which no call used a null server. -/
theorem Inv.safe (hinv : Inv s) (hcrashed : s.crashed = false) : Safe s where
  present := hcrashed
  distinct := by
    rw [hinv.stops]
    exact List.nodup_range
  stopped server hserver := by
    rw [hinv.stops, List.mem_range] at hserver
    rcases hinv.core.phase with ⟨p, hat, -⟩
    cases p with
    | absent =>
      rw [hat.2.2.1, hat.2.2.2, List.mem_range]
      exact ⟨hserver, hserver⟩
    | created =>
      rw [hat.2.2.1, hat.2.2.2, List.mem_range]
      exact ⟨hserver, hserver⟩
    | running =>
      rw [hat.2.2.1, hat.2.2.2, List.mem_range, List.mem_range]
      exact ⟨Nat.lt_succ_of_lt hserver, hserver⟩
    | finished =>
      rw [hat.2.2.1, hat.2.2.2, List.mem_range]
      exact ⟨Nat.lt_succ_of_lt hserver, Nat.lt_succ_of_lt hserver⟩
  running := by
    have hnone : ∀ n : Nat, (List.range n).filter (fun server => server ∉ List.range n) = [] := by
      intro n
      simp [List.filter_eq_nil_iff]
    rcases hinv.core.phase with ⟨p, hat, -⟩
    cases p with
    | absent =>
      rw [hat.2.2.1, hat.2.2.2, hnone]
      exact Nat.zero_le 1
    | created =>
      rw [hat.2.2.1, hat.2.2.2, hnone]
      exact Nat.zero_le 1
    | running =>
      rw [hat.2.2.1, hat.2.2.2, List.range_succ, List.filter_append, hnone]
      simp
    | finished =>
      rw [hat.2.2.1, hat.2.2.2, hnone]
      exact Nat.zero_le 1
  unchanged := hinv.unchanged

end Steps

/-- Calls are safe in every state of a run exactly when all steps are orderly. -/
theorem safe_iff (ls : List (Lbl ι)) :
    (spec ι).AllSteps (fun _ _ s' => Safe s') {} ls ↔
      (spec ι).AllSteps (fun s l _ => Orderly s l) {} ls := by
  refine (spec ι).allSteps_iff Inv ?_ ?_ init_inv ls
  · intro s l s' hinv hcond hstep
    have hinv' := step_inv hinv hstep
    exact ⟨hinv', hinv'.safe ((crashed_iff hinv hstep).mpr hcond)⟩
  · intro s l s' hinv hcond hstep hsafe
    exact hcond ((crashed_iff hinv hstep).mp hsafe.present)

/-- Two stops find the server running; the first one resets it, and the second one stops
nothing. -/
theorem safe_fails : ¬ ∀ ls : List (Lbl Bool),
    (spec Bool).AllSteps (fun _ _ s' => Safe s') {} ls := by
  intro h
  have hlast := (spec Bool).forall_allSteps_last h
    [.call true .start, .step true true, .step true true, .step true true, .step true true,
      .call true .stop, .step true true, .call false .stop, .step false true,
      .step true true, .step true true, .step true true, .step false true]
    (.step false true) rfl rfl
  exact absurd hlast.present (by decide)

end ClapRci.ServerCtrlThreads
