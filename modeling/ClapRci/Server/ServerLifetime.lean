import ClapRci.Lib.ActionSystem
import ClapRci.Server.ServerCtrl

/-!
# The life of a server (`server/server.cpp`)

A `Server` from its constructor to its destructor, with the handlers and threads it makes.
`start` enters the state `RUNNING` before the steps that can fail, does not look at what
`BuildAndStart` returns, and the calls after it go by the state alone.

`trustworthy_iff`: the state says what is there in a whole run exactly when `BuildAndStart`
returns a server to every `start` that gets to it.
-/

namespace ClapRci

/-- A `CqEventHandler` of the server: whether its queue was shut down and drained. -/
structure ServerCq where
  shutdown : Bool := false

/-- A thread of the server: the position of the handler whose `run` it executes. -/
structure ServerThread where
  serves : Nat
  joinable : Bool := true

/-- The members of `Server`; of `server` it is whether the pointer is set. -/
structure ServerMembers where
  state : Server.State := .CREATE
  server : Bool := false
  cqHandlers : List ServerCq := []
  threads : List ServerThread := []

namespace ServerMembers

/-- `PosStreamCq`. -/
def PosStreamCq : Nat := 0

def isRunning (s : ServerMembers) : Bool := s.state = .RUNNING

/-- `cqHandlers.emplace_back`, with a new completion queue. -/
def addHandler (s : ServerMembers) : ServerMembers :=
  { s with cqHandlers := s.cqHandlers ++ [({} : ServerCq)] }

/-- `threads.emplace_back`, to run the handler at this position. -/
def launch (s : ServerMembers) (pos : Nat) : ServerMembers :=
  { s with threads := s.threads ++ [({ serves := pos } : ServerThread)] }

/-- `start()`; `built` says whether `BuildAndStart` returns a server. -/
def start (s : ServerMembers) (built : Bool) : Bool × ServerMembers :=
  if s.state ≠ .CREATE then (false, s)
  else
    let s := { s with state := .RUNNING }
    let s := s.addHandler.addHandler
    -- whether this is a null pointer is not looked at
    let s := { s with server := built }
    (true, (s.launch PosStreamCq).launch 1)

/-- `stop()`; `none` where `server->Shutdown()` follows a null pointer. A thread ends when the
queue it serves is shut down, and is then joined. -/
def stop (s : ServerMembers) : Option (Bool × ServerMembers) :=
  if !s.isRunning then some (false, s)
  else if !s.server then none
  else
    some (true, { s with
      cqHandlers := s.cqHandlers.map fun c => { c with shutdown := true }
      threads := s.threads.map fun j => { j with joinable := false }
      state := .FINISHED })

/-- `~Server()`; `none` as for `stop()`. -/
def destroy (s : ServerMembers) : Option Unit :=
  if s.isRunning then s.stop.map fun _ => () else some ()

/-! ## The server as its controller sees it -/

/-- The members that `ServerCtrl` depends on. -/
def toServer (s : ServerMembers) : Server where
  state := s.state
  server := s.server
  cqHandlers := s.cqHandlers.length
  threads := s.threads.length

theorem start_toServer (s : ServerMembers) (built : Bool) :
    s.toServer.start built = ((s.start built).1, (s.start built).2.toServer) := by
  by_cases hstate : s.state = .CREATE
  · simp [start, Server.start, toServer, hstate, addHandler, launch]
  · simp [start, Server.start, toServer, hstate]

theorem stop_toServer (s : ServerMembers) :
    s.toServer.stop = s.stop.map fun r => (r.1, r.2.toServer) := by
  unfold stop Server.stop
  by_cases hrun : s.isRunning
  · by_cases hserver : s.server
    · simp [hrun, hserver, toServer, Server.isRunning, of_decide_eq_true hrun]
    · simp [hrun, hserver, toServer, Server.isRunning, of_decide_eq_true hrun]
  · have hstate : s.state ≠ .RUNNING := fun h => hrun (decide_eq_true h)
    simp [hrun, toServer, Server.isRunning, hstate]

/-- Both handlers are there, and each has a thread that serves it. -/
def Served (s : ServerMembers) : Prop :=
  s.cqHandlers.length = 2 ∧ ∀ i < 2, ∃ j ∈ s.threads, j.serves = i ∧ j.joinable = true

end ServerMembers

namespace ServerLifetime

/-- A server: alive, destroyed, or the process ended by a null pointer. -/
inductive Life where
  | alive (s : ServerMembers)
  | destroyed
  | crashed

/-- What is done with a server. -/
inductive Lbl where
  | start (built : Bool)
  | stop
  | isRunning
  | destroy

/-- A call on a server that is alive. -/
def step (x : Life) (l : Lbl) : Option Life :=
  match x with
  | .destroyed => none
  | .crashed => none
  | .alive s =>
    match l with
    | .start built => some (.alive (s.start built).2)
    | .stop =>
      match s.stop with
      | none => some .crashed
      | some (_, s) => some (.alive s)
    | .isRunning => some (.alive s)
    | .destroy =>
      match s.destroy with
      | none => some .crashed
      | some () => some .destroyed

/-- All lives of a server. -/
def spec : ActionSystem.Spec Life Lbl where
  Init x := x = .alive {}
  step := step

/-- What is promised of a step. -/
structure Trustworthy (x : Life) (l : Lbl) (x' : Life) : Prop where
  /-- `start` returns true only if it has started a gRPC server. -/
  started : ∀ s built, x = .alive s → l = .start built → (s.start built).1 = true →
    s.state = .CREATE ∧ built = true
  /-- One that could not start it leaves the server not running. -/
  failed : ∀ s s', x = .alive s → l = .start false → s.state = .CREATE → x' = .alive s' →
    s'.isRunning = false
  /-- What is running has its gRPC server, and its handlers are served. -/
  running : ∀ s', x' = .alive s' → s'.isRunning = true → s'.server = true ∧ s'.Served
  /-- No absent server is used. -/
  safe : x' ≠ .crashed

/-- The condition on a step: a `start` that gets to `BuildAndStart` gets a server from it. -/
def Built (x : Life) : Lbl → Prop
  | .start built => ∀ s, x = .alive s → s.state = .CREATE → built = true
  | _ => True

/-! ## The invariant -/

/-- A server that was not started has no parts yet; one that is running has them all. -/
structure Inv (s : ServerMembers) : Prop where
  create : s.state = .CREATE → s.cqHandlers = [] ∧ s.threads = []
  running : s.state = .RUNNING → s.server = true ∧ s.Served

/-- The invariant of a server that is alive. -/
def AliveInv (x : Life) : Prop := x ≠ .crashed ∧ ∀ s, x = .alive s → Inv s

theorem init_inv : Inv {} where
  create := fun _ => ⟨rfl, rfl⟩
  running := by
    intro h
    cases h

section Steps

variable {s s' : ServerMembers} {built ok : Bool}

theorem start_of_ne (h : s.state ≠ .CREATE) : s.start built = (false, s) := by
  simp [ServerMembers.start, h]

/-- A first `start` makes everything but the server that `BuildAndStart` may refuse. -/
theorem Inv.start_create (h : Inv s) (hstate : s.state = .CREATE) :
    (s.start built).1 = true ∧ (s.start built).2.state = .RUNNING ∧
      (s.start built).2.server = built ∧ (s.start built).2.Served := by
  obtain ⟨hcqs, hthreads⟩ := h.create hstate
  simp only [ServerMembers.start, hstate, ServerMembers.addHandler, ServerMembers.launch, hcqs,
    hthreads, ServerMembers.Served]
  refine ⟨rfl, rfl, rfl, rfl, ?_⟩
  intro i hi
  rcases Nat.lt_succ_iff_lt_or_eq.mp hi with h0 | h1
  · exact ⟨⟨0, true⟩, List.mem_cons_self, (Nat.lt_one_iff.mp h0).symm, rfl⟩
  · exact ⟨⟨1, true⟩, List.mem_cons_of_mem _ List.mem_cons_self, h1.symm, rfl⟩

theorem Inv.start (h : Inv s) (hbuilt : s.state = .CREATE → built = true) :
    Inv (s.start built).2 := by
  by_cases hstate : s.state = .CREATE
  · obtain ⟨_, hrunning, hserver, hserved⟩ := @Inv.start_create s built h hstate
    constructor
    · intro hcreate
      rw [hrunning] at hcreate
      cases hcreate
    · intro _
      exact ⟨hserver.trans (hbuilt hstate), hserved⟩
  · rw [start_of_ne hstate]
    exact h

/-- `stop` finds the server it needs, and what it leaves is not running. -/
theorem Inv.stop_eq (h : Inv s) :
    ∃ ok s', s.stop = some (ok, s') ∧ Inv s' ∧ s'.isRunning = false := by
  by_cases hrun : s.isRunning = true
  · have hstate : s.state = .RUNNING := of_decide_eq_true hrun
    have hserver := (h.running hstate).1
    unfold ServerMembers.stop
    rw [hrun, hserver]
    refine ⟨true, _, rfl, ?_, rfl⟩
    constructor
    · intro hcreate
      cases hcreate
    · intro hrunning
      cases hrunning
  · rw [Bool.not_eq_true] at hrun
    exact ⟨false, s, by simp [ServerMembers.stop, hrun], h, hrun⟩

theorem Inv.destroy_eq (h : Inv s) : s.destroy = some () := by
  obtain ⟨ok, s', hstop, _⟩ := h.stop_eq
  unfold ServerMembers.destroy
  split
  · rw [hstop]
    rfl
  · rfl

end Steps

variable {x x' : Life} {l : Lbl}

/-- From a good state a step that meets the condition leads to a good one. -/
theorem step_inv (hinv : AliveInv x) (hbuilt : Built x l) (hstep : step x l = some x') :
    AliveInv x' := by
  cases x with
  | destroyed => cases hstep
  | crashed => cases hstep
  | alive s =>
    have h := hinv.2 s rfl
    cases l with
    | start built =>
      cases hstep
      refine ⟨by simp, ?_⟩
      rintro s' ⟨⟩
      exact h.start fun hstate => hbuilt s rfl hstate
    | stop =>
      obtain ⟨ok, s', hstop, hinv', _⟩ := h.stop_eq
      simp only [step, hstop, Option.some.injEq] at hstep
      subst hstep
      refine ⟨by simp, ?_⟩
      rintro s'' ⟨⟩
      exact hinv'
    | isRunning =>
      cases hstep
      exact hinv
    | destroy =>
      simp only [step, h.destroy_eq, Option.some.injEq] at hstep
      subst hstep
      refine ⟨by simp, ?_⟩
      rintro s' ⟨⟩

theorem step_trustworthy (hinv : AliveInv x) (hbuilt : Built x l)
    (hstep : step x l = some x') : Trustworthy x l x' := by
  have hinv' := step_inv hinv hbuilt hstep
  constructor
  · rintro s built rfl rfl hret
    by_cases hstate : s.state = .CREATE
    · exact ⟨hstate, hbuilt s rfl hstate⟩
    · rw [start_of_ne hstate] at hret
      cases hret
  · rintro s s' rfl rfl hstate rfl
    cases hbuilt s rfl hstate
  · intro s' halive hrun
    exact (hinv'.2 s' halive).running (of_decide_eq_true hrun)
  · exact hinv'.1

/-- In a life of a server every call keeps its promise exactly when `BuildAndStart` never
returns null to it. -/
theorem trustworthy_iff (ls : List Lbl) :
    spec.AllSteps Trustworthy (.alive {}) ls ↔
      spec.AllSteps (fun x l _ => Built x l) (.alive {}) ls := by
  refine spec.allSteps_iff AliveInv ?_ ?_ ?_ ls
  · intro x l x' hinv hbuilt hstep
    exact ⟨step_inv hinv hbuilt hstep, step_trustworthy hinv hbuilt hstep⟩
  · -- a null pointer from `BuildAndStart`: `start` returns true all the same
    intro x l x' hinv hnot hstep htrust
    apply hnot
    cases l with
    | start built =>
      intro s halive hstate
      have h := hinv.2 s halive
      exact (htrust.started s built halive rfl (h.start_create hstate).1).2
    | stop => trivial
    | isRunning => trivial
    | destroy => trivial
  · refine ⟨by simp, ?_⟩
    rintro s ⟨⟩
    exact init_inv

/-- A port in use: `start` returns true, and the destructor follows the null pointer. -/
theorem trustworthy_fails : ¬∀ ls, spec.AllSteps Trustworthy (.alive {}) ls := by
  intro h
  have hlast := spec.forall_allSteps_last h [.start false] .destroy rfl rfl
  exact hlast.safe rfl

end ServerLifetime

end ClapRci
