import ClapRci.Core.ProcessHandle
import ClapRci.Lib.Waiting
import ClapRci.Plugin.HostEvents
import ClapRci.Server.Handshake
import ClapRci.Server.PollRounds

/-!
# The host's calls on the GUI (`plugin/coreplugin.cpp`)

The main thread waits in these calls, for polling to start, for a client to push to, for an
answer and for the GUI process to end, while the server, its clients and the process do what
they like.

* `verifies_call`: no call verifies more than one event;
* `returns_iff`: a call returns exactly when, whatever it comes to wait for without a time
  limit, a later look finds it so.
-/

namespace ClapRci.GuiCalls

open EnqueueAuxiliaries (ClapParamInfo paramInfoEvent pushToMainQueueBlockingTry)
open ProcessHandle.Posix (ProcessHandlePrivate)

/-! ## The calls -/

/-- The rest of a call, from one wait to the next. -/
inductive Todo where
  | returned (ok : Bool)
  /-- `progressive_backoff_wait` for `isPolling()`. -/
  | waitPolling (next : Todo)
  /-- `pushToMainQueueBlocking(ev)`. -/
  | push (ev : ServerEventWrapper) (next : Todo)
  /-- `blockingVerifyEvent(e)`. -/
  | verify (e : Event) (verified failed : Todo)
  /-- `guiProc->terminateChild()`, which waits for the child it has killed. -/
  | terminateChild (next : Todo)
  /-- `guiProc` is reset, after the destructor has done that. -/
  | reset (next : Todo)

variable {κ : Type} [LinearOrder κ]

/-- The data shared with the server, the queue of the answers, the parameters, `guiProc`,
whether the child it has started is gone, the call under way and the verifications made. -/
structure Sys (κ : Type) [LinearOrder κ] where
  poll : PollRounds.Sys κ
  mBlockingClientEventQueue : BlkRingQueue.Allocated Event :=
    .ofCapacity Event 1 BlkRingQueue.Allocated.one_allocates
  params : List ClapParamInfo := []
  guiProc : Option ProcessHandlePrivate := none
  childEnded : Bool := false
  todo : Todo := .returned true
  verifications : Nat := 0

/-- What `guiCreate` finds: the server, the executable of the settings, the files, the two
arguments and the result of `fork()`. -/
structure Launch where
  isRunning : Bool
  executable : Option String
  fileExists : String → Bool
  args : List String
  fork : Int

/-- `enqueueAuxiliaries()`, and what follows. -/
def enqueueAuxiliaries (params : List ClapParamInfo) (next : Todo) : Todo :=
  params.foldr (fun p todo => .push (paramInfoEvent p) todo) next

/-- `guiCreate` once the child is started. -/
def guiCreated (params : List ClapParamInfo) : Todo :=
  .waitPolling <| .push { ev := .guiCreate, data := .mainSync {} } <|
    .verify .guiCreate (enqueueAuxiliaries params (.returned true))
      (.terminateChild (.returned false))

/-- `guiCreate(api, isFloating)`. -/
def guiCreate (l : Launch) (s : Sys κ) : Sys κ :=
  if !l.isRunning then { s with todo := .returned false }
  else if s.guiProc.isSome then { s with todo := .returned false }
  else
    let guiProc : ProcessHandlePrivate := {}
    match l.executable with
    | none => { s with guiProc := some guiProc, todo := .returned false }
    | some executable =>
      match guiProc.setExecutable l.fileExists executable with
      | (false, guiProc) => { s with guiProc := some guiProc, todo := .returned false }
      | (true, guiProc) =>
        match guiProc.setArguments l.args with
        | (false, guiProc) => { s with guiProc := some guiProc, todo := .returned false }
        | (true, guiProc) =>
          match guiProc.startChild l.fileExists l.fork with
          | (false, guiProc) => { s with guiProc := some guiProc, todo := .returned false }
          | (true, guiProc) =>
            { s with guiProc := some guiProc, childEnded := false, todo := guiCreated s.params }

/-- What the last three and `guiSetTransient` share. -/
def pushAndVerify (ev : ServerEventWrapper) : Todo :=
  .push ev (.verify ev.ev (.returned true) (.returned false))

/-- `guiSetTransient(window)`. -/
def guiSetTransient (window : Option Clap.Window) : Todo :=
  match window with
  | none => .returned false
  | some window =>
    match HostEvents.wid window with
    | none => .returned false
    | some wid => pushAndVerify { ev := .guiSetTransient, data := .mainSync { windowId := wid } }

/-- `guiShow()`. -/
def guiShow : Todo := pushAndVerify { ev := .guiShow, data := .mainSync {} }

/-- `guiHide()`. -/
def guiHide : Todo := pushAndVerify { ev := .guiHide, data := .mainSync {} }

/-- `guiDestroy()`, which returns nothing. -/
def guiDestroy : Todo :=
  .push { ev := .guiDestroy, data := .mainSync {} } <|
    .verify .guiDestroy (.reset (.returned true)) (.reset (.returned true))

/-- A call of the host. -/
inductive Call where
  | guiCreate (l : Launch)
  | guiSetTransient (window : Option Clap.Window)
  | guiShow
  | guiHide
  | guiDestroy

/-- The call begins. -/
def Sys.call (s : Sys κ) : Call → Sys κ
  | .guiCreate l => guiCreate l s
  | .guiSetTransient window => { s with todo := GuiCalls.guiSetTransient window }
  | .guiShow => { s with todo := GuiCalls.guiShow }
  | .guiHide => { s with todo := GuiCalls.guiHide }
  | .guiDestroy => { s with todo := GuiCalls.guiDestroy }

/-! ## Turns -/

/-- `waitpid` returns at once: there is no child, or it is gone. A child may outlive the
`SIGTERM` it is sent. -/
def Sys.childGone (s : Sys κ) : Bool :=
  s.guiProc.all (fun guiProc => !guiProc.isChildRunning) || s.childEnded

/-- Whether the wait of the call is over; a verification gives up in the end. -/
def Sys.ready (s : Sys κ) : Bool :=
  match s.todo with
  | .waitPolling _ => s.poll.data.pollRunning
  | .push _ _ => s.poll.data.isValid
  | .terminateChild _ | .reset _ => s.childGone
  | .returned _ | .verify _ _ _ => true

/-- The main thread evaluates its predicate, and goes on to the next wait when it is true. -/
def turn (s : Sys κ) : Sys κ :=
  match s.todo with
  | .returned _ => s
  | .waitPolling next => if s.poll.data.pollRunning then { s with todo := next } else s
  | .push ev next =>
    match pushToMainQueueBlockingTry s.poll.data ev with
    | (false, d) => { s with poll := { s.poll with data := d } }
    | (true, d) => { s with poll := { s.poll with data := d }, todo := next }
  | .verify e verified failed =>
    let (ok, queue) := Handshake.blockingVerifyEvent s.mBlockingClientEventQueue e
    { s with
      mBlockingClientEventQueue := queue
      todo := if ok then verified else failed
      verifications := s.verifications + 1 }
  | .terminateChild next =>
    if s.childGone then
      { s with
        guiProc := s.guiProc.map fun guiProc => { guiProc with mChildHandle := -1 }
        todo := next }
    else s
  | .reset next => if s.childGone then { s with guiProc := none, todo := next } else s

/-- What happens between two turns: anything around the shared data, an answer of a client, the
end of the child. -/
inductive Lbl (κ : Type) where
  | poll (l : PollRounds.Lbl κ)
  | clientEvent (e : Event)
  | childEnds

/-- What is not possible in a state does nothing. -/
def other (s : Sys κ) : Lbl κ → Sys κ
  | .poll l => { s with poll := (PollRounds.step s.poll l).getD s.poll }
  | .clientEvent e =>
    { s with
      mBlockingClientEventQueue :=
        (Handshake.blockingPushClientEvent s.mBlockingClientEventQueue e).2 }
  | .childEnds => { s with childEnded := true }

/-- The turns with the wait over that are left at most. -/
def Todo.turns : Todo → Nat
  | .returned _ => 0
  | .waitPolling next | .push _ next | .terminateChild next | .reset next => next.turns + 1
  | .verify _ verified failed => max verified.turns failed.turns + 1

/-- The verifications that are left at most. -/
def Todo.verifies : Todo → Nat
  | .returned _ => 0
  | .waitPolling next | .push _ next | .terminateChild next | .reset next => next.verifies
  | .verify _ verified failed => max verified.verifies failed.verifies + 1

theorem pushTry_eq (d : SharedData κ) (ev : ServerEventWrapper) :
    pushToMainQueueBlockingTry d ev =
      if d.isValid then (true, (d.pushMain ev).2) else (false, d) := by
  unfold pushToMainQueueBlockingTry
  cases d.isValid <;> rfl

/-- A turn with the wait not over leaves everything as it is. -/
theorem turn_of_not_ready {s : Sys κ} (h : s.ready = false) : turn s = s := by
  unfold Sys.ready at h
  unfold turn
  split at h
  · rename_i hcall
    simp [hcall, h]
  · rename_i ev next hcall
    rw [hcall]
    simp only [pushTry_eq, h]
    exact congrArg (fun todo => { s with todo := todo }) hcall.symm
  · rename_i hcall
    simp [hcall, h]
  · rename_i hcall
    simp [hcall, h]
  · cases h
  · cases h

/-- Any other turn brings the call on. -/
theorem turn_todo {s : Sys κ} (h : s.ready = true) :
    (turn s).todo.turns ≤ s.todo.turns - 1 ∧
      (turn s).verifications + (turn s).todo.verifies ≤ s.verifications + s.todo.verifies := by
  unfold Sys.ready at h
  unfold turn
  split at h
  · rename_i hcall
    simp [hcall, h, Todo.turns, Todo.verifies]
  · rename_i hcall
    simp [hcall, pushTry_eq, h, Todo.turns, Todo.verifies]
  · rename_i hcall
    simp [hcall, h, Todo.turns, Todo.verifies]
  · rename_i hcall
    simp [hcall, h, Todo.turns, Todo.verifies]
  · rename_i hcall
    simp [hcall, Todo.turns]
  · rename_i e verified failed hcall
    simp only [hcall, Todo.turns, Todo.verifies]
    split
    · omega
    · omega

/-- The main thread in a call. -/
def waiter (κ : Type) [LinearOrder κ] : Waiter (Sys κ) Todo where
  control := Sys.todo
  ready s := s.ready = true
  turn := turn
  rank := Todo.turns
  waits s h := by rw [turn_of_not_ready (Bool.not_eq_true _ ▸ h)]
  advances s h := (turn_todo h).1

/-- The states that the turns of the main thread find, with these events before each. -/
def behaviour (s : Sys κ) (env : Nat → List (Lbl κ)) : Nat → Sys κ :=
  (waiter κ).turns (fun n s => (env n).foldl other s) s

/-! ## What is promised -/

/-- The call returns, after so many turns, and has verified one event at most. -/
def Returns (s : Sys κ) (b : Nat → Sys κ) : Prop :=
  ∃ n ok, (b n).todo = .returned ok ∧ (b n).verifications ≤ s.verifications + 1

/-- The condition on a behaviour: from where the call waits for polling, a turn comes at which
polling is running; from where it waits to push, one at which the plugin has a stream; and from
where it waits for the child it has killed, one at which the child is gone. -/
structure Served (b : Nat → Sys κ) : Prop where
  polling : ∀ n next, (b n).todo = .waitPolling next →
    ∃ m, n ≤ m ∧ (b m).poll.data.pollRunning = true
  push : ∀ n ev next, (b n).todo = .push ev next →
    ∃ m, n ≤ m ∧ (b m).poll.data.isValid = true
  child : ∀ n next, (b n).todo = .terminateChild next ∨ (b n).todo = .reset next →
    ∃ m, n ≤ m ∧ (b m).childGone = true

/-! ## Verifications -/

theorem other_keeps (s : Sys κ) (l : Lbl κ) :
    (other s l).todo = s.todo ∧ (other s l).verifications = s.verifications := by
  cases l <;> exact ⟨rfl, rfl⟩

theorem others_keep (s : Sys κ) (ls : List (Lbl κ)) :
    (ls.foldl other s).todo = s.todo ∧
      (ls.foldl other s).verifications = s.verifications := by
  induction ls generalizing s with
  | nil => exact ⟨rfl, rfl⟩
  | cons l ls ih =>
    rcases other_keeps s l with ⟨htodo, hverifications⟩
    rcases ih (other s l) with ⟨htodo', hverifications'⟩
    exact ⟨htodo'.trans htodo, hverifications'.trans hverifications⟩

theorem behaves (s : Sys κ) (env : Nat → List (Lbl κ)) :
    (waiter κ).Behaves (behaviour s env) :=
  (waiter κ).turns_behaves (fun n s => (others_keep s (env n)).1) s

/-- Verifications made are taken from those that were left. -/
theorem verifications_add_le (s : Sys κ) (env : Nat → List (Lbl κ)) (n : Nat) :
    (behaviour s env n).verifications + (behaviour s env n).todo.verifies ≤
      s.verifications + s.todo.verifies := by
  induction n with
  | zero =>
    rcases others_keep s (env 0) with ⟨htodo, hverifications⟩
    exact Nat.le_of_eq (congrArg₂ _ hverifications (congrArg _ htodo))
  | succ n ih =>
    rcases others_keep (turn (behaviour s env n)) (env (n + 1)) with ⟨htodo, hverifications⟩
    refine Nat.le_trans (Nat.le_of_eq (congrArg₂ _ hverifications (congrArg _ htodo))) ?_
    refine Nat.le_trans ?_ ih
    cases hready : (behaviour s env n).ready with
    | false => rw [turn_of_not_ready hready]
    | true => exact (turn_todo hready).2

theorem verifies_enqueueAuxiliaries (params : List ClapParamInfo) (next : Todo) :
    (enqueueAuxiliaries params next).verifies = next.verifies := by
  induction params with
  | nil => rfl
  | cons p params ih => exact ih

theorem verifies_call (s : Sys κ) (c : Call) : (s.call c).todo.verifies ≤ 1 := by
  cases c with
  | guiCreate l =>
    simp only [Sys.call, guiCreate]
    repeat' split
    all_goals try exact Nat.zero_le _
    simp [guiCreated, Todo.verifies, verifies_enqueueAuxiliaries]
  | guiSetTransient window =>
    simp only [Sys.call, guiSetTransient]
    repeat' split
    · exact Nat.zero_le _
    · exact Nat.zero_le _
    · exact Nat.le_refl _
  | guiShow => exact Nat.le_refl _
  | guiHide => exact Nat.le_refl _
  | guiDestroy => exact Nat.le_refl _

theorem verifications_call (s : Sys κ) (c : Call) :
    (s.call c).verifications = s.verifications := by
  cases c with
  | guiCreate l =>
    simp only [Sys.call, guiCreate]
    repeat' split
    all_goals rfl
  | _ => rfl

/-! ## Returning -/

/-- A call is at its end when it has returned. -/
theorem finished_iff {s : Sys κ} : (waiter κ).Finished s ↔ ∃ ok, s.todo = .returned ok := by
  show s.todo.turns = 0 ↔ _
  cases s.todo <;> simp [Todo.turns]

/-- What the call waits for comes at a later turn, where it still waits. -/
theorem Served.exists_ready {s : Sys κ} {env : Nat → List (Lbl κ)}
    (h : Served (behaviour s env)) (n : Nat) : ∃ m, n ≤ m ∧
      (behaviour s env m).todo = (behaviour s env n).todo ∧ (behaviour s env m).ready = true := by
  have hlater : ∃ m, n ≤ m ∧ ((behaviour s env m).todo = (behaviour s env n).todo →
      (behaviour s env m).ready = true) := by
    cases htodo : (behaviour s env n).todo with
    | returned ok => exact ⟨n, Nat.le_refl _, fun hsame => by simp [Sys.ready, hsame]⟩
    | verify e verified failed =>
      exact ⟨n, Nat.le_refl _, fun hsame => by simp [Sys.ready, hsame]⟩
    | waitPolling next =>
      rcases h.polling n next htodo with ⟨m, hnm, hm⟩
      exact ⟨m, hnm, fun hsame => by simp [Sys.ready, hsame, hm]⟩
    | push ev next =>
      rcases h.push n ev next htodo with ⟨m, hnm, hm⟩
      exact ⟨m, hnm, fun hsame => by simp [Sys.ready, hsame, hm]⟩
    | terminateChild next =>
      rcases h.child n next (Or.inl htodo) with ⟨m, hnm, hm⟩
      exact ⟨m, hnm, fun hsame => by simp [Sys.ready, hsame, hm]⟩
    | reset next =>
      rcases h.child n next (Or.inr htodo) with ⟨m, hnm, hm⟩
      exact ⟨m, hnm, fun hsame => by simp [Sys.ready, hsame, hm]⟩
  rcases hlater with ⟨m, hnm, hm⟩
  exact (behaves s env).exists_ready hnm hm

theorem served_of_exists_ready {s : Sys κ} {env : Nat → List (Lbl κ)}
    (h : ∀ n, ¬ (waiter κ).Finished (behaviour s env n) → ∃ m, n ≤ m ∧
      (behaviour s env m).todo = (behaviour s env n).todo ∧
        (behaviour s env m).ready = true) : Served (behaviour s env) := by
  have hready : ∀ n, (∀ ok, (behaviour s env n).todo ≠ .returned ok) → ∃ m, n ≤ m ∧
      (behaviour s env m).todo = (behaviour s env n).todo ∧ (behaviour s env m).ready = true := by
    intro n hn
    apply h n
    rw [finished_iff, not_exists]
    exact hn
  constructor
  · intro n next htodo
    rcases hready n (by simp [htodo]) with ⟨m, hnm, hsame, hm⟩
    simp only [Sys.ready, hsame, htodo] at hm
    exact ⟨m, hnm, hm⟩
  · intro n ev next htodo
    rcases hready n (by simp [htodo]) with ⟨m, hnm, hsame, hm⟩
    simp only [Sys.ready, hsame, htodo] at hm
    exact ⟨m, hnm, hm⟩
  · rintro n next (htodo | htodo)
    · rcases hready n (by simp [htodo]) with ⟨m, hnm, hsame, hm⟩
      simp only [Sys.ready, hsame, htodo] at hm
      exact ⟨m, hnm, hm⟩
    · rcases hready n (by simp [htodo]) with ⟨m, hnm, hsame, hm⟩
      simp only [Sys.ready, hsame, htodo] at hm
      exact ⟨m, hnm, hm⟩

/-- From any state and whatever happens meanwhile, a call of the host returns, with one
verification at most, exactly when all it waits for without a time limit comes about. -/
theorem returns_iff (s : Sys κ) (c : Call) (env : Nat → List (Lbl κ)) :
    Returns s (behaviour (s.call c) env) ↔ Served (behaviour (s.call c) env) := by
  have hfinishes := (behaves (s.call c) env).finishes_iff
  constructor
  · rintro ⟨n, ok, hreturned, -⟩
    exact served_of_exists_ready (hfinishes.mp ⟨n, finished_iff.mpr ⟨ok, hreturned⟩⟩)
  · intro hserved
    rcases hfinishes.mpr fun n _ => hserved.exists_ready n with ⟨n, hn⟩
    rcases finished_iff.mp hn with ⟨ok, hreturned⟩
    refine ⟨n, ok, hreturned, ?_⟩
    have hle := verifications_add_le (s.call c) env n
    have hcall := verifies_call s c
    have hnone : (s.call c).verifications = s.verifications := verifications_call s c
    omega

/-! ## Without clients -/

/-- A client connects. -/
def Lbl.connects : Lbl κ → Bool
  | .poll (.addStream _) => true
  | _ => false

/-- No stream is left, and polling has not started or has ended. -/
structure Deserted (s : Sys κ) : Prop where
  streams : s.poll.data.streams.toList = []
  pollRunning : s.poll.data.pollRunning = false

/-- Nothing but a client that connects changes that. -/
theorem Deserted.poll {s : Sys κ} (h : Deserted s) {l : PollRounds.Lbl κ}
    (hl : (Lbl.poll l).connects = false) {poll : PollRounds.Sys κ}
    (hstep : PollRounds.step s.poll l = some poll) : Deserted { s with poll := poll } := by
  cases PollRounds.step_moves hstep with
  | @ended ok captured hpc hends =>
    cases captured
    · exact ⟨h.streams, h.pollRunning⟩
    · exact ⟨h.streams, rfl⟩
  | addStream => cases hl
  | @removeStream stream hpc =>
    refine ⟨List.eq_nil_iff_forall_not_mem.mpr ?_, h.pollRunning⟩
    intro st hst
    have hmem := (OrdMap.mem_keys_erase.mp hst).1
    exact List.eq_nil_iff_forall_not_mem.mp h.streams st hmem
  | @tryStartPolling cq hpc =>
    rcases s.poll.data.tryStartPolling_cases cq with heq | ⟨cq', -, hvalid, -, -⟩
    · rw [heq]
      exact ⟨h.streams, h.pollRunning⟩
    · -- polling starts for a stream that is there
      simp [SharedData.isValid, h.streams] at hvalid
  | stopPoll =>
    refine ⟨?_, ?_⟩
    · simpa using h.streams
    · simpa using h.pollRunning
  | endElsewhere => exact ⟨h.streams, rfl⟩
  | _ => exact ⟨h.streams, h.pollRunning⟩

theorem Deserted.other {s : Sys κ} (h : Deserted s) {l : Lbl κ} (hl : l.connects = false) :
    Deserted (GuiCalls.other s l) := by
  cases l with
  | clientEvent e => exact ⟨h.streams, h.pollRunning⟩
  | childEnds => exact ⟨h.streams, h.pollRunning⟩
  | poll l =>
    simp only [GuiCalls.other]
    cases hstep : PollRounds.step s.poll l with
    | none => exact h
    | some poll => exact h.poll hl hstep

theorem Deserted.others {s : Sys κ} (h : Deserted s) {ls : List (Lbl κ)}
    (hls : ∀ l ∈ ls, l.connects = false) : Deserted (ls.foldl GuiCalls.other s) := by
  induction ls generalizing s with
  | nil => exact h
  | cons l ls ih =>
    exact ih (h.other (hls l List.mem_cons_self)) fun l' hl' => hls l' (List.mem_cons_of_mem _ hl')

/-- A call that waits for polling or for a stream then waits for ever, unless a client
connects. -/
theorem Deserted.waits_forever {s : Sys κ} (h : Deserted s) {env : Nat → List (Lbl κ)}
    (henv : ∀ n, ∀ l ∈ env n, l.connects = false)
    (hwaits : (∃ next, s.todo = .waitPolling next) ∨ ∃ ev next, s.todo = .push ev next) (n : Nat) :
    Deserted (behaviour s env n) ∧ (behaviour s env n).todo = s.todo := by
  have hnot : ∀ s' : Sys κ, Deserted s' → s'.todo = s.todo → turn s' = s' := by
    intro s' h' hsame
    refine turn_of_not_ready ?_
    rcases hwaits with ⟨next, hwaits⟩ | ⟨ev, next, hwaits⟩
    · simp [Sys.ready, hsame, hwaits, h'.pollRunning]
    · simp [Sys.ready, hsame, hwaits, SharedData.isValid, h'.streams]
  induction n with
  | zero => exact ⟨h.others (henv 0), (others_keep s (env 0)).1⟩
  | succ n ih =>
    have hturn := hnot _ ih.1 ih.2
    show Deserted ((env (n + 1)).foldl GuiCalls.other (turn (behaviour s env n))) ∧
      ((env (n + 1)).foldl GuiCalls.other (turn (behaviour s env n))).todo = s.todo
    rw [hturn]
    exact ⟨ih.1.others (henv (n + 1)), (others_keep _ _).1.trans ih.2⟩

/-- The server runs, and the GUI process is started. -/
def launch : Launch where
  isRunning := true
  executable := some "gui"
  fileExists _ := true
  args := ["localhost:0", "0"]
  fork := 7

/-- It crashes before it connects, and nothing else happens. -/
def crash : Nat → List (Lbl Nat) := fun _ => [.childEnds]

/-- The host opens the GUI of a new plugin, and waits for polling for ever. -/
theorem returns_fails : ¬ ∀ (s : Sys Nat) (c : Call) (env : Nat → List (Lbl Nat)),
    Returns s (behaviour (s.call c) env) := by
  intro h
  let s : Sys Nat := { poll := PollRounds.init Nat 1 }
  rcases h s (.guiCreate launch) crash with ⟨n, ok, hreturned, -⟩
  have hdeserted : Deserted (s.call (.guiCreate launch)) := ⟨rfl, rfl⟩
  have henv : ∀ n, ∀ l ∈ crash n, l.connects = false := by
    intro n l hl
    rw [List.mem_singleton.mp hl]
    rfl
  have hwaits := (hdeserted.waits_forever henv (Or.inl ⟨_, rfl⟩) n).2
  cases hwaits.symm.trans hreturned

end ClapRci.GuiCalls
