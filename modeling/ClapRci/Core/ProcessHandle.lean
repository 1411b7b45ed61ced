import ClapRci.Lib.ActionSystem

/-!
# Child processes on POSIX (`core/processhandle.cpp`)

One `ProcessHandle` with the operating system behind it: calls in any order, and a child
that may end in any way at any moment. What the system answers is part of the labels.

* `unwrapStatus_raw`: the number of a raw wait status;
* `reports_iff`: the runs in which the handle is in line with its child.
-/

namespace ClapRci.ProcessHandle

/-! ## Wait statuses -/

/-- A raw wait status, an `int`. -/
abbrev RawStatus := BitVec 32

/-- The number of a signal that ends a process: seven bits, neither 0 nor 0x7f. -/
structure Signal where
  number : BitVec 7
  ends : number ≠ 0#7 ∧ number ≠ 127#7
deriving DecidableEq

/-- How a process ends: it exits, or a signal ends it, with or without a core dump. An
`execv` that fails is an exit with code 1. -/
inductive Ending where
  | exited (code : BitVec 8)
  | signaled (sig : Signal) (core : Bool)
deriving DecidableEq

/-- The raw status that `waitpid` stores. -/
def Ending.raw : Ending → RawStatus
  | .exited code => code.setWidth 32 <<< 8
  | .signaled sig core => sig.number.setWidth 32 ||| (if core then 0x80#32 else 0#32)

def WTERMSIG (status : RawStatus) : RawStatus := status &&& 0x7f#32

def WIFEXITED (status : RawStatus) : Bool := WTERMSIG status == 0#32

def WEXITSTATUS (status : RawStatus) : RawStatus := (status &&& 0xff00#32) >>> 8

def WIFSIGNALED (status : RawStatus) : Bool :=
  !(WTERMSIG status == 0#32) && !(WTERMSIG status == 0x7f#32)

def unwrapStatus (rawStatus : RawStatus) : Option Int :=
  if WIFEXITED rawStatus then some (WEXITSTATUS rawStatus).toInt
  else if WIFSIGNALED rawStatus then some (WTERMSIG rawStatus).toInt
  else none

/-- The number that stands for an ending. -/
def Ending.number : Ending → Int
  | .exited code => code.toNat
  | .signaled sig _ => sig.number.toNat

theorem unwrapStatus_exited : ∀ code : BitVec 8,
    unwrapStatus (Ending.exited code).raw = some (Ending.exited code).number := by
  decide +kernel

theorem unwrapStatus_setWidth : ∀ (number : BitVec 7) (core : Bool),
    number ≠ 0#7 → number ≠ 127#7 →
    unwrapStatus (number.setWidth 32 ||| (if core then 0x80#32 else 0#32)) =
      some (number.toNat : Int) := by
  decide +kernel

/-- The raw status of every ending unwraps to its number. -/
theorem unwrapStatus_raw (e : Ending) : unwrapStatus e.raw = some e.number := by
  cases e with
  | exited code => exact unwrapStatus_exited code
  | signaled sig core => exact unwrapStatus_setWidth sig.number core sig.ends.1 sig.ends.2

/-! ## The handle on POSIX -/

namespace Posix

/-- The calls to the operating system that name a process. -/
inductive SysCall where
  | kill (pid : Int)
  | waitpid (pid : Int)
deriving DecidableEq

def SysCall.pid : SysCall → Int
  | .kill pid | .waitpid pid => pid

/-- What `waitpid` returns and stores. -/
structure WaitResult where
  result : Int
  status : RawStatus

/-- `ProcessHandlePrivate`. -/
structure ProcessHandlePrivate where
  mPath : String := ""
  mArgs : List String := []
  mChildHandle : Int := -1
deriving DecidableEq

/-- What a call that may report the end of the child returns, leaves and asks for. -/
structure Outcome where
  value : Option Int
  handle : ProcessHandlePrivate
  issued : List SysCall

namespace ProcessHandlePrivate

variable (d : ProcessHandlePrivate)

def isChildRunning : Bool := d.mChildHandle != -1

def isValid (fileExists : String → Bool) : Bool :=
  !d.mPath.isEmpty && fileExists d.mPath && !d.isChildRunning

def setArguments (args : List String) : Bool × ProcessHandlePrivate :=
  if d.isChildRunning then (false, d) else (true, { d with mArgs := args })

def setExecutable (fileExists : String → Bool) (path : String) : Bool × ProcessHandlePrivate :=
  if d.isChildRunning || !fileExists path then (false, d) else (true, { d with mPath := path })

def clearArguments : ProcessHandlePrivate := { d with mArgs := [] }

/-- `startChild`, in the parent; `fork` is what `fork()` returns there. -/
def startChild (fileExists : String → Bool) (fork : Int) : Bool × ProcessHandlePrivate :=
  if !d.isValid fileExists then (false, d)
  else if fork < 0 then (false, { d with mChildHandle := fork })
  else (true, { d with mChildHandle := fork })

def checkChildStatus (waitpid : WaitResult) : Outcome :=
  if d.mChildHandle = -1 then ⟨none, d, []⟩
  else
    let value :=
      if waitpid.result = d.mChildHandle then
        if WIFEXITED waitpid.status then some (WEXITSTATUS waitpid.status).toInt
        else if WIFSIGNALED waitpid.status then some (-(WTERMSIG waitpid.status).toInt)
        else none
      else none
    ⟨value, d, [.waitpid d.mChildHandle]⟩

def waitForChild (waitpid : WaitResult) : Outcome :=
  if d.mChildHandle = -1 then ⟨none, d, []⟩
  else
    -- the result of `waitpid` is not looked at
    match unwrapStatus waitpid.status with
    | none => ⟨none, d, [.waitpid d.mChildHandle]⟩
    | some value => ⟨some value, { d with mChildHandle := -1 }, [.waitpid d.mChildHandle]⟩

/-- `terminateChild`; `killed` says that `kill` returned 0. -/
def terminateChild (killed : Bool) (waitpid : WaitResult) : Outcome :=
  if d.mChildHandle = -1 then ⟨none, d, []⟩
  else if !killed then ⟨none, d, [.kill d.mChildHandle]⟩
  else
    let issued := [.kill d.mChildHandle, .waitpid d.mChildHandle]
    if waitpid.result = -1 then ⟨none, { d with mChildHandle := -1 }, issued⟩
    else
      match unwrapStatus waitpid.status with
      | none => ⟨none, d, issued⟩
      | some value => ⟨some value, { d with mChildHandle := -1 }, issued⟩

end ProcessHandlePrivate

/-- What the system answers to `waitpid`: a failure or "not yet", which leave `status` as it
was, or how the child ended. -/
inductive Answer where
  | failed (status : RawStatus)
  | notYet (status : RawStatus)
  | ended (e : Ending)

def Answer.waitResult (pid : Int) : Answer → WaitResult
  | .failed status => ⟨-1, status⟩
  | .notYet status => ⟨0, status⟩
  | .ended e => ⟨pid, e.raw⟩

/-- A child that has not been reaped. -/
structure Child where
  pid : Int
  ending : Option Ending := none
deriving DecidableEq

/-- A handle, and the child it started last. -/
structure Sys where
  handle : ProcessHandlePrivate := {}
  child : Option Child := none
  /-- `startChild` has succeeded, and no call has reported the end of the child since. -/
  alive : Bool := false

/-- The calls that may report the end of the child. -/
inductive Call where
  | checkChildStatus
  | waitForChild
  | terminateChild (killed : Bool)

def Call.outcome (d : ProcessHandlePrivate) (waitpid : WaitResult) : Call → Outcome
  | .checkChildStatus => d.checkChildStatus waitpid
  | .waitForChild => d.waitForChild waitpid
  | .terminateChild killed => d.terminateChild killed waitpid

/-- All but `checkChildStatus` wait without `WNOHANG`. -/
def Call.blocking : Call → Bool
  | .checkChildStatus => false
  | _ => true

/-- The calls, with what the system answers, and the end of the child. -/
inductive Lbl where
  | setArguments (args : List String)
  | setExecutable (fileExists : String → Bool) (path : String)
  | clearArguments
  | startChild (fileExists : String → Bool) (fork : Option Nat)
  | childEnds (e : Ending)
  | call (c : Call) (answer : Answer)

/-- What `fork()` returns to the parent. -/
def forkResult : Option Nat → Int
  | none => -1
  | some n => n + 1

/-- Whether the system may answer so to a `waitpid` for `pid`. A blocking one returns when
the child has ended, which it may do meanwhile, or is interrupted. A pid that is not that of
the child may belong to any process. -/
def mayAnswer (child : Option Child) (pid : Int) (blocking : Bool) (answer : Answer) : Bool :=
  match child with
  | none => true
  | some c =>
    if c.pid ≠ pid then true
    else
      match answer with
      | .failed _ => blocking
      | .notYet _ => !blocking && c.ending.isNone
      | .ended e => c.ending = some e || (blocking && c.ending.isNone)

def Sys.outcome (s : Sys) (c : Call) (answer : Answer) : Outcome :=
  c.outcome s.handle (answer.waitResult s.handle.mChildHandle)

/-- The call reaps the child. -/
def Sys.reaps (s : Sys) (c : Call) : Answer → Bool
  | .ended e =>
    s.child.any fun child => (s.outcome c (.ended e)).issued.contains (.waitpid child.pid)
  | _ => false

def step (s : Sys) : Lbl → Option Sys
  | .setArguments args => some { s with handle := (s.handle.setArguments args).2 }
  | .setExecutable fileExists path =>
    some { s with handle := (s.handle.setExecutable fileExists path).2 }
  | .clearArguments => some { s with handle := s.handle.clearArguments }
  | .startChild fileExists fork =>
    let r := s.handle.startChild fileExists (forkResult fork)
    some (if r.1 then { handle := r.2, child := some ⟨forkResult fork, none⟩, alive := true }
      else { s with handle := r.2 })
  | .childEnds e =>
    match s.child with
    | some ⟨pid, none⟩ => some { s with child := some ⟨pid, some e⟩ }
    | _ => none
  | .call c answer =>
    if mayAnswer s.child s.handle.mChildHandle c.blocking answer then
      some { handle := (s.outcome c answer).handle
             child := if s.reaps c answer then none else s.child
             alive := s.alive && !(s.reaps c answer && (s.outcome c answer).value.isSome) }
    else none

/-- A handle that has not started a child. -/
def init : Sys := {}

def spec : ActionSystem.Spec Sys Lbl where
  Init s := s = init
  step := step

/-! ### What is promised -/

/-- A step keeps the handle in line with its child, and `number` stands for the raw statuses. -/
structure Reports (number : RawStatus → Int) (s : Sys) (l : Lbl) (s' : Sys) : Prop where
  /-- A child runs until its end has been reported. -/
  running : s'.handle.isChildRunning = s'.alive
  /-- `kill` and `waitpid` are issued for a child that has not been reaped. -/
  issued : ∀ c answer, l = .call c answer → ∀ call ∈ (s.outcome c answer).issued,
    ∃ child, s.child = some child ∧ call.pid = child.pid
  /-- Another child can be started once the end of the last one has been reported. -/
  canStart : s'.alive = false → ∀ (fileExists : String → Bool) (n : Nat),
    s'.handle.mPath.isEmpty = false → fileExists s'.handle.mPath = true →
      (s'.handle.startChild fileExists (forkResult (some n))).1 = true
  /-- A child is started where there is none left to reap. -/
  replaces : ∀ fileExists fork, l = .startChild fileExists fork →
    (s.handle.startChild fileExists (forkResult fork)).1 = true → s.child = none
  /-- What is reported is how the child ended. -/
  reported : ∀ c answer n, l = .call c answer → (s.outcome c answer).value = some n →
    ∃ e, answer = .ended e ∧ n = number e.raw

/-- The call loses track of the child: `checkChildStatus` that finds it ended, or a failed
`waitpid`, in `waitForChild` if what `status` held before reads as the end of a process. -/
def Call.loses : Call → Answer → Bool
  | .checkChildStatus, .ended _ => true
  | .waitForChild, .failed status => (unwrapStatus status).isSome
  | .terminateChild true, .failed _ => true
  | _, _ => false

/-- The condition on a step. -/
def Keeps (s : Sys) (l : Lbl) : Prop :=
  ∀ c answer, l = .call c answer → s.child.isSome = true → c.loses answer = false

/-! ### The calls -/

section Calls

variable {s s' : Sys} {c : Call} {answer : Answer}

/-- The handle holds the pid of the child. -/
structure Inv (s : Sys) : Prop where
  mChildHandle : s.handle.mChildHandle = (s.child.map (·.pid)).getD (-1)
  alive : s.alive = s.child.isSome
  pid_pos : ∀ child, s.child = some child → 0 < child.pid

theorem init_inv : Inv init where
  mChildHandle := rfl
  alive := rfl
  pid_pos _ h := by cases h

theorem Inv.isChildRunning (h : Inv s) : s.handle.isChildRunning = s.alive := by
  rw [ProcessHandlePrivate.isChildRunning, h.mChildHandle, h.alive]
  cases hchild : s.child with
  | none => rfl
  | some child =>
    have hpos := h.pid_pos child hchild
    simp only [Option.map_some, Option.getD_some, Option.isSome_some, bne_iff_ne]
    omega

theorem startChild_eq (d : ProcessHandlePrivate) (fileExists : String → Bool) (fork : Option Nat) :
    d.startChild fileExists (forkResult fork) =
      if d.isValid fileExists then
        (fork.isSome, { d with mChildHandle := forkResult fork })
      else (false, d) := by
  unfold ProcessHandlePrivate.startChild
  cases hvalid : d.isValid fileExists with
  | false => rfl
  | true =>
    cases fork with
    | none => rfl
    | some n =>
      have hpos : ¬ forkResult (some n) < 0 := by
        simp only [forkResult]
        omega
      simp [hpos]

/-- Without a child nothing is asked of the system. -/
theorem outcome_of_none (h : Inv s) (hchild : s.child = none) (c : Call) (answer : Answer) :
    s.outcome c answer = ⟨none, s.handle, []⟩ := by
  have hnone : s.handle.mChildHandle = -1 := by rw [h.mChildHandle, hchild]; rfl
  cases c with
  | checkChildStatus => exact if_pos hnone
  | waitForChild => exact if_pos hnone
  | terminateChild killed => exact if_pos hnone

/-- The process a call names is the one of the handle. -/
theorem issued_pid (s : Sys) (c : Call) (answer : Answer) :
    ∀ call ∈ (s.outcome c answer).issued,
      s.handle.mChildHandle ≠ -1 ∧ call.pid = s.handle.mChildHandle := by
  intro call hcall
  cases c with
  | checkChildStatus =>
    simp only [Sys.outcome, Call.outcome, ProcessHandlePrivate.checkChildStatus] at hcall
    split at hcall
    · cases hcall
    · rename_i hne
      rw [List.mem_singleton.mp hcall]
      exact ⟨hne, rfl⟩
  | waitForChild =>
    simp only [Sys.outcome, Call.outcome, ProcessHandlePrivate.waitForChild] at hcall
    split at hcall
    · cases hcall
    · rename_i hne
      split at hcall
      all_goals
        rw [List.mem_singleton.mp hcall]
        exact ⟨hne, rfl⟩
  | terminateChild killed =>
    simp only [Sys.outcome, Call.outcome, ProcessHandlePrivate.terminateChild] at hcall
    split at hcall
    · cases hcall
    · rename_i hne
      have hmem : call = .kill s.handle.mChildHandle ∨ call = .waitpid s.handle.mChildHandle := by
        split at hcall
        · exact Or.inl (List.mem_singleton.mp hcall)
        · split at hcall
          · simpa using hcall
          · split at hcall
            all_goals simpa using hcall
      rcases hmem with rfl | rfl
      · exact ⟨hne, rfl⟩
      · exact ⟨hne, rfl⟩

/-- The end of the child has been reported. -/
def Sys.reported (s : Sys) : Sys where
  handle := { s.handle with mChildHandle := -1 }

/-- What a call does to the child it looks for: nothing, or it reaps it and reports. -/
inductive CallMoves (s : Sys) (c : Call) (answer : Answer) (s' : Sys) : Prop where
  | same (hstate : s' = s) (hvalue : (s.outcome c answer).value = none)
  | reported (e : Ending) (hanswer : answer = .ended e)
    (hvalue : (s.outcome c answer).value = some e.number)
    (hstate : s' = s.reported)

theorem CallMoves.of_none {issued : List SysCall}
    (hstep : step s (.call c answer) = some s')
    (ho : s.outcome c answer = ⟨none, s.handle, issued⟩) (hreaps : s.reaps c answer = false) :
    CallMoves s c answer s' := by
  simp only [step, Option.ite_none_right_eq_some] at hstep
  refine .same ?_ (by rw [ho])
  simp [← Option.some.inj hstep.2, ho, hreaps]

/-- A `waitpid` for the child that returns with its end reaps it. -/
theorem CallMoves.of_some {child : Child} {e : Ending} {issued : List SysCall}
    (hstep : step s (.call c (.ended e)) = some s') (hchild : s.child = some child)
    (ho : s.outcome c (.ended e) = ⟨some e.number, { s.handle with mChildHandle := -1 }, issued⟩)
    (hissued : .waitpid child.pid ∈ issued) : CallMoves s c (.ended e) s' := by
  have hreaps : s.reaps c (.ended e) = true := by
    simpa [Sys.reaps, hchild, ho] using hissued
  simp only [step, Option.ite_none_right_eq_some] at hstep
  refine .reported e rfl (by rw [ho]) ?_
  simp [← Option.some.inj hstep.2, ho, hreaps, Sys.reported]

theorem checkChildStatus_notYet {d : ProcessHandlePrivate} (hd : 0 < d.mChildHandle)
    (status : RawStatus) :
    d.checkChildStatus ⟨0, status⟩ = ⟨none, d, [.waitpid d.mChildHandle]⟩ := by
  have hne : ¬ (0 : Int) = d.mChildHandle := by omega
  unfold ProcessHandlePrivate.checkChildStatus
  rw [if_neg (by omega)]
  simp only [hne, if_false]

/-- An end that `checkChildStatus` finds is reported, and the handle keeps the pid. -/
theorem checkChildStatus_ended {d : ProcessHandlePrivate} (hd : 0 < d.mChildHandle) (e : Ending) :
    ∃ n, d.checkChildStatus ⟨d.mChildHandle, e.raw⟩ = ⟨some n, d, [.waitpid d.mChildHandle]⟩ := by
  have hne : ¬ d.mChildHandle = -1 := by omega
  have hraw := unwrapStatus_raw e
  unfold unwrapStatus at hraw
  unfold ProcessHandlePrivate.checkChildStatus
  simp only [hne, if_false, if_true]
  cases hexited : WIFEXITED e.raw with
  | true => exact ⟨_, rfl⟩
  | false =>
    rw [hexited, if_neg (by decide), Option.ite_none_right_eq_some] at hraw
    rw [if_pos hraw.1]
    exact ⟨_, rfl⟩

theorem waitForChild_none {d : ProcessHandlePrivate} (hd : 0 < d.mChildHandle) {w : WaitResult}
    (hw : unwrapStatus w.status = none) :
    d.waitForChild w = ⟨none, d, [.waitpid d.mChildHandle]⟩ := by
  unfold ProcessHandlePrivate.waitForChild
  rw [if_neg (by omega), hw]

theorem waitForChild_some {d : ProcessHandlePrivate} (hd : 0 < d.mChildHandle) {w : WaitResult}
    {n : Int} (hw : unwrapStatus w.status = some n) :
    d.waitForChild w =
      ⟨some n, { d with mChildHandle := -1 }, [.waitpid d.mChildHandle]⟩ := by
  unfold ProcessHandlePrivate.waitForChild
  rw [if_neg (by omega), hw]

theorem terminateChild_refused {d : ProcessHandlePrivate} (hd : 0 < d.mChildHandle)
    (w : WaitResult) : d.terminateChild false w = ⟨none, d, [.kill d.mChildHandle]⟩ := by
  unfold ProcessHandlePrivate.terminateChild
  rw [if_neg (by omega)]
  rfl

theorem terminateChild_failed {d : ProcessHandlePrivate} (hd : 0 < d.mChildHandle)
    (status : RawStatus) :
    d.terminateChild true ⟨-1, status⟩ = ⟨none, { d with mChildHandle := -1 },
      [.kill d.mChildHandle, .waitpid d.mChildHandle]⟩ := by
  unfold ProcessHandlePrivate.terminateChild
  rw [if_neg (by omega)]
  rfl

theorem terminateChild_ended {d : ProcessHandlePrivate} (hd : 0 < d.mChildHandle) (e : Ending) :
    d.terminateChild true ⟨d.mChildHandle, e.raw⟩ =
      ⟨some e.number, { d with mChildHandle := -1 },
        [.kill d.mChildHandle, .waitpid d.mChildHandle]⟩ := by
  have hne : ¬ d.mChildHandle = -1 := by omega
  unfold ProcessHandlePrivate.terminateChild
  rw [if_neg hne, if_neg (by decide)]
  simp only [unwrapStatus_raw, hne, if_false]

theorem step_call (h : Inv s) {child : Child} (hchild : s.child = some child)
    (hkeeps : c.loses answer = false)
    (hstep : step s (.call c answer) = some s') : CallMoves s c answer s' := by
  have hpid : s.handle.mChildHandle = child.pid := by rw [h.mChildHandle, hchild]; rfl
  have hpos : 0 < s.handle.mChildHandle := hpid ▸ h.pid_pos child hchild
  have hmay : mayAnswer s.child s.handle.mChildHandle c.blocking answer = true := by
    simp only [step, Option.ite_none_right_eq_some] at hstep
    exact hstep.1
  cases c with
  | checkChildStatus =>
    cases answer with
    | failed status => simp [mayAnswer, hchild, hpid, Call.blocking] at hmay
    | notYet status => exact .of_none hstep (checkChildStatus_notYet hpos status) rfl
    | ended e => cases hkeeps
  | waitForChild =>
    cases answer with
    | failed status =>
      have hnone : unwrapStatus status = none := by simpa [Call.loses] using hkeeps
      exact .of_none hstep (waitForChild_none hpos hnone) rfl
    | notYet status => simp [mayAnswer, hchild, hpid, Call.blocking] at hmay
    | ended e =>
      exact .of_some hstep hchild (waitForChild_some hpos (unwrapStatus_raw e)) (by simp [hpid])
  | terminateChild killed =>
    cases killed with
    | false =>
      have ho : s.outcome (.terminateChild false) answer =
          ⟨none, s.handle, [.kill s.handle.mChildHandle]⟩ :=
        terminateChild_refused hpos _
      refine .of_none hstep ho ?_
      cases answer with
      | ended e => simp [Sys.reaps, hchild, ho]
      | _ => rfl
    | true =>
      cases answer with
      | failed status => cases hkeeps
      | notYet status => simp [mayAnswer, hchild, hpid, Call.blocking] at hmay
      | ended e =>
        exact .of_some hstep hchild (terminateChild_ended hpos e) (by simp [hpid])

/-- A call that loses track of the child leaves the handle out of line with it. -/
theorem step_loses (h : Inv s) {child : Child} (hchild : s.child = some child)
    (hloses : c.loses answer = true)
    (hstep : step s (.call c answer) = some s') : s'.handle.isChildRunning ≠ s'.alive := by
  have hpid : s.handle.mChildHandle = child.pid := by rw [h.mChildHandle, hchild]; rfl
  have hpos : 0 < s.handle.mChildHandle := hpid ▸ h.pid_pos child hchild
  have halive : s.alive = true := by rw [h.alive, hchild]; rfl
  have hrunning : s.handle.isChildRunning = true := h.isChildRunning.trans halive
  simp only [step, Option.ite_none_right_eq_some] at hstep
  rw [← Option.some.inj hstep.2]
  cases c with
  | checkChildStatus =>
    cases answer with
    | ended e =>
      rcases checkChildStatus_ended hpos e with ⟨n, ho⟩
      have ho' : s.outcome .checkChildStatus (.ended e) =
          ⟨some n, s.handle, [.waitpid s.handle.mChildHandle]⟩ := ho
      have hreaps : s.reaps .checkChildStatus (.ended e) = true := by
        simp [Sys.reaps, hchild, ho', hpid]
      simp [ho', hreaps, hrunning]
    | _ => cases hloses
  | waitForChild =>
    cases answer with
    | failed status =>
      rcases Option.isSome_iff_exists.mp hloses with ⟨n, hn⟩
      have ho : s.outcome .waitForChild (.failed status) =
          ⟨some n, { s.handle with mChildHandle := -1 }, [.waitpid s.handle.mChildHandle]⟩ :=
        waitForChild_some hpos hn
      simp [ho, Sys.reaps, halive, ProcessHandlePrivate.isChildRunning]
    | _ => cases hloses
  | terminateChild killed =>
    cases killed with
    | false => cases hloses
    | true =>
      cases answer with
      | failed status =>
        have ho : s.outcome (.terminateChild true) (.failed status) =
            ⟨none, { s.handle with mChildHandle := -1 },
              [.kill s.handle.mChildHandle, .waitpid s.handle.mChildHandle]⟩ :=
          terminateChild_failed hpos status
        simp [ho, Sys.reaps, halive, ProcessHandlePrivate.isChildRunning]
      | _ => cases hloses

/-! ### Runs -/

/-- What is started has nothing left to reap. -/
theorem Inv.child_of_valid (h : Inv s) {fileExists : String → Bool}
    (hvalid : s.handle.isValid fileExists = true) : s.child = none := by
  simp only [ProcessHandlePrivate.isValid, Bool.and_eq_true, Bool.not_eq_true'] at hvalid
  have halive : s.child.isSome = false := h.alive ▸ h.isChildRunning ▸ hvalid.2
  exact Option.isSome_eq_false_iff.mp halive |> Option.isNone_iff_eq_none.mp

theorem Inv.canStart (h : Inv s) (halive : s.alive = false) (fileExists : String → Bool) (n : Nat)
    (hpath : s.handle.mPath.isEmpty = false) (hexists : fileExists s.handle.mPath = true) :
    (s.handle.startChild fileExists (forkResult (some n))).1 = true := by
  have hvalid : s.handle.isValid fileExists = true := by
    simp [ProcessHandlePrivate.isValid, hpath, hexists, h.isChildRunning, halive]
  rw [startChild_eq s.handle fileExists (some n), if_pos hvalid]
  rfl

/-- A step other than `startChild` and the calls that leaves the child where it was. -/
theorem reports_of_other {number : RawStatus → Int} {l : Lbl} (h' : Inv s')
    (hcall : ∀ c answer, l ≠ .call c answer)
    (hstart : ∀ fileExists fork, l ≠ .startChild fileExists fork) :
    Reports number s l s' where
  running := h'.isChildRunning
  issued c answer hl := absurd hl (hcall c answer)
  canStart := h'.canStart
  replaces fileExists fork hl := absurd hl (hstart fileExists fork)
  reported c answer _ hl := absurd hl (hcall c answer)

/-- The handle changes, but not what it holds. -/
theorem Inv.of_mChildHandle (h : Inv s) {handle : ProcessHandlePrivate}
    (hsame : handle.mChildHandle = s.handle.mChildHandle) : Inv { s with handle := handle } where
  mChildHandle := hsame.trans h.mChildHandle
  alive := h.alive
  pid_pos := h.pid_pos

theorem setArguments_mChildHandle (d : ProcessHandlePrivate) (args : List String) :
    (d.setArguments args).2.mChildHandle = d.mChildHandle := by
  unfold ProcessHandlePrivate.setArguments
  split <;> rfl

theorem setExecutable_mChildHandle (d : ProcessHandlePrivate) (fileExists : String → Bool)
    (path : String) : (d.setExecutable fileExists path).2.mChildHandle = d.mChildHandle := by
  unfold ProcessHandlePrivate.setExecutable
  split <;> rfl

/-- `startChild` forks where there is no child. -/
theorem step_startChild (h : Inv s) {fileExists : String → Bool} {fork : Option Nat}
    (hstep : step s (.startChild fileExists fork) = some s') :
    Inv s' ∧ ((s.handle.startChild fileExists (forkResult fork)).1 = true → s.child = none) := by
  simp only [step, startChild_eq] at hstep
  cases hvalid : s.handle.isValid fileExists with
  | false =>
    simp only [hvalid] at hstep
    cases hstep
    exact ⟨h, by simp [startChild_eq, hvalid]⟩
  | true =>
    have hnone : s.child = none := h.child_of_valid hvalid
    refine ⟨?_, fun _ => hnone⟩
    rw [hvalid] at hstep
    cases fork with
    | none =>
      cases hstep
      exact h.of_mChildHandle (by rw [h.mChildHandle, hnone]; rfl)
    | some n =>
      cases hstep
      refine ⟨rfl, rfl, ?_⟩
      intro child hchild
      rw [← Option.some.inj hchild]
      exact Int.natCast_succ_pos n

theorem step_childEnds (h : Inv s) {e : Ending} (hstep : step s (.childEnds e) = some s') :
    Inv s' := by
  simp only [step] at hstep
  split at hstep
  · rename_i pid hchild
    cases hstep
    refine ⟨h.mChildHandle.trans (by rw [hchild]; rfl), h.alive.trans (by rw [hchild]; rfl), ?_⟩
    intro child heq
    rw [← Option.some.inj heq]
    exact h.pid_pos ⟨pid, none⟩ hchild
  · cases hstep

/-- What has to be shown of a call. -/
theorem reports_of_call {number : RawStatus → Int} (h : Inv s) (h' : Inv s')
    (hreported : ∀ n, (s.outcome c answer).value = some n →
      ∃ e, answer = .ended e ∧ n = number e.raw) :
    Reports number s (.call c answer) s' where
  running := h'.isChildRunning
  issued _ _ hl call hcall := by
    rcases issued_pid s _ _ call hcall with ⟨hne, hpid⟩
    cases hchild : s.child with
    | none => exact absurd (by rw [h.mChildHandle, hchild]; rfl) hne
    | some child => exact ⟨child, rfl, by rw [hpid, h.mChildHandle, hchild]; rfl⟩
  canStart := h'.canStart
  replaces := nofun
  reported _ _ n hl hn := by
    cases hl
    exact hreported n hn

/-- A call without a child changes and reports nothing. -/
theorem step_call_of_none (h : Inv s) (hchild : s.child = none)
    (hstep : step s (.call c answer) = some s') : CallMoves s c answer s' := by
  refine .of_none hstep (outcome_of_none h hchild c answer) ?_
  cases answer with
  | ended e => simp [Sys.reaps, hchild]
  | _ => rfl

theorem step_call_keeps (h : Inv s) (hkeeps : Keeps s (.call c answer))
    (hstep : step s (.call c answer) = some s') :
    Inv s' ∧ Reports (fun raw => (unwrapStatus raw).getD 0) s (.call c answer) s' := by
  have hmoves : CallMoves s c answer s' := by
    cases hchild : s.child with
    | none => exact step_call_of_none h hchild hstep
    | some child => exact step_call h hchild (hkeeps c answer rfl (by rw [hchild]; rfl)) hstep
  cases hmoves with
  | same hstate hvalue =>
    subst hstate
    refine ⟨h, reports_of_call h h ?_⟩
    intro n hn
    cases hvalue.symm.trans hn
  | reported e hanswer hvalue hstate =>
    subst hstate
    have h' : Inv s.reported := ⟨rfl, rfl, nofun⟩
    refine ⟨h', reports_of_call h h' ?_⟩
    intro n hn
    refine ⟨e, hanswer, ?_⟩
    rw [unwrapStatus_raw]
    exact (Option.some.inj (hvalue.symm.trans hn)).symm

theorem step_keeps (h : Inv s) {l : Lbl} (hkeeps : Keeps s l) (hstep : step s l = some s') :
    Inv s' ∧ Reports (fun raw => (unwrapStatus raw).getD 0) s l s' := by
  cases l with
  | setArguments args =>
    cases hstep
    have h' := h.of_mChildHandle (setArguments_mChildHandle s.handle args)
    exact ⟨h', reports_of_other h' nofun nofun⟩
  | setExecutable fileExists path =>
    cases hstep
    have h' := h.of_mChildHandle (setExecutable_mChildHandle s.handle fileExists path)
    exact ⟨h', reports_of_other h' nofun nofun⟩
  | clearArguments =>
    cases hstep
    have h' : Inv { s with handle := s.handle.clearArguments } := h.of_mChildHandle rfl
    exact ⟨h', reports_of_other h' nofun nofun⟩
  | startChild fileExists fork =>
    rcases step_startChild h hstep with ⟨h', hreplaces⟩
    refine ⟨h', h'.isChildRunning, nofun, h'.canStart, ?_, nofun⟩
    intro _ _ hl hstarted
    cases hl
    exact hreplaces hstarted
  | childEnds e =>
    have h' := step_childEnds h hstep
    exact ⟨h', reports_of_other h' nofun nofun⟩
  | call c answer => exact step_call_keeps h hkeeps hstep

/-- A step that loses track of the child breaks the promise, whatever the numbers mean. -/
theorem step_not_keeps {number : RawStatus → Int} (h : Inv s) {l : Lbl} (hkeeps : ¬ Keeps s l)
    (hstep : step s l = some s') : ¬ Reports number s l s' := by
  intro hreports
  simp only [Keeps, Classical.not_forall] at hkeeps
  rcases hkeeps with ⟨c, answer, rfl, hsome, hloses⟩
  rcases Option.isSome_iff_exists.mp hsome with ⟨child, hchild⟩
  exact step_loses h hchild (by simpa using hloses) hstep hreports.running

end Calls

/-- The handle follows its child, in every step of a run, exactly when no call loses track
of it. -/
theorem reports_iff (ls : List Lbl) :
    (∃ number, spec.AllSteps (Reports number) init ls) ↔
      spec.AllSteps (fun s l _ => Keeps s l) init ls := by
  refine spec.allSteps_exists_iff Inv (fun raw => (unwrapStatus raw).getD 0) ?_ ?_ init_inv ls
  · intro s l s' h hkeeps hstep
    exact step_keeps h hkeeps hstep
  · intro number s l s' h hkeeps hstep
    exact step_not_keeps h hkeeps hstep

/-- The child ends, `checkChildStatus` reports it, and the handle still takes it for
running. -/
theorem reports_fails : ¬ ∀ ls, ∃ number, spec.AllSteps (Reports number) init ls := by
  intro h
  let ls : List Lbl := [.setExecutable (fun _ => true) "gui",
    .startChild (fun _ => true) (some 41), .childEnds (.exited 3#8)]
  rcases h (ls ++ [Lbl.call .checkChildStatus (.ended (.exited 3#8))]) with ⟨number, hall⟩
  have hlast := spec.allSteps_last hall rfl rfl
  exact absurd hlast.running (by decide)

end Posix

end ClapRci.ProcessHandle
