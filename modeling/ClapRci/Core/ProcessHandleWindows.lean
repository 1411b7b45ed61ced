import ClapRci.Core.ProcessHandle

/-!
# Child processes on Windows (`core/processhandle.cpp`)

The other branch of each call, with a `HANDLE` in place of a pid: whether the child runs is
asked of the system, and the handle is closed when an end has been found.

* `follows_child_iff`: the runs in which the handle is in line with its child, on either
  platform.
-/

namespace ClapRci.ProcessHandle

/-! ## The handle -/

namespace Windows

abbrev DWORD := BitVec 32

def STILL_ACTIVE : DWORD := 259#32

/-- `ProcessHandlePrivate`; a `HANDLE` is a number, `none` the null pointer. -/
structure ProcessHandlePrivate where
  mPath : String := ""
  mArgs : List String := []
  mChildHandle : Option Nat := none
deriving DecidableEq

/-- What the system answers about a handle: whether `TerminateProcess` succeeds, whether
`WaitForSingleObject` finds the process ended, and what `GetExitCodeProcess` stores, `none`
if it fails. -/
structure Reply where
  terminated : Bool
  signaled : Bool
  exitCode : Option DWORD

/-- What a call that may report the end of the child returns and leaves, and the handles it
passes to the system. -/
structure Outcome where
  value : Option Int
  handle : ProcessHandlePrivate
  used : List Nat

namespace ProcessHandlePrivate

variable (d : ProcessHandlePrivate)

def isChildRunning (reply : Reply) : Bool :=
  match d.mChildHandle, reply.exitCode with
  | some _, some exitCode => exitCode == STILL_ACTIVE
  | _, _ => false

/-- `startChild`; `created` is the process handle of `CreateProcessA`, if it succeeds. -/
def startChild (created : Option Nat) : Bool × ProcessHandlePrivate :=
  match created with
  | none => (false, d)
  | some hProcess => (true, { d with mChildHandle := some hProcess })

def checkChildStatus (reply : Reply) : Outcome :=
  match d.mChildHandle with
  | none => ⟨none, d, []⟩
  | some h =>
    if reply.signaled then
      match reply.exitCode with
      | none => ⟨none, d, [h]⟩
      | some exitCode => ⟨some exitCode.toInt, { d with mChildHandle := none }, [h]⟩
    else ⟨none, d, [h]⟩

def waitForChild (reply : Reply) : Outcome :=
  match d.mChildHandle with
  | none => ⟨none, d, []⟩
  | some h =>
    match reply.exitCode with
    | none => ⟨none, d, [h]⟩
    | some exitCode => ⟨some exitCode.toInt, { d with mChildHandle := none }, [h]⟩

def terminateChild (reply : Reply) : Outcome :=
  match d.mChildHandle with
  | none => ⟨none, d, []⟩
  | some h =>
    if !reply.terminated then ⟨none, d, [h]⟩
    else ⟨reply.exitCode.map (·.toInt), { d with mChildHandle := none }, [h]⟩

end ProcessHandlePrivate

/-- A process whose end has not been reported. -/
structure Child where
  handle : Nat
  exitCode : Option DWORD := none
deriving DecidableEq

/-- A handle, and the child it started last. -/
structure Sys where
  handle : ProcessHandlePrivate := {}
  child : Option Child := none
  /-- `startChild` has succeeded, and no call has reported the end of the child since. -/
  alive : Bool := false

/-- The calls that may report the end of the child. -/
inductive Call where
  | checkChildStatus
  | waitForChild
  | terminateChild (terminated : Bool)

/-- The calls, and the end of the child. A call that waits returns when the child has ended;
`exitCode` is what it has ended with by then. -/
inductive Lbl where
  | startChild (created : Option Nat)
  | childEnds (exitCode : DWORD)
  | call (c : Call) (exitCode : DWORD)

/-- The exit code the system gives for the child at the moment. -/
def Sys.currentCode (s : Sys) : Option DWORD := s.child.map fun c => c.exitCode.getD STILL_ACTIVE

def Sys.isChildRunning (s : Sys) : Bool :=
  s.handle.isChildRunning ⟨false, false, s.currentCode⟩

def Sys.outcome (s : Sys) (exitCode : DWORD) : Call → Outcome
  | .checkChildStatus =>
    s.handle.checkChildStatus ⟨false, s.child.any (·.exitCode.isSome), s.currentCode⟩
  | .waitForChild => s.handle.waitForChild ⟨false, true, some exitCode⟩
  | .terminateChild terminated => s.handle.terminateChild ⟨terminated, true, some exitCode⟩

/-- Whether the child can have ended so when the call returns. -/
def Sys.mayReturn (s : Sys) (exitCode : DWORD) (c : Call) : Bool :=
  match c, s.child with
  | .checkChildStatus, some child => exitCode == child.exitCode.getD STILL_ACTIVE
  | _, some child => exitCode == child.exitCode.getD exitCode
  | _, none => true

def step (s : Sys) : Lbl → Option Sys
  | .startChild created =>
    let r := s.handle.startChild created
    some { handle := r.2
           child := (created.map fun hProcess => ⟨hProcess, none⟩).or s.child
           alive := r.1 || s.alive }
  | .childEnds exitCode =>
    match s.child with
    | some ⟨handle, none⟩ => some { s with child := some ⟨handle, some exitCode⟩ }
    | _ => none
  | .call c exitCode =>
    if s.mayReturn exitCode c then
      let o := s.outcome exitCode c
      some { handle := o.handle
             child := if o.value.isSome then none else s.child
             alive := s.alive && !o.value.isSome }
    else none

/-- A handle that has not started a child. -/
def init : Sys := {}

def spec : ActionSystem.Spec Sys Lbl where
  Init s := s = init
  step := step

/-! ### What is promised -/

/-- A step keeps the handle in line with its child, and `number` stands for the exit codes. -/
structure Reports (number : DWORD → Int) (s : Sys) (l : Lbl) (s' : Sys) : Prop where
  running : s'.isChildRunning = s'.alive
  used : ∀ c exitCode, l = .call c exitCode → ∀ h ∈ (s.outcome exitCode c).used,
    ∃ child, s.child = some child ∧ h = child.handle
  canStart : s'.alive = false → ∀ hProcess, (s'.handle.startChild (some hProcess)).1 = true
  replaces : ∀ created, l = .startChild created → (s.handle.startChild created).1 = true →
    s.child = none
  reported : ∀ c exitCode n, l = .call c exitCode → (s.outcome exitCode c).value = some n →
    n = number exitCode

/-- The condition on a step: the child ends only while a call waits for it, or with the code
that stands for a running process, and none is started before the end of the last one has
been reported. -/
structure Keeps (s : Sys) (l : Lbl) : Prop where
  ends : ∀ exitCode, l = .childEnds exitCode → exitCode = STILL_ACTIVE
  starts : ∀ hProcess, l = .startChild (some hProcess) → s.child = none

/-! ### Runs -/

section Runs

variable {s s' : Sys} {c : Call} {exitCode : DWORD}

/-- The handle is the one of the child, and the system takes the child for running. -/
structure Inv (s : Sys) : Prop where
  mChildHandle : s.handle.mChildHandle = s.child.map (·.handle)
  alive : s.alive = s.child.isSome
  active : ∀ child, s.child = some child → child.exitCode.getD STILL_ACTIVE = STILL_ACTIVE

theorem init_inv : Inv init := ⟨rfl, rfl, nofun⟩

/-- `GetExitCodeProcess` decides for a handle that holds its child. -/
theorem isChildRunning_eq (hhandle : s.handle.mChildHandle = s.child.map (·.handle)) :
    s.isChildRunning = s.child.any fun c => c.exitCode.getD STILL_ACTIVE == STILL_ACTIVE := by
  unfold Sys.isChildRunning ProcessHandlePrivate.isChildRunning Sys.currentCode
  rw [hhandle]
  cases s.child with
  | none => rfl
  | some child => rfl

theorem Inv.isChildRunning (h : Inv s) : s.isChildRunning = s.alive := by
  rw [isChildRunning_eq h.mChildHandle, h.alive]
  cases hchild : s.child with
  | none => rfl
  | some child => simp [h.active child hchild]

/-- What a call finds out: no child, nothing to report, or the end of the child. -/
inductive CallMoves (s : Sys) (c : Call) (exitCode : DWORD) (s' : Sys) : Prop where
  | same (hstate : s' = s) (hvalue : (s.outcome exitCode c).value = none)
  | reported (hvalue : (s.outcome exitCode c).value = some exitCode.toInt)
    (hstate : s' = { handle := { s.handle with mChildHandle := none } })

/-- A call reports the end of the child, or leaves everything as it is. -/
theorem outcome_cases {child : Child} (hchild : s.child = some child) {handle : Nat}
    (hhandle : s.handle.mChildHandle = some handle) (hmay : s.mayReturn exitCode c = true) :
    s.outcome exitCode c = ⟨none, s.handle, [handle]⟩ ∨
      s.outcome exitCode c =
        ⟨some exitCode.toInt, { s.handle with mChildHandle := none }, [handle]⟩ := by
  cases c with
  | checkChildStatus =>
    simp only [Sys.mayReturn, hchild, beq_iff_eq] at hmay
    simp only [Sys.outcome, ProcessHandlePrivate.checkChildStatus, hhandle, hchild,
      Sys.currentCode, Option.any_some, Option.map_some, ← hmay]
    cases child.exitCode with
    | none => exact Or.inl rfl
    | some code => exact Or.inr rfl
  | waitForChild =>
    unfold Sys.outcome ProcessHandlePrivate.waitForChild
    rw [hhandle]
    exact Or.inr rfl
  | terminateChild terminated =>
    unfold Sys.outcome ProcessHandlePrivate.terminateChild
    rw [hhandle]
    cases terminated with
    | false => exact Or.inl rfl
    | true => exact Or.inr rfl

theorem outcome_of_none (h : Inv s) (hchild : s.child = none) :
    s.outcome exitCode c = ⟨none, s.handle, []⟩ := by
  have hnone : s.handle.mChildHandle = none := by rw [h.mChildHandle, hchild]; rfl
  cases c with
  | checkChildStatus => simp [Sys.outcome, ProcessHandlePrivate.checkChildStatus, hnone]
  | waitForChild => simp [Sys.outcome, ProcessHandlePrivate.waitForChild, hnone]
  | terminateChild terminated =>
    simp [Sys.outcome, ProcessHandlePrivate.terminateChild, hnone]

theorem step_call (h : Inv s) (hstep : step s (.call c exitCode) = some s') :
    CallMoves s c exitCode s' := by
  simp only [step, Option.ite_none_right_eq_some] at hstep
  rcases hstep with ⟨hmay, hstep⟩
  have hs := Option.some.inj hstep
  cases hchild : s.child with
  | none =>
    have ho : s.outcome exitCode c = _ := outcome_of_none h hchild
    exact .same (by simp [← hs, ho]) (by rw [ho])
  | some child =>
    have hhandle : s.handle.mChildHandle = some child.handle := by
      rw [h.mChildHandle, hchild]
      rfl
    rcases outcome_cases hchild hhandle hmay with ho | ho
    · exact .same (by simp [← hs, ho]) (by rw [ho])
    · exact .reported (by rw [ho]) (by simp [← hs, ho])

/-- The handle a call uses is the one of the child. -/
theorem used_handle (h : Inv s) (hmay : s.mayReturn exitCode c = true) :
    ∀ handle ∈ (s.outcome exitCode c).used, ∃ child, s.child = some child ∧
      handle = child.handle := by
  intro handle hused
  cases hchild : s.child with
  | none =>
    rw [outcome_of_none h hchild] at hused
    cases hused
  | some child =>
    have hhandle : s.handle.mChildHandle = some child.handle := by
      rw [h.mChildHandle, hchild]
      rfl
    refine ⟨child, rfl, ?_⟩
    rcases outcome_cases hchild hhandle hmay with ho | ho
    all_goals
      rw [ho] at hused
      exact List.mem_singleton.mp hused

/-- Calls keep the handle in line with the child, also where it ends meanwhile. -/
theorem step_call_keeps (h : Inv s) (hstep : step s (.call c exitCode) = some s') :
    Inv s' ∧ Reports BitVec.toInt s (.call c exitCode) s' := by
  have hused := used_handle h (Option.ite_none_right_eq_some.mp hstep).1
  cases step_call h hstep with
  | same hstate hvalue =>
    subst hstate
    refine ⟨h, h.isChildRunning, ?_, fun _ _ => rfl, nofun, ?_⟩
    · intro _ _ hl
      cases hl
      exact hused
    · intro _ _ n hl hn
      cases hl
      cases hvalue.symm.trans hn
  | reported hvalue hstate =>
    subst hstate
    have h' : Inv { handle := { s.handle with mChildHandle := none } } := ⟨rfl, rfl, nofun⟩
    refine ⟨h', h'.isChildRunning, ?_, fun _ _ => rfl, nofun, ?_⟩
    · intro _ _ hl
      cases hl
      exact hused
    · intro _ _ n hl hn
      cases hl
      exact (Option.some.inj (hvalue.symm.trans hn)).symm

theorem step_keeps (h : Inv s) {l : Lbl} (hkeeps : Keeps s l) (hstep : step s l = some s') :
    Inv s' ∧ Reports BitVec.toInt s l s' := by
  cases l with
  | startChild created =>
    have h' : Inv s' := by
      cases created with
      | none =>
        cases hstep
        exact h
      | some hProcess =>
        cases hstep
        refine ⟨rfl, rfl, ?_⟩
        intro child hchild
        rw [← Option.some.inj hchild]
        rfl
    refine ⟨h', h'.isChildRunning, nofun, fun _ _ => rfl, ?_, nofun⟩
    intro _ hl hstarted
    cases hl
    cases created with
    | none => cases hstarted
    | some hProcess => exact hkeeps.starts hProcess rfl
  | childEnds exitCode =>
    have hcode := hkeeps.ends exitCode rfl
    simp only [step] at hstep
    split at hstep
    · rename_i handle hchild
      cases hstep
      have h' : Inv { s with child := some ⟨handle, some exitCode⟩ } := by
        refine ⟨h.mChildHandle.trans (by rw [hchild]; rfl), h.alive.trans (by rw [hchild]; rfl), ?_⟩
        intro child heq
        rw [← Option.some.inj heq]
        exact hcode
      exact ⟨h', h'.isChildRunning, nofun, fun _ _ => rfl, nofun, nofun⟩
    · cases hstep
  | call c exitCode => exact step_call_keeps h hstep

/-- An end that no call waits for is noticed before it is reported; a child that is replaced
is never reported. -/
theorem step_not_keeps {number : DWORD → Int} (h : Inv s) {l : Lbl} (hkeeps : ¬ Keeps s l)
    (hstep : step s l = some s') : ¬ Reports number s l s' := by
  intro hreports
  apply hkeeps
  constructor
  · rintro exitCode rfl
    have hrunning := hreports.running
    simp only [step] at hstep
    split at hstep
    · rename_i handle hchild
      cases hstep
      have halive : s.alive = true := by rw [h.alive, hchild]; rfl
      have hhandle : s.handle.mChildHandle = some handle := by rw [h.mChildHandle, hchild]; rfl
      rw [isChildRunning_eq hhandle] at hrunning
      simpa [halive] using hrunning
    · cases hstep
  · rintro hProcess rfl
    exact hreports.replaces (some hProcess) rfl rfl

end Runs

/-- The handle follows its child, in every step of a run, exactly when children end only
while a call waits for them, and are not replaced before. -/
theorem reports_iff (ls : List Lbl) :
    (∃ number, spec.AllSteps (Reports number) init ls) ↔
      spec.AllSteps (fun s l _ => Keeps s l) init ls := by
  refine spec.allSteps_exists_iff Inv BitVec.toInt ?_ ?_ init_inv ls
  · intro s l s' h hkeeps hstep
    exact step_keeps h hkeeps hstep
  · intro number s l s' h hkeeps hstep
    exact step_not_keeps h hkeeps hstep

/-- The child ends, and no call has reported it when the handle takes it for ended. -/
theorem reports_fails : ¬ ∀ ls, ∃ number, spec.AllSteps (Reports number) init ls := by
  intro h
  rcases h ([.startChild (some 8)] ++ [.childEnds 3#32]) with ⟨number, hall⟩
  have hlast := spec.allSteps_last hall rfl rfl
  exact absurd hlast.running (by decide)

end Windows

/-! ## Both platforms -/

/-- The handle is in line with its child in exactly these runs: on POSIX those in which no
call loses track of the child, on Windows those in which it ends only while a call waits
for it and is not replaced before. -/
theorem follows_child_iff (posix : List Posix.Lbl) (windows : List Windows.Lbl) :
    ((∃ number, Posix.spec.AllSteps (Posix.Reports number) Posix.init posix) ↔
      Posix.spec.AllSteps (fun s l _ => Posix.Keeps s l) Posix.init posix) ∧
    ((∃ number, Windows.spec.AllSteps (Windows.Reports number) Windows.init windows) ↔
      Windows.spec.AllSteps (fun s l _ => Windows.Keeps s l) Windows.init windows) :=
  ⟨Posix.reports_iff posix, Windows.reports_iff windows⟩

/-- Neither platform keeps it in every run. -/
theorem follows_child_fails :
    (¬ ∀ ls, ∃ number, Posix.spec.AllSteps (Posix.Reports number) Posix.init ls) ∧
    (¬ ∀ ls, ∃ number, Windows.spec.AllSteps (Windows.Reports number) Windows.init ls) :=
  ⟨Posix.reports_fails, Windows.reports_fails⟩

end ClapRci.ProcessHandle
