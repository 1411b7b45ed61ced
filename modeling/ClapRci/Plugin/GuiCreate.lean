import ClapRci.Lib.ActionSystem
import ClapRci.Plugin.GuiCalls

/-!
# `guiCreate` that fails (`plugin/coreplugin.cpp`)

The host calls on the GUI of a plugin again and again, each call after the last one has
returned, next to the server and the clients. `kill` and `waitpid` succeed.

`failure_atomic_iff`: a `guiCreate` that returns false leaves `guiProc` as it was in exactly the
runs in which, with the server running and no `guiProc`, every launch succeeds, and no GUI is
killed because its verification failed: once `guiProc` is assigned no exit takes it back.
-/

namespace ClapRci.GuiCreate

open GuiCalls (Todo Launch Call guiCreate guiCreated)
open ProcessHandle.Posix (ProcessHandlePrivate)

variable {κ : Type} [LinearOrder κ]

/-! ## Runs -/

/-- The plugin, and if the last call is `guiCreate` what `guiProc` was before it and whether it
has started a child. -/
structure Sys (κ : Type) [LinearOrder κ] where
  gui : GuiCalls.Sys κ
  before : Option (Option ProcessHandlePrivate) := none
  started : Bool := false

/-- A call begins; the main thread takes a turn in it; what happens between two turns. -/
inductive Lbl (κ : Type) where
  | call (c : Call)
  | turn
  | other (l : GuiCalls.Lbl κ)

/-- The call is over. -/
def returned : Todo → Bool
  | .returned _ => true
  | _ => false

/-- `guiCreate` is over at once unless it has started the child. -/
def Sys.call (s : Sys κ) (c : Call) : Sys κ :=
  let gui := s.gui.call c
  match c with
  | .guiCreate _ => { gui := gui, before := some s.gui.guiProc, started := !returned gui.todo }
  | _ => { gui := gui }

def step (s : Sys κ) : Lbl κ → Option (Sys κ)
  | .call c => if returned s.gui.todo then some (s.call c) else none
  | .turn => some { s with gui := GuiCalls.turn s.gui }
  | .other l => some { s with gui := GuiCalls.other s.gui l }

/-- A plugin with these parameters whose GUI has not been opened. -/
def start (κ : Type) [LinearOrder κ] (plugin : PluginPtr)
    (params : List EnqueueAuxiliaries.ClapParamInfo) : Sys κ where
  gui := { poll := PollRounds.init κ plugin, params := params }

def spec (κ : Type) [LinearOrder κ] (plugin : PluginPtr)
    (params : List EnqueueAuxiliaries.ClapParamInfo) : ActionSystem.Spec (Sys κ) (Lbl κ) where
  Init s := s = start κ plugin params
  step := step

/-! ## What is promised -/

/-- A new `ProcessHandle` can be started: there is an executable at a path, and `fork` does not
fail. -/
def starts (l : Launch) : Bool :=
  l.executable.any fun executable =>
    !executable.isEmpty && l.fileExists executable && decide (0 ≤ l.fork)

/-- The child that `guiCreate` has started is running. -/
def Sys.childRunning (s : Sys κ) : Bool := s.started && !s.gui.childGone

/-- What a `guiCreate` that has returned false leaves: `guiProc` as it was, no child that it has
started, and another one gets as far as to wait for the GUI. -/
structure Restored (s : Sys κ) (before : Option ProcessHandlePrivate) : Prop where
  guiProc : s.gui.guiProc = before
  noChild : s.childRunning = false
  again : before = none → ∀ l : Launch, l.isRunning = true → starts l = true →
    (s.gui.call (.guiCreate l)).todo = guiCreated s.gui.params

def Atomic (s : Sys κ) : Prop :=
  ∀ before, s.before = some before → s.gui.todo = .returned false → Restored s before

/-- The condition on a step: a `guiCreate` that finds the server running and no `guiProc` starts
the child, and none finds that the child is gone which it has killed. -/
structure Clean (s : Sys κ) (l : Lbl κ) : Prop where
  launch : ∀ launch, l = .call (.guiCreate launch) → launch.isRunning = true →
    s.gui.guiProc = none → starts launch = true
  verified : ∀ next, l = .turn → s.before.isSome = true → s.gui.todo = .terminateChild next →
    s.gui.childGone = false

/-! ## The call -/

section Calls

variable {s : GuiCalls.Sys κ} {l : Launch}

/-- With the server running and no `guiProc`, what `guiCreate` comes to hangs on the launch. -/
theorem guiCreate_of_none (hrunning : l.isRunning = true) (hnone : s.guiProc = none) :
    ∃ guiProc, guiCreate l s =
      if starts l then
        { s with guiProc := some guiProc, childEnded := false, todo := guiCreated s.params }
      else { s with guiProc := some guiProc, todo := .returned false } := by
  simp only [guiCreate, hrunning, hnone, Option.isSome_none, Bool.not_true, Bool.false_eq_true,
    if_false]
  cases hexecutable : l.executable with
  | none =>
    have hstarts : starts l = false := by simp [starts, hexecutable]
    exact ⟨_, by simp only [hstarts]; rfl⟩
  | some executable =>
    cases hexists : l.fileExists executable with
    | false =>
      have hstarts : starts l = false := by simp [starts, hexecutable, hexists]
      exact ⟨{}, by simp [hstarts, ProcessHandlePrivate.setExecutable, hexists]⟩
    | true =>
      -- the handle is new, so that both setters accept, and the rest is `startChild`
      have hset : ({} : ProcessHandlePrivate).setExecutable l.fileExists executable =
          (true, { mPath := executable }) := by
        simp [ProcessHandlePrivate.setExecutable, ProcessHandlePrivate.isChildRunning, hexists]
      have hargs : ({ mPath := executable } : ProcessHandlePrivate).setArguments l.args =
          (true, { mPath := executable, mArgs := l.args }) := by
        simp [ProcessHandlePrivate.setArguments, ProcessHandlePrivate.isChildRunning]
      have hstart : (({ mPath := executable, mArgs := l.args } : ProcessHandlePrivate).startChild
          l.fileExists l.fork).1 = starts l := by
        simp only [ProcessHandlePrivate.startChild, ProcessHandlePrivate.isValid,
          ProcessHandlePrivate.isChildRunning, starts, hexecutable, hexists, Option.any_some]
        cases executable.isEmpty with
        | true => rfl
        | false =>
          by_cases hfork : l.fork < 0
          · simp [hfork]
          · have hle : 0 ≤ l.fork := by omega
            simp [hfork, hle]
      simp only [hset, hargs]
      cases hstarted : ({ mPath := executable, mArgs := l.args } : ProcessHandlePrivate).startChild
          l.fileExists l.fork with
      | mk ok guiProc =>
        rw [hstarted] at hstart
        rw [← hstart]
        cases ok with
        | false => exact ⟨guiProc, rfl⟩
        | true => exact ⟨guiProc, rfl⟩

/-- Otherwise it is over at once. -/
theorem guiCreate_refused (h : l.isRunning = false ∨ s.guiProc.isSome = true) :
    guiCreate l s = { s with todo := .returned false } := by
  unfold guiCreate
  rcases h with h | h
  · rw [h]
    rfl
  · rw [h, if_pos rfl]
    exact ite_self _

/-- The rest of `guiCreate` once the child is started: it comes to `returned false` only by way
of `terminateChild`. -/
def Pending : Todo → Prop
  | .returned ok => ok = true
  | .waitPolling next | .push _ next => Pending next
  | .verify _ verified failed => Pending verified ∧ Pending failed
  | .terminateChild next => next = .returned false
  | .reset _ => False

theorem pending_enqueueAuxiliaries (params : List EnqueueAuxiliaries.ClapParamInfo) :
    Pending (GuiCalls.enqueueAuxiliaries params (.returned true)) := by
  induction params with
  | nil => rfl
  | cons p params ih => exact ih

theorem pending_guiCreated (params : List EnqueueAuxiliaries.ClapParamInfo) :
    Pending (guiCreated params) :=
  ⟨pending_enqueueAuxiliaries params, rfl⟩

/-- A turn in what is left of `guiCreate`, up to the child that is killed. -/
theorem Pending.turn (h : Pending s.todo)
    (hgone : ∀ next, s.todo = .terminateChild next → s.childGone = false) :
    Pending (GuiCalls.turn s).todo ∧ (GuiCalls.turn s).guiProc = s.guiProc := by
  cases htodo : s.todo with
  | returned ok =>
    simp only [GuiCalls.turn, htodo]
    exact ⟨htodo ▸ h, trivial⟩
  | waitPolling next =>
    simp only [GuiCalls.turn, htodo]
    rw [htodo] at h
    split
    · exact ⟨h, rfl⟩
    · exact ⟨htodo.symm ▸ h, rfl⟩
  | push ev next =>
    simp only [GuiCalls.turn, htodo, GuiCalls.pushTry_eq]
    rw [htodo] at h
    cases s.poll.data.isValid with
    | false => exact ⟨htodo.symm ▸ h, rfl⟩
    | true => exact ⟨h, rfl⟩
  | verify e verified failed =>
    simp only [GuiCalls.turn, htodo]
    rw [htodo] at h
    refine ⟨?_, trivial⟩
    split
    · exact h.1
    · exact h.2
  | terminateChild next =>
    have hready : s.ready = false := by
      unfold GuiCalls.Sys.ready
      rw [htodo]
      exact hgone next htodo
    rw [GuiCalls.turn_of_not_ready hready]
    exact ⟨h, rfl⟩
  | reset next =>
    rw [htodo] at h
    exact h.elim

end Calls

/-! ## Steps -/

section Steps

variable {s s' : Sys κ} {l : Lbl κ}

/-- After a `guiCreate`: it has failed and left everything as it was, or it has started a child
and is under way or has succeeded. -/
def Inv (s : Sys κ) : Prop :=
  ∀ before, s.before = some before →
    (s.gui.todo = .returned false ∧ Restored s before) ∨
      (Pending s.gui.todo ∧ before = none ∧ s.gui.guiProc.isSome = true)

theorem Inv.atomic (h : Inv s) : Atomic s := by
  intro before hbefore hfalse
  rcases h before hbefore with ⟨-, hrestored⟩ | ⟨hpending, -, -⟩
  · exact hrestored
  · rw [hfalse] at hpending
    cases hpending

theorem restored_of_refused {before : Option ProcessHandlePrivate}
    (hguiProc : s.gui.guiProc = before) (hstarted : s.started = false) : Restored s before where
  guiProc := hguiProc
  noChild := by simp [Sys.childRunning, hstarted]
  again := by
    rintro rfl launch hrunning hstarts
    rcases guiCreate_of_none hrunning hguiProc with ⟨guiProc, hcreate⟩
    simp only [GuiCalls.Sys.call, hcreate, hstarts, if_true]

/-- A call begins. -/
theorem Inv.call (c : Call) (hclean : Clean s (.call c)) : Inv (s.call c) := by
  intro before hbefore
  cases c with
  | guiCreate launch =>
    cases hbefore
    -- the call gets past the two checks, or not
    by_cases hnone : launch.isRunning = true ∧ s.gui.guiProc = none
    · -- the launch succeeds, and the rest of the call is ahead
      right
      rcases hnone with ⟨hrunning, hnone⟩
      rcases guiCreate_of_none hrunning hnone with ⟨guiProc, hcreate⟩
      rw [hclean.launch launch rfl hrunning hnone, if_pos rfl] at hcreate
      refine ⟨?_, hnone, ?_⟩
      · show Pending (guiCreate launch s.gui).todo
        rw [hcreate]
        exact pending_guiCreated _
      · show (guiCreate launch s.gui).guiProc.isSome = true
        rw [hcreate]
        rfl
    · -- one of the two checks before `guiProc` is assigned
      left
      have hrefused : launch.isRunning = false ∨ s.gui.guiProc.isSome = true := by
        rw [not_and_or, Bool.not_eq_true] at hnone
        rcases hnone with hstopped | hsome
        · exact Or.inl hstopped
        · exact Or.inr (Option.isSome_iff_ne_none.mpr hsome)
      have hcreate := guiCreate_refused hrefused
      refine ⟨?_, restored_of_refused ?_ ?_⟩
      · show (guiCreate launch s.gui).todo = _
        rw [hcreate]
      · show (guiCreate launch s.gui).guiProc = _
        rw [hcreate]
      · show (!returned (guiCreate launch s.gui).todo) = false
        rw [hcreate]
        rfl
  | guiSetTransient | guiShow | guiHide | guiDestroy => cases hbefore

/-- What happens between two turns ends the child at most. -/
theorem Restored.other {before : Option ProcessHandlePrivate} (h : Restored s before)
    (l : GuiCalls.Lbl κ) : Restored { s with gui := GuiCalls.other s.gui l } before := by
  have hguiProc : (GuiCalls.other s.gui l).guiProc = s.gui.guiProc := by
    cases l <;> rfl
  refine ⟨hguiProc.trans h.guiProc, ?_, ?_⟩
  · have hchild := h.noChild
    simp only [Sys.childRunning, GuiCalls.Sys.childGone, hguiProc] at hchild ⊢
    cases l with
    | childEnds =>
      show (s.started && !(_ || true)) = false
      simp
    | _ => exact hchild
  · rintro rfl launch hrunning hstarts
    rcases guiCreate_of_none hrunning (hguiProc.trans h.guiProc) with ⟨guiProc, hcreate⟩
    simp only [GuiCalls.Sys.call, hcreate, hstarts, if_true]

theorem Inv.step (h : Inv s) (hclean : Clean s l) (hstep : step s l = some s') : Inv s' := by
  cases l with
  | call c =>
    simp only [GuiCreate.step, Option.ite_none_right_eq_some] at hstep
    rw [← Option.some.inj hstep.2]
    exact Inv.call c hclean
  | turn =>
    cases hstep
    intro before hbefore
    rcases h before hbefore with ⟨hfalse, hrestored⟩ | ⟨hpending, hnone, hsome⟩
    · have hsame : GuiCalls.turn s.gui = s.gui := by
        unfold GuiCalls.turn
        rw [hfalse]
      simp only [hsame]
      exact Or.inl ⟨hfalse, hrestored⟩
    · have hturn := hpending.turn fun next htodo =>
        hclean.verified next rfl (by rw [hbefore]; rfl) htodo
      refine Or.inr ⟨hturn.1, hnone, ?_⟩
      simp only [hturn.2, hsome]
  | other l =>
    cases hstep
    intro before hbefore
    have htodo := (GuiCalls.other_keeps s.gui l).1
    rcases h before hbefore with ⟨hfalse, hrestored⟩ | ⟨hpending, hnone, hsome⟩
    · exact Or.inl ⟨htodo.trans hfalse, hrestored.other l⟩
    · refine Or.inr ⟨htodo.symm ▸ hpending, hnone, ?_⟩
      cases l <;> exact hsome

/-- A launch that fails, and a GUI that is killed, leave a `guiProc`. -/
theorem Inv.clean (h : Inv s) (hstep : GuiCreate.step s l = some s') (hatomic : Atomic s') :
    Clean s l := by
  constructor
  · rintro launch rfl hrunning hnone
    simp only [GuiCreate.step, Option.ite_none_right_eq_some] at hstep
    rw [← Option.some.inj hstep.2] at hatomic
    rcases guiCreate_of_none hrunning hnone with ⟨guiProc, hcreate⟩
    -- an exit after the assignment, which stays
    by_contra hstarts
    rw [if_neg hstarts] at hcreate
    have hrestored := hatomic s.gui.guiProc rfl (by
      show (guiCreate launch s.gui).todo = _
      rw [hcreate])
    have hguiProc : (guiCreate launch s.gui).guiProc = s.gui.guiProc := hrestored.guiProc
    rw [hcreate, hnone] at hguiProc
    cases hguiProc
  · rintro next rfl hsome htodo
    cases hstep
    rcases Option.isSome_iff_exists.mp hsome with ⟨before, hbefore⟩
    rcases h before hbefore with ⟨hfalse, -⟩ | ⟨hpending, hnone, hguiProc⟩
    · cases htodo.symm.trans hfalse
    · rw [htodo] at hpending
      -- the child is reaped, and `guiProc` is still there without it
      by_contra hgone
      rw [Bool.not_eq_false] at hgone
      have hturn : GuiCalls.turn s.gui = { s.gui with
          guiProc := s.gui.guiProc.map fun guiProc => { guiProc with mChildHandle := -1 }
          todo := next } := by
        simp only [GuiCalls.turn, htodo, hgone, if_true]
      have hrestored := hatomic before hbefore (by
        show (GuiCalls.turn s.gui).todo = _
        rw [hturn]
        exact hpending)
      have hkept : (GuiCalls.turn s.gui).guiProc = before := hrestored.guiProc
      rw [hturn, hnone] at hkept
      simp only [Option.map_eq_none_iff] at hkept
      rw [hkept] at hguiProc
      cases hguiProc

end Steps

/-- In a run, a `guiCreate` that returns false leaves the plugin as it was exactly when no
launch fails, with the server running and no `guiProc`, and no GUI is killed for not verifying. -/
theorem failure_atomic_iff (plugin : PluginPtr)
    (params : List EnqueueAuxiliaries.ClapParamInfo) (ls : List (Lbl κ)) :
    (spec κ plugin params).AllSteps (fun _ _ s' => Atomic s') (start κ plugin params) ls ↔
      (spec κ plugin params).AllSteps (fun s l _ => Clean s l) (start κ plugin params) ls := by
  refine (spec κ plugin params).allSteps_iff Inv ?_ ?_ ?_ ls
  · intro s l s' hinv hclean hstep
    have hinv' := hinv.step hclean hstep
    exact ⟨hinv', hinv'.atomic⟩
  · intro s l s' hinv hnot hstep hatomic
    exact hnot (hinv.clean hstep hatomic)
  · intro before hbefore
    cases hbefore

/-- The server runs, and the executable is gone. -/
def noExecutable : Launch where
  isRunning := true
  executable := none
  fileExists _ := true
  args := []
  fork := 7

theorem failure_atomic_fails : ¬ ∀ (plugin : PluginPtr)
    (params : List EnqueueAuxiliaries.ClapParamInfo) (ls : List (Lbl Nat)),
    (spec Nat plugin params).AllSteps (fun _ _ s' => Atomic s') (start Nat plugin params) ls := by
  intro h
  have hlast := (spec Nat 1 []).forall_allSteps_last (h 1 []) []
    (.call (.guiCreate noExecutable)) rfl rfl
  have hrestored := hlast none rfl rfl
  cases hrestored.guiProc

end ClapRci.GuiCreate
