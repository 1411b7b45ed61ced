import ClapRci.Plugin.GuiCreate

/-!
# The children of a plugin (`plugin/coreplugin.cpp`, `core/processhandle.cpp`)

`guiProc` is all that a plugin knows of the GUI processes it has started. The host calls on the
GUI again and again, calls fail, and the processes end when they like.

* `children_in_turn`: the plugin waits for its children in the order in which it starts them,
  for each before it starts the next; and a `guiDestroy` that has returned has left none.
-/

namespace ClapRci.GuiCreate

open GuiCalls (Todo Launch Call guiCreate)
open ProcessHandle.Posix (ProcessHandlePrivate)

variable {κ : Type} [LinearOrder κ]

/-! ## Children -/

/-- The child of the handle, by its pid. -/
def child (guiProc : Option ProcessHandlePrivate) : List Int :=
  ((guiProc.filter ProcessHandlePrivate.isChildRunning).map (·.mChildHandle)).toList

/-- The child that a call starts. -/
def started (s : Sys κ) : Lbl κ → List Int
  | .call (.guiCreate l) =>
    if l.isRunning && s.gui.guiProc.isNone && starts l then [l.fork] else []
  | _ => []

/-- The child for which a turn has waited: it has been sent a `SIGTERM`, and is gone. -/
def waitedFor (s : Sys κ) : Lbl κ → List Int
  | .turn =>
    match s.gui.todo with
    | .terminateChild _ | .reset _ => if s.gui.childGone then child s.gui.guiProc else []
    | _ => []
  | _ => []

/-- `fork()` fails with -1, or returns a pid. -/
def Forks (l : Launch) : Prop := l.fork = -1 ∨ 0 < l.fork

theorem child_of_handle (guiProc : ProcessHandlePrivate) :
    child (some guiProc) = if guiProc.mChildHandle = -1 then [] else [guiProc.mChildHandle] := by
  by_cases hhandle : guiProc.mChildHandle = -1
  · simp [child, ProcessHandlePrivate.isChildRunning, hhandle, Option.filter]
  · simp [child, ProcessHandlePrivate.isChildRunning, hhandle, Option.filter]

/-- `startChild` of a new handle, with the executable and the arguments set. -/
theorem child_startChild {l : Launch} (hfork : Forks l) {executable : String}
    (hexists : l.fileExists executable = true) :
    child (some (({ mPath := executable, mArgs := l.args } : ProcessHandlePrivate).startChild
      l.fileExists l.fork).2) =
      if !executable.isEmpty && decide (0 ≤ l.fork) then [l.fork] else [] := by
  simp only [ProcessHandlePrivate.startChild, ProcessHandlePrivate.isValid,
    ProcessHandlePrivate.isChildRunning, hexists]
  cases executable.isEmpty with
  | true => simp [child_of_handle]
  | false =>
    rcases hfork with hfork | hfork
    · simp [hfork, child_of_handle]
    · have hnonneg : ¬ l.fork < 0 := by omega
      have hne : l.fork ≠ -1 := by omega
      have hle : 0 ≤ l.fork := by omega
      simp [hnonneg, hne, hle, child_of_handle]

/-- `guiCreate` starts a child where there was none, or changes nothing. -/
theorem child_guiCreate {l : Launch} (hfork : Forks l) (s : GuiCalls.Sys κ) :
    child (guiCreate l s).guiProc =
      child s.guiProc ++
        if l.isRunning && s.guiProc.isNone && starts l then [l.fork] else [] := by
  by_cases hrefused : l.isRunning = false ∨ s.guiProc.isSome = true
  · rw [guiCreate_refused hrefused]
    have hnone : (l.isRunning && s.guiProc.isNone) = false := by
      rcases hrefused with hstopped | hsome
      · rw [hstopped, Bool.false_and]
      · rw [Option.isNone_eq_false_iff.mpr hsome, Bool.and_false]
    simp [hnone]
  · rw [not_or, Bool.not_eq_false, Bool.not_eq_true, Option.isSome_eq_false_iff,
      Option.isNone_iff_eq_none] at hrefused
    obtain ⟨hrunning, hnone⟩ := hrefused
    simp only [guiCreate, hrunning, hnone, Option.isSome_none, Bool.not_true, Bool.false_eq_true,
      if_false, Option.isNone_none, Bool.and_self, Bool.true_and]
    cases hexecutable : l.executable with
    | none => simp [starts, hexecutable, child, ProcessHandlePrivate.isChildRunning]
    | some executable =>
      cases hexists : l.fileExists executable with
      | false =>
        simp [starts, hexecutable, hexists, ProcessHandlePrivate.setExecutable, child,
          ProcessHandlePrivate.isChildRunning]
      | true =>
        have hset : ({} : ProcessHandlePrivate).setExecutable l.fileExists executable =
            (true, { mPath := executable }) := by
          simp [ProcessHandlePrivate.setExecutable, ProcessHandlePrivate.isChildRunning, hexists]
        have hargs : ({ mPath := executable } : ProcessHandlePrivate).setArguments l.args =
            (true, { mPath := executable, mArgs := l.args }) := by
          simp [ProcessHandlePrivate.setArguments, ProcessHandlePrivate.isChildRunning]
        have hchild := child_startChild hfork hexists
        simp only [hset, hargs, starts, hexecutable, hexists, Option.any_some, Bool.and_true]
        cases hstart : ({ mPath := executable, mArgs := l.args } :
            ProcessHandlePrivate).startChild l.fileExists l.fork with
        | mk ok guiProc =>
          rw [hstart] at hchild
          cases ok with
          | false => exact hchild
          | true => exact hchild

/-! ## Steps -/

/-- In a step, a child is started where there is none, or the one there is has been waited for. -/
theorem step_child {s s' : Sys κ} {l : Lbl κ}
    (hforks : ∀ launch, l = .call (.guiCreate launch) → Forks launch)
    (hstep : step s l = some s') :
    child s.gui.guiProc ++ started s l = waitedFor s l ++ child s'.gui.guiProc := by
  cases l with
  | call c =>
    simp only [step, Option.ite_none_right_eq_some] at hstep
    rw [← Option.some.inj hstep.2]
    cases c with
    | guiCreate launch => exact (child_guiCreate (hforks launch rfl) s.gui).symm
    | _ => exact List.append_nil _
  | other l =>
    cases hstep
    cases l <;> exact List.append_nil _
  | turn =>
    cases hstep
    have hnone : started s (.turn : Lbl κ) = [] := rfl
    rw [hnone, List.append_nil]
    simp only [waitedFor, GuiCalls.turn]
    cases htodo : s.gui.todo with
    | returned ok => rfl
    | waitPolling next =>
      dsimp only
      split <;> rfl
    | push ev next =>
      dsimp only
      split <;> rfl
    | verify e verified failed => rfl
    | terminateChild next =>
      dsimp only
      split
      · -- the handle lets go of the child
        cases s.gui.guiProc with
        | none => rfl
        | some guiProc => simp [child_of_handle]
      · rfl
    | reset next =>
      dsimp only
      split
      · exact (List.append_nil _).symm
      · rfl

/-- The rest of `guiDestroy`: it returns only by way of the reset. -/
def Destroying : Todo → Prop
  | .push _ next => Destroying next
  | .verify _ verified failed => Destroying verified ∧ Destroying failed
  | .reset next => ∃ ok, next = .returned ok
  | _ => False

/-- `guiDestroy` is under way, or `guiProc` is reset. -/
def Destroyed (g : GuiCalls.Sys κ) : Prop :=
  Destroying g.todo ∨ returned g.todo = true ∧ g.guiProc = none

theorem Destroyed.turn {g : GuiCalls.Sys κ} (h : Destroyed g) : Destroyed (GuiCalls.turn g) := by
  rcases h with h | ⟨hreturned, hnone⟩
  · cases htodo : g.todo with
    | returned ok | waitPolling next | terminateChild next =>
      rw [htodo] at h
      exact h.elim
    | push ev next =>
      rw [htodo] at h
      simp only [GuiCalls.turn, htodo, GuiCalls.pushTry_eq]
      cases g.poll.data.isValid with
      | false => exact Or.inl (htodo.symm ▸ h)
      | true => exact Or.inl h
    | verify e verified failed =>
      rw [htodo] at h
      simp only [GuiCalls.turn, htodo, Destroyed]
      split
      · exact Or.inl h.1
      · exact Or.inl h.2
    | reset next =>
      have hreset := h
      rw [htodo] at h
      obtain ⟨ok, rfl⟩ := h
      simp only [GuiCalls.turn, htodo]
      split
      · exact Or.inr ⟨rfl, rfl⟩
      · exact Or.inl hreset
  · have hsame : GuiCalls.turn g = g := by
      unfold GuiCalls.turn
      cases htodo : g.todo with
      | returned ok => rfl
      | _ =>
        rw [htodo] at hreturned
        cases hreturned
    rw [hsame]
    exact Or.inr ⟨hreturned, hnone⟩

theorem Destroyed.step {s s' : Sys κ} {l : Lbl κ} (h : Destroyed s.gui) (hl : ∀ c, l ≠ .call c)
    (hstep : step s l = some s') : Destroyed s'.gui := by
  cases l with
  | call c => exact absurd rfl (hl c)
  | other l =>
    cases hstep
    cases l <;> exact h
  | turn =>
    cases hstep
    exact h.turn

/-- The rest of a run in which nothing is called after `guiDestroy`. -/
theorem Destroyed.run {plugin : PluginPtr} {params : List EnqueueAuxiliaries.ClapParamInfo}
    {s t : Sys κ} {ls : List (Lbl κ)} (h : Destroyed s.gui) (hls : ∀ c, .call c ∉ ls)
    (hrun : (spec κ plugin params).run s ls = some t) : Destroyed t.gui := by
  induction ls generalizing s with
  | nil =>
    cases hrun
    exact h
  | cons l ls ih =>
    rcases (spec κ plugin params).run_cons hrun with ⟨s', hstep, hrest⟩
    refine ih (h.step ?_ hstep) ?_ hrest
    · rintro c rfl
      exact hls c List.mem_cons_self
    · intro c hc
      exact hls c (List.mem_cons_of_mem _ hc)

/-- In every run, the children started are those that have been waited for, in the same order,
and last the one that `guiProc` has, if it has one; and when a `guiDestroy` has returned, and
nothing has been called since, all of them have been waited for. -/
theorem children_in_turn {plugin : PluginPtr}
    {params : List EnqueueAuxiliaries.ClapParamInfo} {ls : List (Lbl κ)} {t : Sys κ}
    (hforks : ∀ launch, .call (.guiCreate launch) ∈ ls → Forks launch)
    (hrun : (spec κ plugin params).run (start κ plugin params) ls = some t) :
    (spec κ plugin params).outputs started (start κ plugin params) ls =
        (spec κ plugin params).outputs waitedFor (start κ plugin params) ls ++
          child t.gui.guiProc ∧
      ∀ ks ms, ls = ks ++ .call .guiDestroy :: ms → (∀ c, .call c ∉ ms) →
        returned t.gui.todo = true → t.gui.guiProc = none := by
  constructor
  · refine (spec κ plugin params).outputs_balance
      (fun s l s' hfork hstep => step_child hfork hstep) ?_ hrun
    rintro l hl launch rfl
    exact hforks launch hl
  · rintro ks ms rfl hms hreturned
    rcases (spec κ plugin params).run_split hrun with ⟨u, -, hrest⟩
    rcases (spec κ plugin params).run_cons hrest with ⟨v, hcall, hrest⟩
    have hstart : Destroyed v.gui := by
      simp only [spec, step, Option.ite_none_right_eq_some] at hcall
      rw [← Option.some.inj hcall.2]
      exact Or.inl ⟨⟨_, rfl⟩, ⟨_, rfl⟩⟩
    rcases hstart.run hms hrest with hdestroying | ⟨-, hnone⟩
    · cases htodo : t.gui.todo with
      | returned ok =>
        rw [htodo] at hdestroying
        exact hdestroying.elim
      | _ =>
        rw [htodo] at hreturned
        cases hreturned
    · exact hnone

/-- The executable is there, and `fork` succeeds. -/
def aLaunch : Launch where
  isRunning := true
  executable := some "gui"
  fileExists _ := true
  args := []
  fork := 7

/-- The GUI starts and ends, and the server polls for a client. The GUI does not verify, so that
`guiCreate` waits for it. -/
def failingGui : List (Lbl Nat) :=
  [.call (.guiCreate aLaunch), .other (.poll (.addStream 3)),
    .other (.poll (.tryStartPolling (some 0))), .turn, .turn, .turn, .other .childEnds, .turn]

/-- The child that is killed is not left behind. -/
theorem children_in_turn_failing : ∃ t,
    (spec Nat 1 []).run (start Nat 1 []) failingGui = some t ∧ child t.gui.guiProc = [] := by
  have hstarted : (spec Nat 1 []).outputs started (start Nat 1 []) failingGui = [7] := by decide
  have hwaited : (spec Nat 1 []).outputs waitedFor (start Nat 1 []) failingGui = [7] := by decide
  obtain ⟨t, hrun⟩ : ∃ t, (spec Nat 1 []).run (start Nat 1 []) failingGui = some t := ⟨_, rfl⟩
  have hforks : ∀ launch, (.call (.guiCreate launch) : Lbl Nat) ∈ failingGui → Forks launch := by
    intro launch hmem
    simp only [failingGui, List.mem_cons, Lbl.call.injEq, Call.guiCreate.injEq, reduceCtorEq,
      List.not_mem_nil, or_false] at hmem
    rw [hmem]
    exact Or.inr (by decide)
  have hbalance := (children_in_turn hforks hrun).1
  rw [hstarted, hwaited] at hbalance
  exact ⟨t, hrun, List.append_right_eq_self.mp hbalance.symm⟩

end ClapRci.GuiCreate
