import Mathlib.Logic.Function.Basic
import ClapRci.Lib.ActionSystem
import ClapRci.Lib.SoleHolder
import ClapRci.Core.ProcessHandle

/-!
# Process handles that are moved (`core/processhandle.cpp`)

Any number of `ProcessHandle` objects on POSIX, which are constructed, moved and destroyed, and
the children they start. `kill` and `waitpid` succeed.

`children_owned_iff`: every child that was started and not reaped is owned by one object, and no
null `dPtr` is used, in exactly the runs in which no object is used or destroyed after its
private part was moved away, and none that has a child is assigned to.
-/

namespace ClapRci.ProcessHandle.Posix

variable {ι : Type}

/-! ## The objects -/

/-- The objects and the children. -/
structure Objects (ι : Type) where
  /-- The `dPtr` of an object that is alive, which is null once it has been moved from. -/
  dPtr : ι → Option (Option ProcessHandlePrivate) := fun _ => none
  /-- The children that were started and not reaped. -/
  children : List Int := []
  /-- A null pointer has been dereferenced. -/
  crashed : Bool := false

namespace Objects

/-- What `waitpid` answers for the child, which ends so. -/
def answer (d : ProcessHandlePrivate) (e : Ending) : WaitResult := ⟨d.mChildHandle, e.raw⟩

section Methods

variable [DecidableEq ι] (s : Objects ι) (i : ι)

/-- Call a method on what `dPtr` points to. -/
def deref (f : ProcessHandlePrivate → Objects ι) : Option (Objects ι) :=
  match s.dPtr i with
  | none => none
  | some none => some { s with crashed := true }
  | some (some d) => some (f d)

/-- What `dPtr` points to is left so. -/
def set (d : ProcessHandlePrivate) : Objects ι :=
  { s with dPtr := Function.update s.dPtr i (some (some d)) }

/-- The method has waited for children. -/
def reap (o : Outcome) : Objects ι :=
  { s.set i o.handle with
    children := s.children.filter fun pid => !o.issued.contains (.waitpid pid) }

/-- `dPtr->startChild()`. -/
def started (fileExists : String → Bool) (fork : Option Nat) (d : ProcessHandlePrivate) :
    Objects ι :=
  let r := d.startChild fileExists (forkResult fork)
  { s.set i r.2 with children := if r.1 then forkResult fork :: s.children else s.children }

def startChild (fileExists : String → Bool) (fork : Option Nat) : Option (Objects ι) :=
  s.deref i (s.started i fileExists fork)

def waitForChild (e : Ending) : Option (Objects ι) :=
  s.deref i fun d => s.reap i (d.waitForChild (answer d e))

def terminateChild (e : Ending) : Option (Objects ι) :=
  s.deref i fun d => s.reap i (d.terminateChild true (answer d e))

/-- `~ProcessHandle()`, and the end of `dPtr`. -/
def destroyed (e : Ending) (d : ProcessHandlePrivate) : Objects ι :=
  -- there is no check that `dPtr` is not null
  let s := if d.isChildRunning then s.reap i (d.terminateChild true (answer d e)) else s
  { s with dPtr := Function.update s.dPtr i none }

def destroy (e : Ending) : Option (Objects ι) := s.deref i (s.destroyed i e)

/-- `dPtr(std::move(other.dPtr))` and `dPtr = std::move(other.dPtr)`. -/
def moveDPtr (other : ι) (dPtr : Option ProcessHandlePrivate) : Objects ι :=
  -- a private part that `i` had is deleted, which does nothing about its child
  { s with
    dPtr := Function.update (Function.update s.dPtr i (some dPtr)) other (some none) }

end Methods

/-- The operations: `ProcessHandle()`, which is the one with no path and no arguments, and
`ProcessHandle(path, args)`; what children end in and what `fork` returns. -/
inductive Lbl (ι : Type) where
  | construct (i : ι) (path : String) (args : List String)
  | startChild (i : ι) (fileExists : String → Bool) (fork : Option Nat)
  | waitForChild (i : ι) (e : Ending)
  | terminateChild (i : ι) (e : Ending)
  | moveConstruct (i other : ι)
  | moveAssign (i other : ι)
  | destroy (i : ι) (e : Ending)

/-- The pid of a new child is that of no other. -/
def step [DecidableEq ι] (s : Objects ι) (l : Lbl ι) : Option (Objects ι) :=
  if s.crashed then none
  else
    match l with
    | .construct i path args =>
      if (s.dPtr i).isSome then none else some (s.set i { mPath := path, mArgs := args })
    | .startChild i fileExists fork =>
      if forkResult fork ∈ s.children then none else s.startChild i fileExists fork
    | .waitForChild i e => s.waitForChild i e
    | .terminateChild i e => s.terminateChild i e
    | .moveConstruct i other =>
      if (s.dPtr i).isSome then none else (s.dPtr other).map (s.moveDPtr i other)
    | .moveAssign i other =>
      if (s.dPtr i).isNone then none
      else (s.dPtr other).map fun dPtr => if i = other then s else s.moveDPtr i other dPtr
    | .destroy i e => s.destroy i e

def spec (ι : Type) [DecidableEq ι] : ActionSystem.Spec (Objects ι) (Lbl ι) where
  Init s := s = {}
  step := step

/-! ### What is promised -/

/-- The object is alive and its handle is that of this process. -/
def Owns (s : Objects ι) (i : ι) (pid : Int) : Prop :=
  ∃ d, s.dPtr i = some (some d) ∧ d.mChildHandle = pid

/-- No null pointer was used, every child is owned by one object, and when all objects are
destroyed no child is left. -/
structure Owned (s : Objects ι) : Prop where
  notNull : s.crashed = false
  owner : ∀ pid ∈ s.children, ∃! i, s.Owns i pid
  ended : (∀ i, s.dPtr i = none) → s.children = []

/-- The object whose private part an operation uses. -/
def Lbl.uses : Lbl ι → Option ι
  | .startChild i _ _ | .waitForChild i _ | .terminateChild i _ | .destroy i _ => some i
  | .construct .. | .moveConstruct .. | .moveAssign .. => none

/-- The condition on a step: the private part it uses is there, and the object it moves to has
no child running. -/
structure Careful (s : Objects ι) (l : Lbl ι) : Prop where
  present : ∀ i, l.uses = some i → s.dPtr i ≠ some none
  vacant : ∀ i other d, l = .moveAssign i other → i ≠ other → s.dPtr i = some (some d) →
    d.isChildRunning = false

/-! ### Objects as holders of children -/

/-- The child that goes with a `dPtr`. -/
def child : Option (Option ProcessHandlePrivate) → Option Int
  | some (some d) => if d.isChildRunning then some d.mChildHandle else none
  | _ => none

/-- The child of each object. -/
def held (s : Objects ι) : ι → Option Int := child ∘ s.dPtr

/-- The invariant of the runs that keep to the condition. -/
structure Inv (s : Objects ι) : Prop where
  notNull : s.crashed = false
  exact : SoleHolder.Exact s.held s.children
  pid_pos : ∀ pid ∈ s.children, 0 < pid

section Steps

variable {s s' : Objects ι} {i : ι} {d : ProcessHandlePrivate}

theorem init_inv : Inv ({} : Objects ι) where
  notNull := rfl
  exact := SoleHolder.exact_nil
  pid_pos := List.forall_mem_nil _

theorem held_eq_some {pid : Int} : s.held i = some pid ↔ pid ≠ -1 ∧ s.Owns i pid := by
  unfold held Owns Function.comp child
  constructor
  · intro h
    split at h
    · rename_i d hd
      rw [Option.ite_none_right_eq_some, ProcessHandlePrivate.isChildRunning, bne_iff_ne] at h
      rcases h with ⟨hne, hpid⟩
      cases hpid
      exact ⟨hne, d, hd, rfl⟩
    · cases h
  · rintro ⟨hne, d, hd, rfl⟩
    rw [hd]
    exact if_pos (bne_iff_ne.mpr hne)

theorem held_of_none (hi : s.dPtr i = none) : s.held i = none := by
  simp [held, child, hi]

theorem held_eq_none (hd : s.dPtr i = some (some d)) (hrunning : d.isChildRunning = false) :
    s.held i = none := by
  simp [held, child, hd, hrunning]

theorem held_of_not_running (h : ∀ d, s.dPtr i = some (some d) → d.isChildRunning = false) :
    s.held i = none := by
  unfold held Function.comp child
  split
  · rename_i d hd
    rw [h d hd]
    rfl
  · rfl

/-- The promise, from the invariant. -/
theorem Inv.owned (h : Inv s) : Owned s where
  notNull := h.notNull
  owner := by
    intro pid hpid
    have hne : pid ≠ -1 := by
      have hpos := h.pid_pos pid hpid
      omega
    have howns : ∀ i, s.held i = some pid ↔ s.Owns i pid := by
      intro i
      rw [held_eq_some, and_iff_right hne]
    exact (existsUnique_congr howns).mp (h.exact.existsUnique hpid)
  ended := by
    intro hnone
    apply h.exact.eq_nil
    intro i
    simp [held, child, hnone i]

theorem Inv.mChildHandle (h : Inv s) (hd : s.dPtr i = some (some d)) :
    d.mChildHandle = -1 ∨ 0 < d.mChildHandle := by
  by_cases hne : d.mChildHandle = -1
  · exact Or.inl hne
  · have hheld : s.held i = some d.mChildHandle := held_eq_some.mpr ⟨hne, d, hd, rfl⟩
    exact Or.inr (h.pid_pos _ ((h.exact.mem_iff _).mpr ⟨i, hheld⟩))

/-! ### Steps -/

/-- What comes of waiting for the child, if there is one. -/
structure Reaps (d : ProcessHandlePrivate) (o : Outcome) : Prop where
  handle : o.handle.mChildHandle = -1
  issued : ∀ pid, SysCall.waitpid pid ∈ o.issued ↔ pid ≠ -1 ∧ pid = d.mChildHandle

theorem reaps_none (hd : d.mChildHandle = -1) : Reaps d ⟨none, d, []⟩ where
  handle := hd
  issued := by
    intro pid
    rw [hd]
    simp

theorem waitForChild_reaps (hd : d.mChildHandle = -1 ∨ 0 < d.mChildHandle) (e : Ending) :
    Reaps d (d.waitForChild (answer d e)) := by
  rcases hd with hd | hd
  · have ho : d.waitForChild (answer d e) = ⟨none, d, []⟩ := if_pos hd
    rw [ho]
    exact reaps_none hd
  · have ho : d.waitForChild (answer d e) = _ := waitForChild_some hd (unwrapStatus_raw e)
    rw [ho]
    refine ⟨rfl, ?_⟩
    intro pid
    simp only [List.mem_singleton, SysCall.waitpid.injEq]
    omega

theorem terminateChild_reaps (hd : d.mChildHandle = -1 ∨ 0 < d.mChildHandle) (e : Ending) :
    Reaps d (d.terminateChild true (answer d e)) := by
  rcases hd with hd | hd
  · have ho : d.terminateChild true (answer d e) = ⟨none, d, []⟩ := if_pos hd
    rw [ho]
    exact reaps_none hd
  · have ho : d.terminateChild true (answer d e) = _ := terminateChild_ended hd e
    rw [ho]
    refine ⟨rfl, ?_⟩
    intro pid
    simp only [List.mem_cons, SysCall.waitpid.injEq, List.not_mem_nil, or_false, reduceCtorEq,
      false_or]
    omega

variable [DecidableEq ι]

/-- An object without a child is changed, and has none afterwards. -/
theorem Inv.update (h : Inv s) (hi : s.held i = none) {x : Option (Option ProcessHandlePrivate)}
    (hx : child x = none) : Inv { s with dPtr := Function.update s.dPtr i x } where
  notNull := h.notNull
  exact := by
    have hheld : child ∘ Function.update s.dPtr i x = s.held := by
      rw [Function.comp_update, hx, ← hi]
      exact Function.update_eq_self i s.held
    show SoleHolder.Exact (child ∘ Function.update s.dPtr i x) s.children
    rw [hheld]
    exact h.exact
  pid_pos := h.pid_pos

theorem Inv.reap (h : Inv s) (hd : s.dPtr i = some (some d)) {o : Outcome} (ho : Reaps d o) :
    Inv (s.reap i o) ∧ (s.reap i o).held i = none := by
  have hheld : (s.reap i o).held = Function.update s.held i none := by
    have hchild : child (some (some o.handle)) = none := by
      simp [child, ProcessHandlePrivate.isChildRunning, ho.handle]
    show child ∘ Function.update s.dPtr i (some (some o.handle)) = _
    rw [Function.comp_update, hchild]
    rfl
  have hchildren : (s.reap i o).children = s.children.filter fun pid => s.held i ≠ some pid := by
    apply List.filter_congr
    intro pid hpid
    have hne : pid ≠ -1 := by
      have hpos := h.pid_pos pid hpid
      omega
    have hwaited : SysCall.waitpid pid ∈ o.issued ↔ s.held i = some pid := by
      rw [ho.issued, held_eq_some]
      refine and_congr_right fun _ => ?_
      constructor
      · rintro rfl
        exact ⟨d, hd, rfl⟩
      · rintro ⟨d', hd', rfl⟩
        rw [Option.some.inj (Option.some.inj (hd.symm.trans hd'))]
    simp [hwaited]
  refine ⟨⟨h.notNull, ?_, ?_⟩, ?_⟩
  · rw [hheld, hchildren]
    exact h.exact.drop i
  · intro pid hpid
    exact h.pid_pos pid (List.mem_of_mem_filter hpid)
  · rw [hheld]
    exact Function.update_self _ _ _

theorem Inv.started (h : Inv s) (hd : s.dPtr i = some (some d)) (fileExists : String → Bool)
    {fork : Option Nat} (hfork : forkResult fork ∉ s.children) :
    Inv (s.started i fileExists fork d) := by
  unfold Objects.started
  rw [startChild_eq]
  cases hvalid : d.isValid fileExists with
  | false =>
    -- refused: the object is written back as it was
    have hsame : s.set i d = s := by
      have hupdate : Function.update s.dPtr i (some (some d)) = s.dPtr := by
        rw [← hd]
        exact Function.update_eq_self i s.dPtr
      rw [set, hupdate]
    show Inv (s.set i d)
    rw [hsame]
    exact h
  | true =>
    -- a handle that can start a child has none
    have hrunning : d.isChildRunning = false := by
      simp only [ProcessHandlePrivate.isValid, Bool.and_eq_true, Bool.not_eq_true'] at hvalid
      exact hvalid.2
    have hfree := held_eq_none hd hrunning
    cases fork with
    | none => exact h.update hfree rfl
    | some n =>
      have hpos : 0 < forkResult (some n) := Int.natCast_succ_pos n
      have hchild : child (some (some { d with mChildHandle := forkResult (some n) })) =
          some (forkResult (some n)) := by
        simp only [child, ProcessHandlePrivate.isChildRunning, bne_iff_ne,
          Option.ite_none_right_eq_some, and_true]
        omega
      refine ⟨h.notNull, ?_, ?_⟩
      · show SoleHolder.Exact (child ∘ Function.update s.dPtr i _) (forkResult (some n) :: _)
        rw [Function.comp_update, if_pos rfl, hchild]
        exact h.exact.take hfree hfork
      · intro pid hpid
        rcases List.mem_cons.mp hpid with rfl | hpid
        · exact hpos
        · exact h.pid_pos pid hpid

theorem Inv.destroyed (h : Inv s) (hd : s.dPtr i = some (some d)) (e : Ending) :
    Inv (s.destroyed i e d) := by
  unfold Objects.destroyed
  cases hrunning : d.isChildRunning with
  | false => exact h.update (held_eq_none hd hrunning) rfl
  | true =>
    rcases h.reap hd (terminateChild_reaps (h.mChildHandle hd) e) with ⟨hinv, hfree⟩
    exact hinv.update hfree rfl

/-- What a move does to the children held. -/
theorem held_moveDPtr {other : ι} {dPtr : Option ProcessHandlePrivate}
    (hother : s.dPtr other = some dPtr) :
    (s.moveDPtr i other dPtr).held = SoleHolder.moved s.held i other := by
  show child ∘ Function.update (Function.update s.dPtr i (some dPtr)) other (some none) = _
  rw [Function.comp_update, Function.comp_update, ← hother]
  rfl

theorem Inv.moveDPtr (h : Inv s) (hfree : s.held i = none) {other : ι}
    {dPtr : Option ProcessHandlePrivate} (hother : s.dPtr other = some dPtr) :
    Inv (s.moveDPtr i other dPtr) where
  notNull := h.notNull
  exact := by
    rw [held_moveDPtr hother]
    exact h.exact.move hfree other
  pid_pos := h.pid_pos

/-- What a step does: it uses a null pointer, or it is the operation it says. -/
inductive Moves (s : Objects ι) : Lbl ι → Objects ι → Prop where
  | crashed {l : Lbl ι} {i : ι} (hl : l.uses = some i) (hnull : s.dPtr i = some none) :
    Moves s l { s with crashed := true }
  | constructed {i : ι} {path : String} {args : List String} (hi : s.dPtr i = none) :
    Moves s (.construct i path args) (s.set i { mPath := path, mArgs := args })
  | started {i : ι} {d : ProcessHandlePrivate} {fileExists : String → Bool} {fork : Option Nat}
    (hd : s.dPtr i = some (some d)) (hfork : forkResult fork ∉ s.children) :
    Moves s (.startChild i fileExists fork) (s.started i fileExists fork d)
  | waited {i : ι} {d : ProcessHandlePrivate} {e : Ending} (hd : s.dPtr i = some (some d)) :
    Moves s (.waitForChild i e) (s.reap i (d.waitForChild (answer d e)))
  | terminated {i : ι} {d : ProcessHandlePrivate} {e : Ending} (hd : s.dPtr i = some (some d)) :
    Moves s (.terminateChild i e) (s.reap i (d.terminateChild true (answer d e)))
  | moveConstructed {i other : ι} {dPtr : Option ProcessHandlePrivate} (hi : s.dPtr i = none)
    (hother : s.dPtr other = some dPtr) :
    Moves s (.moveConstruct i other) (s.moveDPtr i other dPtr)
  | moveAssigned {i other : ι} {dPtr : Option ProcessHandlePrivate} (hne : i ≠ other)
    (hother : s.dPtr other = some dPtr) :
    Moves s (.moveAssign i other) (s.moveDPtr i other dPtr)
  | unmoved {i : ι} : Moves s (.moveAssign i i) s
  | destroyed {i : ι} {d : ProcessHandlePrivate} {e : Ending} (hd : s.dPtr i = some (some d)) :
    Moves s (.destroy i e) (s.destroyed i e d)

theorem moves_of_deref {l : Lbl ι} {f : ProcessHandlePrivate → Objects ι}
    (hl : l.uses = some i) (hstep : s.deref i f = some s')
    (hf : ∀ d, s.dPtr i = some (some d) → Moves s l (f d)) : Moves s l s' := by
  unfold deref at hstep
  split at hstep
  · cases hstep
  · rename_i hnull
    cases hstep
    exact .crashed hl hnull
  · rename_i d hd
    cases hstep
    exact hf d hd

/-- The inversion lemma of `step`. -/
theorem step_moves {l : Lbl ι} (hstep : step s l = some s') : Moves s l s' := by
  unfold step at hstep
  split at hstep
  · cases hstep
  cases l with
  | construct i path args =>
    simp only at hstep
    split at hstep
    · cases hstep
    · rename_i hi
      cases hstep
      exact .constructed (Option.not_isSome_iff_eq_none.mp hi)
  | startChild i fileExists fork =>
    simp only at hstep
    split at hstep
    · cases hstep
    · rename_i hfork
      refine moves_of_deref rfl hstep ?_
      intro d hd
      exact .started hd hfork
  | waitForChild i e => exact moves_of_deref rfl hstep fun _ hd => .waited hd
  | terminateChild i e => exact moves_of_deref rfl hstep fun _ hd => .terminated hd
  | moveConstruct i other =>
    simp only at hstep
    split at hstep
    · cases hstep
    · rename_i hi
      rcases Option.map_eq_some_iff.mp hstep with ⟨dPtr, hother, rfl⟩
      exact .moveConstructed (Option.not_isSome_iff_eq_none.mp hi) hother
  | moveAssign i other =>
    simp only at hstep
    split at hstep
    · cases hstep
    · rcases Option.map_eq_some_iff.mp hstep with ⟨dPtr, hother, hs'⟩
      split at hs'
      · rename_i hsame
        cases hs'
        cases hsame
        exact .unmoved
      · rename_i hne
        cases hs'
        exact .moveAssigned hne hother
  | destroy i e => exact moves_of_deref rfl hstep fun _ hd => .destroyed hd

/-- A step that keeps to the condition. -/
theorem Inv.moves (h : Inv s) {l : Lbl ι} (hcareful : Careful s l) (hmoves : Moves s l s') :
    Inv s' := by
  cases hmoves with
  | constructed hi => exact h.update (held_of_none hi) rfl
  | crashed hl hnull => exact absurd hnull (hcareful.present _ hl)
  | started hd hfork => exact h.started hd _ hfork
  | waited hd => exact (h.reap hd (waitForChild_reaps (h.mChildHandle hd) _)).1
  | terminated hd => exact (h.reap hd (terminateChild_reaps (h.mChildHandle hd) _)).1
  | moveConstructed hi hother => exact h.moveDPtr (held_of_none hi) hother
  | @moveAssigned i other dPtr hne hother =>
    refine h.moveDPtr (held_of_not_running ?_) hother
    intro d hd
    exact hcareful.vacant i other d rfl hne hd
  | unmoved => exact h
  | destroyed hd => exact h.destroyed hd _

/-- A step that does not keep to it uses a null pointer or leaves a child to no one. -/
theorem Inv.careful (h : Inv s) {l : Lbl ι} (hmoves : Moves s l s') (howned : Owned s') :
    Careful s l := by
  constructor
  · intro i hi hnull
    cases hmoves with
    | crashed => cases howned.notNull
    | started hd | waited hd | terminated hd | destroyed hd =>
      cases hi
      cases hnull.symm.trans hd
    | constructed | moveConstructed | moveAssigned | unmoved => cases hi
  · rintro i other d rfl hne hd
    by_contra hrunning
    rw [Bool.not_eq_false, ProcessHandlePrivate.isChildRunning, bne_iff_ne] at hrunning
    have hheld : s.held i = some d.mChildHandle := held_eq_some.mpr ⟨hrunning, d, hd, rfl⟩
    -- the child is still there after the move, and only `i` knew it
    have hmem : d.mChildHandle ∈ s.children := (h.exact.mem_iff _).mpr ⟨i, hheld⟩
    cases hmoves with
    | crashed hl => cases hl
    | unmoved => exact hne rfl
    | moveAssigned _ hother =>
      rcases howned.owner _ hmem with ⟨i', howns, -⟩
      have hheld' := held_eq_some.mpr ⟨hrunning, howns⟩
      rw [held_moveDPtr hother] at hheld'
      exact h.exact.lost hheld hne i' hheld'

end Steps

/-- In a run, every child has one owner and no null pointer is used, exactly when no object
is used or destroyed after it was moved from, and none with a child is assigned to. -/
theorem children_owned_iff [DecidableEq ι] (ls : List (Lbl ι)) :
    (spec ι).AllSteps (fun _ _ s' => Owned s') {} ls ↔
      (spec ι).AllSteps (fun s l _ => Careful s l) {} ls := by
  refine (spec ι).allSteps_iff Inv ?_ ?_ init_inv ls
  · intro s l s' hinv hcareful hstep
    have hinv' := hinv.moves hcareful (step_moves hstep)
    exact ⟨hinv', hinv'.owned⟩
  · intro s l s' hinv hnot hstep howned
    exact hnot (hinv.careful (step_moves hstep) howned)

/-- An object is moved from and destroyed. -/
theorem children_owned_fails : ¬ ∀ ls, (spec Nat).AllSteps (fun _ _ s' => Owned s') {} ls := by
  intro h
  have hlast := (spec Nat).forall_allSteps_last h
    [.construct 0 "gui" [], .moveConstruct 1 0] (.destroy 0 (.exited 0#8)) rfl rfl
  cases hlast.notNull

end Objects

end ClapRci.ProcessHandle.Posix
