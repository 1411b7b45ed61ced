import ClapRci.Plugin.ClientParams

/-!
# Stopping the server under a batch of updates (`plugin/coreplugin.cpp`, `server/server.cpp`)

The completion-queue thread of the unary calls hands one batch after the other to
`pushClientParam`, for any of the plugins, and each plugin's audio thread takes the updates
while the plugin is active. `~CorePlugin` stops the server, whoever else is connected.

* `exists_settled`: the handler under way, left alone, ends or waits on a full queue, as the
  number of updates that are in the queue or still to enter it decides;
* `neverDeadlocked_iff`: `Server::stop` waits for no handler that waits on a full queue,
  however the handler goes on, exactly when that number is at most 64 whenever `stop` begins,
  and whenever a batch begins under it.
-/

namespace ClapRci.BatchShutdown

open ClientParams (Producer stampOf)
open RunningMax

/-! ## Plugins, the unary calls and the main thread -/

/-- What the host has done with a plugin. It destroys none that it has not deactivated. -/
inductive Phase where
  | fresh | inactive | active | destroyed
deriving DecidableEq

/-- The host's main thread: in none of these calls; in `~CorePlugin` after `removePlugin`; in
`Server::stop`, which waits for the threads of the completion queues. -/
inductive Main where
  | idle | removed | stopping
deriving DecidableEq

/-- The plugins, with the plugin whose batch the thread of the unary calls works on. -/
structure Sys (ι : Type) where
  plugin : ι → ClientParams.Sys
  phase : ι → Phase := fun _ => .fresh
  current : Option ι := none
  isRunning : Bool := false
  main : Main := .idle

/-- The main thread (`construct` to `deactivate`, and from `removePlugin` on), the audio thread
of a plugin, and the thread of the unary calls. -/
inductive Lbl (ι : Type) where
  | construct (i : ι)
  | activate (i : ι)
  | deactivate (i : ι)
  | processGuiEvents (i : ι)
  | turn (i : ι) (ok : Bool)
  | pushClientParam (i : ι) (ev : Api.ClientParams)
  | next
  | tryPush
  | removePlugin (i : ι)
  | stop
  | stopReturns

section Model

variable {ι : Type} [DecidableEq ι]

def Sys.setPhase (s : Sys ι) (i : ι) (phase : Phase) : Sys ι :=
  { s with phase := Function.update s.phase i phase }

/-- A step of one of the two threads at a plugin. -/
def Sys.at (s : Sys ι) (i : ι) (l : ClientParams.Lbl) : Option (Sys ι) :=
  (ClientParams.step (s.plugin i) l).map fun p =>
    { s with plugin := Function.update s.plugin i p }

def isIdle : Producer → Bool
  | .idle => true
  | _ => false

/-- The handler goes on with its batch, or is done with it. -/
def Sys.goOn (s : Sys ι) (l : ClientParams.Lbl) : Option (Sys ι) :=
  match s.current with
  | none => none
  | some i =>
    (s.at i l).map fun s' =>
      { s' with current := if isIdle (s'.plugin i).producer then none else some i }

/-- `getSharedData` finds the plugins that are registered. -/
def Sys.registered (s : Sys ι) (i : ι) : Bool :=
  s.phase i = .inactive || s.phase i = .active

def step (s : Sys ι) : Lbl ι → Option (Sys ι)
  | .construct i =>
    if s.main = .idle ∧ s.phase i = .fresh then
      some { s.setPhase i .inactive with isRunning := true }
    else none
  | .activate i =>
    if s.main = .idle ∧ s.phase i = .inactive then some (s.setPhase i .active) else none
  | .deactivate i =>
    if s.main = .idle ∧ s.phase i = .active ∧ (s.plugin i).processing = false then
      some (s.setPhase i .inactive)
    else none
  | .processGuiEvents i => if s.phase i = .active then s.at i .processGuiEvents else none
  | .turn i ok => if s.phase i = .active then s.at i (.turn ok) else none
  -- an unknown plugin is answered at once
  | .pushClientParam i ev =>
    if s.isRunning ∧ s.current.isNone ∧ s.registered i then
      (s.at i (.pushClientParam ev)).map fun s' => { s' with current := some i }
    else none
  | .next => s.goOn .next
  | .tryPush => s.goOn .tryPush
  | .removePlugin i =>
    if s.main = .idle ∧ s.phase i = .inactive then
      some { s.setPhase i .destroyed with main := .removed }
    else none
  | .stop =>
    match s.main with
    | .removed => some { s with main := if s.isRunning then .stopping else .idle }
    | _ => none
  | .stopReturns =>
    if s.main = .stopping ∧ s.current.isNone then
      some { s with main := .idle, isRunning := false }
    else none

/-- No plugin is there yet. -/
def init (params : ι → ParamStore) : Sys ι where
  plugin i := ClientParams.start (params i)

/-- Any number of plugins in one process. -/
def spec (params : ι → ParamStore) : ActionSystem.Spec (Sys ι) (Lbl ι) where
  Init s := s = init params
  step := step

end Model

/-! ## What is promised -/

section Promise

variable {ι : Type}

/-- `stop` waits for a handler that waits to push, and the queue is full. -/
structure Deadlocked (s : Sys ι) : Prop where
  stopping : s.main = .stopping
  waits : ∃ i p todo, s.current = some i ∧ (s.plugin i).producer = .push p todo ∧
    ¬ (s.plugin i).queue.length < 64

/-- The handler under way goes on. -/
def Lbl.IsHandler : Lbl ι → Prop
  | .next | .tryPush => True
  | _ => False

/-- The updates of the current batch that are still to enter the queue: the strict running
maxima of their time stamps. -/
def pending (p : ClientParams.Sys) : List Api.ClientParam :=
  p.producer.pushing ++ runningMaxima stampOf p.data.mLastClientStamp p.producer.todo

/-- How many updates are in the queue, or will enter it. -/
def load (p : ClientParams.Sys) : Nat := p.queue.length + (pending p).length

/-- The condition on a step: the batch under way fits into the queue when `stop` begins, and
so does one that begins while `stop` waits. -/
def BatchFits (s : Sys ι) : Lbl ι → Prop
  | .stop => s.isRunning = true → ∀ i, s.current = some i → load (s.plugin i) ≤ 64
  | .pushClientParam i ev => s.main = .stopping →
      (s.plugin i).queue.length +
        (runningMaxima stampOf (s.plugin i).data.mLastClientStamp ev).length ≤ 64
  | _ => True

end Promise

/-! ## The handler -/

section Handler

variable {p p' : ClientParams.Sys}

/-- How far the handler has still to go. -/
def work : Producer → Nat
  | .idle => 0
  | .loop todo => 2 * todo.length + 1
  | .push _ todo => 2 * todo.length + 2

/-- The handler waits on a full queue. -/
def Stuck (p : ClientParams.Sys) : Prop :=
  ∃ q todo, p.producer = .push q todo ∧ ¬ p.queue.length < 64

theorem load_of_idle (h : p.producer = .idle) : load p = p.queue.length := by
  simp [load, pending, h, Producer.pushing, Producer.todo]

/-- The filter, and a push, move updates on, and leave their number as it is. -/
theorem load_step {l : ClientParams.Lbl} (hl : l = .next ∨ l = .tryPush)
    (hstep : ClientParams.step p l = some p') : load p' = load p := by
  cases ClientParams.step_moves hstep with
  | ended hproducer => simp [load, pending, hproducer, Producer.pushing, Producer.todo]
  | dropped q todo hproducer hstamp =>
    simp [load, pending, hproducer, Producer.pushing, Producer.todo, runningMaxima_cons, hstamp]
  | accepted q todo hproducer hstamp =>
    simp [load, pending, hproducer, Producer.pushing, Producer.todo, runningMaxima_cons, hstamp]
  | waited => rfl
  | pushed q todo hproducer queue hqueue =>
    simp only [load, pending, hproducer, Producer.pushing, Producer.todo, ClientParams.Sys.queue,
      hqueue, List.length_append, List.length_singleton, List.length_nil]
    omega
  | began | entered | empty | popped => rcases hl with hl | hl <;> cases hl

/-- The handler is done, or stuck, or has a step to make. -/
theorem handler_cases (p : ClientParams.Sys) :
    p.producer = .idle ∨ Stuck p ∨ ∃ l p', (l = .next ∨ l = .tryPush) ∧
      ClientParams.step p l = some p' ∧ work p'.producer < work p.producer := by
  cases hproducer : p.producer with
  | idle => exact Or.inl rfl
  | loop todo =>
    refine Or.inr (Or.inr ⟨.next, ?_⟩)
    have hsome : ∃ p', ClientParams.step p .next = some p' := by
      cases todo with
      | nil => exact ⟨_, by simp only [ClientParams.step, hproducer]; rfl⟩
      | cons q todo => exact ⟨_, by simp only [ClientParams.step, hproducer]; rfl⟩
    rcases hsome with ⟨p', hstep⟩
    refine ⟨p', Or.inl rfl, hstep, ?_⟩
    cases ClientParams.step_moves hstep with
    | ended h =>
      cases hproducer.symm.trans h
      simp [work]
    | dropped q todo h =>
      cases hproducer.symm.trans h
      simp [work]
    | accepted q todo h =>
      cases hproducer.symm.trans h
      simp only [work, List.length_cons]
      omega
  | push q todo =>
    refine Or.inr ?_
    by_cases hroom : p.queue.length < 64
    · have hsome : ∃ p', ClientParams.step p .tryPush = some p' := by
        simp only [ClientParams.step, hproducer, ClientParams.pushClientParamTry,
          BoundedFifo.push, hroom, dite_true]
        exact ⟨_, rfl⟩
      rcases hsome with ⟨p', hstep⟩
      refine Or.inr ⟨.tryPush, p', Or.inr rfl, hstep, ?_⟩
      cases ClientParams.step_moves hstep with
      | waited q todo h hfull => exact absurd hroom hfull
      | pushed q todo h =>
        cases hproducer.symm.trans h
        simp [work]
    · exact Or.inl ⟨q, todo, hproducer, hroom⟩

/-- What fits does not end up stuck. -/
theorem Stuck.load_gt (h : Stuck p) : ¬ load p ≤ 64 := by
  rcases h with ⟨q, todo, hproducer, hfull⟩
  simp only [load, pending, hproducer, Producer.pushing, List.length_append,
    List.length_singleton]
  omega

end Handler

section Steps

variable {ι : Type} [DecidableEq ι] {s s' : Sys ι}

/-- A step of the handler is one at the plugin it works for. -/
theorem goOn_spec {l : ClientParams.Lbl} (hstep : s.goOn l = some s') :
    ∃ i p, s.current = some i ∧ ClientParams.step (s.plugin i) l = some p ∧
      s' = { s with
        plugin := Function.update s.plugin i p
        current := if isIdle p.producer then none else some i } := by
  unfold Sys.goOn at hstep
  split at hstep
  · cases hstep
  · rename_i i hcurrent
    simp only [Sys.at, Option.map_map, Option.map_eq_some_iff, Function.comp_apply] at hstep
    rcases hstep with ⟨p, hp, rfl⟩
    refine ⟨i, p, hcurrent, hp, ?_⟩
    simp

theorem goOn_of_step {i : ι} {p : ClientParams.Sys} {l : ClientParams.Lbl}
    (hcurrent : s.current = some i) (hstep : ClientParams.step (s.plugin i) l = some p) :
    s.goOn l = some { s with
      plugin := Function.update s.plugin i p
      current := if isIdle p.producer then none else some i } := by
  simp [Sys.goOn, hcurrent, Sys.at, hstep]

theorem isIdle_iff {producer : Producer} : isIdle producer = true ↔ producer = .idle := by
  cases producer <;> simp [isIdle]

/-- Left alone, the handler is done in the end, or waits on a full queue. -/
theorem exists_settled (params : ι → ParamStore) {i : ι} (hcurrent : s.current = some i)
    (hbusy : (s.plugin i).producer ≠ .idle) :
    ∃ ms t, (∀ l ∈ ms, Lbl.IsHandler l) ∧ (spec params).run s ms = some t ∧ t.main = s.main ∧
      load (t.plugin i) = load (s.plugin i) ∧
      (t.current = none ∧ (t.plugin i).producer = .idle ∨
        t.current = some i ∧ Stuck (t.plugin i)) := by
  -- each step leaves the handler less to do
  induction hwork : work (s.plugin i).producer using Nat.strong_induction_on generalizing s with
  | _ n ih =>
    subst hwork
    rcases handler_cases (s.plugin i) with hidle | hstuck | ⟨l, p, hl, hp, hless⟩
    · exact absurd hidle hbusy
    · exact ⟨[], s, List.forall_mem_nil _, rfl, rfl, rfl, Or.inr ⟨hcurrent, hstuck⟩⟩
    · have hgo := goOn_of_step hcurrent hp
      have hload := load_step hl hp
      have hmove : ∃ m : Lbl ι, m.IsHandler ∧ (spec params).step s m = s.goOn l := by
        rcases hl with rfl | rfl
        · exact ⟨.next, trivial, rfl⟩
        · exact ⟨.tryPush, trivial, rfl⟩
      rcases hmove with ⟨m, hm, hstep⟩
      rw [hgo] at hstep
      by_cases hidle : p.producer = .idle
      · refine ⟨[m], _, ?_, (spec params).run_cons_of_step hstep [], rfl, ?_, Or.inl ⟨?_, ?_⟩⟩
        · simpa using hm
        · simpa using hload
        · simp [isIdle_iff.mpr hidle]
        · simpa using hidle
      · have hnot : isIdle p.producer = false := by
          rw [Bool.eq_false_iff, ne_eq, isIdle_iff]
          exact hidle
        rcases ih _ (by simpa using hless) (s := { s with
            plugin := Function.update s.plugin i p
            current := if isIdle p.producer then none else some i })
          (by simp [hnot]) (by simpa using hidle) rfl with
          ⟨ms, t, hms, hrun, hmain, hload', hend⟩
        refine ⟨m :: ms, t, ?_, ?_, hmain, ?_, hend⟩
        · intro l' hl'
          rcases List.mem_cons.mp hl' with rfl | hl'
          · exact hm
          · exact hms l' hl'
        · exact ((spec params).run_cons_of_step hstep ms).trans hrun
        · rw [hload', ← hload]
          simp

/-- The invariant of the runs that keep to the condition. -/
structure Inv (s : Sys ι) : Prop where
  busy : ∀ i, s.current = some i → (s.plugin i).producer ≠ .idle
  fits : s.main = .stopping → ∀ i, s.current = some i → load (s.plugin i) ≤ 64

omit [DecidableEq ι] in
theorem init_inv (params : ι → ParamStore) : Inv (init params) where
  busy i h := by cases h
  fits h := by cases h

omit [DecidableEq ι] in
theorem Inv.not_deadlocked (h : Inv s) : ¬ Deadlocked s := by
  rintro ⟨hstopping, i, p, todo, hcurrent, hpush⟩
  exact Stuck.load_gt ⟨p, todo, hpush⟩ (h.fits hstopping i hcurrent)

/-- The audio thread leaves the handlers alone, and only takes from the queue. -/
theorem audio_spec {p p' : ClientParams.Sys} {l : ClientParams.Lbl}
    (hl : l = .processGuiEvents ∨ ∃ ok, l = .turn ok) (hstep : ClientParams.step p l = some p') :
    p'.producer = p.producer ∧ load p' ≤ load p := by
  cases ClientParams.step_moves hstep with
  | entered | empty => exact ⟨rfl, Nat.le_refl _⟩
  | popped ok clientEv queue hqueue =>
    refine ⟨rfl, ?_⟩
    rw [load, load, hqueue, List.length_cons]
    exact Nat.add_le_add_right (Nat.le_succ _) _
  | _ => rcases hl with hl | ⟨ok, hl⟩ <;> cases hl

/-- A step of the audio thread of a plugin. -/
theorem Inv.audio (h : Inv s) {i : ι} {l : ClientParams.Lbl}
    (hl : l = .processGuiEvents ∨ ∃ ok, l = .turn ok) (hstep : s.at i l = some s') : Inv s' := by
  rcases Option.map_eq_some_iff.mp hstep with ⟨p, hp, rfl⟩
  rcases audio_spec hl hp with ⟨hproducer, hload⟩
  constructor
  · intro j hj
    by_cases hji : j = i
    · subst hji
      simp only [Function.update_self, hproducer]
      exact h.busy j hj
    · simp only [Function.update_of_ne hji]
      exact h.busy j hj
  · intro hstopping j hj
    have hfits := h.fits hstopping j hj
    by_cases hji : j = i
    · subst hji
      simp only [Function.update_self]
      exact hload.trans hfits
    · simp only [Function.update_of_ne hji]
      exact hfits

/-- A step of the handler. -/
theorem Inv.goOn (h : Inv s) {l : ClientParams.Lbl} (hl : l = .next ∨ l = .tryPush)
    (hstep : s.goOn l = some s') : Inv s' := by
  rcases goOn_spec hstep with ⟨i, p, hcurrent, hp, rfl⟩
  by_cases hidle : p.producer = .idle
  · have hnone : ∀ j, (if isIdle p.producer then none else some i) ≠ some j := by
      simp [isIdle_iff.mpr hidle]
    exact ⟨fun j hj => absurd hj (hnone j), fun _ j hj => absurd hj (hnone j)⟩
  · have hsome : ∀ j, (if isIdle p.producer then none else some i) = some j → j = i := by
      simp [isIdle_iff, hidle]
    constructor
    · intro j hj
      obtain rfl := hsome j hj
      simpa using hidle
    · intro hstopping j hj
      obtain rfl := hsome j hj
      simp only [Function.update_self]
      rw [load_step hl hp]
      exact h.fits hstopping j hcurrent

omit [DecidableEq ι] in
/-- The main thread moves on, and not into `stop`. -/
theorem Inv.mainMoves (h : Inv s) {phase : ι → Phase} {isRunning : Bool} {main : Main}
    (hmain : main ≠ .stopping) :
    Inv { s with phase := phase, isRunning := isRunning, main := main } where
  busy := h.busy
  fits hstopping := absurd hstopping hmain

/-- The state in which a batch begins. -/
theorem began {i : ι} {ev : Api.ClientParams} (hstep : step s (.pushClientParam i ev) = some s') :
    s'.current = some i ∧ s'.main = s.main ∧
      (s'.plugin i).producer = .loop ev ∧ load (s'.plugin i) = (s.plugin i).queue.length +
        (runningMaxima stampOf (s.plugin i).data.mLastClientStamp ev).length := by
  simp only [step] at hstep
  split at hstep
  · rcases Option.map_eq_some_iff.mp hstep with ⟨s'', hat, rfl⟩
    rcases Option.map_eq_some_iff.mp hat with ⟨p, hp, rfl⟩
    cases ClientParams.step_moves hp with
    | began ev hproducer =>
      simp [load, pending, Producer.pushing, Producer.todo, ClientParams.Sys.queue]
  · cases hstep

theorem step_inv {l : Lbl ι} (hinv : Inv s) (hcond : BatchFits s l)
    (hstep : step s l = some s') : Inv s' := by
  cases l with
  | pushClientParam i ev =>
    rcases began hstep with ⟨hcurrent, hmain, hproducer, hload⟩
    constructor
    · intro j hj
      cases hcurrent.symm.trans hj
      rw [hproducer]
      nofun
    · intro hstopping j hj
      cases hcurrent.symm.trans hj
      rw [hload]
      exact hcond (hmain ▸ hstopping)
  | next => exact hinv.goOn (Or.inl rfl) hstep
  | tryPush => exact hinv.goOn (Or.inr rfl) hstep
  | processGuiEvents i =>
    simp only [step] at hstep
    split at hstep
    · exact hinv.audio (Or.inl rfl) hstep
    · cases hstep
  | turn i ok =>
    simp only [step] at hstep
    split at hstep
    · exact hinv.audio (Or.inr ⟨ok, rfl⟩) hstep
    · cases hstep
  | construct i | activate i | deactivate i =>
    simp only [step] at hstep
    split at hstep
    · rename_i hguard
      cases hstep
      have hmain : s.main ≠ .stopping := by
        rw [hguard.1]
        nofun
      exact hinv.mainMoves hmain
    · cases hstep
  | removePlugin i =>
    simp only [step] at hstep
    split at hstep
    · cases hstep
      exact hinv.mainMoves nofun
    · cases hstep
  | stopReturns =>
    simp only [step] at hstep
    split at hstep
    · cases hstep
      exact hinv.mainMoves nofun
    · cases hstep
  | stop =>
    simp only [step] at hstep
    split at hstep
    · cases hstep
      cases hrunning : s.isRunning with
      | false => exact hinv.mainMoves nofun
      | true => exact ⟨hinv.busy, fun _ => hcond hrunning⟩
    · cases hstep

/-- A step that does not keep to the condition lets the handler get stuck under `stop`. -/
theorem exists_deadlocked (params : ι → ParamStore) {l : Lbl ι} (hcond : ¬ BatchFits s l)
    (hstep : step s l = some s') :
    ∃ ms t, (∀ l ∈ ms, Lbl.IsHandler l) ∧ (spec params).run s' ms = some t ∧ Deadlocked t := by
  have hover : ∃ i, s'.main = .stopping ∧ s'.current = some i ∧
      ¬ load (s'.plugin i) ≤ 64 := by
    cases l with
    | stop =>
      simp only [BatchFits, not_forall] at hcond
      rcases hcond with ⟨hrunning, i, hcurrent, hload⟩
      simp only [step] at hstep
      split at hstep
      · cases hstep
        exact ⟨i, if_pos hrunning, hcurrent, hload⟩
      · cases hstep
    | pushClientParam i ev =>
      simp only [BatchFits, not_forall] at hcond
      rcases hcond with ⟨hstopping, hlong⟩
      rcases began hstep with ⟨hcurrent, hmain, -, hload⟩
      exact ⟨i, hmain.trans hstopping, hcurrent, hload ▸ hlong⟩
    | _ => exact absurd trivial hcond
  rcases hover with ⟨i, hstopping, hcurrent, hload⟩
  have hbusy : (s'.plugin i).producer ≠ .idle := by
    intro hidle
    rw [load_of_idle hidle] at hload
    exact hload (s'.plugin i).data.mClientsToPluginQueue.bounded
  rcases exists_settled params hcurrent hbusy with
    ⟨ms, t, hms, hrun, hmain, hload', ⟨-, hidle⟩ | ⟨hcurrent', q, todo, hpush⟩⟩
  · rw [← hload', load_of_idle hidle] at hload
    exact absurd (t.plugin i).data.mClientsToPluginQueue.bounded hload
  · exact ⟨ms, t, hms, hrun, hmain.trans hstopping, i, q, todo, hcurrent', hpush⟩

omit [DecidableEq ι] in
theorem isHandler_fits {l : Lbl ι} (hl : l.IsHandler) (s : Sys ι) : BatchFits s l := by
  cases l <;> trivial

/-- In a run `stop` never waits for a handler that waits on a full queue, however the handler
under way goes on at any of its points, exactly when every batch fits. -/
theorem neverDeadlocked_iff (params : ι → ParamStore) (ls : List (Lbl ι)) :
    (∀ ps ms t, ps <+: ls → (∀ l ∈ ms, l.IsHandler) →
      (spec params).run (init params) (ps ++ ms) = some t → ¬ Deadlocked t) ↔
      (spec params).AllSteps (fun s l _ => BatchFits s l) (init params) ls := by
  constructor
  · intro hnever
    apply (spec params).allSteps_of_steps
    intro ps l t t' hps hrun hstep
    by_contra hcond
    rcases exists_deadlocked params hcond hstep with ⟨ms, u, hms, hrun', hdead⟩
    refine hnever (ps ++ [l]) ms u hps hms ?_ hdead
    rw [(spec params).run_append, (spec params).run_append, hrun]
    exact (congrArg (Option.bind · _) ((spec params).run_cons_of_step hstep [])).trans hrun'
  · rintro hfits ps ms t ⟨rest, rfl⟩ hms hrun
    have hall : (spec params).AllSteps (fun s l _ => BatchFits s l) (init params) (ps ++ ms) := by
      refine (spec params).allSteps_append.mpr
        ⟨((spec params).allSteps_append.mp hfits).1, fun u _ => ?_⟩
      apply (spec params).allSteps_of_steps
      intro qs l v v' hqs _ _
      exact isHandler_fits (hms l (hqs.subset (by simp))) v
    exact Inv.not_deadlocked ((spec params).allSteps_invariant Inv
      (fun s l s' hinv hcond hstep => step_inv hinv hcond hstep) (init_inv params) hall hrun)

/-- Where every batch fits, `stop` can return once the handler under way has come to its end. -/
theorem exists_stopReturns (params : ι → ParamStore) {ls : List (Lbl ι)} {t : Sys ι}
    (hfits : (spec params).AllSteps (fun s l _ => BatchFits s l) (init params) ls)
    (hrun : (spec params).run (init params) ls = some t) (hstopping : t.main = .stopping) :
    ∃ ms u, (∀ l ∈ ms, Lbl.IsHandler l) ∧
      (spec params).run t (ms ++ [.stopReturns]) = some u := by
  have hinv : Inv t := (spec params).allSteps_invariant Inv
    (fun s l s' hinv hcond hstep => step_inv hinv hcond hstep) (init_inv params) hfits hrun
  have hreturns : ∀ u : Sys ι, u.main = .stopping → u.current = none →
      (spec params).run u [.stopReturns] =
        some { u with main := .idle, isRunning := false } := by
    intro u hmain hnone
    refine (spec params).run_cons_of_step ?_ []
    simp [spec, step, hmain, hnone]
  cases hcurrent : t.current with
  | none => exact ⟨[], _, List.forall_mem_nil _, hreturns t hstopping hcurrent⟩
  | some i =>
    rcases exists_settled params hcurrent (hinv.busy i hcurrent) with
      ⟨ms, u, hms, hrun', hmain, hload, ⟨hnone, -⟩ | ⟨-, hstuck⟩⟩
    · refine ⟨ms, { u with main := .idle, isRunning := false }, hms, ?_⟩
      rw [(spec params).run_append, hrun']
      exact hreturns u (hmain.trans hstopping) hnone
    · have hle := hinv.fits hstopping i hcurrent
      exact absurd (hload ▸ hle) hstuck.load_gt

end Steps

/-- A batch of 65 updates, each newer than the one before. -/
def longBatch : Api.ClientParams :=
  (List.range 65).map fun n => { timestamp := { seconds := Int64.ofNat (n + 1) } }

/-- The batch begins, and the host destroys the plugin. -/
def destroyed : List (Lbl Unit) :=
  [.construct (), .pushClientParam () longBatch, .removePlugin ()]

theorem neverDeadlocked_fails : ¬ ∀ (params : Unit → ParamStore) (t : Sys Unit),
    (spec params).Reachable t → ¬ Deadlocked t := by
  intro h
  let params : Unit → ParamStore := fun _ => .empty
  obtain ⟨s, hrun, hfits⟩ : ∃ s, (spec params).run (init params) destroyed = some s ∧
      ¬ BatchFits s .stop := by
    refine ⟨_, rfl, ?_⟩
    intro hfits
    have hload := hfits rfl () rfl
    exact absurd hload (by decide +kernel)
  obtain ⟨s', hstop⟩ : ∃ s', (spec params).step s .stop = some s' := by
    cases hrun
    exact ⟨_, rfl⟩
  rcases exists_deadlocked params hfits hstop with ⟨ms, t, -, hrun', hdead⟩
  refine h params t ?_ hdead
  refine ⟨init params, destroyed ++ .stop :: ms, rfl, ?_⟩
  rw [(spec params).run_append, hrun]
  exact ((spec params).run_cons_of_step hstop ms).trans hrun'

end ClapRci.BatchShutdown
