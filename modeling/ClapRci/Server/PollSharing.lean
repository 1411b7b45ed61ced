import Mathlib.Logic.Function.Basic
import ClapRci.Lib.ActionSystem
import ClapRci.Server.CqEventHandler
import ClapRci.Server.SharedData

/-!
# Several plugins polling on one completion queue

All instances of `SharedData` schedule their poll callbacks on the one stream completion
queue. `pollCallback` keeps its ending in a function-local `static` lambda, which is built
once, by the first callback that ever runs, and captures that instance.

`isolated_iff`: polling of the instances is independent, and each flag tells whether a
callback is scheduled, exactly when polling only ends on the captured instance.
-/

namespace ClapRci.PollSharing

/-- The instances, the alarms of the queue by the instance their callback runs on, and
the instance captured by `static auto endCallback` once it is built. -/
structure Sys (ι κ : Type) [LinearOrder κ] where
  data : ι → SharedData κ
  alarms : AlarmTags ι := {}
  endOwner : Option ι := none

/-- The calls on the instances; of a callback, the tag `Next` returned, its flag, and the
streams as they are then. -/
inductive Lbl (ι κ : Type) where
  | tryStartPolling (i : ι) (cq : Option CqHandle)
  | stopPoll (i : ι)
  | addStream (i : ι) (stream : κ)
  | removeStream (i : ι) (stream : κ)
  | pushProcess (i : ι) (ev : ServerEventWrapper)
  | pushMain (i : ι) (ev : ServerEventWrapper)
  | pollCallback (tag : Nat) (ok : Bool) (stream : κ → ServerEventStream)

/-- Whether the call changes a set of streams. -/
def Lbl.changesStreams {ι κ : Type} : Lbl ι κ → Bool
  | .addStream _ _ | .removeStream _ _ => true
  | _ => false

variable {ι κ : Type} [DecidableEq ι] [LinearOrder κ]

/-- Replace the members of one instance. -/
def Sys.setData (s : Sys ι κ) (i : ι) (d : SharedData κ) : Sys ι κ :=
  { s with data := Function.update s.data i d }

/-- One call. -/
def step (s : Sys ι κ) : Lbl ι κ → Option (Sys ι κ)
  | .tryStartPolling i cq =>
    match (s.data i).tryStartPolling cq with
    | (_, d, none) => some (s.setData i d)
    | (_, d, some _) => some { s.setData i d with alarms := (s.alarms.enqueueFn i).2 }
  | .stopPoll i => some (s.setData i (s.data i).stopPoll.2)
  | .addStream i stream => some (s.setData i ((s.data i).addStream stream).2)
  | .removeStream i stream => some (s.setData i ((s.data i).removeStream stream).2)
  | .pushProcess i ev => some (s.setData i ((s.data i).pushProcess ev).2)
  | .pushMain i ev => some (s.setData i ((s.data i).pushMain ev).2)
  | .pollCallback tag ok stream =>
    match s.alarms.next tag with
    | none => none
    | some (i, alarms) =>
      -- the static is initialised before anything else, on the first call
      let owner := s.endOwner.getD i
      let p := (s.data i).pollCallback ok stream
      let s := { s.setData i p.data with endOwner := some owner }
      match p.exit with
      | .ended =>
        some { s.setData owner (s.data owner).endCallback with
          alarms := (alarms.destroyAlarmTag tag).2 }
      | .again _ => some { s with alarms := ((alarms.enqueueFn i).2.destroyAlarmTag tag).2 }

/-- Freshly constructed instances. -/
def init (κ : Type) [LinearOrder κ] (plugin : ι → PluginPtr) : Sys ι κ where
  data i := .ofPlugin κ (plugin i)

/-- The instances on their queue. -/
def spec (plugin : ι → PluginPtr) : ActionSystem.Spec (Sys ι κ) (Lbl ι κ) where
  Init s := s = init κ plugin
  step := step

/-! ## What is promised of each step -/

/-- Neither the flag nor the queues differ. -/
def SamePolling (d d' : SharedData κ) : Prop :=
  d'.pollRunning = d.pollRunning ∧
    d'.mPluginProcessToClientsQueue = d.mPluginProcessToClientsQueue ∧
    d'.mPluginMainToClientsQueue = d.mPluginMainToClientsQueue

/-- Polling has ended and can be started again; both queues are drained. -/
def Ended (d : SharedData κ) : Prop :=
  d.pollRunning = false ∧ d.mPluginProcessToClientsQueue = .empty ∧
    d.mPluginMainToClientsQueue = .empty

/-- The flag of each instance says whether its one callback is scheduled. -/
def FlagsMatch (s : Sys ι κ) : Prop :=
  ∀ i, s.alarms.scheduled i = if (s.data i).pollRunning then 1 else 0

/-- A callback touches its own instance only, ends polling there when it ends it at all,
and after every call the flags match the schedule. -/
def Isolated (s : Sys ι κ) (l : Lbl ι κ) (s' : Sys ι κ) : Prop :=
  FlagsMatch s' ∧
    ∀ tag ok stream i alarms, l = .pollCallback tag ok stream →
      s.alarms.next tag = some (i, alarms) →
      (∀ j, j ≠ i → SamePolling (s.data j) (s'.data j)) ∧
        ((s.data i).endsPoll ok = true → Ended (s'.data i))

/-- The condition on a step: a callback that ends polling runs on the instance that the
`static` captured, or is the one to build it. -/
def EndsOnOwner (s : Sys ι κ) : Lbl ι κ → Prop
  | .pollCallback tag ok _ => ∀ i alarms, s.alarms.next tag = some (i, alarms) →
      (s.data i).endsPoll ok = true → s.endOwner.getD i = i
  | _ => True

/-! ## The invariant -/

/-- Alarms and tags agree, and so do flags and schedule. -/
structure Inv (s : Sys ι κ) : Prop where
  alarms : s.alarms.Inv []
  flags : FlagsMatch s

theorem init_inv (plugin : ι → PluginPtr) : Inv (init κ plugin) where
  alarms := AlarmTags.init_inv
  flags _ := rfl

section Steps

variable {s : Sys ι κ}

@[simp] theorem setData_self (i : ι) (d : SharedData κ) : (s.setData i d).data i = d := by
  simp [Sys.setData]

theorem setData_ne {i j : ι} (h : j ≠ i) (d : SharedData κ) :
    (s.setData i d).data j = s.data j := by
  simp [Sys.setData, h]

theorem setData_streams {i : ι} {d : SharedData κ} (h : d.streams = (s.data i).streams)
    (j : ι) : ((s.setData i d).data j).streams = (s.data j).streams := by
  by_cases hj : j = i
  · subst hj
    rw [setData_self, h]
  · rw [setData_ne hj]

/-- Calls that neither schedule nor touch the flag. -/
theorem Inv.setData (hinv : Inv s) {i : ι} {d : SharedData κ}
    (hflag : d.pollRunning = (s.data i).pollRunning) : Inv (s.setData i d) where
  alarms := hinv.alarms
  flags j := by
    by_cases hj : j = i
    · subst hj
      rw [setData_self, hflag]
      exact hinv.flags j
    · rw [setData_ne hj]
      exact hinv.flags j

/-- Polling starts where no callback is scheduled. -/
theorem Inv.tryStartPolling (hinv : Inv s) {i : ι} {cq : Option CqHandle} {s' : Sys ι κ}
    (hstep : step s (.tryStartPolling i cq) = some s') : Inv s' := by
  simp only [step] at hstep
  rcases (s.data i).tryStartPolling_cases cq with heq | ⟨h, -, -, hidle, heq⟩
  · rw [heq] at hstep
    cases hstep
    exact hinv.setData rfl
  · rw [heq] at hstep
    cases hstep
    refine ⟨hinv.alarms.enqueueFn i, ?_⟩
    intro j
    have hsched := hinv.alarms.scheduled_enqueueFn i j
    rw [hinv.flags j] at hsched
    refine hsched.trans ?_
    by_cases hj : j = i
    · subst hj
      simp [hidle]
    · simp [setData_ne hj, Ne.symm hj]

/-- Starting to poll leaves the streams alone. -/
theorem step_tryStartPolling_frame (hinv : s.alarms.Inv []) {i : ι} {cq : Option CqHandle}
    {s' : Sys ι κ} (hstep : step s (.tryStartPolling i cq) = some s') :
    s'.alarms.Inv [] ∧ ∀ j, (s'.data j).streams = (s.data j).streams := by
  simp only [step] at hstep
  rcases (s.data i).tryStartPolling_cases cq with heq | ⟨h, -, -, -, heq⟩
  · rw [heq] at hstep
    cases hstep
    exact ⟨hinv, setData_streams rfl⟩
  · rw [heq] at hstep
    cases hstep
    exact ⟨hinv.enqueueFn i, setData_streams rfl⟩

end Steps

section Callback

variable {s : Sys ι κ} {tag : Nat} {ok : Bool} {stream : κ → ServerEventStream} {i : ι}
  {alarms : AlarmTags ι}

/-- The state after a callback that ends polling. -/
theorem step_ended (hnext : s.alarms.next tag = some (i, alarms))
    (hends : (s.data i).endsPoll ok = true) :
    step s (.pollCallback tag ok stream) = some
      { s.setData (s.endOwner.getD i) (s.data (s.endOwner.getD i)).endCallback with
        alarms := (alarms.destroyAlarmTag tag).2
        endOwner := some (s.endOwner.getD i) } := by
  rcases SharedData.pollCallback_ended hends stream with ⟨hexit, hdata, -⟩
  have hself : s.setData i (s.data i) = s := by
    simp [Sys.setData]
  simp only [step, hnext, hexit, hdata, hself]
  rfl

/-- The state after a callback that schedules itself again. -/
theorem step_again (hnext : s.alarms.next tag = some (i, alarms))
    (hends : (s.data i).endsPoll ok = false) :
    step s (.pollCallback tag ok stream) = some
      { s.setData i ((s.data i).pollRound stream).data with
        alarms := ((alarms.enqueueFn i).2.destroyAlarmTag tag).2
        endOwner := some (s.endOwner.getD i) } := by
  rcases (s.data i).pollRound_again stream with ⟨⟨deferNs, hexit⟩, -, -⟩
  simp only [step, hnext, SharedData.pollCallback_round hends, hexit]

theorem alarms_ended (hinv : s.alarms.Inv []) (hnext : s.alarms.next tag = some (i, alarms)) :
    (alarms.destroyAlarmTag tag).2.Inv [] ∧
      ∀ j, (alarms.destroyAlarmTag tag).2.scheduled j + (if i = j then 1 else 0) =
        s.alarms.scheduled j := by
  rcases AlarmTags.next_spec hnext with ⟨-, hfind, rfl⟩
  refine ⟨(hinv.next hnext).destroyAlarmTag hfind, ?_⟩
  intro j
  exact AlarmTags.scheduled_destroyAlarmTag
    (h := { s.alarms with outstanding := s.alarms.outstanding.erase tag }) hfind j

theorem alarms_again (hinv : s.alarms.Inv []) (hnext : s.alarms.next tag = some (i, alarms)) :
    ((alarms.enqueueFn i).2.destroyAlarmTag tag).2.Inv [] ∧
      ∀ j, ((alarms.enqueueFn i).2.destroyAlarmTag tag).2.scheduled j =
        s.alarms.scheduled j := by
  rcases AlarmTags.next_spec hnext with ⟨-, hfind, heq⟩
  have hinv' := hinv.next hnext
  -- the callback enqueues its successor before its own tag is destroyed
  have hfind' : alarms.pendingAlarmTags.find? tag = some i := by rwa [heq]
  have hfind'' := hinv'.find?_enqueueFn i hfind'
  refine ⟨(hinv'.enqueueFn i).destroyAlarmTag hfind'', ?_⟩
  intro j
  have hsame : alarms.scheduled j = s.alarms.scheduled j := by rw [heq]; rfl
  have henq := hinv'.scheduled_enqueueFn i j
  have hdes := AlarmTags.scheduled_destroyAlarmTag hfind'' j
  omega

/-- What a callback leaves alone, and the alarms after it, whatever the captured instance. -/
theorem step_pollCallback_frame (hinv : s.alarms.Inv []) {s' : Sys ι κ}
    (hstep : step s (.pollCallback tag ok stream) = some s') :
    s'.alarms.Inv [] ∧ ∀ j, (s'.data j).streams = (s.data j).streams := by
  cases hnext : s.alarms.next tag with
  | none => simp [step, hnext] at hstep
  | some r =>
    rcases r with ⟨i, alarms⟩
    cases hends : (s.data i).endsPoll ok with
    | false =>
      rw [step_again hnext hends] at hstep
      cases hstep
      exact ⟨(alarms_again hinv hnext).1,
        setData_streams ((s.data i).pollRound_again stream).2.2⟩
    | true =>
      rw [step_ended hnext hends] at hstep
      cases hstep
      exact ⟨(alarms_ended hinv hnext).1, setData_streams (SharedData.endCallback_streams _)⟩

/-- Only two calls touch the sets of streams, and none leaves a tag without its alarm. -/
theorem step_frame (hinv : s.alarms.Inv []) {l : Lbl ι κ} {s' : Sys ι κ}
    (hl : l.changesStreams = false) (hstep : step s l = some s') :
    s'.alarms.Inv [] ∧ ∀ j, (s'.data j).streams = (s.data j).streams := by
  cases l with
  | tryStartPolling i cq => exact step_tryStartPolling_frame hinv hstep
  | stopPoll i =>
    cases hstep
    exact ⟨hinv, setData_streams (SharedData.stopPoll_streams _)⟩
  | addStream i st => cases hl
  | removeStream i st => cases hl
  | pushProcess i ev =>
    cases hstep
    exact ⟨hinv, setData_streams rfl⟩
  | pushMain i ev =>
    cases hstep
    exact ⟨hinv, setData_streams rfl⟩
  | pollCallback tag ok stream => exact step_pollCallback_frame hinv hstep

/-- Other instances than the one written to poll as before. -/
theorem samePolling_setData {j : ι} (hj : j ≠ i) (d : SharedData κ) :
    SamePolling (s.data j) ((s.setData i d).data j) := by
  rw [setData_ne hj]
  exact ⟨rfl, rfl, rfl⟩

/-- A callback that schedules itself again keeps everything in order. -/
theorem Inv.again (hinv : Inv s) (hnext : s.alarms.next tag = some (i, alarms))
    (hends : (s.data i).endsPoll ok = false) {s' : Sys ι κ}
    (hstep : step s (.pollCallback tag ok stream) = some s') :
    Inv s' ∧ ∀ j, j ≠ i → SamePolling (s.data j) (s'.data j) := by
  rw [step_again hnext hends] at hstep
  cases hstep
  rcases alarms_again hinv.alarms hnext with ⟨halarms, hsched⟩
  rcases (s.data i).pollRound_again stream with ⟨-, hrunning, -⟩
  constructor
  · refine ⟨halarms, ?_⟩
    intro j
    refine (hsched j).trans ((hinv.flags j).trans ?_)
    by_cases hj : j = i
    · subst hj
      simp [hrunning]
    · simp [setData_ne hj]
  · intro j hj
    exact samePolling_setData hj _

/-- So does one that ends polling on the captured instance. -/
theorem Inv.ended (hinv : Inv s) (hnext : s.alarms.next tag = some (i, alarms))
    (hends : (s.data i).endsPoll ok = true) (howner : s.endOwner.getD i = i) {s' : Sys ι κ}
    (hstep : step s (.pollCallback tag ok stream) = some s') :
    Inv s' ∧ (∀ j, j ≠ i → SamePolling (s.data j) (s'.data j)) ∧ Ended (s'.data i) := by
  rw [step_ended hnext hends, howner] at hstep
  cases hstep
  rcases alarms_ended hinv.alarms hnext with ⟨halarms, hsched⟩
  refine ⟨⟨halarms, ?_⟩, ?_, ?_⟩
  · intro j
    have hj := hsched j
    have hflag := hinv.flags j
    show (alarms.destroyAlarmTag tag).2.scheduled j = _
    by_cases hij : j = i
    · -- its one callback was this one
      subst hij
      have hle : s.alarms.scheduled j ≤ 1 := by
        rw [hflag]
        split <;> omega
      have hidle : ((s.setData j (s.data j).endCallback).data j).pollRunning = false := by
        rw [setData_self, SharedData.endCallback_pollRunning]
      rw [if_pos rfl] at hj
      rw [hidle, if_neg Bool.false_ne_true]
      omega
    · rw [if_neg (Ne.symm hij), Nat.add_zero, hflag] at hj
      rw [hj, setData_ne hij]
  · intro j hj
    exact samePolling_setData hj _
  · rw [setData_self]
    exact ⟨rfl, SharedData.endCallback_processQueue _, SharedData.endCallback_mainQueue _⟩

/-- Where the lambda belongs to another instance, the one whose callback ended keeps its
flag although no callback is scheduled for it. -/
theorem Inv.ended_elsewhere (hinv : Inv s) (hnext : s.alarms.next tag = some (i, alarms))
    (hends : (s.data i).endsPoll ok = true) (howner : s.endOwner.getD i ≠ i) {s' : Sys ι κ}
    (hstep : step s (.pollCallback tag ok stream) = some s') : ¬ FlagsMatch s' := by
  rw [step_ended hnext hends] at hstep
  cases hstep
  -- its callback is gone from the schedule, but the flag cleared is another one
  intro hmatch
  rcases alarms_ended hinv.alarms hnext with ⟨-, hsched⟩
  have hi := hsched i
  have hflag := hinv.flags i
  have hafter : (alarms.destroyAlarmTag tag).2.scheduled i =
      if (s.data i).pollRunning then 1 else 0 := by
    simpa [setData_ne (Ne.symm howner)] using hmatch i
  rw [if_pos rfl] at hi
  omega

end Callback

/-- What is promised of the calls other than callbacks is the invariant. -/
theorem Inv.isolated_of_call {s s' : Sys ι κ} {l : Lbl ι κ} (hinv' : Inv s')
    (hl : ∀ tag ok stream, l ≠ .pollCallback tag ok stream) : Inv s' ∧ Isolated s l s' := by
  refine ⟨hinv', hinv'.flags, ?_⟩
  intro tag ok stream i alarms heq
  exact absurd heq (hl tag ok stream)

/-- A callback that meets the condition keeps the invariant and what is promised. -/
theorem Inv.isolated_of_callback {s s' : Sys ι κ} {tag : Nat} {ok : Bool}
    {stream : κ → ServerEventStream} (hinv : Inv s)
    (hcond : EndsOnOwner s (.pollCallback tag ok stream))
    (hstep : step s (.pollCallback tag ok stream) = some s') :
    Inv s' ∧ Isolated s (.pollCallback tag ok stream) s' := by
  cases hnext : s.alarms.next tag with
  | none => simp [step, hnext] at hstep
  | some r =>
    rcases r with ⟨i, alarms⟩
    have hspec : Inv s' ∧ (∀ j, j ≠ i → SamePolling (s.data j) (s'.data j)) ∧
        ((s.data i).endsPoll ok = true → Ended (s'.data i)) := by
      cases hends : (s.data i).endsPoll ok with
      | false =>
        rcases hinv.again hnext hends hstep with ⟨hinv', hsame⟩
        exact ⟨hinv', hsame, nofun⟩
      | true =>
        have howner := hcond i alarms hnext hends
        rcases hinv.ended hnext hends howner hstep with ⟨hinv', hsame, hended⟩
        exact ⟨hinv', hsame, fun _ => hended⟩
    rcases hspec with ⟨hinv', hsame, hended⟩
    refine ⟨hinv', hinv'.flags, ?_⟩
    intro tag' ok' stream' i' alarms' heq hnext'
    cases heq
    rw [hnext] at hnext'
    cases hnext'
    exact ⟨hsame, hended⟩

/-- A step that meets the condition keeps the invariant and what is promised. -/
theorem step_isolated {s s' : Sys ι κ} {l : Lbl ι κ} (hinv : Inv s) (hcond : EndsOnOwner s l)
    (hstep : step s l = some s') : Inv s' ∧ Isolated s l s' := by
  cases l with
  | tryStartPolling i cq => exact Inv.isolated_of_call (hinv.tryStartPolling hstep) nofun
  | stopPoll i =>
    cases hstep
    exact Inv.isolated_of_call (hinv.setData (SharedData.stopPoll_pollRunning _)) nofun
  | addStream i stream =>
    cases hstep
    exact Inv.isolated_of_call (hinv.setData rfl) nofun
  | removeStream i stream =>
    cases hstep
    exact Inv.isolated_of_call (hinv.setData rfl) nofun
  | pushProcess i ev =>
    cases hstep
    exact Inv.isolated_of_call (hinv.setData rfl) nofun
  | pushMain i ev =>
    cases hstep
    exact Inv.isolated_of_call (hinv.setData rfl) nofun
  | pollCallback tag ok stream => exact hinv.isolated_of_callback hcond hstep

/-- Polling of the instances is independent, and flags match schedules, in every step of a
run, exactly when polling ends only on the captured instance. -/
theorem isolated_iff (plugin : ι → PluginPtr) (ls : List (Lbl ι κ)) :
    (spec plugin).AllSteps Isolated (init κ plugin) ls ↔
      (spec plugin).AllSteps (fun s l _ => EndsOnOwner s l) (init κ plugin) ls := by
  refine (spec plugin).allSteps_iff Inv ?_ ?_ (init_inv plugin) ls
  · intro s l s' hinv hcond hstep
    exact step_isolated hinv hcond hstep
  · intro s l s' hinv hcond hstep hiso
    cases l with
    | pollCallback tag ok stream =>
      simp only [EndsOnOwner, Classical.not_forall] at hcond
      rcases hcond with ⟨i, alarms, hnext, hends, howner⟩
      exact hinv.ended_elsewhere hnext hends howner hstep hiso.1
    | _ => exact hcond trivial

/-- Two plugins poll; the client of the second one goes, and its polling ends on the
first: the second keeps its flag and is never polled again. -/
theorem isolated_fails : ¬ ∀ (plugin : Bool → PluginPtr) (ls : List (Lbl Bool Nat)),
    (spec plugin).AllSteps Isolated (init Nat plugin) ls := by
  intro h
  have hlast := (spec _).forall_allSteps_last (h fun _ => 1)
    [.addStream false 7, .tryStartPolling false (some 0), .addStream true 8,
      .tryStartPolling true (some 0), .pollCallback 0 true fun _ => {}, .removeStream true 8]
    (.pollCallback 1 true fun _ => {}) rfl rfl
  have hflag := hlast.1 true
  exact absurd hflag (by decide)

end ClapRci.PollSharing
