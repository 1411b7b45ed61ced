import ClapRci.Server.PollRounds

/-!
# Announcing the parameters to a new GUI (`plugin/coreplugin.cpp`)

After a GUI has verified itself, `enqueueAuxiliaries` pushes one `ParamInfo` event for
each parameter to the main queue, through `pushToMainQueueBlocking`, while the poll loop
takes events out at its own pace.

`params_delivered_iff`: no `ParamInfo` is lost exactly when no push, by anyone, finds the
queue full with a `ParamInfo` as its oldest event, and no `endCallback` finds one queued. A
push into a full queue does not block: it drops the oldest event and succeeds. `endCallback`
may be that of another instance.
-/

namespace ClapRci.EnqueueAuxiliaries

open PollRounds (Drains)

variable {κ : Type} [LinearOrder κ]

/-! ## The code -/

/-- The fields of `clap_param_info` that are announced. -/
structure ClapParamInfo where
  id : UInt32 := 0
  name : StdString := []
  module : StdString := []
  min_value : Double := default
  max_value : Double := default
  default_value : Double := default
deriving DecidableEq

/-- The event `enqueueAuxiliaries` makes of a parameter. -/
def paramInfoEvent (info : ClapParamInfo) : ServerEventWrapper where
  ev := .paramInfo
  data := .paramInfo
    { paramId := info.id
      name := info.name
      module := info.module
      minValue := info.min_value
      maxValue := info.max_value
      defaultValue := info.default_value }

/-- `pushToMainQueue(ev)`. -/
def pushToMainQueue (d : SharedData κ) (ev : ServerEventWrapper) : Bool × SharedData κ :=
  d.pushMain ev

/-- The predicate that `pushToMainQueueBlocking(ev)` evaluates until it is true. -/
def pushToMainQueueBlockingTry (d : SharedData κ) (ev : ServerEventWrapper) :
    Bool × SharedData κ :=
  if !d.isValid then (false, d) else pushToMainQueue d ev

/-! ## The push loop against the poll loop -/

/-- The poll loop, and the parameters `enqueueAuxiliaries` has still to push. -/
structure Sys (κ : Type) [LinearOrder κ] where
  poll : PollRounds.Sys κ
  params : List ClapParamInfo

/-- An evaluation of the predicate for the parameter at hand, or a step of anything else. -/
inductive Lbl (κ : Type) where
  | tryPush
  | other (l : PollRounds.Lbl κ)

/-- What the others may do: anything, but `ParamInfo` events come from `enqueueAuxiliaries`
only. -/
def Allowed : PollRounds.Lbl κ → Bool
  | .pushMain ev => ev.ev ≠ .paramInfo
  | _ => true

/-- One step. -/
def step (s : Sys κ) : Lbl κ → Option (Sys κ)
  | .tryPush =>
    match s.params with
    | [] => none
    | info :: params =>
      match pushToMainQueueBlockingTry s.poll.data (paramInfoEvent info) with
      | (false, d) => some { s with poll := { s.poll with data := d } }
      | (true, d) => some { poll := { s.poll with data := d }, params := params }
  | .other l =>
    if Allowed l then (PollRounds.step s.poll l).map fun poll => { s with poll := poll }
    else none

/-- `enqueueAuxiliaries` begins, wherever the poll loop is; what is popped is counted from
here on. -/
def start (poll : PollRounds.Sys κ) (params : List ClapParamInfo) : Sys κ where
  poll := { poll with popped := [] }
  params := params

/-- `enqueueAuxiliaries` with these parameters against the poll loop in this state. -/
def spec (poll : PollRounds.Sys κ) (params : List ClapParamInfo) :
    ActionSystem.Spec (Sys κ) (Lbl κ) where
  Init s := s = start poll params
  step := step

/-! ## What becomes of the events -/

/-- The `ParamInfo` events among these. -/
def infos (evs : List ServerEventWrapper) : List ServerEventWrapper :=
  evs.filter fun ev => ev.ev = .paramInfo

/-- The `ParamInfo` events popped so far, those in the queue, and those to be pushed. -/
def Sys.accounted (s : Sys κ) : List ServerEventWrapper :=
  infos s.poll.poppedMain ++ infos s.poll.data.mPluginMainToClientsQueue.elems ++
    s.params.map paramInfoEvent

/-- Every `ParamInfo` of the start, of the queue and then of the parameters in the order
of their registration, is popped once, or queued, or to be pushed. -/
def NothingLost (poll : PollRounds.Sys κ) (params : List ClapParamInfo) (s : Sys κ) : Prop :=
  s.accounted = infos poll.data.mPluginMainToClientsQueue.elems ++ params.map paramInfoEvent

/-- Once all are pushed and none is queued, the poll loop has popped exactly one
`ParamInfo` for each parameter, in order, after those queued before. -/
theorem NothingLost.popped {poll : PollRounds.Sys κ} {params : List ClapParamInfo} {s : Sys κ}
    (h : NothingLost poll params s) (hdone : s.params = [])
    (hdrained : infos s.poll.data.mPluginMainToClientsQueue.elems = []) :
    infos s.poll.poppedMain =
      infos poll.data.mPluginMainToClientsQueue.elems ++ params.map paramInfoEvent := by
  rw [NothingLost, Sys.accounted, hdone, hdrained] at h
  simpa using h

/-- A push drops nothing, or something else than a `ParamInfo`. -/
def RoomOrOther (queue : BoundedFifo 64 ServerEventWrapper) : Prop :=
  queue.elems.length < 64 ∨ ∀ ev ∈ queue.elems.head?, ev.ev ≠ .paramInfo

/-- The condition on a step: a push, by `enqueueAuxiliaries` or by anyone else, finds room
or an oldest event that is no `ParamInfo`, and an `endCallback` finds no `ParamInfo`. -/
def KeepsInfos (s : Sys κ) : Lbl κ → Prop
  | .tryPush => s.poll.data.isValid = true →
      RoomOrOther s.poll.data.mPluginMainToClientsQueue
  | .other (.pushMain _) => RoomOrOther s.poll.data.mPluginMainToClientsQueue
  | .other l => Drains s.poll l → infos s.poll.data.mPluginMainToClientsQueue.elems = []

/-! ## A push into the queue -/

theorem infos_append (xs ys : List ServerEventWrapper) :
    infos (xs ++ ys) = infos xs ++ infos ys := by
  simp [infos]

/-- With room, or another event in front, only the new event counts. -/
theorem infos_pushOverwrite {queue : BoundedFifo 64 ServerEventWrapper} (h : RoomOrOther queue)
    (ev : ServerEventWrapper) :
    infos (queue.pushOverwrite ev).2.elems = infos queue.elems ++ infos [ev] := by
  by_cases hroom : queue.elems.length < 64
  · rw [BoundedFifo.pushOverwrite_of_lt hroom, infos_append]
  · rcases h with h | h
    · exact absurd h hroom
    · cases hq : queue.elems with
      | nil =>
        rw [hq] at hroom
        exact absurd (by decide) hroom
      | cons front rest =>
        have hfront : front.ev ≠ .paramInfo := by
          apply h
          rw [hq]
          rfl
        rw [BoundedFifo.pushOverwrite_of_full hq hroom, infos_append]
        simp [infos, hfront]

/-- A full queue with a `ParamInfo` in front loses it. -/
theorem infos_pushOverwrite_lost {queue : BoundedFifo 64 ServerEventWrapper}
    (h : ¬ RoomOrOther queue) (ev : ServerEventWrapper) :
    (infos (queue.pushOverwrite ev).2.elems).length + 1 =
      (infos queue.elems).length + (infos [ev]).length := by
  simp only [RoomOrOther, not_or, Classical.not_forall, not_not] at h
  rcases h with ⟨hroom, front, hmem, hfront⟩
  cases hq : queue.elems with
  | nil =>
    rw [hq] at hmem
    cases hmem
  | cons front' rest =>
    rw [hq] at hmem
    obtain rfl : front' = front := by simpa using hmem
    rw [BoundedFifo.pushOverwrite_of_full hq hroom, infos_append, List.length_append]
    simp only [infos, List.filter_cons, hfront, decide_true, if_true, List.length_cons]
    omega

/-! ## Every step -/

section Steps

variable {s s' : Sys κ}

/-- The two ways a `tryPush` ends: no stream, or the event is in the queue. -/
theorem step_tryPush (hstep : step s .tryPush = some s') :
    (s.poll.data.isValid = false ∧ s' = s) ∨
      ∃ info params, s.params = info :: params ∧ s.poll.data.isValid = true ∧
        s' = { poll := { s.poll with data :=
          (s.poll.data.pushMain (paramInfoEvent info)).2 }, params := params } := by
  simp only [step] at hstep
  split at hstep
  · cases hstep
  · rename_i info params hparams
    cases hvalid : s.poll.data.isValid with
    | false =>
      left
      simp [pushToMainQueueBlockingTry, hvalid] at hstep
      exact ⟨rfl, hstep.symm⟩
    | true =>
      right
      simp [pushToMainQueueBlockingTry, pushToMainQueue, hvalid, SharedData.pushMain] at hstep
      exact ⟨info, params, hparams, rfl, hstep.symm⟩

/-- The other steps are steps of the poll machine. -/
theorem step_other {l : PollRounds.Lbl κ} (hstep : step s (.other l) = some s') :
    Allowed l = true ∧ PollRounds.step s.poll l = some s'.poll ∧ s'.params = s.params := by
  simp only [step] at hstep
  split at hstep
  · rename_i hallowed
    rcases Option.map_eq_some_iff.mp hstep with ⟨poll, hpoll, rfl⟩
    exact ⟨hallowed, hpoll, rfl⟩
  · cases hstep

/-- The evaluation of the predicate accounts for every event, where the condition holds. -/
theorem accounted_tryPush (hcond : KeepsInfos s .tryPush) (hstep : step s .tryPush = some s') :
    s'.accounted = s.accounted := by
  rcases step_tryPush hstep with ⟨-, rfl⟩ | ⟨info, params, hparams, hvalid, rfl⟩
  · rfl
  · have hpush := infos_pushOverwrite (hcond hvalid) (paramInfoEvent info)
    have hevent : infos [paramInfoEvent info] = [paramInfoEvent info] := rfl
    show infos s.poll.poppedMain ++ infos (s.poll.data.mPluginMainToClientsQueue.pushOverwrite
      (paramInfoEvent info)).2.elems ++ params.map paramInfoEvent = s.accounted
    rw [hpush, hevent, Sys.accounted, hparams, List.map_cons]
    simp only [List.append_assoc, List.singleton_append]

/-- So does every other step. -/
theorem accounted_other {l : PollRounds.Lbl κ} (hcond : KeepsInfos s (.other l))
    (hstep : step s (.other l) = some s') : s'.accounted = s.accounted := by
  rcases step_other hstep with ⟨hallowed, hpoll, hparams⟩
  rw [Sys.accounted, Sys.accounted, hparams]
  congr 1
  cases PollRounds.step_mainQueue hpoll with
  | drained hdrains hpopped hqueue =>
    have hnone : infos s.poll.data.mPluginMainToClientsQueue.elems = [] := by
      cases l with
      | pushMain ev => cases hdrains
      | _ => exact hcond hdrains
    rw [PollRounds.Sys.poppedMain, hpopped, hqueue, hnone]
    rfl
  | @pushed ev _ hpopped hqueue =>
    have hother : infos [ev] = [] := by
      have hne : ev.ev ≠ .paramInfo := of_decide_eq_true hallowed
      simp [infos, hne]
    rw [hpopped, hqueue, infos_pushOverwrite hcond, hother, List.append_nil]
  | taken _ _ hflow => rw [← infos_append, ← infos_append, hflow]

/-- A push that finds the queue full with a `ParamInfo` in front loses it, and `endCallback`
loses those it finds. -/
theorem accounted_lost {l : Lbl κ} (hcond : ¬ KeepsInfos s l) (hstep : step s l = some s') :
    s'.accounted.length < s.accounted.length := by
  cases l with
  | tryPush =>
    simp only [KeepsInfos, Classical.not_imp] at hcond
    rcases hcond with ⟨hvalid, hroom⟩
    rcases step_tryPush hstep with ⟨hno, -⟩ | ⟨info, params, hparams, -, rfl⟩
    · rw [hno] at hvalid
      cases hvalid
    · have hlost := infos_pushOverwrite_lost hroom (paramInfoEvent info)
      have hevent : (infos [paramInfoEvent info]).length = 1 := rfl
      have hqueue : (s.poll.data.pushMain (paramInfoEvent info)).2.mPluginMainToClientsQueue =
        (s.poll.data.mPluginMainToClientsQueue.pushOverwrite (paramInfoEvent info)).2 := rfl
      have hpopped : PollRounds.Sys.poppedMain { s.poll with data :=
        (s.poll.data.pushMain (paramInfoEvent info)).2 } = s.poll.poppedMain := rfl
      simp only [Sys.accounted, hparams, hqueue, hpopped, List.length_append, List.length_map,
        List.length_cons]
      omega
  | other l =>
    rcases step_other hstep with ⟨hallowed, hpoll, hparams⟩
    cases PollRounds.step_mainQueue hpoll with
    | @pushed ev _ hpopped hqueue =>
      have hlost := infos_pushOverwrite_lost hcond ev
      have hother : (infos [ev]).length = 0 := by
        have hne : ev.ev ≠ .paramInfo := of_decide_eq_true hallowed
        simp [infos, hne]
      simp only [Sys.accounted, hparams, hqueue, hpopped, List.length_append, List.length_map]
      omega
    | drained hdrains hpopped hqueue =>
      have hfound : infos s.poll.data.mPluginMainToClientsQueue.elems ≠ [] := by
        intro hnone
        cases l with
        | pushMain ev => cases hdrains
        | _ => exact hcond fun _ => hnone
      have hpos := List.length_pos_iff.mpr hfound
      have hpopped : s'.poll.poppedMain = s.poll.poppedMain := by
        rw [PollRounds.Sys.poppedMain, hpopped, PollRounds.Sys.poppedMain]
      have hempty : (infos (BoundedFifo.empty : BoundedFifo 64 ServerEventWrapper).elems).length =
        0 := rfl
      simp only [Sys.accounted, hparams, hqueue, hpopped, hempty, List.length_append,
        List.length_map]
      omega
    | taken hdrains hpush hflow =>
      cases l with
      | pushMain ev => cases hpush
      | _ => exact absurd (fun h => absurd h hdrains) hcond

/-- The push never waits for the poll loop: with a stream connected, as many pushes as
there are parameters succeed one after another. -/
theorem run_pushes (poll : PollRounds.Sys κ) (all infos rest : List ClapParamInfo)
    (hparams : s.params = infos ++ rest)
    (hvalid : s.poll.data.isValid = true) :
    ∃ t, (spec poll all).run s (List.replicate infos.length .tryPush) = some t ∧
      t.params = rest ∧ t.poll.data.isValid = true ∧ t.poll.popped = s.poll.popped := by
  induction infos generalizing s with
  | nil => exact ⟨s, rfl, hparams, hvalid, rfl⟩
  | cons info infos ih =>
    have hstep : (spec poll all).step s .tryPush = some { poll := { s.poll with data :=
        (s.poll.data.pushMain (paramInfoEvent info)).2 }, params := infos ++ rest } := by
      simp [spec, step, hparams, pushToMainQueueBlockingTry, hvalid, pushToMainQueue,
        SharedData.pushMain]
    rcases ih (s := { poll := { s.poll with data :=
        (s.poll.data.pushMain (paramInfoEvent info)).2 }, params := infos ++ rest }) rfl hvalid
      with ⟨t, hrun, hend⟩
    refine ⟨t, ?_, hend⟩
    rw [List.length_cons, List.replicate_succ, (spec poll all).run_cons_of_step hstep]
    exact hrun

end Steps

/-- No `ParamInfo` is lost, in every state of a run, exactly when every push finds room or
an oldest event that is no `ParamInfo`, and every `endCallback` finds none. -/
theorem params_delivered_iff (poll : PollRounds.Sys κ) (params : List ClapParamInfo)
    (ls : List (Lbl κ)) :
    (spec poll params).AllSteps (fun _ _ s' => NothingLost poll params s') (start poll params) ls ↔
      (spec poll params).AllSteps (fun s l _ => KeepsInfos s l) (start poll params) ls := by
  apply (spec poll params).allSteps_iff (NothingLost poll params)
  · intro s l s' hinv hcond hstep
    have hsame : s'.accounted = s.accounted := by
      cases l with
      | tryPush => exact accounted_tryPush hcond hstep
      | other l => exact accounted_other hcond hstep
    have hinv' : NothingLost poll params s' := hsame.trans hinv
    exact ⟨hinv', hinv'⟩
  · intro s l s' hinv hcond hstep hinv'
    have hlost := accounted_lost hcond hstep
    rw [hinv, hinv'] at hlost
    omega
  · simp [NothingLost, Sys.accounted, start, infos, PollRounds.Sys.poppedMain]

/-- A plugin with one stream, polling, its queues empty. -/
def onePolling : PollRounds.Sys Nat where
  data := { coreplugin := some 1, streams := (OrdSet.insert OrdMap.empty 7).2,
            mServerStreamCq := some 0, pollRunning := true }

/-- With 65 parameters and no poll round in between, the first one is dropped: what is
left fits into the queue. -/
theorem params_delivered_fails : ¬ ∀ (params : List ClapParamInfo) (ls : List (Lbl Nat)),
    (spec onePolling params).AllSteps (fun _ _ s' => NothingLost onePolling params s')
      (start onePolling params) ls := by
  intro h
  let info : ClapParamInfo := {}
  let params := List.replicate 64 info ++ [info]
  rcases run_pushes onePolling params (List.replicate 64 info) [info]
    (s := start onePolling params) rfl rfl with ⟨t, hrun, hparams, hvalid, hpopped⟩
  rcases run_pushes onePolling params [info] [] hparams hvalid with
    ⟨t', hrun', hnone, -, hpopped'⟩
  rcases (spec onePolling params).run_cons hrun' with ⟨t'', hstep, hsame⟩
  obtain rfl : t'' = t' := Option.some.inj hsame
  -- after 64 pushes the queue is full; the step looked at is the 65th
  rw [List.length_replicate] at hrun
  have hlost := (spec onePolling params).forall_allSteps_last (h params) _ _ hrun hstep
  have hempty : t''.poll.popped = [] := hpopped'.trans hpopped
  have hlen := congrArg List.length hlost
  have hbound := t''.poll.data.mPluginMainToClientsQueue.bounded
  have hfilter := List.length_filter_le (fun ev : ServerEventWrapper => ev.ev = .paramInfo)
    t''.poll.data.mPluginMainToClientsQueue.elems
  simp [Sys.accounted, hnone, PollRounds.Sys.poppedMain, hempty, infos, onePolling, params]
    at hlen
  omega

end ClapRci.EnqueueAuxiliaries
