import ClapRci.Server.StreamCqSteps

/-!
# Runs of the stream completion queue

* `view_reachable`: each stream of the queue lives a run of `ServerEventStream.spec`, as long
  as no event reaches another stream than the one it is for;
* `one_write_iff`: no stream has two writes outstanding, exactly when each poll round that
  has events finds the writes of the open streams completed;
* `cleaned_up_iff`: streams of ended calls are in no set, and a drained queue has no
  pending tags, exactly when no call ends while its stream has nothing outstanding.
-/

namespace ClapRci.StreamCq

open ServerEventStream (Awaited Call CleanedUp HeldInv writes)

variable {ι κ : Type} [LinearOrder κ]

theorem init_queueInv (plugin : ι → PluginPtr) (first : κ) : QueueInv (init plugin first) where
  pendingTags st hst := by
    rcases OrdMap.mem_keys_emplace.mp (OrdMap.contains_iff.mp hst) with rfl | hst
    · simp [init]
    · cases hst
  streams i st hst := by cases hst
  alarms := AlarmTags.init_inv

/-- The first stream is all there is. -/
theorem init_view {plugin : ι → PluginPtr} {first st : κ} {v : ServerEventStream.Sys}
    (hv : (init plugin first).view st = some v) : v = {} := by
  have hin : (OrdSet.insert OrdMap.empty first).2.contains first = true :=
    OrdMap.contains_emplace_self
  rcases view_eq_some.mp hv with ⟨hcall, htag, hset⟩
  by_cases hst : st = first
  · subst hst
    simp only [init, Function.update_self, Option.some.injEq] at hcall
    rcases v with ⟨call, tag, ins⟩
    subst hcall
    have htag : tag = true := htag.symm.trans hin
    have hset : ins = false := hset.symm
    subst htag hset
    rfl
  · simp [init, hst] at hcall

/-! ## Each stream lives a run of its own -/

/-- The condition on a step: an event of a stream that is gone finds no other at its address,
and a poll callback finds at the addresses of its set the streams that were put there. -/
def OwnEvents (s : Sys ι κ) : Lbl ι κ → Prop
  | .late st _ _ _ _ => s.pendingTags.contains st = false
  | .lateDone st _ => s.pendingTags.contains st = false
  | .pollCallback tag _ => ∀ i alarms, s.polls.alarms.next tag = some (i, alarms) →
      ∀ st, (s.polls.data i).streams.contains st = true → s.pendingTags.contains st = true →
        s.home st = some i
  | _ => True

/-- Then what moves a stream is a step of its own. -/
theorem Turn.step {s : Sys ι κ} {l : Lbl ι κ} {st : κ} {v v' : ServerEventStream.Sys}
    (hturn : Turn s l st v v') (hv : s.view st = some v) (hown : OwnEvents s l) :
    ∃ m, ServerEventStream.step v m = some v' := by
  rcases view_eq_some.mp hv with ⟨-, htag', hset⟩
  have hheld {i : ι} (hhome : s.home st = some i)
      (hmem : (s.polls.data i).streams.contains st = true) : v.inStreams = true := by
    rw [← hset, Sys.inSet, hhome]
    exact hmem
  cases hturn with
  | complete hstep => exact ⟨_, hstep⟩
  | done hstep => exact ⟨_, hstep⟩
  | late htag => cases (htag'.trans htag).symm.trans hown
  | lateDone htag => cases (htag'.trans htag).symm.trans hown
  | endStream hnext hmem htag =>
    have hhome := hown _ _ hnext st hmem (htag'.trans htag)
    exact ⟨_, step_callLbl htag (hheld hhome hmem) .endStream⟩
  | @sendEvents _ _ _ _ _ evs _ hnext hends hev hmem htag =>
    have hhome := hown _ _ hnext st hmem (htag'.trans htag)
    exact ⟨_, step_callLbl htag (hheld hhome hmem) (.sendEvents evs)⟩

/-- The queue in order, and each stream where its own steps can lead. -/
structure RunInv (s : Sys ι κ) : Prop where
  queue : QueueInv s
  streams : ∀ st v, s.view st = some v → ServerEventStream.spec.Reachable v

theorem init_runInv (plugin : ι → PluginPtr) (first : κ) : RunInv (init plugin first) where
  queue := init_queueInv plugin first
  streams st v hv := by
    rw [init_view hv]
    exact ServerEventStream.spec.reachable_init rfl

variable [DecidableEq ι]

theorem step_runInv {s s' : Sys ι κ} {l : Lbl ι κ} (hinv : RunInv s) (hown : OwnEvents s l)
    (hstep : step s l = some s') : RunInv s' := by
  rcases step_view hinv.queue hstep with ⟨hqueue, hmoved⟩
  refine ⟨hqueue, ?_⟩
  intro st
  refine (hmoved st).lift (ServerEventStream.spec.reachable_init rfl) ?_ (hinv.streams st)
  intro v v' hv hreach hturn
  rcases hturn.step hv hown with ⟨m, hm⟩
  exact hreach.step _ hm

/-- The queue refines its streams: in a run in which no event reaches another stream than the
one it is for, what is known of a stream is a reachable state of the stream alone. -/
theorem view_reachable {plugin : ι → PluginPtr} {first : κ} {ls : List (Lbl ι κ)} {s : Sys ι κ}
    (hown : (spec plugin first).AllSteps (fun s l _ => OwnEvents s l) (init plugin first) ls)
    (hrun : (spec plugin first).run (init plugin first) ls = some s) {st : κ}
    {v : ServerEventStream.Sys} (hv : s.view st = some v) :
    ServerEventStream.spec.Reachable v := by
  have hinv := (spec plugin first).allSteps_invariant RunInv
    (fun _ _ _ hinv hown hstep => step_runInv hinv hown hstep) (init_runInv plugin first) hown hrun
  exact hinv.streams st v hv

/-- Two clients connect, and the event of the round is sent to both. -/
def twoClients : List (Lbl Unit Nat) :=
  [.complete 0 0 true .connected () 1 (some 0), .complete 1 0 true .connected () 2 none,
    .pushProcess () {}, .pollCallback 0 true]

theorem view_reachable_two : ∃ s v,
    (spec (fun _ => 1) 0).run (init (fun _ => 1) 0) twoClients = some s ∧ s.view 1 = some v ∧
      v.call.outstanding = [.write [ServerEventWrapper.toServerEvent {}]] ∧
      ServerEventStream.spec.Reachable v := by
  have hown : (spec (fun _ => 1) 0).AllSteps (fun s l _ => OwnEvents s l)
      (init (fun _ => 1) 0) twoClients := by
    intro s₁ h₁
    cases h₁
    refine ⟨trivial, ?_⟩
    intro s₂ h₂
    cases h₂
    refine ⟨trivial, ?_⟩
    intro s₃ h₃
    cases h₃
    refine ⟨trivial, ?_⟩
    intro s₄ h₄
    refine ⟨?_, trivial⟩
    intro i alarms hnext st hmem htag
    have hkeys : st ∈ [0, 1] := OrdMap.contains_iff.mp hmem
    rcases List.mem_cons.mp hkeys with rfl | hkeys
    · rfl
    · obtain rfl := List.mem_singleton.mp hkeys
      rfl
  have hval : ((spec (fun _ => 1) 0).run (init (fun _ => 1) 0) twoClients).bind
      (fun s => (s.view 1).map fun v => v.call.outstanding) =
        some [.write [ServerEventWrapper.toServerEvent {}]] := by decide
  rcases Option.bind_eq_some_iff.mp hval with ⟨s, hrun, hs⟩
  rcases Option.map_eq_some_iff.mp hs with ⟨v, hv, hout⟩
  exact ⟨s, v, hrun, hv, hout, view_reachable hown hrun hv⟩

/-! ## One write at a time -/

/-- No stream has two writes outstanding. -/
def OneWrite (s : Sys ι κ) : Prop := ∀ st, ∀ c ∈ s.allCalls st, writes c.outstanding ≤ 1

/-- The condition on a step: a poll round that has events to send finds the writes of the
streams it sends to completed. -/
def WritesDone (s : Sys ι κ) : Lbl ι κ → Prop
  | .pollCallback tag ok => ∀ i alarms, s.polls.alarms.next tag = some (i, alarms) →
      (s.polls.data i).endsPoll ok = false → (s.polls.data i).HasEvents →
      ∀ st c, (s.polls.data i).streams.contains st = true → s.pendingTags.contains st = true →
        s.calls st = some c → c.obj.state = .WRITE → writes c.outstanding = 0
  | _ => True

omit [DecidableEq ι] in
theorem init_oneWrite (plugin : ι → PluginPtr) (first : κ) : OneWrite (init plugin first) := by
  intro st c hc
  have hcall : (init plugin first).calls st = some c := by
    simpa [Sys.allCalls, init] using hc
  obtain rfl : c = {} := congrArg (·.call) (init_view (view_of_calls hcall))
  exact Nat.zero_le 1

/-- A completion meant for another stream starts no write. -/
theorem processed_writes_le (v : ServerEventStream.Sys) (ok : Bool) :
    writes (processed v ok .rejected).call.outstanding ≤ writes v.call.outstanding := by
  have hstrays := processed_strays v ok
  generalize processed v ok .rejected = v' at hstrays ⊢
  cases hstrays with
  | refused | written | finished => exact Nat.le_refl _
  | rejected | writeFailed | disconnected =>
    rw [Call.start_outstanding, ServerEventStream.writes_concat]
    exact Nat.le_refl _

theorem called_endStream_writes_le (v : ServerEventStream.Sys) :
    writes (called v .endStream).call.outstanding ≤ writes v.call.outstanding := by
  rw [called_endStream]
  split
  · rw [Call.start_outstanding, ServerEventStream.writes_concat]
    exact Nat.le_refl _
  · exact Nat.le_refl _

theorem called_sendEvents_writes (v : ServerEventStream.Sys) (evs : Api.ServerEvents) :
    writes (called v (.sendEvents evs)).call.outstanding =
      writes v.call.outstanding + if v.call.obj.state = .WRITE then 1 else 0 := by
  rw [called_sendEvents]
  split
  · rw [Call.start_outstanding, ServerEventStream.writes_concat]
    rfl
  · rfl

omit [DecidableEq ι] in
/-- Only a poll round with events starts a write. -/
theorem Turn.writes {s : Sys ι κ} {l : Lbl ι κ} {st : κ} {v v' : ServerEventStream.Sys}
    (hturn : Turn s l st v v') (hv : s.view st = some v) (hcond : WritesDone s l)
    (hle : writes v.call.outstanding ≤ 1) : writes v'.call.outstanding ≤ 1 := by
  rcases view_eq_some.mp hv with ⟨hcall, htag', -⟩
  cases hturn with
  | complete hstep => exact Nat.le_trans (ServerEventStream.step_writes_le hstep rfl) hle
  | done hstep => exact Nat.le_trans (ServerEventStream.step_writes_le hstep rfl) hle
  | late htag => exact Nat.le_trans (processed_writes_le v _) hle
  | lateDone htag => exact hle
  | endStream hnext hmem htag => exact Nat.le_trans (called_endStream_writes_le v) hle
  | sendEvents hnext hends hev hmem htag =>
    rw [called_sendEvents_writes]
    by_cases hstate : v.call.obj.state = .WRITE
    · -- the only step that adds a write
      rw [hcond _ _ hnext hends hev st v.call hmem (htag'.trans htag) hcall hstate,
        if_pos hstate]
    · rw [if_neg hstate]
      exact hle

/-- A step that meets the condition starts no second write. -/
theorem step_oneWrite {s s' : Sys ι κ} {l : Lbl ι κ} (hinv : QueueInv s)
    (hone : OneWrite s) (hcond : WritesDone s l) (hstep : step s l = some s') :
    OneWrite s' := by
  intro st c hc
  rcases List.mem_append.mp hc with hc | hc
  · -- of a stream that is gone completions are only delivered
    rcases step_earlier hstep hc with ⟨c₀, hc₀, hsub⟩
    exact Nat.le_trans hsub.countP_le (hone st c₀ hc₀)
  · have hcall : s'.calls st = some c := Option.mem_toList.mp hc
    refine ((step_view hinv hstep).2 st).lift (P := fun v => writes v.call.outstanding ≤ 1)
      (Nat.zero_le 1) ?_ ?_ _ (view_of_calls hcall)
    · intro v v' hv hle hturn
      exact hturn.writes hv hcond hle
    · intro v hv
      refine hone st _ (List.mem_append_right _ ?_)
      exact Option.mem_toList.mpr (view_eq_some.mp hv).1

/-- A poll round that finds a write outstanding starts a second one. -/
theorem step_two_writes {s s' : Sys ι κ} {l : Lbl ι κ} (hinv : QueueInv s)
    (hcond : ¬ WritesDone s l) (hstep : step s l = some s') : ¬ OneWrite s' := by
  cases l with
  | pollCallback tag ok =>
    simp only [WritesDone, Classical.not_forall] at hcond
    rcases hcond with ⟨i, alarms, hnext, hends, hev, st, c, hmem, hlive, hcall, hstate, hne⟩
    -- a round with events sends to all streams of the set, so also to this one
    rcases pollCallback_view hinv hnext hstep with ⟨-, -, hcalled⟩
    rcases (s.polls.data i).pollCallback_calls ok s.obj with ⟨-, hidle⟩ | ⟨call, heq, hcall'⟩
    · exact absurd hev (hidle hends)
    rcases hcall' with ⟨hends', -⟩ | ⟨-, -, evs, rfl⟩
    · cases hends.symm.trans hends'
    rcases hcalled _ heq st with ⟨hout, -⟩ | ⟨-, v, hv, hmove⟩
    · cases hmem.symm.trans hout
    rcases view_eq_some.mp hv with ⟨hvc, hvtag, -⟩
    obtain rfl : c = v.call := Option.some.inj (hcall.symm.trans hvc)
    rw [if_pos (hvtag.symm.trans hlive)] at hmove
    intro hone
    have hle := hone st _ (List.mem_append_right _
      (Option.mem_toList.mpr (view_eq_some.mp hmove).1))
    rw [called_sendEvents_writes, if_pos hstate] at hle
    omega
  | _ => exact absurd trivial hcond

/-- No stream ever has two writes outstanding, in every step of a run, exactly when each
poll round that has events finds the writes of the open streams completed. -/
theorem one_write_iff (plugin : ι → PluginPtr) (first : κ) (ls : List (Lbl ι κ)) :
    (spec plugin first).AllSteps (fun _ _ s' => OneWrite s') (init plugin first) ls ↔
      (spec plugin first).AllSteps (fun s l _ => WritesDone s l) (init plugin first) ls := by
  refine (spec plugin first).allSteps_iff (fun s => QueueInv s ∧ OneWrite s)
    ?_ ?_ ⟨init_queueInv plugin first, init_oneWrite plugin first⟩ ls
  · intro s l s' hinv hcond hstep
    have hone := step_oneWrite hinv.1 hinv.2 hcond hstep
    exact ⟨⟨(step_view hinv.1 hstep).1, hone⟩, hone⟩
  · intro s l s' hinv hcond hstep
    exact step_two_writes hinv.1 hcond hstep

/-- A client connects, and the poll callback runs twice, each time with an event to send,
before the first write completes. -/
theorem one_write_fails : ¬ ∀ (plugin : Unit → PluginPtr) (ls : List (Lbl Unit Nat)),
    (spec plugin 0).AllSteps (fun _ _ s' => OneWrite s') (init plugin 0) ls := by
  intro h
  have hlast := (spec _ _).forall_allSteps_last (h fun _ => 1)
    [.complete 0 0 true .connected () 1 (some 0), .pushProcess () {}, .pollCallback 0 true,
      .pushProcess () {}]
    (.pollCallback 1 true) rfl rfl
  exact absurd (hlast 0 _ (List.mem_singleton.mpr rfl)) (by decide)

/-! ## Nothing is left behind -/

section Held

variable {v v' : ServerEventStream.Sys}

/-- A completion meant for another stream. -/
theorem heldInv_processed (h : HeldInv v) (ok : Bool) : HeldInv (processed v ok .rejected) := by
  have hstrays := processed_strays v ok
  generalize processed v ok .rejected = v' at hstrays ⊢
  cases hstrays with
  | refused | finished => exact h.killed (List.Sublist.refl _) rfl
  | rejected | disconnected =>
    exact h.start (List.Sublist.refl _) rfl rfl nofun (Or.inl rfl) h.held
  | written => exact h
  | writeFailed hstate =>
    exact h.start (List.Sublist.refl _) rfl rfl nofun
      (Or.inr ⟨rfl, h.connected (Or.inl hstate)⟩) h.held

/-- A call of a poll callback. -/
theorem heldInv_called (h : HeldInv v) (call : SharedData.StreamCall) :
    HeldInv (called v call) := by
  cases call with
  | endStream =>
    rw [called_endStream]
    split
    · rename_i hstate
      exact h.start (List.Sublist.refl _) rfl rfl nofun
        (Or.inr ⟨rfl, h.connected (Or.inl hstate)⟩) h.held
    · exact h
  | sendEvents evs =>
    rw [called_sendEvents]
    split
    · rename_i hstate
      exact h.send v.call.obj.response evs hstate
    · exact h

omit [DecidableEq ι] in
theorem Turn.heldInv {s : Sys ι κ} {l : Lbl ι κ} {st : κ} (hturn : Turn s l st v v')
    (h : HeldInv v) : HeldInv v' := by
  cases hturn with
  | complete hstep => exact ServerEventStream.step_heldInv h hstep
  | done hstep => exact ServerEventStream.step_heldInv h hstep
  | late htag => exact heldInv_processed h _
  | lateDone htag => exact h.finish v.call.done
  | endStream hnext hmem htag => exact heldInv_called h _
  | sendEvents hnext hends hev hmem htag => exact heldInv_called h _

theorem awaited_processed (h : Awaited v) (ok : Bool) : Awaited (processed v ok .rejected) := by
  have hstrays := processed_strays v ok
  generalize processed v ok .rejected = v' at hstrays ⊢
  cases hstrays with
  | refused | finished => nofun
  | rejected | disconnected | writeFailed => exact fun _ => Or.inl (by simp)
  | written => exact h

theorem awaited_called (h : Awaited v) (call : SharedData.StreamCall) :
    Awaited (called v call) := by
  cases call with
  | endStream =>
    rw [called_endStream]
    split
    · exact fun _ => Or.inl (by simp)
    · exact h
  | sendEvents evs =>
    rw [called_sendEvents]
    split
    · exact fun _ => Or.inl (by simp)
    · exact h

end Held

/-- Nothing more will come out of the queue. -/
def Drained (s : Sys ι κ) : Prop :=
  (∀ st, ∀ c ∈ s.allCalls st, c.outstanding = [] ∧ c.done ≠ .outstanding) ∧
    s.polls.alarms.outstanding = []

/-- A connected stream whose call has ended, and whose completions have been delivered, is
in no set; and when `Next` has nothing more to return, no tag is pending. -/
def Clean (s : Sys ι κ) : Prop :=
  (∀ st v, s.view st = some v → CleanedUp v) ∧
    (Drained s → s.pendingTags.toList = [] ∧ s.polls.alarms.pendingAlarmTags.keys = [])

/-- The condition on a step: when the notification of a call's end is delivered to a
living stream, some operation of the stream is still to complete. -/
def EndsBusy (s : Sys ι κ) : Lbl ι κ → Prop
  | .done st => ∀ c, s.calls st = some c → s.pendingTags.contains st = true →
      c.outstanding ≠ []
  | _ => True

/-- Every living stream has something to wait for. -/
structure CleanInv (s : Sys ι κ) : Prop where
  queue : QueueInv s
  streams : ∀ st v, s.view st = some v → HeldInv v
  awaited : ∀ st v, s.view st = some v → Awaited v

omit [DecidableEq ι] in
theorem init_cleanInv (plugin : ι → PluginPtr) (first : κ) : CleanInv (init plugin first) where
  queue := init_queueInv plugin first
  streams st v hv := by
    rw [init_view hv]
    exact ServerEventStream.init_heldInv
  awaited st v hv := by
    rw [init_view hv]
    exact ServerEventStream.init_awaited

omit [DecidableEq ι] in
theorem CleanInv.clean {s : Sys ι κ} (h : CleanInv s) : Clean s := by
  constructor
  · intro st v hv
    exact (h.awaited st v hv).cleanedUp (h.streams st v hv)
  · rintro ⟨hcalls, halarms⟩
    constructor
    · refine List.eq_nil_iff_forall_not_mem.mpr ?_
      intro st hst
      have htag := OrdMap.contains_iff.mpr hst
      rcases Option.ne_none_iff_exists'.mp (h.queue.pendingTags st htag) with ⟨c, hc⟩
      -- a living stream waits for something, but nothing is to come
      rcases hcalls st c (List.mem_append_right _ (Option.mem_toList.mpr hc)) with ⟨hout, hdone⟩
      rcases h.awaited st _ (view_of_calls hc) htag with hne | hne
      · exact hne hout
      · exact hdone hne
    · have hperm := h.queue.alarms.outstanding
      rw [halarms] at hperm
      exact hperm.nil_eq.symm

omit [DecidableEq ι] in
theorem Turn.awaited {s : Sys ι κ} {l : Lbl ι κ} {st : κ} {v v' : ServerEventStream.Sys}
    (hturn : Turn s l st v v') (hv : s.view st = some v) (hcond : EndsBusy s l)
    (hheld : HeldInv v) (h : Awaited v) : Awaited v' := by
  cases hturn with
  | @complete _ k ok connect _ _ _ _ _ hstep =>
    exact ServerEventStream.step_awaited (l := .complete k ok connect) hheld h trivial hstep
  | done hstep =>
    rcases view_eq_some.mp hv with ⟨hcall, htag, -⟩
    refine ServerEventStream.step_awaited hheld h ?_ hstep
    intro hlive
    exact hcond v.call hcall (htag.trans hlive)
  | late htag => exact awaited_processed h _
  | lateDone htag => exact h
  | endStream hnext hmem htag => exact awaited_called h _
  | sendEvents hnext hends hev hmem htag => exact awaited_called h _

theorem step_cleanInv {s s' : Sys ι κ} {l : Lbl ι κ} (hinv : CleanInv s)
    (hcond : EndsBusy s l) (hstep : step s l = some s') : CleanInv s' := by
  rcases step_view hinv.queue hstep with ⟨hqueue, hmoved⟩
  refine ⟨hqueue, ?_, ?_⟩
  · intro st
    exact (hmoved st).lift ServerEventStream.init_heldInv
      (fun v v' _ h hturn => hturn.heldInv h) (hinv.streams st)
  · intro st
    exact (hmoved st).lift ServerEventStream.init_awaited
      (fun v v' hv h hturn => hturn.awaited hv hcond (hinv.streams st v hv) h) (hinv.awaited st)

/-- The notification of the call's end that finds nothing outstanding leaves its stream
behind. -/
theorem step_not_clean {s s' : Sys ι κ} {l : Lbl ι κ} (hinv : CleanInv s)
    (hcond : ¬ EndsBusy s l) (hstep : step s l = some s') : ¬ Clean s' := by
  cases l with
  | done st =>
    simp only [EndsBusy, Classical.not_forall] at hcond
    rcases hcond with ⟨c, hcall, hlive, hout⟩
    have hheld := hinv.streams st _ (view_of_calls hcall)
    rcases done_view hcall hstep with ⟨v', hm, hv'⟩
    intro hclean
    refine ServerEventStream.step_left_behind hheld ?_ hm (hclean.1 st v' hv')
    intro hbusy
    exact hout (hbusy hlive)
  | _ => exact absurd trivial hcond

/-- Streams of ended calls are cleaned up, and a drained queue has no pending tags, in
every step of a run, exactly when no call ends while its stream has nothing outstanding. -/
theorem cleaned_up_iff (plugin : ι → PluginPtr) (first : κ) (ls : List (Lbl ι κ)) :
    (spec plugin first).AllSteps (fun _ _ s' => Clean s') (init plugin first) ls ↔
      (spec plugin first).AllSteps (fun s l _ => EndsBusy s l) (init plugin first) ls := by
  refine (spec plugin first).allSteps_iff CleanInv ?_ ?_ (init_cleanInv plugin first) ls
  · intro s l s' hinv hcond hstep
    have hinv' := step_cleanInv hinv hcond hstep
    exact ⟨hinv', hinv'.clean⟩
  · intro s l s' hinv hcond hstep
    exact step_not_clean hinv hcond hstep

/-- A client connects and goes away before anything is sent to it. The notification sets
the state; no completion follows that could remove the stream. -/
theorem cleaned_up_fails : ¬ ∀ (plugin : Unit → PluginPtr) (ls : List (Lbl Unit Nat)),
    (spec plugin 0).AllSteps (fun _ _ s' => Clean s') (init plugin 0) ls := by
  intro h
  have hlast := (spec _ _).forall_allSteps_last (h fun _ => 1)
    [.complete 0 0 true .connected () 1 (some 0)] (.done 0) rfl rfl
  exact absurd (hlast.1 0 _ rfl rfl rfl rfl).1 (by decide)

end ClapRci.StreamCq
