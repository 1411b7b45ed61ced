import ClapRci.Server.StreamCq

/-!
# Steps of the stream completion queue

* `step_view`: what a step does to one stream is a step of `ServerEventStream.spec`, or
  nothing, unless it was meant for another stream at the same address;
* `step_earlier`: of a stream that is gone no operation is started.
-/

namespace ClapRci.StreamCq

open ServerEventStream (Call ConnectResult Effect)
open SharedData (StreamCall)

variable {ι κ : Type} [LinearOrder κ]

/-! ## The calls of a poll callback -/

/-- A call of the poll callback, on the stream alone. -/
def called (v : ServerEventStream.Sys) (call : StreamCall) : ServerEventStream.Sys :=
  let (obj, effs) := callEffects v.call.obj call
  ServerEventStream.Sys.applyAll { v with call := { v.call with obj := obj } } effs

/-- The label a call of the poll callback is for its stream. -/
def callLbl : StreamCall → ServerEventStream.Lbl
  | .endStream => .endStream
  | .sendEvents evs => .sendEvents evs

/-- A call on a living stream, from the set it is in, is a step of that stream. -/
theorem step_callLbl {v : ServerEventStream.Sys} (htag : v.pendingTag = true)
    (hin : v.inStreams = true) (call : StreamCall) :
    ServerEventStream.step v (callLbl call) = some (called v call) := by
  cases call <;> simp [callLbl, ServerEventStream.step, htag, hin, called, callEffects]

/-- Calls start operations and do nothing else. -/
theorem callEffects_start (obj : ServerEventStream) (call : StreamCall) :
    ∀ eff ∈ (callEffects obj call).2, ∃ op, eff = .start op := by
  intro eff heff
  cases call with
  | endStream =>
    simp only [callEffects, ServerEventStream.endStream] at heff
    split at heff
    · cases heff
    · exact ⟨_, List.mem_singleton.mp heff⟩
  | sendEvents evs =>
    simp only [callEffects, ServerEventStream.sendEvents] at heff
    split at heff
    · cases heff
    · exact ⟨_, List.mem_singleton.mp heff⟩

/-- An open stream is sent the events. -/
theorem called_sendEvents (v : ServerEventStream.Sys) (evs : Api.ServerEvents) :
    called v (.sendEvents evs) =
      if v.call.obj.state = .WRITE then { v with call := v.call.start (.write evs) } else v := by
  by_cases hstate : v.call.obj.state = .WRITE
  · simp [called, callEffects, ServerEventStream.sendEvents, hstate,
      ServerEventStream.Sys.applyAll, ServerEventStream.Sys.apply]
  · simp [called, callEffects, ServerEventStream.sendEvents, hstate,
      ServerEventStream.Sys.applyAll]

/-- An open stream is told to end. -/
theorem called_endStream (v : ServerEventStream.Sys) :
    called v .endStream =
      if v.call.obj.state = .WRITE then
        { v with call := (v.call.setState .DISCONNECT).start .alarm }
      else v := by
  by_cases hstate : v.call.obj.state = .WRITE
  · simp [called, callEffects, ServerEventStream.endStream, hstate,
      ServerEventStream.Sys.applyAll, ServerEventStream.Sys.apply, Call.setState]
  · simp [called, callEffects, ServerEventStream.endStream, hstate,
      ServerEventStream.Sys.applyAll]

section Calls

variable [DecidableEq ι] {s : Sys ι κ} {st : κ}

theorem applyEffects_start_frame (i : Option ι) (fresh : κ) (cq : Option CqHandle)
    {effs : List Effect} (hstart : ∀ eff ∈ effs, ∃ op, eff = .start op) (s : Sys ι κ) :
    let s' := applyEffects i fresh cq st s effs
    s'.polls = s.polls ∧ s'.pendingTags = s.pendingTags ∧ s'.home = s.home ∧
      s'.earlier = s.earlier := by
  induction effs generalizing s with
  | nil => exact ⟨rfl, rfl, rfl, rfl⟩
  | cons eff effs ih =>
    rcases hstart eff List.mem_cons_self with ⟨op, rfl⟩
    exact ih (fun e he => hstart e (List.mem_cons_of_mem _ he)) _

/-- A call changes nothing but what is known of the streams. -/
theorem applyCall_frame (s : Sys ι κ) (call : κ × StreamCall) :
    (applyCall s call).polls = s.polls ∧ (applyCall s call).pendingTags = s.pendingTags ∧
      (applyCall s call).home = s.home ∧ (applyCall s call).earlier = s.earlier := by
  unfold applyCall
  split
  · exact applyEffects_start_frame _ _ _ (callEffects_start _ _) _
  · exact ⟨rfl, rfl, rfl, rfl⟩

/-- A call at an address where no stream is. -/
theorem applyCall_gone (call : StreamCall) (hgone : s.pendingTags.contains st = false) :
    applyCall s (st, call) = s := by
  simp [applyCall, hgone]

omit [DecidableEq ι] in
theorem obj_of_view {v : ServerEventStream.Sys} (hv : s.view st = some v) :
    s.obj st = v.call.obj := by
  unfold Sys.obj
  rw [(view_eq_some.mp hv).1]

/-- A call, as effects of the stream it is made on. -/
theorem applyCall_spec (h : QueueInv s) (call : StreamCall)
    (hlive : s.pendingTags.contains st = true) :
    QueueInv (applyCall s (st, call)) ∧
      (∀ v, s.view st = some v → (applyCall s (st, call)).view st = some (called v call)) ∧
      ∀ j, j ≠ st → (applyCall s (st, call)).view j = s.view j := by
  set r := callEffects (s.obj st) call
  have hno : ∀ eff ∈ r.2, eff ≠ .create ∧ eff ≠ .addStream := by
    intro eff hmem
    rcases callEffects_start _ _ _ hmem with ⟨op, rfl⟩
    exact ⟨nofun, nofun⟩
  have happly : applyCall s (st, call) = applyEffects none st none st
      (s.modifyCall st fun c => { c with obj := r.1 }) r.2 := by
    simp only [applyCall, hlive, if_true]
    rfl
  have hst := modifyCall_calls_ne_none st (fun c => { c with obj := r.1 })
    (h.pendingTags st hlive)
  rcases applyEffects_spec st none r.2 (fun hmem => absurd rfl (hno _ hmem).1)
    (fun hmem => absurd rfl (hno _ hmem).2) (h.modifyCall st _) hst with ⟨hinv, hself, hother⟩
  rw [happly]
  refine ⟨hinv, ?_, ?_⟩
  · intro v hv
    rw [hself, view_modifyCall_self, hv]
    simp only [Option.map_some, called, r, obj_of_view hv]
  · intro j hj
    rw [hother j hj, if_neg fun h => hj h.1, view_modifyCall_ne hj]

theorem QueueInv.applyCall (h : QueueInv s) (call : κ × StreamCall) :
    QueueInv (applyCall s call) := by
  cases hlive : s.pendingTags.contains call.1 with
  | false => rwa [applyCall_gone call.2 hlive]
  | true => exact (applyCall_spec h call.2 hlive).1

theorem applyCall_view_ne (h : QueueInv s) {j : κ} (hne : j ≠ st) (call : StreamCall) :
    (applyCall s (st, call)).view j = s.view j := by
  cases hlive : s.pendingTags.contains st with
  | false => rw [applyCall_gone call hlive]
  | true => exact (applyCall_spec h call hlive).2.2 j hne

theorem applyCall_view_self (h : QueueInv s) {v : ServerEventStream.Sys}
    (hv : s.view st = some v) (call : StreamCall) :
    (applyCall s (st, call)).view st = some (if v.pendingTag then called v call else v) := by
  have htag := (view_eq_some.mp hv).2.1
  cases hlive : v.pendingTag with
  | false =>
    rw [applyCall_gone call (htag.trans hlive)]
    exact hv
  | true => exact (applyCall_spec h call (htag.trans hlive)).2.1 v hv

theorem applyCalls_frame (calls : List (κ × StreamCall)) (s : Sys ι κ) :
    let s' := calls.foldl applyCall s
    s'.polls = s.polls ∧ s'.pendingTags = s.pendingTags ∧ s'.home = s.home ∧
      s'.earlier = s.earlier := by
  induction calls generalizing s with
  | nil => exact ⟨rfl, rfl, rfl, rfl⟩
  | cons call calls ih =>
    rcases ih (applyCall s call) with ⟨hpolls, htags, hhome, hearlier⟩
    rcases applyCall_frame s call with ⟨hpolls', htags', hhome', hearlier'⟩
    exact ⟨hpolls.trans hpolls', htags.trans htags', hhome.trans hhome',
      hearlier.trans hearlier'⟩

theorem QueueInv.applyCalls (h : QueueInv s) (calls : List (κ × StreamCall)) :
    QueueInv (calls.foldl StreamCq.applyCall s) := by
  induction calls generalizing s with
  | nil => exact h
  | cons call calls ih => exact ih (h.applyCall call)

/-- Calls on other streams. -/
theorem applyCalls_view_ne (h : QueueInv s) {sts : List κ} (hst : st ∉ sts)
    (call : StreamCall) :
    ((sts.map fun j => (j, call)).foldl applyCall s).view st = s.view st := by
  induction sts generalizing s with
  | nil => rfl
  | cons j sts ih =>
    rw [List.mem_cons, not_or] at hst
    rw [List.map_cons, List.foldl_cons, ih (h.applyCall _) hst.2, applyCall_view_ne h hst.1]

/-- The same call on several streams: each has its turn once. -/
theorem applyCalls_view_self (h : QueueInv s) {sts : List κ} (hnd : sts.Nodup)
    (hst : st ∈ sts) (call : StreamCall) {v : ServerEventStream.Sys}
    (hv : s.view st = some v) :
    ((sts.map fun j => (j, call)).foldl applyCall s).view st =
      some (if v.pendingTag then called v call else v) := by
  induction sts generalizing s with
  | nil => cases hst
  | cons j sts ih =>
    rcases List.nodup_cons.mp hnd with ⟨hj, hnd'⟩
    rw [List.map_cons, List.foldl_cons]
    by_cases heq : st = j
    · -- its own turn; it has no other
      subst heq
      rw [applyCalls_view_ne (h.applyCall _) hj, applyCall_view_self h hv]
    · rcases List.mem_cons.mp hst with rfl | hmem
      · exact absurd rfl heq
      · exact ih (h.applyCall _) hnd' hmem ((applyCall_view_ne h heq call).trans hv)

end Calls

/-! ## The completions -/

/-- A completion, on the stream alone. -/
def processed (v : ServerEventStream.Sys) (ok : Bool) (connect : ConnectResult) :
    ServerEventStream.Sys :=
  let (obj, effs) := v.call.obj.process ok connect
  ServerEventStream.Sys.applyAll { v with call := { v.call with obj := obj } } effs

theorem process_create_iff (obj : ServerEventStream) (ok : Bool) (connect : ConnectResult) :
    .create ∈ (obj.process ok connect).2 ↔ ok = true ∧ obj.state = .CONNECT := by
  rcases obj with ⟨state, sharedData, response⟩
  cases state with
  | CONNECT =>
    cases ok with
    | false => cases sharedData <;> simp [ServerEventStream.process, ServerEventStream.kill]
    | true =>
      cases connect <;> simp [ServerEventStream.process, ServerEventStream.connectClient]
  | WRITE => cases ok <;> simp [ServerEventStream.process]
  | DISCONNECT => simp [ServerEventStream.process]
  | FINISH => cases sharedData <;> simp [ServerEventStream.process, ServerEventStream.kill]

/-- A stream whose client sends no hash is put into no set. -/
theorem process_rejected (obj : ServerEventStream) (ok : Bool) :
    .addStream ∉ (obj.process ok .rejected).2 := by
  rcases obj with ⟨state, sharedData, response⟩
  cases state with
  | CONNECT =>
    cases ok with
    | false => cases sharedData <;> simp [ServerEventStream.process, ServerEventStream.kill]
    | true => simp [ServerEventStream.process, ServerEventStream.connectClient]
  | WRITE => cases ok <;> simp [ServerEventStream.process]
  | DISCONNECT => simp [ServerEventStream.process]
  | FINISH => cases sharedData <;> simp [ServerEventStream.process, ServerEventStream.kill]

/-- What a completion that was meant for another stream does to the one that is there. -/
inductive Strays (v : ServerEventStream.Sys) : Bool → ServerEventStream.Sys → Prop where
  | refused (hstate : v.call.obj.state = .CONNECT) : Strays v false v.killed
  | rejected (hstate : v.call.obj.state = .CONNECT) :
    Strays v true { v with
      call := (v.call.setState .FINISH).start
        (.finish ⟨.UNAUTHENTICATED, "Couldn't authenticate client"⟩) }
  | written (hstate : v.call.obj.state = .WRITE) : Strays v true v
  | writeFailed (hstate : v.call.obj.state = .WRITE) :
    Strays v false { v with
      call := (v.call.setState .DISCONNECT).start (.finish ⟨.OK, "Client Write Finished"⟩) }
  | disconnected {ok} (hstate : v.call.obj.state = .DISCONNECT) :
    Strays v ok { v with
      call := (v.call.setState .FINISH).start (.finish ⟨.OK, "Client Disconnected"⟩) }
  | finished {ok} (hstate : v.call.obj.state = .FINISH) : Strays v ok v.killed

/-- Where `process` is nothing but `kill`. -/
theorem processed_kill {v : ServerEventStream.Sys} {ok : Bool} {connect : ConnectResult}
    (h : v.call.obj.process ok connect = (v.call.obj, v.call.obj.kill)) :
    processed v ok connect = v.killed := by
  simp only [processed, h]
  exact v.applyAll_kill

theorem processed_strays (v : ServerEventStream.Sys) (ok : Bool) :
    Strays v ok (processed v ok .rejected) := by
  cases hstate : v.call.obj.state with
  | CONNECT =>
    cases ok with
    | false =>
      rw [processed_kill (by simp [ServerEventStream.process, hstate])]
      exact .refused hstate
    | true =>
      simpa [processed, ServerEventStream.process, ServerEventStream.connectClient, hstate,
        ServerEventStream.Sys.applyAll, ServerEventStream.Sys.apply, Call.setState] using
        Strays.rejected hstate
  | WRITE =>
    cases ok with
    | false =>
      simpa [processed, ServerEventStream.process, hstate, ServerEventStream.Sys.applyAll,
        ServerEventStream.Sys.apply, Call.setState] using Strays.writeFailed hstate
    | true =>
      simpa [processed, ServerEventStream.process, hstate, ServerEventStream.Sys.applyAll] using
        Strays.written hstate
  | DISCONNECT =>
    simpa [processed, ServerEventStream.process, hstate, ServerEventStream.Sys.applyAll,
      ServerEventStream.Sys.apply, Call.setState] using
      (Strays.disconnected hstate : Strays v ok _)
  | FINISH =>
    rw [processed_kill (by simp [ServerEventStream.process, hstate])]
    exact .finished hstate

section Process

variable [DecidableEq ι] {s s' : Sys ι κ} {st fresh : κ} {ok : Bool}

/-- What a living stream does with a completion: others see nothing of it, but for a new one. -/
theorem process_spec (h : QueueInv s) (hlive : s.pendingTags.contains st = true)
    (hfresh : s.pendingTags.contains fresh = false) {i : Option ι} {cq : Option CqHandle}
    {connect : ConnectResult} (hi : connect ≠ .rejected → i ≠ none) :
    QueueInv (s.process st ok connect i fresh cq) ∧
      (∀ v, s.view st = some v →
        (s.process st ok connect i fresh cq).view st = some (processed v ok connect)) ∧
      ∀ j, j ≠ st → (s.process st ok connect i fresh cq).view j =
        if j = fresh ∧ ok = true ∧ (s.obj st).state = .CONNECT then some {} else s.view j := by
  set r := (s.obj st).process ok connect
  have hne : fresh ≠ st := by
    rintro rfl
    cases hlive.symm.trans hfresh
  have hadd : .addStream ∈ r.2 → i ≠ none := by
    intro hmem
    apply hi
    rintro rfl
    exact process_rejected _ _ hmem
  have hst := modifyCall_calls_ne_none st (fun c => { c with obj := r.1 })
    (h.pendingTags st hlive)
  rcases applyEffects_spec fresh cq r.2 (fun _ => hne) hadd (h.modifyCall st _) hst with
    ⟨hinv, hself, hother⟩
  refine ⟨hinv, ?_, ?_⟩
  · intro v hv
    refine hself.trans ?_
    rw [view_modifyCall_self, hv]
    simp only [Option.map_some, processed, r, obj_of_view hv]
  · intro j hj
    refine (hother j hj).trans ?_
    simp only [view_modifyCall_ne hj, r, process_create_iff]

end Process

/-! ## What a step does to one stream -/

/-- A living stream that waits for its client takes a completion for the request's. -/
def Accepts (s : Sys ι κ) (st : κ) (ok : Bool) : Prop :=
  ok = true ∧ s.pendingTags.contains st = true ∧ (s.obj st).state = .CONNECT

/-- The step creates a stream at this address. -/
def Creates (s : Sys ι κ) : Lbl ι κ → κ → Prop
  | .complete st _ ok _ _ fresh _, j => j = fresh ∧ Accepts s st ok
  | .late st _ _ ok fresh, j => j = fresh ∧ Accepts s st ok
  | _, _ => False

/-- What a step does to a stream that is there: a step of its own, an event that was meant for
an earlier stream at its address, or a call of a poll callback. -/
inductive Turn (s : Sys ι κ) : Lbl ι κ → κ → ServerEventStream.Sys → ServerEventStream.Sys →
    Prop where
  | complete {st k ok connect i fresh cq v v'}
    (hstep : ServerEventStream.step v (.complete k ok connect) = some v') :
    Turn s (.complete st k ok connect i fresh cq) st v v'
  | done {st v v'} (hstep : ServerEventStream.step v .done = some v') : Turn s (.done st) st v v'
  | late {st n k ok fresh v} (htag : v.pendingTag = true) :
    Turn s (.late st n k ok fresh) st v (processed v ok .rejected)
  | lateDone {st n v} (htag : v.pendingTag = true) :
    Turn s (.lateDone st n) st v { v with call := { v.call with obj := v.call.obj.onDone } }
  | endStream {tag ok st i alarms v} (hnext : s.polls.alarms.next tag = some (i, alarms))
    (hmem : (s.polls.data i).streams.contains st = true) (htag : v.pendingTag = true) :
    Turn s (.pollCallback tag ok) st v (called v .endStream)
  | sendEvents {tag ok st i alarms evs v} (hnext : s.polls.alarms.next tag = some (i, alarms))
    (hends : (s.polls.data i).endsPoll ok = false) (hev : (s.polls.data i).HasEvents)
    (hmem : (s.polls.data i).streams.contains st = true) (htag : v.pendingTag = true) :
    Turn s (.pollCallback tag ok) st v (called v (.sendEvents evs))

/-- A stream across a step: as it was, created where none lives, or moved. -/
inductive Moved (s : Sys ι κ) (l : Lbl ι κ) (st : κ) :
    Option ServerEventStream.Sys → Option ServerEventStream.Sys → Prop where
  | same {o} (hnew : ¬ Creates s l st) : Moved s l st o o
  | created {o} (hnew : Creates s l st) (hgone : ∀ v, o = some v → v.pendingTag = false) :
    Moved s l st o (some {})
  | turn {v v'} (hnew : ¬ Creates s l st) (hturn : Turn s l st v v') :
    Moved s l st (some v) (some v')

/-- What holds of a new stream and is kept by the turns of a stream holds of every stream. -/
theorem Moved.lift {s : Sys ι κ} {l : Lbl ι κ} {st : κ} {o o' : Option ServerEventStream.Sys}
    (hmoved : Moved s l st o o') {P : ServerEventStream.Sys → Prop} (hnew : P {})
    (hturn : ∀ v v', o = some v → P v → Turn s l st v v' → P v')
    (ho : ∀ v, o = some v → P v) : ∀ v', o' = some v' → P v' := by
  intro v' hv'
  cases hmoved with
  | same => exact ho v' hv'
  | created =>
    cases hv'
    exact hnew
  | turn _ ht =>
    cases hv'
    exact hturn _ _ rfl (ho _ rfl) ht

section StepView

variable [DecidableEq ι] {s s' : Sys ι κ}

/-- What a step does to each stream. -/
def Moves (s : Sys ι κ) (l : Lbl ι κ) (s' : Sys ι κ) : Prop :=
  QueueInv s' ∧ ∀ j, Moved s l j (s.view j) (s'.view j)

omit [DecidableEq ι] in
/-- Of the other streams, those that a completion does not create stay as they are; and one is
created only where none lives. -/
theorem moved_others {l : Lbl ι κ} {st fresh : κ} {ok : Bool}
    (hl : ∀ j, Creates s l j ↔ j = fresh ∧ Accepts s st ok)
    (hlive : s.pendingTags.contains st = true) (hfresh : s.pendingTags.contains fresh = false)
    (j : κ) : Moved s l j (s.view j)
      (if j = fresh ∧ ok = true ∧ (s.obj st).state = .CONNECT then some {} else s.view j) := by
  by_cases hnew : j = fresh ∧ ok = true ∧ (s.obj st).state = .CONNECT
  · rw [if_pos hnew]
    rcases hnew with ⟨rfl, hok, hstate⟩
    refine .created ((hl j).mpr ⟨rfl, hok, hlive, hstate⟩) ?_
    intro v hv
    exact (view_eq_some.mp hv).2.1.symm.trans hfresh
  · rw [if_neg hnew]
    refine .same ?_
    rw [hl]
    rintro ⟨rfl, hok, -, hstate⟩
    exact hnew ⟨rfl, hok, hstate⟩

/-- What a completion does: the tag of a stream that is gone is only taken from the queue, and
that of one that is there is processed. -/
theorem complete_cases {st : κ} {k : Nat} {ok : Bool} {connect : ConnectResult} {i : ι} {fresh : κ}
    {cq : Option CqHandle} (hstep : step s (.complete st k ok connect i fresh cq) = some s') :
    s.pendingTags.contains fresh = false ∧ ∃ c₀ c, s.calls st = some c₀ ∧
      c₀.complete k ok = some c ∧
      (s.pendingTags.contains st = false ∧ s' = s.modifyCall st (fun _ => c) ∨
        s.pendingTags.contains st = true ∧
          s' = (s.modifyCall st fun _ => c).process st ok connect (some i) fresh cq) := by
  simp only [step] at hstep
  split at hstep
  · cases hstep
  rename_i c hbind
  rcases Option.bind_eq_some_iff.mp hbind with ⟨c₀, hc₀, hc⟩
  split at hstep
  · cases hstep
  rename_i hfresh
  cases hstep
  refine ⟨Bool.eq_false_iff.mpr hfresh, c₀, c, hc₀, hc, ?_⟩
  cases hlive : s.pendingTags.contains st with
  | false => exact Or.inl ⟨rfl, by simp [Sys.modifyCall, hlive]⟩
  | true => exact Or.inr ⟨rfl, by simp [Sys.modifyCall, hlive]⟩

/-- A completion is a step of its stream, and no other stream sees it but one it creates. -/
theorem complete_view (h : QueueInv s) {st : κ} {k : Nat} {ok : Bool}
    {connect : ConnectResult} {i : ι} {fresh : κ} {cq : Option CqHandle}
    (hstep : step s (.complete st k ok connect i fresh cq) = some s') :
    QueueInv s' ∧
      (∃ v v', s.view st = some v ∧ ServerEventStream.step v (.complete k ok connect) = some v' ∧
        s'.view st = some v') ∧
      ∀ j, j ≠ st → Moved s (.complete st k ok connect i fresh cq) j (s.view j) (s'.view j) := by
  rcases complete_cases hstep with ⟨hfresh, c₀, c, hc₀, hc, ⟨hgone, rfl⟩ | ⟨hlive, rfl⟩⟩
  · -- the tag of a stream that is gone
    refine ⟨h.modifyCall st _, ⟨_, ⟨c, false, s.inSet st⟩, view_of_calls hc₀, ?_, ?_⟩, ?_⟩
    · simp [ServerEventStream.step, hc, hgone]
    · rw [view_modifyCall_self, view_of_calls hc₀, hgone]
      rfl
    · intro j hj
      rw [view_modifyCall_ne hj]
      refine .same ?_
      rintro ⟨-, -, hlive, -⟩
      cases hgone.symm.trans hlive
  · set s₁ := s.modifyCall st fun _ => c
    have hview₁ : s₁.view st = some ⟨c, true, s.inSet st⟩ := by
      rw [view_modifyCall_self, view_of_calls hc₀, hlive]
      rfl
    have hobj : (s₁.obj st).state = (s.obj st).state := by
      rw [obj_of_view hview₁, obj_of_view (view_of_calls hc₀), Call.complete_obj hc]
    have hadd : connect ≠ .rejected → some i ≠ none := fun _ => Option.some_ne_none i
    rcases @process_spec _ _ _ _ s₁ st fresh ok (h.modifyCall st _) hlive hfresh (some i) cq
      connect hadd with ⟨hinv, hself, hother⟩
    refine ⟨hinv, ⟨_, _, view_of_calls hc₀, ?_, hself _ hview₁⟩, ?_⟩
    · simp [ServerEventStream.step, hc, hlive, processed]
    · intro j hj
      rw [hother j hj, view_modifyCall_ne hj, hobj]
      exact moved_others (fun _ => Iff.rfl) hlive hfresh j

/-- A completion is a step of its stream; it may create another stream. -/
theorem complete_moves (h : QueueInv s) {st : κ} {k : Nat} {ok : Bool}
    {connect : ConnectResult} {i : ι} {fresh : κ} {cq : Option CqHandle}
    (hstep : step s (.complete st k ok connect i fresh cq) = some s') :
    Moves s (.complete st k ok connect i fresh cq) s' := by
  rcases complete_view h hstep with ⟨hinv, ⟨v, v', hv, hm, hv'⟩, hother⟩
  refine ⟨hinv, ?_⟩
  intro j
  by_cases hj : j = st
  · subst hj
    rw [hv, hv']
    refine .turn ?_ (.complete hm)
    rintro ⟨rfl, -, hlive, -⟩
    cases hlive.symm.trans (complete_cases hstep).1
  · exact hother j hj

/-- What the notification of its call's end does to a stream. -/
theorem done_view {st : κ} {c : Call} (hc : s.calls st = some c)
    (hstep : step s (.done st) = some s') :
    ∃ v', ServerEventStream.step ⟨c, s.pendingTags.contains st, s.inSet st⟩ .done = some v' ∧
      s'.view st = some v' := by
  simp only [step, hc] at hstep
  split at hstep
  case isFalse => cases hstep
  rename_i hdone
  cases hstep
  rw [view_modifyCall_self, view_of_calls hc]
  refine ⟨_, ?_, rfl⟩
  simp only [ServerEventStream.step, hdone, if_true]

/-- The notification of a call's end is a step of its stream. -/
theorem done_moves (h : QueueInv s) {st : κ} (hstep : step s (.done st) = some s') :
    Moves s (.done st) s' := by
  cases hc : s.calls st with
  | none => simp [step, hc] at hstep
  | some c =>
    rcases done_view hc hstep with ⟨v', hm, hv'⟩
    simp only [step, hc] at hstep
    split at hstep
    case isFalse => cases hstep
    cases hstep
    refine ⟨h.modifyCall st _, ?_⟩
    intro j
    by_cases hj : j = st
    · subst hj
      rw [hv', view_of_calls hc]
      exact .turn id (.done hm)
    · rw [view_modifyCall_ne hj]
      exact .same id

/-- What the completion of an earlier stream's operation does: the object that lives at its
address processes it. -/
theorem late_cases {st : κ} {n k : Nat} {ok : Bool} {fresh : κ}
    (hstep : step s (.late st n k ok fresh) = some s') :
    s.pendingTags.contains fresh = false ∧ ∃ c₀ c, (s.earlier st)[n]? = some c₀ ∧
      c₀.complete k ok = some c ∧
      (s.pendingTags.contains st = false ∧ s' = s.setEarlier st n c ∨
        s.pendingTags.contains st = true ∧
          s' = (s.setEarlier st n c).process st ok .rejected none fresh none) := by
  simp only [step] at hstep
  split at hstep
  · cases hstep
  rename_i c hbind
  rcases Option.bind_eq_some_iff.mp hbind with ⟨c₀, hc₀, hc⟩
  split at hstep
  · cases hstep
  rename_i hfresh
  cases hstep
  refine ⟨Bool.eq_false_iff.mpr hfresh, c₀, c, hc₀, hc, ?_⟩
  cases hlive : s.pendingTags.contains st with
  | false => exact Or.inl ⟨rfl, by simp [Sys.setEarlier, hlive]⟩
  | true => exact Or.inr ⟨rfl, by simp [Sys.setEarlier, hlive]⟩

/-- No other stream sees it but one it creates. -/
theorem late_view (h : QueueInv s) {st : κ} {n k : Nat} {ok : Bool} {fresh : κ}
    (hstep : step s (.late st n k ok fresh) = some s') :
    QueueInv s' ∧
      (∀ v, s.view st = some v →
        s'.view st = some (if v.pendingTag then processed v ok .rejected else v)) ∧
      ∀ j, j ≠ st → Moved s (.late st n k ok fresh) j (s.view j) (s'.view j) := by
  rcases late_cases hstep with ⟨hfresh, c₀, c, -, -, ⟨hgone, rfl⟩ | ⟨hlive, rfl⟩⟩
  · refine ⟨h.setEarlier st n c, ?_, ?_⟩
    · intro v hv
      rw [← (view_eq_some.mp hv).2.1, hgone]
      exact hv
    · intro j _
      refine .same ?_
      rintro ⟨-, -, hlive, -⟩
      cases hgone.symm.trans hlive
  · rcases @process_spec _ _ _ _ _ st fresh ok (h.setEarlier st n c) hlive hfresh none none
      .rejected (absurd rfl) with ⟨hinv, hself, hother⟩
    refine ⟨hinv, ?_, ?_⟩
    · intro v hv
      rw [← (view_eq_some.mp hv).2.1, if_pos hlive]
      exact hself v hv
    · intro j hj
      rw [hother j hj]
      exact moved_others (fun _ => Iff.rfl) hlive hfresh j

/-- Only the object at that address is moved, and a stream may be created. -/
theorem late_moves (h : QueueInv s) {st : κ} {n k : Nat} {ok : Bool} {fresh : κ}
    (hstep : step s (.late st n k ok fresh) = some s') : Moves s (.late st n k ok fresh) s' := by
  rcases late_view h hstep with ⟨hinv, hself, hother⟩
  refine ⟨hinv, ?_⟩
  intro j
  by_cases hj : j = st
  · subst hj
    have hnew : ¬ Creates s (.late j n k ok fresh) j := by
      rintro ⟨rfl, -, hlive, -⟩
      cases hlive.symm.trans (late_cases hstep).1
    cases hc : s.calls j with
    | none =>
      have hnone := view_eq_none.mpr hc
      rcases late_cases hstep with ⟨-, c₀, c, -, -, ⟨-, rfl⟩ | ⟨hlive, -⟩⟩
      · exact .same hnew
      · exact absurd hc (h.pendingTags j hlive)
    | some c =>
      have hv := view_of_calls hc
      rw [hself _ hv, hv]
      cases hlive : s.pendingTags.contains j with
      | true => exact .turn hnew (.late rfl)
      | false => exact .same hnew
  · exact hother j hj

/-- The notification that an earlier stream's call has ended sets the state of the object that
lives at its address. -/
theorem lateDone_moves (h : QueueInv s) {st : κ} {n : Nat}
    (hstep : step s (.lateDone st n) = some s') : Moves s (.lateDone st n) s' := by
  simp only [step] at hstep
  split at hstep
  · cases hstep
  rename_i c hc
  split at hstep
  case isFalse => cases hstep
  cases hstep
  cases hlive : s.pendingTags.contains st with
  | false =>
    rw [if_neg (by simp [Sys.setEarlier, hlive])]
    exact ⟨h.setEarlier st n _, fun j => .same id⟩
  | true =>
    rw [if_pos (by simp [Sys.setEarlier, hlive])]
    refine ⟨(h.setEarlier st n _).modifyCall st _, ?_⟩
    intro j
    by_cases hj : j = st
    · subst hj
      rcases Option.ne_none_iff_exists'.mp (h.pendingTags j hlive) with ⟨c', hc'⟩
      have hv := view_of_calls hc'
      rw [view_modifyCall_self, view_setEarlier, hv]
      exact .turn id (.lateDone hlive)
    · rw [view_modifyCall_ne hj]
      exact .same id

/-- What a poll callback does to a stream, given what it calls. -/
theorem pollCallback_view (h : QueueInv s) {tag : Nat} {ok : Bool} {i : ι}
    {alarms : AlarmTags ι} (hnext : s.polls.alarms.next tag = some (i, alarms))
    (hstep : step s (.pollCallback tag ok) = some s') :
    QueueInv s' ∧
      (((s.polls.data i).pollCallback ok s.obj).calls = [] → ∀ j, s'.view j = s.view j) ∧
      ∀ call, ((s.polls.data i).pollCallback ok s.obj).calls =
          (s.polls.data i).streams.toList.map (fun j => (j, call)) →
        ∀ j, (s.polls.data i).streams.contains j = false ∧ s'.view j = s.view j ∨
          (s.polls.data i).streams.contains j = true ∧ ∃ v, s.view j = some v ∧
            s'.view j = some (if v.pendingTag then called v call else v) := by
  simp only [step, hnext] at hstep
  split at hstep
  case h_2 => cases hstep
  rename_i r polls hr hpolls
  cases hr
  cases hstep
  set calls := ((s.polls.data i).pollCallback ok s.obj).calls
  rcases PollSharing.step_pollCallback_frame h.alarms hpolls with ⟨halarms, hstreams⟩
  have hcalls := h.applyCalls calls
  rcases applyCalls_frame calls s with ⟨hframe, -, -, -⟩
  -- the members change behind the calls, but no set of streams does
  have hview : ∀ j, Sys.view { calls.foldl applyCall s with polls := polls } j =
      (calls.foldl applyCall s).view j := by
    intro j
    refine view_congr rfl rfl (inSet_congr rfl ?_)
    intro i'
    rw [hframe]
    exact congrArg (OrdMap.contains · j) (hstreams i')
  refine ⟨⟨hcalls.pendingTags, ?_, halarms⟩, ?_, ?_⟩
  · intro i' j hj
    refine hcalls.streams i' j ?_
    rw [hframe]
    exact (congrArg (OrdMap.contains · j) (hstreams i')).symm.trans hj
  · intro hnil j
    rw [hview, hnil]
    rfl
  · intro call heq j
    rw [hview, heq]
    cases hmem : (s.polls.data i).streams.contains j with
    | false =>
      have hnot : j ∉ (s.polls.data i).streams.toList := by
        intro hj
        rw [OrdMap.contains_iff.mpr hj] at hmem
        cases hmem
      exact Or.inl ⟨rfl, applyCalls_view_ne h hnot call⟩
    | true =>
      rcases Option.ne_none_iff_exists'.mp (h.streams i j hmem) with ⟨c, hc⟩
      refine Or.inr ⟨rfl, _, view_of_calls hc, ?_⟩
      exact applyCalls_view_self h (OrdMap.keys_nodup _) (OrdMap.contains_iff.mp hmem) call
        (view_of_calls hc)

/-- A poll callback sends to the objects at the addresses of its set, or tells them to end. -/
theorem pollCallback_moves (h : QueueInv s) {tag : Nat} {ok : Bool}
    (hstep : step s (.pollCallback tag ok) = some s') : Moves s (.pollCallback tag ok) s' := by
  cases hnext : s.polls.alarms.next tag with
  | none => simp [step, hnext] at hstep
  | some r =>
    rcases r with ⟨i, alarms⟩
    rcases pollCallback_view h hnext hstep with ⟨hinv, hidle, hcalled⟩
    refine ⟨hinv, ?_⟩
    intro j
    rcases (s.polls.data i).pollCallback_calls ok s.obj with ⟨hnil, -⟩ | ⟨call, heq, hcall⟩
    · rw [hidle hnil]
      exact .same id
    rcases hcalled call heq j with ⟨-, hsame⟩ | ⟨hmem, v, hv, hmove⟩
    · rw [hsame]
      exact .same id
    rw [hmove, hv]
    cases hlive : v.pendingTag with
    | false => exact .same id
    | true =>
      refine .turn id ?_
      rcases hcall with ⟨-, rfl⟩ | ⟨hends, hev, evs, rfl⟩
      · exact .endStream hnext hmem hlive
      · exact .sendEvents hnext hends hev hmem hlive

/-- The inversion lemma: what a step does to each stream. -/
theorem step_view (h : QueueInv s) {l : Lbl ι κ} (hstep : step s l = some s') : Moves s l s' := by
  have hdata : ∀ m : PollSharing.Lbl ι κ, m.changesStreams = false → s.onData m = s' →
      (∀ j, ¬ Creates s l j) → Moves s l s' := by
    rintro m hm rfl hnew
    rcases h.onData hm with ⟨hinv, hview⟩
    refine ⟨hinv, ?_⟩
    intro j
    rw [hview]
    exact .same (hnew j)
  cases l with
  | complete st k ok connect i fresh cq => exact complete_moves h hstep
  | done st => exact done_moves h hstep
  | late st n k ok fresh => exact late_moves h hstep
  | lateDone st n => exact lateDone_moves h hstep
  | pollCallback tag ok => exact pollCallback_moves h hstep
  | pushProcess i ev => exact hdata (.pushProcess i ev) rfl (Option.some.inj hstep) fun _ => id
  | pushMain i ev => exact hdata (.pushMain i ev) rfl (Option.some.inj hstep) fun _ => id
  | stopPoll i => exact hdata (.stopPoll i) rfl (Option.some.inj hstep) fun _ => id

end StepView

/-! ## Streams that are gone -/

/-- All streams that were created at an address, in order. -/
def Sys.allCalls (s : Sys ι κ) (st : κ) : List Call := s.earlier st ++ (s.calls st).toList

/-- The successor is created first of all, and only one. -/
theorem process_effects (obj : ServerEventStream) (ok : Bool) (connect : ConnectResult) :
    .create ∉ (obj.process ok connect).2 ∨
      ∃ effs, (obj.process ok connect).2 = .create :: effs ∧ .create ∉ effs := by
  by_cases hcreate : .create ∈ (obj.process ok connect).2
  · right
    rcases (process_create_iff obj ok connect).mp hcreate with ⟨rfl, hstate⟩
    rcases obj with ⟨state, sharedData, response⟩
    obtain rfl : state = .CONNECT := hstate
    cases connect <;> simp [ServerEventStream.process, ServerEventStream.connectClient]
  · exact Or.inl hcreate

section Earlier

variable [DecidableEq ι] {s s' : Sys ι κ} {st fresh j : κ}

theorem applyEffects_earlier {i : Option ι} {cq : Option CqHandle} {effs : List Effect}
    (hcreate : .create ∉ effs) :
    (applyEffects i fresh cq st s effs).earlier = s.earlier := by
  induction effs generalizing s with
  | nil => rfl
  | cons eff effs ih =>
    rw [List.mem_cons, not_or] at hcreate
    refine (ih hcreate.2).trans ?_
    cases eff with
    | create => exact absurd rfl hcreate.1
    | start op => rfl
    | destroyTag => rfl
    | _ =>
      simp only [applyEffect, Sys.onHome]
      split <;> rfl

/-- The stream whose address is taken joins the earlier ones. -/
theorem mem_process_earlier {ok : Bool} {connect : ConnectResult} {i : Option ι}
    {cq : Option CqHandle} {c : Call} (hne : fresh ≠ st)
    (hc : c ∈ (s.process st ok connect i fresh cq).earlier j) :
    c ∈ s.earlier j ∨ j = fresh ∧ s.calls j = some c := by
  unfold Sys.process at hc
  dsimp only at hc
  rcases process_effects (s.obj st) ok connect with hnone | ⟨effs, heffs, hnone⟩
  · rw [applyEffects_earlier hnone] at hc
    exact Or.inl hc
  · rw [heffs, applyEffects, List.foldl_cons, ← applyEffects, applyEffects_earlier hnone] at hc
    by_cases hj : j = fresh
    · subst hj
      simpa [applyEffect, Sys.modifyCall, hne] using hc
    · left
      simpa [applyEffect, Sys.modifyCall, hj] using hc

omit [DecidableEq ι] in
theorem mem_setEarlier {n : Nat} {c₀ c c' : Call} (hc₀ : (s.earlier st)[n]? = some c₀)
    (hc' : c' ∈ (s.setEarlier st n c).earlier j) :
    c' ∈ s.earlier j ∨ c' = c ∧ c₀ ∈ s.earlier j := by
  by_cases hj : j = st
  · subst hj
    have hset : c' ∈ (s.earlier j).set n c := by simpa [Sys.setEarlier] using hc'
    rcases List.mem_or_eq_of_mem_set hset with hmem | rfl
    · exact Or.inl hmem
    · exact Or.inr ⟨rfl, List.mem_of_getElem? hc₀⟩
  · left
    simpa [Sys.setEarlier, hj] using hc'

/-- A stream that is gone starts nothing any more. -/
theorem step_earlier {l : Lbl ι κ} (hstep : step s l = some s') {c : Call}
    (hc : c ∈ s'.earlier j) : ∃ c₀ ∈ s.allCalls j, c.outstanding.Sublist c₀.outstanding := by
  have hkept (hc : c ∈ s.earlier j) :
      ∃ c₀ ∈ s.allCalls j, c.outstanding.Sublist c₀.outstanding :=
    ⟨c, List.mem_append_left _ hc, List.Sublist.refl _⟩
  have htaken (hc : s.calls j = some c) :
      ∃ c₀ ∈ s.allCalls j, c.outstanding.Sublist c₀.outstanding :=
    ⟨c, List.mem_append_right _ (by simp [hc]), List.Sublist.refl _⟩
  cases l with
  | complete st k ok connect i fresh cq =>
    rcases complete_cases hstep with ⟨hfresh, c₀, c₁, -, -, ⟨-, rfl⟩ | ⟨hlive, rfl⟩⟩
    · exact hkept hc
    · have hne : fresh ≠ st := by
        rintro rfl
        cases hlive.symm.trans hfresh
      rcases mem_process_earlier hne hc with hmem | ⟨rfl, hcall⟩
      · exact hkept hmem
      · refine htaken ?_
        simpa [Sys.modifyCall, hne] using hcall
  | done st =>
    simp only [step] at hstep
    split at hstep
    · cases hstep
    split at hstep
    · cases hstep
      exact hkept hc
    · cases hstep
  | late st n k ok fresh =>
    rcases late_cases hstep with ⟨hfresh, c₀, c₁, hc₀, hc₁, hcases⟩
    have hset (hc : c ∈ (s.setEarlier st n c₁).earlier j) :
        ∃ c₀ ∈ s.allCalls j, c.outstanding.Sublist c₀.outstanding := by
      rcases mem_setEarlier hc₀ hc with hc | ⟨rfl, hmem⟩
      · exact hkept hc
      · rcases Call.complete_spec hc₁ with ⟨op, -, rfl⟩
        exact ⟨c₀, List.mem_append_left _ hmem, List.eraseIdx_sublist _ _⟩
    rcases hcases with ⟨-, rfl⟩ | ⟨hlive, rfl⟩
    · exact hset hc
    · have hne : fresh ≠ st := by
        rintro rfl
        cases hlive.symm.trans hfresh
      rcases mem_process_earlier hne hc with hmem | ⟨rfl, hcall⟩
      · exact hset hmem
      · exact htaken hcall
  | lateDone st n =>
    simp only [step] at hstep
    split at hstep
    · cases hstep
    rename_i c₀ hc₀
    split at hstep
    case isFalse => cases hstep
    cases hstep
    have hset : c ∈ (s.setEarlier st n { c₀ with done := .delivered }).earlier j := by
      split at hc <;> exact hc
    rcases mem_setEarlier hc₀ hset with hc | ⟨rfl, hmem⟩
    · exact hkept hc
    · exact ⟨c₀, List.mem_append_left _ hmem, List.Sublist.refl _⟩
  | pollCallback tag ok =>
    simp only [step] at hstep
    split at hstep
    · rename_i i alarms polls hnext hpolls
      cases hstep
      have hframe := (applyCalls_frame ((s.polls.data i).pollCallback ok s.obj).calls s).2.2.2
      exact hkept (hframe ▸ hc)
    · cases hstep
  | _ =>
    cases hstep
    exact hkept hc

end Earlier

end ClapRci.StreamCq
