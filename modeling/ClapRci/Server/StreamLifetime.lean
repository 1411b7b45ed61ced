import ClapRci.Server.ServerEventStream

/-!
# The lifetime of one event stream

Runs of one `ServerEventStream` with completions in any order.

* `finish_once_iff`: `Finish` is started once at most, and no `Write` after it, exactly
  when no completion is delivered in `DISCONNECT` unless `endStream` led there;
* `destroyed_quiet_iff`: the stream is destroyed only when nothing refers to it any more,
  exactly when every completion delivered in `FINISH` is the last thing to come.
-/

namespace ClapRci.ServerEventStream

/-! ## What holds at all times -/

/-- The life of a stream: the request, then the accepted call. -/
structure LifeInv (s : Sys) : Prop where
  /-- Until the request completes it is all there is. -/
  connect : s.pendingTag = true → s.call.obj.state = .CONNECT →
    s.call.outstanding = [.request] ∧ s.call.done = .idle
  request : .request ∈ s.call.outstanding →
    s.pendingTag = true ∧ s.call.obj.state = .CONNECT
  accepted : s.call.obj.state ≠ .CONNECT → s.call.done ≠ .idle

theorem init_lifeInv : LifeInv {} where
  connect _ _ := ⟨rfl, rfl⟩
  request _ := ⟨rfl, rfl⟩
  accepted h := absurd rfl h

/-- The request is the operation that completes in `CONNECT`, and in no other state. -/
theorem LifeInv.complete {s : Sys} (h : LifeInv s) {k : Nat} {ok : Bool} {c : Call}
    (hc : s.call.complete k ok = some c) :
    c.outstanding = s.call.outstanding.eraseIdx k ∧ .request ∉ c.outstanding ∧
      (s.call.obj.state ≠ .CONNECT ∨ s.pendingTag = false → c.done = s.call.done) := by
  rcases Call.complete_spec hc with ⟨op, hop, rfl⟩
  have hmem : op ∈ s.call.outstanding := List.mem_of_getElem? hop
  refine ⟨rfl, ?_, ?_⟩
  · -- in `CONNECT` the request was alone, and now it is gone
    intro hreq
    rcases h.request (List.mem_of_mem_eraseIdx hreq) with ⟨htag, hconn⟩
    have hout := (h.connect htag hconn).1
    rw [hout] at hop
    cases k with
    | zero => simp [hout] at hreq
    | succ k => simp at hop
  · intro hstate
    have hne : op ≠ .request := by
      rintro rfl
      rcases h.request hmem with ⟨htag, hconn⟩
      rcases hstate with hs | hs
      · exact hs hconn
      · rw [hs] at htag
        cases htag
    simp [hne]

/-- A completion that leaves the stream's state as it is. -/
theorem LifeInv.settle {s : Sys} (h : LifeInv s) {k : Nat} {ok : Bool} {c : Call}
    (hc : s.call.complete k ok = some c)
    (hstate : s.call.obj.state ≠ .CONNECT ∨ s.pendingTag = false) :
    LifeInv { s with call := c } := by
  rcases h.complete hc with ⟨hout, hreq, hdone⟩
  have hobj := Call.complete_obj hc
  have hdone : c.done = s.call.done := hdone hstate
  refine ⟨?_, fun hmem => absurd hmem hreq, by simpa [hobj, hdone] using h.accepted⟩
  intro htag hconn
  rcases hstate with hne | hdead
  · exact absurd (hobj ▸ hconn) hne
  · cases htag.symm.trans hdead

/-- `kill()` after the completion of a request that failed, or in `FINISH`. -/
theorem LifeInv.killed {s : Sys} (h : LifeInv s) {k : Nat} {ok : Bool} {c : Call}
    (hc : s.call.complete k ok = some c) : LifeInv (Sys.killed { s with call := c }) := by
  rcases h.complete hc with ⟨hout, hreq, hdone⟩
  refine ⟨nofun, fun hmem => absurd hmem hreq, ?_⟩
  intro hne
  rw [Sys.killed_call, Call.complete_obj hc] at hne
  rw [Sys.killed_call, hdone (Or.inl hne)]
  exact h.accepted hne

/-- The request has succeeded: nothing is left but the notification of the call's end. -/
theorem LifeInv.accept {s : Sys} (h : LifeInv s) {k : Nat} {c : Call}
    (hc : s.call.complete k true = some c) (htag : s.pendingTag = true)
    (hstate : s.call.obj.state = .CONNECT) : c.outstanding = [] ∧ c.done = .outstanding := by
  rcases h.connect htag hstate with ⟨hout, -⟩
  rcases Call.complete_spec hc with ⟨op, hop, rfl⟩
  rw [hout] at hop ⊢
  cases k with
  | zero =>
    obtain rfl : Op.request = op := by simpa using hop
    exact ⟨rfl, rfl⟩
  | succ k => simp at hop

/-- An operation is started, in a state after `CONNECT`. -/
theorem lifeInv_start {s : Sys} (c : Call) (state : State) (op : Op)
    (hcall : s.call = (c.setState state).start op) (hstate : state ≠ .CONNECT)
    (hop : op ≠ .request) (hreq : .request ∉ c.outstanding) (hdone : c.done ≠ .idle) :
    LifeInv s where
  connect _ hconn := by
    rw [hcall] at hconn
    exact absurd hconn hstate
  request hmem := by
    rw [hcall, Call.start_outstanding, List.mem_append, List.mem_singleton] at hmem
    rcases hmem with hmem | hmem
    · exact absurd hmem hreq
    · exact absurd hmem.symm hop
  accepted _ := by
    rw [hcall]
    exact hdone

/-- Past `CONNECT` the request is not outstanding. -/
theorem LifeInv.request_not_mem {s : Sys} (h : LifeInv s) (hstate : s.call.obj.state ≠ .CONNECT) :
    .request ∉ s.call.outstanding := by
  intro hmem
  exact hstate (h.request hmem).2

/-- A completion past `CONNECT` leaves the call accepted. -/
theorem LifeInv.complete_accepted {s : Sys} (h : LifeInv s) {k : Nat} {ok : Bool} {c : Call}
    (hc : s.call.complete k ok = some c) (hstate : s.call.obj.state ≠ .CONNECT) :
    .request ∉ c.outstanding ∧ c.done ≠ .idle := by
  rcases h.complete hc with ⟨-, hreq, hdone⟩
  refine ⟨hreq, ?_⟩
  rw [hdone (Or.inl hstate)]
  exact h.accepted hstate

/-- Every step keeps it. -/
theorem step_lifeInv {s s' : Sys} {l : Lbl} (hinv : LifeInv s) (hstep : step s l = some s') :
    LifeInv s' := by
  cases step_moves hstep with
  | stale hc htag => exact hinv.settle hc (Or.inr htag)
  | refused hc | finished hc => exact hinv.killed hc
  | rejected hc htag hstate | orphaned hc htag hstate =>
    rcases hinv.accept hc htag hstate with ⟨hout, hdone⟩
    exact lifeInv_start _ _ _ rfl nofun nofun (by simp [hout]) (by simp [hdone])
  | connected hc htag hstate =>
    rcases hinv.accept hc htag hstate with ⟨hout, hdone⟩
    exact ⟨nofun, by simp [hout], by simp [hdone]⟩
  | written hc htag hstate => exact hinv.settle hc (Or.inl (by simp [hstate]))
  | writeFailed hc htag hstate | disconnected hc htag hstate =>
    rcases hinv.complete_accepted hc (by simp [hstate]) with ⟨hreq, hdone⟩
    exact lifeInv_start _ _ _ rfl nofun nofun hreq hdone
  | done hdone htag =>
    -- the notification is due only after the request has completed
    have hreq : .request ∉ s.call.outstanding := fun hmem => by
      rcases hinv.connect htag (hinv.request hmem).2 with ⟨-, hidle⟩
      simp [hidle] at hdone
    exact ⟨by simp, fun hmem => absurd hmem hreq, by simp⟩
  | staleDone hdone htag => exact ⟨by simp [htag], hinv.request, by simp⟩
  | @sentNow ev htag hin hstate =>
    have hne : s.call.obj.state ≠ .CONNECT := by simp [hstate]
    refine lifeInv_start { s.call with obj := { s.call.obj with response := [ev] } } .WRITE
      (.write [ev]) ?_ nofun nofun (hinv.request_not_mem hne) (hinv.accepted hne)
    rw [← hstate]
    rfl
  | @sent evs htag hin hstate =>
    have hne : s.call.obj.state ≠ .CONNECT := by simp [hstate]
    refine lifeInv_start s.call .WRITE (.write evs) ?_ nofun nofun (hinv.request_not_mem hne)
      (hinv.accepted hne)
    rw [← hstate]
    rfl
  | ended htag hin hstate =>
    have hne : s.call.obj.state ≠ .CONNECT := by simp [hstate]
    exact lifeInv_start _ _ _ rfl nofun nofun (hinv.request_not_mem hne) (hinv.accepted hne)
  | notSent hl hdone htag hin hstate => exact hinv

/-! ## `Finish` is started once -/

/-- How many of the operations are a `Finish`. -/
def finishes (ops : List Op) : Nat := ops.countP Op.isFinish

/-- No `Write` comes after a `Finish`. -/
def NoWriteAfterFinish (ops : List Op) : Prop :=
  ops.Pairwise fun a b => a.isFinish → ¬ b.isWrite

/-- At most one `Finish`, and no `Write` after it. -/
def FinishOnce (ops : List Op) : Prop := finishes ops ≤ 1 ∧ NoWriteAfterFinish ops

theorem finishes_concat (ops : List Op) (op : Op) :
    finishes (ops ++ [op]) = finishes ops + if op.isFinish then 1 else 0 := by
  simp [finishes, List.countP_append, List.countP_singleton]

theorem NoWriteAfterFinish.concat {ops : List Op} (h : NoWriteAfterFinish ops) {op : Op}
    (hop : op.isWrite = false ∨ finishes ops = 0) : NoWriteAfterFinish (ops ++ [op]) := by
  refine List.pairwise_append.mpr ⟨h, List.pairwise_singleton _ _, ?_⟩
  intro a ha b hb
  obtain rfl : b = op := List.mem_singleton.mp hb
  intro hfin hwrite
  rcases hop with hop | hop
  · rw [hop] at hwrite
    cases hwrite
  · exact List.countP_eq_zero.mp hop a ha hfin

/-- What has been started, by state: `DISCONNECT` is reached by `endStream`, which sets
the alarm, or by a failed write, which starts `Finish`. -/
structure FinishInv (s : Sys) : Prop where
  fresh : s.call.obj.state = .CONNECT ∨ s.call.obj.state = .WRITE →
    finishes s.call.started = 0 ∧ .alarm ∉ s.call.started
  disconnect : s.call.obj.state = .DISCONNECT →
    finishes s.call.started = if .alarm ∈ s.call.started then 0 else 1
  once : FinishOnce s.call.started

theorem init_finishInv : FinishInv {} where
  fresh _ := ⟨rfl, by decide⟩
  disconnect h := by cases h
  once := ⟨by decide, List.pairwise_singleton _ _⟩

/-- The condition on a step: a completion delivered in `DISCONNECT` finds that
`endStream` has been called, so that this `Finish` is the first. -/
def EndStreamLedHere (s : Sys) : Lbl → Prop
  | .complete _ _ _ => s.pendingTag = true → s.call.obj.state = .DISCONNECT →
      .alarm ∈ s.call.started
  | _ => True

/-- Invariants only look at the state and at what was started. -/
theorem FinishInv.congr {s s' : Sys} (h : FinishInv s)
    (hstate : s'.call.obj.state = s.call.obj.state)
    (hstarted : s'.call.started = s.call.started) : FinishInv s' where
  fresh := by rw [hstate, hstarted]; exact h.fresh
  disconnect := by rw [hstate, hstarted]; exact h.disconnect
  once := by rw [hstarted]; exact h.once

/-- `Finish` is started where none was. -/
theorem FinishInv.finish {s s' : Sys} (h : FinishInv s) {status : Status}
    (hzero : finishes s.call.started = 0)
    (hstate : s'.call.obj.state = .FINISH ∨
      s'.call.obj.state = .DISCONNECT ∧ .alarm ∉ s.call.started)
    (hstarted : s'.call.started = s.call.started ++ [.finish status]) : FinishInv s' where
  fresh hs := by rcases hstate with hs' | ⟨hs', -⟩ <;> simp [hs'] at hs
  disconnect hs := by
    rcases hstate with hs' | ⟨-, halarm⟩
    · simp [hs'] at hs
    · rw [hstarted, finishes_concat, hzero]
      simp [halarm, Op.isFinish]
  once := by
    rw [hstarted]
    refine ⟨?_, h.once.2.concat (Or.inl rfl)⟩
    rw [finishes_concat, hzero]
    exact Nat.le_refl 1

/-- A `Write` is started in `WRITE`. -/
theorem FinishInv.write {s s' : Sys} (h : FinishInv s) {evs : Api.ServerEvents}
    (hs : s.call.obj.state = .WRITE) (hs' : s'.call.obj.state = .WRITE)
    (hstarted : s'.call.started = s.call.started ++ [.write evs]) : FinishInv s' := by
  rcases h.fresh (Or.inr hs) with ⟨hzero, halarm⟩
  have hzero' : finishes s'.call.started = 0 := by
    rw [hstarted, finishes_concat, hzero]
    rfl
  constructor
  · intro _
    exact ⟨hzero', by simp [hstarted, halarm]⟩
  · intro hd
    rw [hs'] at hd
    cases hd
  · refine ⟨by omega, ?_⟩
    rw [hstarted]
    exact h.once.2.concat (Or.inr hzero)

/-- A step that meets the condition keeps the invariant. -/
theorem step_finishInv {s s' : Sys} {l : Lbl} (hinv : FinishInv s)
    (hcond : EndStreamLedHere s l) (hstep : step s l = some s') : FinishInv s' := by
  cases step_moves hstep with
  | stale hc htag =>
    exact hinv.congr (by rw [Call.complete_obj hc]) (Call.complete_started hc)
  | refused hc htag hstate =>
    exact hinv.congr (by simp [Call.complete_obj hc]) (Call.complete_started hc)
  | rejected hc htag hstate =>
    exact hinv.finish (hinv.fresh (Or.inl hstate)).1 (Or.inl rfl)
      (Call.complete_start_started hc _ _)
  | orphaned hc htag hstate =>
    exact hinv.finish (hinv.fresh (Or.inl hstate)).1 (Or.inl rfl)
      (Call.complete_start_started hc _ _)
  | connected hc htag hstate =>
    have hstarted := Call.complete_started hc
    have hfresh := hinv.fresh (Or.inl hstate)
    exact ⟨fun _ => by simpa [hstarted] using hfresh, nofun,
      by simpa [hstarted] using hinv.once⟩
  | written hc htag hstate =>
    exact hinv.congr (by rw [Call.complete_obj hc]) (Call.complete_started hc)
  | writeFailed hc htag hstate =>
    -- the first `Finish`, in a state that starts another one when it is left
    have hfresh := hinv.fresh (Or.inr hstate)
    exact hinv.finish hfresh.1 (Or.inr ⟨rfl, hfresh.2⟩) (Call.complete_start_started hc _ _)
  | disconnected hc htag hstate =>
    -- the only place where the condition is needed
    have halarm := hcond htag hstate
    have hzero := hinv.disconnect hstate
    rw [if_pos halarm] at hzero
    exact hinv.finish hzero (Or.inl rfl) (Call.complete_start_started hc _ _)
  | finished hc htag hstate =>
    exact hinv.congr (by simp [Call.complete_obj hc]) (Call.complete_started hc)
  | done hdone htag => exact ⟨by simp, by simp, hinv.once⟩
  | staleDone hdone htag => exact hinv.congr rfl rfl
  | sentNow htag hin hstate => exact hinv.write hstate hstate rfl
  | sent htag hin hstate => exact hinv.write hstate hstate rfl
  | ended htag hin hstate =>
    have hzero := (hinv.fresh (Or.inr hstate)).1
    refine ⟨by simp, ?_, ?_, hinv.once.2.concat (Or.inl rfl)⟩
    · intro _
      rw [Call.start_started, finishes_concat]
      simp [hzero, Op.isFinish]
    · rw [Call.start_started, finishes_concat]
      simp [hzero, Op.isFinish]
  | notSent hl hdone htag hin hstate => exact hinv

/-- Every completion delivered in `DISCONNECT` starts `Finish`. -/
theorem step_complete_disconnect {s s' : Sys} {k : Nat} {ok : Bool} {connect : ConnectResult}
    (htag : s.pendingTag = true) (hstate : s.call.obj.state = .DISCONNECT)
    (hstep : step s (.complete k ok connect) = some s') :
    ∃ c, s.call.complete k ok = some c ∧ s' = { s with
      call := (c.setState .FINISH).start (.finish ⟨.OK, "Client Disconnected"⟩) } := by
  cases step_moves hstep with
  | disconnected hc => exact ⟨_, hc, rfl⟩
  | stale _ hdead =>
    rw [htag] at hdead
    cases hdead
  | notSent hl => exact absurd rfl (hl _ _ _)
  | refused _ _ hs | rejected _ _ hs | orphaned _ _ hs | connected _ _ hs | written _ _ hs
  | writeFailed _ _ hs | finished _ _ hs =>
    rw [hstate] at hs
    cases hs

/-- A step that does not meet the condition starts a second `Finish`. -/
theorem step_finishes_two {s s' : Sys} {l : Lbl} (hinv : FinishInv s)
    (hcond : ¬ EndStreamLedHere s l) (hstep : step s l = some s') :
    finishes s'.call.started = 2 := by
  cases l with
  | complete k ok connect =>
    simp only [EndStreamLedHere, Classical.not_imp] at hcond
    rcases hcond with ⟨htag, hstate, halarm⟩
    have hone := hinv.disconnect hstate
    rw [if_neg halarm] at hone
    rcases step_complete_disconnect htag hstate hstep with ⟨c, hc, rfl⟩
    rw [Call.complete_start_started hc, finishes_concat, hone]
    rfl
  | _ => exact absurd trivial hcond

/-- `Finish` is started at most once, and no `Write` after a `Finish`, in every state of a
run, exactly when every completion delivered in `DISCONNECT` comes after `endStream`. -/
theorem finish_once_iff (ls : List Lbl) :
    spec.AllSteps (fun _ _ s' => FinishOnce s'.call.started) {} ls ↔
      spec.AllSteps (fun s l _ => EndStreamLedHere s l) {} ls := by
  refine spec.allSteps_iff FinishInv ?_ ?_ init_finishInv ls
  · intro s l s' hinv hcond hstep
    have hinv' := step_finishInv hinv hcond hstep
    exact ⟨hinv', hinv'.once⟩
  · intro s l s' hinv hcond hstep honce
    have htwo := step_finishes_two hinv hcond hstep
    have hle := honce.1
    omega

/-- One `Write` fails and the `Finish` this starts completes before the notification of
the call's end: its completion starts the second one. -/
theorem finish_once_fails : ¬ ∀ ls, spec.AllSteps (fun _ _ s' => FinishOnce s'.call.started)
    {} ls := by
  intro h
  have hlast := spec.forall_allSteps_last h
    [.complete 0 true .connected, .sendEvents [], .complete 0 false .connected]
    (.complete 0 true .connected) rfl rfl
  exact absurd hlast.1 (by decide)

/-! ## Destroyed only when nothing refers to it -/

/-- Every completion delivered in `FINISH` kills the stream. -/
theorem step_complete_finish {s s' : Sys} {k : Nat} {ok : Bool} {connect : ConnectResult}
    (htag : s.pendingTag = true) (hstate : s.call.obj.state = .FINISH)
    (hstep : step s (.complete k ok connect) = some s') :
    ∃ c, s.call.complete k ok = some c ∧ s' = Sys.killed { s with call := c } := by
  cases step_moves hstep with
  | finished hc => exact ⟨_, hc, rfl⟩
  | stale _ hdead =>
    rw [htag] at hdead
    cases hdead
  | notSent hl => exact absurd rfl (hl _ _ _)
  | refused _ _ hs | rejected _ _ hs | orphaned _ _ hs | connected _ _ hs | written _ _ hs
  | writeFailed _ _ hs | disconnected _ _ hs =>
    rw [hstate] at hs
    cases hs

/-- No completion that refers to the stream is to come, nor the notification whose
callback assigns its state. -/
def Quiet (s : Sys) : Prop := s.call.outstanding = [] ∧ s.call.done ≠ .outstanding

/-- What is promised of a step: if it destroys the stream, nothing refers to it after. -/
def DestroyedQuiet (s s' : Sys) : Prop :=
  s.pendingTag = true → s'.pendingTag = false → Quiet s'

/-- The condition on a step: a completion delivered in `FINISH` is the only operation
outstanding, and the notification of the call's end has been delivered before it. -/
def LastToCome (s : Sys) : Lbl → Prop
  | .complete _ _ _ => s.pendingTag = true → s.call.obj.state = .FINISH →
      s.call.outstanding.length = 1 ∧ s.call.done = .delivered
  | _ => True

/-- Nothing is left when the one outstanding operation completes. -/
theorem eraseIdx_eq_nil_iff {α : Type} {xs : List α} {k : Nat} (hk : k < xs.length) :
    xs.eraseIdx k = [] ↔ xs.length = 1 := by
  rw [← List.length_eq_zero_iff, List.length_eraseIdx_of_lt hk]
  omega

/-- A kill in `FINISH` is quiet exactly when the condition holds. -/
theorem LifeInv.quiet_iff {s : Sys} (h : LifeInv s) {k : Nat} {ok : Bool} {c : Call}
    (hc : s.call.complete k ok = some c) (hstate : s.call.obj.state = .FINISH) :
    Quiet (Sys.killed { s with call := c }) ↔
      s.call.outstanding.length = 1 ∧ s.call.done = .delivered := by
  rcases h.complete hc with ⟨hout, -, hdone⟩
  rcases Call.complete_spec hc with ⟨op, hop, -⟩
  have hk : k < s.call.outstanding.length := (List.getElem?_eq_some_iff.mp hop).1
  have hne : s.call.obj.state ≠ .CONNECT := by simp [hstate]
  have hacc := h.accepted hne
  have hdel : s.call.done ≠ .outstanding ↔ s.call.done = .delivered := by
    cases hd : s.call.done with
    | idle => exact absurd hd hacc
    | outstanding => simp
    | delivered => simp
  rw [Quiet, Sys.killed_call, hout, hdone (Or.inl hne), eraseIdx_eq_nil_iff hk, hdel]

/-- A request that fails leaves nothing behind. -/
theorem LifeInv.quiet_refused {s : Sys} (h : LifeInv s) {k : Nat} {c : Call}
    (hc : s.call.complete k false = some c) (htag : s.pendingTag = true)
    (hstate : s.call.obj.state = .CONNECT) : Quiet (Sys.killed { s with call := c }) := by
  rcases h.connect htag hstate with ⟨hout, hidle⟩
  rcases Call.complete_spec hc with ⟨op, hop, rfl⟩
  have hk : k < s.call.outstanding.length := (List.getElem?_eq_some_iff.mp hop).1
  refine ⟨(eraseIdx_eq_nil_iff hk).mpr (by simp [hout]), ?_⟩
  simp [hidle]

/-- A step that meets the condition destroys the stream only when it is quiet. -/
theorem step_destroyedQuiet {s s' : Sys} {l : Lbl} (hinv : LifeInv s) (hcond : LastToCome s l)
    (hstep : step s l = some s') : DestroyedQuiet s s' := by
  intro htag htag'
  cases step_moves hstep with
  | refused hc _ hstate => exact hinv.quiet_refused hc htag hstate
  | finished hc _ hstate => exact (hinv.quiet_iff hc hstate).mpr (hcond htag hstate)
  | _ =>
    -- the other moves do not destroy it
    cases htag.symm.trans htag'

/-- One that does not meet it destroys the stream too early. -/
theorem step_not_destroyedQuiet {s s' : Sys} {l : Lbl} (hinv : LifeInv s)
    (hcond : ¬ LastToCome s l) (hstep : step s l = some s') : ¬ DestroyedQuiet s s' := by
  cases l with
  | complete k ok connect =>
    simp only [LastToCome, Classical.not_imp] at hcond
    rcases hcond with ⟨htag, hstate, hlast⟩
    rcases step_complete_finish htag hstate hstep with ⟨c, hc, rfl⟩
    intro hquiet
    exact hlast ((hinv.quiet_iff hc hstate).mp (hquiet htag rfl))
  | _ => exact absurd trivial hcond

/-- The stream is destroyed only when nothing that refers to it is to come, in every step
of a run, exactly when every completion delivered in `FINISH` is the last thing to come. -/
theorem destroyed_quiet_iff (ls : List Lbl) :
    spec.AllSteps (fun s _ s' => DestroyedQuiet s s') {} ls ↔
      spec.AllSteps (fun s l _ => LastToCome s l) {} ls := by
  refine spec.allSteps_iff LifeInv ?_ ?_ init_lifeInv ls
  · intro s l s' hinv hcond hstep
    exact ⟨step_lifeInv hinv hstep, step_destroyedQuiet hinv hcond hstep⟩
  · intro s l s' hinv hcond hstep
    exact step_not_destroyedQuiet hinv hcond hstep

/-- A client that could not be authenticated: its `Finish` completes, and the stream is
destroyed, before the notification of the call's end. -/
theorem destroyed_quiet_fails :
    ¬ ∀ ls, spec.AllSteps (fun s _ s' => DestroyedQuiet s s') {} ls := by
  intro h
  have hlast := spec.forall_allSteps_last h [.complete 0 true .rejected]
    (.complete 0 true .rejected) rfl rfl
  exact (hlast rfl rfl).2 rfl

/-! ## Nothing is left behind

A stream that is still held needs a completion that will take it away. -/

/-- What remains of the life of a stream whose state others may set to `FINISH`. -/
structure HeldInv (s : Sys) : Prop where
  /-- Until the request completes it is all there is. -/
  connect : s.pendingTag = true → s.call.obj.state = .CONNECT →
    s.call.outstanding = [.request] ∧ s.call.done = .idle ∧ s.call.obj.sharedData = false
  request : .request ∈ s.call.outstanding → s.call.obj.sharedData = false
  connected : s.call.obj.state = .WRITE ∨ s.call.obj.state = .DISCONNECT →
    s.call.obj.sharedData = true
  write : s.pendingTag = true → s.call.obj.state = .WRITE → s.call.done = .outstanding
  /-- A stream that is not connected has the request or a `Finish` to wait for. -/
  waiting : s.pendingTag = true → s.call.obj.sharedData = false → s.call.outstanding ≠ []
  /-- A connected stream is in the set until it is killed. -/
  held : s.call.obj.sharedData = true → s.inStreams = s.pendingTag

theorem init_heldInv : HeldInv {} where
  connect _ _ := ⟨rfl, rfl, rfl⟩
  request _ := rfl
  connected h := by rcases h with h | h <;> cases h
  write _ h := by cases h
  waiting _ _ := nofun
  held h := by cases h

section Held

variable {s s' : Sys} {c : Call}

/-- An operation is started in a state after `WRITE`. -/
theorem HeldInv.start (h : HeldInv s) {state : State} {op : Op}
    (hsub : c.outstanding.Sublist s.call.outstanding) (hobj : c.obj = s.call.obj)
    (hcall : s'.call = (c.setState state).start op) (hop : op ≠ .request)
    (hstate : state = .FINISH ∨ state = .DISCONNECT ∧ s.call.obj.sharedData = true)
    (hheld : s.call.obj.sharedData = true → s'.inStreams = s'.pendingTag) : HeldInv s' where
  connect _ hconn := by
    rw [hcall] at hconn
    rcases hstate with rfl | ⟨rfl, -⟩ <;> cases hconn
  request hmem := by
    rw [hcall, Call.start_outstanding, List.mem_append, List.mem_singleton] at hmem
    rcases hmem with hmem | hmem
    · rw [hcall]
      exact (congrArg (·.sharedData) hobj).trans (h.request (hsub.subset hmem))
    · exact absurd hmem.symm hop
  connected hs := by
    rw [hcall] at hs ⊢
    rcases hstate with rfl | ⟨rfl, hshared⟩
    · rcases hs with hs | hs <;> cases hs
    · exact (congrArg (·.sharedData) hobj).trans hshared
  write _ hs := by
    rw [hcall] at hs
    rcases hstate with rfl | ⟨rfl, -⟩ <;> cases hs
  waiting _ _ := by simp [hcall]
  held hs := by
    rw [hcall] at hs
    exact hheld ((congrArg (·.sharedData) hobj).symm.trans hs)

/-- A completion that leaves the stream's state as it is. -/
theorem HeldInv.settle (h : HeldInv s) {k : Nat} {ok : Bool}
    (hc : s.call.complete k ok = some c)
    (hstate : s.call.obj.state = .WRITE ∨ s.pendingTag = false) :
    HeldInv { s with call := c } := by
  rcases Call.complete_spec hc with ⟨op, -, rfl⟩
  have hwrite (htag : s.pendingTag = true) : s.call.obj.state = .WRITE := by
    rcases hstate with hw | hdead
    · exact hw
    · cases htag.symm.trans hdead
  refine ⟨?_, ?_, h.connected, ?_, ?_, h.held⟩
  · intro htag hconn
    cases (hwrite htag).symm.trans hconn
  · intro hmem
    exact h.request (List.mem_of_mem_eraseIdx hmem)
  · intro htag hs
    dsimp only
    split
    · rfl
    · exact h.write htag hs
  · intro htag hshared
    cases (h.connected (Or.inl (hwrite htag))).symm.trans hshared

/-- `kill()`. -/
theorem HeldInv.killed (h : HeldInv s) (hsub : c.outstanding.Sublist s.call.outstanding)
    (hobj : c.obj = s.call.obj) : HeldInv (Sys.killed { s with call := c }) where
  connect := nofun
  request hmem := (congrArg (·.sharedData) hobj).trans (h.request (hsub.subset hmem))
  connected hs := by
    rw [Sys.killed_call, hobj] at hs ⊢
    exact h.connected hs
  write := nofun
  waiting := nofun
  held hs := by
    have hs : c.obj.sharedData = true := hs
    simp [hs]

/-- The client has connected. -/
theorem HeldInv.accept (h : HeldInv s) {k : Nat} (hc : s.call.complete k true = some c)
    (htag : s.pendingTag = true) (hstate : s.call.obj.state = .CONNECT) :
    c.outstanding = [] ∧ c.done = .outstanding := by
  rcases h.connect htag hstate with ⟨hout, -⟩
  rcases Call.complete_spec hc with ⟨op, hop, rfl⟩
  rw [hout] at hop ⊢
  cases k with
  | zero =>
    obtain rfl : Op.request = op := by simpa using hop
    exact ⟨rfl, rfl⟩
  | succ k => simp at hop

/-- The state is set to `FINISH`, by the notification of the end of this call or of another. -/
theorem HeldInv.finish (h : HeldInv s) (done : Done) :
    HeldInv { s with call := { s.call.setState .FINISH with done := done } } where
  connect _ hconn := by cases hconn
  request := h.request
  connected hs := by rcases hs with hs | hs <;> cases hs
  write _ hs := by cases hs
  waiting := h.waiting
  held := h.held

/-- A write is started. -/
theorem HeldInv.send (h : HeldInv s) (response : Api.ServerEvents) (evs : Api.ServerEvents)
    (hstate : s.call.obj.state = .WRITE) :
    HeldInv { s with
      call := Call.start { s.call with obj := { s.call.obj with response := response } }
        (.write evs) } where
  connect _ hconn := by cases hstate.symm.trans hconn
  request hmem := by
    rw [Call.start_outstanding, List.mem_append, List.mem_singleton] at hmem
    rcases hmem with hmem | hmem
    · exact h.request hmem
    · cases hmem
  connected := h.connected
  write := h.write
  waiting _ _ := by simp
  held := h.held

/-- Every step keeps it. -/
theorem step_heldInv {l : Lbl} (h : HeldInv s) (hstep : step s l = some s') : HeldInv s' := by
  have hsub {k : Nat} {ok : Bool} {c : Call} (hc : s.call.complete k ok = some c) :
      c.outstanding.Sublist s.call.outstanding := by
    rcases Call.complete_spec hc with ⟨op, -, rfl⟩
    exact List.eraseIdx_sublist _ _
  cases step_moves hstep with
  | stale hc htag => exact h.settle hc (Or.inr htag)
  | refused hc htag hstate => exact h.killed (hsub hc) (Call.complete_obj hc)
  | rejected hc htag hstate =>
    exact h.start (hsub hc) (Call.complete_obj hc) rfl nofun (Or.inl rfl) h.held
  | orphaned hc htag hstate =>
    exact h.start (hsub hc) (Call.complete_obj hc) rfl nofun (Or.inl rfl) fun _ => htag.symm
  | connected hc htag hstate =>
    rcases h.accept hc htag hstate with ⟨hout, hdone⟩
    exact ⟨nofun, by simp [hout], fun _ => rfl, fun _ _ => hdone, nofun, fun _ => htag.symm⟩
  | written hc htag hstate => exact h.settle hc (Or.inl hstate)
  | writeFailed hc htag hstate =>
    exact h.start (hsub hc) (Call.complete_obj hc) rfl nofun
      (Or.inr ⟨rfl, h.connected (Or.inl hstate)⟩) h.held
  | disconnected hc htag hstate =>
    exact h.start (hsub hc) (Call.complete_obj hc) rfl nofun (Or.inl rfl) h.held
  | finished hc htag hstate => exact h.killed (hsub hc) (Call.complete_obj hc)
  | done hdone htag => exact h.finish .delivered
  | staleDone hdone htag =>
    exact ⟨by simp [htag], h.request, h.connected, by simp [htag], by simp [htag], h.held⟩
  | @sentNow ev htag hin hstate => exact h.send [ev] [ev] hstate
  | @sent evs htag hin hstate => exact h.send s.call.obj.response evs hstate
  | ended htag hin hstate =>
    exact h.start (List.Sublist.refl _) rfl rfl nofun (Or.inr ⟨rfl, h.connected (Or.inl hstate)⟩)
      h.held
  | notSent hl hdone htag hin hstate => exact h

end Held

/-- A stream in `pendingTags` has a completion, or the notification of its end, to come. -/
def Awaited (s : Sys) : Prop :=
  s.pendingTag = true → s.call.outstanding ≠ [] ∨ s.call.done = .outstanding

/-- A connected stream whose call has ended, and whose completions have all been
delivered, is in no set. -/
def CleanedUp (s : Sys) : Prop :=
  s.call.obj.sharedData = true → s.call.done = .delivered → s.call.outstanding = [] →
    s.pendingTag = false ∧ s.inStreams = false

/-- The condition on a step: when the notification of the call's end is delivered to a
living stream, some operation of the stream is still to complete. -/
def EndsBusy (s : Sys) : Lbl → Prop
  | .done => s.pendingTag = true → s.call.outstanding ≠ []
  | _ => True

theorem init_awaited : Awaited {} := fun _ => Or.inl (by decide)

theorem Awaited.cleanedUp {s : Sys} (h : Awaited s) (hinv : HeldInv s) : CleanedUp s := by
  intro hshared hdone hout
  have htag : s.pendingTag = false := by
    cases htag : s.pendingTag with
    | false => rfl
    | true =>
      rcases h htag with hne | hne
      · exact absurd hout hne
      · rw [hdone] at hne
        cases hne
  exact ⟨htag, (hinv.held hshared).trans htag⟩

/-- A step that meets the condition leaves a living stream something to wait for. -/
theorem step_awaited {s s' : Sys} {l : Lbl} (hinv : HeldInv s) (h : Awaited s)
    (hcond : EndsBusy s l) (hstep : step s l = some s') : Awaited s' := by
  intro htag'
  cases step_moves hstep with
  | stale hc htag =>
    rw [htag] at htag'
    cases htag'
  | refused hc htag hstate => cases htag'
  | finished hc htag hstate => cases htag'
  | connected hc htag hstate => exact Or.inr (hinv.accept hc htag hstate).2
  | written hc htag hstate =>
    -- in `WRITE` the call has not ended
    exact Or.inr ((hinv.settle hc (Or.inl hstate)).write htag
      ((congrArg (·.state) (Call.complete_obj hc)).trans hstate))
  | done hdone htag => exact Or.inl (hcond htag)
  | staleDone hdone htag =>
    rw [htag] at htag'
    cases htag'
  | notSent hl hdone htag hin hstate => exact h htag'
  | _ =>
    left
    simp

/-- The notification of the call's end that finds nothing outstanding leaves a connected
stream that nothing will take away. -/
theorem step_left_behind {s s' : Sys} (hinv : HeldInv s) (hcond : ¬ EndsBusy s .done)
    (hstep : step s .done = some s') : ¬ CleanedUp s' := by
  simp only [EndsBusy, Classical.not_imp, not_not] at hcond
  rcases hcond with ⟨htag, hout⟩
  cases step_moves hstep with
  | done hdone _ =>
    -- a stream that is not connected has something outstanding
    have hshared : s.call.obj.sharedData = true := by
      by_contra hne
      exact hinv.waiting htag (Bool.eq_false_iff.mpr hne) hout
    intro hclean
    have hgone := (hclean hshared rfl hout).1
    rw [htag] at hgone
    cases hgone
  | staleDone _ hdead =>
    rw [htag] at hdead
    cases hdead
  | notSent _ hne => exact absurd rfl hne

/-! ## Writes -/

/-- How many of the operations are a `Write`. -/
def writes (ops : List Op) : Nat := ops.countP Op.isWrite

theorem writes_concat (ops : List Op) (op : Op) :
    writes (ops ++ [op]) = writes ops + if op.isWrite then 1 else 0 := by
  simp [writes, List.countP_append, List.countP_singleton]

/-- A completion starts no `Write`. -/
theorem Call.complete_writes {c c' : Call} {k : Nat} {ok : Bool}
    (h : c.complete k ok = some c') : writes c'.outstanding ≤ writes c.outstanding := by
  rcases Call.complete_spec h with ⟨op, -, rfl⟩
  exact (List.eraseIdx_sublist _ _).countP_le

/-- Whether the step is a send. -/
def Lbl.sends : Lbl → Bool
  | .sendEventNow _ | .sendEvents _ => true
  | _ => false

/-- Only sends start a `Write`. -/
theorem step_writes_le {s s' : Sys} {l : Lbl} (hstep : step s l = some s')
    (hl : l.sends = false) : writes s'.call.outstanding ≤ writes s.call.outstanding := by
  cases step_moves hstep with
  | stale hc => exact Call.complete_writes hc
  | refused hc => exact Call.complete_writes hc
  | connected hc =>
    have hle := Call.complete_writes hc
    exact hle
  | written hc => exact Call.complete_writes hc
  | finished hc => exact Call.complete_writes hc
  | rejected hc =>
    have hle := Call.complete_writes hc
    rwa [Call.start_outstanding, writes_concat]
  | orphaned hc =>
    have hle := Call.complete_writes hc
    rwa [Call.start_outstanding, writes_concat]
  | writeFailed hc =>
    have hle := Call.complete_writes hc
    rwa [Call.start_outstanding, writes_concat]
  | disconnected hc =>
    have hle := Call.complete_writes hc
    rwa [Call.start_outstanding, writes_concat]
  | done => exact Nat.le_refl _
  | staleDone => exact Nat.le_refl _
  | sentNow => cases hl
  | sent => cases hl
  | ended => rw [Call.start_outstanding, writes_concat]; exact Nat.le_refl _
  | notSent => exact Nat.le_refl _

end ClapRci.ServerEventStream
