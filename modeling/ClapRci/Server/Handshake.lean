import ClapRci.Core.BlkRingQueueFifo
import ClapRci.Server.Wrappers

/-!
# The GUI handshake (`server/shareddata.cpp`, `server/tags/clienteventcall.cpp`)

The plugin sends a GUI request and waits in `blockingVerifyEvent` for the client to echo
its event; the client's answer comes through `ClientEventCall` and
`blockingPushClientEvent`. Both meet at `mBlockingClientEventQueue`, which has one slot
and is shared by all requests. An answer may come after its verification has timed out.

* `verified_iff`: each verification returns whether its own request was answered in time,
  exactly when none finds the answer to an earlier request in the queue;
* `noLeftover_of_inTime`: none does if every answer comes while its request is verified.
-/

namespace ClapRci.Handshake

/-- The queue, what was requested, and what became of each request. -/
structure Sys where
  mBlockingClientEventQueue : BlkRingQueue.Allocated Event :=
    .ofCapacity Event 1 BlkRingQueue.Allocated.one_allocates
  /-- The events requested so far. -/
  requests : List Event := []
  /-- The request whose verification the plugin waits in. -/
  verifying : Option Nat := none
  /-- The requests whose answer the server has handled. -/
  answered : List Nat := []
  /-- Those whose answer was pushed. -/
  pushed : List Nat := []
  /-- Those whose answers are in the queue, oldest first. -/
  queued : List Nat := []
  /-- The verifications that have returned, and what they returned. -/
  verified : List (Nat × Bool) := []

/-- A request with the verification that follows it; the verification returns, on an event
or at its timeout; the client's answer to a request is pushed; its push gives up. -/
inductive Lbl where
  | request (e : Event)
  | verified
  | answer (i : Nat)
  | answerTimeout (i : Nat)
deriving DecidableEq

/-- `blockingVerifyEvent(e)`, when its wait is over: there is an event to extract, or time
is up. -/
def blockingVerifyEvent (queue : BlkRingQueue.Allocated Event) (e : Event) :
    Bool × BlkRingQueue.Allocated Event :=
  let (ok, extracted, queue) := queue.tryDequeue
  if !ok then (false, queue)
  else if extracted ≠ some e then (false, queue)
  else (true, queue)

/-- `blockingPushClientEvent(e)`, when its wait is over. -/
def blockingPushClientEvent (queue : BlkRingQueue.Allocated Event) (e : Event) :
    Bool × BlkRingQueue.Allocated Event :=
  queue.tryEnqueue e

/-- One step. Requests are made one at a time; every answer echoes its request and comes
once. The two waits give up only when there is nothing to be had. -/
def step (s : Sys) : Lbl → Option Sys
  | .request e =>
    match s.verifying with
    | some _ => none
    | none => some { s with requests := s.requests ++ [e], verifying := some s.requests.length }
  | .verified =>
    match s.verifying with
    | none => none
    | some i =>
      s.requests[i]?.map fun e =>
        let (ok, queue) := blockingVerifyEvent s.mBlockingClientEventQueue e
        { s with
          mBlockingClientEventQueue := queue
          verifying := none
          queued := s.queued.tail
          verified := s.verified ++ [(i, ok)] }
  | .answer i =>
    if i ∈ s.answered then none
    else
      s.requests[i]?.bind fun e =>
        match blockingPushClientEvent s.mBlockingClientEventQueue e with
        -- the call is still waiting for the slot
        | (false, _) => none
        | (true, queue) =>
          some { s with
            mBlockingClientEventQueue := queue
            answered := s.answered ++ [i]
            pushed := s.pushed ++ [i]
            queued := s.queued ++ [i] }
  | .answerTimeout i =>
    if i ∈ s.answered then none
    else
      s.requests[i]?.bind fun e =>
        match blockingPushClientEvent s.mBlockingClientEventQueue e with
        | (false, queue) =>
          some { s with mBlockingClientEventQueue := queue, answered := s.answered ++ [i] }
        | (true, _) => none

/-- The handshake of one plugin. -/
def spec : ActionSystem.Spec Sys Lbl where
  Init s := s = {}
  step := step

/-! ## What is promised -/

/-- A verification returns true if and only if the answer to its own request was pushed
before; and it returns false only at its timeout, when no event has come. -/
def Verified (s s' : Sys) : Prop :=
  ∀ i ok, s.verifying = some i → s'.verified = s.verified ++ [(i, ok)] →
    (ok = true ↔ i ∈ s.pushed) ∧
      (ok = false → s.mBlockingClientEventQueue.tryDequeue.1 = false)

/-- The condition on a step: a verification that returns finds no answer to another
request in the queue. -/
def NoLeftover (s : Sys) : Lbl → Prop
  | .verified => ∀ i, s.verifying = some i → ∀ j ∈ s.queued, j = i
  | _ => True

/-- A condition on the client and the clock: an answer is pushed while its own request is
being verified. -/
def InTime (s : Sys) : Lbl → Prop
  | .answer i => s.verifying = some i
  | _ => True

/-! ## What a step can do -/

section Inversion

variable {s s' : Sys}

/-- The state after a request. -/
theorem step_request {e : Event} (hstep : step s (.request e) = some s') :
    s.verifying = none ∧
      s' = { s with requests := s.requests ++ [e], verifying := some s.requests.length } := by
  simp only [step] at hstep
  split at hstep
  · cases hstep
  · rename_i hnone
    cases hstep
    exact ⟨hnone, rfl⟩

/-- The state after a verification. -/
theorem step_verified (hstep : step s .verified = some s') :
    ∃ i e, s.verifying = some i ∧ s.requests[i]? = some e ∧ s' = { s with
      mBlockingClientEventQueue := (blockingVerifyEvent s.mBlockingClientEventQueue e).2
      verifying := none
      queued := s.queued.tail
      verified := s.verified ++ [(i, (blockingVerifyEvent s.mBlockingClientEventQueue e).1)] } := by
  simp only [step] at hstep
  split at hstep
  · cases hstep
  rename_i i hi
  rcases Option.map_eq_some_iff.mp hstep with ⟨e, he, rfl⟩
  exact ⟨i, e, hi, he, rfl⟩

/-- The state after an answer that is pushed. -/
theorem step_answer {i : Nat} (hstep : step s (.answer i) = some s') :
    ∃ e queue, s.requests[i]? = some e ∧
      blockingPushClientEvent s.mBlockingClientEventQueue e = (true, queue) ∧ s' = { s with
        mBlockingClientEventQueue := queue
        answered := s.answered ++ [i]
        pushed := s.pushed ++ [i]
        queued := s.queued ++ [i] } := by
  simp only [step] at hstep
  split at hstep
  · cases hstep
  rcases Option.bind_eq_some_iff.mp hstep with ⟨e, he, hpush⟩
  split at hpush
  · cases hpush
  · rename_i queue heq
    cases hpush
    exact ⟨e, queue, he, heq, rfl⟩

/-- The state after an answer that is given up: the queue has refused it. -/
theorem step_answerTimeout {i : Nat} (hstep : step s (.answerTimeout i) = some s') :
    ∃ e, s.requests[i]? = some e ∧ s' = { s with answered := s.answered ++ [i] } := by
  simp only [step] at hstep
  split at hstep
  · cases hstep
  rcases Option.bind_eq_some_iff.mp hstep with ⟨e, he, hpush⟩
  split at hpush
  · rename_i queue heq
    cases hpush
    have hrefused := BlkRingQueue.Allocated.tryEnqueue_refused (congrArg Prod.fst heq)
    obtain rfl : s.mBlockingClientEventQueue = queue :=
      congrArg Prod.snd (hrefused.symm.trans heq)
    exact ⟨e, he, rfl⟩
  · cases hpush

end Inversion

/-! ## The invariant -/

/-- The queue holds the events of the answers in it, and the answer to a request under
verification, once pushed, is one of them. -/
structure Inv (s : Sys) : Prop where
  holds : ∃ es, BlkRingQueue.Holds 1 s.mBlockingClientEventQueue es ∧
    es.map some = s.queued.map fun i => s.requests[i]?
  queued : ∀ i ∈ s.queued, i ∈ s.pushed
  pushed : ∀ i ∈ s.pushed, i ∈ s.answered
  answered : ∀ i ∈ s.answered, i < s.requests.length
  verifying : ∀ i, s.verifying = some i → i ∈ s.pushed → i ∈ s.queued

theorem init_inv : Inv {} where
  holds := ⟨[], @BlkRingQueue.holds_init Event 1 (by decide) (by decide) (by decide), rfl⟩
  queued := nofun
  pushed := nofun
  answered := nofun
  verifying := nofun

section Steps

variable {s s' : Sys}

/-- A new request has no answer yet. -/
theorem Inv.request (h : Inv s) {e : Event} (hstep : step s (.request e) = some s') : Inv s' := by
  rcases step_request hstep with ⟨-, rfl⟩
  have hlt : ∀ i ∈ s.queued, i < s.requests.length := by
    intro i hi
    exact h.answered i (h.pushed i (h.queued i hi))
  rcases h.holds with ⟨es, hes, heq⟩
  refine ⟨⟨es, hes, ?_⟩, h.queued, h.pushed, ?_, ?_⟩
  · rw [heq]
    refine List.map_congr_left ?_
    intro i hi
    exact (List.getElem?_append_left (hlt i hi)).symm
  · intro i hi
    rw [List.length_append]
    exact Nat.lt_add_right _ (h.answered i hi)
  · intro i hi hpushed
    cases hi
    exact absurd (h.answered _ (h.pushed _ hpushed)) (Nat.lt_irrefl _)

/-- What a verification finds: nothing, or the answer to one request. -/
theorem Inv.verify (h : Inv s) (e : Event) :
    s.queued = [] ∧ s.mBlockingClientEventQueue.tryDequeue.1 = false ∧
        blockingVerifyEvent s.mBlockingClientEventQueue e =
          (false, s.mBlockingClientEventQueue) ∨
      ∃ j, s.queued = [j] ∧ s.mBlockingClientEventQueue.tryDequeue.1 = true ∧
        (blockingVerifyEvent s.mBlockingClientEventQueue e).1 =
          decide (s.requests[j]? = some e) ∧
        BlkRingQueue.Holds 1 (blockingVerifyEvent s.mBlockingClientEventQueue e).2 [] := by
  rcases h.holds with ⟨es, hes, heq⟩
  cases es with
  | nil =>
    left
    have hempty := hes.empty
    refine ⟨List.map_eq_nil_iff.mp heq.symm, ?_, ?_⟩
    · rw [hempty]
    · unfold blockingVerifyEvent
      rw [hempty]
      rfl
  | cons x es =>
    right
    -- the one slot is taken
    have hlen := hes.length_le
    obtain rfl : es = [] := List.length_eq_zero_iff.mp (by simpa using hlen)
    rcases hes.dequeue with ⟨hok, hitem, hholds⟩
    obtain ⟨j, hj⟩ : ∃ j, s.queued = [j] := by
      refine List.length_eq_one_iff.mp ?_
      have hlength := congrArg List.length heq
      simpa using hlength.symm
    have hx : s.requests[j]? = some x := by
      rw [hj] at heq
      simpa using heq.symm
    refine ⟨j, hj, hok, ?_⟩
    unfold blockingVerifyEvent
    generalize s.mBlockingClientEventQueue.tryDequeue = r at hok hitem hholds
    rcases r with ⟨ok, extracted, queue⟩
    subst hok hitem
    rw [hx]
    by_cases hxe : x = e
    · simpa [hxe] using hholds
    · simpa [hxe] using hholds

theorem Inv.verified (h : Inv s) (hstep : step s .verified = some s') : Inv s' := by
  rcases step_verified hstep with ⟨i, e, -, -, rfl⟩
  refine ⟨?_, ?_, h.pushed, h.answered, nofun⟩
  · rcases h.verify e with ⟨hnil, -, heq⟩ | ⟨j, hj, -, -, hholds⟩
    · rcases h.holds with ⟨es, hes, hmap⟩
      refine ⟨es, ?_, ?_⟩
      · rw [heq]
        exact hes
      · rw [hmap, hnil]
        rfl
    · refine ⟨[], hholds, ?_⟩
      rw [hj]
      rfl
  · intro i hi
    exact h.queued i (List.mem_of_mem_tail hi)

/-- An answer that is pushed. -/
theorem Inv.answer (h : Inv s) {i : Nat} (hstep : step s (.answer i) = some s') : Inv s' := by
  rcases step_answer hstep with ⟨e, queue, he, heq, rfl⟩
  have hlt : i < s.requests.length := (List.getElem?_eq_some_iff.mp he).1
  rcases h.holds with ⟨es, hes, hmap⟩
  -- a full queue would have refused the answer
  have hroom : es.length < 1 := by
    rcases Nat.lt_or_eq_of_le hes.length_le with hlt | hfull
    · exact hlt
    · rw [blockingPushClientEvent, hes.full hfull] at heq
      cases heq
  have hholds := (hes.enqueue hroom e).2
  rw [blockingPushClientEvent] at heq
  rw [heq] at hholds
  refine ⟨⟨es ++ [e], hholds, ?_⟩, ?_, ?_, ?_, ?_⟩
  · simp [hmap, he]
  · intro j hj
    rcases List.mem_append.mp hj with hj | hj
    · exact List.mem_append_left _ (h.queued j hj)
    · exact List.mem_append_right _ hj
  · intro j hj
    rcases List.mem_append.mp hj with hj | hj
    · exact List.mem_append_left _ (h.pushed j hj)
    · exact List.mem_append_right _ hj
  · intro j hj
    rcases List.mem_append.mp hj with hj | hj
    · exact h.answered j hj
    · rwa [List.mem_singleton.mp hj]
  · intro j hj hpushed
    rcases List.mem_append.mp hpushed with hpushed | hnew
    · exact List.mem_append_left _ (h.verifying j hj hpushed)
    · exact List.mem_append_right _ hnew

theorem Inv.answerTimeout (h : Inv s) {i : Nat} (hstep : step s (.answerTimeout i) = some s') :
    Inv s' := by
  rcases step_answerTimeout hstep with ⟨e, he, rfl⟩
  refine ⟨h.holds, h.queued, ?_, ?_, h.verifying⟩
  · intro j hj
    exact List.mem_append_left _ (h.pushed j hj)
  · intro j hj
    rcases List.mem_append.mp hj with hj | hj
    · exact h.answered j hj
    · rw [List.mem_singleton.mp hj]
      exact (List.getElem?_eq_some_iff.mp he).1

theorem step_inv {l : Lbl} (h : Inv s) (hstep : step s l = some s') : Inv s' := by
  cases l with
  | request e => exact h.request hstep
  | verified => exact h.verified hstep
  | answer i => exact h.answer hstep
  | answerTimeout i => exact h.answerTimeout hstep

/-! ## What a verification returns -/

/-- With no leftover in the queue a verification returns what it should. -/
theorem Inv.verified_of_noLeftover (h : Inv s) (hcond : NoLeftover s .verified)
    (hstep : step s .verified = some s') : Verified s s' := by
  rcases step_verified hstep with ⟨i, e, hi, he, rfl⟩
  intro i' ok hi' hres
  obtain rfl : i = i' := Option.some.inj (hi.symm.trans hi')
  have hok : (blockingVerifyEvent s.mBlockingClientEventQueue e).1 = ok := by
    simpa using hres
  rcases h.verify e with ⟨hnil, hout, heq⟩ | ⟨j, hj, -, hret, -⟩
  · -- time is up, and no answer is there
    have hnot : i ∉ s.pushed := by
      intro hpushed
      have hmem := h.verifying i hi hpushed
      rw [hnil] at hmem
      cases hmem
    rw [heq] at hok
    subst hok
    exact ⟨⟨nofun, fun hpushed => absurd hpushed hnot⟩, fun _ => hout⟩
  · have hmem : j ∈ s.queued := by simp [hj]
    obtain rfl : j = i := hcond i hi j hmem
    rw [hret, he] at hok
    have htrue : ok = true := by simpa using hok.symm
    subst htrue
    exact ⟨⟨fun _ => h.queued j hmem, fun _ => rfl⟩, nofun⟩

/-- A leftover fails the verification, or satisfies it in place of its own answer. -/
theorem Inv.not_verified (h : Inv s) (hcond : ¬ NoLeftover s .verified)
    (hstep : step s .verified = some s') : ¬ Verified s s' := by
  simp only [NoLeftover, Classical.not_forall] at hcond
  rcases hcond with ⟨i, hi, j, hj, hne⟩
  rcases step_verified hstep with ⟨i', e, hi', he, rfl⟩
  obtain rfl : i = i' := Option.some.inj (hi.symm.trans hi')
  intro hver
  rcases h.verify e with ⟨hnil, -⟩ | ⟨j', hj', hin, -⟩
  · rw [hnil] at hj
    cases hj
  · have hspec := hver i _ hi rfl
    -- the one slot holds the leftover, so its own answer cannot have been pushed
    have hnot : i ∉ s.pushed := by
      intro hpushed
      have hmem := h.verifying i hi hpushed
      rw [hj', List.mem_singleton] at hj hmem
      exact hne (hj.trans hmem.symm)
    cases hok : (blockingVerifyEvent s.mBlockingClientEventQueue e).1 with
    | true => exact hnot (hspec.1.mp hok)
    | false =>
      have hout := hspec.2 hok
      rw [hin] at hout
      cases hout

end Steps

/-- Steps other than the return of a verification promise nothing. -/
theorem verified_of_ne {s s' : Sys} {l : Lbl} (hstep : step s l = some s') (hl : l ≠ .verified) :
    Verified s s' := by
  have hsame : s'.verified = s.verified := by
    cases l with
    | request e =>
      rcases step_request hstep with ⟨-, rfl⟩
      rfl
    | verified => exact absurd rfl hl
    | answer i =>
      rcases step_answer hstep with ⟨e, queue, -, -, rfl⟩
      rfl
    | answerTimeout i =>
      rcases step_answerTimeout hstep with ⟨e, -, rfl⟩
      rfl
  intro i ok _ hres
  rw [hsame] at hres
  simp at hres

/-- In every step of a run a verification returns whether its own request was answered in
time, exactly when no verification finds the answer to another request in the queue. -/
theorem verified_iff (ls : List Lbl) :
    spec.AllSteps (fun s _ s' => Verified s s') {} ls ↔
      spec.AllSteps (fun s l _ => NoLeftover s l) {} ls := by
  refine spec.allSteps_iff Inv ?_ ?_ init_inv ls
  · intro s l s' hinv hcond (hstep : step s l = some s')
    refine ⟨step_inv hinv hstep, ?_⟩
    cases l with
    | verified => exact hinv.verified_of_noLeftover hcond hstep
    | _ => exact verified_of_ne hstep nofun
  · intro s l s' hinv hcond hstep
    cases l with
    | verified => exact hinv.not_verified hcond hstep
    | _ => exact absurd trivial hcond

/-- The host shows the GUI twice. The answer to the first request comes after its
verification has timed out and satisfies the second one, which nobody has answered. -/
theorem verified_fails : ¬ ∀ ls, spec.AllSteps (fun s _ s' => Verified s s') {} ls := by
  intro h
  have hlast := spec.forall_allSteps_last h
    [.request .guiShow, .verified, .answer 0, .request .guiShow] .verified rfl rfl
  have hanswered := (hlast 1 true rfl rfl).1.mp rfl
  exact absurd hanswered (by decide)

/-! ## Answers in time -/

/-- All that is in the queue answers the request under verification. -/
def OnlyCurrent (s : Sys) : Prop := ∀ i ∈ s.queued, s.verifying = some i

theorem step_onlyCurrent {s s' : Sys} {l : Lbl} (hinv : Inv s) (h : OnlyCurrent s)
    (hcond : InTime s l) (hstep : step s l = some s') : OnlyCurrent s' := by
  cases l with
  | request e =>
    rcases step_request hstep with ⟨hnone, rfl⟩
    -- nothing is under verification, so nothing is in the queue
    intro i hi
    have hcur := h i hi
    rw [hnone] at hcur
    cases hcur
  | verified =>
    rcases step_verified hstep with ⟨i, e, -, -, rfl⟩
    intro j hj
    have hnil : s.queued.tail = [] := by
      rcases hinv.verify e with ⟨hnil, -⟩ | ⟨j, hone, -⟩
      · rw [hnil]
        rfl
      · rw [hone]
        rfl
    rw [hnil] at hj
    cases hj
  | answer i =>
    rcases step_answer hstep with ⟨e, queue, -, -, rfl⟩
    intro j hj
    rcases List.mem_append.mp hj with hj | hj
    · exact h j hj
    · rw [List.mem_singleton.mp hj]
      exact hcond
  | answerTimeout i =>
    rcases step_answerTimeout hstep with ⟨e, -, rfl⟩
    exact h

/-- Answers that all come while their own request is verified leave nothing behind. -/
theorem noLeftover_of_inTime (ls : List Lbl)
    (h : spec.AllSteps (fun s l _ => InTime s l) {} ls) :
    spec.AllSteps (fun s l _ => NoLeftover s l) {} ls := by
  refine spec.allSteps_imp (fun s => Inv s ∧ OnlyCurrent s) ?_ ⟨init_inv, nofun⟩ h
  intro s l s' hinv hcond hstep
  refine ⟨⟨step_inv hinv.1 hstep, step_onlyCurrent hinv.1 hinv.2 hcond hstep⟩, ?_⟩
  cases l with
  | verified =>
    intro i hi j hj
    have hcur := hinv.2 j hj
    rw [hi] at hcur
    exact (Option.some.inj hcur).symm
  | _ => exact trivial

end ClapRci.Handshake
