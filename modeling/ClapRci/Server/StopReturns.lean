import Mathlib.Algebra.GroupWithZero.Nat
import Mathlib.Algebra.Order.BigOperators.Group.List
import Mathlib.Algebra.Order.Group.Nat
import Mathlib.Data.Fintype.EquivFin
import ClapRci.Lib.Progress
import ClapRci.Server.Shutdown

/-!
# The end of the stop (`server/server.cpp`, `server/cqeventhandler.cpp`)

Once the queue of the streams is shut down, `Server::stop` waits: for `Next` to find nothing
more to come on this queue, then on the one of the unary calls, and last for the threads in
`run`. Whether it returns depends on what the handlers start meanwhile.

* `stop_returns`: while the steps are orderly, the server takes no more steps than there was
  work left when the queue was shut down, whatever the plugins do and whoever processes the
  events; and when it can take no more, a `handleEvent` is still under way, or nothing is left
  to do and `stop` returns.
-/

namespace ClapRci.Shutdown

open ServerEventStream (Effect)

/-- The steps of the server. The others are those of the plugins. -/
def Lbl.byServer {ι κ : Type} : Lbl ι κ → Bool
  | .pushProcess _ _ | .pushMain _ _ | .stopPoll _ => false
  | _ => true

/-- The step is the return of a `handleEvent`: its handler starts the `Finish` of the call. -/
def ReturnsStatus {ι κ : Type} [LinearOrder κ] (s : Sys ι κ) : Lbl ι κ → Prop
  | .go pos w => ∃ h status ops, (s.cq pos).todo w = .unary h (.finish status) :: ops
  | _ => False

section Work

variable {ι κ : Type} [LinearOrder κ]

/-- An event, and what comes of it: a unary call that has come is answered, and leaves a
successor with a request. -/
def eventWork (o : Objs ι κ) : Tag ι κ × Bool → Nat
  | (.unary h, true) =>
    match (o.unary h).2 with
    | .PROCESS => 7
    | .FINISH => 1
  | _ => 1

/-- At most the steps that are left to do on a queue. -/
def Cq.work (o : Objs ι κ) (cq : Cq ι κ) : Nat :=
  3 * (cq.todo .run).length + 3 * (cq.todo .teardown).length + 2 * cq.outstanding.length +
    (cq.ready.map (eventWork o)).sum

/-- The steps left to `stop` itself, from the first `teardown` on. -/
def Stop.work : Stop → Nat
  | .teardown .stream => 1
  | _ => 0

/-- At most the steps that are left to do for the server. -/
def Sys.work (s : Sys ι κ) : Nat :=
  (s.cq .stream).work s.objs + (s.cq .unary).work s.objs + 2 * s.accepted.length + s.stop.work

/-- Nothing is left to do: `Next` tells each of the threads that there are no more events, and
the last loop of `run` finds no alarm, so that `run` and `teardown` return, and `stop` with
them. -/
structure Returned (s : Sys ι κ) : Prop where
  stop : s.stop = .teardown .unary
  accepted : s.accepted = []
  shutdown : ∀ pos, (s.cq pos).shutdown = true
  outstanding : ∀ pos, (s.cq pos).outstanding = []
  ready : ∀ pos, (s.cq pos).ready = []
  todo : ∀ pos w, (s.cq pos).todo w = []

/-- The operations that can be on a queue: on that of the unary calls those of its handlers,
where one that answers is in `FINISH`, and on that of the streams none of theirs. -/
def OpOk (o : Objs ι κ) : CqPos → Op ι κ → Prop
  | .stream, .unary _ _ => False
  | .stream, _ => True
  | .unary, .unary h .request => h < o.nextUnary
  | .unary, .unary h (.finish _) => h < o.nextUnary ∧ (o.unary h).2 = .FINISH
  | .unary, _ => False

/-- The tags that can come from a queue. -/
def TagOk (o : Objs ι κ) : CqPos → Tag ι κ → Prop
  | .stream, .unary _ => False
  | .stream, _ => True
  | .unary, .unary h => h < o.nextUnary
  | .unary, _ => False

/-- What is on a queue belongs there. -/
structure Cq.Owned (o : Objs ι κ) (pos : CqPos) (cq : Cq ι κ) : Prop where
  outstanding : ∀ e ∈ cq.outstanding, OpOk o pos e.1
  ready : ∀ e ∈ cq.ready, TagOk o pos e.1
  todo : ∀ w, ∀ op ∈ cq.todo w, OpOk o pos op

/-- Handlers are only added, and one that has answered stays in `FINISH`. -/
structure Later (o o' : Objs ι κ) : Prop where
  nextUnary : o.nextUnary ≤ o'.nextUnary
  unary : ∀ h < o.nextUnary, (o.unary h).2 = .FINISH → (o'.unary h).2 = .FINISH

/-- Both queues hold what belongs there, and are shut down by the time `teardown` is in them. -/
structure Settled (s : Sys ι κ) : Prop where
  owned : ∀ pos, (s.cq pos).Owned s.objs pos
  stream : ∀ pos, s.stop = .teardown pos → (s.cq .stream).shutdown = true
  unary : s.stop = .teardown .unary → (s.cq .unary).shutdown = true

/-! ## The objects -/

section Objects

variable {o o' : Objs ι κ} {pos : CqPos}

theorem Later.of_unary_eq (hnext : o'.nextUnary = o.nextUnary) (hunary : o'.unary = o.unary) :
    Later o o' :=
  ⟨Nat.le_of_eq hnext.symm, fun _ _ h => hunary ▸ h⟩

theorem OpOk.later {op : Op ι κ} (h : OpOk o pos op) (hlater : Later o o') : OpOk o' pos op := by
  cases pos with
  | stream => cases op <;> exact h
  | unary =>
    cases op with
    | stream st op => exact h
    | poll i => exact h
    | unary k op =>
      cases op with
      | request => exact Nat.lt_of_lt_of_le h hlater.nextUnary
      | finish status => exact ⟨Nat.lt_of_lt_of_le h.1 hlater.nextUnary, hlater.unary k h.1 h.2⟩

theorem TagOk.later {tag : Tag ι κ} (h : TagOk o pos tag) (hlater : Later o o') :
    TagOk o' pos tag := by
  cases pos with
  | stream => cases tag <;> exact h
  | unary =>
    cases tag with
    | unary k => exact Nat.lt_of_lt_of_le h hlater.nextUnary
    | _ => exact h

theorem OpOk.tagOk {op : Op ι κ} (h : OpOk o pos op) : TagOk o pos op.tag := by
  cases pos with
  | stream => cases op <;> exact h
  | unary =>
    cases op with
    | stream st op => exact h
    | poll i => exact h
    | unary k op =>
      cases op with
      | request => exact h
      | finish status => exact h.1

theorem Cq.Owned.later {cq : Cq ι κ} (h : cq.Owned o pos) (hlater : Later o o') :
    cq.Owned o' pos where
  outstanding e he := (h.outstanding e he).later hlater
  ready e he := (h.ready e he).later hlater
  todo w op hop := (h.todo w op hop).later hlater

/-- A worker's list is replaced. -/
theorem Cq.Owned.todo_update {cq : Cq ι κ} (h : cq.Owned o pos) {w : Worker}
    {ops : List (Op ι κ)} (hops : ∀ op ∈ ops, OpOk o pos op) :
    ∀ w', ∀ op ∈ Function.update cq.todo w ops w', OpOk o pos op := by
  intro w'
  by_cases hw : w' = w
  · rw [hw, Function.update_self]
    exact hops
  · rw [Function.update_of_ne hw]
    exact h.todo w'

/-- Only what is answered is taken off the work of an event. -/
theorem eventWork_later {e : Tag ι κ × Bool} (h : TagOk o pos e.1) (hlater : Later o o') :
    eventWork o' e ≤ eventWork o e := by
  rcases e with ⟨tag, ok⟩
  cases tag with
  | unary k =>
    cases ok with
    | false => exact Nat.le_refl 1
    | true =>
      cases pos with
      | stream => exact h.elim
      | unary =>
        cases hstate : (o.unary k).2 with
        | FINISH =>
          have hstate' := hlater.unary k h hstate
          simp [eventWork, hstate, hstate']
        | PROCESS =>
          simp only [eventWork, hstate]
          split <;> omega
  | _ => exact Nat.le_refl 1

theorem Cq.work_later {cq : Cq ι κ} (h : ∀ e ∈ cq.ready, TagOk o pos e.1)
    (hlater : Later o o') : cq.work o' ≤ cq.work o := by
  have hsum : (cq.ready.map (eventWork o')).sum ≤ (cq.ready.map (eventWork o)).sum :=
    List.sum_le_sum fun e he => eventWork_later (h e he) hlater
  unfold Cq.work
  omega

end Objects

end Work

/-! ## The handlers -/

section Handlers

variable {ι κ : Type} [DecidableEq ι] [LinearOrder κ]

/-- Operations of streams and poll callbacks. -/
def NotUnary (ops : List (Op ι κ)) : Prop := ∀ op ∈ ops, ∀ h x, op ≠ .unary h x

omit [DecidableEq ι] [LinearOrder κ] in
theorem NotUnary.append {ops ops' : List (Op ι κ)} (h : NotUnary ops) (h' : NotUnary ops') :
    NotUnary (ops ++ ops') := by
  intro op hop
  rcases List.mem_append.mp hop with hop | hop
  · exact h op hop
  · exact h' op hop

/-- The streams and the poll callbacks leave the unary handlers alone. -/
def Apart (o : Objs ι κ) (r : Objs ι κ × List (Op ι κ)) : Prop :=
  r.1.nextUnary = o.nextUnary ∧ r.1.unary = o.unary ∧ NotUnary r.2

theorem applyEffect_apart {o : Objs ι κ} (home : κ → ι) (turn : Turn κ) (st : κ)
    {r : Objs ι κ × List (Op ι κ)} (h : Apart o r) (eff : Effect) :
    Apart o (applyEffect home turn st r eff) := by
  rcases h with ⟨hnext, hunary, hops⟩
  have hstream : ∀ st op, NotUnary ([.stream st op] : List (Op ι κ)) := by
    intro st op
    simp [NotUnary]
  cases eff with
  | start op => exact ⟨hnext, hunary, hops.append (hstream st op)⟩
  | create => exact ⟨hnext, hunary, hops.append (hstream turn.fresh .request)⟩
  | addStream => exact ⟨hnext, hunary, hops⟩
  | tryStartPolling =>
    simp only [applyEffect]
    split
    · exact ⟨hnext, hunary, hops⟩
    · exact ⟨hnext, hunary, hops.append (by simp [NotUnary])⟩
  | removeStream => exact ⟨hnext, hunary, hops⟩
  | destroyTag => exact ⟨hnext, hunary, hops⟩

theorem applyEffects_apart {o : Objs ι κ} (home : κ → ι) (turn : Turn κ) (st : κ)
    (effs : List Effect) {r : Objs ι κ × List (Op ι κ)} (h : Apart o r) :
    Apart o (effs.foldl (applyEffect home turn st) r) := by
  induction effs generalizing r with
  | nil => exact h
  | cons eff effs ih => exact ih (applyEffect_apart home turn st h eff)

omit [DecidableEq ι] in
theorem applyCalls_apart {o : Objs ι κ} (calls : List (κ × SharedData.StreamCall))
    {r : Objs ι κ × List (Op ι κ)} (h : Apart o r) : Apart o (calls.foldl applyCall r) := by
  induction calls generalizing r with
  | nil => exact h
  | cons call calls ih =>
    refine ih ⟨h.1, h.2.1, h.2.2.append ?_⟩
    intro op hop k x
    obtain ⟨eff, -, heff⟩ := List.mem_filterMap.mp hop
    rintro rfl
    cases eff <;> cases heff

/-- A stream, its notification or a poll callback. -/
theorem handle_apart (home : κ → ι) (turn : Turn κ) (o : Objs ι κ) (ok : Bool) {tag : Tag ι κ}
    (htag : TagOk o .stream tag) : Apart o (handle home turn o ok tag) := by
  have hnil : NotUnary ([] : List (Op ι κ)) := fun op hop => absurd hop List.not_mem_nil
  cases tag with
  | stream st => exact applyEffects_apart home turn st _ ⟨rfl, rfl, hnil⟩
  | done st => exact ⟨rfl, rfl, hnil⟩
  | poll i =>
    simp only [handle, processPoll]
    generalize (o.data i).pollCallback ok o.stream = p
    have hcalls := applyCalls_apart (o := o) p.calls
      (r := ({ o.setData i p.data with endOwner := some (o.endOwner.getD i) }, []))
      ⟨rfl, rfl, hnil⟩
    cases p.exit with
    | ended => exact hcalls
    | again deferNs => exact ⟨hcalls.1, hcalls.2.1, hcalls.2.2.append (by simp [NotUnary])⟩
  | unary h => exact htag.elim

omit [DecidableEq ι] in
/-- A handler whose request failed, or that has answered, is destroyed. -/
theorem processUnary_kill (turn : Turn κ) {o : Objs ι κ} {h : Nat} {ok : Bool}
    (hkill : ok = false ∨ (o.unary h).2 = .FINISH) : processUnary turn o h ok = (o, []) := by
  have hprocess : UnaryCalls.process (o.unary h).1 (o.unary h).2 ok =
      ((o.unary h).2, UnaryCalls.kill) := by
    rcases hkill with rfl | hfinish
    · rfl
    · rw [hfinish]
      cases ok <;> rfl
  simp only [processUnary, hprocess, UnaryCalls.kill, List.foldl_cons, List.foldl_nil, applyUnary,
    Prod.mk.eta, Function.update_eq_self]

omit [DecidableEq ι] in
/-- A handler whose call has come answers it, after it has left a successor. -/
theorem processUnary_answer (turn : Turn κ) {o : Objs ι κ} {h : Nat}
    (hstate : (o.unary h).2 = .PROCESS) :
    processUnary turn o h true =
      ({ o with
          unary := Function.update (Function.update o.unary h ((o.unary h).1, .FINISH))
            o.nextUnary ((o.unary h).1, .PROCESS)
          nextUnary := o.nextUnary + 1 },
        [.unary o.nextUnary .request, .unary h (.finish turn.status)]) := by
  simp only [processUnary, hstate]
  rfl

omit [DecidableEq ι] in
theorem processUnary_spec (turn : Turn κ) {o : Objs ι κ} {h : Nat} (hnext : h < o.nextUnary)
    (ok : Bool) :
    Later o (processUnary turn o h ok).1 ∧
      (∀ op ∈ (processUnary turn o h ok).2, OpOk (processUnary turn o h ok).1 .unary op) ∧
      3 * (processUnary turn o h ok).2.length + 1 ≤ eventWork o (.unary h, ok) := by
  by_cases hkill : ok = false ∨ (o.unary h).2 = .FINISH
  · rw [processUnary_kill turn hkill]
    refine ⟨Later.of_unary_eq rfl rfl, fun op hop => absurd hop List.not_mem_nil, ?_⟩
    rcases hkill with rfl | hfinish
    · exact Nat.le_refl 1
    · cases ok <;> simp [eventWork, hfinish]
  · rw [not_or, Bool.not_eq_false] at hkill
    obtain ⟨rfl, hstate⟩ := hkill
    have hstate : (o.unary h).2 = .PROCESS := by
      cases hcase : (o.unary h).2 with
      | PROCESS => rfl
      | FINISH => exact absurd hcase hstate
    have hne : h ≠ o.nextUnary := Nat.ne_of_lt hnext
    rw [processUnary_answer turn hstate]
    refine ⟨⟨Nat.le_succ _, ?_⟩, ?_, ?_⟩
    · intro k hk hfinish
      dsimp only
      rw [Function.update_of_ne (Nat.ne_of_lt hk)]
      by_cases hkh : k = h
      · rw [hkh, Function.update_self]
      · rwa [Function.update_of_ne hkh]
    · intro op hop
      rcases List.mem_pair.mp hop with rfl | rfl
      · exact Nat.lt_succ_self _
      · refine ⟨Nat.lt_succ_of_lt hnext, ?_⟩
        dsimp only
        rw [Function.update_of_ne hne, Function.update_self]
    · simp [eventWork, hstate]

/-- What an event of a queue leads to belongs on this queue. -/
theorem handle_spec (home : κ → ι) (turn : Turn κ) (o : Objs ι κ) (ok : Bool) {pos : CqPos}
    {tag : Tag ι κ} (htag : TagOk o pos tag) :
    Later o (handle home turn o ok tag).1 ∧
      ∀ op ∈ (handle home turn o ok tag).2, OpOk (handle home turn o ok tag).1 pos op := by
  cases pos with
  | stream =>
    obtain ⟨hnext, hunary, hops⟩ := handle_apart home turn o ok htag
    refine ⟨Later.of_unary_eq hnext hunary, ?_⟩
    intro op hop
    cases op with
    | unary h x => exact absurd rfl (hops _ hop h x)
    | _ => trivial
  | unary =>
    cases tag with
    | unary h =>
      have hspec := processUnary_spec turn htag ok
      exact ⟨hspec.1, hspec.2.1⟩
    | _ => exact htag.elim

end Handlers

/-! ## The steps -/

section Steps

variable {ι κ : Type} [DecidableEq ι] [LinearOrder κ] {home : κ → ι} {s s' : Sys ι κ}

/-- An operation completes. A stream's request that succeeds is the only one to be noted. -/
theorem complete_eq {pos : CqPos} {k : Nat} {ok : Bool}
    (hstep : step home s (.complete pos k ok) = some s') :
    ∃ op cancelled accepted, (s.cq pos).outstanding[k]? = some (op, cancelled) ∧
      canComplete s.stop op cancelled ok = true ∧
      (accepted = s.accepted ∨ op.isRequest = true ∧ ok = true) ∧
      s' = { s.setCq pos { s.cq pos with
          outstanding := (s.cq pos).outstanding.eraseIdx k
          ready := (s.cq pos).ready ++ [(op.tag, ok)] } with accepted := accepted } := by
  simp only [step] at hstep
  split at hstep
  · cases hstep
  · rename_i op cancelled hop
    split at hstep
    · cases hstep
    · rename_i hcan
      rw [Bool.not_eq_true', Bool.not_eq_false] at hcan
      split at hstep
      · cases hstep
        exact ⟨_, cancelled, _, hop, hcan, Or.inr ⟨rfl, rfl⟩, rfl⟩
      · cases hstep
        exact ⟨op, cancelled, s.accepted, hop, hcan, Or.inl rfl, rfl⟩

omit [DecidableEq ι] in
theorem cq_setCq_self (pos : CqPos) (cq : Cq ι κ) : (s.setCq pos cq).cq pos = cq :=
  Function.update_self _ _ _

omit [DecidableEq ι] in
theorem cq_setCq_ne {pos pos' : CqPos} (hne : pos' ≠ pos) (cq : Cq ι κ) :
    (s.setCq pos cq).cq pos' = s.cq pos' :=
  Function.update_of_ne hne _ _

omit [DecidableEq ι] in
/-- What one queue is changed to has to belong there, and the other one is as it was. -/
theorem Settled.setCq (h : Settled s) (pos : CqPos) (cq : Cq ι κ) (howned : cq.Owned s.objs pos)
    (hshutdown : (s.cq pos).shutdown = true → cq.shutdown = true) : Settled (s.setCq pos cq) := by
  have hflag : ∀ pos', (s.cq pos').shutdown = true →
      ((s.setCq pos cq).cq pos').shutdown = true := by
    intro pos' hpos'
    by_cases hne : pos' = pos
    · subst hne
      rw [cq_setCq_self]
      exact hshutdown hpos'
    · rwa [cq_setCq_ne hne]
  refine ⟨?_, fun pos' hstop => hflag .stream (h.stream pos' hstop),
    fun hstop => hflag .unary (h.unary hstop)⟩
  intro pos'
  by_cases hne : pos' = pos
  · subst hne
    rw [cq_setCq_self]
    exact howned
  · rw [cq_setCq_ne hne]
    exact h.owned pos'

omit [DecidableEq ι] in
theorem Settled.later {o' : Objs ι κ} (h : Settled s) (hlater : Later s.objs o') :
    Settled { s with objs := o' } :=
  ⟨fun pos => (h.owned pos).later hlater, h.stream, h.unary⟩

omit [DecidableEq ι] in
theorem init_settled (plugin : ι → PluginPtr) (first : κ) : Settled (init plugin first) := by
  refine ⟨?_, fun pos hstop => Stop.noConfusion hstop, fun hstop => Stop.noConfusion hstop⟩
  intro pos
  cases pos with
  | stream =>
    refine ⟨?_, fun e he => absurd he List.not_mem_nil, fun w op hop => absurd hop List.not_mem_nil⟩
    intro e he
    rw [List.mem_singleton.mp he]
    trivial
  | unary =>
    refine ⟨?_, fun e he => absurd he List.not_mem_nil, fun w op hop => absurd hop List.not_mem_nil⟩
    intro e he
    rcases List.mem_pair.mp he with rfl | rfl
    · exact Nat.two_pos
    · exact Nat.one_lt_two

theorem step_settled {l : Lbl ι κ} (hinv : Settled s) (hstep : step home s l = some s') :
    Settled s' := by
  cases l with
  | complete pos k ok =>
    obtain ⟨op, cancelled, accepted, hop, -, -, rfl⟩ := complete_eq hstep
    have howned := hinv.owned pos
    have hset := hinv.setCq pos { s.cq pos with
      outstanding := (s.cq pos).outstanding.eraseIdx k
      ready := (s.cq pos).ready ++ [(op.tag, ok)] } ⟨?_, ?_, howned.todo⟩ id
    · exact ⟨hset.owned, hset.stream, hset.unary⟩
    · intro e he
      exact howned.outstanding e (List.mem_of_mem_eraseIdx he)
    · intro e he
      rcases List.mem_append.mp he with he | he
      · exact howned.ready e he
      · rw [List.mem_singleton.mp he]
        exact (howned.outstanding _ (List.mem_of_getElem? hop)).tagOk
  | notifyDone st ok =>
    simp only [step] at hstep
    split at hstep
    · cases hstep
      have howned := hinv.owned .stream
      have hset := hinv.setCq .stream { s.cq .stream with
        ready := (s.cq .stream).ready ++ [(.done st, ok)] } ⟨howned.outstanding, ?_, howned.todo⟩ id
      · exact ⟨hset.owned, hset.stream, hset.unary⟩
      · intro e he
        rcases List.mem_append.mp he with he | he
        · exact howned.ready e he
        · rw [List.mem_singleton.mp he]
          trivial
    · cases hstep
  | next pos w turn =>
    cases step_moves hstep with
    | @took _ _ _ tag ok ready hready hidle =>
      have howned := hinv.owned pos
      have hmem : (tag, ok) ∈ (s.cq pos).ready := by simp [hready]
      obtain ⟨hlater, hops⟩ := handle_spec home turn s.objs ok (howned.ready _ hmem)
      -- the objects first, then the queue
      refine (hinv.later hlater).setCq pos _ ⟨?_, ?_, ?_⟩ id
      · exact (howned.later hlater).outstanding
      · intro e he
        exact (howned.later hlater).ready e (by rw [hready]; exact List.mem_cons_of_mem _ he)
      · exact (howned.later hlater).todo_update hops
    | other hl => exact hl.elim
  | go pos w =>
    cases step_moves hstep with
    | @went _ _ op ops htodo =>
      have howned := hinv.owned pos
      refine hinv.setCq pos _ ⟨?_, howned.ready, ?_⟩ id
      · intro e he
        rcases List.mem_append.mp he with he | he
        · exact howned.outstanding e he
        · rw [List.mem_singleton.mp he]
          exact howned.todo w op (by simp [htodo])
      · refine howned.todo_update fun op' hop' => howned.todo w op' ?_
        rw [htodo]
        exact List.mem_cons_of_mem _ hop'
    | other hl => exact hl.elim
  | cancelAllPendingTags =>
    simp only [step] at hstep
    split at hstep
    · cases hstep
      refine ⟨?_, fun pos hstop => Stop.noConfusion hstop, fun hstop => Stop.noConfusion hstop⟩
      intro pos
      have howned := hinv.owned pos
      refine ⟨?_, howned.ready, howned.todo⟩
      intro e he
      obtain ⟨e', he', rfl⟩ := List.mem_map.mp he
      exact howned.outstanding e' he'
    · cases hstep
  | serverShutdown =>
    simp only [step] at hstep
    split at hstep
    · cases hstep
      exact ⟨hinv.owned, fun pos hstop => Stop.noConfusion hstop,
        fun hstop => Stop.noConfusion hstop⟩
    · cases hstep
  | cqShutdown pos =>
    cases pos with
    | stream =>
      simp only [step] at hstep
      split at hstep
      · cases hstep
        have howned := hinv.owned .stream
        have hset := hinv.setCq .stream { s.cq .stream with shutdown := true }
          ⟨howned.outstanding, howned.ready, howned.todo⟩ fun _ => rfl
        refine ⟨hset.owned, ?_, fun hstop => by cases hstop⟩
        intro pos _
        rw [cq_setCq_self]
      · cases hstep
    | unary =>
      simp only [step] at hstep
      split at hstep
      · rename_i hstop
        split at hstep
        · cases hstep
          have howned := hinv.owned .unary
          have hset := hinv.setCq .unary { s.cq .unary with shutdown := true }
            ⟨howned.outstanding, howned.ready, howned.todo⟩ fun _ => rfl
          refine ⟨hset.owned, fun pos _ => hset.stream .stream hstop, fun _ => ?_⟩
          rw [cq_setCq_self]
        · cases hstep
      · cases hstep
  | pushProcess i ev =>
    cases hstep
    exact hinv.later (Later.of_unary_eq rfl rfl)
  | pushMain i ev =>
    cases hstep
    exact hinv.later (Later.of_unary_eq rfl rfl)
  | stopPoll i =>
    cases hstep
    exact hinv.later (Later.of_unary_eq rfl rfl)

/-! ## The work that is left -/

omit [DecidableEq ι] in
/-- A change of one queue changes the work that is left by what it changes there. -/
theorem work_setCq_le {pos : CqPos} {cq : Cq ι κ} {n m : Nat}
    (h : n + cq.work s.objs ≤ (s.cq pos).work s.objs + m) :
    n + (s.setCq pos cq).work ≤ s.work + m := by
  cases pos with
  | stream =>
    simp only [Sys.work, cq_setCq_self, cq_setCq_ne (show CqPos.unary ≠ .stream by decide)]
    simp only [Sys.setCq]
    omega
  | unary =>
    simp only [Sys.work, cq_setCq_self, cq_setCq_ne (show CqPos.stream ≠ .unary by decide)]
    simp only [Sys.setCq]
    omega

omit [DecidableEq ι] in
/-- Objects that only move on leave no more to do. -/
theorem work_later {o' : Objs ι κ} (h : ∀ pos, ∀ e ∈ (s.cq pos).ready, TagOk s.objs pos e.1)
    (hlater : Later s.objs o') : Sys.work { s with objs := o' } ≤ s.work := by
  have hstream := Cq.work_later (h .stream) hlater
  have hunary := Cq.work_later (h .unary) hlater
  simp only [Sys.work]
  omega

omit [DecidableEq ι] in
theorem eventWork_pos (o : Objs ι κ) (e : Tag ι κ × Bool) : 1 ≤ eventWork o e := by
  unfold eventWork
  split
  · split <;> decide
  · decide

omit [DecidableEq ι] in
/-- What completes while the server is down is an event to be taken, and no more. -/
theorem eventWork_completed {pos pos' : CqPos} {op : Op ι κ} {cancelled ok : Bool}
    (hstop : s.stop = .teardown pos') (hop : OpOk s.objs pos op)
    (hcan : canComplete s.stop op cancelled ok = true) :
    eventWork s.objs (op.tag, ok) = 1 ∧ ¬(op.isRequest = true ∧ ok = true) := by
  have hrequest : ¬(op.isRequest = true ∧ ok = true) := by
    rintro ⟨hreq, rfl⟩
    rw [hstop, canComplete, if_pos hreq] at hcan
    simp at hcan
  refine ⟨?_, hrequest⟩
  cases pos with
  | stream =>
    cases op with
    | unary h x => exact hop.elim
    | _ => rfl
  | unary =>
    cases op with
    | stream st op => exact hop.elim
    | poll i => exact hop.elim
    | unary h x =>
      cases x with
      | request =>
        cases ok with
        | false => rfl
        | true => exact absurd ⟨rfl, rfl⟩ hrequest
      | finish status =>
        cases ok with
        | false => rfl
        | true => simp [Op.tag, eventWork, hop.2]

/-- An event brings at most the work that was counted for it. -/
theorem handle_work (home : κ → ι) (turn : Turn κ) {pos : CqPos} {tag : Tag ι κ} {ok : Bool}
    (htag : TagOk s.objs pos tag) (hharmless : pos = .stream → Harmless s.objs ok tag) :
    3 * (handle home turn s.objs ok tag).2.length + 1 ≤ eventWork s.objs (tag, ok) := by
  cases pos with
  | stream =>
    have hnil := (handle_eq_nil_iff home turn s.objs ok tag).mpr (hharmless rfl)
    rw [hnil]
    exact eventWork_pos _ _
  | unary =>
    cases tag with
    | unary h => exact (processUnary_spec turn htag ok).2.2
    | _ => exact htag.elim

/-- `stop` is in one of the two calls of `teardown`. -/
def InTeardown (s : Sys ι κ) : Prop := ∃ pos, s.stop = .teardown pos

theorem step_inTeardown {l : Lbl ι κ} (h : InTeardown s) (hstep : step home s l = some s') :
    InTeardown s' := by
  obtain ⟨pos₀, hstop⟩ := h
  cases l with
  | complete pos k ok =>
    obtain ⟨op, cancelled, accepted, -, -, -, rfl⟩ := complete_eq hstep
    exact ⟨pos₀, hstop⟩
  | notifyDone st ok =>
    simp only [step] at hstep
    split at hstep
    · cases hstep
      exact ⟨pos₀, hstop⟩
    · cases hstep
  | next pos w turn =>
    cases step_moves hstep with
    | took hready hidle => exact ⟨pos₀, hstop⟩
    | other hl => exact hl.elim
  | go pos w =>
    cases step_moves hstep with
    | went htodo => exact ⟨pos₀, hstop⟩
    | other hl => exact hl.elim
  | cancelAllPendingTags => simp [step, hstop] at hstep
  | serverShutdown => simp [step, hstop] at hstep
  | cqShutdown pos =>
    cases step_moves hstep with
    | shut => exact ⟨pos, rfl⟩
    | other hl => exact hl.elim
  | pushProcess i ev =>
    cases hstep
    exact ⟨pos₀, hstop⟩
  | pushMain i ev =>
    cases hstep
    exact ⟨pos₀, hstop⟩
  | stopPoll i =>
    cases hstep
    exact ⟨pos₀, hstop⟩

/-- Each step of the server takes something off the work that is left. -/
theorem step_work {l : Lbl ι κ} (hinv : Settled s) (hdown : InTeardown s) (hcond : Orderly s l)
    (hstep : step home s l = some s') :
    (if l.byServer then 1 else 0) + s'.work ≤ s.work := by
  obtain ⟨pos₀, hstop⟩ := hdown
  have hready : ∀ pos, ∀ e ∈ (s.cq pos).ready, TagOk s.objs pos e.1 :=
    fun pos => (hinv.owned pos).ready
  cases l with
  | complete pos k ok =>
    obtain ⟨op, cancelled, accepted, hop, hcan, haccepted, rfl⟩ := complete_eq hstep
    have howned := (hinv.owned pos).outstanding _ (List.mem_of_getElem? hop)
    obtain ⟨hone, hrequest⟩ := eventWork_completed hstop howned hcan
    obtain rfl := haccepted.resolve_right hrequest
    have hk : k < (s.cq pos).outstanding.length := (List.getElem?_eq_some_iff.mp hop).1
    have hwork : 1 + Cq.work s.objs { s.cq pos with
        outstanding := (s.cq pos).outstanding.eraseIdx k
        ready := (s.cq pos).ready ++ [(op.tag, ok)] } ≤ (s.cq pos).work s.objs + 0 := by
      simp only [Cq.work, List.length_eraseIdx_of_lt hk, List.map_append, List.map_singleton,
        List.sum_append, List.sum_singleton, hone]
      omega
    exact work_setCq_le hwork
  | notifyDone st ok =>
    simp only [step] at hstep
    split at hstep
    · rename_i hst
      have hmem : st ∈ s.accepted := List.contains_iff_mem.mp hst
      have hlen := List.length_erase_of_mem hmem
      have hpos := List.length_pos_of_mem hmem
      cases hstep
      have hwork : 0 + Cq.work s.objs { s.cq .stream with
          ready := (s.cq .stream).ready ++ [(.done st, ok)] } ≤
            (s.cq .stream).work s.objs + 1 := by
        simp only [Cq.work, List.map_append, List.map_singleton, List.sum_append,
          List.sum_singleton, eventWork]
        omega
      have hset := work_setCq_le hwork
      simp only [Sys.work, Sys.setCq, Lbl.byServer, if_true, hlen] at hset ⊢
      omega
    · cases hstep
  | next pos w turn =>
    cases step_moves hstep with
    | @took _ _ _ tag ok ready hready hidle =>
      have hmem : (tag, ok) ∈ (s.cq pos).ready := by simp [hready]
      have htag : TagOk s.objs pos tag := (hinv.owned pos).ready _ hmem
      obtain ⟨hlater, -⟩ := handle_spec home turn s.objs ok htag
      have hharmless : pos = .stream → Harmless s.objs ok tag := by
        rintro rfl
        exact hcond (hinv.stream pos₀ hstop) (tag, ok) (by simp [hready])
      have hevent := handle_work home turn htag hharmless
      have hwork : 1 + Cq.work s.objs { s.cq pos with
          ready := ready
          todo := Function.update (s.cq pos).todo w (handle home turn s.objs ok tag).2 } ≤
            (s.cq pos).work s.objs + 0 := by
        simp only [Cq.work, hready, List.map_cons, List.sum_cons]
        cases w with
        | run =>
          rw [Function.update_self, Function.update_of_ne (by decide), hidle, List.length_nil]
          omega
        | teardown =>
          rw [Function.update_self, Function.update_of_ne (by decide), hidle, List.length_nil]
          omega
      -- the objects last: they leave no more to do for the events behind this one
      have hready' : ∀ pos', ∀ e ∈ ((s.setCq pos { s.cq pos with
          ready := ready
          todo := Function.update (s.cq pos).todo w (handle home turn s.objs ok tag).2 }).cq
            pos').ready, TagOk s.objs pos' e.1 := by
        intro pos' e he
        apply (hinv.owned pos').ready e
        by_cases hne : pos' = pos
        · subst hne
          rw [cq_setCq_self] at he
          rw [hready]
          exact List.mem_cons_of_mem _ he
        · rwa [cq_setCq_ne hne] at he
      exact Nat.le_trans (Nat.add_le_add_left (work_later hready' hlater) 1) (work_setCq_le hwork)
    | other hl => exact hl.elim
  | go pos w =>
    cases step_moves hstep with
    | @went _ _ op ops htodo =>
      have hwork : 1 + Cq.work s.objs { s.cq pos with
          outstanding := (s.cq pos).outstanding ++ [(op, false)]
          todo := Function.update (s.cq pos).todo w ops } ≤ (s.cq pos).work s.objs + 0 := by
        simp only [Cq.work, List.length_append, List.length_singleton]
        cases w with
        | run =>
          rw [Function.update_self, Function.update_of_ne (by decide), htodo, List.length_cons]
          omega
        | teardown =>
          rw [Function.update_self, Function.update_of_ne (by decide), htodo, List.length_cons]
          omega
      exact work_setCq_le hwork
    | other hl => exact hl.elim
  | cancelAllPendingTags => simp [step, hstop] at hstep
  | serverShutdown => simp [step, hstop] at hstep
  | cqShutdown pos =>
    cases pos with
    | stream => simp [step, hstop] at hstep
    | unary =>
      simp only [step] at hstep
      split at hstep
      · rename_i hstream
        split at hstep
        · cases hstep
          simp only [Sys.work, Sys.setCq, Function.update_self,
            Function.update_of_ne (show CqPos.stream ≠ .unary by decide), hstream, Stop.work,
            Cq.work, Lbl.byServer, if_true]
          omega
        · cases hstep
      · cases hstep
  | pushProcess i ev =>
    cases hstep
    exact (Nat.zero_add _).trans_le (work_later hready (Later.of_unary_eq rfl rfl))
  | pushMain i ev =>
    cases hstep
    exact (Nat.zero_add _).trans_le (work_later hready (Later.of_unary_eq rfl rfl))
  | stopPoll i =>
    cases hstep
    exact (Nat.zero_add _).trans_le (work_later hready (Later.of_unary_eq rfl rfl))

/-! ## The end -/

omit [DecidableEq ι] [LinearOrder κ] in
/-- Every operation can complete with one flag or the other. -/
theorem exists_canComplete (stop : Stop) (op : Op ι κ) (cancelled : Bool) :
    ∃ ok, canComplete stop op cancelled ok = true := by
  unfold canComplete
  split
  · exact ⟨false, rfl⟩
  · split
    · exact ⟨!cancelled, by simp⟩
    · exact ⟨true, rfl⟩

/-- If the server cannot take a step, nothing is left to do. -/
theorem returned_of_stuck [Infinite κ] (hinv : Settled s) (hdown : InTeardown s)
    (hstuck : ∀ l : Lbl ι κ, l.byServer = true → step home s l = none) : Returned s := by
  have htodo : ∀ pos w, (s.cq pos).todo w = [] := by
    intro pos w
    by_contra hne
    obtain ⟨s', hgo⟩ := step_go home hne
    rw [hstuck _ rfl] at hgo
    cases hgo
  have hready : ∀ pos, (s.cq pos).ready = [] := by
    intro pos
    cases hready : (s.cq pos).ready with
    | nil => rfl
    | cons e rest =>
      obtain ⟨fresh, hfresh⟩ := Infinite.exists_notMem_finset s.objs.born.toFinset
      have hborn : fresh ∉ s.objs.born := fun hmem => hfresh (List.mem_toFinset.mpr hmem)
      have hnext := hstuck (.next pos .run { fresh := fresh }) rfl
      simp only [step, hready, Sys.inNext, htodo, List.isEmpty_nil, Bool.not_true, Bool.false_or,
        List.contains_iff_mem, hborn, if_false] at hnext
      cases hnext
  have houtstanding : ∀ pos, (s.cq pos).outstanding = [] := by
    intro pos
    cases hop : (s.cq pos).outstanding with
    | nil => rfl
    | cons e rest =>
      obtain ⟨ok, hcan⟩ := exists_canComplete s.stop e.1 e.2
      have hcomplete := hstuck (.complete pos 0 ok) rfl
      simp only [step, hop, List.getElem?_cons_zero, hcan, Bool.not_true, Bool.false_eq_true,
        if_false] at hcomplete
      split at hcomplete
      · cases hcomplete
      · cases hcomplete
  have haccepted : s.accepted = [] := by
    cases hst : s.accepted with
    | nil => rfl
    | cons st rest =>
      have hdone := hstuck (.notifyDone st true) rfl
      simp [step, hst] at hdone
  have hstop : s.stop = .teardown .unary := by
    obtain ⟨pos, hstop⟩ := hdown
    cases pos with
    | unary => exact hstop
    | stream =>
      have hshut := hstuck (.cqShutdown .unary) rfl
      simp [step, hstop, Cq.drained, houtstanding, hready, htodo] at hshut
  refine ⟨hstop, haccepted, ?_, houtstanding, hready, htodo⟩
  intro pos
  cases pos with
  | stream => exact hinv.stream .unary hstop
  | unary => exact hinv.unary hstop

/-- The work that is left, on runs whose steps are orderly. -/
def stopRanking (home : κ → ι) (plugin : ι → PluginPtr) (first : κ) :
    (spec home plugin first).CountedRanking (fun s => Settled s ∧ InTeardown s) Orderly
      Lbl.byServer where
  rank := Sys.work
  keeps _ _ _ hinv _ hstep := ⟨step_settled hinv.1 hstep, step_inTeardown hinv.2 hstep⟩
  decreases _ _ _ hinv hcond hstep := step_work hinv.1 hinv.2 hcond hstep

theorem settled_of_run {plugin : ι → PluginPtr} {first : κ} {ls : List (Lbl ι κ)}
    (hrun : (spec home plugin first).run (init plugin first) ls = some s) : Settled s :=
  (spec home plugin first).run_invariant Settled (fun _ _ _ hinv hstep => step_settled hinv hstep)
    (init_settled plugin first) hrun

/-- From the moment `stop` is in `teardown`, the server takes no more steps than there was work
left then, if they are orderly; and where it can take no more, it waits for a `handleEvent`, or
nothing is left: the threads are out of `run`, and `stop` returns. -/
theorem stop_returns [Infinite κ] (home : κ → ι) (plugin : ι → PluginPtr) (first : κ)
    {ls ms : List (Lbl ι κ)} {s t : Sys ι κ}
    (hls : (spec home plugin first).run (init plugin first) ls = some s) (hdown : InTeardown s)
    (hms : (spec home plugin first).run s ms = some t)
    (horderly : (spec home plugin first).AllSteps (fun s l _ => Orderly s l) s ms) :
    ms.countP Lbl.byServer + t.work ≤ s.work ∧
      ((∃ l, l.byServer = true ∧ ¬ ReturnsStatus t l ∧
          (spec home plugin first).step t l ≠ none) ∨
        (∃ l, ReturnsStatus t l) ∨ Returned t) := by
  have hinv : Settled s := settled_of_run hls
  have hboth := (spec home plugin first).run_invariant (fun s => Settled s ∧ InTeardown s)
    (fun _ _ _ hinv hstep => ⟨step_settled hinv.1 hstep, step_inTeardown hinv.2 hstep⟩)
    ⟨hinv, hdown⟩ hms
  refine ⟨(stopRanking home plugin first).countP_add_le ⟨hinv, hdown⟩ horderly hms, ?_⟩
  by_cases hstuck : ∀ l : Lbl ι κ, l.byServer = true → step home t l = none
  · exact Or.inr (Or.inr (returned_of_stuck hboth.1 hboth.2 hstuck))
  · push Not at hstuck
    rcases hstuck with ⟨l, hserver, hstep⟩
    by_cases hreturns : ReturnsStatus t l
    · exact Or.inr (Or.inl ⟨l, hreturns⟩)
    · exact Or.inl ⟨l, hserver, hreturns, hstep⟩

/-- The request of the stream fails, and its handler is destroyed. -/
theorem stop_returns_idle : ∃ s t : Sys Unit Nat, InTeardown s ∧
    (spec (fun _ => ()) (fun _ => 1) 7).run s
      [.complete .stream 0 false, .next .stream .run { fresh := 8 }] = some t ∧
    2 + t.work ≤ s.work := by
  obtain ⟨s, hls⟩ : ∃ s, (spec (fun _ : Nat => ()) (fun _ => 1) 7).run (init (fun _ => 1) 7)
      [.cancelAllPendingTags, .serverShutdown, .cqShutdown .stream] = some s := ⟨_, rfl⟩
  obtain ⟨t, hms⟩ : ∃ t, (spec (fun _ : Nat => ()) (fun _ => 1) 7).run s
      [.complete .stream 0 false, .next .stream .run { fresh := 8 }] = some t := by
    cases hls
    exact ⟨_, rfl⟩
  have hdown : InTeardown s := by
    cases hls
    exact ⟨.stream, rfl⟩
  refine ⟨s, t, hdown, hms, (stop_returns _ _ 7 hls hdown hms ?_).1⟩
  cases hls
  intro s₁ hs₁
  cases hs₁
  refine ⟨trivial, ?_⟩
  intro s₂ hs₂
  refine ⟨?_, trivial⟩
  rintro - e he
  cases he
  exact rfl

end Steps

end ClapRci.Shutdown
