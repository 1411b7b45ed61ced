import Mathlib.Data.Nat.Basic
import Mathlib.Logic.Function.Basic
import ClapRci.Server.PollSharing
import ClapRci.Server.StreamLifetime

/-!
# The stream completion queue (`server/cqeventhandler.cpp`)

The `SharedData`s of all plugins, the streams of their clients, and the `CqEventHandler`
that runs their completions, their poll callbacks and the notifications of ended calls,
one at a time. A stream that is gone leaves its address to a new one, and what gRPC still
owes it is delivered to the object that is there by then.

* `applyEffects_spec`: what a handler does is seen by its own stream, and by the one it
  creates.
-/

namespace ClapRci.StreamCq

open ServerEventStream (Call ConnectResult Effect Op State)
open SharedData (StreamCall)

/-- The instances with their alarms, the keys of `pendingTags`, the last stream created at
each address with what gRPC owes it, and the instance it has connected to. -/
structure Sys (ι κ : Type) [LinearOrder κ] where
  polls : PollSharing.Sys ι κ
  pendingTags : OrdSet κ := OrdMap.empty
  calls : κ → Option Call := fun _ => none
  home : κ → Option ι := fun _ => none
  /-- The streams that were at an address before, with what gRPC owes them. -/
  earlier : κ → List Call := fun _ => []

/-- What the queue delivers: the completion of a stream's operation, with the outcome of
`connectClient`, the instance it leads to, the address a new stream would get and the handle
`tryStartPolling` would find; the notification that a call has ended; both for the `n`-th of
the earlier streams at an address; the alarm of a poll callback. And what the plugins do
meanwhile. -/
inductive Lbl (ι κ : Type) where
  | complete (st : κ) (k : Nat) (ok : Bool) (connect : ConnectResult) (i : ι) (fresh : κ)
    (cq : Option CqHandle)
  | done (st : κ)
  | late (st : κ) (n k : Nat) (ok : Bool) (fresh : κ)
  | lateDone (st : κ) (n : Nat)
  | pollCallback (tag : Nat) (ok : Bool)
  | pushProcess (i : ι) (ev : ServerEventWrapper)
  | pushMain (i : ι) (ev : ServerEventWrapper)
  | stopPoll (i : ι)

variable {ι κ : Type} [LinearOrder κ]

section Model

variable [DecidableEq ι]

/-- A call on an instance. None of those made here can fail. -/
def Sys.onData (s : Sys ι κ) (l : PollSharing.Lbl ι κ) : Sys ι κ :=
  { s with polls := (PollSharing.step s.polls l).getD s.polls }

/-- A call on the instance that a stream has connected to. -/
def Sys.onHome (s : Sys ι κ) (st : κ) (l : ι → PollSharing.Lbl ι κ) : Sys ι κ :=
  match s.home st with
  | none => s
  | some i => s.onData (l i)

/-- Change what is known of one stream. -/
def Sys.modifyCall (s : Sys ι κ) (st : κ) (f : Call → Call) : Sys ι κ :=
  { s with calls := Function.update s.calls st ((s.calls st).map f) }

/-- Change what is known of one of the earlier streams. -/
def Sys.setEarlier (s : Sys ι κ) (st : κ) (n : Nat) (c : Call) : Sys ι κ :=
  { s with earlier := Function.update s.earlier st ((s.earlier st).set n c) }

/-- Carry out an effect of the stream `st`; `i` is the instance whose hash its client sends. -/
def applyEffect (i : Option ι) (fresh : κ) (cq : Option CqHandle) (st : κ) (s : Sys ι κ) :
    Effect → Sys ι κ
  | .start op => s.modifyCall st fun c => c.start op
  | .create =>
    { s with
      calls := Function.update s.calls fresh (some {})
      home := Function.update s.home fresh none
      earlier := Function.update s.earlier fresh (s.earlier fresh ++ (s.calls fresh).toList)
      pendingTags := (s.pendingTags.insert fresh).2 }
  | .addStream =>
    Sys.onHome { s with home := Function.update s.home st i } st fun i => .addStream i st
  | .tryStartPolling => s.onHome st fun i => .tryStartPolling i cq
  | .removeStream => s.onHome st fun i => .removeStream i st
  | .destroyTag => { s with pendingTags := (s.pendingTags.erase st).2 }

/-- Carry out the effects of a handler in order. -/
def applyEffects (i : Option ι) (fresh : κ) (cq : Option CqHandle) (st : κ) (s : Sys ι κ)
    (effs : List Effect) : Sys ι κ :=
  effs.foldl (applyEffect i fresh cq st) s

/-- The stream behind an address. -/
def Sys.obj (s : Sys ι κ) (st : κ) : ServerEventStream :=
  match s.calls st with
  | none => {}
  | some c => c.obj

/-- The object at `st` processes a completion. -/
def Sys.process (s : Sys ι κ) (st : κ) (ok : Bool) (connect : ConnectResult) (i : Option ι)
    (fresh : κ) (cq : Option CqHandle) : Sys ι κ :=
  let (obj, effs) := (s.obj st).process ok connect
  applyEffects i fresh cq st (s.modifyCall st fun c => { c with obj := obj }) effs

/-- What a call of the poll callback does to a stream, and its effects. -/
def callEffects (obj : ServerEventStream) : StreamCall → ServerEventStream × List Effect
  | .endStream => obj.endStream.2
  | .sendEvents evs => (obj.sendEvents evs).2

/-- A call of the poll callback on the object at an address. Where there is none nothing
happens here; the code would follow a dangling pointer. -/
def applyCall (s : Sys ι κ) (call : κ × StreamCall) : Sys ι κ :=
  if s.pendingTags.contains call.1 then
    let (obj, effs) := callEffects (s.obj call.1) call.2
    applyEffects none call.1 none call.1 (s.modifyCall call.1 fun c => { c with obj := obj }) effs
  else s

/-- One step. -/
def step (s : Sys ι κ) : Lbl ι κ → Option (Sys ι κ)
  | .complete st k ok connect i fresh cq =>
    match (s.calls st).bind fun c => c.complete k ok with
    | none => none
    | some c =>
      if s.pendingTags.contains fresh then none
      else
        let s := s.modifyCall st fun _ => c
        some (if s.pendingTags.contains st then s.process st ok connect (some i) fresh cq else s)
  | .done st =>
    match s.calls st with
    | none => none
    | some c =>
      if c.done = .outstanding then
        some (s.modifyCall st fun c => { c with
          done := .delivered
          obj := if s.pendingTags.contains st then c.obj.onDone else c.obj })
      else none
  | .late st n k ok fresh =>
    match (s.earlier st)[n]?.bind fun c => c.complete k ok with
    | none => none
    | some c =>
      if s.pendingTags.contains fresh then none
      else
        let s := s.setEarlier st n c
        -- the call of the object there has not come if it still connects, and has no metadata
        some (if s.pendingTags.contains st then s.process st ok .rejected none fresh none else s)
  | .lateDone st n =>
    match (s.earlier st)[n]? with
    | none => none
    | some c =>
      if c.done = .outstanding then
        let s := s.setEarlier st n { c with done := .delivered }
        -- the function has captured nothing but the address
        some (if s.pendingTags.contains st then
          s.modifyCall st fun c => { c with obj := c.obj.onDone } else s)
      else none
  | .pollCallback tag ok =>
    -- the streams are called as the members were before; no call reads what `polls` changes
    match s.polls.alarms.next tag, PollSharing.step s.polls (.pollCallback tag ok s.obj) with
    | some (i, _), some polls =>
      let calls := ((s.polls.data i).pollCallback ok s.obj).calls
      some { calls.foldl applyCall s with polls := polls }
    | _, _ => none
  | .pushProcess i ev => some (s.onData (.pushProcess i ev))
  | .pushMain i ev => some (s.onData (.pushMain i ev))
  | .stopPoll i => some (s.onData (.stopPoll i))

/-- `Server::start()` has created the first stream on the queue. -/
def init (plugin : ι → PluginPtr) (first : κ) : Sys ι κ where
  polls := PollSharing.init κ plugin
  pendingTags := (OrdSet.insert OrdMap.empty first).2
  calls := Function.update (fun _ => none) first (some {})

/-- The stream completion queue. -/
def spec (plugin : ι → PluginPtr) (first : κ) : ActionSystem.Spec (Sys ι κ) (Lbl ι κ) where
  Init s := s = init plugin first
  step := step

end Model

/-! ## One stream of many -/

/-- Whether the set of the instance that a stream has connected to holds it. -/
def Sys.inSet (s : Sys ι κ) (st : κ) : Bool :=
  (s.home st).any fun i => (s.polls.data i).streams.contains st

/-- The stream `st` with the sets that hold it. -/
def Sys.view (s : Sys ι κ) (st : κ) : Option ServerEventStream.Sys :=
  (s.calls st).map fun c => ⟨c, s.pendingTags.contains st, s.inSet st⟩

/-- Only addresses where a stream was created are in a set; each tag has its alarm. -/
structure QueueInv (s : Sys ι κ) : Prop where
  pendingTags : ∀ st, s.pendingTags.contains st = true → s.calls st ≠ none
  streams : ∀ i st, (s.polls.data i).streams.contains st = true → s.calls st ≠ none
  alarms : s.polls.alarms.Inv []

section View

variable {s : Sys ι κ} {st : κ}

theorem inSet_congr {s s' : Sys ι κ} {j : κ} (hhome : s'.home j = s.home j)
    (hstreams : ∀ i, (s'.polls.data i).streams.contains j = (s.polls.data i).streams.contains j) :
    s'.inSet j = s.inSet j := by
  unfold Sys.inSet
  rw [hhome]
  cases s.home j with
  | none => rfl
  | some i => exact hstreams i

/-- Two states in which a stream is known alike and held alike. -/
theorem view_congr {s s' : Sys ι κ} {j : κ} (hcalls : s'.calls j = s.calls j)
    (htag : s'.pendingTags.contains j = s.pendingTags.contains j)
    (hin : s'.inSet j = s.inSet j) : s'.view j = s.view j := by
  unfold Sys.view
  rw [hcalls, htag, hin]

/-- What is known of a stream with this view. -/
theorem view_eq_some {v : ServerEventStream.Sys} :
    s.view st = some v ↔ s.calls st = some v.call ∧
      s.pendingTags.contains st = v.pendingTag ∧ s.inSet st = v.inStreams := by
  rcases v with ⟨c, tag, ins⟩
  cases h : s.calls st with
  | none => simp [Sys.view, h]
  | some c' => simp [Sys.view, h]

theorem view_of_calls {c : Call} (hc : s.calls st = some c) :
    s.view st = some ⟨c, s.pendingTags.contains st, s.inSet st⟩ :=
  view_eq_some.mpr ⟨hc, rfl, rfl⟩

theorem view_eq_none : s.view st = none ↔ s.calls st = none := Option.map_eq_none_iff

theorem view_modifyCall_self (f : Call → Call) :
    (s.modifyCall st f).view st = (s.view st).map fun v => { v with call := f v.call } := by
  cases h : s.calls st <;> simp [Sys.view, Sys.modifyCall, Sys.inSet, h]

theorem view_modifyCall_ne {j : κ} (hne : j ≠ st) (f : Call → Call) :
    (s.modifyCall st f).view j = s.view j :=
  view_congr (Function.update_of_ne hne _ _) rfl rfl

theorem modifyCall_calls_ne_none (st : κ) (f : Call → Call) {j : κ} (hj : s.calls j ≠ none) :
    (s.modifyCall st f).calls j ≠ none := by
  by_cases hne : j = st
  · subst hne
    simpa [Sys.modifyCall] using hj
  · simpa [Sys.modifyCall, hne] using hj

theorem QueueInv.modifyCall (h : QueueInv s) (st : κ) (f : Call → Call) :
    QueueInv (s.modifyCall st f) where
  pendingTags j hj := modifyCall_calls_ne_none st f (h.pendingTags j hj)
  streams i j hj := modifyCall_calls_ne_none st f (h.streams i j hj)
  alarms := h.alarms

theorem QueueInv.setEarlier (h : QueueInv s) (st : κ) (n : Nat) (c : Call) :
    QueueInv (s.setEarlier st n c) := ⟨h.pendingTags, h.streams, h.alarms⟩

@[simp] theorem view_setEarlier (j : κ) (n : Nat) (c : Call) :
    (s.setEarlier st n c).view j = s.view j := rfl

variable [DecidableEq ι]

/-- A call on an instance that touches no set of streams. -/
theorem onData_frame (h : s.polls.alarms.Inv []) {l : PollSharing.Lbl ι κ}
    (hl : l.changesStreams = false) :
    (s.onData l).polls.alarms.Inv [] ∧
      ∀ i, ((s.onData l).polls.data i).streams = (s.polls.data i).streams := by
  unfold Sys.onData
  cases hstep : PollSharing.step s.polls l with
  | none => exact ⟨h, fun _ => rfl⟩
  | some p => exact PollSharing.step_frame h hl hstep

theorem QueueInv.onData (h : QueueInv s) {l : PollSharing.Lbl ι κ}
    (hl : l.changesStreams = false) :
    QueueInv (s.onData l) ∧ ∀ j, (s.onData l).view j = s.view j := by
  rcases onData_frame h.alarms hl with ⟨halarms, hstreams⟩
  constructor
  · refine ⟨h.pendingTags, ?_, halarms⟩
    intro i j hj
    rw [hstreams] at hj
    exact h.streams i j hj
  · intro j
    exact view_congr rfl rfl (inSet_congr rfl fun i => by rw [hstreams])

/-- The call to start polling, which the instance may not be there for. -/
theorem QueueInv.tryStartPolling (h : QueueInv s) (st : κ) (cq : Option CqHandle) :
    QueueInv (s.onHome st fun i => .tryStartPolling i cq) ∧
      ∀ j, (s.onHome st fun i => .tryStartPolling i cq).view j = s.view j := by
  unfold Sys.onHome
  split
  · exact ⟨h, fun _ => rfl⟩
  · exact h.onData rfl

theorem contains_addStream (s : Sys ι κ) (i : ι) (st : κ) (j : ι) (k : κ) :
    ((s.onData (.addStream i st)).polls.data j).streams.contains k =
      (decide (j = i ∧ k = st) || (s.polls.data j).streams.contains k) := by
  show ((s.polls.setData i ((s.polls.data i).addStream st).2).data j).streams.contains k = _
  by_cases hj : j = i
  · subst hj
    rw [PollSharing.setData_self]
    by_cases hk : k = st
    · subst hk
      simp only [and_self, decide_true, Bool.true_or]
      exact OrdMap.contains_emplace_self
    · simp only [hk, and_false, decide_false, Bool.false_or]
      exact OrdMap.contains_emplace_ne hk
  · rw [PollSharing.setData_ne hj]
    simp [hj]

theorem contains_removeStream (s : Sys ι κ) (i : ι) (st : κ) (j : ι) (k : κ) :
    ((s.onData (.removeStream i st)).polls.data j).streams.contains k =
      (!decide (j = i ∧ k = st) && (s.polls.data j).streams.contains k) := by
  show ((s.polls.setData i ((s.polls.data i).removeStream st).2).data j).streams.contains k = _
  by_cases hj : j = i
  · subst hj
    rw [PollSharing.setData_self]
    by_cases hk : k = st
    · subst hk
      simp only [and_self, decide_true, Bool.not_true, Bool.false_and]
      exact OrdMap.contains_erase_self
    · simp only [hk, and_false, decide_false, Bool.not_false, Bool.true_and]
      exact OrdMap.contains_erase_ne hk
  · rw [PollSharing.setData_ne hj]
    simp [hj]

/-- `connectClient` puts the stream into the set of the instance. -/
theorem inSet_addStream (i : ι) (fresh : κ) (cq : Option CqHandle) (j : κ) :
    (applyEffect (some i) fresh cq st s .addStream).inSet j = (decide (j = st) || s.inSet j) := by
  have hhome : applyEffect (some i) fresh cq st s .addStream =
      Sys.onData { s with home := Function.update s.home st (some i) } (.addStream i st) := by
    simp [applyEffect, Sys.onHome]
  rw [hhome]
  by_cases hj : j = st
  · subst hj
    have hin := contains_addStream { s with home := Function.update s.home j (some i) } i j i j
    simpa [Sys.inSet, Sys.onData] using hin
  · rw [decide_eq_false hj, Bool.false_or]
    refine inSet_congr (Function.update_of_ne hj _ _) ?_
    intro i'
    rw [contains_addStream]
    simp [hj]

/-- `kill` takes it out of there. -/
theorem inSet_removeStream (i : Option ι) (fresh : κ) (cq : Option CqHandle) (j : κ) :
    (applyEffect i fresh cq st s .removeStream).inSet j = (!decide (j = st) && s.inSet j) := by
  cases hhome : s.home st with
  | none =>
    have hsame : applyEffect i fresh cq st s .removeStream = s := by
      simp [applyEffect, Sys.onHome, hhome]
    rw [hsame]
    by_cases hj : j = st
    · subst hj
      simp [Sys.inSet, hhome]
    · simp [hj]
  | some i' =>
    have hdata : applyEffect i fresh cq st s .removeStream = s.onData (.removeStream i' st) := by
      simp [applyEffect, Sys.onHome, hhome]
    rw [hdata]
    by_cases hj : j = st
    · subst hj
      have hin := contains_removeStream s i' j i' j
      simpa [Sys.inSet, Sys.onData, hhome] using hin
    · rw [decide_eq_false hj, Bool.not_false, Bool.true_and]
      refine inSet_congr rfl ?_
      intro i''
      rw [contains_removeStream]
      simp [hj]

/-- What an effect does to what is known of the streams, and which of them are held. -/
theorem applyEffect_calls_tags (i : Option ι) (fresh : κ) (cq : Option CqHandle) {eff : Effect}
    (heff : eff = .addStream ∨ eff = .removeStream) :
    (applyEffect i fresh cq st s eff).calls = s.calls ∧
      (applyEffect i fresh cq st s eff).pendingTags = s.pendingTags := by
  rcases heff with rfl | rfl
  all_goals
    simp only [applyEffect, Sys.onHome]
    split <;> exact ⟨rfl, rfl⟩

/-- An effect of a stream, on this stream. -/
theorem view_applyEffect_self (h : QueueInv s) {i : Option ι} (fresh : κ) (cq : Option CqHandle)
    {eff : Effect} (hfresh : eff = .create → fresh ≠ st) (hadd : eff = .addStream → i ≠ none) :
    (applyEffect i fresh cq st s eff).view st = (s.view st).map fun v => v.apply eff := by
  cases eff with
  | start op => exact view_modifyCall_self _
  | create =>
    have hmap : ((s.view st).map fun v => v.apply .create) = s.view st := by
      cases s.view st <;> rfl
    have hne := (hfresh rfl).symm
    rw [hmap]
    apply view_congr
    · exact Function.update_of_ne hne _ _
    · exact OrdMap.contains_emplace_ne hne
    · exact inSet_congr (Function.update_of_ne hne _ _) fun _ => rfl
  | addStream =>
    rcases Option.ne_none_iff_exists'.mp (hadd rfl) with ⟨i, rfl⟩
    rcases @applyEffect_calls_tags _ _ _ s st _ (some i) fresh cq _ (Or.inl rfl) with
      ⟨hcalls, htags⟩
    unfold Sys.view
    rw [hcalls, htags, inSet_addStream]
    cases s.calls st <;> simp [ServerEventStream.Sys.apply]
  | tryStartPolling =>
    have hmap : ((s.view st).map fun v => v.apply .tryStartPolling) = s.view st := by
      cases s.view st <;> rfl
    rw [hmap]
    exact (h.tryStartPolling st cq).2 st
  | removeStream =>
    rcases @applyEffect_calls_tags _ _ _ s st _ i fresh cq _ (Or.inr rfl) with ⟨hcalls, htags⟩
    unfold Sys.view
    rw [hcalls, htags, inSet_removeStream]
    cases s.calls st <;> simp [ServerEventStream.Sys.apply]
  | destroyTag =>
    have hin : (s.pendingTags.erase st).2.contains st = false := OrdMap.contains_erase_self
    cases hc : s.calls st <;>
      simp [applyEffect, Sys.view, Sys.inSet, ServerEventStream.Sys.apply, hc, hin]

/-- An effect of a stream, on another one that it does not create. -/
theorem view_applyEffect_ne (h : QueueInv s) {i : Option ι} (fresh : κ) {j : κ} (hne : j ≠ st)
    (cq : Option CqHandle) {eff : Effect} (hfresh : eff = .create → j ≠ fresh)
    (hadd : eff = .addStream → i ≠ none) :
    (applyEffect i fresh cq st s eff).view j = s.view j := by
  cases eff with
  | start op => exact view_modifyCall_ne hne _
  | create =>
    apply view_congr
    · exact Function.update_of_ne (hfresh rfl) _ _
    · exact OrdMap.contains_emplace_ne (hfresh rfl)
    · exact inSet_congr (Function.update_of_ne (hfresh rfl) _ _) fun _ => rfl
  | addStream =>
    rcases Option.ne_none_iff_exists'.mp (hadd rfl) with ⟨i, rfl⟩
    rcases @applyEffect_calls_tags _ _ _ s st _ (some i) fresh cq _ (Or.inl rfl) with
      ⟨hcalls, htags⟩
    refine view_congr (by rw [hcalls]) (by rw [htags]) ?_
    rw [inSet_addStream]
    simp [hne]
  | tryStartPolling => exact (h.tryStartPolling st cq).2 j
  | removeStream =>
    rcases @applyEffect_calls_tags _ _ _ s st _ i fresh cq _ (Or.inr rfl) with ⟨hcalls, htags⟩
    refine view_congr (by rw [hcalls]) (by rw [htags]) ?_
    rw [inSet_removeStream]
    simp [hne]
  | destroyTag => exact view_congr rfl (OrdMap.contains_erase_ne hne) rfl

/-- The stream that is created. -/
theorem view_applyEffect_create (i : Option ι) (fresh : κ) (cq : Option CqHandle) :
    (applyEffect i fresh cq st s .create).view fresh = some {} := by
  have htag : (s.pendingTags.insert fresh).2.contains fresh = true := OrdMap.contains_emplace_self
  simp [Sys.view, applyEffect, htag, Sys.inSet]

/-- Effects forget no stream. -/
theorem applyEffect_calls_ne_none (i : Option ι) (fresh : κ) (cq : Option CqHandle) (st : κ)
    (eff : Effect) {j : κ} (hj : s.calls j ≠ none) :
    (applyEffect i fresh cq st s eff).calls j ≠ none := by
  cases eff with
  | start op => exact modifyCall_calls_ne_none st _ hj
  | create =>
    by_cases hne : j = fresh
    · subst hne
      simp [applyEffect]
    · simpa [applyEffect, hne] using hj
  | destroyTag => exact hj
  | _ =>
    simp only [applyEffect, Sys.onHome]
    split <;> exact hj

theorem QueueInv.applyEffect (h : QueueInv s) (i : Option ι) (fresh : κ) (cq : Option CqHandle)
    (hst : s.calls st ≠ none) (eff : Effect) :
    QueueInv (applyEffect i fresh cq st s eff) := by
  have hcalls := fun j (hj : s.calls j ≠ none) =>
    applyEffect_calls_ne_none i fresh cq st eff hj
  cases eff with
  | start op => exact h.modifyCall st _
  | create =>
    refine ⟨?_, fun i j hj => hcalls j (h.streams i j hj), h.alarms⟩
    intro j hj
    rcases OrdMap.mem_keys_emplace.mp (OrdMap.contains_iff.mp hj) with rfl | hj
    · simp [StreamCq.applyEffect]
    · exact hcalls j (h.pendingTags j (OrdMap.contains_iff.mpr hj))
  | addStream =>
    simp only [StreamCq.applyEffect, Sys.onHome]
    split
    · exact ⟨h.pendingTags, h.streams, h.alarms⟩
    · rename_i i' hhome
      refine ⟨h.pendingTags, ?_, h.alarms⟩
      intro i'' j hj
      have hor := (contains_addStream _ i' st i'' j).symm.trans hj
      rw [Bool.or_eq_true, decide_eq_true_eq] at hor
      rcases hor with ⟨rfl, rfl⟩ | hj
      · exact hst
      · exact h.streams i'' j hj
  | tryStartPolling => exact (h.tryStartPolling st cq).1
  | removeStream =>
    simp only [StreamCq.applyEffect, Sys.onHome]
    split
    · exact h
    · rename_i i' hhome
      refine ⟨h.pendingTags, ?_, h.alarms⟩
      intro i'' j hj
      have hand := (contains_removeStream s i' st i'' j).symm.trans hj
      rw [Bool.and_eq_true] at hand
      exact h.streams i'' j hand.2
  | destroyTag =>
    refine ⟨?_, h.streams, h.alarms⟩
    intro j hj
    have hmem := (OrdMap.mem_keys_erase.mp (OrdMap.contains_iff.mp hj)).1
    exact h.pendingTags j (OrdMap.contains_iff.mpr hmem)

/-- All effects of a handler: on the stream they are what they are on it alone, other
streams see nothing of them, and one may be created. -/
theorem applyEffects_spec {i : Option ι} (fresh : κ) (cq : Option CqHandle) (effs : List Effect)
    (hfresh : .create ∈ effs → fresh ≠ st) (hadd : .addStream ∈ effs → i ≠ none)
    (h : QueueInv s) (hst : s.calls st ≠ none) :
    QueueInv (applyEffects i fresh cq st s effs) ∧
      (applyEffects i fresh cq st s effs).view st = ((s.view st).map fun v => v.applyAll effs) ∧
      ∀ j, j ≠ st → (applyEffects i fresh cq st s effs).view j =
        if j = fresh ∧ .create ∈ effs then some {} else s.view j := by
  -- effect by effect, each by its lemma for the stream, the others and the new one
  induction effs generalizing s with
  | nil =>
    refine ⟨h, ?_, fun j _ => by simp [applyEffects]⟩
    cases hv : s.view st <;> simp [applyEffects, ServerEventStream.Sys.applyAll, hv]
  | cons eff effs ih =>
    have h' := h.applyEffect i fresh cq hst eff
    have hst' := applyEffect_calls_ne_none i fresh cq st eff hst
    have hadd' : eff = .addStream → i ≠ none := fun heq => hadd (heq ▸ List.mem_cons_self)
    rcases ih (fun hmem => hfresh (List.mem_cons_of_mem _ hmem))
      (fun hmem => hadd (List.mem_cons_of_mem _ hmem)) h' hst' with ⟨hinv, hself, hother⟩
    refine ⟨hinv, ?_, ?_⟩
    · refine hself.trans ?_
      rw [view_applyEffect_self h fresh cq (fun heq => hfresh (heq ▸ List.mem_cons_self)) hadd']
      cases s.view st <;> rfl
    · intro j hj
      refine (hother j hj).trans ?_
      by_cases hnew : j = fresh ∧ eff = .create
      · rcases hnew with ⟨rfl, rfl⟩
        rw [view_applyEffect_create]
        simp
      · rw [view_applyEffect_ne h fresh hj cq (fun heq hjf => hnew ⟨hjf, heq⟩) hadd']
        by_cases hjf : j = fresh
        · have hne : ¬ Effect.create = eff := fun heq => hnew ⟨hjf, heq.symm⟩
          simp [hjf, hne]
        · simp [hjf]

end View

end ClapRci.StreamCq
