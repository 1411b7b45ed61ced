import ClapRci.Server.StreamCqRuns
import ClapRci.Server.UnaryCalls

/-!
# Waiting for the next client (`server/server.cpp`, `server/cqeventhandler.cpp`)

There is no loop that accepts calls: `Server::start` creates one handler of each kind, and
each handler creates its successor when its call comes.

`accept_loop`: until a request of its kind fails, one unary handler of each kind waits with its
request outstanding, and exactly one stream does if no event of a stream that is gone reaches
the one that waits at its address; every call is answered once its `handleEvent` has returned.
-/

namespace ClapRci

namespace StreamCq

open ServerEventStream (Call ConnectResult HeldInv)

variable {ι κ : Type} [LinearOrder κ]

/-- The stream is alive, and its request is outstanding. -/
def Waits (s : Sys ι κ) (st : κ) : Prop :=
  s.pendingTags.contains st = true ∧ ∃ c, s.calls st = some c ∧ .request ∈ c.outstanding

/-- Exactly one stream waits. -/
def OneWaits (s : Sys ι κ) : Prop := ∃ st, Waits s st ∧ ∀ j, Waits s j → j = st

/-- A request completes with `ok = false`. -/
def FailsRequest (s : Sys ι κ) : Lbl ι κ → Prop
  | .complete st k ok _ _ _ _ =>
    ok = false ∧ ∃ c, s.calls st = some c ∧ c.outstanding[k]? = some .request
  | _ => False

/-- The condition on a step: the completion of a request finds its stream in `CONNECT`, where
nothing but the notification that another one's call has ended takes it from, and no completion
of a stream that is gone is delivered to one that waits. -/
def Undisturbed (s : Sys ι κ) : Lbl ι κ → Prop
  | .complete st k _ _ _ _ _ => ∀ c, s.pendingTags.contains st = true → s.calls st = some c →
      c.outstanding[k]? = some .request → c.obj.state = .CONNECT
  | .late st _ _ _ _ => ¬ Waits s st
  | _ => True

/-! ## One stream -/

/-- The stream waits, alone. -/
def Waiting (v : ServerEventStream.Sys) : Prop :=
  v.pendingTag = true ∧ .request ∈ v.call.outstanding

section Turns

variable {s : Sys ι κ} {l : Lbl ι κ} {st : κ} {v v' : ServerEventStream.Sys}

theorem waits_iff : Waits s st ↔ ∃ v, s.view st = some v ∧ Waiting v := by
  constructor
  · rintro ⟨htag, c, hc, hreq⟩
    exact ⟨_, view_of_calls hc, htag, hreq⟩
  · rintro ⟨v, hv, htag, hreq⟩
    rcases view_eq_some.mp hv with ⟨hc, htag', -⟩
    exact ⟨htag'.trans htag, v.call, hc, hreq⟩

/-- A stream that waits is in `CONNECT`, or in `FINISH`. -/
theorem finish_of_waiting (hheld : HeldInv v) (h : Waiting v)
    (hstate : v.call.obj.state ≠ .CONNECT) : v.call.obj.state = .FINISH := by
  have hshared := hheld.request h.2
  cases hs : v.call.obj.state with
  | CONNECT => exact absurd hs hstate
  | WRITE => cases (hheld.connected (Or.inl hs)).symm.trans hshared
  | DISCONNECT => cases (hheld.connected (Or.inr hs)).symm.trans hshared
  | FINISH => rfl

/-- A stream that waits is not called. -/
theorem called_of_waiting (hheld : HeldInv v) (h : Waiting v) (call : SharedData.StreamCall) :
    called v call = v := by
  have hne : v.call.obj.state ≠ .WRITE := by
    intro hs
    cases (hheld.connected (Or.inl hs)).symm.trans (hheld.request h.2)
  cases call with
  | endStream => rw [called_endStream, if_neg hne]
  | sendEvents evs => rw [called_sendEvents, if_neg hne]

/-- No completion makes a stream wait that did not. -/
theorem waiting_of_complete {k : Nat} {ok : Bool} {connect : ConnectResult}
    (hstep : ServerEventStream.step v (.complete k ok connect) = some v') (h : Waiting v') :
    Waiting v := by
  have hkept {c : Call} (hc : v.call.complete k ok = some c) (hmem : .request ∈ c.outstanding) :
      .request ∈ v.call.outstanding := by
    rcases Call.complete_spec hc with ⟨op, -, rfl⟩
    exact List.mem_of_mem_eraseIdx hmem
  rcases h with ⟨htag, hreq⟩
  cases ServerEventStream.step_moves hstep with
  | stale hc hgone => cases hgone.symm.trans htag
  | refused | finished => cases htag
  | connected hc | written hc => exact ⟨htag, hkept hc hreq⟩
  | rejected hc | orphaned hc | writeFailed hc | disconnected hc =>
    refine ⟨htag, hkept hc ?_⟩
    simpa using hreq
  | notSent hl => exact absurd rfl (hl k ok connect)

/-- Nor does any other turn. -/
theorem Turn.waiting (hturn : Turn s l st v v') (h : Waiting v') : Waiting v := by
  cases hturn with
  | complete hstep => exact waiting_of_complete hstep h
  | done hstep =>
    cases ServerEventStream.step_moves hstep with
    | done | staleDone => exact h
    | notSent _ hne => exact absurd rfl hne
  | @late _ _ _ ok _ _ htag =>
    have hstrays := processed_strays v ok
    generalize processed v ok .rejected = v' at hstrays h
    rcases h with ⟨htag', hreq⟩
    cases hstrays with
    | refused | finished => cases htag'
    | written => exact ⟨htag, hreq⟩
    | rejected | writeFailed | disconnected =>
      refine ⟨htag, ?_⟩
      simpa using hreq
  | lateDone htag => exact h
  | endStream hnext hmem htag =>
    refine ⟨htag, ?_⟩
    have hreq := h.2
    rw [called_endStream] at hreq
    split at hreq
    · simpa using hreq
    · exact hreq
  | @sendEvents _ _ _ _ _ evs _ hnext hends hev hmem htag =>
    refine ⟨htag, ?_⟩
    have hreq := h.2
    rw [called_sendEvents] at hreq
    split at hreq
    · simpa using hreq
    · exact hreq

/-- Once its request has completed, a stream does not wait again. -/
theorem not_waiting_of_complete {k : Nat} {ok : Bool} {connect : ConnectResult}
    (hstep : ServerEventStream.step v (.complete k ok connect) = some v')
    (halone : v.call.outstanding = [.request]) : ¬ Waiting v' := by
  have hnone {c : Call} (hc : v.call.complete k ok = some c) : c.outstanding = [] := by
    rcases Call.complete_spec hc with ⟨op, hop, rfl⟩
    rw [halone] at hop ⊢
    cases k with
    | zero => rfl
    | succ k => simp at hop
  rintro ⟨htag, hreq⟩
  cases ServerEventStream.step_moves hstep with
  | stale hc hgone => cases hgone.symm.trans htag
  | refused | finished => cases htag
  | connected hc | written hc | rejected hc | orphaned hc | writeFailed hc | disconnected hc =>
    simp [hnone hc] at hreq
  | notSent hl => exact absurd rfl (hl k ok connect)

/-- A stream that waits alone goes on to do so, unless its request completes, and it creates
its successor. -/
theorem Turn.waiting_cases (hturn : Turn s l st v v') (hv : s.view st = some v)
    (hheld : HeldInv v) (h : Waiting v) (halone : v.call.outstanding = [.request])
    (hok : ¬ FailsRequest s l) (hcond : Undisturbed s l) :
    Waiting v' ∧ v'.call.outstanding = [.request] ∨
      ¬ Waiting v' ∧ ∃ j, Creates s l j := by
  rcases view_eq_some.mp hv with ⟨hcall, htag, -⟩
  cases hturn with
  | @complete _ k ok connect i fresh cq _ _ hstep =>
    -- nothing but its request can complete
    right
    have hop : v.call.outstanding[k]? = some .request := by
      cases k with
      | zero => rw [halone]; rfl
      | succ k => simp [ServerEventStream.step, Call.complete, halone] at hstep
    have hlive := htag.trans h.1
    refine ⟨not_waiting_of_complete hstep halone, fresh, rfl, ?_, hlive, ?_⟩
    · by_contra hfail
      exact hok ⟨Bool.eq_false_iff.mpr hfail, v.call, hcall, hop⟩
    · rw [obj_of_view hv]
      exact hcond v.call hlive hcall hop
  | done hstep =>
    left
    cases ServerEventStream.step_moves hstep with
    | done | staleDone => exact ⟨h, halone⟩
    | notSent _ hne => exact absurd rfl hne
  | late htag' => exact absurd (waits_iff.mpr ⟨v, hv, h⟩) hcond
  | lateDone htag' => exact Or.inl ⟨h, halone⟩
  | endStream hnext hmem htag' =>
    rw [called_of_waiting hheld h]
    exact Or.inl ⟨h, halone⟩
  | sendEvents hnext hends hev hmem htag' =>
    rw [called_of_waiting hheld h]
    exact Or.inl ⟨h, halone⟩

end Turns

/-! ## The stream that waits -/

/-- What holds while exactly one stream waits and nothing disturbs it. -/
structure WaitInv (s : Sys ι κ) : Prop where
  queue : QueueInv s
  streams : ∀ st v, s.view st = some v → HeldInv v
  /-- While a stream waits it has nothing but its request outstanding. -/
  alone : ∀ st v, s.view st = some v → Waiting v → v.call.outstanding = [.request]
  one : OneWaits s

theorem init_waitInv (plugin : ι → PluginPtr) (first : κ) : WaitInv (init plugin first) where
  queue := init_queueInv plugin first
  streams st v hv := by
    rw [init_view hv]
    exact ServerEventStream.init_heldInv
  alone st v hv _ := by
    rw [init_view hv]
  one := by
    refine ⟨first, ⟨OrdMap.contains_emplace_self, {}, by simp [init], List.mem_singleton.mpr rfl⟩,
      ?_⟩
    rintro j ⟨-, c, hc, -⟩
    by_contra hne
    simp [init, hne] at hc

section Steps

variable [DecidableEq ι] {s s' : Sys ι κ} {l : Lbl ι κ} {st : κ}

/-- The stream that is created waits. -/
theorem waits_of_creates (hinv : QueueInv s) (hstep : step s l = some s') (hnew : Creates s l st) :
    Waits s' st := by
  have hmoved := (step_view hinv hstep).2 st
  generalize hv' : s'.view st = o' at hmoved
  generalize s.view st = o at hmoved
  cases hmoved with
  | same hsame => exact absurd hnew hsame
  | turn hsame => exact absurd hnew hsame
  | created => exact waits_iff.mpr ⟨_, hv', rfl, List.mem_singleton.mpr rfl⟩

/-- A stream that waits after a step waited before it, or is new. -/
theorem waits_before (hinv : QueueInv s) (hstep : step s l = some s') (h : Waits s' st) :
    Waits s st ∨ Creates s l st := by
  rcases waits_iff.mp h with ⟨v', hv', hwaits⟩
  have hmoved := (step_view hinv hstep).2 st
  generalize hv : s.view st = o at hmoved
  rw [hv'] at hmoved
  cases hmoved with
  | same => exact Or.inl (waits_iff.mpr ⟨v', hv, hwaits⟩)
  | created hnew => exact Or.inr hnew
  | turn _ hturn => exact Or.inl (waits_iff.mpr ⟨_, hv, hturn.waiting hwaits⟩)

omit [DecidableEq ι] in
/-- A stream is created by the one that waits. -/
theorem creator_waits (hinv : WaitInv s) (hnew : Creates s l st) :
    ∃ w, Waits s w ∧ ((∃ n k ok fresh, l = .late w n k ok fresh) ∨
      ∃ k connect i cq, l = .complete w k true connect i st cq) := by
  have haccepts {w : κ} {ok : Bool} (h : Accepts s w ok) : Waits s w := by
    rcases h with ⟨-, hlive, hstate⟩
    rcases Option.ne_none_iff_exists'.mp (hinv.queue.pendingTags w hlive) with ⟨c, hc⟩
    have hv := view_of_calls hc
    rw [obj_of_view hv] at hstate
    refine ⟨hlive, c, hc, ?_⟩
    rw [((hinv.streams w _ hv).connect hlive hstate).1]
    exact List.mem_singleton.mpr rfl
  cases l with
  | complete w k ok connect i fresh cq =>
    rcases hnew with ⟨rfl, hok, hrest⟩
    obtain rfl : ok = true := hok
    exact ⟨w, haccepts ⟨rfl, hrest⟩, Or.inr ⟨k, connect, i, cq, rfl⟩⟩
  | late w n k ok fresh =>
    exact ⟨w, haccepts hnew.2, Or.inl ⟨n, k, ok, fresh, rfl⟩⟩
  | _ => exact hnew.elim

/-- The step lemma: where no request fails, and the stream that waits is not disturbed, it
stays or hands over to the one it creates. -/
theorem step_waitInv (hinv : WaitInv s) (hok : ¬ FailsRequest s l) (hcond : Undisturbed s l)
    (hstep : step s l = some s') : WaitInv s' := by
  rcases step_view hinv.queue hstep with ⟨hqueue, hmoved⟩
  have hcases {j : κ} {v v' : ServerEventStream.Sys} (hv : s.view j = some v)
      (hwaits : Waiting v) (hturn : Turn s l j v v') :=
    hturn.waiting_cases hv (hinv.streams j v hv) hwaits (hinv.alone j v hv hwaits) hok hcond
  refine ⟨hqueue, ?_, ?_, ?_⟩
  · intro j
    exact (hmoved j).lift ServerEventStream.init_heldInv
      (fun v v' _ h hturn => hturn.heldInv h) (hinv.streams j)
  · intro j
    refine (hmoved j).lift (P := fun v => Waiting v → v.call.outstanding = [.request])
      (fun _ => rfl) ?_ (hinv.alone j)
    intro v v' hv _ hturn hwaits
    rcases hcases hv (hturn.waiting hwaits) hturn with ⟨-, halone⟩ | ⟨hnot, -⟩
    · exact halone
    · exact absurd hwaits hnot
  · rcases hinv.one with ⟨w, hw, huniq⟩
    rcases waits_iff.mp hw with ⟨v, hv, hwaits⟩
    by_cases hbirth : ∃ j, Creates s l j
    · rcases hbirth with ⟨j, hnew⟩
      refine ⟨j, waits_of_creates hinv.queue hstep hnew, ?_⟩
      -- it was `w` that created `j`, and `w` waits no more
      rcases creator_waits hinv hnew with
        ⟨w', hw', ⟨n, k, ok, fresh, rfl⟩ | ⟨k, connect, i, cq, rfl⟩⟩
      · exact absurd hw' hcond
      obtain rfl : w' = w := huniq w' hw'
      intro j' hj'
      rcases waits_before hinv.queue hstep hj' with hold | hnew'
      · obtain rfl : j' = w' := huniq j' hold
        rcases complete_view hinv.queue hstep with ⟨-, ⟨v₀, v₁, hv₀, hm, hv₁⟩, -⟩
        rcases waits_iff.mp hj' with ⟨v', hv', hwaits'⟩
        cases hv₁.symm.trans hv'
        cases hv₀.symm.trans hv
        exact absurd hwaits' (not_waiting_of_complete hm (hinv.alone j' _ hv hwaits))
      · exact hnew'.1
    · refine ⟨w, ?_, ?_⟩
      · have hmoved' := hmoved w
        rw [hv] at hmoved'
        generalize hv' : s'.view w = o' at hmoved'
        cases hmoved' with
        | same => exact waits_iff.mpr ⟨v, hv', hwaits⟩
        | created hnew => exact absurd ⟨w, hnew⟩ hbirth
        | turn _ hturn =>
          rcases hcases hv hwaits hturn with ⟨hstays, -⟩ | ⟨-, hnew⟩
          · exact waits_iff.mpr ⟨_, hv', hstays⟩
          · exact absurd hnew hbirth
      · intro j hj
        rcases waits_before hinv.queue hstep hj with hj' | hnew
        · exact huniq j hj'
        · exact absurd ⟨j, hnew⟩ hbirth

/-- Where nothing is created and the stream that waited is gone, none waits. -/
theorem not_oneWaits_of_gone (hinv : WaitInv s) (hstep : step s l = some s') (hw : Waits s st)
    (hnew : ∀ j, ¬ Creates s l j) (hgone : ¬ Waits s' st) : ¬ OneWaits s' := by
  rcases hinv.one with ⟨w, -, huniq⟩
  rintro ⟨j, hj, -⟩
  rcases waits_before hinv.queue hstep hj with hold | hcreated
  · obtain rfl : j = st := (huniq j hold).trans (huniq st hw).symm
    exact hgone hj
  · exact hnew j hcreated

/-- A step that does not meet the condition leaves no stream waiting, or two. -/
theorem step_not_oneWaits (hinv : WaitInv s) (hcond : ¬ Undisturbed s l)
    (hstep : step s l = some s') : ¬ OneWaits s' := by
  cases l with
  | complete st k ok connect i fresh cq =>
    simp only [Undisturbed, Classical.not_forall] at hcond
    rcases hcond with ⟨c, hlive, hcall, hop, hstate⟩
    have hv := view_of_calls hcall
    have hreq := List.mem_of_getElem? hop
    -- it is in `FINISH` already, so that it is killed
    have hfinish := finish_of_waiting (hinv.streams st _ hv) ⟨hlive, hreq⟩ hstate
    refine not_oneWaits_of_gone hinv hstep ⟨hlive, c, hcall, hreq⟩ ?_ ?_
    · rintro j ⟨-, -, -, hconnect⟩
      rw [obj_of_view hv] at hconnect
      exact hstate hconnect
    · intro hwaits
      rcases complete_view hinv.queue hstep with ⟨-, ⟨v, v', hv₀, hm, hv'⟩, -⟩
      cases hv.symm.trans hv₀
      rcases ServerEventStream.step_complete_finish hlive hfinish hm with ⟨c', -, rfl⟩
      cases (view_eq_some.mp hv').2.1.symm.trans hwaits.1
  | late st n k ok fresh =>
    have hw : Waits s st := not_not.mp hcond
    rcases waits_iff.mp hw with ⟨v, hv, hwaits⟩
    have hheld := hinv.streams st v hv
    have hobj := obj_of_view hv
    have hv' := (late_view hinv.queue hstep).2.1 v hv
    rw [hwaits.1, if_pos rfl] at hv'
    have hstrays := processed_strays v ok
    generalize processed v ok .rejected = v' at hstrays hv'
    have hshared := hheld.request hwaits.2
    cases hstrays with
    | refused hstate =>
      refine not_oneWaits_of_gone hinv hstep hw ?_ ?_
      · rintro j ⟨-, hok, -⟩
        cases hok
      · intro hwaits'
        cases (view_eq_some.mp hv').2.1.symm.trans hwaits'.1
    | finished hstate =>
      refine not_oneWaits_of_gone hinv hstep hw ?_ ?_
      · rintro j ⟨-, -, -, hconnect⟩
        cases hstate.symm.trans (hobj ▸ hconnect)
      · intro hwaits'
        cases (view_eq_some.mp hv').2.1.symm.trans hwaits'.1
    | rejected hstate =>
      -- it still waits, and so does the one that it has created
      have hnew : Creates s (.late st n k true fresh) fresh := ⟨rfl, rfl, hw.1, hobj ▸ hstate⟩
      have hborn := waits_of_creates hinv.queue hstep hnew
      have hstays : Waits s' st := waits_iff.mpr ⟨_, hv', hwaits.1, by simp [hwaits.2]⟩
      rintro ⟨w, -, huniq⟩
      have heq : fresh = st := (huniq fresh hborn).trans (huniq st hstays).symm
      rw [← heq] at hw
      cases hw.1.symm.trans (late_cases hstep).1
    | written hstate | writeFailed hstate =>
      cases (hheld.connected (Or.inl hstate)).symm.trans hshared
    | disconnected hstate => cases (hheld.connected (Or.inr hstate)).symm.trans hshared
  | _ => exact absurd trivial hcond

end Steps

/-- In a run in which no request fails, exactly one stream waits after each step, exactly when
none of them disturbs the stream that waits. -/
theorem one_waits_iff [DecidableEq ι] (plugin : ι → PluginPtr) (first : κ) (ls : List (Lbl ι κ))
    (hok : (spec plugin first).AllSteps (fun s l _ => ¬ FailsRequest s l) (init plugin first) ls) :
    (spec plugin first).AllSteps (fun _ _ s' => OneWaits s') (init plugin first) ls ↔
      (spec plugin first).AllSteps (fun s l _ => Undisturbed s l) (init plugin first) ls := by
  have hiff := (spec plugin first).allSteps_iff
    (Q := fun s l s' => ¬ FailsRequest s l ∧ OneWaits s')
    (C := fun s l _ => ¬ FailsRequest s l ∧ Undisturbed s l) WaitInv ?_ ?_
    (init_waitInv plugin first) ls
  · rw [(spec plugin first).allSteps_and, (spec plugin first).allSteps_and] at hiff
    simpa [hok] using hiff
  · rintro s l s' hinv ⟨hok, hcond⟩ hstep
    have hinv' := step_waitInv hinv hok hcond hstep
    exact ⟨hinv', hok, hinv'.one⟩
  · rintro s l s' hinv hcond hstep ⟨hok, hone⟩
    exact step_not_oneWaits hinv (fun h => hcond ⟨hok, h⟩) hstep hone

end StreamCq

/-- On the queue of the unary calls, in every reachable state, one handler of each kind waits
until a request of its kind fails, every handler is destroyed once, with nothing outstanding for
it, and the calls accepted have all been answered, once each, exactly when no `handleEvent` is
under way; on the stream queue, in every run until a request fails, exactly one stream waits,
exactly when no event of a stream that is gone disturbs the one that does. -/
theorem accept_loop {ι κ : Type} [DecidableEq ι] [LinearOrder κ] :
    (∀ s, UnaryCalls.spec.Reachable s →
      UnaryCalls.Accounted s ∧ (UnaryCalls.Answered s ↔ s.handling = [])) ∧
      ∀ (plugin : ι → PluginPtr) (first : κ) (ls : List (StreamCq.Lbl ι κ)),
        (StreamCq.spec plugin first).AllSteps (fun s l _ => ¬ StreamCq.FailsRequest s l)
          (StreamCq.init plugin first) ls →
        ((StreamCq.spec plugin first).AllSteps (fun _ _ s' => StreamCq.OneWaits s')
            (StreamCq.init plugin first) ls ↔
          (StreamCq.spec plugin first).AllSteps (fun s l _ => StreamCq.Undisturbed s l)
            (StreamCq.init plugin first) ls) := by
  constructor
  · intro s hs
    rcases UnaryCalls.inv_of_reachable hs with ⟨hinv, hone⟩
    exact ⟨hinv.accounted hone, hinv.answered_iff⟩
  · intro plugin first ls hok
    exact StreamCq.one_waits_iff plugin first ls hok

/-- A client connects: the stream it was waited for with serves it, and another one waits. -/
theorem accept_loop_connected :
    (StreamCq.spec (fun _ : Unit => 1) 0).AllSteps (fun _ _ s' => StreamCq.OneWaits s')
      (StreamCq.init (fun _ => 1) 0) [.complete 0 0 true .connected () 1 (some 0)] := by
  refine ((accept_loop.2 _ _ _ ?_).mpr ?_)
  · intro s hs
    refine ⟨?_, trivial⟩
    rintro ⟨hok, -⟩
    cases hok
  · intro s hs
    refine ⟨?_, trivial⟩
    intro c _ hc _
    cases hc
    rfl

/-- A client is rejected, and its stream destroyed, before the notification that its call has
ended. This is delivered when another stream waits at the address. -/
def StreamCq.orphanedDone : List (StreamCq.Lbl Unit Nat) :=
  [.complete 0 0 true .rejected () 1 none, .complete 0 0 true .rejected () 2 none,
    .complete 1 0 true .rejected () 0 none, .lateDone 0 0]

/-- The next client finds this stream in `FINISH`: it is killed, and nobody waits any more. -/
theorem accept_loop_fails : ¬ ∀ (plugin : Unit → PluginPtr) (ls : List (StreamCq.Lbl Unit Nat)),
    (StreamCq.spec plugin 0).AllSteps (fun s l _ => ¬ StreamCq.FailsRequest s l)
      (StreamCq.init plugin 0) ls →
    (StreamCq.spec plugin 0).AllSteps (fun _ _ s' => StreamCq.OneWaits s')
      (StreamCq.init plugin 0) ls := by
  intro h
  have hok : (StreamCq.spec (fun _ => 1) 0).AllSteps (fun s l _ => ¬ StreamCq.FailsRequest s l)
      (StreamCq.init (fun _ => 1) 0)
      (StreamCq.orphanedDone ++ [.complete 0 0 true .connected () 2 none]) := by
    apply ActionSystem.Spec.allSteps_of_steps
    intro ps l t t' hps _ _
    have hl := hps.subset (List.mem_append_right ps (List.mem_singleton.mpr rfl))
    simp only [StreamCq.orphanedDone, List.cons_append, List.nil_append, List.mem_cons,
      List.not_mem_nil, or_false] at hl
    rcases hl with rfl | rfl | rfl | rfl | rfl
    all_goals simp [StreamCq.FailsRequest]
  have hlast := (StreamCq.spec _ _).allSteps_last (h _ _ hok) rfl rfl
  rcases hlast with ⟨w, ⟨htag, c, hc, hreq⟩, -⟩
  have hkeys : w ∈ [1] := OrdMap.contains_iff.mp htag
  obtain rfl := List.mem_singleton.mp hkeys
  cases hc
  exact absurd hreq (by decide)

end ClapRci
