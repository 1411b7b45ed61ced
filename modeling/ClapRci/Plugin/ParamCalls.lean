import ClapRci.Plugin.ClientParamDrops
import ClapRci.Plugin.HashLifetimes

/-!
# From the clients' calls to a plugin's queue (`server/tags/clientparamcall.cpp`)

The handler of a `ClientParamCall` finds a plugin in the registry and pushes the batch of the
call into its queue. `ClapRci.Server.Metadata` has this as one function; the two threads at the
queue are in `ClapRci.Plugin.ClientParams`.

* `pushClientParam_steps`: a call that returns is a run of the two threads;
* `queues_fed`: while plugins come and go, the queue of each is in a state that its two threads
  come to on the batches of the calls that were delivered to it, and on no others.
-/

namespace ClapRci

/-! ## One call, step by step -/

namespace ClientParams

/-- The audio thread can take the next entry out of the queue. -/
theorem exists_taken {s : Sys} (hne : s.queue ≠ []) :
    ∃ ls t, spec.run s ls = some t ∧ t.producer = s.producer ∧ t.batches = s.batches ∧
      t.data = { s.data with mClientsToPluginQueue := s.data.mClientsToPluginQueue.pop.2 } := by
  have hturn : ∀ u : Sys, u.processing = true → u.queue ≠ [] → ∃ t,
      spec.step u (.turn true) = some t ∧ t.producer = u.producer ∧ t.batches = u.batches ∧
      t.data = { u.data with mClientsToPluginQueue := u.data.mClientsToPluginQueue.pop.2 } := by
    intro u hprocessing hne
    rcases List.exists_cons_of_ne_nil hne with ⟨clientEv, rest, hqueue⟩
    rcases BoundedFifo.pop_of_cons hqueue with ⟨queue, hpop, -⟩
    rcases hev : processGuiEvent u.params clientEv with ⟨params, out⟩
    cases out with
    | none => simp [spec, step, hprocessing, hpop, hev]
    | some out => simp [spec, step, hprocessing, hpop, hev]
  cases hprocessing : s.processing with
  | true =>
    rcases hturn s hprocessing hne with ⟨t, hstep, ht⟩
    exact ⟨[.turn true], t, spec.run_cons_of_step hstep [], ht⟩
  | false =>
    -- the audio thread has to call `processGuiEvents` first
    have hbegin : spec.step s .processGuiEvents = some { s with processing := true } := by
      simp [spec, step, hprocessing]
    rcases hturn { s with processing := true } rfl hne with ⟨t, hstep, ht⟩
    refine ⟨[.processGuiEvents, .turn true], t, ?_, ht⟩
    rw [spec.run_cons_of_step hbegin, spec.run_cons_of_step hstep, ActionSystem.Spec.run_nil]

/-- A push that finds room. -/
theorem tryPush_steps {p : Api.ClientParam} {todo : Api.ClientParams} {d : Data} {s : Sys}
    (hpush : s.producer = .push p todo) (htry : pushClientParamTry s.data p = (true, d)) :
    ∃ ls t, spec.run s ls = some t ∧ t.producer = .loop todo ∧ t.batches = s.batches ∧
      t.data = d := by
  refine ⟨[.tryPush], { s with
    data := d, producer := .loop todo, entered := s.entered ++ [p] }, ?_, rfl, rfl, rfl⟩
  exact spec.run_cons_of_step (by simp [spec, step, hpush, htry]) []

/-- A full queue stays as it is. -/
theorem pushClientParamTry_full {p : Api.ClientParam} {d d' : Data}
    (h : pushClientParamTry d p = (false, d')) :
    d' = d ∧ d.mClientsToPluginQueue.elems ≠ [] := by
  by_cases hroom : d.mClientsToPluginQueue.elems.length < 64
  · simp [pushClientParamTry, BoundedFifo.push, hroom] at h
  · simp only [pushClientParamTry, BoundedFifo.push, hroom, dite_false] at h
    cases h
    refine ⟨rfl, ?_⟩
    intro hempty
    rw [hempty] at hroom
    exact hroom (by decide)

/-- The wait for room, which ends. -/
theorem pushWait_steps {p : Api.ClientParam} {todo : Api.ClientParams} {takes takes' : Nat}
    {d : Data} {s : Sys} (hpush : s.producer = .push p todo)
    (hwait : Metadata.pushWait p takes s.data = (true, takes', d)) :
    ∃ ls t, spec.run s ls = some t ∧ t.producer = .loop todo ∧ t.batches = s.batches ∧
      t.data = d := by
  induction takes generalizing s with
  | zero =>
    unfold Metadata.pushWait at hwait
    rcases htry : pushClientParamTry s.data p with ⟨ok, d'⟩
    cases ok with
    | false => simp [htry] at hwait
    | true =>
      simp only [htry] at hwait
      cases hwait
      exact tryPush_steps hpush htry
  | succ takes ih =>
    unfold Metadata.pushWait at hwait
    rcases htry : pushClientParamTry s.data p with ⟨ok, d'⟩
    cases ok with
    | true =>
      simp only [htry] at hwait
      cases hwait
      exact tryPush_steps hpush htry
    | false =>
      simp only [htry] at hwait
      -- a full queue has an entry to take out, and then there is room
      rcases pushClientParamTry_full htry with ⟨rfl, hne⟩
      rcases exists_taken hne with ⟨ls, u, hrun, hproducer, hbatches, hdata⟩
      rw [← hdata] at hwait
      rcases ih (hproducer.trans hpush) hwait with ⟨ms, t, hrun', hloop, hbatches', hdata'⟩
      refine ⟨ls ++ ms, t, ?_, hloop, hbatches'.trans hbatches, hdata'⟩
      rw [spec.run_append, hrun]
      exact hrun'

/-- The loop over the batch. -/
theorem pushLoop_steps (todo : Api.ClientParams) {takes : Nat} {d : Data} {s : Sys}
    (hloop : s.producer = .loop todo)
    (hcall : Metadata.pushClientParam todo takes s.data = (true, d)) :
    ∃ ls t, spec.run s ls = some t ∧ t.producer = .idle ∧ t.batches = s.batches ∧
      t.data = d := by
  induction todo generalizing s takes with
  | nil =>
    cases hcall
    refine ⟨[.next], { s with producer := .idle }, ?_, rfl, rfl, rfl⟩
    exact spec.run_cons_of_step (by simp [spec, step, hloop]) []
  | cons p todo ih =>
    rw [Metadata.pushClientParam] at hcall
    simp only [pushClientParamFilter, Stamp.setIfNewer_eq] at hcall
    by_cases hstamp : s.data.mLastClientStamp < ⟨p.timestamp.seconds, p.timestamp.nanos⟩
    · simp only [hstamp, if_true] at hcall
      obtain ⟨u, hstep, hpush, hbatches, hdata⟩ : ∃ u, spec.step s .next = some u ∧
          u.producer = .push p todo ∧ u.batches = s.batches ∧
          u.data = { s.data with
            mLastClientStamp := ⟨p.timestamp.seconds, p.timestamp.nanos⟩ } := by
        simp [spec, step, hloop, pushClientParamFilter, Stamp.setIfNewer_eq, hstamp]
      rw [← hdata] at hcall
      rcases hwait : Metadata.pushWait p takes u.data with ⟨ok, takes', d'⟩
      rw [hwait] at hcall
      cases ok with
      | false => cases hcall
      | true =>
        rcases pushWait_steps hpush hwait with ⟨ls, v, hrun, hloop', hbatches', hdata'⟩
        rw [← hdata'] at hcall
        rcases ih hloop' hcall with ⟨ms, t, hrun', hidle, hbatches'', hdata''⟩
        refine ⟨.next :: (ls ++ ms), t, ?_, hidle, by rw [hbatches'', hbatches', hbatches],
          hdata''⟩
        rw [spec.run_cons_of_step hstep, spec.run_append, hrun]
        exact hrun'
    · -- an update that is not newer is dropped
      simp only [hstamp, if_false] at hcall
      obtain ⟨u, hstep, hloop', hbatches, hdata⟩ : ∃ u, spec.step s .next = some u ∧
          u.producer = .loop todo ∧ u.batches = s.batches ∧ u.data = s.data := by
        simp [spec, step, hloop, pushClientParamFilter, Stamp.setIfNewer_eq, hstamp]
      rw [← hdata] at hcall
      rcases ih hloop' hcall with ⟨ls, t, hrun, hidle, hbatches', hdata'⟩
      refine ⟨.next :: ls, t, ?_, hidle, hbatches'.trans hbatches, hdata'⟩
      rw [spec.run_cons_of_step hstep]
      exact hrun

/-- A call that returns is a run of the two threads, in which the batch is handed over. -/
theorem pushClientParam_steps {ev : Api.ClientParams} {takes : Nat} {d : Data} {s : Sys}
    (hidle : s.producer = .idle)
    (hcall : Metadata.pushClientParam ev takes s.data = (true, d)) :
    ∃ ls t, spec.run s ls = some t ∧ t.producer = .idle ∧ t.batches = s.batches ++ [ev] ∧
      t.data = d := by
  obtain ⟨u, hstep, hloop, hbatches, hdata⟩ : ∃ u, spec.step s (.pushClientParam ev) = some u ∧
      u.producer = .loop ev ∧ u.batches = s.batches ++ [ev] ∧ u.data = s.data := by
    simp [spec, step, hidle]
  rw [← hdata] at hcall
  rcases pushLoop_steps ev hloop hcall with ⟨ls, t, hrun, hidle', hbatches', hdata'⟩
  refine ⟨.pushClientParam ev :: ls, t, ?_, hidle', hbatches'.trans hbatches, hdata'⟩
  rw [spec.run_cons_of_step hstep]
  exact hrun

/-- The two threads of a plugin can come to this content of the members, on these batches and
between two of them. -/
def Fed (batches : List Api.ClientParams) (d : Data) : Prop :=
  ∃ s, spec.Reachable s ∧ s.producer = .idle ∧ s.batches = batches ∧ s.data = d

theorem Fed.start : Fed [] {} :=
  ⟨ClientParams.start .empty, spec.reachable_init ⟨.empty, rfl⟩, rfl, rfl, rfl⟩

/-- One call more. -/
theorem Fed.call {batches : List Api.ClientParams} {ev : Api.ClientParams} {takes : Nat}
    {d d' : Data} (h : Fed batches d) (hcall : Metadata.pushClientParam ev takes d = (true, d')) :
    Fed (batches ++ [ev]) d' := by
  rcases h with ⟨s, ⟨s0, ls, hinit, hrun⟩, hidle, rfl, rfl⟩
  rcases pushClientParam_steps hidle hcall with ⟨ms, t, hrun', hidle', hbatches, hdata⟩
  refine ⟨t, ⟨s0, ls ++ ms, hinit, ?_⟩, hidle', hbatches, hdata⟩
  rw [spec.run_append, hrun]
  exact hrun'

/-- The audio thread takes the next update out, if there is one. -/
theorem Fed.turn {batches : List Api.ClientParams} {d : Data} (h : Fed batches d) :
    Fed batches { d with mClientsToPluginQueue := d.mClientsToPluginQueue.pop.2 } := by
  rcases h with ⟨s, hreach, hidle, rfl, rfl⟩
  by_cases hempty : s.queue = []
  · refine ⟨s, hreach, hidle, rfl, ?_⟩
    rw [BoundedFifo.pop_of_nil hempty]
  · rcases hreach with ⟨s0, ls, hinit, hrun⟩
    rcases exists_taken hempty with ⟨ms, t, hrun', hproducer, hbatches, hdata⟩
    refine ⟨t, ⟨s0, ls ++ ms, hinit, ?_⟩, hproducer.trans hidle, hbatches, hdata⟩
    rw [spec.run_append, hrun]
    exact hrun'

/-- What was taken out and what is in the queue are the updates that were newest when they
came, and the stamp is the greatest of all. -/
theorem Fed.queue {batches : List Api.ClientParams} {d : Data} (h : Fed batches d) :
    (∃ taken, taken ++ d.mClientsToPluginQueue.elems =
        (newest batches.flatten).map ClientParamWrapper.ofClientParam) ∧
      d.mLastClientStamp = RunningMax.highest stampOf {} batches.flatten := by
  rcases h with ⟨s, hreach, hidle, rfl, rfl⟩
  have hinv := reachable_inv hreach
  have haccepted := hinv.accepted
  rw [hidle, Producer.pushing, List.append_nil, hinv.received_eq hidle] at haccepted
  constructor
  · refine ⟨s.popped, ?_⟩
    rw [← haccepted]
    exact hinv.fifo
  · rw [hinv.stamp, hinv.received_eq hidle]

end ClientParams

/-! ## Plugins that come and go -/

namespace HashLifetimes

open ClientParams (Fed newest)

variable {κ : Type} [LinearOrder κ]

/-- The batch of a call that finds the plugin number `n` under its hash. -/
def delivered (n : Nat) (s : Sys κ) : Lbl → List Api.ClientParams
  | .call m _ (.params request _) =>
    if (s.issued[m]?).any fun e => s.owner e.2 = some n then [request] else []
  | _ => []

/-- A call returns: its handler does not wait for ever. -/
def Returns (s : Sys κ) : Lbl → Prop
  | .call _ metadata c => (Metadata.process s.backend metadata c.request).1 ≠ .blocked
  | _ => True

/-- The queue of each plugin alive holds what its own batches have left there. -/
structure FedInv (batches : Nat → List Api.ClientParams) (s : Sys κ) : Prop where
  inv : Inv s
  named : ∀ hash n, s.owner hash = some n → (s.issued[n]?).map Prod.snd = some hash
  fed : ∀ hash n, s.owner hash = some n → Fed (batches n) (s.backend.queues hash).params
  fresh : ∀ n, s.issued.length ≤ n → batches n = []

section Steps

variable {batches : Nat → List Api.ClientParams} {s s' : Sys κ}

theorem init_fedInv : FedInv (fun _ => []) ({} : Sys κ) where
  inv := init_inv
  named hash n h := by cases h
  fed hash n h := by cases h
  fresh _ _ := rfl

/-- A plugin begins with an empty queue, and has the number of no plugin before. -/
theorem FedInv.construct (h : FedInv batches s) {this : PluginPtr} {built : Bool}
    (hstep : step s (.construct this built) = some s') : FedInv batches s' := by
  have hinv := step_inv h.inv hstep
  simp only [step] at hstep
  split at hstep
  · cases hstep
  · rcases Option.map_eq_some_iff.mp hstep with ⟨⟨plugin, ctrl⟩, -, rfl⟩
    refine ⟨hinv, ?_, ?_, ?_⟩
    · intro hash n hn
      by_cases hhash : hash = plugin.hashCore
      · subst hhash
        simp only [Function.update_self, Option.some.injEq] at hn
        simp [← hn]
      · simp only [Function.update_of_ne hhash] at hn
        have hlt := (h.inv.owner hash n hn).1
        rw [List.getElem?_append_left hlt]
        exact h.named hash n hn
    · intro hash n hn
      by_cases hhash : hash = plugin.hashCore
      · subst hhash
        simp only [Function.update_self, Option.some.injEq] at hn
        simp only [Function.update_self, h.fresh n (Nat.le_of_eq hn)]
        exact Fed.start
      · simp only [Function.update_of_ne hhash] at hn ⊢
        exact h.fed hash n hn
    · intro n hn
      rw [List.length_append] at hn
      exact h.fresh n (Nat.le_trans (Nat.le_add_right _ _) hn)

theorem FedInv.destroy (h : FedInv batches s) {this : PluginPtr}
    (hstep : step s (.destroy this) = some s') : FedInv batches s' := by
  have hinv := step_inv h.inv hstep
  simp only [step] at hstep
  split at hstep
  · cases hstep
  · rename_i n plugin hplugin
    rcases Option.map_eq_some_iff.mp hstep with ⟨ctrl, -, rfl⟩
    have howner : ∀ hash m, Function.update s.owner plugin.hashCore none hash = some m →
        s.owner hash = some m := by
      intro hash m hm
      by_cases hhash : hash = plugin.hashCore
      · rw [hhash, Function.update_self] at hm
        cases hm
      · rwa [Function.update_of_ne hhash] at hm
    refine ⟨hinv, ?_, ?_, h.fresh⟩
    · intro hash m hm
      exact h.named hash m (howner hash m hm)
    · intro hash m hm
      exact h.fed hash m (howner hash m hm)

/-- The number of a plugin alive tells its hash. -/
theorem FedInv.owner_inj (h : FedInv batches s) {hash hash' : Hash} {n : Nat}
    (hn : s.owner hash = some n) (hn' : s.owner hash' = some n) : hash = hash' :=
  Option.some.inj ((h.named hash n hn).symm.trans (h.named hash' n hn'))

/-- What is delivered reaches one queue. -/
theorem deliver_queues (c : Call) (hash hash' : Hash) (b : Metadata.Backend κ)
    (hne : hash' ≠ hash) : (deliver c hash b).2.queues hash' = b.queues hash' := by
  cases c with
  | event ev =>
    simp only [deliver, Metadata.deliverEvent]
    split
    · exact Function.update_of_ne hne _ _
    · exact Function.update_of_ne hne _ _
  | params request takes =>
    simp only [deliver, Metadata.deliverParams]
    split
    · exact Function.update_of_ne hne _ _
    · exact Function.update_of_ne hne _ _

/-- An event leaves the parameters' side alone. -/
theorem deliver_event_params (ev : Event) (hash : Hash) (b : Metadata.Backend κ) :
    ((deliver (.event ev) hash b).2.queues hash).params = (b.queues hash).params := by
  simp only [deliver, Metadata.deliverEvent]
  split
  · simp [Metadata.answer, Metadata.Backend.setQueues]
  · simp [Metadata.answer, Metadata.Backend.setQueues]

/-- A batch that is delivered has been pushed, if the call returns. -/
theorem deliver_params {request : Api.ClientParams} {takes : Nat} {hash : Hash}
    {b : Metadata.Backend κ} (hreturns : (deliver (.params request takes) hash b).1 ≠ .blocked) :
    Metadata.pushClientParam request takes (b.queues hash).params =
      (true, ((deliver (.params request takes) hash b).2.queues hash).params) := by
  simp only [deliver, Metadata.deliverParams] at hreturns ⊢
  rcases hpush : Metadata.pushClientParam request takes (b.queues hash).params with ⟨ok, params⟩
  cases ok with
  | false =>
    rw [hpush] at hreturns
    exact absurd rfl hreturns
  | true => simp [Metadata.answer, Metadata.Backend.setQueues]

/-- A call adds its batch to those of the plugin that it finds, if it finds one. -/
theorem FedInv.call (h : FedInv batches s) {m : Nat} {metadata : GrpcMetadata} {c : Call}
    (hreturns : Returns s (.call m metadata c))
    (hstep : step s (.call m metadata c) = some s') :
    FedInv (fun n => batches n ++ delivered n s (.call m metadata c)) s' := by
  have hinv := step_inv h.inv hstep
  rcases h.inv.call_step hstep with ⟨this, hissued, hid, rfl⟩
  have hprocess := process_call (b := s.backend) hid c
  -- a batch goes to the plugin that owns the hash
  have howns : ∀ n, s.owner (hashOf this) ≠ some n →
      delivered n s (.call m metadata c) = [] := by
    intro n hn
    cases c with
    | event ev => rfl
    | params request takes => simp [delivered, hissued, hn]
  refine ⟨hinv, h.named, ?_, ?_⟩
  · intro hash n hn
    change s.owner hash = some n at hn
    have hfed := h.fed hash n hn
    have hmem := (h.inv.owner hash n hn).2
    show Fed (batches n ++ delivered n s (.call m metadata c))
      ((Metadata.process s.backend metadata c.request).2.queues hash).params
    by_cases hhash : hash = hashOf this
    · subst hhash
      rcases Option.isSome_iff_exists.mp (OrdMap.find?_isSome.mpr hmem) with ⟨data, hfind⟩
      rw [hfind] at hprocess
      rw [Returns, hprocess] at hreturns
      rw [hprocess]
      cases c with
      | event ev =>
        simp only [delivered, List.append_nil, deliver_event_params]
        exact hfed
      | params request takes =>
        have hdelivered : delivered n s (.call m metadata (.params request takes)) = [request] := by
          simp [delivered, hissued, hn]
        rw [hdelivered]
        exact hfed.call (deliver_params hreturns)
    · have hnone : s.owner (hashOf this) ≠ some n := fun howner => hhash (h.owner_inj hn howner)
      rw [howns n hnone, List.append_nil, hprocess]
      cases s.backend.ctrl.mSharedData.find? (hashOf this) with
      | none => exact hfed
      | some data =>
        simp only [deliver_queues c _ _ _ hhash]
        exact hfed
  · intro n hn
    have hnone : s.owner (hashOf this) ≠ some n := by
      intro howner
      exact absurd (h.inv.owner _ n howner).1 (Nat.not_lt.mpr hn)
    simp only [howns n hnone, List.append_nil]
    exact h.fresh n hn

/-- A turn adds no batch, whatever it takes out. -/
theorem FedInv.turn (h : FedInv batches s) {this : PluginPtr}
    (hstep : step s (.turn this) = some s') : FedInv batches s' := by
  have hinv := step_inv h.inv hstep
  rcases h.inv.turn_step hstep with ⟨-, rfl⟩
  refine ⟨hinv, h.named, ?_, h.fresh⟩
  intro hash n hn
  have hfed := h.fed hash n hn
  show Fed (batches n) (Function.update s.backend.queues (hashOf this)
    (takeUpdate (s.backend.queues (hashOf this))) hash).params
  by_cases hhash : hash = hashOf this
  · subst hhash
    rw [Function.update_self]
    exact hfed.turn
  · rw [Function.update_of_ne hhash]
    exact hfed

theorem FedInv.step (h : FedInv batches s) {l : Lbl} (hreturns : Returns s l)
    (hstep : step s l = some s') : FedInv (fun n => batches n ++ delivered n s l) s' := by
  cases l with
  | construct this built => simpa [delivered] using h.construct hstep
  | destroy this => simpa [delivered] using h.destroy hstep
  | call m metadata c => exact h.call hreturns hstep
  | turn this => simpa [delivered] using h.turn hstep

end Steps

theorem fedInv_of_run {s : Sys κ} {ls : List Lbl}
    (hreturns : (spec κ).AllSteps (fun s l _ => Returns s l) {} ls)
    (hrun : (spec κ).run {} ls = some s) :
    FedInv (fun n => (spec κ).outputs (delivered n) {} ls) s := by
  induction ls using List.reverseRecOn generalizing s with
  | nil =>
    cases hrun
    exact init_fedInv
  | append_singleton ls l ih =>
    rcases (spec κ).run_split hrun with ⟨u, hu, hl⟩
    rcases (spec κ).run_cons hl with ⟨s', hstep, hend⟩
    cases hend
    have hlast := (spec κ).allSteps_last hreturns hu hstep
    have hinv := ih ((spec κ).allSteps_append.mp hreturns).1 hu
    simp only [(spec κ).outputs_concat _ hu]
    exact hinv.step hlast hstep

/-- In every run of plugins that come and go, of calls that return and of turns of the audio
threads, the queue of each plugin alive is one that its two threads come to on exactly the
batches of the calls that have found it: what has been taken out, followed by what is in it,
are the updates of these batches that were newer than all before, in order. -/
theorem queues_fed {s : Sys κ} {ls : List Lbl}
    (hreturns : (spec κ).AllSteps (fun s l _ => Returns s l) {} ls)
    (hrun : (spec κ).run {} ls = some s) {hash : Hash} {n : Nat}
    (howner : s.owner hash = some n) :
    let batches := (spec κ).outputs (delivered n) {} ls
    let d := (s.backend.queues hash).params
    Fed batches d ∧
      (∃ taken, taken ++ d.mClientsToPluginQueue.elems =
        (newest batches.flatten).map ClientParamWrapper.ofClientParam) ∧
      d.mLastClientStamp =
        RunningMax.highest ClientParams.stampOf {} batches.flatten := by
  have hfed := (fedInv_of_run hreturns hrun).fed hash n howner
  exact ⟨hfed, hfed.queue⟩

/-- Two plugins, a call with the hash of the first, and a turn of its audio thread: the update
has been taken out. -/
theorem queues_fed_two : ∃ (s : Sys Nat) (update : Api.ClientParam),
    s.owner (hashOf 1) = some 0 ∧ s.owner (hashOf 2) = some 1 ∧
      (s.backend.queues (hashOf 1)).params.mClientsToPluginQueue.elems = [] ∧
      Fed [[update]] (s.backend.queues (hashOf 1)).params ∧
      Fed [] (s.backend.queues (hashOf 2)).params := by
  let update : Api.ClientParam :=
    { event := .param, param := { param_id := 5 }, timestamp := { seconds := 1 } }
  let metadata : GrpcMetadata := [(PluginHashId, to_string (hashOf 1))]
  let call : Lbl := .call 0 metadata (.params [update] 0)
  obtain ⟨u, plugin, hrun, hissued, howner, howner', hqueues, hrunning, hfound, hplugin, hhash⟩ :
      ∃ (u : Sys Nat) (plugin : CorePlugin),
      (spec Nat).run {} [.construct 1 true, .construct 2 true] = some u ∧
      u.issued[0]? = some (1, hashOf 1) ∧ u.owner (hashOf 1) = some 0 ∧
      u.owner (hashOf 2) = some 1 ∧ u.backend.queues (hashOf 1) = {} ∧
      u.backend.ctrl.isRunning = true ∧
      u.backend.ctrl.mSharedData.find? (hashOf 1) = some (.ofPlugin Nat 1) ∧
      u.plugins 1 = some (0, plugin) ∧ plugin.hashCore = hashOf 1 :=
    ⟨_, _, rfl, rfl, rfl, rfl, rfl, rfl, rfl, rfl, rfl⟩
  have hid : extractMetadata metadata PluginHashId = some (to_string (hashOf 1)) := by
    simp [metadata, extractMetadata]
  have hprocess : Metadata.process u.backend metadata (Call.params [update] 0).request =
      deliver (.params [update] 0) (hashOf 1) u.backend := by
    rw [process_call hid, hfound]
  have hblocked : (deliver (.params [update] 0) (hashOf 1) u.backend).1 ≠ .blocked := by
    simp only [deliver, Metadata.deliverParams, hqueues]
    intro hblocked
    cases hblocked
  -- the states after the call and after the turn
  obtain ⟨v, hv⟩ : ∃ v : Sys Nat, v = { u with
    backend := (deliver (.params [update] 0) (hashOf 1) u.backend).2 } := ⟨_, rfl⟩
  obtain ⟨w, hw⟩ : ∃ w : Sys Nat, w = { v with
    backend := v.backend.setQueues (hashOf 1) (takeUpdate (v.backend.queues (hashOf 1))) } :=
      ⟨_, rfl⟩
  have hcall : (spec Nat).step u call = some v := by
    rw [hv, ← hprocess]
    simp [call, spec, step, hissued, hrunning, hid]
  have hturn : (spec Nat).step v (.turn 1) = some w := by
    have hlive : v.plugins 1 = some (0, plugin) := by rw [hv, ← hplugin]
    simp only [spec, step, hlive, hhash, hw]
  have hqueue : (v.backend.queues (hashOf 1)).params.mClientsToPluginQueue.elems =
      [.ofClientParam update] := by
    have hpush := deliver_params hblocked
    rw [hqueues] at hpush
    have hparams : (v.backend.queues (hashOf 1)).params =
        (Metadata.pushClientParam [update] 0 {}).2 := by
      rw [hv]
      exact (congrArg Prod.snd hpush).symm
    rw [hparams]
    rfl
  have hrest : (spec Nat).run u [call, .turn 1] = some w := by
    rw [(spec Nat).run_cons_of_step hcall, (spec Nat).run_cons_of_step hturn]
    rfl
  have hrun' : (spec Nat).run {} ([.construct 1 true, .construct 2 true] ++ [call, .turn 1]) =
      some w := by
    rw [(spec Nat).run_append, hrun]
    exact hrest
  have hreturns : (spec Nat).AllSteps (fun s l _ => Returns s l) {}
      ([.construct 1 true, .construct 2 true] ++ [call, .turn 1]) := by
    refine (spec Nat).allSteps_append.mpr ⟨fun _ _ => ⟨trivial, fun _ _ => ⟨trivial, trivial⟩⟩, ?_⟩
    intro t ht
    cases hrun.symm.trans ht
    refine fun _ _ => ⟨?_, fun _ _ => ⟨trivial, trivial⟩⟩
    simp only [call, Returns, hprocess]
    exact hblocked
  have hbatches : ∀ n, (spec Nat).outputs (delivered n) {}
      ([.construct 1 true, .construct 2 true] ++ [call, .turn 1]) = delivered n u call := by
    intro n
    have hrun₁ : (spec Nat).run {} [.construct 1 true, .construct 2 true, call] = some v := by
      show (spec Nat).run {} ([.construct 1 true, .construct 2 true] ++ [call]) = some v
      rw [(spec Nat).run_append, hrun]
      exact (spec Nat).run_cons_of_step hcall []
    show (spec Nat).outputs (delivered n) {}
      ([.construct 1 true, .construct 2 true, call] ++ [.turn 1]) = _
    rw [(spec Nat).outputs_concat _ hrun₁]
    show (spec Nat).outputs (delivered n) {}
      ([.construct 1 true, .construct 2 true] ++ [call]) ++ [] = _
    rw [(spec Nat).outputs_concat _ hrun, List.append_nil]
    rfl
  have hfirst : delivered 0 u call = [[update]] := by
    simp only [delivered, call, hissued, Option.any_some, howner, decide_true, if_true]
  have hsecond : delivered 1 u call = [] := by
    simp only [delivered, call, hissued, Option.any_some, howner]
    rfl
  have howners : w.owner = u.owner := by rw [hw, hv]
  rw [← howners] at howner howner'
  refine ⟨w, update, howner, howner', ?_, ?_, ?_⟩
  · simp only [hw, Metadata.Backend.setQueues, Function.update_self, takeUpdate,
      BoundedFifo.pop_snd_elems, hqueue, List.tail_cons]
  · have hfed := (queues_fed hreturns hrun' howner).1
    rwa [hbatches, hfirst] at hfed
  · have hfed := (queues_fed hreturns hrun' howner').1
    rwa [hbatches, hsecond] at hfed

end HashLifetimes

end ClapRci
