import ClapRci.Plugin.ClientView
import ClapRci.Plugin.ProcessBlock

/-!
# A block as a run of steps (`plugin/coreplugin.cpp`)

What holds of the runs of `ClientView`, in which clients and the poll loop come in between at
any point, is to hold of `CorePlugin::process` as it is written.

* `process_steps`: with a root module that leaves the queue of the clients and the parameters
  alone, `process` is a run of the steps of a block, up to the event that terminates the
  program if there is one.
-/

namespace ClapRci.ProcessBlock

open ClientView (InEvent Sys)

variable {κ ω μ : Type} [LinearOrder κ]

/-! ## The two levels -/

/-- The root module leaves the queue of the clients' updates and the parameters alone. -/
structure RootModule.Aside (root : RootModule ω μ) : Prop where
  queue : ∀ frame s, (root.process frame s).2.queue = s.queue
  params : ∀ frame s, (root.process frame s).2.params = s.params

/-- A block and a system that are equally far, where the poll loop was as in `p` before: the
events that the block has pushed are in the process queue, up to those it has refused. -/
structure Matches (p : PollRounds.Sys κ) (run : Run ω μ) (s : Sys κ) : Prop where
  params : s.client.params = run.state.params
  queue : s.client.data.mClientsToPluginQueue = run.state.queue
  poll : s.poll = { p with data := run.pushed.foldl (fun d ev => (d.pushProcess ev).2) p.data }
  processing : s.client.processing = false

/-- How the steps of the block end. -/
def Ends (p : PollRounds.Sys κ) (s : Sys κ) :
    Except (Stop ω μ) (ProcessStatus × Run ω μ) → Prop
  | .ok (_, run) => Matches p run s ∧ s.todo = none ∧ s.terminated = false
  | .error (.terminated run) => Matches p run s ∧ s.terminated = true
  | .error .cutOff => False

/-! ## The updates of the clients -/

/-- The turns of `processGuiEvents`, which leave the rest of the system alone. -/
theorem turns_run {plugin : PluginPtr} {cq : CqHandle} {params : ClientView.KeyedStore}
    {stream : κ} (oks : List Bool) {s : Sys κ} {t : ClientParams.Sys}
    (hrun : ClientParams.spec.run s.client (oks.map .turn) = some t)
    (halive : s.terminated = false) :
    ∃ s', (ClientView.spec plugin cq params stream).run s (oks.map .turn) = some s' ∧
      s'.client = t ∧ s'.poll = s.poll ∧ s'.todo = s.todo ∧ s'.terminated = false := by
  induction oks generalizing s with
  | nil =>
    cases hrun
    exact ⟨s, rfl, rfl, rfl, rfl, halive⟩
  | cons ok oks ih =>
    rcases ClientParams.spec.run_cons hrun with ⟨client, hclient, hrest⟩
    have hstep : (ClientView.spec plugin cq params stream).step s (.turn ok) =
        some { s with
          client := client
          changes := s.changes ++
            (ClientView.applied s (.turn ok : ClientView.Lbl κ)).toList } := by
      have hclient : ClientParams.step s.client (.turn ok) = some client := hclient
      simp [ClientView.spec, ClientView.step, halive, hclient]
    obtain ⟨s', hs', hclient', hpoll, htodo, halive'⟩ := @ih { s with
      client := client
      changes := s.changes ++ (ClientView.applied s (.turn ok : ClientView.Lbl κ)).toList }
      hrest halive
    exact ⟨s', ((ClientView.spec plugin cq params stream).run_cons_of_step hstep _).trans hs',
      hclient', hpoll, htodo, halive'⟩

/-! ## The events of the host -/

section Events

variable {p : PollRounds.Sys κ} {s : Sys κ} {run : Run ω μ}

/-- The audio of a frame. -/
theorem Matches.audio (h : Matches p run s) {root : RootModule ω μ} (haside : root.Aside)
    (frame : UInt32) : Matches p (run.processAudio root frame) s where
  params := h.params.trans (haside.params _ _).symm
  queue := h.queue.trans (haside.queue _ _).symm
  poll := h.poll
  processing := h.processing

/-- An event is processed on both levels. -/
theorem Matches.event (h : Matches p run s) (stream : κ) {ev : InEvent} {todo : List InEvent}
    (halive : s.terminated = false) (htodo : s.todo = some (ev :: todo)) (evIdx : UInt32) :
    ∃ s', ClientView.step stream s .processEvent = some s' ∧
      match run.processEvent evIdx ev with
      | .ok run' => Matches p run' s' ∧ s'.todo = some todo ∧ s'.terminated = false
      | .error (.terminated run') => Matches p run' s' ∧ s'.terminated = true
      | .error .cutOff => False := by
  simp only [ClientView.step, halive, h.processing, htodo, Bool.false_eq_true, if_false,
    Run.processEvent, ← h.params, Run.say]
  cases HostEvents.processEvent s.client.params ev.coreSpace ev.ev with
  | terminated => exact ⟨_, rfl, ⟨h.params, h.queue, h.poll, h.processing⟩, rfl⟩
  | done params pushed =>
    refine ⟨_, rfl, ⟨rfl, h.queue, ?_, rfl⟩, rfl, rfl⟩
    rw [h.poll]
    cases pushed with
    | none => simp [ClientView.pushToProcessQueue]
    | some w => simp [ClientView.pushToProcessQueue, List.foldl_append]

/-- What is to be done in a block: a step for each event, and none for the audio. -/
theorem perform_steps {plugin : PluginPtr} {cq : CqHandle} {params : ClientView.KeyedStore}
    {stream : κ} {root : RootModule ω μ} (haside : root.Aside) (xs : List (Indexed ⊕ Nat))
    (h : Matches p run s) (halive : s.terminated = false)
    (htodo : s.todo = some ((xs.filterMap Sum.getLeft?).map Prod.fst)) :
    ∃ n s', (ClientView.spec plugin cq params stream).run s (.replicate n .processEvent) =
      some s' ∧ Ends p s' ((perform root xs run).map fun run => (run.retStatus, run)) := by
  induction xs generalizing s run with
  | nil =>
    -- the call is over
    have hstep : (ClientView.spec plugin cq params stream).step s .processEvent =
        some { s with todo := none } := by
      simp [ClientView.spec, ClientView.step, halive, h.processing, htodo]
    refine ⟨1, { s with todo := none },
      (ClientView.spec plugin cq params stream).run_cons_of_step hstep [], ?_⟩
    exact ⟨⟨h.params, h.queue, h.poll, h.processing⟩, rfl, halive⟩
  | cons x xs ih =>
    cases x with
    | inr frame => exact ih (h.audio haside _) halive htodo
    | inl e =>
      obtain ⟨s₁, hstep, hends⟩ := h.event stream halive htodo (UInt32.ofNat e.2)
      have hstep : (ClientView.spec plugin cq params stream).step s .processEvent = some s₁ := hstep
      rw [perform]
      cases hout : run.processEvent (UInt32.ofNat e.2) e.1 with
      | error stop =>
        rw [hout] at hends
        refine ⟨1, s₁, (ClientView.spec plugin cq params stream).run_cons_of_step hstep [], ?_⟩
        cases stop with
        | terminated run' => exact hends
        | cutOff => exact hends.elim
      | ok run' =>
        rw [hout] at hends
        obtain ⟨hmatches, htodo', halive'⟩ := hends
        obtain ⟨n, s', hrun, hends'⟩ := ih hmatches halive' htodo'
        exact ⟨n + 1, s',
          ((ClientView.spec plugin cq params stream).run_cons_of_step hstep _).trans hrun, hends'⟩

end Events

/-! ## The block -/

/-- With a root module that keeps aside, `process` ends, and is a run of the steps of a block:
it begins, takes the updates of the clients with the answers of the host, and then the events of
the host one after another. The parameters, the queue of the clients and the process queue are
the same in the end; and the program is terminated on both levels or on neither. -/
theorem process_steps (plugin : PluginPtr) (cq : CqHandle) (params : ClientView.KeyedStore)
    (stream : κ) {root : RootModule ω μ} (haside : root.Aside) (b : Process ω) (st : State ω μ)
    {s : Sys κ} {fuel : Nat} (hfuel : rounds b < fuel) (halive : s.terminated = false)
    (htodo : s.todo = none) (hprocessing : s.client.processing = false)
    (hqueue : s.client.data.mClientsToPluginQueue = st.queue)
    (hparams : s.client.params = st.params) :
    ∃ (oks : List Bool) (n : Nat) (s' : Sys κ), (ClientView.spec plugin cq params stream).run s
        (.process b.frames_count b.in_events.events ::
          (oks.map .turn ++ .replicate n .processEvent)) = some s' ∧
      Ends s.poll s' (process root fuel b st) := by
  -- the updates of the clients
  obtain ⟨oks, t, hgui, ht, htqueue, htparams⟩ := ClientParams.processGuiEvents_turns b.out_events
    (g := { queue := st.queue, params := st.params, host := st.host }) hprocessing hqueue hparams
  obtain ⟨client, hclient, hturns⟩ := ClientParams.spec.run_cons hgui
  have hbegin : (ClientView.spec plugin cq params stream).step s
      (.process b.frames_count b.in_events.events) =
      some { s with
        client := client
        todo := some (ClientView.blockEvents b.frames_count.toNat 0 b.in_events.events) } := by
    have hclient : ClientParams.step s.client .processGuiEvents = some client := hclient
    simp [ClientView.spec, ClientView.step, halive, htodo, hclient]
  obtain ⟨s₁, hs₁, hclient₁, hpoll₁, htodo₁, halive₁⟩ :=
    @turns_run κ _ plugin cq params stream oks { s with
      client := client
      todo := some (ClientView.blockEvents b.frames_count.toNat 0 b.in_events.events) } t hturns
      halive
  -- the events of the host
  have hmatches : Matches s.poll (begin b st) s₁ := by
    refine ⟨?_, ?_, hpoll₁, ?_⟩
    · rw [hclient₁]
      exact htparams
    · rw [hclient₁]
      exact htqueue
    · rw [hclient₁]
      exact ht
  have hevents : s₁.todo = some (((toDo b (inOrder b)).filterMap Sum.getLeft?).map Prod.fst) := by
    rw [htodo₁, blockEvents_eq, toDo, inOrder, ← FrameSchedule.walk_eq_schedule,
      FrameSchedule.walk_events, Nat.zero_add]
  obtain ⟨n, s', hs', hends⟩ := @perform_steps κ ω μ _ s.poll s₁ (begin b st) plugin cq params
    stream root haside (toDo b (inOrder b)) hmatches halive₁ hevents
  refine ⟨oks, n, s', ?_, ?_⟩
  · refine ((ClientView.spec plugin cq params stream).run_cons_of_step hbegin _).trans ?_
    rw [(ClientView.spec plugin cq params stream).run_append, hs₁]
    exact hs'
  · rw [process_eq root b st hfuel]
    exact hends

/-- An update of the parameter 5. -/
def update : Api.ClientParam :=
  { event := .param, param := { param_id := 5, value := ⟨1⟩ }, timestamp := { seconds := 1 } }

/-- The update waits in the queue. -/
def queuedState : State Unit Unit :=
  ⟨⟨[.ofClientParam update], by decide⟩, (ClientView.oneParam 5).toParamStore, (), ()⟩

/-- The host sets the parameter 5 in the second of two frames. -/
def hostUpdate : Process Unit where
  frames_count := 2
  in_events := ⟨[⟨1, true, .paramValue ⟨5, some 1, ⟨2⟩⟩⟩], by decide⟩
  out_events := idleHost

theorem process_hostUpdate : ∃ status run,
    process sleeping 5 hostUpdate queuedState = .ok (status, run) ∧
      run.state.queue.elems = [] ∧ run.state.params.params.map (·.m_value) = [⟨2⟩] ∧
      run.pushed.length = 1 := by
  rw [process_eq sleeping hostUpdate queuedState (by decide)]
  exact ⟨_, _, rfl, rfl, rfl, rfl⟩

/-- The update of a client is taken from its queue, and the value that the host sets is the last
one, whose event is in the process queue. -/
theorem process_steps_two : ∃ s : Sys Nat,
    (ClientView.spec 1 0 (ClientView.oneParam 5) 7).run
      (ClientView.start 1 0 (ClientView.oneParam 5) 7)
      [.client (.pushClientParam [update]), .client .next, .client .tryPush] = some s ∧
    s.client.data.mClientsToPluginQueue = queuedState.queue ∧
    ∃ (oks : List Bool) (n : Nat) (s' : Sys Nat),
      (ClientView.spec 1 0 (ClientView.oneParam 5) 7).run s
        (.process hostUpdate.frames_count hostUpdate.in_events.events ::
          (oks.map .turn ++ .replicate n .processEvent)) = some s' ∧
      s'.client.data.mClientsToPluginQueue.elems = [] ∧
      s'.client.params.params.map (·.m_value) = [⟨2⟩] ∧
      s'.poll.data.mPluginProcessToClientsQueue.elems.length = 1 := by
  obtain ⟨s, hs⟩ : ∃ s, (ClientView.spec 1 0 (ClientView.oneParam 5) 7).run
      (ClientView.start 1 0 (ClientView.oneParam 5) 7)
      [.client (.pushClientParam [update]), .client .next, .client .tryPush] = some s := ⟨_, rfl⟩
  have hidle : s.terminated = false ∧ s.todo = none ∧ s.client.processing = false ∧
      s.client.data.mClientsToPluginQueue = queuedState.queue ∧
      s.client.params = queuedState.params ∧
      s.poll.data.mPluginProcessToClientsQueue = .empty := by
    cases hs
    exact ⟨rfl, rfl, rfl, rfl, rfl, rfl⟩
  rcases hidle with ⟨halive, htodo, hprocessing, hqueue, hparams, hempty⟩
  have haside : sleeping.Aside := ⟨fun _ _ => rfl, fun _ _ => rfl⟩
  obtain ⟨oks, n, s', hrun, hends⟩ := @process_steps Nat Unit Unit _ 1 0 (ClientView.oneParam 5) 7
    sleeping haside hostUpdate queuedState s 5 (by decide) halive htodo hprocessing hqueue hparams
  obtain ⟨status, run, hprocess, hempty', hvalue, hpushed⟩ := process_hostUpdate
  rw [hprocess] at hends
  rcases hends with ⟨⟨hparams', hqueue', hpoll, -⟩, -⟩
  refine ⟨s, hs, hqueue, oks, n, s', hrun, ?_, ?_, ?_⟩
  · rw [hqueue', hempty']
  · rw [hparams', hvalue]
  · obtain ⟨ev, hev⟩ := List.length_eq_one_iff.mp hpushed
    rw [hpoll, hev]
    simp only [List.foldl_cons, List.foldl_nil, SharedData.pushProcess, hempty]
    rfl

end ClapRci.ProcessBlock
