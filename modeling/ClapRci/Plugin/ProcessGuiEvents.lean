import ClapRci.Plugin.ClientParamEffects

/-!
# One call of `processGuiEvents` (`plugin/coreplugin.cpp`)

The loop of `processGuiEvents` over a given content of `mClientsToPluginQueue`, with a host
output queue that may refuse any push. An update is popped and applied before it is pushed to
the host, and a refused push ends the call: the sequence of values set is the sequence
reported exactly when the host accepts every push it is asked for (`reported_iff`).
-/

namespace ClapRci.ClientParams

/-- `clap_output_events`: `try_push` on the state of the host. -/
structure OutEvents (ω : Type) where
  try_push : ω → OutParamValue → Bool × ω

/-- What a call of `processGuiEvents` works on: the queue, the parameters and the host; and
what it did: the events popped, the calls of `setValue` by the id and the value, and the events
the host accepted. -/
structure Gui (ω : Type) where
  queue : BoundedFifo 64 ClientParamWrapper
  params : ParamStore
  host : ω
  popped : List ClientParamWrapper := []
  applied : List (UInt32 × Double) := []
  accepted : List OutParamValue := []

variable {ω : Type}

/-- The loop `while (pop(clientEv))`, cut off after `fuel` rounds. A refused push returns. -/
def processGuiLoop (ov : OutEvents ω) : Nat → Gui ω → Gui ω
  | 0, g => g
  | fuel + 1, g =>
    match g.queue.pop with
    | (none, _) => g
    | (some clientEv, queue) =>
      let g := { g with queue := queue, popped := g.popped ++ [clientEv] }
      match processGuiEvent g.params clientEv with
      | (params, none) => processGuiLoop ov fuel { g with params := params }
      | (params, some out) =>
        let g := { g with params := params,
                          applied := g.applied ++ [(clientEv.paramId, clientEv.value)] }
        match ov.try_push g.host out with
        | (true, host) =>
          processGuiLoop ov fuel { g with host := host, accepted := g.accepted ++ [out] }
        | (false, host) => { g with host := host }

/-- `processGuiEvents(ov)`: the pop after the last event ends the loop. -/
def processGuiEvents (ov : OutEvents ω) (g : Gui ω) : Gui ω :=
  processGuiLoop ov (g.queue.elems.length + 1) g

/-! ## What is promised -/

/-- The event that tells the host of an update; `none` if the update sets no parameter. -/
def report (params : ParamStore) (clientEv : ClientParamWrapper) : Option OutParamValue :=
  (processGuiEvent params clientEv).2

/-- The host accepts these events, pushed one after another. -/
def AcceptsAll (ov : OutEvents ω) : ω → List OutParamValue → Prop
  | _, [] => True
  | host, out :: outs =>
    (ov.try_push host out).1 = true ∧ AcceptsAll ov (ov.try_push host out).2 outs

/-- After a call from `g` to `g'` the values set are those the host accepted, every popped
update of a known parameter is among them, and what was not popped is still queued. -/
structure Reported (g g' : Gui ω) : Prop where
  applied : g'.applied = g'.accepted.map fun out => (out.param_id, out.value)
  known : g'.popped.filterMap (report g.params) = g'.accepted
  queued : g'.popped ++ g'.queue.elems = g.queue.elems

/-! ## One round -/

theorem paramsHashed_processGuiEvent (params : ParamStore) (clientEv : ClientParamWrapper) :
    (processGuiEvent params clientEv).1.paramsHashed = params.paramsHashed := by
  unfold processGuiEvent
  split
  · split
    · rfl
    · rfl
  all_goals rfl

theorem report_eq (params : ParamStore) (clientEv : ClientParamWrapper) :
    report params clientEv =
      if clientEv.ev = .param then
        (params.paramsHashed clientEv.paramId).map fun param =>
          { param_id := clientEv.paramId, value := clientEv.value, cookie := param }
      else none := by
  unfold report processGuiEvent
  split
  · rename_i hev
    rw [if_pos hev, Params.getParameterById]
    cases params.paramsHashed clientEv.paramId with
    | none => rfl
    | some param => rfl
  · rename_i hev
    simp [hev]
  · rename_i hev
    simp [hev]
  · rename_i hev _ _
    exact (if_neg hev).symm

/-- Setting a value changes no report. -/
theorem report_processGuiEvent (params : ParamStore) (clientEv : ClientParamWrapper) :
    report (processGuiEvent params clientEv).1 = report params := by
  funext ev
  rw [report_eq, report_eq, paramsHashed_processGuiEvent]

/-- A report names the parameter and the value set. -/
theorem report_values {params : ParamStore} {clientEv : ClientParamWrapper} {out : OutParamValue}
    (h : report params clientEv = some out) :
    (out.param_id, out.value) = (clientEv.paramId, clientEv.value) := by
  rw [report_eq, Option.ite_none_right_eq_some, Option.map_eq_some_iff] at h
  rcases h with ⟨-, param, -, rfl⟩
  rfl

/-! ## The rounds of a call -/

/-- `clientEv` has been popped, and its value set if it has one to set. -/
def Gui.took (g : Gui ω) (queue : BoundedFifo 64 ClientParamWrapper)
    (clientEv : ClientParamWrapper) : Gui ω :=
  { g with queue := queue, popped := g.popped ++ [clientEv],
           params := (processGuiEvent g.params clientEv).1 }

/-- The value has been set and the host been asked. -/
def Gui.asked (g : Gui ω) (clientEv : ClientParamWrapper) (host : ω) : Gui ω :=
  { g with applied := g.applied ++ [(clientEv.paramId, clientEv.value)], host := host }

/-- The host has accepted the report. -/
def Gui.told (g : Gui ω) (clientEv : ClientParamWrapper) (host : ω) (out : OutParamValue) :
    Gui ω :=
  { g.asked clientEv host with accepted := g.accepted ++ [out] }

/-- How the loop comes from one state to its last: the queue is empty, or the event popped is
ignored, or its report is accepted, or it is refused. -/
inductive Rounds (ov : OutEvents ω) : Gui ω → Gui ω → Prop where
  | empty {g : Gui ω} (hempty : g.queue.elems = []) : Rounds ov g g
  | ignored {g g' : Gui ω} {queue : BoundedFifo 64 ClientParamWrapper}
    {clientEv : ClientParamWrapper} (hpop : g.queue.pop = (some clientEv, queue))
    (hreport : report g.params clientEv = none) (hrest : Rounds ov (g.took queue clientEv) g') :
    Rounds ov g g'
  | accepted {g g' : Gui ω} {queue : BoundedFifo 64 ClientParamWrapper}
    {clientEv : ClientParamWrapper} {out : OutParamValue}
    (hpop : g.queue.pop = (some clientEv, queue)) (hreport : report g.params clientEv = some out)
    (hok : (ov.try_push g.host out).1 = true)
    (hrest : Rounds ov ((g.took queue clientEv).told clientEv (ov.try_push g.host out).2 out) g') :
    Rounds ov g g'
  | refused {g : Gui ω} {queue : BoundedFifo 64 ClientParamWrapper}
    {clientEv : ClientParamWrapper} {out : OutParamValue}
    (hpop : g.queue.pop = (some clientEv, queue)) (hreport : report g.params clientEv = some out)
    (hok : (ov.try_push g.host out).1 = false) :
    Rounds ov g ((g.took queue clientEv).asked clientEv (ov.try_push g.host out).2)

/-- The queue gets shorter by one in each round, so that the loop comes to its end. -/
theorem processGuiLoop_rounds (ov : OutEvents ω) {fuel : Nat} {g : Gui ω}
    (hfuel : g.queue.elems.length < fuel) : Rounds ov g (processGuiLoop ov fuel g) := by
  induction fuel generalizing g with
  | zero => omega
  | succ fuel ih =>
    cases helems : g.queue.elems with
    | nil =>
      -- the pop that finds nothing ends the loop
      have hloop : processGuiLoop ov (fuel + 1) g = g := by
        simp [processGuiLoop, BoundedFifo.pop, helems]
      rw [hloop]
      exact .empty helems
    | cons clientEv rest =>
      obtain ⟨queue, hpop, hrest⟩ := BoundedFifo.pop_of_cons helems
      have hfuel' : queue.elems.length < fuel := by
        rw [helems, List.length_cons] at hfuel
        rw [hrest]
        omega
      rcases hev : processGuiEvent g.params clientEv with ⟨params, out⟩
      have hreport : report g.params clientEv = out := by rw [report, hev]
      have htook : g.took queue clientEv =
          { g with queue := queue, popped := g.popped ++ [clientEv], params := params } := by
        rw [Gui.took, hev]
      rw [processGuiLoop, hpop]
      simp only [hev]
      cases out with
      | none =>
        refine .ignored hpop hreport ?_
        rw [htook]
        exact ih hfuel'
      | some out =>
        rcases hpush : ov.try_push g.host out with ⟨ok, host⟩
        cases ok with
        | true =>
          simp only [hpush]
          refine .accepted hpop hreport (by rw [hpush]) ?_
          rw [htook, hpush]
          exact ih hfuel'
        | false =>
          simp only [hpush]
          have hlast := Rounds.refused hpop hreport (by rw [hpush])
          rw [htook, hpush] at hlast
          exact hlast

/-! ## The whole call -/

/-- What the loop does when the host accepts everything. -/
structure Drained (g g' : Gui ω) : Prop where
  queue : g'.queue.elems = []
  popped : g'.popped = g.popped ++ g.queue.elems
  accepted : g'.accepted = g.accepted ++ g.queue.elems.filterMap (report g.params)
  applied : g'.applied = g.applied ++
    (g.queue.elems.filterMap (report g.params)).map fun out => (out.param_id, out.value)

theorem Rounds.drained {ov : OutEvents ω} {g g' : Gui ω} (h : Rounds ov g g')
    (hall : AcceptsAll ov g.host (g.queue.elems.filterMap (report g.params))) :
    Drained g g' := by
  induction h with
  | empty hempty =>
    constructor
    · exact hempty
    all_goals simp [hempty]
  | @ignored g g' queue clientEv hpop hreport hrest ih =>
    have hqueue := BoundedFifo.elems_of_pop hpop
    rw [hqueue, List.filterMap_cons, hreport] at hall
    have hd := ih (by simpa only [Gui.took, report_processGuiEvent] using hall)
    constructor
    · exact hd.queue
    · rw [hd.popped]
      simp [Gui.took, hqueue]
    · rw [hd.accepted]
      simp [Gui.took, report_processGuiEvent, hqueue, hreport]
    · rw [hd.applied]
      simp [Gui.took, report_processGuiEvent, hqueue, hreport]
  | @accepted g g' queue clientEv out hpop hreport hok hrest ih =>
    have hqueue := BoundedFifo.elems_of_pop hpop
    rw [hqueue, List.filterMap_cons, hreport] at hall
    have hd := ih
      (by simpa only [Gui.took, Gui.asked, Gui.told, report_processGuiEvent] using hall.2)
    constructor
    · exact hd.queue
    · rw [hd.popped]
      simp [Gui.took, Gui.asked, Gui.told, hqueue]
    · rw [hd.accepted]
      simp [Gui.took, Gui.asked, Gui.told, report_processGuiEvent, hqueue, hreport]
    · rw [hd.applied]
      simp [Gui.took, Gui.asked, Gui.told, report_processGuiEvent, hqueue, hreport,
        report_values hreport]
  | @refused g queue clientEv out hpop hreport hok =>
    rw [BoundedFifo.elems_of_pop hpop, List.filterMap_cons, hreport] at hall
    cases hok.symm.trans hall.1

/-- When the host refuses a push, one value more has been set than was accepted. -/
theorem Rounds.length_applied {ov : OutEvents ω} {g g' : Gui ω} (h : Rounds ov g g')
    (hno : ¬ AcceptsAll ov g.host (g.queue.elems.filterMap (report g.params))) :
    g'.applied.length + g.accepted.length = g'.accepted.length + g.applied.length + 1 := by
  induction h with
  | empty hempty =>
    rw [hempty] at hno
    exact absurd trivial hno
  | @ignored g g' queue clientEv hpop hreport hrest ih =>
    rw [BoundedFifo.elems_of_pop hpop, List.filterMap_cons, hreport] at hno
    exact ih (by simpa only [Gui.took, report_processGuiEvent] using hno)
  | @accepted g g' queue clientEv out hpop hreport hok hrest ih =>
    rw [BoundedFifo.elems_of_pop hpop, List.filterMap_cons, hreport] at hno
    have hlength := ih (by
      intro hall
      simp only [Gui.took, Gui.asked, Gui.told, report_processGuiEvent] at hall
      exact hno ⟨hok, hall⟩)
    simp only [Gui.took, Gui.asked, Gui.told, List.length_append, List.length_singleton] at hlength
    omega
  | refused hpop hreport hok =>
    -- the call returns here: the value is set, and nobody was told
    simp only [Gui.took, Gui.asked, List.length_append, List.length_singleton]
    omega

/-- The values set are those reported to the host exactly when the host accepts, one after
another, the events that report the queued updates of known parameters. -/
theorem reported_iff (ov : OutEvents ω) (queue : BoundedFifo 64 ClientParamWrapper)
    (params : ParamStore) (host : ω) :
    Reported ⟨queue, params, host, [], [], []⟩
        (processGuiEvents ov ⟨queue, params, host, [], [], []⟩) ↔
      AcceptsAll ov host (queue.elems.filterMap (report params)) := by
  constructor
  · intro h
    by_contra hno
    have hlen := (processGuiLoop_rounds ov (g := ⟨queue, params, host, [], [], []⟩)
      (Nat.lt_add_one queue.elems.length)).length_applied hno
    have happlied := congrArg List.length h.applied
    rw [List.length_map] at happlied
    simp only [processGuiEvents, List.length_nil] at happlied hlen
    omega
  · intro h
    rcases (processGuiLoop_rounds ov (g := ⟨queue, params, host, [], [], []⟩)
      (Nat.lt_add_one queue.elems.length)).drained h with ⟨hqueue, hpopped, haccepted, happlied⟩
    simp only [List.nil_append] at hpopped haccepted happlied
    constructor
    · rw [processGuiEvents, happlied, haccepted]
    · rw [processGuiEvents, hpopped, haccepted]
    · rw [processGuiEvents, hpopped, hqueue, List.append_nil]

/-- A client has sent one update to the parameter 1 of a plugin. -/
def oneUpdate : BoundedFifo 64 ClientParamWrapper := ⟨[{ ev := .param, paramId := 1 }], by decide⟩

/-- A host that refuses every push. -/
def refusingHost : OutEvents Unit := ⟨fun _ _ => (false, ())⟩

/-- The value is set, the update is gone from the queue, and the host has not accepted it. -/
theorem reported_fails : ¬ ∀ (ov : OutEvents Unit) (queue : BoundedFifo 64 ClientParamWrapper)
    (params : ParamStore) (host : Unit),
    Reported ⟨queue, params, host, [], [], []⟩
      (processGuiEvents ov ⟨queue, params, host, [], [], []⟩) := by
  intro h
  have happlied := congrArg List.length (h refusingHost oneUpdate twoParams ()).applied
  revert happlied
  decide

/-! ## The call as a run of turns -/

/-- A turn of the audio thread that pops an event. -/
theorem step_turn_popped {g : Gui ω} {s : Sys} {queue : BoundedFifo 64 ClientParamWrapper}
    {clientEv : ClientParamWrapper} (hprocessing : s.processing = true)
    (hqueue : s.data.mClientsToPluginQueue = g.queue) (hparams : s.params = g.params)
    (hpop : g.queue.pop = (some clientEv, queue)) (ok : Bool) :
    ∃ t, spec.step s (.turn ok) = some t ∧
      t.processing = ((report g.params clientEv).isNone || ok) ∧
      t.data.mClientsToPluginQueue = queue ∧
      t.params = (processGuiEvent g.params clientEv).1 := by
  rcases hev : processGuiEvent g.params clientEv with ⟨params, out⟩
  cases out with
  | none => simp [spec, step, report, hprocessing, hqueue, hparams, hpop, hev]
  | some out => simp [spec, step, report, hprocessing, hqueue, hparams, hpop, hev]

theorem Rounds.turns {ov : OutEvents ω} {g g' : Gui ω} (h : Rounds ov g g') {s : Sys}
    (hprocessing : s.processing = true) (hqueue : s.data.mClientsToPluginQueue = g.queue)
    (hparams : s.params = g.params) :
    ∃ (oks : List Bool) (t : Sys), spec.run s (oks.map .turn) = some t ∧ t.processing = false ∧
      t.data.mClientsToPluginQueue = g'.queue ∧ t.params = g'.params := by
  induction h generalizing s with
  | @empty g hempty =>
    have hstep : spec.step s (.turn true) = some { s with processing := false } := by
      simp [spec, step, hprocessing, hqueue, BoundedFifo.pop, hempty]
    refine ⟨[true], { s with processing := false }, ?_, rfl, hqueue, hparams⟩
    exact spec.run_cons_of_step hstep []
  | ignored hpop hreport hrest ih =>
    rcases step_turn_popped hprocessing hqueue hparams hpop true with ⟨u, hstep, hgoes, hu⟩
    rcases ih (by rw [hgoes, Bool.or_true]) hu.1 hu.2 with ⟨oks, t, hrun, ht⟩
    exact ⟨true :: oks, t, (spec.run_cons_of_step hstep _).trans hrun, ht⟩
  | accepted hpop hreport hok hrest ih =>
    rcases step_turn_popped hprocessing hqueue hparams hpop true with ⟨u, hstep, hgoes, hu⟩
    rcases ih (by rw [hgoes, Bool.or_true]) hu.1 hu.2 with ⟨oks, t, hrun, ht⟩
    exact ⟨true :: oks, t, (spec.run_cons_of_step hstep _).trans hrun, ht⟩
  | refused hpop hreport hok =>
    -- the label is what the host answers
    rcases step_turn_popped hprocessing hqueue hparams hpop false with ⟨u, hstep, hgoes, hu⟩
    refine ⟨[false], u, spec.run_cons_of_step hstep [], ?_, hu⟩
    rw [hgoes, hreport]
    rfl

/-- On the audio thread of `ClientParams.spec` a call is a run of turns, with the answers of
the host for their labels. -/
theorem processGuiEvents_turns (ov : OutEvents ω) {g : Gui ω} {s : Sys}
    (hprocessing : s.processing = false) (hqueue : s.data.mClientsToPluginQueue = g.queue)
    (hparams : s.params = g.params) :
    ∃ (oks : List Bool) (t : Sys),
      spec.run s (.processGuiEvents :: oks.map .turn) = some t ∧ t.processing = false ∧
      t.data.mClientsToPluginQueue = (processGuiEvents ov g).queue ∧
      t.params = (processGuiEvents ov g).params := by
  have hbegin : spec.step s .processGuiEvents = some { s with processing := true } := by
    simp [spec, step, hprocessing]
  obtain ⟨oks, t, hrun, ht⟩ := (processGuiLoop_rounds ov (Nat.lt_add_one _)).turns
    (s := { s with processing := true }) rfl hqueue hparams
  exact ⟨oks, t, (spec.run_cons_of_step hbegin _).trans hrun, ht⟩

end ClapRci.ClientParams
