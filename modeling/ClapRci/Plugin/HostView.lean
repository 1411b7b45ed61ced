import ClapRci.Plugin.HostToClient
import ClapRci.Plugin.ProcessGuiEvents

/-!
# What the host knows of the parameters (`plugin/coreplugin.cpp`)

The host sets parameters with the events of its blocks. What clients set it learns from the
events that `processGuiEvents` pushes to it, each of which it may refuse. Here both go on side
by side, with the clients and the poll loop in between.

* `HostInv`: the changes of the parameters and the news of the host are the same list;
* `host_view`: the host is wrong about a parameter only after it has refused the last change
  of it, and it is asked to take another report only in another block.
-/

namespace ClapRci.ClientView

open ClientParams (newest report)

/-! ## The news of the host -/

/-- A change that the host hears of: a value it has set, or an event pushed to it, with its
answer. -/
inductive News where
  | own (id : UInt32) (value : Double)
  | report (out : OutParamValue) (taken : Bool)

/-- The parameter and its new value. -/
def News.change : News → UInt32 × Double
  | .own id value => (id, value)
  | .report out _ => (out.param_id, out.value)

/-- The host knows of it. -/
def News.known : News → Bool
  | .own _ _ => true
  | .report _ taken => taken

/-- The event pushed, with the answer. -/
def News.pushed : News → Option (OutParamValue × Bool)
  | .own _ _ => none
  | .report out taken => some (out, taken)

/-- The last of the news of a parameter. -/
def lastNews (id : UInt32) (ns : List News) : Option News :=
  (ns.filter fun n => n.change.1 = id).getLast?

/-- What the host takes the value to be: the last one it knows of, or the one at the start. -/
def hostValue (params : Params) (ns : List News) (id : UInt32) : Option Double :=
  (params.paramsValue id).map fun v =>
    (lastValue id ((ns.filter News.known).map News.change)).getD v

section News

variable {κ : Type} [LinearOrder κ]

/-- The news of a step. -/
def news (s : Sys κ) : Lbl κ → List News
  | .turn ok =>
    ((s.client.queue.head?.bind (report s.client.params)).map fun out => .report out ok).toList
  | .processEvent =>
    ((s.nextEvent.bind (hostSet s.client.params)).map fun c => .own c.1 c.2).toList
  | _ => []

/-- A block begins, and with it a call of `processGuiEvents`. -/
def Lbl.isBlock : Lbl κ → Bool
  | .process _ _ => true
  | _ => false

end News

/-- After a run with these news in so many blocks, from these parameters. -/
structure HostView {κ : Type} [LinearOrder κ] (params : ParamStore) (ns : List News)
    (blocks : Nat) (s : Sys κ) : Prop where
  /-- The host hears of every change. -/
  changes : s.changes = ns.map News.change
  /-- The events pushed to it are those of the updates popped, in order. -/
  pushed : s.client.reported = ns.filterMap News.pushed
  reports : s.client.reported.map Prod.fst = s.client.popped.filterMap (report params)
  /-- And these are the updates that were newest when they came, as far as they are not yet
  on their way. -/
  inOrder : s.client.popped ++ s.client.queue ++
    s.client.producer.pushing.map ClientParamWrapper.ofClientParam =
      (newest s.client.received).map ClientParamWrapper.ofClientParam
  /-- A parameter has the last value it was set to. -/
  value : ∀ id, s.client.params.paramsValue id =
    (params.paramsValue id).map fun v => (lastValue id s.changes).getD v
  /-- If the host is wrong about it, the last change was an update whose report it refused. -/
  wrong : ∀ id, hostValue params.toParams ns id ≠ s.client.params.paramsValue id →
    ∃ out, lastNews id ns = some (.report out false) ∧
      s.client.params.paramsValue id = some out.value
  /-- A report refused is the last of its block. -/
  refused : ns.countP (fun n => !n.known) ≤ blocks

/-! ## Lists of news -/

theorem lastNews_concat (ns : List News) (n : News) (id : UInt32) :
    lastNews id (ns ++ [n]) = if id = n.change.1 then some n else lastNews id ns := by
  by_cases hid : id = n.change.1
  · simp [lastNews, hid]
  · simp [lastNews, hid, Ne.symm hid]

theorem lastValue_change (ns : List News) (id : UInt32) :
    lastValue id (ns.map News.change) = (lastNews id ns).map fun n => n.change.2 := by
  induction ns using List.reverseRecOn with
  | nil => rfl
  | append_singleton ns n ih =>
    rw [List.map_append, List.map_cons, List.map_nil, lastValue_concat, lastNews_concat, ih]
    split <;> rfl

/-- Where the last news is known, or there is none, the host is up to date. -/
theorem lastValue_known (ns : List News) (id : UInt32)
    (h : ∀ n, lastNews id ns = some n → n.known = true) :
    lastValue id ((ns.filter News.known).map News.change) =
      lastValue id (ns.map News.change) := by
  induction ns using List.reverseRecOn with
  | nil => rfl
  | append_singleton ns n ih =>
    rw [List.filter_append, List.map_append, List.map_append, List.map_cons, List.map_nil,
      lastValue_concat]
    by_cases hid : id = n.change.1
    · have hknown : n.known = true := h n (by rw [lastNews_concat, if_pos hid])
      simp only [List.filter_cons, hknown, if_true, List.filter_nil, List.map_cons, List.map_nil]
      rw [lastValue_concat, if_pos hid, if_pos hid]
    · have hlast : lastNews id (ns ++ [n]) = lastNews id ns := by
        rw [lastNews_concat, if_neg hid]
      rw [hlast] at h
      rw [if_neg hid, ← ih h]
      cases hknown : n.known with
      | false => simp [hknown]
      | true =>
        simp only [List.filter_cons, hknown, if_true, List.filter_nil, List.map_cons,
          List.map_nil]
        rw [lastValue_concat, if_neg hid]

/-! ## The parameters -/

/-- An update that pushes nothing to the host sets nothing. -/
theorem clientSet_of_report_none {params : ParamStore} {clientEv : ClientParamWrapper}
    (h : report params clientEv = none) : clientSet params clientEv = none := by
  rw [ClientParams.report_eq] at h
  by_cases hev : clientEv.ev = .param
  · rw [if_pos hev, Option.map_eq_none_iff] at h
    simp [clientSet, Params.getParameterById, h]
  · exact if_neg hev

/-- What is pushed for an update is its value, and the value is set. -/
theorem paramsValue_of_report {params : ParamStore} {clientEv : ClientParamWrapper}
    {out : OutParamValue} (h : report params clientEv = some out) :
    (∃ ptr, params.paramsHashed out.param_id = some ptr) ∧
      clientSet params clientEv = some (out.param_id, out.value) ∧
      ∀ id, (ClientParams.processGuiEvent params clientEv).1.paramsValue id =
        if id = out.param_id then some out.value else params.paramsValue id := by
  rw [ClientParams.report_eq, Option.ite_none_right_eq_some, Option.map_eq_some_iff] at h
  rcases h with ⟨hev, ptr, hptr, rfl⟩
  refine ⟨⟨ptr, hptr⟩, ?_, ?_⟩
  · simp [clientSet, hev, Params.getParameterById, hptr]
  · intro id
    have happly := ClientParams.applyEvent_of_known hev hptr
    rw [ClientParams.applyEvent] at happly
    rw [happly, params.paramsValue_setValue hptr]

/-- What is pushed is decided by the names. -/
theorem report_of_sameNames {params params' : ParamStore}
    (h : SameNames params.toParams params'.toParams) : report params' = report params := by
  funext clientEv
  rw [ClientParams.report_eq, ClientParams.report_eq, h.hashed]

/-! ## Every reachable state -/

/-- The parts of `HostView` that one step after another keeps, on the clients' side of the
system and the list of changes. -/
structure HostInv (params : ParamStore) (ns : List News) (blocks : Nat)
    (c : ClientParams.Sys) (cs : List (UInt32 × Double)) : Prop where
  client : ClientParams.Inv c
  names : SameNames params.toParams c.params.toParams
  changes : cs = ns.map News.change
  pushed : c.reported = ns.filterMap News.pushed
  reports : c.reported.map Prod.fst = c.popped.filterMap (report params)
  value : ∀ id, c.params.paramsValue id =
    (params.paramsValue id).map fun v => (lastValue id cs).getD v
  refused : ns.countP (fun n => !n.known) + c.processing.toNat ≤ blocks

section Steps

variable {params : ParamStore} {ns : List News} {blocks : Nat} {c c' : ClientParams.Sys}
  {cs : List (UInt32 × Double)}

/-- A parameter is set to the last value in the list. -/
theorem HostInv.value_set (h : HostInv params ns blocks c cs) {params' : ParamStore}
    {id : UInt32} {value : Double} {ptr : ParameterPtr}
    (hptr : c.params.paramsHashed id = some ptr)
    (hvalue : ∀ id', params'.paramsValue id' =
      if id' = id then some value else c.params.paramsValue id') (id' : UInt32) :
    params'.paramsValue id' =
      (params.paramsValue id').map fun v => (lastValue id' (cs ++ [(id, value)])).getD v := by
  rw [hvalue, lastValue_concat]
  by_cases hid : id' = id
  · rw [h.names.hashed] at hptr
    rcases params.paramsValue_isSome hptr with ⟨v, hv⟩
    simp [hid, hv]
  · rw [if_neg hid, if_neg hid]
    exact h.value id'

/-- The clients' side of the queue. -/
theorem HostInv.push (h : HostInv params ns blocks c cs) {l : ClientParams.Lbl}
    (hl : isClient l = true) (hstep : ClientParams.step c l = some c') :
    HostInv params ns blocks c' cs := by
  have hinv := ClientParams.inv_step c l c' h.client hstep
  cases ClientParams.step_moves hstep with
  | empty | popped | entered => cases hl
  | _ => exact { h with client := hinv }

/-- `processGuiEvents` is called. -/
theorem HostInv.block (h : HostInv params ns blocks c cs)
    (hstep : ClientParams.step c .processGuiEvents = some c') :
    HostInv params ns (blocks + 1) c' cs := by
  have hinv := ClientParams.inv_step c _ c' h.client hstep
  have hrefused := h.refused
  cases ClientParams.step_moves hstep with
  | entered hprocessing =>
    rw [hprocessing] at hrefused
    refine { h with client := hinv, refused := ?_ }
    simpa using hrefused

/-- A turn of its loop: it ends, or takes an update from the queue and tells the host. -/
theorem HostInv.turn (h : HostInv params ns blocks c cs) {ok : Bool}
    (hstep : ClientParams.step c (.turn ok) = some c') :
    HostInv params
      (ns ++ ((c.queue.head?.bind (report c.params)).map fun out =>
        News.report out ok).toList) blocks c'
      (cs ++ (c.queue.head?.bind (clientSet c.params)).toList) := by
  have hinv := ClientParams.inv_step c _ c' h.client hstep
  have hrefused := h.refused
  simp only [ClientParams.step] at hstep
  split at hstep
  · cases hstep
  · rename_i hprocessing
    have hprocessing : c.processing = true := by simpa using hprocessing
    cases hqueue : c.queue with
    | nil =>
      simp only [BoundedFifo.pop, hqueue, List.head?_nil] at hstep
      cases hstep
      simp only [List.head?_nil, Option.bind_none, Option.map_none, Option.toList_none,
        List.append_nil]
      exact { h with client := hinv, refused := le_trans (Nat.le_add_right _ _) hrefused }
    | cons clientEv rest =>
      rcases BoundedFifo.pop_of_cons hqueue with ⟨queue, hpop, hrest⟩
      rw [hpop] at hstep
      simp only [List.head?_cons, Option.bind_some]
      have hnames := h.names.trans (sameNames_processGuiEvent c.params clientEv)
      have hreport := congrFun (report_of_sameNames h.names) clientEv
      rcases hev : ClientParams.processGuiEvent c.params clientEv with ⟨params', out⟩
      have hout : report c.params clientEv = out := by rw [report, hev]
      rw [hev] at hnames
      cases out with
      | none =>
        simp only [hev] at hstep
        cases hstep
        have hsame : params' = c.params := by
          have hsame := processGuiEvent_params (clientSet_of_report_none hout)
          rwa [hev] at hsame
        rw [hout, clientSet_of_report_none hout]
        simp only [Option.map_none, Option.toList_none, List.append_nil]
        refine { h with client := hinv, names := hnames, reports := ?_, value := ?_ }
        · rw [h.reports, List.filterMap_append]
          simp [← hreport, hout]
        · rw [hsame]
          exact h.value
      | some out =>
        simp only [hev] at hstep
        cases hstep
        rcases paramsValue_of_report hout with ⟨⟨ptr, hptr⟩, hset, hvalue⟩
        rw [hev] at hvalue
        rw [hout, hset]
        refine ⟨hinv, hnames, ?_, ?_, ?_, ?_, ?_⟩
        · simp [h.changes, News.change]
        · simp [h.pushed, News.pushed]
        · rw [List.map_append, h.reports, List.filterMap_append]
          simp [← hreport, hout]
        · exact h.value_set hptr hvalue
        · -- the loop goes on exactly if the host takes the report
          rw [hprocessing] at hrefused
          cases ok with
          | false => simpa [News.known] using hrefused
          | true => simpa [News.known] using hrefused

/-- An event of the host is processed. -/
theorem HostInv.processEvent (h : HostInv params ns blocks c cs)
    (hkeyed : Keyed c.params) {ev : InEvent} {params' : ParamStore}
    {w : Option ServerEventWrapper}
    (hout : HostEvents.processEvent c.params ev.coreSpace ev.ev = .done params' w) :
    HostInv params
      (ns ++ ((hostSet c.params ev).map fun c => News.own c.1 c.2).toList) blocks
      { c with params := params' } (cs ++ (hostSet c.params ev).toList) := by
  have hnames := h.names.trans (sameNames_processEvent hout)
  have hinv : ClientParams.Inv { c with params := params' } :=
    ⟨h.client.stamp, h.client.accepted, h.client.received, h.client.fifo⟩
  have hmoves := processEvent_moves hkeyed ev
  rw [hout] at hmoves
  cases hmoves with
  | set id value ptr w hset hmod hptr hw =>
    rw [hset]
    refine ⟨hinv, hnames, ?_, ?_, h.reports, ?_, ?_⟩
    · simp [h.changes, News.change]
    · simp [h.pushed, News.pushed]
    · exact h.value_set hptr (c.params.paramsValue_setValue hptr value)
    · simpa [News.known] using h.refused
  | modulated id amount ptr w hset hmod hptr hw =>
    rw [hset]
    simp only [Option.map_none, Option.toList_none, List.append_nil]
    refine { h with client := hinv, names := hnames, value := ?_ }
    intro id'
    rw [← h.value id']
    exact c.params.paramsValue_setModulation hptr amount id'
  | other _ hset hmod hw =>
    rw [hset]
    simp only [Option.map_none, Option.toList_none, List.append_nil]
    exact h

end Steps

section Runs

variable {κ : Type} [LinearOrder κ] {plugin : PluginPtr} {cq : CqHandle} {store : KeyedStore}
  {params : ParamStore} {stream : κ} {ns : List News} {blocks : Nat} {s s' : Sys κ}

/-- Every step adds its news, and a block if it begins one. -/
theorem HostInv.step (h : HostInv params ns blocks s.client s.changes)
    (hkeyed : Keyed s.client.params) {l : Lbl κ} (hstep : step stream s l = some s') :
    HostInv params (ns ++ news s l) (blocks + [l].countP Lbl.isBlock) s'.client s'.changes := by
  cases l with
  | process frames_count in_events =>
    simp only [ClientView.step] at hstep
    split at hstep
    · cases hstep
    split at hstep
    · cases hstep
    · rcases Option.map_eq_some_iff.mp hstep with ⟨client, hm, rfl⟩
      simp only [news, List.append_nil]
      exact h.block hm
  | turn ok =>
    simp only [ClientView.step] at hstep
    split at hstep
    · cases hstep
    · rcases Option.map_eq_some_iff.mp hstep with ⟨client, hm, rfl⟩
      exact h.turn hm
  | processEvent =>
    simp only [ClientView.step] at hstep
    split at hstep
    · cases hstep
    split at hstep
    · cases hstep
    split at hstep
    · cases hstep
    · rename_i htodo
      cases hstep
      simpa [news, Sys.nextEvent, htodo, Lbl.isBlock] using h
    · rename_i ev todo htodo
      have hnews : news s (.processEvent : Lbl κ) =
          ((hostSet s.client.params ev).map fun c => News.own c.1 c.2).toList := by
        simp [news, Sys.nextEvent, htodo]
      have happlied : applied s (.processEvent : Lbl κ) = hostSet s.client.params ev := by
        simp [applied, Sys.nextEvent, htodo]
      rw [hnews]
      cases hout : HostEvents.processEvent s.client.params ev.coreSpace ev.ev with
      | terminated =>
        have hmoves := processEvent_moves hkeyed ev
        rw [hout] at hmoves hstep
        cases hstep
        cases hmoves with
        | terminated hset hmod => simpa [hset, Lbl.isBlock] using h
      | done params' w =>
        rw [hout, happlied] at hstep
        cases hstep
        exact h.processEvent hkeyed hout
  | client m =>
    simp only [ClientView.step] at hstep
    split at hstep
    · cases hstep
    split at hstep
    · rename_i hm
      rcases Option.map_eq_some_iff.mp hstep with ⟨client, hclient, rfl⟩
      simp only [news, List.append_nil]
      exact h.push hm hclient
    · cases hstep
  | call c =>
    simp only [ClientView.step] at hstep
    split at hstep
    · cases hstep
    · cases hstep
      simp only [news, List.append_nil]
      cases c.pushes <;> exact h
  | paramInfo info =>
    simp only [ClientView.step] at hstep
    split at hstep
    · cases hstep
    · cases hstep
      simp only [news, List.append_nil]
      exact h
  | poll m =>
    rcases poll_step hstep with ⟨-, poll, -, -, rfl⟩
    simp only [news, List.append_nil]
    exact h

theorem start_hostInv (plugin : PluginPtr) (cq : CqHandle) (store : KeyedStore) (stream : κ) :
    HostInv store.toParamStore [] 0 (start plugin cq store stream).client
      (start plugin cq store stream).changes where
  client := ClientParams.inv_start _
  names := SameNames.refl _
  changes := rfl
  pushed := rfl
  reports := rfl
  value id := by
    show store.paramsValue id = _
    cases store.paramsValue id <;> rfl
  refused := Nat.le_refl 0

theorem hostInv_of_run {ls : List (Lbl κ)}
    (hrun : (spec plugin cq store stream).run (start plugin cq store stream) ls = some s) :
    HostInv store.toParamStore
      ((spec plugin cq store stream).outputs news (start plugin cq store stream) ls)
      (ls.countP Lbl.isBlock) s.client s.changes := by
  induction ls using List.reverseRecOn generalizing s with
  | nil =>
    cases hrun
    exact start_hostInv plugin cq store stream
  | append_singleton ls l ih =>
    rcases (spec plugin cq store stream).run_split hrun with ⟨u, hu, hl⟩
    rcases (spec plugin cq store stream).run_cons hl with ⟨s', hstep, hend⟩
    cases hend
    rw [(spec plugin cq store stream).outputs_concat news hu, List.countP_append]
    exact (ih hu).step (wired_of_run hu).keyed hstep

/-- Where the host is wrong. -/
theorem HostInv.wrong (h : HostInv params ns blocks s.client s.changes) {id : UInt32}
    (hwrong : hostValue params.toParams ns id ≠ s.client.params.paramsValue id) :
    ∃ out, lastNews id ns = some (.report out false) ∧
      s.client.params.paramsValue id = some out.value := by
  have hvalue := h.value id
  rw [h.changes] at hvalue
  by_cases hknown : ∀ n, lastNews id ns = some n → n.known = true
  · -- the host has heard of the last change
    rw [hvalue, hostValue, lastValue_known ns id hknown] at hwrong
    exact absurd rfl hwrong
  · push Not at hknown
    rcases hknown with ⟨n, hn, hunknown⟩
    cases n with
    | own id' value => exact absurd rfl hunknown
    | report out taken =>
      obtain rfl : taken = false := by simpa [News.known] using hunknown
      refine ⟨out, hn, ?_⟩
      cases hstart : params.paramsValue id with
      | none =>
        rw [hvalue, hostValue, hstart] at hwrong
        exact absurd rfl hwrong
      | some v =>
        rw [hvalue, hstart, lastValue_change, hn]
        rfl

/-- In every run of blocks, clients and the poll loop, the host is pushed an event for each
update that was let through and names a parameter, in order; every change of a parameter is one
of these updates or its own; and it is wrong about a parameter only while the last change is an
update whose report it refused, of which there is at most one in a block. -/
theorem host_view {ls : List (Lbl κ)}
    (hrun : (spec plugin cq store stream).run (start plugin cq store stream) ls = some s) :
    HostView store.toParamStore
      ((spec plugin cq store stream).outputs news (start plugin cq store stream) ls)
      (ls.countP Lbl.isBlock) s := by
  have h := hostInv_of_run hrun
  refine ⟨h.changes, h.pushed, h.reports, ?_, h.value, fun id => h.wrong, ?_⟩
  · rw [h.client.fifo, ← h.client.accepted, List.map_append]
  · exact le_trans (Nat.le_add_right _ _) h.refused

/-- Two updates of a client, the second of which the host does not take, and a value that it
sets itself. -/
def refusedReport : List (Lbl Nat) :=
  [.client (.pushClientParam
      [{ event := .param, param := { param_id := 5, value := ⟨1⟩ }, timestamp := { seconds := 1 } },
        { event := .param, param := { param_id := 5, value := ⟨2⟩ },
          timestamp := { seconds := 2 } }]),
    .client .next, .client .tryPush, .client .next, .client .tryPush,
    .process 1 [{ time := 0, coreSpace := true, ev := .paramValue ⟨5, some 1, ⟨3⟩⟩ }],
    .turn true, .turn false]

theorem host_view_refused : ∃ s,
    (spec 1 0 (oneParam 5) 7).run (start 1 0 (oneParam 5) 7) refusedReport = some s ∧
      ∃ ns, HostView (oneParam 5).toParamStore ns 1 s ∧
        hostValue (oneParam 5).toParams ns 5 = some ⟨1⟩ ∧
        s.client.params.paramsValue 5 = some ⟨2⟩ := by
  have hval : ((spec 1 0 (oneParam 5) 7).run (start 1 0 (oneParam 5) 7) refusedReport).map
      (fun s => s.client.params.paramsValue 5) = some (some ⟨2⟩) := by decide
  rcases Option.map_eq_some_iff.mp hval with ⟨s, hrun, hvalue⟩
  exact ⟨s, hrun, _, host_view hrun, by decide, hvalue⟩

end Runs

end ClapRci.ClientView
