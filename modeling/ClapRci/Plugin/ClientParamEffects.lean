import ClapRci.Plugin.ClientParams

/-!
# What the clients' updates do to the parameters (`plugin/coreplugin.cpp`)

The updates popped are applied one after another, so that the parameters at the end are a
function of what entered the queue.

* `clients_converge`: an update is applied exactly when no newer one, to whichever
  parameter, was received before it; two orders of arrival agree on every parameter whose
  own newest update is applied in both.
* `clientParam_type_iff`: what `processGuiEvents` makes of the type of an update. The wrapper
  has neither the type nor the modulation, and every update sets the value.
-/

namespace ClapRci.ClientParams

open RunningMax

/-! ## Applying updates -/

/-- What `processGuiEvents` does to the parameters for one event. -/
def applyEvent (params : ParamStore) (clientEv : ClientParamWrapper) : ParamStore :=
  (processGuiEvent params clientEv).1

/-- The event of an update to this parameter. -/
def Sets (id : UInt32) (clientEv : ClientParamWrapper) : Bool :=
  clientEv.ev = .param && clientEv.paramId = id

theorem applyEvent_of_unknown {params : ParamStore} {clientEv : ClientParamWrapper}
    (h : params.paramsHashed clientEv.paramId = none) : applyEvent params clientEv = params := by
  unfold applyEvent processGuiEvent
  split
  · simp [Params.getParameterById, h]
  all_goals rfl

theorem applyEvent_of_ne {params : ParamStore} {clientEv : ClientParamWrapper}
    (h : clientEv.ev ≠ .param) : applyEvent params clientEv = params := by
  unfold applyEvent processGuiEvent
  split
  · contradiction
  all_goals rfl

theorem applyEvent_of_known {params : ParamStore} {clientEv : ClientParamWrapper}
    {ptr : ParameterPtr} (hev : clientEv.ev = .param)
    (h : params.paramsHashed clientEv.paramId = some ptr) :
    applyEvent params clientEv = params.setValue ptr clientEv.value := by
  simp [applyEvent, processGuiEvent, Params.getParameterById, hev, h]

/-- A `Param` event for a known parameter sets its value, and nothing else does anything. -/
theorem paramsValue_applyEvent (params : ParamStore) (clientEv : ClientParamWrapper)
    (id : UInt32) :
    (applyEvent params clientEv).paramsValue id =
      if Sets id clientEv then (params.paramsValue id).map fun _ => clientEv.value
      else params.paramsValue id := by
  by_cases hev : clientEv.ev = .param
  · cases hknown : params.paramsHashed clientEv.paramId with
    | none =>
      rw [applyEvent_of_unknown hknown]
      split
      · rename_i hsets
        have hid : clientEv.paramId = id := by simpa [Sets, hev] using hsets
        rw [← hid, params.paramsValue_eq_none hknown]
        rfl
      · rfl
    | some ptr =>
      rw [applyEvent_of_known hev hknown, params.paramsValue_setValue hknown]
      rcases params.paramsValue_isSome hknown with ⟨v, hv⟩
      by_cases hid : id = clientEv.paramId
      · simp [Sets, hev, hid, hv]
      · have hid' : clientEv.paramId ≠ id := Ne.symm hid
        simp [Sets, hid, hid']
  · simp [applyEvent_of_ne hev, Sets, hev]

/-- No event touches a modulation. -/
theorem paramsModulation_applyEvent (params : ParamStore) (clientEv : ClientParamWrapper)
    (id : UInt32) :
    (applyEvent params clientEv).paramsModulation id = params.paramsModulation id := by
  by_cases hev : clientEv.ev = .param
  · cases hknown : params.paramsHashed clientEv.paramId with
    | none => rw [applyEvent_of_unknown hknown]
    | some ptr =>
      rw [applyEvent_of_known hev hknown]
      exact params.paramsModulation_setValue hknown _ _
  · rw [applyEvent_of_ne hev]

/-- A parameter that no event sets keeps its value. -/
theorem paramsValue_foldl_of_none (params : ParamStore) {evs : List ClientParamWrapper}
    {id : UInt32} (hnone : ∀ ev ∈ evs, Sets id ev = false) :
    (evs.foldl applyEvent params).paramsValue id = params.paramsValue id := by
  induction evs using List.reverseRecOn with
  | nil => rfl
  | append_singleton evs ev ih =>
    have hev : Sets id ev = false := hnone ev (by simp)
    rw [List.foldl_append, List.foldl_cons, List.foldl_nil, paramsValue_applyEvent, hev,
      if_neg (by decide)]
    apply ih
    intro ev' hmem
    exact hnone ev' (List.mem_append_left _ hmem)

/-- A parameter has the value of the last event that sets it. -/
theorem paramsValue_foldl (params : ParamStore) (before after : List ClientParamWrapper)
    (clientEv : ClientParamWrapper) (id : UInt32) (hsets : Sets id clientEv = true)
    (hlast : ∀ ev ∈ after, Sets id ev = false) :
    ((before ++ clientEv :: after).foldl applyEvent params).paramsValue id =
      (params.paramsValue id).map fun _ => clientEv.value := by
  rw [List.foldl_append, List.foldl_cons, paramsValue_foldl_of_none _ hlast,
    paramsValue_applyEvent, if_pos hsets]
  -- whatever was applied before, the parameter has a value if it had one at the start
  induction before using List.reverseRecOn with
  | nil => rfl
  | append_singleton before ev ih =>
    rw [List.foldl_append, List.foldl_cons, List.foldl_nil, paramsValue_applyEvent]
    split
    · rw [Option.map_map]
      exact ih
    · exact ih

/-- The parameters are the ones at the start with everything popped applied. -/
theorem run_params {params : ParamStore} {s : Sys} {ls : List Lbl}
    (hrun : spec.run (start params) ls = some s) : s.params = s.popped.foldl applyEvent params := by
  apply spec.run_invariant (fun s => s.params = s.popped.foldl applyEvent params) _ rfl hrun
  intro s l s' hinv hstep
  cases step_moves hstep with
  | popped ok clientEv =>
    show (processGuiEvent s.params clientEv).1 = _
    rw [List.foldl_append, ← hinv]
    rfl
  | _ => exact hinv

/-! ## Several clients -/

/-- A run from these parameters in which these updates, in this order, were pushed and
applied. -/
structure Settles (params : ParamStore) (updates : List Api.ClientParam) (s : Sys) : Prop where
  run : ∃ ls, spec.run (start params) ls = some s
  idle : s.producer = .idle
  drained : s.queue = []
  received : s.batches.flatten = updates

/-- An update to this parameter. -/
def UpdateOf (id : UInt32) (p : Api.ClientParam) : Prop :=
  p.event = .param ∧ p.param.param_id = id

/-- No newer update, to whichever parameter, is received before this one. -/
def InTime (updates : List Api.ClientParam) (p : Api.ClientParam) : Prop :=
  ∀ before after, updates = before ++ p :: after → ∀ q ∈ before, ¬ stampOf p < stampOf q

/-- The parameter's own newest update. -/
def OwnNewest (updates : List Api.ClientParam) (id : UInt32) (p : Api.ClientParam) : Prop :=
  p ∈ updates ∧ UpdateOf id p ∧ ∀ q ∈ updates, UpdateOf id q → stampOf q ≤ stampOf p

/-- The parameter's newest update of those in time. -/
def NewestInTime (updates : List Api.ClientParam) (id : UInt32) (p : Api.ClientParam) : Prop :=
  p ∈ updates ∧ UpdateOf id p ∧ InTime updates p ∧
    ∀ q ∈ updates, UpdateOf id q → InTime updates q → stampOf q ≤ stampOf p

section Converge

variable {params : ParamStore} {updates : List Api.ClientParam} {s : Sys}

theorem Settles.inv (h : Settles params updates s) : Inv s := by
  rcases h.run with ⟨ls, hrun⟩
  exact reachable_inv ⟨start params, ls, ⟨params, rfl⟩, hrun⟩

theorem Settles.entered_eq (h : Settles params updates s) : s.entered = newest updates := by
  have haccepted := h.inv.accepted
  have hreceived := h.inv.received
  rw [h.idle, Producer.todo, List.append_nil, h.received] at hreceived
  rw [h.idle, Producer.pushing, List.append_nil, hreceived] at haccepted
  exact haccepted

/-- The parameters at the end. -/
theorem Settles.params_eq (h : Settles params updates s) :
    s.params = ((newest updates).map .ofClientParam).foldl applyEvent params := by
  rcases h.run with ⟨ls, hrun⟩
  have hfifo := h.inv.fifo
  rw [h.drained, List.append_nil, h.entered_eq] at hfifo
  rw [run_params hrun, hfifo]

/-- With distinct stamps, the updates in time are the ones applied. -/
theorem mem_newest_iff (hdistinct : (updates.map stampOf).Nodup)
    (hpositive : ∀ p ∈ updates, ({} : Stamp) < stampOf p) {p : Api.ClientParam} :
    p ∈ newest updates ↔ p ∈ updates ∧ InTime updates p := by
  rw [newest, mem_runningMaxima_iff]
  constructor
  · rintro ⟨before, after, rfl, hlt⟩
    refine ⟨by simp, ?_⟩
    intro before' after' heq q hq hnewer
    -- the update occurs only once, so this is the same place
    have hnodup := (List.Nodup.of_map _ hdistinct)
    rw [List.nodup_middle, List.nodup_cons, List.mem_append, not_or] at hnodup
    rcases (List.append_cons_inj_of_notMem hnodup.1.1 hnodup.1.2).mp heq with ⟨rfl, -, -⟩
    exact lt_asymm hnewer ((highest_lt_iff.mp hlt).2 q hq)
  · rintro ⟨hmem, hintime⟩
    rcases List.append_of_mem hmem with ⟨before, after, heq⟩
    refine ⟨before, after, heq, highest_lt_iff.mpr ⟨hpositive p hmem, ?_⟩⟩
    intro q hq
    apply lt_of_le_of_ne (not_lt.mp (hintime before after heq q hq))
    intro hsame
    rw [heq, List.map_append, List.map_cons, List.nodup_middle, List.nodup_cons,
      List.mem_append, not_or] at hdistinct
    apply hdistinct.1.1
    rw [← hsame]
    exact List.mem_map_of_mem hq

/-- A parameter's newest update in time is the last one applied to it. -/
theorem Settles.paramsValue_eq (h : Settles params updates s)
    (hdistinct : (updates.map stampOf).Nodup)
    (hpositive : ∀ p ∈ updates, ({} : Stamp) < stampOf p) {id : UInt32} {p : Api.ClientParam}
    (hnewest : NewestInTime updates id p) :
    s.params.paramsValue id = (params.paramsValue id).map fun _ => p.param.value := by
  rcases hnewest with ⟨hmem, ⟨hevent, hid⟩, hintime, hmax⟩
  have hmem' : p ∈ newest updates := (mem_newest_iff hdistinct hpositive).mpr ⟨hmem, hintime⟩
  rcases List.append_of_mem hmem' with ⟨before, after, hsplit⟩
  rw [h.params_eq, hsplit, List.map_append, List.map_cons]
  apply paramsValue_foldl
  · simp [Sets, ClientParamWrapper.ofClientParam, hevent, hid]
  · intro ev hev
    rcases List.mem_map.mp hev with ⟨q, hq, rfl⟩
    -- a later update applied is newer, so it is not one to this parameter
    have hnewer : stampOf p < stampOf q := by
      have hpairwise : (newest updates).Pairwise fun x y => stampOf x < stampOf y :=
        pairwise_runningMaxima updates
      rw [hsplit, List.pairwise_append, List.pairwise_cons] at hpairwise
      exact hpairwise.2.1.1 q hq
    have hqmem : q ∈ newest updates := by
      rw [hsplit]
      simp [hq]
    rcases (mem_newest_iff hdistinct hpositive).mp hqmem with ⟨hqmem, hqtime⟩
    rw [← Bool.not_eq_true]
    intro hsets
    rw [Sets, Bool.and_eq_true] at hsets
    have hupdate : UpdateOf id q :=
      ⟨of_decide_eq_true hsets.1, of_decide_eq_true hsets.2⟩
    exact absurd hnewer (not_lt.mpr (hmax q hqmem hupdate hqtime))

/-- A parameter with no update in time keeps its value. -/
theorem Settles.paramsValue_eq_of_none (h : Settles params updates s)
    (hdistinct : (updates.map stampOf).Nodup)
    (hpositive : ∀ p ∈ updates, ({} : Stamp) < stampOf p) {id : UInt32}
    (hnone : ∀ q ∈ updates, UpdateOf id q → ¬ InTime updates q) :
    s.params.paramsValue id = params.paramsValue id := by
  rw [h.params_eq]
  have hsets : ∀ ev ∈ (newest updates).map ClientParamWrapper.ofClientParam,
      Sets id ev = false := by
    intro ev hev
    rcases List.mem_map.mp hev with ⟨q, hq, rfl⟩
    rcases (mem_newest_iff hdistinct hpositive).mp hq with ⟨hqmem, hqtime⟩
    rw [← Bool.not_eq_true]
    intro hsets
    rw [Sets, Bool.and_eq_true] at hsets
    exact hnone q hqmem ⟨of_decide_eq_true hsets.1, of_decide_eq_true hsets.2⟩ hqtime
  exact paramsValue_foldl_of_none params hsets

/-- The newest update of all is in time wherever it arrives. -/
theorem inTime_of_newest {p : Api.ClientParam} (h : ∀ q ∈ updates, stampOf q ≤ stampOf p) :
    InTime updates p := by
  rintro before after rfl q hq
  exact not_lt.mpr (h q (by simp [hq]))

end Converge

/-- The outcome of a run, and where two orders of arrival agree. Every parameter ends with
the value of its newest update in time, and one with no such update keeps its value. A
parameter whose own newest update is in time in both orders has the value of this update in
both runs, in particular the parameter of the newest update of all. -/
theorem clients_converge {params : ParamStore} {updates updates' : List Api.ClientParam}
    {s s' : Sys} (hperm : updates.Perm updates') (hdistinct : (updates.map stampOf).Nodup)
    (hpositive : ∀ p ∈ updates, ({} : Stamp) < stampOf p)
    (h : Settles params updates s) (h' : Settles params updates' s') :
    (∀ p ∈ updates, p ∈ s.entered ↔ InTime updates p) ∧
      (∀ id p, NewestInTime updates id p →
        s.params.paramsValue id = (params.paramsValue id).map fun _ => p.param.value) ∧
      (∀ id, (∀ q ∈ updates, UpdateOf id q → ¬ InTime updates q) →
        s.params.paramsValue id = params.paramsValue id) ∧
      (∀ id p, OwnNewest updates id p → InTime updates p → InTime updates' p →
        s.params.paramsValue id = (params.paramsValue id).map (fun _ => p.param.value) ∧
          s'.params.paramsValue id = s.params.paramsValue id) ∧
      (∀ id p, OwnNewest updates id p → (∀ q ∈ updates, stampOf q ≤ stampOf p) →
        s.params.paramsValue id = (params.paramsValue id).map (fun _ => p.param.value) ∧
          s'.params.paramsValue id = s.params.paramsValue id) := by
  have hdistinct' : (updates'.map stampOf).Nodup := (hperm.map stampOf).nodup hdistinct
  have hpositive' : ∀ p ∈ updates', ({} : Stamp) < stampOf p := by
    intro p hp
    exact hpositive p (hperm.mem_iff.mpr hp)
  have hagree : ∀ id p, OwnNewest updates id p → InTime updates p → InTime updates' p →
      s.params.paramsValue id = (params.paramsValue id).map (fun _ => p.param.value) ∧
        s'.params.paramsValue id = s.params.paramsValue id := by
    rintro id p ⟨hmem, hupdate, hmax⟩ hintime hintime'
    have hvalue := h.paramsValue_eq hdistinct hpositive
      ⟨hmem, hupdate, hintime, fun q hq hqupdate _ => hmax q hq hqupdate⟩
    have hvalue' := h'.paramsValue_eq hdistinct' hpositive'
      ⟨hperm.mem_iff.mp hmem, hupdate, hintime',
        fun q hq hqupdate _ => hmax q (hperm.mem_iff.mpr hq) hqupdate⟩
    exact ⟨hvalue, hvalue'.trans hvalue.symm⟩
  refine ⟨?_, ?_, ?_, hagree, ?_⟩
  · intro p hp
    rw [h.entered_eq, mem_newest_iff hdistinct hpositive]
    exact and_iff_right hp
  · intro id p hnewest
    exact h.paramsValue_eq hdistinct hpositive hnewest
  · intro id hnone
    exact h.paramsValue_eq_of_none hdistinct hpositive hnone
  · intro id p hown hall
    apply hagree id p hown (inTime_of_newest hall)
    apply inTime_of_newest
    intro q hq
    exact hall q (hperm.mem_iff.mpr hq)

/-- A plugin with the parameters `1` and `2`. -/
def twoParams : ParamStore where
  params := [{ cookie := 1, m_info := { id := 1 }, m_value := default },
             { cookie := 2, m_info := { id := 2 }, m_value := default }]
  paramsHashed id := if id = 1 then some 1 else if id = 2 then some 2 else none
  cookies_nodup := by decide
  hashed := by
    intro id ptr h
    split at h
    · rename_i hid
      cases h
      exact ⟨_, List.mem_cons_self, rfl, hid.symm⟩
    · split at h
      · rename_i hid
        cases h
        exact ⟨_, List.mem_cons_of_mem _ List.mem_cons_self, rfl, hid.symm⟩
      · cases h

/-- An update of parameter `1`, and a newer one of parameter `2`. -/
def older : Api.ClientParam :=
  { event := .param, param := { param_id := 1, value := ⟨1⟩ }, timestamp := { seconds := 1 } }

def newer : Api.ClientParam :=
  { event := .param, param := { param_id := 2, value := ⟨1⟩ }, timestamp := { seconds := 2 } }

/-- Received in the order of their stamps, both are applied. -/
theorem settles_inOrder : ∃ s, Settles twoParams [older, newer] s ∧
    s.params.paramsValue 1 = some ⟨1⟩ := by
  refine ⟨_, ⟨⟨[.pushClientParam [older, newer], .next, .tryPush, .next, .tryPush, .next,
    .processGuiEvents, .turn true, .turn true], rfl⟩, rfl, rfl, rfl⟩, ?_⟩
  decide

/-- Received the other way round, the one of parameter `1` is dropped. -/
theorem settles_overtaken : ∃ s, Settles twoParams [newer, older] s ∧
    s.params.paramsValue 1 = some default := by
  refine ⟨_, ⟨⟨[.pushClientParam [newer, older], .next, .tryPush, .next, .next,
    .processGuiEvents, .turn true], rfl⟩, rfl, rfl, rfl⟩, ?_⟩
  decide

/-- The two orders agree on parameter `2`. -/
theorem clients_converge_newer : ∃ s s', Settles twoParams [older, newer] s ∧
    Settles twoParams [newer, older] s' ∧ s'.params.paramsValue 2 = s.params.paramsValue 2 := by
  rcases settles_inOrder with ⟨s, h, -⟩
  rcases settles_overtaken with ⟨s', h', -⟩
  refine ⟨s, s', h, h', ?_⟩
  have hall : ∀ q ∈ [older, newer], stampOf q ≤ stampOf newer := by decide
  have hconverge := clients_converge (List.Perm.swap _ _ _) (by decide) (by decide) h h'
  exact (hconverge.2.2.2.2 2 newer ⟨by simp, ⟨rfl, rfl⟩, fun q hq _ => hall q hq⟩ hall).2

/-- They do not agree on parameter `1`. -/
theorem clients_converge_fails : ¬ ∀ (params : ParamStore) (updates updates' : List Api.ClientParam)
    (s s' : Sys), updates.Perm updates' → (∀ p ∈ updates, p.event = .param) →
    (updates.map stampOf).Nodup → (∀ p ∈ updates, ({} : Stamp) < stampOf p) →
    Settles params updates s → Settles params updates' s' →
    ∀ id, s.params.paramsValue id = s'.params.paramsValue id := by
  intro hclaim
  rcases settles_inOrder with ⟨s, h, hvalue⟩
  rcases settles_overtaken with ⟨s', h', hvalue'⟩
  have hsame := hclaim twoParams [older, newer] [newer, older] s s' (List.Perm.swap _ _ _)
    (by decide) (by decide) (by decide) h h' 1
  rw [hvalue, hvalue'] at hsame
  exact absurd hsame (by decide)

/-! ## The type of an update -/

/-- The update whose handling ends with this step: the filter drops it, or the loop of
`processGuiEvents` pops what the wrapper kept of it. -/
def Sys.concludes (s : Sys) : Lbl → Option Api.ClientParam
  | .next =>
    match s.producer with
    | .loop (p :: _) => if s.data.mLastClientStamp < stampOf p then none else some p
    | _ => none
  | .turn _ => s.entered[s.popped.length]?
  | _ => none

/-- What an update of its type is for: only one of type `Value` changes values, and one of
type `Modulation` sets the modulation of its parameter. -/
def RightFor (p : Api.ClientParam) (before after : ParamStore) : Prop :=
  (p.param.type ≠ .value → ∀ id, after.paramsValue id = before.paramsValue id) ∧
    (p.param.type = .modulation → after.paramsModulation p.param.param_id =
      (before.paramsModulation p.param.param_id).map fun _ => p.param.modulation)

/-- The update has type `Value`; or the value it carries is not applied, or is the value the
parameter has, and if its type is `Modulation`, the parameter has this modulation already
(or there is no such parameter). -/
def TypeDoesNotMatter (p : Api.ClientParam) (applied : Bool) (before : ParamStore) : Prop :=
  p.param.type = .value ∨
    ((applied = true → p.event = .param →
        ∀ v ∈ before.paramsValue p.param.param_id, v = p.param.value) ∧
      (p.param.type = .modulation →
        ∀ m ∈ before.paramsModulation p.param.param_id, m = p.param.modulation))

/-- What is popped in a turn is what the wrapper kept of the next update that entered. -/
theorem concludes_turn {s s' : Sys} {ok : Bool} {p : Api.ClientParam} (hinv : Inv s)
    (hstep : step s (.turn ok) = some s') (hp : s.concludes (.turn ok) = some p) :
    s'.params = applyEvent s.params (.ofClientParam p) := by
  have hfifo := congrArg (fun evs => evs[s.popped.length]?) hinv.fifo
  simp only [Sys.concludes] at hp
  simp only [List.getElem?_append_right (Nat.le_refl _), Nat.sub_self, List.getElem?_map, hp,
    Option.map_some] at hfifo
  cases step_moves hstep with
  | empty ok hqueue =>
    rw [hqueue] at hfifo
    cases hfifo
  | popped ok clientEv queue hqueue =>
    rw [hqueue] at hfifo
    obtain rfl : clientEv = .ofClientParam p := by simpa using hfifo
    rfl

/-- A dropped update changes nothing. -/
theorem concludes_next {s s' : Sys} (hstep : step s .next = some s') : s'.params = s.params := by
  cases step_moves hstep with
  | _ => rfl

/-- Applied, an update keeps all values exactly when it carries the one that is there. -/
theorem values_kept_iff (params : ParamStore) (p : Api.ClientParam) :
    (∀ id, (applyEvent params (.ofClientParam p)).paramsValue id = params.paramsValue id) ↔
      (p.event = .param → ∀ v ∈ params.paramsValue p.param.param_id, v = p.param.value) := by
  constructor
  · intro hkept hevent v hv
    have hvalue := hkept p.param.param_id
    rw [paramsValue_applyEvent, hv,
      if_pos (by simp [Sets, ClientParamWrapper.ofClientParam, hevent])] at hvalue
    exact (Option.some.inj hvalue).symm
  · intro hsame id
    rw [paramsValue_applyEvent]
    split
    · rename_i hsets
      rw [Sets, Bool.and_eq_true] at hsets
      have hevent : p.event = .param := of_decide_eq_true hsets.1
      have hid : p.param.param_id = id := of_decide_eq_true hsets.2
      rw [← hid]
      cases hv : params.paramsValue p.param.param_id with
      | none => rfl
      | some v =>
        rw [hsame hevent v hv]
        rfl
    · rfl

/-- Where the parameter's modulation stays, it is the one sent exactly when it was before. -/
theorem modulation_kept_iff (params : ParamStore) (p : Api.ClientParam) :
    params.paramsModulation p.param.param_id =
        (params.paramsModulation p.param.param_id).map (fun _ => p.param.modulation) ↔
      ∀ m ∈ params.paramsModulation p.param.param_id, m = p.param.modulation := by
  cases params.paramsModulation p.param.param_id with
  | none => simp
  | some m => simp

/-- The step that ends the handling of an update treats it by its type exactly when the type
makes no difference there. -/
theorem rightFor_iff {s s' : Sys} {l : Lbl} {p : Api.ClientParam} (hinv : Inv s)
    (hstep : step s l = some s') (hp : s.concludes l = some p) :
    RightFor p s.params s'.params ↔ TypeDoesNotMatter p l.isTurn s.params := by
  have hvalues : (∀ id, s'.params.paramsValue id = s.params.paramsValue id) ↔
      (l.isTurn = true → p.event = .param →
        ∀ v ∈ s.params.paramsValue p.param.param_id, v = p.param.value) := by
    cases l with
    | next =>
      rw [concludes_next hstep]
      simp [Lbl.isTurn]
    | turn ok =>
      rw [concludes_turn hinv hstep hp, values_kept_iff]
      simp [Lbl.isTurn]
    | _ => cases hp
  have hmodulation : s'.params.paramsModulation p.param.param_id =
      s.params.paramsModulation p.param.param_id := by
    cases l with
    | next => rw [concludes_next hstep]
    | turn ok => rw [concludes_turn hinv hstep hp, paramsModulation_applyEvent]
    | _ => cases hp
  unfold RightFor TypeDoesNotMatter
  rw [hvalues, hmodulation, modulation_kept_iff]
  by_cases hvalue : p.param.type = .value
  · simp [hvalue]
  · simp [hvalue]

/-- In every run from every state of the parameters, the updates are treated by their types
exactly when, whenever one is popped or dropped, its type makes no difference. -/
theorem clientParam_type_iff (params : ParamStore) (ls : List Lbl) :
    spec.AllSteps (fun s l s' => ∀ p ∈ s.concludes l, RightFor p s.params s'.params)
        (start params) ls ↔
      spec.AllSteps (fun s l _ => ∀ p ∈ s.concludes l, TypeDoesNotMatter p l.isTurn s.params)
        (start params) ls := by
  apply spec.allSteps_iff Inv
  · intro s l s' hinv hcond hstep
    refine ⟨inv_step s l s' hinv hstep, ?_⟩
    intro p hp
    exact (rightFor_iff hinv hstep hp).mpr (hcond p hp)
  · intro s l s' hinv hcond hstep hright
    apply hcond
    intro p hp
    exact (rightFor_iff hinv hstep hp).mp (hright p hp)
  · exact inv_start params

/-- An update of parameter `1` of type `Modulation`. -/
def modulated : Api.ClientParam :=
  { event := .param, param := { type := .modulation, param_id := 1, modulation := ⟨1⟩ },
    timestamp := { seconds := 1 } }

/-- It leaves the modulation of the parameter at zero. -/
theorem clientParam_type_fails : ¬ ∀ (params : ParamStore) (ls : List Lbl),
    spec.AllSteps (fun s l s' => ∀ p ∈ s.concludes l, RightFor p s.params s'.params)
      (start params) ls := by
  intro h
  have hlast := spec.forall_allSteps_last (h twoParams)
    [.pushClientParam [modulated], .next, .tryPush, .processGuiEvents] (.turn true) rfl rfl
  exact absurd ((hlast modulated rfl).2 rfl) (by decide)

end ClapRci.ClientParams
