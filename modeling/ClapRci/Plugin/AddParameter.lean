import Mathlib.Algebra.Group.Nat.Defs
import Mathlib.Data.List.Nodup
import Mathlib.Logic.Function.Basic
import ClapRci.Lib.ActionSystem
import ClapRci.Plugin.ClientView

/-!
# Adding parameters (`plugin/coreplugin.cpp`)

`CorePlugin::addParameter` and what the host finds afterwards: by index, by id, and by the
cookie that `paramsInfo` publishes.

* `store_consistent_iff`: `paramsHashed` is written before the exception for an id that is
  taken, so that the store stays consistent exactly when no id is added twice;
* `cookiePath_eq_idPath`: with distinct ids, events that carry published cookies do the same
  as events without.
-/

namespace ClapRci

open EnqueueAuxiliaries (ClapParamInfo)

/-! ## The code -/

/-- `Parameter(info, valueType, index)` at the address `ptr`. -/
def Parameter.ofInfo (ptr : ParameterPtr) (info : ClapParamInfo) (defaultValue : Double) :
    Parameter where
  cookie := ptr
  m_info := info
  m_value := defaultValue

namespace Params

/-- `addParameter(info, valueType)`: the pointer returned or the text of the exception.
`ptr` is the address of the new object and `defaultValue` what `valueType->defaultValue()`
answers. -/
def addParameter (d : Params) (info : ClapParamInfo) (defaultValue : Double)
    (ptr : ParameterPtr) : Except String ParameterPtr × Params :=
  let copy := Parameter.ofInfo ptr info defaultValue
  -- `insert_or_assign` writes the entry in either case
  let inserted := (d.paramsHashed info.id).isNone
  let d := { d with paramsHashed := Function.update d.paramsHashed info.id (some ptr) }
  if !inserted then
    (.error ("Parameter with id " ++ toString info.id ++ " already exists!"), d)
  else (.ok ptr, { d with params := d.params ++ [copy] })

/-- `getParameterByIndex(index)`. -/
def getParameterByIndex (d : Params) (index : UInt32) : Option Parameter :=
  if d.params.length ≤ index.toNat then none else d.params[index.toNat]?

/-- `paramsCount()`. -/
def paramsCount (d : Params) : UInt32 := UInt32.ofNat d.params.length

/-- `paramsInfo(paramIndex, info)`: what it writes, with the cookie, when it returns true. -/
def paramsInfo (d : Params) (paramIndex : UInt32) : Option (ClapParamInfo × ParameterPtr) :=
  (d.getParameterByIndex paramIndex).map fun param => (param.m_info, param.cookie)

end Params

namespace AddParameter

open ClientView (InEvent KeyedStore)
open HostEvents (Outcome processEvent)

/-- A call of `addParameter`, with the address it gets. -/
structure Addition where
  info : ClapParamInfo
  defaultValue : Double := default
  ptr : ParameterPtr

/-- What the call returns. -/
def Addition.result (a : Addition) (d : Params) : Except String ParameterPtr :=
  (d.addParameter a.info a.defaultValue a.ptr).1

/-- A new object is at the address of no parameter that exists; the object of a call that
failed is gone. -/
def step (d : Params) (a : Addition) : Option Params :=
  if a.ptr ∈ d.params.map Parameter.cookie then none
  else some (d.addParameter a.info a.defaultValue a.ptr).2

/-- A plugin that is given parameters. -/
def spec : ActionSystem.Spec Params Addition where
  Init d := d = {}
  step := step

/-! ## What is promised -/

/-- `paramsHashed` leads from every id to the one parameter with this id, and from nothing
else anywhere. -/
structure Consistent (d : Params) : Prop where
  ids_nodup : (d.params.map fun p => p.m_info.id).Nodup
  hashed : ∀ id ptr, d.paramsHashed id = some ptr ↔
    ∃ p ∈ d.params, p.m_info.id = id ∧ p.cookie = ptr

/-- The store is consistent after the call, and a call that failed has left the members as
they were. -/
structure Keeps (d : Params) (a : Addition) (d' : Params) : Prop where
  consistent : Consistent d'
  failed : ∀ msg, a.result d = .error msg → d' = d

/-- `paramsInfo` publishes this cookie for the parameter with this id. -/
def Published (d : Params) (cookie : ParameterPtr) (id : UInt32) : Prop :=
  ∃ paramIndex info, d.paramsInfo paramIndex = some (info, cookie) ∧ info.id = id

/-- The cookie of a parameter event, and the id it comes with. -/
def carried : Clap.Event → Option (ParameterPtr × UInt32)
  | .paramValue evParam => evParam.cookie.map fun cookie => (cookie, evParam.param_id)
  | .paramMod evParam => evParam.cookie.map fun cookie => (cookie, evParam.param_id)
  | _ => none

/-- The id of a parameter event. -/
def paramId : Clap.Event → Option UInt32
  | .paramValue evParam => some evParam.param_id
  | .paramMod evParam => some evParam.param_id
  | _ => none

/-- The event with the cookie replaced by null. -/
def withoutCookie : Clap.Event → Clap.Event
  | .paramValue evParam => .paramValue { evParam with cookie := none }
  | .paramMod evParam => .paramMod { evParam with cookie := none }
  | ev => ev

/-- A list of host events is processed: the parameters, and what is pushed to the process queue
on the way; `none` where an event terminates the process. -/
def processEvents (params : ParamStore) :
    List InEvent → Option (ParamStore × List ServerEventWrapper)
  | [] => some (params, [])
  | ev :: evs =>
    match processEvent params ev.coreSpace ev.ev with
    | .terminated => none
    | .done params pushed =>
      (processEvents params evs).map fun r => (r.1, pushed.toList ++ r.2)

/-- What `paramsInfo` answers for the indices `0..paramsCount()-1`. -/
def listing (d : Params) : List (Option (ClapParamInfo × ParameterPtr)) :=
  (List.range d.paramsCount.toNat).map fun i => d.paramsInfo (UInt32.ofNat i)

/-- Every parameter that was added, once and in this order, with a cookie that refers to the
parameter found by its id. -/
structure Lists (d : Params) (added : List Addition) : Prop where
  listing : listing d = added.map fun a => some (a.info, a.ptr)
  byId : ∀ a ∈ added, d.getParameterById a.info.id = some a.ptr

/-- Cookies that were published make no difference, and lead to no termination. -/
def CookiesAgree (d : Params) (params : ParamStore) : Prop :=
  ∀ evs : List InEvent,
    (∀ ev ∈ evs, ∀ cookie id, carried ev.ev = some (cookie, id) → Published d cookie id) →
    ∃ r, processEvents params evs = some r ∧
      processEvents params (evs.map fun ev => { ev with ev := withoutCookie ev.ev }) = some r

/-- An event for an id that is not known changes nothing. -/
def UnknownIgnored (d : Params) (params : ParamStore) : Prop :=
  ∀ coreSpace ev id, paramId ev = some id → d.getParameterById id = none →
    (∀ cookie id, carried ev = some (cookie, id) → Published d cookie id) →
    processEvent params coreSpace ev = .done params none

/-- No parameter has this id yet. -/
def NewId (d : Params) (a : Addition) : Prop := ∀ p ∈ d.params, p.m_info.id ≠ a.info.id

/-! ## One call -/

/-- The parameters that exist are where the map says. -/
structure Wired (d : Params) : Prop where
  consistent : Consistent d
  cookies_nodup : (d.params.map Parameter.cookie).Nodup

theorem wired_empty : Wired {} := by
  constructor
  · constructor
    · exact List.nodup_nil
    · simp
  · exact List.nodup_nil

section Call

variable {d d' : Params} {a : Addition}

theorem Wired.hashed_eq_none (h : Wired d) (hnew : NewId d a) :
    d.paramsHashed a.info.id = none := by
  rw [Option.eq_none_iff_forall_ne_some]
  intro ptr hptr
  rcases (h.consistent.hashed _ _).mp hptr with ⟨p, hp, hid, -⟩
  exact hnew p hp hid

/-- A call with a new id appends the parameter and its entry. -/
theorem addParameter_of_none (h : d.paramsHashed a.info.id = none) :
    d.addParameter a.info a.defaultValue a.ptr =
      (.ok a.ptr,
        { params := d.params ++ [.ofInfo a.ptr a.info a.defaultValue]
          paramsHashed := Function.update d.paramsHashed a.info.id (some a.ptr) }) := by
  simp [Params.addParameter, h]

/-- One with an id that is taken leaves an entry for an object that is gone. -/
theorem addParameter_of_some {ptr : ParameterPtr} (h : d.paramsHashed a.info.id = some ptr) :
    (d.addParameter a.info a.defaultValue a.ptr).2 =
      { d with paramsHashed := Function.update d.paramsHashed a.info.id (some a.ptr) } := by
  simp [Params.addParameter, h]

/-- The inversion lemma of `step`. -/
theorem step_eq (hstep : step d a = some d') :
    (∀ p ∈ d.params, p.cookie ≠ a.ptr) ∧
      d' = (d.addParameter a.info a.defaultValue a.ptr).2 := by
  unfold step at hstep
  split at hstep
  · cases hstep
  · rename_i hfresh
    cases hstep
    refine ⟨?_, rfl⟩
    intro p hp hcookie
    exact hfresh (List.mem_map.mpr ⟨p, hp, hcookie⟩)

theorem Wired.add (h : Wired d) (hnew : NewId d a) (hstep : step d a = some d') :
    Wired d' ∧ d'.params = d.params ++ [.ofInfo a.ptr a.info a.defaultValue] := by
  rcases step_eq hstep with ⟨hfresh, rfl⟩
  rw [addParameter_of_none (h.hashed_eq_none hnew)]
  refine ⟨?_, rfl⟩
  constructor
  · constructor
    · rw [List.map_append, List.nodup_append]
      refine ⟨h.consistent.ids_nodup, List.nodup_singleton _, ?_⟩
      intro id hid id' hid'
      rcases List.mem_map.mp hid with ⟨p, hp, rfl⟩
      rw [List.map_singleton, List.mem_singleton] at hid'
      rw [hid']
      exact hnew p hp
    · -- the new id leads to the new parameter, all others where they did
      intro id ptr
      simp only [Function.update_apply]
      constructor
      · intro hptr
        split at hptr
        · rename_i hid
          cases hptr
          exact ⟨_, List.mem_concat_self, hid.symm, rfl⟩
        · rcases (h.consistent.hashed _ _).mp hptr with ⟨p, hp, hid, hcookie⟩
          exact ⟨p, List.mem_append_left _ hp, hid, hcookie⟩
      · rintro ⟨p, hp, rfl, rfl⟩
        rcases List.mem_append.mp hp with hp | hp
        · rw [if_neg (hnew p hp)]
          exact (h.consistent.hashed _ _).mpr ⟨p, hp, rfl, rfl⟩
        · rw [List.mem_singleton.mp hp]
          exact if_pos rfl
  · rw [List.map_append, List.nodup_append]
    refine ⟨h.cookies_nodup, List.nodup_singleton _, ?_⟩
    intro ptr hptr ptr' hptr'
    rcases List.mem_map.mp hptr with ⟨p, hp, rfl⟩
    rw [List.map_singleton, List.mem_singleton] at hptr'
    rw [hptr']
    exact hfresh p hp

/-- An id that is taken leads nowhere after the call. -/
theorem Wired.not_consistent (h : Wired d) (htaken : ¬ NewId d a) (hstep : step d a = some d') :
    ¬ Consistent d' := by
  intro hcons
  rcases step_eq hstep with ⟨hfresh, rfl⟩
  simp only [NewId, not_forall, not_not] at htaken
  rcases htaken with ⟨p, hp, hid⟩
  have hsome : d.paramsHashed a.info.id = some p.cookie :=
    (h.consistent.hashed _ _).mpr ⟨p, hp, hid, rfl⟩
  rw [addParameter_of_some hsome] at hcons
  -- the entry is for the new object, which is no parameter
  have hentry : Function.update d.paramsHashed a.info.id (some a.ptr) a.info.id = some a.ptr :=
    Function.update_self _ _ _
  rcases (hcons.hashed _ _).mp hentry with ⟨q, hq, -, hcookie⟩
  exact hfresh q hq hcookie

end Call

/-- The store stays consistent in exactly the runs in which every id is new. -/
theorem store_consistent_iff (ls : List Addition) :
    spec.AllSteps Keeps {} ls ↔ spec.AllSteps (fun d a _ => NewId d a) {} ls := by
  refine spec.allSteps_iff Wired ?_ ?_ wired_empty ls
  · intro d a d' hwired hnew hstep
    have hwired' := (hwired.add hnew hstep).1
    refine ⟨hwired', hwired'.consistent, ?_⟩
    intro msg hmsg
    rw [Addition.result, addParameter_of_none (hwired.hashed_eq_none hnew)] at hmsg
    cases hmsg
  · intro d a d' hwired htaken hstep hkeeps
    exact hwired.not_consistent htaken hstep hkeeps.consistent

/-- An id is added twice. -/
theorem store_consistent_fails : ¬ ∀ ls, spec.AllSteps Keeps {} ls := by
  intro h
  have hlast := spec.forall_allSteps_last h [{ info := { id := 1 }, ptr := 1 }]
    { info := { id := 1 }, ptr := 2 } rfl rfl
  rcases (hlast.consistent.hashed 1 2).mp rfl with ⟨p, hp, -, hcookie⟩
  rw [List.mem_singleton.mp hp] at hcookie
  cases hcookie

/-! ## The listing -/

section Listing

variable {d d' : Params}

/-- A run in which every id is new adds the parameters in this order. -/
theorem Wired.run (h : Wired d) {ls : List Addition} (hnew : ∀ a ∈ ls, NewId d a)
    (hids : (ls.map fun a => a.info.id).Nodup) (hrun : spec.run d ls = some d') :
    Wired d' ∧
      d'.params = d.params ++ ls.map fun a => .ofInfo a.ptr a.info a.defaultValue := by
  induction ls generalizing d with
  | nil =>
    cases hrun
    exact ⟨h, (List.append_nil _).symm⟩
  | cons a ls ih =>
    rcases spec.run_cons hrun with ⟨t, hstep, hrest⟩
    rcases h.add (hnew a List.mem_cons_self) hstep with ⟨hwired, hparams⟩
    rw [List.map_cons, List.nodup_cons] at hids
    have hnew' : ∀ b ∈ ls, NewId t b := by
      intro b hb p hp
      rw [hparams] at hp
      rcases List.mem_append.mp hp with hp | hp
      · exact hnew b (List.mem_cons_of_mem _ hb) p hp
      · rw [List.mem_singleton.mp hp]
        intro hid
        exact hids.1 (List.mem_map.mpr ⟨b, hb, hid.symm⟩)
    rcases ih hwired hnew' hids.2 hrest with ⟨hwired', hparams'⟩
    refine ⟨hwired', ?_⟩
    rw [hparams', hparams, List.append_assoc]
    rfl

/-- Below the bound of the index every parameter is listed. -/
theorem listing_eq (hsize : d.params.length < 2 ^ 32) :
    listing d = d.params.map fun p => some (p.m_info, p.cookie) := by
  have hcount : d.paramsCount.toNat = d.params.length := by
    rw [Params.paramsCount, UInt32.toNat_ofNat']
    exact Nat.mod_eq_of_lt hsize
  apply List.ext_getElem
  · simp [listing, hcount]
  · intro i hi hi'
    have hlt : i < d.params.length := by simpa using hi'
    have hindex : (UInt32.ofNat i).toNat = i := by
      rw [UInt32.toNat_ofNat']
      exact Nat.mod_eq_of_lt (hlt.trans hsize)
    simp only [listing, List.getElem_map, List.getElem_range, Params.paramsInfo,
      Params.getParameterByIndex, hindex]
    rw [if_neg (by omega), List.getElem?_eq_getElem hlt]
    rfl

/-- Distinct addresses are all that is needed for a run. -/
theorem exists_run {ls : List Addition} (hptrs : (ls.map Addition.ptr).Nodup)
    (hfresh : ∀ a ∈ ls, a.ptr ∉ d.params.map Parameter.cookie) :
    ∃ d', spec.run d ls = some d' := by
  induction ls generalizing d with
  | nil => exact ⟨d, rfl⟩
  | cons a ls ih =>
    rw [List.map_cons, List.nodup_cons] at hptrs
    have hstep : spec.step d a = some (d.addParameter a.info a.defaultValue a.ptr).2 :=
      if_neg (hfresh a List.mem_cons_self)
    have hfresh' : ∀ b ∈ ls,
        b.ptr ∉ (d.addParameter a.info a.defaultValue a.ptr).2.params.map Parameter.cookie := by
      intro b hb
      have hold := hfresh b (List.mem_cons_of_mem _ hb)
      have hne : b.ptr ≠ a.ptr := by
        intro hptr
        exact hptrs.1 (List.mem_map.mpr ⟨b, hb, hptr⟩)
      -- the call may throw: then no parameter is added
      cases hentry : d.paramsHashed a.info.id with
      | some ptr =>
        rw [addParameter_of_some hentry]
        exact hold
      | none =>
        rw [addParameter_of_none hentry, List.map_append, List.mem_append]
        rintro (hin | hin)
        · exact hold hin
        · exact hne (List.mem_singleton.mp hin)
    rcases ih hptrs.2 hfresh' with ⟨d', hd'⟩
    refine ⟨d', ?_⟩
    rw [spec.run_cons_of_step hstep]
    exact hd'

end Listing

/-! ## Cookies -/

section Cookies

variable {params : ParamStore}

/-- What `paramsInfo` publishes is in the map. -/
theorem Wired.hashed_of_published {d : Params} (h : Wired d) {cookie : ParameterPtr}
    {id : UInt32} (hpub : Published d cookie id) : d.paramsHashed id = some cookie := by
  rcases hpub with ⟨paramIndex, info, hinfo, rfl⟩
  rcases Option.map_eq_some_iff.mp hinfo with ⟨p, hp, hpair⟩
  cases hpair
  unfold Params.getParameterByIndex at hp
  split at hp
  · cases hp
  · exact (h.consistent.hashed _ _).mpr ⟨p, List.mem_of_getElem? hp, rfl, rfl⟩

/-- A pointer from the map points to the parameter with this id. -/
theorem deref_hashed {id : UInt32} {ptr : ParameterPtr} (h : params.paramsHashed id = some ptr) :
    ∃ p, params.deref ptr = some p ∧ p.m_info.id = id := by
  rcases params.deref_isSome h with ⟨p, hp⟩
  refine ⟨p, hp, ?_⟩
  rcases params.hashed id ptr h with ⟨q, hq, hptr, hid⟩
  have hcookie : p.cookie = ptr := by simpa using List.find?_some hp
  rw [params.cookie_injOn (List.mem_of_find?_eq_some hp) hq (hcookie.trans hptr.symm)]
  exact hid

/-- With a cookie that is the entry of the id, or none, the event is for the parameter with the
id. -/
theorem eventParameter_eq {cookie : Option ParameterPtr} {id : UInt32}
    (h : ∀ c, cookie = some c → params.paramsHashed id = some c) :
    HostEvents.eventParameter params cookie id = params.paramsHashed id := by
  cases cookie with
  | none => rfl
  | some c => exact (h c rfl).symm

/-- The two parameter cases of `processEvent`, for an event by id: they come to an end, leave the
map as it is, and do nothing if there is no entry. -/
theorem processParamEvent_null (id : UInt32) (apply : ParameterPtr → ParamStore)
    (wrapper : ClapEventParamWrapper)
    (happly : ∀ ptr, (apply ptr).paramsHashed = params.paramsHashed) :
    ∃ params' pushed,
      HostEvents.processParamEvent params none id apply wrapper = .done params' pushed ∧
      params'.paramsHashed = params.paramsHashed ∧
      (params.paramsHashed id = none → params' = params ∧ pushed = none) := by
  have hbyId : HostEvents.eventParameter params none id = params.paramsHashed id := rfl
  unfold HostEvents.processParamEvent
  rw [hbyId]
  cases hhashed : params.paramsHashed id with
  | none => exact ⟨params, none, rfl, rfl, fun _ => ⟨rfl, rfl⟩⟩
  | some ptr =>
    rcases deref_hashed hhashed with ⟨p, hp, hid⟩
    refine ⟨apply ptr, some { ev := .param, data := .param wrapper }, ?_, happly ptr, nofun⟩
    simp [hp, hid]

/-- A cookie that is the entry of the id of its event makes no difference. -/
theorem processEvent_withoutCookie {ev : Clap.Event} (coreSpace : Bool)
    (h : ∀ cookie id, carried ev = some (cookie, id) → params.paramsHashed id = some cookie) :
    processEvent params coreSpace (withoutCookie ev) = processEvent params coreSpace ev := by
  have hsame : ∀ (cookie : Option ParameterPtr) (id : UInt32) (apply : ParameterPtr → ParamStore)
      (wrapper : ClapEventParamWrapper),
      (∀ c, cookie = some c → params.paramsHashed id = some c) →
      HostEvents.processParamEvent params none id apply wrapper =
        HostEvents.processParamEvent params cookie id apply wrapper := by
    intro cookie id apply wrapper hcookie
    unfold HostEvents.processParamEvent
    rw [eventParameter_eq hcookie]
    rfl
  cases ev with
  | paramValue evParam =>
    have hcookie := hsame evParam.cookie evParam.param_id
      (fun param => params.setValue param evParam.value) (.ofValue evParam) (by
        intro c hc
        exact h c _ (by simp [carried, hc]))
    cases coreSpace with
    | false => rfl
    | true => exact hcookie
  | paramMod evParam =>
    have hcookie := hsame evParam.cookie evParam.param_id
      (fun param => params.setModulation param evParam.amount) (.ofMod evParam) (by
        intro c hc
        exact h c _ (by simp [carried, hc]))
    cases coreSpace with
    | false => rfl
    | true => exact hcookie
  | _ => rfl

/-- An event without a cookie is processed to the end; it leaves the map as it is, and does
nothing if its id has no entry. -/
theorem processEvent_null (coreSpace : Bool) (ev : Clap.Event) :
    ∃ params' pushed, processEvent params coreSpace (withoutCookie ev) = .done params' pushed ∧
      params'.paramsHashed = params.paramsHashed ∧
      ∀ id, paramId ev = some id → params.paramsHashed id = none →
        params' = params ∧ pushed = none := by
  cases coreSpace with
  | false => exact ⟨params, none, rfl, rfl, fun _ _ _ => ⟨rfl, rfl⟩⟩
  | true =>
    cases ev with
    | paramValue evParam =>
      rcases processParamEvent_null evParam.param_id
        (fun param => params.setValue param evParam.value) (.ofValue evParam)
        (fun _ => rfl) with ⟨params', pushed, hev, hhashed, hnone⟩
      refine ⟨params', pushed, hev, hhashed, ?_⟩
      intro id hid
      cases hid
      exact hnone
    | paramMod evParam =>
      rcases processParamEvent_null evParam.param_id
        (fun param => params.setModulation param evParam.amount) (.ofMod evParam)
        (fun _ => rfl) with ⟨params', pushed, hev, hhashed, hnone⟩
      refine ⟨params', pushed, hev, hhashed, ?_⟩
      intro id hid
      cases hid
      exact hnone
    | _ => exact ⟨params, _, rfl, rfl, nofun⟩

/-- Events whose cookies are the entries of their ids are processed as those without. -/
theorem processEvents_withoutCookie (evs : List InEvent)
    (h : ∀ ev ∈ evs, ∀ cookie id, carried ev.ev = some (cookie, id) →
      params.paramsHashed id = some cookie) :
    ∃ r, processEvents params evs = some r ∧
      processEvents params (evs.map fun ev => { ev with ev := withoutCookie ev.ev }) =
        some r := by
  induction evs generalizing params with
  | nil => exact ⟨(params, []), rfl, rfl⟩
  | cons ev evs ih =>
    -- no event changes the map, which is all that the condition is about
    have hsame := processEvent_withoutCookie ev.coreSpace (h ev List.mem_cons_self)
    rcases processEvent_null ev.coreSpace ev.ev with
      ⟨params', pushed, hdone, hhashed, -⟩
    have hrest : ∀ e ∈ evs, ∀ cookie id, carried e.ev = some (cookie, id) →
        params'.paramsHashed id = some cookie := by
      intro e he cookie id hcarried
      rw [hhashed]
      exact h e (List.mem_cons_of_mem _ he) cookie id hcarried
    rcases ih hrest with ⟨r, hr, hr'⟩
    refine ⟨(r.1, pushed.toList ++ r.2), ?_, ?_⟩
    · rw [processEvents, ← hsame, hdone]
      simp only [hr, Option.map_some]
    · rw [List.map_cons, processEvents, hdone]
      simp only [hr', Option.map_some]

/-- An event for an id that has no entry. -/
theorem processEvent_unknown {ev : Clap.Event} {id : UInt32} (coreSpace : Bool)
    (hid : paramId ev = some id) (hunknown : params.paramsHashed id = none)
    (h : ∀ cookie id, carried ev = some (cookie, id) → params.paramsHashed id = some cookie) :
    processEvent params coreSpace ev = .done params none := by
  rcases processEvent_null coreSpace ev with
    ⟨params', pushed, hdone, -, hnone⟩
  rcases hnone id hid hunknown with ⟨rfl, rfl⟩
  rw [← processEvent_withoutCookie coreSpace h]
  exact hdone

/-- The store that the parameters make up, which is what the clients' view starts from. -/
def Wired.store {d : Params} (h : Wired d) : KeyedStore where
  toParams := d
  cookies_nodup := h.cookies_nodup
  hashed := by
    intro id ptr hptr
    rcases (h.consistent.hashed id ptr).mp hptr with ⟨p, hp, hid, hcookie⟩
    exact ⟨p, hp, hcookie, hid⟩
  keyed := by
    intro p hp
    exact (h.consistent.hashed _ _).mpr ⟨p, hp, rfl, rfl⟩

theorem Wired.cookiesAgree {d : Params} (h : Wired d) : CookiesAgree d h.store.toParamStore := by
  intro evs hpub
  apply processEvents_withoutCookie
  intro ev hev cookie id hcarried
  exact h.hashed_of_published (hpub ev hev cookie id hcarried)

theorem Wired.unknownIgnored {d : Params} (h : Wired d) :
    UnknownIgnored d h.store.toParamStore := by
  intro coreSpace ev id hid hunknown hpub
  apply processEvent_unknown coreSpace hid hunknown
  intro cookie id' hcarried
  obtain rfl : id' = id := by
    cases ev with
    | paramValue evParam | paramMod evParam =>
      rcases Option.map_eq_some_iff.mp hcarried with ⟨c, -, hpair⟩
      cases hpair
      exact Option.some.inj hid
    | _ => cases hid
  exact h.hashed_of_published (hpub cookie id' hcarried)

end Cookies

/-- The parameters of a run with distinct ids. -/
theorem wired_of_run {ls : List Addition} {d : Params} (hrun : spec.run {} ls = some d)
    (hids : (ls.map fun a => a.info.id).Nodup) :
    Wired d ∧ d.params = ls.map fun a => .ofInfo a.ptr a.info a.defaultValue :=
  wired_empty.run (fun _ _ => List.forall_mem_nil _) hids hrun

/-- With distinct ids, cookies that were published make no difference, and as long as there are
less than `2 ^ 32` parameters all of them are listed. -/
theorem cookiePath_eq_idPath {ls : List Addition} {d : Params}
    (hrun : spec.run {} ls = some d) (hids : (ls.map fun a => a.info.id).Nodup) :
    ∃ params : ParamStore, params.toParams = d ∧ CookiesAgree d params ∧
      UnknownIgnored d params ∧ (ls.length < 2 ^ 32 → Lists d ls) := by
  rcases wired_of_run hrun hids with ⟨hwired, hparams⟩
  refine ⟨hwired.store.toParamStore, rfl, hwired.cookiesAgree, hwired.unknownIgnored, ?_⟩
  intro hsize
  constructor
  · rw [listing_eq (by simpa [hparams] using hsize), hparams, List.map_map]
    rfl
  · intro a ha
    refine (hwired.consistent.hashed _ _).mpr ⟨.ofInfo a.ptr a.info a.defaultValue, ?_, rfl, rfl⟩
    rw [hparams]
    exact List.mem_map_of_mem ha

/-- Two parameters are added. -/
def twoAdded : List Addition :=
  [{ info := { id := 3 }, ptr := 1 }, { info := { id := 8 }, ptr := 2 }]

theorem cookiePath_eq_idPath_two : ∃ d, spec.run {} twoAdded = some d ∧
    ∃ params : ParamStore, params.toParams = d ∧ CookiesAgree d params ∧
      UnknownIgnored d params ∧ (twoAdded.length < 2 ^ 32 → Lists d twoAdded) := by
  refine ⟨_, rfl, ?_⟩
  exact cookiePath_eq_idPath rfl (by decide)

/-- A parameter for each id below `n`. -/
def additions (n : Nat) : List Addition :=
  (List.range n).map fun i => { info := { id := UInt32.ofNat i }, ptr := i }

theorem additions_ids {n : Nat} (hn : n ≤ 2 ^ 32) :
    ((additions n).map fun a => a.info.id).Nodup := by
  rw [additions, List.map_map]
  apply List.Nodup.map_on _ List.nodup_range
  intro i hi j hj hid
  have hmod := congrArg UInt32.toNat hid
  simp only [Function.comp_apply, UInt32.toNat_ofNat'] at hmod
  rw [List.mem_range] at hi hj
  rwa [Nat.mod_eq_of_lt (hi.trans_le hn), Nat.mod_eq_of_lt (hj.trans_le hn)] at hmod

theorem additions_ptrs (n : Nat) : ((additions n).map Addition.ptr).Nodup := by
  rw [additions, List.map_map]
  exact (List.map_id (List.range n)).symm ▸ List.nodup_range

/-- With a parameter for every id there is, `paramsCount` is zero. -/
theorem cookiePath_eq_idPath_fails : ¬ ∀ (ls : List Addition) (d : Params),
    spec.run {} ls = some d → (ls.map fun a => a.info.id).Nodup →
    ∃ params : ParamStore, params.toParams = d ∧ CookiesAgree d params ∧
      UnknownIgnored d params ∧ Lists d ls := by
  intro h
  have hids := additions_ids (n := 2 ^ 32) le_rfl
  have hsize : (additions (2 ^ 32)).length = 2 ^ 32 := by simp only [additions, List.length_map,
    List.length_range]
  rcases exists_run (d := {}) (additions_ptrs (2 ^ 32)) (by simp) with ⟨d, hrun⟩
  -- the size does not fit into the `uint32_t`
  have hlength : d.params.length = 2 ^ 32 := by
    rw [(wired_of_run hrun hids).2, List.length_map, hsize]
  have hcount : d.paramsCount = 0 := by
    rw [Params.paramsCount, hlength]
    rfl
  rcases h _ d hrun hids with ⟨params, -, -, -, hlists⟩
  have hlisted := congrArg List.length hlists.listing
  rw [List.length_map, hsize, listing, hcount, List.length_map, List.length_range] at hlisted
  exact absurd hlisted (by decide)

end AddParameter

end ClapRci
