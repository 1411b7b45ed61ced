import ClapRci.Plugin.Parameter

/-!
# From host events to messages (`plugin/coreplugin.cpp`, `server/wrappers.h`)

`processEvent` makes a `ServerEventWrapper` of a CLAP event, and the calls of the host on the
plugin and its GUI make one each; `consumeEventToStream` writes it into a `ServerEvent`.

`encoding_iff`: which wrappers can be read back from their message. The type of a parameter
event is not written, so that a modulation reads as a change of the value.
-/

namespace ClapRci

open EnqueueAuxiliaries (ClapParamInfo paramInfoEvent)

/-! ## CLAP events -/

namespace Clap

/-- `clap_event_note`. -/
structure EventNote where
  note_id : Int32
  port_index : Int16
  channel : Int16
  key : Int16
  velocity : Double

/-- `clap_event_note_expression`. -/
structure EventNoteExpression where
  expression_id : Int32
  note_id : Int32
  port_index : Int16
  channel : Int16
  key : Int16
  value : Double

/-- `clap_event_param_value`, without the note it may be meant for. -/
structure EventParamValue where
  param_id : UInt32
  cookie : Option ParameterPtr
  value : Double

/-- `clap_event_param_mod`, without the note it may be meant for. -/
structure EventParamMod where
  param_id : UInt32
  cookie : Option ParameterPtr
  amount : Double

/-- An event of the core event space, by the `type` of its header. -/
inductive Event where
  | noteOn (ev : EventNote)
  | noteOff (ev : EventNote)
  | noteChoke (ev : EventNote)
  | noteEnd (ev : EventNote)
  | noteExpression (ev : EventNoteExpression)
  | paramValue (ev : EventParamValue)
  | paramMod (ev : EventParamMod)
  | midi
  | midi2
  | midiSysex
  | other (type : UInt16)

/-- `clap_window`: the `api` says which handle it holds. -/
inductive Window where
  | cocoa (handle : UInt64)
  | win32 (handle : UInt64)
  | x11 (handle : UInt64)
  | wayland
  | unsupported (api : StdString)

end Clap

/-! ## Wrappers from events -/

/-- `ClapEventNoteWrapper(note, type)`. -/
def ClapEventNoteWrapper.ofNote (note : Clap.EventNote) (type : UInt32) :
    ClapEventNoteWrapper where
  noteId := note.note_id
  portIndex := note.port_index.toInt32
  channel := note.channel.toInt32
  key := note.key.toInt32
  value := note.velocity
  type := type

/-- `ClapEventNoteWrapper(expr, type, exprType)`. -/
def ClapEventNoteWrapper.ofExpression (expr : Clap.EventNoteExpression) (type : UInt32)
    (exprType : Int32) : ClapEventNoteWrapper where
  noteId := expr.note_id
  portIndex := expr.port_index.toInt32
  channel := expr.channel.toInt32
  key := expr.key.toInt32
  value := expr.value
  type := type
  expression := exprType

/-- `ClapEventParamWrapper(param)` of a value event. -/
def ClapEventParamWrapper.ofValue (param : Clap.EventParamValue) : ClapEventParamWrapper where
  type := .value
  paramId := param.param_id
  value := param.value

/-- `ClapEventParamWrapper(param)` of a modulation event. -/
def ClapEventParamWrapper.ofMod (param : Clap.EventParamMod) : ClapEventParamWrapper where
  type := .modulation
  paramId := param.param_id
  modulation := param.amount

namespace HostEvents

/-! ## `processEvent` -/

/-- What `processEvent` ends in: the parameters and the event it pushed, if any; or
`std::terminate`, also for a cookie that points to no parameter. -/
inductive Outcome where
  | done (params : ParamStore) (pushed : Option ServerEventWrapper)
  | terminated

/-- The parameter an event is for: the cookie, or else by id. -/
def eventParameter (params : ParamStore) (cookie : Option ParameterPtr) (param_id : UInt32) :
    Option ParameterPtr :=
  match cookie with
  | some param => some param
  | none => params.getParameterById param_id

/-- The two parameter cases of `processEvent`, which differ in what they do to the parameter
found. -/
def processParamEvent (params : ParamStore) (cookie : Option ParameterPtr) (param_id : UInt32)
    (apply : ParameterPtr → ParamStore) (wrapper : ClapEventParamWrapper) : Outcome :=
  match eventParameter params cookie param_id with
  | none => .done params none
  | some param =>
    match params.deref param with
    | none => .terminated
    | some p =>
      if p.m_info.id ≠ param_id then .terminated
      else .done (apply param) (some { ev := .param, data := .param wrapper })

/-- `processEvent(evHdr)`; `coreSpace` says whether `space_id` is the core event space. -/
def processEvent (params : ParamStore) (coreSpace : Bool) (evHdr : Clap.Event) : Outcome :=
  if !coreSpace then .done params none
  else
    match evHdr with
    | .paramValue evParam =>
      processParamEvent params evParam.cookie evParam.param_id
        (fun param => params.setValue param evParam.value) (.ofValue evParam)
    | .paramMod evParam =>
      processParamEvent params evParam.cookie evParam.param_id
        (fun param => params.setModulation param evParam.amount) (.ofMod evParam)
    | .noteOn evNote => .done params (some { ev := .note, data := .note (.ofNote evNote 0) })
    | .noteOff evNote => .done params (some { ev := .note, data := .note (.ofNote evNote 1) })
    | .noteChoke evNote => .done params (some { ev := .note, data := .note (.ofNote evNote 2) })
    | .noteEnd evNote => .done params (some { ev := .note, data := .note (.ofNote evNote 3) })
    | .noteExpression evNote =>
      .done params
        (some { ev := .note, data := .note (.ofExpression evNote 4 evNote.expression_id) })
    | .midi => .done params none
    | .midi2 => .done params none
    | .midiSysex => .done params none
    | .other _ => .done params none

/-! ## Calls of the host -/

/-- The calls that push a `ClapEventMainSyncWrapper`. -/
inductive Call where
  | activate
  | deactivate
  | startProcessing
  | stopProcessing
  | reset
  | guiCreate
  | guiSetTransient (window : Clap.Window)
  | guiShow
  | guiHide
  | guiDestroy

/-- The `wid` of `guiSetTransient`; it gives up on an unknown api. -/
def wid : Clap.Window → Option Int64
  | .cocoa handle => some handle.toInt64
  | .win32 handle => some handle.toInt64
  | .x11 handle => some handle.toInt64
  | .wayland => some (-1)
  | .unsupported _ => none

/-- The event a call pushes. -/
def Call.pushes : Call → Option ServerEventWrapper
  | .activate => some { ev := .pluginActivate, data := .mainSync {} }
  | .deactivate => some { ev := .pluginDeactivate, data := .mainSync {} }
  | .startProcessing => some { ev := .pluginStartProcessing, data := .mainSync {} }
  | .stopProcessing => some { ev := .pluginStopProcessing, data := .mainSync {} }
  | .reset => some { ev := .pluginReset, data := .mainSync {} }
  | .guiCreate => some { ev := .guiCreate, data := .mainSync {} }
  | .guiSetTransient window =>
    (wid window).map fun wid => { ev := .guiSetTransient, data := .mainSync { windowId := wid } }
  | .guiShow => some { ev := .guiShow, data := .mainSync {} }
  | .guiHide => some { ev := .guiHide, data := .mainSync {} }
  | .guiDestroy => some { ev := .guiDestroy, data := .mainSync {} }

/-- The wrappers `CorePlugin` builds: from a host event, from a call of the host, or from one
of its parameters. -/
inductive Built : ServerEventWrapper → Prop where
  | event {params params' : ParamStore} {coreSpace : Bool} {evHdr : Clap.Event}
      {w : ServerEventWrapper} (h : processEvent params coreSpace evHdr = .done params' (some w)) :
      Built w
  | call {c : Call} {w : ServerEventWrapper} (h : c.pushes = some w) : Built w
  | paramInfo (info : ClapParamInfo) : Built (paramInfoEvent info)

/-! ## Reading a message back -/

/-- The wrapper a message stands for, field by field. -/
def readBack (m : Api.ServerEvent) : Option ServerEventWrapper :=
  match m.payload with
  | .notSet => none
  | .note arg => some
      { ev := m.event
        data := .note
          { noteId := arg.note_id
            portIndex := arg.port_index
            channel := arg.channel
            key := arg.key
            value := arg.value
            type := arg.type.toUInt32
            expression := arg.expression } }
  | .param arg => some
      { ev := m.event
        data := .param
          { type := arg.type
            paramId := arg.param_id
            value := arg.value
            modulation := arg.modulation } }
  | .param_info arg => some
      { ev := m.event
        data := .paramInfo
          { paramId := arg.param_id
            name := arg.name
            module := arg.module
            minValue := arg.min_value
            maxValue := arg.max_value
            defaultValue := arg.default_value } }
  | .main_sync arg => some { ev := m.event, data := .mainSync { windowId := arg.window_id } }

/-- A parameter event of type `Modulation`. -/
def IsModulation (w : ServerEventWrapper) : Prop :=
  ∃ p, w.data = .param p ∧ p.type = .modulation

/-- A parameter event with value and modulation zero. -/
def IsZeroParam (w : ServerEventWrapper) : Prop :=
  ∃ p, w.data = .param p ∧ p.value = default ∧ p.modulation = default

/-- The wrapper with the default type for a parameter event. -/
def untyped (w : ServerEventWrapper) : ServerEventWrapper :=
  match w.data with
  | .param p => { w with data := .param { p with type := .value } }
  | _ => w

/-- Everything but the type of a parameter event is read back. -/
theorem readBack_toServerEvent (w : ServerEventWrapper) :
    readBack w.toServerEvent = some (untyped w) := by
  rcases w with ⟨ev, data⟩
  cases data with
  | note arg =>
    simp [readBack, untyped, ServerEventWrapper.toServerEvent, ClapEventNoteWrapper.getType,
      ClapEventNoteWrapper.getExpressionType]
  | param arg => rfl
  | paramInfo arg => rfl
  | mainSync arg => rfl

theorem untyped_of_param {w : ServerEventWrapper} {p : ClapEventParamWrapper}
    (h : w.data = .param p) :
    untyped w = { w with data := .param { p with type := .value } } := by
  simp [untyped, h]

theorem untyped_of_ne {w : ServerEventWrapper} (h : ∀ p, w.data ≠ .param p) : untyped w = w := by
  unfold untyped
  split
  · rename_i p hp
    exact absurd hp (h p)
  · rfl

/-! ## The wrappers that are built -/

/-- A parameter event is a value or a modulation event, and has nothing in the field of the
other. -/
theorem built_param {w : ServerEventWrapper} {p : ClapEventParamWrapper} (h : Built w)
    (hp : w.data = .param p) :
    w.ev = .param ∧ ((p.type = .value ∧ p.modulation = default) ∨
      (p.type = .modulation ∧ p.value = default)) := by
  have hevent : ∀ {params params' cookie id apply wrapper},
      processParamEvent params cookie id apply wrapper = .done params' (some w) →
      w = { ev := .param, data := .param wrapper } := by
    intro params params' cookie id apply wrapper h
    unfold processParamEvent at h
    split at h
    · cases h
    · split at h
      · cases h
      · split at h
        · cases h
        · cases h
          rfl
  cases h with
  | @event params params' coreSpace evHdr _ h =>
    unfold processEvent at h
    split at h
    · cases h
    · cases evHdr with
      | paramValue ev =>
        rw [hevent h] at hp ⊢
        cases hp
        exact ⟨rfl, Or.inl ⟨rfl, rfl⟩⟩
      | paramMod ev =>
        rw [hevent h] at hp ⊢
        cases hp
        exact ⟨rfl, Or.inr ⟨rfl, rfl⟩⟩
      | midi | midi2 | midiSysex | other => cases h
      | _ =>
        cases h
        cases hp
  | @call c _ h =>
    exfalso
    cases c with
    | guiSetTransient window =>
      rcases Option.map_eq_some_iff.mp h with ⟨wid, -, rfl⟩
      cases hp
    | _ =>
      cases h
      cases hp
  | paramInfo info => cases hp

/-- A plugin with one parameter. -/
def oneParam (id : UInt32) : ParamStore where
  params := [{ cookie := 1, m_info := { id := id }, m_value := default }]
  paramsHashed id' := if id' = id then some 1 else none
  cookies_nodup := by simp
  hashed := by
    intro id' ptr h
    split at h
    · rename_i hid
      cases h
      exact ⟨_, List.mem_singleton_self _, rfl, hid.symm⟩
    · cases h

/-- Any value, and any modulation, of any parameter can come. -/
theorem built_value (id : UInt32) (value : Double) :
    Built { ev := .param, data := .param { paramId := id, value := value } } := by
  have h : processEvent (oneParam id) true
      (.paramValue { param_id := id, cookie := some 1, value := value }) =
      .done ((oneParam id).setValue 1 value)
        (some { ev := .param, data := .param { paramId := id, value := value } }) := by
    simp [processEvent, processParamEvent, eventParameter, oneParam, Params.deref,
      ClapEventParamWrapper.ofValue]
  exact Built.event h

theorem built_modulation (id : UInt32) (amount : Double) :
    Built { ev := .param,
            data := .param { type := .modulation, paramId := id, modulation := amount } } := by
  have h : processEvent (oneParam id) true
      (.paramMod { param_id := id, cookie := some 1, amount := amount }) =
      .done ((oneParam id).setModulation 1 amount)
        (some { ev := .param,
                data := .param { type := .modulation, paramId := id, modulation := amount } }) := by
    simp [processEvent, processParamEvent, eventParameter, oneParam, Params.deref,
      ClapEventParamWrapper.ofMod]
  exact Built.event h

/-! ## What a message determines -/

/-- No other wrapper that is built has the same message. -/
def Determined (w : ServerEventWrapper) : Prop :=
  ∀ w', Built w' → w'.toServerEvent = w.toServerEvent → w' = w

theorem readBack_iff {w : ServerEventWrapper} (h : Built w) :
    readBack w.toServerEvent = some w ↔ ¬ IsModulation w := by
  rw [readBack_toServerEvent, Option.some.injEq]
  by_cases hparam : ∃ p, w.data = .param p
  · rcases hparam with ⟨p, hp⟩
    have hmod : IsModulation w ↔ p.type = .modulation := by
      simp [IsModulation, hp]
    rw [untyped_of_param hp, hmod]
    rcases w with ⟨ev, data⟩
    obtain rfl : data = .param p := hp
    rcases (built_param h rfl).2 with ⟨htype, -⟩ | ⟨htype, -⟩
    · constructor
      · intro _ hother
        rw [htype] at hother
        cases hother
      · intro _
        rw [← htype]
    · constructor
      · intro hsame _
        rw [ServerEventWrapper.mk.injEq, ServerEventData.param.injEq] at hsame
        have hvalue := congrArg ClapEventParamWrapper.type hsame.2
        rw [htype] at hvalue
        cases hvalue
      · intro hnot
        exact absurd htype hnot
  · have hne : ∀ p, w.data ≠ .param p := by
      intro p hp
      exact hparam ⟨p, hp⟩
    have hnot : ¬ IsModulation w := by
      rintro ⟨p, hp, -⟩
      exact hne p hp
    rw [untyped_of_ne hne]
    exact iff_of_true rfl hnot

/-- Two wrappers with one message differ in the type of a parameter event at most. -/
theorem untyped_eq {w w' : ServerEventWrapper} (h : w'.toServerEvent = w.toServerEvent) :
    untyped w' = untyped w := by
  have hread := congrArg readBack h
  rw [readBack_toServerEvent, readBack_toServerEvent] at hread
  exact Option.some.inj hread

/-- The type is all that can be lost, and it matters only if the event says nothing else. -/
theorem determined_iff {w : ServerEventWrapper} (h : Built w) :
    Determined w ↔ ¬ IsZeroParam w := by
  constructor
  · rintro hdet ⟨p, hp, hvalue, hmod⟩
    rcases w with ⟨ev, data⟩
    obtain rfl : data = .param p := hp
    rcases built_param h rfl with ⟨hev, htype⟩
    obtain rfl : ev = .param := hev
    rcases p with ⟨type, id, value, modulation⟩
    obtain rfl : value = default := hvalue
    obtain rfl : modulation = default := hmod
    -- the event of the other type has the same message
    rcases htype with ⟨htype, -⟩ | ⟨htype, -⟩
    · obtain rfl : type = .value := htype
      have hother := hdet _ (built_modulation id default) rfl
      cases hother
    · obtain rfl : type = .modulation := htype
      have hother := hdet _ (built_value id default) rfl
      cases hother
  · intro hzero w' h' hsame
    have huntyped := untyped_eq hsame
    rcases w with ⟨ev, data⟩
    rcases w' with ⟨ev', data'⟩
    cases data with
    | param p =>
      cases data' with
      | param p' =>
        simp only [untyped, ServerEventWrapper.mk.injEq, ServerEventData.param.injEq,
          ClapEventParamWrapper.mk.injEq, true_and] at huntyped
        rcases huntyped with ⟨rfl, hid, hvalue, hmod⟩
        have htypes : p'.type = p.type := by
          rcases (built_param h rfl).2 with ⟨htype, hz⟩ | ⟨htype, hz⟩
          · rcases (built_param h' rfl).2 with ⟨htype', -⟩ | ⟨-, hz'⟩
            · rw [htype, htype']
            · exact absurd ⟨p, rfl, hvalue ▸ hz', hz⟩ hzero
          · rcases (built_param h' rfl).2 with ⟨-, hz'⟩ | ⟨htype', -⟩
            · exact absurd ⟨p, rfl, hz, hmod ▸ hz'⟩ hzero
            · rw [htype, htype']
        rcases p with ⟨type, id, value, modulation⟩
        rcases p' with ⟨type', id', value', modulation'⟩
        simp only at hid hvalue hmod htypes
        rw [hid, hvalue, hmod, htypes]
      | _ => cases huntyped
    | _ =>
      cases data' with
      | param p' => cases huntyped
      | _ => exact huntyped

/-- A wrapper that is built is read back from its message exactly when it is no modulation;
the message is that of no other wrapper exactly when it is no parameter event that is zero
throughout. -/
theorem encoding_iff {w : ServerEventWrapper} (h : Built w) :
    (readBack w.toServerEvent = some w ↔ ¬ IsModulation w) ∧
      (Determined w ↔ ¬ IsZeroParam w) :=
  ⟨readBack_iff h, determined_iff h⟩

/-- The parameter info of a parameter is read back. -/
theorem encoding_paramInfo : readBack (paramInfoEvent { id := 7 }).toServerEvent =
    some (paramInfoEvent { id := 7 }) := by
  apply (encoding_iff (Built.paramInfo { id := 7 })).1.mpr
  rintro ⟨p, hp, -⟩
  cases hp

/-- A modulation is read back as a value. -/
theorem encoding_fails : ¬ ∀ w, Built w → readBack w.toServerEvent = some w ∧ Determined w := by
  intro h
  have hread := (h _ (built_modulation 1 ⟨1⟩)).1
  exact absurd hread (by decide)

end HostEvents

end ClapRci
