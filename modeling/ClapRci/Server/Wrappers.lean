/-!
# Events and their messages (`server/wrappers.h`, `api/v0/api.proto`)

The wrappers the plugin pushes to its queues, the messages the server streams to the
clients, and the conversion that `consumeEventToStream` makes from one to the other.
-/

namespace ClapRci

/-- An IEEE double, by its bits; the code modelled here only copies it. -/
structure Double where
  bits : UInt64
deriving DecidableEq

instance : Inhabited Double := ⟨⟨0⟩⟩

/-- A `std::string`, by its bytes. -/
abbrev StdString := List UInt8

/-! ## Messages of `api.proto` -/

/-- `api.v0.Event`. A proto3 enum is open: a client may send any other number. -/
inductive Event where
  | pluginActivate
  | pluginDeactivate
  | pluginStartProcessing
  | pluginStopProcessing
  | pluginReset
  | guiCreate
  | guiDestroy
  | guiShow
  | guiHide
  | guiSetTransient
  | param
  | paramInfo
  | note
  | eventSuccess
  | eventFailed
  | eventInvalid
  | unrecognized (value : Int32)
deriving DecidableEq

/-- `ClapEventParam.Type`. -/
inductive ClapEventParamType where
  | value
  | modulation
  | gestureBegin
  | gestureEnd
  | unrecognized (number : Int32)
deriving DecidableEq

namespace Api

/-- Message `ClapEventNote`; the two enum fields are stored as their numbers. -/
structure ClapEventNote where
  note_id : Int32 := 0
  port_index : Int32 := 0
  channel : Int32 := 0
  key : Int32 := 0
  value : Double := default
  type : Int32 := 0
  expression : Int32 := 0
deriving DecidableEq

/-- Message `ClapEventParam`. -/
structure ClapEventParam where
  type : ClapEventParamType := .value
  param_id : UInt32 := 0
  value : Double := default
  modulation : Double := default
deriving DecidableEq

/-- Message `ClapEventParamInfo`. -/
structure ClapEventParamInfo where
  param_id : UInt32 := 0
  name : StdString := []
  module : StdString := []
  min_value : Double := default
  max_value : Double := default
  default_value : Double := default
deriving DecidableEq

/-- Message `ClapEventMainSync`. -/
structure ClapEventMainSync where
  window_id : Int64 := 0
deriving DecidableEq

/-- The `oneof payload` of `ServerEvent`. -/
inductive Payload where
  | notSet
  | note (m : ClapEventNote)
  | param (m : ClapEventParam)
  | param_info (m : ClapEventParamInfo)
  | main_sync (m : ClapEventMainSync)
deriving DecidableEq

/-- Message `ServerEvent`. -/
structure ServerEvent where
  event : Event := .pluginActivate
  payload : Payload := .notSet
deriving DecidableEq

/-- Message `ServerEvents`: its repeated field `events`. -/
abbrev ServerEvents := List ServerEvent

end Api

/-! ## Wrappers -/

/-- `ClapEventNoteWrapper`; the default expression is `None = -1`. -/
structure ClapEventNoteWrapper where
  noteId : Int32 := 0
  portIndex : Int32 := 0
  channel : Int32 := 0
  key : Int32 := 0
  value : Double := default
  type : UInt32 := 0
  expression : Int32 := -1
deriving DecidableEq

/-- The cast of the `uint32_t` to the enum, an `int`. -/
def ClapEventNoteWrapper.getType (w : ClapEventNoteWrapper) : Int32 := w.type.toInt32

def ClapEventNoteWrapper.getExpressionType (w : ClapEventNoteWrapper) : Int32 := w.expression

/-- `ClapEventParamWrapper`. -/
structure ClapEventParamWrapper where
  type : ClapEventParamType := .value
  paramId : UInt32 := 0
  value : Double := default
  modulation : Double := default
deriving DecidableEq

/-- `ClapEventParamInfoWrapper`. -/
structure ClapEventParamInfoWrapper where
  paramId : UInt32 := 0
  name : StdString := []
  module : StdString := []
  minValue : Double := default
  maxValue : Double := default
  defaultValue : Double := default
deriving DecidableEq

/-- `ClapEventMainSyncWrapper`. -/
structure ClapEventMainSyncWrapper where
  windowId : Int64 := 0
deriving DecidableEq

/-- The variant `ServerEventWrapper::T`. -/
inductive ServerEventData where
  | note (w : ClapEventNoteWrapper)
  | param (w : ClapEventParamWrapper)
  | paramInfo (w : ClapEventParamInfoWrapper)
  | mainSync (w : ClapEventMainSyncWrapper)
deriving DecidableEq

/-- `ServerEventWrapper`. -/
structure ServerEventWrapper where
  ev : Event := .eventInvalid
  data : ServerEventData := .mainSync {}
deriving DecidableEq

/-- What the visitor of `consumeEventToStream` writes into the message it appends.
The setters called are exactly these: the parameter's `type` is not among them. -/
def ServerEventWrapper.toServerEvent (w : ServerEventWrapper) : Api.ServerEvent where
  event := w.ev
  payload :=
    match w.data with
    | .note arg => .note
        { note_id := arg.noteId
          port_index := arg.portIndex
          channel := arg.channel
          key := arg.key
          value := arg.value
          type := arg.getType
          expression := arg.getExpressionType }
    | .param arg => .param
        { param_id := arg.paramId
          value := arg.value
          modulation := arg.modulation }
    | .paramInfo arg => .param_info
        { param_id := arg.paramId
          name := arg.name
          module := arg.module
          min_value := arg.minValue
          max_value := arg.maxValue
          default_value := arg.defaultValue }
    | .mainSync arg => .main_sync { window_id := arg.windowId }

end ClapRci
