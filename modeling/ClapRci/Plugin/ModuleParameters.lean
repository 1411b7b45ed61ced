import ClapRci.Core.StringCopy
import ClapRci.Plugin.AddParameter

/-!
# Parameters of modules (`plugin/modules/module.cpp`)

`Module::addParameter` puts the names of the parameter and of the module into the arrays of a
`clap_param_info`, and gives it to `CorePlugin::addParameter`.

`names_kept_iff`: a name is read back as it was given, or refused, exactly when it leaves room
for its terminator and has no NUL, or is longer than the array. The check lets a name through
that is as long as the array.
-/

namespace ClapRci

open EnqueueAuxiliaries (ClapParamInfo)

/-! ## The code -/

/-- What `addParameter` asks of a `ValueType`. -/
structure ValueType where
  minValue : Double := default
  maxValue : Double := default
  defaultValue : Double := default

/-- A `char` array. -/
structure CharArray (size : UInt64) where
  bytes : List UInt8
  length_eq : bytes.length = size.toNat

/-- The fields of a `clap_param_info` that `addParameter` sets, with arrays of `N` and `M`
bytes for the names. -/
structure RawParamInfo (N M : UInt64) where
  id : UInt32
  flags : UInt32
  name : CharArray N
  module : CharArray M
  min_value : Double
  max_value : Double
  default_value : Double

/-- What those who read the names as C strings get. -/
def RawParamInfo.strings {N M : UInt64} (info : RawParamInfo N M) : ClapParamInfo where
  id := info.id
  name := CString.ofBytes info.name.bytes
  module := CString.ofBytes info.module.bytes
  min_value := info.min_value
  max_value := info.max_value
  default_value := info.default_value

/-- An array of NULs after `safe_str_copy`; `none` where the process is ended. -/
def CharArray.ofCopy (platform : Platform) (size : UInt64) (src : StdString) :
    Option (CharArray size) :=
  match safeStrCopy platform size src with
  | .terminated => none
  | .written w => some ⟨w.apply (List.replicate size.toNat 0), by simp⟩

/-- The members of `Module` that `addParameter` uses. -/
structure Module where
  m_name : StdString
  m_moduleId : UInt32
  m_paramOffset : UInt32

namespace Module

/-- `Module::ParamOffset`. -/
def ParamOffset : UInt32 := 1024

/-- `Module(plugin, name, moduleId)`. -/
def ofId (name : StdString) (moduleId : UInt32) : Module where
  m_name := name
  m_moduleId := moduleId
  m_paramOffset := moduleId * ParamOffset

/-- The exceptions. -/
inductive Thrown where
  | invalid_argument (what : String)
  | logic_error (what : String)
deriving DecidableEq

/-- How a call ends. -/
inductive AddResult where
  | added (ptr : ParameterPtr)
  | thrown (e : Thrown)
  | terminated
deriving DecidableEq

/-- `addParameter(id, name, flags, valueType)`; `ptr` is the address of the new object. -/
def addParameter (platform : Platform) (N M : UInt64) (m : Module) (d : Params) (id : UInt32)
    (name : StdString) (flags : UInt32) (valueType : ValueType) (ptr : ParameterPtr) :
    AddResult × Params :=
  if N.toNat < name.length ∨ M.toNat < m.m_name.length then
    (.thrown (.invalid_argument "Name or module name too long!"), d)
  else
    match CharArray.ofCopy platform N name, CharArray.ofCopy platform M m.m_name with
    | some nameArray, some moduleArray =>
      let info : RawParamInfo N M :=
        { id := m.m_paramOffset + id
          flags := flags
          name := nameArray
          module := moduleArray
          min_value := valueType.minValue
          max_value := valueType.maxValue
          default_value := valueType.defaultValue }
      match d.addParameter info.strings valueType.defaultValue ptr with
      | (.ok ptr, d) => (.added ptr, d)
      | (.error what, d) => (.thrown (.logic_error what), d)
    | _, _ => (.terminated, d)

/-! ## What is promised -/

/-- The array can hold the string: with a terminator, and without one inside. -/
def Representable (size : UInt64) (s : StdString) : Prop := s.length < size.toNat ∧ 0 ∉ s

/-- The names are published as they were given, or refused before anything is added. -/
structure NamesKept (platform : Platform) (N M : UInt64) (m : Module) (d : Params) (id : UInt32)
    (name : StdString) (flags : UInt32) (valueType : ValueType) (ptr : ParameterPtr) : Prop where
  accepted : ∀ ptr' d', m.addParameter platform N M d id name flags valueType ptr =
      (.added ptr', d') → d.params.length < 2 ^ 32 →
    ∃ info, d'.paramsInfo (UInt32.ofNat d.params.length) = some (info, ptr') ∧
      info.name = name ∧ info.module = m.m_name
  rejected : ¬(Representable N name ∧ Representable M m.m_name) →
    ∃ what, m.addParameter platform N M d id name flags valueType ptr =
      (.thrown (.invalid_argument what), d)

/-! ## The arrays -/

section Arrays

variable {platform : Platform} {size : UInt64} {s : StdString}

/-- Where the copy has room enough, the array reads as the prefix that fits. -/
theorem ofCopy_of_fits (h : CopyFits platform size s) (hpos : 0 < size.toNat) :
    ∃ a, CharArray.ofCopy platform size s = some a ∧
      CString.ofBytes a.bytes = (CString.ofBytes s).take (size.toNat - 1) := by
  obtain ⟨w, hcopy, hstores, _⟩ := safeStrCopy_of_fits h
  refine ⟨⟨w.apply (List.replicate size.toNat 0), by simp⟩, ?_, ?_⟩
  · simp only [CharArray.ofCopy, hcopy]
  · apply hstores.ofBytes_apply
    · intro hzero
      exact CString.zero_not_mem_ofBytes s (List.mem_of_mem_take hzero)
    · rw [List.length_take, List.length_replicate]
      omega

theorem ofCopy_of_representable (platform : Platform) (h : Representable size s) :
    ∃ a, CharArray.ofCopy platform size s = some a ∧ CString.ofBytes a.bytes = s := by
  obtain ⟨hlen, hzero⟩ := h
  have hself := CString.ofBytes_eq_self.mpr hzero
  have hfits : CopyFits platform size s := by
    cases platform with
    | windows =>
      show (CString.ofBytes s).length < size.toNat
      rwa [hself]
    | posix => exact Nat.zero_lt_of_lt hlen
  obtain ⟨a, hcopy, hread⟩ := ofCopy_of_fits hfits (Nat.zero_lt_of_lt hlen)
  refine ⟨a, hcopy, ?_⟩
  rw [hread, hself]
  exact List.take_of_length_le (by omega)

end Arrays

/-! ## One call -/

section Call

variable {platform : Platform} {N M : UInt64} {m : Module} {d : Params} {id : UInt32}
  {name : StdString} {flags : UInt32} {valueType : ValueType} {ptr : ParameterPtr}

/-- Names that are too long are refused. -/
theorem addParameter_long (h : N.toNat < name.length ∨ M.toNat < m.m_name.length) :
    m.addParameter platform N M d id name flags valueType ptr =
      (.thrown (.invalid_argument "Name or module name too long!"), d) := if_pos h

/-- All others get through the check, whatever becomes of them. -/
theorem addParameter_not_long (h : ¬(N.toNat < name.length ∨ M.toNat < m.m_name.length))
    (what : String) (d' : Params) :
    m.addParameter platform N M d id name flags valueType ptr ≠
      (.thrown (.invalid_argument what), d') := by
  unfold addParameter
  rw [if_neg h]
  split
  · dsimp only
    split
    · simp
    · simp
  · simp

/-- What is added for names that the arrays can hold. -/
def infoOf (m : Module) (id : UInt32) (name : StdString) (valueType : ValueType) :
    ClapParamInfo where
  id := m.m_paramOffset + id
  name := name
  module := m.m_name
  min_value := valueType.minValue
  max_value := valueType.maxValue
  default_value := valueType.defaultValue

theorem addParameter_representable (hname : Representable N name)
    (hmodule : Representable M m.m_name) :
    m.addParameter platform N M d id name flags valueType ptr =
      match d.addParameter (m.infoOf id name valueType) valueType.defaultValue ptr with
      | (.ok ptr, d) => (.added ptr, d)
      | (.error what, d) => (.thrown (.logic_error what), d) := by
  obtain ⟨nameArray, hcopyName, hreadName⟩ := ofCopy_of_representable platform hname
  obtain ⟨moduleArray, hcopyModule, hreadModule⟩ := ofCopy_of_representable platform hmodule
  have hshort : ¬(N.toNat < name.length ∨ M.toNat < m.m_name.length) := by
    have hlenName := hname.1
    have hlenModule := hmodule.1
    omega
  unfold addParameter
  rw [if_neg hshort]
  simp only [hcopyName, hcopyModule, RawParamInfo.strings, hreadName, hreadModule]
  rfl

/-- A parameter that was added is the last one, and listed under the number of those before. -/
theorem paramsInfo_added {info : ClapParamInfo} {defaultValue : Double} {d' : Params}
    {ptr' : ParameterPtr} (h : d.addParameter info defaultValue ptr = (.ok ptr', d'))
    (hsize : d.params.length < 2 ^ 32) :
    d'.paramsInfo (UInt32.ofNat d.params.length) = some (info, ptr') := by
  unfold Params.addParameter at h
  dsimp only at h
  split at h
  · cases h
  · cases h
    have hindex : (UInt32.ofNat d.params.length).toNat = d.params.length := by
      rw [UInt32.toNat_ofNat']
      exact Nat.mod_eq_of_lt hsize
    simp [Params.paramsInfo, Params.getParameterByIndex, hindex, Parameter.ofInfo]

end Call

/-- The names are kept exactly when the arrays can hold both, or one is longer than its
array. -/
theorem names_kept_iff (platform : Platform) (N M : UInt64) (m : Module) (d : Params)
    (id : UInt32) (name : StdString) (flags : UInt32) (valueType : ValueType)
    (ptr : ParameterPtr) :
    NamesKept platform N M m d id name flags valueType ptr ↔
      Representable N name ∧ Representable M m.m_name ∨
        N.toNat < name.length ∨ M.toNat < m.m_name.length := by
  constructor
  · intro hkept
    by_cases hrep : Representable N name ∧ Representable M m.m_name
    · exact Or.inl hrep
    · right
      by_contra hshort
      obtain ⟨what, hrejected⟩ := hkept.rejected hrep
      exact addParameter_not_long hshort what d hrejected
  · rintro (⟨hname, hmodule⟩ | hlong)
    · constructor
      · intro ptr' d' hadd hsize
        rw [addParameter_representable hname hmodule] at hadd
        split at hadd
        · rename_i ptr'' d'' hstore
          cases hadd
          exact ⟨m.infoOf id name valueType, paramsInfo_added hstore hsize, rfl, rfl⟩
        · cases hadd
      · intro hnot
        exact absurd ⟨hname, hmodule⟩ hnot
    · constructor
      · intro ptr' d' hadd
        rw [addParameter_long hlong] at hadd
        cases hadd
      · intro _
        exact ⟨_, addParameter_long hlong⟩

/-- A name of 256 bytes for an array of 256 bytes. -/
theorem names_kept_fails : ¬∀ (platform : Platform) (N M : UInt64) (m : Module) (d : Params)
    (id : UInt32) (name : StdString) (flags : UInt32) (valueType : ValueType)
    (ptr : ParameterPtr), 2 ≤ N.toNat → 2 ≤ M.toNat →
      NamesKept platform N M m d id name flags valueType ptr := by
  intro h
  have hkept := h .posix 256 1024 (.ofId [97] 1) {} 0 (List.replicate 256 97) 0 {} 1
    (by decide) (by decide)
  have hlen : (List.replicate 256 (97 : UInt8)).length = 256 := List.length_replicate
  obtain ⟨what, hrejected⟩ := hkept.rejected fun hrep => by
    have hlt := hrep.1.1
    rw [hlen] at hlt
    exact absurd hlt (by decide)
  refine addParameter_not_long ?_ what _ hrejected
  rw [hlen]
  decide

end Module

end ClapRci
