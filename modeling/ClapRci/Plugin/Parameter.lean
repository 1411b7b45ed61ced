import Mathlib.Data.List.Nodup
import ClapRci.Plugin.EnqueueAuxiliaries

/-!
# The parameters of a plugin (`plugin/parameter/parameter.h`, `plugin/coreplugin.cpp`)

`CorePlugin` owns its parameters in `params` and finds them by id in `paramsHashed`. The
members as they are make up `Params`; in a `ParamStore` every id in the map leads to the one
parameter with this id.
-/

namespace ClapRci

open EnqueueAuxiliaries (ClapParamInfo)

/-- Names a `Parameter` object. -/
abbrev ParameterPtr := Nat

/-- The members of `Parameter` that a change of its value or its modulation touches or
needs; `cookie` is `this`, which the constructor puts into `m_info`. -/
structure Parameter where
  cookie : ParameterPtr
  m_info : ClapParamInfo
  m_value : Double
  mMod : Double := default
deriving DecidableEq

namespace Parameter

/-- `setValue(value)`. -/
def setValue (p : Parameter) (value : Double) : Parameter := { p with m_value := value }

/-- `setModulation(modulation)`. -/
def setModulation (p : Parameter) (modulation : Double) : Parameter :=
  { p with mMod := modulation }

end Parameter

/-- The members `params` and `paramsHashed`. -/
structure Params where
  params : List Parameter := []
  paramsHashed : UInt32 → Option ParameterPtr := fun _ => none

namespace Params

/-- `getParameterById(paramId)`. -/
def getParameterById (d : Params) (paramId : UInt32) : Option ParameterPtr :=
  d.paramsHashed paramId

/-- The parameter a pointer points to. -/
def deref (d : Params) (ptr : ParameterPtr) : Option Parameter :=
  d.params.find? fun p => p.cookie = ptr

/-- Call a method on the parameter a pointer points to. -/
def modify (d : Params) (ptr : ParameterPtr) (f : Parameter → Parameter) : Params :=
  { d with params := d.params.map fun p => if p.cookie = ptr then f p else p }

/-- `paramsValue(paramId, value)`: what it writes, when it returns true. -/
def paramsValue (d : Params) (paramId : UInt32) : Option Double :=
  (d.getParameterById paramId).bind fun ptr => (d.deref ptr).map Parameter.m_value

/-- The modulation of the parameter with this id. -/
def paramsModulation (d : Params) (paramId : UInt32) : Option Double :=
  (d.getParameterById paramId).bind fun ptr => (d.deref ptr).map Parameter.mMod

/-- A method that keeps `this` touches this parameter only. -/
theorem deref_modify (d : Params) (ptr ptr' : ParameterPtr) {f : Parameter → Parameter}
    (hf : ∀ p, (f p).cookie = p.cookie) :
    (d.modify ptr f).deref ptr' =
      if ptr' = ptr then (d.deref ptr).map f else d.deref ptr' := by
  have hcookie : ∀ p : Parameter, (if p.cookie = ptr then f p else p).cookie = p.cookie := by
    intro p
    split
    · exact hf p
    · rfl
  simp only [deref, modify, List.find?_map, Function.comp_def, hcookie]
  split
  · rename_i hptr
    rw [hptr]
    cases hfind : d.params.find? fun p => p.cookie = ptr with
    | none => rfl
    | some p =>
      have hp : p.cookie = ptr := by simpa using List.find?_some hfind
      simp [hp]
  · rename_i hptr
    cases hfind : d.params.find? fun p => p.cookie = ptr' with
    | none => rfl
    | some p =>
      have hp : p.cookie = ptr' := by simpa using List.find?_some hfind
      simp [hp, hptr]

end Params

/-- Parameters that are where the map says: an id leads to a parameter with this id. -/
structure ParamStore extends Params where
  cookies_nodup : (params.map Parameter.cookie).Nodup
  hashed : ∀ paramId ptr, paramsHashed paramId = some ptr →
    ∃ p ∈ params, p.cookie = ptr ∧ p.m_info.id = paramId

namespace ParamStore

/-- No parameter. -/
def empty : ParamStore where
  toParams := {}
  cookies_nodup := List.nodup_nil
  hashed := by
    intro paramId ptr h
    cases h

instance : Inhabited ParamStore := ⟨empty⟩

/-- Two pointers to one object are the same pointer. -/
theorem cookie_injOn (s : ParamStore) {p q : Parameter} (hp : p ∈ s.params) (hq : q ∈ s.params)
    (h : p.cookie = q.cookie) : p = q :=
  List.inj_on_of_nodup_map s.cookies_nodup hp hq h

/-- Two ids do not lead to one parameter. -/
theorem paramsHashed_inj (s : ParamStore) {id id' : UInt32} {ptr : ParameterPtr}
    (h : s.paramsHashed id = some ptr) (h' : s.paramsHashed id' = some ptr) : id = id' := by
  rcases s.hashed id ptr h with ⟨p, hp, hptr, rfl⟩
  rcases s.hashed id' ptr h' with ⟨q, hq, hptr', rfl⟩
  rw [s.cookie_injOn hp hq (hptr.trans hptr'.symm)]

/-- A pointer from the map points to a parameter. -/
theorem deref_isSome (s : ParamStore) {id : UInt32} {ptr : ParameterPtr}
    (h : s.paramsHashed id = some ptr) : ∃ p, s.deref ptr = some p := by
  rcases s.hashed id ptr h with ⟨p, hp, hptr, -⟩
  apply Option.isSome_iff_exists.mp
  exact List.find?_isSome.mpr ⟨p, hp, by simpa using hptr⟩

/-- Call a method that keeps `this` and `m_info`. -/
def modify (s : ParamStore) (ptr : ParameterPtr) (f : Parameter → Parameter)
    (hcookie : ∀ p, (f p).cookie = p.cookie) (hinfo : ∀ p, (f p).m_info = p.m_info) :
    ParamStore where
  toParams := s.toParams.modify ptr f
  cookies_nodup := by
    have hsame : (fun p : Parameter => (if p.cookie = ptr then f p else p).cookie) =
        Parameter.cookie := by
      funext p
      split
      · exact hcookie p
      · rfl
    simp only [Params.modify, List.map_map, Function.comp_def, hsame]
    exact s.cookies_nodup
  hashed := by
    intro paramId ptr' h
    rcases s.hashed paramId ptr' h with ⟨p, hp, hptr, hid⟩
    refine ⟨_, List.mem_map_of_mem hp, ?_, ?_⟩
    · split
      · exact (hcookie p).trans hptr
      · exact hptr
    · split
      · exact (congrArg ClapParamInfo.id (hinfo p)).trans hid
      · exact hid

/-- `param->setValue(value)`. -/
def setValue (s : ParamStore) (ptr : ParameterPtr) (value : Double) : ParamStore :=
  s.modify ptr (fun p => p.setValue value) (fun _ => rfl) fun _ => rfl

/-- `param->setModulation(modulation)`. -/
def setModulation (s : ParamStore) (ptr : ParameterPtr) (modulation : Double) : ParamStore :=
  s.modify ptr (fun p => p.setModulation modulation) (fun _ => rfl) fun _ => rfl

/-- A known id has a value. -/
theorem paramsValue_isSome (s : ParamStore) {id : UInt32} {ptr : ParameterPtr}
    (h : s.paramsHashed id = some ptr) : ∃ v, s.paramsValue id = some v := by
  rcases s.deref_isSome h with ⟨p, hp⟩
  refine ⟨p.m_value, ?_⟩
  simp [Params.paramsValue, Params.getParameterById, h, hp]

/-- And an unknown one has none. -/
theorem paramsValue_eq_none (s : ParamStore) {id : UInt32} (h : s.paramsHashed id = none) :
    s.paramsValue id = none := by
  simp [Params.paramsValue, Params.getParameterById, h]

/-- A method called on one parameter is seen under its id only. -/
theorem read_modify (s : ParamStore) {id : UInt32} {ptr : ParameterPtr}
    (h : s.paramsHashed id = some ptr) {f : Parameter → Parameter}
    (hcookie : ∀ p, (f p).cookie = p.cookie) {β : Type} (g : Parameter → β) (id' : UInt32) :
    ((s.paramsHashed id').bind fun ptr' => ((s.toParams.modify ptr f).deref ptr').map g) =
      if id' = id then (s.deref ptr).map fun p => g (f p)
      else (s.paramsHashed id').bind fun ptr' => (s.deref ptr').map g := by
  simp only [Params.deref_modify _ _ _ hcookie]
  by_cases hid : id' = id
  · simp [hid, h, Function.comp_def]
  · rw [if_neg hid]
    cases h' : s.paramsHashed id' with
    | none => rfl
    | some ptr' =>
      have hne : ptr' ≠ ptr := by
        intro heq
        rw [heq] at h'
        exact hid (s.paramsHashed_inj h' h)
      simp [hne]

/-- `setValue` through a pointer from the map sets the value of that id and of no other. -/
theorem paramsValue_setValue (s : ParamStore) {id : UInt32} {ptr : ParameterPtr}
    (h : s.paramsHashed id = some ptr) (value : Double) (id' : UInt32) :
    (s.setValue ptr value).paramsValue id' =
      if id' = id then some value else s.paramsValue id' := by
  rcases s.deref_isSome h with ⟨p, hp⟩
  have hread := s.read_modify h (f := fun p => p.setValue value) (fun _ => rfl)
    Parameter.m_value id'
  rw [hp] at hread
  exact hread

/-- `setModulation` leaves the values alone. -/
theorem paramsValue_setModulation (s : ParamStore) {id : UInt32} {ptr : ParameterPtr}
    (h : s.paramsHashed id = some ptr) (modulation : Double) (id' : UInt32) :
    (s.setModulation ptr modulation).paramsValue id' = s.paramsValue id' := by
  have hread := s.read_modify h (f := fun p => p.setModulation modulation) (fun _ => rfl)
    Parameter.m_value id'
  refine hread.trans ?_
  split
  · rename_i hid
    simp [hid, Params.paramsValue, Params.getParameterById, h, Parameter.setModulation]
  · rfl

/-- `setValue` leaves the modulations alone. -/
theorem paramsModulation_setValue (s : ParamStore) {id : UInt32} {ptr : ParameterPtr}
    (h : s.paramsHashed id = some ptr) (value : Double) (id' : UInt32) :
    (s.setValue ptr value).paramsModulation id' = s.paramsModulation id' := by
  have hread := s.read_modify h (f := fun p => p.setValue value) (fun _ => rfl)
    Parameter.mMod id'
  refine hread.trans ?_
  split
  · rename_i hid
    simp [hid, Params.paramsModulation, Params.getParameterById, h, Parameter.setValue]
  · rfl

end ParamStore

end ClapRci
