import ClapRci.Lib.MixedRadix
import ClapRci.Plugin.ModuleParameters

/-!
# The ids of parameters (`plugin/modules/module.cpp`)

Each module has its own ids. `addParameter` makes one id for the host of the module's and the
parameter's, `moduleId * ParamOffset + id`, in 32 bits.

`globalIds_distinct`: two such ids are the same exactly when the local ids agree below the
stride and the module ids, with what the local ids have above it, agree in 22 bits; and no call
finds its id taken exactly when no two do that.
-/

namespace ClapRci

open EnqueueAuxiliaries (ClapParamInfo)

namespace Module

/-- The id that `addParameter` puts into the info. -/
def globalId (moduleId id : UInt32) : UInt32 := moduleId * ParamOffset + id

/-- Two pairs of ids that 32 bits do not tell apart. -/
def Collide (moduleId id moduleId' id' : UInt32) : Prop :=
  id.toNat % 1024 = id'.toNat % 1024 ∧
    (moduleId.toNat + id.toNat / 1024) % 2 ^ 22 = (moduleId'.toNat + id'.toNat / 1024) % 2 ^ 22

/-! ## The packing -/

theorem toNat_globalId (moduleId id : UInt32) :
    (globalId moduleId id).toNat = (moduleId.toNat * 1024 + id.toNat) % 2 ^ 32 := by
  rw [globalId, UInt32.toNat_add, UInt32.toNat_mul]
  exact Nat.mod_add_mod _ _ _

/-- The id is a number of two digits with the stride as radix, in a word. -/
theorem globalId_eq_iff (moduleId id moduleId' id' : UInt32) :
    globalId moduleId id = globalId moduleId' id' ↔ Collide moduleId id moduleId' id' := by
  have hword := @MixedRadix.value_modEq_iff 1024 moduleId.toNat moduleId'.toNat id.toNat
    id'.toNat (by decide) (2 ^ 22)
  rw [← UInt32.toNat_inj, toNat_globalId, toNat_globalId]
  unfold MixedRadix.value Int.ModEq at hword
  unfold Collide
  omega

/-- Below the stride the local id is kept, and so is the module id in 22 bits. -/
theorem globalId_ne_of_lt {moduleId id moduleId' id' : UInt32} (hid : id.toNat < 1024)
    (hid' : id'.toNat < 1024)
    (hne : moduleId.toNat % 2 ^ 22 ≠ moduleId'.toNat % 2 ^ 22 ∨ id ≠ id') :
    globalId moduleId id ≠ globalId moduleId' id' := by
  intro heq
  obtain ⟨hlow, hhigh⟩ := (globalId_eq_iff _ _ _ _).mp heq
  rw [Nat.div_eq_of_lt hid, Nat.div_eq_of_lt hid'] at hhigh
  rcases hne with hmodule | hlocal
  · exact hmodule hhigh
  · rw [Nat.mod_eq_of_lt hid, Nat.mod_eq_of_lt hid'] at hlow
    exact hlocal (UInt32.toNat_inj.mp hlow)

/-! ## One call -/

/-- A call of `addParameter` on a module of this name and id. -/
structure Call where
  moduleName : StdString
  moduleId : UInt32
  id : UInt32
  name : StdString
  flags : UInt32 := 0
  valueType : ValueType := {}
  ptr : ParameterPtr

/-- The id it asks for. -/
def Call.globalId (c : Call) : UInt32 := Module.globalId c.moduleId c.id

/-- What it does. -/
def Call.add (platform : Platform) (N M : UInt64) (c : Call) (d : Params) : AddResult × Params :=
  (ofId c.moduleName c.moduleId).addParameter platform N M d c.id c.name c.flags c.valueType c.ptr

/-- The arrays can hold both names. -/
def Call.Admissible (N M : UInt64) (c : Call) : Prop :=
  Representable N c.name ∧ Representable M c.moduleName

/-- The exception that says the id is taken. -/
def AddResult.IsTaken (r : AddResult) : Prop := ∃ what, r = .thrown (.logic_error what)

section Calls

variable {platform : Platform} {N M : UInt64} {c : Call} {d : Params}

/-- A call that gets to the store with an id that is free. -/
theorem store_of_none {info : ClapParamInfo} {defaultValue : Double} {ptr : ParameterPtr}
    (h : d.paramsHashed info.id = none) :
    d.addParameter info defaultValue ptr = (.ok ptr,
      { params := d.params ++ [.ofInfo ptr info defaultValue]
        paramsHashed := Function.update d.paramsHashed info.id (some ptr) }) :=
  AddParameter.addParameter_of_none (a := ⟨info, defaultValue, ptr⟩) h

/-- What the call makes of the store's answer. -/
def ofStore (r : Except String ParameterPtr × Params) : AddResult × Params :=
  match r with
  | (.ok ptr, d) => (.added ptr, d)
  | (.error what, d) => (.thrown (.logic_error what), d)

/-- A call does not get to the store, or it asks the store for its id. -/
theorem Call.add_cases (platform : Platform) (N M : UInt64) (c : Call) (d : Params) :
    (∃ r, c.add platform N M d = (r, d) ∧ ¬r.IsTaken) ∨
      ∃ info : ClapParamInfo, info.id = c.globalId ∧
        c.add platform N M d = ofStore (d.addParameter info c.valueType.defaultValue c.ptr) := by
  unfold Call.add addParameter
  split
  · -- refused for its length
    refine Or.inl ⟨_, rfl, ?_⟩
    rintro ⟨what, heq⟩
    cases heq
  · split
    · exact Or.inr ⟨_, rfl, rfl⟩
    · refine Or.inl ⟨_, rfl, ?_⟩
      rintro ⟨what, heq⟩
      cases heq

/-- A free id is not found taken, and at most this id is taken afterwards. -/
theorem Call.add_of_none (h : d.paramsHashed c.globalId = none) :
    ¬(c.add platform N M d).1.IsTaken ∧
      ∀ id, (c.add platform N M d).2.paramsHashed id ≠ none →
        id = c.globalId ∨ d.paramsHashed id ≠ none := by
  rcases c.add_cases platform N M d with ⟨r, hadd, hnot⟩ | ⟨info, hid, hadd⟩
  · rw [hadd]
    exact ⟨hnot, fun id htaken => Or.inr htaken⟩
  · rw [← hid] at h
    rw [hadd, store_of_none h]
    constructor
    · rintro ⟨what, heq⟩
      cases heq
    · intro id htaken
      by_cases hself : id = info.id
      · exact Or.inl (hself.trans hid)
      · refine Or.inr ?_
        simp only [ofStore] at htaken
        rwa [Function.update_of_ne hself] at htaken

/-- A call with admissible names takes its id, throws if it was taken, and frees none. -/
theorem Call.add_of_admissible (hc : c.Admissible N M) :
    (d.paramsHashed c.globalId ≠ none → (c.add platform N M d).1.IsTaken) ∧
      ∀ id, id = c.globalId ∨ d.paramsHashed id ≠ none →
        (c.add platform N M d).2.paramsHashed id ≠ none := by
  have hmodule : Representable M (ofId c.moduleName c.moduleId).m_name := hc.2
  have hid : ((ofId c.moduleName c.moduleId).infoOf c.id c.name c.valueType).id = c.globalId :=
    rfl
  unfold Call.add
  rw [addParameter_representable hc.1 hmodule]
  have hupdate : ∀ id, id = c.globalId ∨ d.paramsHashed id ≠ none →
      Function.update d.paramsHashed c.globalId (some c.ptr) id ≠ none := by
    intro id htaken
    by_cases hself : id = c.globalId
    · rw [hself, Function.update_self]
      simp
    · rw [Function.update_of_ne hself]
      exact htaken.resolve_left hself
  cases hfree : d.paramsHashed c.globalId with
  | none =>
    rw [store_of_none (hid ▸ hfree)]
    exact ⟨fun h => absurd rfl h, hupdate⟩
  | some ptr =>
    -- the entry is written over before the exception
    have hthrow : d.addParameter ((ofId c.moduleName c.moduleId).infoOf c.id c.name c.valueType)
        c.valueType.defaultValue c.ptr = (.error ("Parameter with id " ++
          toString c.globalId ++ " already exists!"),
        { d with paramsHashed := Function.update d.paramsHashed c.globalId (some c.ptr) }) := by
      simp [Params.addParameter, hid, hfree]
    rw [hthrow]
    exact ⟨fun _ => ⟨_, rfl⟩, hupdate⟩

end Calls

/-! ## All calls on a plugin -/

/-- Calls on the modules of one plugin. -/
def callSpec (platform : Platform) (N M : UInt64) : ActionSystem.Spec Params Call where
  Init d := d = {}
  step d c := some (c.add platform N M d).2

/-- The id is not found taken. -/
def IdFree (platform : Platform) (N M : UInt64) (d : Params) (c : Call) (_ : Params) : Prop :=
  ¬(c.add platform N M d).1.IsTaken

section Runs

variable {platform : Platform} {N M : UInt64}

/-- Ids that are free, and all different, stay free until they are asked for. -/
theorem idFree_of_pairwise {d : Params} {calls : List Call}
    (hfree : ∀ c ∈ calls, d.paramsHashed c.globalId = none)
    (hdistinct : calls.Pairwise fun c c' => c.globalId ≠ c'.globalId) :
    (callSpec platform N M).AllSteps (IdFree platform N M) d calls := by
  induction calls generalizing d with
  | nil => trivial
  | cons c calls ih =>
    rintro d' ⟨⟩
    rw [List.pairwise_cons] at hdistinct
    obtain ⟨hnot, hmono⟩ := @Call.add_of_none platform N M c d
      (hfree c List.mem_cons_self)
    refine ⟨hnot, ih ?_ hdistinct.2⟩
    intro c' hc'
    by_contra htaken
    rcases hmono _ htaken with heq | hold
    · exact hdistinct.1 c' hc' heq.symm
    · exact hold (hfree c' (List.mem_cons_of_mem _ hc'))

/-- With admissible names an id that is asked for is taken from then on. -/
theorem pairwise_of_idFree {d : Params} {calls : List Call}
    (hadm : ∀ c ∈ calls, c.Admissible N M)
    (hall : (callSpec platform N M).AllSteps (IdFree platform N M) d calls) :
    (∀ c ∈ calls, d.paramsHashed c.globalId = none) ∧
      calls.Pairwise fun c c' => c.globalId ≠ c'.globalId := by
  induction calls generalizing d with
  | nil => exact ⟨fun c hc => absurd hc List.not_mem_nil, List.Pairwise.nil⟩
  | cons c calls ih =>
    obtain ⟨hnot, hrest⟩ := hall _ rfl
    obtain ⟨hthrows, htakes⟩ := @Call.add_of_admissible platform N M c d
      (hadm c List.mem_cons_self)
    obtain ⟨hfree, hdistinct⟩ := ih (fun c' hc' => hadm c' (List.mem_cons_of_mem _ hc')) hrest
    constructor
    · intro c' hc'
      rcases List.mem_cons.mp hc' with rfl | hmem
      · by_contra htaken
        exact hnot (hthrows htaken)
      · by_contra htaken
        exact htakes _ (Or.inr htaken) (hfree c' hmem)
    · rw [List.pairwise_cons]
      refine ⟨?_, hdistinct⟩
      intro c' hc' heq
      exact htakes _ (Or.inl heq.symm) (hfree c' hc')

end Runs

/-- Ids of modules are the same only where the pairs collide; with names that the arrays can
hold, no call finds its id taken exactly when no two calls collide, and whatever the names are
none does when no two collide. -/
theorem globalIds_distinct (platform : Platform) (N M : UInt64) :
    (∀ moduleId id moduleId' id', globalId moduleId id = globalId moduleId' id' ↔
      Collide moduleId id moduleId' id') ∧
    (∀ moduleId id moduleId' id', id.toNat < 1024 → id'.toNat < 1024 →
      moduleId.toNat % 2 ^ 22 ≠ moduleId'.toNat % 2 ^ 22 →
        globalId moduleId id ≠ globalId moduleId' id') ∧
    (∀ calls : List Call,
      (calls.Pairwise fun c c' => ¬Collide c.moduleId c.id c'.moduleId c'.id) →
        (callSpec platform N M).AllSteps (IdFree platform N M) {} calls) ∧
    (∀ calls : List Call, (∀ c ∈ calls, c.Admissible N M) →
      (callSpec platform N M).AllSteps (IdFree platform N M) {} calls →
        calls.Pairwise fun c c' => ¬Collide c.moduleId c.id c'.moduleId c'.id) := by
  refine ⟨globalId_eq_iff, ?_, ?_, ?_⟩
  · intro moduleId id moduleId' id' hid hid' hne
    exact globalId_ne_of_lt hid hid' (Or.inl hne)
  · intro calls hdistinct
    refine idFree_of_pairwise (fun c _ => rfl) (hdistinct.imp ?_)
    intro c c' hnot heq
    exact hnot ((globalId_eq_iff _ _ _ _).mp heq)
  · intro calls hadm hall
    refine (pairwise_of_idFree hadm hall).2.imp ?_
    intro c c' hne hcollide
    exact hne ((globalId_eq_iff _ _ _ _).mpr hcollide)

/-- The parameter 1024 of module 0 and the parameter 0 of module 1. -/
theorem globalIds_collide :
    (¬∀ moduleId id moduleId' id', moduleId ≠ moduleId' →
      globalId moduleId id ≠ globalId moduleId' id') ∧
    ¬∀ calls : List Call, (calls.Pairwise fun c c' => (c.moduleId, c.id) ≠ (c'.moduleId, c'.id)) →
      (∀ c ∈ calls, c.Admissible 256 1024) →
        (callSpec .posix 256 1024).AllSteps (IdFree .posix 256 1024) {} calls := by
  constructor
  · intro h
    exact h 0 1024 1 0 (by decide) (by decide)
  · intro h
    have hall := h [⟨[97], 0, 1024, [98], 0, {}, 1⟩, ⟨[99], 1, 0, [100], 0, {}, 2⟩]
      (by decide) (by unfold Call.Admissible Representable; decide)
    have hdistinct := (pairwise_of_idFree
      (by unfold Call.Admissible Representable; decide) hall).2
    exact absurd hdistinct (by decide)

end Module

end ClapRci
