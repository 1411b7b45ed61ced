import Mathlib.Logic.Function.Basic
import ClapRci.Server.ServerCtrl

/-!
# Plugin instances and the server (`plugin/coreplugin.cpp`)

A process may hold many `CorePlugin`s. Each constructor registers its instance with the
`ServerCtrl` and starts the server; each destructor unregisters it and stops the server.

`running_iff`: the server runs while a plugin is registered, exactly when every destructor
runs as the last one.
-/

namespace ClapRci

/-- The members of `CorePluginPrivate` that tie an instance to the server; of `sharedData`
it is whether the pointer is set. -/
structure CorePlugin where
  hashCore : Hash
  sharedData : Bool

namespace CorePlugin

variable {κ : Type} [LinearOrder κ]

/-- The constructor with `Settings`; `none` where one of its assertions fails. -/
def construct (ctrl : ServerCtrl κ) (this : PluginPtr) (built : Bool) :
    Option (CorePlugin × ServerCtrl κ) :=
  match ctrl.addPlugin this with
  | (none, _) => none
  | (some hc, ctrl) =>
    let sharedData := (ctrl.getSharedData hc).isSome
    let (_, ctrl) := ctrl.start built
    if ctrl.isRunning then some (⟨hc, sharedData⟩, ctrl) else none

/-- The destructor. -/
def destroy (plugin : CorePlugin) (ctrl : ServerCtrl κ) : Option (ServerCtrl κ) :=
  let (_, ctrl) := ctrl.removePlugin plugin.hashCore
  ctrl.stop.map fun r => r.2

/-- A plugin whose hash is free is registered, and the assertions of its constructor hold. -/
theorem construct_of_free {ctrl : ServerCtrl κ} {this : PluginPtr}
    (hfree : hashOf this ∉ ctrl.mSharedData.keys) (hserver : ctrl.ServerRuns) (built : Bool) :
    ∃ server : Server, server.isRunning = true ∧
      construct ctrl this built = some (⟨hashOf this, true⟩, {
        mServer := some server
        mSharedData := (ctrl.mSharedData.emplace (hashOf this) (.ofPlugin κ this)).2 }) := by
  have hadd := ServerCtrl.addPlugin_eq hfree
  rcases (ServerCtrl.start_spec (c := { ctrl with
    mSharedData := (ctrl.mSharedData.emplace (hashOf this) (.ofPlugin κ this)).2 })
    hserver built) with ⟨server, hstart, hrun⟩
  refine ⟨server, hrun, ?_⟩
  have hfound : ((ctrl.mSharedData.emplace (hashOf this) (.ofPlugin κ this)).2.find?
      (hashOf this)).isSome = true :=
    OrdMap.find?_isSome.mpr (OrdMap.mem_keys_emplace.mpr (Or.inl rfl))
  unfold construct
  rw [hadd]
  simp [hstart, ServerCtrl.isRunning, hrun, ServerCtrl.getSharedData, hfound]

/-- The destructor takes away the registration, and the server with it. -/
theorem destroy_spec {plugin : CorePlugin} {ctrl ctrl' : ServerCtrl κ}
    (hzero : plugin.hashCore ≠ 0) (hserver : ctrl.ServerRuns)
    (hdestroy : plugin.destroy ctrl = some ctrl') :
    ctrl' = { mServer := none, mSharedData := (ctrl.mSharedData.erase plugin.hashCore).2 } := by
  have hremoved : ((ctrl.removePlugin plugin.hashCore).2.stop.map fun r => r.2) = some ctrl' :=
    hdestroy
  rw [ServerCtrl.removePlugin_eq hzero] at hremoved
  rcases Option.map_eq_some_iff.mp hremoved with ⟨r, hstop, rfl⟩
  have hruns : ServerCtrl.ServerRuns { ctrl with
      mSharedData := (ctrl.mSharedData.erase plugin.hashCore).2 } := hserver
  exact ServerCtrl.stop_spec hruns hstop

/-! ## The process -/

/-- The singleton and the instances alive. -/
structure Sys (κ : Type) [LinearOrder κ] where
  ctrl : ServerCtrl κ := {}
  plugins : PluginPtr → Option CorePlugin := fun _ => none

/-- An instance is constructed at an address, or destroyed. -/
inductive Lbl where
  | construct (this : PluginPtr) (built : Bool)
  | destroy (this : PluginPtr)
deriving DecidableEq

/-- A constructor or destructor, from its call to its return. -/
def step (s : Sys κ) : Lbl → Option (Sys κ)
  | .construct this built =>
    if this = 0 then none
    else
      match s.plugins this with
      | some _ => none
      | none =>
        (construct s.ctrl this built).map fun (plugin, ctrl) =>
          { ctrl := ctrl, plugins := Function.update s.plugins this (some plugin) }
  | .destroy this =>
    match s.plugins this with
    | none => none
    | some plugin =>
      (plugin.destroy s.ctrl).map fun ctrl =>
        { ctrl := ctrl, plugins := Function.update s.plugins this none }

/-- A process before its first plugin. -/
def spec (κ : Type) [LinearOrder κ] : ActionSystem.Spec (Sys κ) Lbl where
  Init s := s = {}
  step := step

/-- While a plugin is registered the server is running. -/
def Running (s : Sys κ) : Prop :=
  s.ctrl.mSharedData.keys ≠ [] → s.ctrl.isRunning = true

/-- The condition on a step: no other instance is alive when one is destroyed. -/
def LastOne (s : Sys κ) : Lbl → Prop
  | .destroy this => ∀ p, p ≠ this → s.plugins p = none
  | _ => True

/-! ## The invariant -/

/-- The instances alive are those registered. -/
structure Inv (s : Sys κ) : Prop where
  live : ∀ p plugin, s.plugins p = some plugin → p ≠ 0 ∧ plugin.hashCore = hashOf p
  registered : ∀ hash, hash ∈ s.ctrl.mSharedData.keys ↔
    ∃ p, s.plugins p ≠ none ∧ hashOf p = hash
  server : s.ctrl.ServerRuns
  running : Running s

theorem init_inv : Inv ({} : Sys κ) where
  live p plugin h := by cases h
  registered hash := by
    constructor
    · intro h
      cases h
    · rintro ⟨p, hp, -⟩
      exact absurd rfl hp
  server s h := by cases h
  running h := absurd rfl h

section Steps

variable {s s' : Sys κ}

/-- A new address is not registered. -/
theorem Inv.not_registered (h : Inv s) {this : PluginPtr} (hthis : s.plugins this = none) :
    hashOf this ∉ s.ctrl.mSharedData.keys := by
  intro hmem
  rcases (h.registered _).mp hmem with ⟨p, hp, heq⟩
  obtain rfl : p = this := ServerCtrl.hashOf_injective heq
  exact hp hthis

/-- The assertions of the constructor hold. -/
theorem Inv.construct_eq (h : Inv s) {this : PluginPtr} (hthis : s.plugins this = none)
    (built : Bool) : ∃ server : Server, server.isRunning = true ∧
      construct s.ctrl this built = some (⟨hashOf this, true⟩, {
        mServer := some server
        mSharedData :=
          (s.ctrl.mSharedData.emplace (hashOf this) (.ofPlugin κ this)).2 }) :=
  construct_of_free (h.not_registered hthis) h.server built

/-- A constructor registers its instance and leaves the server running. -/
theorem Inv.construct_step (h : Inv s) {this : PluginPtr} {built : Bool}
    (hstep : step s (.construct this built) = some s') :
    this ≠ 0 ∧ s.plugins this = none ∧
      s'.plugins = Function.update s.plugins this (some ⟨hashOf this, true⟩) ∧
      s'.ctrl.mSharedData =
        (s.ctrl.mSharedData.emplace (hashOf this) (.ofPlugin κ this)).2 ∧
      ∃ server : Server, s'.ctrl.mServer = some server ∧ server.isRunning = true := by
  simp only [step] at hstep
  split at hstep
  · cases hstep
  rename_i hne
  split at hstep
  · cases hstep
  rename_i hnone
  rcases h.construct_eq hnone built with ⟨server, hrun, heq⟩
  rw [heq] at hstep
  cases hstep
  exact ⟨hne, hnone, rfl, rfl, server, rfl, hrun⟩

theorem Inv.construct (h : Inv s) {this : PluginPtr} {built : Bool}
    (hstep : step s (.construct this built) = some s') : Inv s' := by
  rcases h.construct_step hstep with ⟨hne, -, hplugins, hshared, server, hserver, hrun⟩
  constructor
  · intro p plugin hp
    rw [hplugins] at hp
    by_cases hpt : p = this
    · subst hpt
      rw [Function.update_self] at hp
      cases hp
      exact ⟨hne, rfl⟩
    · rw [Function.update_of_ne hpt] at hp
      exact h.live p plugin hp
  · rw [hshared, hplugins]
    exact OrdMap.mem_keys_emplace_alive h.registered this _ _
  · intro sv hsv
    rw [hserver] at hsv
    cases hsv
    exact hrun
  · intro _
    unfold ServerCtrl.isRunning
    rw [hserver]
    exact hrun

/-- A destructor takes away its registration, and the server with it. -/
theorem Inv.destroy_step (h : Inv s) {this : PluginPtr}
    (hstep : step s (.destroy this) = some s') :
    s'.plugins = Function.update s.plugins this none ∧ s'.ctrl.mServer = none ∧
      s'.ctrl.mSharedData = (s.ctrl.mSharedData.erase (hashOf this)).2 := by
  simp only [step] at hstep
  split at hstep
  · cases hstep
  rename_i plugin hp
  rcases h.live this plugin hp with ⟨hne, hhash⟩
  have hzero : plugin.hashCore ≠ 0 := by
    rw [hhash]
    exact ServerCtrl.hashOf_ne_zero hne
  rcases Option.map_eq_some_iff.mp hstep with ⟨ctrl, hdestroy, rfl⟩
  rw [destroy_spec hzero h.server hdestroy, hhash]
  exact ⟨rfl, rfl, rfl⟩

/-- What stays registered belongs to the instances that are left. -/
theorem Inv.registered_erase (h : Inv s) (this : PluginPtr) (hash : Hash) :
    hash ∈ (s.ctrl.mSharedData.erase (hashOf this)).2.keys ↔
      ∃ p, Function.update s.plugins this none p ≠ none ∧ hashOf p = hash :=
  OrdMap.mem_keys_erase_alive ServerCtrl.hashOf_injective h.registered this hash

theorem Inv.destroy (h : Inv s) {this : PluginPtr} (hlast : LastOne s (.destroy this))
    (hstep : step s (.destroy this) = some s') : Inv s' := by
  rcases h.destroy_step hstep with ⟨hplugins, hserver, hshared⟩
  constructor
  · intro p plugin hp
    rw [hplugins] at hp
    by_cases hpt : p = this
    · subst hpt
      rw [Function.update_self] at hp
      cases hp
    · rw [Function.update_of_ne hpt] at hp
      exact h.live p plugin hp
  · rw [hshared, hplugins]
    exact h.registered_erase this
  · intro sv hsv
    rw [hserver] at hsv
    cases hsv
  · intro hne
    -- only other instances could be registered, and there are none
    rcases List.exists_mem_of_ne_nil _ hne with ⟨hash, hmem⟩
    rw [hshared] at hmem
    rcases (h.registered_erase this hash).mp hmem with ⟨p, hp, -⟩
    by_cases hpt : p = this
    · subst hpt
      exact absurd (Function.update_self _ _ _) hp
    · rw [Function.update_of_ne hpt] at hp
      exact absurd (hlast p hpt) hp

/-- With another instance alive, its registration stays and the server is gone. -/
theorem Inv.stopped (h : Inv s) {this : PluginPtr} (hlast : ¬ LastOne s (.destroy this))
    (hstep : step s (.destroy this) = some s') : ¬ Running s' := by
  rcases h.destroy_step hstep with ⟨-, hserver, hshared⟩
  simp only [LastOne, Classical.not_forall] at hlast
  rcases hlast with ⟨p, hpt, hp⟩
  have hmem : hashOf p ∈ s'.ctrl.mSharedData.keys := by
    rw [hshared]
    exact (h.registered_erase this (hashOf p)).mpr
      ⟨p, by rwa [Function.update_of_ne hpt], rfl⟩
  intro hrun
  have hrunning := hrun (List.ne_nil_of_mem hmem)
  unfold ServerCtrl.isRunning at hrunning
  rw [hserver] at hrunning
  cases hrunning

end Steps

/-- After every constructor and destructor of a run the server runs if a plugin is
registered, exactly when every destructor runs with no other instance alive. -/
theorem running_iff (ls : List Lbl) :
    (spec κ).AllSteps (fun _ _ s' => Running s') {} ls ↔
      (spec κ).AllSteps (fun s l _ => LastOne s l) {} ls := by
  refine (spec κ).allSteps_iff Inv ?_ ?_ init_inv ls
  · intro s l s' hinv hcond hstep
    have hinv' : Inv s' := by
      cases l with
      | construct this built => exact hinv.construct hstep
      | destroy this => exact hinv.destroy hcond hstep
    exact ⟨hinv', hinv'.running⟩
  · intro s l s' hinv hcond hstep
    cases l with
    | construct this built => exact absurd trivial hcond
    | destroy this => exact hinv.stopped hcond hstep

/-- Two instances; one is destroyed, and the other one is left without its server. -/
theorem running_fails : ¬ ∀ ls, (spec Nat).AllSteps (fun _ _ s' => Running s') {} ls := by
  intro h
  have hlast := (spec Nat).forall_allSteps_last h [.construct 1 true, .construct 2 true]
    (.destroy 1) rfl rfl
  exact absurd (hlast (by decide)) (by decide)

end CorePlugin

end ClapRci
