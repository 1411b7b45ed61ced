import ClapRci.Plugin.CorePluginLifetime
import ClapRci.Server.Metadata

/-!
# Hashes of plugins that are gone (`plugin/coreplugin.cpp`, `server/serverctrl.cpp`)

A client keeps the hash of its plugin, which is made of the plugin's address, and calls with it
whenever it likes, while plugins are constructed and destroyed and addresses used again.

`routed_iff`: every call reaches the plugin it is meant for, or is answered that there is none,
exactly when no call is meant for a plugin at whose address another one lives by now.
-/

namespace ClapRci.HashLifetimes

open Metadata (Backend Outcome Request)

/-- A unary call. -/
inductive Call where
  | event (ev : Event)
  | params (request : Api.ClientParams) (takes : Nat)

def Call.request {κ : Type} : Call → Request κ
  | .event ev => .clientEventCall ev
  | .params request takes => .clientParamCall request takes

variable {κ : Type} [LinearOrder κ]

/-- What a handler does with a call once it has found the plugin's data. -/
def deliver (c : Call) (hash : Hash) (b : Backend κ) : Outcome × Backend κ :=
  match c with
  | .event ev => Metadata.answer b (.ok (Metadata.deliverEvent ev hash b))
  | .params request takes => Metadata.answer b (.ok (Metadata.deliverParams request takes hash b))

/-- The answer where it finds none. -/
def notFound : Outcome := .answered ⟨.NOT_FOUND, "Plugin not found"⟩

/-- The controller with its queues, the plugins alive with their numbers, what `addPlugin` has
returned for each plugin so far, by number, and whose data each entry of the registry is. -/
structure Sys (κ : Type) [LinearOrder κ] where
  backend : Backend κ := {}
  plugins : PluginPtr → Option (Nat × CorePlugin) := fun _ => none
  issued : List (PluginPtr × Hash) := []
  owner : Hash → Option Nat := fun _ => none

/-- A plugin is constructed at an address, or destroyed; a client calls with the hash of the
plugin number `n` in its metadata; the audio thread makes a turn of the loop of a plugin's
`processGuiEvents`. -/
inductive Lbl where
  | construct (this : PluginPtr) (built : Bool)
  | destroy (this : PluginPtr)
  | call (n : Nat) (metadata : GrpcMetadata) (c : Call)
  | turn (this : PluginPtr)

/-- What a turn does to the queues: it takes the next update out. -/
def takeUpdate (queues : Metadata.ClientQueues) : Metadata.ClientQueues :=
  { queues with params :=
    { queues.params with
      mClientsToPluginQueue := queues.params.mClientsToPluginQueue.pop.2 } }

def step (s : Sys κ) : Lbl → Option (Sys κ)
  | .construct this built =>
    if this = 0 ∨ (s.plugins this).isSome then none
    else
      (CorePlugin.construct s.backend.ctrl this built).map fun (plugin, ctrl) =>
        { backend :=
            { ctrl := ctrl, queues := Function.update s.backend.queues plugin.hashCore {} }
          plugins := Function.update s.plugins this (some (s.issued.length, plugin))
          issued := s.issued ++ [(this, plugin.hashCore)]
          owner := Function.update s.owner plugin.hashCore (some s.issued.length) }
  | .destroy this =>
    match s.plugins this with
    | none => none
    | some (_, plugin) =>
      (plugin.destroy s.backend.ctrl).map fun ctrl =>
        { s with
          backend := { s.backend with ctrl := ctrl }
          plugins := Function.update s.plugins this none
          owner := Function.update s.owner plugin.hashCore none }
  | .call n metadata c =>
    match s.issued[n]? with
    | none => none
    | some (_, hash) =>
      if s.backend.ctrl.isRunning ∧
          extractMetadata metadata PluginHashId = some (to_string hash) then
        some { s with backend := (Metadata.process s.backend metadata c.request).2 }
      else none
  | .turn this =>
    match s.plugins this with
    | none => none
    | some (_, plugin) =>
      some { s with
        backend :=
          s.backend.setQueues plugin.hashCore (takeUpdate (s.backend.queues plugin.hashCore)) }

/-- A process before its first plugin. -/
def spec (κ : Type) [LinearOrder κ] : ActionSystem.Spec (Sys κ) Lbl where
  Init s := s = {}
  step := step

/-! ## What is promised -/

/-- A call for a registered plugin is delivered to it, and any other is answered `NOT_FOUND`
and changes nothing. -/
def Routed (s : Sys κ) : Lbl → Prop
  | .call n metadata c => ∀ this hash, s.issued[n]? = some (this, hash) →
      (s.owner hash = some n →
        Metadata.process s.backend metadata c.request = deliver c hash s.backend) ∧
      (s.owner hash ≠ some n →
        Metadata.process s.backend metadata c.request = (notFound, s.backend))
  | _ => True

/-- The condition on a step: no plugin lives at the address of a destroyed one that is
called. -/
def NotReused (s : Sys κ) : Lbl → Prop
  | .call n _ _ => ∀ this hash, s.issued[n]? = some (this, hash) → s.owner hash ≠ some n →
      s.plugins this = none
  | _ => True

/-! ## Handlers -/

section Handlers

variable {b : Backend κ} {metadata : GrpcMetadata} {hash : Hash}

/-- A handler reads the hash back from its text, and looks it up. -/
theorem process_call (hid : extractMetadata metadata PluginHashId = some (to_string hash))
    (c : Call) : Metadata.process b metadata c.request =
      match b.ctrl.mSharedData.find? hash with
      | none => (notFound, b)
      | some _ => deliver c hash b := by
  cases c with
  | event ev =>
    simp only [Call.request, Metadata.process, Metadata.ClientEventCallHandler.handleEvent,
      Metadata.handleEvent, hid, stoull_to_string, ServerCtrl.getSharedData]
    cases b.ctrl.mSharedData.find? hash <;> rfl
  | params request takes =>
    simp only [Call.request, Metadata.process, Metadata.ClientParamCall.handleEvent,
      Metadata.handleEvent, hid, stoull_to_string, ServerCtrl.getSharedData]
    cases b.ctrl.mSharedData.find? hash <;> rfl

/-- What is delivered is not answered so. -/
theorem deliver_ne_notFound (c : Call) : (deliver c hash b).1 ≠ notFound := by
  cases c with
  | event ev =>
    simp only [deliver, Metadata.deliverEvent]
    split
    · simp [Metadata.answer, notFound]
    · simp [Metadata.answer, notFound]
  | params request takes =>
    simp only [deliver, Metadata.deliverParams]
    split
    · simp [Metadata.answer, notFound]
    · simp [Metadata.answer, notFound]

theorem deliver_ctrl (c : Call) : (deliver c hash b).2.ctrl = b.ctrl := by
  cases c with
  | event ev =>
    simp only [deliver, Metadata.deliverEvent]
    split <;> rfl
  | params request takes =>
    simp only [deliver, Metadata.deliverParams]
    split <;> rfl

/-- A call leaves the registry alone. -/
theorem process_ctrl (hid : extractMetadata metadata PluginHashId = some (to_string hash))
    (c : Call) : (Metadata.process b metadata c.request).2.ctrl = b.ctrl := by
  rw [process_call hid]
  split
  · rfl
  · exact deliver_ctrl c

end Handlers

/-! ## The invariant -/

/-- The plugins alive are those registered, each under the hash that was returned for it. -/
structure Inv (s : Sys κ) : Prop where
  live : ∀ this n plugin, s.plugins this = some (n, plugin) →
    this ≠ 0 ∧ plugin.hashCore = hashOf this ∧ s.owner (hashOf this) = some n
  registered : ∀ hash, hash ∈ s.backend.ctrl.mSharedData.keys ↔
    ∃ this, (s.plugins this).isSome = true ∧ hashOf this = hash
  owner : ∀ hash n, s.owner hash = some n →
    n < s.issued.length ∧ hash ∈ s.backend.ctrl.mSharedData.keys
  issued : ∀ e ∈ s.issued, e.2 = hashOf e.1
  server : s.backend.ctrl.ServerRuns

theorem init_inv : Inv ({} : Sys κ) where
  live this n plugin h := by cases h
  registered hash := by
    constructor
    · intro h
      cases h
    · rintro ⟨this, hthis, -⟩
      cases hthis
  owner hash n h := by cases h
  issued := List.forall_mem_nil _
  server s h := by cases h

section Steps

variable {s s' : Sys κ}

/-- Where a plugin lives, its hash is registered; elsewhere it is not. -/
theorem Inv.mem_keys_iff (h : Inv s) (this : PluginPtr) :
    hashOf this ∈ s.backend.ctrl.mSharedData.keys ↔ (s.plugins this).isSome = true := by
  rw [h.registered]
  constructor
  · rintro ⟨p, hp, heq⟩
    rwa [← ServerCtrl.hashOf_injective heq]
  · intro hthis
    exact ⟨this, hthis, rfl⟩

/-- A constructor registers its plugin under a hash that is new. -/
theorem Inv.construct_step (h : Inv s) {this : PluginPtr} {built : Bool}
    (hstep : step s (.construct this built) = some s') :
    this ≠ 0 ∧ s'.backend.ctrl.ServerRuns ∧
      s'.backend.ctrl.mSharedData =
        (s.backend.ctrl.mSharedData.emplace (hashOf this) (.ofPlugin κ this)).2 ∧
      s'.plugins =
        Function.update s.plugins this (some (s.issued.length, ⟨hashOf this, true⟩)) ∧
      s'.issued = s.issued ++ [(this, hashOf this)] ∧
      s'.owner = Function.update s.owner (hashOf this) (some s.issued.length) := by
  simp only [step] at hstep
  split at hstep
  · cases hstep
  · rename_i hguard
    rw [not_or, Option.not_isSome_iff_eq_none] at hguard
    rcases hguard with ⟨hne, hnone⟩
    have hfree : hashOf this ∉ s.backend.ctrl.mSharedData.keys := by
      rw [h.mem_keys_iff, hnone]
      nofun
    rcases CorePlugin.construct_of_free hfree h.server built with ⟨server, hrun, heq⟩
    rw [heq] at hstep
    cases hstep
    refine ⟨hne, ?_, rfl, rfl, rfl, rfl⟩
    intro sv hsv
    cases hsv
    exact hrun

theorem Inv.construct (h : Inv s) {this : PluginPtr} {built : Bool}
    (hstep : step s (.construct this built) = some s') : Inv s' := by
  rcases h.construct_step hstep with ⟨hne, hserver, hshared, hplugins, hissued, howner⟩
  constructor
  · intro p n plugin hp
    rw [hplugins] at hp
    rw [howner]
    by_cases hpt : p = this
    · subst hpt
      rw [Function.update_self] at hp
      cases hp
      exact ⟨hne, rfl, Function.update_self _ _ _⟩
    · rw [Function.update_of_ne hpt] at hp
      rw [Function.update_of_ne (mt (@ServerCtrl.hashOf_injective p this) hpt)]
      exact h.live p n plugin hp
  · have hregistered := h.registered
    simp only [Option.isSome_iff_ne_none] at hregistered ⊢
    rw [hshared, hplugins]
    exact OrdMap.mem_keys_emplace_alive hregistered this _ _
  · intro hash n hn
    rw [howner] at hn
    rw [hissued, hshared, OrdMap.mem_keys_emplace, List.length_append, List.length_singleton]
    by_cases hhash : hash = hashOf this
    · subst hhash
      rw [Function.update_self] at hn
      cases hn
      exact ⟨Nat.lt_succ_self _, Or.inl rfl⟩
    · rw [Function.update_of_ne hhash] at hn
      rcases h.owner hash n hn with ⟨hlt, hmem⟩
      exact ⟨Nat.lt_succ_of_lt hlt, Or.inr hmem⟩
  · intro e he
    rw [hissued] at he
    rcases List.mem_append.mp he with he | he
    · exact h.issued e he
    · rw [List.mem_singleton.mp he]
  · exact hserver

/-- A destructor takes its plugin out of the registry. -/
theorem Inv.destroy_step (h : Inv s) {this : PluginPtr}
    (hstep : step s (.destroy this) = some s') :
    s'.backend.ctrl.ServerRuns ∧
      s'.backend.ctrl.mSharedData = (s.backend.ctrl.mSharedData.erase (hashOf this)).2 ∧
      s'.plugins = Function.update s.plugins this none ∧ s'.issued = s.issued ∧
      s'.owner = Function.update s.owner (hashOf this) none := by
  simp only [step] at hstep
  split at hstep
  · cases hstep
  · rename_i n plugin hplugin
    rcases h.live this n plugin hplugin with ⟨hne, hhash, -⟩
    rcases Option.map_eq_some_iff.mp hstep with ⟨ctrl, hdestroy, rfl⟩
    have hzero : plugin.hashCore ≠ 0 := by
      rw [hhash]
      exact ServerCtrl.hashOf_ne_zero hne
    rw [CorePlugin.destroy_spec hzero h.server hdestroy, hhash]
    exact ⟨nofun, rfl, rfl, rfl, rfl⟩

theorem Inv.destroy (h : Inv s) {this : PluginPtr}
    (hstep : step s (.destroy this) = some s') : Inv s' := by
  rcases h.destroy_step hstep with ⟨hserver, hshared, hplugins, hissued, howner⟩
  constructor
  · intro p n plugin hp
    rw [hplugins] at hp
    by_cases hpt : p = this
    · subst hpt
      rw [Function.update_self] at hp
      cases hp
    · rw [Function.update_of_ne hpt] at hp
      rw [howner, Function.update_of_ne (mt (@ServerCtrl.hashOf_injective p this) hpt)]
      exact h.live p n plugin hp
  · have hregistered := h.registered
    simp only [Option.isSome_iff_ne_none] at hregistered ⊢
    rw [hshared, hplugins]
    exact OrdMap.mem_keys_erase_alive ServerCtrl.hashOf_injective hregistered this
  · intro hash n hn
    rw [howner] at hn
    rw [hissued, hshared, OrdMap.mem_keys_erase]
    by_cases hhash : hash = hashOf this
    · subst hhash
      rw [Function.update_self] at hn
      cases hn
    · rw [Function.update_of_ne hhash] at hn
      rcases h.owner hash n hn with ⟨hlt, hmem⟩
      exact ⟨hlt, hmem, hhash⟩
  · rw [hissued]
    exact h.issued
  · exact hserver

/-- A call with the hash of a plugin. -/
theorem Inv.call_step (h : Inv s) {n : Nat} {metadata : GrpcMetadata} {c : Call}
    (hstep : step s (.call n metadata c) = some s') :
    ∃ this, s.issued[n]? = some (this, hashOf this) ∧
      extractMetadata metadata PluginHashId = some (to_string (hashOf this)) ∧
      s' = { s with backend := (Metadata.process s.backend metadata c.request).2 } := by
  simp only [step] at hstep
  split at hstep
  · cases hstep
  · rename_i this hash hissued
    obtain rfl : hash = hashOf this := h.issued _ (List.mem_of_getElem? hissued)
    split at hstep
    · rename_i hguard
      cases hstep
      exact ⟨this, hissued, hguard.2, rfl⟩
    · cases hstep

/-- A turn changes the queues of its plugin only. -/
theorem Inv.turn_step (h : Inv s) {this : PluginPtr} (hstep : step s (.turn this) = some s') :
    (s.plugins this).isSome ∧ s' = { s with
      backend :=
        s.backend.setQueues (hashOf this) (takeUpdate (s.backend.queues (hashOf this))) } := by
  simp only [step] at hstep
  split at hstep
  · cases hstep
  · rename_i n plugin hplugin
    cases hstep
    rw [hplugin, (h.live this n plugin hplugin).2.1]
    exact ⟨rfl, rfl⟩

theorem step_inv {l : Lbl} (h : Inv s) (hstep : step s l = some s') : Inv s' := by
  cases l with
  | construct this built => exact h.construct hstep
  | destroy this => exact h.destroy hstep
  | call n metadata c =>
    rcases h.call_step hstep with ⟨this, -, hid, rfl⟩
    have hctrl := process_ctrl (b := s.backend) hid c
    refine ⟨h.live, ?_, ?_, h.issued, ?_⟩
    · rw [hctrl]
      exact h.registered
    · rw [hctrl]
      exact h.owner
    · rw [hctrl]
      exact h.server
  | turn this =>
    rcases h.turn_step hstep with ⟨-, rfl⟩
    exact ⟨h.live, h.registered, h.owner, h.issued, h.server⟩

/-- A call is routed as promised exactly if the address of a destroyed plugin is not in use. -/
theorem Inv.step_routed_iff (h : Inv s) {l : Lbl} (hstep : step s l = some s') :
    Routed s l ↔ NotReused s l := by
  cases l with
  | construct this built => exact Iff.rfl
  | destroy this => exact Iff.rfl
  | turn this => exact Iff.rfl
  | call n metadata c =>
    rcases h.call_step hstep with ⟨this, hissued, hid, -⟩
    have hprocess := process_call (b := s.backend) hid c
    have hnone : s.plugins this = none ↔ s.backend.ctrl.mSharedData.find? (hashOf this) = none := by
      rw [OrdMap.find?_eq_none, h.mem_keys_iff, Option.not_isSome_iff_eq_none]
    constructor
    · intro hrouted p hash hp howner
      cases hissued.symm.trans hp
      -- anything but `NOT_FOUND` would have come from the registry
      rw [hnone]
      cases hfind : s.backend.ctrl.mSharedData.find? (hashOf this) with
      | none => rfl
      | some sharedData =>
        have hnotfound := (hrouted this (hashOf this) hissued).2 howner
        rw [hprocess, hfind] at hnotfound
        exact absurd (congrArg Prod.fst hnotfound) (deliver_ne_notFound c)
    · intro hreused p hash hp
      cases hissued.symm.trans hp
      constructor
      · intro howner
        have hmem := (h.owner _ _ howner).2
        rcases Option.isSome_iff_exists.mp (OrdMap.find?_isSome.mpr hmem) with ⟨sharedData, hfind⟩
        rw [hprocess, hfind]
      · intro howner
        rw [hprocess, hnone.mp (hreused this (hashOf this) hissued howner)]

end Steps

/-- In a run every call is routed as promised exactly when none is meant for a plugin at whose
address another one lives. -/
theorem routed_iff (ls : List Lbl) :
    (spec κ).AllSteps (fun s l _ => Routed s l) {} ls ↔
      (spec κ).AllSteps (fun s l _ => NotReused s l) {} ls := by
  refine (spec κ).allSteps_iff Inv ?_ ?_ init_inv ls
  · intro s l s' hinv hcond hstep
    exact ⟨step_inv hinv hstep, (hinv.step_routed_iff hstep).mpr hcond⟩
  · intro s l s' hinv hcond hstep hrouted
    exact hcond ((hinv.step_routed_iff hstep).mp hrouted)

/-- A plugin is destroyed, and the next one is allocated at its address: it gets the calls meant
for the other one. -/
theorem routed_fails : ¬ ∀ ls, (spec Nat).AllSteps (fun s l _ => Routed s l) {} ls := by
  intro h
  let metadata : GrpcMetadata := [(PluginHashId, to_string (hashOf 1))]
  let c : Call := .params [] 0
  obtain ⟨s, hrun, hissued, howner, hrunning, hfound⟩ : ∃ s : Sys Nat,
      (spec Nat).run {} [.construct 1 true, .destroy 1, .construct 1 true] = some s ∧
      s.issued[0]? = some (1, hashOf 1) ∧ s.owner (hashOf 1) = some 1 ∧
      s.backend.ctrl.isRunning = true ∧
      s.backend.ctrl.mSharedData.find? (hashOf 1) = some (.ofPlugin Nat 1) :=
    ⟨_, rfl, rfl, rfl, rfl, rfl⟩
  have hid : extractMetadata metadata PluginHashId = some (to_string (hashOf 1)) := by
    simp [metadata, extractMetadata]
  have hstep : (spec Nat).step s (.call 0 metadata c) =
      some { s with backend := (Metadata.process s.backend metadata c.request).2 } := by
    simp [spec, step, hissued, hrunning, hid]
  have hlast := (spec Nat).allSteps_last (h _) hrun hstep
  have hne : s.owner (hashOf 1) ≠ some 0 := by
    rw [howner]
    decide
  have hnotfound := (hlast 1 (hashOf 1) hissued).2 hne
  rw [process_call hid, hfound] at hnotfound
  exact deliver_ne_notFound c (congrArg Prod.fst hnotfound)

end ClapRci.HashLifetimes
