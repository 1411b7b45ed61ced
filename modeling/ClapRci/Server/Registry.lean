import ClapRci.Server.PendingTags

/-!
# Hashes as keys (`core/global.h`, `server/serverctrl.cpp`, `server/cqeventhandler.cpp`)

The registry of plugin instances over whole runs of `addPlugin` and `removePlugin`.

`hashes_are_keys`: since `toHash` is injective and gives `0` to the null pointer only, a
plugin that is not registered can always be added, and `removePlugin` of its hash removes
it and no other; and the tags of a completion queue never compete for a key.
-/

namespace ClapRci

namespace Registry

variable {κ : Type} [LinearOrder κ]

/-- A plugin instance is added or a hash removed. -/
inductive Lbl where
  | addPlugin (plugin : PluginPtr)
  | removePlugin (hash : Hash)

/-- All uses of the registry, from the empty one on. `addPlugin` asserts that the plugin is
not null. -/
def spec (κ : Type) [LinearOrder κ] : ActionSystem.Spec (ServerCtrl κ) Lbl where
  Init c := c.mSharedData = OrdMap.empty
  step c l :=
    match l with
    | .addPlugin plugin => if plugin = 0 then none else some (c.addPlugin plugin).2
    | .removePlugin hash => some (c.removePlugin hash).2

/-- The instance has an entry: its data is stored under some hash. -/
def Registered (c : ServerCtrl κ) (plugin : PluginPtr) : Prop :=
  ∃ e ∈ c.mSharedData.entries, e.2.coreplugin = some plugin

/-- Every entry is that of an instance, under its hash. -/
def Inv (c : ServerCtrl κ) : Prop :=
  ∀ e ∈ c.mSharedData.entries, ∃ plugin, plugin ≠ 0 ∧ e.1 = hashOf plugin ∧
    e.2.coreplugin = some plugin

section Entries

variable {c : ServerCtrl κ} {plugin : PluginPtr}

/-- The entry of an instance is the one under its hash. -/
theorem Inv.hash_iff (h : Inv c) {e : Hash × SharedData κ} (he : e ∈ c.mSharedData.entries)
    (plugin : PluginPtr) : e.1 = hashOf plugin ↔ e.2.coreplugin = some plugin := by
  rcases h e he with ⟨plugin', -, hkey, hdata⟩
  rw [hkey, hdata, ServerCtrl.hashOf_injective.eq_iff, Option.some.injEq]

theorem Inv.registered_iff (h : Inv c) :
    Registered c plugin ↔ hashOf plugin ∈ c.mSharedData.keys := by
  rw [OrdMap.keys, List.mem_map]
  constructor
  · rintro ⟨e, he, hdata⟩
    exact ⟨e, he, (h.hash_iff he plugin).mpr hdata⟩
  · rintro ⟨e, he, hkey⟩
    exact ⟨e, he, (h.hash_iff he plugin).mp hkey⟩

theorem Inv.addPlugin_eq (h : Inv c) (hnew : ¬ Registered c plugin) :
    c.addPlugin plugin = (some (hashOf plugin), { c with
      mSharedData := (c.mSharedData.emplace (hashOf plugin) (.ofPlugin κ plugin)).2 }) :=
  ServerCtrl.addPlugin_eq (mt h.registered_iff.mpr hnew)

theorem Inv.addPlugin_entries (h : Inv c) (hnew : ¬ Registered c plugin) :
    (c.addPlugin plugin).2.mSharedData.entries.Perm
      ((hashOf plugin, .ofPlugin κ plugin) :: c.mSharedData.entries) := by
  rw [h.addPlugin_eq hnew]
  exact OrdMap.emplace_perm (mt h.registered_iff.mpr hnew) _

/-- A second `addPlugin` of an instance fails and changes nothing. -/
theorem Inv.addPlugin_registered (h : Inv c) (hreg : Registered c plugin) :
    c.addPlugin plugin = (none, c) := by
  simp [ServerCtrl.addPlugin, OrdMap.emplace_of_mem (h.registered_iff.mp hreg)]

theorem Inv.addPlugin (h : Inv c) (hplugin : plugin ≠ 0) : Inv (c.addPlugin plugin).2 := by
  by_cases hreg : Registered c plugin
  · rw [h.addPlugin_registered hreg]
    exact h
  · intro e he
    rcases List.mem_cons.mp ((h.addPlugin_entries hreg).subset he) with rfl | hmem
    · exact ⟨plugin, hplugin, rfl, rfl⟩
    · exact h e hmem

/-- An instance has a hash that `removePlugin` does not take for no plugin. -/
theorem Inv.removePlugin_entries (h : Inv c) (hplugin : plugin ≠ 0) :
    (c.removePlugin (hashOf plugin)).2.mSharedData.entries =
      c.mSharedData.entries.filter fun e => e.2.coreplugin ≠ some plugin := by
  rw [ServerCtrl.removePlugin_eq (ServerCtrl.hashOf_ne_zero hplugin)]
  apply List.filter_congr
  intro e he
  rw [decide_eq_decide, Ne, Ne, h.hash_iff he]

theorem Inv.removePlugin (h : Inv c) (hash : Hash) : Inv (c.removePlugin hash).2 := by
  by_cases hzero : hash = 0
  · simpa [ServerCtrl.removePlugin, hzero] using h
  · rw [ServerCtrl.removePlugin_eq hzero]
    intro e he
    exact h e (List.mem_filter.mp he).1

theorem Inv.registered_ne_zero (h : Inv c) (hreg : Registered c plugin) : plugin ≠ 0 := by
  rcases hreg with ⟨e, he, hdata⟩
  rcases h e he with ⟨plugin', hne, -, hdata'⟩
  rw [hdata, Option.some.injEq] at hdata'
  rw [hdata']
  exact hne

end Entries

theorem inv_of_reachable {c : ServerCtrl κ} (h : (spec κ).Reachable c) : Inv c := by
  apply (spec κ).reachable_invariant Inv _ _ h
  · intro c hinit e he
    rw [hinit] at he
    cases he
  · intro c l c' hinv hstep
    cases l with
    | addPlugin plugin =>
      simp only [spec] at hstep
      split at hstep
      · cases hstep
      · rename_i hplugin
        cases hstep
        exact hinv.addPlugin hplugin
    | removePlugin hash =>
      cases hstep
      exact hinv.removePlugin hash

/-- What the callers of the registry rely on in a state. -/
structure HashesWork (c : ServerCtrl κ) : Prop where
  /-- A plugin that is not registered is added, under a hash that is not `0` and that no
  registered plugin has. -/
  added : ∀ plugin, plugin ≠ 0 → ¬ Registered c plugin →
    (c.addPlugin plugin).1 = some (hashOf plugin) ∧ hashOf plugin ≠ 0 ∧
      (∀ other, Registered c other → hashOf other ≠ hashOf plugin) ∧
      (c.addPlugin plugin).2.mSharedData.entries.Perm
        ((hashOf plugin, .ofPlugin κ plugin) :: c.mSharedData.entries)
  /-- `removePlugin` of the hash of a registered plugin takes out this plugin and no other. -/
  removed : ∀ plugin, Registered c plugin →
    (c.removePlugin (hashOf plugin)).1 = true ∧
      (c.removePlugin (hashOf plugin)).2.mSharedData.entries =
        c.mSharedData.entries.filter fun e => e.2.coreplugin ≠ some plugin

theorem Inv.hashesWork {c : ServerCtrl κ} (h : Inv c) : HashesWork c where
  added := by
    intro plugin hplugin hnew
    refine ⟨?_, ServerCtrl.hashOf_ne_zero hplugin, ?_, h.addPlugin_entries hnew⟩
    · rw [h.addPlugin_eq hnew]
    · intro other hother hsame
      rw [ServerCtrl.hashOf_injective hsame] at hother
      exact hnew hother
  removed := by
    intro plugin hreg
    have hplugin := h.registered_ne_zero hreg
    refine ⟨?_, h.removePlugin_entries hplugin⟩
    have hmem := h.registered_iff.mp hreg
    simp [ServerCtrl.removePlugin, ServerCtrl.hashOf_ne_zero hplugin, OrdMap.erase, hmem]

/-- The hash returned by `addPlugin` is the hash of the plugin. -/
theorem addPlugin_hash {c : ServerCtrl κ} {plugin : PluginPtr} {hash : Hash}
    (h : (c.addPlugin plugin).1 = some hash) : hash = hashOf plugin := by
  simp only [ServerCtrl.addPlugin] at h
  split at h
  · exact (Option.some.inj h).symm
  · cases h

/-- `toHash` is injective and gives `0` to the null pointer only; hence every reachable
registry finds each plugin by the hash it returned for it, and in every reachable state of
`pendingTags` no two handlers share a key, `create` does not fail, and `destroyTag` of a
handler's hash erases this handler and no other. -/
theorem hashes_are_keys (κ τ : Type) [LinearOrder κ] :
    Function.Injective toHash ∧ (∀ ptr, toHash ptr = 0 ↔ ptr = 0) ∧
      (∀ c, (spec κ).Reachable c → HashesWork c) ∧
      (∀ (c : ServerCtrl κ) plugin hash, (c.addPlugin plugin).1 = some hash →
        hash = hashOf plugin) ∧
      (∀ tags, (PendingTags.spec τ).Reachable tags →
        (tags.live.map hashOf).Nodup ∧
          (∀ this, this ∉ tags.live → ∀ tag, (tags.create this tag).1 = true) ∧
          (∀ this, this ∈ tags.live → (tags.destroyTag (hashOf this)).1 = true ∧
            (tags.destroyTag (hashOf this)).2.entries =
              tags.entries.filter fun e => e.2.1 ≠ this)) := by
  refine ⟨toHash_injective, ?_, ?_, ?_, ?_⟩
  · intro ptr
    exact toHash_eq_zero_iff
  · intro c hc
    exact (inv_of_reachable hc).hashesWork
  · intro c plugin hash h
    exact addPlugin_hash h
  · intro tags htags
    have hkeyed := PendingTags.keyed_of_reachable htags
    refine ⟨hkeyed.live_nodup, ?_, ?_⟩
    · intro this hfresh tag
      exact hkeyed.create_fst hfresh tag
    · intro this hlive
      exact ⟨hkeyed.destroyTag_fst.mpr hlive, hkeyed.destroyTag_entries this⟩

end Registry

end ClapRci
