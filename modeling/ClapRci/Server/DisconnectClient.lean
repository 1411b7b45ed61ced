import ClapRci.Lib.ActionSystem
import ClapRci.Server.Metadata

/-!
# Disconnecting a client (`server/serverctrl.cpp`)

`disconnectClient` finds the stream by the hash of its plugin, or, with the default hash,
looks for it in one plugin after another and stops at the first that had it.

`disconnectClient_agrees`: as long as a stream is in one set at most, the two take it out of
the same set and change nothing else. `soleStreams_of_reachable`: a stream that connects once
is in one set at most.
-/

namespace ClapRci

variable {κ : Type} [LinearOrder κ]

/-- `nStreams()`. -/
def SharedData.nStreams (d : SharedData κ) : Nat := d.streams.size

namespace ServerCtrl

/-- `disconnectClient(stream, hash)`. -/
def disconnectClient (c : ServerCtrl κ) (stream : κ) (hash : Hash) : Bool × ServerCtrl κ :=
  if hash.val ≠ 0 then
    match c.mSharedData.find? hash with
    | none => (false, c)
    | some sharedData =>
      let (removed, sharedData) := sharedData.removeStream stream
      (removed, { c with mSharedData := c.mSharedData.modify hash fun _ => sharedData })
  else
    let (removed, mSharedData) := c.mSharedData.modifyFirst fun sharedData =>
      sharedData.removeStream stream
    (removed, { c with mSharedData := mSharedData })

/-- `totalClients()`. -/
def totalClients (c : ServerCtrl κ) : Nat :=
  c.mSharedData.entries.foldl (fun total data => total + data.2.nStreams) 0

/-- The stream is in the set of the plugin with the hash. -/
def InSet (c : ServerCtrl κ) (stream : κ) (hash : Hash) : Prop :=
  ∃ d, c.mSharedData.find? hash = some d ∧ stream ∈ d.streams.toList

/-- No plugin has the hash `0`, and a stream is in one set at most. -/
structure SoleStreams (c : ServerCtrl κ) : Prop where
  hash_ne_zero : ∀ hash ∈ c.mSharedData.keys, hash ≠ 0
  sole : ∀ stream hash hash', c.InSet stream hash → c.InSet stream hash' → hash = hash'

end ServerCtrl

/-! ## One set -/

namespace SharedData

variable {d : SharedData κ} {stream : κ}

theorem removeStream_of_not_mem (h : stream ∉ d.streams.toList) :
    d.removeStream stream = (false, d) := by
  have hfst : (d.streams.erase stream).1 = false := decide_eq_false h
  simp only [removeStream, hfst, OrdMap.erase_of_not_mem h]

theorem removeStream_fst (h : stream ∈ d.streams.toList) : (d.removeStream stream).1 = true :=
  decide_eq_true h

theorem mem_removeStream {stream' : κ} :
    stream' ∈ (d.removeStream stream).2.streams.toList ↔
      stream' ∈ d.streams.toList ∧ stream' ≠ stream :=
  OrdMap.mem_keys_erase

theorem nStreams_removeStream (h : stream ∈ d.streams.toList) :
    (d.removeStream stream).2.nStreams + 1 = d.nStreams := by
  obtain ⟨u, hu⟩ := Option.isSome_iff_exists.mp (OrdMap.find?_isSome.mpr h)
  exact (OrdMap.erase_perm hu).length_eq.symm

end SharedData

namespace ServerCtrl

variable {c : ServerCtrl κ} {stream : κ} {hash : Hash}

/-! ## The registry -/

theorem totalClients_eq (c : ServerCtrl κ) :
    c.totalClients = (c.mSharedData.entries.map fun e => e.2.nStreams).sum := by
  rw [totalClients, List.sum_eq_foldl, List.foldl_map]

/-- The registry with the stream taken out of one set. -/
def without (c : ServerCtrl κ) (stream : κ) (hash : Hash) : ServerCtrl κ :=
  { c with mSharedData := c.mSharedData.modify hash fun d => (d.removeStream stream).2 }

theorem without_eq {d : SharedData κ} (h : c.mSharedData.find? hash = some d) :
    c.without stream hash = { c with
      mSharedData := c.mSharedData.modify hash fun _ => (d.removeStream stream).2 } := by
  rw [without, OrdMap.modify_congr (f := fun d => (d.removeStream stream).2) h]

theorem find?_without_self {d : SharedData κ} (h : c.mSharedData.find? hash = some d) :
    (c.without stream hash).mSharedData.find? hash = some (d.removeStream stream).2 :=
  OrdMap.find?_modify h _

theorem find?_without_ne {hash' : Hash} (hne : hash' ≠ hash) :
    (c.without stream hash).mSharedData.find? hash' = c.mSharedData.find? hash' :=
  OrdMap.find?_modify_ne hne _

theorem totalClients_without (h : c.InSet stream hash) :
    (c.without stream hash).totalClients + 1 = c.totalClients := by
  obtain ⟨d, hfind, hmem⟩ := h
  have hold := ((OrdMap.erase_perm hfind).map fun e => e.2.nStreams).sum_eq
  have hnew := ((OrdMap.modify_perm hfind fun d => (d.removeStream stream).2).map
    fun e => e.2.nStreams).sum_eq
  have hone := SharedData.nStreams_removeStream hmem
  rw [List.map_cons, List.sum_cons] at hold hnew
  calc (c.without stream hash).totalClients + 1
      = (d.removeStream stream).2.nStreams +
          ((c.mSharedData.erase hash).2.entries.map fun e => e.2.nStreams).sum + 1 := by
        rw [totalClients_eq, without, hnew]
    _ = d.nStreams + ((c.mSharedData.erase hash).2.entries.map fun e => e.2.nStreams).sum := by
        omega
    _ = c.totalClients := by rw [totalClients_eq, hold]

/-- In the set it is taken out of the stream is not any more, and it was in no other. -/
theorem not_inSet_without (hc : c.SoleStreams) (h : c.InSet stream hash) (hash' : Hash) :
    ¬(c.without stream hash).InSet stream hash' := by
  rintro ⟨d', hfind', hmem'⟩
  by_cases hne : hash' = hash
  · subst hne
    obtain ⟨d, hfind, _⟩ := h
    rw [find?_without_self hfind, Option.some.injEq] at hfind'
    subst hfind'
    exact (SharedData.mem_removeStream.mp hmem').2 rfl
  · rw [find?_without_ne hne] at hfind'
    exact hne (hc.sole stream hash' hash ⟨d', hfind', hmem'⟩ h)

/-! ## The two paths -/

theorem hash_val_ne_zero (hne : hash ≠ 0) : hash.val ≠ 0 := fun h => hne (Fin.ext h)

/-- By the right hash. -/
theorem disconnectClient_fast (hc : c.SoleStreams) (h : c.InSet stream hash) :
    c.disconnectClient stream hash = (true, c.without stream hash) := by
  obtain ⟨d, hfind, hmem⟩ := h
  have hne := hash_val_ne_zero (hc.hash_ne_zero hash (OrdMap.mem_keys_of_find? hfind))
  simp only [disconnectClient, if_pos hne, hfind, SharedData.removeStream_fst hmem,
    without_eq hfind]

theorem disconnectClient_zero (c : ServerCtrl κ) (stream : κ) :
    c.disconnectClient stream 0 =
      ((c.mSharedData.modifyFirst fun d => d.removeStream stream).1, { c with
        mSharedData := (c.mSharedData.modifyFirst fun d => d.removeStream stream).2 }) := by
  simp only [disconnectClient, Fin.val_zero, ne_eq, not_true_eq_false, if_false]

/-- By the scan: the sets before the right one do not have the stream and stay as they are. -/
theorem disconnectClient_slow (hc : c.SoleStreams) (h : c.InSet stream hash) :
    c.disconnectClient stream 0 = (true, c.without stream hash) := by
  obtain ⟨d, hfind, hmem⟩ := h
  have hscan := OrdMap.modifyFirst_of_sole (f := fun d => d.removeStream stream) hfind
    (SharedData.removeStream_fst hmem) ?_
  · rw [disconnectClient_zero, hscan, without_eq hfind]
  · intro hash' d' hfind' hne
    refine SharedData.removeStream_of_not_mem fun hmem' => hne ?_
    exact hc.sole stream hash' hash ⟨d', hfind', hmem'⟩ ⟨d, hfind, hmem⟩

/-- A plugin whose set does not have the stream loses nothing. -/
theorem disconnectClient_wrong (hne : hash ≠ 0) (h : ¬c.InSet stream hash) :
    c.disconnectClient stream hash = (false, c) := by
  simp only [disconnectClient, if_pos (hash_val_ne_zero hne)]
  cases hfind : c.mSharedData.find? hash with
  | none => rfl
  | some d =>
    have hmem : stream ∉ d.streams.toList := fun hmem => h ⟨d, hfind, hmem⟩
    simp only [SharedData.removeStream_of_not_mem hmem]
    rw [OrdMap.modify_eq_self hfind rfl]

/-- A stream that is in no set is not found by the scan. -/
theorem disconnectClient_absent (h : ∀ hash, ¬c.InSet stream hash) :
    c.disconnectClient stream 0 = (false, c) := by
  have hscan : c.mSharedData.modifyFirst (fun d => d.removeStream stream) =
      (false, c.mSharedData) := by
    refine OrdMap.modifyFirst_of_fails fun hash d hfind => ?_
    exact SharedData.removeStream_of_not_mem fun hmem => h hash ⟨d, hfind, hmem⟩
  rw [disconnectClient_zero, hscan]

/-- Either nothing happens, or the stream is taken out of the set it is in. -/
theorem disconnectClient_cases (hc : c.SoleStreams) (stream : κ) (hash : Hash) :
    c.disconnectClient stream hash = (false, c) ∨
      ∃ hash', c.InSet stream hash' ∧
        c.disconnectClient stream hash = (true, c.without stream hash') := by
  by_cases hzero : hash = 0
  · subst hzero
    by_cases hin : ∃ hash', c.InSet stream hash'
    · obtain ⟨hash', hin⟩ := hin
      exact Or.inr ⟨hash', hin, disconnectClient_slow hc hin⟩
    · exact Or.inl (disconnectClient_absent fun hash' h => hin ⟨hash', h⟩)
  · by_cases hin : c.InSet stream hash
    · exact Or.inr ⟨hash, hin, disconnectClient_fast hc hin⟩
    · exact Or.inl (disconnectClient_wrong hzero hin)

/-- Between the two registries nothing is different but whether the stream is in a set. -/
structure OnlyStream (stream : κ) (c c' : ServerCtrl κ) : Prop where
  server : c'.mServer = c.mServer
  plugins : c'.mSharedData.keys = c.mSharedData.keys
  /-- A set that did not have the stream is untouched. -/
  others : ∀ hash, ¬c.InSet stream hash →
    c'.mSharedData.find? hash = c.mSharedData.find? hash
  /-- The one that had it keeps its other streams, and its plugin the rest of its data. -/
  rest : ∀ hash d, c.mSharedData.find? hash = some d →
    ∃ streams, c'.mSharedData.find? hash = some { d with streams := streams } ∧
      ∀ stream', stream' ≠ stream →
        (stream' ∈ OrdSet.toList streams ↔ stream' ∈ d.streams.toList)

theorem OnlyStream.refl (stream : κ) (c : ServerCtrl κ) : OnlyStream stream c c where
  server := rfl
  plugins := rfl
  others _ _ := rfl
  rest _ d hfind := ⟨d.streams, hfind, fun _ _ => Iff.rfl⟩

theorem onlyStream_without (h : c.InSet stream hash) :
    OnlyStream stream c (c.without stream hash) where
  server := rfl
  plugins := OrdMap.keys_modify c.mSharedData hash _
  others hash' hnot := by
    refine find?_without_ne ?_
    rintro rfl
    exact hnot h
  rest hash' d hfind := by
    by_cases hne : hash' = hash
    · subst hne
      refine ⟨_, find?_without_self hfind, fun stream' hother => ?_⟩
      exact SharedData.mem_removeStream.trans (and_iff_left hother)
    · rw [find?_without_ne hne]
      exact ⟨d.streams, hfind, fun _ _ => Iff.rfl⟩

/-! ## Runs -/

/-- What the plugins and their streams do to the registry. -/
inductive ClientLbl (κ : Type) where
  | addPlugin (plugin : PluginPtr)
  | removePlugin (hash : Hash)
  | connectClient (stream : κ) (hash : Hash)
  | disconnectClient (stream : κ) (hash : Hash)

/-- Whether some set has the stream. -/
def connected (c : ServerCtrl κ) (stream : κ) : Bool :=
  c.mSharedData.entries.any fun e => e.2.streams.contains stream

theorem connected_eq_false : c.connected stream = false ↔ ∀ hash, ¬c.InSet stream hash := by
  rw [connected, List.any_eq_false]
  constructor
  · rintro h hash ⟨d, hfind, hmem⟩
    exact h _ (OrdMap.find?_eq_some.mp hfind) (OrdMap.contains_iff.mpr hmem)
  · intro h e he hmem
    exact h e.1 ⟨e.2, OrdMap.find?_eq_some.mpr he, OrdMap.contains_iff.mp hmem⟩

/-- The registry from the empty one on. A plugin that is added is not null, and a stream
connects while it is in no set: the server lets each stream connect once. -/
def clientSpec (κ : Type) [LinearOrder κ] : ActionSystem.Spec (ServerCtrl κ) (ClientLbl κ) where
  Init c := c.mSharedData = OrdMap.empty
  step c l :=
    match l with
    | .addPlugin plugin => if plugin = 0 then none else some (c.addPlugin plugin).2
    | .removePlugin hash => some (c.removePlugin hash).2
    | .connectClient stream hash =>
      if c.connected stream then none else some (c.connectClient stream hash).2
    | .disconnectClient stream hash => some (c.disconnectClient stream hash).2

/-- A step that puts no stream into a set keeps the streams in one set each. -/
theorem SoleStreams.fewer {c' : ServerCtrl κ} (hc : c.SoleStreams)
    (hkeys : ∀ hash ∈ c'.mSharedData.keys, hash ≠ 0)
    (hsets : ∀ stream hash, c'.InSet stream hash → c.InSet stream hash) : c'.SoleStreams where
  hash_ne_zero := hkeys
  sole stream hash hash' h h' := hc.sole stream hash hash' (hsets _ _ h) (hsets _ _ h')

theorem SoleStreams.addPlugin (hc : c.SoleStreams) {plugin : PluginPtr} (hne : plugin ≠ 0) :
    (c.addPlugin plugin).2.SoleStreams := by
  refine hc.fewer ?_ ?_
  · intro hash hmem
    rcases OrdMap.mem_keys_emplace.mp hmem with rfl | hold
    · exact hashOf_ne_zero hne
    · exact hc.hash_ne_zero hash hold
  · rintro stream hash ⟨d, hfind, hmem⟩
    rcases OrdMap.find?_of_emplace hfind with ⟨_, rfl⟩ | hold
    · -- a new plugin has no stream
      exact absurd hmem List.not_mem_nil
    · exact ⟨d, hold, hmem⟩

theorem SoleStreams.removePlugin (hc : c.SoleStreams) (hash : Hash) :
    (c.removePlugin hash).2.SoleStreams := by
  by_cases hzero : hash = 0
  · simpa [ServerCtrl.removePlugin, hzero] using hc
  · rw [removePlugin_eq hzero]
    refine hc.fewer ?_ ?_
    · intro hash' hmem
      exact hc.hash_ne_zero hash' (OrdMap.mem_keys_erase.mp hmem).1
    · rintro stream hash' ⟨d, hfind, hmem⟩
      exact ⟨d, (OrdMap.find?_of_erase hfind).2, hmem⟩

theorem SoleStreams.disconnectClient (hc : c.SoleStreams) (stream : κ) (hash : Hash) :
    (c.disconnectClient stream hash).2.SoleStreams := by
  rcases disconnectClient_cases hc stream hash with heq | ⟨hash', hin, heq⟩
  · rw [heq]
    exact hc
  · have honly := onlyStream_without hin
    rw [heq]
    refine hc.fewer (honly.plugins ▸ hc.hash_ne_zero) ?_
    rintro stream' hash'' ⟨d', hfind', hmem'⟩
    by_cases hne : hash'' = hash'
    · subst hne
      obtain ⟨d, hfind, _⟩ := hin
      rw [find?_without_self hfind, Option.some.injEq] at hfind'
      subst hfind'
      exact ⟨d, hfind, (SharedData.mem_removeStream.mp hmem').1⟩
    · rw [find?_without_ne hne] at hfind'
      exact ⟨d', hfind', hmem'⟩

/-- A stream that was in no set is in one. -/
theorem SoleStreams.connectClient (hc : c.SoleStreams) (hnew : c.connected stream = false)
    (hash : Hash) : (c.connectClient stream hash).2.SoleStreams := by
  cases hfind : c.mSharedData.find? hash with
  | none => simpa [ServerCtrl.connectClient, hfind] using hc
  | some d =>
    have heq : (c.connectClient stream hash).2 = { c with
        mSharedData := c.mSharedData.modify hash fun _ => (d.addStream stream).2 } := by
      simp only [ServerCtrl.connectClient, hfind]
    have hsets : ∀ stream' hash', (c.connectClient stream hash).2.InSet stream' hash' →
        c.InSet stream' hash' ∨ stream' = stream ∧ hash' = hash := by
      rw [heq]
      rintro stream' hash' ⟨d', hfind', hmem'⟩
      by_cases hne : hash' = hash
      · subst hne
        rw [OrdMap.find?_modify hfind, Option.some.injEq] at hfind'
        subst hfind'
        rcases OrdMap.mem_keys_emplace.mp hmem' with rfl | hold
        · exact Or.inr ⟨rfl, rfl⟩
        · exact Or.inl ⟨d, hfind, hold⟩
      · rw [OrdMap.find?_modify_ne hne] at hfind'
        exact Or.inl ⟨d', hfind', hmem'⟩
    have habsent := connected_eq_false.mp hnew
    constructor
    · rw [heq]
      intro hash' hmem
      rw [OrdMap.keys_modify] at hmem
      exact hc.hash_ne_zero hash' hmem
    · intro stream' h1 h2 hin1 hin2
      rcases hsets _ _ hin1 with hold1 | ⟨rfl, rfl⟩
      · rcases hsets _ _ hin2 with hold2 | ⟨rfl, rfl⟩
        · exact hc.sole stream' h1 h2 hold1 hold2
        · exact absurd hold1 (habsent h1)
      · rcases hsets _ _ hin2 with hold2 | ⟨_, rfl⟩
        · exact absurd hold2 (habsent h2)
        · rfl

/-- Every registry the server can have keeps its streams in one set each. -/
theorem soleStreams_of_reachable (h : (clientSpec κ).Reachable c) : c.SoleStreams := by
  apply (clientSpec κ).reachable_invariant SoleStreams _ _ h
  · intro c hinit
    constructor
    · rw [hinit]
      intro hash hmem
      exact absurd hmem List.not_mem_nil
    · rintro stream hash hash' ⟨d, hfind, _⟩
      rw [hinit] at hfind
      cases hfind
  · intro c l c' hc hstep
    cases l with
    | addPlugin plugin =>
      simp only [clientSpec] at hstep
      split at hstep
      · cases hstep
      · rename_i hne
        cases hstep
        exact hc.addPlugin hne
    | removePlugin hash =>
      cases hstep
      exact hc.removePlugin hash
    | connectClient stream hash =>
      simp only [clientSpec] at hstep
      split at hstep
      · cases hstep
      · rename_i hnew
        cases hstep
        exact hc.connectClient (Bool.not_eq_true _ ▸ hnew) hash
    | disconnectClient stream hash =>
      cases hstep
      exact hc.disconnectClient stream hash

/-! ## The paths agree -/

/-- The two paths of `disconnectClient` agree: on a stream that is connected both take it
out of its set, on one that is not both refuse, and no call changes anything else. -/
theorem disconnectClient_agrees (c : ServerCtrl κ) (hc : c.SoleStreams) (stream : κ) :
    (∀ hash, c.InSet stream hash → ∃ c', c.disconnectClient stream hash = (true, c') ∧
      c.disconnectClient stream 0 = (true, c') ∧ (∀ hash', ¬c'.InSet stream hash') ∧
      c'.totalClients + 1 = c.totalClients) ∧
    ((∀ hash, ¬c.InSet stream hash) →
      ∀ hash, c.disconnectClient stream hash = (false, c)) ∧
    ∀ hash, OnlyStream stream c (c.disconnectClient stream hash).2 := by
  refine ⟨?_, ?_, ?_⟩
  · intro hash hin
    exact ⟨c.without stream hash, disconnectClient_fast hc hin, disconnectClient_slow hc hin,
      not_inSet_without hc hin, totalClients_without hin⟩
  · intro habsent hash
    by_cases hzero : hash = 0
    · rw [hzero]
      exact disconnectClient_absent habsent
    · exact disconnectClient_wrong hzero (habsent hash)
  · intro hash
    rcases disconnectClient_cases hc stream hash with heq | ⟨hash', hin, heq⟩
    · rw [heq]
      exact OnlyStream.refl stream c
    · rw [heq]
      exact onlyStream_without hin

/-- Two plugins and a stream of the second one. -/
def twoPlugins : ServerCtrl Nat :=
  ((((({} : ServerCtrl Nat).addPlugin 1).2).addPlugin 2).2.connectClient 7 (hashOf 2)).2

theorem disconnectClient_agrees_two :
    ∃ c', twoPlugins.disconnectClient 7 (hashOf 2) = (true, c') ∧
      twoPlugins.disconnectClient 7 0 = (true, c') := by
  have hreach : (clientSpec Nat).Reachable twoPlugins :=
    ⟨{}, [.addPlugin 1, .addPlugin 2, .connectClient 7 (hashOf 2)], rfl, rfl⟩
  have hin : twoPlugins.InSet 7 (hashOf 2) := ⟨_, rfl, by decide⟩
  obtain ⟨c', hfast, hslow, _⟩ :=
    (disconnectClient_agrees twoPlugins (soleStreams_of_reachable hreach) 7).1 (hashOf 2) hin
  exact ⟨c', hfast, hslow⟩

end ServerCtrl

end ClapRci
