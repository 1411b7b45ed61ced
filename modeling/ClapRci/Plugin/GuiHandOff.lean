import Mathlib.Data.List.Basic
import ClapRci.Core.ProcessArguments
import ClapRci.Core.StringCopy
import ClapRci.Server.DisconnectClient
import ClapRci.Server.Registry

/-!
# The way from `guiCreate` to the registry (`plugin/coreplugin.cpp`, `server/server.h`)

`guiCreate` gives its child two arguments, the address of the server and the hash of the
plugin as a text. The child sends the second one along with each of its calls, and the
server reads it back and looks for the plugin.

* `uri_address`: an address can be taken apart again at its last colon;
* `gui_child_connects`: on both platforms, whatever plugins and clients have come and gone,
  the child's stream gets to the plugin that has started it, and to no other.
-/

namespace ClapRci

/-! ## The address (`server/server.h`) -/

/-- `str.find_last_of(b)`. -/
def findLastOf (b : UInt8) (str : StdString) : Option Nat :=
  (str.reverse.findIdx? (· = b)).map fun i => str.length - 1 - i

namespace Server

/-- `uri()`; without a colon `find_last_of` gives `npos`, and `substr` the whole text. -/
def uri (serverAddress : StdString) : StdString :=
  match findLastOf 58 serverAddress with
  | none => serverAddress
  | some pos => serverAddress.take pos

/-- `port()`: the port that `BuildAndStart` has chosen, while the server is running. -/
def port (s : Server) (mActivePort : Int) : Option Int :=
  if s.state ≠ .RUNNING then none else some mActivePort

/-- `address()`; the text of the port is that of `std::to_string`. -/
def address (s : Server) (serverAddress : StdString) (mActivePort : Int) : Option StdString :=
  (s.port mActivePort).map fun p => uri serverAddress ++ [58] ++ Decimal.intText p

end Server

/-- The arguments `guiCreate` passes to `setArguments`. -/
def guiArguments (addr : StdString) (hashCore : Hash) : List StdString := [addr, to_string hashCore]

/-- What the child gets as `argv`. -/
def childArgv (platform : Platform) (readSymlink : StdString → Option StdString)
    (mPath : StdString) (mArgs : List StdString) : List StdString :=
  match platform with
  | .windows => ProcessHandle.Windows.argv readSymlink mPath mArgs
  | .posix => ProcessHandle.Posix.argv mPath mArgs

/-- The path by which the child is started. -/
def childPath (platform : Platform) (readSymlink : StdString → Option StdString)
    (mPath : StdString) : StdString :=
  match platform with
  | .windows => ProcessHandle.Windows.resolvedPath readSymlink mPath
  | .posix => mPath

/-- A text that gets through to the child: no NUL, and on Windows no quote, which its command
line does not escape. -/
def Passable (platform : Platform) (str : StdString) : Prop :=
  0 ∉ str ∧ (platform = .windows → 34 ∉ str)

/-! ## Taking an address apart -/

theorem findLastOf_append {b : UInt8} (xs : StdString) {ys : StdString} (h : b ∉ ys) :
    findLastOf b (xs ++ [b] ++ ys) = some xs.length := by
  have hnone : ys.reverse.findIdx? (· = b) = none := by
    rw [List.findIdx?_eq_none_iff]
    intro c hc
    exact decide_eq_false fun heq => h (heq ▸ List.mem_reverse.mp hc)
  have hfound : (xs ++ [b] ++ ys).reverse.findIdx? (· = b) = some ys.length := by
    simp [List.findIdx?_append, hnone, List.findIdx?_cons]
  rw [findLastOf, hfound, Option.map_some]
  congr 1
  simp only [List.length_append, List.length_singleton]
  omega

section Address

variable {s : Server} {serverAddress addr : StdString} {mActivePort : Int}

theorem address_eq (h : s.address serverAddress mActivePort = some addr) :
    addr = Server.uri serverAddress ++ [58] ++ Decimal.intText mActivePort := by
  simp only [Server.address, Server.port] at h
  split at h
  · cases h
  · cases h
    rfl

/-- The address of a running server is its URI, the last colon, and the port. -/
theorem uri_address (h : s.address serverAddress mActivePort = some addr) :
    Server.uri addr = Server.uri serverAddress ∧
      addr.drop ((Server.uri addr).length + 1) = Decimal.intText mActivePort := by
  have hcolon : (58 : UInt8) ∉ Decimal.intText mActivePort :=
    Decimal.not_mem_intText _ (by decide) (by decide)
  have haddr := address_eq h
  have huri : Server.uri addr = Server.uri serverAddress := by
    rw [haddr]
    generalize Server.uri serverAddress = pre
    rw [Server.uri, findLastOf_append pre hcolon]
    simp
  refine ⟨huri, ?_⟩
  rw [huri, haddr, List.drop_append_of_le_length (by simp)]
  simp

/-- Nothing else than the parts of the address is in it. -/
theorem mem_address (h : s.address serverAddress mActivePort = some addr) {b : UInt8}
    (hb : b ∈ addr) : b ∈ serverAddress ∨ b = 58 ∨ b ∈ Decimal.intText mActivePort := by
  have huri : ∀ c ∈ Server.uri serverAddress, c ∈ serverAddress := by
    intro c hc
    unfold Server.uri at hc
    split at hc
    · exact hc
    · exact List.mem_of_mem_take hc
  rw [address_eq h, List.mem_append, List.mem_append, List.mem_singleton] at hb
  rcases hb with (hb | hb) | hb
  · exact Or.inl (huri b hb)
  · exact Or.inr (Or.inl hb)
  · exact Or.inr (Or.inr hb)

/-- The last byte of an address is the last one of its port. -/
theorem getLast?_address (h : s.address serverAddress mActivePort = some addr) :
    addr.getLast? = (Decimal.intText mActivePort).getLast? := by
  rw [address_eq h, List.getLast?_append_of_ne_nil _ (Decimal.intText_ne_nil mActivePort)]

end Address

/-! ## The arguments of the child -/

/-- A byte that is neither a digit nor a sign nor a colon comes from `serverAddress`. -/
theorem not_mem_address {s : Server} {serverAddress addr : StdString} {mActivePort : Int}
    (h : s.address serverAddress mActivePort = some addr) {b : UInt8} (hcolon : b ≠ 58)
    (hminus : b ≠ 45) (hdigit : Decimal.isDigit b = false) (hb : b ∉ serverAddress) :
    b ∉ addr := by
  intro hmem
  rcases mem_address h hmem with hmem | rfl | hmem
  · exact hb hmem
  · exact hcolon rfl
  · exact Decimal.not_mem_intText _ hminus hdigit hmem

/-- Path, address and hash arrive as they were, on both platforms. -/
theorem childArgv_guiArguments {platform : Platform} {readSymlink : StdString → Option StdString}
    {mPath serverAddress addr : StdString} {s : Server} {mActivePort : Int}
    (hpath : Passable platform (childPath platform readSymlink mPath))
    (haddress : Passable platform serverAddress)
    (h : s.address serverAddress mActivePort = some addr) (hashCore : Hash) :
    childArgv platform readSymlink mPath (guiArguments addr hashCore) =
      [childPath platform readSymlink mPath, addr, to_string hashCore] := by
  have hdigits : ∀ b ∈ to_string hashCore, Decimal.isDigit b = true :=
    fun b hb => Decimal.isDigit_of_mem_text hb
  have hzero : ∀ arg ∈ guiArguments addr hashCore, 0 ∉ arg := by
    intro arg harg
    rcases List.mem_pair.mp harg with rfl | rfl
    · exact not_mem_address h (by decide) (by decide) (by decide) haddress.1
    · intro hmem
      exact absurd (hdigits 0 hmem) (by decide)
  cases platform with
  | posix => exact ProcessHandle.Posix.argv_eq hpath.1 hzero
  | windows =>
    refine (ProcessHandle.Windows.argv_eq_iff readSymlink mPath _).mpr
      ⟨⟨hpath.1, hzero⟩, hpath.2 rfl, CommandLine.ReadBack.of_plain ?_⟩
    intro arg harg
    -- no quote in either, and a digit at the end of both
    rcases List.mem_pair.mp harg with rfl | rfl
    · refine ⟨not_mem_address h (by decide) (by decide) (by decide) (haddress.2 rfl), ?_⟩
      intro hlast
      rw [getLast?_address h] at hlast
      exact Decimal.not_mem_intText mActivePort (by decide) (by decide) (List.mem_of_getLast? hlast)
    · refine ⟨fun hmem => absurd (hdigits 34 hmem) (by decide), ?_⟩
      intro hlast
      exact absurd (hdigits 92 (List.mem_of_getLast? hlast)) (by decide)

/-! ## The registry -/

section Registry

variable {κ : Type} [LinearOrder κ] {c : ServerCtrl κ}

/-- A stream in no set that connects is afterwards in the set of this plugin only, which is the
same plugin as before, and the others are untouched. -/
theorem connectClient_registered {plugin : PluginPtr} {stream : κ} {hash : Hash}
    {d : SharedData κ} (hfind : c.mSharedData.find? hash = some d)
    (hdata : d.coreplugin = some plugin) (hnew : c.connected stream = false) :
    ∃ c', c.connectClient stream hash = (true, c') ∧
      (∀ hash', c'.InSet stream hash' ↔ hash' = hash) ∧
      (∀ hash', hash' ≠ hash → c'.mSharedData.find? hash' = c.mSharedData.find? hash') ∧
      ∃ d', c'.mSharedData.find? hash = some d' ∧ d'.coreplugin = some plugin := by
  have habsent := ServerCtrl.connected_eq_false.mp hnew
  have hmem : stream ∉ d.streams.toList := fun hmem => habsent hash ⟨d, hfind, hmem⟩
  have hadded : (d.addStream stream).1 = true := OrdMap.emplace_fst_of_not_mem hmem ()
  have hself := OrdMap.find?_modify hfind fun _ => (d.addStream stream).2
  have hothers : ∀ hash', hash' ≠ hash → (c.mSharedData.modify hash fun _ =>
      (d.addStream stream).2).find? hash' = c.mSharedData.find? hash' :=
    fun hash' hne => OrdMap.find?_modify_ne hne _
  refine ⟨{ c with mSharedData := c.mSharedData.modify hash fun _ => (d.addStream stream).2 },
    ?_, ?_, hothers, _, hself, hdata⟩
  · simp only [ServerCtrl.connectClient, hfind, hadded]
  · intro hash'
    by_cases hne : hash' = hash
    · subst hne
      refine iff_of_true ⟨_, hself, ?_⟩ rfl
      exact OrdMap.mem_keys_emplace.mpr (Or.inl rfl)
    · refine iff_of_false ?_ hne
      rintro ⟨d', hfind', hmem'⟩
      rw [hothers hash' hne] at hfind'
      exact habsent hash' ⟨d', hfind', hmem'⟩

/-- An instance is found under its hash by every registry that has entries of instances only. -/
theorem find?_of_registered (hinv : Registry.Inv c) {plugin : PluginPtr}
    (hreg : Registry.Registered c plugin) :
    ∃ d, c.mSharedData.find? (hashOf plugin) = some d ∧ d.coreplugin = some plugin := by
  obtain ⟨e, he, hdata⟩ := hreg
  have hkey := (hinv.hash_iff he plugin).mpr hdata
  exact ⟨e.2, OrdMap.find?_eq_some.mpr (hkey ▸ he), hdata⟩

/-- Connects and disconnects change the sets of streams only. -/
theorem inv_of_entries {c' : ServerCtrl κ} (hinv : Registry.Inv c)
    (h : ∀ hash d', c'.mSharedData.find? hash = some d' →
      ∃ d, c.mSharedData.find? hash = some d ∧ d'.coreplugin = d.coreplugin) :
    Registry.Inv c' := by
  intro e he
  obtain ⟨d, hfind, hdata⟩ := h e.1 e.2 (OrdMap.find?_eq_some.mpr he)
  obtain ⟨plugin, hne, hkey, hplugin⟩ := hinv _ (OrdMap.find?_eq_some.mp hfind)
  exact ⟨plugin, hne, hkey, hdata.trans hplugin⟩

theorem Registry.Inv.connectClient (hinv : Registry.Inv c) (stream : κ) (hash : Hash) :
    Registry.Inv (c.connectClient stream hash).2 := by
  cases hfind : c.mSharedData.find? hash with
  | none => simpa [ServerCtrl.connectClient, hfind] using hinv
  | some d =>
    refine inv_of_entries hinv ?_
    intro hash' d' hfind'
    simp only [ServerCtrl.connectClient, hfind] at hfind'
    by_cases hne : hash' = hash
    · subst hne
      rw [OrdMap.find?_modify hfind] at hfind'
      cases hfind'
      exact ⟨d, hfind, rfl⟩
    · rw [OrdMap.find?_modify_ne hne] at hfind'
      exact ⟨d', hfind', rfl⟩

theorem Registry.Inv.disconnectClient (hinv : Registry.Inv c) (hc : c.SoleStreams) (stream : κ)
    (hash : Hash) : Registry.Inv (c.disconnectClient stream hash).2 := by
  rcases ServerCtrl.disconnectClient_cases hc stream hash with heq | ⟨hash', hin, heq⟩
  · rw [heq]
    exact hinv
  · rw [heq]
    refine inv_of_entries hinv ?_
    intro hash'' d' hfind'
    by_cases hne : hash'' = hash'
    · subst hne
      obtain ⟨d, hfind, _⟩ := hin
      rw [ServerCtrl.find?_without_self hfind] at hfind'
      cases hfind'
      exact ⟨d, hfind, rfl⟩
    · rw [ServerCtrl.find?_without_ne hne] at hfind'
      exact ⟨d', hfind', rfl⟩

/-- In every registry the server can have, the entries are those of instances. -/
theorem inv_of_clientReachable (h : (ServerCtrl.clientSpec κ).Reachable c) : Registry.Inv c := by
  have hboth : (ServerCtrl.clientSpec κ).Reachable c ∧ Registry.Inv c := by
    apply (ServerCtrl.clientSpec κ).reachable_invariant
      (fun c => (ServerCtrl.clientSpec κ).Reachable c ∧ Registry.Inv c) _ _ h
    · intro c hinit
      refine ⟨(ServerCtrl.clientSpec κ).reachable_init hinit, ?_⟩
      intro e he
      rw [hinit] at he
      cases he
    · rintro c l c' ⟨hreach, hinv⟩ hstep
      refine ⟨hreach.step _ hstep, ?_⟩
      cases l with
      | addPlugin plugin =>
        simp only [ServerCtrl.clientSpec] at hstep
        split at hstep
        · cases hstep
        · rename_i hne
          cases hstep
          exact hinv.addPlugin hne
      | removePlugin hash =>
        cases hstep
        exact hinv.removePlugin hash
      | connectClient stream hash =>
        simp only [ServerCtrl.clientSpec] at hstep
        split at hstep
        · cases hstep
        · cases hstep
          exact hinv.connectClient stream hash
      | disconnectClient stream hash =>
        cases hstep
        exact hinv.disconnectClient (ServerCtrl.soleStreams_of_reachable hreach) stream hash
  exact hboth.2

end Registry

/-! ## From `guiCreate` to the set of the plugin -/

section Child

variable {κ : Type} [LinearOrder κ] {c : ServerCtrl κ} {metadata : GrpcMetadata}

theorem connectClient_of_read {id : StdString} {hash : Hash} {stream : κ} {c' : ServerCtrl κ}
    {d : SharedData κ} (hid : extractMetadata metadata PluginHashId = some id)
    (hread : stoull id = .ok hash) (hconnect : c.connectClient stream hash = (true, c'))
    (hfind : c'.mSharedData.find? hash = some d) :
    Metadata.connectClient c metadata stream = .ok (.connected, hash, c') := by
  simp only [Metadata.connectClient, hid, hread, hconnect, ServerCtrl.getSharedData, hfind]

/-- The text of the hash of a registered plugin gets a new stream into the set of this plugin,
and into no other. -/
theorem connectClient_to_string (hinv : Registry.Inv c) {plugin : PluginPtr} {stream : κ}
    (hreg : Registry.Registered c plugin) (hnew : c.connected stream = false)
    (hid : extractMetadata metadata PluginHashId = some (to_string (hashOf plugin))) :
    ∃ c', Metadata.connectClient c metadata stream = .ok (.connected, hashOf plugin, c') ∧
      (∀ hash, c'.InSet stream hash ↔ hash = hashOf plugin) ∧
      (∀ hash, hash ≠ hashOf plugin → c'.mSharedData.find? hash = c.mSharedData.find? hash) ∧
      Registry.Registered c' plugin := by
  obtain ⟨d, hfind, hdata⟩ := find?_of_registered hinv hreg
  obtain ⟨c', hconnect, hsets, hothers, d', hfind', hdata'⟩ :=
    connectClient_registered hfind hdata hnew
  refine ⟨c', ?_, hsets, hothers, ⟨_, OrdMap.find?_eq_some.mp hfind', hdata'⟩⟩
  exact connectClient_of_read hid (stoull_to_string (hashOf plugin)) hconnect hfind'

/-- The child that `guiCreate` starts gets the address of the server, which can be taken apart
into the URI and the port again, and the hash of the plugin. If it sends the latter along with
its stream while the plugin is still registered, the stream gets into the set of this plugin
and of no other. -/
theorem gui_child_connects (platform : Platform) (readSymlink : StdString → Option StdString)
    {mPath serverAddress : StdString} {s : Server} (hrun : s.isRunning = true)
    (hpath : Passable platform (childPath platform readSymlink mPath))
    (haddress : Passable platform serverAddress) (mActivePort : Int) (plugin : PluginPtr) :
    ∃ addr, s.address serverAddress mActivePort = some addr ∧
      childArgv platform readSymlink mPath (guiArguments addr (hashOf plugin)) =
        [childPath platform readSymlink mPath, addr, to_string (hashOf plugin)] ∧
      Server.uri addr = Server.uri serverAddress ∧
      addr.drop ((Server.uri addr).length + 1) = Decimal.intText mActivePort ∧
      ∀ (c : ServerCtrl κ) (stream : κ) (metadata : GrpcMetadata),
        (ServerCtrl.clientSpec κ).Reachable c → Registry.Registered c plugin →
        c.connected stream = false →
        extractMetadata metadata PluginHashId =
          (childArgv platform readSymlink mPath (guiArguments addr (hashOf plugin)))[2]? →
        ∃ c', Metadata.connectClient c metadata stream = .ok (.connected, hashOf plugin, c') ∧
          (∀ hash, c'.InSet stream hash ↔ hash = hashOf plugin) ∧
          (∀ hash, hash ≠ hashOf plugin →
            c'.mSharedData.find? hash = c.mSharedData.find? hash) ∧
          Registry.Registered c' plugin := by
  have haddr : s.address serverAddress mActivePort =
      some (Server.uri serverAddress ++ [58] ++ Decimal.intText mActivePort) := by
    have hstate : s.state = .RUNNING := of_decide_eq_true hrun
    simp [Server.address, Server.port, hstate]
  have hargv := childArgv_guiArguments hpath haddress haddr (hashOf plugin)
  obtain ⟨huri, hport⟩ := uri_address haddr
  refine ⟨_, haddr, hargv, huri, hport, ?_⟩
  intro c stream metadata hreach hreg hnew hid
  rw [hargv] at hid
  exact connectClient_to_string (inv_of_clientReachable hreach) hreg hnew hid

/-- With two plugins in the registry, the child of the first one gets its path, address and
hash, and a new stream that sends the latter finds the way to the first one. -/
theorem gui_child_connects_first :
    childArgv .windows (fun _ => none) [103] (guiArguments [97, 58, 53] (hashOf 1)) =
        [[103], [97, 58, 53], to_string (hashOf 1)] ∧
      ∃ c', Metadata.connectClient ServerCtrl.twoPlugins
        [(PluginHashId, to_string (hashOf 1))] 8 = .ok (.connected, hashOf 1, c') ∧
      ∀ hash, c'.InSet 8 hash ↔ hash = hashOf 1 := by
  have hreach : (ServerCtrl.clientSpec Nat).Reachable ServerCtrl.twoPlugins :=
    ⟨{}, [.addPlugin 1, .addPlugin 2, .connectClient 7 (hashOf 2)], rfl, rfl⟩
  obtain ⟨addr, haddr, hargv, _, _, hconnects⟩ := @gui_child_connects Nat _ .windows
    (fun _ => none) [103] [97, 58, 48] { state := .RUNNING, server := true } (by decide)
    ⟨by decide, fun _ => by decide⟩ ⟨by decide, fun _ => by decide⟩ 5 1
  obtain rfl : addr = [97, 58, 53] := by
    cases haddr
    decide
  have hreg : Registry.Registered ServerCtrl.twoPlugins 1 :=
    ⟨_, List.mem_cons_of_mem _ List.mem_cons_self, rfl⟩
  obtain ⟨c', hconnect, hsets, _⟩ := hconnects ServerCtrl.twoPlugins 8
    [(PluginHashId, to_string (hashOf 1))] hreach hreg (by decide)
    (by rw [hargv]; simp [extractMetadata])
  exact ⟨hargv, c', hconnect, hsets⟩

end Child

end ClapRci
