import Mathlib.Algebra.Group.Nat.Defs
import Mathlib.Order.Fin.Basic
import ClapRci.Core.Global
import ClapRci.Server.SharedData

/-!
# The server and its controller (`server/server.cpp`, `server/serverctrl.cpp`)

`Server` can be started once. `ServerCtrl` is the singleton that holds the server and, in
`mSharedData`, the plugin instances that use it.
-/

namespace ClapRci

/-- A hash, as the key of a `std::map`. -/
abbrev Hash := Fin (2 ^ 64)

/-- The hash of a plugin instance. -/
def hashOf (plugin : PluginPtr) : Hash := (toHash plugin).toFin

/-- `Server::State`. -/
inductive Server.State where
  | CREATE | RUNNING | FINISHED
deriving DecidableEq

/-- The members of `Server`; of `server` it is whether the pointer is set, of the vectors
their length. -/
structure Server where
  state : Server.State := .CREATE
  server : Bool := false
  cqHandlers : Nat := 0
  threads : Nat := 0

namespace Server

def isRunning (s : Server) : Bool := s.state = .RUNNING

/-- `start()`; `built` says whether `BuildAndStart` returns a server. -/
def start (s : Server) (built : Bool) : Bool × Server :=
  if s.state ≠ .CREATE then (false, s)
  else
    (true, { state := .RUNNING, server := built, cqHandlers := s.cqHandlers + 2,
             threads := s.threads + 2 })

/-- `stop()`; `none` where `server->Shutdown()` follows a null pointer. -/
def stop (s : Server) : Option (Bool × Server) :=
  if !s.isRunning then some (false, s)
  else if !s.server then none
  else some (true, { s with state := .FINISHED })

end Server

/-- The members of `ServerCtrl`. -/
structure ServerCtrl (κ : Type) [LinearOrder κ] where
  mServer : Option Server := none
  mSharedData : OrdMap Hash (SharedData κ) := OrdMap.empty

namespace ServerCtrl

variable {κ : Type} [LinearOrder κ]

def isRunning (c : ServerCtrl κ) : Bool :=
  match c.mServer with
  | none => false
  | some mServer => mServer.isRunning

/-- `start()`. -/
def start (c : ServerCtrl κ) (built : Bool) : Bool × ServerCtrl κ :=
  let mServer := c.mServer.getD {}
  let c := { c with mServer := some mServer }
  if c.isRunning then (false, c)
  else
    match mServer.start built with
    | (false, mServer) => (false, { c with mServer := some mServer })
    | (true, mServer) =>
      -- `start` is called again, and its result ignored
      let (_, mServer) := mServer.start built
      (true, { c with mServer := some mServer })

/-- `stop()`. -/
def stop (c : ServerCtrl κ) : Option (Bool × ServerCtrl κ) :=
  if !c.isRunning then some (false, c)
  else
    match c.mServer with
    | none => none
    | some mServer =>
      match mServer.stop with
      | none => none
      | some (false, mServer) => some (false, { c with mServer := some mServer })
      | some (true, _) => some (true, { c with mServer := none })

/-- `getSharedData(hash)`. -/
def getSharedData (c : ServerCtrl κ) (hash : Hash) : Option (SharedData κ) :=
  c.mSharedData.find? hash

/-- `addPlugin(plugin)`. -/
def addPlugin (c : ServerCtrl κ) (plugin : PluginPtr) : Option Hash × ServerCtrl κ :=
  let hash := hashOf plugin
  let (inserted, mSharedData) := c.mSharedData.emplace hash (.ofPlugin κ plugin)
  (if inserted then some hash else none, { c with mSharedData := mSharedData })

/-- `removePlugin(hash)`. -/
def removePlugin (c : ServerCtrl κ) (hash : Hash) : Bool × ServerCtrl κ :=
  if hash = 0 then (false, c)
  else
    let (erased, mSharedData) := c.mSharedData.erase hash
    (erased, { c with mSharedData := mSharedData })

/-! ## The registry -/

theorem hashOf_injective : Function.Injective hashOf := by
  intro p q h
  exact toHash_injective (BitVec.toFin_inj.mp h)

/-- `removePlugin` takes hash `0` for no plugin; no plugin has it. -/
theorem hashOf_ne_zero {plugin : PluginPtr} (h : plugin ≠ 0) : hashOf plugin ≠ 0 := by
  intro hzero
  exact h (toHash_eq_zero_iff.mp (BitVec.toFin_inj.mp hzero))

/-- A plugin that is not registered is added under its hash. -/
theorem addPlugin_eq {c : ServerCtrl κ} {plugin : PluginPtr}
    (h : hashOf plugin ∉ c.mSharedData.keys) :
    c.addPlugin plugin = (some (hashOf plugin), { c with
      mSharedData := (c.mSharedData.emplace (hashOf plugin) (.ofPlugin κ plugin)).2 }) := by
  simp [addPlugin, OrdMap.emplace_fst_of_not_mem h]

theorem removePlugin_eq {c : ServerCtrl κ} {hash : Hash} (h : hash ≠ 0) :
    (c.removePlugin hash).2 = { c with mSharedData := (c.mSharedData.erase hash).2 } := by
  simp [removePlugin, h]

/-! ## The server -/

/-- A server that is there is running: `start` makes it run and `stop` takes it away. -/
def ServerRuns (c : ServerCtrl κ) : Prop := ∀ s, c.mServer = some s → s.isRunning = true

/-- `start` leaves a running server, and nothing else different. -/
theorem start_spec {c : ServerCtrl κ} (h : c.ServerRuns) (built : Bool) :
    ∃ s, (c.start built).2 = { c with mServer := some s } ∧ s.isRunning = true := by
  unfold start
  cases hs : c.mServer with
  | none => exact ⟨_, rfl, rfl⟩
  | some s =>
    have hrun := h s hs
    refine ⟨s, ?_, hrun⟩
    simp [isRunning, hrun]

/-- `stop` takes the server away, whoever uses it, and changes nothing else. -/
theorem stop_spec {c c' : ServerCtrl κ} {ok : Bool} (h : c.ServerRuns)
    (hstop : c.stop = some (ok, c')) : c' = { c with mServer := none } := by
  unfold stop at hstop
  cases hs : c.mServer with
  | none =>
    -- nothing to stop, and nothing there
    simp only [isRunning, hs, Bool.not_false, if_true, Option.some.injEq, Prod.mk.injEq] at hstop
    rw [← hstop.2, ← hs]
  | some s =>
    have hrun := h s hs
    simp only [isRunning, hs, hrun, Bool.not_true, Bool.false_eq_true, if_false, Server.stop]
      at hstop
    split at hstop
    · cases hstop
    · rename_i heq
      split at heq
      · cases heq
      · cases heq
    · cases hstop
      rfl

end ServerCtrl

end ClapRci
