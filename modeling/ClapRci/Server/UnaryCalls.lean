import Mathlib.Data.List.Nodup
import Mathlib.Data.List.Perm.Basic
import Mathlib.Data.List.Range
import ClapRci.Server.PendingTags

/-!
# Unary calls (`server/tags/clienteventcall.cpp`, `server/tags/clientparamcall.cpp`)

The handlers of `ClientEventCall` and `ClientParamCall` on their completion queue. A handler
waits for one call, creates its successor when the call comes, answers it when `handleEvent`
returns, and is destroyed.

* `Inv`: each handler in `pendingTags` has exactly one operation outstanding, or is in
  `handleEvent`;
* `Inv.accounted`: so one handler of each kind waits until a request fails, every call accepted
  is answered once or is being handled, and a handler is destroyed once, with nothing
  outstanding for it.
-/

namespace ClapRci

/-- The `grpc::StatusCode`s a unary call is answered with. -/
inductive UnaryStatusCode where
  | OK | INVALID_ARGUMENT | NOT_FOUND | INTERNAL
deriving DecidableEq

/-- The `grpc::Status` of a unary call. -/
structure UnaryStatus where
  code : UnaryStatusCode
  message : String := ""
deriving DecidableEq

namespace UnaryCalls

/-! ## The handlers -/

/-- The two unary RPCs. -/
inductive Kind where
  | clientEventCall | clientParamCall
deriving DecidableEq

/-- `State` of a handler. -/
inductive State where
  | PROCESS | FINISH
deriving DecidableEq

/-- The calls a handler makes in `process`. -/
inductive Effect where
  /-- `parent->create<T>()` -/
  | create (kind : Kind)
  /-- `writer.Finish(response, handleEvent(), this)`: `handleEvent` is called, and what it
  returns is the answer. -/
  | handleEvent
  /-- `parent->destroyTag(hash())` -/
  | destroyTag

/-- `kill()`. -/
def kill : List Effect := [.destroyTag]

/-- The body the two `process` functions share. -/
def process (kind : Kind) (state : State) (ok : Bool) : State × List Effect :=
  if !ok then (state, kill)
  else
    match state with
    -- a new handler serves the next client while this one answers
    | .PROCESS => (.FINISH, [.create kind, .handleEvent])
    | .FINISH => (.FINISH, kill)

/-- `ClientEventCallHandler::process(ok)`. -/
def ClientEventCallHandler.process := UnaryCalls.process .clientEventCall

/-- `ClientParamCall::process(ok)`. -/
def ClientParamCall.process := UnaryCalls.process .clientParamCall

/-- A handler; `serial` numbers the handlers in the order of their creation, since an address
can be used again. -/
structure Handler where
  kind : Kind
  state : State := .PROCESS
  serial : Nat
deriving DecidableEq

/-- The virtual call `tag->process(ok)`. -/
def Handler.process (h : Handler) : Bool → State × List Effect :=
  match h.kind with
  | .clientEventCall => ClientEventCallHandler.process h.state
  | .clientParamCall => ClientParamCall.process h.state

/-! ## Their completion queue -/

/-- The operations started with a handler's tag. -/
inductive Op where
  | request
  | finish (status : UnaryStatus)
deriving DecidableEq

/-- The handlers, the operations that have not completed, by the tags they will return, the
handlers whose `handleEvent` has not returned, with their serials, and the history: the kinds
of which a request failed, the calls accepted, the answers given and the handlers destroyed,
by serial. -/
structure Sys where
  pendingTags : PendingTags Handler := OrdMap.empty
  outstanding : List (TagPtr × Op) := []
  handling : List (TagPtr × Nat) := []
  nextSerial : Nat := 0
  refused : List Kind := []
  accepted : List Nat := []
  answered : List (Nat × UnaryStatus) := []
  destroyed : List Nat := []

/-- `create<T>()`, with the address of the new handler: its constructor posts the request,
then it goes into `pendingTags`. -/
def Sys.create (s : Sys) (this : TagPtr) (kind : Kind) : Sys :=
  { s with
    outstanding := s.outstanding ++ [(this, .request)]
    pendingTags := (s.pendingTags.create this { kind := kind, serial := s.nextSerial }).2
    nextSerial := s.nextSerial + 1 }

/-- Carry out an effect of the handler at `this`. -/
def Sys.apply (this : TagPtr) (serial : Nat) (fresh : TagPtr) (s : Sys) : Effect → Sys
  | .create kind => s.create fresh kind
  | .handleEvent => { s with handling := s.handling ++ [(this, serial)] }
  | .destroyTag =>
    { s with
      pendingTags := (s.pendingTags.destroyTag (hashOf this)).2
      destroyed := s.destroyed ++ [serial] }

/-- The handler at an address. -/
def Sys.handler (s : Sys) (this : TagPtr) : Option Handler :=
  (s.pendingTags.find? (hashOf this)).map Prod.snd

/-- `Next` returns an operation with its flag, and the handler processes it up to
`handleEvent`; a new one gets an address that is not in use. Or a `handleEvent` returns. -/
inductive Lbl where
  | next (k : Nat) (ok : Bool) (fresh : TagPtr)
  | returns (k : Nat) (status : UnaryStatus)

def step (s : Sys) : Lbl → Option Sys
  | .next k ok fresh =>
    match s.outstanding[k]? with
    | none => none
    | some (this, op) =>
      if s.pendingTags.live.contains fresh then none
      else
        match s.handler this with
        -- the tag returned points to freed memory
        | none => some { s with outstanding := s.outstanding.eraseIdx k }
        | some h =>
          let (state, effs) := h.process ok
          let s := { s with
            outstanding := s.outstanding.eraseIdx k
            pendingTags := s.pendingTags.modify (hashOf this) fun e =>
              (e.1, { e.2 with state := state })
            refused := if op = .request ∧ ok = false then s.refused ++ [h.kind] else s.refused
            accepted := if op = .request ∧ ok = true then s.accepted ++ [h.serial]
              else s.accepted }
          some (effs.foldl (Sys.apply this h.serial fresh) s)
  | .returns k status =>
    match s.handling[k]? with
    | none => none
    | some (this, serial) =>
      some { s with
        handling := s.handling.eraseIdx k
        outstanding := s.outstanding ++ [(this, .finish status)]
        answered := s.answered ++ [(serial, status)] }

/-- `Server::start()` creates a handler of each kind. -/
def init (a b : TagPtr) : Sys := (Sys.create {} a .clientEventCall).create b .clientParamCall

/-- The completion queue of the unary calls. -/
def spec : ActionSystem.Spec Sys Lbl where
  Init s := ∃ a b, a ≠ b ∧ s = init a b
  step := step

/-! ## Each handler has one operation outstanding -/

/-- The operation a handler waits for is its request, or else its answer. -/
def Op.isRequest : Op → Bool
  | .request => true
  | .finish _ => false

/-- What the handlers wait for, by their tags: an operation, and whether it is the request, or
the return of `handleEvent`. -/
def Sys.awaited (s : Sys) : List (TagPtr × Bool) :=
  (s.outstanding.map fun o => (o.1, o.2.isRequest)) ++ s.handling.map fun e => (e.1, false)

/-- The tag of a handler in the map, and whether it waits for its request. -/
def due (e : Hash × TagPtr × Handler) : TagPtr × Bool := (e.2.1, e.2.2.state = .PROCESS)

/-- The serial of a handler in the map. -/
def serialOf (e : Hash × TagPtr × Handler) : Nat := e.2.2.serial

/-- The handler waits for a call of this kind. -/
def waitsFor (kind : Kind) (e : Hash × TagPtr × Handler) : Bool :=
  e.2.2.state = .PROCESS && e.2.2.kind = kind

/-- What holds of the handlers and the queue between two completions. -/
structure Inv (s : Sys) : Prop where
  keyed : PendingTags.Keyed s.pendingTags
  /-- Each handler has its one operation outstanding, or to start, and nothing else is. -/
  awaited : s.awaited.Perm (s.pendingTags.entries.map due)
  /-- Every handler created is alive or was destroyed, once. -/
  serials : (s.destroyed ++ s.pendingTags.entries.map serialOf).Perm (List.range s.nextSerial)
  /-- The calls accepted are answered or being handled, once each. -/
  answered : (s.answered.map Prod.fst ++ s.handling.map Prod.snd).Perm s.accepted
  accepted : s.accepted.Nodup
  acceptedLt : ∀ n ∈ s.accepted, n < s.nextSerial
  /-- A handler that waits for its request has accepted no call. -/
  waiting : ∀ e ∈ s.pendingTags.entries, e.2.2.state = .PROCESS → serialOf e ∉ s.accepted

/-- A handler of each kind waits, unless a request of its kind has failed. -/
def OneWaits (s : Sys) : Prop :=
  ∀ kind, s.pendingTags.entries.countP (waitsFor kind) = if kind ∈ s.refused then 0 else 1

section Handlers

variable {s : Sys} {this : TagPtr} {h : Handler}

theorem empty_inv : Inv {} where
  keyed := by
    intro e he
    cases he
  awaited := List.Perm.refl _
  serials := List.Perm.refl _
  answered := List.Perm.refl _
  accepted := List.nodup_nil
  acceptedLt := by
    intro n hn
    cases hn
  waiting := by
    intro e he
    cases he

/-- The handlers after `create`. -/
theorem Inv.create_entries (hinv : Inv s) (hfresh : this ∉ PendingTags.live s.pendingTags)
    (kind : Kind) :
    (s.create this kind).pendingTags.entries.Perm
      ((hashOf this, this, { kind := kind, serial := s.nextSerial }) :: s.pendingTags.entries) :=
  hinv.keyed.create_entries hfresh _

/-- A new handler comes with its request. -/
theorem Inv.create (hinv : Inv s) (hfresh : this ∉ PendingTags.live s.pendingTags)
    (kind : Kind) : Inv (s.create this kind) where
  keyed := hinv.keyed.create hfresh _
  awaited := by
    refine List.Perm.trans ?_ ((hinv.create_entries hfresh kind).map due).symm
    rw [Sys.awaited, Sys.create, List.map_append, List.append_assoc, List.map_cons]
    exact List.perm_middle.trans (hinv.awaited.cons _)
  serials := by
    have hperm := (hinv.create_entries hfresh kind).map serialOf
    refine (hperm.append_left _).trans ?_
    rw [Sys.create, List.range_succ]
    exact List.perm_middle.trans
      ((hinv.serials.cons _).trans (List.perm_append_singleton _ _).symm)
  answered := hinv.answered
  accepted := hinv.accepted
  acceptedLt := by
    intro n hn
    exact Nat.lt_succ_of_lt (hinv.acceptedLt n hn)
  waiting := by
    intro e he hstate
    rcases List.mem_cons.mp ((hinv.create_entries hfresh kind).subset he) with rfl | hmem
    · intro hacc
      exact Nat.lt_irrefl _ (hinv.acceptedLt _ hacc)
    · exact hinv.waiting e hmem hstate

/-- An operation that is outstanding belongs to a handler in the map, in the state that
waits for it. -/
theorem Inv.handler (hinv : Inv s) {k : Nat} {op : Op} (hk : s.outstanding[k]? = some (this, op)) :
    ∃ h, s.pendingTags.find? (hashOf this) = some (this, h) ∧
      op.isRequest = decide (h.state = .PROCESS) := by
  have hmem : (this, op.isRequest) ∈ s.awaited :=
    List.mem_append_left _ (List.mem_map.mpr ⟨(this, op), List.mem_of_getElem? hk, rfl⟩)
  rcases List.mem_map.mp (hinv.awaited.subset hmem) with ⟨⟨hash, addr, h⟩, he, hdue⟩
  obtain ⟨rfl, hop⟩ := Prod.mk.inj hdue
  refine ⟨h, OrdMap.find?_eq_some.mpr ?_, hop.symm⟩
  rw [← hinv.keyed _ he]
  exact he

/-- The handlers, the one at hand first. -/
theorem entries_perm (hfind : s.pendingTags.find? (hashOf this) = some (this, h)) :
    s.pendingTags.entries.Perm
      ((hashOf this, this, h) :: (s.pendingTags.erase (hashOf this)).2.entries) :=
  OrdMap.erase_perm hfind

/-- Without its operation and without the handler, the rest is still in step. -/
theorem Inv.awaited_rest (hinv : Inv s) {k : Nat} {op : Op}
    (hk : s.outstanding[k]? = some (this, op))
    (hfind : s.pendingTags.find? (hashOf this) = some (this, h))
    (hop : op.isRequest = decide (h.state = .PROCESS)) :
    (Sys.awaited { s with outstanding := s.outstanding.eraseIdx k }).Perm
      ((s.pendingTags.erase (hashOf this)).2.entries.map due) := by
  rcases List.getElem?_eq_some_iff.mp hk with ⟨hlt, hget⟩
  have hout := (List.getElem_cons_eraseIdx_perm hlt).map fun o => (o.1, o.2.isRequest)
  rw [hget, List.map_cons, hop] at hout
  have hentries := (entries_perm hfind).map due
  exact (List.perm_cons _).mp ((hout.append_right _).trans (hinv.awaited.trans hentries))

/-- The serial of the handler at hand is that of no other. -/
theorem Inv.serial_rest (hinv : Inv s)
    (hfind : s.pendingTags.find? (hashOf this) = some (this, h)) :
    h.serial < s.nextSerial ∧
      h.serial ∉ (s.pendingTags.erase (hashOf this)).2.entries.map serialOf := by
  have hsplit := ((entries_perm hfind).map serialOf).append_left s.destroyed
  have hperm := hsplit.symm.trans hinv.serials
  constructor
  · apply List.mem_range.mp
    apply hperm.subset
    simp [serialOf]
  · have hnodup := (hperm.nodup_iff.mpr List.nodup_range)
    rw [List.map_cons, List.nodup_middle, List.nodup_cons, List.mem_append, not_or] at hnodup
    exact hnodup.1.2

/-- A handler destroyed takes nothing outstanding with it. -/
theorem Inv.destroy (hinv : Inv s) {k : Nat} {op : Op}
    (hk : s.outstanding[k]? = some (this, op))
    (hfind : s.pendingTags.find? (hashOf this) = some (this, h))
    (hop : op.isRequest = decide (h.state = .PROCESS)) (refused : List Kind) :
    Inv { s with
      outstanding := s.outstanding.eraseIdx k
      pendingTags := (s.pendingTags.destroyTag (hashOf this)).2
      refused := refused
      destroyed := s.destroyed ++ [h.serial] } where
  keyed := hinv.keyed.destroyTag _
  awaited := hinv.awaited_rest hk hfind hop
  serials := by
    have hperm := ((entries_perm hfind).map serialOf).append_left s.destroyed
    rw [List.append_assoc]
    exact hperm.symm.trans hinv.serials
  answered := hinv.answered
  accepted := hinv.accepted
  acceptedLt := hinv.acceptedLt
  waiting := by
    intro e he hstate
    exact hinv.waiting e (List.mem_filter.mp he).1 hstate

/-- The handlers after one of them has changed its state. -/
theorem modify_entries (hfind : s.pendingTags.find? (hashOf this) = some (this, h))
    (state : State) :
    (s.pendingTags.modify (hashOf this) fun e => (e.1, { e.2 with state := state })).entries.Perm
      ((hashOf this, this, { h with state := state }) ::
        (s.pendingTags.erase (hashOf this)).2.entries) :=
  OrdMap.modify_perm hfind _

/-- The addresses in use stay the same. -/
theorem live_modify (tags : PendingTags Handler) (hash : Hash) (state : State) :
    PendingTags.live (tags.modify hash fun e => (e.1, { e.2 with state := state })) =
      PendingTags.live tags := by
  unfold PendingTags.live
  apply OrdMap.map_modify
  intro k e
  rfl

/-- A handler that accepts a call has its `Finish` to start instead of its request. -/
theorem Inv.accept (hinv : Inv s) {k : Nat} {op : Op}
    (hk : s.outstanding[k]? = some (this, op))
    (hfind : s.pendingTags.find? (hashOf this) = some (this, h))
    (hop : op.isRequest = decide (h.state = .PROCESS)) (hstate : h.state = .PROCESS) :
    Inv { s with
      outstanding := s.outstanding.eraseIdx k
      handling := s.handling ++ [(this, h.serial)]
      pendingTags := s.pendingTags.modify (hashOf this) fun e =>
        (e.1, { e.2 with state := .FINISH })
      accepted := s.accepted ++ [h.serial] } where
  keyed := by
    intro e he
    rcases List.mem_cons.mp ((modify_entries hfind .FINISH).subset he) with rfl | hmem
    · rfl
    · exact hinv.keyed e (List.mem_filter.mp hmem).1
  awaited := by
    refine List.Perm.trans ?_ ((modify_entries hfind .FINISH).map due).symm
    rw [Sys.awaited, List.map_append, ← List.append_assoc, List.map_cons]
    exact (List.perm_append_singleton _ _).trans ((hinv.awaited_rest hk hfind hop).cons _)
  serials := by
    have hsame : (s.pendingTags.modify (hashOf this) fun e =>
        (e.1, { e.2 with state := .FINISH })).entries.map serialOf =
        s.pendingTags.entries.map serialOf := by
      apply OrdMap.map_modify
      intro k e
      rfl
    rw [hsame]
    exact hinv.serials
  answered := by
    rw [List.map_append, ← List.append_assoc]
    exact hinv.answered.append_right _
  accepted := by
    rw [List.nodup_append]
    refine ⟨hinv.accepted, List.nodup_singleton _, ?_⟩
    intro n hn n' hn' heq
    have hmem : ((hashOf this, this, h) : Hash × TagPtr × Handler) ∈ s.pendingTags.entries :=
      OrdMap.find?_eq_some.mp hfind
    rw [heq, List.mem_singleton.mp hn'] at hn
    exact hinv.waiting _ hmem hstate hn
  acceptedLt := by
    intro n hn
    rcases List.mem_append.mp hn with hn | hn
    · exact hinv.acceptedLt n hn
    · rw [List.mem_singleton.mp hn]
      exact (hinv.serial_rest hfind).1
  waiting := by
    intro e he hwaits
    rcases List.mem_cons.mp ((modify_entries hfind .FINISH).subset he) with rfl | hmem
    · cases hwaits
    · intro hacc
      rcases List.mem_append.mp hacc with hacc | hacc
      · exact hinv.waiting e (List.mem_filter.mp hmem).1 hwaits hacc
      · have hserial := (hinv.serial_rest hfind).2
        rw [← List.mem_singleton.mp hacc] at hserial
        exact hserial (List.mem_map_of_mem hmem)

/-- A `handleEvent` returns, and the answer is started. -/
theorem Inv.answer (hinv : Inv s) {k serial : Nat} (hk : s.handling[k]? = some (this, serial))
    (status : UnaryStatus) :
    Inv { s with
      handling := s.handling.eraseIdx k
      outstanding := s.outstanding ++ [(this, .finish status)]
      answered := s.answered ++ [(serial, status)] } where
  keyed := hinv.keyed
  awaited := by
    rcases List.getElem?_eq_some_iff.mp hk with ⟨hlt, hget⟩
    have hperm := (List.getElem_cons_eraseIdx_perm hlt).map fun e => (e.1, false)
    rw [hget, List.map_cons] at hperm
    refine List.Perm.trans ?_ hinv.awaited
    rw [Sys.awaited, List.map_append, List.append_assoc]
    exact hperm.append_left _
  serials := hinv.serials
  answered := by
    rcases List.getElem?_eq_some_iff.mp hk with ⟨hlt, hget⟩
    have hperm := (List.getElem_cons_eraseIdx_perm hlt).map Prod.snd
    rw [hget, List.map_cons] at hperm
    refine List.Perm.trans ?_ hinv.answered
    rw [List.map_append, List.append_assoc]
    exact hperm.append_left _
  accepted := hinv.accepted
  acceptedLt := hinv.acceptedLt
  waiting := hinv.waiting

end Handlers

/-! ## Every step -/

/-- Both kinds of handlers do the same. -/
theorem process_eq (h : Handler) : h.process = UnaryCalls.process h.kind h.state := by
  unfold Handler.process
  cases h.kind with
  | clientEventCall => rfl
  | clientParamCall => rfl

theorem process_of_kill {kind : Kind} {state : State} {ok : Bool}
    (h : ok = false ∨ state = .FINISH) : UnaryCalls.process kind state ok = (state, kill) := by
  rcases h with rfl | rfl
  · rfl
  · cases ok <;> rfl

/-- The outcomes of a step: the handler is destroyed, or it accepts a call and leaves a
successor; or a call is answered. -/
inductive Moves (s : Sys) : Sys → Prop where
  | destroyed {this : TagPtr} {k : Nat} {op : Op} {h : Handler}
    (hk : s.outstanding[k]? = some (this, op))
    (hfind : s.pendingTags.find? (hashOf this) = some (this, h))
    (hop : op.isRequest = decide (h.state = .PROCESS)) :
    Moves s { s with
      outstanding := s.outstanding.eraseIdx k
      pendingTags := (s.pendingTags.destroyTag (hashOf this)).2
      refused := if h.state = .PROCESS then s.refused ++ [h.kind] else s.refused
      destroyed := s.destroyed ++ [h.serial] }
  | accepted {this : TagPtr} {k : Nat} {op : Op} {h : Handler} {fresh : TagPtr}
    (hk : s.outstanding[k]? = some (this, op))
    (hfind : s.pendingTags.find? (hashOf this) = some (this, h))
    (hop : op.isRequest = decide (h.state = .PROCESS))
    (hfresh : fresh ∉ PendingTags.live s.pendingTags) (hstate : h.state = .PROCESS) :
    Moves s (Sys.create { s with
      outstanding := s.outstanding.eraseIdx k
      handling := s.handling ++ [(this, h.serial)]
      pendingTags := s.pendingTags.modify (hashOf this) fun e =>
        (e.1, { e.2 with state := .FINISH })
      accepted := s.accepted ++ [h.serial] } fresh h.kind)
  | answered {this : TagPtr} {k serial : Nat} (status : UnaryStatus)
    (hk : s.handling[k]? = some (this, serial)) :
    Moves s { s with
      handling := s.handling.eraseIdx k
      outstanding := s.outstanding ++ [(this, .finish status)]
      answered := s.answered ++ [(serial, status)] }

/-- What the handler makes of its operation. -/
theorem next_moves {s s' : Sys} {k : Nat} {ok : Bool} {fresh : TagPtr} (hinv : Inv s)
    (hstep : step s (.next k ok fresh) = some s') : Moves s s' := by
  simp only [step] at hstep
  split at hstep
  · cases hstep
  rename_i this op hk
  split at hstep
  · cases hstep
  rename_i hfresh
  rw [List.contains_iff_mem] at hfresh
  rcases hinv.handler hk with ⟨h, hfind, hop⟩
  have hhandler : s.handler this = some h := by
    rw [Sys.handler, hfind]
    rfl
  rw [hhandler] at hstep
  have hrequest : op = .request ↔ h.state = .PROCESS := by
    cases op with
    | request => exact iff_of_true rfl (of_decide_eq_true hop.symm)
    | finish status => exact iff_of_false (by simp) (of_decide_eq_false hop.symm)
  simp only [process_eq] at hstep
  by_cases hkill : ok = false ∨ h.state = .FINISH
  · have hmoves := Moves.destroyed hk hfind hop
    rw [process_of_kill hkill] at hstep
    have herase := OrdMap.erase_modify s.pendingTags (hashOf this)
      fun e => (e.1, { e.2 with state := h.state })
    cases hstep
    simp only [kill, List.foldl_cons, List.foldl_nil, Sys.apply, PendingTags.destroyTag, herase]
    rcases hkill with hok | hstate
    · simpa [hok, hrequest, PendingTags.destroyTag] using hmoves
    · have hne : ¬ op = .request := by
        rw [hrequest, hstate]
        decide
      simpa [hstate, hne, PendingTags.destroyTag] using hmoves
  · rw [not_or, Bool.not_eq_false] at hkill
    have hstate : h.state = .PROCESS := by
      cases hs : h.state with
      | PROCESS => rfl
      | FINISH => exact absurd hs hkill.2
    simp only [UnaryCalls.process, hkill.1, hstate, hrequest.mpr hstate] at hstep
    cases hstep
    exact .accepted hk hfind hop hfresh hstate

theorem step_moves {s s' : Sys} {l : Lbl} (hinv : Inv s) (hstep : step s l = some s') :
    Moves s s' := by
  cases l with
  | next k ok fresh => exact next_moves hinv hstep
  | returns k status =>
    simp only [step] at hstep
    split at hstep
    · cases hstep
    · rename_i this serial hk
      cases hstep
      exact .answered status hk

theorem step_inv (s : Sys) (l : Lbl) (s' : Sys) (hinv : Inv s) (hstep : step s l = some s') :
    Inv s' := by
  cases step_moves hinv hstep with
  | destroyed hk hfind hop => exact hinv.destroy hk hfind hop _
  | @accepted this _ _ h _ hk hfind hop hfresh hstate =>
    rw [← live_modify s.pendingTags (hashOf this) .FINISH] at hfresh
    exact (hinv.accept hk hfind hop hstate).create hfresh h.kind
  | answered status hk => exact hinv.answer hk status

/-- The handlers that wait, the one at hand apart. -/
theorem countP_waits {s : Sys} {this : TagPtr} {h : Handler}
    (hfind : s.pendingTags.find? (hashOf this) = some (this, h)) (kind : Kind) :
    s.pendingTags.entries.countP (waitsFor kind) =
      (s.pendingTags.erase (hashOf this)).2.entries.countP (waitsFor kind) +
        if h.state = .PROCESS ∧ h.kind = kind then 1 else 0 := by
  rw [(entries_perm hfind).countP_eq, List.countP_cons]
  simp [waitsFor]

/-- A handler that is destroyed waits for nothing, unless its request failed. -/
theorem OneWaits.destroy {s : Sys} {this : TagPtr} {h : Handler} (hone : OneWaits s)
    (hfind : s.pendingTags.find? (hashOf this) = some (this, h)) (kind : Kind) :
    (s.pendingTags.erase (hashOf this)).2.entries.countP (waitsFor kind) =
      if kind ∈ (if h.state = .PROCESS then s.refused ++ [h.kind] else s.refused)
        then 0 else 1 := by
  have hcount := countP_waits hfind kind
  rw [hone kind] at hcount
  by_cases hmine : h.state = .PROCESS ∧ h.kind = kind
  · -- its request has failed: before, it was the one that waited
    have hrefused : kind ∈ if h.state = .PROCESS then s.refused ++ [h.kind] else s.refused := by
      simp [hmine.1, hmine.2]
    simp only [hmine, and_self, if_true] at hcount
    rw [if_pos hrefused]
    split at hcount
    · omega
    · omega
  · have hrefused : (kind ∈ if h.state = .PROCESS then s.refused ++ [h.kind] else s.refused) ↔
        kind ∈ s.refused := by
      split
      · rename_i hstate
        have hkind : kind ≠ h.kind := by
          rintro rfl
          exact hmine ⟨hstate, rfl⟩
        simp [hkind]
      · exact Iff.rfl
    simp only [hmine, if_false, Nat.add_zero] at hcount
    simp only [hrefused]
    exact hcount.symm

theorem step_oneWaits {s s' : Sys} {l : Lbl} (hinv : Inv s) (hone : OneWaits s)
    (hstep : step s l = some s') : OneWaits s' := by
  intro kind
  cases step_moves hinv hstep with
  | destroyed hk hfind hop => exact hone.destroy hfind kind
  | @accepted this _ _ h _ hk hfind hop hfresh hstate =>
    have haccept := hinv.accept hk hfind hop hstate
    rw [← live_modify s.pendingTags (hashOf this) .FINISH] at hfresh
    have hcreate := (haccept.create_entries hfresh h.kind).countP_eq (waitsFor kind)
    have hmodify := (modify_entries hfind .FINISH).countP_eq (waitsFor kind)
    refine hcreate.trans ?_
    -- the successor waits in place of the handler that answers
    rw [List.countP_cons, hmodify, List.countP_cons]
    show _ = if kind ∈ s.refused then 0 else 1
    rw [← hone kind, countP_waits hfind kind]
    simp [waitsFor, hstate]
  | answered status hk => exact hone kind

theorem init_inv {a b : TagPtr} (hab : a ≠ b) : Inv (init a b) ∧ OneWaits (init a b) := by
  have hempty : a ∉ PendingTags.live (Sys.pendingTags {}) := by
    simp [PendingTags.live, OrdMap.empty]
  have hfirst := empty_inv.create hempty .clientEventCall
  have hperm := empty_inv.create_entries hempty .clientEventCall
  have hsecond : b ∉ PendingTags.live (Sys.create {} a .clientEventCall).pendingTags := by
    intro hmem
    rcases List.mem_map.mp hmem with ⟨e, he, hb⟩
    obtain rfl : e = _ := List.mem_singleton.mp (hperm.subset he)
    exact hab hb
  refine ⟨hfirst.create hsecond .clientParamCall, ?_⟩
  intro kind
  have hperm' := hfirst.create_entries hsecond .clientParamCall
  rw [init, hperm'.countP_eq, List.countP_cons, hperm.countP_eq]
  cases kind with
  | clientEventCall => rfl
  | clientParamCall => rfl

theorem inv_of_reachable {s : Sys} (h : spec.Reachable s) : Inv s ∧ OneWaits s := by
  apply spec.reachable_invariant (fun s => Inv s ∧ OneWaits s) _ _ h
  · rintro s ⟨a, b, hab, rfl⟩
    exact init_inv hab
  · rintro s l s' ⟨hinv, hone⟩ hstep
    exact ⟨step_inv s l s' hinv hstep, step_oneWaits hinv hone hstep⟩

/-! ## What is promised -/

/-- Nothing is lost and nothing is done twice. -/
structure Accounted (s : Sys) : Prop where
  /-- One handler of each kind waits, with its request outstanding; none where a request of
  this kind has failed. -/
  oneWaits : ∀ kind, (s.pendingTags.entries.filter (waitsFor kind)).length =
    if kind ∈ s.refused then 0 else 1
  requested : ∀ e ∈ s.pendingTags.entries, e.2.2.state = .PROCESS →
    (e.2.1, Op.request) ∈ s.outstanding
  /-- The calls accepted are those answered with a `Finish` and those whose `handleEvent` has
  not returned, and each is one call. -/
  answered : (s.answered.map Prod.fst ++ s.handling.map Prod.snd).Perm s.accepted ∧
    s.accepted.Nodup
  /-- Every handler ever created is alive or was destroyed once. -/
  destroyedOnce : (s.destroyed ++ s.pendingTags.entries.map serialOf).Perm
    (List.range s.nextSerial)
  /-- Nothing is outstanding, or to be answered, for a handler that is not alive. -/
  quiet : ∀ o ∈ s.awaited, o.1 ∈ PendingTags.live s.pendingTags
  /-- When all operations have completed and every `handleEvent` has returned, all handlers
  are destroyed. -/
  allDone : s.awaited = [] → s.destroyed.Perm (List.range s.nextSerial)

theorem Inv.accounted {s : Sys} (hinv : Inv s) (hone : OneWaits s) : Accounted s where
  oneWaits := by
    intro kind
    rw [← List.countP_eq_length_filter, hone kind]
  requested := by
    intro e he hstate
    have hdue : (e.2.1, true) ∈ s.pendingTags.entries.map due :=
      List.mem_map.mpr ⟨e, he, by simp [due, hstate]⟩
    rcases List.mem_append.mp (hinv.awaited.symm.subset hdue) with hop | hhandling
    · rcases List.mem_map.mp hop with ⟨⟨tag, op⟩, hop, heq⟩
      obtain ⟨rfl, hrequest⟩ := Prod.mk.inj heq
      cases op with
      | request => exact hop
      | finish status => cases hrequest
    · rcases List.mem_map.mp hhandling with ⟨e', -, heq⟩
      cases (Prod.mk.inj heq).2
  answered := ⟨hinv.answered, hinv.accepted⟩
  destroyedOnce := hinv.serials
  quiet := by
    intro o ho
    rcases List.mem_map.mp (hinv.awaited.subset ho) with ⟨e, he, heq⟩
    exact List.mem_map.mpr ⟨e, he, (Prod.mk.inj heq).1⟩
  allDone := by
    intro hnone
    have hawaited := hinv.awaited
    have hserials := hinv.serials
    rw [hnone] at hawaited
    have hempty : s.pendingTags.entries = [] := by simpa using hawaited.symm.eq_nil
    rw [hempty, List.map_nil, List.append_nil] at hserials
    exact hserials

/-- Every call accepted has been answered with exactly one `Finish`. -/
def Answered (s : Sys) : Prop := ∀ n ∈ s.accepted, (s.answered.map Prod.fst).count n = 1

/-- So it is exactly when no `handleEvent` is under way. -/
theorem Inv.answered_iff {s : Sys} (hinv : Inv s) : Answered s ↔ s.handling = [] := by
  have hcount (n : Nat) : (s.answered.map Prod.fst).count n + (s.handling.map Prod.snd).count n =
      s.accepted.count n := by
    rw [← List.count_append]
    exact hinv.answered.count_eq n
  constructor
  · intro hall
    by_contra hne
    rcases List.exists_mem_of_ne_nil _ hne with ⟨e, he⟩
    have hmem : e.2 ∈ s.handling.map Prod.snd := List.mem_map_of_mem he
    have hacc : e.2 ∈ s.accepted := hinv.answered.subset (List.mem_append_right _ hmem)
    have hone := List.count_eq_one_of_mem hinv.accepted hacc
    have hpos := List.count_pos_iff.mpr hmem
    have hsum := hcount e.2
    have hans := hall e.2 hacc
    omega
  · intro hnone n hn
    have hsum := hcount n
    rw [hnone, List.map_nil, List.count_nil, Nat.add_zero] at hsum
    rw [hsum]
    exact List.count_eq_one_of_mem hinv.accepted hn

end UnaryCalls

end ClapRci
