import ClapRci.Core.BlkRingQueueFifo

/-!
# Sequences of calls on a `BlkRingQueue`

The rest of the class (`core/blkringqueue.h`): both constructors, `peek`, `tryPop`,
`size` and the destructor. One thread makes calls one after another, each with its
outcome; next to the queue stands a ghost list of the items that were enqueued and not
yet dequeued or popped, each with the slot it was constructed in. Four counters are to
agree with its length. They do in exactly the runs in which no `tryPop` succeeds, since
`tryPop` leaves `itemCount` alone, and nothing is enqueued into a default-constructed
queue, which has slots to give but no `data`: that call crashes.
-/

namespace ClapRci.BlkRingQueue

variable {T : Type}

/-! ## The rest of the class -/

/-- `BlkRingQueue()`; `semMax` is `std::counting_semaphore<>::max()`. -/
def default (T : Type) (semMax : Nat) : BlkRingQueue T where
  data := []
  capacity := 0
  slots := semMax
  items := 0
  itemCount := 0
  mask := 0
  nextSlot := 0
  nextItem := 0

def size (q : BlkRingQueue T) : BitVec 64 := q.itemCount

def maxCapacity (q : BlkRingQueue T) : BitVec 64 := q.capacity

/-- The slot of the element `peek` points to; `none` is the null pointer. -/
def peek (q : BlkRingQueue T) : Option Nat :=
  if q.size = 0 then none else some q.itemIdx

def tryPop (q : BlkRingQueue T) : Option (Bool × BlkRingQueue T) :=
  if 0 < q.items then do
    let q ← popImpl { q with items := q.items - 1 }
    some (true, { q with slots := q.slots + 1 })
  else some (false, q)

theorem tryPop_of_pos {q : BlkRingQueue T} (hpos : 0 < q.items) (hdata : q.data ≠ []) :
    q.tryPop = some (true, { q with
      data := q.data.set q.itemIdx .raw
      slots := q.slots + 1
      items := q.items - 1
      nextItem := q.nextItem + 1 }) := by
  simp [tryPop, hpos, popImpl, access, hdata, setFront, itemIdx]

theorem tryPop_of_zero {q : BlkRingQueue T} (hzero : q.items = 0) :
    q.tryPop = some (false, q) := by
  simp [tryPop, hzero]

/-- The slots `~BlkRingQueue` destroys, in the order of its loop
`for (i = 0, n = size(); i != n; ++i)`. -/
def destroyed (q : BlkRingQueue T) : List Nat :=
  (List.range q.size.toNat).map fun i => ((q.nextItem + BitVec.ofNat 64 i) &&& q.mask).toNat

/-- The ways to construct a queue. The constructor of the semaphore `slots` requires
that the capacity is not negative as a `ptrdiff_t`. -/
inductive Ctor where
  | default (semMax : Nat)
  | capacity (cap : BitVec 64) (h : cap.toNat ≤ 2 ^ 63 - 1)

/-- The queue constructed. -/
def Ctor.queue (T : Type) : Ctor → BlkRingQueue T
  | .default semMax => BlkRingQueue.default T semMax
  | .capacity cap _ => ofCapacity T cap

/-- An enqueue that gets its slot and finds no `data`. -/
theorem tryEnqueue_of_null {q : BlkRingQueue T} (hpos : 0 < q.slots) (hnull : q.data = [])
    (x : T) : q.tryEnqueue x = none := by
  simp [tryEnqueue, hpos, enqueueImpl, writeSlot, access, hnull]

/-! ## Sequences of calls -/

/-- An item and the slot it was constructed in. -/
structure Placed (T : Type) where
  item : T
  slot : Nat
deriving DecidableEq

/-- The queue and, as a ghost, the items enqueued and not yet dequeued or popped,
oldest first. -/
structure Session (T : Type) where
  q : BlkRingQueue T
  pending : List (Placed T) := []
  /-- A call went through the null pointer; none follows. -/
  crashed : Bool := false
deriving DecidableEq

/-- A call. -/
inductive Call (T : Type) where
  | enqueue (op : EnqOp) (item : T)
  | dequeue (op : DeqOp)
  | peek
  | size
  | maxCapacity
deriving DecidableEq

/-- Take the oldest item by the given operation. -/
def take (q : BlkRingQueue T) : DeqOp → Option (BlkRingQueue T)
  | .tryPop => q.tryPop.map Prod.snd
  | _ => q.tryDequeue.map fun r => r.2.2

theorem take_isSome {q : BlkRingQueue T} (hpos : 0 < q.items) (hdata : q.data ≠ [])
    (op : DeqOp) : (q.take op).isSome := by
  cases op with
  | tryPop => simp [take, tryPop_of_pos hpos hdata]
  | tryDequeue | waitDequeue | waitDequeueTimed => simp [take, tryDequeue_of_pos hpos hdata]

/-- The session after a call that leaves the queue `q`, if it comes back. -/
def Session.after (s : Session T) (q : Option (BlkRingQueue T)) (pending : List (Placed T)) :
    Session T :=
  match q with
  | some q => { s with q := q, pending := pending }
  | none => { s with crashed := true }

/-- A call and whether it succeeds. A call succeeds when its semaphore is positive; a
blocking call does not fail, the others may do so at any time (a timeout, or
`try_acquire` failing spuriously). -/
def callStep (s : Session T) (l : Call T × Bool) : Option (Session T) :=
  if s.crashed then none
  else
    match l with
    | (.enqueue _ item, true) =>
      if 0 < s.q.slots then
        some (s.after ((s.q.tryEnqueue item).map Prod.snd)
          (s.pending ++ [⟨item, s.q.slotIdx⟩]))
      else none
    | (.enqueue op _, false) => if op = .waitEnqueue then none else some s
    | (.dequeue op, true) =>
      if 0 < s.q.items then some (s.after (s.q.take op) s.pending.tail) else none
    | (.dequeue op, false) => if op = .waitDequeue then none else some s
    | (.peek, _) | (.size, _) | (.maxCapacity, _) => some s

/-- A constructed queue and the calls made on it. -/
def calls (T : Type) (c : Ctor) : ActionSystem.Spec (Session T) (Call T × Bool) where
  Init s := s = { q := c.queue T }
  step := callStep

/-- What the observers are to say about the pending items. -/
structure Law (s : Session T) : Prop where
  returned : s.crashed = false
  size : s.q.size.toNat = s.pending.length
  size_le : s.q.size.toNat ≤ s.q.maxCapacity.toNat
  peek : s.q.peek = s.pending.head?.map Placed.slot
  front : ∀ p ∈ s.pending.head?, s.q.data[p.slot]? = some (.live p.item)
  destroyed : s.q.destroyed = s.pending.map Placed.slot

/-! ## The invariant -/

/-- The steps at which the counters stay together: what is taken is not taken by
`tryPop`, and a queue that takes an item has `data` for it. -/
def Counted (s : Session T) : Call T × Bool → Prop
  | (.enqueue _ _, true) => s.q.data ≠ []
  | (.dequeue .tryPop, true) => False
  | _ => True

/-- A queue with `data`: the two threads are outside any call, the pending items are the
ones enqueued and not taken, in the slots of their positions, and `itemCount` is their
number. -/
structure Stored (s : Session T) (k : Nat) (enq : List T) (con : List (Option T)) : Prop where
  inv : Inv s.q.capacity.toNat k ⟨s.q, .idle, .idle, enq, con⟩
  cap_le : s.q.capacity.toNat ≤ 2 ^ 63 - 1
  items : s.pending.map Placed.item = enq.drop con.length
  slots : s.pending.map Placed.slot =
    (List.range' con.length s.pending.length).map (· % 2 ^ k)
  itemCount : s.q.itemCount = BitVec.ofNat 64 s.pending.length

/-- A queue without `data` that nothing was enqueued into. -/
structure Bare (s : Session T) : Prop where
  data : s.q.data = []
  items : s.q.items = 0
  itemCount : s.q.itemCount = 0
  pending : s.pending = []

/-- The invariant of the good runs. -/
structure SessionInv (s : Session T) : Prop where
  returned : s.crashed = false
  queue : (∃ k enq con, Stored s k enq con) ∨ Bare s

section Stored

variable {s : Session T} {k : Nat} {enq : List T} {con : List (Option T)}

/-- The number of pending items is the difference of the two positions. -/
theorem Stored.length (h : Stored s k enq con) :
    con.length + s.pending.length = enq.length ∧ s.q.items = s.pending.length := by
  have hlen := congrArg List.length h.items
  have hitems := h.inv.items
  simp only [List.length_map, List.length_drop] at hlen
  simp only [ConsPc.holds] at hitems
  omega

theorem Stored.pending_le (h : Stored s k enq con) :
    s.pending.length ≤ s.q.capacity.toNat := by
  have hidle := h.inv.idle
  have hlen := h.length
  omega

theorem Stored.size_toNat (h : Stored s k enq con) : s.q.size.toNat = s.pending.length := by
  have hle := h.pending_le
  have hcap := h.cap_le
  rw [size, h.itemCount, BitVec.toNat_ofNat]
  exact Nat.mod_eq_of_lt (by omega)

theorem Stored.enqueue (h : Stored s k enq con) (hpos : 0 < s.q.slots) (x : T) :
    Stored (s.after ((s.q.tryEnqueue x).map Prod.snd) (s.pending ++ [⟨x, s.q.slotIdx⟩])) k
      (enq ++ [x]) con := by
  have hdata := h.inv.data_ne_nil
  have hcall := tryEnqueue_of_pos hpos hdata x
  have hrun := tryEnqueue_run s.q.capacity enq con x hpos hdata hcall
  have hlen := h.length
  have hidx : s.q.slotIdx = enq.length % 2 ^ k := by
    have := h.inv.slotIdx
    simpa only [Sys.written, ProdPc.inFlight, List.append_nil] using this
  rw [hcall]
  constructor
  · exact (spec T _).run_invariant (Inv s.q.capacity.toNat k) step_inv h.inv hrun
  · exact h.cap_le
  · simp only [Option.map_some, Session.after]
    rw [List.map_append, h.items, List.drop_append_of_le_length (by omega)]
    rfl
  · simp only [Option.map_some, Session.after]
    rw [List.length_append, List.length_singleton, List.range'_1_concat, List.map_append,
      List.map_append, h.slots, hlen.1, hidx]
    rfl
  · simp only [Option.map_some, Session.after]
    rw [h.itemCount, List.length_append, List.length_singleton, BitVec.ofNat_add]
    rfl

theorem Stored.dequeue (h : Stored s k enq con) (hpos : 0 < s.q.items) {op : DeqOp}
    (hop : op ≠ .tryPop) : ∃ con', Stored (s.after (s.q.take op) s.pending.tail) k enq con' := by
  have hdata := h.inv.data_ne_nil
  have hcall := tryDequeue_of_pos hpos hdata
  have hrun := tryDequeue_run s.q.capacity enq con hpos hdata hcall
  have hlen := h.length
  -- an item that can be taken is pending
  obtain ⟨p, ps, hp⟩ : ∃ p ps, s.pending = p :: ps :=
    List.exists_cons_of_length_pos (by omega)
  have hitems := h.items
  have hslots := h.slots
  have hitemCount := h.itemCount
  rw [hp] at hitems hslots hitemCount
  -- the three kinds of dequeue leave the same queue behind
  have htake : s.q.take op = s.q.tryDequeue.map fun r => r.2.2 := by
    cases op with
    | tryPop => exact absurd rfl hop
    | tryDequeue | waitDequeue | waitDequeueTimed => rfl
  rw [htake, hcall]
  refine ⟨con ++ [s.q.frontItem?], ?_⟩
  constructor
  · exact (spec T _).run_invariant (Inv s.q.capacity.toNat k) step_inv h.inv hrun
  · exact h.cap_le
  · have htail := congrArg List.tail hitems
    rw [List.map_cons, List.tail_cons, List.tail_drop] at htail
    simp only [Option.map_some, Session.after]
    rw [hp, List.length_append, List.length_singleton]
    exact htail
  · rw [List.length_cons, List.range'_succ] at hslots
    have htail := congrArg List.tail hslots
    simp only [Option.map_some, Session.after]
    rw [hp, List.length_append, List.length_singleton]
    exact htail
  · simp only [Option.map_some, Session.after]
    rw [hitemCount, hp, List.length_cons, BitVec.ofNat_add]
    exact BitVec.add_sub_cancel _ _

/-- The slot of the oldest pending item is the one read next. -/
theorem Stored.front_slot (h : Stored s k enq con) {p : Placed T} {ps : List (Placed T)}
    (hp : s.pending = p :: ps) : p.slot = con.length % 2 ^ k := by
  have hslots := h.slots
  rw [hp, List.length_cons, List.range'_succ] at hslots
  exact (List.cons.inj hslots).1

theorem Stored.law (h : Stored s k enq con) (hreturned : s.crashed = false) : Law s := by
  have hsize := h.size_toNat
  have hlen := h.length
  constructor
  · exact hreturned
  · exact hsize
  · rw [hsize]
    exact h.pending_le
  · cases hp : s.pending with
    | nil =>
      have hzero : s.q.size = 0 := by
        apply BitVec.eq_of_toNat_eq
        rw [hsize, hp]
        rfl
      rw [BlkRingQueue.peek, if_pos hzero]
      rfl
    | cons p ps =>
      have hne : s.q.size ≠ 0 := by
        intro hzero
        rw [hzero, hp] at hsize
        cases hsize
      rw [BlkRingQueue.peek, if_neg hne, h.inv.itemIdx, List.head?_cons, Option.map_some,
        h.front_slot hp]
  · intro p hp
    obtain ⟨ps, hps⟩ := List.head?_eq_some_iff.mp hp
    have hlt : con.length < enq.length := by
      rw [hps, List.length_cons] at hlen
      omega
    have hitem : enq[con.length]? = some p.item := by
      have hhead := congrArg List.head? h.items
      rw [hps, List.head?_drop] at hhead
      exact hhead.symm
    rw [h.front_slot hps]
    refine h.inv.live con.length p.item (Nat.le_refl _) ?_
    simpa only [Sys.written, ProdPc.inFlight, List.append_nil] using hitem
  · unfold BlkRingQueue.destroyed
    rw [hsize, h.slots, List.range'_eq_map_range, List.map_map]
    apply List.map_congr_left
    intro i _
    rw [h.inv.nextItem, ← BitVec.ofNat_add, RingIndex.ofNat_and_mask h.inv.mask h.inv.log_le]
    rfl

end Stored

theorem Bare.law {s : Session T} (h : Bare s) (hreturned : s.crashed = false) : Law s := by
  have hsize : s.q.size = 0 := h.itemCount
  constructor
  · exact hreturned
  · rw [hsize, h.pending]
    rfl
  · rw [hsize]
    exact Nat.zero_le _
  · rw [BlkRingQueue.peek, if_pos hsize, h.pending]
    rfl
  · intro p hp
    rw [h.pending] at hp
    cases hp
  · rw [BlkRingQueue.destroyed, hsize, h.pending]
    rfl

theorem SessionInv.law {s : Session T} (h : SessionInv s) : Law s := by
  rcases h with ⟨hreturned, ⟨k, enq, con, hstored⟩ | hbare⟩
  · exact hstored.law hreturned
  · exact hbare.law hreturned

/-! ## Every sequence of calls -/

/-- Every constructed queue, also one of capacity 0, whose `mask + 1` wraps to 0. -/
theorem ctor_inv (c : Ctor) : SessionInv { q := c.queue T } := by
  refine ⟨rfl, ?_⟩
  cases c with
  | default semMax => exact Or.inr ⟨rfl, rfl, rfl, rfl⟩
  | capacity cap h =>
    rcases Nat.eq_zero_or_pos cap.toNat with hzero | hpos
    · right
      have hcap : cap = 0 := BitVec.eq_of_toNat_eq hzero
      subst hcap
      exact ⟨rfl, rfl, rfl, rfl⟩
    · -- at least one slot: the constructor has rounded up to a power of two
      left
      exact ⟨log cap, [], [], init_inv hpos h, h, rfl, rfl, rfl⟩

/-- A call that comes back leaves the session uncrashed. -/
theorem after_crashed {s : Session T} {q : Option (BlkRingQueue T)} (h : s.crashed = false)
    (hq : q.isSome) (pending : List (Placed T)) : (s.after q pending).crashed = false := by
  cases q with
  | none => cases hq
  | some q => exact h

/-- A counted call keeps the invariant. -/
theorem callStep_inv {s s' : Session T} {l : Call T × Bool} (h : SessionInv s)
    (hc : Counted s l) (hstep : callStep s l = some s') : SessionInv s' := by
  rcases h with ⟨hreturned, hqueue⟩
  rcases l with ⟨call, ok⟩
  simp only [callStep, hreturned, Bool.false_eq_true, if_false] at hstep
  cases call with
  | enqueue op item =>
    cases ok with
    | true =>
      simp only [Option.ite_none_right_eq_some, Option.some.injEq] at hstep
      rcases hstep with ⟨hpos, rfl⟩
      rcases hqueue with ⟨k, enq, con, hstored⟩ | hbare
      · refine ⟨?_, Or.inl ⟨k, enq ++ [item], con, hstored.enqueue hpos item⟩⟩
        rw [tryEnqueue_of_pos hpos hc]
        exact hreturned
      · exact absurd hbare.data hc
    | false =>
      simp only [Option.ite_none_left_eq_some, Option.some.injEq] at hstep
      rcases hstep with ⟨_, rfl⟩
      exact ⟨hreturned, hqueue⟩
  | dequeue op =>
    cases ok with
    | true =>
      simp only [Option.ite_none_right_eq_some, Option.some.injEq] at hstep
      rcases hstep with ⟨hpos, rfl⟩
      rcases hqueue with ⟨k, enq, con, hstored⟩ | hbare
      · have hop : op ≠ .tryPop := by
          rintro rfl
          exact hc
        obtain ⟨con', h'⟩ := hstored.dequeue hpos hop
        refine ⟨after_crashed hreturned ?_ _, Or.inl ⟨k, enq, con', h'⟩⟩
        exact take_isSome hpos hstored.inv.data_ne_nil op
      · have hitems := hbare.items
        omega
    | false =>
      simp only [Option.ite_none_left_eq_some, Option.some.injEq] at hstep
      rcases hstep with ⟨_, rfl⟩
      exact ⟨hreturned, hqueue⟩
  | peek | size | maxCapacity =>
    cases hstep
    exact ⟨hreturned, hqueue⟩

/-- A call that is not counted crashes, or leaves `size()` off the number of pending
items. -/
theorem callStep_miscounts {s s' : Session T} {l : Call T × Bool} (h : SessionInv s)
    (hc : ¬ Counted s l) (hstep : callStep s l = some s') : ¬ Law s' := by
  intro hlaw
  rcases l with ⟨call, ok⟩
  simp only [callStep, h.returned, Bool.false_eq_true, if_false] at hstep
  cases call with
  | enqueue op item =>
    cases ok with
    | false => exact hc trivial
    | true =>
      have hdata : s.q.data = [] := not_not.mp hc
      simp only [Option.ite_none_right_eq_some, Option.some.injEq] at hstep
      rcases hstep with ⟨hpos, rfl⟩
      have hcrashed := hlaw.returned
      rw [tryEnqueue_of_null hpos hdata] at hcrashed
      cases hcrashed
  | dequeue op =>
    cases ok with
    | false =>
      apply hc
      cases op <;> trivial
    | true =>
      cases op with
      | tryDequeue | waitDequeue | waitDequeueTimed => exact hc trivial
      | tryPop =>
        simp only [Option.ite_none_right_eq_some, Option.some.injEq] at hstep
        rcases hstep with ⟨hpos, rfl⟩
        rcases h.queue with ⟨k, enq, con, hstored⟩ | hbare
        · -- one item fewer is pending, and `itemCount` is what it was
          have hafter := hlaw.size
          have hbefore := h.law.size
          have hlen := hstored.length
          rw [take, tryPop_of_pos hpos hstored.inv.data_ne_nil] at hafter
          simp only [Option.map_some, Session.after, size, List.length_tail] at hafter hbefore
          omega
        · have hitems := hbare.items
          omega
  | peek | size | maxCapacity => exact hc trivial

/-- After every call of a sequence the observers agree with the pending items exactly when
every call is counted: no `tryPop` succeeds, and nothing is enqueued into a queue without
`data`. -/
theorem observers_iff (c : Ctor) (ls : List (Call T × Bool)) :
    (calls T c).AllSteps (fun s _ s' => Law s ∧ Law s') { q := c.queue T } ls ↔
      (calls T c).AllSteps (fun s l _ => Counted s l) { q := c.queue T } ls := by
  apply (calls T c).allSteps_iff SessionInv
  · intro s l s' hs hc hstep
    have hs' := callStep_inv hs hc hstep
    exact ⟨hs', hs.law, hs'.law⟩
  · intro s l s' hs hc hstep hlaw
    exact callStep_miscounts hs hc hstep hlaw.2
  · exact ctor_inv c

/-- One item goes into a queue of capacity 1 and is popped: `size()` is still 1. -/
theorem observers_fail : ¬ ∀ (c : Ctor) (ls : List (Call Nat × Bool)),
    (calls Nat c).AllSteps (fun s _ s' => Law s ∧ Law s') { q := c.queue Nat } ls := by
  intro h
  have hlaw := (calls Nat _).forall_allSteps_last (h (.capacity 1 (by decide)))
    [(.enqueue .tryEnqueue 7, true)] (.dequeue .tryPop, true) rfl rfl
  have hsize := hlaw.2.size
  revert hsize
  decide

end ClapRci.BlkRingQueue
