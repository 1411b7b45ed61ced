import Mathlib.Data.List.Basic
import ClapRci.Lib.ActionSystem
import ClapRci.Lib.RingIndex

/-!
# The blocking ring queue (`core/blkringqueue.h`)

`BlkRingQueue<T>` with all seven data members, its operations cut at their atomic
steps, the operations as one call each, and the action system in which one producer
and one consumer interleave those steps.
-/

namespace ClapRci

/-- What an element of `data` holds: nothing (value-initialised by the constructor or
destroyed), a live item, or an item that was moved out but not yet destroyed. -/
inductive Slot (T : Type) where
  | raw
  | live (x : T)
  | moved
deriving DecidableEq

/-- The item found when the element is read; nothing comes out of a slot that holds none. -/
def Slot.item? {T : Type} : Slot T → Option T
  | .live x => some x
  | _ => none

/-- The members of `BlkRingQueue<T>`. The semaphores are their counters. -/
structure BlkRingQueue (T : Type) where
  data : List (Slot T)
  capacity : BitVec 64
  slots : Nat
  items : Nat
  itemCount : BitVec 64
  mask : BitVec 64
  nextSlot : BitVec 64
  nextItem : BitVec 64
deriving DecidableEq

namespace BlkRingQueue

variable {T : Type}

/-! ## Construction -/

/-- The shift-or cascade of the constructor. The loop `for (i = 1; i < sizeof(size_t);
i <<= 1)` runs for `i = 1, 2, 4`. -/
def maskOf (cap : BitVec 64) : BitVec 64 :=
  let cap := cap - 1
  -- each line doubles the run of ones below the highest bit: 2, 4, 8, then 16, 32, 64
  let cap := cap ||| cap >>> 1
  let cap := cap ||| cap >>> 2
  let cap := cap ||| cap >>> 4
  [1, 2, 4].foldl (fun c i => c ||| c >>> (i <<< 3)) cap

/-- `BlkRingQueue(std::size_t cap)`. -/
def ofCapacity (T : Type) (cap : BitVec 64) : BlkRingQueue T where
  data := List.replicate (maskOf cap + 1).toNat .raw
  capacity := cap
  slots := cap.toNat
  items := 0
  itemCount := 0
  mask := maskOf cap
  nextSlot := 0
  nextItem := 0

/-! ## Atomic steps

A step that reaches an element does so through `data`, which is the null pointer in a
default-constructed queue; there the program does not survive the access, and the outcome
is `none`. -/

/-- The slot `nextSlotIdx()` returns; the increment is part of `writeSlot`. -/
def slotIdx (q : BlkRingQueue T) : Nat := (q.nextSlot &&& q.mask).toNat

/-- The slot `nextItemIdx()` and `itemIdx()` return. -/
def itemIdx (q : BlkRingQueue T) : Nat := (q.nextItem &&& q.mask).toNat

/-- What an access through `data` leaves behind, if the program survives it. -/
def access (q q' : BlkRingQueue T) : Option (BlkRingQueue T) :=
  if q.data = [] then none else some q'

@[simp] theorem access_eq_some {q q' r : BlkRingQueue T} :
    q.access q' = some r ↔ q.data ≠ [] ∧ q' = r := by
  simp [access]

theorem access_of_data {q : BlkRingQueue T} (h : q.data ≠ []) (q' : BlkRingQueue T) :
    q.access q' = some q' := if_neg h

/-- Construct the item in its slot. -/
def setSlot (q : BlkRingQueue T) (item : T) : BlkRingQueue T :=
  { q with data := q.data.set q.slotIdx (.live item), nextSlot := q.nextSlot + 1 }

/-- `new (&data[nextSlotIdx()]) T(item)`. -/
def writeSlot (q : BlkRingQueue T) (item : T) : Option (BlkRingQueue T) :=
  q.access (q.setSlot item)

/-- Leave `v` in `data[nextItemIdx()]`. -/
def setFront (q : BlkRingQueue T) (v : Slot T) : BlkRingQueue T :=
  { q with data := q.data.set q.itemIdx v, nextItem := q.nextItem + 1 }

/-- `T &elem = data[nextItemIdx()]; item = std::move(elem)`. -/
def moveItem (q : BlkRingQueue T) : Option (BlkRingQueue T) := q.access (q.setFront .moved)

/-- `elem.~T()` for the element at `idx`, which has been reached before. -/
def destroyElem (q : BlkRingQueue T) (idx : Nat) : BlkRingQueue T :=
  { q with data := q.data.set idx .raw }

/-- `popImpl`: `data[nextItemIdx()].~T()`. -/
def popImpl (q : BlkRingQueue T) : Option (BlkRingQueue T) := q.access (q.setFront .raw)

/-- The item the next read finds. -/
def frontItem? (q : BlkRingQueue T) : Option T := (q.data[q.itemIdx]?).bind Slot.item?

/-! ## Whole calls

A timed wait that ends in time and a blocking wait act as the `try` call that finds the
semaphore positive; a timed wait that runs out acts as the `try` call that does not. -/

def enqueueImpl (q : BlkRingQueue T) (item : T) : Option (BlkRingQueue T) := do
  let q ← q.writeSlot item
  let q := { q with itemCount := q.itemCount + 1 }
  some { q with items := q.items + 1 }

/-- The item moved out, and the queue after it. -/
def dequeueImpl (q : BlkRingQueue T) : Option (Option T × BlkRingQueue T) := do
  let item := q.frontItem?
  let idx := q.itemIdx
  let q ← q.moveItem
  let q := q.destroyElem idx
  let q := { q with itemCount := q.itemCount - 1 }
  some (item, { q with slots := q.slots + 1 })

def tryEnqueue (q : BlkRingQueue T) (item : T) : Option (Bool × BlkRingQueue T) :=
  if 0 < q.slots then do
    let q ← enqueueImpl { q with slots := q.slots - 1 } item
    some (true, q)
  else some (false, q)

/-- The returned flag, what was moved into the caller's variable, and the queue. -/
def tryDequeue (q : BlkRingQueue T) : Option (Bool × Option T × BlkRingQueue T) :=
  if 0 < q.items then do
    let (item, q) ← dequeueImpl { q with items := q.items - 1 }
    some (true, item, q)
  else some (false, none, q)

/-! ## One producer and one consumer -/

/-- The enqueue operations; they differ in how they take a slot. -/
inductive EnqOp where
  | tryEnqueue | waitEnqueue | waitEnqueueTimed
deriving DecidableEq

/-- The operations of the consumer. -/
inductive DeqOp where
  | tryDequeue | waitDequeue | waitDequeueTimed | tryPop
deriving DecidableEq

/-- Where the producer is: outside a call, or before the named step of one. -/
inductive ProdPc (T : Type) where
  | idle
  | acquire (op : EnqOp) (item : T)
  | write (item : T)
  | count (item : T)
  | release (item : T)
deriving DecidableEq

/-- Where the consumer is. `tryPop` has no move and no counter update. -/
inductive ConsPc where
  | idle
  | acquire (op : DeqOp)
  | take (op : DeqOp)
  | destroy (idx : Nat)
  | count
  | release
deriving DecidableEq

/-- The queue, the two threads, and the history: the items whose enqueue succeeded,
and what the consumer took out (`none` had it read a slot without an item). -/
structure Sys (T : Type) where
  q : BlkRingQueue T
  prod : ProdPc T
  cons : ConsPc
  enqueued : List T
  consumed : List (Option T)
deriving DecidableEq

/-- The steps of the two threads. -/
inductive Lbl (T : Type) where
  | callEnqueue (op : EnqOp) (item : T)
  | acquireSlot
  | failEnqueue
  | writeSlot
  | countUp
  | releaseItem
  | callDequeue (op : DeqOp)
  | acquireItem
  | failDequeue
  | takeItem
  | destroyItem
  | countDown
  | releaseSlot
deriving DecidableEq

/-- The two labels of an operation that returns `false`: its call and its failing
acquire. -/
def Lbl.IsFailing : Lbl T → Prop
  | .callEnqueue _ _ | .failEnqueue | .callDequeue _ | .failDequeue => True
  | _ => False

/-- One step of one thread. A timed acquire may fail at any moment, and so may
`try_acquire`, which the standard allows to fail spuriously; `acquire` never fails. No
step follows an access that the program does not survive. -/
def step (s : Sys T) : Lbl T → Option (Sys T)
  | .callEnqueue op item =>
    match s.prod with
    | .idle => some { s with prod := .acquire op item }
    | _ => none
  | .acquireSlot =>
    match s.prod with
    | .acquire _ item =>
      if 0 < s.q.slots then
        some { s with q := { s.q with slots := s.q.slots - 1 }, prod := .write item }
      else none
    | _ => none
  | .failEnqueue =>
    match s.prod with
    -- `slots.acquire()` has no way to fail
    | .acquire .waitEnqueue _ => none
    | .acquire _ _ => some { s with prod := .idle }
    | _ => none
  | .writeSlot =>
    match s.prod with
    | .write item =>
      (s.q.writeSlot item).map fun q => { s with q := q, prod := .count item }
    | _ => none
  | .countUp =>
    match s.prod with
    | .count item =>
      some { s with q := { s.q with itemCount := s.q.itemCount + 1 }, prod := .release item }
    | _ => none
  | .releaseItem =>
    match s.prod with
    | .release item =>
      -- only now can the consumer acquire the item
      some { s with q := { s.q with items := s.q.items + 1 }, prod := .idle,
                    enqueued := s.enqueued ++ [item] }
    | _ => none
  | .callDequeue op =>
    match s.cons with
    | .idle => some { s with cons := .acquire op }
    | _ => none
  | .acquireItem =>
    match s.cons with
    | .acquire op =>
      if 0 < s.q.items then
        some { s with q := { s.q with items := s.q.items - 1 }, cons := .take op }
      else none
    | _ => none
  | .failDequeue =>
    match s.cons with
    | .acquire .waitDequeue => none
    | .acquire _ => some { s with cons := .idle }
    | _ => none
  | .takeItem =>
    match s.cons with
    | .take .tryPop =>
      -- `popImpl` destroys the element in place and leaves `itemCount` alone
      s.q.popImpl.map fun q =>
        { s with q := q, cons := .release, consumed := s.consumed ++ [s.q.frontItem?] }
    | .take _ =>
      s.q.moveItem.map fun q =>
        { s with q := q, cons := .destroy s.q.itemIdx,
                 consumed := s.consumed ++ [s.q.frontItem?] }
    | _ => none
  | .destroyItem =>
    match s.cons with
    | .destroy idx => some { s with q := s.q.destroyElem idx, cons := .count }
    | _ => none
  | .countDown =>
    match s.cons with
    | .count =>
      some { s with q := { s.q with itemCount := s.q.itemCount - 1 }, cons := .release }
    | _ => none
  | .releaseSlot =>
    match s.cons with
    | .release => some { s with q := { s.q with slots := s.q.slots + 1 }, cons := .idle }
    | _ => none

/-- A freshly constructed queue and two threads outside any call. -/
def init (T : Type) (cap : BitVec 64) : Sys T :=
  ⟨ofCapacity T cap, .idle, .idle, [], []⟩

/-- The queue of capacity `cap` with its two threads. -/
def spec (T : Type) (cap : BitVec 64) : ActionSystem.Spec (Sys T) (Lbl T) where
  Init s := s = init T cap
  step := step

end BlkRingQueue

end ClapRci
