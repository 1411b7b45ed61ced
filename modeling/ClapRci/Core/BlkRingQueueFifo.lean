import Mathlib.Tactic.Common
import ClapRci.Core.BlkRingQueueMask
import ClapRci.Lib.BoundedFifo

/-!
# `BlkRingQueue` is a bounded FIFO

Positions count slot writes (`W`), item takes (`R`) and slot releases (`F`) without
wrapping; the machine counters are these numbers modulo `2^64` and the slot of a
position is its remainder by `N = mask + 1`. The invariant describes the window of `N`
positions that starts at `F`: items from `R` up to `W`, free slots from `W` on, and the
slot the consumer is working on at `F` when it is in the middle of a take.
-/

namespace ClapRci.BlkRingQueue

variable {T : Type}

/-! ## The invariant -/

/-- The item written but not yet announced on `items`. -/
def ProdPc.inFlight : ProdPc T → List T
  | .count item | .release item => [item]
  | _ => []

/-- Whether the producer holds a slot it has not written. -/
def ProdPc.holds : ProdPc T → Nat
  | .write _ => 1
  | _ => 0

/-- Whether the consumer holds an item it has not taken. -/
def ConsPc.holds : ConsPc → Nat
  | .take _ => 1
  | _ => 0

/-- Whether the consumer has taken an item whose slot it has not released. -/
def ConsPc.busy : ConsPc → Nat
  | .destroy _ | .count | .release => 1
  | _ => 0

/-- All items written, in order. -/
def Sys.written (s : Sys T) : List T := s.enqueued ++ s.prod.inFlight

/-- The number of slots the consumer has released. -/
def Sys.freed (s : Sys T) : Nat := s.consumed.length - s.cons.busy

/-- What the slot of the last take holds. -/
def TakenSlot (data : List (Slot T)) (i : Nat) : ConsPc → Prop
  | .destroy idx => idx = i ∧ data[i]? = some .moved
  | .count | .release => data[i]? = some .raw
  | _ => True

/-- The invariant of the two threads; `N` is the length of `data`. -/
structure Inv (cap k : Nat) (s : Sys T) : Prop where
  mask : s.q.mask.toNat = 2 ^ k - 1
  log_le : k ≤ 64
  cap_le : cap ≤ 2 ^ k
  length : s.q.data.length = 2 ^ k
  nextSlot : s.q.nextSlot = BitVec.ofNat 64 s.written.length
  nextItem : s.q.nextItem = BitVec.ofNat 64 s.consumed.length
  busy_le : s.cons.busy ≤ s.consumed.length
  slots : s.q.slots + s.prod.holds + s.written.length = cap + s.freed
  items : s.q.items + s.cons.holds + s.consumed.length = s.enqueued.length
  consumed : s.consumed = (s.enqueued.take s.consumed.length).map some
  raw : ∀ j, s.written.length ≤ j → j < s.freed + 2 ^ k → s.q.data[j % 2 ^ k]? = some .raw
  live : ∀ j x, s.consumed.length ≤ j → s.written[j]? = some x →
    s.q.data[j % 2 ^ k]? = some (.live x)
  taken : TakenSlot s.q.data (s.freed % 2 ^ k) s.cons

section Steps

variable {cap k : Nat} {s : Sys T}

theorem Inv.enqueued_le_written (s : Sys T) : s.enqueued.length ≤ s.written.length := by
  simp [Sys.written]

/-- There is an element to reach. -/
theorem Inv.data_ne_nil (h : Inv cap k s) : s.q.data ≠ [] := by
  intro hnil
  have hlen := h.length
  rw [hnil] at hlen
  exact Nat.ne_of_lt (Nat.two_pow_pos k) hlen

/-- The slot the next write goes to. -/
theorem Inv.slotIdx (h : Inv cap k s) : s.q.slotIdx = s.written.length % 2 ^ k := by
  rw [BlkRingQueue.slotIdx, h.nextSlot, RingIndex.ofNat_and_mask h.mask h.log_le]

/-- The slot the next take reads. -/
theorem Inv.itemIdx (h : Inv cap k s) : s.q.itemIdx = s.consumed.length % 2 ^ k := by
  rw [BlkRingQueue.itemIdx, h.nextItem, RingIndex.ofNat_and_mask h.mask h.log_le]

/-- Different positions of one window are in different slots. -/
theorem window_ne {a b F N : Nat} (ha : F ≤ a) (ha' : a < F + N) (hb : F ≤ b)
    (hb' : b < F + N) (hne : a ≠ b) : a % N ≠ b % N := by
  rcases Nat.lt_or_gt_of_ne hne with h | h
  · exact RingIndex.mod_ne_of_lt h (by omega)
  · exact (RingIndex.mod_ne_of_lt h (by omega)).symm

/-- The slot of an in-bounds position after it has been set. -/
theorem getElem?_set_mod {data : List (Slot T)} {N : Nat} (hlen : data.length = N)
    (hN : 0 < N) (j : Nat) (v : Slot T) : (data.set (j % N) v)[j % N]? = some v := by
  rw [List.getElem?_set_self (by rw [hlen]; exact Nat.mod_lt _ hN)]

/-- A producer about to write has a free slot before it. -/
theorem Inv.write_slot_raw (h : Inv cap k s) {item : T} (hp : s.prod = .write item) :
    s.q.data[s.q.slotIdx]? = some .raw := by
  rw [h.slotIdx]
  have hslots := h.slots
  have hcap := h.cap_le
  simp only [hp, ProdPc.holds] at hslots
  exact h.raw _ (Nat.le_refl _) (by omega)

/-- A consumer about to take finds the oldest pending item. -/
theorem Inv.take_front (h : Inv cap k s) {op : DeqOp} (hc : s.cons = .take op) :
    s.q.frontItem? = s.enqueued[s.consumed.length]? ∧ s.consumed.length < s.enqueued.length := by
  have hitems := h.items
  simp only [hc, ConsPc.holds] at hitems
  have hlt : s.consumed.length < s.enqueued.length := by omega
  have hget : s.enqueued[s.consumed.length]? = some s.enqueued[s.consumed.length] :=
    List.getElem?_eq_getElem hlt
  have hw : s.written[s.consumed.length]? = some s.enqueued[s.consumed.length] := by
    rw [Sys.written, List.getElem?_append_left hlt, hget]
  refine ⟨?_, hlt⟩
  rw [frontItem?, h.itemIdx, h.live _ _ (Nat.le_refl _) hw, hget]
  rfl

/-- A set slot leaves the slots of the other positions of the window alone. -/
theorem getElem?_set_window {data : List (Slot T)} {a b F N : Nat} (ha : F ≤ a)
    (ha' : a < F + N) (hb : F ≤ b) (hb' : b < F + N) (hne : a ≠ b) (v : Slot T) :
    (data.set (a % N) v)[b % N]? = data[b % N]? :=
  List.getElem?_set_ne (window_ne ha ha' hb hb' hne)

theorem TakenSlot.congr {data data' : List (Slot T)} {i : Nat} {c : ConsPc}
    (hdata : c.busy = 1 → data'[i]? = data[i]?) (h : TakenSlot data i c) :
    TakenSlot data' i c := by
  cases c with
  | destroy idx => exact ⟨h.1, (hdata rfl).trans h.2⟩
  | count => exact (hdata rfl).trans h
  | release => exact (hdata rfl).trans h
  | idle => trivial
  | acquire op => trivial
  | take op => trivial

end Steps

/-! ## What a step can do -/

/-- The steps, case by case. -/
inductive Moves : Sys T → Lbl T → Sys T → Prop where
  | callEnqueue {q cons enq con op item} :
    Moves ⟨q, .idle, cons, enq, con⟩ (.callEnqueue op item) ⟨q, .acquire op item, cons, enq, con⟩
  | acquireSlot {q cons enq con op item} (hpos : 0 < q.slots) :
    Moves ⟨q, .acquire op item, cons, enq, con⟩ .acquireSlot
      ⟨{ q with slots := q.slots - 1 }, .write item, cons, enq, con⟩
  | failEnqueue {q cons enq con op item} :
    Moves ⟨q, .acquire op item, cons, enq, con⟩ .failEnqueue ⟨q, .idle, cons, enq, con⟩
  | writeSlot {q cons enq con item} (hdata : q.data ≠ []) :
    Moves ⟨q, .write item, cons, enq, con⟩ .writeSlot
      ⟨q.setSlot item, .count item, cons, enq, con⟩
  | countUp {q cons enq con item} :
    Moves ⟨q, .count item, cons, enq, con⟩ .countUp
      ⟨{ q with itemCount := q.itemCount + 1 }, .release item, cons, enq, con⟩
  | releaseItem {q cons enq con item} :
    Moves ⟨q, .release item, cons, enq, con⟩ .releaseItem
      ⟨{ q with items := q.items + 1 }, .idle, cons, enq ++ [item], con⟩
  | callDequeue {q prod enq con op} :
    Moves ⟨q, prod, .idle, enq, con⟩ (.callDequeue op) ⟨q, prod, .acquire op, enq, con⟩
  | acquireItem {q prod enq con op} (hpos : 0 < q.items) :
    Moves ⟨q, prod, .acquire op, enq, con⟩ .acquireItem
      ⟨{ q with items := q.items - 1 }, prod, .take op, enq, con⟩
  | failDequeue {q prod enq con op} :
    Moves ⟨q, prod, .acquire op, enq, con⟩ .failDequeue ⟨q, prod, .idle, enq, con⟩
  | popItem {q prod enq con} (hdata : q.data ≠ []) :
    Moves ⟨q, prod, .take .tryPop, enq, con⟩ .takeItem
      ⟨q.setFront .raw, prod, .release, enq, con ++ [q.frontItem?]⟩
  | takeItem {q prod enq con op} (hdata : q.data ≠ []) :
    Moves ⟨q, prod, .take op, enq, con⟩ .takeItem
      ⟨q.setFront .moved, prod, .destroy q.itemIdx, enq, con ++ [q.frontItem?]⟩
  | destroyItem {q prod enq con idx} :
    Moves ⟨q, prod, .destroy idx, enq, con⟩ .destroyItem
      ⟨q.destroyElem idx, prod, .count, enq, con⟩
  | countDown {q prod enq con} :
    Moves ⟨q, prod, .count, enq, con⟩ .countDown
      ⟨{ q with itemCount := q.itemCount - 1 }, prod, .release, enq, con⟩
  | releaseSlot {q prod enq con} :
    Moves ⟨q, prod, .release, enq, con⟩ .releaseSlot
      ⟨{ q with slots := q.slots + 1 }, prod, .idle, enq, con⟩

/-- The inversion lemma: a step is one of the moves. -/
theorem step_moves {s s' : Sys T} {l : Lbl T} (h : step s l = some s') : Moves s l s' := by
  rcases s with ⟨q, prod, cons, enq, con⟩
  cases l with
  | acquireSlot | acquireItem =>
    simp only [step] at h
    split at h
    · split at h
      · rename_i hpos
        cases h
        constructor
        exact hpos
      · cases h
    · cases h
  | failEnqueue | failDequeue =>
    simp only [step] at h
    split at h
    · cases h
    · cases h
      constructor
    · cases h
  | writeSlot =>
    simp only [step] at h
    split at h
    · rcases Option.map_eq_some_iff.mp h with ⟨q', hwrite, rfl⟩
      rcases access_eq_some.mp hwrite with ⟨hdata, rfl⟩
      exact .writeSlot hdata
    · cases h
  | takeItem =>
    simp only [step] at h
    split at h
    · rcases Option.map_eq_some_iff.mp h with ⟨q', hpop, rfl⟩
      rcases access_eq_some.mp hpop with ⟨hdata, rfl⟩
      exact .popItem hdata
    · rcases Option.map_eq_some_iff.mp h with ⟨q', hmove, rfl⟩
      rcases access_eq_some.mp hmove with ⟨hdata, rfl⟩
      exact .takeItem hdata
    · cases h
  | callEnqueue | countUp | releaseItem | callDequeue | destroyItem | countDown
  | releaseSlot =>
    simp only [step] at h
    split at h
    · cases h
      constructor
    · cases h

/-! ## The producer's steps -/

section Producer

variable {cap k : Nat} {q : BlkRingQueue T} {cons : ConsPc} {enq : List T}
  {con : List (Option T)} {item : T}

theorem Inv.acquireSlot {op : EnqOp} (h : Inv cap k ⟨q, .acquire op item, cons, enq, con⟩)
    (hpos : 0 < q.slots) :
    Inv cap k ⟨{ q with slots := q.slots - 1 }, .write item, cons, enq, con⟩ :=
  { h with
    slots := by
      have hslots := h.slots
      simp only [Sys.written, ProdPc.inFlight, ProdPc.holds, List.append_nil] at hslots ⊢
      exact (by omega : q.slots - 1 + 1 + enq.length = q.slots + 0 + enq.length).trans hslots }

theorem Inv.setSlot (h : Inv cap k ⟨q, .write item, cons, enq, con⟩) :
    Inv cap k ⟨q.setSlot item, .count item, cons, enq, con⟩ := by
  have hslots := h.slots
  have hitems := h.items
  have hcap := h.cap_le
  have hidx := h.slotIdx
  have hfreed : con.length - cons.busy = Sys.freed ⟨q, .write item, cons, enq, con⟩ := rfl
  simp only [Sys.written, ProdPc.inFlight, ProdPc.holds, List.append_nil] at hslots hitems hidx
  simp only [← hfreed] at hslots
  have hN : 0 < 2 ^ k := Nat.two_pow_pos k
  -- the position written is in the window, after every pending item
  have hW : enq.length < con.length - cons.busy + 2 ^ k := by omega
  have hother : ∀ j, con.length - cons.busy ≤ j → j < con.length - cons.busy + 2 ^ k →
      j ≠ enq.length → (q.setSlot item).data[j % 2 ^ k]? = q.data[j % 2 ^ k]? := by
    intro j hj hj' hne
    simp only [BlkRingQueue.setSlot, hidx]
    exact getElem?_set_window (by omega) hW hj hj' hne.symm _
  refine { h with
    length := by simpa [BlkRingQueue.setSlot] using h.length
    nextSlot := ?_
    slots := ?_
    raw := ?_
    live := ?_
    taken := ?_ }
  · have hnext := h.nextSlot
    simp only [Sys.written, ProdPc.inFlight, List.append_nil] at hnext
    simp only [Sys.written, ProdPc.inFlight, BlkRingQueue.setSlot, List.length_append,
      List.length_singleton, hnext, BitVec.ofNat_add]
    rfl
  · simp only [Sys.written, ProdPc.inFlight, ProdPc.holds, List.length_append,
      List.length_singleton]
    exact (by omega : q.slots + 0 + (enq.length + 1) = cap + (con.length - cons.busy))
  · intro j hj hj'
    simp only [Sys.written, ProdPc.inFlight, List.length_append, List.length_singleton] at hj
    have hj'' : j < con.length - cons.busy + 2 ^ k := hj'
    refine (hother j (by omega) hj'' (by omega)).trans (h.raw j ?_ hj')
    simp only [Sys.written, ProdPc.inFlight, List.append_nil]
    omega
  · -- `x` is an older item, or the one just written, which is the last
    intro j x hj hx
    simp only [Sys.written, ProdPc.inFlight] at hx
    have hj' : con.length ≤ j := hj
    rcases Nat.lt_trichotomy j enq.length with hlt | heq | hgt
    · rw [List.getElem?_append_left hlt] at hx
      refine (hother j (by omega) (by omega) (by omega)).trans (h.live j x hj ?_)
      simpa [Sys.written, ProdPc.inFlight] using hx
    · rw [heq, List.getElem?_append_right (Nat.le_refl _)] at hx
      simp only [Nat.sub_self, List.getElem?_cons_zero, Option.some.injEq] at hx
      rw [heq, ← hx]
      simp only [BlkRingQueue.setSlot, hidx]
      exact getElem?_set_mod h.length hN _ _
    · rw [List.getElem?_eq_none (by simp only [List.length_append, List.length_singleton]; omega)]
        at hx
      cases hx
  · refine h.taken.congr ?_
    intro hbusy
    have hbusy : cons.busy = 1 := hbusy
    have hle : cons.busy ≤ con.length := h.busy_le
    exact hother (con.length - cons.busy) (Nat.le_refl _) (by omega) (by omega)

theorem Inv.releaseItem (h : Inv cap k ⟨q, .release item, cons, enq, con⟩) :
    Inv cap k ⟨{ q with items := q.items + 1 }, .idle, cons, enq ++ [item], con⟩ := by
  have hwritten : Sys.written ⟨q, .release item, cons, enq, con⟩ =
      Sys.written ⟨{ q with items := q.items + 1 }, .idle, cons, enq ++ [item], con⟩ := by
    simp [Sys.written, ProdPc.inFlight]
  have hitems := h.items
  have hcon := h.consumed
  simp only at hitems hcon
  refine { h with
    nextSlot := by rw [← hwritten]; exact h.nextSlot
    slots := by rw [← hwritten]; exact h.slots
    items := ?_
    consumed := ?_
    raw := by rw [← hwritten]; exact h.raw
    live := by rw [← hwritten]; exact h.live }
  · simp only [List.length_append, List.length_singleton]
    omega
  · simp only
    rw [List.take_append_of_le_length (by omega)]
    exact hcon

end Producer

/-! ## The consumer's steps -/

section Consumer

variable {cap k : Nat} {q : BlkRingQueue T} {prod : ProdPc T} {enq : List T}
  {con : List (Option T)}

theorem Inv.acquireItem {op : DeqOp} (h : Inv cap k ⟨q, prod, .acquire op, enq, con⟩)
    (hpos : 0 < q.items) :
    Inv cap k ⟨{ q with items := q.items - 1 }, prod, .take op, enq, con⟩ :=
  { h with
    items := by
      have hitems := h.items
      simp only [ConsPc.holds] at hitems ⊢
      omega }

/-- Taking the oldest item: `v` is what its slot holds afterwards, `c` what the
consumer does next. -/
theorem Inv.takeItem {op : DeqOp} (h : Inv cap k ⟨q, prod, .take op, enq, con⟩)
    {v : Slot T} {c : ConsPc} (hbusy : c.busy = 1) (hholds : c.holds = 0)
    (htaken : ∀ data : List (Slot T), data[q.itemIdx]? = some v → TakenSlot data q.itemIdx c) :
    Inv cap k ⟨q.setFront v, prod, c, enq, con ++ [q.frontItem?]⟩ := by
  rcases h.take_front rfl with ⟨hfront, hlt⟩
  have hslots := h.slots
  have hitems := h.items
  have hcap := h.cap_le
  have hidx := h.itemIdx
  have hle := Inv.enqueued_le_written (⟨q, prod, .take op, enq, con⟩ : Sys T)
  have hN : 0 < 2 ^ k := Nat.two_pow_pos k
  have hfreed : Sys.freed ⟨q, prod, .take op, enq, con⟩ = con.length := rfl
  have hfreed' : Sys.freed ⟨q.setFront v, prod, c, enq, con ++ [q.frontItem?]⟩ =
      con.length := by
    simp [Sys.freed, hbusy]
  have hwritten : Sys.written ⟨q.setFront v, prod, c, enq, con ++ [q.frontItem?]⟩ =
      Sys.written ⟨q, prod, .take op, enq, con⟩ := rfl
  simp only [hfreed, ConsPc.holds] at hslots hitems hidx hfront hlt hle
  -- the position taken is the first of the window
  have hother : ∀ j, con.length ≤ j → j < con.length + 2 ^ k → j ≠ con.length →
      (q.setFront v).data[j % 2 ^ k]? = q.data[j % 2 ^ k]? := by
    intro j hj hj' hne
    simp only [setFront, hidx]
    exact getElem?_set_window (Nat.le_refl _) (by omega) hj hj' hne.symm _
  refine { h with
    length := by simpa [setFront] using h.length
    nextItem := ?_
    busy_le := by simp only [hbusy, List.length_append, List.length_singleton]; omega
    slots := by rw [hfreed', hwritten]; exact hslots
    items := ?_
    consumed := ?_
    raw := ?_
    live := ?_
    taken := ?_ }
  · have hnext := h.nextItem
    simp only at hnext
    simp only [setFront, List.length_append, List.length_singleton, hnext, BitVec.ofNat_add]
    rfl
  · simp only [setFront, hholds, List.length_append, List.length_singleton]
    omega
  · have hcon := h.consumed
    simp only at hcon
    simp only [List.length_append, List.length_singleton]
    rw [List.take_add_one, List.map_append, ← hcon, hfront, List.getElem?_eq_getElem hlt]
    rfl
  · intro j hj hj'
    rw [hfreed'] at hj'
    rw [hwritten] at hj
    exact (hother j (by omega) hj' (by omega)).trans (h.raw j hj (by rw [hfreed]; exact hj'))
  · intro j x hj hx
    rw [hwritten] at hx
    simp only [List.length_append, List.length_singleton] at hj
    have hjW := (List.getElem?_eq_some_iff.mp hx).1
    exact (hother j (by omega) (by omega) (by omega)).trans (h.live j x (by simp only; omega) hx)
  · rw [hfreed', ← hidx]
    refine htaken _ ?_
    simp only [setFront, hidx]
    exact getElem?_set_mod h.length hN _ _

theorem Inv.destroyItem {idx : Nat} (h : Inv cap k ⟨q, prod, .destroy idx, enq, con⟩) :
    Inv cap k ⟨q.destroyElem idx, prod, .count, enq, con⟩ := by
  rcases h.taken with ⟨hidx, _⟩
  have hslots := h.slots
  have hitems := h.items
  have hcap := h.cap_le
  have hbusy : 1 ≤ con.length := h.busy_le
  have hle := Inv.enqueued_le_written (⟨q, prod, .destroy idx, enq, con⟩ : Sys T)
  have hN : 0 < 2 ^ k := Nat.two_pow_pos k
  have hfreed : Sys.freed ⟨q, prod, .destroy idx, enq, con⟩ = con.length - 1 := rfl
  simp only [hfreed, ConsPc.holds] at hslots hitems hidx hle
  -- the element destroyed is the one in front of the pending items
  have hother : ∀ j, con.length ≤ j → j < con.length - 1 + 2 ^ k →
      (q.destroyElem idx).data[j % 2 ^ k]? = q.data[j % 2 ^ k]? := by
    intro j hj hj'
    simp only [destroyElem, hidx]
    exact getElem?_set_window (Nat.le_refl _) (by omega) (by omega) hj' (by omega) _
  refine { h with
    length := by simpa [destroyElem] using h.length
    raw := ?_
    live := ?_
    taken := ?_ }
  · intro j hj hj'
    have hj1 : (Sys.written ⟨q, prod, .destroy idx, enq, con⟩).length ≤ j := hj
    exact (hother j (by omega) hj').trans (h.raw j hj hj')
  · intro j x hj hx
    have hjW := (List.getElem?_eq_some_iff.mp hx).1
    have hjW' : j < (Sys.written ⟨q, prod, .destroy idx, enq, con⟩).length := hjW
    exact (hother j hj (by omega)).trans (h.live j x hj hx)
  · show (q.destroyElem idx).data[(con.length - 1) % 2 ^ k]? = some .raw
    simp only [destroyElem, hidx]
    exact getElem?_set_mod h.length hN _ _

theorem Inv.releaseSlot (h : Inv cap k ⟨q, prod, .release, enq, con⟩) :
    Inv cap k ⟨{ q with slots := q.slots + 1 }, prod, .idle, enq, con⟩ := by
  have hslots := h.slots
  have hbusy : 1 ≤ con.length := h.busy_le
  have hfreed : Sys.freed ⟨q, prod, .release, enq, con⟩ = con.length - 1 := rfl
  have hfreed' : Sys.freed ⟨{ q with slots := q.slots + 1 }, prod, .idle, enq, con⟩ =
      con.length := rfl
  rw [hfreed] at hslots
  refine { h with
    busy_le := Nat.zero_le _
    slots := ?_
    raw := ?_
    taken := trivial }
  · rw [hfreed']
    have hw : Sys.written ⟨{ q with slots := q.slots + 1 }, prod, .idle, enq, con⟩ =
        Sys.written ⟨q, prod, .release, enq, con⟩ := rfl
    rw [hw]
    simp only at hslots ⊢
    omega
  · intro j hj hj'
    rw [hfreed'] at hj'
    rcases Nat.lt_or_ge j (con.length - 1 + 2 ^ k) with hlt | hge
    · exact h.raw j hj hlt
    · -- the slot just released is the one a revolution ahead
      have hj2 : j = con.length - 1 + 2 ^ k := by omega
      rw [hj2, Nat.add_mod_right]
      exact h.taken

end Consumer

/-! ## Every run -/

theorem init_inv {cap : BitVec 64} (h1 : 1 ≤ cap.toNat) (h2 : cap.toNat ≤ 2 ^ 63 - 1) :
    Inv cap.toNat (log cap) (init T cap) where
  mask := maskOf_toNat h1
  log_le := Nat.le_trans (log_le (by omega)) (by omega)
  cap_le := cap_le_pow_log cap
  length := ofCapacity_data_length h1 (by omega)
  nextSlot := rfl
  nextItem := rfl
  busy_le := Nat.le_refl _
  slots := rfl
  items := rfl
  consumed := rfl
  raw := by
    intro j _ hj
    have hlt : j % 2 ^ log cap < (maskOf cap + 1).toNat := by
      have hlen := ofCapacity_data_length (T := T) h1 (by omega)
      simp only [ofCapacity, List.length_replicate] at hlen
      rw [hlen]
      exact Nat.mod_lt _ (Nat.two_pow_pos _)
    exact List.getElem?_replicate_of_lt hlt
  live := by
    intro j x _ hx
    simp [Sys.written, init, ProdPc.inFlight] at hx
  taken := trivial

/-- Every step of either thread keeps the invariant. -/
theorem step_inv {cap k : Nat} (s : Sys T) (l : Lbl T) (s' : Sys T) (h : Inv cap k s)
    (hstep : step s l = some s') : Inv cap k s' := by
  cases step_moves hstep with
  | acquireSlot hpos => exact h.acquireSlot hpos
  | writeSlot => exact h.setSlot
  | releaseItem => exact h.releaseItem
  | acquireItem hpos => exact h.acquireItem hpos
  | popItem => exact h.takeItem rfl rfl fun data hdata => hdata
  | takeItem => exact h.takeItem rfl rfl fun data hdata => ⟨rfl, hdata⟩
  | destroyItem => exact h.destroyItem
  | releaseSlot => exact h.releaseSlot
  | callEnqueue | failEnqueue | countUp | callDequeue | failDequeue | countDown =>
    -- no clause depends on `itemCount`, nor on which of these positions a thread is in
    exact { h with }

theorem run_inv {cap : BitVec 64} (h1 : 1 ≤ cap.toNat) (h2 : cap.toNat ≤ 2 ^ 63 - 1)
    {s : Sys T} {ls : List (Lbl T)} (hrun : (spec T cap).run (init T cap) ls = some s) :
    Inv cap.toNat (log cap) s :=
  (spec T cap).run_invariant (Inv cap.toNat (log cap)) step_inv (init_inv h1 h2) hrun

/-! ## The refinement -/

/-- The FIFO a state stands for: what was announced and is not yet taken. -/
def abs (s : Sys T) : BoundedFifo.Hist T where
  queue := s.enqueued.drop s.consumed.length
  enqueued := s.enqueued
  dequeued := s.enqueued.take s.consumed.length

section Simulation

variable {cap k : Nat} {q : BlkRingQueue T} {enq : List T} {con : List (Option T)}

/-- The announcement of a written item is an abstract enqueue; there is room for it. -/
theorem releaseItem_sim {item : T} {cons : ConsPc} {q' : BlkRingQueue T}
    (h : Inv cap k ⟨q, .release item, cons, enq, con⟩) :
    (BoundedFifo.spec cap T).step (abs ⟨q, .release item, cons, enq, con⟩) (.enq item) =
      some (abs ⟨q', .idle, cons, enq ++ [item], con⟩) := by
  have hslots := h.slots
  have hitems := h.items
  simp only [Sys.written, Sys.freed, ProdPc.inFlight, List.length_append,
    List.length_singleton] at hslots hitems
  have hroom : (enq.drop con.length).length < cap := by
    rw [List.length_drop]
    omega
  have hdrop : (enq ++ [item]).drop con.length = enq.drop con.length ++ [item] :=
    List.drop_append_of_le_length (by omega)
  have htake : (enq ++ [item]).take con.length = enq.take con.length :=
    List.take_append_of_le_length (by omega)
  simp only [BoundedFifo.spec, abs, hroom, if_true, hdrop, htake]

/-- A take is an abstract dequeue of the oldest item. -/
theorem takeItem_sim {op : DeqOp} {prod : ProdPc T} {q' : BlkRingQueue T} {c : ConsPc}
    (h : Inv cap k ⟨q, prod, .take op, enq, con⟩) :
    (BoundedFifo.spec cap T).step (abs ⟨q, prod, .take op, enq, con⟩) .deq =
      some (abs ⟨q', prod, c, enq, con ++ [q.frontItem?]⟩) := by
  rcases h.take_front rfl with ⟨_, hlt⟩
  simp only at hlt
  have hqueue : enq.drop con.length = enq[con.length] :: enq.drop (con.length + 1) :=
    List.drop_eq_getElem_cons hlt
  have htake : enq.take (con.length + 1) = enq.take con.length ++ [enq[con.length]] := by
    rw [List.take_add_one, List.getElem?_eq_getElem hlt]
    rfl
  simp only [BoundedFifo.spec, abs, hqueue, List.length_append, List.length_singleton, htake]

/-- Every step is an abstract enqueue, an abstract dequeue, or invisible. -/
theorem step_sim (s : Sys T) (l : Lbl T) (s' : Sys T) (h : Inv cap k s)
    (hstep : step s l = some s') :
    ∃ ms, (BoundedFifo.spec cap T).run (abs s) ms = some (abs s') := by
  cases step_moves hstep with
  | releaseItem =>
    -- an enqueue takes effect when the item is announced
    exact ⟨[.enq _], ActionSystem.Spec.run_cons_of_step _ (releaseItem_sim h) []⟩
  | popItem | takeItem =>
    -- a dequeue takes effect when the item is taken
    exact ⟨[.deq], ActionSystem.Spec.run_cons_of_step _ (takeItem_sim h) []⟩
  | _ => exact ⟨[], rfl⟩

end Simulation

/-- The steps of an operation that returns `false` change neither the queue nor the
history. -/
theorem failing_step {s s' : Sys T} {l : Lbl T} (hl : l.IsFailing) (hstep : step s l = some s') :
    s'.q = s.q ∧ s'.enqueued = s.enqueued ∧ s'.consumed = s.consumed := by
  cases step_moves hstep with
  | callEnqueue | failEnqueue | callDequeue | failDequeue => exact ⟨rfl, rfl, rfl⟩
  | _ => exact hl.elim

/-- `BlkRingQueue` refines the bounded FIFO of its capacity, over every interleaving of
the producer's and the consumer's steps: the run is a run of the FIFO with the same
history; what was consumed is a prefix of what was enqueued; at most `cap` items are
pending; a slot is written only when it holds no item, not even one that is moved out
but not destroyed; and an operation that returns `false` changes nothing. Runs have any
length, and the counters are the numbers of writes and takes modulo `2^64`. -/
theorem refines_bounded_fifo (cap : BitVec 64) (h1 : 1 ≤ cap.toNat)
    (h2 : cap.toNat ≤ 2 ^ 63 - 1) (ls : List (Lbl T)) (s : Sys T)
    (hrun : (spec T cap).run (init T cap) ls = some s) :
    (∃ ms h, (BoundedFifo.spec cap.toNat T).run ⟨[], [], []⟩ ms = some h ∧
      h.enqueued = s.enqueued ∧ h.dequeued.map some = s.consumed) ∧
    s.consumed <+: s.enqueued.map some ∧
    s.enqueued.length ≤ s.consumed.length + cap.toNat ∧
    s.q.nextSlot = BitVec.ofNat 64 s.written.length ∧
    s.q.nextItem = BitVec.ofNat 64 s.consumed.length ∧
    (∀ item, s.prod = .write item → s.q.data[s.q.slotIdx]? = some .raw) ∧
    (∀ l s', l.IsFailing → step s l = some s' →
      s'.q = s.q ∧ s'.enqueued = s.enqueued ∧ s'.consumed = s.consumed) := by
  have hinv := run_inv h1 h2 hrun
  obtain ⟨ms, hms⟩ := (spec T cap).refines_run (BoundedFifo.spec cap.toNat T) abs
    (Inv cap.toNat (log cap)) step_inv step_sim (init_inv h1 h2) hrun
  have hfifo : BoundedFifo.Inv cap.toNat (abs s) :=
    BoundedFifo.spec_run_inv ⟨rfl, Nat.zero_le _⟩ hms
  have hcon : (abs s).dequeued.map some = s.consumed := hinv.consumed.symm
  refine ⟨⟨ms, abs s, hms, rfl, hcon⟩, ?_, ?_, hinv.nextSlot, hinv.nextItem, ?_, ?_⟩
  · rw [← hcon]
    exact hfifo.fifo.map some
  · rw [← hcon, List.length_map]
    exact hfifo.pending_le
  · intro item hp
    exact hinv.write_slot_raw hp
  · intro l s' hl hstep
    exact failing_step hl hstep

/-- Three slots: an item goes in, with a failed dequeue before it is announced, and is
popped; then the producer is about to write the next one. -/
theorem refines_bounded_fifo_three :
    ∃ s, (spec Nat 3).run (init Nat 3)
        [.callEnqueue .tryEnqueue 7, .acquireSlot, .writeSlot, .callDequeue .tryDequeue,
          .failDequeue, .countUp, .releaseItem, .callDequeue .tryPop, .acquireItem, .takeItem,
          .callEnqueue .waitEnqueue 8, .acquireSlot] = some s ∧
      s.enqueued = [7] ∧ s.consumed = [some 7] ∧ s.prod = .write 8 ∧
      s.consumed <+: s.enqueued.map some ∧ s.enqueued.length ≤ s.consumed.length + 3 ∧
      s.q.nextSlot = BitVec.ofNat 64 s.written.length ∧
      s.q.data[s.q.slotIdx]? = some .raw := by
  have h := @refines_bounded_fifo Nat 3 (by decide) (by decide)
    [.callEnqueue .tryEnqueue 7, .acquireSlot, .writeSlot, .callDequeue .tryDequeue,
      .failDequeue, .countUp, .releaseItem, .callDequeue .tryPop, .acquireItem, .takeItem,
      .callEnqueue .waitEnqueue 8, .acquireSlot] _ rfl
  rcases h with ⟨-, hprefix, hle, hnext, -, hraw, -⟩
  exact ⟨_, rfl, rfl, rfl, rfl, hprefix, hle, hnext, hraw 8 rfl⟩

/-! ## Whole calls

A call made while no other is under way is the run of its steps. -/

section Calls

variable {q q' : BlkRingQueue T}

theorem tryEnqueue_of_pos (hpos : 0 < q.slots) (hdata : q.data ≠ []) (x : T) :
    q.tryEnqueue x = some (true, { q with
      data := q.data.set q.slotIdx (.live x)
      slots := q.slots - 1
      items := q.items + 1
      itemCount := q.itemCount + 1
      nextSlot := q.nextSlot + 1 }) := by
  simp [tryEnqueue, hpos, enqueueImpl, writeSlot, access, hdata, setSlot, slotIdx]

theorem tryEnqueue_of_zero (hzero : q.slots = 0) (x : T) : q.tryEnqueue x = some (false, q) := by
  simp [tryEnqueue, hzero]

theorem tryDequeue_of_pos (hpos : 0 < q.items) (hdata : q.data ≠ []) :
    q.tryDequeue = some (true, q.frontItem?, { q with
      data := (q.data.set q.itemIdx .moved).set q.itemIdx .raw
      slots := q.slots + 1
      items := q.items - 1
      itemCount := q.itemCount - 1
      nextItem := q.nextItem + 1 }) := by
  simp [tryDequeue, hpos, dequeueImpl, moveItem, access, hdata, setFront, destroyElem,
    frontItem?, itemIdx]

theorem tryDequeue_of_zero (hzero : q.items = 0) : q.tryDequeue = some (false, none, q) := by
  simp [tryDequeue, hzero]

theorem tryEnqueue_run (cap : BitVec 64) (enq : List T) (con : List (Option T)) (x : T)
    (hpos : 0 < q.slots) (hdata : q.data ≠ []) (hcall : q.tryEnqueue x = some (true, q')) :
    (spec T cap).run ⟨q, .idle, .idle, enq, con⟩
        [.callEnqueue .tryEnqueue x, .acquireSlot, .writeSlot, .countUp, .releaseItem] =
      some ⟨q', .idle, .idle, enq ++ [x], con⟩ := by
  rw [tryEnqueue_of_pos hpos hdata] at hcall
  cases hcall
  simp [ActionSystem.Spec.run, spec, step, hpos, writeSlot, access, hdata, setSlot, slotIdx]

theorem tryDequeue_run (cap : BitVec 64) (enq : List T) (con : List (Option T))
    (hpos : 0 < q.items) (hdata : q.data ≠ []) {item : Option T}
    (hcall : q.tryDequeue = some (true, item, q')) :
    (spec T cap).run ⟨q, .idle, .idle, enq, con⟩ [.callDequeue .tryDequeue, .acquireItem,
        .takeItem, .destroyItem, .countDown, .releaseSlot] =
      some ⟨q', .idle, .idle, enq, con ++ [item]⟩ := by
  rw [tryDequeue_of_pos hpos hdata] at hcall
  cases hcall
  simp [ActionSystem.Spec.run, spec, step, hpos, moveItem, access, hdata, setFront,
    destroyElem, frontItem?, itemIdx]

/-- What an idle queue says about its semaphores. -/
theorem Inv.idle {cap k : Nat} {enq : List T} {con : List (Option T)}
    (h : Inv cap k ⟨q, .idle, .idle, enq, con⟩) :
    q.items = (enq.drop con.length).length ∧ q.slots + (enq.drop con.length).length = cap := by
  have hitems := h.items
  have hslots := h.slots
  simp only [ConsPc.holds, ProdPc.holds, Sys.written, Sys.freed, ProdPc.inFlight, ConsPc.busy,
    List.append_nil] at hitems hslots
  rw [List.length_drop]
  omega

end Calls

/-! ## Queues with `data`

A queue that was constructed with a capacity has `data` for good, so no call on it can
crash. -/

/-- A queue with `data`. -/
structure Allocated (T : Type) extends BlkRingQueue T where
  allocated : data ≠ []

theorem tryEnqueue_isSome {q : BlkRingQueue T} (hdata : q.data ≠ []) (x : T) :
    (q.tryEnqueue x).isSome ∧ ∀ r ∈ q.tryEnqueue x, r.2.data ≠ [] := by
  rcases Nat.eq_zero_or_pos q.slots with hzero | hpos
  · simp [tryEnqueue_of_zero hzero, hdata]
  · simp [tryEnqueue_of_pos hpos hdata, hdata]

theorem tryDequeue_isSome {q : BlkRingQueue T} (hdata : q.data ≠ []) :
    q.tryDequeue.isSome ∧ ∀ r ∈ q.tryDequeue, r.2.2.data ≠ [] := by
  rcases Nat.eq_zero_or_pos q.items with hzero | hpos
  · simp [tryDequeue_of_zero hzero, hdata]
  · simp [tryDequeue_of_pos hpos hdata, hdata]

namespace Allocated

/-- `BlkRingQueue(std::size_t cap)`, when it allocates something. -/
def ofCapacity (T : Type) (cap : BitVec 64) (h : maskOf cap + 1 ≠ 0) : Allocated T where
  toBlkRingQueue := .ofCapacity T cap
  allocated := by
    intro hnil
    have hlen := congrArg List.length hnil
    rw [BlkRingQueue.ofCapacity, List.length_replicate] at hlen
    exact h (BitVec.eq_of_toNat_eq hlen)

theorem one_allocates : maskOf 1 + 1 ≠ 0 := by
  decide

def tryEnqueue (q : Allocated T) (item : T) : Bool × Allocated T :=
  let spec := tryEnqueue_isSome q.allocated item
  let r := (q.toBlkRingQueue.tryEnqueue item).get spec.1
  (r.1, ⟨r.2, spec.2 r (Option.get_mem _)⟩)

def tryDequeue (q : Allocated T) : Bool × Option T × Allocated T :=
  let spec := tryDequeue_isSome q.allocated
  let r := q.toBlkRingQueue.tryDequeue.get spec.1
  (r.1, r.2.1, ⟨r.2.2, spec.2 r (Option.get_mem _)⟩)

section Spec

variable {q : Allocated T}

theorem tryEnqueue_eq (q : Allocated T) (x : T) : q.toBlkRingQueue.tryEnqueue x =
    some ((q.tryEnqueue x).1, (q.tryEnqueue x).2.toBlkRingQueue) :=
  (Option.some_get _).symm

theorem tryDequeue_eq (q : Allocated T) : q.toBlkRingQueue.tryDequeue =
    some (q.tryDequeue.1, q.tryDequeue.2.1, q.tryDequeue.2.2.toBlkRingQueue) :=
  (Option.some_get _).symm

theorem tryEnqueue_fst (q : Allocated T) (x : T) :
    (q.tryEnqueue x).1 = decide (0 < q.slots) := by
  rcases Nat.eq_zero_or_pos q.slots with hzero | hpos
  · simp [tryEnqueue, tryEnqueue_of_zero hzero, hzero]
  · simp [tryEnqueue, tryEnqueue_of_pos hpos q.allocated, hpos]

/-- A queue without a free slot refuses the item. -/
theorem tryEnqueue_refused {x : T} (h : (q.tryEnqueue x).1 = false) :
    q.tryEnqueue x = (false, q) := by
  have hzero : q.slots = 0 := by
    rw [tryEnqueue_fst, decide_eq_false_iff_not] at h
    omega
  simp [tryEnqueue, tryEnqueue_of_zero hzero]

end Spec

end Allocated

/-- The queue holds `xs`, oldest first, and no call is under way. -/
def Holds (cap : Nat) (q : Allocated T) (xs : List T) : Prop :=
  ∃ k enq con, Inv cap k ⟨q.toBlkRingQueue, .idle, .idle, enq, con⟩ ∧ enq.drop con.length = xs

section Holds

variable {cap : Nat} {q : Allocated T} {xs : List T}

theorem holds_init {cap : BitVec 64} (h1 : 1 ≤ cap.toNat) (h2 : cap.toNat ≤ 2 ^ 63 - 1)
    (h : maskOf cap + 1 ≠ 0) : Holds cap.toNat (.ofCapacity T cap h) [] :=
  ⟨log cap, [], [], init_inv h1 h2, rfl⟩

theorem Holds.length_le (h : Holds cap q xs) : xs.length ≤ cap := by
  rcases h with ⟨k, enq, con, hinv, rfl⟩
  have hslots := hinv.idle.2
  omega

/-- A queue that is full refuses the item. -/
theorem Holds.full (h : Holds cap q xs) (hlen : xs.length = cap) (x : T) :
    q.tryEnqueue x = (false, q) := by
  rcases h with ⟨k, enq, con, hinv, rfl⟩
  have hslots := hinv.idle.2
  apply Allocated.tryEnqueue_refused
  rw [Allocated.tryEnqueue_fst, decide_eq_false_iff_not]
  omega

/-- A queue with room takes it. -/
theorem Holds.enqueue (h : Holds cap q xs) (hlen : xs.length < cap) (x : T) :
    (q.tryEnqueue x).1 = true ∧ Holds cap (q.tryEnqueue x).2 (xs ++ [x]) := by
  rcases h with ⟨k, enq, con, hinv, rfl⟩
  have hslots := hinv.idle.2
  have hpos : 0 < q.slots := by omega
  have hle : con.length ≤ enq.length := by
    have hitems := hinv.items
    simp only [ConsPc.holds] at hitems
    omega
  have hok : (q.tryEnqueue x).1 = true := by
    rw [Allocated.tryEnqueue_fst, decide_eq_true hpos]
  have hcall := q.tryEnqueue_eq x
  rw [hok] at hcall
  refine ⟨hok, k, enq ++ [x], con, ?_, List.drop_append_of_le_length hle⟩
  exact (spec T (BitVec.ofNat 64 cap)).run_invariant (Inv cap k) step_inv hinv
    (tryEnqueue_run _ enq con x hpos q.allocated hcall)

/-- An empty queue has nothing to give. -/
theorem Holds.empty (h : Holds cap q []) : q.tryDequeue = (false, none, q) := by
  rcases h with ⟨k, enq, con, hinv, hdrop⟩
  have hitems := hinv.idle.1
  rw [hdrop] at hitems
  simp [Allocated.tryDequeue, tryDequeue_of_zero hitems]

/-- Another one gives its oldest item. -/
theorem Holds.dequeue {x : T} (h : Holds cap q (x :: xs)) :
    q.tryDequeue.1 = true ∧ q.tryDequeue.2.1 = some x ∧ Holds cap q.tryDequeue.2.2 xs := by
  rcases h with ⟨k, enq, con, hinv, hdrop⟩
  have hitems := hinv.idle.1
  rw [hdrop, List.length_cons] at hitems
  have hpos : 0 < q.items := by omega
  have hok : q.tryDequeue.1 = true := by
    simp [Allocated.tryDequeue, tryDequeue_of_pos hpos q.allocated]
  have hcall := q.tryDequeue_eq
  rw [hok] at hcall
  have hinv' := (spec T (BitVec.ofNat 64 cap)).run_invariant (Inv cap k) step_inv hinv
    (tryDequeue_run _ enq con hpos q.allocated hcall)
  have hget : enq[con.length]? = some x := by
    have hhead := congrArg List.head? hdrop
    rwa [List.head?_drop, List.head?_cons] at hhead
  refine ⟨hok, ?_, k, enq, _, hinv', ?_⟩
  · have hcon := congrArg (·[con.length]?) hinv'.consumed
    simpa [List.getElem?_take, hget] using hcon
  · rw [List.length_append, List.length_singleton, ← List.drop_drop, hdrop]
    rfl

end Holds

end ClapRci.BlkRingQueue
