import Mathlib.Tactic.Common
import ClapRci.Core.BlkRingQueue

/-!
# The mask of `BlkRingQueue`

The constructor's cascade rounds the capacity up to a power of two. The array has that
many elements and the mask is one less, so the index functions find different elements
for counters less than the capacity apart, wherever the counters wrap.
-/

namespace ClapRci.BlkRingQueue

variable {T : Type}

/-! ## The cascade -/

theorem maskOf_smeared (cap : BitVec 64) : RingIndex.Smeared (cap - 1) (maskOf cap) 64 :=
  (RingIndex.smeared_self (cap - 1)).double.double.double.double.double.double

/-- The constructor's mask, as a number. -/
theorem maskOf_toNat {cap : BitVec 64} (h : 1 ≤ cap.toNat) :
    (maskOf cap).toNat = 2 ^ (cap.toNat - 1).size - 1 := by
  have hle : (1 : BitVec 64) ≤ cap := h
  have h1 : (cap - 1).toNat = cap.toNat - 1 := by
    rw [BitVec.toNat_sub_of_le hle]
    rfl
  rw [(maskOf_smeared cap).toNat (Nat.le_refl 64), h1]

/-- The exponent of the rounded-up capacity. -/
abbrev log (cap : BitVec 64) : Nat := (cap.toNat - 1).size

theorem cap_le_pow_log (cap : BitVec 64) : cap.toNat ≤ 2 ^ log cap :=
  RingIndex.le_two_pow_size cap.toNat

theorem log_le {cap : BitVec 64} (h : cap.toNat ≤ 2 ^ 63) : log cap ≤ 63 :=
  Nat.size_le.mpr (by omega)

theorem mask_add_one {cap : BitVec 64} (h : 1 ≤ cap.toNat) :
    (ofCapacity T cap).mask.toNat + 1 = 2 ^ log cap := by
  show (maskOf cap).toNat + 1 = 2 ^ log cap
  rw [maskOf_toNat h]
  exact Nat.sub_add_cancel (Nat.two_pow_pos _)

/-! ## The array -/

/-- Up to `2 ^ 63` the array's size `mask + 1` does not overflow. -/
theorem ofCapacity_data_length {cap : BitVec 64} (h1 : 1 ≤ cap.toNat)
    (h2 : cap.toNat ≤ 2 ^ 63) : (ofCapacity T cap).data.length = 2 ^ log cap := by
  have hmask := mask_add_one (T := T) h1
  have hpow : 2 ^ log cap ≤ 2 ^ 63 := Nat.pow_le_pow_right (by omega) (log_le h2)
  have hone : (1 : BitVec 64).toNat = 1 := rfl
  show (List.replicate ((ofCapacity T cap).mask + 1).toNat Slot.raw).length = 2 ^ log cap
  rw [List.length_replicate, BitVec.toNat_add, hone, hmask]
  exact Nat.mod_eq_of_lt (by omega)

/-- `i` and `j` are two different elements of `data`. -/
def DistinctSlots (q : BlkRingQueue T) (i j : Nat) : Prop :=
  i ≠ j ∧ i < q.data.length ∧ j < q.data.length

theorem DistinctSlots.symm {q : BlkRingQueue T} {i j : Nat} (h : q.DistinctSlots i j) :
    q.DistinctSlots j i :=
  ⟨Ne.symm h.1, h.2.2, h.2.1⟩

theorem distinctSlots_of_lt {cap : BitVec 64} (h1 : 1 ≤ cap.toNat) (h2 : cap.toNat ≤ 2 ^ 63)
    {a b : BitVec 64} (hne : b - a ≠ 0) (hlt : (b - a).toNat < cap.toNat) :
    (ofCapacity T cap).DistinctSlots (a &&& (ofCapacity T cap).mask).toNat
      (b &&& (ofCapacity T cap).mask).toNat := by
  have hmask : (ofCapacity T cap).mask.toNat = 2 ^ log cap - 1 := maskOf_toNat h1
  have hlog : log cap ≤ 64 := Nat.le_trans (log_le h2) (by omega)
  have hdist : (b - a).toNat < 2 ^ log cap := Nat.lt_of_lt_of_le hlt (cap_le_pow_log cap)
  have hidx : ∀ c : BitVec 64,
      (c &&& (ofCapacity T cap).mask).toNat < (ofCapacity T cap).data.length := by
    intro c
    rw [ofCapacity_data_length h1 h2]
    exact RingIndex.and_mask_lt hmask c
  exact ⟨RingIndex.and_mask_ne hmask hlog hne hdist, hidx a, hidx b⟩

/-- The mask is one less than the capacity rounded up, the array has the rounded-up
size, and counters less than the capacity apart index different elements of it. -/
theorem mask_separates_counters {cap : BitVec 64} (h1 : 1 ≤ cap.toNat)
    (h2 : cap.toNat ≤ 2 ^ 63) :
    IsLeast {n | (∃ k, n = 2 ^ k) ∧ cap.toNat ≤ n} ((ofCapacity T cap).mask.toNat + 1) ∧
    (ofCapacity T cap).data.length = (ofCapacity T cap).mask.toNat + 1 ∧
    (∀ a b : BitVec 64, b - a ≠ 0 → (b - a).toNat < cap.toNat →
      (ofCapacity T cap).DistinctSlots (a &&& (ofCapacity T cap).mask).toNat
        (b &&& (ofCapacity T cap).mask).toNat) ∧
    (∀ p : BlkRingQueue T, p.mask = (ofCapacity T cap).mask →
      p.nextSlot - p.nextItem ≠ 0 → (p.nextSlot - p.nextItem).toNat < cap.toNat →
      (ofCapacity T cap).DistinctSlots p.slotIdx p.itemIdx) := by
  refine ⟨?_, ?_, fun a b => distinctSlots_of_lt h1 h2, ?_⟩
  · rw [mask_add_one h1]
    exact RingIndex.isLeast_two_pow_size h1
  · rw [ofCapacity_data_length h1 h2, mask_add_one h1]
  · intro p hp hne hlt
    have h := distinctSlots_of_lt (T := T) h1 h2 hne hlt
    rw [← hp] at h
    exact h.symm

/-- The slot counter has wrapped and the item counter has not. -/
theorem mask_separates_counters_wrapped :
    ((ofCapacity Nat 3).mask.toNat + 1 = 4 ∧ (ofCapacity Nat 3).data.length = 4) ∧
    (ofCapacity Nat 3).DistinctSlots
      ((0xffffffffffffffff : BitVec 64) &&& (ofCapacity Nat 3).mask).toNat
      ((1 : BitVec 64) &&& (ofCapacity Nat 3).mask).toNat :=
  ⟨by decide, (@mask_separates_counters Nat 3 (by decide) (by decide)).2.2.1
    0xffffffffffffffff 1 (by decide) (by decide)⟩

end ClapRci.BlkRingQueue
