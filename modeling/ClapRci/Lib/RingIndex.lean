import Mathlib.Algebra.Group.Nat.Defs
import Mathlib.Data.Nat.Size
import Mathlib.Order.Bounds.Defs
import Mathlib.Tactic.Common

/-!
# Masked ring indices over wrapping counters

A ring buffer that keeps free-running machine counters and finds a slot by masking
them. Two facts make it work: smearing the highest bit of a number to the right gives
a mask of the form `2 ^ k - 1`, and masking a wrapping counter is the remainder of the
unbounded count by `2 ^ k`, however often the counter has wrapped. So counters less
than `2 ^ k` apart never share a slot.
-/

namespace RingIndex

variable {w : Nat}

/-! ## Smearing bits to the right -/

/-- Bit `i` of `y` is set when one of the `n` bits of `x` from `i` upwards is. -/
def Smeared (x y : BitVec w) (n : Nat) : Prop :=
  ∀ i, y.getLsbD i = true ↔ ∃ j, i ≤ j ∧ j < i + n ∧ x.getLsbD j = true

theorem smeared_self (x : BitVec w) : Smeared x x 1 := by
  intro i
  constructor
  · intro h
    exact ⟨i, Nat.le_refl i, by omega, h⟩
  · rintro ⟨j, hij, hj, hbit⟩
    have : j = i := by omega
    rwa [this] at hbit

/-- Or-ing in a right shift by the width smeared so far doubles that width. -/
theorem Smeared.double {x y : BitVec w} {n : Nat} (h : Smeared x y n) :
    Smeared x (y ||| y >>> n) (2 * n) := by
  intro i
  rw [BitVec.getLsbD_or, BitVec.getLsbD_ushiftRight, Bool.or_eq_true, h i, h (n + i)]
  constructor
  · rintro (⟨j, hij, hj, hbit⟩ | ⟨j, hij, hj, hbit⟩)
    · exact ⟨j, hij, by omega, hbit⟩
    · exact ⟨j, by omega, by omega, hbit⟩
  · rintro ⟨j, hij, hj, hbit⟩
    rcases Nat.lt_or_ge j (i + n) with hlt | hge
    · exact Or.inl ⟨j, hij, hlt, hbit⟩
    · exact Or.inr ⟨j, by omega, by omega, hbit⟩

/-- Smeared over the whole width, only the highest bit counts. -/
theorem Smeared.toNat {x y : BitVec w} {n : Nat} (h : Smeared x y n) (hn : w ≤ n) :
    y.toNat = 2 ^ x.toNat.size - 1 := by
  apply Nat.eq_of_testBit_eq
  intro i
  rw [Nat.testBit_two_pow_sub_one, BitVec.testBit_toNat, Bool.eq_iff_iff, h i,
    decide_eq_true_eq, Nat.lt_size]
  constructor
  · -- a bit at or above `i` makes the number at least `2 ^ i`
    rintro ⟨j, hij, _, hbit⟩
    rw [← BitVec.testBit_toNat] at hbit
    calc 2 ^ i ≤ 2 ^ j := Nat.pow_le_pow_right (by omega) hij
      _ ≤ x.toNat := Nat.ge_two_pow_of_testBit hbit
  · intro hle
    rcases Nat.exists_ge_and_testBit_of_ge_two_pow hle with ⟨j, hij, hbit⟩
    rw [BitVec.testBit_toNat] at hbit
    have hjw : j < w := BitVec.lt_of_getLsbD hbit
    exact ⟨j, hij, by omega, hbit⟩

/-! ## The least power of two -/

theorem le_two_pow_size (n : Nat) : n ≤ 2 ^ (n - 1).size := by
  have := Nat.lt_size_self (n - 1)
  omega

/-- One more than the smeared predecessor of `n` is `n` rounded up to a power of two. -/
theorem isLeast_two_pow_size {n : Nat} (hn : 1 ≤ n) :
    IsLeast {m | (∃ k, m = 2 ^ k) ∧ n ≤ m} (2 ^ (n - 1).size) := by
  refine ⟨⟨⟨(n - 1).size, rfl⟩, le_two_pow_size n⟩, ?_⟩
  rintro m ⟨⟨k, rfl⟩, hle⟩
  have hsize : (n - 1).size ≤ k := Nat.size_le.mpr (by omega)
  exact Nat.pow_le_pow_right (by omega) hsize

/-! ## Masked counters -/

/-- Masking is the remainder by the number of slots. -/
theorem and_mask {mask : BitVec w} {k : Nat} (hmask : mask.toNat = 2 ^ k - 1)
    (a : BitVec w) : (a &&& mask).toNat = a.toNat % 2 ^ k := by
  rw [BitVec.toNat_and, hmask, Nat.and_two_pow_sub_one_eq_mod]

/-- Masking a wrapping counter is the remainder of the count it stands for. -/
theorem ofNat_and_mask {mask : BitVec w} {k : Nat} (hmask : mask.toNat = 2 ^ k - 1)
    (hk : k ≤ w) (n : Nat) : (BitVec.ofNat w n &&& mask).toNat = n % 2 ^ k := by
  rw [and_mask hmask, BitVec.toNat_ofNat]
  exact Nat.mod_mod_of_dvd n (Nat.pow_dvd_pow 2 hk)

/-- Two positions less than a revolution apart are in different slots. -/
theorem mod_ne_of_lt {a b N : Nat} (hab : a < b) (hb : b < a + N) : a % N ≠ b % N := by
  intro h
  have hdvd : N ∣ b - a := Nat.dvd_of_mod_eq_zero (Nat.sub_mod_eq_zero_of_mod_eq h.symm)
  have := Nat.le_of_dvd (by omega) hdvd
  omega

/-- A masked counter is a position in the ring. -/
theorem and_mask_lt {mask : BitVec w} {k : Nat} (hmask : mask.toNat = 2 ^ k - 1)
    (a : BitVec w) : (a &&& mask).toNat < 2 ^ k := by
  rw [and_mask hmask]
  exact Nat.mod_lt _ (Nat.two_pow_pos k)

/-- Two counters less than a revolution apart mask to different slots, also when `b`
has wrapped and `a` has not. -/
theorem and_mask_ne {mask : BitVec w} {k : Nat} (hmask : mask.toNat = 2 ^ k - 1)
    (hk : k ≤ w) {a b : BitVec w} (hne : b - a ≠ 0) (hlt : (b - a).toNat < 2 ^ k) :
    (a &&& mask).toNat ≠ (b &&& mask).toNat := by
  -- the count `b` stands for, with the wrap undone
  have hb : BitVec.ofNat w (a.toNat + (b - a).toNat) = b := by
    rw [BitVec.ofNat_add, BitVec.ofNat_toNat, BitVec.ofNat_toNat, BitVec.setWidth_eq,
      BitVec.setWidth_eq, BitVec.add_comm, BitVec.sub_add_cancel]
  have hslot : (b &&& mask).toNat = (a.toNat + (b - a).toNat) % 2 ^ k := by
    rw [← ofNat_and_mask hmask hk, hb]
  have hpos : 0 < (b - a).toNat :=
    Nat.pos_of_ne_zero (fun h => hne (BitVec.eq_of_toNat_eq h))
  rw [and_mask hmask, hslot]
  exact mod_ne_of_lt (Nat.lt_add_of_pos_right hpos) (Nat.add_lt_add_left hlt _)

end RingIndex
