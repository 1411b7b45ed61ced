import Mathlib.Data.List.Basic

/-!
# Hashes of addresses (`core/global.h`)

`toHash` names plugin instances and completion-queue tags by their address. It is a
composition of invertible steps, so different addresses have different hashes and only
the null pointer hashes to `0`.
-/

namespace ClapRci

/-! ## Invertible mixing steps -/

section Mixing

variable {w : Nat}

/-- `h ^= h >> k`. -/
def xorShift (k : Nat) (h : BitVec w) : BitVec w := h ^^^ h >>> k

/-- A shift by at least half the width undoes itself. -/
theorem xorShift_xorShift {k : Nat} (hk : w ≤ k + k) (h : BitVec w) :
    xorShift k (xorShift k h) = h := by
  have hzero : h >>> k >>> k = 0#w := by
    rw [← BitVec.shiftRight_add]
    exact BitVec.ushiftRight_eq_zero hk
  simp only [xorShift, BitVec.ushiftRight_xor_distrib, hzero, BitVec.xor_zero]
  rw [BitVec.xor_assoc, BitVec.xor_self, BitVec.xor_zero]

theorem xorShift_injective {k : Nat} (hk : w ≤ k + k) :
    Function.Injective (xorShift k : BitVec w → BitVec w) :=
  Function.LeftInverse.injective (xorShift_xorShift hk)

/-- Multiplication by an invertible constant loses nothing. -/
theorem mul_injective {c d : BitVec w} (hcd : c * d = 1#w) :
    Function.Injective fun h : BitVec w => h * c := by
  refine Function.LeftInverse.injective (g := fun h => h * d) ?_
  intro h
  show h * c * d = h
  rw [BitVec.mul_assoc, hcd, BitVec.mul_one]

end Mixing

/-! ## The hash -/

/-- `toHash(void *ptr)`: the finaliser of MurmurHash3. -/
def toHash (ptr : BitVec 64) : BitVec 64 :=
  let h := ptr
  let h := h ^^^ h >>> 33
  let h := h * 0xff51afd7ed558ccd#64
  let h := h ^^^ h >>> 33
  let h := h * 0xc4ceb9fe1a85ec53#64
  h ^^^ h >>> 33

theorem toHash_injective : Function.Injective toHash := by
  have hshift : Function.Injective (xorShift 33 : BitVec 64 → BitVec 64) :=
    xorShift_injective (by decide)
  -- both factors are odd; next to each is its inverse modulo `2 ^ 64`
  have hmul1 := mul_injective (c := 0xff51afd7ed558ccd#64) (d := 0x4f74430c22a54005#64)
    (by decide)
  have hmul2 := mul_injective (c := 0xc4ceb9fe1a85ec53#64) (d := 0x9cb4b2f8129337db#64)
    (by decide)
  exact hshift.comp (hmul2.comp (hshift.comp (hmul1.comp hshift)))

theorem toHash_zero : toHash 0 = 0 := by decide

/-- Only the null pointer has hash `0`, which `removePlugin` takes for no plugin. -/
theorem toHash_eq_zero_iff {ptr : BitVec 64} : toHash ptr = 0 ↔ ptr = 0 := by
  constructor
  · intro h
    exact toHash_injective (h.trans toHash_zero.symm)
  · rintro rfl
    exact toHash_zero

end ClapRci
