import Mathlib.Data.Int.ModEq
import Mathlib.Tactic.Common
import Mathlib.Tactic.Linarith
import Mathlib.Tactic.LinearCombination
import Mathlib.Tactic.Ring

/-!
# Numbers of two digits with a radix

A number kept in two parts, `hi * R + lo`. The lower part is normal when it lies below the
radix; on normal numbers the order of the parts, higher part first, is the order of the
values, and any lower part can be made normal by a carry or a borrow.
-/

namespace MixedRadix

variable {R hi lo hi' lo' : ℤ}

/-- The number the two parts stand for. -/
def value (R hi lo : ℤ) : ℤ := hi * R + lo

/-- The lower part is a digit. -/
def Normal (R lo : ℤ) : Prop := 0 ≤ lo ∧ lo < R

/-! ## Order -/

theorem value_lt_of_hi_lt (h : Normal R lo) (h' : Normal R lo') (hlt : hi < hi') :
    value R hi lo < value R hi' lo' := by
  have hR : 0 ≤ R := Int.le_trans h.1 (Int.le_of_lt h.2)
  calc hi * R + lo < hi * R + R := by linarith only [h.2]
    _ = (hi + 1) * R := by ring
    _ ≤ hi' * R := Int.mul_le_mul_of_nonneg_right hlt hR
    _ ≤ hi' * R + lo' := by linarith only [h'.1]

/-- The higher part decides, and the lower one when the higher ones are the same. -/
theorem value_lt_iff (h : Normal R lo) (h' : Normal R lo') :
    value R hi lo < value R hi' lo' ↔ hi < hi' ∨ (hi = hi' ∧ lo < lo') := by
  constructor
  · intro hlt
    rcases Int.lt_trichotomy hi hi' with hhi | hhi | hhi
    · exact Or.inl hhi
    · refine Or.inr ⟨hhi, ?_⟩
      rw [hhi] at hlt
      exact Int.lt_of_add_lt_add_left hlt
    · exact absurd hlt (Int.not_lt.mpr (Int.le_of_lt (value_lt_of_hi_lt h' h hhi)))
  · rintro (hhi | ⟨hhi, hlo⟩)
    · exact value_lt_of_hi_lt h h' hhi
    · rw [hhi]
      exact Int.add_lt_add_left hlo _

/-- The sign of a normal number is that of its higher part. -/
theorem value_nonneg_iff (h : Normal R lo) : 0 ≤ value R hi lo ↔ 0 ≤ hi := by
  have hzero : Normal R 0 := ⟨Int.le_refl 0, Int.lt_of_le_of_lt h.1 h.2⟩
  have hlt : value R hi lo < value R 0 0 ↔ hi < 0 ∨ (hi = 0 ∧ lo < 0) := value_lt_iff h hzero
  rw [value, value, Int.zero_mul, Int.add_zero] at hlt
  rw [value, ← Int.not_lt, hlt]
  have hlo := h.1
  omega

/-! ## Borrow and carry -/

theorem value_borrow : value R (hi - 1) (lo + R) = value R hi lo := by
  unfold value
  ring

/-- A difference of two digits that went below zero is a digit after a borrow. -/
theorem Normal.borrow (h : Normal R lo) (h' : Normal R lo') (hneg : lo - lo' < 0) :
    Normal R (lo - lo' + R) := by
  have hlo := h.1
  have hlo' := h'.2
  constructor <;> omega

theorem value_carry : value R (hi + lo / R) (lo % R) = value R hi lo := by
  have hdiv := Int.mul_ediv_add_emod lo R
  unfold value
  linear_combination hdiv

/-! ## Division that rounds towards zero -/

theorem value_tdiv_tmod (R z : ℤ) : value R (z.tdiv R) (z.tmod R) = z := by
  rw [value, Int.mul_comm, Int.mul_tdiv_add_tmod]

/-- The parts it leaves are not normal below zero, and are in the order of the numbers all the
same. -/
theorem tdiv_tmod_lt_iff (hR : 0 < R) {y z : ℤ} :
    y.tdiv R < z.tdiv R ∨ (y.tdiv R = z.tdiv R ∧ y.tmod R < z.tmod R) ↔ y < z := by
  have hy := Int.mul_tdiv_add_tmod y R
  have hz := Int.mul_tdiv_add_tmod z R
  constructor
  · rintro (hlt | ⟨heq, hlt⟩)
    · by_contra hle
      exact absurd (Int.tdiv_le_tdiv hR (Int.not_lt.mp hle)) (Int.not_le.mpr hlt)
    · rw [← hy, ← hz, heq]
      exact Int.add_lt_add_left hlt _
  · intro hlt
    rcases Int.lt_or_eq_of_le (Int.tdiv_le_tdiv hR (Int.le_of_lt hlt)) with hdiv | hdiv
    · exact Or.inl hdiv
    · refine Or.inr ⟨hdiv, ?_⟩
      rw [← hy, ← hz, hdiv] at hlt
      exact Int.lt_of_add_lt_add_left hlt

/-! ## Values in a word -/

/-- In a word of `R * M` values the lower digit is kept, and the higher part with its carry
up to a multiple of `M`. -/
theorem value_modEq_iff (hR : 0 < R) (M : ℤ) :
    value R hi lo ≡ value R hi' lo' [ZMOD R * M] ↔
      lo ≡ lo' [ZMOD R] ∧ hi + lo / R ≡ hi' + lo' / R [ZMOD M] := by
  have hlow : ∀ hi lo : ℤ, value R hi lo ≡ lo [ZMOD R] := by
    intro hi lo
    rw [Int.ModEq, value, Int.add_emod, Int.mul_emod_left, Int.zero_add, Int.emod_emod]
  rw [← @value_carry R hi lo, ← @value_carry R hi' lo']
  constructor
  · intro h
    have hlo : lo ≡ lo' [ZMOD R] := by
      have hmod := (hlow _ _).symm.trans ((Int.ModEq.of_mul_right M h).trans (hlow _ _))
      rwa [Int.ModEq, Int.emod_emod, Int.emod_emod] at hmod
    refine ⟨hlo, ?_⟩
    -- the same digit on both sides cancels, and then the radix does
    have hcancel : (hi + lo / R) * R ≡ (hi' + lo' / R) * R [ZMOD R * M] := by
      unfold value at h
      rw [show lo % R = lo' % R from hlo] at h
      exact Int.ModEq.add_right_cancel' _ h
    rw [Int.mul_comm _ R, Int.mul_comm _ R] at hcancel
    exact Int.ModEq.mul_left_cancel' (Int.ne_of_gt hR) hcancel
  · rintro ⟨hlo, hhi⟩
    have hmul : (hi + lo / R) * R ≡ (hi' + lo' / R) * R [ZMOD R * M] := by
      rw [Int.mul_comm _ R, Int.mul_comm _ R]
      exact Int.ModEq.mul_left' hhi
    unfold value
    rw [show lo % R = lo' % R from hlo]
    exact hmul.add_right _

end MixedRadix
