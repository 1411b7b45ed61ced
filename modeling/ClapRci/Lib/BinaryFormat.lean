import Mathlib.Data.Int.Log
import Mathlib.Data.Rat.Floor
import Mathlib.Algebra.Order.Archimedean.Basic
import Mathlib.Tactic.Ring
import Mathlib.Tactic.Positivity
import ClapRci.Lib.RoundEven

/-!
# Binary floating-point formats

The magnitudes of a binary format, by the number that exponent field and fraction make
together: the format with `precision` bits whose smallest unit is `2 ^ minExp`. The
exponent is not bounded above; a machine format cuts the numbers off at some point.
`round` is correct rounding, to nearest with halves to even, from the rationals, and
`abs_value_round_sub_le` says that no number of the format is nearer.
-/

/-- A binary format: `fraction` bits behind the leading one, and the smallest unit. -/
structure BinaryFormat where
  fraction : ℕ
  minExp : ℤ
deriving DecidableEq

namespace BinaryFormat

variable (F : BinaryFormat)

/-- The exponent field of an encoded magnitude. -/
def field (n : ℕ) : ℕ := n / 2 ^ F.fraction

/-- The mantissa of an encoded magnitude, with the leading one where there is one. -/
def mantissa (n : ℕ) : ℕ :=
  if F.field n = 0 then n % 2 ^ F.fraction else 2 ^ F.fraction + n % 2 ^ F.fraction

/-- The exponent of an encoded magnitude: fields `0` and `1` share the smallest one. -/
def exponent (n : ℕ) : ℤ := F.minExp + (F.field n - 1 : ℕ)

/-- The number that an encoding stands for. -/
def value (n : ℕ) : ℚ := F.mantissa n * 2 ^ F.exponent n

/-- The exponent of the unit in which a number is rounded. -/
def unitExp (q : ℚ) : ℤ :=
  if q = 0 then F.minExp else max F.minExp (Int.log 2 q - F.fraction)

/-- The nearest number of the format, as an encoding. -/
def round (q : ℚ) : ℕ :=
  (F.unitExp q - F.minExp).toNat * 2 ^ F.fraction + (roundEven (q / 2 ^ F.unitExp q)).toNat

/-! ## Encodings -/

theorem mantissa_lt (n : ℕ) : F.mantissa n < 2 ^ (F.fraction + 1) := by
  have hpos : 0 < 2 ^ F.fraction := Nat.two_pow_pos _
  have hmod := Nat.mod_lt n hpos
  rw [pow_succ]
  unfold mantissa
  split <;> omega

/-- `k` units of the `j`-th exponent are encoded by the number `j * 2 ^ fraction + k`: a carry
out of the mantissa goes into the exponent. -/
theorem value_unit {j k : ℕ} (hk : k ≤ 2 ^ (F.fraction + 1))
    (hj : j = 0 ∨ 2 ^ F.fraction ≤ k) :
    F.value (j * 2 ^ F.fraction + k) = k * 2 ^ (F.minExp + j) := by
  have hpos : 0 < 2 ^ F.fraction := Nat.two_pow_pos _
  rw [pow_succ] at hk
  rcases Nat.lt_or_ge k (2 ^ F.fraction) with hlt | hge
  · -- below the leading one: the field is zero
    obtain rfl : j = 0 := hj.resolve_right (Nat.not_le.mpr hlt)
    have hfield : k / 2 ^ F.fraction = 0 := Nat.div_eq_of_lt hlt
    simp [value, mantissa, exponent, field, hfield, Nat.mod_eq_of_lt hlt]
  · obtain ⟨r, rfl⟩ := Nat.exists_eq_add_of_le hge
    rcases Nat.lt_or_ge r (2 ^ F.fraction) with hr | hr
    · have hsum : j * 2 ^ F.fraction + (2 ^ F.fraction + r) = r + (j + 1) * 2 ^ F.fraction := by
        ring
      have hfield : F.field (r + (j + 1) * 2 ^ F.fraction) = j + 1 := by
        rw [field, Nat.add_mul_div_right _ _ hpos, Nat.div_eq_of_lt hr, Nat.zero_add]
      have hmod : (r + (j + 1) * 2 ^ F.fraction) % 2 ^ F.fraction = r := by
        rw [Nat.add_mul_mod_self_right, Nat.mod_eq_of_lt hr]
      rw [hsum, value, mantissa, exponent, hfield, hmod, if_neg (Nat.succ_ne_zero j)]
      rfl
    · -- the carry: twice the leading one is the leading one of the next exponent
      obtain rfl : r = 2 ^ F.fraction := by omega
      have hsum : j * 2 ^ F.fraction + (2 ^ F.fraction + 2 ^ F.fraction) =
          0 + (j + 2) * 2 ^ F.fraction := by
        ring
      have hfield : F.field (0 + (j + 2) * 2 ^ F.fraction) = j + 2 := by
        rw [field, Nat.add_mul_div_right _ _ hpos, Nat.zero_div, Nat.zero_add]
      have hmod : (0 + (j + 2) * 2 ^ F.fraction) % 2 ^ F.fraction = 0 := by
        rw [Nat.add_mul_mod_self_right, Nat.zero_mod]
      have hexp : F.minExp + ((j + 2 - 1 : ℕ) : ℤ) = F.minExp + j + 1 := by
        have : j + 2 - 1 = j + 1 := rfl
        rw [this]
        push_cast
        ring
      rw [hsum, value, mantissa, exponent, hfield, hmod, if_neg (by omega), hexp,
        zpow_add_one₀ (by norm_num)]
      push_cast
      ring

@[simp] theorem value_zero : F.value 0 = 0 := by
  simp [value, mantissa, field]

theorem value_nonneg (n : ℕ) : 0 ≤ F.value n :=
  mul_nonneg (Nat.cast_nonneg _) (zpow_pos (by norm_num) _).le

/-- A number with a smaller unit is at most the leading one of a larger unit. -/
theorem value_le_of_exponent_lt {n : ℕ} {e : ℤ} (h : F.exponent n < e) :
    F.value n ≤ 2 ^ F.fraction * 2 ^ e := by
  have hmantissa : (F.mantissa n : ℚ) ≤ 2 ^ (F.fraction + 1) := by
    exact_mod_cast (F.mantissa_lt n).le
  have hexp : (2 : ℚ) ^ F.exponent n ≤ 2 ^ (e - 1) :=
    zpow_le_zpow_right₀ (by norm_num) (by omega)
  calc F.value n ≤ 2 ^ (F.fraction + 1) * 2 ^ (e - 1) :=
        mul_le_mul hmantissa hexp (zpow_pos (by norm_num) _).le (pow_pos (by norm_num) _).le
    _ = 2 ^ F.fraction * 2 ^ e := by
        rw [pow_succ, mul_assoc, ← zpow_one_add₀ (by norm_num)]
        congr 2
        ring

/-- From an exponent field on, numbers are at least its leading one. -/
theorem le_value_of_field_le {j n : ℕ} (h : (j + 1) * 2 ^ F.fraction ≤ n) :
    2 ^ F.fraction * 2 ^ (F.minExp + j) ≤ F.value n := by
  have hfield : j + 1 ≤ F.field n := (Nat.le_div_iff_mul_le (Nat.two_pow_pos _)).mpr h
  have hmantissa : (2 : ℚ) ^ F.fraction ≤ F.mantissa n := by
    rw [mantissa, if_neg (by omega)]
    push_cast
    exact le_add_of_nonneg_right (Nat.cast_nonneg _)
  have hexp : (2 : ℚ) ^ (F.minExp + j) ≤ 2 ^ F.exponent n := by
    refine zpow_le_zpow_right₀ (by norm_num) ?_
    rw [exponent]
    omega
  exact mul_le_mul hmantissa hexp (zpow_pos (by norm_num) _).le (Nat.cast_nonneg _)

/-- Up to an exponent field, they are at most its mantissa with all bits set. -/
theorem value_le_of_lt_field {j n : ℕ} (h : n < (j + 2) * 2 ^ F.fraction) :
    F.value n ≤ (2 ^ (F.fraction + 1) - 1) * 2 ^ (F.minExp + j) := by
  have hfield : F.field n < j + 2 := (Nat.div_lt_iff_lt_mul (Nat.two_pow_pos _)).mpr h
  have hmantissa : (F.mantissa n : ℚ) ≤ 2 ^ (F.fraction + 1) - 1 := by
    have hlt : (F.mantissa n : ℚ) + 1 ≤ 2 ^ (F.fraction + 1) := by exact_mod_cast F.mantissa_lt n
    linarith
  have hexp : (2 : ℚ) ^ F.exponent n ≤ 2 ^ (F.minExp + j) := by
    refine zpow_le_zpow_right₀ (by norm_num) ?_
    rw [exponent]
    omega
  exact mul_le_mul hmantissa hexp (zpow_pos (by norm_num) _).le
    ((Nat.cast_nonneg _).trans hmantissa)

/-! ## Rounding -/

section Round

variable {F} {q : ℚ}

theorem unitExp_pos (q : ℚ) : (0 : ℚ) < 2 ^ F.unitExp q := zpow_pos (by norm_num) _

theorem minExp_le_unitExp (q : ℚ) : F.minExp ≤ F.unitExp q := by
  unfold unitExp
  split
  · exact le_refl _
  · exact le_max_left _ _

/-- In its unit, a number has at most `fraction + 1` bits before the point. -/
theorem div_unit_lt (hq : 0 ≤ q) : q / 2 ^ F.unitExp q < 2 ^ (F.fraction + 1) := by
  rcases hq.eq_or_lt with rfl | hpos
  · rw [zero_div]
    exact pow_pos (by norm_num) _
  · have hle : Int.log 2 q - F.fraction ≤ F.unitExp q := by
      rw [unitExp, if_neg hpos.ne']
      exact le_max_right _ _
    rw [div_lt_iff₀ (unitExp_pos q), ← zpow_natCast, ← zpow_add₀ (by norm_num)]
    refine lt_of_lt_of_le (Int.lt_zpow_succ_log_self (b := 2) (by norm_num) q) ?_
    refine zpow_le_zpow_right₀ (by norm_num) ?_
    push_cast
    omega

/-- Above the smallest unit, it has that many. -/
theorem le_div_unit (hq : 0 ≤ q) (h : F.minExp < F.unitExp q) :
    2 ^ F.fraction ≤ q / 2 ^ F.unitExp q := by
  have hpos : 0 < q := by
    rcases hq.eq_or_lt with rfl | hpos
    · rw [unitExp, if_pos rfl] at h
      exact absurd h (lt_irrefl _)
    · exact hpos
  have hexp : F.unitExp q = Int.log 2 q - F.fraction := by
    rw [unitExp, if_neg hpos.ne'] at h ⊢
    exact max_eq_right (le_of_lt (lt_of_not_ge fun hge => h.ne' (max_eq_left hge)))
  have heq : (F.fraction : ℤ) + F.unitExp q = Int.log 2 q := by omega
  rw [le_div_iff₀ (unitExp_pos q), ← zpow_natCast, ← zpow_add₀ (by norm_num), heq]
  exact Int.zpow_log_le_self (by norm_num) hpos

/-- The value of the rounded number: an integer number of units. -/
theorem value_round (hq : 0 ≤ q) :
    F.value (F.round q) = roundEven (q / 2 ^ F.unitExp q) * 2 ^ F.unitExp q := by
  have hmin := F.minExp_le_unitExp q
  have hnonneg : 0 ≤ roundEven (q / 2 ^ F.unitExp q) :=
    le_roundEven (by push_cast; exact div_nonneg hq (unitExp_pos q).le)
  have hle : roundEven (q / 2 ^ F.unitExp q) ≤ 2 ^ (F.fraction + 1) :=
    roundEven_le (by push_cast; exact (div_unit_lt hq).le)
  have hlead : F.minExp < F.unitExp q → 2 ^ F.fraction ≤ roundEven (q / 2 ^ F.unitExp q) :=
    fun h => le_roundEven (by push_cast; exact le_div_unit hq h)
  obtain ⟨k, hk⟩ := Int.eq_ofNat_of_zero_le hnonneg
  rw [hk] at hle hlead
  rw [round, hk, Int.toNat_natCast, value_unit]
  · have hexp : F.minExp + ((F.unitExp q - F.minExp).toNat : ℤ) = F.unitExp q := by omega
    rw [hexp]
    rfl
  · exact_mod_cast hle
  · rcases hmin.eq_or_lt with heq | hlt
    · left
      omega
    · right
      exact_mod_cast hlead hlt

/-- No number of the format is nearer than the rounded one. -/
theorem abs_value_round_sub_le (hq : 0 ≤ q) (n : ℕ) :
    |F.value (F.round q) - q| ≤ |F.value n - q| := by
  have hunit := F.unitExp_pos q
  have hx : q = q / 2 ^ F.unitExp q * 2 ^ F.unitExp q := (div_mul_cancel₀ q hunit.ne').symm
  -- in the unit of `q`, the nearest integer is at least as near as any other
  have hinteger : ∀ z : ℤ, |F.value (F.round q) - q| ≤ |(z : ℚ) * 2 ^ F.unitExp q - q| := by
    intro z
    have hscale : ∀ y : ℚ, |y * 2 ^ F.unitExp q - q| =
        |q / 2 ^ F.unitExp q - y| * 2 ^ F.unitExp q := by
      intro y
      rw [abs_sub_comm, ← abs_of_pos hunit, ← abs_mul, sub_mul, abs_of_pos hunit, ← hx]
    rw [value_round hq, hscale, hscale]
    exact mul_le_mul_of_nonneg_right (abs_sub_roundEven_le _ z) hunit.le
  rcases le_or_gt (F.unitExp q) (F.exponent n) with hge | hlt
  · -- a number with a larger unit is an integer number of units
    have hvalue : F.value n =
        ((F.mantissa n * 2 ^ (F.exponent n - F.unitExp q).toNat : ℤ) : ℚ) * 2 ^ F.unitExp q := by
      have hexp : F.exponent n = (F.exponent n - F.unitExp q).toNat + F.unitExp q := by omega
      rw [value, hexp, zpow_add₀ (by norm_num)]
      push_cast
      rw [← hexp, mul_assoc]
      norm_cast
    rw [hvalue]
    exact hinteger _
  · -- a number with a smaller unit is below the leading bit of `q`
    have hmin : F.minExp ≤ F.exponent n := by
      rw [exponent]
      omega
    have hlead := le_div_unit hq (hmin.trans_lt hlt)
    rw [le_div_iff₀ hunit] at hlead
    have hn := F.value_le_of_exponent_lt hlt
    refine (hinteger (2 ^ F.fraction)).trans ?_
    push_cast
    rw [abs_of_nonpos (by linarith), abs_of_nonpos (by linarith)]
    linarith

@[simp] theorem round_zero (F : BinaryFormat) : F.round 0 = 0 := by
  have hround : roundEven ((0 : ℚ) / 2 ^ F.unitExp 0) = 0 := by
    rw [zero_div]
    exact_mod_cast roundEven_intCast (α := ℚ) 0
  rw [round, hround]
  simp [unitExp]

end Round

end BinaryFormat
