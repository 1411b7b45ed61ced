import Mathlib.Algebra.Order.Floor.Ring
import Mathlib.Algebra.Order.Field.Basic
import Mathlib.Algebra.Order.Group.Abs
import Mathlib.Algebra.Ring.Int.Parity
import Mathlib.Tactic.Linarith
import Mathlib.Tactic.NormNum

/-!
# Rounding to the nearest integer, halves to even

Mathlib's `round` takes halves upwards. Where printed numbers are read and printed again,
the rule for halves matters: with halves to even, a value that is no farther from the
rounded one than the original was is rounded to the same integer (`roundEven_stable`).
-/

variable {α : Type*} [Field α] [LinearOrder α] [FloorRing α]

/-- The nearest integer; of two equally near ones, the even one. -/
def roundEven (x : α) : ℤ :=
  if Int.fract x < 1 / 2 then ⌊x⌋
  else if 1 / 2 < Int.fract x then ⌊x⌋ + 1
  else if Even ⌊x⌋ then ⌊x⌋ else ⌊x⌋ + 1

/-- The rounded value is one of the two integers around `x`, the nearer one, and even where
they are equally near. -/
theorem roundEven_cases (x : α) :
    (roundEven x = ⌊x⌋ ∧ Int.fract x < 1 / 2) ∨ (roundEven x = ⌊x⌋ + 1 ∧ 1 / 2 < Int.fract x) ∨
      (Even (roundEven x) ∧ Int.fract x = 1 / 2 ∧
        (roundEven x = ⌊x⌋ ∨ roundEven x = ⌊x⌋ + 1)) := by
  unfold roundEven
  split
  · rename_i hlt
    exact Or.inl ⟨rfl, hlt⟩
  · rename_i hge
    split
    · rename_i hgt
      exact Or.inr (Or.inl ⟨rfl, hgt⟩)
    · rename_i hle
      have heq : Int.fract x = 1 / 2 := le_antisymm (not_lt.mp hle) (not_lt.mp hge)
      split
      · rename_i heven
        exact Or.inr (Or.inr ⟨heven, heq, Or.inl rfl⟩)
      · rename_i hodd
        exact Or.inr (Or.inr ⟨Int.even_add_one.mpr hodd, heq, Or.inr rfl⟩)

variable [IsStrictOrderedRing α]

/-- No farther than one half. -/
theorem abs_sub_roundEven (x : α) : |x - roundEven x| ≤ 1 / 2 := by
  have hfloor := Int.floor_add_fract x
  have hnonneg := Int.fract_nonneg x
  have hlt := Int.fract_lt_one x
  rw [abs_le]
  rcases roundEven_cases x with ⟨hr, hf⟩ | ⟨hr, hf⟩ | ⟨-, hf, hr | hr⟩
  all_goals
    rw [hr]
    push_cast
    constructor <;> linarith

omit [FloorRing α] in
/-- Two integers near `x` are near each other. -/
theorem abs_intCast_sub_le (x : α) (m n : ℤ) : ((|m - n| : ℤ) : α) ≤ |x - m| + |x - n| := by
  have htri := abs_sub_le (m : α) x n
  rw [abs_sub_comm (m : α) x] at htri
  push_cast
  exact htri

/-- An integer nearer than one half is the rounded value. -/
theorem roundEven_eq_of_lt {x : α} {n : ℤ} (h : |x - n| < 1 / 2) : roundEven x = n := by
  have hx := abs_sub_roundEven x
  have hnear := abs_intCast_sub_le x (roundEven x) n
  -- two integers less than one apart are the same
  have hlt : ((|roundEven x - n| : ℤ) : α) < 1 := by linarith
  have hint : |roundEven x - n| < 1 := by exact_mod_cast hlt
  have hzero := Int.abs_lt_one_iff.mp hint
  omega

/-- The rounded value of a number half-way between two integers is even. -/
theorem even_roundEven {x : α} (h : |x - roundEven x| = 1 / 2) : Even (roundEven x) := by
  have hfloor := Int.floor_add_fract x
  have hnonneg := Int.fract_nonneg x
  have hlt := Int.fract_lt_one x
  rcases roundEven_cases x with ⟨hr, hf⟩ | ⟨hr, hf⟩ | ⟨heven, -, -⟩
  · rw [hr] at h
    have heq : x - (⌊x⌋ : α) = Int.fract x := by linarith
    rw [heq, abs_of_nonneg hnonneg] at h
    linarith
  · rw [hr] at h
    push_cast at h
    have heq : x - ((⌊x⌋ : α) + 1) = -(1 - Int.fract x) := by linarith
    rw [heq, abs_neg, abs_of_pos (by linarith)] at h
    linarith
  · exact heven

/-- An even integer one half away is the rounded value. -/
theorem roundEven_eq_of_even {x : α} {n : ℤ} (h : |x - n| = 1 / 2) (hn : Even n) :
    roundEven x = n := by
  rcases lt_or_eq_of_le (abs_sub_roundEven x) with hlt | heq
  · -- a nearer integer would be within one of `n`, hence `n` itself
    have hnear := abs_intCast_sub_le x (roundEven x) n
    have hlt' : ((|roundEven x - n| : ℤ) : α) < 1 := by linarith
    have hint : |roundEven x - n| < 1 := by exact_mod_cast hlt'
    have hzero := Int.abs_lt_one_iff.mp hint
    omega
  · -- the other integer at that distance is odd
    have hnear := abs_intCast_sub_le x (roundEven x) n
    have hle : ((|roundEven x - n| : ℤ) : α) ≤ 1 := by linarith
    have hint : |roundEven x - n| ≤ 1 := by exact_mod_cast hle
    have hbounds := abs_le.mp hint
    rcases even_roundEven heq with ⟨a, ha⟩
    rcases hn with ⟨b, hb⟩
    omega

/-- A value no farther from the rounded one than the original is rounded to it, too. -/
theorem roundEven_stable {x y : α} (h : |y - roundEven x| ≤ |x - roundEven x|) :
    roundEven y = roundEven x := by
  have hx := abs_sub_roundEven x
  rcases lt_or_eq_of_le (h.trans hx) with hlt | heq
  · exact roundEven_eq_of_lt hlt
  · exact roundEven_eq_of_even heq (even_roundEven (le_antisymm hx (heq ▸ h)))

/-- No integer is nearer. -/
theorem abs_sub_roundEven_le (x : α) (n : ℤ) : |x - roundEven x| ≤ |x - n| := by
  by_contra hlt
  rw [not_le] at hlt
  have hn : roundEven x = n := roundEven_eq_of_lt (hlt.trans_le (abs_sub_roundEven x))
  rw [hn] at hlt
  exact lt_irrefl _ hlt

@[simp] theorem roundEven_intCast (n : ℤ) : roundEven (n : α) = n :=
  roundEven_eq_of_lt (by simp)

omit [IsStrictOrderedRing α] in
/-- Rounding does not cross an integer. -/
theorem le_roundEven {x : α} {n : ℤ} (h : (n : α) ≤ x) : n ≤ roundEven x := by
  have hfloor : n ≤ ⌊x⌋ := Int.le_floor.mpr h
  rcases roundEven_cases x with ⟨hr, -⟩ | ⟨hr, -⟩ | ⟨-, -, hr | hr⟩ <;> omega

theorem roundEven_le {x : α} {n : ℤ} (h : x ≤ n) : roundEven x ≤ n := by
  have habs := abs_sub_roundEven_le x n
  by_contra hlt
  have hge : (n : α) + 1 ≤ roundEven x := by exact_mod_cast not_le.mp hlt
  rw [abs_of_nonpos (by linarith), abs_of_nonpos (by linarith)] at habs
  linarith
