import Mathlib.Data.Nat.Digits.Defs
import Mathlib.Data.Nat.Digits.Lemmas
import Mathlib.Tactic.Common

/-!
# Decimal texts

The text of a number in decimal digits, as ASCII bytes, and the value of a text of digits.
Reading a written number gives it back.
-/

namespace Decimal

/-- The byte is one of `0` to `9`. -/
def isDigit (b : UInt8) : Bool := 48 ≤ b.toNat && b.toNat ≤ 57

/-- The byte of a digit. -/
def ofDigit (d : Nat) : UInt8 := UInt8.ofNat (48 + d)

/-- The digit of a byte. -/
def toDigit (b : UInt8) : Nat := b.toNat - 48

/-- The value of a text of digits, the most significant one first. -/
def value (text : List UInt8) : Nat := text.foldl (fun acc b => 10 * acc + toDigit b) 0

/-- The text of a number. -/
def text (n : Nat) : List UInt8 :=
  if n = 0 then [ofDigit 0] else (Nat.digits 10 n).reverse.map ofDigit

theorem ofDigit_toNat {d : Nat} (h : d < 10) : (ofDigit d).toNat = 48 + d := by
  simp only [ofDigit, UInt8.toNat_ofNat']
  omega

theorem isDigit_ofDigit {d : Nat} (h : d < 10) : isDigit (ofDigit d) = true := by
  simp only [isDigit, ofDigit_toNat h, Bool.and_eq_true, decide_eq_true_eq]
  omega

theorem toDigit_ofDigit {d : Nat} (h : d < 10) : toDigit (ofDigit d) = d := by
  rw [toDigit, ofDigit_toNat h, Nat.add_sub_cancel_left]

/-- The most significant digit of a reversed text comes last. -/
theorem value_reverse_map {ds : List Nat} (h : ∀ d ∈ ds, d < 10) :
    value (ds.reverse.map ofDigit) = Nat.ofDigits 10 ds := by
  induction ds with
  | nil => rfl
  | cons d ds ih =>
    have hd := h d List.mem_cons_self
    have hrest := ih fun e he => h e (List.mem_cons_of_mem _ he)
    rw [value] at hrest
    rw [value, List.reverse_cons, List.map_append, List.foldl_append, hrest]
    simp only [List.map_cons, List.map_nil, List.foldl_cons, List.foldl_nil, toDigit_ofDigit hd,
      Nat.ofDigits_cons]
    exact Nat.add_comm _ _

theorem value_text (n : Nat) : value (text n) = n := by
  unfold text
  split
  · rename_i hzero
    simp [hzero, value, toDigit_ofDigit]
  · rw [value_reverse_map fun d hd => Nat.digits_lt_base (by decide) hd]
    exact Nat.ofDigits_digits 10 n

theorem isDigit_of_mem_text {n : Nat} {b : UInt8} (h : b ∈ text n) : isDigit b = true := by
  unfold text at h
  split at h
  · rw [List.mem_singleton] at h
    rw [h]
    exact isDigit_ofDigit (by decide)
  · rcases List.mem_map.mp h with ⟨d, hd, rfl⟩
    exact isDigit_ofDigit (Nat.digits_lt_base (by decide) (List.mem_reverse.mp hd))

theorem text_ne_nil (n : Nat) : text n ≠ [] := by
  unfold text
  split
  · exact List.cons_ne_nil _ _
  · rename_i hne
    simpa [Nat.digits_eq_nil_iff_eq_zero] using hne

/-! ## A fixed number of digits -/

/-- The last `k` digits of a number, with leading zeros. -/
def pad : Nat → Nat → List UInt8
  | 0, _ => []
  | k + 1, n => pad k (n / 10) ++ [ofDigit (n % 10)]

theorem length_pad (k n : Nat) : (pad k n).length = k := by
  induction k generalizing n with
  | zero => rfl
  | succ k ih => rw [pad, List.length_append, ih, List.length_singleton]

theorem isDigit_of_mem_pad {k n : Nat} {b : UInt8} (h : b ∈ pad k n) : isDigit b = true := by
  induction k generalizing n with
  | zero => cases h
  | succ k ih =>
    rcases List.mem_append.mp h with h | h
    · exact ih h
    · rw [List.mem_singleton] at h
      rw [h]
      exact isDigit_ofDigit (Nat.mod_lt _ (by decide))

theorem value_concat (text : List UInt8) (b : UInt8) :
    value (text ++ [b]) = 10 * value text + toDigit b := by
  simp [value]

/-- Digits put behind a text shift its value. -/
theorem value_append_pad (text : List UInt8) (k n : Nat) :
    value (text ++ pad k n) = value text * 10 ^ k + n % 10 ^ k := by
  induction k generalizing n with
  | zero => simp [pad, Nat.mod_one]
  | succ k ih =>
    have hmod : n % 10 ^ (k + 1) = n % 10 + 10 * (n / 10 % 10 ^ k) := by
      rw [Nat.pow_succ', Nat.mod_mul]
    rw [pad, ← List.append_assoc, value_concat, ih, toDigit_ofDigit (Nat.mod_lt _ (by decide)),
      hmod, Nat.pow_succ]
    generalize n / 10 % 10 ^ k = r
    rw [Nat.mul_add, Nat.mul_left_comm, Nat.mul_comm 10 (10 ^ k)]
    omega

/-! ## A sign -/

/-- The text of an integer, with a minus in front of it where it is negative. -/
def intText (z : ℤ) : List UInt8 :=
  if z < 0 then 45 :: text z.natAbs else text z.natAbs

theorem intText_ne_nil (z : ℤ) : intText z ≠ [] := by
  unfold intText
  split
  · exact List.cons_ne_nil _ _
  · exact text_ne_nil _

theorem mem_intText {z : ℤ} {b : UInt8} (h : b ∈ intText z) : b = 45 ∨ isDigit b = true := by
  unfold intText at h
  split at h
  · rcases List.mem_cons.mp h with rfl | h
    · exact Or.inl rfl
    · exact Or.inr (isDigit_of_mem_text h)
  · exact Or.inr (isDigit_of_mem_text h)

/-- A byte that is neither a minus nor a digit is not in the text of an integer. -/
theorem not_mem_intText (z : ℤ) {b : UInt8} (hminus : b ≠ 45) (hdigit : isDigit b = false) :
    b ∉ intText z := by
  intro h
  rcases mem_intText h with hb | hb
  · exact hminus hb
  · rw [hdigit] at hb
    cases hb

/-! ## Zeros in front -/

/-- A text filled up with zeros from the left. -/
def padLeft (width : Nat) (text : List UInt8) : List UInt8 :=
  List.replicate (width - text.length) (ofDigit 0) ++ text

theorem mem_padLeft {width : Nat} {text : List UInt8} {b : UInt8} (h : b ∈ padLeft width text) :
    isDigit b = true ∨ b ∈ text := by
  rcases List.mem_append.mp h with h | h
  · rw [List.eq_of_mem_replicate h]
    exact Or.inl (isDigit_ofDigit (by decide))
  · exact Or.inr h

theorem length_padLeft {width : Nat} {text : List UInt8} (h : text.length ≤ width) :
    (padLeft width text).length = width := by
  rw [padLeft, List.length_append, List.length_replicate]
  omega

/-- Zeros in front do not change the value. -/
theorem value_replicate_append (k : Nat) (text : List UInt8) :
    value (List.replicate k (ofDigit 0) ++ text) = value text := by
  induction k with
  | zero => rfl
  | succ k ih =>
    rw [List.replicate_succ, List.cons_append, value, List.foldl_cons,
      toDigit_ofDigit (by decide)]
    exact ih

/-- The integer that a text stands for: a minus anywhere makes it negative. -/
def intValue (text : List UInt8) : ℤ :=
  if 45 ∈ text then -(value (text.filter isDigit) : ℤ) else value text

/-- The zeros may also stand in front of the minus. -/
theorem intValue_padLeft_intText (width : Nat) (z : ℤ) :
    intValue (padLeft width (intText z)) = z := by
  have hdigits : (text z.natAbs).filter isDigit = text z.natAbs :=
    List.filter_eq_self.mpr fun b hb => isDigit_of_mem_text hb
  have hzero : ∀ k, (List.replicate k (ofDigit 0)).filter isDigit = List.replicate k (ofDigit 0) :=
    fun k => List.filter_eq_self.mpr fun b hb => by
      rw [List.eq_of_mem_replicate hb]
      exact isDigit_ofDigit (by decide)
  unfold intText
  split
  · have hminus : isDigit 45 = false := by decide
    rw [intValue, if_pos (by simp [padLeft]), padLeft, List.filter_append, hzero,
      List.filter_cons_of_neg (by simp [hminus]), hdigits, value_replicate_append, value_text]
    omega
  · have hno : 45 ∉ padLeft width (text z.natAbs) := by
      intro h
      rcases mem_padLeft h with h | h
      · exact absurd h (by decide)
      · exact absurd (isDigit_of_mem_text h) (by decide)
    rw [intValue, if_neg hno, padLeft, value_replicate_append, value_text]
    omega

/-! ## The order of texts -/

theorem value_cons (b : UInt8) (text : List UInt8) :
    value (b :: text) = toDigit b * 10 ^ text.length + value text := by
  induction text using List.reverseRecOn with
  | nil => simp [value]
  | append_singleton text c ih =>
    rw [← List.cons_append, value_concat, value_concat, ih, List.length_append,
      List.length_singleton, Nat.pow_succ]
    ring

theorem value_lt {text : List UInt8} (h : ∀ b ∈ text, isDigit b = true) :
    value text < 10 ^ text.length := by
  induction text with
  | nil => exact Nat.one_pos
  | cons b text ih =>
    have hrest := ih fun c hc => h c (List.mem_cons_of_mem _ hc)
    have hb : toDigit b ≤ 9 := by
      have hdigit := h b List.mem_cons_self
      simp only [isDigit, Bool.and_eq_true, decide_eq_true_eq] at hdigit
      unfold toDigit
      omega
    have hmul : toDigit b * 10 ^ text.length ≤ 9 * 10 ^ text.length :=
      Nat.mul_le_mul_right _ hb
    rw [value_cons, List.length_cons, Nat.pow_succ]
    omega

theorem lt_iff_toDigit_lt {b c : UInt8} (hb : isDigit b = true) (hc : isDigit c = true) :
    b < c ↔ toDigit b < toDigit c := by
  simp only [isDigit, Bool.and_eq_true, decide_eq_true_eq] at hb hc
  rw [UInt8.lt_iff_toNat_lt, toDigit, toDigit]
  omega

theorem eq_of_toDigit_eq {b c : UInt8} (hb : isDigit b = true) (hc : isDigit c = true)
    (h : toDigit b = toDigit c) : b = c := by
  simp only [isDigit, Bool.and_eq_true, decide_eq_true_eq] at hb hc
  unfold toDigit at h
  apply UInt8.toNat_inj.mp
  omega

/-- Texts of the same number of digits are in the order of their values. -/
theorem lt_iff_value_lt {xs ys : List UInt8} (hxs : ∀ b ∈ xs, isDigit b = true)
    (hys : ∀ b ∈ ys, isDigit b = true) (hlen : xs.length = ys.length) :
    xs < ys ↔ value xs < value ys := by
  induction xs generalizing ys with
  | nil =>
    obtain rfl := List.length_eq_zero_iff.mp hlen.symm
    simp
  | cons b xs ih =>
    cases ys with
    | nil => cases hlen
    | cons c ys =>
      have hlen : xs.length = ys.length := Nat.succ.inj hlen
      have hb := hxs b List.mem_cons_self
      have hc := hys c List.mem_cons_self
      have hxs := fun d hd => hxs d (List.mem_cons_of_mem _ hd)
      have hys := fun d hd => hys d (List.mem_cons_of_mem _ hd)
      have hx := value_lt hxs
      have hy := value_lt hys
      rw [List.cons_lt_cons_iff, lt_iff_toDigit_lt hb hc, ih hxs hys hlen, value_cons, value_cons]
      rw [hlen] at hx ⊢
      generalize 10 ^ ys.length = p at *
      -- the first digit that is different decides
      rcases Nat.lt_trichotomy (toDigit b) (toDigit c) with hlt | heq | hgt
      · refine iff_of_true (Or.inl hlt) ?_
        have hmul : (toDigit b + 1) * p ≤ toDigit c * p := Nat.mul_le_mul_right _ hlt
        rw [Nat.add_mul, Nat.one_mul] at hmul
        omega
      · obtain rfl := eq_of_toDigit_eq hb hc heq
        simp
      · refine iff_of_false ?_ ?_
        · rintro (hlt | ⟨rfl, _⟩)
          · omega
          · omega
        · have hmul : (toDigit c + 1) * p ≤ toDigit b * p := Nat.mul_le_mul_right _ hgt
          rw [Nat.add_mul, Nat.one_mul] at hmul
          omega

theorem length_text_le {width n : Nat} (hwidth : 0 < width) (h : n < 10 ^ width) :
    (text n).length ≤ width := by
  unfold text
  split
  · exact hwidth
  · rw [List.length_map, List.length_reverse]
    exact (Nat.digits_length_le_iff (by decide) n).mpr h

/-- Numbers from zero on sort like their texts of a fixed width, if they fit into it. -/
theorem padLeft_intText_lt_iff {width : Nat} (hwidth : 0 < width) {y z : ℤ}
    (hy : 0 ≤ y ∧ y < 10 ^ width) (hz : 0 ≤ z ∧ z < 10 ^ width) :
    padLeft width (intText y) < padLeft width (intText z) ↔ y < z := by
  have hdigits : ∀ n, ∀ b ∈ padLeft width (text n), isDigit b = true := by
    intro n b hb
    rcases mem_padLeft hb with hb | hb
    · exact hb
    · exact isDigit_of_mem_text hb
  lift y to ℕ using hy.1
  lift z to ℕ using hz.1
  have hlen : ∀ n : ℕ, (n : ℤ) < 10 ^ width → (padLeft width (text n)).length = width := by
    intro n hn
    exact length_padLeft (length_text_le hwidth (by exact_mod_cast hn))
  rw [intText, if_neg (by omega), intText, if_neg (by omega), Int.natAbs_natCast,
    Int.natAbs_natCast, lt_iff_value_lt (hdigits y) (hdigits z)
      ((hlen y hy.2).trans (hlen z hz.2).symm), padLeft, padLeft, value_replicate_append,
    value_replicate_append, value_text, value_text, Int.ofNat_lt]

theorem length_padLeft_intText {width : Nat} (hwidth : 0 < width) {z : ℤ}
    (h : 0 ≤ z ∧ z < 10 ^ width) : (padLeft width (intText z)).length = width := by
  lift z to ℕ using h.1
  rw [intText, if_neg (by omega), Int.natAbs_natCast]
  exact length_padLeft (length_text_le hwidth (by exact_mod_cast h.2))

/-- Where the first parts have the same length, they decide unless they are the same. -/
theorem append_lt_append_iff {xs xs' ys ys' : List UInt8} (hlen : xs.length = xs'.length) :
    xs ++ ys < xs' ++ ys' ↔ xs < xs' ∨ xs = xs' ∧ ys < ys' := by
  induction xs generalizing xs' with
  | nil =>
    obtain rfl := List.length_eq_zero_iff.mp hlen.symm
    simp
  | cons b xs ih =>
    cases xs' with
    | nil => cases hlen
    | cons c xs' =>
      have hlen : xs.length = xs'.length := Nat.succ.inj hlen
      rw [List.cons_append, List.cons_append, List.cons_lt_cons_iff, List.cons_lt_cons_iff,
        ih hlen, List.cons.injEq]
      tauto

end Decimal
