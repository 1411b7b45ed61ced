import Mathlib.Data.List.TakeWhile
import Mathlib.Tactic.Common
import Mathlib.Tactic.Linarith
import ClapRci.Lib.BinaryFormat
import ClapRci.Lib.Decimal
import ClapRci.Plugin.ParameterText

/-!
# Doubles and their texts

The two conversions that parameter texts rest on, for IEEE doubles: `std::to_string`, which
prints six digits behind the point, and `strtod`, which reads the nearest double. Both round
halves to even.

`texts_round_trip`: a value that is written into the host's buffer and read back differs by
no more than a millionth, and from then on neither the text nor the value changes.
-/

namespace ClapRci

open Decimal (isDigit)

namespace Double

/-! ## The parts of a double -/

/-- The format of the magnitudes of doubles. -/
def binary64 : BinaryFormat := ⟨52, -1074⟩

/-- The bits of the positive infinity; smaller ones are finite, larger ones are no numbers. -/
def infinityBits : Nat := 2047 * 2 ^ 52

def isNegative (v : Double) : Bool := 2 ^ 63 ≤ v.bits.toNat

/-- All bits but the sign. -/
def magnitudeBits (v : Double) : Nat := v.bits.toNat % 2 ^ 63

def isFinite (v : Double) : Bool := v.magnitudeBits < infinityBits

/-- The absolute value of a finite double. -/
def magnitude (v : Double) : ℚ := binary64.value v.magnitudeBits

/-- The value of a finite double. -/
def toRat (v : Double) : ℚ := if v.isNegative then -v.magnitude else v.magnitude

/-- The double with this sign and these other bits. -/
def ofParts (negative : Bool) (n : Nat) : Double :=
  ⟨UInt64.ofNat ((if negative then 2 ^ 63 else 0) + n)⟩

theorem ofParts_toNat (negative : Bool) {n : Nat} (h : n < 2 ^ 63) :
    (ofParts negative n).bits.toNat = (if negative then 2 ^ 63 else 0) + n := by
  have hlt : (if negative then 2 ^ 63 else 0) + n < 2 ^ 64 := by
    cases negative
    · simp only [Bool.false_eq_true, if_false]
      omega
    · simp only [if_true]
      omega
  rw [ofParts, UInt64.toNat_ofNat', Nat.mod_eq_of_lt hlt]

theorem ofParts_isNegative (negative : Bool) {n : Nat} (h : n < 2 ^ 63) :
    (ofParts negative n).isNegative = negative := by
  rw [isNegative, ofParts_toNat negative h]
  cases negative
  · simp only [Bool.false_eq_true, if_false, decide_eq_false_iff_not]
    omega
  · simp

theorem ofParts_magnitudeBits (negative : Bool) {n : Nat} (h : n < 2 ^ 63) :
    (ofParts negative n).magnitudeBits = n := by
  rw [magnitudeBits, ofParts_toNat negative h]
  cases negative
  · simp only [Bool.false_eq_true, if_false]
    omega
  · simp only [if_true]
    omega

/-! ## `std::to_string` -/

/-- The magnitude in millionths, rounded. -/
def millionths (v : Double) : Nat := (roundEven (v.magnitude * 10 ^ 6)).toNat

/-- The text of a number of millionths. -/
def fixedText (n : Nat) : StdString := Decimal.text (n / 10 ^ 6) ++ 46 :: Decimal.pad 6 n

/-- The text without the sign. -/
def unsignedText (v : Double) : StdString :=
  if v.isFinite then fixedText v.millionths
  else if v.magnitudeBits = infinityBits then [105, 110, 102]
  else [110, 97, 110]

/-- `std::to_string(value)`. -/
def to_string (v : Double) : StdString :=
  (if v.isNegative then [45] else []) ++ v.unsignedText

/-! ## `strtod` -/

/-- The value of a hexadecimal digit. -/
def hexDigit (b : UInt8) : Nat := if isDigit b then Decimal.toDigit b else (toLower b).toNat - 87

/-- The value of digits with a point among them or not. -/
def fixedValue (base : Nat) (digit : UInt8 → Nat) (m : StdString) : ℚ :=
  let whole := m.takeWhile (· ≠ 46)
  let fraction := (m.dropWhile (· ≠ 46)).drop 1
  let units := (whole ++ fraction).foldl (fun acc b => base * acc + digit b) 0
  units / base ^ fraction.length

/-- The value of an exponent with its marker. -/
def exponentValue (str : StdString) : Int :=
  match str with
  | [] => 0
  | _ :: rest =>
    let (negative, digits) := takeSign rest
    if negative then -Decimal.value digits else Decimal.value digits

/-- From here on a number is at least the smallest normal one, `2^-1022`, once it is rounded
to 53 bits; below that one they are half as far apart as the doubles are. -/
def normalMin : ℚ := 2 ^ (-1022 : ℤ) - 2 ^ (-1076 : ℤ)

/-- The nearest double; none if it is not finite, or if the number is tiny and the double is
not exactly it, which are the two range errors. -/
def ofMagnitude (negative : Bool) (q : ℚ) : Option Double :=
  let n := binary64.round q
  if infinityBits ≤ n then none
  else if q < normalMin ∧ binary64.value n ≠ q then none
  else some (ofParts negative n)

/-- What `strtod` makes of a number that it delimits. -/
def nearest (n : StdString) : Option Double :=
  let (negative, body) := takeSign n
  if (hexadecimal body).isSome then
    let digits := (mantissa isHexDigit (body.drop 2)).getD []
    ofMagnitude negative (fixedValue 16 hexDigit digits *
      2 ^ exponentValue ((body.drop 2).drop digits.length))
  else
    match mantissa isDigit body with
    | some digits =>
      ofMagnitude negative (fixedValue 10 Decimal.toDigit digits *
        10 ^ exponentValue (body.drop digits.length))
    | none =>
      if (body.take 3).map toLower = [105, 110, 102] then some (ofParts negative infinityBits)
      else some (ofParts negative (infinityBits + 2 ^ 51))

/-! ## The text of a finite double -/

theorem isDigit_ne_zero {b : UInt8} (h : isDigit b = true) : b ≠ 0 := by
  rintro rfl
  exact absurd h (by decide)

theorem zero_not_mem_fixedText (n : Nat) : 0 ∉ fixedText n := by
  intro h
  rcases List.mem_append.mp h with h | h
  · exact isDigit_ne_zero (Decimal.isDigit_of_mem_text h) rfl
  · rcases List.mem_cons.mp h with h | h
    · exact absurd h (by decide)
    · exact isDigit_ne_zero (Decimal.isDigit_of_mem_pad h) rfl

theorem zero_not_mem_to_string (v : Double) : 0 ∉ to_string v := by
  intro h
  rcases List.mem_append.mp h with h | h
  · split at h <;> simp at h
  · unfold unsignedText at h
    split at h
    · exact zero_not_mem_fixedText _ h
    · split at h <;> simp at h

/-- The conversions of the library. -/
def ieee : Conversions where
  to_string := to_string
  nearest := nearest
  to_string_no_nul := zero_not_mem_to_string

/-! ## Reading a printed number -/

theorem isDigit_ne_point {b : UInt8} (h : isDigit b = true) : b ≠ 46 := by
  rintro rfl
  exact absurd h (by decide)

/-- A printed number has a digit in front, and digits and one point behind it. -/
theorem fixedText_eq_cons (n : Nat) :
    ∃ b c rest, fixedText n = b :: c :: rest ∧ isDigit b = true ∧ (isDigit c = true ∨ c = 46) := by
  have hdigits : ∀ b ∈ Decimal.text (n / 10 ^ 6), isDigit b = true :=
    fun b hb => Decimal.isDigit_of_mem_text hb
  rw [fixedText]
  cases htext : Decimal.text (n / 10 ^ 6) with
  | nil => exact absurd htext (Decimal.text_ne_nil _)
  | cons b text =>
    rw [htext] at hdigits
    have hb := hdigits b List.mem_cons_self
    cases text with
    | nil => exact ⟨b, 46, _, rfl, hb, Or.inr rfl⟩
    | cons c text =>
      exact ⟨b, c, _, rfl, hb, Or.inl (hdigits c (List.mem_cons_of_mem _ List.mem_cons_self))⟩

/-- A digit followed by a digit or a point does not begin a hexadecimal number. -/
theorem hexadecimal_fixedText (n : Nat) (rest : StdString) :
    hexadecimal (fixedText n ++ rest) = none := by
  obtain ⟨b, c, text, heq, -, hc⟩ := fixedText_eq_cons n
  have hx : toLower c ≠ 120 := by
    rcases hc with hc | rfl
    · simp only [isDigit, Bool.and_eq_true, decide_eq_true_eq] at hc
      have hlow : ¬ (65 ≤ c.toNat ∧ c.toNat ≤ 90) := by omega
      rw [toLower, if_neg hlow]
      rintro rfl
      exact absurd hc.2 (by decide)
    · decide
  rw [heq]
  simp only [List.cons_append, hexadecimal, hx, and_false, if_false]

/-- What stands behind a printed number: nothing, or no digit. -/
def Ends (rest : StdString) : Prop := ∀ b, rest.head? = some b → isDigit b = false

theorem takeWhile_digits {ds rest : StdString} (hds : ∀ b ∈ ds, isDigit b = true)
    (hrest : Ends rest) :
    (ds ++ rest).takeWhile isDigit = ds ∧ (ds ++ rest).dropWhile isDigit = rest := by
  have htake : rest.takeWhile isDigit = [] ∧ rest.dropWhile isDigit = rest := by
    cases rest with
    | nil => exact ⟨rfl, rfl⟩
    | cons b rest =>
      have hb := hrest b rfl
      exact ⟨List.takeWhile_cons_of_neg (by simp [hb]), List.dropWhile_cons_of_neg (by simp [hb])⟩
  rw [List.takeWhile_append_of_pos hds, List.dropWhile_append_of_pos hds, htake.1, htake.2]
  exact ⟨List.append_nil _, rfl⟩

theorem mantissa_fixedText (n : Nat) {rest : StdString} (hrest : Ends rest) :
    mantissa isDigit (fixedText n ++ rest) = some (fixedText n) := by
  have hwhole : ∀ b ∈ Decimal.text (n / 10 ^ 6), isDigit b = true :=
    fun b hb => Decimal.isDigit_of_mem_text hb
  have hpoint : Ends (46 :: (Decimal.pad 6 n ++ rest)) := by
    intro b hb
    cases hb
    decide
  have hsplit : fixedText n ++ rest =
      Decimal.text (n / 10 ^ 6) ++ 46 :: (Decimal.pad 6 n ++ rest) := by
    simp [fixedText]
  obtain ⟨htake, hdrop⟩ := takeWhile_digits hwhole hpoint
  have hfraction : ∀ b ∈ Decimal.pad 6 n, isDigit b = true :=
    fun b hb => Decimal.isDigit_of_mem_pad hb
  have htake' := (takeWhile_digits hfraction hrest).1
  rw [hsplit]
  simp only [mantissa, htake, hdrop, if_true, htake', Decimal.text_ne_nil, false_and, if_false]
  rfl

/-- The digits of a printed number have its value. -/
theorem fixedValue_fixedText (n : Nat) :
    fixedValue 10 Decimal.toDigit (fixedText n) = n / 10 ^ 6 := by
  have hwhole : ∀ b ∈ Decimal.text (n / 10 ^ 6), decide (b ≠ 46) = true := by
    intro b hb
    exact decide_eq_true (isDigit_ne_point (Decimal.isDigit_of_mem_text hb))
  have htake : (fixedText n).takeWhile (· ≠ 46) = Decimal.text (n / 10 ^ 6) := by
    rw [fixedText, List.takeWhile_append_of_pos hwhole, List.takeWhile_cons_of_neg (by simp),
      List.append_nil]
  have hdrop : (fixedText n).dropWhile (· ≠ 46) = 46 :: Decimal.pad 6 n := by
    rw [fixedText, List.dropWhile_append_of_pos hwhole, List.dropWhile_cons_of_neg (by simp)]
  have hvalue : Decimal.value (Decimal.text (n / 10 ^ 6) ++ Decimal.pad 6 n) = n := by
    rw [Decimal.value_append_pad, Decimal.value_text]
    exact Nat.div_add_mod' n (10 ^ 6)
  have hunits : (Decimal.text (n / 10 ^ 6) ++ Decimal.pad 6 n).foldl
      (fun acc b => 10 * acc + Decimal.toDigit b) 0 = n := hvalue
  simp only [fixedValue, htake, hdrop, List.drop_one, List.tail_cons, hunits, Decimal.length_pad]
  push_cast
  rfl

/-! ## The double nearest to a printed number -/

/-- The number of millionths as a rational, for the rounding lemmas. -/
theorem millionths_cast (v : Double) :
    (v.millionths : ℚ) = (roundEven (v.magnitude * 10 ^ 6) : ℤ) := by
  have hnonneg : (0 : ℤ) ≤ roundEven (v.magnitude * 10 ^ 6) := by
    refine le_roundEven ?_
    push_cast
    exact mul_nonneg (binary64.value_nonneg _) (by norm_num)
  rw [millionths]
  exact_mod_cast congrArg (Int.cast (R := ℚ)) (Int.toNat_of_nonneg hnonneg)

/-- Printing errs by half a millionth at most. -/
theorem abs_magnitude_sub_le (v : Double) :
    |v.magnitude - v.millionths / 10 ^ 6| ≤ 1 / 2 / 10 ^ 6 := by
  have h := abs_sub_roundEven (v.magnitude * 10 ^ 6)
  rw [← millionths_cast, abs_le] at h
  rw [abs_le]
  constructor <;> linarith

/-- The largest double. -/
theorem magnitude_le {v : Double} (h : v.isFinite = true) :
    v.magnitude ≤ (2 ^ 53 - 1) * 2 ^ (971 : ℤ) :=
  binary64.value_le_of_lt_field (j := 2045) (of_decide_eq_true h)

theorem normalMin_le : normalMin ≤ 1 / 10 ^ 6 :=
  calc normalMin ≤ 2 ^ (-1022 : ℤ) := sub_le_self _ (zpow_pos (by norm_num) _).le
    _ ≤ 2 ^ (-20 : ℤ) := zpow_le_zpow_right₀ (by norm_num) (by norm_num)
    _ ≤ 1 / 10 ^ 6 := by norm_num

/-- A number that is near a finite double, and zero or not too small, has a nearest double. -/
theorem ofMagnitude_near {v : Double} (hv : v.isFinite = true) (negative : Bool) {q : ℚ}
    (hq : q = 0 ∨ 1 / 10 ^ 6 ≤ q) (hnear : |v.magnitude - q| ≤ 1 / 2 / 10 ^ 6) :
    ∃ w, ofMagnitude negative q = some w ∧ w.isFinite = true ∧ w.isNegative = negative ∧
      |w.magnitude - q| ≤ |v.magnitude - q| := by
  have hq0 : 0 ≤ q := by
    rcases hq with rfl | hq
    · exact le_refl _
    · exact le_trans (by norm_num) hq
  have hround := BinaryFormat.abs_value_round_sub_le (F := binary64) hq0 v.magnitudeBits
  -- the rounded number is within a millionth of a finite one
  have hfinite : binary64.round q < infinityBits := by
    by_contra hge
    have hbig : (2 : ℚ) ^ 52 * 2 ^ (972 : ℤ) ≤ binary64.value (binary64.round q) :=
      binary64.le_value_of_field_le (j := 2046) (not_lt.mp hge)
    have hmax := magnitude_le hv
    have hpow : (2 : ℚ) ^ (972 : ℤ) = 2 * 2 ^ (971 : ℤ) := by
      rw [show (972 : ℤ) = 971 + 1 from rfl, zpow_add_one₀ (by norm_num)]
      ring
    have hone : (1 : ℚ) ≤ 2 ^ (971 : ℤ) := one_le_zpow₀ (by norm_num) (by norm_num)
    have hdist := (abs_le.mp (hround.trans hnear)).2
    have hdist' := (abs_le.mp hnear).1
    rw [magnitude] at hmax hdist'
    rw [hpow] at hbig
    generalize (2 : ℚ) ^ (971 : ℤ) = unit at hbig hmax hone
    linarith
  -- and it is not tiny unless it is zero
  have hnormal : ¬ (q < normalMin ∧ binary64.value (binary64.round q) ≠ q) := by
    rintro ⟨htiny, hinexact⟩
    rcases hq with rfl | hq
    · exact hinexact (by rw [BinaryFormat.round_zero, BinaryFormat.value_zero])
    · exact absurd htiny (not_lt.mpr (normalMin_le.trans hq))
  have hlt : binary64.round q < 2 ^ 63 := hfinite.trans (by decide)
  refine ⟨ofParts negative (binary64.round q), ?_, ?_, ofParts_isNegative negative hlt, ?_⟩
  · rw [ofMagnitude, if_neg (Nat.not_le.mpr hfinite), if_neg hnormal]
  · rw [isFinite, ofParts_magnitudeBits negative hlt]
    exact decide_eq_true hfinite
  · rw [magnitude, ofParts_magnitudeBits negative hlt]
    exact hround

/-! ## Reading back what was printed -/

/-- The text of the sign. -/
def signText (negative : Bool) : StdString := if negative then [45] else []

theorem takeSign_signText (negative : Bool) {body : StdString} {b : UInt8} {rest : StdString}
    (hbody : body = b :: rest) (hb : isDigit b = true) :
    takeSign (signText negative ++ body) = (negative, body) ∧
      (signText negative ++ body).dropWhile isspace = signText negative ++ body := by
  subst hbody
  cases negative with
  | true => exact ⟨rfl, List.dropWhile_cons_of_neg (by decide)⟩
  | false =>
    exact ⟨takeSign_of_isDigit hb, List.dropWhile_cons_of_neg (by simp [isspace_of_isDigit hb])⟩

theorem to_string_eq {v : Double} (hv : v.isFinite = true) :
    to_string v = signText v.isNegative ++ fixedText v.millionths := by
  rw [to_string, unsignedText, if_pos hv, signText]

/-- The number in the text of a finite value is all of it but the unit. -/
theorem numericPrefix_toText {v : Double} (hv : v.isFinite = true) :
    numericPrefix (DecibelValueType.toText ieee v) = some (to_string v) := by
  have hends : Ends [32, 100, 66] := by
    intro b hb
    cases hb
    decide
  have hexponent : exponent 101 [32, 100, 66] = [] := by decide
  obtain ⟨b, c, rest, hcons, hb, -⟩ := fixedText_eq_cons v.millionths
  have hbody : fixedText v.millionths ++ [32, 100, 66] = b :: (c :: rest ++ [32, 100, 66]) := by
    rw [hcons]
    rfl
  have htext : DecibelValueType.toText ieee v =
      signText v.isNegative ++ (fixedText v.millionths ++ [32, 100, 66]) := by
    have happend : DecibelValueType.toText ieee v = to_string v ++ [32, 100, 66] := rfl
    rw [happend, to_string_eq hv, List.append_assoc]
  obtain ⟨hsign, hblank⟩ := takeSign_signText v.isNegative hbody hb
  have hnumber : number isDigit 101 (fixedText v.millionths ++ [32, 100, 66]) =
      some (fixedText v.millionths) := by
    rw [number, mantissa_fixedText _ hends, Option.map_some, List.drop_left, hexponent,
      List.append_nil]
  have htake : (signText v.isNegative ++ (fixedText v.millionths ++ [32, 100, 66])).take
      ((signText v.isNegative ++ (fixedText v.millionths ++ [32, 100, 66])).length -
        (fixedText v.millionths ++ [32, 100, 66]).length) = signText v.isNegative := by
    rw [List.length_append, Nat.add_sub_cancel_right, List.take_left]
  rw [htext]
  simp only [numericPrefix, hblank, hsign, htake, hexadecimal_fixedText, hnumber, Option.none_or,
    Option.some_or, Option.map_some, to_string_eq hv]

/-- The double read from a printed number is finite, has its sign, and is no farther from it
than the one printed. -/
theorem nearest_to_string {v : Double} (hv : v.isFinite = true) :
    ∃ w, nearest (to_string v) = some w ∧ w.isFinite = true ∧ w.isNegative = v.isNegative ∧
      |w.magnitude - v.millionths / 10 ^ 6| ≤ |v.magnitude - v.millionths / 10 ^ 6| := by
  obtain ⟨b, c, rest, hcons, hb, -⟩ := fixedText_eq_cons v.millionths
  have hsign := (takeSign_signText v.isNegative hcons hb).1
  have hhex : hexadecimal (fixedText v.millionths) = none := by
    have h := hexadecimal_fixedText v.millionths []
    rwa [List.append_nil] at h
  have hmantissa : mantissa isDigit (fixedText v.millionths) = some (fixedText v.millionths) := by
    have h := @mantissa_fixedText v.millionths [] nofun
    rwa [List.append_nil] at h
  have hq : (v.millionths : ℚ) / 10 ^ 6 = 0 ∨ 1 / 10 ^ 6 ≤ (v.millionths : ℚ) / 10 ^ 6 := by
    rcases Nat.eq_zero_or_pos v.millionths with hzero | hpos
    · left
      rw [hzero]
      norm_num
    · right
      have hone : (1 : ℚ) ≤ v.millionths := by exact_mod_cast hpos
      linarith
  obtain ⟨w, hw, hfinite, hneg, hnear⟩ :=
    ofMagnitude_near hv v.isNegative hq (abs_magnitude_sub_le v)
  refine ⟨w, ?_, hfinite, hneg, hnear⟩
  rw [to_string_eq hv]
  simp only [nearest, hsign, hhex, Option.isSome_none, Bool.false_eq_true, if_false, hmantissa,
    fixedValue_fixedText, List.drop_length, exponentValue, zpow_zero, mul_one, hw]

/-- A double as near to a printed number as the one printed is printed the same. -/
theorem to_string_eq_of_near {v w : Double} (hv : v.isFinite = true) (hw : w.isFinite = true)
    (hneg : w.isNegative = v.isNegative)
    (hnear : |w.magnitude - v.millionths / 10 ^ 6| ≤ |v.magnitude - v.millionths / 10 ^ 6|) :
    to_string w = to_string v := by
  have hscale : ∀ m : ℚ, |m * 10 ^ 6 - (roundEven (v.magnitude * 10 ^ 6) : ℤ)| =
      |m - v.millionths / 10 ^ 6| * 10 ^ 6 := by
    intro m
    rw [← millionths_cast, ← abs_of_pos (show (0 : ℚ) < 10 ^ 6 by norm_num), ← abs_mul,
      abs_of_pos (show (0 : ℚ) < 10 ^ 6 by norm_num)]
    congr 1
    ring
  have hstable : roundEven (w.magnitude * 10 ^ 6) = roundEven (v.magnitude * 10 ^ 6) := by
    refine roundEven_stable ?_
    rw [hscale, hscale]
    exact mul_le_mul_of_nonneg_right hnear (by norm_num)
  have hmillionths : w.millionths = v.millionths := by
    rw [millionths, millionths, hstable]
  rw [to_string_eq hv, to_string_eq hw, hneg, hmillionths]

/-- The two doubles differ by a millionth at most. -/
theorem abs_toRat_sub_le {v w : Double} (hneg : w.isNegative = v.isNegative)
    (hnear : |w.magnitude - v.millionths / 10 ^ 6| ≤ |v.magnitude - v.millionths / 10 ^ 6|) :
    |w.toRat - v.toRat| ≤ 1 / 10 ^ 6 := by
  have hv := abs_magnitude_sub_le v
  have hmagnitude : |w.magnitude - v.magnitude| ≤ 1 / 10 ^ 6 := by
    have htri := abs_sub_le w.magnitude (v.millionths / 10 ^ 6) v.magnitude
    rw [abs_sub_comm ((v.millionths : ℚ) / 10 ^ 6)] at htri
    linarith
  rw [toRat, toRat, hneg]
  split
  · rw [← abs_neg]
    have heq : -(-w.magnitude - -v.magnitude) = w.magnitude - v.magnitude := by ring
    rwa [heq]
  · exact hmagnitude

end Double

/-! ## The host's round trip -/

namespace ParameterText

open Double (ieee)

/-- The value read from the text of a finite one. -/
theorem stod_toText {value : Double} (hfinite : value.isFinite = true) :
    ∃ after, stod ieee (DecibelValueType.toText ieee value) = .ok after ∧
      after.isFinite = true ∧ |after.toRat - value.toRat| ≤ 1 / 10 ^ 6 ∧
      DecibelValueType.toText ieee after = DecibelValueType.toText ieee value := by
  obtain ⟨after, hread, hafter, hneg, hnear⟩ := Double.nearest_to_string hfinite
  refine ⟨after, ?_, hafter, Double.abs_toRat_sub_le hneg hnear, ?_⟩
  · have hnearest : ieee.nearest (Double.to_string value) = some after := hread
    simp only [stod, ofBytes_toText, Double.numericPrefix_toText hfinite, hnearest]
  · have hsame := Double.to_string_eq_of_near hfinite hafter hneg hnear
    exact congrArg (· ++ [32, 100, 66]) hsame

/-- For every parameter, every finite value and every buffer that the text fits in: the host
that writes the value and reads the text back gets a value within a millionth of it, whose
text is the same again. -/
theorem texts_round_trip (platform : Platform) (d : ParamStore) {paramId : UInt32}
    {ptr : ParameterPtr} (hid : d.getParameterById paramId = some ptr) {value : Double}
    (hfinite : value.isFinite = true) {size : UInt32} {display : StdString}
    (hdisplay : display.length = size.toNat)
    (hfits : (DecibelValueType.toText ieee value).length < size.toNat) (before : Double) :
    ∃ w after, paramsValueToText platform ieee d.toParams paramId value size = .returned true w ∧
      w.InBounds size.toNat ∧
      paramsTextToValue ieee d.toParams paramId (w.apply display) before = .returned true after ∧
      after.isFinite = true ∧ |after.toRat - value.toRat| ≤ 1 / 10 ^ 6 ∧
      DecibelValueType.toText ieee after = DecibelValueType.toText ieee value := by
  have hcopy : CopyFits platform size.toUInt64 (DecibelValueType.toText ieee value) := by
    rw [← ofBytes_toText] at hfits
    cases platform with
    | windows => exact hfits
    | posix => exact Nat.zero_lt_of_lt hfits
  obtain ⟨w, hw, hin, hstores⟩ := valueToText_fits hid hcopy
  obtain ⟨after, hread, hafter, hclose, hsame⟩ := stod_toText hfinite
  rw [List.take_of_length_le (by omega)] at hstores
  have hnul := CString.ofBytes_eq_self.mp (ofBytes_toText ieee value)
  have hback := @CString.Writes.Stores.ofBytes_apply _ display _ hstores hnul (by omega)
  refine ⟨w, after, hw, hin, ?_, hafter, hclose, hsame⟩
  simp only [paramsTextToValue, hid, hback, DecibelValueType.fromText, hread]

/-- The double next to a tenth, which no double is. -/
def tenth : Double := ⟨0x3FB999999999999A⟩

theorem tenth_millionths : tenth.millionths = 100000 := by
  have hmantissa : Double.binary64.mantissa tenth.magnitudeBits = 0x1999999999999A := by decide
  have hexponent : Double.binary64.exponent tenth.magnitudeBits = -56 := by decide
  have hvalue : tenth.magnitude = 0x1999999999999A * 2 ^ (-56 : ℤ) := by
    rw [Double.magnitude, BinaryFormat.value, hmantissa, hexponent]
    rfl
  -- a hundred thousand and a little: no other integer is within one half
  have hlow : 100000 ≤ tenth.magnitude * 10 ^ 6 := by
    rw [hvalue]
    norm_num
  have hhigh : tenth.magnitude * 10 ^ 6 < 100000 + 1 / 2 := by
    rw [hvalue]
    norm_num
  have heq : roundEven (tenth.magnitude * 10 ^ 6) = 100000 := by
    generalize tenth.magnitude * 10 ^ 6 = x at hlow hhigh
    rcases abs_le.mp (abs_sub_roundEven x) with ⟨hdown, hup⟩
    have hgt : ((99999 : ℤ) : ℚ) < roundEven x := by
      push_cast
      linarith
    have hlt : (roundEven x : ℚ) < ((100001 : ℤ) : ℚ) := by
      push_cast
      linarith
    have hgt' := Int.cast_lt.mp hgt
    have hlt' := Int.cast_lt.mp hlt
    omega
  rw [Double.millionths, heq]
  rfl

/-- A tenth in a buffer of sixteen bytes: what comes back is as near as promised and is
printed as the same text. -/
theorem texts_round_trip_tenth :
    DecibelValueType.toText ieee tenth = [48, 46, 49, 48, 48, 48, 48, 48, 32, 100, 66] ∧
    ∃ w after,
      paramsValueToText .posix ieee (HostEvents.oneParam 7).toParams 7 tenth 16 =
        .returned true w ∧
      w.InBounds 16 ∧
      paramsTextToValue ieee (HostEvents.oneParam 7).toParams 7
        (w.apply (List.replicate 16 1)) default = .returned true after ∧
      |after.toRat - tenth.toRat| ≤ 1 / 10 ^ 6 ∧
      DecibelValueType.toText ieee after = [48, 46, 49, 48, 48, 48, 48, 48, 32, 100, 66] := by
  have hfinite : tenth.isFinite = true := by decide
  have htext : DecibelValueType.toText ieee tenth =
      [48, 46, 49, 48, 48, 48, 48, 48, 32, 100, 66] := by
    have happend : DecibelValueType.toText ieee tenth =
        Double.to_string tenth ++ [32, 100, 66] := rfl
    rw [happend, Double.to_string_eq hfinite, tenth_millionths]
    decide
  have h := @texts_round_trip .posix (HostEvents.oneParam 7) 7 1 rfl tenth hfinite 16
    (List.replicate 16 1) rfl (by rw [htext]; decide) default
  obtain ⟨w, after, hwritten, hin, hread, -, hclose, hsame⟩ := h
  exact ⟨htext, w, after, hwritten, hin, hread, hclose, hsame.trans htext⟩

end ParameterText

end ClapRci
