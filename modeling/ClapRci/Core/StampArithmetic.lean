import ClapRci.Lib.MixedRadix
import ClapRci.Core.Timestamp
import Mathlib.Order.Monotone.Basic

/-!
# Arithmetic on time stamps (`core/timestamp.h`)

`delta` and `subtractMilliseconds` of `Stamp`, next to the nanoseconds that a stamp stands
for. On normalised stamps the nanoseconds are in the order of `operator<=>`, and `delta`
computes exactly their difference. `subtractMilliseconds` borrows a second but never carries
one: it is exact up to the end of the stamp's own second only.
-/

namespace ClapRci

open MixedRadix

namespace Stamp

/-- `delta`. -/
def delta (s older : Stamp) : Stamp :=
  let deltaSec := s.mSeconds - older.mSeconds
  let deltaNanos := s.mNanos - older.mNanos
  if deltaNanos < 0 then
    { mSeconds := deltaSec - 1, mNanos := deltaNanos + 1000000000 }
  else { mSeconds := deltaSec, mNanos := deltaNanos }

/-- `subtractMilliseconds`; `/` and `%` round towards zero, as in the source. -/
def subtractMilliseconds (s : Stamp) (millis : Int64) : Stamp :=
  let secondsToSubtract := millis / 1000
  let nanosToSubtract := millis % 1000 * 1000000
  let mSeconds := s.mSeconds - secondsToSubtract
  if s.mNanos < nanosToSubtract then
    { mSeconds := mSeconds - 1, mNanos := s.mNanos + 1000000000 - nanosToSubtract }
  else { mSeconds := mSeconds, mNanos := s.mNanos - nanosToSubtract }

/-! ## The instant of a stamp -/

/-- The nanoseconds that the stamp stands for. -/
def total (s : Stamp) : ℤ := value 1000000000 s.mSeconds.toInt s.mNanos.toInt

/-- The nanoseconds are less than a second. -/
def Normalised (s : Stamp) : Prop := Normal 1000000000 s.mNanos.toInt

variable {s t a b c : Stamp}

theorem total_lt_iff (hs : s.Normalised) (ht : t.Normalised) : s.total < t.total ↔ s < t := by
  rw [lt_iff, Int64.lt_iff_toInt_lt, Int64.lt_iff_toInt_lt, ← Int64.toInt_inj]
  exact value_lt_iff hs ht

/-- `operator<=>` compares the instants. -/
theorem compare_eq (hs : s.Normalised) (ht : t.Normalised) :
    compare s t = compare s.total t.total := by
  rcases lt_trichotomy s t with hlt | rfl | hgt
  · rw [compare_lt_iff_lt.mpr hlt, compare_lt_iff_lt.mpr ((total_lt_iff hs ht).mpr hlt)]
  · rw [compare_eq_iff_eq.mpr rfl, compare_eq_iff_eq.mpr rfl]
  · rw [compare_gt_iff_gt.mpr hgt, compare_gt_iff_gt.mpr ((total_lt_iff ht hs).mpr hgt)]

/-! ## Arithmetic without overflow -/

/-- The number is an `int64_t`. -/
def Fits (z : ℤ) : Prop := -2 ^ 63 ≤ z ∧ z < 2 ^ 63

theorem bmod_of_fits {z : ℤ} (h : Fits z) : z.bmod (2 ^ 64) = z := by
  obtain ⟨hlo, hhi⟩ := h
  apply Int.bmod_eq_of_le <;> omega

theorem fits_toInt (x : Int64) : Fits x.toInt := ⟨x.le_toInt, x.toInt_lt⟩

theorem toInt_sub {x y : Int64} (h : Fits (x.toInt - y.toInt)) :
    (x - y).toInt = x.toInt - y.toInt := by
  rw [Int64.toInt_sub, bmod_of_fits h]

theorem toInt_add {x y : Int64} (h : Fits (x.toInt + y.toInt)) :
    (x + y).toInt = x.toInt + y.toInt := by
  rw [Int64.toInt_add, bmod_of_fits h]

/-! ## `delta` -/

/-- No subtraction of seconds in `s.delta(older)` overflows. -/
def DeltaFits (s older : Stamp) : Prop :=
  Fits (s.mSeconds.toInt - older.mSeconds.toInt) ∧
    (s.mNanos < older.mNanos → Fits (s.mSeconds.toInt - older.mSeconds.toInt - 1))

/-- The borrow is taken when the nanoseconds of the older stamp are the larger ones. -/
theorem delta_parts (ha : a.Normalised) (hb : b.Normalised) (hfit : a.DeltaFits b) :
    if a.mNanos.toInt < b.mNanos.toInt then
      (a.delta b).mSeconds.toInt = a.mSeconds.toInt - b.mSeconds.toInt - 1 ∧
        (a.delta b).mNanos.toInt = a.mNanos.toInt - b.mNanos.toInt + 1000000000
    else
      (a.delta b).mSeconds.toInt = a.mSeconds.toInt - b.mSeconds.toInt ∧
        (a.delta b).mNanos.toInt = a.mNanos.toInt - b.mNanos.toInt := by
  obtain ⟨ha0, ha1⟩ := ha
  obtain ⟨hb0, hb1⟩ := hb
  have hsec := toInt_sub hfit.1
  have hnano : (a.mNanos - b.mNanos).toInt = a.mNanos.toInt - b.mNanos.toInt :=
    toInt_sub (by constructor <;> omega)
  have hneg : a.mNanos - b.mNanos < 0 ↔ a.mNanos.toInt < b.mNanos.toInt := by
    rw [Int64.lt_iff_toInt_lt, hnano, Int64.toInt_zero]
    omega
  unfold delta
  by_cases hlt : a.mNanos.toInt < b.mNanos.toInt
  · have hborrow := hfit.2 (Int64.lt_iff_toInt_lt.mpr hlt)
    rw [if_pos hlt, if_pos (hneg.mpr hlt)]
    constructor
    · rw [← hsec] at hborrow ⊢
      exact toInt_sub hborrow
    · rw [← hnano]
      refine toInt_add ?_
      rw [hnano, show (1000000000 : Int64).toInt = 1000000000 from by decide]
      constructor <;> omega
  · rw [if_neg hlt, if_neg (mt hneg.mp hlt)]
    exact ⟨hsec, hnano⟩

theorem delta_normalised (ha : a.Normalised) (hb : b.Normalised) (hfit : a.DeltaFits b) :
    (a.delta b).Normalised := by
  have hparts := delta_parts ha hb hfit
  unfold Normalised
  split at hparts
  · rename_i hlt
    rw [hparts.2]
    exact Normal.borrow ha hb (Int.sub_neg_of_lt hlt)
  · rename_i hge
    rw [hparts.2]
    have hb0 := hb.1
    have ha1 := ha.2
    constructor <;> omega

theorem delta_total (ha : a.Normalised) (hb : b.Normalised) (hfit : a.DeltaFits b) :
    (a.delta b).total = a.total - b.total := by
  have hparts := delta_parts ha hb hfit
  unfold total
  split at hparts
  · rw [hparts.1, hparts.2, value_borrow]
    unfold value
    omega
  · rw [hparts.1, hparts.2]
    unfold value
    omega

/-- The sign is in the seconds, and says which of the two is the later one. -/
theorem delta_nonneg_iff (ha : a.Normalised) (hb : b.Normalised) (hfit : a.DeltaFits b) :
    0 ≤ (a.delta b).mSeconds ↔ b ≤ a := by
  rw [Int64.le_iff_toInt_le, Int64.toInt_zero,
    ← value_nonneg_iff (delta_normalised ha hb hfit)]
  change 0 ≤ (a.delta b).total ↔ b ≤ a
  rw [delta_total ha hb hfit, Int.sub_nonneg, ← Int.not_lt, total_lt_iff ha hb, not_lt]

/-- On normalised stamps `delta` is the difference of the instants, in normal form, with the
sign in the seconds; it composes; and `operator<=>` and `setIfNewer` go by the instants. -/
theorem delta_exact (a b : Stamp) (ha : a.Normalised) (hb : b.Normalised) :
    (a.DeltaFits b → (a.delta b).Normalised ∧ (a.delta b).total = a.total - b.total ∧
      (0 ≤ (a.delta b).mSeconds ↔ b ≤ a)) ∧
    (∀ c : Stamp, c.Normalised → a.DeltaFits b → b.DeltaFits c → a.DeltaFits c →
      (a.delta c).total = (a.delta b).total + (b.delta c).total) ∧
    compare a b = compare a.total b.total ∧
    a.setIfNewer b.mSeconds b.mNanos = (if a.total < b.total then (true, b) else (false, a)) := by
  refine ⟨?_, ?_, compare_eq ha hb, ?_⟩
  · intro hfit
    exact ⟨delta_normalised ha hb hfit, delta_total ha hb hfit, delta_nonneg_iff ha hb hfit⟩
  · intro c hc hab hbc hac
    rw [delta_total ha hc hac, delta_total ha hb hab, delta_total hb hc hbc]
    omega
  · rw [setIfNewer_eq]
    simp only [total_lt_iff ha hb]

/-- Across the end of a second. -/
theorem delta_exact_borrow :
    ((⟨5, 200000000⟩ : Stamp).delta ⟨4, 700000000⟩).total =
      (⟨5, 200000000⟩ : Stamp).total - (⟨4, 700000000⟩ : Stamp).total := by
  have hfit : DeltaFits ⟨5, 200000000⟩ ⟨4, 700000000⟩ := by
    refine ⟨?_, fun _ => ?_⟩ <;> constructor <;> decide
  have h := delta_exact ⟨5, 200000000⟩ ⟨4, 700000000⟩ (by constructor <;> decide)
    (by constructor <;> decide)
  exact (h.1 hfit).2.1

/-! ## `subtractMilliseconds` -/

/-- `secondsToSubtract`, without overflow. -/
def wholeSeconds (millis : Int64) : ℤ := millis.toInt.tdiv 1000

/-- `nanosToSubtract`: what the milliseconds have below a second, with their sign. -/
def subSecond (millis : Int64) : ℤ := millis.toInt.tmod 1000 * 1000000

/-- No subtraction of seconds in `s.subtractMilliseconds(millis)` overflows. -/
def SubtractFits (s : Stamp) (millis : Int64) : Prop :=
  Fits (s.mSeconds.toInt - wholeSeconds millis) ∧
    (s.mNanos.toInt < subSecond millis → Fits (s.mSeconds.toInt - wholeSeconds millis - 1))

theorem wholeSeconds_subSecond (millis : Int64) :
    value 1000000000 (wholeSeconds millis) (subSecond millis) = millis.toInt * 1000000 := by
  have h := Int.mul_tdiv_add_tmod millis.toInt 1000
  unfold value wholeSeconds subSecond
  omega

theorem subSecond_bounds (millis : Int64) :
    -1000000000 < subSecond millis ∧ subSecond millis < 1000000000 := by
  have hlo := Int.lt_tmod_of_pos millis.toInt (b := 1000) (by decide)
  have hhi := Int.tmod_lt_of_pos millis.toInt (b := 1000) (by decide)
  unfold subSecond
  constructor <;> omega

theorem toInt_secondsToSubtract (millis : Int64) :
    (millis / 1000).toInt = wholeSeconds millis := by
  rw [Int64.toInt_div_of_ne_right _ _ (by decide)]
  rfl

theorem toInt_nanosToSubtract (millis : Int64) :
    (millis % 1000 * 1000000).toInt = subSecond millis := by
  have hbounds := subSecond_bounds millis
  have hmod : (millis % 1000).toInt = millis.toInt.tmod 1000 := Int64.toInt_mod _ _
  have hmul : (millis % 1000).toInt * (1000000 : Int64).toInt = subSecond millis := by
    rw [hmod]
    rfl
  rw [Int64.toInt_mul, hmul]
  apply bmod_of_fits
  constructor <;> omega

/-- `-millis` takes back what `millis` takes away, in each part. -/
theorem parts_neg {millis : Int64} (h : millis ≠ Int64.minValue) :
    wholeSeconds (-millis) = -wholeSeconds millis ∧ subSecond (-millis) = -subSecond millis := by
  have hneg : (-millis).toInt = -millis.toInt := by
    have hmin : millis.toInt ≠ -2 ^ 63 := fun heq => h (Int64.toInt_inj.mp heq)
    have hlo := millis.le_toInt
    have hhi := millis.toInt_lt
    rw [Int64.toInt_neg]
    apply bmod_of_fits
    constructor <;> omega
  unfold wholeSeconds subSecond
  rw [hneg, Int.neg_tdiv, Int.neg_tmod, Int.neg_mul]
  exact ⟨rfl, rfl⟩

/-- A second is borrowed when the stamp has fewer nanoseconds than there are to subtract. -/
theorem subtractMilliseconds_mNanos (hs : s.Normalised) (millis : Int64) :
    (s.subtractMilliseconds millis).mNanos.toInt =
      if s.mNanos.toInt < subSecond millis then s.mNanos.toInt + 1000000000 - subSecond millis
      else s.mNanos.toInt - subSecond millis := by
  obtain ⟨hs0, hs1⟩ := hs
  have hbounds := subSecond_bounds millis
  have hn := toInt_nanosToSubtract millis
  simp only [subtractMilliseconds, Int64.lt_iff_toInt_lt, hn]
  split
  · have hadd : (s.mNanos + 1000000000).toInt = s.mNanos.toInt + 1000000000 := by
      refine toInt_add ?_
      rw [show (1000000000 : Int64).toInt = 1000000000 from by decide]
      constructor <;> omega
    rw [← hadd, ← hn]
    refine toInt_sub ?_
    rw [hadd, hn]
    constructor <;> omega
  · rw [← hn]
    refine toInt_sub ?_
    rw [hn]
    constructor <;> omega

theorem subtractMilliseconds_mSeconds {millis : Int64} (hfit : s.SubtractFits millis) :
    (s.subtractMilliseconds millis).mSeconds.toInt =
      if s.mNanos.toInt < subSecond millis then s.mSeconds.toInt - wholeSeconds millis - 1
      else s.mSeconds.toInt - wholeSeconds millis := by
  have hq := toInt_secondsToSubtract millis
  have hsec : (s.mSeconds - millis / 1000).toInt = s.mSeconds.toInt - wholeSeconds millis := by
    rw [← hq]
    refine toInt_sub ?_
    rw [hq]
    exact hfit.1
  simp only [subtractMilliseconds, Int64.lt_iff_toInt_lt, toInt_nanosToSubtract]
  split
  · rename_i hlt
    have hborrow := hfit.2 hlt
    rw [← hsec] at hborrow ⊢
    exact toInt_sub hborrow
  · exact hsec

/-- The total is right with a borrow and without one. -/
theorem subtractMilliseconds_total (hs : s.Normalised) {millis : Int64}
    (hfit : s.SubtractFits millis) :
    (s.subtractMilliseconds millis).total = s.total - millis.toInt * 1000000 := by
  rw [total, subtractMilliseconds_mNanos hs, subtractMilliseconds_mSeconds hfit,
    ← wholeSeconds_subSecond]
  unfold total value
  split <;> omega

/-- The subtraction stays within the second of the stamp: nothing to borrow or to carry. -/
def WithinSecond (s : Stamp) (millis : Int64) : Prop :=
  Normal 1000000000 (s.mNanos.toInt - subSecond millis)

/-- What is expected of `s.subtractMilliseconds(millis)`. Back again is only asked for where
`-millis` is an `int64_t`. -/
structure SubtractsExactly (s : Stamp) (millis : Int64) : Prop where
  normalised : (s.subtractMilliseconds millis).Normalised
  total_eq : (s.subtractMilliseconds millis).total = s.total - millis.toInt * 1000000
  restored : millis ≠ Int64.minValue →
    (s.subtractMilliseconds millis).subtractMilliseconds (-millis) = s

theorem SubtractsExactly.of_withinSecond (hs : s.Normalised) {millis : Int64}
    (hfit : s.SubtractFits millis) (h : s.WithinSecond millis) : s.SubtractsExactly millis := by
  have hno : ¬s.mNanos.toInt < subSecond millis := Int.not_lt.mpr (Int.sub_nonneg.mp h.1)
  have hnano := subtractMilliseconds_mNanos hs millis
  have hsec := subtractMilliseconds_mSeconds hfit
  rw [if_neg hno] at hnano hsec
  have hnormal : (s.subtractMilliseconds millis).Normalised := by
    unfold Normalised
    rwa [hnano]
  refine ⟨hnormal, subtractMilliseconds_total hs hfit, ?_⟩
  intro hmin
  obtain ⟨hq, hn⟩ := parts_neg hmin
  have hs0 := hs.1
  -- the way back takes the other sign, and has nothing to borrow either
  have hback : ¬(s.subtractMilliseconds millis).mNanos.toInt < subSecond (-millis) := by
    rw [hnano, hn]
    omega
  have hfit' : (s.subtractMilliseconds millis).SubtractFits (-millis) := by
    refine ⟨?_, fun hlt => absurd hlt hback⟩
    rw [hsec, hq]
    have hfits := fits_toInt s.mSeconds
    unfold Fits at hfits ⊢
    omega
  have hnano' := subtractMilliseconds_mNanos hnormal (-millis)
  have hsec' := subtractMilliseconds_mSeconds hfit'
  rw [if_neg hback, hnano, hn, Int.sub_neg, Int.sub_add_cancel] at hnano'
  rw [if_neg hback, hsec, hq, Int.sub_neg, Int.sub_add_cancel] at hsec'
  apply key_injective
  rw [key, hsec', hnano', key]

theorem SubtractsExactly.withinSecond (hs : s.Normalised) {millis : Int64}
    (h : s.SubtractsExactly millis) : s.WithinSecond millis := by
  have hnormal := h.normalised
  have hnano := subtractMilliseconds_mNanos hs millis
  by_cases hlt : s.mNanos.toInt < subSecond millis
  · -- a borrowed second is never given back
    rw [if_pos hlt] at hnano
    have hs0 := hs.1
    have hmin : millis ≠ Int64.minValue := by
      rintro rfl
      exact absurd (Int.lt_of_le_of_lt hs0 hlt) (by decide)
    have hn := (parts_neg hmin).2
    have hback := subtractMilliseconds_mNanos hnormal (-millis)
    have hr0 := hnormal.1
    rw [h.restored hmin, hn, hnano, if_neg (by omega)] at hback
    omega
  · rw [if_neg hlt] at hnano
    unfold Normalised at hnormal
    rwa [hnano] at hnormal

/-- Two subtractions are exact, and their results in the order of the instants, if and only
if neither leaves the second of its stamp. -/
theorem subtractMilliseconds_exact_iff (s t : Stamp) (m k : Int64) (hs : s.Normalised)
    (ht : t.Normalised) (hm : s.SubtractFits m) (hk : t.SubtractFits k) :
    (s.SubtractsExactly m ∧ t.SubtractsExactly k ∧
      compare (s.subtractMilliseconds m) (t.subtractMilliseconds k) =
        compare (s.total - m.toInt * 1000000) (t.total - k.toInt * 1000000)) ↔
      s.WithinSecond m ∧ t.WithinSecond k := by
  constructor
  · rintro ⟨hsm, htk, _⟩
    exact ⟨hsm.withinSecond hs, htk.withinSecond ht⟩
  · rintro ⟨hsm, htk⟩
    have hs' := SubtractsExactly.of_withinSecond hs hm hsm
    have ht' := SubtractsExactly.of_withinSecond ht hk htk
    refine ⟨hs', ht', ?_⟩
    rw [← hs'.total_eq, ← ht'.total_eq]
    exact compare_eq hs'.normalised ht'.normalised

theorem subtractMilliseconds_exact_quarter :
    (⟨2, 500000000⟩ : Stamp).SubtractsExactly 250 := by
  have hs : (⟨2, 500000000⟩ : Stamp).Normalised := by constructor <;> decide
  have hfit : (⟨2, 500000000⟩ : Stamp).SubtractFits 250 := by
    refine ⟨?_, fun _ => ?_⟩ <;> constructor <;> decide
  have hin : (⟨2, 500000000⟩ : Stamp).WithinSecond 250 := by constructor <;> decide
  have h := subtractMilliseconds_exact_iff ⟨2, 500000000⟩ ⟨2, 500000000⟩ 250 250 hs hs hfit hfit
  exact (h.mpr ⟨hin, hin⟩).1

/-- A millisecond added at the end of a second leaves more than a second of nanoseconds, in a
stamp that comes before the next second though its instant comes after. -/
theorem subtractMilliseconds_fails :
    ¬∀ (s : Stamp) (millis : Int64), s.Normalised → s.SubtractFits millis →
      s.SubtractsExactly millis := by
  intro h
  have hexact := h ⟨0, 999999999⟩ (-1) (by constructor <;> decide)
    (by refine ⟨?_, fun _ => ?_⟩ <;> constructor <;> decide)
  exact absurd hexact.normalised.2 (by decide)

end Stamp

end ClapRci
