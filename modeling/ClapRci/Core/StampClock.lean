import ClapRci.Lib.Decimal
import ClapRci.Core.StampArithmetic
import Mathlib.Data.List.Basic

/-!
# Time stamps of the clock (`core/timestamp.h`)

`Timestamp::stamp` splits the nanoseconds of the system clock into seconds and nanoseconds by
divisions that round towards zero; `Stamp::fmt` prints the two parts.

* `stamp_of_clock`: the stamps of any readings are in the order of the readings, before 1970
  as well, and the arithmetic of stamps agrees with that of the readings from 1970 on; their
  texts sort like the readings, and a text belongs to one stamp only.
-/

namespace ClapRci

open MixedRadix

instance int64LinearOrder : LinearOrder Int64 where
  le_refl x := Int64.le_refl x
  le_trans x y z := Int64.le_trans
  lt_iff_le_not_ge x y := by
    rw [Int64.lt_iff_toInt_lt, Int64.le_iff_toInt_le, Int64.le_iff_toInt_le]
    omega
  le_antisymm x y := Int64.le_antisymm
  le_total x y := Int64.le_total x y
  toDecidableLE := inferInstance
  toDecidableLT := inferInstance

/-- `Timestamp::stamp()`, of the nanoseconds since 1970 that the clock shows. -/
def Timestamp.stamp (epoch : Int64) : Stamp where
  mSeconds := epoch / 1000000000
  mNanos := epoch % 1000000000

/-- `fmt()`. With an alignment in the format, the zeros of `{:0>10}` come before a minus. -/
def Stamp.fmt (s : Stamp) : List UInt8 :=
  Decimal.padLeft 10 (Decimal.intText s.mSeconds.toInt) ++ [46] ++
    Decimal.padLeft 9 (Decimal.intText s.mNanos.toInt)

namespace Timestamp

/-! ## Readings of the clock -/

theorem stamp_mSeconds (epoch : Int64) :
    (stamp epoch).mSeconds.toInt = epoch.toInt.tdiv 1000000000 :=
  Int64.toInt_div_of_ne_right _ _ (by decide)

theorem stamp_mNanos (epoch : Int64) :
    (stamp epoch).mNanos.toInt = epoch.toInt.tmod 1000000000 :=
  Int64.toInt_mod _ _

/-- The default stamp is that of 1970. -/
theorem stamp_zero : stamp 0 = {} := by decide

/-- A later reading gives a later stamp. -/
theorem stamp_lt_iff (x y : Int64) : stamp x < stamp y ↔ x < y := by
  rw [Stamp.lt_iff, Int64.lt_iff_toInt_lt, Int64.lt_iff_toInt_lt, Int64.lt_iff_toInt_lt,
    ← Int64.toInt_inj, stamp_mSeconds, stamp_mSeconds, stamp_mNanos, stamp_mNanos]
  exact tdiv_tmod_lt_iff (by decide)

theorem stamp_strictMono : StrictMono stamp := fun x y h => (stamp_lt_iff x y).mpr h

theorem stamp_total (epoch : Int64) : (stamp epoch).total = epoch.toInt := by
  rw [Stamp.total, stamp_mSeconds, stamp_mNanos, value_tdiv_tmod]

theorem stamp_normalised {epoch : Int64} (h : 0 ≤ epoch) : (stamp epoch).Normalised := by
  have hpos : 0 ≤ epoch.toInt := Int64.le_iff_toInt_le.mp h
  unfold Stamp.Normalised
  rw [stamp_mNanos]
  exact ⟨Int.tmod_nonneg _ hpos, Int.tmod_lt_of_pos _ (by decide)⟩

/-- From 1970 on, the seconds of a reading have ten digits at most. -/
theorem stamp_mSeconds_bounds {epoch : Int64} (h : 0 ≤ epoch) :
    0 ≤ (stamp epoch).mSeconds.toInt ∧ (stamp epoch).mSeconds.toInt < 10000000000 := by
  have hpos : 0 ≤ epoch.toInt := Int64.le_iff_toInt_le.mp h
  have hlt := epoch.toInt_lt
  rw [stamp_mSeconds, Int.tdiv_eq_ediv_of_nonneg hpos]
  omega

theorem stamp_deltaFits {x y : Int64} (hx : 0 ≤ x) (hy : 0 ≤ y) :
    (stamp x).DeltaFits (stamp y) := by
  have hbx := stamp_mSeconds_bounds hx
  have hby := stamp_mSeconds_bounds hy
  unfold Stamp.DeltaFits Stamp.Fits
  omega

end Timestamp

/-! ## Texts -/

namespace Stamp

theorem not_mem_padLeft_intText (width : Nat) (z : ℤ) :
    (46 : UInt8) ∉ Decimal.padLeft width (Decimal.intText z) := by
  intro h
  rcases Decimal.mem_padLeft h with hdigit | hmem
  · exact absurd hdigit (by decide)
  · exact Decimal.not_mem_intText z (by decide) (by decide) hmem

/-- Zeros in front do not make the texts of two numbers the same. -/
theorem padLeft_intText_inj {width : Nat} {y z : ℤ} :
    Decimal.padLeft width (Decimal.intText y) = Decimal.padLeft width (Decimal.intText z) ↔
      y = z := by
  constructor
  · intro h
    have hvalue := congrArg Decimal.intValue h
    rwa [Decimal.intValue_padLeft_intText, Decimal.intValue_padLeft_intText] at hvalue
  · rintro rfl
    rfl

/-- The parts are found again on the two sides of the dot. -/
theorem fmt_injective : Function.Injective fmt := by
  intro s t h
  unfold fmt at h
  simp only [List.append_assoc, List.singleton_append] at h
  obtain ⟨hsec, -, hnano⟩ := (List.append_cons_inj_of_notMem
    (not_mem_padLeft_intText 10 s.mSeconds.toInt) (not_mem_padLeft_intText 9 s.mNanos.toInt)).mp h
  rw [padLeft_intText_inj] at hsec hnano
  exact key_injective (by rw [key, key, hsec, hnano])

/-- A text of `fmt` in which each part has its width, and no sign. -/
def FmtFits (s : Stamp) : Prop :=
  (0 ≤ s.mSeconds.toInt ∧ s.mSeconds.toInt < 10 ^ 10) ∧ s.Normalised

theorem fmt_lt_iff {s t : Stamp} (hs : s.FmtFits) (ht : t.FmtFits) : s.fmt < t.fmt ↔ s < t := by
  have hlen : (Decimal.padLeft 10 (Decimal.intText s.mSeconds.toInt)).length =
      (Decimal.padLeft 10 (Decimal.intText t.mSeconds.toInt)).length := by
    rw [Decimal.length_padLeft_intText (by decide) hs.1,
      Decimal.length_padLeft_intText (by decide) ht.1]
  have hnano : ∀ u : Stamp, u.Normalised → 0 ≤ u.mNanos.toInt ∧ u.mNanos.toInt < 10 ^ 9 :=
    fun u hu => hu
  have hdot : ¬([46] : List UInt8) < [46] := by decide
  rw [fmt, fmt, Decimal.append_lt_append_iff (by simp [hlen]),
    Decimal.append_lt_append_iff hlen, List.append_cancel_right_eq, padLeft_intText_inj,
    Decimal.padLeft_intText_lt_iff (by decide) hs.1 ht.1,
    Decimal.padLeft_intText_lt_iff (by decide) (hnano s hs.2) (hnano t ht.2), lt_iff,
    Int64.lt_iff_toInt_lt, Int64.lt_iff_toInt_lt, ← Int64.toInt_inj]
  simp only [hdot, and_false, or_false]

end Stamp

/-! ## Stamps, arithmetic and texts -/

namespace Timestamp

theorem stamp_fmtFits {epoch : Int64} (h : 0 ≤ epoch) : (stamp epoch).FmtFits :=
  ⟨stamp_mSeconds_bounds h, stamp_normalised h⟩

/-- The stamps of any two readings of the clock are in their order, and stand for the
nanoseconds read. From 1970 on, `delta` is the time between the readings, and the texts are in
their order too. Different stamps never have the same text. -/
theorem stamp_of_clock (x y : Int64) :
    (stamp x < stamp y ↔ x < y) ∧ (stamp x).total = x.toInt ∧
      (0 ≤ x → 0 ≤ y →
        ((stamp x).delta (stamp y)).total = x.toInt - y.toInt ∧
          ((stamp x).delta (stamp y)).Normalised ∧
          ((stamp x).fmt < (stamp y).fmt ↔ x < y)) ∧
      Function.Injective Stamp.fmt := by
  refine ⟨stamp_lt_iff x y, stamp_total x, ?_, Stamp.fmt_injective⟩
  intro hx hy
  have hfit := stamp_deltaFits hx hy
  refine ⟨?_, ?_, ?_⟩
  · rw [Stamp.delta_total (stamp_normalised hx) (stamp_normalised hy) hfit, stamp_total,
      stamp_total]
  · exact Stamp.delta_normalised (stamp_normalised hx) (stamp_normalised hy) hfit
  · rw [Stamp.fmt_lt_iff (stamp_fmtFits hx) (stamp_fmtFits hy), stamp_lt_iff]

/-- Half a second, from one second into the next. -/
theorem stamp_of_clock_half :
    ((stamp 5200000000).delta (stamp 4700000000)).total = 500000000 ∧
      (stamp 4700000000).fmt < (stamp 5200000000).fmt := by
  have hlater := (stamp_of_clock 5200000000 4700000000).2.2.1 (by decide) (by decide)
  have hearlier := (stamp_of_clock 4700000000 5200000000).2.2.1 (by decide) (by decide)
  exact ⟨hlater.1, hearlier.2.2.mpr (by decide)⟩

end Timestamp

end ClapRci
