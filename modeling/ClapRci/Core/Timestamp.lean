import Mathlib.Data.Prod.Lex
import Mathlib.Order.Basic

/-!
# Time stamps (`core/timestamp.h`)

`Stamp` with its defaulted `operator<=>`, the lexicographic order of its two members, and
`setIfNewer`.
-/

namespace ClapRci

/-- `Stamp`: seconds and nanoseconds, any `int64_t` each. -/
structure Stamp where
  mSeconds : Int64 := 0
  mNanos : Int64 := 0

namespace Stamp

instance : Inhabited Stamp := ⟨{}⟩

/-- The pair the defaulted `operator<=>` compares. -/
def key (s : Stamp) : ℤ ×ₗ ℤ := toLex (s.mSeconds.toInt, s.mNanos.toInt)

theorem key_injective : Function.Injective key := by
  rintro ⟨sec, nano⟩ ⟨sec', nano'⟩ h
  have hpair : (sec.toInt, nano.toInt) = (sec'.toInt, nano'.toInt) := toLex.injective h
  rw [Prod.mk.injEq] at hpair
  rw [Int64.toInt_inj.mp hpair.1, Int64.toInt_inj.mp hpair.2]

/-- `operator<=>`. -/
instance : LinearOrder Stamp := LinearOrder.lift' key key_injective

/-- Later seconds, or the same seconds and later nanoseconds. -/
theorem lt_iff {s t : Stamp} :
    s < t ↔ s.mSeconds < t.mSeconds ∨ (s.mSeconds = t.mSeconds ∧ s.mNanos < t.mNanos) := by
  have hkey : s < t ↔ key s < key t := Iff.rfl
  rw [hkey, Prod.Lex.lt_iff, Int64.lt_iff_toInt_lt, Int64.lt_iff_toInt_lt, ← Int64.toInt_inj]
  rfl

/-- `setIfNewer(seconds, nanos)`. -/
def setIfNewer (s : Stamp) (seconds nanos : Int64) : Bool × Stamp :=
  if seconds > s.mSeconds ∨ (seconds = s.mSeconds ∧ nanos > s.mNanos) then
    (true, { mSeconds := seconds, mNanos := nanos })
  else (false, s)

/-- The comparison `setIfNewer` writes out is the order of stamps. -/
theorem setIfNewer_eq (s : Stamp) (seconds nanos : Int64) :
    s.setIfNewer seconds nanos =
      if s < ⟨seconds, nanos⟩ then (true, ⟨seconds, nanos⟩) else (false, s) := by
  unfold setIfNewer
  by_cases h : s < ⟨seconds, nanos⟩
  · rw [if_pos h, if_pos]
    rcases lt_iff.mp h with hsec | ⟨hsec, hnano⟩
    · exact Or.inl hsec
    · exact Or.inr ⟨hsec.symm, hnano⟩
  · rw [if_neg h, if_neg]
    rintro (hsec | ⟨hsec, hnano⟩)
    · exact h (lt_iff.mpr (Or.inl hsec))
    · exact h (lt_iff.mpr (Or.inr ⟨hsec.symm, hnano⟩))

end Stamp

end ClapRci
