import Mathlib.Algebra.Group.Nat.Defs
import ClapRci.Lib.CString

/-!
# Copying strings into arrays (`core/global.h`)

`safe_str_copy` on the two kinds of platform. Both store the string with its terminator where
it fits. Elsewhere one cuts it off and the other ends the process, and a size of zero is not
told from a large one.
-/

namespace ClapRci

/-- Which branch of `#if defined _WIN32 || defined _WIN64` is compiled. -/
inductive Platform where
  | windows | posix
deriving DecidableEq

/-- What a copy does: it writes to the array, or the process is ended. -/
inductive Copied where
  | written (w : CString.Writes)
  | terminated

/-- `safe_str_copy(dest, dest_size, src)`, where `src` is the `c_str()` of these bytes. -/
def safeStrCopy (platform : Platform) (dest_size : UInt64) (src : List UInt8) : Copied :=
  let src := CString.ofBytes src
  match platform with
  | .windows =>
    -- the default handler of `strcpy_s` ends the process when the string does not fit
    if src.length < dest_size.toNat then .written (CString.strcpy src) else .terminated
  | .posix =>
    let n := (dest_size - 1).toNat
    .written ((CString.strncpy src n).set n 0)

/-- The size is enough for what the platform needs. -/
def CopyFits (platform : Platform) (dest_size : UInt64) (src : List UInt8) : Prop :=
  match platform with
  | .windows => (CString.ofBytes src).length < dest_size.toNat
  | .posix => 0 < dest_size.toNat

section

variable {platform : Platform} {dest_size : UInt64} {src : List UInt8}

theorem toNat_sub_one (h : 0 < dest_size.toNat) : (dest_size - 1).toNat = dest_size.toNat - 1 :=
  UInt64.toNat_sub_of_le _ _ (UInt64.le_iff_toNat_le.mpr h)

/-- The longest prefix of the string that fits is stored, and nothing is written elsewhere. -/
theorem safeStrCopy_of_fits (h : CopyFits platform dest_size src) :
    ∃ w, safeStrCopy platform dest_size src = .written w ∧
      w.Stores ((CString.ofBytes src).take (dest_size.toNat - 1)) ∧
      w.InBounds dest_size.toNat := by
  cases platform with
  | windows =>
    have hfit : (CString.ofBytes src).length < dest_size.toNat := h
    refine ⟨CString.strcpy (CString.ofBytes src), if_pos hfit, ?_, ?_⟩
    · rw [List.take_of_length_le (by omega)]
      exact CString.strcpy_stores _
    · exact CString.strcpy_inBounds hfit
  | posix =>
    have hpos : 0 < dest_size.toNat := h
    refine ⟨_, rfl, ?_, ?_⟩
    · rw [toNat_sub_one hpos]
      exact CString.strncpy_terminated _ _
    · have hin := CString.strncpy_terminated_inBounds (CString.ofBytes src) (dest_size.toNat - 1)
      rw [Nat.sub_add_cancel hpos] at hin
      rwa [toNat_sub_one hpos]

/-- Without enough room the process ends, or the copy leaves the array. -/
theorem safeStrCopy_of_not_fits (h : ¬CopyFits platform dest_size src) :
    safeStrCopy platform dest_size src = .terminated ∨
      ∃ w, safeStrCopy platform dest_size src = .written w ∧ ¬w.InBounds dest_size.toNat := by
  cases platform with
  | windows => exact Or.inl (if_neg h)
  | posix =>
    have hzero : dest_size = 0 := by
      apply UInt64.toNat_inj.mp
      exact Nat.eq_zero_of_not_pos h
    subst hzero
    refine Or.inr ⟨_, rfl, ?_⟩
    -- `dest_size - 1` is the largest number, so that the first byte is written already
    intro hin
    exact absurd (hin 0 (by simp [CString.Writes.set, CString.strncpy])) (by simp)

end

end ClapRci
