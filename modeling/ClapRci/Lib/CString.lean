import Mathlib.Data.List.Basic
import Mathlib.Data.List.TakeWhile
import Mathlib.Logic.Function.Basic
import Mathlib.Tactic.Common

/-!
# C strings in byte buffers

The bytes before the first NUL are what functions on C strings see. A copy is the bytes it
writes, by index, so that a copy past the end of a buffer can be told from one that stays
inside; a copy that stores a string with its terminator can be read back.
-/

namespace CString

variable {s buf : List UInt8}

/-- The string at the start of these bytes. -/
def ofBytes (s : List UInt8) : List UInt8 := s.takeWhile (· ≠ 0)

theorem zero_not_mem_ofBytes (s : List UInt8) : 0 ∉ ofBytes s := by
  intro h
  have := List.mem_takeWhile_imp h
  simp at this

/-- Only bytes without a NUL are a string as a whole. -/
theorem ofBytes_eq_self : ofBytes s = s ↔ 0 ∉ s := by
  constructor
  · intro h
    rw [← h]
    exact zero_not_mem_ofBytes s
  · intro h
    rw [ofBytes, List.takeWhile_eq_self_iff]
    intro b hb
    exact decide_eq_true fun hzero => h (hzero ▸ hb)

/-- The string ends at the first NUL. -/
theorem ofBytes_append_zero (h : 0 ∉ s) (rest : List UInt8) : ofBytes (s ++ 0 :: rest) = s := by
  have hall : ∀ b ∈ s, decide (b ≠ 0) = true := by
    intro b hb
    exact decide_eq_true fun hzero => h (hzero ▸ hb)
  rw [ofBytes, List.takeWhile_append_of_pos hall, List.takeWhile_cons_of_neg (by simp),
    List.append_nil]

/-! ## Copies -/

/-- The byte a call writes at each index, if it writes one there. -/
abbrev Writes := Nat → Option UInt8

namespace Writes

variable {w : Writes}

/-- The assignment `dest[i] = b` after these writes. -/
def set (w : Writes) (i : Nat) (b : UInt8) : Writes := Function.update w i (some b)

/-- The buffer after the writes. -/
def apply (w : Writes) (buf : List UInt8) : List UInt8 := buf.mapIdx fun i b => (w i).getD b

/-- Nothing is written behind a buffer of this size. -/
def InBounds (w : Writes) (size : Nat) : Prop := ∀ i, w i ≠ none → i < size

/-- The writes put the string into the buffer, and its terminator behind it. -/
def Stores (w : Writes) (s : List UInt8) : Prop :=
  (∀ i, (h : i < s.length) → w i = some s[i]) ∧ w s.length = some 0

@[simp] theorem length_apply (w : Writes) (buf : List UInt8) :
    (w.apply buf).length = buf.length := by
  simp [apply]

/-- A string that was stored in a buffer that holds it is read back. -/
theorem Stores.ofBytes_apply (h : w.Stores s) (hs : 0 ∉ s) (hlen : s.length < buf.length) :
    ofBytes (w.apply buf) = s := by
  have hsplit : w.apply buf = s ++ 0 :: (w.apply buf).drop (s.length + 1) := by
    apply List.ext_getElem
    · simp only [length_apply, List.length_append, List.length_cons, List.length_drop]
      omega
    · intro i hi hi'
      rw [length_apply] at hi
      rcases Nat.lt_trichotomy i s.length with hlt | heq | hgt
      · rw [List.getElem_append_left hlt]
        simp [apply, h.1 i hlt]
      · subst heq
        simp [apply, h.2]
      · rw [List.getElem_append_right (by omega)]
        obtain ⟨j, rfl⟩ : ∃ j, i = s.length + 1 + j := ⟨i - (s.length + 1), by omega⟩
        have hj : s.length + 1 + j - s.length = j + 1 := by omega
        simp [hj]
  rw [hsplit]
  exact ofBytes_append_zero hs _

end Writes

/-- `strncpy(dest, src, n)`: the string, cut off or filled with NULs to `n` bytes. -/
def strncpy (src : List UInt8) (n : Nat) : Writes :=
  fun i => if i < n then some (src[i]?.getD 0) else none

/-- `strcpy(dest, src)`. -/
def strcpy (src : List UInt8) : Writes :=
  fun i => if i ≤ src.length then some (src[i]?.getD 0) else none

theorem strcpy_stores (src : List UInt8) : (strcpy src).Stores src := by
  constructor
  · intro i h
    rw [strcpy, if_pos (Nat.le_of_lt h), List.getElem?_eq_getElem h]
    rfl
  · rw [strcpy, if_pos (Nat.le_refl _), List.getElem?_eq_none (Nat.le_refl _)]
    rfl

theorem strcpy_inBounds {src : List UInt8} {size : Nat} (h : src.length < size) :
    (strcpy src).InBounds size := by
  intro i hi
  unfold strcpy at hi
  split at hi
  · omega
  · exact absurd rfl hi

/-- `strncpy` with a terminator behind its last byte stores the prefix that fits. -/
theorem strncpy_terminated (src : List UInt8) (n : Nat) :
    ((strncpy src n).set n 0).Stores (src.take n) := by
  have hlen : (src.take n).length = min n src.length := List.length_take
  unfold Writes.set
  constructor
  · intro i h
    have hi : i < n := by omega
    have hsrc : i < src.length := by omega
    rw [Function.update_of_ne (Nat.ne_of_lt hi), strncpy, if_pos hi, List.getElem_take,
      List.getElem?_eq_getElem hsrc]
    rfl
  · rw [hlen]
    rcases Nat.lt_or_ge src.length n with hlt | hge
    · -- the string is shorter and `strncpy` fills the rest with NULs
      rw [Nat.min_eq_right (Nat.le_of_lt hlt), Function.update_of_ne (Nat.ne_of_lt hlt), strncpy,
        if_pos hlt, List.getElem?_eq_none (Nat.le_refl _)]
      rfl
    · rw [Nat.min_eq_left hge, Function.update_self]

theorem strncpy_terminated_inBounds (src : List UInt8) (n : Nat) :
    ((strncpy src n).set n 0).InBounds (n + 1) := by
  intro i hi
  by_cases hn : i = n
  · omega
  · rw [Writes.set, Function.update_of_ne hn, strncpy] at hi
    split at hi
    · omega
    · exact absurd rfl hi

end CString
