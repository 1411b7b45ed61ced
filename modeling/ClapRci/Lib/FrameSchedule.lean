import Mathlib.Data.List.Basic
import Mathlib.Data.List.TakeWhile
import Mathlib.Tactic.Common

/-!
# Timed events taken frame by frame

A list of events with times, and frames `0, 1, ..`. A `walk` keeps a cursor into the list
and takes at each frame the events next in line that are due then; the `schedule` lists for
each frame all events of its time. The walk is the schedule of the part of the list that is
in order (`walk_eq_schedule`): what comes after an event that is early, or at or beyond the
last frame, is never reached.
-/

universe u

namespace FrameSchedule

variable {α : Type u} (time : α → Nat)

/-- The longest prefix whose times do not decrease, from `m` on, and stay below `F`. -/
def inOrder (F : Nat) : Nat → List α → List α
  | _, [] => []
  | m, x :: xs => if m ≤ time x ∧ time x < F then x :: inOrder F (time x) xs else []

/-- The events due at a frame, from the cursor on. -/
def due (f : Nat) (xs : List α) : List α := xs.takeWhile fun x => time x = f

/-- What is behind them. -/
def later (f : Nat) (xs : List α) : List α := xs.dropWhile fun x => time x = f

/-- The next `k` frames from `f` on: the events that are due, then the frame itself. -/
def walk : Nat → Nat → List α → List (α ⊕ Nat)
  | 0, _, _ => []
  | k + 1, f, xs =>
    (due time f xs).map .inl ++ .inr f :: walk k (f + 1) (later time f xs)

/-- A frame with all events of its time. -/
def frame (xs : List α) (f : Nat) : List (α ⊕ Nat) :=
  (xs.filter fun x => time x = f).map .inl ++ [.inr f]

/-- One frame after another. -/
def schedule (F : Nat) (xs : List α) : List (α ⊕ Nat) := (List.range F).flatMap (frame time xs)

variable {time}

/-! ## The part in order -/

theorem inOrder_prefix (F m : Nat) (xs : List α) : inOrder time F m xs <+: xs := by
  induction xs generalizing m with
  | nil => exact List.nil_prefix
  | cons x xs ih =>
    unfold inOrder
    split
    · exact List.cons_prefix_cons.mpr ⟨rfl, ih (time x)⟩
    · exact List.nil_prefix

theorem mem_inOrder {F m : Nat} {xs : List α} {x : α} (h : x ∈ inOrder time F m xs) :
    m ≤ time x ∧ time x < F := by
  induction xs generalizing m with
  | nil => cases h
  | cons y ys ih =>
    unfold inOrder at h
    split at h
    · rename_i hy
      rcases List.mem_cons.mp h with rfl | hx
      · exact hy
      · have := ih hx
        omega
    · cases h

/-- The whole list is in order exactly when its times do not decrease, from `m` on, and stay
below `F`. -/
theorem inOrder_eq_self_iff {F m : Nat} {xs : List α} :
    inOrder time F m xs = xs ↔
      xs.Pairwise (fun x y => time x ≤ time y) ∧ ∀ x ∈ xs, m ≤ time x ∧ time x < F := by
  induction xs generalizing m with
  | nil => simp [inOrder]
  | cons x xs ih =>
    rw [inOrder, List.pairwise_cons, List.forall_mem_cons]
    split
    · rename_i hx
      rw [List.cons.injEq, ih]
      constructor
      · rintro ⟨-, hsorted, hxs⟩
        refine ⟨⟨fun y hy => (hxs y hy).1, hsorted⟩, hx, ?_⟩
        intro y hy
        have := hxs y hy
        omega
      · rintro ⟨⟨hle, hsorted⟩, -, hxs⟩
        exact ⟨rfl, hsorted, fun y hy => ⟨hle y hy, (hxs y hy).2⟩⟩
    · rename_i hx
      constructor
      · intro h
        cases h
      · rintro ⟨-, hx', -⟩
        exact absurd hx' hx

/-! ## The walk -/

section Cons

variable {f : Nat} {x : α} (xs : List α)

theorem due_cons_of_eq (h : time x = f) : due time f (x :: xs) = x :: due time f xs :=
  List.takeWhile_cons_of_pos (decide_eq_true h)

theorem due_cons_of_ne (h : time x ≠ f) : due time f (x :: xs) = [] :=
  List.takeWhile_cons_of_neg (by simpa using h)

theorem later_cons_of_eq (h : time x = f) : later time f (x :: xs) = later time f xs :=
  List.dropWhile_cons_of_pos (decide_eq_true h)

theorem later_cons_of_ne (h : time x ≠ f) : later time f (x :: xs) = x :: xs :=
  List.dropWhile_cons_of_neg (by simpa using h)

end Cons

/-- The cursor moves on by as many events as were due. -/
theorem drop_length_due (f : Nat) (xs : List α) :
    xs.drop (due time f xs).length = later time f xs := by
  calc xs.drop (due time f xs).length
      = (due time f xs ++ later time f xs).drop (due time f xs).length := by
        rw [due, later, List.takeWhile_append_dropWhile]
    _ = later time f xs := List.drop_left

theorem inOrder_of_due (F : Nat) {f : Nat} (hf : f < F) (xs : List α) :
    inOrder time F f xs = due time f xs ++ inOrder time F (f + 1) (later time f xs) := by
  induction xs with
  | nil => rfl
  | cons x xs ih =>
    by_cases hx : time x = f
    · have hcond : f ≤ time x ∧ time x < F := by omega
      rw [inOrder, if_pos hcond, due_cons_of_eq xs hx, later_cons_of_eq xs hx, List.cons_append,
        hx, ih]
    · -- nothing is due; an event in time is due at a later frame
      rw [due_cons_of_ne xs hx, later_cons_of_ne xs hx, List.nil_append]
      have hiff : (f ≤ time x ∧ time x < F) ↔ (f + 1 ≤ time x ∧ time x < F) := by omega
      simp only [inOrder, hiff]

/-- The events of a walk are the ones in order. -/
theorem walk_events (k f : Nat) (xs : List α) :
    (walk time k f xs).filterMap Sum.getLeft? = inOrder time (f + k) f xs := by
  induction k generalizing f xs with
  | zero =>
    have hnil : inOrder time f f xs = [] := by
      apply List.eq_nil_iff_forall_not_mem.mpr
      intro x hx
      have := mem_inOrder hx
      omega
    simp [walk, hnil]
  | succ k ih =>
    rw [inOrder_of_due (f + (k + 1)) (by omega), walk, List.filterMap_append,
      List.filterMap_cons, ih, Nat.add_right_comm f 1 k, Nat.add_assoc f k 1]
    simp [Function.comp_def]

theorem time_of_mem_due {f : Nat} {xs : List α} {x : α} (h : x ∈ due time f xs) : time x = f := by
  have hdue := List.mem_takeWhile_imp (p := fun x => decide (time x = f)) h
  simpa using hdue

theorem filter_due (f : Nat) (xs : List α) :
    ((due time f xs).filter fun x => time x = f) = due time f xs := by
  rw [List.filter_eq_self]
  intro x hx
  simpa using time_of_mem_due hx

theorem filter_due_of_ne {f g : Nat} (h : g ≠ f) (xs : List α) :
    ((due time f xs).filter fun x => time x = g) = [] := by
  rw [List.filter_eq_nil_iff]
  intro x hx
  have hxf := time_of_mem_due hx
  simp only [decide_eq_true_eq]
  omega

theorem filter_inOrder_of_lt {F m g : Nat} (h : g < m) (xs : List α) :
    ((inOrder time F m xs).filter fun x => time x = g) = [] := by
  rw [List.filter_eq_nil_iff]
  intro x hx
  have := mem_inOrder hx
  simp only [decide_eq_true_eq]
  omega

theorem walk_eq_frames (k f : Nat) (xs : List α) :
    walk time k f xs = (List.range' f k).flatMap (frame time (inOrder time (f + k) f xs)) := by
  induction k generalizing f xs with
  | zero => rfl
  | succ k ih =>
    have hsplit : inOrder time (f + (k + 1)) f xs =
        due time f xs ++ inOrder time (f + (k + 1)) (f + 1) (later time f xs) :=
      inOrder_of_due (f + (k + 1)) (by omega) xs
    have hF : f + 1 + k = f + (k + 1) := by omega
    rw [walk, List.range'_succ, List.flatMap_cons, ih, hF]
    -- the frame at hand has the events that are due, the later ones have the others
    have hhead : frame time (inOrder time (f + (k + 1)) f xs) f =
        (due time f xs).map .inl ++ [.inr f] := by
      rw [frame, hsplit, List.filter_append, filter_due, filter_inOrder_of_lt (by omega),
        List.append_nil]
    have htail : (List.range' (f + 1) k).flatMap
          (frame time (inOrder time (f + (k + 1)) (f + 1) (later time f xs))) =
        (List.range' (f + 1) k).flatMap (frame time (inOrder time (f + (k + 1)) f xs)) := by
      apply List.flatMap_congr
      intro g hg
      have hne : g ≠ f := by
        have := List.left_le_of_mem_range' hg
        omega
      rw [frame, frame, hsplit, List.filter_append, filter_due_of_ne hne, List.nil_append]
    rw [hhead, htail, List.append_assoc, List.singleton_append]

/-- A walk over all frames is the schedule of the events in order. -/
theorem walk_eq_schedule (F : Nat) (xs : List α) :
    walk time F 0 xs = schedule time F (inOrder time F 0 xs) := by
  rw [walk_eq_frames, schedule, List.range_eq_range', Nat.zero_add]

/-! ## The schedule -/

/-- The events of the schedule of a list in order are its events. -/
theorem schedule_events {F : Nat} {xs : List α} (h : inOrder time F 0 xs = xs) :
    (schedule time F xs).filterMap Sum.getLeft? = xs := by
  calc (schedule time F xs).filterMap Sum.getLeft?
      = (walk time F 0 xs).filterMap Sum.getLeft? := by rw [walk_eq_schedule, h]
    _ = inOrder time F 0 xs := by rw [walk_events, Nat.zero_add]
    _ = xs := h

/-- An event below the last frame is in the schedule. -/
theorem mem_schedule {F : Nat} {xs : List α} {x : α} (hx : x ∈ xs) (hlt : time x < F) :
    .inl x ∈ schedule time F xs := by
  refine List.mem_flatMap.mpr ⟨time x, List.mem_range.mpr hlt, ?_⟩
  simp [frame, hx]

/-- And nothing else is. -/
theorem mem_of_mem_schedule {F : Nat} {xs : List α} {x : α}
    (h : .inl x ∈ schedule time F xs) : x ∈ xs := by
  rcases List.mem_flatMap.mp h with ⟨f, -, hf⟩
  simp only [frame, List.mem_append, List.mem_map, List.mem_filter, Sum.inl.injEq,
    exists_eq_right, List.mem_singleton, reduceCtorEq, or_false] at hf
  exact hf.1

/-- Every frame is in it once. -/
theorem countP_schedule (F : Nat) (xs : List α) :
    (schedule time F xs).countP Sum.isRight = F := by
  have hframe : ∀ f, (frame time xs f).countP Sum.isRight = 1 := by
    intro f
    simp [frame, List.countP_append, List.countP_map, Function.comp_def]
  rw [schedule, List.countP_flatMap]
  simp [Function.comp_def, hframe]

/-- What is in order does not depend on what else an element carries. -/
theorem inOrder_map {β : Type u} (g : β → α) (F m : Nat) (xs : List β) :
    (inOrder (fun x => time (g x)) F m xs).map g = inOrder time F m (xs.map g) := by
  induction xs generalizing m with
  | nil => rfl
  | cons x xs ih =>
    rw [List.map_cons, inOrder, inOrder]
    split
    · rw [List.map_cons, ih]
    · rfl

end FrameSchedule
