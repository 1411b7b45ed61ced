import Mathlib.Data.List.Induction
import Mathlib.Data.List.Pairwise
import Mathlib.Order.Bounds.Basic
import Mathlib.Order.Lattice
import Mathlib.Order.MinMax

/-!
# Strict running maxima

The elements of a list whose key is greater than a start value and than the key of every
element before them, defined by that condition and not by a scan. A scan that keeps the
greatest key seen finds them one element at a time: `runningMaxima_concat`.
-/

universe u v

namespace RunningMax

variable {α : Type u} {κ : Type v} [LinearOrder κ] (key : α → κ) (m : κ)

/-- The elements with a key above `m` and above every key before them. -/
def runningMaxima (xs : List α) : List α :=
  (xs.zipIdx.filter fun e : α × Nat =>
    decide (m < key e.1 ∧ ∀ y ∈ xs.take e.2, key y < key e.1)).map Prod.fst

/-- The greatest of `m` and all keys. -/
def highest (xs : List α) : κ := xs.foldl (fun h x => max h (key x)) m

@[simp] theorem highest_nil : highest key m [] = m := rfl

theorem highest_concat (xs : List α) (x : α) :
    highest key m (xs ++ [x]) = max (highest key m xs) (key x) := by
  simp [highest]

variable {key m}

/-- An element's key is above `m` and all keys exactly when it is above the greatest. -/
theorem highest_lt_iff {xs : List α} {k : κ} :
    highest key m xs < k ↔ m < k ∧ ∀ y ∈ xs, key y < k := by
  induction xs using List.reverseRecOn with
  | nil => simp
  | append_singleton xs x ih =>
    rw [highest_concat, max_lt_iff, ih]
    constructor
    · rintro ⟨⟨hm, hxs⟩, hx⟩
      refine ⟨hm, ?_⟩
      intro y hy
      rcases List.mem_append.mp hy with hy | hy
      · exact hxs y hy
      · rw [List.mem_singleton.mp hy]
        exact hx
    · rintro ⟨hm, hall⟩
      refine ⟨⟨hm, ?_⟩, hall x (by simp)⟩
      intro y hy
      exact hall y (List.mem_append_left _ hy)

/-- It is one of them, and none is greater. -/
theorem isGreatest_highest (xs : List α) :
    IsGreatest {k | k = m ∨ ∃ x ∈ xs, k = key x} (highest key m xs) := by
  induction xs using List.reverseRecOn with
  | nil => simp [IsGreatest, upperBounds]
  | append_singleton xs x ih =>
    rcases ih with ⟨hmem, hupper⟩
    rw [highest_concat]
    constructor
    · rcases max_choice (highest key m xs) (key x) with h | h
      · rw [h]
        rcases hmem with hm | ⟨y, hy, hkey⟩
        · exact Or.inl hm
        · exact Or.inr ⟨y, List.mem_append_left _ hy, hkey⟩
      · rw [h]
        exact Or.inr ⟨x, by simp, rfl⟩
    · rintro k (rfl | ⟨y, hy, rfl⟩)
      · exact le_max_of_le_left (hupper (Or.inl rfl))
      · rcases List.mem_append.mp hy with hy | hy
        · exact le_max_of_le_left (hupper (Or.inr ⟨y, hy, rfl⟩))
        · rw [List.mem_singleton.mp hy]
          exact le_max_right _ _

@[simp] theorem runningMaxima_nil : runningMaxima key m [] = [] := rfl

/-- One more element is added exactly when it is above the greatest key so far. -/
theorem runningMaxima_concat (xs : List α) (x : α) :
    runningMaxima key m (xs ++ [x]) =
      runningMaxima key m xs ++ if highest key m xs < key x then [x] else [] := by
  have hinit : xs.zipIdx.filter (fun e : α × Nat =>
        decide (m < key e.1 ∧ ∀ y ∈ (xs ++ [x]).take e.2, key y < key e.1)) =
      xs.zipIdx.filter fun e : α × Nat =>
        decide (m < key e.1 ∧ ∀ y ∈ xs.take e.2, key y < key e.1) := by
    apply List.filter_congr
    rintro ⟨y, i⟩ hmem
    have hi : i < xs.length := by
      have := List.mem_zipIdx hmem
      omega
    rw [List.take_append_of_le_length (Nat.le_of_lt hi)]
  have hlast : (m < key x ∧ ∀ y ∈ (xs ++ [x]).take xs.length, key y < key x) ↔
      highest key m xs < key x := by
    rw [highest_lt_iff, List.take_left]
  unfold runningMaxima
  rw [List.zipIdx_append, List.filter_append, hinit, List.map_append]
  congr 1
  simp only [List.zipIdx_cons, List.zipIdx_nil, Nat.zero_add, List.filter_cons, hlast,
    decide_eq_true_iff]
  by_cases h : highest key m xs < key x
  · simp [h]
  · simp [h]

theorem highest_append (xs ys : List α) :
    highest key m (xs ++ ys) = highest key (highest key m xs) ys := by
  simp [highest]

/-- Those of the rest are found from the greatest key so far. -/
theorem runningMaxima_append (xs ys : List α) :
    runningMaxima key m (xs ++ ys) =
      runningMaxima key m xs ++ runningMaxima key (highest key m xs) ys := by
  induction ys using List.reverseRecOn with
  | nil => simp
  | append_singleton ys y ih =>
    rw [← List.append_assoc, runningMaxima_concat, ih, highest_append, runningMaxima_concat,
      List.append_assoc]

theorem runningMaxima_cons (x : α) (xs : List α) :
    runningMaxima key m (x :: xs) =
      if m < key x then x :: runningMaxima key (key x) xs else runningMaxima key m xs := by
  have hone : runningMaxima key m [x] = if m < key x then [x] else [] :=
    runningMaxima_concat [] x
  rw [← List.singleton_append, runningMaxima_append, hone, highest, List.foldl_cons, List.foldl_nil]
  split
  · rename_i hlt
    rw [max_eq_right (le_of_lt hlt), List.singleton_append]
  · rename_i hle
    rw [max_eq_left (not_lt.mp hle), List.nil_append]

/-- What has been found stays, whatever comes after. -/
theorem runningMaxima_prefix (xs ys : List α) :
    runningMaxima key m xs <+: runningMaxima key m (xs ++ ys) := by
  rw [runningMaxima_append]
  exact List.prefix_append _ _

/-- An element is a strict running maximum by what comes before it. -/
theorem mem_runningMaxima_iff {xs : List α} {x : α} :
    x ∈ runningMaxima key m xs ↔
      ∃ before after, xs = before ++ x :: after ∧ highest key m before < key x := by
  induction xs using List.reverseRecOn with
  | nil => simp
  | append_singleton xs y ih =>
    rw [runningMaxima_concat, List.mem_append, ih]
    constructor
    · rintro (⟨before, after, rfl, hlt⟩ | hmem)
      · exact ⟨before, after ++ [y], by simp, hlt⟩
      · split at hmem
        · rename_i hlt
          obtain rfl : x = y := List.mem_singleton.mp hmem
          exact ⟨xs, [], rfl, hlt⟩
        · cases hmem
    · rintro ⟨before, after, hxs, hlt⟩
      rcases List.eq_nil_or_concat after with rfl | ⟨after, z, rfl⟩
      · -- it is the last one
        have hxs : xs ++ [y] = before ++ [x] := hxs
        rcases List.append_inj' hxs rfl with ⟨rfl, hyx⟩
        obtain rfl : y = x := by simpa using hyx
        right
        simp [hlt]
      · left
        rw [List.concat_eq_append, ← List.cons_append, ← List.append_assoc] at hxs
        exact ⟨before, after, (List.append_inj' hxs rfl).1, hlt⟩

/-- Their keys strictly increase. -/
theorem pairwise_runningMaxima (xs : List α) :
    (runningMaxima key m xs).Pairwise fun x y => key x < key y := by
  induction xs using List.reverseRecOn with
  | nil => exact List.Pairwise.nil
  | append_singleton xs x ih =>
    rw [runningMaxima_concat, List.pairwise_append]
    refine ⟨ih, ?_, ?_⟩
    · split
      · exact List.pairwise_singleton _ _
      · exact List.Pairwise.nil
    · intro y hy z hz
      split at hz
      · rename_i hlt
        rcases mem_runningMaxima_iff.mp hy with ⟨before, after, rfl, -⟩
        rw [List.mem_singleton.mp hz]
        exact (highest_lt_iff.mp hlt).2 y (by simp)
      · cases hz

theorem length_runningMaxima_le (xs : List α) : (runningMaxima key m xs).length ≤ xs.length := by
  unfold runningMaxima
  rw [List.length_map]
  exact (List.length_filter_le _ _).trans (by simp)

/-- Every element is a strict running maximum exactly when the keys strictly increase, from
above `m` on. -/
theorem runningMaxima_eq_self_iff (xs : List α) :
    runningMaxima key m xs = xs ↔ (m :: xs.map key).Pairwise (· < ·) := by
  induction xs generalizing m with
  | nil => simp
  | cons x xs ih =>
    rw [runningMaxima_cons, List.map_cons, List.pairwise_cons]
    split
    · rename_i hlt
      rw [List.cons.injEq, ih]
      constructor
      · rintro ⟨-, hpairwise⟩
        refine ⟨?_, hpairwise⟩
        intro k hk
        rcases List.mem_cons.mp hk with rfl | hk
        · exact hlt
        · exact hlt.trans ((List.pairwise_cons.mp hpairwise).1 k hk)
      · rintro ⟨-, hpairwise⟩
        exact ⟨rfl, hpairwise⟩
    · rename_i hle
      constructor
      · intro h
        have hlen : (runningMaxima key m xs).length ≤ xs.length := length_runningMaxima_le xs
        rw [h, List.length_cons] at hlen
        omega
      · rintro ⟨hm, -⟩
        exact absurd (hm (key x) List.mem_cons_self) hle

/-! ## Other keys in the same order -/

section Keys

variable {μ : Type*} [LinearOrder μ] {key' : α → μ} {f : κ → μ}

theorem highest_of_strictMono (hf : StrictMono f) {xs : List α}
    (h : ∀ x ∈ xs, key' x = f (key x)) : highest key' (f m) xs = f (highest key m xs) := by
  induction xs using List.reverseRecOn with
  | nil => rfl
  | append_singleton xs x ih =>
    have hxs := ih fun y hy => h y (List.mem_append_left _ hy)
    rw [highest_concat, highest_concat, hxs, h x (by simp), hf.monotone.map_max]

/-- Keys that are in the order of others have the same strict running maxima. -/
theorem runningMaxima_of_strictMono (hf : StrictMono f) {xs : List α}
    (h : ∀ x ∈ xs, key' x = f (key x)) :
    runningMaxima key' (f m) xs = runningMaxima key m xs := by
  induction xs using List.reverseRecOn with
  | nil => rfl
  | append_singleton xs x ih =>
    have hinit : ∀ y ∈ xs, key' y = f (key y) := fun y hy => h y (List.mem_append_left _ hy)
    rw [runningMaxima_concat, runningMaxima_concat, ih hinit, highest_of_strictMono hf hinit,
      h x (by simp)]
    simp only [hf.lt_iff_lt]

end Keys

end RunningMax
