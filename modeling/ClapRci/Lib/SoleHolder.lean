import Mathlib.Data.List.Nodup
import Mathlib.Logic.Equiv.Basic
import Mathlib.Logic.ExistsUnique
import Mathlib.Logic.Function.Basic

/-!
# Things with one holder each

Holders that have room for one thing, and the list of the things that are around. `Exact` says
that these are the things held, each in one place.

* `take`, `drop` and `move` keep it;
* `lost`: a thing is lost when another one is moved over it.
-/

universe u v

namespace SoleHolder

variable {ι : Type u} {κ : Type v}

/-- What is around is held, in one place each. -/
structure Exact (held : ι → Option κ) (around : List κ) : Prop where
  nodup : around.Nodup
  mem_iff : ∀ k, k ∈ around ↔ ∃ i, held i = some k
  inj : ∀ i j k, held i = some k → held j = some k → i = j

/-- What `i` holds is replaced by what `j` holds, which `j` no longer does. -/
def moved [DecidableEq ι] (held : ι → Option κ) (i j : ι) : ι → Option κ :=
  Function.update (Function.update held i (held j)) j none

theorem exact_nil : Exact (fun _ : ι => (none : Option κ)) [] where
  nodup := List.nodup_nil
  mem_iff k := by simp
  inj i j k h := by cases h

variable {held : ι → Option κ} {around : List κ} {i j : ι} {k : κ}

theorem Exact.existsUnique (h : Exact held around) (hk : k ∈ around) :
    ∃! i, held i = some k := by
  rcases (h.mem_iff k).mp hk with ⟨i, hi⟩
  refine ⟨i, hi, ?_⟩
  intro j hj
  exact h.inj j i k hj hi

theorem Exact.eq_nil (h : Exact held around) (hnone : ∀ i, held i = none) : around = [] := by
  rw [List.eq_nil_iff_forall_not_mem]
  intro k hk
  rcases (h.mem_iff k).mp hk with ⟨i, hi⟩
  rw [hnone i] at hi
  cases hi

/-- It does not matter which of the holders holds a thing. -/
theorem Exact.comp_equiv (h : Exact held around) (e : ι ≃ ι) : Exact (held ∘ e) around where
  nodup := h.nodup
  mem_iff k := by
    rw [h.mem_iff]
    exact e.surjective.exists
  inj i j k hi hj := e.injective (h.inj _ _ k hi hj)

variable [DecidableEq ι]

/-- A holder that has room takes a new thing. -/
theorem Exact.take (h : Exact held around) (hi : held i = none) (hk : k ∉ around) :
    Exact (Function.update held i (some k)) (k :: around) := by
  have hnew : ∀ j, held j ≠ some k := by
    intro j hj
    exact hk ((h.mem_iff k).mpr ⟨j, hj⟩)
  constructor
  · exact List.nodup_cons.mpr ⟨hk, h.nodup⟩
  · intro k'
    rw [List.mem_cons, h.mem_iff]
    constructor
    · rintro (rfl | ⟨j, hj⟩)
      · exact ⟨i, Function.update_self _ _ _⟩
      · refine ⟨j, ?_⟩
        rw [Function.update_of_ne]
        · exact hj
        · rintro rfl
          cases hi.symm.trans hj
    · rintro ⟨j, hj⟩
      rw [Function.update_apply] at hj
      split at hj
      · exact Or.inl (Option.some.inj hj).symm
      · exact Or.inr ⟨j, hj⟩
  · intro j j' k' hj hj'
    rw [Function.update_apply] at hj hj'
    split at hj <;> split at hj'
    · rename_i hji hji'
      exact hji.trans hji'.symm
    · exact absurd (hj'.trans hj.symm) (hnew j')
    · exact absurd (hj.trans hj'.symm) (hnew j)
    · exact h.inj j j' k' hj hj'

/-- What a holder has, if anything, comes to its end. -/
theorem Exact.drop [DecidableEq κ] (h : Exact held around) (i : ι) :
    Exact (Function.update held i none) (around.filter fun k => held i ≠ some k) := by
  constructor
  · exact h.nodup.filter _
  · intro k
    rw [List.mem_filter, h.mem_iff, decide_eq_true_eq]
    constructor
    · rintro ⟨⟨j, hj⟩, hne⟩
      refine ⟨j, ?_⟩
      rw [Function.update_of_ne]
      · exact hj
      · rintro rfl
        exact hne hj
    · rintro ⟨j, hj⟩
      rw [Function.update_apply] at hj
      split at hj
      · cases hj
      · rename_i hji
        refine ⟨⟨j, hj⟩, ?_⟩
        intro hi
        exact hji (h.inj j i k hj hi)
  · intro j j' k hj hj'
    rw [Function.update_apply] at hj hj'
    split at hj
    · cases hj
    split at hj'
    · cases hj'
    exact h.inj j j' k hj hj'

/-- A move to a holder that has room is an exchange. -/
theorem moved_eq_swap (hi : held i = none) : moved held i j = held ∘ Equiv.swap i j := by
  funext k
  rw [moved, Function.comp_apply, Equiv.swap_apply_def, Function.update_apply,
    Function.update_apply]
  -- `i` has what `j` had, and `j` what `i` had, which is nothing
  by_cases hki : k = i
  · by_cases hij : i = j
    · simp [hki, ← hij, hi]
    · simp [hki, hij]
  · by_cases hkj : k = j
    · have hji : ¬ j = i := by rwa [← hkj]
      simp [hkj, hji, hi]
    · simp [hki, hkj]

theorem Exact.move (h : Exact held around) (hi : held i = none) (j : ι) :
    Exact (moved held i j) around := by
  rw [moved_eq_swap hi]
  exact h.comp_equiv (Equiv.swap i j)

/-- A thing that another one is moved over is held by no one. -/
theorem Exact.lost (h : Exact held around) (hi : held i = some k) (hij : i ≠ j) :
    ∀ i', moved held i j i' ≠ some k := by
  intro i' hi'
  rw [moved, Function.update_apply, Function.update_apply] at hi'
  -- in the place of `k` is what `j` had, and no one else had `k`
  split at hi'
  · cases hi'
  split at hi'
  · exact hij (h.inj i j k hi hi')
  · rename_i hne
    exact hne (h.inj i' i k hi' hi)

end SoleHolder
