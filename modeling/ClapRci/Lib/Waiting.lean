import Mathlib.Data.Nat.Init
import Mathlib.Order.Basic
import Mathlib.Tactic.Common

/-!
# Busy waiting

A waiter takes turns, and between its turns others may change everything but where it is. A
turn leaves it there while the state is not ready for it, and brings it closer to its end
otherwise.

* `exists_ready`: a waiter does not miss what it waits for;
* `finishes_iff`: it comes to its end exactly when, wherever it still waits, a later turn finds
  the state ready.
-/

universe u v

/-- Where a waiter is (`control`), what it waits for there, its turn, and how many turns with the
state ready it needs at most. -/
structure Waiter (σ : Type u) (γ : Type v) where
  control : σ → γ
  ready : σ → Prop
  turn : σ → σ
  rank : γ → Nat
  waits : ∀ s, ¬ ready s → control (turn s) = control s
  advances : ∀ s, ready s → rank (control (turn s)) ≤ rank (control s) - 1

namespace Waiter

variable {σ : Type u} {γ : Type v} (W : Waiter σ γ)

/-- The states that the turns of the waiter find, when others act between them. -/
def turns (env : Nat → σ → σ) (s : σ) : Nat → σ
  | 0 => env 0 s
  | n + 1 => env (n + 1) (W.turn (turns env s n))

/-- Only its turns move the waiter. -/
def Behaves (b : Nat → σ) : Prop := ∀ n, W.control (b (n + 1)) = W.control (W.turn (b n))

theorem turns_behaves {env : Nat → σ → σ} (henv : ∀ n s, W.control (env n s) = W.control s)
    (s : σ) : W.Behaves (W.turns env s) := fun n => henv (n + 1) _

variable {W} {b : Nat → σ}

/-- It has come to its end. -/
def Finished (W : Waiter σ γ) (s : σ) : Prop := W.rank (W.control s) = 0

/-- It stays where it is until a turn finds the state ready. -/
theorem Behaves.control_eq (hb : W.Behaves b) {n m : Nat} (hnm : n ≤ m)
    (hnot : ∀ k, n ≤ k → k < m → W.control (b k) = W.control (b n) → ¬ W.ready (b k)) :
    W.control (b m) = W.control (b n) := by
  induction m, hnm using Nat.le_induction with
  | base => rfl
  | succ m hnm ih =>
    have hsame := ih fun k hk hkm => hnot k hk (Nat.lt_succ_of_lt hkm)
    rw [hb m, W.waits _ (hnot m hnm (Nat.lt_succ_self m) hsame)]
    exact hsame

/-- If what it waits for holds at some turn, then a turn finds it so while it still waits. -/
theorem Behaves.exists_ready (hb : W.Behaves b) {n m : Nat} (hnm : n ≤ m)
    (hready : W.control (b m) = W.control (b n) → W.ready (b m)) :
    ∃ k, n ≤ k ∧ W.control (b k) = W.control (b n) ∧ W.ready (b k) := by
  by_contra hnone
  have hsame := hb.control_eq hnm fun k hk _ hcontrol hk' => hnone ⟨k, hk, hcontrol, hk'⟩
  exact hnone ⟨m, hnm, hsame, hready hsame⟩

theorem Behaves.rank_succ_le (hb : W.Behaves b) (n : Nat) :
    W.rank (W.control (b (n + 1))) ≤ W.rank (W.control (b n)) := by
  rw [hb n]
  by_cases hready : W.ready (b n)
  · exact Nat.le_trans (W.advances _ hready) (Nat.sub_le _ _)
  · exact Nat.le_of_eq (congrArg W.rank (W.waits _ hready))

/-- Once at its end it stays there. -/
theorem Behaves.finished_mono (hb : W.Behaves b) {n m : Nat} (hnm : n ≤ m)
    (h : W.Finished (b n)) : W.Finished (b m) := by
  induction m, hnm using Nat.le_induction with
  | base => exact h
  | succ m hnm ih => exact Nat.le_zero.mp (Nat.le_trans (hb.rank_succ_le m) (Nat.le_of_eq ih))

/-- It comes to its end exactly when, as long as it is not there, a later turn finds the state
ready for it. -/
theorem Behaves.finishes_iff (hb : W.Behaves b) :
    (∃ n, W.Finished (b n)) ↔ ∀ n, ¬ W.Finished (b n) →
      ∃ m, n ≤ m ∧ W.control (b m) = W.control (b n) ∧ W.ready (b m) := by
  constructor
  · rintro ⟨m, hm⟩ n hn
    have hnm : n ≤ m := by
      by_contra hlt
      exact hn (hb.finished_mono (Nat.le_of_not_le hlt) hm)
    refine hb.exists_ready hnm fun hsame => ?_
    -- at its end it is not where it waits
    rw [Finished, hsame] at hm
    exact absurd hm hn
  · intro hready
    -- each turn with the state ready leaves fewer to be made
    have hfrom : ∀ r n, W.rank (W.control (b n)) = r → ∃ m, W.Finished (b m) := by
      intro r
      induction r using Nat.strong_induction_on with
      | _ r ih =>
        rintro n rfl
        by_cases hn : W.Finished (b n)
        · exact ⟨n, hn⟩
        · rcases hready n hn with ⟨m, -, hsame, hm⟩
          have hless : W.rank (W.control (b (m + 1))) < W.rank (W.control (b n)) := by
            rw [hb m, ← hsame]
            rw [Finished, ← hsame] at hn
            have hsub := Nat.sub_lt (Nat.pos_of_ne_zero hn) Nat.one_pos
            exact Nat.lt_of_le_of_lt (W.advances _ hm) hsub
          exact ih _ hless (m + 1) rfl
    exact hfrom _ 0 rfl

end Waiter
