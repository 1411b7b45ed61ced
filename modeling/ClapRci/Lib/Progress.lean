import Mathlib.Data.Nat.Basic
import Mathlib.Tactic.Common
import ClapRci.Lib.ActionSystem

/-!
# Runs that come to an end

An action system with a rank that every step decreases stops under every schedule: its
runs are no longer than the rank of their first state, and each of them goes on to a
state in which no step is enabled. What such a state looks like is then the whole
question. Where the environment may take any number of steps of its own, those of the
system are counted.
-/

universe u v

namespace ActionSystem

namespace Spec

variable {σ : Type u} {Λ : Type v} (S : Spec σ Λ)

/-- No step is enabled. -/
def Stuck (s : σ) : Prop := ∀ l, S.step s l = none

/-- A rank: from states of the invariant, which every step keeps, each step decreases it. -/
structure Ranking (inv : σ → Prop) where
  rank : σ → Nat
  keeps : ∀ s l s', inv s → S.step s l = some s' → inv s'
  decreases : ∀ s l s', inv s → S.step s l = some s' → rank s' < rank s

variable {S} {inv : σ → Prop}

/-- A run is no longer than what its first state ranks above its last one. -/
theorem Ranking.length_add_le (R : S.Ranking inv) {s t : σ} {ls : List Λ} (hs : inv s)
    (hrun : S.run s ls = some t) :
    ls.length + R.rank t ≤ R.rank s := by
  induction ls generalizing s with
  | nil =>
    cases hrun
    rw [List.length_nil, Nat.zero_add]
  | cons l ls ih =>
    rcases S.run_cons hrun with ⟨s', hstep, hrest⟩
    have hlt := R.decreases s l s' hs hstep
    have hle := ih (R.keeps s l s' hs hstep) hrest
    rw [List.length_cons]
    omega

/-- Every state goes on to one in which no step is enabled. -/
theorem Ranking.exists_stuck (R : S.Ranking inv) {s : σ} (hs : inv s) :
    ∃ ls t, S.run s ls = some t ∧ S.Stuck t := by
  -- induction on the rank: a state that is not stuck has a step to a lower one
  induction h : R.rank s using Nat.strong_induction_on generalizing s with
  | _ n ih =>
    by_cases hstuck : S.Stuck s
    · exact ⟨[], s, rfl, hstuck⟩
    · obtain ⟨l, hl⟩ := not_forall.mp hstuck
      obtain ⟨s', hstep⟩ := Option.ne_none_iff_exists'.mp hl
      have hlt := R.decreases s l s' hs hstep
      obtain ⟨ls, t, hrun, ht⟩ := ih (R.rank s') (h ▸ hlt) (R.keeps s l s' hs hstep) rfl
      exact ⟨l :: ls, t, (S.run_cons_of_step hstep ls).trans hrun, ht⟩

/-! ## Steps of one party -/

/-- If, short of the goal, there is always a step with one of some labels that decreases a rank
and keeps the invariant, then the goal is reached by these, in no more steps than the rank. -/
theorem exists_run_to (goal : σ → Prop) (P : Λ → Prop) (rank : σ → Nat)
    (hstep : ∀ s, inv s → ¬ goal s →
      ∃ l s', P l ∧ S.step s l = some s' ∧ inv s' ∧ rank s' < rank s)
    {s : σ} (hs : inv s) :
    ∃ ls t, (∀ l ∈ ls, P l) ∧ ls.length ≤ rank s ∧ S.run s ls = some t ∧ inv t ∧ goal t := by
  induction h : rank s using Nat.strong_induction_on generalizing s with
  | _ n ih =>
    by_cases hgoal : goal s
    · exact ⟨[], s, List.forall_mem_nil _, Nat.zero_le _, rfl, hs, hgoal⟩
    · obtain ⟨l, s', hl, hls, hs', hlt⟩ := hstep s hs hgoal
      obtain ⟨ls, t, hall, hlen, hrun, ht⟩ := ih (rank s') (h ▸ hlt) hs' rfl
      refine ⟨l :: ls, t, List.forall_mem_cons.mpr ⟨hl, hall⟩, ?_,
        (S.run_cons_of_step hls ls).trans hrun, ht⟩
      rw [List.length_cons]
      omega

/-! ## Steps that do not count -/

variable (S) in
/-- A rank on the runs whose steps satisfy `C`: each step that counts decreases it, and no other
raises it. -/
structure CountedRanking (inv : σ → Prop) (C : σ → Λ → Prop) (counts : Λ → Bool) where
  rank : σ → Nat
  keeps : ∀ s l s', inv s → C s l → S.step s l = some s' → inv s'
  decreases : ∀ s l s', inv s → C s l → S.step s l = some s' →
    (if counts l then 1 else 0) + rank s' ≤ rank s

/-- A run has no more steps that count than what its first state ranks above its last one. -/
theorem CountedRanking.countP_add_le {C : σ → Λ → Prop} {counts : Λ → Bool}
    (R : S.CountedRanking inv C counts) {s t : σ} {ls : List Λ} (hs : inv s)
    (hall : S.AllSteps (fun s l _ => C s l) s ls) (hrun : S.run s ls = some t) :
    ls.countP counts + R.rank t ≤ R.rank s := by
  induction ls generalizing s with
  | nil =>
    cases hrun
    rw [List.countP_nil, Nat.zero_add]
  | cons l ls ih =>
    rcases S.run_cons hrun with ⟨s', hstep, hrest⟩
    have hcond := (hall s' hstep).1
    have hle := R.decreases s l s' hs hcond hstep
    have hrest := ih (R.keeps s l s' hs hcond hstep) (hall s' hstep).2 hrest
    rw [List.countP_cons]
    omega

end Spec

end ActionSystem
