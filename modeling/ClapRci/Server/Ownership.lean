import ClapRci.Server.Instances

/-!
# Instances that are polled have an owner (`server/shareddata.cpp`)

The function of a scheduled poll callback captures `this`, a plain pointer. That there is
something behind it when it is called is left to those who share the instance.

`owned_iff`: an instance whose callback is scheduled or running has an owner, exactly when no
one who lets go of such an instance is the last to have it.
-/

namespace ClapRci.Instances

variable {κ : Type} [LinearOrder κ]

/-- Every instance with a callback scheduled or running is there. -/
def Owned (s : Sys κ) : Prop := ∀ i, s.Busy i → 0 < s.useCount i

/-- The instance a step lets go of: its entry is taken out of the registry, someone outside
releases it, or a stream that has it is killed. -/
def letsGo (s : Sys κ) : Lbl κ → Option Nat
  | .removePlugin hash => if hash.val = 0 then none else s.mSharedData.find? hash
  | .release h => s.holders.find? h
  | .process st _ => if (s.stream st).state = .FINISH then s.sharedData.find? st else none
  | _ => none

/-- The condition on a step: it does not let go of the last pointer to an instance whose
callback is scheduled or running. -/
def LeavesOwner (s : Sys κ) (l : Lbl κ) : Prop :=
  ∀ i, letsGo s l = some i → s.Busy i → 1 < s.useCount i

section Steps

variable {s s' : Sys κ}

theorem init_owned : Owned ({} : Sys κ) := by
  rintro i (hsched | ⟨tag, htask⟩)
  · cases hsched
  · cases htask

/-- The instance that is let go of has one pointer less. -/
theorem letsGo_useCount (hinv : Inv s) {l : Lbl κ} (hstep : step s l = some s') {i : Nat}
    (hi : letsGo s l = some i) : s'.useCount i + 1 = s.useCount i ∧ (s.Busy i → s'.Busy i) := by
  cases l with
  | removePlugin hash =>
    simp only [letsGo] at hi
    split at hi
    · cases hi
    · rename_i hzero
      simp only [step, if_neg hzero] at hstep
      cases hstep
      have hcount := OrdMap.count_erase hi i
      rw [if_pos rfl] at hcount
      refine ⟨?_, fun h => h⟩
      simp only [Sys.useCount]
      omega
  | release h =>
    cases hstep
    have hcount := OrdMap.count_erase (show s.holders.find? h = some i from hi) i
    rw [if_pos rfl] at hcount
    refine ⟨?_, fun h => h⟩
    simp only [Sys.useCount]
    omega
  | process st ok =>
    simp only [letsGo] at hi
    split at hi
    · rename_i hstate
      obtain rfl := process_finish hinv hstate hstep
      have hcount := OrdMap.count_erase hi i
      rw [if_pos rfl] at hcount
      refine ⟨?_, fun h => h⟩
      simp only [Sys.useCount, Sys.killed]
      omega
    · cases hi
  | _ => cases hi

/-- The pointers to other instances stay, as long as the server does not stop. -/
theorem Moves.useCount_le (hinv : Inv s) {l : Lbl κ} (h : Moves s l s') (hl : l ≠ .stop) {i : Nat}
    (hi : letsGo s l ≠ some i) : s.useCount i ≤ s'.useCount i := by
  cases h with
  | same hl hsame => exact Nat.le_of_eq (hsame.useCount i).symm
  | added hnew =>
    simp only [Sys.useCount, OrdMap.count_emplace hnew]
    omega
  | @removed hash hzero =>
    have hne : s.mSharedData.find? hash ≠ some i := by simpa [letsGo, hzero] using hi
    simp only [Sys.useCount, OrdMap.count_erase_of_ne hne]
    exact Nat.le_refl _
  | held hfind hnew =>
    simp only [Sys.useCount, OrdMap.count_emplace hnew]
    omega
  | released =>
    simp only [Sys.useCount, OrdMap.count_erase_of_ne hi]
    exact Nat.le_refl _
  | stopped => exact absurd rfl hl
  | @connected cq st hash _ j alarms htask hfind halarms =>
    have hnew := (hinv.connecting _ _ _ htask).2.1
    have hcount := OrdMap.count_emplace hnew j i
    show s.useCount i ≤ s.mSharedData.count i + s.holders.count i +
      (s.sharedData.emplace st j).2.count i
    rw [hcount, Sys.useCount]
    omega
  | @killed st ok hidle hmem hstate =>
    have hne : s.sharedData.find? st ≠ some i := by
      rcases hstate with hconnect | hfinish
      · intro hfind
        exact (hinv.pointer st (OrdMap.mem_keys_of_find? hfind)).2 hconnect
      · simpa [letsGo, hfinish] using hi
    simp only [Sys.useCount, Sys.killed, OrdMap.count_erase_of_ne hne]
    exact Nat.le_refl _
  | _ => exact Nat.le_refl _

/-- A callback is scheduled for the first time by a stream that has the instance. -/
theorem Moves.busy (hinv : Inv s) {l : Lbl κ} (h : Moves s l s') (hl : l ≠ .stop) {i : Nat}
    (hi : s'.Busy i) : s.Busy i ∨ 0 < s'.useCount i := by
  cases h with
  | same hl hsame => exact Or.inl (hsame.busy i hi)
  | stopped => exact absurd rfl hl
  | adding =>
    rcases hi with hsched | ⟨tag, htask⟩
    · exact Or.inl (Or.inl hsched)
    · cases htask
  | orphaned =>
    rcases hi with hsched | ⟨tag, htask⟩
    · exact Or.inl (Or.inl hsched)
    · cases htask
  | connected htask hfind halarms =>
    rcases hi with hsched | ⟨tag, hidle⟩
    · rcases halarms i hsched with rfl | hold
      · have hnew := (hinv.connecting _ _ _ htask).2.1
        exact Or.inr (useCount_of_stream (OrdMap.find?_emplace_self hnew _))
      · exact Or.inl (Or.inl hold)
    · cases hidle
  | _ => exact Or.inl hi

/-- A step that meets the condition leaves an owner to every instance that is polled. -/
theorem step_owned (hinv : Inv s) (h : Owned s) {l : Lbl κ} (hcond : LeavesOwner s l)
    (hstep : step s l = some s') : Owned s' := by
  intro i hi
  have hmoves := step_moves hinv hstep
  by_cases hl : l = .stop
  · -- the alarms go with the server
    subst hl
    cases hmoves with
    | same hl hsame =>
      rw [hsame.useCount]
      exact h i (hsame.busy i hi)
    | stopped hidle =>
      rcases hi with hsched | ⟨tag, htask⟩
      · cases hsched
      · cases hidle.symm.trans htask
  · rcases hmoves.busy hinv hl hi with hbusy | hused
    · by_cases hlets : letsGo s l = some i
      · have hlt := hcond i hlets hbusy
        have hcount := (letsGo_useCount hinv hstep hlets).1
        omega
      · exact Nat.lt_of_lt_of_le (h i hbusy) (hmoves.useCount_le hinv hl hlets)
    · exact hused

/-- One that does not meet it leaves an instance to its callback alone. -/
theorem step_not_owned (hinv : Inv s) {l : Lbl κ} (hcond : ¬ LeavesOwner s l)
    (hstep : step s l = some s') : ¬ Owned s' := by
  simp only [LeavesOwner, Classical.not_forall] at hcond
  rcases hcond with ⟨i, hlets, hbusy, hlast⟩
  rcases letsGo_useCount hinv hstep hlets with ⟨hcount, hkeeps⟩
  intro howned
  have hpos := howned i (hkeeps hbusy)
  omega

end Steps

/-- In a run every instance with a callback scheduled or running has an owner, exactly when
no step lets go of the last pointer to such an instance. -/
theorem owned_iff (ls : List (Lbl κ)) :
    (spec κ).AllSteps (fun _ _ s' => Owned s') {} ls ↔
      (spec κ).AllSteps (fun s l _ => LeavesOwner s l) {} ls := by
  refine (spec κ).allSteps_iff (fun s => Inv s ∧ Owned s) ?_ ?_ ⟨init_inv, init_owned⟩ ls
  · rintro s l s' ⟨hinv, howned⟩ hcond hstep
    have howned' := step_owned hinv howned hcond hstep
    exact ⟨⟨step_inv hinv hstep, howned'⟩, howned'⟩
  · rintro s l s' ⟨hinv, -⟩ hcond hstep
    exact step_not_owned hinv hcond hstep

/-- A plugin ends its streams, is removed and let go of. The last stream is killed before the
next callback. -/
theorem owned_fails : ¬ ∀ ls, (spec Nat).AllSteps (fun _ _ s' => Owned s') {} ls := by
  intro h
  have hlast := (spec Nat).forall_allSteps_last h
    [.addPlugin 1, .hold 0 (hashOf 1), .start 0, .connectClient 0 (some (hashOf 1)) 1,
      .getSharedData (some 0), .endStreams 0, .removePlugin (hashOf 1), .release 0,
      .process 0 true]
    (.process 0 true) rfl rfl
  exact absurd (hlast 0 (Or.inl (by decide))) (by decide)

end ClapRci.Instances
