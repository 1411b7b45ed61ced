import Mathlib.Data.List.Basic
import Mathlib.Tactic.Common
import ClapRci.Lib.ActionSystem

/-!
# Lossy FIFO channels

A channel that may lose messages while they are under way, and does nothing else to
them: what is received is a subsequence of what was sent. A system carries such a
channel when each of its steps is a run of the channel (`Carries`); then its runs keep
the order of the messages and invent none, and they lose nothing exactly when none of
their steps drops a message.
-/

universe u v w

namespace LossyChannel

open scoped List

variable {α : Type u}

/-- Everything sent and received so far, and the messages under way, oldest first. -/
structure Chan (α : Type u) where
  sent : List α
  pending : List α
  received : List α
deriving DecidableEq

/-- A message goes in, a message under way is lost, the oldest one comes out. -/
inductive Lbl (α : Type u) where
  | send (x : α)
  | drop (i : Nat)
  | deliver
deriving DecidableEq

/-- The channel. -/
def spec (α : Type u) : ActionSystem.Spec (Chan α) (Lbl α) where
  Init c := c = ⟨[], [], []⟩
  step c l :=
    match l with
    | .send x => some { c with sent := c.sent ++ [x], pending := c.pending ++ [x] }
    | .drop i =>
      if i < c.pending.length then some { c with pending := c.pending.eraseIdx i } else none
    | .deliver =>
      match c.pending with
      | [] => none
      | x :: xs => some { c with pending := xs, received := c.received ++ [x] }

/-- The step loses a message. -/
def Lbl.isDrop : Lbl α → Bool
  | .drop _ => true
  | _ => false

/-! ## Subsequences of what was sent -/

/-- What was received, followed by what is under way, is a subsequence of what was sent. -/
def Inv (c : Chan α) : Prop := c.received ++ c.pending <+ c.sent

/-- How many messages have been lost. -/
def Chan.lost (c : Chan α) : Nat := c.sent.length - (c.received ++ c.pending).length

theorem step_inv {c c' : Chan α} {l : Lbl α} (hinv : Inv c) (hstep : (spec α).step c l = some c') :
    Inv c' ∧ c'.lost = c.lost + if l.isDrop then 1 else 0 := by
  have hle := hinv.length_le
  cases l with
  | send x =>
    cases hstep
    constructor
    · show c.received ++ (c.pending ++ [x]) <+ c.sent ++ [x]
      rw [← List.append_assoc]
      exact hinv.append_right [x]
    · simp only [Chan.lost, Lbl.isDrop, List.length_append] at hle ⊢
      simp only [Bool.false_eq_true, if_false]
      omega
  | drop i =>
    simp only [spec] at hstep
    split at hstep
    · rename_i hi
      cases hstep
      constructor
      · exact ((List.eraseIdx_sublist c.pending i).append_left c.received).trans hinv
      · simp only [Chan.lost, Lbl.isDrop, List.length_append, List.length_eraseIdx, if_pos hi,
          if_true] at hle ⊢
        omega
    · cases hstep
  | deliver =>
    simp only [spec] at hstep
    split at hstep
    · cases hstep
    · rename_i x xs hpending
      cases hstep
      -- the oldest message changes sides
      have heq : c.received ++ [x] ++ xs = c.received ++ c.pending := by
        rw [hpending, List.append_assoc]
        rfl
      constructor
      · show c.received ++ [x] ++ xs <+ c.sent
        rw [heq]
        exact hinv
      · simp only [Chan.lost, heq]
        rfl

/-- Along a run, one message is lost in each step that drops one. -/
theorem run_inv {c c' : Chan α} {ls : List (Lbl α)} (hinv : Inv c)
    (hrun : (spec α).run c ls = some c') :
    Inv c' ∧ c'.lost = c.lost + ls.countP Lbl.isDrop := by
  induction ls generalizing c with
  | nil => cases hrun; exact ⟨hinv, rfl⟩
  | cons l ls ih =>
    rcases (spec α).run_cons hrun with ⟨d, hstep, hrest⟩
    rcases step_inv hinv hstep with ⟨hd, hlost⟩
    rcases ih hd hrest with ⟨hc', hlost'⟩
    refine ⟨hc', ?_⟩
    rw [hlost', hlost, List.countP_cons]
    omega

/-- Nothing has been lost exactly when all that was sent is there. -/
theorem Inv.lost_eq_zero_iff {c : Chan α} (hinv : Inv c) :
    c.lost = 0 ↔ c.received ++ c.pending = c.sent := by
  constructor
  · intro h
    exact hinv.eq_of_length_le (by unfold Chan.lost at h; omega)
  · intro h
    rw [Chan.lost, h, Nat.sub_self]

/-! ## Runs of the channel that occur in its users -/

/-- Messages under way are lost from the front, one after another. -/
theorem run_drops (sent received : List α) (lost rest : List α) :
    (spec α).run ⟨sent, lost ++ rest, received⟩ (List.replicate lost.length (.drop 0)) =
      some ⟨sent, rest, received⟩ := by
  induction lost with
  | nil => rfl
  | cons x xs ih => exact ih

/-! ## Systems that carry a channel -/

section Carries

variable {σ : Type v} {Λ : Type w}

/-- A system that carries a channel: `sends` are the messages that an action sends, and every
step from a state with the invariant is a run of the channel, one that drops nothing exactly if
the step `Keeps` all. -/
structure Carries (S : ActionSystem.Spec σ Λ) (α : Type u) where
  Inv : σ → Prop
  sends : σ → Λ → List α
  pending : σ → List α
  received : σ → List α
  Keeps : σ → Λ → σ → Prop
  inv : ∀ s l s', Inv s → S.step s l = some s' → Inv s'
  sim : ∀ (sent : List α) (s : σ) (l : Λ) (s' : σ), Inv s → S.step s l = some s' →
    ∃ ms, (spec α).run ⟨sent, pending s, received s⟩ ms =
        some ⟨sent ++ sends s l, pending s', received s'⟩ ∧
      (Keeps s l s' ↔ ms.countP Lbl.isDrop = 0)

variable {S : ActionSystem.Spec σ Λ} (C : Carries S α)

/-- The channel a state of the system stands for, once these messages have been sent. -/
def Carries.chan (sent : List α) (s : σ) : Chan α := ⟨sent, C.pending s, C.received s⟩

/-- A run of the system is a run of the channel, and loses what its steps drop. -/
theorem Carries.run_inv {sent : List α} {s t : σ} {ls : List Λ} (hs : C.Inv s)
    (hinv : LossyChannel.Inv (C.chan sent s)) (hrun : S.run s ls = some t) :
    LossyChannel.Inv (C.chan (sent ++ S.outputs C.sends s ls) t) ∧
      (C.chan sent s).lost ≤ (C.chan (sent ++ S.outputs C.sends s ls) t).lost ∧
      ((C.chan (sent ++ S.outputs C.sends s ls) t).lost = (C.chan sent s).lost ↔
        S.AllSteps C.Keeps s ls) := by
  induction ls generalizing sent s with
  | nil =>
    cases hrun
    simpa [ActionSystem.Spec.AllSteps, ActionSystem.Spec.outputs] using hinv
  | cons l ls ih =>
    rcases S.run_cons hrun with ⟨s', hstep, hrest⟩
    rcases C.sim sent s l s' hs hstep with ⟨ms, hms, hkeeps⟩
    rcases LossyChannel.run_inv hinv hms with ⟨hinv', hlost⟩
    rcases @ih (sent ++ C.sends s l) s' (C.inv s l s' hs hstep) hinv' hrest with ⟨hend, hle, hiff⟩
    rw [S.outputs_cons_of_step _ hstep, ← List.append_assoc]
    have hlost' : (C.chan (sent ++ C.sends s l) s').lost =
        (C.chan sent s).lost + ms.countP Lbl.isDrop := hlost
    refine ⟨hend, by omega, ?_⟩
    constructor
    · -- losses only grow, so neither this step nor a later one adds any
      intro heq t' ht'
      cases hstep.symm.trans ht'
      exact ⟨hkeeps.mpr (by omega), hiff.mp (by omega)⟩
    · intro hall
      rcases hall s' hstep with ⟨hkeep, hrestall⟩
      have hnone := hkeeps.mp hkeep
      have hsame := hiff.mpr hrestall
      omega

/-- What comes out of the system, followed by what is under way, is a subsequence of what
went in. -/
theorem Carries.sublist_of_run {s t : σ} {ls : List Λ} (hs : C.Inv s) (hp : C.pending s = [])
    (hr : C.received s = []) (hrun : S.run s ls = some t) :
    C.received t ++ C.pending t <+ S.outputs C.sends s ls := by
  have hinit : LossyChannel.Inv (C.chan [] s) := by
    simp [LossyChannel.Inv, Carries.chan, hp, hr]
  exact (C.run_inv hs hinit hrun).1

/-- It is all that went in exactly when every step of the run keeps all messages. -/
theorem Carries.lossless_iff {s t : σ} {ls : List Λ} (hs : C.Inv s) (hp : C.pending s = [])
    (hr : C.received s = []) (hrun : S.run s ls = some t) :
    C.received t ++ C.pending t = S.outputs C.sends s ls ↔ S.AllSteps C.Keeps s ls := by
  have hinit : LossyChannel.Inv (C.chan [] s) := by
    simp [LossyChannel.Inv, Carries.chan, hp, hr]
  have hzero : (C.chan [] s).lost = 0 := by
    simp [Chan.lost, Carries.chan, hp, hr]
  rcases C.run_inv hs hinit hrun with ⟨hinv, -, hiff⟩
  rw [hzero, hinv.lost_eq_zero_iff] at hiff
  exact hiff

end Carries

end LossyChannel
