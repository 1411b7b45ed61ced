import Mathlib.Data.List.Basic

/-!
# Action systems with executable runs

A specification `Init ∧ □[Next]` whose next-state relation is split by labels:
`step s l` is the state after the action `l`, and `none` when the guard of `l`
fails in `s`. Every choice of the environment (a timeout, a completion flag, which
thread moves) is part of the label, so a run is a list of labels and can be computed.

* `run_invariant`: the induction rule for invariants;
* `AllSteps`: a property of every step of a run;
* `allSteps_iff`: a property of all steps of a run holds exactly when a condition
  on the steps does, from one lemma about good steps and one about bad steps;
* `outputs`: what the steps of a run put out;
* `refines_run`: stuttering refinement along an abstraction function.
-/

universe u v w x

namespace ActionSystem

/-- An action system over states `σ` and labels `Λ`. -/
structure Spec (σ : Type u) (Λ : Type v) where
  /-- The initial states. -/
  Init : σ → Prop
  /-- The state after an action; `none` where the action is not enabled. -/
  step : σ → Λ → Option σ

namespace Spec

variable {σ : Type u} {Λ : Type v} (S : Spec σ Λ)

/-! ## Runs -/

/-- Fire the labels one after another; `none` when one of them is not enabled. -/
def run : σ → List Λ → Option σ
  | s, [] => some s
  | s, l :: ls =>
    match S.step s l with
    | none => none
    | some s' => run s' ls

@[simp] theorem run_nil (s : σ) : S.run s [] = some s := rfl

theorem run_cons_of_step {s s' : σ} {l : Λ} (h : S.step s l = some s') (ls : List Λ) :
    S.run s (l :: ls) = S.run s' ls := by
  simp [run, h]

/-- The first step of a run that gets through. -/
theorem run_cons {s t : σ} {l : Λ} {ls : List Λ} (h : S.run s (l :: ls) = some t) :
    ∃ s', S.step s l = some s' ∧ S.run s' ls = some t := by
  cases hs : S.step s l with
  | none => simp [run, hs] at h
  | some s' => exact ⟨s', rfl, by rwa [S.run_cons_of_step hs] at h⟩

theorem run_append (s : σ) (ls ms : List Λ) :
    S.run s (ls ++ ms) = (S.run s ls).bind fun t => S.run t ms := by
  induction ls generalizing s with
  | nil => rfl
  | cons l ls ih =>
    cases hs : S.step s l with
    | none => simp [run, hs]
    | some s' => simp only [List.cons_append, S.run_cons_of_step hs, ih]

/-- A run along two lists passes through a state in between. -/
theorem run_split {s t : σ} {ls ms : List Λ} (h : S.run s (ls ++ ms) = some t) :
    ∃ u, S.run s ls = some u ∧ S.run u ms = some t := by
  rw [run_append] at h
  exact Option.bind_eq_some_iff.mp h

/-- The states some run from an initial state ends in. -/
def Reachable (t : σ) : Prop := ∃ s ls, S.Init s ∧ S.run s ls = some t

theorem reachable_init {s : σ} (h : S.Init s) : S.Reachable s := ⟨s, [], h, rfl⟩

theorem Reachable.step {s s' : σ} {l : Λ} (h : S.Reachable s) (hstep : S.step s l = some s') :
    S.Reachable s' := by
  rcases h with ⟨s0, ls, hinit, hrun⟩
  refine ⟨s0, ls ++ [l], hinit, ?_⟩
  rw [run_append, hrun]
  exact S.run_cons_of_step hstep []

/-- Invariant induction along a run. -/
theorem run_invariant (inv : σ → Prop)
    (hstep : ∀ s l s', inv s → S.step s l = some s' → inv s')
    {s t : σ} {ls : List Λ} (hs : inv s) (hrun : S.run s ls = some t) : inv t := by
  induction ls generalizing s with
  | nil => cases hrun; exact hs
  | cons l ls ih =>
    rcases S.run_cons hrun with ⟨s', hl, hls⟩
    exact ih (hstep s l s' hs hl) hls

/-- Invariant induction over the reachable states. -/
theorem reachable_invariant (inv : σ → Prop) (hinit : ∀ s, S.Init s → inv s)
    (hstep : ∀ s l s', inv s → S.step s l = some s' → inv s')
    {t : σ} (ht : S.Reachable t) : inv t := by
  rcases ht with ⟨s, ls, hs, hrun⟩
  exact S.run_invariant inv hstep (hinit s hs) hrun

/-! ## Properties of all steps of a run -/

/-- Every step of the run from `s` along `ls` satisfies `Q` (state before, label,
state after). -/
def AllSteps (Q : σ → Λ → σ → Prop) : σ → List Λ → Prop
  | _, [] => True
  | s, l :: ls => ∀ s', S.step s l = some s' → Q s l s' ∧ AllSteps Q s' ls

theorem allSteps_append {Q : σ → Λ → σ → Prop} {s : σ} {ls ms : List Λ} :
    S.AllSteps Q s (ls ++ ms) ↔
      S.AllSteps Q s ls ∧ ∀ t, S.run s ls = some t → S.AllSteps Q t ms := by
  induction ls generalizing s with
  | nil =>
    constructor
    · intro h
      refine ⟨trivial, ?_⟩
      intro t ht
      cases ht
      exact h
    · intro h
      exact h.2 s rfl
  | cons l ls ih =>
    constructor
    · intro h
      constructor
      · intro s' hs'
        exact ⟨(h s' hs').1, (ih.mp (h s' hs').2).1⟩
      · intro t ht
        rcases S.run_cons ht with ⟨s', hs', ht'⟩
        exact (ih.mp (h s' hs').2).2 t ht'
    · rintro ⟨hls, hms⟩ s' hs'
      refine ⟨(hls s' hs').1, ih.mpr ⟨(hls s' hs').2, ?_⟩⟩
      intro t ht
      apply hms t
      rw [S.run_cons_of_step hs']
      exact ht

/-- Two properties of all steps. -/
theorem allSteps_and {P Q : σ → Λ → σ → Prop} {s : σ} {ls : List Λ} :
    S.AllSteps (fun s l s' => P s l s' ∧ Q s l s') s ls ↔
      S.AllSteps P s ls ∧ S.AllSteps Q s ls := by
  induction ls generalizing s with
  | nil => exact (and_self_iff).symm
  | cons l ls ih =>
    constructor
    · intro h
      constructor
      · intro s' hs'
        exact ⟨(h s' hs').1.1, (ih.mp (h s' hs').2).1⟩
      · intro s' hs'
        exact ⟨(h s' hs').1.2, (ih.mp (h s' hs').2).2⟩
    · rintro ⟨hP, hQ⟩ s' hs'
      exact ⟨⟨(hP s' hs').1, (hQ s' hs').1⟩, ih.mpr ⟨(hP s' hs').2, (hQ s' hs').2⟩⟩

/-- All steps satisfy `Q` if each one that some prefix of the labels comes to does. -/
theorem allSteps_of_steps {Q : σ → Λ → σ → Prop} {s : σ} {ls : List Λ}
    (h : ∀ ps l t t', ps ++ [l] <+: ls → S.run s ps = some t → S.step t l = some t' → Q t l t') :
    S.AllSteps Q s ls := by
  induction ls generalizing s with
  | nil => trivial
  | cons l ls ih =>
    intro s' hs'
    constructor
    · exact h [] l s s' (List.prefix_append [l] ls) rfl hs'
    · apply ih
      intro ps m t t' hps hrun hstep
      refine h (l :: ps) m t t' ?_ ?_ hstep
      · exact List.cons_prefix_cons.mpr ⟨rfl, hps⟩
      · rw [S.run_cons_of_step hs']
        exact hrun

/-- For all steps to meet `C` it is enough that none is the first that does not. -/
theorem allSteps_of_first {C : σ → Λ → σ → Prop} {s : σ} {ls : List Λ}
    (h : ∀ ps l t t', ps ++ [l] <+: ls → S.AllSteps C s ps → S.run s ps = some t →
      S.step t l = some t' → C t l t') : S.AllSteps C s ls := by
  induction ls generalizing s with
  | nil => trivial
  | cons l ls ih =>
    intro s' hs'
    have hc : C s l s' := h [] l s s' (List.prefix_append [l] ls) trivial rfl hs'
    refine ⟨hc, ih ?_⟩
    intro ps m t t' hps hall hrun hstep
    refine h (l :: ps) m t t' (List.cons_prefix_cons.mpr ⟨rfl, hps⟩) ?_ ?_ hstep
    · intro s'' hs''
      cases hs'.symm.trans hs''
      exact ⟨hc, hall⟩
    · rw [S.run_cons_of_step hs']
      exact hrun

/-- The last step of a run whose steps all satisfy `Q`. -/
theorem allSteps_last {Q : σ → Λ → σ → Prop} {s t t' : σ} {ls : List Λ} {l : Λ}
    (h : S.AllSteps Q s (ls ++ [l])) (hrun : S.run s ls = some t)
    (hstep : S.step t l = some t') : Q t l t' :=
  (((S.allSteps_append.mp h).2 t hrun) t' hstep).1

/-- What the steps of all runs satisfy holds of the step `l` after the run `ls`. -/
theorem forall_allSteps_last {Q : σ → Λ → σ → Prop} {s t t' : σ}
    (h : ∀ ls, S.AllSteps Q s ls) (ls : List Λ) (l : Λ) (hrun : S.run s ls = some t)
    (hstep : S.step t l = some t') : Q t l t' :=
  S.allSteps_last (h (ls ++ [l])) hrun hstep

/-- Invariant induction along a run whose steps meet the condition `C`. -/
theorem allSteps_invariant {C : σ → Λ → σ → Prop} (inv : σ → Prop)
    (hstep : ∀ s l s', inv s → C s l s' → S.step s l = some s' → inv s')
    {s t : σ} (hs : inv s) {ls : List Λ} (hC : S.AllSteps C s ls) (hrun : S.run s ls = some t) :
    inv t := by
  induction ls generalizing s with
  | nil => cases hrun; exact hs
  | cons l ls ih =>
    rcases S.run_cons hrun with ⟨s', hl, hls⟩
    rcases hC s' hl with ⟨hc, hC'⟩
    exact ih (hstep s l s' hs hc hl) hC' hls

/-- If the steps of a run meet the condition `C`, and such a step keeps the invariant and
satisfies `Q`, then all of them satisfy `Q`. -/
theorem allSteps_imp {Q C : σ → Λ → σ → Prop} (inv : σ → Prop)
    (hgood : ∀ s l s', inv s → C s l s' → S.step s l = some s' → inv s' ∧ Q s l s')
    {s : σ} (hs : inv s) {ls : List Λ} (hC : S.AllSteps C s ls) : S.AllSteps Q s ls := by
  induction ls generalizing s with
  | nil => trivial
  | cons l ls ih =>
    intro s' hs'
    rcases hC s' hs' with ⟨hc, hC'⟩
    rcases hgood s l s' hs hc hs' with ⟨hi, hq⟩
    exact ⟨hq, ih hi hC'⟩

/-- All steps of a run satisfy `Q` exactly when they all meet the condition `C`:
a step that meets `C` keeps the invariant and satisfies `Q`, and a step from an
invariant state that does not meet `C` violates `Q`. -/
theorem allSteps_iff {Q C : σ → Λ → σ → Prop} (inv : σ → Prop)
    (hgood : ∀ s l s', inv s → C s l s' → S.step s l = some s' → inv s' ∧ Q s l s')
    (hbad : ∀ s l s', inv s → ¬ C s l s' → S.step s l = some s' → ¬ Q s l s')
    {s : σ} (hs : inv s) (ls : List Λ) : S.AllSteps Q s ls ↔ S.AllSteps C s ls := by
  constructor
  · intro hQ
    induction ls generalizing s with
    | nil => trivial
    | cons l ls ih =>
      -- a step that did not meet `C` would violate `Q`; one that does keeps the invariant
      intro s' hs'
      rcases hQ s' hs' with ⟨hq, hQ'⟩
      have hc : C s l s' := by
        by_contra hne
        exact hbad s l s' hs hne hs' hq
      exact ⟨hc, ih (hgood s l s' hs hc hs').1 hQ'⟩
  · exact S.allSteps_imp inv hgood hs

/-- The same for a property with a parameter that is chosen once for the whole run. -/
theorem allSteps_exists_iff {α : Type w} {Q : α → σ → Λ → σ → Prop} {C : σ → Λ → σ → Prop}
    (inv : σ → Prop) (a : α)
    (hgood : ∀ s l s', inv s → C s l s' → S.step s l = some s' → inv s' ∧ Q a s l s')
    (hbad : ∀ b s l s', inv s → ¬ C s l s' → S.step s l = some s' → ¬ Q b s l s')
    {s : σ} (hs : inv s) (ls : List Λ) :
    (∃ b, S.AllSteps (Q b) s ls) ↔ S.AllSteps C s ls := by
  constructor
  · rintro ⟨b, hall⟩
    have hsome : S.AllSteps (fun s l s' => ∃ b, Q b s l s') s ls :=
      S.allSteps_imp (fun _ => True) (fun _ _ _ _ hq _ => ⟨trivial, b, hq⟩) trivial hall
    refine (S.allSteps_iff inv ?_ ?_ hs ls).mp hsome
    · intro s l s' hi hc hstep
      rcases hgood s l s' hi hc hstep with ⟨hi', hq⟩
      exact ⟨hi', a, hq⟩
    · rintro s l s' hi hc hstep ⟨b, hq⟩
      exact hbad b s l s' hi hc hstep hq
  · intro hC
    exact ⟨a, S.allSteps_imp inv hgood hs hC⟩

/-! ## Outputs -/

/-- What the steps of a run put out, where `out s l` is the output of the action `l` in `s`. -/
def outputs {α : Type w} (out : σ → Λ → List α) : σ → List Λ → List α
  | _, [] => []
  | s, l :: ls => out s l ++ ((S.step s l).map fun s' => outputs out s' ls).getD []

theorem outputs_cons_of_step {α : Type w} (out : σ → Λ → List α) {s s' : σ} {l : Λ}
    (h : S.step s l = some s') (ls : List Λ) :
    S.outputs out s (l :: ls) = out s l ++ S.outputs out s' ls := by
  simp [outputs, h]

/-- The outputs of a run and of one step more. -/
theorem outputs_concat {α : Type w} (out : σ → Λ → List α) {s t : σ} {ls : List Λ}
    (hrun : S.run s ls = some t) (l : Λ) :
    S.outputs out s (ls ++ [l]) = S.outputs out s ls ++ out t l := by
  induction ls generalizing s with
  | nil =>
    cases hrun
    cases hl : S.step t l <;> simp [outputs, hl]
  | cons m ls ih =>
    rcases S.run_cons hrun with ⟨s', hm, hls⟩
    rw [List.cons_append, S.outputs_cons_of_step _ hm, S.outputs_cons_of_step _ hm, ih hls,
      List.append_assoc]

/-- Outputs that depend on the action alone. -/
theorem outputs_of_label {α : Type w} (out : Λ → List α) {s t : σ} {ls : List Λ}
    (hrun : S.run s ls = some t) : S.outputs (fun _ l => out l) s ls = ls.flatMap out := by
  induction ls generalizing s with
  | nil => rfl
  | cons l ls ih =>
    rcases S.run_cons hrun with ⟨s', hl, hls⟩
    rw [S.outputs_cons_of_step _ hl, ih hls, List.flatMap_cons]

/-- What goes in comes out in its order: if in each step with one of some labels what is held,
followed by what comes in, is what goes out, followed by what is held then, so it is in a run. -/
theorem outputs_balance {α : Type w} {ins outs : σ → Λ → List α} {held : σ → List α}
    {P : Λ → Prop}
    (hstep : ∀ s l s', P l → S.step s l = some s' → held s ++ ins s l = outs s l ++ held s')
    {s t : σ} {ls : List Λ} (hls : ∀ l ∈ ls, P l) (hrun : S.run s ls = some t) :
    held s ++ S.outputs ins s ls = S.outputs outs s ls ++ held t := by
  induction ls generalizing s with
  | nil =>
    cases hrun
    exact List.append_nil _
  | cons l ls ih =>
    rcases S.run_cons hrun with ⟨s', hl, hrest⟩
    have hnow := hstep s l s' (hls l List.mem_cons_self) hl
    have hlater := ih (fun l hl => hls l (List.mem_cons_of_mem _ hl)) hrest
    rw [S.outputs_cons_of_step _ hl, S.outputs_cons_of_step _ hl, ← List.append_assoc, hnow,
      List.append_assoc, hlater, List.append_assoc]

/-! ## Refinement -/

/-- Stuttering refinement: if every step from an invariant state is a (possibly
empty) run of `A` between the abstractions, so is every run. -/
theorem refines_run {τ : Type w} {M : Type x} (A : Spec τ M) (abs : σ → τ) (inv : σ → Prop)
    (hinv : ∀ s l s', inv s → S.step s l = some s' → inv s')
    (hsim : ∀ s l s', inv s → S.step s l = some s' → ∃ ms, A.run (abs s) ms = some (abs s'))
    {s t : σ} {ls : List Λ} (hs : inv s) (hrun : S.run s ls = some t) :
    ∃ ms, A.run (abs s) ms = some (abs t) := by
  induction ls generalizing s with
  | nil => cases hrun; exact ⟨[], rfl⟩
  | cons l ls ih =>
    rcases S.run_cons hrun with ⟨s', hl, hls⟩
    rcases hsim s l s' hs hl with ⟨ms, hms⟩
    rcases ih (hinv s l s' hs hl) hls with ⟨ns, hns⟩
    refine ⟨ms ++ ns, ?_⟩
    rw [run_append, hms]
    exact hns

end Spec

end ActionSystem
