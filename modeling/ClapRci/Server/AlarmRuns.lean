import Mathlib.Logic.Function.Basic
import ClapRci.Lib.ActionSystem
import ClapRci.Server.CqEventHandler

/-!
# The alarms of a completion queue over whole runs (`server/cqeventhandler.cpp`)

The events of one `CqEventHandler`, processed one at a time. A tag is allocated wherever no
tag lives, so its address may be one that an earlier tag had; a callback may enqueue more
functions while its own tag is in the map; and tags that are not in the map complete between
the others. Each alarm completes once, fired or cancelled, and in any order.

`exact_of_reachable`: every function is called once, with the flag of its own alarm, and the
map holds exactly the tags that are not done.
-/

namespace ClapRci

namespace AlarmTags

variable {F : Type}

/-- `enqueueFn(f, deferNs)` with the tag at this address. The alarm is set for now or for
later, for the same tag. -/
def enqueueAt (h : AlarmTags F) (tag : Nat) (f : F) : Bool × AlarmTags F :=
  let (inserted, tags) := h.pendingAlarmTags.emplace tag f
  let h := { h with pendingAlarmTags := tags }
  if !inserted then (false, h)
  else (true, { h with outstanding := h.outstanding ++ [tag] })

/-- `hasPendingAlarms()`. -/
def hasPendingAlarms (h : AlarmTags F) : Bool := !h.pendingAlarmTags.keys.isEmpty

/-- `enqueueFn` takes addresses that were never used. -/
theorem enqueueFn_eq_enqueueAt (h : AlarmTags F) (f : F) :
    h.enqueueFn f = ((h.enqueueAt h.nextTag f).1,
      { (h.enqueueAt h.nextTag f).2 with nextTag := h.nextTag + 1 }) := by
  unfold enqueueFn enqueueAt
  by_cases hmem : h.nextTag ∈ h.pendingAlarmTags.keys
  · simp [OrdMap.emplace_of_mem hmem]
  · simp [OrdMap.emplace_fst_of_not_mem hmem]

theorem enqueueAt_eq {h : AlarmTags F} {tag : Nat} (hnew : tag ∉ h.pendingAlarmTags.keys)
    (f : F) : h.enqueueAt tag f = (true, { h with
      pendingAlarmTags := (h.pendingAlarmTags.emplace tag f).2
      outstanding := h.outstanding ++ [tag] }) := by
  simp [enqueueAt, OrdMap.emplace_fst_of_not_mem hnew]

end AlarmTags

namespace AlarmRuns

/-- The tag whose `process` runs: one of the map, or another one. -/
inductive Processing where
  | alarm (tag : Nat)
  | other (tag : Nat)
deriving DecidableEq

/-- The address of the tag. -/
def Processing.tag : Processing → Nat
  | .alarm tag => tag
  | .other tag => tag

/-- The map with what the queue does. A function is known by the number of the call of
`enqueueFn` that it came with. -/
structure Sys where
  tags : AlarmTags Nat := {}
  processing : Option Processing := none
  enqueued : Nat := 0
  /-- The call that set the alarm for the tag. -/
  setBy : Nat → Nat := fun _ => 0
  /-- The alarms completed, and the functions called, with their flags. -/
  completions : List (Nat × Bool) := []
  calls : List (Nat × Bool) := []

/-- A call of `enqueueFn`, from anywhere; the next event of the queue, an alarm's or another
tag's; the end of the `process` under way. -/
inductive Lbl where
  | enqueueFn (deferNs tag : Nat)
  | next (tag : Nat) (ok : Bool)
  | other (tag : Nat) (ok : Bool)
  | finish

def step (s : Sys) : Lbl → Option Sys
  | .enqueueFn _ tag =>
    -- a new tag is no tag that is alive
    if tag ∈ s.tags.pendingAlarmTags.keys ∨ s.processing = some (.other tag) then none
    else
      some { s with
        tags := (s.tags.enqueueAt tag s.enqueued).2
        enqueued := s.enqueued + 1
        setBy := Function.update s.setBy tag s.enqueued }
  | .next tag ok =>
    match s.processing with
    | some _ => none
    | none =>
      (s.tags.next tag).map fun (f, tags) =>
        { s with
          tags := tags
          processing := some (.alarm tag)
          completions := s.completions ++ [(s.setBy tag, ok)]
          calls := s.calls ++ [(f, ok)] }
  | .other tag _ =>
    match s.processing with
    | some _ => none
    | none =>
      if tag ∈ s.tags.pendingAlarmTags.keys then none
      else some { s with processing := some (.other tag) }
  | .finish =>
    match s.processing with
    | none => none
    | some p => some { s with tags := (s.tags.destroyAlarmTag p.tag).2, processing := none }

/-- All runs of one handler. -/
def spec : ActionSystem.Spec Sys Lbl where
  Init s := s = {}
  step := step

/-- The tag of the map whose completion is being processed. -/
def Sys.running (s : Sys) : List Nat :=
  match s.processing with
  | some (.alarm tag) => [tag]
  | _ => []

/-- What is promised of a state. -/
structure Exact (s : Sys) : Prop where
  /-- A function is called once, when its alarm has completed. -/
  once : ∀ n < s.enqueued, (s.calls.map Prod.fst).count n =
    if n ∈ s.tags.outstanding.map s.setBy then 0 else 1
  only : ∀ c ∈ s.calls, c.1 < s.enqueued
  /-- It is given the flag of its own alarm. -/
  flags : s.calls = s.completions
  /-- In the map are the tags whose alarm is to complete, and the one being processed. -/
  pending : ∀ tag, tag ∈ s.tags.pendingAlarmTags.keys ↔
    tag ∈ s.tags.outstanding ∨ s.processing = some (.alarm tag)
  /-- Whatever alarm comes next, the function to call is there. -/
  found : ∀ tag ∈ s.tags.outstanding, (s.tags.next tag).isSome
  /-- Another tag that completes leaves the map, when it comes and when it is done. -/
  others : ∀ tag ok s', step s (.other tag ok) = some s' →
    s'.tags.pendingAlarmTags = s.tags.pendingAlarmTags
  othersDone : ∀ tag s', s.processing = some (.other tag) → step s .finish = some s' →
    s'.tags.pendingAlarmTags = s.tags.pendingAlarmTags
  drained : s.tags.outstanding = [] → s.processing = none → s.tags.hasPendingAlarms = false

/-! ## The invariant -/

/-- Tags, alarms and calls, each with its owner. -/
structure Inv (s : Sys) : Prop where
  keys : (s.running ++ s.tags.outstanding).Perm s.tags.pendingAlarmTags.keys
  owner : ∀ tag ∈ s.tags.outstanding,
    s.tags.pendingAlarmTags.find? tag = some (s.setBy tag)
  calls : (s.calls.map Prod.fst ++ s.tags.outstanding.map s.setBy).Perm (List.range s.enqueued)
  flags : s.calls = s.completions
  other : ∀ tag, s.processing = some (.other tag) → tag ∉ s.tags.pendingAlarmTags.keys

theorem init_inv : Inv {} where
  keys := List.Perm.refl _
  owner tag hmem := by cases hmem
  calls := List.Perm.refl _
  flags := rfl
  other tag h := by cases h

section Steps

variable {s s' : Sys}

/-- The new function is the next one, and no alarm that is set changes its owner. -/
theorem Inv.enqueueFn (h : Inv s) {tag : Nat} (hnew : tag ∉ s.tags.pendingAlarmTags.keys)
    (hother : s.processing ≠ some (.other tag)) :
    Inv { s with
      tags := (s.tags.enqueueAt tag s.enqueued).2
      enqueued := s.enqueued + 1
      setBy := Function.update s.setBy tag s.enqueued } := by
  have hout : tag ∉ s.tags.outstanding := fun hmem =>
    hnew (h.keys.subset (List.mem_append_right _ hmem))
  have hsetBy : s.tags.outstanding.map (Function.update s.setBy tag s.enqueued) =
      s.tags.outstanding.map s.setBy := by
    apply List.map_congr_left
    intro t ht
    have hne : t ≠ tag := fun heq => hout (heq ▸ ht)
    exact Function.update_of_ne hne _ _
  rw [AlarmTags.enqueueAt_eq hnew]
  constructor
  · -- the new tag is last among the alarms, and anywhere in the map
    have hemplace := (OrdMap.emplace_perm hnew s.enqueued).map Prod.fst
    change (s.running ++ (s.tags.outstanding ++ [tag])).Perm _
    rw [← List.append_assoc]
    refine (List.perm_append_singleton _ _).trans ?_
    exact (h.keys.cons tag).trans hemplace.symm
  · intro t ht
    rcases List.mem_append.mp ht with hold | hself
    · have hne : t ≠ tag := fun heq => hout (heq ▸ hold)
      show (s.tags.pendingAlarmTags.emplace tag s.enqueued).2.find? t =
        some (Function.update s.setBy tag s.enqueued t)
      rw [OrdMap.find?_emplace_ne hne, Function.update_of_ne hne]
      exact h.owner t hold
    · rw [List.mem_singleton.mp hself]
      show (s.tags.pendingAlarmTags.emplace tag s.enqueued).2.find? tag =
        some (Function.update s.setBy tag s.enqueued tag)
      rw [OrdMap.find?_emplace_self hnew, Function.update_self]
  · show (s.calls.map Prod.fst ++ (s.tags.outstanding ++ [tag]).map
      (Function.update s.setBy tag s.enqueued)).Perm (List.range (s.enqueued + 1))
    rw [List.map_append, hsetBy, List.map_singleton, Function.update_self, ← List.append_assoc,
      List.range_succ]
    exact h.calls.append_right [s.enqueued]
  · exact h.flags
  · intro t ht hmem
    rcases OrdMap.mem_keys_emplace.mp hmem with rfl | hold
    · exact hother ht
    · exact h.other t ht hold

/-- The alarm that completes is its function's, and is gone from those that are set. -/
theorem Inv.next (h : Inv s) (hnone : s.processing = none) {tag f : Nat} {tags : AlarmTags Nat}
    (hnext : s.tags.next tag = some (f, tags)) (ok : Bool) :
    Inv { s with
      tags := tags
      processing := some (.alarm tag)
      completions := s.completions ++ [(s.setBy tag, ok)]
      calls := s.calls ++ [(f, ok)] } := by
  obtain ⟨hmem, hfind, rfl⟩ := AlarmTags.next_spec hnext
  obtain rfl : s.setBy tag = f := Option.some.inj ((h.owner tag hmem).symm.trans hfind)
  have herase := List.perm_cons_erase hmem
  constructor
  · have hkeys := h.keys
    simp only [Sys.running, hnone, List.nil_append] at hkeys
    exact herase.symm.trans hkeys
  · intro t ht
    exact h.owner t (List.mem_of_mem_erase ht)
  · -- the function moves from those that wait to those that were called
    show ((s.calls ++ [(s.setBy tag, ok)]).map Prod.fst ++
      (s.tags.outstanding.erase tag).map s.setBy).Perm _
    rw [List.map_append, List.append_assoc]
    refine List.Perm.trans ?_ h.calls
    exact (herase.map s.setBy).symm.append_left _
  · show s.calls ++ _ = s.completions ++ _
    rw [h.flags]
  · intro t ht
    cases ht

/-- The tag of an alarm erases itself. -/
theorem Inv.finish_alarm (h : Inv s) {tag : Nat} (hproc : s.processing = some (.alarm tag)) :
    Inv { s with tags := (s.tags.destroyAlarmTag tag).2, processing := none } := by
  have hkeys := h.keys
  simp only [Sys.running, hproc] at hkeys
  have hout : tag ∉ s.tags.outstanding :=
    (List.nodup_cons.mp (hkeys.nodup_iff.mpr s.tags.pendingAlarmTags.keys_nodup)).1
  have hmem : tag ∈ s.tags.pendingAlarmTags.keys := hkeys.subset List.mem_cons_self
  constructor
  · obtain ⟨f, hfind⟩ := Option.isSome_iff_exists.mp (OrdMap.find?_isSome.mpr hmem)
    exact (hkeys.trans ((OrdMap.erase_perm hfind).map Prod.fst)).cons_inv
  · intro t ht
    have hne : t ≠ tag := fun heq => hout (heq ▸ ht)
    exact (OrdMap.find?_erase_ne hne).trans (h.owner t ht)
  · exact h.calls
  · exact h.flags
  · intro t ht
    cases ht

/-- Another tag looks for itself in the map and is not there. -/
theorem Inv.finish_other (h : Inv s) {tag : Nat} (hproc : s.processing = some (.other tag)) :
    (s.tags.destroyAlarmTag tag).2 = s.tags := by
  simp only [AlarmTags.destroyAlarmTag, OrdMap.erase_of_not_mem (h.other tag hproc)]

theorem step_inv {l : Lbl} (h : Inv s) (hstep : step s l = some s') : Inv s' := by
  cases l with
  | enqueueFn deferNs tag =>
    simp only [step] at hstep
    split at hstep
    · cases hstep
    · rename_i hfresh
      rw [not_or] at hfresh
      cases hstep
      exact h.enqueueFn hfresh.1 hfresh.2
  | next tag ok =>
    simp only [step] at hstep
    split at hstep
    · cases hstep
    · rename_i hnone
      obtain ⟨⟨f, tags⟩, hnext, rfl⟩ := Option.map_eq_some_iff.mp hstep
      exact h.next hnone hnext ok
  | other tag ok =>
    simp only [step] at hstep
    split at hstep
    · cases hstep
    · rename_i hnone
      split at hstep
      · cases hstep
      · rename_i hnot
        cases hstep
        refine ⟨?_, h.owner, h.calls, h.flags, ?_⟩
        · have hkeys := h.keys
          rwa [Sys.running, hnone] at hkeys
        · rintro t ⟨⟩
          exact hnot
  | finish =>
    simp only [step] at hstep
    split at hstep
    · cases hstep
    · rename_i p hproc
      cases hstep
      cases p with
      | alarm tag => exact h.finish_alarm hproc
      | other tag =>
        have hsame := h.finish_other hproc
        have hkeys := h.keys
        rw [Sys.running, hproc] at hkeys
        refine ⟨?_, ?_, ?_, h.flags, ?_⟩
        · rw [Processing.tag, hsame]
          exact hkeys
        · rw [Processing.tag, hsame]
          exact h.owner
        · rw [Processing.tag, hsame]
          exact h.calls
        · intro t ht
          cases ht

end Steps

theorem inv_of_reachable {s : Sys} (h : spec.Reachable s) : Inv s := by
  apply spec.reachable_invariant Inv _ _ h
  · rintro s rfl
    exact init_inv
  · intro s l s' hinv hstep
    exact step_inv hinv hstep

/-! ## What holds of every run -/

section Promises

variable {s : Sys}

/-- Each call number is that of a function called, or of one whose alarm is set. -/
theorem Inv.once (h : Inv s) {n : Nat} (hn : n < s.enqueued) :
    (s.calls.map Prod.fst).count n =
      if n ∈ s.tags.outstanding.map s.setBy then 0 else 1 := by
  have hcount := h.calls.count_eq n
  rw [List.count_append, List.nodup_range.count, if_pos (List.mem_range.mpr hn)] at hcount
  split
  · rename_i hmem
    have hpos := List.count_pos_iff.mpr hmem
    omega
  · rename_i hnot
    rw [List.count_eq_zero_of_not_mem hnot] at hcount
    exact hcount

theorem Inv.pending (h : Inv s) (tag : Nat) : tag ∈ s.tags.pendingAlarmTags.keys ↔
    tag ∈ s.tags.outstanding ∨ s.processing = some (.alarm tag) := by
  rw [← h.keys.mem_iff, List.mem_append, or_comm]
  apply or_congr_right
  unfold Sys.running
  constructor
  · intro hmem
    split at hmem
    · rename_i t hproc
      rw [hproc, List.mem_singleton.mp hmem]
    · cases hmem
  · intro hproc
    rw [hproc]
    exact List.mem_cons_self

theorem Inv.found (h : Inv s) {tag : Nat} (hmem : tag ∈ s.tags.outstanding) :
    (s.tags.next tag).isSome := by
  rw [AlarmTags.next, if_pos hmem, h.owner tag hmem]
  rfl

theorem Inv.drained (h : Inv s) (hout : s.tags.outstanding = []) (hnone : s.processing = none) :
    s.tags.hasPendingAlarms = false := by
  have hkeys := h.keys
  rw [Sys.running, hnone, hout] at hkeys
  unfold AlarmTags.hasPendingAlarms
  rw [← hkeys.nil_eq]
  rfl

end Promises

/-- In every run of calls and completions, each function is called once with the flag of its
alarm, and the map has exactly the tags that are not done. -/
theorem exact_of_reachable (s : Sys) (h : spec.Reachable s) : Exact s := by
  have hinv := inv_of_reachable h
  constructor
  · intro n hn
    exact hinv.once hn
  · intro c hc
    have hmem : c.1 ∈ s.calls.map Prod.fst := List.mem_map.mpr ⟨c, hc, rfl⟩
    exact List.mem_range.mp (hinv.calls.subset (List.mem_append_left _ hmem))
  · exact hinv.flags
  · exact hinv.pending
  · intro tag hmem
    exact hinv.found hmem
  · intro tag ok s' hstep
    simp only [step] at hstep
    split at hstep
    · cases hstep
    · split at hstep
      · cases hstep
      · cases hstep
        rfl
  · intro tag s' hproc hstep
    simp only [step, hproc, Option.some.injEq] at hstep
    rw [← hstep]
    exact congrArg AlarmTags.pendingAlarmTags (hinv.finish_other hproc)
  · exact hinv.drained

/-- A callback that enqueues another function, a done notification, an address that is used
again, and an alarm that is cancelled. -/
theorem exact_rearmed : ∃ s : Sys, spec.Reachable s ∧ s.enqueued = 3 ∧ Exact s ∧
    s.calls = [(0, true), (1, true), (2, false)] ∧ s.tags.hasPendingAlarms = false := by
  have hreach : spec.Reachable _ := ⟨{}, [.enqueueFn 0 5, .next 5 true, .enqueueFn 200000 9,
    .finish, .other 3 true, .finish, .next 9 true, .enqueueFn 5000 5, .finish, .next 5 false,
    .finish], rfl, rfl⟩
  exact ⟨_, hreach, rfl, exact_of_reachable _ hreach, rfl, rfl⟩

/-! ## Draining the queue -/

/-- One alarm less: its completion is taken and its tag destroyed. -/
theorem Inv.process {s : Sys} (h : Inv s) (hnone : s.processing = none) {tag : Nat}
    (hmem : tag ∈ s.tags.outstanding) (ok : Bool) :
    ∃ s', spec.run s [.next tag ok, .finish] = some s' ∧ Inv s' ∧ s'.processing = none ∧
      s'.tags.outstanding = s.tags.outstanding.erase tag := by
  obtain ⟨⟨f, tags⟩, hnext⟩ := Option.isSome_iff_exists.mp (h.found hmem)
  have hinv := h.next hnone hnext ok
  obtain ⟨-, -, htags⟩ := AlarmTags.next_spec hnext
  refine ⟨_, ?_, hinv.finish_alarm rfl, rfl, ?_⟩
  · simp only [ActionSystem.Spec.run, spec, step, hnone, hnext, Option.map_some]
    rfl
  · rw [htags]
    rfl

/-- `teardown` gets to the end: the alarms that are set complete one after another, in any
order and with any flags, and nothing is pending. -/
theorem Inv.drains {s : Sys} (h : Inv s) (hnone : s.processing = none) {order : List Nat}
    (horder : order.Perm s.tags.outstanding) (ok : Nat → Bool) :
    ∃ s', spec.run s (order.flatMap fun tag => [.next tag (ok tag), .finish]) = some s' ∧
      s'.tags.hasPendingAlarms = false := by
  induction order generalizing s with
  | nil => exact ⟨s, rfl, h.drained horder.nil_eq.symm hnone⟩
  | cons tag order ih =>
    have hmem : tag ∈ s.tags.outstanding := horder.subset List.mem_cons_self
    obtain ⟨s1, hrun, hinv, hnone1, hout⟩ := h.process hnone hmem (ok tag)
    have hrest : order.Perm s1.tags.outstanding := by
      rw [hout]
      exact (horder.trans (List.perm_cons_erase hmem)).cons_inv
    obtain ⟨s2, hrun2, hdrained⟩ := ih hinv hnone1 hrest
    refine ⟨s2, ?_, hdrained⟩
    rw [List.flatMap_cons, spec.run_append, hrun]
    exact hrun2

end AlarmRuns

end ClapRci
