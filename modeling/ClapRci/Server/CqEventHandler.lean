import Mathlib.Data.Nat.Basic
import ClapRci.Lib.OrdMap

/-!
# Deferred functions on a completion queue (`server/cqeventhandler.cpp`)

`enqueueFn` wraps a function in an `EventTag`, keeps the tag in `pendingAlarmTags` and
sets an alarm whose completion carries it. `EventTag::process` calls the function and
destroys the tag. What a function does is left to those who enqueue it: `F` names it.
-/

namespace ClapRci

/-- `pendingAlarmTags`, keyed by the addresses of the tags, and the tags whose alarms have
not completed. New tags get addresses no living tag has. -/
structure AlarmTags (F : Type) where
  pendingAlarmTags : OrdMap Nat F := OrdMap.empty
  outstanding : List Nat := []
  nextTag : Nat := 0

namespace AlarmTags

variable {F : Type}

/-- `enqueueFn(f, deferNs)`; the delay decides only when the alarm completes. -/
def enqueueFn (h : AlarmTags F) (f : F) : Bool × AlarmTags F :=
  let tag := h.nextTag
  let (inserted, tags) := h.pendingAlarmTags.emplace tag f
  let h := { h with pendingAlarmTags := tags, nextTag := tag + 1 }
  if !inserted then (false, h)
  -- the alarm is set only for a tag that is in the map
  else (true, { h with outstanding := h.outstanding ++ [tag] })

/-- `destroyAlarmTag(tag)`. -/
def destroyAlarmTag (h : AlarmTags F) (tag : Nat) : Bool × AlarmTags F :=
  let (erased, tags) := h.pendingAlarmTags.erase tag
  (erased, { h with pendingAlarmTags := tags })

/-- `Next` returns this tag: its alarm has fired or was cancelled. The function to call
is the tag's. -/
def next (h : AlarmTags F) (tag : Nat) : Option (F × AlarmTags F) :=
  if tag ∈ h.outstanding then
    (h.pendingAlarmTags.find? tag).map fun f =>
      (f, { h with outstanding := h.outstanding.erase tag })
  else none

/-- The callbacks scheduled for `f`. -/
def scheduled [DecidableEq F] (h : AlarmTags F) (f : F) : Nat :=
  h.pendingAlarmTags.entries.countP fun e => e.2 = f

/-! ## Each pending tag has one alarm -/

/-- The tags in the map are those whose alarm is to complete, and those being processed. -/
structure Inv (h : AlarmTags F) (processing : List Nat) : Prop where
  outstanding : (processing ++ h.outstanding).Perm h.pendingAlarmTags.keys
  fresh : ∀ tag ∈ h.pendingAlarmTags.keys, tag < h.nextTag

theorem init_inv : Inv ({} : AlarmTags F) [] where
  outstanding := List.Perm.refl _
  fresh := nofun

section Steps

variable {h : AlarmTags F} {processing : List Nat}

theorem Inv.nextTag_not_mem (hinv : Inv h processing) : h.nextTag ∉ h.pendingAlarmTags.keys :=
  fun hmem => Nat.lt_irrefl _ (hinv.fresh _ hmem)

/-- `enqueueFn` does not fail. -/
theorem Inv.enqueueFn_eq (hinv : Inv h processing) (f : F) :
    h.enqueueFn f = (true, {
      pendingAlarmTags := (h.pendingAlarmTags.emplace h.nextTag f).2
      outstanding := h.outstanding ++ [h.nextTag]
      nextTag := h.nextTag + 1 }) := by
  simp [AlarmTags.enqueueFn, OrdMap.emplace_fst_of_not_mem hinv.nextTag_not_mem]

theorem Inv.enqueueFn (hinv : Inv h processing) (f : F) :
    Inv (h.enqueueFn f).2 processing := by
  have hperm := (OrdMap.emplace_perm hinv.nextTag_not_mem f).map Prod.fst
  rw [hinv.enqueueFn_eq]
  constructor
  · -- the new alarm is last in `outstanding`, its tag anywhere in the map
    rw [← List.append_assoc]
    refine (List.perm_append_singleton _ _).trans ?_
    exact (hinv.outstanding.cons _).trans hperm.symm
  · intro tag htag
    rcases OrdMap.mem_keys_emplace.mp htag with rfl | hold
    · exact Nat.lt_succ_self _
    · exact Nat.lt_succ_of_lt (hinv.fresh tag hold)

theorem Inv.scheduled_enqueueFn [DecidableEq F] (hinv : Inv h processing) (f g : F) :
    (h.enqueueFn f).2.scheduled g = h.scheduled g + if f = g then 1 else 0 := by
  rw [hinv.enqueueFn_eq]
  exact OrdMap.count_emplace hinv.nextTag_not_mem f g

/-- A tag enqueued keeps its function until it is destroyed. -/
theorem Inv.find?_enqueueFn (hinv : Inv h processing) (f : F) {tag : Nat} {g : F}
    (hfind : h.pendingAlarmTags.find? tag = some g) :
    (h.enqueueFn f).2.pendingAlarmTags.find? tag = some g := by
  have hne : tag ≠ h.nextTag := by
    rintro rfl
    exact hinv.nextTag_not_mem (OrdMap.mem_keys_of_find? hfind)
  rw [hinv.enqueueFn_eq]
  exact (OrdMap.find?_emplace_ne hne f).trans hfind

theorem next_spec {tag : Nat} {f : F} {h' : AlarmTags F} (hnext : h.next tag = some (f, h')) :
    tag ∈ h.outstanding ∧ h.pendingAlarmTags.find? tag = some f ∧
      h' = { h with outstanding := h.outstanding.erase tag } := by
  unfold AlarmTags.next at hnext
  split at hnext
  · rename_i hmem
    rcases Option.map_eq_some_iff.mp hnext with ⟨f', hfind, heq⟩
    cases heq
    exact ⟨hmem, hfind, rfl⟩
  · cases hnext

theorem Inv.next {tag : Nat} {f : F} {h' : AlarmTags F} (hinv : Inv h [])
    (hnext : h.next tag = some (f, h')) : Inv h' [tag] := by
  rcases next_spec hnext with ⟨hmem, -, rfl⟩
  exact ⟨(List.perm_cons_erase hmem).symm.trans hinv.outstanding, hinv.fresh⟩

theorem Inv.destroyAlarmTag {tag : Nat} {f : F} (hinv : Inv h [tag])
    (hfind : h.pendingAlarmTags.find? tag = some f) : Inv (h.destroyAlarmTag tag).2 [] where
  outstanding := by
    have hperm := (OrdMap.erase_perm hfind).map Prod.fst
    exact (hinv.outstanding.trans hperm).cons_inv
  fresh t ht := hinv.fresh t (OrdMap.mem_keys_erase.mp ht).1

/-- A callback is scheduled under some tag. -/
theorem scheduled_pos [DecidableEq F] {f : F} :
    0 < h.scheduled f ↔ ∃ tag, h.pendingAlarmTags.find? tag = some f := OrdMap.count_pos

/-- `enqueueFn` schedules what it is given, and nothing else. -/
theorem scheduled_of_enqueueFn [DecidableEq F] {f g : F}
    (hsched : 0 < (h.enqueueFn f).2.scheduled g) : f = g ∨ 0 < h.scheduled g := by
  rcases scheduled_pos.mp hsched with ⟨tag, hfind⟩
  have htags : (h.enqueueFn f).2.pendingAlarmTags =
      (h.pendingAlarmTags.emplace h.nextTag f).2 := by
    simp only [AlarmTags.enqueueFn]
    split <;> rfl
  rw [htags] at hfind
  rcases OrdMap.find?_of_emplace hfind with ⟨-, heq⟩ | hold
  · exact Or.inl heq
  · exact Or.inr (scheduled_pos.mpr ⟨tag, hold⟩)

theorem scheduled_of_destroyAlarmTag [DecidableEq F] {tag : Nat} {f : F}
    (hsched : 0 < (h.destroyAlarmTag tag).2.scheduled f) : 0 < h.scheduled f := by
  rcases scheduled_pos.mp hsched with ⟨tag', hfind⟩
  exact scheduled_pos.mpr ⟨tag', (OrdMap.find?_of_erase hfind).2⟩

theorem scheduled_destroyAlarmTag [DecidableEq F] {tag : Nat} {f : F}
    (hfind : h.pendingAlarmTags.find? tag = some f) (g : F) :
    (h.destroyAlarmTag tag).2.scheduled g + (if f = g then 1 else 0) = h.scheduled g :=
  OrdMap.count_erase hfind g

end Steps

end AlarmTags

end ClapRci
