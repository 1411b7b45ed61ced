import Mathlib.Data.List.Basic
import Mathlib.Order.Lattice
import Mathlib.Tactic.Common

/-!
# Ordered maps and sets

Maps and sets that are traversed in key order, as strictly sorted lists with the
sortedness as a field. `emplace` and `insert` keep an existing entry and say whether
they added one; `erase` says whether it removed one.
-/

universe u v

/-- A finite map, by its entries in increasing key order. -/
structure OrdMap (κ : Type u) (α : Type v) [LinearOrder κ] where
  entries : List (κ × α)
  sorted : (entries.map Prod.fst).Pairwise (· < ·)
deriving DecidableEq

namespace OrdMap

variable {κ : Type u} {α : Type v} [LinearOrder κ]

/-- The map with no entry. -/
def empty : OrdMap κ α := ⟨[], List.Pairwise.nil⟩

instance : Inhabited (OrdMap κ α) := ⟨empty⟩

/-- The keys in increasing order. -/
def keys (m : OrdMap κ α) : List κ := m.entries.map Prod.fst

/-- Whether a key has an entry. -/
def contains (m : OrdMap κ α) (k : κ) : Bool := decide (k ∈ m.keys)

/-- The value stored under a key. -/
def find? (m : OrdMap κ α) (k : κ) : Option α :=
  (m.entries.find? fun e => e.1 = k).map Prod.snd

/-- The number of entries. -/
def size (m : OrdMap κ α) : Nat := m.entries.length

/-- Put an entry before the first larger key. -/
def insertAt (k : κ) (a : α) : List (κ × α) → List (κ × α)
  | [] => [(k, a)]
  | e :: es => if k < e.1 then (k, a) :: e :: es else e :: insertAt k a es

theorem mem_insertAt {k : κ} {a : α} {es : List (κ × α)} {e : κ × α} :
    e ∈ insertAt k a es ↔ e = (k, a) ∨ e ∈ es := by
  induction es with
  | nil => simp [insertAt]
  | cons f es ih =>
    simp only [insertAt]
    split
    · simp
    · simp only [List.mem_cons, ih]
      tauto

theorem mem_map_insertAt {k k' : κ} {a : α} {es : List (κ × α)} :
    k' ∈ (insertAt k a es).map Prod.fst ↔ k' = k ∨ k' ∈ es.map Prod.fst := by
  simp only [List.mem_map, mem_insertAt]
  constructor
  · rintro ⟨e, rfl | he, rfl⟩
    · exact Or.inl rfl
    · exact Or.inr ⟨e, he, rfl⟩
  · rintro (rfl | ⟨e, he, rfl⟩)
    · exact ⟨(k', a), Or.inl rfl, rfl⟩
    · exact ⟨e, Or.inr he, rfl⟩

theorem sorted_insertAt {k : κ} {a : α} {es : List (κ × α)}
    (h : (es.map Prod.fst).Pairwise (· < ·)) (hk : k ∉ es.map Prod.fst) :
    ((insertAt k a es).map Prod.fst).Pairwise (· < ·) := by
  induction es with
  | nil => exact List.pairwise_singleton _ _
  | cons e es ih =>
    rw [List.map_cons, List.pairwise_cons] at h
    rw [List.map_cons, List.mem_cons, not_or] at hk
    simp only [insertAt]
    split
    · rename_i hlt
      rw [List.map_cons, List.map_cons, List.pairwise_cons]
      refine ⟨?_, List.pairwise_cons.mpr h⟩
      intro k' hk'
      rcases List.mem_cons.mp hk' with rfl | hmem
      · exact hlt
      · exact lt_trans hlt (h.1 k' hmem)
    · rename_i hge
      have hlt : e.1 < k := lt_of_le_of_ne (not_lt.mp hge) (Ne.symm hk.1)
      rw [List.map_cons, List.pairwise_cons]
      refine ⟨?_, ih h.2 hk.2⟩
      intro k' hk'
      rcases mem_map_insertAt.mp hk' with rfl | hmem
      · exact hlt
      · exact h.1 k' hmem

/-- Add an entry unless its key is there; the flag says whether it was added. -/
def emplace (m : OrdMap κ α) (k : κ) (a : α) : Bool × OrdMap κ α :=
  if h : k ∈ m.keys then (false, m)
  else (true, ⟨insertAt k a m.entries, sorted_insertAt m.sorted h⟩)

/-- Remove the entry of a key; the flag says whether there was one. -/
def erase (m : OrdMap κ α) (k : κ) : Bool × OrdMap κ α :=
  (decide (k ∈ m.keys), ⟨m.entries.filter fun e => e.1 ≠ k,
    m.sorted.sublist (List.Sublist.map _ List.filter_sublist)⟩)

/-- Change the value stored under a key, if there is one. -/
def modify (m : OrdMap κ α) (k : κ) (f : α → α) : OrdMap κ α where
  entries := m.entries.map fun e => if e.1 = k then (e.1, f e.2) else e
  sorted := by
    have hkeys : (m.entries.map fun e => if e.1 = k then (e.1, f e.2) else e).map Prod.fst =
        m.entries.map Prod.fst := by
      rw [List.map_map]
      apply List.map_congr_left
      intro e _
      simp only [Function.comp_apply]
      split <;> rfl
    rw [hkeys]
    exact m.sorted

@[simp] theorem contains_iff {m : OrdMap κ α} {k : κ} : m.contains k = true ↔ k ∈ m.keys :=
  decide_eq_true_iff

theorem contains_eq_false {m : OrdMap κ α} {k : κ} : m.contains k = false ↔ k ∉ m.keys := by
  rw [← Bool.not_eq_true, contains_iff]

theorem emplace_of_mem {m : OrdMap κ α} {k : κ} (h : k ∈ m.keys) (a : α) :
    m.emplace k a = (false, m) := by
  simp [emplace, h]

theorem emplace_fst_of_not_mem {m : OrdMap κ α} {k : κ} (h : k ∉ m.keys) (a : α) :
    (m.emplace k a).1 = true := by
  simp [emplace, h]

@[simp] theorem mem_keys_emplace {m : OrdMap κ α} {k k' : κ} {a : α} :
    k' ∈ (m.emplace k a).2.keys ↔ k' = k ∨ k' ∈ m.keys := by
  by_cases h : k ∈ m.keys
  · rw [emplace_of_mem h]
    constructor
    · exact Or.inr
    · rintro (rfl | hk')
      · exact h
      · exact hk'
  · simp only [emplace, h, dite_false]
    exact mem_map_insertAt

@[simp] theorem mem_keys_erase {m : OrdMap κ α} {k k' : κ} :
    k' ∈ (m.erase k).2.keys ↔ k' ∈ m.keys ∧ k' ≠ k := by
  simp only [erase, keys, List.mem_map, List.mem_filter, decide_eq_true_eq]
  constructor
  · rintro ⟨e, ⟨he, hne⟩, rfl⟩
    exact ⟨⟨e, he, rfl⟩, hne⟩
  · rintro ⟨⟨e, he, rfl⟩, hne⟩
    exact ⟨e, ⟨he, hne⟩, rfl⟩

theorem contains_emplace_self {m : OrdMap κ α} {k : κ} {a : α} :
    (m.emplace k a).2.contains k = true :=
  contains_iff.mpr (mem_keys_emplace.mpr (Or.inl rfl))

theorem contains_emplace_ne {m : OrdMap κ α} {k k' : κ} {a : α} (h : k' ≠ k) :
    (m.emplace k a).2.contains k' = m.contains k' := by
  rw [Bool.eq_iff_iff, contains_iff, contains_iff, mem_keys_emplace]
  exact or_iff_right h

theorem contains_erase_self {m : OrdMap κ α} {k : κ} : (m.erase k).2.contains k = false := by
  rw [contains_eq_false, mem_keys_erase]
  exact fun h => h.2 rfl

theorem contains_erase_ne {m : OrdMap κ α} {k k' : κ} (h : k' ≠ k) :
    (m.erase k).2.contains k' = m.contains k' := by
  rw [Bool.eq_iff_iff, contains_iff, contains_iff, mem_keys_erase]
  exact and_iff_left h

theorem insertAt_perm (k : κ) (a : α) (es : List (κ × α)) :
    (insertAt k a es).Perm ((k, a) :: es) := by
  induction es with
  | nil => exact List.Perm.refl _
  | cons e es ih =>
    simp only [insertAt]
    split
    · exact List.Perm.refl _
    · exact (ih.cons e).trans (List.Perm.swap _ _ _)

/-- A new key adds its entry. -/
theorem emplace_perm {m : OrdMap κ α} {k : κ} (h : k ∉ m.keys) (a : α) :
    (m.emplace k a).2.entries.Perm ((k, a) :: m.entries) := by
  simp only [emplace, h, dite_false]
  exact insertAt_perm k a m.entries

theorem find?_isSome {m : OrdMap κ α} {k : κ} : (m.find? k).isSome ↔ k ∈ m.keys := by
  simp only [find?, Option.isSome_map, List.find?_isSome, decide_eq_true_eq, keys, List.mem_map]

theorem find?_eq_none {m : OrdMap κ α} {k : κ} : m.find? k = none ↔ k ∉ m.keys := by
  rw [← Option.not_isSome_iff_eq_none, find?_isSome]

theorem mem_keys_of_find? {m : OrdMap κ α} {k : κ} {a : α} (h : m.find? k = some a) :
    k ∈ m.keys := by
  rw [← find?_isSome, h]
  rfl

omit [LinearOrder κ] in
/-- The key of the first entry is in no later one. -/
theorem nodup_keys_cons {e : κ × α} {es : List (κ × α)} (h : ((e :: es).map Prod.fst).Nodup) :
    (∀ e' ∈ es, e'.1 ≠ e.1) ∧ (es.map Prod.fst).Nodup := by
  rw [List.map_cons, List.nodup_cons] at h
  refine ⟨?_, h.2⟩
  intro e' he' hk
  exact h.1 (List.mem_map.mpr ⟨e', he', hk⟩)

/-- Without its key an entry list is short of this entry only. -/
theorem filter_perm {k : κ} {a : α} {es : List (κ × α)} (hnd : (es.map Prod.fst).Nodup)
    (hmem : (k, a) ∈ es) : es.Perm ((k, a) :: es.filter fun e => e.1 ≠ k) := by
  induction es with
  | nil => cases hmem
  | cons e es ih =>
    rcases nodup_keys_cons hnd with ⟨hother, hrest⟩
    rcases List.mem_cons.mp hmem with rfl | hmem
    · -- no other entry has the key, so the filter keeps the rest
      have hne : ∀ e ∈ es, decide (e.1 ≠ k) = true := fun e he => decide_eq_true (hother e he)
      rw [List.filter_cons_of_neg (by simp), List.filter_eq_self.mpr hne]
    · have hk : e.1 ≠ k := (hother _ hmem).symm
      rw [List.filter_cons_of_pos (by simpa using hk)]
      exact ((ih hrest hmem).cons e).trans (List.Perm.swap _ _ _)

theorem keys_nodup (m : OrdMap κ α) : m.keys.Nodup :=
  m.sorted.imp fun h => ne_of_lt h

/-- A key has the one value it is stored with. -/
theorem find?_eq_some {m : OrdMap κ α} {k : κ} {a : α} :
    m.find? k = some a ↔ (k, a) ∈ m.entries := by
  constructor
  · intro h
    rcases Option.map_eq_some_iff.mp h with ⟨e, he, rfl⟩
    have hk : e.1 = k := by simpa using List.find?_some he
    have hmem := List.mem_of_find?_eq_some he
    rwa [← hk]
  · -- the entry found under `k` is `(k, a)`, since the rest does not have the key
    intro hmem
    have hperm := filter_perm m.keys_nodup hmem
    obtain ⟨b, hb⟩ : ∃ b, m.find? k = some b :=
      Option.isSome_iff_exists.mp (find?_isSome.mpr (List.mem_map.mpr ⟨_, hmem, rfl⟩))
    rcases Option.map_eq_some_iff.mp hb with ⟨e, he, rfl⟩
    have hk : e.1 = k := by simpa using List.find?_some he
    rcases List.mem_cons.mp (hperm.subset (List.mem_of_find?_eq_some he)) with rfl | hrest
    · exact hb
    · simp [hk] at hrest

/-- Removing a key takes its entry away. -/
theorem erase_perm {m : OrdMap κ α} {k : κ} {a : α} (h : m.find? k = some a) :
    m.entries.Perm ((k, a) :: (m.erase k).2.entries) :=
  filter_perm m.keys_nodup (find?_eq_some.mp h)

/-- Changing the value of a key changes its entry only. -/
theorem modify_perm {m : OrdMap κ α} {k : κ} {a : α} (h : m.find? k = some a) (f : α → α) :
    (m.modify k f).entries.Perm ((k, f a) :: (m.erase k).2.entries) := by
  have hrest : (m.erase k).2.entries.map (fun e => if e.1 = k then (e.1, f e.2) else e) =
      (m.erase k).2.entries := by
    rw [List.map_congr_left (g := id), List.map_id]
    intro e he
    have hne : e.1 ≠ k := by simpa [erase] using (List.mem_filter.mp he).2
    simp [hne]
  have hperm := (erase_perm h).map fun e => if e.1 = k then (e.1, f e.2) else e
  rw [List.map_cons, hrest, if_pos rfl] at hperm
  exact hperm

/-- What the change of a value does not touch stays the same throughout. -/
theorem map_modify {β : Type*} {f : α → α} {g : κ × α → β} (hg : ∀ k a, g (k, f a) = g (k, a))
    (m : OrdMap κ α) (k : κ) : (m.modify k f).entries.map g = m.entries.map g := by
  rw [modify, List.map_map]
  apply List.map_congr_left
  rintro ⟨k', a⟩ _
  simp only [Function.comp_apply]
  split
  · exact hg k' a
  · rfl

/-- The keys stay as they are. -/
theorem keys_modify (m : OrdMap κ α) (k : κ) (f : α → α) : (m.modify k f).keys = m.keys :=
  map_modify (f := f) (g := Prod.fst) (fun _ _ => rfl) m k

theorem find?_modify {m : OrdMap κ α} {k : κ} {a : α} (h : m.find? k = some a) (f : α → α) :
    (m.modify k f).find? k = some (f a) := by
  rw [find?_eq_some]
  exact (modify_perm h f).mem_iff.mpr List.mem_cons_self

/-- The other keys keep their values. -/
theorem find?_modify_ne {m : OrdMap κ α} {k k' : κ} (hne : k' ≠ k) (f : α → α) :
    (m.modify k f).find? k' = m.find? k' := by
  apply Option.ext
  intro b
  rw [find?_eq_some, find?_eq_some, modify, List.mem_map]
  constructor
  · rintro ⟨e, he, heq⟩
    have hk : e.1 ≠ k := by
      rintro rfl
      rw [if_pos rfl] at heq
      exact hne (congrArg Prod.fst heq).symm
    rw [if_neg hk] at heq
    rwa [← heq]
  · intro he
    exact ⟨_, he, if_neg hne⟩

/-- What a change does to the values of other keys does not matter. -/
theorem modify_congr {m : OrdMap κ α} {k : κ} {a : α} {f : α → α} (h : m.find? k = some a) :
    m.modify k f = m.modify k fun _ => f a := by
  have hentries : m.entries.map (fun e => if e.1 = k then (e.1, f e.2) else e) =
      m.entries.map fun e => if e.1 = k then (e.1, f a) else e := by
    apply List.map_congr_left
    rintro ⟨k', a'⟩ he
    by_cases hk : k' = k
    · subst hk
      -- the key has this one value
      obtain rfl : a' = a := Option.some.inj ((find?_eq_some.mpr he).symm.trans h)
      rfl
    · rw [if_neg hk, if_neg hk]
  simp only [modify, hentries]

/-- Storing the value a key has changes nothing. -/
theorem modify_eq_self {m : OrdMap κ α} {k : κ} {a : α} {f : α → α} (h : m.find? k = some a)
    (hf : f a = a) : m.modify k f = m := by
  have hentries : m.entries.map (fun e => if e.1 = k then (e.1, f e.2) else e) = m.entries := by
    rw [List.map_congr_left (g := id), List.map_id]
    rintro ⟨k', a'⟩ he
    split
    · rename_i hk
      have hk : k' = k := hk
      subst hk
      -- the key has this one value
      obtain rfl : a' = a := Option.some.inj ((find?_eq_some.mpr he).symm.trans h)
      simp [hf]
    · rfl
  rcases m with ⟨entries, sorted⟩
  simp only [modify, mk.injEq]
  exact hentries

/-- A value that is removed may as well have been changed before. -/
theorem erase_modify (m : OrdMap κ α) (k : κ) (f : α → α) :
    ((m.modify k f).erase k).2 = (m.erase k).2 := by
  have hentries : (m.entries.map fun e => if e.1 = k then (e.1, f e.2) else e).filter
      (fun e => e.1 ≠ k) = m.entries.filter fun e => e.1 ≠ k := by
    induction m.entries with
    | nil => rfl
    | cons e es ih =>
      by_cases hk : e.1 = k
      · simpa [hk] using ih
      · simpa [hk] using ih
  simp only [erase, modify, hentries]

/-- A new key has its value, and the others keep theirs. -/
theorem find?_emplace_self {m : OrdMap κ α} {k : κ} (h : k ∉ m.keys) (a : α) :
    (m.emplace k a).2.find? k = some a :=
  find?_eq_some.mpr ((emplace_perm h a).symm.subset List.mem_cons_self)

theorem find?_emplace_ne {m : OrdMap κ α} {k k' : κ} (hne : k' ≠ k) (a : α) :
    (m.emplace k a).2.find? k' = m.find? k' := by
  by_cases h : k ∈ m.keys
  · rw [emplace_of_mem h]
  · apply Option.ext
    intro b
    rw [find?_eq_some, find?_eq_some, (emplace_perm h a).mem_iff, List.mem_cons]
    exact or_iff_right fun heq => hne (congrArg Prod.fst heq)

theorem find?_erase_self (m : OrdMap κ α) (k : κ) : (m.erase k).2.find? k = none := by
  rw [find?_eq_none, mem_keys_erase]
  exact fun h => h.2 rfl

theorem find?_erase_ne {m : OrdMap κ α} {k k' : κ} (hne : k' ≠ k) :
    (m.erase k).2.find? k' = m.find? k' := by
  apply Option.ext
  intro b
  rw [find?_eq_some, find?_eq_some, erase, List.mem_filter]
  exact and_iff_left (decide_eq_true hne)

/-- What is found afterwards was there, or has just been added. -/
theorem find?_of_emplace {m : OrdMap κ α} {k k' : κ} {a b : α}
    (h : (m.emplace k a).2.find? k' = some b) : k' = k ∧ a = b ∨ m.find? k' = some b := by
  by_cases hmem : k ∈ m.keys
  · rw [emplace_of_mem hmem] at h
    exact Or.inr h
  · by_cases hk : k' = k
    · subst hk
      rw [find?_emplace_self hmem] at h
      exact Or.inl ⟨rfl, Option.some.inj h⟩
    · rw [find?_emplace_ne hk] at h
      exact Or.inr h

theorem find?_of_erase {m : OrdMap κ α} {k k' : κ} {a : α}
    (h : (m.erase k).2.find? k' = some a) : k' ≠ k ∧ m.find? k' = some a := by
  have hk : k' ≠ k := by
    rintro rfl
    rw [find?_erase_self] at h
    cases h
  rw [find?_erase_ne hk] at h
  exact ⟨hk, h⟩

/-- Removing a key that is not there changes nothing. -/
theorem erase_of_not_mem {m : OrdMap κ α} {k : κ} (h : k ∉ m.keys) : (m.erase k).2 = m := by
  rcases m with ⟨entries, sorted⟩
  simp only [erase, mk.injEq, List.filter_eq_self, decide_eq_true_eq]
  rintro e he rfl
  exact h (List.mem_map.mpr ⟨e, he, rfl⟩)

/-! ### Keys of what is alive -/

section Alive

variable {ι β : Type*} [DecidableEq ι] {m : OrdMap κ α} {key : ι → κ} {alive : ι → Option β}

/-- What comes alive brings its key. -/
theorem mem_keys_emplace_alive (h : ∀ k, k ∈ m.keys ↔ ∃ i, alive i ≠ none ∧ key i = k)
    (i : ι) (a : α) (b : β) (k : κ) : k ∈ (m.emplace (key i) a).2.keys ↔
      ∃ j, Function.update alive i (some b) j ≠ none ∧ key j = k := by
  rw [mem_keys_emplace, h]
  constructor
  · rintro (rfl | ⟨j, hj, rfl⟩)
    · exact ⟨i, by simp, rfl⟩
    · refine ⟨j, ?_, rfl⟩
      by_cases hji : j = i
      · simp [hji]
      · rwa [Function.update_of_ne hji]
  · rintro ⟨j, hj, rfl⟩
    by_cases hji : j = i
    · exact Or.inl (congrArg key hji)
    · rw [Function.update_of_ne hji] at hj
      exact Or.inr ⟨j, hj, rfl⟩

/-- What dies takes its key with it, and no other. -/
theorem mem_keys_erase_alive (hkey : Function.Injective key)
    (h : ∀ k, k ∈ m.keys ↔ ∃ i, alive i ≠ none ∧ key i = k) (i : ι) (k : κ) :
    k ∈ (m.erase (key i)).2.keys ↔
      ∃ j, Function.update alive i none j ≠ none ∧ key j = k := by
  rw [mem_keys_erase, h]
  constructor
  · rintro ⟨⟨j, hj, rfl⟩, hne⟩
    have hji : j ≠ i := fun heq => hne (congrArg key heq)
    exact ⟨j, by rwa [Function.update_of_ne hji], rfl⟩
  · rintro ⟨j, hj, rfl⟩
    have hji : j ≠ i := by
      rintro rfl
      exact hj (Function.update_self _ _ _)
    rw [Function.update_of_ne hji] at hj
    exact ⟨⟨j, hj, rfl⟩, fun heq => hji (hkey heq)⟩

end Alive

/-! ### The first value an operation succeeds on -/

section First

variable {f : α → Bool × α} {es : List (κ × α)}

/-- Try the operation on one value after another until it succeeds. -/
def tryEach (f : α → Bool × α) : List (κ × α) → Bool × List (κ × α)
  | [] => (false, [])
  | e :: es =>
    let (ok, a) := f e.2
    if ok then (true, (e.1, a) :: es)
    else
      let (ok, es) := tryEach f es
      (ok, (e.1, a) :: es)

omit [LinearOrder κ] in
theorem keys_tryEach (f : α → Bool × α) (es : List (κ × α)) :
    (tryEach f es).2.map Prod.fst = es.map Prod.fst := by
  induction es with
  | nil => rfl
  | cons e es ih =>
    simp only [tryEach]
    split
    · rfl
    · rw [List.map_cons, List.map_cons, ih]

/-- Go through the map in key order until the operation succeeds; the flag says whether it
did. -/
def modifyFirst (m : OrdMap κ α) (f : α → Bool × α) : Bool × OrdMap κ α :=
  ((tryEach f m.entries).1, ⟨(tryEach f m.entries).2, by
    rw [keys_tryEach]
    exact m.sorted⟩)

omit [LinearOrder κ] in
theorem tryEach_of_fails (h : ∀ e ∈ es, f e.2 = (false, e.2)) : tryEach f es = (false, es) := by
  induction es with
  | nil => rfl
  | cons e es ih =>
    have hrest := ih fun e he => h e (List.mem_cons_of_mem _ he)
    simp [tryEach, h e List.mem_cons_self, hrest]

/-- Where only the value of one key can succeed, what comes before it is passed over. -/
theorem tryEach_of_sole {k : κ} {a : α} (hnd : (es.map Prod.fst).Nodup) (hmem : (k, a) ∈ es)
    (hok : (f a).1 = true) (hfail : ∀ e ∈ es, e.1 ≠ k → f e.2 = (false, e.2)) :
    tryEach f es = (true, es.map fun e => if e.1 = k then (e.1, (f a).2) else e) := by
  induction es with
  | nil => cases hmem
  | cons e es ih =>
    rcases nodup_keys_cons hnd with ⟨hother, hnd'⟩
    rcases List.mem_cons.mp hmem with rfl | hmem
    · -- the key is here, and in no later entry
      have hrest : es.map (fun e => if e.1 = k then (e.1, (f a).2) else e) = es := by
        rw [List.map_congr_left (g := id), List.map_id]
        intro e he
        have hne : e.1 ≠ k := hother e he
        rw [if_neg hne, id]
      simp [tryEach, hok, hrest]
    · have hne : e.1 ≠ k := (hother _ hmem).symm
      have hrest := ih hnd' hmem fun e he => hfail e (List.mem_cons_of_mem _ he)
      simp [tryEach, hfail e List.mem_cons_self hne, hrest, hne]

theorem modifyFirst_of_fails {m : OrdMap κ α} (h : ∀ k a, m.find? k = some a → f a = (false, a)) :
    m.modifyFirst f = (false, m) := by
  have htry : tryEach f m.entries = (false, m.entries) :=
    tryEach_of_fails fun e he => h e.1 e.2 (find?_eq_some.mpr he)
  simp only [modifyFirst, htry]

/-- The scan finds the one value that can succeed, as the look-up of its key does. -/
theorem modifyFirst_of_sole {m : OrdMap κ α} {k : κ} {a : α} (h : m.find? k = some a)
    (hok : (f a).1 = true)
    (hfail : ∀ k' a', m.find? k' = some a' → k' ≠ k → f a' = (false, a')) :
    m.modifyFirst f = (true, m.modify k fun _ => (f a).2) := by
  have htry := tryEach_of_sole m.keys_nodup (find?_eq_some.mp h) hok fun e he hne =>
    hfail e.1 e.2 (find?_eq_some.mpr he) hne
  simp only [modifyFirst, htry]
  rfl

end First

/-! ### How often a value is stored -/

section Count

variable [DecidableEq α] {m : OrdMap κ α} {k : κ} {a : α}

/-- The number of keys a value is stored under. -/
def count (m : OrdMap κ α) (a : α) : Nat := m.entries.countP fun e => e.2 = a

theorem count_pos : 0 < m.count a ↔ ∃ k, m.find? k = some a := by
  simp only [count, List.countP_pos_iff, decide_eq_true_eq, find?_eq_some]
  constructor
  · rintro ⟨e, he, rfl⟩
    exact ⟨e.1, he⟩
  · rintro ⟨k, hk⟩
    exact ⟨(k, a), hk, rfl⟩

theorem count_emplace (h : k ∉ m.keys) (a b : α) :
    (m.emplace k a).2.count b = m.count b + if a = b then 1 else 0 := by
  rw [count, (emplace_perm h a).countP_eq, List.countP_cons]
  simp [count]

theorem count_erase (h : m.find? k = some a) (b : α) :
    (m.erase k).2.count b + (if a = b then 1 else 0) = m.count b := by
  rw [count, count, (erase_perm h).countP_eq, List.countP_cons]
  simp

theorem count_erase_of_ne (h : m.find? k ≠ some a) : (m.erase k).2.count a = m.count a := by
  cases hfind : m.find? k with
  | none => rw [erase_of_not_mem (find?_eq_none.mp hfind)]
  | some b =>
    have hne : b ≠ a := fun heq => h (heq ▸ hfind)
    have hcount := count_erase hfind a
    rwa [if_neg hne, Nat.add_zero] at hcount

end Count

end OrdMap

/-- A finite set, traversed in increasing order. -/
abbrev OrdSet (κ : Type u) [LinearOrder κ] := OrdMap κ Unit

namespace OrdSet

variable {κ : Type u} [LinearOrder κ]

/-- The elements in increasing order. -/
abbrev toList (s : OrdSet κ) : List κ := s.keys

/-- Add an element; the flag says whether it is new. -/
def insert (s : OrdSet κ) (x : κ) : Bool × OrdSet κ := s.emplace x ()

end OrdSet
