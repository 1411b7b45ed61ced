import ClapRci.Server.ServerCtrl

/-!
# The tags of a completion queue (`server/cqeventhandler.cpp`)

`pendingTags` owns the handlers of a `CqEventHandler`, each under the hash of its address.
Two handlers that are alive at the same time have different addresses, hence different
hashes.
-/

namespace ClapRci

/-- The address of an `EventTag`. -/
abbrev TagPtr := BitVec 64

/-- `pendingTags`: under each key a handler of type `τ`, at its address. -/
abbrev PendingTags (τ : Type) := OrdMap Hash (TagPtr × τ)

namespace PendingTags

variable {τ : Type}

/-- `create<T>()`, for a handler that was allocated at this address; its `idHash` is the
hash of the address. -/
def create (tags : PendingTags τ) (this : TagPtr) (tag : τ) : Bool × PendingTags τ :=
  tags.emplace (hashOf this) (this, tag)

/-- `destroyTag(hash)`. -/
def destroyTag (tags : PendingTags τ) (hash : Hash) : Bool × PendingTags τ := tags.erase hash

/-- The addresses of the handlers alive. -/
def live (tags : PendingTags τ) : List TagPtr := tags.entries.map fun e => e.2.1

/-- Every handler is stored under its own hash. -/
def Keyed (tags : PendingTags τ) : Prop := ∀ e ∈ tags.entries, e.1 = hashOf e.2.1

/-! ## The map while it is used -/

/-- A handler is created at an address where none is alive, or a hash is destroyed. -/
inductive Lbl (τ : Type) where
  | create (this : TagPtr) (tag : τ)
  | destroyTag (hash : Hash)

/-- All uses of the map, from the empty one on. -/
def spec (τ : Type) : ActionSystem.Spec (PendingTags τ) (Lbl τ) where
  Init tags := tags = OrdMap.empty
  step tags l :=
    match l with
    | .create this tag => if this ∈ tags.live then none else some (tags.create this tag).2
    | .destroyTag hash => some (tags.destroyTag hash).2

section Keyed

variable {tags : PendingTags τ}

/-- The key of a new address is free. -/
theorem Keyed.hashOf_not_mem (h : tags.Keyed) {this : TagPtr} (hfresh : this ∉ tags.live) :
    hashOf this ∉ tags.keys := by
  intro hmem
  rcases List.mem_map.mp hmem with ⟨e, he, hkey⟩
  rw [h e he] at hkey
  apply hfresh
  rw [← ServerCtrl.hashOf_injective hkey]
  exact List.mem_map.mpr ⟨e, he, rfl⟩

/-- So `try_emplace` succeeds. -/
theorem Keyed.create_fst (h : tags.Keyed) {this : TagPtr} (hfresh : this ∉ tags.live) (tag : τ) :
    (tags.create this tag).1 = true :=
  OrdMap.emplace_fst_of_not_mem (h.hashOf_not_mem hfresh) _

theorem Keyed.create_entries (h : tags.Keyed) {this : TagPtr} (hfresh : this ∉ tags.live)
    (tag : τ) :
    (tags.create this tag).2.entries.Perm ((hashOf this, this, tag) :: tags.entries) :=
  OrdMap.emplace_perm (h.hashOf_not_mem hfresh) _

/-- What is stored under the hash of a handler is this handler. -/
theorem Keyed.hash_iff (h : tags.Keyed) {e : Hash × TagPtr × τ} (he : e ∈ tags.entries)
    (this : TagPtr) : e.1 = hashOf this ↔ e.2.1 = this := by
  rw [h e he]
  exact ServerCtrl.hashOf_injective.eq_iff

/-- `destroyTag(hash())` erases the calling handler and no other. -/
theorem Keyed.destroyTag_entries (h : tags.Keyed) (this : TagPtr) :
    (tags.destroyTag (hashOf this)).2.entries = tags.entries.filter fun e => e.2.1 ≠ this := by
  apply List.filter_congr
  intro e he
  rw [decide_eq_decide, Ne, Ne, h.hash_iff he]

theorem Keyed.destroyTag_fst (h : tags.Keyed) {this : TagPtr} :
    (tags.destroyTag (hashOf this)).1 = true ↔ this ∈ tags.live := by
  simp only [PendingTags.destroyTag, OrdMap.erase, decide_eq_true_eq, OrdMap.keys, live,
    List.mem_map]
  constructor
  · rintro ⟨e, he, hkey⟩
    exact ⟨e, he, (h.hash_iff he this).mp hkey⟩
  · rintro ⟨e, he, hthis⟩
    exact ⟨e, he, (h.hash_iff he this).mpr hthis⟩

/-- The keys are the hashes of the handlers alive, and no two are the same. -/
theorem Keyed.live_nodup (h : tags.Keyed) : (tags.live.map hashOf).Nodup := by
  have hkeys : tags.live.map hashOf = tags.keys := by
    rw [live, List.map_map]
    apply List.map_congr_left
    intro e he
    exact (h e he).symm
  rw [hkeys]
  exact tags.keys_nodup

theorem Keyed.create (h : tags.Keyed) {this : TagPtr} (hfresh : this ∉ tags.live) (tag : τ) :
    (tags.create this tag).2.Keyed := by
  intro e he
  rcases List.mem_cons.mp ((h.create_entries hfresh tag).subset he) with rfl | hmem
  · rfl
  · exact h e hmem

theorem Keyed.destroyTag (h : tags.Keyed) (hash : Hash) : (tags.destroyTag hash).2.Keyed := by
  intro e he
  exact h e (List.mem_filter.mp he).1

end Keyed

theorem keyed_of_reachable {tags : PendingTags τ} (h : (spec τ).Reachable tags) :
    tags.Keyed := by
  apply (spec τ).reachable_invariant Keyed _ _ h
  · rintro _ rfl e he
    cases he
  · intro tags l tags' hkeyed hstep
    cases l with
    | create this tag =>
      simp only [spec] at hstep
      split at hstep
      · cases hstep
      · rename_i hfresh
        cases hstep
        exact hkeyed.create hfresh tag
    | destroyTag hash =>
      cases hstep
      exact hkeyed.destroyTag hash

end PendingTags

end ClapRci
