import ClapRci.Server.Instances

/-!
# Connecting while plugins are removed (`server/tags/servereventstream.cpp`)

`connectClient` goes to the registry twice: `ServerCtrl::connectClient` adds the stream to the
set of the instance it finds, and `getSharedData` gets the pointer by which the stream leaves
the set again. Each is atomic; a plugin can be removed, and another one added, in between.

`accounted_iff`: a stream that is refused is in no set, one that is accepted is in the set of
the instance it has, and there are only living streams in the sets, exactly when the second
lookup finds what the first one found, and no stream is left in a set when the server stops.
-/

namespace ClapRci.Instances

variable {κ : Type} [LinearOrder κ]

/-- The stream whose `connectClient` returns with the step, and what it returns. -/
def returned (s : Sys κ) (l : Lbl κ) (s' : Sys κ) : Option (κ × Bool) :=
  match l, s.task with
  | .connectClient st _ _, _ => if s'.task = .idle then some (st, false) else none
  | .getSharedData _, .connecting st _ _ => some (st, s'.sharedData.contains st)
  | _, _ => none

/-- What is promised of a step. -/
structure Accounted (s : Sys κ) (l : Lbl κ) (s' : Sys κ) : Prop where
  refused : ∀ st, returned s l s' = some (st, false) →
    ∀ i, 0 < s'.useCount i → st ∉ (s'.poll i).data.streams.toList
  accepted : ∀ st, returned s l s' = some (st, true) →
    ∃ i, s'.sharedData.find? st = some i ∧ st ∈ (s'.poll i).data.streams.toList
  alive : ∀ i, 0 < s'.useCount i →
    ∀ st ∈ (s'.poll i).data.streams.toList, st ∈ s'.pendingTags.keys

/-- The condition on a step: the second lookup finds the instance the stream was added to, or
none, and then no one has that instance any more; and when the server stops no plugin has a
stream in its set. -/
def NoGap (s : Sys κ) : Lbl κ → Prop
  | .getSharedData _ => ∀ st hash i, s.task = .connecting st hash i →
      s.mSharedData.find? hash = some i ∨
        s.mSharedData.find? hash = none ∧ s.useCount i = 0
  | .stop => ∀ i, 0 < s.mSharedData.count i + s.holders.count i →
      (s.poll i).data.streams.toList = []
  | _ => True

/-! ## The invariant -/

/-- The streams in the sets are those that have the instance, and the one between its two
lookups. -/
structure SetsInv (s : Sys κ) : Prop extends Inv s where
  member : ∀ i, 0 < s.useCount i → ∀ st ∈ (s.poll i).data.streams.toList,
    s.sharedData.find? st = some i ∨ ∃ hash, s.task = .connecting st hash i
  has : ∀ st i, s.sharedData.find? st = some i → st ∈ (s.poll i).data.streams.toList

theorem init_setsInv : SetsInv ({} : Sys κ) :=
  { init_inv with
    member := fun i hi => absurd hi (Nat.lt_irrefl 0)
    has := fun st i h => by cases h }

section Steps

variable {s s' : Sys κ}

/-- A stream in a set is alive. -/
theorem SetsInv.alive (h : SetsInv s) {i : Nat} (hi : 0 < s.useCount i) {st : κ}
    (hst : st ∈ (s.poll i).data.streams.toList) : st ∈ s.pendingTags.keys := by
  rcases h.member i hi st hst with hfind | ⟨hash, htask⟩
  · exact (h.pointer st (OrdMap.mem_keys_of_find? hfind)).1
  · exact (h.connecting st hash i htask).1

/-- Steps that change neither the sets nor the pointers of the streams. -/
theorem SetsInv.keep (h : SetsInv s) (hinv : Inv s')
    (hused : ∀ i, 0 < s'.useCount i → 0 < s.useCount i)
    (hstreams : ∀ i, (s'.poll i).data.streams = (s.poll i).data.streams)
    (hshared : s'.sharedData = s.sharedData)
    (htask : ∀ st hash i, s.task = .connecting st hash i → s'.task = .connecting st hash i) :
    SetsInv s' where
  toInv := hinv
  member i hi st hst := by
    rw [hstreams] at hst
    rw [hshared]
    rcases h.member i (hused i hi) st hst with hfind | ⟨hash, hconnecting⟩
    · exact Or.inl hfind
    · exact Or.inr ⟨hash, htask st hash i hconnecting⟩
  has st i hfind := by
    rw [hshared] at hfind
    rw [hstreams]
    exact h.has st i hfind

/-- A new instance has no streams. -/
theorem SetsInv.added (h : SetsInv s) {plugin : PluginPtr} {m : OrdMap Hash Nat}
    (heq : s' = { s with
      poll := Function.update s.poll s.count (PollRounds.init κ plugin)
      count := s.count + 1
      mSharedData := m })
    (hinv : Inv s') (hused : ∀ i, 0 < s'.useCount i → 0 < s.useCount i ∨ i = s.count) :
    SetsInv s' := by
  subst heq
  refine { hinv with member := ?_, has := ?_ }
  · intro i hi st hst
    by_cases hic : i = s.count
    · subst hic
      simp [PollRounds.init, SharedData.ofPlugin, OrdMap.empty, OrdMap.keys] at hst
    · have hold : st ∈ (s.poll i).data.streams.toList := by simpa [hic] using hst
      exact h.member i ((hused i hi).resolve_right hic) st hold
  · intro st i hfind
    have hlt := h.count i (useCount_of_stream hfind)
    show st ∈ (Function.update s.poll s.count _ i).data.streams.toList
    rw [Function.update_of_ne (Nat.ne_of_lt hlt)]
    exact h.has st i hfind

/-- A stream is added to the set of the instance that is registered. -/
theorem SetsInv.adding (h : SetsInv s) (hidle : s.task = .idle) {st : κ} {hash : Hash} {i : Nat}
    (hinv : Inv s') (hused : ∀ i, 0 < s'.useCount i → 0 < s.useCount i)
    (hshared : s'.sharedData = s.sharedData) (htask : s'.task = .connecting st hash i)
    (hstreams : ∀ j st', st' ∈ (s'.poll j).data.streams.toList ↔
      st' ∈ (s.poll j).data.streams.toList ∨ j = i ∧ st' = st) : SetsInv s' where
  toInv := hinv
  member j hj st' hst' := by
    rw [hshared]
    rcases (hstreams j st').mp hst' with hold | ⟨rfl, rfl⟩
    · rcases h.member j (hused j hj) st' hold with hfind | ⟨hash', hconnecting⟩
      · exact Or.inl hfind
      · cases hidle.symm.trans hconnecting
    · exact Or.inr ⟨hash, htask⟩
  has st' j hfind := by
    rw [hshared] at hfind
    exact (hstreams j st').mpr (Or.inl (h.has st' j hfind))

/-- A stream that is killed leaves the one set it is in. -/
theorem SetsInv.killed (h : SetsInv s) (hidle : s.task = .idle) {st : κ}
    (hinv : Inv (s.killed st))
    (hused : ∀ i, 0 < (s.killed st).useCount i → 0 < s.useCount i) : SetsInv (s.killed st) where
  toInv := hinv
  member i hi st' hst' := by
    rcases mem_streams_removeStream.mp hst' with ⟨hold, hleft⟩
    rcases h.member i (hused i hi) st' hold with hfind | ⟨hash, hconnecting⟩
    · have hne : st' ≠ st := by
        rintro rfl
        exact hleft ⟨hfind, rfl⟩
      exact Or.inl ((OrdMap.find?_erase_ne hne).trans hfind)
    · cases hidle.symm.trans hconnecting
  has st' i hfind := by
    rcases OrdMap.find?_of_erase hfind with ⟨hne, hold⟩
    exact mem_streams_removeStream.mpr ⟨h.has st' i hold, fun heq => hne heq.2⟩

/-- The second lookup finds the instance the stream is in. -/
theorem SetsInv.connected (h : SetsInv s) {st : κ} {hash : Hash} {i : Nat}
    (htask : s.task = .connecting st hash i) (hinv : Inv s')
    (hused : ∀ i, 0 < s'.useCount i → 0 < s.useCount i)
    (hshared : s'.sharedData = (s.sharedData.emplace st i).2)
    (hstreams : ∀ i, (s'.poll i).data.streams = (s.poll i).data.streams) : SetsInv s' := by
  rcases h.connecting st hash i htask with ⟨-, hnew, hin, -⟩
  refine { hinv with member := ?_, has := ?_ }
  · intro j hj st' hst'
    rw [hstreams] at hst'
    left
    rw [hshared]
    rcases h.member j (hused j hj) st' hst' with hfind | ⟨hash', hconnecting⟩
    · have hne : st' ≠ st := by
        rintro rfl
        exact hnew (OrdMap.mem_keys_of_find? hfind)
      exact (OrdMap.find?_emplace_ne hne i).trans hfind
    · cases htask.symm.trans hconnecting
      exact OrdMap.find?_emplace_self hnew i
  · intro st' j hfind
    rw [hshared] at hfind
    rw [hstreams]
    rcases OrdMap.find?_of_emplace hfind with ⟨rfl, rfl⟩ | hold
    · exact hin
    · exact h.has st' j hold

/-- A step that meets the condition keeps the sets in order. -/
theorem step_setsInv (h : SetsInv s) {l : Lbl κ} (hcond : NoGap s l)
    (hstep : step s l = some s') : SetsInv s' := by
  have hinv := step_inv h.toInv hstep
  have hmoves := step_moves h.toInv hstep
  have hused (hl : ∀ plugin, l ≠ .addPlugin plugin) (i : Nat) (hi : 0 < s'.useCount i) :
      0 < s.useCount i := hmoves.used_of_ne hl hi
  cases hmoves with
  | same hl hsame =>
    exact h.keep hinv (fun i hi => hsame.useCount i ▸ hi) hsame.streams hsame.sharedData
      (fun st hash i => (hsame.connecting st hash i).mpr)
  | added hnew =>
    refine h.added rfl hinv ?_
    intro i hi
    rcases (Moves.added hnew).used hi with hold | ⟨hic, -⟩
    · exact Or.inl hold
    · exact Or.inr hic
  | removed | held | released | started | rejected =>
    exact h.keep hinv (hused (by simp)) (fun _ => rfl) rfl (fun _ _ _ htask => htask)
  | stopped hidle =>
    refine { hinv with member := ?_, has := fun st i hfind => by cases hfind }
    intro i hi st hst
    have hempty := hcond i hi
    rw [hempty] at hst
    cases hst
  | adding hidle hmem hnew hstate hfind hadd =>
    exact h.adding hidle hinv (hused (by simp)) rfl rfl (fun j st' => mem_streams_addStream)
  | orphaned htask hfind =>
    refine { hinv with member := ?_, has := h.has }
    intro i hi st hst
    rcases h.member i hi st hst with hptr | ⟨hash, hconnecting⟩
    · exact Or.inl hptr
    · -- it is the stream that is refused, and no one has the instance
      cases htask.symm.trans hconnecting
      rcases hcond _ _ _ htask with hsame | ⟨-, hgone⟩
      · cases hfind.symm.trans hsame
      · exact absurd hgone (Nat.ne_of_gt hi)
  | connected htask hfind halarms =>
    rcases hcond _ _ _ htask with hsame | ⟨hnone, -⟩
    · cases hfind.symm.trans hsame
      exact h.connected htask hinv (hused (by simp)) rfl
        (setData_streams (SharedData.tryStartPolling_streams _ _))
    · cases hfind.symm.trans hnone
  | killed hidle hmem hstate => exact h.killed hidle hinv (hused (by simp))

/-! ## What `connectClient` returns -/

/-- Either lookup returns between two completions, and whether the stream has an instance then
is what it returns. -/
theorem returned_spec (hinv : Inv s) {l : Lbl κ} (hstep : step s l = some s') {st : κ}
    {connected : Bool} (hreturned : returned s l s' = some (st, connected)) :
    s'.task = .idle ∧ s'.sharedData.contains st = connected := by
  cases l with
  | connectClient st' id fresh =>
    simp only [returned] at hreturned
    split at hreturned
    · rename_i hidle
      cases hreturned
      refine ⟨hidle, ?_⟩
      cases step_moves hinv hstep with
      | same hl hsame => cases hl
      | rejected _ hmem hnew hstate hin =>
        rw [OrdMap.contains_eq_false]
        intro hptr
        exact (hinv.pointer st hptr).2 hstate
      | adding => cases hidle
    · cases hreturned
  | getSharedData cq =>
    cases step_moves hinv hstep with
    | same hl hsame => cases hl
    | orphaned htask hfind =>
      simp only [returned, htask] at hreturned
      cases hreturned
      exact ⟨rfl, rfl⟩
    | connected htask hfind halarms =>
      simp only [returned, htask] at hreturned
      cases hreturned
      exact ⟨rfl, rfl⟩
  | _ => cases hreturned

/-- A step that meets the condition leaves the stream where its answer says. -/
theorem step_accounted (h : SetsInv s) {l : Lbl κ} (hcond : NoGap s l)
    (hstep : step s l = some s') : Accounted s l s' := by
  have hinv := step_setsInv h hcond hstep
  refine ⟨?_, ?_, fun i hi st hst => hinv.alive hi hst⟩
  · intro st hreturned i hi hst
    rcases returned_spec h.toInv hstep hreturned with ⟨hidle, hcontains⟩
    rcases hinv.member i hi st hst with hfind | ⟨hash, htask⟩
    · rw [OrdMap.contains_iff.mpr (OrdMap.mem_keys_of_find? hfind)] at hcontains
      cases hcontains
    · cases hidle.symm.trans htask
  · intro st hreturned
    rcases returned_spec h.toInv hstep hreturned with ⟨-, hcontains⟩
    have hptr := OrdMap.find?_isSome.mpr (OrdMap.contains_iff.mp hcontains)
    rcases Option.isSome_iff_exists.mp hptr with ⟨i, hfind⟩
    exact ⟨i, hfind, hinv.has st i hfind⟩

/-- The second lookup finds another instance, or none while someone has the first one. -/
theorem getSharedData_not_accounted (h : SetsInv s) {cq : Option CqHandle} {st : κ} {hash : Hash}
    {i : Nat} (htask : s.task = .connecting st hash i)
    (hother : s.mSharedData.find? hash ≠ some i)
    (hgap : ¬ (s.mSharedData.find? hash = none ∧ s.useCount i = 0))
    (hstep : step s (.getSharedData cq) = some s') : ¬ Accounted s (.getSharedData cq) s' := by
  intro hacc
  rcases h.connecting st hash i htask with ⟨-, hptr, hin, -⟩
  cases step_moves h.toInv hstep with
  | same hl hsame => cases hl
  | orphaned htask' hfind =>
    cases htask.symm.trans htask'
    have hused : 0 < s.useCount i := Nat.pos_of_ne_zero fun hzero => hgap ⟨hfind, hzero⟩
    have hcontains := OrdMap.contains_eq_false.mpr hptr
    refine hacc.refused st ?_ i hused hin
    simp only [returned, htask]
    exact congrArg (fun b => some (st, b)) hcontains
  | @connected _ _ _ _ j _ htask' hfind halarms =>
    cases htask.symm.trans htask'
    have hreturned := hacc.accepted st (by
      simp only [returned, htask]
      exact congrArg (fun b => some (st, b)) OrdMap.contains_emplace_self)
    rcases hreturned with ⟨k, hk, hst⟩
    cases (OrdMap.find?_emplace_self hptr j).symm.trans hk
    have hstreams := setData_streams (s := s.answer st .connected)
      (SharedData.tryStartPolling_streams (s.poll j).data cq) j
    have hold : st ∈ (s.poll j).data.streams.toList := hstreams ▸ hst
    -- but it is in the first set only
    rcases h.member j (useCount_of_registered hfind) st hold with hfind' | ⟨hash', htask'⟩
    · exact hptr (OrdMap.mem_keys_of_find? hfind')
    · cases htask.symm.trans htask'
      exact hother hfind

/-- A server that stops leaves streams in the set of a plugin. -/
theorem stop_not_accounted {i : Nat} (hused : 0 < s.mSharedData.count i + s.holders.count i)
    (hleft : (s.poll i).data.streams.toList ≠ []) (hstep : step s .stop = some s') :
    ¬ Accounted s .stop s' := by
  intro hacc
  simp only [step] at hstep
  split at hstep
  · cases hstep
    rcases List.exists_mem_of_ne_nil _ hleft with ⟨st, hst⟩
    cases hacc.alive i hused st hst
  · cases hstep

end Steps

/-- In a run every stream is where the answer of its `connectClient` says, and the sets of
instances in use hold living streams only, exactly when no plugin is removed between the two
lookups while someone has its instance, nor replaced there, and no stream is left in the set
of a plugin when the server stops. -/
theorem accounted_iff (ls : List (Lbl κ)) :
    (spec κ).AllSteps Accounted {} ls ↔
      (spec κ).AllSteps (fun s l _ => NoGap s l) {} ls := by
  refine (spec κ).allSteps_iff SetsInv ?_ ?_ init_setsInv ls
  · intro s l s' h hcond hstep
    exact ⟨step_setsInv h hcond hstep, step_accounted h hcond hstep⟩
  · intro s l s' h hcond hstep
    cases l with
    | getSharedData cq =>
      simp only [NoGap, Classical.not_forall, not_or] at hcond
      rcases hcond with ⟨st, hash, i, htask, hother, hgap⟩
      exact getSharedData_not_accounted h htask hother hgap hstep
    | stop =>
      simp only [NoGap, Classical.not_forall] at hcond
      rcases hcond with ⟨i, hused, hleft⟩
      exact stop_not_accounted hused hleft hstep
    | _ => exact absurd trivial hcond

/-- A plugin is removed between the two lookups: its client is refused and stays in the set,
which the plugin still has. -/
theorem accounted_fails : ¬ ∀ ls, (spec Nat).AllSteps Accounted {} ls := by
  intro h
  have hlast := (spec Nat).forall_allSteps_last h
    [.addPlugin 1, .hold 0 (hashOf 1), .start 0, .connectClient 0 (some (hashOf 1)) 1,
      .removePlugin (hashOf 1)]
    (.getSharedData (some 0)) rfl rfl
  exact hlast.refused 0 rfl 0 (by decide) (by decide)

end ClapRci.Instances
