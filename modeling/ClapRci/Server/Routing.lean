import ClapRci.Server.Instances

/-!
# Events reach the clients of their plugin only (`server/shareddata.cpp`)

A poll callback writes what was pushed to its instance to the streams of its set. The set
holds addresses.

`confined_iff`: what a stream is handed was pushed to the instance registered under its hash
when it was added, and no stream is in two sets, exactly when no stream is added whose address
was left in the set of another instance.
-/

namespace ClapRci.Instances

open PollRounds (Pc)

variable {κ : Type} [LinearOrder κ]

/-- What is promised of every state. -/
structure Confined (s : Sys κ) : Prop where
  /-- A message has what was pushed to the instance its stream belongs to. -/
  written : ∀ w ∈ s.written, ∃ i, w.1 = some i ∧
    ∀ ev ∈ w.2, ∃ e ∈ s.pushed i, e.toServerEvent = ev
  /-- A stream is in the set of one instance at most. -/
  one : ∀ st ∈ s.pendingTags.keys, ∀ i j, 0 < s.useCount i → 0 < s.useCount j →
    st ∈ (s.poll i).data.streams.toList → st ∈ (s.poll j).data.streams.toList → i = j

/-- The condition on a step: the address of a stream that is added is in the set of no other
instance. -/
def NotElsewhere (s : Sys κ) : Lbl κ → Prop
  | .connectClient st (some hash) _ => ∀ i j, s.mSharedData.find? hash = some i → j ≠ i →
      0 < s.useCount j → st ∉ (s.poll j).data.streams.toList
  | _ => True

/-! ## What an instance holds -/

/-- What is in the queues and in the response of an instance was pushed to it, and the loop
over the streams has streams of its set before it. -/
structure Sourced (pushed : List ServerEventWrapper) (p : PollRounds.Sys κ) : Prop where
  process : p.data.mPluginProcessToClientsQueue.elems ⊆ pushed
  main : p.data.mPluginMainToClientsQueue.elems ⊆ pushed
  data : ∀ ev ∈ p.data.mPluginToClientsData, ∃ e ∈ pushed, e.toServerEvent = ev
  todo : ∀ todo visits success, p.pc = .sending todo visits success →
    ∀ st ∈ todo, st ∈ p.data.streams.toList

section Poll

variable {pushed : List ServerEventWrapper} {p p' : PollRounds.Sys κ}

theorem init_sourced (plugin : PluginPtr) : Sourced pushed (PollRounds.init κ plugin) where
  process := List.nil_subset _
  main := List.nil_subset _
  data := List.forall_mem_nil _
  todo todo visits success h := by cases h

/-- An event that is popped. -/
theorem Sourced.consumeOne (h : Sourced pushed p) {source : PollRounds.Source}
    {ev : ServerEventWrapper} {d : SharedData κ} {pc : Pc κ} (hev : ev ∈ pushed)
    (hprocess : d.mPluginProcessToClientsQueue.elems ⊆ pushed)
    (hmain : d.mPluginMainToClientsQueue.elems ⊆ pushed)
    (hdata : d.mPluginToClientsData = p.data.mPluginToClientsData)
    (hpc : ∀ todo visits success, pc ≠ .sending todo visits success) :
    Sourced pushed (PollRounds.consumeOne p source ev d pc) where
  process := hprocess
  main := hmain
  data ev' hev' := by
    simp only [PollRounds.consumeOne, hdata, List.mem_append, List.mem_singleton] at hev'
    rcases hev' with hold | rfl
    · exact h.data ev' hold
    · exact ⟨ev, hev, rfl⟩
  todo todo visits success heq := absurd heq (hpc todo visits success)

/-- The callback is not in its loop over the streams. -/
theorem Sourced.ofPc (h : Sourced pushed p) {pc : Pc κ} (round : Nat)
    (hpc : ∀ todo visits success, pc ≠ .sending todo visits success) :
    Sourced pushed { p with pc := pc, round := round } :=
  { h with todo := fun todo visits success heq => absurd heq (hpc todo visits success) }

theorem Sourced.popped (h : Sourced pushed p) (hstep : PollRounds.step p .pop = some p') :
    Sourced pushed p' := by
  cases PollRounds.step_pops hstep with
  | process hpc hpop =>
    have hprocess := h.process
    rw [BoundedFifo.elems_of_pop hpop, List.cons_subset] at hprocess
    exact h.consumeOne hprocess.1 hprocess.2 h.main rfl (by simp)
  | processDone hpc hempty => exact h.ofPc p.round (by simp)
  | main hpc hpop =>
    have hmain := h.main
    rw [BoundedFifo.elems_of_pop hpop, List.cons_subset] at hmain
    exact h.consumeOne hmain.1 h.process hmain.2 rfl (by simp)
  | nothingToSend hpc hempty =>
    refine { h with todo := ?_ }
    intro todo visits success heq
    cases heq
  | mainDone hpc hempty =>
    refine { h with todo := ?_ }
    intro todo visits success heq st hst
    cases heq
    exact hst

/-- A call that leaves the queues alone, and the set while it is in use. -/
theorem Sourced.setData (h : Sourced pushed p) {d : SharedData κ}
    (hprocess : d.mPluginProcessToClientsQueue = p.data.mPluginProcessToClientsQueue)
    (hmain : d.mPluginMainToClientsQueue = p.data.mPluginMainToClientsQueue)
    (hdata : d.mPluginToClientsData = p.data.mPluginToClientsData)
    (hstreams : p.pc = .idle ∨ d.streams = p.data.streams) :
    Sourced pushed { p with data := d } where
  process := hprocess ▸ h.process
  main := hmain ▸ h.main
  data := hdata ▸ h.data
  todo todo visits success heq st hst := by
    rcases hstreams with hidle | hstreams
    · cases hidle.symm.trans heq
    · rw [hstreams]
      exact h.todo todo visits success heq st hst

/-- Draining the queues leaves nothing in them. -/
theorem Sourced.endCallback (h : Sourced pushed p) :
    Sourced pushed { p with data := p.data.endCallback } where
  process := by
    rw [SharedData.endCallback_processQueue]
    exact List.nil_subset _
  main := by
    rw [SharedData.endCallback_mainQueue]
    exact List.nil_subset _
  data := h.data
  todo := h.todo

/-- The streams are elsewhere. -/
theorem Sourced.setStream (h : Sourced pushed p) (stream : κ → ServerEventStream) :
    Sourced pushed { p with stream := stream } := { h with }

/-- A callback sends what it has, and leaves the queues of others alone. -/
theorem Sourced.step (h : Sourced pushed p) {l : PollRounds.Lbl κ} (hl : l.IsOwn)
    (hstep : PollRounds.step p l = some p') : Sourced pushed p' := by
  cases l with
  | callback ok captured =>
    cases PollRounds.step_moves hstep with
    | ended hpc hends =>
      cases captured with
      | true => exact h.endCallback.setStream _
      | false => exact h.setStream _
    | begun hpc => exact h.ofPc (p.round + 1) (by simp)
  | pop => exact h.popped hstep
  | send =>
    cases PollRounds.step_moves hstep with
    | @sent st todo visits success hpc =>
      refine { h with todo := ?_ }
      intro todo' visits' success' heq st' hst'
      cases heq
      exact h.todo _ _ _ hpc st' (List.mem_cons_of_mem st hst')
  | finish =>
    cases PollRounds.step_moves hstep with
    | failed hpc =>
      refine { h with todo := ?_ }
      intro todo visits success heq
      cases heq
    | succeeded hpc =>
      refine { h with data := List.forall_mem_nil _, todo := ?_ }
      intro todo visits success heq
      cases heq
  | _ => cases hl

/-- What a step of the callback writes goes to the stream whose turn it is, which is open. -/
theorem own_writes {l : PollRounds.Lbl κ} (hl : l.IsOwn) (hstep : PollRounds.step p l = some p') :
    ∀ w ∈ p'.writes.drop p.writes.length,
      (∃ todo visits success, p.pc = .sending (w.1 :: todo) visits success) ∧
        (p.stream w.1).state = .WRITE ∧ w.2 = p.data.mPluginToClientsData := by
  intro w hw
  have hnone (heq : p'.writes = p.writes) : w ∈ ([] : List (κ × Api.ServerEvents)) := by
    rwa [heq, List.drop_length] at hw
  cases PollRounds.step_moves hstep with
  | @sent st todo visits success hpc =>
    rw [List.drop_left, (PollRounds.writesOf_sendEvents st _ _).1] at hw
    simp only [PollRounds.visitWrites, List.mem_map, List.mem_filter, List.mem_singleton,
      decide_eq_true_eq] at hw
    rcases hw with ⟨v, ⟨rfl, hopen⟩, rfl⟩
    exact ⟨⟨todo, visits, success, hpc⟩, hopen, rfl⟩
  | ended | begun | processPopped | processDone | mainPopped | nothingToSend | mainDone | failed
  | succeeded => cases hnone rfl
  | _ => cases hl

end Poll

/-! ## What is written -/

/-- What is in the instances was pushed to them, and only the one whose callback runs is in
the middle of it. -/
structure Flow (s : Sys κ) : Prop where
  sourced : ∀ i, Sourced (s.pushed i) (s.poll i)
  idle : ∀ i, (∀ tag, s.task ≠ .polling tag i) → (s.poll i).pc = .idle

theorem init_flow : Flow ({} : Sys κ) where
  sourced _ := init_sourced 0
  idle _ _ := rfl

/-- A message written by a step: the callback of `i` has handed it to a stream of its set. -/
def WrittenBy (s : Sys κ) (w : Option Nat × Api.ServerEvents) : Prop :=
  ∃ i st, 0 < s.useCount i ∧ st ∈ (s.poll i).data.streams.toList ∧
    (s.stream st).state = .WRITE ∧ w.1 = s.belongs st ∧
      ∀ ev ∈ w.2, ∃ e ∈ s.pushed i, e.toServerEvent = ev

/-- What a step does to what is pushed and written. -/
structure Flows (s s' : Sys κ) : Prop where
  flow : Flow s'
  pushed : ∀ i, s.pushed i ⊆ s'.pushed i
  written : ∀ w ∈ s'.written, w ∈ s.written ∨ WrittenBy s w

section Steps

variable {s s' : Sys κ}

/-- Steps that leave instances, messages and callbacks alone. -/
theorem Flow.same (h : Flow s) (hpoll : s'.poll = s.poll) (hpushed : s'.pushed = s.pushed)
    (hwritten : s'.written = s.written)
    (htask : ∀ tag i, s.task = .polling tag i → s'.task = .polling tag i) : Flows s s' where
  flow :=
    { sourced := by
        rw [hpoll, hpushed]
        exact h.sourced
      idle := by
        intro i hi
        rw [hpoll]
        exact h.idle i fun tag heq => hi tag (htask tag i heq) }
  pushed _ := by
    rw [hpushed]
    exact List.Subset.refl _
  written w hw := Or.inl (hwritten ▸ hw)

/-- A call on an instance, which may push to it. -/
theorem Flow.update (h : Flow s) {i : Nat} {d : SharedData κ} {pushed : List ServerEventWrapper}
    (hsourced : Sourced pushed { s.poll i with data := d }) :
    Flow { s.setData i d with pushed := Function.update s.pushed i pushed } where
  sourced j := by
    by_cases hj : j = i
    · subst hj
      simpa [Sys.setData] using hsourced
    · simpa [Sys.setData, hj] using h.sourced j
  idle j hj := by
    by_cases hji : j = i
    · subst hji
      simpa [Sys.setData] using h.idle j hj
    · simpa [Sys.setData, hji] using h.idle j hj

theorem Flow.setData (h : Flow s) {i : Nat} {d : SharedData κ}
    (hsourced : Sourced (s.pushed i) { s.poll i with data := d }) : Flow (s.setData i d) := by
  have hflow := h.update hsourced
  rwa [Function.update_eq_self] at hflow

/-- An event is pushed, and is in its queue unless that is full. -/
theorem push_flows (h : Flow s) {holder : Nat} {ev : ServerEventWrapper}
    {push : SharedData κ → Bool × SharedData κ}
    (hprocess : ∀ d, ∀ e ∈ (push d).2.mPluginProcessToClientsQueue.elems,
      e ∈ d.mPluginProcessToClientsQueue.elems ∨ (push d).1 = true ∧ e = ev)
    (hmain : ∀ d, ∀ e ∈ (push d).2.mPluginMainToClientsQueue.elems,
      e ∈ d.mPluginMainToClientsQueue.elems ∨ (push d).1 = true ∧ e = ev)
    (hdata : ∀ d, (push d).2.mPluginToClientsData = d.mPluginToClientsData)
    (hstreams : ∀ d, (push d).2.streams = d.streams)
    (hstep : s.push holder ev push = some s') : Flows s s' := by
  rcases Option.map_eq_some_iff.mp hstep with ⟨i, -, rfl⟩
  let more := if (push (s.poll i).data).1 then [ev] else []
  have hmem {q q' : List ServerEventWrapper} (hq : q ⊆ s.pushed i)
      (hq' : ∀ e ∈ q', e ∈ q ∨ (push (s.poll i).data).1 = true ∧ e = ev) :
      q' ⊆ s.pushed i ++ more := by
    intro e he
    rcases hq' e he with hold | ⟨hok, rfl⟩
    · exact List.mem_append_left _ (hq hold)
    · simp [more, hok]
  have hi := h.sourced i
  have hsourced : Sourced (s.pushed i ++ more)
      { s.poll i with data := (push (s.poll i).data).2 } := by
    refine ⟨hmem hi.process (hprocess _), hmem hi.main (hmain _), ?_, ?_⟩
    · intro ev' hev'
      rw [hdata] at hev'
      rcases hi.data ev' hev' with ⟨e, he, heq⟩
      exact ⟨e, List.mem_append_left _ he, heq⟩
    · intro todo visits success heq st hst
      rw [hstreams]
      exact hi.todo todo visits success heq st hst
  refine ⟨h.update hsourced, ?_, fun w hw => Or.inl hw⟩
  intro j
  by_cases hj : j = i
  · subst hj
    simp
  · simp [hj]

/-- A step of the callback of an instance. -/
theorem onPoll_flows (h : Flow s) {i : Nat} {l : PollRounds.Lbl κ} (hl : l.IsOwn)
    (hused : 0 < s.useCount i) (hstep : s.onPoll i l = some s') :
    (∀ j, Sourced (s'.pushed j) (s'.poll j)) ∧ s'.pushed = s.pushed ∧ s'.task = s.task ∧
      (∀ j, j ≠ i → (s'.poll j).pc = (s.poll j).pc) ∧
      ∀ w ∈ s'.written, w ∈ s.written ∨ WrittenBy s w := by
  rcases Option.map_eq_some_iff.mp hstep with ⟨p, hp, rfl⟩
  refine ⟨?_, rfl, rfl, ?_, ?_⟩
  · intro j
    by_cases hj : j = i
    · subst hj
      simpa using ((h.sourced j).setStream s.stream).step hl hp
    · simpa [hj] using h.sourced j
  · intro j hj
    simp [hj]
  · intro w hw
    rcases List.mem_append.mp hw with hold | hnew
    · exact Or.inl hold
    · rcases List.mem_map.mp hnew with ⟨w', hw', rfl⟩
      rcases own_writes hl hp w' hw' with ⟨⟨todo, visits, success, hpc⟩, hopen, hdata⟩
      right
      refine ⟨i, w'.1, hused, (h.sourced i).todo _ _ _ hpc _ List.mem_cons_self, hopen, rfl, ?_⟩
      rw [hdata]
      exact (h.sourced i).data

/-- A callback that ends polling has returned. -/
theorem onPoll_ended {i : Nat} {ok captured : Bool} (hends : (s.poll i).data.endsPoll ok = true)
    (hstep : s.onPoll i (.callback ok captured) = some s') : (s'.poll i).pc = .idle := by
  rcases Option.map_eq_some_iff.mp hstep with ⟨p, hp, rfl⟩
  show (Function.update s.poll i p i).pc = .idle
  rw [Function.update_self]
  by_contra hbegun
  have hgoes := PollRounds.endsPoll_of_begun hp hbegun
  exact Bool.noConfusion (hends.symm.trans hgoes)

theorem goOn_flows (h : Flow s) {l : PollRounds.Lbl κ} (hl : l.IsOwn)
    (hstep : s.goOn l = some s') : Flows s s' := by
  unfold Sys.goOn at hstep
  split at hstep
  · rename_i tag i htask
    split at hstep
    · cases hstep
    · rename_i hused
      rcases Option.map_eq_some_iff.mp hstep with ⟨t, hpoll, rfl⟩
      rcases onPoll_flows h hl (Nat.pos_of_ne_zero hused) hpoll with
        ⟨hsourced, hpushed, htask', hpc, hwritten⟩
      have hothers : ∀ j, j ≠ i → (t.poll j).pc = .idle := by
        intro j hj
        rw [hpc j hj]
        refine h.idle j fun tag' heq => ?_
        cases htask.symm.trans heq
        exact hj rfl
      split
      · rename_i hidle
        refine ⟨⟨hsourced, ?_⟩, fun j => hpushed ▸ List.Subset.refl _, hwritten⟩
        intro j _
        by_cases hj : j = i
        · exact hj ▸ hidle
        · exact hothers j hj
      · refine ⟨⟨hsourced, ?_⟩, fun j => hpushed ▸ List.Subset.refl _, hwritten⟩
        intro j hj
        refine hothers j ?_
        rintro rfl
        exact hj tag (htask'.trans htask)
  · cases hstep

theorem callback_flows (h : Flow s) {tag : Nat} {ok : Bool}
    (hstep : step s (.callback tag ok) = some s') : Flows s s' := by
  simp only [step] at hstep
  split at hstep
  · rename_i i alarms hidle hnext
    have hall : ∀ j, (s.poll j).pc = .idle := by
      intro j
      exact h.idle j (by simp [hidle])
    split at hstep
    · cases hstep
    · rename_i hused
      rcases Option.map_eq_some_iff.mp hstep with ⟨t, hpoll, rfl⟩
      rcases onPoll_flows h (by trivial) (Nat.pos_of_ne_zero hused) hpoll with
        ⟨hsourced, hpushed, -, hpc, hwritten⟩
      have hsub : ∀ j, s.pushed j ⊆ t.pushed j := fun j => hpushed ▸ List.Subset.refl _
      split
      · rename_i hends
        have hflow : Flow t := by
          refine ⟨hsourced, ?_⟩
          intro j _
          by_cases hj : j = i
          · subst hj
            exact onPoll_ended hends hpoll
          · exact (hpc j hj).trans (hall j)
        have hended := hflow.setData (hflow.sourced (s.endOwner.getD i)).endCallback
        exact ⟨{ hended with }, hsub, hwritten⟩
      · refine ⟨⟨hsourced, ?_⟩, hsub, hwritten⟩
        intro j hj
        have hji : j ≠ i := by
          rintro rfl
          exact hj tag rfl
        exact (hpc j hji).trans (hall j)
  · cases hstep

/-- What the handlers of streams do touches no queue. -/
theorem applyEffects_flow (st : κ) (effs : List ServerEventStream.Effect) (h : Flow s)
    (hidle : s.task = .idle) :
    Flow (effs.foldl (applyEffect st) s) ∧ (effs.foldl (applyEffect st) s).pushed = s.pushed ∧
      (effs.foldl (applyEffect st) s).written = s.written := by
  induction effs generalizing s with
  | nil => exact ⟨h, rfl, rfl⟩
  | cons eff effs ih =>
    have hone : Flow (applyEffect st s eff) ∧ (applyEffect st s eff).task = .idle ∧
        (applyEffect st s eff).pushed = s.pushed ∧
        (applyEffect st s eff).written = s.written := by
      cases eff with
      | removeStream =>
        cases hfind : s.sharedData.find? st with
        | none =>
          have heq : applyEffect st s .removeStream = s := by simp only [applyEffect, hfind]
          rw [heq]
          exact ⟨h, hidle, rfl, rfl⟩
        | some i =>
          have heq : applyEffect st s .removeStream =
              s.setData i ((s.poll i).data.removeStream st).2 := by
            simp only [applyEffect, hfind]
          have hpc := h.idle i (by simp [hidle])
          have hsourced := (h.sourced i).setData (d := ((s.poll i).data.removeStream st).2)
            rfl rfl rfl (Or.inl hpc)
          rw [heq]
          exact ⟨h.setData hsourced, hidle, rfl, rfl⟩
      | destroyTag => exact ⟨{ h with }, hidle, rfl, rfl⟩
      | _ => exact ⟨h, hidle, rfl, rfl⟩
    rcases hone with ⟨hflow, htask, hpushed, hwritten⟩
    rcases ih hflow htask with ⟨hflow', hpushed', hwritten'⟩
    exact ⟨hflow', hpushed'.trans hpushed, hwritten'.trans hwritten⟩

theorem process_flows (h : Flow s) {st : κ} {ok : Bool}
    (hstep : step s (.process st ok) = some s') : Flows s s' := by
  simp only [step] at hstep
  split at hstep
  · rename_i hguard
    cases hstep
    let obj := ((s.stream st).process ok .rejected).1
    have hflow : Flow { s with stream := Function.update s.stream st obj } := { h with }
    rcases applyEffects_flow st ((s.stream st).process ok .rejected).2 hflow hguard.1 with
      ⟨hflow', hpushed, hwritten⟩
    refine ⟨hflow', ?_, fun w hw => Or.inl (hwritten ▸ hw)⟩
    intro i
    rw [congrFun hpushed i]
    exact List.Subset.refl _
  · cases hstep

/-- A new instance has been pushed nothing. -/
theorem addPlugin_flows (h : Flow s) {plugin : PluginPtr}
    (hstep : step s (.addPlugin plugin) = some s') : Flows s s' := by
  simp only [step] at hstep
  split at hstep
  · cases hstep
    exact h.same rfl rfl rfl (fun _ _ htask => htask)
  · cases hstep
    refine ⟨⟨?_, ?_⟩, fun i => List.Subset.refl _, fun w hw => Or.inl hw⟩
    · intro i
      by_cases hi : i = s.count
      · subst hi
        simpa using init_sourced plugin
      · simpa [hi] using h.sourced i
    · intro i hi
      by_cases hic : i = s.count
      · subst hic
        simp [PollRounds.init]
      · simpa [hic] using h.idle i hi

/-- The lookups of a stream. -/
theorem connects_flows (h : Flow s) {l : Lbl κ} (hl : l.connects = true) (hmoves : Moves s l s') :
    Flows s s' := by
  have hsub : ∀ i, s.pushed i ⊆ s.pushed i := fun i => List.Subset.refl _
  cases hmoves with
  | same hl' hsame => cases hl.symm.trans hl'
  | rejected => exact h.same rfl rfl rfl (fun _ _ htask => htask)
  | @adding st hash fresh i hidle hmem hnew hstate hfind hadd =>
    have hpc : ∀ j, (s.poll j).pc = .idle := fun j => h.idle j (by simp [hidle])
    have hflow := h.setData ((h.sourced i).setData (d := ((s.poll i).data.addStream st).2)
      rfl rfl rfl (Or.inl (hpc i)))
    refine ⟨⟨hflow.sourced, ?_⟩, hsub, fun w hw => Or.inl hw⟩
    intro j _
    exact hflow.idle j (fun tag heq => by cases hidle.symm.trans heq)
  | orphaned htask hfind =>
    exact h.same rfl rfl rfl (fun tag i heq => by cases htask.symm.trans heq)
  | @connected cq st hash i j alarms htask hfind halarms =>
    have hflow := h.setData ((h.sourced j).setData (d := ((s.poll j).data.tryStartPolling cq).2.1)
      (SharedData.tryStartPolling_processQueue _ _) (SharedData.tryStartPolling_mainQueue _ _)
      (SharedData.tryStartPolling_data _ _) (Or.inr (SharedData.tryStartPolling_streams _ _)))
    refine ⟨⟨hflow.sourced, ?_⟩, hsub, fun w hw => Or.inl hw⟩
    intro k _
    exact hflow.idle k (fun tag heq => by cases htask.symm.trans heq)
  | _ => cases hl

theorem step_flows (h : Flow s) {l : Lbl κ} (hstep : step s l = some s') : Flows s s' := by
  cases l with
  | addPlugin plugin => exact addPlugin_flows h hstep
  | removePlugin hash =>
    simp only [step] at hstep
    split at hstep
    · cases hstep
      exact h.same rfl rfl rfl (fun _ _ htask => htask)
    · cases hstep
      exact h.same rfl rfl rfl (fun _ _ htask => htask)
  | hold holder hash =>
    simp only [step] at hstep
    split at hstep
    · cases hstep
      exact h.same rfl rfl rfl (fun _ _ htask => htask)
    · split at hstep
      · cases hstep
      · cases hstep
        exact h.same rfl rfl rfl (fun _ _ htask => htask)
  | release holder =>
    cases hstep
    exact h.same rfl rfl rfl (fun _ _ htask => htask)
  | pushProcess holder ev =>
    have hpush : s.push holder ev (fun d => d.pushProcess ev) = some s' := hstep
    refine push_flows h ?_ (fun d e he => Or.inl he) (fun _ => rfl) (fun _ => rfl) hpush
    intro d e he
    exact BoundedFifo.mem_push he
  | pushMain holder ev =>
    have hpush : s.push holder ev (fun d => d.pushMain ev) = some s' := hstep
    refine push_flows h (fun d e he => Or.inl he) ?_ (fun _ => rfl) (fun _ => rfl) hpush
    intro d e he
    rcases BoundedFifo.mem_pushOverwrite he with hold | rfl
    · exact Or.inl hold
    · exact Or.inr ⟨rfl, rfl⟩
  | stopPoll holder =>
    rcases Option.map_eq_some_iff.mp hstep with ⟨i, -, rfl⟩
    have hsourced := (h.sourced i).setData (SharedData.stopPoll_processQueue (s.poll i).data)
      (SharedData.stopPoll_mainQueue _) (SharedData.stopPoll_data _)
      (Or.inr (SharedData.stopPoll_streams _))
    exact ⟨h.setData hsourced, fun i => List.Subset.refl _, fun w hw => Or.inl hw⟩
  | endStreams holder =>
    rcases Option.map_eq_some_iff.mp hstep with ⟨i, -, rfl⟩
    exact h.same rfl rfl rfl (fun _ _ htask => htask)
  | start first =>
    simp only [step] at hstep
    split at hstep
    · cases hstep
    · cases hstep
      exact h.same rfl rfl rfl (fun _ _ htask => htask)
  | stop =>
    simp only [step] at hstep
    split at hstep
    · cases hstep
      exact h.same rfl rfl rfl (fun _ _ htask => htask)
    · cases hstep
  | connectClient st id fresh => exact connects_flows h rfl (connectClient_moves hstep)
  | getSharedData cq => exact connects_flows h rfl (getSharedData_moves hstep)
  | process st ok => exact process_flows h hstep
  | done st =>
    simp only [step] at hstep
    split at hstep
    · cases hstep
      exact h.same rfl rfl rfl (fun _ _ htask => htask)
    · cases hstep
  | callback tag ok => exact callback_flows h hstep
  | pop => exact goOn_flows h (l := .pop) trivial hstep
  | send => exact goOn_flows h (l := .send) trivial hstep
  | finish => exact goOn_flows h (l := .finish) trivial hstep

end Steps

/-! ## The sets -/

/-- An address is in the set of one instance at most, of those in use, and an open stream in
the one it belongs to. -/
structure RouteInv (s : Sys κ) : Prop extends Inv s where
  flow : Flow s
  one : ∀ st i j, 0 < s.useCount i → 0 < s.useCount j →
    st ∈ (s.poll i).data.streams.toList → st ∈ (s.poll j).data.streams.toList → i = j
  adding : ∀ st hash i, s.task = .connecting st hash i →
    ∀ j, 0 < s.useCount j → st ∈ (s.poll j).data.streams.toList → j = i
  open_belongs : ∀ st i, 0 < s.useCount i → st ∈ (s.poll i).data.streams.toList →
    (s.stream st).state = .WRITE → s.belongs st = some i
  written : ∀ w ∈ s.written, ∃ i, w.1 = some i ∧
    ∀ ev ∈ w.2, ∃ e ∈ s.pushed i, e.toServerEvent = ev

theorem init_routeInv : RouteInv ({} : Sys κ) :=
  { init_inv with
    flow := init_flow
    one := fun st i j hi => absurd hi (Nat.lt_irrefl 0)
    adding := fun st hash i h => by cases h
    open_belongs := fun st i hi => absurd hi (Nat.lt_irrefl 0)
    written := List.forall_mem_nil _ }

section Sets

variable {s s' : Sys κ}

/-- What a step writes goes where it belongs. -/
theorem RouteInv.written_step (h : RouteInv s) (hflows : Flows s s') :
    ∀ w ∈ s'.written, ∃ i, w.1 = some i ∧
      ∀ ev ∈ w.2, ∃ e ∈ s'.pushed i, e.toServerEvent = ev := by
  intro w hw
  have hgrow {i : Nat} (hold : ∀ ev ∈ w.2, ∃ e ∈ s.pushed i, e.toServerEvent = ev) :
      ∀ ev ∈ w.2, ∃ e ∈ s'.pushed i, e.toServerEvent = ev := by
    intro ev hev
    rcases hold ev hev with ⟨e, he, heq⟩
    exact ⟨e, hflows.pushed i he, heq⟩
  rcases hflows.written w hw with hold | ⟨i, st, hused, hin, hopen, hbelongs, hevs⟩
  · rcases h.written w hold with ⟨i, hi, hevs⟩
    exact ⟨i, hi, hgrow hevs⟩
  · exact ⟨i, hbelongs.trans (h.open_belongs st i hused hin hopen), hgrow hevs⟩

/-- Steps that add no stream to a set in use, and open none. -/
theorem RouteInv.keep (h : RouteInv s) (hinv : Inv s') (hflows : Flows s s')
    (hsets : ∀ i st, 0 < s'.useCount i → st ∈ (s'.poll i).data.streams.toList →
      0 < s.useCount i ∧ st ∈ (s.poll i).data.streams.toList)
    (htask : ∀ st hash i, s'.task = .connecting st hash i → s.task = .connecting st hash i)
    (hopen : ∀ st, (s'.stream st).state = .WRITE →
      (s.stream st).state = .WRITE ∧ s'.belongs st = s.belongs st) : RouteInv s' where
  toInv := hinv
  flow := hflows.flow
  one st i j hi hj hst hst' := by
    rcases hsets i st hi hst with ⟨hi, hst⟩
    rcases hsets j st hj hst' with ⟨hj, hst'⟩
    exact h.one st i j hi hj hst hst'
  adding st hash i hconnecting j hj hst := by
    rcases hsets j st hj hst with ⟨hj, hst⟩
    exact h.adding st hash i (htask st hash i hconnecting) j hj hst
  open_belongs st i hi hst hwrite := by
    rcases hsets i st hi hst with ⟨hi, hst⟩
    rcases hopen st hwrite with ⟨hold, hbelongs⟩
    exact hbelongs.trans (h.open_belongs st i hi hst hold)
  written := h.written_step hflows

/-- A new stream is not open. -/
theorem create_open {fresh st : κ} (hwrite : ((s.create fresh).stream st).state = .WRITE) :
    (s.stream st).state = .WRITE ∧ (s.create fresh).belongs st = s.belongs st := by
  have hne : st ≠ fresh := by
    rintro rfl
    simp [Sys.create] at hwrite
  simpa [Sys.create, hne] using hwrite

/-- Nor is one that was refused. -/
theorem answer_refused_open {st st' : κ} (connect : ServerEventStream.ConnectResult)
    (hne : connect ≠ .connected) (hwrite : ((s.answer st connect).stream st').state = .WRITE) :
    (s.stream st').state = .WRITE := by
  rw [answer_refused s st hne] at hwrite
  have hst : st' ≠ st := by
    rintro rfl
    simp at hwrite
  simpa [hst] using hwrite

/-- A stream is added to one set. -/
theorem RouteInv.addStream (h : RouteInv s) {st fresh : κ} {hash : Hash} {i : Nat}
    (hstate : (s.stream st).state = .CONNECT) (hinv : Inv s') (hflows : Flows s s')
    (helse : ∀ j, j ≠ i → 0 < s.useCount j → st ∉ (s.poll j).data.streams.toList)
    (heq : s' = { (s.create fresh).setData i ((s.poll i).data.addStream st).2 with
      belongs := Function.update (s.create fresh).belongs st (some i)
      task := .connecting st hash i }) : RouteInv s' := by
  have hused : ∀ j, 0 < s'.useCount j → 0 < s.useCount j := by
    intro j hj
    rwa [heq] at hj
  have hstreams : ∀ j st', st' ∈ (s'.poll j).data.streams.toList →
      st' ∈ (s.poll j).data.streams.toList ∨ j = i ∧ st' = st := by
    intro j st' hst'
    rw [heq] at hst'
    exact mem_streams_addStream.mp hst'
  have honly : ∀ j, 0 < s'.useCount j → st ∈ (s'.poll j).data.streams.toList → j = i := by
    intro j hj hst
    rcases hstreams j st hst with hold | ⟨hji, -⟩
    · by_contra hne
      exact helse j hne (hused j hj) hold
    · exact hji
  refine ⟨hinv, hflows.flow, ?_, ?_, ?_, h.written_step hflows⟩
  · intro st' j k hj hk hst hst'
    by_cases hne : st' = st
    · subst hne
      rw [honly j hj hst, honly k hk hst']
    · have hold := (hstreams j st' hst).resolve_right fun heq => hne heq.2
      have hold' := (hstreams k st' hst').resolve_right fun heq => hne heq.2
      exact h.one st' j k (hused j hj) (hused k hk) hold hold'
  · intro st' hash' i' htask j hj hst
    rw [heq] at htask
    cases htask
    exact honly j hj hst
  · intro st' j hj hst hwrite
    rw [heq] at hwrite ⊢
    rcases create_open hwrite with ⟨hold, hbelongs⟩
    have hne : st' ≠ st := by
      rintro rfl
      cases hstate.symm.trans hold
    have hin := (hstreams j st' hst).resolve_right fun heq => hne heq.2
    show Function.update (s.create fresh).belongs st (some i) st' = some j
    rw [Function.update_of_ne hne, hbelongs]
    exact h.open_belongs st' j (hused j hj) hin hold

/-- A stream is open, and still in the one set. -/
theorem RouteInv.connected (h : RouteInv s) {st : κ} {hash : Hash} {i : Nat}
    (htask : s.task = .connecting st hash i) (hidle : s'.task = .idle) (hinv : Inv s')
    (hflows : Flows s s') (hused : ∀ j, 0 < s'.useCount j → 0 < s.useCount j)
    (hstreams : ∀ j, (s'.poll j).data.streams = (s.poll j).data.streams)
    (hbelongs : s'.belongs = s.belongs)
    (hopen : ∀ st', st' ≠ st → s'.stream st' = s.stream st') : RouteInv s' where
  toInv := hinv
  flow := hflows.flow
  one st' j k hj hk hst hst' := by
    rw [hstreams] at hst hst'
    exact h.one st' j k (hused j hj) (hused k hk) hst hst'
  adding st' hash' i' hconnecting := by cases hidle.symm.trans hconnecting
  open_belongs st' j hj hst hwrite := by
    rw [hstreams] at hst
    rw [hbelongs]
    by_cases hne : st' = st
    · subst hne
      rw [h.adding st' hash i htask j (hused j hj) hst]
      exact (h.connecting st' hash i htask).2.2.2.1
    · rw [hopen st' hne] at hwrite
      exact h.open_belongs st' j (hused j hj) hst hwrite
  written := h.written_step hflows

theorem step_routeInv (h : RouteInv s) {l : Lbl κ} (hcond : NotElsewhere s l)
    (hstep : step s l = some s') : RouteInv s' := by
  have hinv := step_inv h.toInv hstep
  have hflows := step_flows h.flow hstep
  have hmoves := step_moves h.toInv hstep
  have hused (hl : ∀ plugin, l ≠ .addPlugin plugin) (i : Nat) (hi : 0 < s'.useCount i) :
      0 < s.useCount i := hmoves.used_of_ne hl hi
  cases hmoves with
  | same hl hsame =>
    refine h.keep hinv hflows ?_ (fun st hash i => (hsame.connecting st hash i).mp) ?_
    · intro i st hi hst
      rw [hsame.useCount] at hi
      rw [hsame.streams] at hst
      exact ⟨hi, hst⟩
    · intro st hwrite
      rw [hsame.belongs]
      rcases hsame.state st with heq | heq | heq
      · exact ⟨heq ▸ hwrite, rfl⟩
      · cases heq.symm.trans hwrite
      · cases heq.symm.trans hwrite
  | @added plugin hnew =>
    refine h.keep hinv hflows ?_ (fun st hash i heq => heq) (fun st hwrite => ⟨hwrite, rfl⟩)
    intro i st hi hst
    have hic : i ≠ s.count := by
      rintro rfl
      simp [PollRounds.init, SharedData.ofPlugin, OrdMap.empty, OrdMap.keys] at hst
    rcases (Moves.added hnew).used hi with hold | ⟨heq, -⟩
    · exact ⟨hold, by simpa [hic] using hst⟩
    · exact absurd heq hic
  | removed | held | released =>
    refine h.keep hinv hflows ?_ (fun st hash i heq => heq) (fun st hwrite => ⟨hwrite, rfl⟩)
    intro i st hi hst
    exact ⟨hused (by simp) i hi, hst⟩
  | started hnew =>
    exact h.keep hinv hflows (fun i st hi hst => ⟨hi, hst⟩) (fun st hash i heq => heq)
      (fun st hwrite => create_open hwrite)
  | stopped hidle =>
    refine h.keep hinv hflows ?_ (fun st hash i heq => heq) (fun st hwrite => ⟨hwrite, rfl⟩)
    intro i st hi hst
    exact ⟨hused (by simp) i hi, hst⟩
  | rejected hidle hmem hnew hstate hin =>
    exact h.keep hinv hflows (fun i st hi hst => ⟨hi, hst⟩) (fun st hash i heq => heq)
      (fun st hwrite => create_open (answer_refused_open .rejected (by simp) hwrite))
  | adding hidle hmem hnew hstate hfind hadd =>
    exact h.addStream hstate hinv hflows (fun j hne => hcond _ j hfind hne) rfl
  | orphaned htask hfind =>
    exact h.keep hinv hflows (fun i st hi hst => ⟨hi, hst⟩) (fun st hash i heq => by cases heq)
      (fun st hwrite => ⟨answer_refused_open .orphaned (by simp) hwrite, rfl⟩)
  | connected htask hfind halarms =>
    refine h.connected htask rfl hinv hflows (hused (by simp)) ?_ rfl ?_
    · exact setData_streams (SharedData.tryStartPolling_streams _ _)
    · intro st' hne
      exact Function.update_of_ne hne _ _
  | killed hidle hmem hstate =>
    refine h.keep hinv hflows ?_ (fun st hash i heq => heq) (fun st hwrite => ⟨hwrite, rfl⟩)
    intro i st hi hst
    exact ⟨hused (by simp) i hi, (mem_streams_removeStream.mp hst).1⟩

theorem RouteInv.confined (h : RouteInv s) : Confined s where
  written := h.written
  one st _ i j := h.one st i j

/-- A stream whose address is in another set is added to a second one. -/
theorem step_not_confined (h : RouteInv s) {st fresh : κ} {hash : Hash} {i j : Nat}
    (hfind : s.mSharedData.find? hash = some i) (hne : j ≠ i) (hused : 0 < s.useCount j)
    (hin : st ∈ (s.poll j).data.streams.toList)
    (hstep : step s (.connectClient st (some hash) fresh) = some s') : ¬ Confined s' := by
  intro hconfined
  cases connectClient_moves hstep with
  | same hl hsame => cases hl
  | rejected hidle hmem hnew hstate hboth =>
    exact hne (h.one st j i hused (useCount_of_registered hfind) hin (hboth hash i rfl hfind))
  | adding hidle hmem hnew hstate hfind' hadd =>
    cases hfind.symm.trans hfind'
    refine hne (hconfined.one st (OrdMap.mem_keys_emplace.mpr (Or.inr hmem)) j i hused
      (useCount_of_registered hfind) ?_ ?_)
    · exact mem_streams_addStream.mpr (Or.inl hin)
    · exact mem_streams_addStream.mpr (Or.inr ⟨rfl, rfl⟩)

end Sets

/-- In a run every stream is handed only what was pushed to the instance that was registered
under its hash when it was added, and is in one set at most, exactly when no stream is added
whose address is in the set of another instance. -/
theorem confined_iff (ls : List (Lbl κ)) :
    (spec κ).AllSteps (fun _ _ s' => Confined s') {} ls ↔
      (spec κ).AllSteps (fun s l _ => NotElsewhere s l) {} ls := by
  refine (spec κ).allSteps_iff RouteInv ?_ ?_ init_routeInv ls
  · intro s l s' h hcond hstep
    have h' := step_routeInv h hcond hstep
    exact ⟨h', h'.confined⟩
  · intro s l s' h hcond hstep
    cases l with
    | connectClient st id fresh =>
      cases id with
      | none => exact absurd trivial hcond
      | some hash =>
        simp only [NotElsewhere, Classical.not_forall, not_not] at hcond
        rcases hcond with ⟨i, j, hfind, hne, hused, hin⟩
        exact step_not_confined h hfind hne hused hin hstep
    | _ => exact absurd trivial hcond

/-- A client is refused when its plugin is removed, and its stream destroyed but left in the
set. The next stream gets its address and serves another plugin; then the callback of the
first one, whom a client and its plugin still have, hands it an event. -/
theorem confined_fails : ¬ ∀ ls, (spec Nat).AllSteps (fun _ _ s' => Confined s') {} ls := by
  intro h
  have hlast := (spec Nat).forall_allSteps_last h
    [.addPlugin 1, .hold 0 (hashOf 1), .start 0, .connectClient 0 (some (hashOf 1)) 1,
      .getSharedData (some 0), .connectClient 1 (some (hashOf 1)) 2, .removePlugin (hashOf 1),
      .getSharedData (some 0), .process 1 true, .addPlugin 2,
      .connectClient 2 (some (hashOf 2)) 1, .getSharedData (some 0),
      .connectClient 1 (some (hashOf 2)) 3, .getSharedData (some 0), .pushMain 0 {},
      .callback 0 true, .pop, .pop, .pop, .send]
    .send rfl rfl
  rcases hlast.written (some 1, [ServerEventWrapper.toServerEvent {}]) (by decide) with
    ⟨i, hi, hpushed⟩
  cases hi
  rcases hpushed _ List.mem_cons_self with ⟨e, he, -⟩
  cases he

end ClapRci.Instances
