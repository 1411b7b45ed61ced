import ClapRci.Lib.Progress
import ClapRci.Plugin.HostToClient

/-!
# Everything arrives (`server/shareddata.cpp`, `plugin/coreplugin.cpp`)

The way of an event from the host to an open stream has no place where it could stay: whatever
the host, the clients and the other streams have done so far, while polling goes on, two rounds
of the poll loop, with nobody in between, leave nothing on the way.

* `flushes`: the rounds come to their end, in a bounded number of steps;
* `host_events_arrive`: what found room in its queue, and was not thrown away by an
  `endCallback`, is handed to the stream by then.
-/

namespace ClapRci.ClientView

open PollRounds (Drains Pc Popped Source)

/-! ## Rounds of the poll loop -/

section Rounds

variable {κ : Type} [LinearOrder κ] {stream : κ} {p p' : PollRounds.Sys κ}

/-- The steps of the poll loop by which it goes on. -/
def goesOn : PollRounds.Lbl κ → Bool
  | .callback ok _ => ok
  | .pop | .send | .finish => true
  | _ => false

/-- The stream is open, and no stop has been requested. -/
structure Going (stream : κ) (p : PollRounds.Sys κ) : Prop where
  isOpen : Open stream p
  pollStop : p.data.pollStop = false

/-- So it stays while the poll loop goes on. -/
theorem Going.goOn (h : Going stream p) {m : PollRounds.Lbl κ} (hm : goesOn m = true)
    (hstep : PollRounds.step p m = some p') : Going stream p' := by
  have hinv := PollRounds.step_inv h.isOpen.poll hstep
  cases m with
  | callback ok captured =>
    obtain rfl : ok = true := hm
    cases PollRounds.step_moves hstep with
    | ended hpc hends => cases (h.isOpen.endsPoll.trans h.pollStop).symm.trans hends
    | begun hpc => exact ⟨{ h.isOpen with poll := hinv, turn := nofun }, h.pollStop⟩
  | pop =>
    refine ⟨(h.isOpen.pop hstep).1, ?_⟩
    cases PollRounds.step_moves hstep <;> exact h.pollStop
  | send =>
    refine ⟨(h.isOpen.sent hstep).1, ?_⟩
    cases PollRounds.step_moves hstep with
    | sent hpc => exact h.pollStop
  | finish =>
    refine ⟨(h.isOpen.finish hstep).1, ?_⟩
    cases PollRounds.step_moves hstep <;> exact h.pollStop
  | _ => cases hm

/-- The response holds what the consume loops have counted, and nothing between two rounds. -/
def Counted (p : PollRounds.Sys κ) : Prop :=
  match p.pc with
  | .idle => p.data.mPluginToClientsData = []
  | .consumeProcess n => p.data.mPluginToClientsData.length = n
  | .consumeMain n m => p.data.mPluginToClientsData.length = n + m
  | .sending _ _ _ => True

/-- The queues that the round is through with are empty. -/
def Emptied (p : PollRounds.Sys κ) : Prop :=
  match p.pc with
  | .consumeProcess _ => True
  | .consumeMain _ _ => p.queue .process = []
  | .sending _ _ _ | .idle => ∀ source, p.queue source = []

/-- The steps that the round has ahead of it at most, if nobody pushes. -/
def roundRank (p : PollRounds.Sys κ) : Nat :=
  match p.pc with
  | .idle => 0
  | .consumeProcess _ =>
    (p.queue .process).length + (p.queue .main).length + p.data.streams.toList.length + 3
  | .consumeMain _ _ => (p.queue .main).length + p.data.streams.toList.length + 2
  | .sending todo _ _ => todo.length + 1

/-- A round in which the open stream had its turn has succeeded. -/
theorem Open.not_failed (h : Open stream p) {visits : List (κ × ServerEventStream.State)} :
    p.pc ≠ .sending [] visits false := by
  intro hpc
  have hturn := h.poll.pc
  rw [hpc] at hturn
  have hmem := h.mem
  rw [← hturn.1, List.append_nil] at hmem
  rcases List.mem_map.mp hmem with ⟨v, hv, hstream⟩
  have hwrite := h.turn _ _ _ hpc v hv hstream
  have hnone := List.any_eq_false.mp hturn.2.symm v hv
  exact hnone (decide_eq_true hwrite)

/-- The consume loops keep count. -/
theorem Counted.pop (hcounted : Counted p) (hstep : PollRounds.step p .pop = some p') :
    Counted p' := by
  cases PollRounds.step_pops hstep with
  | process hpc hpop =>
    simp only [Counted, hpc] at hcounted
    simp [Counted, PollRounds.consumeOne, hcounted]
  | processDone hpc hempty =>
    simp only [Counted, hpc] at hcounted
    exact hcounted
  | main hpc hpop =>
    simp only [Counted, hpc] at hcounted
    simp [Counted, PollRounds.consumeOne, hcounted, Nat.add_assoc]
  | nothingToSend hpc hempty =>
    -- only a round that has popped nothing comes to this
    simp only [Counted, hpc] at hcounted
    exact List.length_eq_zero_iff.mp hcounted
  | mainDone hpc hempty => trivial

/-- So do all steps, while the stream is open. -/
theorem Counted.step (hcounted : Counted p) (hopen : Open stream p) {m : PollRounds.Lbl κ}
    (hstep : PollRounds.step p m = some p') : Counted p' := by
  cases PollRounds.step_moves hstep with
  | @ended ok captured hpc hends =>
    -- the response is left as it is, whether or not the queues are drained
    simp only [Counted, hpc] at hcounted ⊢
    cases captured <;> exact hcounted
  | begun hpc =>
    simp only [Counted, hpc] at hcounted
    simp [Counted, hcounted]
  | processPopped hpc => exact hcounted.pop hstep
  | processDone hpc => exact hcounted.pop hstep
  | mainPopped hpc => exact hcounted.pop hstep
  | nothingToSend hpc => exact hcounted.pop hstep
  | mainDone hpc => trivial
  | sent hpc => trivial
  | failed hpc => exact absurd hpc hopen.not_failed
  | succeeded hpc => rfl
  | @tryStartPolling cq hpc =>
    simp only [Counted, hpc] at hcounted ⊢
    exact (SharedData.tryStartPolling_data p.data cq).trans hcounted
  | stopPoll =>
    simp only [Counted, SharedData.stopPoll_data]
    exact hcounted
  | endElsewhere hpc =>
    simp only [Counted, hpc] at hcounted ⊢
    exact hcounted
  | _ => exact hcounted

/-- A round that is under way has a step, which brings it on. -/
theorem Open.round_step (hopen : Open stream p) (hbusy : p.pc ≠ .idle) :
    ∃ m p', goesOn m = true ∧ PollRounds.step p m = some p' ∧
      p'.data.streams = p.data.streams ∧ (Emptied p → Emptied p') ∧
      roundRank p' < roundRank p := by
  cases hpc : p.pc with
  | idle => exact absurd hpc hbusy
  | consumeProcess n =>
    refine ⟨.pop, ?_⟩
    simp only [PollRounds.step, hpc]
    cases hpop : p.data.mPluginProcessToClientsQueue.pop with
    | mk out queue =>
      cases out with
      | none =>
        have hempty := List.head?_eq_none_iff.mp (congrArg Prod.fst hpop)
        refine ⟨_, rfl, rfl, rfl, fun _ => hempty, ?_⟩
        simp only [roundRank, hpc, PollRounds.Sys.queue]
        omega
      | some ev =>
        have helems := BoundedFifo.elems_of_pop hpop
        refine ⟨_, rfl, rfl, rfl, fun _ => trivial, ?_⟩
        simp only [roundRank, hpc, PollRounds.consumeOne, PollRounds.Sys.queue, helems,
          List.length_cons]
        omega
  | consumeMain n m =>
    refine ⟨.pop, ?_⟩
    simp only [PollRounds.step, hpc]
    cases hpop : p.data.mPluginMainToClientsQueue.pop with
    | mk out queue =>
      cases out with
      | none =>
        have hempty := List.head?_eq_none_iff.mp (congrArg Prod.fst hpop)
        have hboth : Emptied p → ∀ source, p.queue source = [] := by
          intro hemptied source
          simp only [Emptied, hpc] at hemptied
          cases source with
          | process => exact hemptied
          | main => exact hempty
        dsimp only
        split
        · refine ⟨_, rfl, rfl, rfl, ?_, ?_⟩
          · intro hemptied source
            have hnone := hboth hemptied source
            cases source <;> exact hnone
          · simp only [roundRank, hpc]
            omega
        · refine ⟨_, rfl, rfl, rfl, hboth, ?_⟩
          simp only [roundRank, hpc]
          omega
      | some ev =>
        have helems := BoundedFifo.elems_of_pop hpop
        refine ⟨_, rfl, rfl, rfl, ?_, ?_⟩
        · intro hemptied
          simp only [Emptied, hpc] at hemptied
          exact hemptied
        · simp only [roundRank, hpc, PollRounds.consumeOne, PollRounds.Sys.queue, helems,
            List.length_cons]
          omega
  | sending todo visits success =>
    have hall : Emptied p → ∀ source, p.queue source = [] := by
      intro hemptied
      simp only [Emptied, hpc] at hemptied
      exact hemptied
    cases todo with
    | nil =>
      refine ⟨.finish, ?_⟩
      simp only [PollRounds.step, hpc]
      cases success with
      | false => exact absurd hpc hopen.not_failed
      | true =>
        refine ⟨_, rfl, rfl, rfl, ?_, ?_⟩
        · intro hemptied source
          have hnone := hall hemptied source
          cases source <;> exact hnone
        · simp [roundRank, hpc]
    | cons st todo =>
      refine ⟨.send, ?_⟩
      simp only [PollRounds.step, hpc]
      refine ⟨_, rfl, rfl, rfl, ?_, ?_⟩
      · intro hemptied source
        have hnone := hall hemptied source
        cases source <;> exact hnone
      · simp [roundRank, hpc]

/-- A round has no more steps ahead of it than a whole one. -/
theorem Open.roundRank_le (hopen : Open stream p) :
    roundRank p ≤ p.data.streams.toList.length + 131 := by
  have hprocess := p.data.mPluginProcessToClientsQueue.bounded
  have hmain := p.data.mPluginMainToClientsQueue.bounded
  have hturn := hopen.poll.pc
  cases hpc : p.pc with
  | idle => simp [roundRank, hpc]
  | consumeProcess n =>
    simp only [roundRank, hpc, PollRounds.Sys.queue]
    omega
  | consumeMain n m =>
    simp only [roundRank, hpc, PollRounds.Sys.queue]
    omega
  | sending todo visits success =>
    rw [hpc] at hturn
    have hlength := congrArg List.length hturn.1
    rw [List.length_append] at hlength
    simp only [roundRank, hpc]
    omega

/-- The round under way comes to its end. -/
theorem Going.round_ends (hgoing : Going stream p) (hcounted : Counted p) (plugin : PluginPtr) :
    ∃ ms p', (∀ m ∈ ms, goesOn m = true) ∧ ms.length ≤ roundRank p ∧
      (PollRounds.spec κ plugin).run p ms = some p' ∧ Going stream p' ∧ Counted p' ∧
      p'.pc = .idle ∧ p'.data.streams = p.data.streams ∧ (Emptied p → Emptied p') := by
  have hrule : ∀ q, (Going stream q ∧ Counted q ∧ q.data.streams = p.data.streams ∧
      (Emptied p → Emptied q)) → q.pc ≠ .idle →
      ∃ m q', goesOn m = true ∧ (PollRounds.spec κ plugin).step q m = some q' ∧
        (Going stream q' ∧ Counted q' ∧ q'.data.streams = p.data.streams ∧
          (Emptied p → Emptied q')) ∧ roundRank q' < roundRank q := by
    rintro q ⟨hgoing', hcounted', hstreams, hemptied⟩ hbusy
    obtain ⟨m, q', hm, hstep, hstreams', hemptied', hlt⟩ := hgoing'.isOpen.round_step hbusy
    exact ⟨m, q', hm, hstep, ⟨hgoing'.goOn hm hstep, hcounted'.step hgoing'.isOpen hstep,
      hstreams'.trans hstreams, fun h => hemptied' (hemptied h)⟩, hlt⟩
  obtain ⟨ms, p', hms, hlength, hrun, ⟨hgoing', hcounted', hstreams, hemptied⟩, hidle⟩ :=
    ActionSystem.Spec.exists_run_to (fun q => q.pc = .idle)
      (fun m => goesOn m = true) roundRank hrule ⟨hgoing, hcounted, rfl, id⟩
  exact ⟨ms, p', hms, hlength, hrun, hgoing', hcounted', hidle, hstreams, hemptied⟩

/-- Two rounds with nobody in between leave nothing on the way: the one under way, and a whole
one. -/
theorem Going.flushes (hgoing : Going stream p) (hcounted : Counted p) (plugin : PluginPtr) :
    ∃ ms p', (∀ m ∈ ms, goesOn m = true) ∧
      ms.length ≤ 2 * (p.data.streams.toList.length + 131) + 1 ∧
      (PollRounds.spec κ plugin).run p ms = some p' ∧ Open stream p' ∧
      p'.pc = .idle ∧ p'.data.mPluginToClientsData = [] ∧ ∀ source, p'.queue source = [] := by
  obtain ⟨ms, p₁, hms, hlength, hrun, hgoing₁, hcounted₁, hidle, hstreams, -⟩ :=
    hgoing.round_ends hcounted plugin
  have hbegin : PollRounds.step p₁ (.callback true true) =
      some { p₁ with pc := .consumeProcess 0, round := p₁.round + 1 } := by
    simp [PollRounds.step, hidle, hgoing₁.isOpen.endsPoll, hgoing₁.pollStop]
  have hgoing₂ := hgoing₁.goOn (m := .callback true true) rfl hbegin
  have hcounted₂ := hcounted₁.step hgoing₁.isOpen hbegin
  obtain ⟨ms', p', hms', hlength', hrun', hgoing', hcounted', hidle', -, hemptied⟩ :=
    hgoing₂.round_ends hcounted₂ plugin
  refine ⟨ms ++ .callback true true :: ms', p', ?_, ?_, ?_, hgoing'.isOpen, hidle', ?_, ?_⟩
  · intro m hm
    rcases List.mem_append.mp hm with hm | hm
    · exact hms m hm
    · rcases List.mem_cons.mp hm with rfl | hm
      · rfl
      · exact hms' m hm
  · have hfirst := hgoing.isOpen.roundRank_le
    have hsecond := hgoing₂.isOpen.roundRank_le
    dsimp only at hsecond
    rw [hstreams] at hsecond
    rw [List.length_append, List.length_cons]
    omega
  · rw [(PollRounds.spec κ plugin).run_append, hrun]
    have hbegin : (PollRounds.spec κ plugin).step p₁ (.callback true true) = _ := hbegin
    exact ((PollRounds.spec κ plugin).run_cons_of_step hbegin ms').trans hrun'
  · simp only [Counted, hidle'] at hcounted'
    exact hcounted'
  · have hempty := hemptied trivial
    simp only [Emptied, hidle'] at hempty
    exact hempty

end Rounds

/-! ## The system -/

section System

variable {κ : Type} [LinearOrder κ] {plugin : PluginPtr} {cq : CqHandle} {params : KeyedStore}
  {stream : κ} {ls : List (Lbl κ)} {s : Sys κ}

theorem counted_of_run
    (hrun : (spec plugin cq params stream).run (start plugin cq params stream) ls = some s) :
    Counted s.poll := by
  refine ((spec plugin cq params stream).run_invariant
    (fun s => Wired stream s ∧ Counted s.poll) ?_
    ⟨(start_inv plugin cq params stream).wired, rfl⟩ hrun).2
  rintro s l s' ⟨hwired, hcounted⟩ hstep
  refine ⟨(hwired.step hstep).1, ?_⟩
  rcases poll_moves hstep with ⟨hpoll, -⟩ | ⟨m, hm, -⟩
  · rw [hpoll]
    exact hcounted
  · exact hcounted.step hwired.isOpen hm

/-- Polling goes on: no stop is requested, and no alarm of a callback is cancelled. -/
def pollsOn : Lbl κ → Bool
  | .poll .stopPoll => false
  | .poll (.callback ok _) => ok
  | _ => true

/-- Nothing but `stopPoll` requests a stop. -/
theorem step_pollStop {p p' : PollRounds.Sys κ} {m : PollRounds.Lbl κ}
    (hstep : PollRounds.step p m = some p') (hm : m ≠ .stopPoll) :
    p'.data.pollStop = p.data.pollStop := by
  cases PollRounds.step_moves hstep with
  | @ended ok captured => cases captured <;> rfl
  | @tryStartPolling cq =>
    rcases p.data.tryStartPolling_cases cq with heq | ⟨h, -, -, -, heq⟩
    · simp only [heq]
    · simp only [heq]
  | stopPoll => exact absurd rfl hm
  | _ => rfl

theorem pollStop_of_run (hon : ∀ l ∈ ls, pollsOn l = true)
    (hrun : (spec plugin cq params stream).run (start plugin cq params stream) ls = some s) :
    s.poll.data.pollStop = false := by
  have hall : (spec plugin cq params stream).AllSteps (fun _ l _ => pollsOn l = true)
      (start plugin cq params stream) ls := by
    apply (spec plugin cq params stream).allSteps_of_steps
    intro ps l t t' hps _ _
    exact hon l (hps.subset (by simp))
  refine (spec plugin cq params stream).allSteps_invariant (fun s => s.poll.data.pollStop = false)
    ?_ rfl hall hrun
  intro s l s' hstop hl hstep
  rcases poll_moves hstep with ⟨hpoll, -⟩ | ⟨m, hm, -, -, hfrom⟩
  · rw [hpoll]
    exact hstop
  · refine (step_pollStop hm ?_).trans hstop
    rintro rfl
    rcases hfrom with hpush | rfl
    · cases hpush
    · cases hl

/-- Steps of the poll loop alone. -/
theorem poll_run {ms : List (PollRounds.Lbl κ)} {p : PollRounds.Sys κ}
    (halive : s.terminated = false) (hgoing : Going stream s.poll)
    (hms : ∀ m ∈ ms, goesOn m = true)
    (hrun : (PollRounds.spec κ plugin).run s.poll ms = some p) :
    (spec plugin cq params stream).run s (ms.map .poll) = some { s with poll := p } := by
  induction ms generalizing s with
  | nil =>
    cases hrun
    rfl
  | cons m ms ih =>
    rcases (PollRounds.spec κ plugin).run_cons hrun with ⟨p', hm, hrest⟩
    have hgoing' := hgoing.goOn (hms m List.mem_cons_self) hm
    have hpush : isPush m = false := by
      have hon := hms m List.mem_cons_self
      cases m with
      | pushProcess ev | pushMain ev => cases hon
      | _ => rfl
    have hwrite : inWrite stream p' = true :=
      inWrite_iff.mpr ⟨hgoing'.isOpen.mem, hgoing'.isOpen.isOpen⟩
    have hstep : (spec plugin cq params stream).step s (.poll m) = some { s with poll := p' } := by
      have hm : PollRounds.step s.poll m = some p' := hm
      simp [spec, step, halive, hpush, hm, hwrite]
    refine ((spec plugin cq params stream).run_cons_of_step hstep _).trans ?_
    exact @ih { s with poll := p' } halive hgoing'
      (fun m hm => hms m (List.mem_cons_of_mem _ hm)) hrest

/-- Where the poll loop goes on nothing is pushed, and nothing thrown away. -/
theorem keepsQueue_polls (source : PollRounds.Source) {ms : List (PollRounds.Lbl κ)}
    (hgoing : Going stream s.poll) (hms : ∀ m ∈ ms, goesOn m = true) :
    (spec plugin cq params stream).AllSteps (fun s l _ => KeepsQueue source s l) s
      (ms.map .poll) := by
  induction ms generalizing s with
  | nil => trivial
  | cons m ms ih =>
    intro s' hs'
    rcases poll_step hs' with ⟨-, p', hm, -, rfl⟩
    have hon := hms m List.mem_cons_self
    refine ⟨⟨?_, ?_⟩, ih (hgoing.goOn hon hm) fun m hm => hms m (List.mem_cons_of_mem _ hm)⟩
    · intro hpushed
      cases source <;> exact absurd rfl hpushed
    · intro hdrains
      cases m with
      | callback ok captured =>
        obtain rfl : ok = true := hon
        cases (hgoing.isOpen.endsPoll.trans hgoing.pollStop).symm.trans hdrains.1
      | endElsewhere => cases hon
      | _ => cases hdrains

/-- From any state of a run in which polling goes on and the program is not terminated, the
poll loop alone comes, in a bounded number of steps, to one where nothing is on the way and the
stream has been handed exactly what the host sent by a queue, in its order, if every push
towards this queue found room and no `endCallback` an event in it, and only then. -/
theorem host_events_arrive
    (hrun : (spec plugin cq params stream).run (start plugin cq params stream) ls = some s)
    (hon : ∀ l ∈ ls, pollsOn l = true) (halive : s.terminated = false) :
    ∃ (ms : List (PollRounds.Lbl κ)) (t : Sys κ),
      ms.length ≤ 2 * (s.poll.data.streams.toList.length + 131) + 1 ∧
      (spec plugin cq params stream).run s (ms.map .poll) = some t ∧
      t.poll.pc = .idle ∧ t.poll.data.mPluginToClientsData = [] ∧
      (∀ source, t.poll.queue source = []) ∧
      ∃ processed got, ls.flatMap Lbl.given = processed ++ t.todo.getD [] ∧
        (t.poll.handed stream).flatten = got.map (fun e => e.ev.toServerEvent) ∧
        ∀ source, ofSource source got = sentTo params.toParamStore processed ls source ↔
          (spec plugin cq params stream).AllSteps (fun s l _ => KeepsQueue source s l)
            (start plugin cq params stream) ls := by
  have hgoing : Going stream s.poll := ⟨(wired_of_run hrun).isOpen, pollStop_of_run hon hrun⟩
  obtain ⟨ms, p, hms, hlength, hpolls, hopen, hidle, hdata, hqueues⟩ :=
    hgoing.flushes (counted_of_run hrun) plugin
  have hpolls' := @poll_run κ _ plugin cq params stream s ms p halive hgoing hms hpolls
  have hrun' : (spec plugin cq params stream).run (start plugin cq params stream)
      (ls ++ ms.map .poll) = some { s with poll := p } := by
    rw [(spec plugin cq params stream).run_append, hrun]
    exact hpolls'
  -- the host has sent what it had sent before
  have hgiven : (ms.map Lbl.poll).flatMap Lbl.given = [] := by
    simp [List.flatMap_map, Lbl.given]
  have hmain : (ms.map Lbl.poll).flatMap Lbl.mainPushes = [] := by
    simp [List.flatMap_map, Lbl.mainPushes]
  obtain ⟨processed, hprocessed, houtputs⟩ := outputs_of_run hrun'
  rw [List.flatMap_append, hgiven, List.append_nil] at hprocessed
  obtain ⟨got, -, hhanded, hall⟩ := hopen.handed
  refine ⟨ms, { s with poll := p }, hlength, hpolls', hidle, hdata, hqueues, processed, got,
    hprocessed, hhanded, ?_⟩
  intro source
  have hsent : sentTo params.toParamStore processed (ls ++ ms.map .poll) source =
      sentTo params.toParamStore processed ls source := by
    cases source with
    | process => rfl
    | main => simp only [sentTo, List.flatMap_append, hmain, List.append_nil]
  rw [hall hidle hdata, ← hsent, ← houtputs source]
  refine (popped_eq_iff hrun' (hqueues source)).trans ?_
  refine (spec plugin cq params stream).allSteps_append.trans ?_
  refine and_iff_left ?_
  intro t ht
  cases hrun.symm.trans ht
  exact keepsQueue_polls source hgoing hms

/-- Of a block with a note and a value only the note has been processed. -/
theorem host_events_arrive_note : ∃ s,
    (spec 1 0 (oneParam 5) 7).run (start 1 0 (oneParam 5) 7) (noteAndValue.take 4) = some s ∧
      ∃ (ms : List (PollRounds.Lbl Nat)) (t : Sys Nat), ms.length ≤ 265 ∧
        (spec 1 0 (oneParam 5) 7).run s (ms.map .poll) = some t ∧
        (∀ source, t.poll.queue source = []) ∧
        ∃ got : List Popped,
          (t.poll.handed 7).flatten = got.map (fun e => e.ev.toServerEvent) := by
  have hval : ((spec 1 0 (oneParam 5) 7).run (start 1 0 (oneParam 5) 7)
      (noteAndValue.take 4)).map
      (fun s => (s.terminated, s.poll.data.streams.toList.length)) = some (false, 1) := by decide
  rcases Option.map_eq_some_iff.mp hval with ⟨s, hrun, hs⟩
  rw [Prod.mk.injEq] at hs
  rcases host_events_arrive hrun (by decide) hs.1 with
    ⟨ms, t, hlength, hpolls, -, -, hqueues, -, got, -, hgot, -⟩
  rw [hs.2] at hlength
  exact ⟨s, hrun, ms, t, hlength, hpolls, hqueues, got, hgot⟩

end System

end ClapRci.ClientView
