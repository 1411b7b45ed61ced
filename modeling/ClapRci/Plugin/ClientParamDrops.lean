import ClapRci.Core.StampClock
import ClapRci.Plugin.ClientParams

/-!
# Which client updates are dropped (`server/shareddata.cpp`)

`pushClientParam` says that it discards updates that are older than an accepted one.
`setIfNewer` asks for a later stamp, so that an update with the stamp of the last accepted
one, or with the stamp `(0, 0)` the plugin starts with, is discarded too: all updates of a
sequence of batches enter the queue exactly when their stamps strictly increase from above
`(0, 0)` on (`noneDropped_iff`).

Clients stamp their updates with `Timestamp::stamp`: of these, the ones that enter are those
read from a clock that is ahead of all readings before (`entered_by_clock`).
-/

namespace ClapRci.ClientParams

open RunningMax

/-- Whatever the two threads do while they handle these batches, every update that
`pushClientParam` has looked at has entered the queue, in order, or is the one about to; it
has entered after a turn of the consumer and a push attempt; and when the last batch is
through, all have. -/
structure NoneDropped (batches : List Api.ClientParams) : Prop where
  kept : ∀ s, spec.Reachable s → s.batches = batches → s.entered ++ s.producer.pushing = s.received
  enters : ∀ s, spec.Reachable s → s.batches = batches → ∀ ls ok ms ns t,
    spec.run s (ls ++ .turn ok :: (ms ++ .tryPush :: ns)) = some t → s.received <+: t.entered
  complete : ∀ s, spec.Reachable s → s.batches = batches → s.producer = .idle →
    s.entered = batches.flatten

/-! ## A run through all batches -/

/-- A thread in `processGuiEvents` can take a turn. -/
theorem turn_enabled {s : Sys} (hprocessing : s.processing = true) (ok : Bool) :
    ∃ t, spec.step s (.turn ok) = some t := by
  show ∃ t, step s (.turn ok) = some t
  unfold step
  rw [hprocessing]
  rcases s.data.mClientsToPluginQueue.pop with ⟨clientEv, queue⟩
  cases clientEv with
  | none => exact ⟨_, rfl⟩
  | some clientEv =>
    rcases hev : processGuiEvent s.params clientEv with ⟨params, out⟩
    cases out with
    | none => simp [hev]
    | some out => simp [hev]

/-- A turn makes room and leaves the other side where it is. -/
theorem turn_makes_room {s t : Sys} {ok : Bool} (hstep : spec.step s (.turn ok) = some t) :
    t.producer = s.producer ∧ t.batches = s.batches ∧ t.queue.length < 64 := by
  change step s (.turn ok) = some t at hstep
  cases step_moves hstep with
  | empty ok hqueue =>
    refine ⟨rfl, rfl, ?_⟩
    show s.queue.length < 64
    rw [hqueue]
    decide
  | popped ok clientEv queue hqueue =>
    refine ⟨rfl, rfl, ?_⟩
    have hbound := s.data.mClientsToPluginQueue.bounded
    rw [← Sys.queue, hqueue, List.length_cons] at hbound
    show queue.elems.length < 64
    omega

/-- The consumer can make room for the next push. -/
theorem exists_room (s : Sys) :
    ∃ ls t, spec.run s ls = some t ∧
      t.producer = s.producer ∧ t.batches = s.batches ∧ t.queue.length < 64 := by
  cases hprocessing : s.processing with
  | true =>
    rcases turn_enabled hprocessing true with ⟨t, hstep⟩
    exact ⟨[.turn true], t, spec.run_cons_of_step hstep [], turn_makes_room hstep⟩
  | false =>
    -- the audio thread has to call `processGuiEvents` first
    have hbegin : spec.step s .processGuiEvents = some { s with processing := true } := by
      simp [spec, step, hprocessing]
    obtain ⟨t, hstep⟩ := turn_enabled (s := { s with processing := true }) rfl true
    have hroom := turn_makes_room hstep
    refine ⟨[.processGuiEvents, .turn true], t, ?_, hroom⟩
    rw [spec.run_cons_of_step hbegin, spec.run_cons_of_step hstep, ActionSystem.Spec.run_nil]

/-- The update that waits can be pushed. -/
theorem exists_pushed {s : Sys} {p : Api.ClientParam} {todo : Api.ClientParams}
    (hpush : s.producer = .push p todo) :
    ∃ ls t, spec.run s ls = some t ∧ t.producer = .loop todo ∧ t.batches = s.batches := by
  rcases exists_room s with ⟨ls, u, hrun, hproducer, hbatches, hroom⟩
  have hpush' : u.producer = .push p todo := hproducer.trans hpush
  have hroom' : u.data.mClientsToPluginQueue.elems.length < 64 := hroom
  obtain ⟨t, hstep, hloop, hsame⟩ : ∃ t, spec.step u .tryPush = some t ∧
      t.producer = .loop todo ∧ t.batches = u.batches := by
    simp [spec, step, hpush', pushClientParamTry, BoundedFifo.push, hroom']
  refine ⟨ls ++ [.tryPush], t, ?_, hloop, hsame.trans hbatches⟩
  rw [spec.run_append, hrun]
  exact spec.run_cons_of_step hstep []

/-- The loop can get through the updates of its batch. -/
theorem exists_looped (todo : Api.ClientParams) {s : Sys} (hloop : s.producer = .loop todo) :
    ∃ ls t, spec.run s ls = some t ∧ t.producer = .idle ∧ t.batches = s.batches := by
  induction todo generalizing s with
  | nil =>
    refine ⟨[.next], { s with producer := .idle }, ?_, rfl, rfl⟩
    exact spec.run_cons_of_step (by simp [spec, step, hloop]) []
  | cons p todo ih =>
    -- an update that is not newer is dropped at once, and the loop goes on
    by_cases hstamp : s.data.mLastClientStamp < ⟨p.timestamp.seconds, p.timestamp.nanos⟩
    · obtain ⟨u, hstep, hpush, hbatches⟩ : ∃ u, spec.step s .next = some u ∧
          u.producer = .push p todo ∧ u.batches = s.batches := by
        simp [spec, step, hloop, pushClientParamFilter, Stamp.setIfNewer_eq, hstamp]
      rcases exists_pushed hpush with ⟨ls, v, hrun, hloop', hbatches'⟩
      rcases ih hloop' with ⟨ms, t, hrun', hidle, hbatches''⟩
      refine ⟨.next :: (ls ++ ms), t, ?_, hidle, by rw [hbatches'', hbatches', hbatches]⟩
      rw [spec.run_cons_of_step hstep, spec.run_append, hrun]
      exact hrun'
    · obtain ⟨u, hstep, hloop', hbatches⟩ : ∃ u, spec.step s .next = some u ∧
          u.producer = .loop todo ∧ u.batches = s.batches := by
        simp [spec, step, hloop, pushClientParamFilter, Stamp.setIfNewer_eq, hstamp]
      rcases ih hloop' with ⟨ls, t, hrun, hidle, hbatches'⟩
      refine ⟨.next :: ls, t, ?_, hidle, hbatches'.trans hbatches⟩
      rw [spec.run_cons_of_step hstep]
      exact hrun

/-- Any sequence of batches can be handled to the end. -/
theorem exists_handled (params : ParamStore) (batches : List Api.ClientParams) :
    ∃ ls t, spec.run (start params) ls = some t ∧ t.producer = .idle ∧ t.batches = batches := by
  induction batches using List.reverseRecOn with
  | nil => exact ⟨[], start params, rfl, rfl, rfl⟩
  | append_singleton batches ev ih =>
    rcases ih with ⟨ls, s, hrun, hidle, rfl⟩
    obtain ⟨u, hstep, hloop, hbatches⟩ : ∃ u, spec.step s (.pushClientParam ev) = some u ∧
        u.producer = .loop ev ∧ u.batches = s.batches ++ [ev] := by
      simp [spec, step, hidle]
    rcases exists_looped ev hloop with ⟨ms, t, hrun', hidle', hbatches'⟩
    refine ⟨ls ++ .pushClientParam ev :: ms, t, ?_, hidle', hbatches'.trans hbatches⟩
    rw [spec.run_append, hrun]
    exact (spec.run_cons_of_step hstep ms).trans hrun'

/-! ## Every sequence of batches -/

/-- What has been received once the batches are through. -/
theorem Inv.received_eq {s : Sys} (h : Inv s) (hidle : s.producer = .idle) :
    s.received = s.batches.flatten := by
  have hreceived := h.received
  rwa [hidle, Producer.todo, List.append_nil] at hreceived

/-- If nothing is dropped the stamps strictly increase: a run that handles all batches has
let exactly the strict running maxima enter. -/
theorem NoneDropped.increasing {batches : List Api.ClientParams} (h : NoneDropped batches) :
    (({} : Stamp) :: batches.flatten.map stampOf).Pairwise (· < ·) := by
  rw [← runningMaxima_eq_self_iff]
  rcases exists_handled .empty batches with ⟨ls, s, hrun, hidle, hbatches⟩
  have hreach : spec.Reachable s := ⟨_, ls, ⟨_, rfl⟩, hrun⟩
  have hinv := reachable_inv hreach
  have hkept := h.kept s hreach hbatches
  rw [hinv.accepted, hinv.received_eq hidle, hbatches] at hkept
  exact hkept

/-- While strictly increasing stamps are handled, all that was received are running maxima. -/
theorem newest_of_increasing {batches : List Api.ClientParams}
    (h : (({} : Stamp) :: batches.flatten.map stampOf).Pairwise (· < ·)) {s : Sys}
    (hinv : Inv s) (hbatches : s.batches = batches) : newest s.received = s.received := by
  have hbegins : s.received <+: batches.flatten := by
    rw [← hbatches, ← hinv.received]
    exact List.prefix_append _ _
  rw [newest, runningMaxima_eq_self_iff]
  exact h.sublist ((hbegins.sublist.map stampOf).cons_cons _)

/-- No update is dropped exactly when the stamps strictly increase, from above `(0, 0)` on. -/
theorem noneDropped_iff (batches : List Api.ClientParams) :
    NoneDropped batches ↔ (({} : Stamp) :: batches.flatten.map stampOf).Pairwise (· < ·) := by
  constructor
  · intro h
    exact h.increasing
  · intro h
    -- what has entered, with the update under way, are the running maxima of what was received
    constructor
    · intro s hreach hbatches
      have hinv := reachable_inv hreach
      rw [hinv.accepted]
      exact newest_of_increasing h hinv hbatches
    · intro s hreach hbatches ls ok ms ns t hrun
      have hinv := reachable_inv hreach
      rcases turn_tryPush_enter hinv hrun with ⟨u, hrest, -, hlen⟩
      have hentered := (run_later hrest).entered.length_le
      have hmaxima := run_maxima hinv hrun
      rw [newest_of_increasing h hinv hbatches] at hmaxima hlen
      exact List.prefix_of_prefix_length_le hmaxima (List.prefix_append _ _) (by omega)
    · intro s hreach hbatches hidle
      have hinv := reachable_inv hreach
      have haccepted := hinv.accepted
      rw [hidle, Producer.pushing, List.append_nil] at haccepted
      rw [haccepted, newest_of_increasing h hinv hbatches, hinv.received_eq hidle, hbatches]

/-- Two updates with one stamp, as one reading of a clock gives them. -/
def sameReading : Api.ClientParams :=
  [{ event := .param, param := { param_id := 1 }, timestamp := { seconds := 1 } },
   { event := .param, param := { param_id := 2 }, timestamp := { seconds := 1 } }]

/-- Stamps that do not decrease, and are not older than `(0, 0)`, are not enough: the second
of the two updates is dropped. -/
theorem noneDropped_fails : ¬ ∀ batches : List Api.ClientParams,
    (({} : Stamp) :: batches.flatten.map stampOf).Pairwise (· ≤ ·) → NoneDropped batches := by
  intro h
  have hle : (({} : Stamp) :: [sameReading].flatten.map stampOf).Pairwise (· ≤ ·) := by
    decide
  have hlt := (h [sameReading] hle).increasing
  revert hlt
  decide

/-! ## Stamps of a clock -/

/-- Each update has the stamp of a reading of some clock. -/
def StampedBy (clock : Api.ClientParam → Int64) (ps : List Api.ClientParam) : Prop :=
  ∀ p ∈ ps, stampOf p = Timestamp.stamp (clock p)

theorem newest_of_stampedBy {clock : Api.ClientParam → Int64} {ps : List Api.ClientParam}
    (h : StampedBy clock ps) : newest ps = runningMaxima clock 0 ps := by
  rw [newest, ← Timestamp.stamp_zero]
  exact runningMaxima_of_strictMono Timestamp.stamp_strictMono h

/-- Whatever clocks the clients read, the updates that enter are those whose reading is ahead
of 1970 and of all readings before: while a clock that was set back, or that of another client,
is behind, its updates are dropped. None is dropped exactly if the readings go up. -/
theorem entered_by_clock {s : Sys} (h : spec.Reachable s) (clock : Api.ClientParam → Int64)
    (hclock : StampedBy clock s.received) :
    s.entered ++ s.producer.pushing = runningMaxima clock 0 s.received ∧
      (s.entered ++ s.producer.pushing = s.received ↔
        (0 :: s.received.map clock).Pairwise (· < ·)) ∧
      s.data.mLastClientStamp = Timestamp.stamp (highest clock 0 s.received) := by
  have hinv := reachable_inv h
  have haccepted : s.entered ++ s.producer.pushing = runningMaxima clock 0 s.received := by
    rw [hinv.accepted, newest_of_stampedBy hclock]
  refine ⟨haccepted, ?_, ?_⟩
  · rw [haccepted]
    exact runningMaxima_eq_self_iff s.received
  · rw [hinv.stamp, ← Timestamp.stamp_zero]
    exact highest_of_strictMono Timestamp.stamp_strictMono hclock

/-- Two updates, the second one read from a clock that is a second behind. -/
def setBack : Api.ClientParams :=
  [{ event := .param, param := { param_id := 1 }, timestamp := { seconds := 2, nanos := 5 } },
   { event := .param, param := { param_id := 2 }, timestamp := { seconds := 1, nanos := 9 } }]

/-- Only the first one enters. -/
theorem entered_by_clock_setBack : ∃ s, spec.Reachable s ∧ s.received.length = 2 ∧
    s.data.mLastClientStamp = Timestamp.stamp 2000000005 := by
  have hrun : (spec.run (start .empty) [.pushClientParam setBack, .next, .tryPush, .next]).map
      Sys.received = some setBack := rfl
  obtain ⟨s, hrun, hreceived⟩ := Option.map_eq_some_iff.mp hrun
  have hreach : spec.Reachable s := ⟨_, _, ⟨_, rfl⟩, hrun⟩
  -- the clock, by the parameter that each of the two updates changes
  let clock : Api.ClientParam → Int64 :=
    fun p => if p.param.param_id = 1 then 2000000005 else 1000000009
  have hclock : StampedBy clock s.received := by
    rw [hreceived]
    intro p hp
    rcases List.mem_pair.mp hp with rfl | rfl
    · decide
    · decide
  have hlast := (entered_by_clock hreach clock hclock).2.2
  rw [hreceived] at hlast
  exact ⟨s, hreach, by rw [hreceived]; rfl, hlast⟩

end ClapRci.ClientParams
