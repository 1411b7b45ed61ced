import Mathlib.Data.List.Basic
import Mathlib.Tactic.Common
import ClapRci.Lib.Progress
import ClapRci.Core.BlkRingQueueFifo

/-!
# Two threads that run to their end

The producer and the consumer of a `BlkRingQueue`, each with a finite list of calls to
make. Every schedule of their steps ends, and ends with a thread blocked only if the
other one has made all its calls: never in a deadlock.

* `stuck_of_run`: what the end of a run looks like, for any two lists of calls;
* `transfer_of_run`: with waiting calls only, and enough of them, every item arrives.
-/

namespace ClapRci.BlkRingQueue

variable {T : Type}

/-- The two threads, with the calls each of them has still to make. -/
structure Threads (T : Type) where
  sys : Sys T
  enqs : List (EnqOp × T)
  deqs : List DeqOp
deriving DecidableEq

/-- A thread begins its next call, or one of them takes a step of the call it is in. -/
inductive ThreadLbl (T : Type) where
  | beginEnqueue
  | beginDequeue
  | next (l : Lbl T)

/-- One step of one thread. -/
def threadStep (t : Threads T) : ThreadLbl T → Option (Threads T)
  | .beginEnqueue =>
    match t.enqs with
    | [] => none
    | (op, item) :: enqs =>
      (step t.sys (.callEnqueue op item)).map fun s => { t with sys := s, enqs := enqs }
  | .beginDequeue =>
    match t.deqs with
    | [] => none
    | op :: deqs => (step t.sys (.callDequeue op)).map fun s => { t with sys := s, deqs := deqs }
  | .next l =>
    match l with
    -- the calls are those of the two lists
    | .callEnqueue _ _ | .callDequeue _ => none
    | l => (step t.sys l).map fun s => { t with sys := s }

/-- A queue and two threads before their first call. -/
def start (cap : BitVec 64) (enqs : List (EnqOp × T)) (deqs : List DeqOp) : Threads T :=
  ⟨init T cap, enqs, deqs⟩

/-- The queue of capacity `cap`, with these calls to make. -/
def threads (cap : BitVec 64) (enqs : List (EnqOp × T)) (deqs : List DeqOp) :
    ActionSystem.Spec (Threads T) (ThreadLbl T) where
  Init t := t = start cap enqs deqs
  step := threadStep

/-- The producer has made all its calls. -/
def Threads.ProducerDone (t : Threads T) : Prop := t.sys.prod = .idle ∧ t.enqs = []

/-- The consumer has made all its calls. -/
def Threads.ConsumerDone (t : Threads T) : Prop := t.sys.cons = .idle ∧ t.deqs = []

/-! ## What a step can do -/

/-- The steps, case by case. -/
inductive ThreadMoves (t : Threads T) : ThreadLbl T → Threads T → Prop where
  | beginEnqueue {op item enqs s} (henqs : t.enqs = (op, item) :: enqs)
    (hstep : step t.sys (.callEnqueue op item) = some s) :
    ThreadMoves t .beginEnqueue ⟨s, enqs, t.deqs⟩
  | beginDequeue {op deqs s} (hdeqs : t.deqs = op :: deqs)
    (hstep : step t.sys (.callDequeue op) = some s) :
    ThreadMoves t .beginDequeue ⟨s, t.enqs, deqs⟩
  | next {l s} (henq : ∀ op item, l ≠ .callEnqueue op item) (hdeq : ∀ op, l ≠ .callDequeue op)
    (hstep : step t.sys l = some s) : ThreadMoves t (.next l) ⟨s, t.enqs, t.deqs⟩

theorem threadStep_moves {t t' : Threads T} {l : ThreadLbl T} (h : threadStep t l = some t') :
    ThreadMoves t l t' := by
  cases l with
  | beginEnqueue =>
    simp only [threadStep] at h
    split at h
    · cases h
    · rename_i henqs
      rcases Option.map_eq_some_iff.mp h with ⟨s, hstep, rfl⟩
      exact .beginEnqueue henqs hstep
  | beginDequeue =>
    simp only [threadStep] at h
    split at h
    · cases h
    · rename_i hdeqs
      rcases Option.map_eq_some_iff.mp h with ⟨s, hstep, rfl⟩
      exact .beginDequeue hdeqs hstep
  | next l =>
    simp only [threadStep] at h
    split at h
    · cases h
    · cases h
    · rename_i henq hdeq
      rcases Option.map_eq_some_iff.mp h with ⟨s, hstep, rfl⟩
      exact .next henq hdeq hstep

/-- A step of a thread is a step of the queue. -/
theorem threadStep_sys {t t' : Threads T} {l : ThreadLbl T} (h : threadStep t l = some t') :
    ∃ l', step t.sys l' = some t'.sys := by
  cases threadStep_moves h with
  | beginEnqueue _ hstep => exact ⟨_, hstep⟩
  | beginDequeue _ hstep => exact ⟨_, hstep⟩
  | next _ _ hstep => exact ⟨_, hstep⟩

theorem threads_run_inv {cap : BitVec 64} (h1 : 1 ≤ cap.toNat) (h2 : cap.toNat ≤ 2 ^ 63 - 1)
    {enqs : List (EnqOp × T)} {deqs : List DeqOp} {ls : List (ThreadLbl T)} {t : Threads T}
    (hrun : (threads cap enqs deqs).run (start cap enqs deqs) ls = some t) :
    Inv cap.toNat (log cap) t.sys := by
  refine (threads cap enqs deqs).run_invariant (fun t => Inv cap.toNat (log cap) t.sys) ?_
    (init_inv h1 h2) hrun
  intro t l t' hinv hstep
  rcases threadStep_sys hstep with ⟨l', hl'⟩
  exact step_inv t.sys l' t'.sys hinv hl'

/-! ## Every run ends -/

/-- The steps the producer has still to take in its call. -/
def ProdPc.left : ProdPc T → Nat
  | .idle => 0
  | .release _ => 1
  | .count _ => 2
  | .write _ => 3
  | .acquire _ _ => 4

/-- The steps the consumer has still to take in its call. -/
def ConsPc.left : ConsPc → Nat
  | .idle => 0
  | .release => 1
  | .count => 2
  | .destroy _ => 3
  | .take _ => 4
  | .acquire _ => 5

/-- At most the steps still to come. -/
def Threads.left (t : Threads T) : Nat :=
  t.sys.prod.left + 5 * t.enqs.length + (t.sys.cons.left + 6 * t.deqs.length)

theorem left_lt {t t' : Threads T} {l : ThreadLbl T} (h : threadStep t l = some t') :
    t'.left < t.left := by
  rcases t with ⟨s, enqs, deqs⟩
  cases threadStep_moves h with
  | beginEnqueue henqs hstep =>
    obtain rfl := henqs
    cases step_moves hstep
    simp only [Threads.left, ProdPc.left, List.length_cons]
    omega
  | beginDequeue hdeqs hstep =>
    obtain rfl := hdeqs
    cases step_moves hstep
    simp only [Threads.left, ConsPc.left, List.length_cons]
    omega
  | next henq hdeq hstep =>
    cases step_moves hstep with
    | callEnqueue => exact absurd rfl (henq _ _)
    | callDequeue => exact absurd rfl (hdeq _)
    | _ =>
      simp only [Threads.left, ProdPc.left, ConsPc.left]
      omega

/-- Each step leaves fewer steps to come. -/
def ranking (cap : BitVec 64) (enqs : List (EnqOp × T)) (deqs : List DeqOp) :
    (threads cap enqs deqs).Ranking fun _ => True where
  rank := Threads.left
  keeps _ _ _ _ _ := trivial
  decreases _ _ _ _ hstep := left_lt hstep

/-! ## The end of a run -/

section Stuck

variable {cap : BitVec 64} {enqs : List (EnqOp × T)} {deqs : List DeqOp} {t : Threads T}

/-- A producer that cannot move has made its calls, or waits for a slot. -/
theorem producer_stuck (hstuck : (threads cap enqs deqs).Stuck t) (hdata : t.sys.q.data ≠ []) :
    t.ProducerDone ∨ (∃ item, t.sys.prod = .acquire .waitEnqueue item) ∧ t.sys.q.slots = 0 := by
  have hbegin : threadStep t .beginEnqueue = none := hstuck .beginEnqueue
  have hnext : ∀ l, threadStep t (.next l) = none := fun l => hstuck (.next l)
  cases hprod : t.sys.prod with
  | idle =>
    refine Or.inl ⟨hprod, ?_⟩
    cases henqs : t.enqs with
    | nil => rfl
    | cons e es => simp [threadStep, henqs, step, hprod] at hbegin
  | acquire op item =>
    have hacquire := hnext .acquireSlot
    simp only [threadStep, step, hprod, Option.map_eq_none_iff, ite_eq_right_iff,
      reduceCtorEq, imp_false] at hacquire
    -- only `waitEnqueue` has no way to give up
    have hfail := hnext .failEnqueue
    cases op with
    | waitEnqueue => exact Or.inr ⟨⟨item, rfl⟩, by omega⟩
    | tryEnqueue => simp [threadStep, step, hprod] at hfail
    | waitEnqueueTimed => simp [threadStep, step, hprod] at hfail
  | write item =>
    have hwrite := hnext .writeSlot
    simp [threadStep, step, hprod, writeSlot, access_of_data hdata] at hwrite
  | count item => simpa [threadStep, step, hprod] using hnext .countUp
  | release item => simpa [threadStep, step, hprod] using hnext .releaseItem

/-- A consumer that cannot move has made its calls, or waits for an item. -/
theorem consumer_stuck (hstuck : (threads cap enqs deqs).Stuck t) (hdata : t.sys.q.data ≠ []) :
    t.ConsumerDone ∨ t.sys.cons = .acquire .waitDequeue ∧ t.sys.q.items = 0 := by
  have hbegin : threadStep t .beginDequeue = none := hstuck .beginDequeue
  have hnext : ∀ l, threadStep t (.next l) = none := fun l => hstuck (.next l)
  cases hcons : t.sys.cons with
  | idle =>
    refine Or.inl ⟨hcons, ?_⟩
    cases hdeqs : t.deqs with
    | nil => rfl
    | cons d ds => simp [threadStep, hdeqs, step, hcons] at hbegin
  | acquire op =>
    have hacquire := hnext .acquireItem
    simp only [threadStep, step, hcons, Option.map_eq_none_iff, ite_eq_right_iff,
      reduceCtorEq, imp_false] at hacquire
    have hfail := hnext .failDequeue
    cases op with
    | waitDequeue => exact Or.inr ⟨rfl, by omega⟩
    | tryDequeue => simp [threadStep, step, hcons] at hfail
    | waitDequeueTimed => simp [threadStep, step, hcons] at hfail
    | tryPop => simp [threadStep, step, hcons] at hfail
  | take op =>
    have htake := hnext .takeItem
    cases op <;>
      simp [threadStep, step, hcons, popImpl, moveItem, access_of_data hdata] at htake
  | destroy idx => simpa [threadStep, step, hcons] using hnext .destroyItem
  | count => simpa [threadStep, step, hcons] using hnext .countDown
  | release => simpa [threadStep, step, hcons] using hnext .releaseSlot

/-- A producer that waits has `cap` items pending, if the consumer is between two calls or
waits too. -/
theorem pending_of_blocked {k cap : Nat} {s : Sys T} (hinv : Inv cap k s) {item : T}
    (hprod : s.prod = .acquire .waitEnqueue item) (hslots : s.q.slots = 0)
    (hcons : s.cons = .idle ∨ s.cons = .acquire .waitDequeue) :
    s.enqueued.length = s.consumed.length + cap := by
  have heq := hinv.slots
  have hbusy : s.cons.busy = 0 := by
    rcases hcons with h | h <;> rw [h] <;> rfl
  simp only [hslots, hprod, ProdPc.holds, Sys.written, ProdPc.inFlight, Sys.freed, hbusy,
    List.append_nil] at heq
  omega

/-- A consumer that waits has no item pending. -/
theorem none_pending_of_blocked {k cap : Nat} {s : Sys T} (hinv : Inv cap k s)
    (hcons : s.cons = .acquire .waitDequeue) (hitems : s.q.items = 0) :
    s.enqueued.length = s.consumed.length := by
  have heq := hinv.items
  simp only [hitems, hcons, ConsPc.holds] at heq
  omega

end Stuck

/-- For any two lists of calls, every schedule ends after at most eleven steps for each
pair of calls, and where it ends a thread that has not made all its calls waits: the
producer with `cap` items pending, the consumer with none, and never both. -/
theorem stuck_of_run {cap : BitVec 64} (h1 : 1 ≤ cap.toNat) (h2 : cap.toNat ≤ 2 ^ 63 - 1)
    {enqs : List (EnqOp × T)} {deqs : List DeqOp} {ls : List (ThreadLbl T)} {t : Threads T}
    (hrun : (threads cap enqs deqs).run (start cap enqs deqs) ls = some t) :
    ls.length ≤ 5 * enqs.length + 6 * deqs.length ∧
    ((threads cap enqs deqs).Stuck t →
      (t.ProducerDone ∧ t.ConsumerDone) ∨
      (t.ConsumerDone ∧ (∃ item, t.sys.prod = .acquire .waitEnqueue item) ∧
        t.sys.enqueued.length = t.sys.consumed.length + cap.toNat) ∨
      (t.ProducerDone ∧ t.sys.cons = .acquire .waitDequeue ∧
        t.sys.enqueued.length = t.sys.consumed.length)) := by
  have hinv := threads_run_inv h1 h2 hrun
  constructor
  · have hle := (ranking cap enqs deqs).length_add_le trivial hrun
    simp only [ranking, Threads.left, start, init, ProdPc.left, ConsPc.left] at hle
    omega
  · intro hstuck
    have hdata := hinv.data_ne_nil
    rcases producer_stuck hstuck hdata with hprod | ⟨⟨item, hprod⟩, hslots⟩
    · rcases consumer_stuck hstuck hdata with hcons | ⟨hcons, hitems⟩
      · exact Or.inl ⟨hprod, hcons⟩
      · exact Or.inr (Or.inr ⟨hprod, hcons, none_pending_of_blocked hinv hcons hitems⟩)
    · rcases consumer_stuck hstuck hdata with hcons | ⟨hcons, hitems⟩
      · exact Or.inr (Or.inl ⟨hcons, ⟨item, hprod⟩,
          pending_of_blocked hinv hprod hslots (Or.inl hcons.1)⟩)
      · -- both waiting would mean that `cap` items are pending and none is
        have hfull := pending_of_blocked hinv hprod hslots (Or.inr hcons)
        have hnone := none_pending_of_blocked hinv hcons hitems
        omega

/-- One slot, two items to put in and none to take out: the run ends with the producer
waiting for a slot while one item is pending. -/
theorem stuck_two_items :
    ∃ t, (threads 1 [(.waitEnqueue, 7), (.waitEnqueue, 8)] []).run
        (start 1 [(.waitEnqueue, 7), (.waitEnqueue, 8)] [])
        [.beginEnqueue, .next .acquireSlot, .next .writeSlot, .next .countUp,
          .next .releaseItem, .beginEnqueue] = some t ∧
      (threads 1 [(.waitEnqueue, 7), (.waitEnqueue, 8)] []).Stuck t ∧
      t.ConsumerDone ∧ t.sys.prod = .acquire .waitEnqueue 8 ∧
      t.sys.enqueued.length = t.sys.consumed.length + 1 := by
  obtain ⟨t, hrun⟩ : ∃ t, (threads 1 [(.waitEnqueue, 7), (.waitEnqueue, 8)] []).run
      (start 1 [(.waitEnqueue, 7), (.waitEnqueue, 8)] [])
      [.beginEnqueue, .next .acquireSlot, .next .writeSlot, .next .countUp,
        .next .releaseItem, .beginEnqueue] = some t := ⟨_, rfl⟩
  have hprod : t.sys.prod = .acquire .waitEnqueue 8 := by
    cases hrun
    rfl
  have hstuck : (threads 1 [(.waitEnqueue, 7), (.waitEnqueue, 8)] []).Stuck t := by
    cases hrun
    rintro (_ | _ | l)
    · rfl
    · rfl
    · cases l <;> rfl
  refine ⟨t, hrun, hstuck, ?_⟩
  rcases (@stuck_of_run Nat 1 (by decide) (by decide) _ _ _ _ hrun).2 hstuck with
    ⟨hdone, -⟩ | ⟨hcons, -, hlen⟩ | ⟨hdone, -⟩
  · cases hprod.symm.trans hdone.1
  · exact ⟨hcons, hprod, hlen⟩
  · cases hprod.symm.trans hdone.1

/-! ## Waiting calls only -/

/-- The item of the call the producer is in. -/
def ProdPc.carried : ProdPc T → List T
  | .idle => []
  | .acquire _ item | .write item | .count item | .release item => [item]

/-- Whether the consumer is in a call that has taken no item yet. -/
def ConsPc.owed : ConsPc → Nat
  | .acquire _ | .take _ => 1
  | _ => 0

/-- All calls wait, `all` are the items of the producer's calls, `n` is the number of the
consumer's. -/
structure Waiting (all : List T) (n : Nat) (t : Threads T) : Prop where
  enqs : ∀ e ∈ t.enqs, e.1 = .waitEnqueue
  deqs : ∀ d ∈ t.deqs, d = .waitDequeue
  prod : ∀ op item, t.sys.prod = .acquire op item → op = .waitEnqueue
  cons : ∀ op, t.sys.cons = .acquire op → op = .waitDequeue
  items : t.sys.enqueued ++ t.sys.prod.carried ++ t.enqs.map Prod.snd = all
  count : t.sys.consumed.length + t.sys.cons.owed + t.deqs.length = n

theorem start_waiting (cap : BitVec 64) (items : List T) (n : Nat) :
    Waiting items n (start cap (items.map fun x => (.waitEnqueue, x))
      (List.replicate n .waitDequeue)) where
  enqs e he := by
    rcases List.mem_map.mp he with ⟨x, -, rfl⟩
    rfl
  deqs d hd := List.eq_of_mem_replicate hd
  prod := nofun
  cons := nofun
  items := by simp [start, init, ProdPc.carried, Function.comp_def]
  count := by simp [start, init, ConsPc.owed]

/-- A step keeps the items in order and the count: no call gives up. -/
theorem step_waiting {all : List T} {n : Nat} {t t' : Threads T} {l : ThreadLbl T}
    (h : Waiting all n t) (hstep : threadStep t l = some t') : Waiting all n t' := by
  rcases t with ⟨s, enqs, deqs⟩
  rcases h with ⟨henqs, hdeqs, hprod, hcons, hitems, hcount⟩
  cases threadStep_moves hstep with
  | beginEnqueue he hcall =>
    obtain rfl := he
    have hwait := henqs _ List.mem_cons_self
    cases step_moves hcall
    refine ⟨fun e he => henqs e (List.mem_cons_of_mem _ he), hdeqs, ?_, hcons, ?_, hcount⟩
    · rintro op item ⟨⟩
      exact hwait
    · simpa [ProdPc.carried] using hitems
  | beginDequeue hd hcall =>
    obtain rfl := hd
    have hwait := hdeqs _ List.mem_cons_self
    cases step_moves hcall
    refine ⟨henqs, fun d hd => hdeqs d (List.mem_cons_of_mem _ hd), hprod, ?_, hitems, ?_⟩
    · rintro op ⟨⟩
      exact hwait
    · simp only [ConsPc.owed, List.length_cons] at hcount ⊢
      omega
  | next henq hdeq hcall =>
    cases hmove : step_moves hcall with
    | callEnqueue => exact absurd rfl (henq _ _)
    | callDequeue => exact absurd rfl (hdeq _)
    | failEnqueue =>
      -- `waitEnqueue` does not fail
      rw [hprod _ _ rfl] at hcall
      cases hcall
    | failDequeue =>
      rw [hcons _ rfl] at hcall
      cases hcall
    | acquireSlot => exact ⟨henqs, hdeqs, nofun, hcons, hitems, hcount⟩
    | writeSlot => exact ⟨henqs, hdeqs, nofun, hcons, hitems, hcount⟩
    | countUp => exact ⟨henqs, hdeqs, nofun, hcons, hitems, hcount⟩
    | releaseItem =>
      refine ⟨henqs, hdeqs, nofun, hcons, ?_, hcount⟩
      simpa [ProdPc.carried] using hitems
    | acquireItem => exact ⟨henqs, hdeqs, hprod, nofun, hitems, hcount⟩
    | popItem | takeItem =>
      refine ⟨henqs, hdeqs, hprod, nofun, hitems, ?_⟩
      simp only [ConsPc.owed, List.length_append, List.length_singleton] at hcount ⊢
      omega
    | destroyItem => exact ⟨henqs, hdeqs, hprod, nofun, hitems, hcount⟩
    | countDown => exact ⟨henqs, hdeqs, hprod, nofun, hitems, hcount⟩
    | releaseSlot => exact ⟨henqs, hdeqs, hprod, nofun, hitems, hcount⟩

section Transfer

variable {cap : BitVec 64} {items : List T} {n : Nat} {ls : List (ThreadLbl T)} {t : Threads T}

/-- The queue with a producer that puts in all items and a consumer that takes out `n`. -/
def transfer (cap : BitVec 64) (items : List T) (n : Nat) :
    ActionSystem.Spec (Threads T) (ThreadLbl T) :=
  threads cap (items.map fun x => (.waitEnqueue, x)) (List.replicate n .waitDequeue)

/-- Before the first call of either thread. -/
def transferStart (cap : BitVec 64) (items : List T) (n : Nat) : Threads T :=
  start cap (items.map fun x => (.waitEnqueue, x)) (List.replicate n .waitDequeue)

/-- Where a transfer ends, all items have been put in and `n` of them taken out. -/
theorem transfer_stuck (h1 : 1 ≤ cap.toNat) (h2 : cap.toNat ≤ 2 ^ 63 - 1)
    (hn : n ≤ items.length) (hcap : items.length ≤ n + cap.toNat)
    (hrun : (transfer cap items n).run (transferStart cap items n) ls = some t)
    (hstuck : (transfer cap items n).Stuck t) :
    t.ProducerDone ∧ t.ConsumerDone ∧ t.sys.consumed = (items.take n).map some := by
  have hinv := threads_run_inv h1 h2 hrun
  have hwait : Waiting items n t :=
    (transfer cap items n).run_invariant (Waiting items n) (fun _ _ _ => step_waiting)
      (start_waiting cap items n) hrun
  have hitems := congrArg List.length hwait.items
  have hcount := hwait.count
  simp only [List.length_append, List.length_map] at hitems
  have hdone : t.ProducerDone ∧ t.ConsumerDone := by
    rcases (stuck_of_run h1 h2 hrun).2 hstuck with
      hdone | ⟨hcons, ⟨x, hx⟩, hlen⟩ | ⟨hprod, hx, hlen⟩
    · exact hdone
    · -- `cap` items pending and another one in hand are more than there are
      rw [hcons.1, hcons.2] at hcount
      simp only [hx, ProdPc.carried, ConsPc.owed, List.length_singleton, List.length_nil]
        at hitems hcount
      omega
    · -- all items were put in, so the consumer does not lack one
      rw [hprod.1, hprod.2] at hitems
      simp only [hx, ProdPc.carried, ConsPc.owed, List.length_nil] at hitems hcount
      omega
  rcases hdone with ⟨hprod, hcons⟩
  refine ⟨hprod, hcons, ?_⟩
  have hall := hwait.items
  rw [hprod.1, hprod.2] at hall
  rw [hcons.1, hcons.2] at hcount
  simp only [ProdPc.carried, List.map_nil, List.append_nil] at hall
  simp only [ConsPc.owed, List.length_nil, Nat.add_zero] at hcount
  rw [hinv.consumed, hall, hcount]

/-- Any number of items through a queue of any capacity, with as many waiting dequeues as
leave at most `cap` items behind: every schedule is finite, can be carried on to its end
from wherever it has got, and delivers the first `n` items in order. -/
theorem transfer_of_run (h1 : 1 ≤ cap.toNat) (h2 : cap.toNat ≤ 2 ^ 63 - 1)
    (hn : n ≤ items.length) (hcap : items.length ≤ n + cap.toNat)
    (hrun : (transfer cap items n).run (transferStart cap items n) ls = some t) :
    ls.length ≤ 5 * items.length + 6 * n ∧
    ((transfer cap items n).Stuck t → t.sys.consumed = (items.take n).map some) ∧
    ∃ ms u, (transfer cap items n).run t ms = some u ∧ u.ProducerDone ∧ u.ConsumerDone ∧
      u.sys.consumed = (items.take n).map some := by
  refine ⟨?_, ?_, ?_⟩
  · have hle := (stuck_of_run h1 h2 hrun).1
    rwa [List.length_map, List.length_replicate] at hle
  · intro hstuck
    exact (transfer_stuck h1 h2 hn hcap hrun hstuck).2.2
  · obtain ⟨ms, u, hms, hstuck⟩ : ∃ ms u, (transfer cap items n).run t ms = some u ∧
        (transfer cap items n).Stuck u :=
      (ranking cap _ _).exists_stuck trivial
    have hboth : (transfer cap items n).run (transferStart cap items n) (ls ++ ms) = some u := by
      rw [ActionSystem.Spec.run_append, hrun]
      exact hms
    rcases transfer_stuck h1 h2 hn hcap hboth hstuck with ⟨hprod, hcons, hgot⟩
    exact ⟨ms, u, hms, hprod, hcons, hgot⟩

end Transfer

/-- Two items through one slot. -/
theorem transfer_two_items : ∃ ms u, (transfer 1 [7, 8] 2).run (transferStart 1 [7, 8] 2) ms =
    some u ∧ u.sys.consumed = [some 7, some 8] := by
  have h := @transfer_of_run Nat 1 [7, 8] 2 [] _ (by decide) (by decide) (by decide) (by decide) rfl
  rcases h with ⟨-, -, ms, u, hrun, -, -, hgot⟩
  exact ⟨ms, u, hrun, hgot⟩

end ClapRci.BlkRingQueue
