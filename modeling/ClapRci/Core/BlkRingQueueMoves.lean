import ClapRci.Core.BlkRingQueueCalls

/-!
# Moving and swapping `BlkRingQueue`s

`swap`, the move constructor and the move assignment (`core/blkringqueue.h`). Four of the
seven members that make up the state of a queue change hands: `data` with its
capacity and mask, and the two indices. The semaphores `slots` and `items` and the counter
`itemCount` stay where they are. What a queue does is what its callers see of every
sequence of calls; it moves exactly when the two queues agree on these three members, as
far as the `data` that changes hands lets a caller count.
-/

namespace ClapRci.BlkRingQueue

variable {T : Type}

/-! ## The operations -/

/-- `swap`. `std::swap(slots, other.slots)` and `std::swap(items, other.items)` are
commented out there. -/
def swap (q other : BlkRingQueue T) : BlkRingQueue T × BlkRingQueue T :=
  ({ q with data := other.data, capacity := other.capacity, mask := other.mask,
            nextSlot := other.nextSlot, nextItem := other.nextItem },
   { other with data := q.data, capacity := q.capacity, mask := q.mask,
                nextSlot := q.nextSlot, nextItem := q.nextItem })

/-- `BlkRingQueue(BlkRingQueue &&other)`: the new queue and what `other` becomes. -/
def moveConstruct (semMax : Nat) (other : BlkRingQueue T) : BlkRingQueue T × BlkRingQueue T :=
  (default T semMax).swap other

/-- `operator=(BlkRingQueue &&other)`. -/
def moveAssign (q other : BlkRingQueue T) : BlkRingQueue T × BlkRingQueue T :=
  q.swap other

/-! ## What a caller sees -/

/-- What a call comes back with. -/
inductive Answer (T : Type) where
  | done
  | refused
  /-- an access through the null pointer -/
  | crashed
  /-- a blocking wait that nobody else ends -/
  | blocked
  | item (x : Option T)
  /-- what the pointer points to; `none` is the null pointer -/
  | element (e : Option (Option (Slot T)))
  | count (n : BitVec 64)
deriving DecidableEq

/-- A call and the queue after it. A timed wait runs out when nothing is there to take,
since nobody else is at work. -/
def answer (q : BlkRingQueue T) : Call T → Answer T × BlkRingQueue T
  | .enqueue op x =>
    match q.tryEnqueue x with
    | none => (.crashed, q)
    | some (true, q') => (.done, q')
    | some (false, q') => (if op = .waitEnqueue then .blocked else .refused, q')
  | .dequeue .tryPop =>
    match q.tryPop with
    | none => (.crashed, q)
    | some (true, q') => (.done, q')
    | some (false, q') => (.refused, q')
  | .dequeue op =>
    match q.tryDequeue with
    | none => (.crashed, q)
    | some (true, x, q') => (.item x, q')
    | some (false, _, q') => (if op = .waitDequeue then .blocked else .refused, q')
  | .peek => (.element (q.peek.map fun i => q.data[i]?), q)
  | .size => (.count q.size, q)
  | .maxCapacity => (.count q.maxCapacity, q)

/-- The answers to a sequence of calls, up to one that does not come back. -/
def answers : BlkRingQueue T → List (Call T) → List (Answer T)
  | _, [] => []
  | q, c :: cs =>
    match q.answer c with
    | (.blocked, _) => [.blocked]
    | (.crashed, _) => [.crashed]
    | (a, q') => a :: answers q' cs

/-- The queue `q` behaves as `r` does: every sequence of calls is answered the same. -/
def BehavesAs (q r : BlkRingQueue T) : Prop := ∀ cs, q.answers cs = r.answers cs

/-- No caller can tell `n` and `m` left in a semaphore apart: they are equal, or both let
the next call through to a null pointer. -/
def SameCount (data : List (Slot T)) (n m : Nat) : Prop := n = m ∨ data = [] ∧ 0 < n ∧ 0 < m

/-- The members that `swap` leaves out are the same, over the given `data`. -/
def SameCounters (data : List (Slot T)) (q r : BlkRingQueue T) : Prop :=
  SameCount data q.slots r.slots ∧ SameCount data q.items r.items ∧ q.itemCount = r.itemCount

/-! ## Counting what is accepted -/

/-- Whether the call succeeded. -/
def Answer.isDone : Answer T → Bool
  | .done => true
  | _ => false

/-- A call that uses up a counter `f` and is refused at 0, made `k` times on a queue with
`data`. -/
theorem countP_done (f : BlkRingQueue T → Nat) (c : Call T)
    (hpos : ∀ q, q.data ≠ [] → 0 < f q →
      (q.answer c).1 = .done ∧ (q.answer c).2.data ≠ [] ∧ f (q.answer c).2 = f q - 1)
    (hzero : ∀ q, f q = 0 → q.answer c = (.refused, q)) (k : Nat) {q : BlkRingQueue T}
    (hdata : q.data ≠ []) :
    (q.answers (List.replicate k c)).countP Answer.isDone = min k (f q) := by
  induction k generalizing q with
  | zero => simp [answers]
  | succ k ih =>
    rw [List.replicate_succ]
    unfold answers
    rcases Nat.eq_zero_or_pos (f q) with h0 | h1
    · rw [hzero q h0]
      simp [ih hdata, h0, Answer.isDone]
    · rcases hpos q hdata h1 with ⟨hdone, hdata', hf⟩
      generalize hr : q.answer c = r at hdone hdata' hf
      rcases r with ⟨a, q'⟩
      simp only at hdone hdata' hf
      subst hdone
      simp only [List.countP_cons, ih hdata', hf, Answer.isDone, if_true]
      omega

theorem countP_tryPop (k : Nat) {q : BlkRingQueue T} (hdata : q.data ≠ []) :
    (q.answers (List.replicate k (.dequeue .tryPop))).countP Answer.isDone = min k q.items := by
  refine countP_done (fun q => q.items) _ ?_ ?_ k hdata
  · intro q hdata hpos
    simp [answer, tryPop_of_pos hpos hdata, hdata]
  · intro q hzero
    simp [answer, tryPop_of_zero hzero]

theorem countP_tryEnqueue (x : T) (k : Nat) {q : BlkRingQueue T} (hdata : q.data ≠ []) :
    (q.answers (List.replicate k (.enqueue .tryEnqueue x))).countP Answer.isDone =
      min k q.slots := by
  refine countP_done (fun q => q.slots) _ ?_ ?_ k hdata
  · intro q hdata hpos
    simp [answer, tryEnqueue_of_pos hpos hdata, hdata]
  · intro q hzero
    simp [answer, tryEnqueue_of_zero hzero]

/-! ## Queues without `data` -/

section Null

variable {q r : BlkRingQueue T}

theorem answer_enqueue_null (hnull : q.data = []) (op : EnqOp) (x : T) :
    q.answer (.enqueue op x) =
      (if 0 < q.slots then .crashed else if op = .waitEnqueue then .blocked else .refused, q) := by
  by_cases hpos : 0 < q.slots
  · simp [answer, tryEnqueue_of_null hpos hnull, hpos]
  · simp [answer, tryEnqueue, hpos]

theorem answer_dequeue_null (hnull : q.data = []) (op : DeqOp) :
    q.answer (.dequeue op) =
      (if 0 < q.items then .crashed else if op = .waitDequeue then .blocked else .refused, q) := by
  by_cases hpos : 0 < q.items
  · cases op <;>
      simp [answer, tryPop, tryDequeue, dequeueImpl, moveItem, popImpl, access, hpos, hnull]
  · cases op <;> simp [answer, tryPop, tryDequeue, hpos]

/-- A call that is answered leaves a queue without `data` as it is. -/
theorem answer_null (hnull : q.data = []) (c : Call T) : (q.answer c).2 = q := by
  cases c with
  | enqueue op x => rw [answer_enqueue_null hnull]
  | dequeue op => rw [answer_dequeue_null hnull]
  | peek | size | maxCapacity => rfl

/-- Without `data` a caller sees of a semaphore only whether it lets a call through. -/
theorem sameCount_null (hnull : q.data = []) {n m : Nat} :
    SameCount q.data n m ↔ (0 < n ↔ 0 < m) := by
  unfold SameCount
  constructor
  · rintro (rfl | ⟨-, hn, hm⟩)
    · rfl
    · exact iff_of_true hn hm
  · intro h
    by_cases hn : 0 < n
    · exact Or.inr ⟨hnull, hn, h.mp hn⟩
    · left
      have hm := mt h.mpr hn
      omega

end Null

/-! ## What moves -/

/-- Queues over the same `data` that behave alike agree on the members that `swap` leaves
out: as many pops succeed, as many enqueues are accepted, and `size()` is the same. -/
theorem BehavesAs.sameCounters [Inhabited T] {q r : BlkRingQueue T} (h : BehavesAs q r)
    (hdata : q.data = r.data) : SameCounters r.data q r := by
  have hsize := h [.size]
  simp only [answers, answer, size, List.cons.injEq, Answer.count.injEq, and_true] at hsize
  by_cases hnull : r.data = []
  · -- the first call of each kind shows whether it gets through
    have henq := h [.enqueue .tryEnqueue Inhabited.default]
    have hdeq := h [.dequeue .tryDequeue]
    simp only [answers, answer_enqueue_null hnull, answer_enqueue_null (hdata.trans hnull)]
      at henq
    simp only [answers, answer_dequeue_null hnull, answer_dequeue_null (hdata.trans hnull)]
      at hdeq
    refine ⟨(sameCount_null hnull).mpr ?_, (sameCount_null hnull).mpr ?_, hsize⟩
    · by_cases hq : 0 < q.slots <;> by_cases hr : 0 < r.slots <;> simp_all
    · by_cases hq : 0 < q.items <;> by_cases hr : 0 < r.items <;> simp_all
  · -- enough calls of one kind show the counter that refuses the rest
    have hdata' : q.data ≠ [] := fun hq => hnull (hdata.symm.trans hq)
    refine ⟨Or.inl ?_, Or.inl ?_, hsize⟩
    · have hcount := congrArg (List.countP Answer.isDone)
        (h (List.replicate (max q.slots r.slots) (.enqueue .tryEnqueue Inhabited.default)))
      rw [countP_tryEnqueue _ _ hdata', countP_tryEnqueue _ _ hnull] at hcount
      omega
    · have hcount := congrArg (List.countP Answer.isDone)
        (h (List.replicate (max q.items r.items) (.dequeue .tryPop)))
      rw [countP_tryPop _ hdata', countP_tryPop _ hnull] at hcount
      omega

/-- The receiver of a swap behaves as the source did if the members left out were the
same. -/
theorem behavesAs_of_sameCounters {q r : BlkRingQueue T} (h : SameCounters r.data q r) :
    BehavesAs (q.swap r).1 r := by
  intro cs
  rcases h with ⟨hslots, hitems, hcount⟩
  by_cases hnull : r.data = []
  · -- no answer changes either queue
    rw [sameCount_null hnull] at hslots hitems
    have hsize : (q.swap r).1.size = r.size := hcount
    have hpeek : (q.swap r).1.peek = r.peek := by
      unfold peek
      rw [hsize]
      rfl
    have hanswer : ∀ c, ((q.swap r).1.answer c).1 = (r.answer c).1 := by
      intro c
      cases c with
      | enqueue op x =>
        rw [answer_enqueue_null hnull, answer_enqueue_null (q := (q.swap r).1) hnull]
        simp only [swap, hslots]
      | dequeue op =>
        rw [answer_dequeue_null hnull, answer_dequeue_null (q := (q.swap r).1) hnull]
        simp only [swap, hitems]
      | peek =>
        simp only [answer, hpeek]
        rfl
      | size => simp only [answer, hsize]
      | maxCapacity => rfl
    induction cs with
    | nil => rfl
    | cons c cs ih =>
      have hq := answer_null (q := (q.swap r).1) hnull c
      have hr := answer_null hnull c
      have ha := hanswer c
      unfold answers
      generalize (q.swap r).1.answer c = rq at hq ha
      generalize r.answer c = rr at hr ha
      rcases rq with ⟨a, q'⟩
      rcases rr with ⟨a', r'⟩
      simp only at hq hr ha
      subst hq hr ha
      cases a with
      | blocked | crashed => rfl
      | done | refused | item | element | count => simp only [ih]
  · -- the receiver is the source
    rcases hslots with hslots | ⟨hnull', -, -⟩
    · rcases hitems with hitems | ⟨hnull', -, -⟩
      · rcases q with ⟨data, cap, slots, items, itemCount, mask, nextSlot, nextItem⟩
        rcases r with ⟨data', cap', slots', items', itemCount', mask', nextSlot', nextItem'⟩
        simp only at hslots hitems hcount
        subst hslots hitems hcount
        rfl
      · exact absurd hnull' hnull
    · exact absurd hnull' hnull

theorem swap_fst_behaves_iff [Inhabited T] (q r : BlkRingQueue T) :
    BehavesAs (q.swap r).1 r ↔ SameCounters r.data q r := by
  constructor
  · intro h
    exact h.sameCounters rfl
  · exact behavesAs_of_sameCounters

theorem swap_snd_behaves_iff [Inhabited T] (q r : BlkRingQueue T) :
    BehavesAs (q.swap r).2 q ↔ SameCounters q.data r q := by
  -- the second queue receives what the first one had
  exact swap_fst_behaves_iff r q

/-- After a swap, a move construction or a move assignment the receiver behaves as the
source did exactly when the two queues agreed on their semaphores and on `itemCount`
before, as far as the source's `data` lets a caller count; for a move construction the
other one is a default-constructed queue. -/
theorem moves_whole_state_iff [Inhabited T] (semMax : Nat) (q other : BlkRingQueue T) :
    (BehavesAs (q.swap other).1 other ∧ BehavesAs (q.swap other).2 q ↔
      SameCounters other.data q other ∧ SameCounters q.data other q) ∧
    (BehavesAs (q.moveAssign other).1 other ↔ SameCounters other.data q other) ∧
    (BehavesAs (moveConstruct semMax other).1 other ↔
      SameCounters other.data (default T semMax) other) := by
  refine ⟨?_, swap_fst_behaves_iff q other, swap_fst_behaves_iff (default T semMax) other⟩
  rw [swap_fst_behaves_iff, swap_snd_behaves_iff]

/-- An empty queue of capacity 2 is swapped with one that holds an item: the item cannot
be taken out of the receiver. -/
theorem moves_whole_state_fails :
    ¬ ∀ (c c' : Ctor) (ls ls' : List (Call Nat × Bool)) (s s' : Session Nat),
      (calls Nat c).run { q := c.queue Nat } ls = some s →
      (calls Nat c').run { q := c'.queue Nat } ls' = some s' →
        BehavesAs (s.q.swap s'.q).1 s'.q := by
  intro h
  have hsame := h (.capacity 2 (by decide)) (.capacity 2 (by decide)) []
    [(.enqueue .tryEnqueue 7, true)] _ _ rfl rfl [.dequeue .tryDequeue]
  revert hsame
  decide

end ClapRci.BlkRingQueue
