import Mathlib.Data.List.Basic
import Mathlib.Tactic.Common
import ClapRci.Lib.ActionSystem

/-!
# Bounded FIFO queues

A queue of at most `cap` elements, with the bound as a field, and the two usual
answers to a push into a full queue: refuse (`push`) or drop the oldest element
(`pushOverwrite`). The second half is the same queue as an action system with the
history of what went in and what came out, the specification a queue
implementation is to refine.
-/

universe u

/-- A first-in first-out queue of at most `cap` elements, oldest first. -/
structure BoundedFifo (cap : Nat) (α : Type u) where
  elems : List α
  bounded : elems.length ≤ cap
deriving DecidableEq

namespace BoundedFifo

variable {cap : Nat} {α : Type u}

@[ext] theorem ext {q r : BoundedFifo cap α} (h : q.elems = r.elems) : q = r := by
  cases q; cases r; cases h; rfl

/-! ## Operations -/

/-- The queue with nothing in it. -/
def empty : BoundedFifo cap α := ⟨[], Nat.zero_le _⟩

instance : Inhabited (BoundedFifo cap α) := ⟨empty⟩

/-- Append at the end; a full queue refuses and stays as it is. -/
def push (q : BoundedFifo cap α) (x : α) : Bool × BoundedFifo cap α :=
  if h : q.elems.length < cap then
    (true, ⟨q.elems ++ [x], by
      rw [List.length_append, List.length_singleton]; exact h⟩)
  else (false, q)

/-- Append at the end; a full queue drops its oldest element to make room. -/
def pushOverwrite (q : BoundedFifo cap α) (x : α) : Bool × BoundedFifo cap α :=
  (true, ⟨(q.elems ++ [x]).drop (q.elems.length + 1 - cap), by
    simp only [List.length_drop, List.length_append, List.length_singleton]
    omega⟩)

/-- Take the oldest element; `none`, and the same queue, when there is none. -/
def pop (q : BoundedFifo cap α) : Option α × BoundedFifo cap α :=
  (q.elems.head?, ⟨q.elems.tail, by
    have := q.bounded
    simp only [List.length_tail]
    omega⟩)

/-- The loop `while (q.pop(x))`, cut off after `fuel` rounds: what it took, and the
queue it left. -/
def popLoop : Nat → BoundedFifo cap α → List α × BoundedFifo cap α
  | 0, q => ([], q)
  | fuel + 1, q =>
    match q.pop with
    | (none, q') => ([], q')
    | (some x, q') => (x :: (popLoop fuel q').1, (popLoop fuel q').2)

/-- The loop `while (q.pop(x))`: the pop after the last element ends it. -/
def popAll (q : BoundedFifo cap α) : List α × BoundedFifo cap α :=
  popLoop (q.elems.length + 1) q

/-! ## What the operations do to the elements -/

@[simp] theorem pop_fst (q : BoundedFifo cap α) : q.pop.1 = q.elems.head? := rfl

@[simp] theorem pop_snd_elems (q : BoundedFifo cap α) : q.pop.2.elems = q.elems.tail := rfl

/-- An empty queue stays as it is. -/
theorem pop_of_nil {q : BoundedFifo cap α} (h : q.elems = []) : q.pop = (none, q) := by
  rcases q with ⟨elems, bounded⟩
  cases h
  rfl

/-- A queue with an element gives it, and keeps the rest. -/
theorem pop_of_cons {q : BoundedFifo cap α} {x : α} {xs : List α} (h : q.elems = x :: xs) :
    ∃ q', q.pop = (some x, q') ∧ q'.elems = xs := by
  refine ⟨q.pop.2, ?_, ?_⟩
  · apply Prod.ext
    · simp [h]
    · rfl
  · simp [h]

/-- An element that is given was the oldest one. -/
theorem elems_of_pop {q q' : BoundedFifo cap α} {x : α} (h : q.pop = (some x, q')) :
    q.elems = x :: q'.elems := by
  have hhead : q.elems.head? = some x := congrArg Prod.fst h
  have htail : q.elems.tail = q'.elems := congrArg (fun r => r.2.elems) h
  rw [← htail]
  exact List.eq_cons_of_mem_head? hhead

@[simp] theorem pushOverwrite_fst (q : BoundedFifo cap α) (x : α) :
    (q.pushOverwrite x).1 = true := rfl

/-- With room left nothing is dropped. -/
theorem pushOverwrite_of_lt {q : BoundedFifo cap α} (h : q.elems.length < cap) (x : α) :
    (q.pushOverwrite x).2.elems = q.elems ++ [x] := by
  have h0 : q.elems.length + 1 - cap = 0 := by omega
  simp [pushOverwrite, h0]

/-- A full queue loses its oldest element. -/
theorem pushOverwrite_of_full {q : BoundedFifo cap α} {y : α} {ys : List α}
    (hq : q.elems = y :: ys) (h : ¬ q.elems.length < cap) (x : α) :
    (q.pushOverwrite x).2.elems = ys ++ [x] := by
  have hb := q.bounded
  rw [hq, List.length_cons] at h hb
  have h1 : ys.length + 1 + 1 - cap = 1 := by omega
  simp [pushOverwrite, hq, h1]

theorem popLoop_eq (q : BoundedFifo cap α) {fuel : Nat} (h : q.elems.length < fuel) :
    popLoop fuel q = (q.elems, empty) := by
  -- each turn uses up one element and one unit of fuel
  induction fuel generalizing q with
  | zero => omega
  | succ fuel ih =>
    rcases q with ⟨elems, hb⟩
    cases elems with
    | nil => rfl
    | cons x xs =>
      have hxs : xs.length ≤ cap := by simp only [List.length_cons] at hb; omega
      have hlt : xs.length < fuel := by simp only [List.length_cons] at h; omega
      have := ih ⟨xs, hxs⟩ hlt
      simp [popLoop, pop, this]

/-- The loop ends, takes every element in order and leaves the queue empty. -/
@[simp] theorem popAll_eq (q : BoundedFifo cap α) : q.popAll = (q.elems, empty) :=
  popLoop_eq q (Nat.lt_succ_self _)

/-! ## Elements with something attached -/

section Map

universe v

variable {β : Type v}

/-- The queue with a function applied to every element. -/
def map (f : α → β) (q : BoundedFifo cap α) : BoundedFifo cap β :=
  ⟨q.elems.map f, by rw [List.length_map]; exact q.bounded⟩

@[simp] theorem map_elems (f : α → β) (q : BoundedFifo cap α) :
    (q.map f).elems = q.elems.map f := rfl

@[simp] theorem map_empty (f : α → β) : (empty : BoundedFifo cap α).map f = empty := rfl

theorem map_push (f : α → β) (q : BoundedFifo cap α) (x : α) :
    (q.map f).push (f x) = ((q.push x).1, (q.push x).2.map f) := by
  by_cases h : q.elems.length < cap
  · have h' : (q.map f).elems.length < cap := by rwa [map_elems, List.length_map]
    rw [push, push, dif_pos h, dif_pos h']
    exact Prod.ext rfl (BoundedFifo.ext (by simp))
  · have h' : ¬ (q.map f).elems.length < cap := by rwa [map_elems, List.length_map]
    rw [push, push, dif_neg h, dif_neg h']

theorem map_pushOverwrite (f : α → β) (q : BoundedFifo cap α) (x : α) :
    (q.map f).pushOverwrite (f x) = (true, (q.pushOverwrite x).2.map f) := by
  refine Prod.ext rfl (BoundedFifo.ext ?_)
  simp [pushOverwrite, List.map_drop]

theorem map_pop (f : α → β) (q : BoundedFifo cap α) :
    (q.map f).pop = (q.pop.1.map f, q.pop.2.map f) := by
  refine Prod.ext ?_ (BoundedFifo.ext ?_)
  · simp
  · simp

/-- A push puts nothing else into a queue, and nothing if it fails. -/
theorem mem_push {q : BoundedFifo cap α} {x y : α} (h : y ∈ (q.push x).2.elems) :
    y ∈ q.elems ∨ (q.push x).1 = true ∧ y = x := by
  unfold push at h ⊢
  split at h
  · rename_i hroom
    simpa [hroom] using h
  · exact Or.inl h

theorem mem_pushOverwrite {q : BoundedFifo cap α} {x y : α}
    (h : y ∈ (q.pushOverwrite x).2.elems) : y ∈ q.elems ∨ y = x := by
  have hmem := List.mem_of_mem_drop h
  simpa using hmem

end Map

/-! ## The queue as a specification

`enqueued` and `dequeued` are history: everything that went in and came out. -/

/-- A queue with its history. -/
structure Hist (α : Type u) where
  queue : List α
  enqueued : List α
  dequeued : List α
deriving DecidableEq

/-- Put an element in, take one out. -/
inductive Lbl (α : Type u) where
  | enq (x : α)
  | deq
deriving DecidableEq

/-- The bounded FIFO: an element goes in while there is room, the oldest comes out. -/
def spec (cap : Nat) (α : Type u) : ActionSystem.Spec (Hist α) (Lbl α) where
  Init h := h = ⟨[], [], []⟩
  step h l :=
    match l with
    | .enq x =>
      if h.queue.length < cap then
        some { h with queue := h.queue ++ [x], enqueued := h.enqueued ++ [x] }
      else none
    | .deq =>
      match h.queue with
      | [] => none
      | x :: xs => some { h with queue := xs, dequeued := h.dequeued ++ [x] }

/-- What went in is what came out followed by what is still there; never more than
`cap` elements are there. -/
def Inv (cap : Nat) (h : Hist α) : Prop :=
  h.dequeued ++ h.queue = h.enqueued ∧ h.queue.length ≤ cap

theorem spec_step_inv (h : Hist α) (l : Lbl α) (h' : Hist α) (hinv : Inv cap h)
    (hstep : (spec cap α).step h l = some h') : Inv cap h' := by
  rcases hinv with ⟨heq, hlen⟩
  cases l with
  | enq x =>
    simp only [spec] at hstep
    split at hstep
    · rename_i hlt
      cases hstep
      refine ⟨?_, ?_⟩
      · simp only [← heq, List.append_assoc]
      · rw [List.length_append, List.length_singleton]
        exact hlt
    · cases hstep
  | deq =>
    simp only [spec] at hstep
    split at hstep
    · cases hstep
    · rename_i x xs hq
      cases hstep
      rw [hq] at heq hlen
      refine ⟨?_, ?_⟩
      · simpa using heq
      · simp only [List.length_cons] at hlen
        exact Nat.le_of_succ_le hlen

/-- Every run of the specification from a state with this history keeps it. -/
theorem spec_run_inv {h h' : Hist α} {ls : List (Lbl α)} (hinv : Inv cap h)
    (hrun : (spec cap α).run h ls = some h') : Inv cap h' :=
  (spec cap α).run_invariant (Inv cap) spec_step_inv hinv hrun

/-- First in, first out: the elements taken are a prefix of the elements put in. -/
theorem Inv.fifo {h : Hist α} (hinv : Inv cap h) : h.dequeued <+: h.enqueued :=
  ⟨h.queue, hinv.1⟩

/-- At most `cap` elements are in between. -/
theorem Inv.pending_le {h : Hist α} (hinv : Inv cap h) :
    h.enqueued.length ≤ h.dequeued.length + cap := by
  have := hinv.2
  rw [← hinv.1, List.length_append]
  omega

end BoundedFifo
