import Mini2.Portal.BufferObject

/-!
# The buffer of a Python portal

`_BoundedBuffer` of the Python node server, and its agreement with `ChunkBuffer`: both
refine the abstract buffer, so that their answers are equal and their histories those of a
bounded queue (`buffers_keep_fifo`).
-/

namespace Mini2

open Framework

namespace Python

/-- `_BoundedBuffer`. -/
structure BoundedBuffer (Node Row : Type*) where
  cap : ℕ
  expected : ℕ
  q : List Row
  started : Finset Node
  done : Finset Node
  canceled : Bool
  rowsServed : ℕ

namespace BoundedBuffer

variable {Node Row : Type*} [DecidableEq Node]

/-- `__init__` -/
def create (capacity expectedProducers : ℕ) : BoundedBuffer Node Row where
  cap := capacity
  expected := expectedProducers
  q := []
  started := ∅
  done := ∅
  canceled := false
  rowsServed := 0

variable (b : BoundedBuffer Node Row)

def push (rows : List Row) : BoundedBuffer Node Row × ℕ :=
  if b.canceled then (b, rows.length)
  else
    -- `max(0, …)` is the subtraction of natural numbers
    let avail := b.cap - b.q.length
    let take := min rows.length avail
    if take ≠ 0 then ({ b with q := b.q ++ rows.take take }, take) else (b, take)

/-- `pop_up_to`, without its wait. -/
def popUpTo (n : ℕ) : BoundedBuffer Node Row × List Row :=
  if n = 0 then (b, [])
  else
    let out := b.q.take n
    ({ b with q := b.q.drop n, rowsServed := b.rowsServed + out.length }, out)

def markStarted (producer : Node) : BoundedBuffer Node Row :=
  { b with started := insert producer b.started }

def markDone (producer : Node) : BoundedBuffer Node Row :=
  { b with done := insert producer b.done }

def cancel : BoundedBuffer Node Row := { b with canceled := true, q := [] }

def isFinal : Bool :=
  if b.canceled then true else b.q.isEmpty && decide (b.done.card ≥ b.expected)

def buffered : ℕ := b.q.length

def pendingProducers : ℕ :=
  if b.done.card ≥ b.expected then 0 else b.expected - b.done.card

def answer (result : BufferResult Row) : BufferAnswer Row where
  result := result
  isCanceled := b.canceled
  isFinal := b.isFinal
  bufferedRows := b.buffered
  pendingProducers := b.pendingProducers
  rowsServed := b.rowsServed

def act : BufferOp Node Row → BoundedBuffer Node Row × BufferResult Row
  | .push _ rows => ((b.push rows).1, .accepted (b.push rows).2)
  | .pop maxRows => ((b.popUpTo maxRows.toNat).1, .rows (b.popUpTo maxRows.toNat).2)
  | .markStarted producer => (b.markStarted producer, .none)
  | .markDone producer => (b.markDone producer, .none)
  | .cancel => (b.cancel, .none)

/-- A new `_BoundedBuffer`. -/
def object (capacity expectedProducers : ℕ) :
    Object (BoundedBuffer Node Row) (BufferOp Node Row) (BufferAnswer Row) where
  init := .create capacity expectedProducers
  step b op := ((b.act op).1, (b.act op).1.answer (b.act op).2)

/-- The buffer holds what the abstract queue holds. -/
structure Holds (b : BoundedBuffer Node Row) (s : FedQueue Node Row) : Prop where
  q : b.q = s.queue.content
  cap : b.cap = s.queue.capacity
  expected : b.expected = s.expected
  done : b.done = s.done
  rowsServed : b.rowsServed = s.queue.served
  canceled : b.canceled = s.queue.closed
  wellFormed : s.queue.WellFormed

variable {b} {s : FedQueue Node Row}

omit [DecidableEq Node] in
theorem Holds.answer (h : Holds b s) (result : BufferResult Row) :
    b.answer result = s.answer result := by
  -- the set of the producers that have started is not part of any answer
  obtain ⟨cap, expected, q, started, done, canceled, served⟩ := b
  obtain ⟨rfl, rfl, rfl, rfl, rfl, rfl, -⟩ := h
  unfold BoundedBuffer.answer FedQueue.answer isFinal pendingProducers
  rw [ChunkBuffer.pending_eq]
  cases hclosed : s.queue.closed with
  | true => simp [buffered]
  | false => simp [buffered]

omit [DecidableEq Node] in
/-- A push that accepts nothing leaves the queue as it is, as an empty addition does. -/
theorem push_eq (rows : List Row) (h : Holds b s) :
    b.push rows = ({ b with q := b.q ++ s.queue.added rows }, (s.queue.offer rows).2) := by
  unfold push Fifo.offer Fifo.added
  rw [← h.canceled, ← h.cap, ← h.q]
  by_cases hclosed : b.canceled = true
  · rw [if_pos hclosed, if_pos hclosed, if_pos hclosed, List.append_nil]
  · rw [if_neg hclosed, if_neg hclosed, if_neg hclosed]
    -- the code adds nothing where there is no room, the queue an empty part
    by_cases hnone : min rows.length (b.cap - b.q.length) = 0
    · rw [if_neg (not_not.mpr hnone), hnone, List.take_zero, List.append_nil]
    · rw [if_pos hnone]

omit [DecidableEq Node] in
theorem Holds.push (h : Holds b s) (rows : List Row) : Holds (b.push rows).1 (s.push rows).1 ∧
    BufferResult.accepted (b.push rows).2 = (s.push rows).2 := by
  rw [push_eq rows h]
  refine ⟨⟨?_, h.cap, h.expected, h.done, h.rowsServed, h.canceled,
    Fifo.offer_wellFormed rows h.wellFormed⟩, rfl⟩
  exact (congrArg (· ++ _) h.q).trans (Fifo.content_offer rows h.wellFormed).symm

omit [DecidableEq Node] in
/-- A pop of no rows returns early, and has nothing to do. -/
theorem popUpTo_eq (n : ℕ) : b.popUpTo n =
    ({ b with q := b.q.drop n, rowsServed := b.rowsServed + (b.q.take n).length }, b.q.take n) := by
  unfold popUpTo
  split
  · next hn =>
    subst hn
    simp
  · rfl

omit [DecidableEq Node] in
theorem Holds.pop (h : Holds b s) (n : ℕ) :
    Holds (b.popUpTo n).1 (s.pop n).1 ∧ BufferResult.rows (b.popUpTo n).2 = (s.pop n).2 := by
  have h_out : b.q.take n = (s.queue.take n).2 := congrArg (List.take n) h.q
  rw [popUpTo_eq]
  refine ⟨⟨?_, h.cap, h.expected, h.done, ?_, h.canceled,
    Fifo.take_wellFormed n h.wellFormed⟩, congrArg BufferResult.rows h_out⟩
  · exact (congrArg (List.drop n) h.q).trans (Fifo.content_take n).symm
  · exact congrArg₂ (fun k out => k + List.length out) h.rowsServed h_out

/-- **`_BoundedBuffer` gives the answers of the abstract buffer.** -/
theorem simulates (capacity expected : ℕ) : Object.Simulates
    (object capacity expected : Object (BoundedBuffer Node Row) _ _)
    (FedQueue.object capacity expected) Holds where
  init := ⟨rfl, rfl, rfl, rfl, rfl, rfl, Fifo.create_wellFormed capacity⟩
  step b s op h := by
    have h_next : Holds (b.act op).1 (s.act op).1 ∧ (b.act op).2 = (s.act op).2 := by
      cases op with
      | push producer rows => exact h.push rows
      | pop maxRows => exact h.pop maxRows.toNat
      -- who has started is not kept
      | markStarted producer =>
        exact ⟨⟨h.q, h.cap, h.expected, h.done, h.rowsServed, h.canceled, h.wellFormed⟩, rfl⟩
      | markDone producer =>
        exact ⟨⟨h.q, h.cap, h.expected, congrArg (insert producer) h.done, h.rowsServed,
          h.canceled, h.wellFormed⟩, rfl⟩
      | cancel =>
        exact ⟨⟨rfl, h.cap, h.expected, h.done, h.rowsServed, rfl,
          Fifo.close_wellFormed h.wellFormed⟩, rfl⟩
    refine ⟨h_next.1, ?_⟩
    change (b.act op).1.answer (b.act op).2 = (s.act op).1.answer (s.act op).2
    rw [h_next.1.answer, h_next.2]

end BoundedBuffer
end Python

/-- **Both buffers are one bounded queue.** Whatever the capacity, the number of producers
and the operations, the C++ and the Python buffer give the same answers, and the history of
each is that of a bounded queue. -/
theorem buffers_keep_fifo {Node Row : Type*} [DecidableEq Node] (capacity expected : ℕ)
    (ops : List (BufferOp Node Row)) :
    let cpp : Object (ChunkBuffer Node Row) _ _ := ChunkBuffer.object capacity expected
    let python : Object (Python.BoundedBuffer Node Row) _ _ :=
      Python.BoundedBuffer.object capacity expected
    cpp.answers ops = python.answers ops ∧
      KeepsFifo capacity (cpp.history ops) (cpp.after ops).q (cpp.after ops).rowsServed ∧
      KeepsFifo capacity (python.history ops) (python.after ops).q
        (python.after ops).rowsServed := by
  intro cpp python
  have h_cpp : Object.Simulates cpp (FedQueue.object capacity expected) ChunkBuffer.Holds :=
    ChunkBuffer.simulates capacity expected
  have h_python :
      Object.Simulates python (FedQueue.object capacity expected) Python.BoundedBuffer.Holds :=
    Python.BoundedBuffer.simulates capacity expected
  -- the abstract buffer has the history, and both buffers have its answers
  have h_keeps := FedQueue.keepsFifo capacity expected ops
  refine ⟨(h_cpp.answers_eq ops).trans (h_python.answers_eq ops).symm, ?_, ?_⟩
  · have h_after := h_cpp.after ops
    have h_history : cpp.history ops = (FedQueue.object capacity expected).history ops :=
      congrArg (ops.zip ·) (h_cpp.answers_eq ops)
    rwa [h_history, h_after.q, h_after.rowsServed]
  · have h_after := h_python.after ops
    have h_history : python.history ops = (FedQueue.object capacity expected).history ops :=
      congrArg (ops.zip ·) (h_python.answers_eq ops)
    rwa [h_history, h_after.q, h_after.rowsServed]

end Mini2
