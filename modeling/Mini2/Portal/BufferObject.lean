import Mini2.Framework.Fifo
import Mini2.Framework.Object
import Mini2.Portal.ChunkBuffer

/-!
# The buffer as an object

What producers and the client can do with a buffer, and what the buffer answers. A
sequence of operations is one order in which the methods take the buffer's mutex.

`FedQueue` is what the buffer is for: a bounded queue that is closed by a cancellation,
and a count of the producers that are not done. `ChunkBuffer` gives the same answers
(`ChunkBuffer.simulates`). `KeepsFifo` says of any history that it is that of a bounded
queue.
-/

namespace Mini2

open Framework

/-- The methods that change a buffer. A push comes from a producer, which the buffer does
not look at. -/
inductive BufferOp (Node Row : Type*)
  | push (producer : Node) (rows : List Row)
  | pop (maxRows : UInt32)
  | markStarted (producer : Node)
  | markDone (producer : Node)
  | cancel
  deriving DecidableEq

/-- What a method returns. -/
inductive BufferResult (Row : Type*)
  | none
  /-- The number of rows that a push has accepted. -/
  | accepted (n : ℕ)
  /-- The rows of a pop. -/
  | rows (rows : List Row)
  deriving DecidableEq

/-- The rows that a pop has returned. -/
def BufferResult.popped {Row : Type*} : BufferResult Row → List Row
  | .rows out => out
  | _ => []

/-- What a method returns, and what the others then say of the buffer. -/
structure BufferAnswer (Row : Type*) where
  result : BufferResult Row
  isCanceled : Bool
  isFinal : Bool
  bufferedRows : ℕ
  pendingProducers : ℕ
  rowsServed : ℕ

/-- Operations and their answers, in the order of time. -/
abbrev BufferHistory (Node Row : Type*) := List (BufferOp Node Row × BufferAnswer Row)

/-! ### Histories -/

section History

variable {Node Row : Type*} (t : BufferHistory Node Row)

/-- The part of a chunk that a push has accepted. -/
def acceptedPart : BufferOp Node Row × BufferAnswer Row → List Row
  | (.push _ rows, ⟨.accepted n, _, _, _, _, _⟩) => rows.take n
  | _ => []

/-- All accepted rows, in the order of their pushes. -/
def acceptedRows : List Row := t.flatMap acceptedPart

/-- All rows that pops have returned. -/
def poppedRows : List Row := t.flatMap fun x => x.2.result.popped

/-- The buffer has been canceled. -/
def WasCanceled : Prop := ∃ x ∈ t, x.1 = .cancel

/-- **A bounded queue.** The history of a buffer of some capacity, of its queue and of its
count of the rows served. -/
structure KeepsFifo (capacity : ℕ) (t : BufferHistory Node Row) (q : List Row)
    (rowsServed : ℕ) : Prop where
  bounded : q.length ≤ capacity
  /-- Rows come out as they have been accepted, none lost or twice. -/
  order : ¬ WasCanceled t → poppedRows t ++ q = acceptedRows t
  served : rowsServed = (poppedRows t).length
  drained : WasCanceled t → q = []
  /-- No pop after a cancellation returns a row. -/
  silent : ∀ t₁ a t₂, t = t₁ ++ (.cancel, a) :: t₂ → poppedRows t₂ = []

end History

/-! ### The abstract buffer -/

/-- A bounded queue, and the producers that it waits for. -/
structure FedQueue (Node Row : Type*) where
  queue : Fifo Row
  expected : ℕ
  done : Finset Node

namespace FedQueue

variable {Node Row : Type*} [DecidableEq Node]

/-- What the queue says of itself. -/
def answer (s : FedQueue Node Row) (result : BufferResult Row) : BufferAnswer Row where
  result := result
  isCanceled := s.queue.closed
  isFinal := s.queue.closed || (s.queue.content.isEmpty && decide (s.expected ≤ s.done.card))
  bufferedRows := s.queue.content.length
  pendingProducers := s.expected - s.done.card
  rowsServed := s.queue.served

def push (s : FedQueue Node Row) (rows : List Row) : FedQueue Node Row × BufferResult Row :=
  ({ s with queue := (s.queue.offer rows).1 }, .accepted (s.queue.offer rows).2)

def pop (s : FedQueue Node Row) (n : ℕ) : FedQueue Node Row × BufferResult Row :=
  ({ s with queue := (s.queue.take n).1 }, .rows (s.queue.take n).2)

def act (s : FedQueue Node Row) : BufferOp Node Row → FedQueue Node Row × BufferResult Row
  | .push _ rows => s.push rows
  | .pop maxRows => s.pop maxRows.toNat
  | .markStarted _ => (s, .none)
  | .markDone producer => ({ s with done := insert producer s.done }, .none)
  | .cancel => ({ s with queue := s.queue.close }, .none)

/-- A queue for `capacity` rows of `expected` producers. -/
def object (capacity expected : ℕ) :
    Object (FedQueue Node Row) (BufferOp Node Row) (BufferAnswer Row) where
  init := ⟨.create capacity, expected, ∅⟩
  step s op := ((s.act op).1, (s.act op).1.answer (s.act op).2)

/-- What the queue remembers of its history. -/
structure Remembers (capacity : ℕ) (t : BufferHistory Node Row) (s : FedQueue Node Row) :
    Prop where
  wellFormed : s.queue.WellFormed
  capacity : s.queue.capacity = capacity
  closed : s.queue.closed = true ↔ WasCanceled t
  popped : poppedRows t = s.queue.handedOut
  accepted : s.queue.closed = false → acceptedRows t = s.queue.accepted
  silent : ∀ t₁ a t₂, t = t₁ ++ (.cancel, a) :: t₂ → poppedRows t₂ = []

omit [DecidableEq Node] in
theorem poppedRows_concat (t : BufferHistory Node Row) (x : BufferOp Node Row × BufferAnswer Row) :
    poppedRows (t ++ [x]) = poppedRows t ++ x.2.result.popped := by
  rw [poppedRows, List.flatMap_append, List.flatMap_singleton]
  rfl

omit [DecidableEq Node] in
theorem acceptedRows_concat (t : BufferHistory Node Row)
    (x : BufferOp Node Row × BufferAnswer Row) :
    acceptedRows (t ++ [x]) = acceptedRows t ++ acceptedPart x := by
  rw [acceptedRows, List.flatMap_append, List.flatMap_singleton]
  rfl

omit [DecidableEq Node] in
theorem wasCanceled_concat {t : BufferHistory Node Row}
    {x : BufferOp Node Row × BufferAnswer Row} :
    WasCanceled (t ++ [x]) ↔ WasCanceled t ∨ x.1 = .cancel := by
  simp [WasCanceled, or_and_right, exists_or]

omit [DecidableEq Node] in
/-- A history stays silent after its cancellation as long as pops return nothing. -/
theorem silent_concat {t : BufferHistory Node Row} {x : BufferOp Node Row × BufferAnswer Row}
    (h : ∀ t₁ a t₂, t = t₁ ++ (.cancel, a) :: t₂ → poppedRows t₂ = [])
    (hx : WasCanceled t → x.2.result.popped = []) :
    ∀ t₁ a t₂, t ++ [x] = t₁ ++ (.cancel, a) :: t₂ → poppedRows t₂ = [] := by
  intro t₁ a t₂ heq
  -- the new operation is the last one behind the cancellation, or the cancellation itself
  rcases List.eq_nil_or_concat t₂ with rfl | ⟨t₂', y, rfl⟩
  · rfl
  · rw [List.concat_eq_append, ← List.cons_append, ← List.append_assoc] at heq
    obtain ⟨rfl, h_last⟩ := List.append_inj' heq rfl
    obtain rfl := List.head_eq_of_cons_eq h_last
    -- the cancellation is part of the history before
    have h_canceled : WasCanceled (t₁ ++ (.cancel, a) :: t₂') :=
      ⟨(.cancel, a), List.mem_append_right _ List.mem_cons_self, rfl⟩
    rw [List.concat_eq_append, poppedRows_concat, h t₁ a t₂' rfl, hx h_canceled]
    rfl

omit [DecidableEq Node] in
/-- An operation that leaves the queue alone. -/
theorem Remembers.idle {capacity : ℕ} {t : BufferHistory Node Row} {s s' : FedQueue Node Row}
    (hI : Remembers capacity t s) (hqueue : s'.queue = s.queue)
    {x : BufferOp Node Row × BufferAnswer Row} (hop : x.1 ≠ .cancel)
    (hpopped : x.2.result.popped = []) (haccepted : acceptedPart x = []) :
    Remembers capacity (t ++ [x]) s' := by
  -- the two states differ in the count of the producers only
  obtain ⟨queue, expected, done⟩ := s'
  obtain rfl : queue = s.queue := hqueue
  refine ⟨hI.wellFormed, hI.capacity, ?_, ?_, fun hopen => ?_,
    silent_concat hI.silent fun _ => hpopped⟩
  · rw [wasCanceled_concat, ← hI.closed]
    exact (or_iff_left hop).symm
  · rw [poppedRows_concat, hpopped, List.append_nil, hI.popped]
  · rw [acceptedRows_concat, haccepted, List.append_nil, hI.accepted hopen]

/-- **Every operation is remembered.** -/
theorem Remembers.step {capacity : ℕ} {t : BufferHistory Node Row} {s : FedQueue Node Row}
    (hI : Remembers capacity t s) (op : BufferOp Node Row) :
    Remembers capacity (t ++ [(op, (s.act op).1.answer (s.act op).2)]) (s.act op).1 := by
  cases op with
  | push producer rows =>
    refine ⟨Fifo.offer_wellFormed rows hI.wellFormed, hI.capacity, ?_, ?_, fun hopen => ?_,
      silent_concat hI.silent fun _ => rfl⟩
    · rw [wasCanceled_concat, or_iff_left (by simp), ← hI.closed]
      rfl
    · rw [poppedRows_concat, hI.popped]
      exact (List.append_nil _).trans (Fifo.handedOut_offer rows hI.wellFormed).symm
    · -- what an open queue adds is what it says it has accepted
      have hopen : s.queue.closed = false := hopen
      rw [acceptedRows_concat, hI.accepted hopen]
      simp [act, push, Fifo.offer, Fifo.added, hopen, acceptedPart, answer]
  | pop maxRows =>
    refine ⟨Fifo.take_wellFormed _ hI.wellFormed, hI.capacity, ?_, ?_, fun hopen => ?_,
      silent_concat hI.silent fun hcanceled => ?_⟩
    · rw [wasCanceled_concat, or_iff_left (by simp), ← hI.closed]
      rfl
    · rw [poppedRows_concat, hI.popped]
      exact (Fifo.handedOut_take _).symm
    · rw [acceptedRows_concat, hI.accepted hopen]
      exact List.append_nil _
    · -- a closed queue has nothing to hand out
      change s.queue.content.take maxRows.toNat = []
      rw [Fifo.content_of_closed (hI.closed.mpr hcanceled), List.take_nil]
  | markStarted producer =>
    refine hI.idle ?_ ?_ ?_ ?_
    · rfl
    · simp
    · rfl
    · rfl
  | markDone producer =>
    refine hI.idle ?_ ?_ ?_ ?_
    · rfl
    · simp
    · rfl
    · rfl
  | cancel =>
    refine ⟨Fifo.close_wellFormed hI.wellFormed, hI.capacity, ?_, ?_, fun hopen => ?_,
      silent_concat hI.silent fun _ => rfl⟩
    · rw [wasCanceled_concat]
      exact iff_of_true rfl (Or.inr rfl)
    · rw [poppedRows_concat, hI.popped]
      exact List.append_nil _
    · -- nothing is asked of what a closed queue has accepted
      exact absurd hopen (by simp [act, Fifo.close])

theorem remembers (capacity expected : ℕ) (ops : List (BufferOp Node Row)) :
    Remembers capacity ((object capacity expected).history ops)
      ((object capacity expected).after ops) := by
  -- induction on the history, operation by operation
  refine Object.history_invariant (Remembers capacity) ?_ (fun t s op hI => hI.step op) ops
  refine ⟨Fifo.create_wellFormed capacity, rfl, ?_, rfl, fun _ => rfl, ?_⟩
  · simp [object, Fifo.create, WasCanceled]
  · exact fun t₁ a t₂ h => absurd h (by simp)

/-- **The abstract buffer is a bounded queue.** -/
theorem keepsFifo (capacity expected : ℕ) (ops : List (BufferOp Node Row)) :
    KeepsFifo capacity ((object capacity expected).history ops)
      ((object capacity expected).after ops).queue.content
      ((object capacity expected).after ops).queue.served := by
  have h_mem := remembers capacity expected ops
  refine ⟨h_mem.wellFormed.bounded.trans_eq h_mem.capacity, fun hlive => ?_, ?_,
    fun hcanceled => ?_, h_mem.silent⟩
  · -- a buffer that was not canceled is an open queue
    have h_open := Bool.eq_false_iff.mpr (mt h_mem.closed.mp hlive)
    rw [h_mem.popped, h_mem.accepted h_open]
    exact Fifo.handedOut_append_content h_open
  · rw [h_mem.popped, Fifo.handedOut, List.length_take,
      Nat.min_eq_left h_mem.wellFormed.served]
  · exact Fifo.content_of_closed (h_mem.closed.mpr hcanceled)

end FedQueue

/-! ### ChunkBuffer -/

namespace ChunkBuffer

variable {Node Row : Type*} [DecidableEq Node]

def answer (b : ChunkBuffer Node Row) (result : BufferResult Row) : BufferAnswer Row where
  result := result
  isCanceled := b.isCanceled
  isFinal := b.isFinal
  bufferedRows := b.bufferedRows
  pendingProducers := b.pendingProducers
  rowsServed := b.rowsServed

def act (b : ChunkBuffer Node Row) : BufferOp Node Row → ChunkBuffer Node Row × BufferResult Row
  | .push _ rows => ((b.pushRows rows).1, .accepted (b.pushRows rows).2)
  | .pop maxRows => ((b.popUpTo maxRows.toNat).1, .rows (b.popUpTo maxRows.toNat).2)
  | .markStarted producer => (b.markProducerStarted producer, .none)
  | .markDone producer => (b.markProducerDone producer, .none)
  | .cancel => (b.cancel, .none)

/-- A new `ChunkBuffer`. -/
def object (capacity expectedProducers : ℕ) :
    Object (ChunkBuffer Node Row) (BufferOp Node Row) (BufferAnswer Row) where
  init := .create capacity expectedProducers
  step b op := ((b.act op).1, (b.act op).1.answer (b.act op).2)

/-- The buffer holds what the abstract queue holds. -/
structure Holds (b : ChunkBuffer Node Row) (s : FedQueue Node Row) : Prop where
  q : b.q = s.queue.content
  capacity : b.capacity = s.queue.capacity
  expectedProducers : b.expectedProducers = s.expected
  done : b.done = s.done
  rowsServed : b.rowsServed = s.queue.served
  canceled : b.canceled = s.queue.closed
  wellFormed : s.queue.WellFormed

/-- The code tests before it subtracts, since its numbers are unsigned. -/
theorem pending_eq (m n : ℕ) : (if m ≥ n then 0 else n - m) = n - m := by
  split <;> omega

omit [DecidableEq Node] in
theorem Holds.answer {b : ChunkBuffer Node Row} {s : FedQueue Node Row} (h : Holds b s)
    (result : BufferResult Row) : b.answer result = s.answer result := by
  -- the set of the producers that have started is not part of any answer
  obtain ⟨q, capacity, expected, started, done, served, canceled⟩ := b
  obtain ⟨rfl, rfl, rfl, rfl, rfl, rfl, -⟩ := h
  unfold ChunkBuffer.answer FedQueue.answer ChunkBuffer.isFinal ChunkBuffer.pendingProducers
  rw [pending_eq]
  cases hclosed : s.queue.closed with
  | true => simp [isCanceled, bufferedRows]
  | false => simp [isCanceled, bufferedRows]

omit [DecidableEq Node] in
theorem Holds.push {b : ChunkBuffer Node Row} {s : FedQueue Node Row} (h : Holds b s)
    (rows : List Row) : Holds (b.pushRows rows).1 (s.push rows).1 ∧
      BufferResult.accepted (b.pushRows rows).2 = (s.push rows).2 := by
  -- here too the code tests before it subtracts
  have h_avail : b.avail = s.queue.capacity - s.queue.content.length := by
    rw [avail, h.q, h.capacity]
    split <;> omega
  have h_taken : b.taken rows = s.queue.added rows := by
    rw [taken, Fifo.added, h.canceled, h_avail]
  refine ⟨⟨?_, ?_, ?_, ?_, ?_, ?_, Fifo.offer_wellFormed rows h.wellFormed⟩, ?_⟩
  · rw [pushRows_fst_q, h.q, h_taken]
    exact (Fifo.content_offer rows h.wellFormed).symm
  · rw [pushRows_fst]
    exact h.capacity
  · rw [pushRows_fst]
    exact h.expectedProducers
  · rw [pushRows_fst]
    exact h.done
  · rw [pushRows_fst]
    exact h.rowsServed
  · rw [pushRows_fst]
    exact h.canceled
  · -- an empty chunk is accepted in either way
    refine congrArg BufferResult.accepted ?_
    unfold pushRows Fifo.offer
    rw [h.canceled, h_avail]
    split
    · next hempty =>
      obtain rfl := List.isEmpty_iff.mp hempty
      simp
    · split <;> rfl

omit [DecidableEq Node] in
theorem Holds.pop {b : ChunkBuffer Node Row} {s : FedQueue Node Row} (h : Holds b s) (n : ℕ) :
    Holds (b.popUpTo n).1 (s.pop n).1 ∧ BufferResult.rows (b.popUpTo n).2 = (s.pop n).2 := by
  have h_out : (b.popUpTo n).2 = (s.queue.take n).2 := congrArg (List.take n) h.q
  refine ⟨⟨?_, h.capacity, h.expectedProducers, h.done, ?_, h.canceled,
    Fifo.take_wellFormed n h.wellFormed⟩, congrArg BufferResult.rows h_out⟩
  · exact (congrArg (List.drop n) h.q).trans (Fifo.content_take n).symm
  · exact congrArg₂ (fun k out => k + List.length out) h.rowsServed h_out

/-- **`ChunkBuffer` gives the answers of the abstract buffer.** -/
theorem simulates (capacity expected : ℕ) : Object.Simulates
    (object capacity expected : Object (ChunkBuffer Node Row) _ _)
    (FedQueue.object capacity expected) Holds where
  init := ⟨rfl, rfl, rfl, rfl, rfl, rfl, Fifo.create_wellFormed capacity⟩
  step b s op h := by
    -- the answer is read off the next states, so that these come first
    have h_next : Holds (b.act op).1 (s.act op).1 ∧ (b.act op).2 = (s.act op).2 := by
      cases op with
      | push producer rows => exact h.push rows
      | pop maxRows => exact h.pop maxRows.toNat
      | markStarted producer =>
        exact ⟨⟨h.q, h.capacity, h.expectedProducers, h.done, h.rowsServed, h.canceled,
          h.wellFormed⟩, rfl⟩
      | markDone producer =>
        exact ⟨⟨h.q, h.capacity, h.expectedProducers, congrArg (insert producer) h.done,
          h.rowsServed, h.canceled, h.wellFormed⟩, rfl⟩
      | cancel =>
        exact ⟨⟨rfl, h.capacity, h.expectedProducers, h.done, h.rowsServed, rfl,
          Fifo.close_wellFormed h.wellFormed⟩, rfl⟩
    refine ⟨h_next.1, ?_⟩
    change (b.act op).1.answer (b.act op).2 = (s.act op).1.answer (s.act op).2
    rw [h_next.1.answer, h_next.2]

end ChunkBuffer
end Mini2
