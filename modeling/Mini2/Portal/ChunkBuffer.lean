import Mathlib.Data.Finset.Card
import Mathlib.Data.List.Basic

/-!
# The buffer between producers and the client

`ChunkBuffer` holds the rows of one request that the portal has received and
the client has not fetched, and the set of producers known to be done. Every
method runs under the buffer's mutex and is one atomic action here. The timed
wait of `popUpTo` gives the mutex up, so it only delays the draining that
follows it; `Mini2.Portal.BufferMonitor` shows that.

* `pushRows_fst_q`, `popUpTo_append` — what a push adds to the queue and a pop
  takes from it.
* `isFinal_iff` — what the end of a result rests on.
-/

namespace Mini2

/-- `ChunkBuffer`. The queue's head is the row the client gets next. -/
structure ChunkBuffer (Node Row : Type*) where
  q : List Row
  capacity : ℕ
  expectedProducers : ℕ
  started : Finset Node
  done : Finset Node
  rowsServed : ℕ
  canceled : Bool

namespace ChunkBuffer

variable {Node Row : Type*}

/-- The constructor. -/
def create (capacity expectedProducers : ℕ) : ChunkBuffer Node Row where
  q := []
  capacity := capacity
  expectedProducers := expectedProducers
  started := ∅
  done := ∅
  rowsServed := 0
  canceled := false

/-- The free places of the queue. -/
def avail (b : ChunkBuffer Node Row) : ℕ :=
  if b.q.length ≥ b.capacity then 0 else b.capacity - b.q.length

/-- The rows a push appends. -/
def taken (b : ChunkBuffer Node Row) (rows : List Row) : List Row :=
  if b.canceled then [] else rows.take (min rows.length b.avail)

/-- Push rows, and the number of rows accepted. A canceled buffer pretends to
accept and drops. -/
def pushRows (b : ChunkBuffer Node Row) (rows : List Row) : ChunkBuffer Node Row × ℕ :=
  if rows.isEmpty then (b, 0)
  else if b.canceled then (b, rows.length)
  else
    let take := min rows.length b.avail
    ({ b with q := b.q ++ rows.take take }, take)

/-- Drain up to `maxRows` rows. -/
def popUpTo (b : ChunkBuffer Node Row) (maxRows : ℕ) : ChunkBuffer Node Row × List Row :=
  let out := b.q.take maxRows
  ({ b with q := b.q.drop maxRows, rowsServed := b.rowsServed + out.length }, out)

def cancel (b : ChunkBuffer Node Row) : ChunkBuffer Node Row :=
  { b with canceled := true, q := [] }

def isCanceled (b : ChunkBuffer Node Row) : Bool := b.canceled

def isFinal (b : ChunkBuffer Node Row) : Bool :=
  if b.canceled then true else b.q.isEmpty && decide (b.done.card ≥ b.expectedProducers)

def bufferedRows (b : ChunkBuffer Node Row) : ℕ := b.q.length

def pendingProducers (b : ChunkBuffer Node Row) : ℕ :=
  if b.done.card ≥ b.expectedProducers then 0 else b.expectedProducers - b.done.card

section Mark

variable [DecidableEq Node]

def markProducerStarted (b : ChunkBuffer Node Row) (producer : Node) : ChunkBuffer Node Row :=
  { b with started := insert producer b.started }

def markProducerDone (b : ChunkBuffer Node Row) (producer : Node) : ChunkBuffer Node Row :=
  { b with done := insert producer b.done }

variable (b : ChunkBuffer Node Row) (producer : Node)

@[simp] theorem markProducerDone_q : (b.markProducerDone producer).q = b.q := rfl

@[simp] theorem markProducerDone_capacity :
    (b.markProducerDone producer).capacity = b.capacity := rfl

@[simp] theorem markProducerDone_expectedProducers :
    (b.markProducerDone producer).expectedProducers = b.expectedProducers := rfl

@[simp] theorem markProducerDone_done :
    (b.markProducerDone producer).done = insert producer b.done := rfl

@[simp] theorem markProducerDone_canceled :
    (b.markProducerDone producer).canceled = b.canceled := rfl

/-- Marks for started producers touch nothing else. -/
theorem foldl_markProducerStarted (ns : List Node) : ns.foldl markProducerStarted b =
    { b with started := (ns.foldl markProducerStarted b).started } := by
  induction ns generalizing b with
  | nil => rfl
  | cons n ns ih => exact ih (b.markProducerStarted n)

end Mark

variable (b : ChunkBuffer Node Row) (rows : List Row) (maxRows : ℕ)

/-- A push appends the rows it takes and touches nothing else. -/
theorem pushRows_fst : (b.pushRows rows).1 = { b with q := b.q ++ b.taken rows } := by
  unfold pushRows taken
  split
  · next hrows =>
    obtain rfl := List.isEmpty_iff.mp hrows
    simp
  · split
    · simp
    · rfl

@[simp] theorem pushRows_fst_q : (b.pushRows rows).1.q = b.q ++ b.taken rows := by
  rw [pushRows_fst]

@[simp] theorem pushRows_fst_expectedProducers :
    (b.pushRows rows).1.expectedProducers = b.expectedProducers := by
  rw [pushRows_fst]

@[simp] theorem pushRows_fst_capacity : (b.pushRows rows).1.capacity = b.capacity := by
  rw [pushRows_fst]

@[simp] theorem pushRows_fst_done : (b.pushRows rows).1.done = b.done := by
  rw [pushRows_fst]

@[simp] theorem pushRows_fst_canceled : (b.pushRows rows).1.canceled = b.canceled := by
  rw [pushRows_fst]

theorem taken_sublist : (b.taken rows).Sublist rows := by
  unfold taken
  split
  · exact List.nil_sublist _
  · exact List.take_sublist _ _

/-- A push takes rows up to the free places. -/
theorem taken_eq_take (hlive : b.canceled = false) : b.taken rows = rows.take b.avail := by
  rw [taken, hlive, if_neg (by simp), List.take_eq_take_iff]
  omega

theorem avail_of_empty (h : b.q = []) : b.avail = b.capacity := by
  unfold avail
  rw [h, List.length_nil, Nat.sub_zero]
  split <;> omega

/-- A push that has room for all of its rows takes them all. -/
theorem taken_eq_of_room (hlive : b.canceled = false)
    (hroom : b.q.length + rows.length ≤ b.capacity) : b.taken rows = rows := by
  have h_avail : rows.length ≤ b.avail := by
    unfold avail
    split <;> omega
  rw [taken_eq_take b rows hlive, List.take_of_length_le h_avail]

/-- The rows a pop returns are the head of the queue, in order. -/
theorem popUpTo_append : (b.popUpTo maxRows).2 ++ (b.popUpTo maxRows).1.q = b.q :=
  List.take_append_drop maxRows b.q

@[simp] theorem popUpTo_fst_expectedProducers :
    (b.popUpTo maxRows).1.expectedProducers = b.expectedProducers := rfl

@[simp] theorem popUpTo_fst_done : (b.popUpTo maxRows).1.done = b.done := rfl

@[simp] theorem popUpTo_fst_canceled : (b.popUpTo maxRows).1.canceled = b.canceled := rfl

/-- The end of the result of a buffer that is not canceled. -/
theorem isFinal_iff (hlive : b.canceled = false) :
    b.isFinal = true ↔ b.q = [] ∧ b.expectedProducers ≤ b.done.card := by
  simp [isFinal, hlive]

end ChunkBuffer
end Mini2
