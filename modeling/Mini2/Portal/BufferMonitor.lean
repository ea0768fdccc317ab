import Mini2.Framework.Monitor
import Mini2.Python.BoundedBuffer

/-!
# The buffers under their mutex

`popUpTo` waits for rows, for a while, with the mutex given up. Here both buffers are
monitors, with any number of threads: the handlers of `PushChunk` and `FetchChunk`, the local
executor, the janitor. `buffers_serve_threads` says what these rely on, whatever the order in
which they get the mutex. The wait cannot be seen in the answers, so that the buffer may be
taken for one whose methods are atomic; no thread is left waiting for rows that are there; and
a pop of `ChunkBuffer` that may wait returns without rows only at the end of the result or
when its time is up.

`_BoundedBuffer` does not promise the last. It waits once, and does not look again at what it
has waited for.
-/

namespace Mini2

open Framework

/-- A call of a method. Only a pop looks at `blockMs`, the time that it may wait. -/
structure BufferCall (Node Row : Type*) where
  op : BufferOp Node Row
  blockMs : ℤ

namespace BufferCall

variable {Node Row : Type*}

/-- A pop that waits for rows. -/
def mayWait (c : BufferCall Node Row) : Bool :=
  match c.op with
  | .pop maxRows => decide (maxRows ≠ 0) && decide (c.blockMs > 0)
  | _ => false

/-- What waits is a pop for some rows. -/
theorem exists_of_mayWait {c : BufferCall Node Row} (h : c.mayWait = true) :
    ∃ maxRows, c.op = .pop maxRows ∧ maxRows ≠ 0 := by
  obtain ⟨op, blockMs⟩ := c
  cases op with
  | pop maxRows =>
    simp only [mayWait, Bool.and_eq_true, decide_eq_true_eq] at h
    exact ⟨maxRows, rfl, h.1⟩
  | push | markStarted | markDone | cancel => exact absurd h (by simp [mayWait])

end BufferCall

section History

variable {σ Thread Node Row : Type*}
  (s : Monitor.State σ Thread (BufferCall Node Row) (BufferAnswer Row))

/-- The methods that have returned. -/
def bufferOps : List (BufferOp Node Row) :=
  (s.returned.map Monitor.Return.op).map BufferCall.op

/-- The methods that have returned, with their answers. -/
def bufferHistory : BufferHistory Node Row := s.history.map (Prod.map BufferCall.op id)

variable {s}

/-- The threads have what the methods alone give. -/
theorem bufferHistory_eq {M : Monitor σ (BufferCall Node Row) (BufferAnswer Row)}
    {O : Object σ (BufferOp Node Row) (BufferAnswer Row)}
    (hM : M.toObject = O.comap BufferCall.op) (h : Monitor.Sequential M s) :
    bufferHistory s = O.history (bufferOps s) ∧ s.object = O.after (bufferOps s) := by
  constructor
  · rw [bufferHistory, h.history, hM]
    exact O.history_comap BufferCall.op _
  · rw [h.object, hM]
    exact O.after_comap BufferCall.op _

end History

section Serves

variable {σ Thread Node Row : Type*} [DecidableEq Thread]
  {M : Monitor σ (BufferCall Node Row) (BufferAnswer Row)} {capacity : ℕ}

/-- What the threads rely on that share a buffer, after the actions `as`. The buffer holds the
rows `q` and has served `rowsServed`. -/
structure ServesThreads (M : Monitor σ (BufferCall Node Row) (BufferAnswer Row)) (capacity : ℕ)
    (as : List (Monitor.Action Thread (BufferCall Node Row)))
    (s : Monitor.State σ Thread (BufferCall Node Row) (BufferAnswer Row)) (q : List Row)
    (rowsServed : ℕ) : Prop where
  /-- The methods have returned as those of a bounded queue. -/
  fifo : KeepsFifo capacity (bufferHistory s) q rowsServed
  /-- Each call of a thread has returned once, in the thread's order, or is its last one. -/
  once : ∀ t, s.callsOf t = as.flatMap (·.calls t)
  /-- Nobody waits for what is there. -/
  awake : M.ready s.object = true → ∀ t c, s.phase t ≠ .waiting c
  /-- A thread in a call then returns as soon as it has the mutex. -/
  returns : M.ready s.object = true → ∀ t c, (s.phase t).pending = [c] →
    ∃ late, M.act s (.resume t) = some (M.perform s t c late)

theorem servesThreads {O : Object σ (BufferOp Node Row) (BufferAnswer Row)}
    (hO : M.toObject = O.comap BufferCall.op) (hM : M.Notifies) {q : σ → List Row}
    {rowsServed : σ → ℕ}
    (hfifo : ∀ ops, KeepsFifo capacity (O.history ops) (q (O.after ops)) (rowsServed (O.after ops)))
    {as : List (Monitor.Action Thread (BufferCall Node Row))}
    {s : Monitor.State σ Thread (BufferCall Node Row) (BufferAnswer Row)}
    (h : (M.machine Thread).Run (fun _ _ => True) (M.machine Thread).init as s) :
    ServesThreads M capacity as s (q s.object) (rowsServed s.object) := by
  have h_reached : M.Reachable s := ⟨as, h⟩
  refine ⟨?_, fun t => ?_, Monitor.nobody_waits hM h_reached, fun hready t c hpending =>
    Monitor.resumes_when_ready hM h_reached hready hpending⟩
  · -- the calls in the order of their returns are a sequence of operations of the buffer
    obtain ⟨h_history, h_object⟩ := bufferHistory_eq hO (Monitor.returned_sequential h_reached)
    rw [h_history, h_object]
    exact hfifo _
  · exact Monitor.calls_return_once h t

end Serves

/-! ### ChunkBuffer -/

namespace ChunkBuffer

variable {Node Row : Type*} [DecidableEq Node]

/-- The predicate of the wait. -/
def ready (b : ChunkBuffer Node Row) : Bool :=
  !b.q.isEmpty || b.canceled || decide (b.done.card ≥ b.expectedProducers)

/-- The methods that notify `cv_not_empty_`. Nobody waits for `cv_not_full_`. -/
def notifies (b : ChunkBuffer Node Row) : BufferOp Node Row → Bool
  | .push _ rows => !rows.isEmpty && !b.canceled && decide (0 < min rows.length b.avail)
  | .markDone _ => true
  | .cancel => true
  | _ => false

/-- A `ChunkBuffer` for the threads of a portal. -/
def monitor (capacity expectedProducers : ℕ) :
    Monitor (ChunkBuffer Node Row) (BufferCall Node Row) (BufferAnswer Row) where
  toObject := (object capacity expectedProducers).comap BufferCall.op
  ready := ready
  waits := BufferCall.mayWait
  notifies b c := b.notifies c.op
  rechecks := true

omit [DecidableEq Node] in
theorem ready_of_q {b : ChunkBuffer Node Row} (h : b.q ≠ []) : b.ready = true := by
  rw [ready, List.isEmpty_eq_false_iff.mpr h]
  rfl

/-- **Whatever ends a wait notifies.** -/
theorem ready_act {b : ChunkBuffer Node Row} {op : BufferOp Node Row}
    (h : (b.act op).1.ready = true) : b.ready = true ∨ b.notifies op = true := by
  cases op with
  | push producer rows =>
    by_cases hnotify : b.notifies (.push producer rows) = true
    · exact Or.inr hnotify
    · -- a push that notifies nobody has added nothing
      left
      have h_taken : b.taken rows = [] := by
        simp only [notifies, Bool.and_eq_true, Bool.not_eq_true', decide_eq_true_eq, not_and,
          not_lt, Nat.le_zero] at hnotify
        unfold taken
        split
        · rfl
        · next hlive =>
          cases rows with
          | nil => exact List.take_nil
          | cons r rows => rw [hnotify ⟨rfl, Bool.eq_false_iff.mpr hlive⟩, List.take_zero]
      have h_same : (b.act (.push producer rows)).1 = b := by
        show (b.pushRows rows).1 = b
        rw [pushRows_fst, h_taken, List.append_nil]
      rwa [h_same] at h
  | pop maxRows =>
    -- a pop leaves no rows that were not there
    left
    by_cases hq : b.q = []
    · have h_drop : (b.act (.pop maxRows)).1.q = [] := by
        show b.q.drop _ = []
        rw [hq, List.drop_nil]
      rw [ready, h_drop] at h
      rw [ready, hq]
      exact h
    · exact ready_of_q hq
  | markStarted producer => exact Or.inl h
  | markDone producer => exact Or.inr rfl
  | cancel => exact Or.inr rfl

omit [DecidableEq Node] in
/-- A pop that finds what it waits for and returns no rows has found the end. -/
theorem isFinal_of_ready {b : ChunkBuffer Node Row} {maxRows : UInt32} (hready : b.ready = true)
    (hmax : maxRows ≠ 0) (hnone : (b.popUpTo maxRows.toNat).2 = []) :
    (b.popUpTo maxRows.toNat).1.isFinal = true := by
  -- no row has been popped, so none was there
  have h_q : b.q = [] := by
    rcases List.take_eq_nil_iff.mp hnone with h | h
    · exact absurd (UInt32.toNat_inj.mp h) hmax
    · exact h
  rw [ready, h_q, Bool.or_assoc] at hready
  -- what it has waited for is a cancellation, or the last mark
  cases hcanceled : b.canceled with
  | true =>
    rw [isFinal, popUpTo_fst_canceled, hcanceled]
    rfl
  | false =>
    rw [hcanceled] at hready
    rw [isFinal, popUpTo_fst_canceled, hcanceled, if_neg Bool.false_ne_true]
    show ((b.q.drop _).isEmpty && _) = true
    rw [h_q, List.drop_nil]
    exact hready

theorem monitor_notifies (capacity expected : ℕ) :
    (monitor capacity expected : Monitor (ChunkBuffer Node Row) _ _).Notifies :=
  fun _ _ h => ready_act h

/-- A pop that may wait and returns no rows in time has found the end. -/
theorem isFinal_of_pop {Thread : Type*} [DecidableEq Thread] {capacity expected : ℕ}
    {s : Monitor.State (ChunkBuffer Node Row) Thread _ _}
    (h : (monitor capacity expected).Reachable s)
    {r : Monitor.Return Thread (BufferCall Node Row) (BufferAnswer Row)} (hr : r ∈ s.returned)
    (hwaits : r.op.mayWait = true) (hlate : r.late = false) (hnone : r.out.result.popped = []) :
    r.out.isFinal = true := by
  obtain ⟨l₁, l₂, h_split⟩ := List.append_of_mem hr
  -- the pop found the predicate of its wait, in the state that it is answered from
  have h_ready := Monitor.ready_at_return rfl h h_split hwaits hlate
  have h_out := (Monitor.returned_sequential h).answer h_split
  obtain ⟨maxRows, h_pop, hmax⟩ := BufferCall.exists_of_mayWait hwaits
  generalize (monitor capacity expected).after (l₁.map Monitor.Return.op) = b at h_ready h_out
  have h_answer : r.out = (b.popUpTo maxRows.toNat).1.answer
      (.rows (b.popUpTo maxRows.toNat).2) := by
    rw [h_out]
    show (b.act r.op.op).1.answer (b.act r.op.op).2 = _
    rw [h_pop]
    rfl
  rw [h_answer] at hnone ⊢
  exact isFinal_of_ready h_ready hmax hnone

end ChunkBuffer

/-! ### _BoundedBuffer -/

namespace Python.BoundedBuffer

variable {Node Row : Type*} [DecidableEq Node]

/-- What a pop looks at before it waits. -/
def ready (b : BoundedBuffer Node Row) : Bool :=
  !b.q.isEmpty || b.canceled || decide (b.done.card ≥ b.expected)

/-- The methods that notify `_cv`. It is the only one, so that a pop notifies it as well. -/
def notifies (b : BoundedBuffer Node Row) : BufferOp Node Row → Bool
  | .push _ rows => !b.canceled && decide (min rows.length (b.cap - b.q.length) ≠ 0)
  | .pop maxRows => !(b.popUpTo maxRows.toNat).2.isEmpty
  | .markDone _ => true
  | .cancel => true
  | .markStarted _ => false

/-- A `_BoundedBuffer` for the threads of a portal. -/
def monitor (capacity expectedProducers : ℕ) :
    Monitor (BoundedBuffer Node Row) (BufferCall Node Row) (BufferAnswer Row) where
  toObject := (object capacity expectedProducers).comap BufferCall.op
  ready := ready
  waits := BufferCall.mayWait
  notifies b c := b.notifies c.op
  rechecks := false

/-- **Whatever ends a wait notifies.** -/
theorem ready_act {b : BoundedBuffer Node Row} {op : BufferOp Node Row}
    (h : (b.act op).1.ready = true) : b.ready = true ∨ b.notifies op = true := by
  cases op with
  | push producer rows =>
    by_cases hnotify : b.notifies (.push producer rows) = true
    · exact Or.inr hnotify
    · -- a push that notifies nobody has added nothing
      left
      have h_same : (b.push rows).1 = b := by
        simp only [notifies, Bool.and_eq_true, Bool.not_eq_true', decide_eq_true_eq, not_and,
          not_not] at hnotify
        unfold push
        split
        · rfl
        · next hlive =>
          rw [if_neg (not_not.mpr (hnotify (Bool.eq_false_iff.mpr hlive)))]
      rwa [show (b.act (.push producer rows)).1 = b from h_same] at h
  | pop maxRows =>
    left
    rw [show (b.act (.pop maxRows)).1 = (b.popUpTo maxRows.toNat).1 from rfl, popUpTo_eq] at h
    by_cases hq : b.q = []
    · rw [ready, hq] at h ⊢
      rw [List.drop_nil] at h
      exact h
    · rw [ready, List.isEmpty_eq_false_iff.mpr hq]
      rfl
  | markStarted producer => exact Or.inl h
  | markDone producer => exact Or.inr rfl
  | cancel => exact Or.inr rfl

theorem monitor_notifies (capacity expected : ℕ) :
    (monitor capacity expected : Monitor (BoundedBuffer Node Row) _ _).Notifies :=
  fun _ _ h => ready_act h

end Python.BoundedBuffer

/-! ### Both buffers -/

section Threads

variable {Node Row : Type*} [DecidableEq Node]

/-- **What the threads of a portal can rely on.** In every state that any number of threads
reach with their calls, whoever gets the mutex first, whoever is woken for no reason and
whenever the time of a wait is up, both buffers serve the threads: the methods have returned as
those of a bounded queue, each call once, and nobody waits where rows, a cancellation or the
marks of all producers are there. A pop of `ChunkBuffer` that may wait and returns no rows is
late, or has found the end of the result. -/
theorem buffers_serve_threads (Thread : Type*) [DecidableEq Thread] (capacity expected : ℕ) :
    (∀ (as : List (Monitor.Action Thread (BufferCall Node Row))) s,
      let M : Monitor (ChunkBuffer Node Row) _ _ := ChunkBuffer.monitor capacity expected
      (M.machine Thread).Run (fun _ _ => True) (M.machine Thread).init as s →
        ServesThreads M capacity as s s.object.q s.object.rowsServed ∧
        ∀ r ∈ s.returned, r.op.mayWait = true → r.out.result.popped = [] →
          r.late = true ∨ r.out.isFinal = true) ∧
    ∀ (as : List (Monitor.Action Thread (BufferCall Node Row))) s,
      let M : Monitor (Python.BoundedBuffer Node Row) _ _ :=
        Python.BoundedBuffer.monitor capacity expected
      (M.machine Thread).Run (fun _ _ => True) (M.machine Thread).init as s →
        ServesThreads M capacity as s s.object.q s.object.rowsServed := by
  constructor
  · intro as s M h
    constructor
    · exact servesThreads (O := ChunkBuffer.object capacity expected) rfl
        (ChunkBuffer.monitor_notifies capacity expected)
        (fun ops => (buffers_keep_fifo capacity expected ops).2.1) h
    · -- a pop that has not run late has found its condition
      intro r hr hwaits hnone
      cases hlate : r.late with
      | true => exact Or.inl rfl
      | false => exact Or.inr (ChunkBuffer.isFinal_of_pop ⟨as, h⟩ hr hwaits hlate hnone)
  · intro as s M h
    exact servesThreads (O := Python.BoundedBuffer.object capacity expected) rfl
      (Python.BoundedBuffer.monitor_notifies capacity expected)
      (fun ops => (buffers_keep_fifo capacity expected ops).2.2) h

/-- A pop waits, is notified by a push, and takes its row. -/
def wokenByPush : List (Monitor.Action Bool (BufferCall Unit ℕ)) :=
  [.call false ⟨.pop 2, 150⟩, .call true ⟨.push () [7], 0⟩, .resume false]

theorem buffers_serve_threads_woken : ∃ s : Monitor.State (ChunkBuffer Unit ℕ) Bool _ _,
    ((ChunkBuffer.monitor 4 1).machine Bool).Run (fun _ _ => True)
      ((ChunkBuffer.monitor 4 1).machine Bool).init wokenByPush s ∧
    s.returned.map (fun r => r.out.result) = [.accepted 1, .rows [7]] ∧
    ServesThreads (ChunkBuffer.monitor 4 1) 4 wokenByPush s s.object.q s.object.rowsServed := by
  obtain ⟨s, hrun, hs⟩ := Machine.exists_run_of_exec
    (M := (ChunkBuffer.monitor 4 1 : Monitor (ChunkBuffer Unit ℕ) _ _).machine Bool)
    (P := fun _ _ => True) (s := ((ChunkBuffer.monitor 4 1).machine Bool).init)
    (Φ := fun s => s.returned.map (fun r => r.out.result) = [.accepted 1, .rows [7]])
    (l := wokenByPush) (by decide)
  exact ⟨s, hrun, hs, ((buffers_serve_threads Bool 4 1).1 wokenByPush s hrun).1⟩

end Threads

/-- One of two producers is done. The pop of `_BoundedBuffer` that this wakes returns no
rows, in time, before the end of the result. -/
example : (((Python.BoundedBuffer.monitor 4 2).machine Bool).exec (fun _ _ => True)
    ((Python.BoundedBuffer.monitor 4 2).machine Bool).init
    [.call false ⟨.pop 2, 150⟩, .call true ⟨.markDone true, 0⟩, .resume false]).any
    (fun s : Monitor.State (Python.BoundedBuffer Bool ℕ) Bool (BufferCall Bool ℕ) _ =>
      s.returned.any fun r => r.op.mayWait && !r.late && r.out.result.popped.isEmpty &&
        !r.out.isFinal) = true := by
  decide

end Mini2
