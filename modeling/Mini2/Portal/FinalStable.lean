import Mathlib.Data.Fintype.Card
import Mini2.Portal.BufferObject

/-!
# The end of a result is final

`FetchChunk` erases a request as soon as its buffer is final. `final_stable` says that
nothing is lost by that, provided the expected producers keep to their discipline: none of
them pushes rows after its own done mark.

`done_` is a set that the buffer compares by its size only, so the proof counts: as many
marks as there are producers are the marks of all of them.
-/

namespace Mini2

open Framework

variable {Node Row : Type*}

/-- The rows that a push brings. -/
def BufferOp.pushed : BufferOp Node Row → List Row
  | .push _ rows => rows
  | _ => []

/-- The discipline of the producers `E`. -/
structure Disciplined (E : Finset Node) (ops : List (BufferOp Node Row)) : Prop where
  /-- Only producers are marked as done. -/
  marked : ∀ p, .markDone p ∈ ops → p ∈ E
  /-- Rows come from producers, before their own done mark. -/
  pushes : ∀ ops₁ p rows ops₂, ops = ops₁ ++ .push p rows :: ops₂ → rows ≠ [] →
    p ∈ E ∧ .markDone p ∉ ops₁

theorem Disciplined.of_append {E : Finset Node} {ops₁ ops₂ : List (BufferOp Node Row)}
    (h : Disciplined E (ops₁ ++ ops₂)) : Disciplined E ops₁ where
  marked p hp := h.marked p (List.mem_append_left _ hp)
  pushes l p rows l' heq hrows := by
    -- a push of the first part is one of the whole, with the same operations before it
    refine h.pushes l p rows (l' ++ ops₂) ?_ hrows
    rw [heq, List.append_assoc, List.cons_append]

namespace ChunkBuffer

variable [DecidableEq Node]

/-! ### Marks -/

/-- An operation changes the marks by the producer that it marks. -/
theorem mem_done_act {b : ChunkBuffer Node Row} {op : BufferOp Node Row} {p : Node} :
    p ∈ (b.act op).1.done ↔ p ∈ b.done ∨ op = .markDone p := by
  cases op with
  | push producer rows => simp [act]
  | pop maxRows => simp [act]
  | markStarted producer => simp [act, markProducerStarted]
  | markDone producer =>
    change p ∈ insert producer b.done ↔ _
    rw [Finset.mem_insert, or_comm, BufferOp.markDone.injEq, eq_comm (a := p)]
  | cancel => simp [act, cancel]

theorem expectedProducers_act {b : ChunkBuffer Node Row} {op : BufferOp Node Row} :
    (b.act op).1.expectedProducers = b.expectedProducers := by
  cases op with
  | push producer rows => exact pushRows_fst_expectedProducers b rows
  | pop maxRows => rfl
  | markStarted producer => rfl
  | markDone producer => rfl
  | cancel => rfl

variable (capacity expected : ℕ) (ops : List (BufferOp Node Row))

theorem expectedProducers_after : ((object capacity expected).after ops).expectedProducers =
    expected :=
  Object.after_invariant (O := object capacity expected)
    (fun b : ChunkBuffer Node Row => b.expectedProducers = expected) rfl
    (fun _ _ hb => expectedProducers_act.trans hb) ops

theorem mem_done_after {p : Node} : p ∈ ((object capacity expected).after ops).done ↔
    .markDone p ∈ ops := by
  induction ops using List.reverseRecOn with
  | nil => simp [object, create, Object.after, Object.afterFrom]
  | append_singleton ops op ih =>
    rw [Object.after_concat]
    refine mem_done_act.trans ?_
    rw [ih, List.mem_append, List.mem_singleton, eq_comm (a := op)]

variable {capacity expected ops} {E : Finset Node}

/-- Marks of as many producers as there are in `E` are the marks of all of them. -/
theorem marked_iff_card (h : Disciplined E ops) :
    E.card ≤ ((object capacity expected).after ops).done.card ↔ ∀ p ∈ E, .markDone p ∈ ops := by
  have h_sub : ((object capacity expected).after ops).done ⊆ E := by
    intro p hp
    exact h.marked p ((mem_done_after capacity expected ops).mp hp)
  constructor
  · intro hcard p hp
    -- a subset of the producers of their number has them all
    rw [← mem_done_after capacity expected, Finset.eq_of_subset_of_card_le h_sub hcard]
    exact hp
  · intro hall
    exact Finset.card_le_card fun p hp => (mem_done_after capacity expected ops).mpr (hall p hp)

omit [DecidableEq Node] in
theorem pendingProducers_eq (b : ChunkBuffer Node Row) :
    b.pendingProducers = b.expectedProducers - b.done.card := pending_eq _ _

/-- Marks are never taken back. -/
theorem done_subset_afterFrom (b : ChunkBuffer Node Row) :
    b.done ⊆ ((object capacity expected).afterFrom b ops).done :=
  Object.afterFrom_invariant (O := object capacity expected)
    (fun c : ChunkBuffer Node Row => b.done ⊆ c.done)
    (fun _ _ hc _ hp => mem_done_act.mpr (Or.inl (hc hp))) (Finset.Subset.refl _) ops

/-! ### Finality -/

/-- The result has ended. -/
structure Ended (b : ChunkBuffer Node Row) : Prop where
  q : b.q = []
  settled : b.canceled = true ∨ b.expectedProducers ≤ b.done.card

/-- A cancellation has emptied the queue, so that a final buffer is always empty. -/
theorem isFinal_iff_ended :
    ((object capacity expected).after ops : ChunkBuffer Node Row).isFinal = true ↔
      Ended ((object capacity expected).after ops) := by
  have h_holds : Holds ((object capacity expected).after ops)
      ((FedQueue.object capacity expected).after ops : FedQueue Node Row) :=
    (simulates capacity expected).after ops
  -- the abstract queue knows that a cancellation empties the buffer
  generalize (object capacity expected).after ops = b at h_holds ⊢
  cases hcanceled : b.canceled with
  | true =>
    have h_q : b.q = [] := h_holds.q.trans
      (Fifo.content_of_closed (h_holds.canceled.symm.trans hcanceled))
    exact iff_of_true (by simp [isFinal, hcanceled]) ⟨h_q, Or.inl hcanceled⟩
  | false =>
    rw [isFinal_iff b hcanceled]
    exact ⟨fun h => ⟨h.1, Or.inr h.2⟩, fun h => ⟨h.q, h.settled.resolve_left (by simp [hcanceled])⟩⟩

/-- **One operation on a buffer that has ended.** It has still ended and hands out nothing,
unless rows are pushed into it. -/
theorem Ended.act {b : ChunkBuffer Node Row} (h : Ended b) {op : BufferOp Node Row}
    (hquiet : b.canceled = false → op.pushed = []) :
    Ended (b.act op).1 ∧ (b.act op).2.popped = [] := by
  cases op with
  | push producer rows =>
    -- a canceled buffer drops the rows
    have h_taken : b.taken rows = [] := by
      unfold taken
      split
      · rfl
      · next hlive =>
        have h_rows : rows = [] := hquiet (Bool.eq_false_iff.mpr hlive)
        rw [h_rows, List.take_nil]
    have h_same : (b.pushRows rows).1 = b := by
      rw [pushRows_fst, h_taken, List.append_nil]
    exact ⟨h_same.symm ▸ h, rfl⟩
  | pop maxRows =>
    refine ⟨⟨?_, h.settled⟩, ?_⟩
    · exact (congrArg (List.drop _) h.q).trans List.drop_nil
    · exact (congrArg (List.take _) h.q).trans List.take_nil
  | markStarted producer => exact ⟨⟨h.q, h.settled⟩, rfl⟩
  | markDone producer =>
    -- marks can only be more
    have h_grow := Finset.card_le_card (Finset.subset_insert producer b.done)
    exact ⟨⟨h.q, h.settled.imp_right fun hcard => hcard.trans h_grow⟩, rfl⟩
  | cancel => exact ⟨⟨rfl, Or.inl rfl⟩, rfl⟩

/-- After a disciplined end nobody has rows left to push. -/
theorem pushed_eq_nil {op : BufferOp Node Row} {rest : List (BufferOp Node Row)}
    (h : Disciplined E (ops ++ op :: rest))
    (hended : Ended ((object capacity E.card).after ops : ChunkBuffer Node Row))
    (hlive : ((object capacity E.card).after ops : ChunkBuffer Node Row).canceled = false) :
    op.pushed = [] := by
  cases op with
  | push producer rows =>
    by_contra hrows
    obtain ⟨h_mem, h_unmarked⟩ := h.pushes ops producer rows rest rfl hrows
    -- all producers are marked, this one included, and may not push
    have h_card := hended.settled.resolve_left (by simp [hlive])
    rw [expectedProducers_after] at h_card
    exact h_unmarked ((marked_iff_card h.of_append).mp h_card producer h_mem)
  | pop maxRows => rfl
  | markStarted producer => rfl
  | markDone producer => rfl
  | cancel => rfl

/-- A result that has ended stays ended, and nothing more is handed out. -/
theorem Ended.afterFrom {later : List (BufferOp Node Row)} (h : Disciplined E (ops ++ later))
    (hended : Ended ((object capacity E.card).after ops : ChunkBuffer Node Row)) :
    Ended ((object capacity E.card).after (ops ++ later) : ChunkBuffer Node Row) ∧
      ∀ a ∈ (object capacity E.card).answersFrom
        ((object capacity E.card).after ops : ChunkBuffer Node Row) later,
          a.result.popped = [] := by
  -- induction on what happens later: each operation joins what has happened
  induction later generalizing ops with
  | nil =>
    rw [List.append_nil]
    exact ⟨hended, fun a ha => absurd ha List.not_mem_nil⟩
  | cons op later ih =>
    -- the first operation pushes nothing, by the discipline
    obtain ⟨h_next, h_silent⟩ := hended.act (pushed_eq_nil h hended)
    have h_split : ops ++ op :: later = (ops ++ [op]) ++ later := by simp
    rw [h_split] at h ⊢
    obtain ⟨h_end, h_rest⟩ := ih h (by rw [Object.after_concat]; exact h_next)
    refine ⟨h_end, ?_⟩
    intro a ha
    rcases List.mem_cons.mp ha with rfl | ha
    · exact h_silent
    · rw [Object.after_concat] at h_rest
      exact h_rest a ha

end ChunkBuffer

/-- **Final is final.** The producers `E` keep to their discipline in `ops` and then in
`later`. If the buffer is final after `ops`, it is final after `later` too, and no pop of
`later` has returned a row. The number of pending producers never grows, and is zero
exactly when all producers are marked as done. -/
theorem final_stable [DecidableEq Node] (E : Finset Node) (capacity : ℕ)
    (ops later : List (BufferOp Node Row)) (h : Disciplined E (ops ++ later)) :
    let buffer : Object (ChunkBuffer Node Row) _ _ := ChunkBuffer.object capacity E.card
    ((buffer.after ops).isFinal = true →
      (buffer.after (ops ++ later)).isFinal = true ∧
        ∀ a ∈ buffer.answersFrom (buffer.after ops) later, a.result.popped = []) ∧
    (buffer.after (ops ++ later)).pendingProducers ≤ (buffer.after ops).pendingProducers ∧
    ((buffer.after ops).isCanceled = false →
      ((buffer.after ops).pendingProducers = 0 ↔ ∀ p ∈ E, .markDone p ∈ ops)) := by
  intro buffer
  refine ⟨?_, ?_, fun _ => ?_⟩
  · intro hfinal
    obtain ⟨h_end, h_silent⟩ := (ChunkBuffer.isFinal_iff_ended.mp hfinal).afterFrom h
    exact ⟨ChunkBuffer.isFinal_iff_ended.mpr h_end, h_silent⟩
  · -- the expected number stays, and marks are never taken back
    have h_grow : (buffer.after ops).done.card ≤ (buffer.after (ops ++ later)).done.card := by
      rw [Object.after_append]
      exact Finset.card_le_card (ChunkBuffer.done_subset_afterFrom _)
    rw [ChunkBuffer.pendingProducers_eq, ChunkBuffer.pendingProducers_eq,
      ChunkBuffer.expectedProducers_after, ChunkBuffer.expectedProducers_after]
    exact Nat.sub_le_sub_left h_grow _
  · rw [ChunkBuffer.pendingProducers_eq, ChunkBuffer.expectedProducers_after,
      Nat.sub_eq_zero_iff_le]
    exact ChunkBuffer.marked_iff_card h.of_append

/-- Two producers, one of which has a row. -/
theorem final_stable_two :
    let buffer : Object (ChunkBuffer ℕ ℕ) _ _ := ChunkBuffer.object 2 2
    let ops := [.push 0 [7], .markDone 0, .markDone 1, .pop 5]
    let later := [.pop 5, .markDone 0, .cancel, .pop 1]
    (buffer.after (ops ++ later)).isFinal = true ∧
      ∀ a ∈ buffer.answersFrom (buffer.after ops) later, a.result.popped = [] := by
  intro buffer ops later
  refine (final_stable ({0, 1} : Finset ℕ) 2 ops later ⟨?_, ?_⟩).1 (by decide)
  · intro p hp
    simp only [ops, later] at hp
    grind
  · intro ops₁ p rows ops₂ heq _
    cases ops₁ with
    | nil =>
      obtain ⟨h_push, -⟩ := List.cons_eq_cons.mp heq
      obtain ⟨rfl, -⟩ := BufferOp.push.inj h_push
      exact ⟨by decide, List.not_mem_nil⟩
    | cons op ops₁ =>
      -- no operation after the first one is a push
      have h_rest : ops.tail ++ later = ops₁ ++ .push p rows :: ops₂ :=
        (List.cons_eq_cons.mp heq).2
      have h_mem : BufferOp.push p rows ∈ ops₁ ++ .push p rows :: ops₂ := by simp
      rw [← h_rest] at h_mem
      simp [ops, later] at h_mem

end Mini2
