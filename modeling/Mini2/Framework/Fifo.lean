import Mathlib.Data.List.Basic
import Mathlib.Tactic.Common

/-!
# A bounded queue that can be closed

`Fifo` says what a bounded queue is for: it accepts items up to its capacity and hands
them out in the order in which it has accepted them. It keeps all items that it has ever
accepted and the number of those handed out; what it holds lies in between. A closed
queue holds nothing, and pretends to accept.

* `Fifo.handedOut_append_content` — what is handed out, followed by what is held, is what
  has been accepted.
* `Fifo.handedOut_take`, `Fifo.handedOut_offer`, `Fifo.handedOut_close` — only taking hands
  items out.
-/

namespace Framework

/-- A bounded queue of items. -/
structure Fifo (α : Type*) where
  capacity : ℕ
  /-- All items accepted so far. -/
  accepted : List α
  /-- How many of them have been handed out. -/
  served : ℕ
  closed : Bool

namespace Fifo

variable {α : Type*}

/-- An empty queue. -/
def create (capacity : ℕ) : Fifo α := ⟨capacity, [], 0, false⟩

variable (f : Fifo α) (xs : List α) (n : ℕ)

/-- The items that the queue holds. -/
def content : List α := if f.closed then [] else f.accepted.drop f.served

/-- The items that have been handed out. -/
def handedOut : List α := f.accepted.take f.served

/-- The items that an offer adds. -/
def added : List α :=
  if f.closed then [] else xs.take (min xs.length (f.capacity - f.content.length))

/-- Offer items, of which the first ones are accepted as far as there is room. -/
def offer : Fifo α × ℕ :=
  ({ f with accepted := f.accepted ++ f.added xs },
    if f.closed then xs.length else min xs.length (f.capacity - f.content.length))

/-- Take up to `n` items. -/
def take : Fifo α × List α :=
  let out := f.content.take n
  ({ f with served := f.served + out.length }, out)

/-- Give up what is held, for good. -/
def close : Fifo α := { f with closed := true }

/-- The queue holds no more than its capacity, and has not handed out what it has not
accepted. -/
structure WellFormed (f : Fifo α) : Prop where
  served : f.served ≤ f.accepted.length
  bounded : f.content.length ≤ f.capacity

variable {f}

/-- An open queue holds what has been accepted and not handed out. -/
theorem content_of_open (h : f.closed = false) : f.content = f.accepted.drop f.served := by
  rw [content, h, if_neg Bool.false_ne_true]

theorem content_of_closed (h : f.closed = true) : f.content = [] := by
  rw [content, if_pos h]

/-- **First in, first out.** -/
theorem handedOut_append_content (h : f.closed = false) :
    f.handedOut ++ f.content = f.accepted := by
  rw [content_of_open h]
  exact List.take_append_drop _ _

theorem create_wellFormed (capacity : ℕ) : WellFormed (create capacity : Fifo α) :=
  ⟨Nat.le_refl _, Nat.zero_le _⟩

/-- A closed queue adds nothing. -/
theorem added_of_closed (h : f.closed = true) : f.added xs = [] := by
  rw [added, if_pos h]

/-- An offer adds its items at the end. -/
theorem content_offer (h : f.WellFormed) :
    (f.offer xs).1.content = f.content ++ f.added xs := by
  cases hclosed : f.closed with
  | true =>
    -- it adds nothing, and shows nothing
    rw [content_of_closed (by exact hclosed), content_of_closed hclosed, added_of_closed xs hclosed,
      List.append_nil]
  | false =>
    rw [content_of_open (by exact hclosed), content_of_open hclosed]
    exact List.drop_append_of_le_length h.served

theorem offer_wellFormed (h : f.WellFormed) : (f.offer xs).1.WellFormed := by
  refine ⟨?_, ?_⟩
  · -- what has been handed out is still there
    change f.served ≤ (f.accepted ++ _).length
    rw [List.length_append]
    exact Nat.le_trans h.served (Nat.le_add_right _ _)
  · have h_bounded := h.bounded
    rw [content_offer xs h, List.length_append]
    change _ ≤ f.capacity
    unfold added
    split
    · exact h_bounded
    · rw [List.length_take]
      omega

/-- Offering hands nothing out. -/
theorem handedOut_offer (h : f.WellFormed) : (f.offer xs).1.handedOut = f.handedOut :=
  List.take_append_of_le_length h.served

theorem take_wellFormed (h : f.WellFormed) : (f.take n).1.WellFormed := by
  cases hclosed : f.closed with
  | true =>
    -- a closed queue has nothing to hand out
    have h_none : f.content = [] := content_of_closed hclosed
    refine ⟨?_, ?_⟩
    · simpa [take, h_none] using h.served
    · rw [content_of_closed (by exact hclosed)]
      exact Nat.zero_le _
  | false =>
    -- what is handed out is served from now on
    have h_served := h.served
    have h_bounded := h.bounded
    rw [content_of_open hclosed, List.length_drop] at h_bounded
    refine ⟨?_, ?_⟩
    · change f.served + (f.content.take n).length ≤ f.accepted.length
      rw [content_of_open hclosed, List.length_take, List.length_drop]
      omega
    · rw [content_of_open (by exact hclosed), List.length_drop]
      change f.accepted.length - (f.served + (f.content.take n).length) ≤ f.capacity
      omega

/-- Taking hands out what it takes. -/
theorem handedOut_take : (f.take n).1.handedOut = f.handedOut ++ (f.take n).2 := by
  cases hclosed : f.closed with
  | true =>
    have h_none : f.content = [] := content_of_closed hclosed
    simp [take, handedOut, h_none]
  | false =>
    have h_out : (f.take n).2 = (f.accepted.drop f.served).take n := by
      rw [← content_of_open hclosed]
      rfl
    -- what is taken may be shorter than `n`, but the counter moves by its length
    have h_prefix : (f.take n).2 = (f.accepted.drop f.served).take (f.take n).2.length := by
      rw [h_out]
      exact List.prefix_iff_eq_take.mp (List.take_prefix n _)
    change f.accepted.take (f.served + (f.take n).2.length) = _
    rw [List.take_add, ← h_prefix]
    rfl

/-- Taking removes what it takes. -/
theorem content_take : (f.take n).1.content = f.content.drop n := by
  cases hclosed : f.closed with
  | true =>
    rw [content_of_closed hclosed, content_of_closed (by exact hclosed), List.drop_nil]
  | false =>
    have h_closed : (f.take n).1.closed = false := hclosed
    rw [content_of_open h_closed]
    change f.accepted.drop (f.served + (f.content.take n).length) = _
    rw [← List.drop_drop, ← content_of_open hclosed, List.length_take]
    -- taking more than there is empties the queue
    rcases Nat.le_total n f.content.length with hn | hn
    · rw [Nat.min_eq_left hn]
    · rw [Nat.min_eq_right hn, List.drop_length, List.drop_of_length_le hn]

theorem close_wellFormed (h : f.WellFormed) : f.close.WellFormed :=
  ⟨h.served, Nat.zero_le _⟩

@[simp] theorem content_close : f.close.content = [] := rfl

/-- Closing hands nothing out. -/
@[simp] theorem handedOut_close : f.close.handedOut = f.handedOut := rfl

end Fifo
end Framework
