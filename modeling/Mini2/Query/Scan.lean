import Mathlib.Data.List.Basic
import Mathlib.Data.List.Flatten

/-!
# The output of one engine run

`QueryEngine::run` hands its rows to a sink, one call for each chunk, and marks
the last call as done. `Scan` is such a sequence of calls: the node servers rest
on its shape and on nothing else about the engine.
-/

namespace Mini2

/-- One call of the engine's sink. -/
structure SinkCall (Row : Type*) where
  rows : List Row
  done : Bool
  deriving DecidableEq

/-- The sink calls of one run, of which exactly the last is marked as done. -/
structure Scan (Row : Type*) where
  calls : List (SinkCall Row)
  shape : ∃ init last, calls = init ++ [last] ∧ last.done = true ∧ ∀ c ∈ init, c.done = false

namespace Scan

variable {Row : Type*}

/-- The scan of an engine that hands over all of its rows at once. -/
def single (rows : List Row) : Scan Row where
  calls := [⟨rows, true⟩]
  shape := ⟨[], ⟨rows, true⟩, rfl, rfl, by simp⟩

/-- The rows of all sink calls together. -/
def rows (s : Scan Row) : List Row := s.calls.flatMap SinkCall.rows

/-- Nothing follows a call marked as done. -/
theorem length_of_done (s : Scan Row) {k : ℕ} {c : SinkCall Row} (hc : s.calls[k]? = some c)
    (hdone : c.done = true) : s.calls.length = k + 1 := by
  obtain ⟨init, last, heq, -, hinit⟩ := s.shape
  rw [heq] at hc ⊢
  have hk : k < (init ++ [last]).length := (List.getElem?_eq_some_iff.mp hc).1
  by_cases hlt : k < init.length
  · rw [List.getElem?_append_left hlt] at hc
    have h_false := hinit c (List.mem_of_getElem? hc)
    rw [hdone] at h_false
    exact absurd h_false (by simp)
  · rw [List.length_append, List.length_singleton] at hk ⊢
    omega

end Scan
end Mini2
