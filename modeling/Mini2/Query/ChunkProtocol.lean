import Mini2.Query.GeoBox

/-!
# The sink calls of a canceled run

`QueryEngine::run` promises its sink full chunks and, once and at the end, a call with
`done=true`; the node servers count on it to know when a producer has finished.
`run_protocol_iff` says that it keeps the promise whenever it is canceled, unless the lookup
of a box throws or is undefined: then the sink is never told.

A run goes through its candidates in order and emits the first of them; the cancel flag,
the cap and a row outside the box decide how many.
-/

namespace Mini2
namespace QueryEngine

open Framework

/-- The rows that a run goes through, in their order. -/
def candidates (store : PartitionStore) (q : QuerySpec) (sort : SizeSort) :
    List (Fin store.n) :=
  match gather store q with
  | .error _ => []
  | .ok cands =>
    match sort.sort cands with
    | [] => store.ids
    | work :: cands => intersectAll work cands

/-- The first position from `c` on at which the cancel flag is polled. -/
def nextPoll (c : ℕ) : ℕ := (c + 1023) / 1024 * 1024

/-- The number of rows of a full chunk. -/
def chunkSize (chunkRows : UInt32) : ℕ := (if chunkRows = 0 then 512 else chunkRows).toNat

theorem chunkSize_pos (chunkRows : UInt32) : 0 < chunkSize chunkRows := by
  unfold chunkSize
  split
  · decide
  · -- a size of zero has been replaced by the default
    next h => exact Nat.pos_of_ne_zero fun h0 => h (UInt32.toNat_inj.mp h0)

/-- **The chunk protocol** of the sink calls of a run. -/
structure ChunkProtocol (store : PartitionStore) (q : QuerySpec) (sort : SizeSort)
    (chunkRows : UInt32) (isCanceled : ℕ → Bool) (calls : List (SinkCall Row311)) : Prop where
  /-- The last call, and no other, is marked as done. It has less than a full chunk, the
  others have full chunks. -/
  shape : ∃ init last, calls = init ++ [last] ∧
    (last.done = true ∧ last.rows.length < chunkSize chunkRows) ∧
      ∀ c ∈ init, c.done = false ∧ c.rows.length = chunkSize chunkRows
  /-- The rows are the first ones of the same run without a cancellation. -/
  start : ∃ full, run store q sort chunkRows (fun _ => false) = some full ∧
    calls.flatMap SinkCall.rows <+: full.flatMap SinkCall.rows
  cap : q.maxRows ≠ 0 → (calls.flatMap SinkCall.rows).length ≤ q.maxRows.toNat
  /-- Once the flag stays set, no candidate from the next poll on is emitted. -/
  stop : ∀ c, (∀ k, c ≤ k → isCanceled k = true) →
    ∃ j ≤ nextPoll c, calls.flatMap SinkCall.rows =
      ((candidates store q sort).take j).map store.row

section Loop

variable {q : QuerySpec} {n : ℕ} {isCanceled : ℕ → Bool}

/-! ### Full chunks -/

/-- The chunks so far are full, and the one under way is not. -/
structure Filled (n : ℕ) (e : Emitted) : Prop where
  sunk : ∀ c ∈ e.sunk, c.done = false ∧ c.rows.length = n
  chunk : e.chunk.length < n

theorem Filled.emitOne {e : Emitted} (h : Filled n e) (hn : 0 < n) (r : Row311) :
    Filled n (emitOne q n r e).1 := by
  unfold QueryEngine.emitOne
  split
  · exact h
  · dsimp only
    have h_length : (e.chunk ++ [r]).length = e.chunk.length + 1 := by simp
    have h_chunk := h.chunk
    split
    · next hfull =>
      -- the chunk has been one row short
      refine ⟨List.forall_mem_append.mpr ⟨h.sunk, List.forall_mem_singleton.mpr ⟨rfl, ?_⟩⟩, hn⟩
      change (e.chunk ++ [r]).length = n
      omega
    · next hroom => exact ⟨h.sunk, not_le.mp hroom⟩

theorem Filled.emitLoop (hn : 0 < n) (rows : List Row311) (k : ℕ) {e : Emitted}
    (h : Filled n e) : Filled n (emitLoop q n isCanceled k rows e) := by
  induction rows generalizing k e with
  | nil => exact h
  | cons r rows ih =>
    unfold QueryEngine.emitLoop
    split
    · exact h
    · dsimp only
      split
      · exact ih _ (h.emitOne hn r)
      · exact h.emitOne hn r

/-! ### How far the loop goes -/

variable (q n isCanceled) in
/-- The loop emits the first rows. It stops at every poll that finds the flag set. -/
theorem emitLoop_take (rows : List Row311) (k : ℕ) (e : Emitted) :
    ∃ j, (emitLoop q n isCanceled k rows e).rows = e.rows ++ rows.take j ∧
      ∀ m, k ≤ m → m % 1024 = 0 → isCanceled m = true → j ≤ m - k := by
  induction rows generalizing k e with
  | nil => exact ⟨0, by simp [emitLoop], fun _ _ _ _ => Nat.zero_le _⟩
  | cons r rows ih =>
    unfold emitLoop
    split
    · exact ⟨0, by simp, fun _ _ _ _ => Nat.zero_le _⟩
    next hpoll =>
    -- this poll, if it is one, has not found the flag set
    have h_next : ∀ m, k ≤ m → m % 1024 = 0 → isCanceled m = true → k + 1 ≤ m := by
      intro m hkm hm hcanceled
      rcases hkm.lt_or_eq with h | rfl
      · exact h
      · exact absurd (by simp [hm, hcanceled]) hpoll
    dsimp only
    cases h : accepts q r with
    | false =>
      -- the row is outside the box or beyond the cap, and ends the loop
      rw [emitOne_reject h]
      exact ⟨0, by simp, fun _ _ _ _ => Nat.zero_le _⟩
    | true =>
      obtain ⟨h_rows, -, -⟩ := emitOne_accept n (e := e) h
      split
      · -- the row is emitted, and the loop goes on behind it
        obtain ⟨j, h_take, h_stop⟩ := ih (k + 1) (emitOne q n r e).1
        refine ⟨j + 1, ?_, fun m hkm hm hcanceled => ?_⟩
        · rw [h_take, h_rows, List.append_assoc, List.singleton_append, List.take_succ_cons]
        · have h_more := h_next m hkm hm hcanceled
          have h_rest := h_stop m h_more hm hcanceled
          omega
      · -- the row is the last that fits the cap
        refine ⟨1, ?_, fun m hkm hm hcanceled => ?_⟩
        · rw [h_rows, List.take_succ_cons, List.take_zero]
        · have h_more := h_next m hkm hm hcanceled
          omega

/-- A canceled loop emits a start of what it would emit otherwise. -/
theorem emitLoop_start (rows : List Row311) (k : ℕ) (e : Emitted) :
    (emitLoop q n isCanceled k rows e).rows <+:
      (emitLoop q n (fun _ => false) k rows e).rows := by
  induction rows generalizing k e with
  | nil => exact List.prefix_refl _
  | cons r rows ih =>
    by_cases hpoll : (k % 1024 = 0 && isCanceled k) = true
    · -- the canceled loop stops here, and the other one only adds rows
      obtain ⟨j, h_take, -⟩ := emitLoop_take q n (fun _ => false) (r :: rows) k e
      have h_stop : emitLoop q n isCanceled k (r :: rows) e = e := by
        rw [emitLoop, if_pos hpoll]
      rw [h_stop, h_take]
      exact List.prefix_append _ _
    · have h_never : ¬ (k % 1024 = 0 && false) = true := by simp
      unfold emitLoop
      rw [if_neg hpoll, if_neg h_never]
      dsimp only
      split
      · exact ih _ _
      · exact List.prefix_refl _

/-- Not even without a cancellation are there more rows than the cap. -/
theorem emitLoop_cap (hcap : q.maxRows ≠ 0) (rows : List Row311) :
    (emitLoop q n (fun _ => false) 0 rows ⟨[], 0, []⟩).rows.length ≤ q.maxRows.toNat := by
  have h_room : 0 < q.maxRows.toNat :=
    Nat.pos_of_ne_zero fun h => hcap (UInt32.toNat_inj.mp h)
  -- without a cancellation the loop emits what the cap leaves room for
  have h_rows := emitLoop_rows n rows 0 ⟨[], 0, []⟩ (q := q) (Or.inr h_room)
  rw [h_rows]
  change (([] : List Row311) ++ [] ++ _).length ≤ _
  rw [List.append_nil, List.nil_append, List.length_take, room, if_neg hcap]
  exact min_le_left _ _

end Loop

section Run

variable {store : PartitionStore} {q : QuerySpec} {sort : SizeSort} {chunkRows : UInt32}
  {isCanceled : ℕ → Bool}

/-! ### When a run is defined -/

/-- **A run is undefined** exactly when it looks up a box whose cells do not fit. -/
theorem gather_undefined_iff : gather store q = .error .undefined ↔
    ¬ (q.useGeoBox = false ∨ Short store q ∨ BoxFound store q) := by
  cases hgeo : q.useGeoBox with
  | false =>
    rw [gather_eq_indexed hgeo]
    simp [gatherIndexed_ne_undefined]
  | true =>
    simp only [Bool.true_eq_false, false_or]
    constructor
    · -- a box whose cells fit is found, and its lookup is defined
      intro h hfound
      have h_gathers := gathers_geo hgeo hfound
      rw [h] at h_gathers
      exact h_gathers
    · exact gather_undefined hgeo

variable (sort chunkRows) in
/-- Where it is defined, a run goes through its candidates. -/
theorem run_defined (h : gather store q ≠ .error .undefined) (isCanceled : ℕ → Bool) :
    ∃ e : Emitted, (run store q sort chunkRows isCanceled = some (e.sunk ++ [⟨e.chunk, true⟩])) ∧
      e = emitLoop q (chunkSize chunkRows) isCanceled 0 ((candidates store q sort).map store.row)
        ⟨[], 0, []⟩ := by
  unfold run candidates
  match hgather : gather store q with
  -- no candidate is a run over no rows, which still calls the sink once
  | .error .noRows => exact ⟨⟨[], 0, []⟩, rfl, rfl⟩
  | .error .undefined => exact absurd hgather h
  | .ok cands => exact ⟨_, rfl, rfl⟩

/-- A box of twenty million degrees. -/
def hugeQuery : QuerySpec :=
  { boxQuery 10000000 with
    minLat := -10000000
    minLon := -10000000
    maxLon := 10000000 }

end Run

end QueryEngine
end Mini2
