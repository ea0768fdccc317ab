import Mini2.Portal.ChunkBuffer
import Mathlib.Algebra.Order.Field.Rat
import Mathlib.Tactic.NormNum

/-!
# The state of one request at the portal

`RequestState` is what the registry keeps for a request: its buffer, the
adaptive chunk size, and the rows collected for the result cache. The running
mean of the fetch intervals is a double in the code and a rational here.
-/

namespace Mini2

/-- `RequestState`. The specification of the request stays with its run. -/
structure RequestState (Node Row : Type*) where
  buffer : ChunkBuffer Node Row
  suggestedChunk : UInt32
  minChunk : UInt32
  maxChunk : UInt32
  ewmaFetchMs : ℚ
  cacheCollect : Bool
  cacheMaxRows : ℕ
  cacheAccum : List Row

/-- The configuration values a request is created with. -/
structure RequestParams where
  /-- `chunk_buffer_cap` -/
  chunkBufferCap : ℕ
  /-- `initial_chunk_rows` -/
  initialChunkRows : UInt32
  /-- `min_chunk_rows` -/
  minChunkRows : UInt32
  /-- `max_chunk_rows` -/
  maxChunkRows : UInt32
  /-- `cache_max_rows` -/
  cacheMaxRows : ℕ
  /-- `push_backoff_ms` -/
  pushBackoffMs : UInt32

/-- The values of a configuration that sets none of them. -/
def RequestParams.default : RequestParams where
  chunkBufferCap := 65536
  initialChunkRows := 512
  minChunkRows := 64
  maxChunkRows := 4096
  cacheMaxRows := 50000
  pushBackoffMs := 25

namespace RequestState

variable {Node Row : Type*}

/-- `RequestRegistry::create`. -/
def create (params : RequestParams) (expectedProducers : ℕ) : RequestState Node Row where
  buffer := .create params.chunkBufferCap expectedProducers
  suggestedChunk := params.initialChunkRows
  minChunk := params.minChunkRows
  maxChunk := params.maxChunkRows
  ewmaFetchMs := 100
  cacheCollect := true
  cacheMaxRows := 50000
  cacheAccum := []

/-- `recordFetch`, `dt` milliseconds after the fetch before. -/
def recordFetch (st : RequestState Node Row) (dt : ℚ) : RequestState Node Row :=
  let dtMs := if dt < 1 / 10 then 1 / 10 else dt
  let ewma := 7 / 10 * st.ewmaFetchMs + 3 / 10 * dtMs
  let suggested :=
    if ewma < 20 then
      min st.maxChunk (st.suggestedChunk + st.suggestedChunk / 4 + 1)
    else if ewma > 500 then
      max st.minChunk (st.suggestedChunk - st.suggestedChunk / 4 - 1)
    else st.suggestedChunk
  let suggested := if suggested < st.minChunk then st.minChunk else suggested
  let suggested := if suggested > st.maxChunk then st.maxChunk else suggested
  { st with ewmaFetchMs := ewma, suggestedChunk := suggested }

/-- The rows a fetch asks the buffer for. -/
def want (st : RequestState Node Row) (maxRows : UInt32) : UInt32 :=
  let want := if maxRows = 0 then st.suggestedChunk else maxRows
  if want > st.maxChunk then st.maxChunk else want

/-- Shadow-accumulate the rows of a fetch for the result cache. -/
def accumulate (st : RequestState Node Row) (rows : List Row) : RequestState Node Row :=
  if st.cacheCollect then
    if st.cacheAccum.length + rows.length ≤ st.cacheMaxRows then
      { st with cacheAccum := st.cacheAccum ++ rows }
    else { st with cacheCollect := false, cacheAccum := [] }
  else st

/-- Apply a method of the buffer. -/
def withBuffer (st : RequestState Node Row) (buffer : ChunkBuffer Node Row) :
    RequestState Node Row :=
  { st with buffer := buffer }

variable (st : RequestState Node Row)

@[simp] theorem recordFetch_buffer (dt : ℚ) : (st.recordFetch dt).buffer = st.buffer := rfl

@[simp] theorem recordFetch_cacheCollect (dt : ℚ) :
    (st.recordFetch dt).cacheCollect = st.cacheCollect := rfl

@[simp] theorem recordFetch_cacheAccum (dt : ℚ) :
    (st.recordFetch dt).cacheAccum = st.cacheAccum := rfl

@[simp] theorem accumulate_buffer (rows : List Row) : (st.accumulate rows).buffer = st.buffer := by
  unfold accumulate
  split
  · split <;> rfl
  · rfl

@[simp] theorem withBuffer_buffer (b : ChunkBuffer Node Row) : (st.withBuffer b).buffer = b := rfl

@[simp] theorem withBuffer_cacheCollect (b : ChunkBuffer Node Row) :
    (st.withBuffer b).cacheCollect = st.cacheCollect := rfl

@[simp] theorem withBuffer_cacheAccum (b : ChunkBuffer Node Row) :
    (st.withBuffer b).cacheAccum = st.cacheAccum := rfl

/-- A request that still collects has collected the rows of the fetch. -/
theorem accumulate_collect {rows : List Row} (h : (st.accumulate rows).cacheCollect = true) :
    st.cacheCollect = true ∧ (st.accumulate rows).cacheAccum = st.cacheAccum ++ rows := by
  unfold accumulate at h ⊢
  split at h
  · next hcollect =>
    split at h
    · next hroom => rw [if_pos hcollect, if_pos hroom]; exact ⟨hcollect, rfl⟩
    · exact absurd h (by simp)
  · next hcollect => exact absurd h hcollect

/-- It has not collected more rows than the cache takes. -/
theorem length_collect {rows : List Row} (h : (st.accumulate rows).cacheCollect = true) :
    (st.accumulate rows).cacheAccum.length ≤ st.cacheMaxRows := by
  unfold accumulate at h ⊢
  split at h
  · next hcollect =>
    split at h
    · next hroom =>
      rw [if_pos hcollect, if_pos hroom, List.length_append]
      exact hroom
    · exact absurd h (by simp)
  · next hcollect => exact absurd h hcollect

/-- What is collected grows by the rows of the fetch at most. -/
theorem length_accumulate (rows : List Row) :
    (st.accumulate rows).cacheAccum.length ≤ st.cacheAccum.length + rows.length := by
  unfold accumulate
  split
  · split
    · exact (List.length_append ..).le
    · exact Nat.zero_le _
  · exact Nat.le_add_right _ _

end RequestState
end Mini2
