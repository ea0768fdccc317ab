import Mini2.Node.Handlers
import Mini2.Portal.Pacing

/-!
# The replay of a cached result

`SubmitQuery` pushes a cached result into the buffer of a new request, whose only producer is
the cache. The push takes what the buffer has room for, and its count of accepted rows is not
looked at. The client then fetches what is left (`Cached`), until a response is final.

`replays_iff` says when the client gets the whole result: the buffer has room for it, and a
fetch may return rows at all.
-/

namespace Mini2

variable {Rid Node : Type*}

/-- `SubmitAck` -/
structure SubmitAck (Rid : Type*) where
  requestId : Rid
  accepted : Bool
  cached : Bool

namespace Cluster

variable [DecidableEq Rid] [DecidableEq Node] (C : Cluster Node)

/-- `SubmitQuery`, on a query that the cache answers, at the time `now`. -/
def submitCached (s : NodeServer Rid Node) (rid : Rid) (spec : QuerySpec) (now : ℚ) :
    Option (NodeServer Rid Node × SubmitAck Rid) :=
  match s.cache.get C.hash.specHash spec with
  | (none, _) => none
  | (some rows, cache) =>
    some ({ s with
      cache := cache
      registry := Function.update s.registry rid (some ⟨spec, C.cachedState rows, now⟩) },
      ⟨rid, true, true⟩)

/-- The client drains a request: it fetches until a response is final. Each fetch has its
size and its time. -/
def drain (s : NodeServer Rid Node) (rid : Rid) :
    List (UInt32 × ℚ) → List (ChunkResponse Row311)
  | [] => []
  | (maxRows, now) :: fetches =>
    let (s, rsp) := C.fetchChunk s rid maxRows now
    rsp :: if rsp.final then [] else drain s rid fetches

/-- The fetch names a size, or the portal's own is never zero. -/
def Asks (fetch : UInt32 × ℚ) : Prop := fetch.1 ≠ 0 ∨ C.params.minChunkRows ≠ 0

instance : DecidablePred C.Asks := fun fetch => by
  unfold Asks
  infer_instance

/-- A client that drains the request gets `rows`, whatever the sizes of its fetches. -/
structure Replays (s : NodeServer Rid Node) (rid : Rid) (rows : List Row311) : Prop where
  live : ∀ fetches, ∀ rsp ∈ C.drain s rid fetches, rsp.canceled = false
  whole : ∀ fetches, (∃ rsp ∈ C.drain s rid fetches, rsp.final = true) →
    (C.drain s rid fetches).flatMap ChunkResponse.rows = rows
  /-- The client reaches the end. -/
  ends : ∀ fetches, rows.length < fetches.countP C.Asks →
    ∃ rsp ∈ C.drain s rid fetches, rsp.final = true

/-! ### What is left to replay -/

/-- The entry of a cached request with the rows `q` left in its buffer. -/
structure Cached (q : List Row311) (e : RequestEntry Node) : Prop where
  q : e.st.buffer.q = q
  live : e.st.buffer.canceled = false
  done : e.st.buffer.expectedProducers ≤ e.st.buffer.done.card
  collect : e.st.cacheCollect = false
  minChunk : e.st.minChunk = C.params.minChunkRows
  maxChunk : e.st.maxChunk = C.params.maxChunkRows

variable {C} {q rows : List Row311} {e : RequestEntry Node} {s : NodeServer Rid Node} {rid : Rid}

omit [DecidableEq Rid] in
/-- What the push into the new buffer leaves. -/
theorem Cached.start (C : Cluster Node) (spec : QuerySpec) (rows : List Row311) (now : ℚ) :
    C.Cached (rows.take C.params.chunkBufferCap) ⟨spec, C.cachedState rows, now⟩ := by
  refine ⟨?_, ?_, ?_, rfl, rfl, rfl⟩
  · change ((ChunkBuffer.pushRows _ rows).1.markProducerDone _).q = _
    -- the new buffer is empty, so the push has all of its room
    rw [ChunkBuffer.markProducerDone_q, ChunkBuffer.pushRows_fst_q,
      ChunkBuffer.taken_eq_take _ rows rfl]
    exact congrArg rows.take (ChunkBuffer.avail_of_empty _ rfl)
  · change ((ChunkBuffer.pushRows _ rows).1.markProducerDone _).canceled = false
    rw [ChunkBuffer.markProducerDone_canceled, ChunkBuffer.pushRows_fst_canceled]
    rfl
  · change ((ChunkBuffer.pushRows _ rows).1.markProducerDone _).expectedProducers ≤
      ((ChunkBuffer.pushRows _ rows).1.markProducerDone _).done.card
    rw [ChunkBuffer.markProducerDone_expectedProducers, ChunkBuffer.markProducerDone_done,
      ChunkBuffer.pushRows_fst_expectedProducers]
    -- the cache is the one producer that the buffer expects, and it is done
    exact Finset.card_pos.mpr ⟨_, Finset.mem_insert_self _ _⟩

omit [DecidableEq Rid] [DecidableEq Node] in
/-- One fetch takes its rows from the head of the queue. It is final once none are left. -/
theorem Cached.fetch (h : C.Cached q e) (maxRows : UInt32) (now : ℚ) :
    ∃ n, (e.fetch maxRows now).2.rows = q.take n ∧ C.Cached (q.drop n) (e.fetch maxRows now).1 ∧
      (e.fetch maxRows now).2.canceled = false ∧
      ((e.fetch maxRows now).2.final = true ↔ q.drop n = []) ∧
      n ≤ C.params.maxChunkRows.toNat ∧
      (C.params.maxChunkRows ≠ 0 → C.Asks (maxRows, now) → 0 < n) := by
  obtain ⟨rfl, h_live, h_done, h_collect, h_min, h_max⟩ := h
  let st := e.st.recordFetch (now - e.lastFetchAt)
  let popped := st.buffer.popUpTo (st.want maxRows).toNat
  -- nothing is collected of a request that the cache answers
  have h_st : (e.fetch maxRows now).1.st = st.withBuffer popped.1 := by
    change (st.withBuffer popped.1).accumulate popped.2 = _
    exact if_neg (by simp [st, h_collect])
  have h_buffer : ((st.withBuffer popped.1).accumulate popped.2).buffer = popped.1 := by simp
  refine ⟨(st.want maxRows).toNat, rfl, ⟨?_, ?_, ?_, ?_, ?_, ?_⟩, ?_, ?_, ?_, ?_⟩
  · rw [h_st]
    rfl
  · rw [h_st]
    exact h_live
  · rw [h_st]
    exact h_done
  · rw [h_st]
    exact h_collect
  · rw [h_st]
    exact h_min
  · rw [h_st]
    exact h_max
  · change ((st.withBuffer popped.1).accumulate popped.2).buffer.canceled = false
    rw [h_buffer]
    exact h_live
  · change ((st.withBuffer popped.1).accumulate popped.2).buffer.isFinal = true ↔ _
    rw [h_buffer, popped.1.isFinal_iff h_live]
    -- the producer is done, so an empty queue is the end
    exact and_iff_left h_done
  · rw [← h_max]
    exact RequestState.want_le st maxRows
  · intro hmax hasks
    rw [← h_max] at hmax
    -- a fetch that names no size takes the portal's, which is at least the minimum
    have h_suggested : maxRows ≠ 0 ∨ st.suggestedChunk ≠ 0 :=
      hasks.imp id fun hmin =>
        e.st.recordFetch_suggestedChunk _ (by rw [h_min]; exact hmin) hmax
    have h_want := RequestState.want_ne_zero st h_suggested hmax
    exact Nat.pos_of_ne_zero fun h => h_want (UInt32.toNat_inj.mp h)

/-- The portal answers with what a fetch of the entry returns, and keeps the entry until the
end. -/
theorem fetchChunk_found (hs : s.registry rid = some e) (maxRows : UInt32) (now : ℚ) :
    (C.fetchChunk s rid maxRows now).2 = (e.fetch maxRows now).2 ∧
      ((e.fetch maxRows now).2.final = false →
        (C.fetchChunk s rid maxRows now).1.registry rid = some (e.fetch maxRows now).1) := by
  have h_eq := fetchChunk_eq (C := C) s rid maxRows now
  rw [hs] at h_eq
  refine ⟨PortalReply.chunk.inj h_eq.2, fun hfinal => ?_⟩
  rw [h_eq.1, Function.update_self]
  -- the portal erases an entry only with its final response
  exact if_neg (Bool.eq_false_iff.mp hfinal)

/-- The client gets the rows from the head of the queue, and no more of them once a response
is final. -/
theorem Cached.drain (h : C.Cached q e) (hs : s.registry rid = some e)
    (fetches : List (UInt32 × ℚ)) :
    (∀ rsp ∈ C.drain s rid fetches, rsp.canceled = false) ∧
      (∀ rsp ∈ C.drain s rid fetches, rsp.rows.length ≤ C.params.maxChunkRows.toNat) ∧
      ∃ rest, (C.drain s rid fetches).flatMap ChunkResponse.rows ++ rest = q ∧
        ((∃ rsp ∈ C.drain s rid fetches, rsp.final = true) → rest = []) := by
  -- the queue gets shorter with every fetch
  induction fetches generalizing q e s with
  | nil => exact ⟨by simp [Cluster.drain], by simp [Cluster.drain], q, rfl, by simp [Cluster.drain]⟩
  | cons fetch fetches ih =>
    obtain ⟨maxRows, now⟩ := fetch
    obtain ⟨n, h_rows, h_next, h_live, h_final, h_size, -⟩ := h.fetch maxRows now
    obtain ⟨h_rsp, h_keep⟩ := fetchChunk_found (C := C) hs maxRows now
    have h_length : (e.fetch maxRows now).2.rows.length ≤ C.params.maxChunkRows.toNat := by
      rw [h_rows]
      exact (List.length_take_le n q).trans h_size
    unfold Cluster.drain
    dsimp only
    rw [h_rsp]
    cases h_end : (e.fetch maxRows now).2.final with
    | true =>
      -- a final response has taken what was left
      have h_all : q.take n = q :=
        List.take_of_length_le (List.drop_eq_nil_iff.mp (h_final.mp h_end))
      refine ⟨by simpa using h_live, by simpa using h_length, [], ?_, fun _ => rfl⟩
      rw [if_pos rfl, List.flatMap_singleton, h_rows, List.append_nil, h_all]
    | false =>
      obtain ⟨h_lives, h_lengths, rest, h_append, h_rest⟩ := ih h_next (h_keep h_end)
      rw [if_neg (by simp)]
      refine ⟨List.forall_mem_cons.mpr ⟨h_live, h_lives⟩,
        List.forall_mem_cons.mpr ⟨h_length, h_lengths⟩, rest, ?_, fun hex => h_rest ?_⟩
      · rw [List.flatMap_cons, List.append_assoc, h_append, h_rows, List.take_append_drop]
      · simpa [h_end] using hex

/-- The client reaches the end once it has asked more often than there are rows. -/
theorem Cached.ends (h : C.Cached q e) (hs : s.registry rid = some e)
    (hmax : q = [] ∨ C.params.maxChunkRows ≠ 0) (fetches : List (UInt32 × ℚ))
    (hasks : q.length < fetches.countP C.Asks) :
    ∃ rsp ∈ C.drain s rid fetches, rsp.final = true := by
  induction fetches generalizing q e s with
  | nil => exact absurd hasks (by simp)
  | cons fetch fetches ih =>
    obtain ⟨maxRows, now⟩ := fetch
    obtain ⟨n, -, h_next, -, h_final, -, h_some⟩ := h.fetch maxRows now
    obtain ⟨h_rsp, h_keep⟩ := fetchChunk_found (C := C) hs maxRows now
    unfold Cluster.drain
    dsimp only
    rw [h_rsp]
    cases h_end : (e.fetch maxRows now).2.final with
    | true => exact ⟨_, List.mem_cons_self, h_end⟩
    | false =>
      -- rows are left, so the limit of the portal cannot be zero
      have h_left : q.drop n ≠ [] := fun h => by simp [h_final.mpr h] at h_end
      have h_max : C.params.maxChunkRows ≠ 0 := hmax.resolve_left fun h => h_left (by simp [h])
      rw [if_neg (by simp)]
      obtain ⟨rsp, h_mem, h_rsp⟩ := ih h_next (h_keep h_end) (Or.inr h_max) (by
        rw [List.countP_cons] at hasks
        rw [List.length_drop]
        have h_length := List.length_pos_of_ne_nil h_left
        rw [List.length_drop] at h_length
        split at hasks
        · next h_asks =>
          have h_pos := h_some h_max (by simpa using h_asks)
          omega
        · omega)
      exact ⟨rsp, List.mem_cons_of_mem _ h_mem, h_rsp⟩

/-- **The replay of a cached result.** The client that drains a request which the cache has
answered gets the cached rows, in their order and whatever the sizes of its fetches, and then
the end of a result that is not canceled, exactly if the buffer has room for the rows, and a
fetch may return rows if there are any. -/
theorem replays_iff (C : Cluster Node) {s s' : NodeServer Rid Node} {rid : Rid}
    {spec : QuerySpec} {now : ℚ} {ack : SubmitAck Rid} {rows : List Row311}
    (hget : (s.cache.get C.hash.specHash spec).1 = some rows)
    (hsubmit : C.submitCached s rid spec now = some (s', ack)) :
    C.Replays s' rid rows ↔
      rows.length ≤ C.params.chunkBufferCap ∧ (rows = [] ∨ C.params.maxChunkRows ≠ 0) := by
  have h_entry : s'.registry rid = some ⟨spec, C.cachedState rows, now⟩ := by
    unfold submitCached at hsubmit
    split at hsubmit
    · exact absurd hsubmit (by simp)
    · next heq =>
      rw [heq] at hget
      obtain rfl : _ = rows := Option.some.inj hget
      rw [← (Prod.mk.inj (Option.some.inj hsubmit)).1]
      exact Function.update_self _ _ _
  have h_start := Cached.start C spec rows now
  constructor
  · intro h
    -- a client that asks for one row at a time, once more than there are rows
    have h_asks : rows.length <
        (List.replicate (rows.length + 1) ((1, 0) : UInt32 × ℚ)).countP C.Asks := by
      have h_one : C.Asks (1, 0) := Or.inl (by decide)
      rw [List.countP_replicate, if_pos (decide_eq_true h_one)]
      exact Nat.lt_succ_self _
    have h_end := h.ends _ h_asks
    have h_whole := h.whole _ h_end
    obtain ⟨-, h_lengths, rest, h_append, -⟩ := h_start.drain h_entry
      (List.replicate (rows.length + 1) (1, 0))
    rw [h_whole] at h_append
    refine ⟨?_, or_iff_not_imp_right.mpr fun hmax => ?_⟩
    · have h_length := congrArg List.length h_append
      rw [List.length_append, List.length_take] at h_length
      omega
    · -- no response has a row
      rw [← h_whole]
      refine List.flatMap_eq_nil_iff.mpr fun rsp hrsp => ?_
      have h_length := h_lengths rsp hrsp
      rw [not_not.mp hmax] at h_length
      exact List.eq_nil_of_length_eq_zero (Nat.le_zero.mp h_length)
  · rintro ⟨h_room, h_max⟩
    -- all rows have gone into the buffer
    rw [List.take_of_length_le h_room] at h_start
    refine ⟨fun fetches => (h_start.drain h_entry fetches).1, fun fetches hend => ?_,
      h_start.ends h_entry h_max⟩
    obtain ⟨-, -, rest, h_append, h_rest⟩ := h_start.drain h_entry fetches
    rw [h_rest hend, List.append_nil] at h_append
    exact h_append

/-- All complaints about noise since the second day. -/
def allNoise : QuerySpec := { QueryEngine.noiseQuery with maxRows := 0 }

/-- The two rows of `b` that it selects. -/
def noiseRows : List Row311 := QueryEngine.nearStore.rows.drop 1

/-- A portal that has them in its cache. -/
def warm : NodeServer ℕ Overlay.Id3 where
  registry _ := none
  cache := (QueryCache.create 256 50000).put near.hash.specHash allNoise noiseRows
  routes _ := none
  totalRowsServed := 0

/-- The default buffer has room for them. -/
theorem replays_near : ∃ s' ack, near.submitCached warm 7 allNoise 0 = some (s', ack) ∧
    near.Replays s' 7 noiseRows := by
  have h_get : (warm.cache.get near.hash.specHash allNoise).1 = some noiseRows := by
    decide +kernel
  have h_submit : ∃ s', near.submitCached warm 7 allNoise 0 = some s' :=
    Option.isSome_iff_exists.mp (by decide +kernel)
  obtain ⟨⟨s', ack⟩, h_submit⟩ := h_submit
  exact ⟨s', ack, h_submit, (replays_iff near h_get h_submit).mpr (by decide +kernel)⟩

/-- A buffer with one place. -/
def narrow : Cluster Overlay.Id3 :=
  { near with params := { near.params with chunkBufferCap := 1 } }

/-- The second row is dropped without a word: the only response has one row, and it is final
and not canceled. -/
theorem replay_dropped : ∃ s' ack, narrow.submitCached warm 7 allNoise 0 = some (s', ack) ∧
    ¬ narrow.Replays s' 7 noiseRows := by
  have h_drain : ∃ s' ∈ narrow.submitCached warm 7 allNoise 0,
      narrow.drain s'.1 7 [(512, 100)] = [⟨noiseRows.take 1, 512, 1, 0, false, true⟩] := by
    decide +kernel
  obtain ⟨⟨s', ack⟩, h_submit, h_drain⟩ := h_drain
  refine ⟨s', ack, h_submit, fun h => ?_⟩
  have h_whole := h.whole [(512, 100)]
  rw [h_drain] at h_whole
  exact absurd (h_whole ⟨_, List.mem_singleton_self _, rfl⟩) (by decide +kernel)

end Cluster
end Mini2
