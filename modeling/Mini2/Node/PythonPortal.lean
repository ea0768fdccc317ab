import Mini2.Node.PythonServers

/-!
# A cluster of Python servers

The portal of such a cluster is a Python server, too: it has no cache and no janitor, its buffer
is a `_BoundedBuffer`, and it paces its clients in unbounded integers. Within the limits in which
both portals suggest the same chunk sizes, every run of the cluster is one of C++ servers
(`servers_refine`), in which the janitor does nothing. So what holds of all those runs holds
here, as exact answers on a tree (`python_answer_exact`).
-/

namespace Mini2
namespace Python

open Framework

variable {Node Row : Type*}

/-! ### The two buffers -/

/-- The C++ buffer with the same content. -/
def BoundedBuffer.toChunkBuffer (b : BoundedBuffer Node Row) : ChunkBuffer Node Row :=
  ⟨b.q, b.cap, b.expected, b.started, b.done, b.rowsServed, b.canceled⟩

namespace BoundedBuffer

variable (b : BoundedBuffer Node Row) (rows : List Row)

theorem avail_toChunkBuffer : b.toChunkBuffer.avail = b.cap - b.q.length := by
  show (if b.q.length ≥ b.cap then 0 else b.cap - b.q.length) = _
  split <;> omega

/-- A push of no rows that are accepted changes nothing, as an empty addition does. -/
theorem push_of_open (h : b.canceled = false) : b.push rows =
    ({ b with q := b.q ++ rows.take (min rows.length (b.cap - b.q.length)) },
      min rows.length (b.cap - b.q.length)) := by
  unfold push
  rw [if_neg (by simp [h])]
  dsimp only
  split
  · rfl
  · next h_none => rw [not_not.mp h_none, List.take_zero, List.append_nil]

/-- A push has the same effect on both. -/
theorem push_toChunkBuffer : b.toChunkBuffer.pushRows rows =
    ((b.push rows).1.toChunkBuffer, (b.push rows).2) := by
  unfold ChunkBuffer.pushRows
  rw [avail_toChunkBuffer]
  cases h : b.canceled with
  | true =>
    have h_push : b.push rows = (b, rows.length) := if_pos h
    rw [h_push]
    -- a canceled buffer takes no rows and says that it has taken all
    split
    · next h_rows =>
      rw [List.isEmpty_iff.mp h_rows]
      rfl
    · exact if_pos h
  | false =>
    rw [push_of_open b rows h]
    -- no rows are the one case that the C++ code takes apart
    split
    · next h_rows =>
      rw [List.isEmpty_iff.mp h_rows]
      simp [toChunkBuffer]
    · exact if_neg (by simp [toChunkBuffer, h])

/-- Both accept the same rows. -/
theorem taken_toChunkBuffer : b.toChunkBuffer.taken rows =
    if b.canceled then [] else rows.take (b.push rows).2 := by
  unfold ChunkBuffer.taken
  rw [avail_toChunkBuffer]
  cases h : b.canceled with
  | true => exact if_pos h
  | false =>
    rw [push_of_open b rows h]
    exact if_neg (by simp [toChunkBuffer, h])

theorem popUpTo_toChunkBuffer (n : ℕ) : b.toChunkBuffer.popUpTo n =
    ((b.popUpTo n).1.toChunkBuffer, (b.popUpTo n).2) := by
  rw [popUpTo_eq]
  rfl

end BoundedBuffer

/-! ### The two portals -/

variable {lo hi : ℕ}

/-- A cluster of Python servers, and one around a C++ portal. The cache of the latter is left
out. -/
structure Agrees (lo hi : ℕ) (σ : Servers Node Row) (σ' : Mini2.Store Node Row) : Prop where
  routes : σ'.routes = σ.routes
  cancelMarks : σ'.cancelMarks = σ.cancelMarks
  aborting : σ'.aborting = σ.aborting
  buffer : σ'.st.buffer = σ.st.buffer.toChunkBuffer
  pace : InStep lo hi σ'.st σ.st.toRequestState
  registered : σ'.registered = σ.registered
  workers : σ'.workers = σ.workers
  pushes : σ'.pushes = σ.pushes
  fetches : σ'.fetches = σ.fetches
  cancelers : σ'.cancelers = σ.cancelers
  log : σ'.log = σ.log

/-- The pace of a portal does not depend on its buffer, nor on its cache. -/
theorem InStep.congr {cpp cpp' : Mini2.RequestState Node Row} {py : RequestState}
    (h : InStep lo hi cpp py) (hmin : cpp'.minChunk = cpp.minChunk)
    (hmax : cpp'.maxChunk = cpp.maxChunk) (hewma : cpp'.ewmaFetchMs = cpp.ewmaFetchMs)
    (hsize : cpp'.suggestedChunk = cpp.suggestedChunk) : InStep lo hi cpp' py := by
  obtain ⟨h_min, h_max, h_ewma, h_size, h_lo, h_hi⟩ := h
  exact ⟨hmin ▸ h_min, hmax ▸ h_max, hewma.trans h_ewma, hsize ▸ h_size, hsize ▸ h_lo,
    hsize ▸ h_hi⟩

/-- Both portals ask their buffers for the same number of rows. -/
theorem InStep.want_eq {cpp : Mini2.RequestState Node Row} {st : PortalRequest Node Row}
    (h : InStep lo hi cpp st.toRequestState) (maxRows : UInt32) :
    (st.want maxRows).toNat = (cpp.want maxRows).toNat := by
  obtain ⟨h_cpp, h_py⟩ := h.maxChunk
  have h_size := h.size
  have h_lt : ∀ a b : UInt32, a > b ↔ b.toNat < a.toNat := fun a b => UInt32.lt_iff_toNat_lt
  unfold PortalRequest.want Mini2.RequestState.want
  rw [h_py, h_size]
  -- the limits agree, so both comparisons go the same way
  by_cases h_zero : maxRows = 0
  · rw [if_pos h_zero, if_pos h_zero]
    dsimp only
    split
    · next h_gt =>
      have := (h_lt _ _).mp h_gt
      omega
    · next h_le =>
      have := mt (h_lt _ _).mpr h_le
      omega
  · rw [if_neg h_zero, if_neg h_zero]
    dsimp only
    split
    · next h_gt =>
      have := (h_lt _ _).mp h_gt
      omega
    · next h_le =>
      have := mt (h_lt _ _).mpr h_le
      omega

/-- Both suggest the same size to the client. -/
theorem InStep.suggested_eq {cpp : Mini2.RequestState Node Row} {py : RequestState}
    (h : InStep lo hi cpp py) : UInt32.ofNat py.suggestedChunk.toNat = cpp.suggestedChunk := by
  rw [h.size, Int.toNat_natCast]
  exact UInt32.ofNat_toNat

/-! ### Updates of both -/

section Updates

variable {σ τ : Servers Node Row} {σ' : Mini2.Store Node Row}

theorem Agrees.setPush (h : Agrees lo hi σ σ') (i : ℕ) (p : PushCall Node Row) :
    Agrees lo hi (σ.setPush i p) (σ'.setPush i p) :=
  { h with pushes := congrArg (fun ps => ps.set i p) h.pushes }

theorem Agrees.setFetch (h : Agrees lo hi σ σ') (i : ℕ) (f : Fetch Row) :
    Agrees lo hi (σ.setFetch i f) (σ'.setFetch i f) :=
  { h with fetches := congrArg (fun fs => fs.set i f) h.fetches }

theorem Agrees.setWorker (h : Agrees lo hi σ σ') (k : ℕ) (w : Worker Node Row) :
    Agrees lo hi { σ with workers := σ.workers.set k w } (σ'.setWorker k w) :=
  { h with workers := congrArg (fun ws => ws.set k w) h.workers }

/-- The state of the request changes in the same way on both sides. -/
theorem Agrees.withSt (h : Agrees lo hi σ σ') {st : PortalRequest Node Row}
    {st' : Mini2.RequestState Node Row} (hb : st'.buffer = st.buffer.toChunkBuffer)
    (hpace : InStep lo hi st' st.toRequestState) :
    Agrees lo hi { σ with st := st } { σ' with st := st' } :=
  { h with buffer := hb, pace := hpace }

/-- The buffer changes in the same way on both sides. -/
theorem Agrees.withBuffer (h : Agrees lo hi σ σ') {b : BoundedBuffer Node Row}
    {b' : ChunkBuffer Node Row} (hb : b' = b.toChunkBuffer) :
    Agrees lo hi { σ with st := { σ.st with buffer := b } }
      { σ' with st := σ'.st.withBuffer b' } :=
  h.withSt hb (h.pace.congr rfl rfl rfl rfl)

theorem Agrees.deposit (h : Agrees lo hi σ σ') (producer : Node) (seq : ℕ) (c : SinkCall Row) :
    Agrees lo hi (σ.deposit producer seq c) (σ'.deposit producer seq c) := by
  have h_push := σ.st.buffer.push_toChunkBuffer c.rows
  have h_taken := σ.st.buffer.taken_toChunkBuffer c.rows
  rw [← h.buffer] at h_push h_taken
  refine { h.withBuffer (congrArg Prod.fst h_push) with log := ?_ }
  show σ'.log ++ [⟨producer, seq, c, σ'.st.buffer.taken c.rows⟩] = _
  rw [h.log, h_taken]
  rfl

theorem Agrees.cancelBuffer (h : Agrees lo hi σ σ') :
    Agrees lo hi σ.cancelBuffer σ'.cancelBuffer :=
  h.withBuffer (by rw [h.buffer]; rfl)

variable [DecidableEq Node]

theorem Agrees.markDone (h : Agrees lo hi σ σ') (n : Node) :
    Agrees lo hi { σ with st := { σ.st with buffer := σ.st.buffer.markDone n } }
      { σ' with st := σ'.st.withBuffer (σ'.st.buffer.markProducerDone n) } :=
  h.withBuffer (by rw [h.buffer]; rfl)

theorem Agrees.markDoneIf (h : Agrees lo hi σ σ') (c : SinkCall Row) (n : Node) :
    Agrees lo hi (σ.markDoneIf c n) (σ'.markDoneIf c n) := by
  unfold Servers.markDoneIf Mini2.Store.markDoneIf
  by_cases h_done : c.done = true
  · rw [if_pos h_done, if_pos h_done]
    exact h.markDone n
  · rw [if_neg h_done, if_neg h_done]
    exact h

/-! ### Actions of both -/

variable {R : Request Node Row}

theorem Agrees.work (h : Agrees lo hi σ σ') {k : ℕ} (he : serverWork R σ k = some τ) :
    ∃ τ', Python.work R (fun _ => true) σ' k = some τ' ∧ Agrees lo hi τ τ' := by
  unfold serverWork at he
  unfold Python.work
  rw [h.workers, h.registered, h.pushes]
  split at he
  · exact absurd he (by simp)
  · next w hw =>
    -- both sides carry out the same effect
    obtain ⟨effect, h_effect, rfl⟩ := Option.map_eq_some_iff.mp he
    dsimp only
    rw [if_pos rfl, h_effect]
    refine ⟨effect.apply σ' k w, rfl, ?_⟩
    cases effect with
    | move w' => exact h.setWorker k w'
    | push c retries =>
      refine { h with workers := ?_, pushes := ?_ }
      · show σ'.workers.set k { w with pc := .pushing σ'.pushes.length retries } = _
        rw [h.workers, h.pushes]
      · show σ'.pushes ++ _ = _
        rw [h.pushes]
    | deposit c => exact (h.deposit w.node (w.history.length + 1) c).setWorker k _
    | mark c w' => exact (h.markDoneIf c w.node).setWorker k w'

omit [DecidableEq Node] in
theorem Agrees.cut (h : Agrees lo hi σ σ') {k m : ℕ} (he : scanCanceled σ k m = some τ) :
    ∃ τ', Request.cut σ' k m = some τ' ∧ Agrees lo hi τ τ' := by
  unfold scanCanceled at he
  unfold Request.cut
  rw [h.workers, h.cancelMarks]
  cases hw : σ.workers[k]? with
  | none =>
    rw [hw] at he
    exact absurd he (by simp)
  | some w =>
    rw [hw] at he
    obtain ⟨node, upstream, todo, history, pc⟩ := w
    cases pc with
    | ready =>
      cases todo with
      | nil => exact absurd he (by simp)
      | cons c todo =>
        -- the mark of the route and the length of the chunk are the same
        dsimp only at he ⊢
        by_cases hcut : σ.cancelMarks node = true ∧ m < c.rows.length
        · rw [if_pos hcut] at he
          obtain rfl := Option.some.inj he
          exact ⟨_, if_pos hcut, h.setWorker k _⟩
        · rw [if_neg hcut] at he
          exact absurd he (by simp)
    | _ => exact absurd he (by simp)

theorem Agrees.push (h : Agrees lo hi σ σ') {i : ℕ} (he : pushChunk R σ i = some τ) :
    ∃ τ', R.push σ' i = some τ' ∧ Agrees lo hi τ τ' := by
  unfold pushChunk at he
  unfold Request.push
  rw [h.pushes]
  cases hp : σ.pushes[i]? with
  | none =>
    rw [hp] at he
    exact absurd he (by simp)
  | some p =>
  rw [hp] at he
  obtain ⟨producer, seq, call, worker, hops, pc⟩ := p
  cases pc with
  | «at» n =>
    dsimp only at he ⊢
    rw [h.registered, h.routes]
    -- the portal looks the request up, a relay its route
    by_cases hn : n = R.overlay.portal
    · rw [if_pos hn] at he ⊢
      by_cases hreg : σ.registered = true
      · rw [if_pos hreg] at he
        obtain rfl := Option.some.inj he
        exact ⟨_, if_pos hreg, h.setPush i _⟩
      · rw [if_neg hreg] at he
        obtain rfl := Option.some.inj he
        exact ⟨_, if_neg hreg, h.setPush i _⟩
    · rw [if_neg hn] at he ⊢
      cases hroute : σ.routes n with
      | none =>
        rw [hroute] at he
        obtain rfl := Option.some.inj he
        exact ⟨_, rfl, h.setPush i _⟩
      | some route =>
        rw [hroute] at he
        dsimp only at he ⊢
        by_cases hpeer : route.upstreamPeer ∈ R.overlay.nbrs n
        · rw [if_pos hpeer] at he
          obtain rfl := Option.some.inj he
          exact ⟨_, if_pos hpeer, h.setPush i _⟩
        · rw [if_neg hpeer] at he
          obtain rfl := Option.some.inj he
          exact ⟨_, if_neg hpeer, h.setPush i _⟩
  | found =>
    dsimp only at he ⊢
    rw [h.buffer]
    -- the flag is that of the one buffer
    by_cases hcanceled : σ.st.buffer.canceled = true
    · rw [if_pos hcanceled] at he
      obtain rfl := Option.some.inj he
      exact ⟨_, if_pos hcanceled, h.setPush i _⟩
    · rw [if_neg hcanceled] at he
      obtain rfl := Option.some.inj he
      exact ⟨_, if_neg hcanceled, h.setPush i _⟩
  | live =>
    obtain rfl := Option.some.inj he
    refine ⟨_, rfl, ?_⟩
    -- the same number of rows is accepted
    rw [show (σ'.st.buffer.pushRows call.rows).2 = (σ.st.buffer.push call.rows).2 by
      rw [h.buffer, BoundedBuffer.push_toChunkBuffer]]
    exact (h.deposit producer seq call).setPush i _
  | pushed took =>
    obtain rfl := Option.some.inj he
    exact ⟨_, rfl, (h.markDoneIf call producer).setPush i _⟩
  | marked took =>
    obtain rfl := Option.some.inj he
    refine ⟨_, rfl, ?_⟩
    -- the answer is counted from the buffer
    unfold Request.depositAck
    rw [h.buffer]
    exact h.setPush i _
  | acked ack =>
    cases hops with
    | nil => exact absurd he (by simp)
    | cons n hops =>
      obtain rfl := Option.some.inj he
      exact ⟨_, rfl, h.setPush i _⟩

omit [DecidableEq Node] in
theorem Agrees.pushFail (h : Agrees lo hi σ σ') {i j : ℕ} (he : pushRaises σ i j = some τ) :
    ∃ τ', Request.pushFail σ' i j = some τ' ∧ Agrees lo hi τ τ' := by
  unfold pushRaises at he
  unfold Request.pushFail
  rw [h.pushes]
  cases hp : σ.pushes[i]? with
  | none =>
    rw [hp] at he
    exact absurd he (by simp)
  | some p =>
    rw [hp] at he
    dsimp only at he ⊢
    by_cases hj : j ≤ p.hops.length
    · rw [if_pos hj] at he
      obtain rfl := Option.some.inj he
      exact ⟨_, if_pos hj, { h with pushes := rfl }⟩
    · rw [if_neg hj] at he
      exact absurd he (by simp)

omit [DecidableEq Node] in
/-- A fetch: both portals move their chunk size alike, and return the same response. The C++ one
collects rows for its cache besides. -/
theorem Agrees.fetch (h : Agrees lo hi σ σ') (hlo : 1 ≤ lo) (hhi : hi ≤ 3000000000) {i : ℕ}
    {dt : ℚ} (he : fetchStep σ i dt = some τ) :
    ∃ τ', Request.fetch σ' i dt = some τ' ∧ Agrees lo hi τ τ' := by
  unfold fetchStep at he
  split at he
  · exact absurd he (by simp)
  next f hf =>
  have hf' : σ'.fetches[i]? = some f := by rw [h.fetches, hf]
  unfold Request.fetch
  rw [hf']
  obtain ⟨maxRows, rsp, pc⟩ := f
  cases pc with
  | found =>
    obtain rfl := Option.some.inj he
    refine ⟨_, rfl, ?_⟩
    -- both change their pace, and then pop as many rows
    let st : PortalRequest Node Row := { σ.st with toRequestState := σ.st.recordFetch dt }
    have h_pace : InStep lo hi (σ'.st.recordFetch dt) st.toRequestState :=
      h.pace.step hlo hhi dt
    have h_pop : σ'.st.buffer.popUpTo ((σ'.st.recordFetch dt).want maxRows).toNat =
        ((σ.st.buffer.popUpTo (st.want maxRows).toNat).1.toChunkBuffer,
          (σ.st.buffer.popUpTo (st.want maxRows).toNat).2) := by
      rw [h.buffer, ← h_pace.want_eq maxRows, BoundedBuffer.popUpTo_toChunkBuffer]
    dsimp only
    rw [Mini2.RequestState.recordFetch_buffer, h_pop]
    -- the buffers are the same again without these rows
    let b := (σ.st.buffer.popUpTo (st.want maxRows).toNat).1
    have h_st : Agrees lo hi { σ with st := { st with buffer := b } }
        { σ' with st := (σ'.st.recordFetch dt).withBuffer b.toChunkBuffer } :=
      h.withSt rfl (h_pace.congr rfl rfl rfl rfl)
    exact h_st.setFetch i _
  | popped =>
    obtain rfl := Option.some.inj he
    refine ⟨_, rfl, ?_⟩
    -- what is collected for the cache, or no longer, is no part of the pace
    have h_pace : InStep lo hi (σ'.st.accumulate rsp.rows) σ.st.toRequestState := by
      unfold Mini2.RequestState.accumulate
      split
      · split
        · exact h.pace.congr rfl rfl rfl rfl
        · exact h.pace.congr rfl rfl rfl rfl
      · exact h.pace
    dsimp only
    rw [← h_pace.suggested_eq]
    refine (h.withSt ?_ h_pace).setFetch i _
    rw [Mini2.RequestState.accumulate_buffer, h.buffer]
  | accumulated =>
    obtain rfl := Option.some.inj he
    refine ⟨_, rfl, ?_⟩
    -- from here on the fetch only reads the buffer, which is the same
    rw [h.buffer]
    exact h.setFetch i _
  | served =>
    obtain rfl := Option.some.inj he
    refine ⟨_, rfl, ?_⟩
    rw [h.buffer]
    exact h.setFetch i _
  | counted =>
    obtain rfl := Option.some.inj he
    refine ⟨_, rfl, ?_⟩
    rw [h.buffer]
    exact h.setFetch i _
  | canceledRead =>
    obtain rfl := Option.some.inj he
    refine ⟨_, rfl, ?_⟩
    rw [h.buffer]
    exact h.setFetch i _
  | finalRead =>
    -- the end of the result, which both portals see
    dsimp only at he ⊢
    split at he
    · next h_final =>
      obtain rfl := Option.some.inj he
      rw [if_pos h_final]
      split
      · -- the put takes nothing that is looked at again
        have h_put : Agrees lo hi σ { σ' with
            st := { σ'.st with cacheAccum := [] }
            puts := σ'.puts ++ [σ'.st.cacheAccum] } :=
          { h with pace := h.pace.congr rfl rfl rfl rfl }
        exact ⟨_, rfl, h_put.setFetch i _⟩
      · exact ⟨_, rfl, h.setFetch i _⟩
    · next h_more =>
      obtain rfl := Option.some.inj he
      exact ⟨_, if_neg h_more, h.setFetch i _⟩
  | closing =>
    obtain rfl := Option.some.inj he
    -- the request leaves the registry on both sides
    have h_erased : Agrees lo hi { σ with registered := false }
        { σ' with registered := false } := { h with registered := rfl }
    exact ⟨_, rfl, h_erased.setFetch i _⟩
  | answered => exact absurd he (by simp)

omit [DecidableEq Node] in
theorem Agrees.fetchBegin (h : Agrees lo hi σ σ') (maxRows : UInt32) :
    Agrees lo hi (fetchChunk σ maxRows) (Request.fetchBegin σ' maxRows) := by
  unfold fetchChunk Request.fetchBegin
  by_cases h_reg : σ.registered = true
  · rw [if_pos h_reg, if_pos (h.registered.trans h_reg)]
    exact { h with fetches := congrArg (· ++ _) h.fetches }
  · rw [if_neg h_reg, if_neg (h.registered ▸ h_reg)]
    exact { h with fetches := congrArg (· ++ _) h.fetches }

omit [DecidableEq Node] in
theorem Agrees.cancelQuery (h : Agrees lo hi σ σ') :
    Agrees lo hi (Python.cancelQuery σ) (Request.cancelQuery σ') := by
  unfold Python.cancelQuery Request.cancelQuery
  by_cases h_reg : σ.registered = true
  · rw [if_pos h_reg, if_pos (h.registered.trans h_reg)]
    exact { h with cancelers := congrArg (· + 1) h.cancelers }
  · rw [if_neg h_reg, if_neg (h.registered ▸ h_reg)]
    exact { h with aborting := rfl }

omit [DecidableEq Node] in
theorem Agrees.cancelFound (h : Agrees lo hi σ σ') (he : Python.cancelFound σ = some τ) :
    ∃ τ', Request.cancelFound σ' = some τ' ∧ Agrees lo hi τ τ' := by
  unfold Python.cancelFound at he
  split at he
  · exact absurd he (by simp)
  · next k hk =>
    obtain rfl := Option.some.inj he
    have hk' : σ'.cancelers = k + 1 := h.cancelers.trans hk
    unfold Request.cancelFound
    rw [hk']
    exact ⟨_, rfl, { h.cancelBuffer with cancelers := rfl, aborting := rfl }⟩

theorem Agrees.abort (h : Agrees lo hi σ σ') {n : Node} (he : Python.abort σ n = some τ) :
    ∃ τ', Request.abort σ' n = some τ' ∧ Agrees lo hi τ τ' := by
  unfold Python.abort at he
  unfold Request.abort
  split at he
  · next haborting =>
    rw [if_pos (h.aborting.trans haborting)]
    split at he
    · -- the node marks its route
      next route hroute =>
      obtain rfl := Option.some.inj he
      rw [show σ'.routes n = some route by rw [h.routes, hroute]]
      refine ⟨_, rfl, { h with cancelMarks := ?_ }⟩
      show Function.update σ'.cancelMarks n true = _
      rw [h.cancelMarks]
    · -- it has none, and nothing happens
      next hroute =>
      obtain rfl := Option.some.inj he
      rw [show σ'.routes n = none by rw [h.routes, hroute]]
      exact ⟨_, rfl, h⟩
  · exact absurd he (by simp)

/-- **An action of Python servers is one around a C++ portal.** -/
theorem Agrees.env (h : Agrees lo hi σ σ') (hlo : 1 ≤ lo) (hhi : hi ≤ 3000000000)
    {e : Request.Event Node} (he : serverEnv R σ e = some τ) :
    ∃ τ', (mixed R fun _ => true).env σ' e = some τ' ∧ Agrees lo hi τ τ' := by
  cases e with
  -- one lemma for each action
  | work k => exact h.work he
  | cut k m => exact h.cut he
  | push i => exact h.push he
  | pushFail i j => exact h.pushFail he
  | fetchBegin maxRows =>
    obtain rfl := Option.some.inj he
    exact ⟨_, rfl, h.fetchBegin maxRows⟩
  | fetch i dt => exact h.fetch hlo hhi he
  | cancelQuery =>
    obtain rfl := Option.some.inj he
    exact ⟨_, rfl, h.cancelQuery⟩
  | cancelFound => exact h.cancelFound he
  | abort n => exact h.abort he
  | janitorLoop => exact absurd he (by simp [serverEnv])

/-- Both make the same forwards. -/
theorem outgoing_eq (R : Request Node Row) (n : Node) (m : Task Node) :
    R.outgoing n m = forwards R n m := by
  cases m with
  | submitQuery => rfl
  | forwardQuery req =>
    have h_ttl : (if req.ttl = 0 then 0 else req.ttl - 1) = req.ttl - 1 := by
      split <;> omega
    unfold Request.outgoing forwards
    dsimp only
    rw [h_ttl]
    congr 1
    refine List.filter_congr fun nb _ => decide_eq_decide.mpr ?_
    rw [not_or]

theorem Agrees.settle (h : Agrees lo hi σ σ') (n : Node) (m : Task Node) (nb : Node)
    (r : Option (ForwardQueryAck Node)) :
    Agrees lo hi ((server R).settle σ n m nb r) (Request.settle σ' n m nb r) := by
  cases m with
  | submitQuery =>
    unfold server Request.settle
    dsimp only
    by_cases h_accepted : r.any ForwardQueryAck.accepted = true
    · rw [if_pos h_accepted, if_pos h_accepted]
      exact h
    · rw [if_neg h_accepted, if_neg h_accepted]
      exact h.markDone nb
  | forwardQuery req => exact h

/-- The servers are simulated by Python servers around a C++ portal. -/
theorem server_refines_cascade (R : Request Node Row) (hlo : 1 ≤ lo) (hhi : hi ≤ 3000000000) :
    (server R).Refines (mixed R fun _ => true) (Agrees lo hi) where
  check n m h := by
    cases m with
    | submitQuery => rfl
    | forwardQuery req =>
      -- both look for a route of the node
      show (if _ then _ else if (_ : Option (Route Node)).isSome then _ else _) = _
      rw [h.routes]
      rfl
  commit n m h := by
    cases m with
    | submitQuery => exact h
    | forwardQuery req =>
      refine { h with routes := ?_ }
      exact congrArg (fun routes => Function.update routes n _) h.routes
  outgoing n m := outgoing_eq R n m
  settle n m nb r h := h.settle n m nb r
  finish n m h := { h with workers := congrArg (· ++ _) h.workers }
  reply n m := rfl
  env e h he := h.env hlo hhi he

end Updates

/-! ### Every run is one of C++ servers -/

/-- Limits in which both portals suggest the same chunk sizes. -/
structure Paced (params : RequestParams) : Prop where
  pos : 1 ≤ params.minChunkRows.toNat
  min_le : params.minChunkRows.toNat ≤ params.initialChunkRows.toNat
  le_max : params.initialChunkRows.toNat ≤ params.maxChunkRows.toNat
  max_le : params.maxChunkRows.toNat ≤ 3000000000

section Runs

variable [DecidableEq Node] {R : Request Node Row}
  {s : Cascade.State Node (Task Node) (ForwardQueryAck Node) (Servers Node Row)}

theorem toChunkBuffer_foldl (ns : List Node) (b : BoundedBuffer Node Row) :
    ns.foldl ChunkBuffer.markProducerStarted b.toChunkBuffer =
      (ns.foldl BoundedBuffer.markStarted b).toChunkBuffer := by
  induction ns generalizing b with
  | nil => rfl
  | cons n ns ih => exact ih (b.markStarted n)

/-- What the requests start with agrees. -/
theorem start_agrees (R : Request Node Row) (hp : Paced R.params) :
    Cascade.Related (Agrees R.params.minChunkRows.toNat R.params.maxChunkRows.toNat)
      (serverStart R) R.start where
  calls := by
    show [_] = [_]
    rw [outgoing_eq]
  store :=
    { routes := rfl
      cancelMarks := rfl
      aborting := rfl
      -- all nodes have been marked as started
      buffer := toChunkBuffer_foldl R.overlay.nodes
        (.create R.params.chunkBufferCap R.overlay.nodes.length)
      pace := ⟨⟨rfl, rfl⟩, ⟨rfl, rfl⟩, rfl, rfl, hp.min_le, hp.le_max⟩
      registered := rfl
      workers := rfl
      pushes := rfl
      fetches := rfl
      cancelers := rfl
      log := rfl }

/-- The runs, for guards that carry over. -/
theorem run_agrees (hp : Paced R.params)
    {G : Cascade.State Node (Task Node) (ForwardQueryAck Node) (Servers Node Row) →
      Request.Label Node → Prop} {G' : Request.State Node Row → Request.Label Node → Prop}
    (hguard : ∀ s s' l, s'.store.fetches = s.store.fetches → G s l → G' s' l)
    {ls : List (Request.Label Node)} (h : (serverMachine R).Run G (serverStart R) ls s) :
    ∃ s' σ, R.machine.Run G' R.start ls s' ∧ s'.calls = s.calls ∧
      Agrees R.params.minChunkRows.toNat R.params.maxChunkRows.toNat s.store σ ∧
        Lags σ s'.store := by
  -- first with a C++ portal, and then with C++ servers only
  let H : Request.State Node Row → Request.Label Node → Prop := fun t l =>
    ∃ s : Cascade.State Node (Task Node) (ForwardQueryAck Node) (Servers Node Row),
      t.store.fetches = s.store.fetches ∧ G s l
  obtain ⟨t, h_mixed, h_t⟩ : ∃ t, (mixedMachine R fun _ => true).Run H R.start ls t ∧
      Cascade.Related (Agrees R.params.minChunkRows.toNat R.params.maxChunkRows.toNat) s t :=
    (server_refines_cascade R hp.pos hp.max_le).run
      (fun s _ _ h_rel h_l => ⟨s, h_rel.store.fetches, h_l⟩) (start_agrees R hp) h
  have h_guard : ∀ (t t' : Request.State Node Row) (l : Request.Label Node),
      Cascade.Related Lags t t' → H t l → G' t' l := by
    intro t t' l h_rel h_l
    obtain ⟨s, h_fetches, h_l⟩ := h_l
    obtain ⟨ws, -, h_store⟩ := h_rel.store
    refine hguard s t' l ?_ h_l
    rw [h_store]
    exact h_fetches
  obtain ⟨s', h_cpp, h_s'⟩ : ∃ s', R.machine.Run G' R.start ls s' ∧ Cascade.Related Lags t s' :=
    mixed_refines_cascade.run h_guard ⟨rfl, [], .nil, rfl⟩ h_mixed
  exact ⟨s', t.store, h_cpp, h_s'.calls.trans h_t.calls, h_t.store, h_s'.store⟩

/-- **A cluster of Python servers does nothing that C++ servers do not do**: each of its runs
is, action by action, one of a cluster of C++ servers. The calls are the same there; so is the
store, but for the cache, and for chunks that are left to workers that have returned here, the
request gone or canceled or no stub at hand. -/
theorem servers_refine (R : Request Node Row) (hp : Paced R.params)
    {ls : List (Request.Label Node)}
    (h : (serverMachine R).Run (fun _ _ => True) (serverStart R) ls s) :
    ∃ s' σ, R.machine.Run (fun _ _ => True) R.start ls s' ∧ s'.calls = s.calls ∧
      Agrees R.params.minChunkRows.toNat R.params.maxChunkRows.toNat s.store σ ∧
        Lags σ s'.store :=
  run_agrees hp (fun _ _ _ _ _ => trivial) h

/-- As above, the query is canceled and a worker returns, here with a Python portal, too. -/
theorem servers_refine_canceled : ∃ s σ, ∃ s' : Request.State Overlay.Id3 ℕ,
    (serverMachine Request.twoChunks).Run (fun _ _ => True)
      (serverStart Request.twoChunks) (Request.bothExecute ++ canceledPush) s ∧
    (∃ w ∈ s.store.workers, w.history = [(⟨[1], false⟩, .canceled)] ∧ w.todo = []) ∧
      Agrees 64 4096 s.store σ ∧ Lags σ s'.store := by
  obtain ⟨s, h_run, h_returned⟩ := Machine.exists_run_of_exec
    (M := serverMachine Request.twoChunks) (P := fun _ _ => True)
    (s := serverStart Request.twoChunks) (l := Request.bothExecute ++ canceledPush)
    (Φ := fun s => ∃ w ∈ s.store.workers, w.history = [(⟨[1], false⟩, .canceled)] ∧ w.todo = [])
    (by decide +kernel)
  obtain ⟨s', σ, -, -, h_agrees, h_lags⟩ := servers_refine Request.twoChunks
    ⟨by decide, by decide, by decide, by decide⟩ h_run
  exact ⟨s, σ, s', h_run, h_returned, h_agrees, h_lags⟩

/-- The rows that have been returned to the client. -/
def Servers.returned (σ : Servers Node Row) : List Row :=
  (σ.fetches.filter fun f => f.pc = .answered).flatMap fun f => f.rsp.rows

/-- Nothing fails, is canceled or expires, and one client fetches. -/
def Undisturbed (s : Cascade.State Node (Task Node) (ForwardQueryAck Node) (Servers Node Row))
    (l : Request.Label Node) : Prop :=
  Request.clean l = true ∧
    match l with
    | .env (.fetchBegin _) => ∀ f ∈ s.store.fetches, f.pc = .answered
    | _ => True

instance (s : Cascade.State Node (Task Node) (ForwardQueryAck Node) (Servers Node Row))
    (l : Request.Label Node) : Decidable (Undisturbed s l) := by
  unfold Undisturbed
  induction l using Framework.Cascade.Label.casesOn with
  | env e => induction e using Request.Event.casesOn <;> infer_instance
  | _ => infer_instance

/-- **Answers on a tree are exact**, with Python servers only. -/
theorem python_answer_exact (R : Request Node Row) (hp : Paced R.params)
    (htree : R.overlay.IsTree) (hself : R.overlay.selfRoute ∉ R.overlay.nodes)
    (hcap : R.rows.length ≤ R.params.chunkBufferCap)
    (h : (serverMachine R).Reachable Undisturbed s) :
    ∀ f ∈ s.store.fetches, f.pc = .answered → f.rsp.final = true →
      s.store.returned.Perm (R.overlay.nodes.flatMap fun n => (R.scan n).rows) := by
  obtain ⟨ls, h_run⟩ := h
  -- nothing disturbs the run of C++ servers either
  have h_guard : ∀ (s : Cascade.State Node (Task Node) (ForwardQueryAck Node) (Servers Node Row))
      (s' : Request.State Node Row) (l : Request.Label Node),
      s'.store.fetches = s.store.fetches → Undisturbed s l → Request.Undisturbed s' l := by
    intro s s' l h_fetches h_l
    refine ⟨h_l.1, ?_⟩
    have h_client := h_l.2
    unfold Request.OneClient
    split
    · rw [h_fetches]
      exact h_client
    · trivial
  obtain ⟨s', σ, h_cpp, -, h_agrees, ws, -, h_store⟩ := run_agrees hp h_guard h_run
  -- its answer is exact, and its responses are the same
  have h_exact := (Request.ExactInv.reachable htree hself hcap ⟨ls, h_cpp⟩).returned_perm
  rw [h_store] at h_exact
  unfold Request.returned at h_exact
  dsimp only at h_exact
  rwa [h_agrees.fetches] at h_exact

/-- The row of the last node comes to a Python portal. -/
theorem python_answer_exact_chain : ∃ s, (serverMachine Request.rowAtEnd).Reachable Undisturbed s ∧
    (∃ f ∈ s.store.fetches, f.pc = .answered ∧ f.rsp.final = true) ∧
      s.store.returned.Perm [1] := by
  obtain ⟨s, h_run, f, hf, hpc, hfinal⟩ := Machine.exists_run_of_exec
    (M := serverMachine Request.rowAtEnd) (P := Undisturbed) (s := serverStart Request.rowAtEnd)
    (l := Request.overChain ++ Request.fetchOnce)
    (Φ := fun s => ∃ f ∈ s.store.fetches, f.pc = .answered ∧ f.rsp.final = true)
    (by decide +kernel)
  exact ⟨s, ⟨_, h_run⟩, ⟨f, hf, hpc, hfinal⟩, python_answer_exact Request.rowAtEnd
    ⟨by decide, by decide, by decide, by decide⟩ Overlay.chain_isTree (by decide) (by decide)
    ⟨_, h_run⟩ f hf hpc hfinal⟩

end Runs

end Python
end Mini2
