import Mini2.Node.Handlers

/-!
# Handlers as their actions

A handler of the portal, as one step, against the machine of its request, where each
access to something shared is an action of its own. When nothing else of the request comes
between these actions, they give the answer of the handler, and leave behind what the
handler leaves of the request (`alone`).

* `fetch_actions`, `push_actions`, `deposit_actions`, `cancel_actions`, `janitor_actions` —
  for a request that the registry holds.
* `fetch_actions_gone`, `push_actions_gone`, `deposit_actions_gone` — for one that it does
  not hold any more.
* `fetchChunk_cache` — the handler puts into the cache what its actions put.
-/

namespace Mini2

open Framework

variable {Node Row : Type*}

/-- What the registry holds of the request. -/
def Store.entry (σ : Store Node Row) : Option (RequestState Node Row) :=
  if σ.registered then some σ.st else none

theorem Store.entry_eq_some {σ : Store Node Row} {st : RequestState Node Row} :
    σ.entry = some st ↔ σ.registered = true ∧ σ.st = st := by
  unfold entry
  split
  · next hreg => simp [hreg]
  · next hreg => simp [hreg]

theorem Store.entry_eq_none {σ : Store Node Row} : σ.entry = none ↔ σ.registered = false := by
  unfold entry
  split
  · next hreg => simp [hreg]
  · next hreg => simpa using hreg

/-- What `FetchChunk` puts into the cache. -/
def RequestEntry.put (e : RequestEntry Node) (maxRows : UInt32) (now : ℚ) :
    List (List Row311) :=
  let (e, rsp) := e.fetch maxRows now
  if rsp.final && (e.st.cacheCollect && !rsp.canceled) then [e.st.cacheAccum] else []

namespace Request

section Runs

variable [DecidableEq Node] {R : Request Node Row}
  {calls : List (Cascade.Call Node (Task Node) (ForwardQueryAck Node))}
  {σ σ' : Store Node Row} {e : Event Node} {ls : List (Label Node)} {u : State Node Row}

/-- An action around the cascade, and what follows. -/
theorem run_env (he : R.env σ e = some σ')
    (h : R.machine.Run (fun _ _ => True) ⟨calls, σ'⟩ ls u) :
    R.machine.Run (fun _ _ => True) ⟨calls, σ⟩ (.env e :: ls) u := by
  refine .cons trivial ?_ h
  change (R.env σ e).map _ = _
  rw [he]
  rfl

end Runs

end Request

namespace Cluster

variable {Rid : Type*} [DecidableEq Node] (C : Cluster Node)
  {spec : QuerySpec} {calls : List (Cascade.Call Node (Task Node) (ForwardQueryAck Node))}
  {σ : Store Node Row311} {e : RequestEntry Node}

/-! ### FetchChunk -/

/-- The reads of a fetch fill in its response. -/
theorem fetch_reads (maxRows : UInt32) (now : ℚ) :
    (C.request spec).machine.Run (fun _ _ => True)
      ⟨calls, { σ with
        st := e.st
        fetches := σ.fetches ++ [⟨maxRows, ⟨[], 0, 0, 0, false, false⟩, .found⟩] }⟩
      (List.replicate 6 (.env (.fetch σ.fetches.length (now - e.lastFetchAt))))
      ⟨calls, { σ with
        st := (e.fetch maxRows now).1.st
        fetches := σ.fetches ++ [⟨maxRows, (e.fetch maxRows now).2, .finalRead⟩] }⟩ := by
  -- popUpTo, the collection for the cache, and four reads of the buffer
  iterate 6
    refine Request.run_env (by
      simp only [Request.env, Request.fetch, Store.setFetch, List.getElem?_concat_length,
        set_concat_length]
      rfl) ?_
  exact .nil _

variable (spec calls) in
/-- A fetch whose response is complete answers it, after the put and the erasure if it is
the final one. -/
theorem fetch_end (hreg : σ.registered = true) (st : RequestState Node Row311)
    (rsp : ChunkResponse Row311) (maxRows : UInt32) (dt : ℚ) :
    ∃ n s, (C.request spec).machine.Run (fun _ _ => True)
      ⟨calls, { σ with st := st, fetches := σ.fetches ++ [⟨maxRows, rsp, .finalRead⟩] }⟩
      (List.replicate n (.env (.fetch σ.fetches.length dt))) s ∧
      s.store.fetches = σ.fetches ++ [⟨maxRows, rsp, .answered⟩] ∧
      s.store.puts = σ.puts ++
        (if rsp.final && (st.cacheCollect && !rsp.canceled) then [st.cacheAccum] else []) ∧
      s.store.entry = if rsp.final then none else some st := by
  -- the response is answered, with the request erased before or not
  have h_last : ∀ {t : RequestState Node Row311} {puts : List (List Row311)},
      (C.request spec).machine.Run (fun _ _ => True)
        ⟨calls, { σ with
          st := t, puts := puts, fetches := σ.fetches ++ [⟨maxRows, rsp, .closing⟩] }⟩
        [.env (.fetch σ.fetches.length dt)]
        ⟨calls, { σ with
          st := t, puts := puts, fetches := σ.fetches ++ [⟨maxRows, rsp, .answered⟩]
          registered := false }⟩ := by
    intro t puts
    refine Request.run_env ?_ (.nil _)
    simp only [Request.env, Request.fetch, Store.setFetch, List.getElem?_concat_length,
      set_concat_length]
  cases hfinal : rsp.final with
  | false =>
    refine ⟨1, ⟨calls, { σ with
      st := st, fetches := σ.fetches ++ [⟨maxRows, rsp, .answered⟩] }⟩,
      Request.run_env ?_ (.nil _), rfl, (List.append_nil _).symm,
      Store.entry_eq_some.mpr ⟨hreg, rfl⟩⟩
    simp only [Request.env, Request.fetch, Store.setFetch, List.getElem?_concat_length,
      set_concat_length, hfinal, Bool.false_eq_true, if_false]
  | true =>
    cases hput : st.cacheCollect && !rsp.canceled with
    | false =>
      refine ⟨2, _, Request.run_env ?_ (@h_last st σ.puts), rfl,
        (List.append_nil _).symm, Store.entry_eq_none.mpr rfl⟩
      simp only [Request.env, Request.fetch, Store.setFetch, List.getElem?_concat_length,
        set_concat_length, hfinal, hput, Bool.false_eq_true, if_false, if_true]
    | true =>
      refine ⟨2, _, Request.run_env ?_ (@h_last { st with cacheAccum := [] }
        (σ.puts ++ [st.cacheAccum])), rfl, rfl, Store.entry_eq_none.mpr rfl⟩
      simp only [Request.env, Request.fetch, Store.setFetch, List.getElem?_concat_length,
        set_concat_length, hfinal, hput, if_true]

/-- **`FetchChunk` is its actions**, where the registry holds the request. -/
theorem fetch_actions (hentry : σ.entry = some e.st) (rid : Rid) (maxRows : UInt32) (now : ℚ) :
    ∃ n s rsp, (C.request spec).machine.Run (fun _ _ => True) ⟨calls, σ⟩
      (.env (.fetchBegin maxRows) ::
        List.replicate n (.env (.fetch σ.fetches.length (now - e.lastFetchAt)))) s ∧
      s.store.fetches = σ.fetches ++ [⟨maxRows, rsp, .answered⟩] ∧
      s.store.puts = σ.puts ++ e.put maxRows now ∧
      (C.alone.handle (some e) (.fetchChunk rid maxRows now)).2 = .chunk rsp ∧
      s.store.entry =
        (C.alone.handle (some e) (.fetchChunk rid maxRows now)).1.map RequestEntry.st := by
  obtain ⟨hreg, hst⟩ := Store.entry_eq_some.mp hentry
  -- six actions read the response, and the others end the fetch
  obtain ⟨n, s, h_end, h_fetches, h_puts, h_entry⟩ := C.fetch_end spec calls hreg
    (e.fetch maxRows now).1.st (e.fetch maxRows now).2 maxRows (now - e.lastFetchAt)
  refine ⟨6 + n, s, (e.fetch maxRows now).2, ?_, h_fetches, h_puts, rfl, ?_⟩
  · rw [← List.replicate_append_replicate]
    refine Request.run_env ?_ ((C.fetch_reads maxRows now).append h_end)
    simp only [Request.env, Request.fetchBegin, hreg, if_true, ← hst]
  · rw [h_entry]
    unfold alone
    dsimp only
    split <;> rfl

omit [DecidableEq Node] in
/-- The cache is given what the actions put. -/
theorem fetchChunk_cache [DecidableEq Rid] {s : NodeServer Rid Node} {rid : Rid}
    (hentry : s.registry rid = some e) (maxRows : UInt32) (now : ℚ) :
    (C.fetchChunk s rid maxRows now).1.cache = (e.put maxRows now).foldl
      (fun cache rows => cache.put C.hash.specHash e.spec rows) s.cache := by
  unfold fetchChunk RequestEntry.put
  rw [hentry]
  dsimp only
  cases (e.fetch maxRows now).2.final with
  | false => rfl
  | true =>
    rw [if_pos rfl, Bool.true_and]
    dsimp only
    split <;> rfl

/-- Where it holds none, a fetch is answered at once. -/
theorem fetch_actions_gone (hentry : σ.entry = none) (rid : Rid) (maxRows : UInt32) (now : ℚ) :
    ∃ s rsp, (C.request spec).machine.Run (fun _ _ => True) ⟨calls, σ⟩
      [.env (.fetchBegin maxRows)] s ∧
      s.store.fetches = σ.fetches ++ [⟨maxRows, rsp, .answered⟩] ∧
      (C.alone.handle none (.fetchChunk rid maxRows now)).2 = .chunk rsp ∧
      s.store.entry = none := by
  have hreg := Store.entry_eq_none.mp hentry
  refine ⟨⟨calls, { σ with fetches := σ.fetches ++ [⟨maxRows, .gone, .answered⟩] }⟩, .gone,
    Request.run_env ?_ (.nil _), rfl, rfl, Store.entry_eq_none.mpr hreg⟩
  simp only [Request.env, Request.fetchBegin, hreg, Bool.false_eq_true, if_false,
    ChunkResponse.gone]

/-! ### PushChunk -/

/-- **`PushChunk` is its actions**, where the registry holds the request. -/
theorem push_actions {i : ℕ} {p : PushCall Node Row311} (hp : σ.pushes[i]? = some p)
    (hpc : p.pc = .at C.overlay.portal) (hentry : σ.entry = some e.st) (rid : Rid) :
    ∃ n s ack, (C.request spec).machine.Run (fun _ _ => True) ⟨calls, σ⟩
      (List.replicate n (.env (.push i))) s ∧
      s.store.pushes = σ.pushes.set i { p with pc := .acked ack } ∧
      (C.alone.handle (some e) (.pushChunk rid p.producer p.call)).2 = .push ack ∧
      s.store.entry =
        (C.alone.handle (some e) (.pushChunk rid p.producer p.call)).1.map RequestEntry.st := by
  obtain ⟨hreg, hst⟩ := Store.entry_eq_some.mp hentry
  -- the call under way is where it has been put
  have h_get : ∀ q, (σ.pushes.set i q)[i]? = some q := fun q =>
    List.getElem?_set_self (List.getElem?_eq_some_iff.mp hp).1
  cases hcanceled : e.st.buffer.isCanceled with
  | true =>
    -- canceled: two actions, and the buffer stays as it is
    have h_push : e.push C.params.pushBackoffMs p.producer p.call = (e, .gone) := by
      unfold RequestEntry.push
      rw [hcanceled, if_pos rfl]
    refine ⟨2, ⟨calls, { σ with pushes := σ.pushes.set i { p with pc := .acked .gone } }⟩, .gone,
      Request.run_env (by
        simp only [Request.env, Request.push, Cluster.request, hp, hpc, hreg, if_true]
        rfl) (Request.run_env ?_ (.nil _)), rfl, ?_, ?_⟩
    · simp only [Request.env, Request.push, Store.setPush, h_get, hst, hcanceled, if_true,
        List.set_set]
    · simp only [alone, h_push]
    · simp only [alone, h_push]
      exact hentry
  | false =>
    have h_push : (e.push C.params.pushBackoffMs p.producer p.call).1 =
        (e.deposit p.producer p.call).1 := by
      unfold RequestEntry.push
      rw [hcanceled, if_neg (by simp)]
    -- the buffer is looked at, filled and marked, and then counted for the answer
    refine ⟨5, ⟨calls, { σ with
        st := (e.deposit p.producer p.call).1.st
        pushes := σ.pushes.set i { p with
          pc := .acked (e.push C.params.pushBackoffMs p.producer p.call).2 }
        log := σ.log ++ [⟨p.producer, p.seq, p.call, σ.st.buffer.taken p.call.rows⟩] }⟩,
      (e.push C.params.pushBackoffMs p.producer p.call).2,
      Request.run_env (by
        simp only [Request.env, Request.push, Cluster.request, hp, hpc, hreg, if_true]
        rfl) ?_, rfl, rfl, ?_⟩
    · refine Request.run_env (by
        simp only [Request.env, Request.push, Store.setPush, h_get, hst, hcanceled,
          Bool.false_eq_true, if_false]
        rfl) ?_
      refine Request.run_env (by
        simp only [Request.env, Request.push, Store.setPush, Store.deposit, h_get, List.set_set]
        rfl) ?_
      refine Request.run_env (by
        simp only [Request.env, Request.push, Store.setPush, Store.markDoneIf, h_get,
          List.set_set]
        rfl) ?_
      refine Request.run_env ?_ (.nil _)
      simp only [Request.env, Request.push, Store.setPush, Request.depositAck, h_get,
        List.set_set, hst, RequestEntry.push, RequestEntry.deposit, hcanceled]
      rfl
    · simp only [alone, h_push]
      exact Store.entry_eq_some.mpr ⟨hreg, rfl⟩

/-- Where it holds none, the call is turned away. -/
theorem push_actions_gone {i : ℕ} {p : PushCall Node Row311} (hp : σ.pushes[i]? = some p)
    (hpc : p.pc = .at C.overlay.portal) (hentry : σ.entry = none) (rid : Rid) :
    ∃ s ack, (C.request spec).machine.Run (fun _ _ => True) ⟨calls, σ⟩ [.env (.push i)] s ∧
      s.store.pushes = σ.pushes.set i { p with pc := .acked ack } ∧
      (C.alone.handle none (.pushChunk rid p.producer p.call)).2 = .push ack ∧
      s.store.entry = none := by
  have hreg := Store.entry_eq_none.mp hentry
  refine ⟨⟨calls, { σ with pushes := σ.pushes.set i { p with pc := .acked .gone } }⟩, .gone,
    Request.run_env ?_ (.nil _), rfl, rfl, Store.entry_eq_none.mpr hreg⟩
  simp only [Request.env, Request.push, Store.setPush, Cluster.request, hp, hpc, hreg,
    Bool.false_eq_true, if_true, if_false]

/-! ### executeLocal -/

/-- **A sink call of the portal's own engine is its actions**, where the registry holds the
request. -/
theorem deposit_actions {k : ℕ} {w : Worker Node Row311} {c : SinkCall Row311}
    {todo : List (SinkCall Row311)} (hw : σ.workers[k]? = some w) (hpc : w.pc = .ready)
    (htodo : w.todo = c :: todo) (hself : w.upstream = C.overlay.selfRoute)
    (hnode : w.node = C.overlay.portal) (hentry : σ.entry = some e.st) (rid : Rid) :
    ∃ s, (C.request spec).machine.Run (fun _ _ => True) ⟨calls, σ⟩
      (List.replicate 3 (.env (.work k))) s ∧
      s.store.workers = σ.workers.set k (w.advance c todo .deposited) ∧
      s.store.entry =
        (C.alone.handle (some e) (.executeLocal rid c)).1.map RequestEntry.st := by
  obtain ⟨hreg, hst⟩ := Store.entry_eq_some.mp hentry
  -- three actions of one worker: find the request, deposit, mark
  have h_get : ∀ v, (σ.workers.set k v)[k]? = some v := fun v =>
    List.getElem?_set_self (List.getElem?_eq_some_iff.mp hw).1
  refine ⟨⟨calls, { σ with
      st := (e.deposit C.overlay.portal c).1.st
      workers := σ.workers.set k (w.advance c todo .deposited)
      log := σ.log ++ [⟨w.node, w.history.length + 1, c, σ.st.buffer.taken c.rows⟩] }⟩,
    Request.run_env (by
      simp only [Request.env, Request.work, Cluster.request, hw, hpc, htodo, hself, hnode, hreg,
        and_self, if_true]
      rfl) ?_, rfl, Store.entry_eq_some.mpr ⟨hreg, rfl⟩⟩
  refine Request.run_env (by
    simp only [Request.env, Request.work, Store.setWorker, Store.deposit, h_get, List.set_set]
    rfl) ?_
  refine Request.run_env ?_ (.nil _)
  simp only [Request.env, Request.work, Store.setWorker, Store.markDoneIf, h_get, List.set_set,
    hst, hself, hnode, RequestEntry.deposit, Worker.advance]

/-- Where it holds none, the rows are dropped. -/
theorem deposit_actions_gone {k : ℕ} {w : Worker Node Row311} {c : SinkCall Row311}
    {todo : List (SinkCall Row311)} (hw : σ.workers[k]? = some w) (hpc : w.pc = .ready)
    (htodo : w.todo = c :: todo) (hself : w.upstream = C.overlay.selfRoute)
    (hentry : σ.entry = none) :
    ∃ s, (C.request spec).machine.Run (fun _ _ => True) ⟨calls, σ⟩ [.env (.work k)] s ∧
      s.store.workers = σ.workers.set k (w.advance c todo .gone) ∧ s.store.entry = none := by
  have hreg := Store.entry_eq_none.mp hentry
  refine ⟨⟨calls, σ.setWorker k (w.advance c todo .gone)⟩, Request.run_env ?_ (.nil _), rfl,
    Store.entry_eq_none.mpr hreg⟩
  simp only [Request.env, Request.work, Cluster.request, hw, hpc, htodo, hself, hreg,
    Bool.false_eq_true, and_false, if_true, if_false]

/-! ### CancelQuery and the janitor -/

/-- **`CancelQuery` is its actions**, where the registry holds the request. -/
theorem cancel_actions (hentry : σ.entry = some e.st) (rid : Rid) :
    ∃ s, (C.request spec).machine.Run (fun _ _ => True) ⟨calls, σ⟩
      [.env .cancelQuery, .env .cancelFound] s ∧
      s.store.entry = (C.alone.handle (some e) (.cancelQuery rid)).1.map RequestEntry.st := by
  obtain ⟨hreg, hst⟩ := Store.entry_eq_some.mp hentry
  refine ⟨⟨calls, { σ.cancelBuffer with aborting := true }⟩, Request.run_env (by
    simp only [Request.env, Request.cancelQuery, hreg, if_true]
    rfl) (Request.run_env ?_ (.nil _)), Store.entry_eq_some.mpr ⟨hreg, ?_⟩⟩
  · simp only [Request.env, Request.cancelFound, Store.cancelBuffer, hreg]
  · change σ.st.withBuffer σ.st.buffer.cancel = e.st.withBuffer e.st.buffer.cancel
    rw [hst]

/-- **The janitor's actions** on a request end with its erasure. -/
theorem janitor_actions (hentry : σ.entry = some e.st) (hidle : σ.janitor = .idle) (rid : Rid) :
    ∃ s, (C.request spec).machine.Run (fun _ _ => True) ⟨calls, σ⟩
      (List.replicate 3 (.env .janitorLoop)) s ∧
      s.store.entry = (C.alone.handle (some e) (.janitorLoop rid)).1.map RequestEntry.st := by
  obtain ⟨hreg, -⟩ := Store.entry_eq_some.mp hentry
  refine ⟨⟨calls, { σ.cancelBuffer with
      aborting := true, janitor := .idle, registered := false }⟩, Request.run_env (by
    simp only [Request.env, Request.janitorLoop, hidle, hreg, if_true]
    rfl) (Request.run_env rfl (Request.run_env rfl (.nil _))), Store.entry_eq_none.mpr rfl⟩

end Cluster
end Mini2
