import Mini2.Node.Portal
import Mini2.Query.GeoBox

/-!
# The cap of a query

`max_rows` is looked at in one place: each engine stops after as many rows. Nothing on the
way to the client counts the rows of different nodes together, so a query with
`max_rows = N` can bring up to `N` rows from each node (`max_rows_exceeded`).

`max_rows_bounds` says when the cap holds all the same: the nodes' shares are together
within it, and no chunk is deposited twice. The bound is carried from the engines to the
client: the rows that the buffer has accepted come from distinct chunks (`CapInv`), the
rows that fetches have taken and those collected for the cache are among these
(`RowCount`), and so whatever a later query finds in the cache is within the cap, too.
-/

namespace Mini2

open Framework

variable {Node Row : Type*}

/-! ### What an engine emits -/

namespace QueryEngine

variable {store : PartitionStore} {q : QuerySpec} {sort : SizeSort} {chunkRows : UInt32}

/-- The rows that satisfy the predicates other than the box and, if there is a box, lie in
a cell that overlaps it; up to the first that lies outside it. -/
def found (store : PartitionStore) (q : QuerySpec) : List (Fin store.n) :=
  (store.ids.filter fun i =>
    indexHit q (store.row i) && (!q.useGeoBox || reached store q i)).takeWhile
      fun i => accepts q (store.row i)

/-- An engine emits what it finds, up to the cap. -/
theorem run_found {calls : List (SinkCall Row311)}
    (h : run store q sort chunkRows (fun _ => false) = some calls) :
    calls.flatMap SinkCall.rows = q.cut ((found store q).map store.row) := by
  have h_gathers : Gathers store.ids (gather store q)
      fun i => indexHit q (store.row i) && (!q.useGeoBox || reached store q i) := by
    cases hgeo : q.useGeoBox with
    | true =>
      -- a run that returns has found its box, or has not looked it up
      by_cases hbox : Short store q ∨ BoxFound store q
      · exact gathers_geo hgeo hbox
      · rw [run_undefined hgeo hbox] at h
        exact absurd h (by simp)
    | false =>
      rw [gather_eq_indexed hgeo]
      simpa using gathers_indexed store q
  obtain ⟨calls', hcalls, h_rows⟩ := run_rows sort chunkRows h_gathers
  obtain rfl := Option.some.inj (hcalls.symm.trans h)
  exact h_rows

end QueryEngine

/-- The number of a chunk, and its producer. -/
def Deposit.key (d : Deposit Node Row) : Node × ℕ := (d.producer, d.seq)

namespace Request

/-! ### Deposits without repetition -/

/-- A chunk that is deposited while the buffer is not canceled has not been deposited
before. -/
def DepositsOnce (s : State Node Row) : Label Node → Prop
  | .env (.work k) => ∀ w ∈ s.store.workers[k]?, w.pc = .found →
      s.store.st.buffer.canceled = false →
        ∀ d ∈ s.store.log, d.key ≠ (w.node, w.history.length + 1)
  | .env (.push i) => ∀ p ∈ s.store.pushes[i]?, p.pc = .live →
      s.store.st.buffer.canceled = false → ∀ d ∈ s.store.log, d.key ≠ (p.producer, p.seq)
  | _ => True

instance [DecidableEq Node] (s : State Node Row) (l : Label Node) :
    Decidable (DepositsOnce s l) := by
  unfold DepositsOnce
  induction l using Framework.Cascade.Label.casesOn with
  | env e => induction e using Event.casesOn <;> infer_instance
  | _ => infer_instance

/-! ### Chunks on their way -/

/-- `c` is chunk `seq` of `n`, counted from one, or the rows it begins with. -/
def StartsChunk (R : Request Node Row) (n : Node) (seq : ℕ) (c : SinkCall Row) : Prop :=
  ∃ c', R.IsChunk n seq c' ∧ c.rows <+: c'.rows

/-- Whatever is on its way to the buffer, or in the log, is a chunk of its producer. -/
structure ChunksInv (R : Request Node Row) (σ : Store Node Row) : Prop where
  workers : ∀ w ∈ σ.workers, ∀ j c, w.todo[j]? = some c →
    R.StartsChunk w.node (w.history.length + j + 1) c
  pushes : ∀ p ∈ σ.pushes, R.StartsChunk p.producer p.seq p.call
  log : ∀ d ∈ σ.log, R.StartsChunk d.producer d.seq d.call
  nodes : ∀ d ∈ σ.log, d.producer ∈ R.overlay.nodes
  accepted : ∀ d ∈ σ.log, d.accepted.Sublist d.call.rows

section Chunks

variable [DecidableEq Node] {R : Request Node Row} {σ σ' : Store Node Row} {e : Event Node}
  {s s' : State Node Row} {l : Label Node}

/-- A worker that goes on has one chunk less before it. -/
theorem ChunksInv.workers_env (hI : R.ChunksInv σ) (h : R.EnvStep σ e σ') :
    ∀ w ∈ σ'.workers, ∀ j c, w.todo[j]? = some c →
      R.StartsChunk w.node (w.history.length + j + 1) c := by
  rcases h.worker_step with heq | ⟨k, w, w', hw, hstep, heq⟩
  · rw [heq]
    exact hI.workers
  have h_w := hI.workers w (List.mem_of_getElem? hw)
  rw [heq]
  refine forall_mem_set hI.workers ?_
  cases hstep with
  | stay pc => exact h_w
  | @advance c todo outcome htodo _ _ =>
    intro j c' hj
    have h_next := h_w (j + 1) c' (by rw [htodo]; exact hj)
    change R.StartsChunk w.node ((w.history ++ [(c, outcome)]).length + j + 1) c'
    rw [List.length_append, List.length_singleton]
    rwa [show w.history.length + (j + 1) + 1 = w.history.length + 1 + j + 1 by omega] at h_next
  | @cut m c todo htodo =>
    intro j c' hj
    -- the rows gathered so far are the first of the current chunk
    obtain ⟨rfl, rfl⟩ : j = 0 ∧ c' = ⟨c.rows.take m, true⟩ := by
      cases j with
      | zero => exact ⟨rfl, (Option.some.inj hj).symm⟩
      | succ j => exact absurd hj (by simp)
    obtain ⟨whole, h_chunk, h_prefix⟩ := h_w 0 c (by rw [htodo]; rfl)
    exact ⟨whole, h_chunk, (List.take_prefix m c.rows).trans h_prefix⟩

theorem ChunksInv.env (hI : R.ChunksInv σ) (hN : R.NodesInv σ) (h : R.EnvStep σ e σ') :
    R.ChunksInv σ' := by
  -- the chunk that a worker has in hand is the next one of its scan
  have h_head : ∀ {k : ℕ} {w : Worker Node Row} {c : SinkCall Row}, σ.workers[k]? = some w →
      w.todo.head? = some c → R.StartsChunk w.node (w.history.length + 1) c := by
    intro k w c hw hc
    rw [List.head?_eq_getElem?] at hc
    exact hI.workers w (List.mem_of_getElem? hw) 0 c hc
  refine ⟨hI.workers_env h, ?_, ?_, ?_, h.accepted_sublist hI.accepted⟩
  · rcases h.pushes_cases with heq | ⟨k, w, c, retries, hsend, rfl⟩ |
      ⟨i, p, p', new, hp, hsame, hnew, heq⟩
    · rw [heq]
      exact hI.pushes
    · exact forall_mem_concat hI.pushes (h_head hsend.get hsend.head)
    · have h_p := hI.pushes p (List.mem_of_getElem? hp)
      rw [heq, List.forall_mem_append]
      refine ⟨forall_mem_set hI.pushes ?_, fun q hq => ?_⟩
      · rwa [hsame.producer, hsame.seq, hsame.call]
      · rwa [(hnew q hq).producer, (hnew q hq).seq, (hnew q hq).call]
  · rcases h.log_cases with hlog | ⟨k, w, c, hdep, rfl⟩ | ⟨i, p, hdep, rfl⟩
    · rw [hlog]
      exact hI.log
    · exact forall_mem_concat hI.log (h_head hdep.get hdep.head)
    · exact forall_mem_concat hI.log (hI.pushes p (List.mem_of_getElem? hdep.get))
  · rcases h.log_cases with hlog | ⟨k, w, c, hdep, rfl⟩ | ⟨i, p, hdep, rfl⟩
    · rw [hlog]
      exact hI.nodes
    · exact forall_mem_concat hI.nodes (hN.workers w (List.mem_of_getElem? hdep.get))
    · exact forall_mem_concat hI.nodes (hN.pushes p (List.mem_of_getElem? hdep.get))

theorem ChunksInv.step (hI : R.ChunksInv s.store) (hN : R.NodesInv s.store)
    (h : R.cascade.Step s l s') : R.ChunksInv s'.store := by
  cases h with
  | @finish _ c hc hpc =>
    refine ⟨forall_mem_concat hI.workers fun j c' hj => ⟨c', ⟨?_, ?_⟩, List.prefix_refl _⟩,
      hI.pushes, hI.log, hI.nodes, hI.accepted⟩
    · exact Nat.succ_ne_zero _
    · change (R.scan c.dst).calls[0 + j + 1 - 1]? = some c'
      rw [Nat.add_sub_cancel, Nat.zero_add]
      exact hj
  | env he => exact hI.env hN (env_cases he)
  | _ => exact ⟨hI.workers, hI.pushes, hI.log, hI.nodes, hI.accepted⟩

theorem ChunksInv.initial (R : Request Node Row) : R.ChunksInv R.startStore :=
  ⟨fun _ h => absurd h List.not_mem_nil, fun _ h => absurd h List.not_mem_nil,
    fun _ h => absurd h List.not_mem_nil, fun _ h => absurd h List.not_mem_nil,
    fun _ h => absurd h List.not_mem_nil⟩

end Chunks

/-! ### The buffer accepts no more rows than there are -/

/-- What a request can accept from its producers, if it gets each chunk once. -/
structure CapInv (R : Request Node Row) (σ : Store Node Row) : Prop where
  once : σ.st.buffer.canceled = false → (σ.log.map Deposit.key).Nodup
  total : (accepted σ).length ≤ R.rows.length

/-- **Distinct chunks have no more rows than all chunks.** -/
theorem length_accepted {R : Request Node Row} {σ : Store Node Row}
    (hC : R.ChunksInv σ) (honce : (σ.log.map Deposit.key).Nodup) :
    (accepted σ).length ≤ R.rows.length := by
  -- the rows of all chunks, by producer and number
  have h_keys : R.rows = (R.chunks.map fun x => (x.1, x.2.val + 1)).flatMap
      fun key => ((R.scan key.1).calls[key.2 - 1]?).elim [] SinkCall.rows := by
    rw [rows_eq_chunks, List.flatMap_map]
    refine List.flatMap_congr fun x _ => ?_
    change ((R.scan x.1).calls.get x.2).rows = ((R.scan x.1).calls[x.2.val]?).elim [] _
    rw [List.getElem?_eq_getElem x.2.2]
    rfl
  rw [h_keys]
  -- each chunk is deposited once at most, and no more than it holds
  refine length_flatMap_le honce fun d hd => ?_
  obtain ⟨c, ⟨h_seq, h_call⟩, h_prefix⟩ := hC.log d hd
  obtain ⟨hlt, -⟩ := List.getElem?_eq_some_iff.mp h_call
  constructor
  · refine List.mem_map.mpr ⟨⟨d.producer, ⟨d.seq - 1, hlt⟩⟩,
      List.mem_sigma.mpr ⟨hC.nodes d hd, List.mem_finRange _⟩, ?_⟩
    exact Prod.ext rfl (Nat.succ_pred_eq_of_ne_zero h_seq)
  · change d.accepted.length ≤ (((R.scan d.producer).calls[d.seq - 1]?).elim [] _).length
    rw [h_call]
    exact (hC.accepted d hd).length_le.trans h_prefix.length_le

section Cap

variable [DecidableEq Node] {R : Request Node Row} {σ : Store Node Row} {e : Event Node}
  {s s' : State Node Row} {l : Label Node}

omit [DecidableEq Node] in
/-- A chunk is deposited. -/
theorem CapInv.deposit {σ' : Store Node Row} (hI : R.CapInv σ) (hC : R.ChunksInv σ')
    (hlive : σ'.st.buffer.canceled = false → σ.st.buffer.canceled = false)
    {producer : Node} {seq : ℕ} {c : SinkCall Row}
    (hlog : σ'.log = σ.log ++ [⟨producer, seq, c, σ.st.buffer.taken c.rows⟩])
    (hnew : σ.st.buffer.canceled = false → ∀ d ∈ σ.log, d.key ≠ (producer, seq)) :
    R.CapInv σ' := by
  have h_once : σ.st.buffer.canceled = false → (σ'.log.map Deposit.key).Nodup := by
    intro h
    rw [hlog, List.map_append, List.nodup_append_comm]
    refine List.nodup_cons.mpr ⟨fun hmem => ?_, hI.once h⟩
    obtain ⟨d, hd, h_key⟩ := List.mem_map.mp hmem
    exact hnew h d hd h_key
  refine ⟨fun h => h_once (hlive h), ?_⟩
  cases hcanceled : σ.st.buffer.canceled with
  | false => exact length_accepted hC (h_once hcanceled)
  | true =>
    -- a canceled buffer accepts no row
    have h_accepted : accepted σ' = accepted σ := by
      unfold accepted
      rw [hlog, List.flatMap_append, List.flatMap_singleton, ChunkBuffer.taken, hcanceled]
      exact List.append_nil _
    rw [h_accepted]
    exact hI.total

theorem CapInv.env (hI : R.CapInv s.store) (hC : R.ChunksInv σ) (h : R.EnvStep s.store e σ)
    (honce : DepositsOnce s (.env e)) : R.CapInv σ := by
  -- a cancellation is never taken back
  have h_live : σ.st.buffer.canceled = false → s.store.st.buffer.canceled = false := by
    intro hlive
    by_contra hcanceled
    exact absurd hlive (by simp [h.canceled_mono (Bool.eq_true_of_not_eq_false hcanceled)])
  rcases h.log_cases with hlog | ⟨k, w, c, hdep, heq⟩ | ⟨i, p, hdep, heq⟩
  · refine ⟨fun hlive => ?_, ?_⟩
    · rw [hlog]
      exact hI.once (h_live hlive)
    · unfold accepted
      rw [hlog]
      exact hI.total
  · obtain rfl := hdep.event
    exact hI.deposit hC h_live (congrArg Store.log heq) (honce w hdep.get hdep.pc)
  · obtain rfl := hdep.event
    exact hI.deposit hC h_live (congrArg Store.log heq) (honce p hdep.get hdep.pc)

theorem CapInv.step (hI : R.CapInv s.store) (hC : R.ChunksInv s'.store)
    (h : R.cascade.Step s l s') (honce : DepositsOnce s l) : R.CapInv s'.store := by
  cases h with
  | @collect i id c d todo r hc hpc hd hr =>
    have h_st := settle_st (σ := s.store) c.dst c.msg d.dst (some r)
    exact ⟨fun hlive => hI.once ((congrArg (fun st => st.buffer.canceled) h_st).symm.trans hlive),
      hI.total⟩
  | @expire i id c d todo hc hpc hd =>
    have h_st := settle_st (σ := s.store) c.dst c.msg d.dst none
    exact ⟨fun hlive => hI.once ((congrArg (fun st => st.buffer.canceled) h_st).symm.trans hlive),
      hI.total⟩
  | env he => exact hI.env hC (env_cases he) honce
  | _ => exact ⟨hI.once, hI.total⟩

theorem CapInv.initial (R : Request Node Row) : R.CapInv R.startStore :=
  ⟨fun _ => List.nodup_nil, Nat.zero_le _⟩

end Cap

/-! ### Rows on their way to the client and to the cache -/

/-- The rows of a request whose buffer has started with `base` of them. -/
structure RowCount (base : ℕ) (σ : Store Node Row) : Prop where
  /-- A fetch that has not popped holds no rows. -/
  found : ∀ f ∈ σ.fetches, f.pc = .found → f.rsp.rows = []
  /-- What is queued or fetched has been there from the start, or accepted. -/
  served : (fetched σ).length + σ.st.buffer.q.length ≤ base + (accepted σ).length
  /-- What is collected for the cache, or put there, has been fetched. -/
  collected : σ.puts.flatten.length + σ.st.cacheAccum.length ≤
    (σ.fetches.flatMap Fetch.collected).length

section Count

variable {σ σ' : Store Node Row} {base : ℕ}

/-- The count looks at these fields only. -/
theorem RowCount.congr (hI : RowCount base σ) (hfetches : σ'.fetches = σ.fetches)
    (hq : σ'.st.buffer.q = σ.st.buffer.q) (haccum : σ'.st.cacheAccum = σ.st.cacheAccum)
    (hlog : σ'.log = σ.log) (hputs : σ'.puts = σ.puts) : RowCount base σ' := by
  refine ⟨?_, ?_, ?_⟩
  · rw [hfetches]
    exact hI.found
  · unfold fetched accepted
    rw [hfetches, hq, hlog]
    exact hI.served
  · rw [hputs, haccum, hfetches]
    exact hI.collected

/-- A chunk joins the queue as it joins the log. -/
theorem RowCount.deposit (hI : RowCount base σ) (producer : Node) (seq : ℕ)
    (c : SinkCall Row) : RowCount base (σ.deposit producer seq c) where
  found := hI.found
  served := by
    have h_served := hI.served
    change (fetched σ).length + (σ.st.buffer.pushRows c.rows).1.q.length ≤
      base + ((σ.log ++ [_]).flatMap Deposit.accepted).length
    rw [ChunkBuffer.pushRows_fst_q, List.flatMap_append, List.flatMap_singleton,
      List.length_append, List.length_append, ← Nat.add_assoc, ← Nat.add_assoc]
    exact Nat.add_le_add_right h_served _
  collected := hI.collected

/-- Marks leave the rows alone. -/
theorem RowCount.mark (hI : RowCount base σ) {st : RequestState Node Row}
    (hst : st = { σ.st with buffer := { σ.st.buffer with done := st.buffer.done } }) :
    RowCount base { σ with st := st } :=
  hI.congr rfl (congrArg (fun st => st.buffer.q) hst) (congrArg (fun st => st.cacheAccum) hst)
    rfl rfl

/-- Canceling gives up what is queued. -/
theorem RowCount.cancelBuffer (hI : RowCount base σ) : RowCount base σ.cancelBuffer :=
  ⟨hI.found, (Nat.le_add_right _ _).trans hI.served, hI.collected⟩

/-- A fetch goes on with the rows it has. -/
theorem RowCount.setFetch (hI : RowCount base σ) {i : ℕ} {f g : Fetch Row}
    (hf : σ.fetches[i]? = some f) (hrows : g.rsp.rows = f.rsp.rows) (hpc : g.pc ≠ .found)
    (hcollected : g.collected = f.collected) : RowCount base (σ.setFetch i g) where
  found := forall_mem_set hI.found fun h => absurd h hpc
  served := by
    rw [fetched_set hf hrows]
    exact hI.served
  collected := by
    change _ ≤ ((σ.fetches.set i g).flatMap Fetch.collected).length
    rw [flatMap_set_eq hf hcollected]
    exact hI.collected

/-- A new fetch has no rows. -/
theorem RowCount.newFetch (hI : RowCount base σ) {f : Fetch Row} (hrows : f.rsp.rows = []) :
    RowCount base { σ with fetches := σ.fetches ++ [f] } where
  found := forall_mem_concat hI.found fun _ => hrows
  served := by
    rw [fetched_concat hrows]
    exact hI.served
  collected := by
    rw [List.flatMap_append, List.length_append]
    exact hI.collected.trans (Nat.le_add_right _ _)

/-- A pop moves rows from the queue to its fetch, which has not collected them. -/
theorem RowCount.pop (hI : RowCount base σ) {i want : ℕ} {f g : Fetch Row}
    {st : RequestState Node Row} (hf : σ.fetches[i]? = some f) (hpc : f.pc = .found)
    (hrows : g.rsp.rows = (σ.st.buffer.popUpTo want).2) (hpc' : g.pc = .popped)
    (haccum : st.cacheAccum = σ.st.cacheAccum) :
    RowCount base (({ σ with st := st.withBuffer (σ.st.buffer.popUpTo want).1 } :
      Store Node Row).setFetch i g) := by
  have h_empty := hI.found f (List.mem_of_getElem? hf) hpc
  refine ⟨forall_mem_set hI.found fun h => absurd h (by simp [hpc']), ?_, ?_⟩
  · have h_served := hI.served
    have h_fetched := (fetched_set_perm (g := g) hf h_empty).length_eq
    -- the rows have left the queue
    have h_pop := congrArg List.length (σ.st.buffer.popUpTo_append want)
    rw [List.length_append] at h_fetched h_pop
    rw [hrows] at h_fetched
    change (fetched (σ.setFetch i g)).length + (σ.st.buffer.popUpTo want).1.q.length ≤
      base + (accepted σ).length
    omega
  · change σ.puts.flatten.length + st.cacheAccum.length ≤
      ((σ.fetches.set i g).flatMap Fetch.collected).length
    have h_none : g.collected = f.collected := by
      simp [Fetch.collected, hpc, hpc', h_empty]
    rw [haccum, flatMap_set_eq hf h_none]
    exact hI.collected

/-- The rows of a fetch are collected, or the collection is given up. -/
theorem RowCount.accumulate (hI : RowCount base σ) {i : ℕ} {f g : Fetch Row}
    (hf : σ.fetches[i]? = some f) (hpc : f.pc = .popped) (hrows : g.rsp.rows = f.rsp.rows)
    (hpc' : g.pc = .accumulated) :
    RowCount base (({ σ with st := σ.st.accumulate f.rsp.rows } :
      Store Node Row).setFetch i g) := by
  refine ⟨forall_mem_set hI.found fun h => absurd h (by simp [hpc']), ?_, ?_⟩
  · change (fetched (σ.setFetch i g)).length + (σ.st.accumulate f.rsp.rows).buffer.q.length ≤
      base + (accepted σ).length
    rw [fetched_set hf hrows, RequestState.accumulate_buffer]
    exact hI.served
  · have h_set := (flatMap_set_perm (b := g) (f := Fetch.collected) hf).length_eq
    have h_none : f.collected = [] := if_pos hpc
    have h_some : g.collected = f.rsp.rows := (if_neg (by simp [hpc'])).trans hrows
    rw [h_none, h_some, List.append_nil, List.length_append] at h_set
    have h_collected := hI.collected
    -- the accumulator takes no more than the rows of the fetch
    have h_accum := σ.st.length_accumulate f.rsp.rows
    change σ.puts.flatten.length + (σ.st.accumulate f.rsp.rows).cacheAccum.length ≤
      ((σ.fetches.set i g).flatMap Fetch.collected).length
    omega

/-- What is collected moves to the puts. -/
theorem RowCount.put (hI : RowCount base σ) : RowCount base { σ with
    st := { σ.st with cacheAccum := [] }
    puts := σ.puts ++ [σ.st.cacheAccum] } where
  found := hI.found
  served := hI.served
  collected := by
    rw [List.flatten_append, List.flatten_singleton, List.length_append]
    exact hI.collected

/-- No fetch returns more rows than there are. -/
theorem RowCount.length_returned (hI : RowCount base σ) :
    (returned σ).length ≤ base + (accepted σ).length :=
  returned_subperm.length_le.trans ((Nat.le_add_right _ _).trans hI.served)

/-- Nor does any put. -/
theorem RowCount.length_put (hI : RowCount base σ) {rows : List Row} (h : rows ∈ σ.puts) :
    rows.length ≤ base + (accepted σ).length := by
  have h_put : rows.length ≤ σ.puts.flatten.length := (List.sublist_flatten_of_mem h).length_le
  -- what has been collected is part of what has been fetched
  have h_collected : (σ.fetches.flatMap Fetch.collected).length ≤ (fetched σ).length := by
    unfold fetched
    rw [List.length_flatMap, List.length_flatMap]
    refine List.sum_le_sum fun f _ => ?_
    unfold Fetch.collected
    split
    · exact Nat.zero_le _
    · exact le_rfl
  have h_served := hI.served
  have h_all := hI.collected
  omega

section Step

variable [DecidableEq Node] {R : Request Node Row} {e : Event Node} {s s' : State Node Row}
  {l : Label Node}

theorem RowCount.env (hI : RowCount base σ) (h : R.EnvStep σ e σ') : RowCount base σ' := by
  cases h with
  | @workDeposit k w c todo _ _ _ =>
    -- rows come in, and go on to the client
    exact (hI.deposit w.node (w.history.length + 1) c).congr rfl rfl rfl rfl rfl
  | @workMark k w c todo _ _ _ =>
    exact (hI.mark (markDoneIf_st c w.node)).congr rfl rfl rfl rfl rfl
  | @pushDeposit i p _ _ => exact (hI.deposit p.producer p.seq p.call).congr rfl rfl rfl rfl rfl
  | @pushMark i took p _ _ =>
    exact (hI.mark (markDoneIf_st p.call p.producer)).congr rfl rfl rfl rfl rfl
  | fetchBegin _ => exact hI.newFetch rfl
  | fetchGone _ => exact hI.newFetch rfl
  | fetchPop hf hpc hst _ =>
    -- rows go from the buffer to a fetch, and with it to what is collected
    exact hI.pop hf hpc rfl rfl (by rw [hst, RequestState.recordFetch_cacheAccum])
  | fetchAccumulate hf hpc hrsp => exact hI.accumulate hf hpc (by rw [hrsp]) rfl
  | fetchServed hf hpc => exact hI.setFetch hf rfl (by simp) (by simp [Fetch.collected, hpc])
  | fetchCounted hf hpc => exact hI.setFetch hf rfl (by simp) (by simp [Fetch.collected, hpc])
  | fetchCanceled hf hpc => exact hI.setFetch hf rfl (by simp) (by simp [Fetch.collected, hpc])
  | fetchFinal hf hpc => exact hI.setFetch hf rfl (by simp) (by simp [Fetch.collected, hpc])
  | fetchPut hf hpc _ _ _ =>
    -- what has been collected goes to the cache at once
    exact hI.put.setFetch hf rfl (by simp) (by simp [Fetch.collected, hpc])
  | fetchNoPut hf hpc _ _ =>
    exact hI.setFetch hf rfl (by simp) (by simp [Fetch.collected, hpc])
  | fetchMore hf hpc _ => exact hI.setFetch hf rfl (by simp) (by simp [Fetch.collected, hpc])
  | @fetchErase i dt f hf hpc =>
    have h_set := hI.setFetch (g := { f with pc := .answered }) hf rfl (by simp)
      (by simp [Fetch.collected, hpc])
    exact h_set.congr rfl rfl rfl rfl rfl
  | cancelFound _ => exact hI.cancelBuffer.congr rfl rfl rfl rfl rfl
  | janitorCancel _ => exact hI.cancelBuffer.congr rfl rfl rfl rfl rfl
  | _ => exact hI.congr rfl rfl rfl rfl rfl

/-- **Every action keeps count of the rows.** -/
theorem RowCount.step (hI : RowCount base s.store) (h : R.cascade.Step s l s') :
    RowCount base s'.store := by
  cases h with
  | @collect i id c d todo r hc hpc hd hr => exact hI.mark (settle_st c.dst c.msg d.dst (some r))
  | @expire i id c d todo hc hpc hd => exact hI.mark (settle_st c.dst c.msg d.dst none)
  | env he => exact hI.env (env_cases he)
  | _ => exact hI.congr rfl rfl rfl rfl rfl

end Step

end Count

/-! ### What a request can return -/

/-- Nobody deposits anything for the request. -/
structure Idle (s : State Node Row) : Prop where
  calls : s.calls = []
  workers : s.store.workers = []
  pushes : s.store.pushes = []
  log : s.store.log = []

/-- A request that returns `N` rows at most: it has been started on an overlay whose
engines emit as many, or from the cache with as many. -/
inductive Bounded [DecidableEq Node] (R : Request Node Row) (N : ℕ) (s : State Node Row) : Prop
  | started (flood : R.FloodInv s) (nodes : R.NodesInv s.store) (chunks : R.ChunksInv s.store)
      (cap : R.CapInv s.store) (count : RowCount 0 s.store) (hle : R.rows.length ≤ N)
  | cached {base : ℕ} (idle : Idle s) (count : RowCount base s.store) (hle : base ≤ N)

section Bounded

variable [DecidableEq Node] {R : Request Node Row} {N : ℕ} {s s' : State Node Row} {l : Label Node}

/-- The rows of such a request, as the count has them. -/
theorem Bounded.exists_count (hI : R.Bounded N s) :
    ∃ base, RowCount base s.store ∧ base + (accepted s.store).length ≤ N := by
  cases hI with
  | started _ _ _ cap count hle =>
    refine ⟨0, count, ?_⟩
    rw [Nat.zero_add]
    exact cap.total.trans hle
  | @cached base idle count hle =>
    refine ⟨base, count, ?_⟩
    unfold accepted
    rw [idle.log]
    exact hle

theorem Bounded.length_returned (hI : R.Bounded N s) : (returned s.store).length ≤ N := by
  obtain ⟨base, h_count, h_le⟩ := hI.exists_count
  exact h_count.length_returned.trans h_le

theorem Bounded.length_put (hI : R.Bounded N s) {rows : List Row} (h : rows ∈ s.store.puts) :
    rows.length ≤ N := by
  obtain ⟨base, h_count, h_le⟩ := hI.exists_count
  exact (h_count.length_put h).trans h_le

theorem Idle.step (hI : Idle s) (h : R.cascade.Step s l s') : Idle s' := by
  cases h with
  | @env e σ he =>
    have he := env_cases he
    refine ⟨hI.calls, ?_, ?_, ?_⟩
    · rcases he.workers_cases with heq | ⟨k, w, w', hmove, -⟩
      · exact heq.trans hI.workers
      · exact absurd hmove.get (getElem?_ne_some hI.workers)
    · rcases he.pushes_cases with heq | ⟨k, w, c, retries, hsend, -⟩ | ⟨i, p, p', new, hp, -⟩
      · exact heq.trans hI.pushes
      · exact absurd hsend.get (getElem?_ne_some hI.workers)
      · exact absurd hp (getElem?_ne_some hI.pushes)
    · rcases he.log_cases with heq | ⟨k, w, c, hdep, -⟩ | ⟨i, p, hdep, -⟩
      · exact heq.trans hI.log
      · exact absurd hdep.get (getElem?_ne_some hI.workers)
      · exact absurd hdep.get (getElem?_ne_some hI.pushes)
  -- there is no handler that could act
  | check hc _ => exact absurd hc (getElem?_ne_some hI.calls)
  | commit hc _ => exact absurd hc (getElem?_ne_some hI.calls)
  | send hc _ => exact absurd hc (getElem?_ne_some hI.calls)
  | collect hc _ _ _ => exact absurd hc (getElem?_ne_some hI.calls)
  | expire hc _ _ => exact absurd hc (getElem?_ne_some hI.calls)
  | finish hc _ => exact absurd hc (getElem?_ne_some hI.calls)

/-- **The bound is kept** by every action, as long as no chunk is deposited twice. -/
theorem Bounded.step (hI : R.Bounded N s) (h : R.cascade.Step s l s')
    (honce : DepositsOnce s l) : R.Bounded N s' := by
  cases hI with
  | started flood nodes chunks cap count hle =>
    have h_chunks := chunks.step nodes h
    exact .started (flood.step h) (nodes.step flood h) h_chunks (cap.step h_chunks h honce)
      (count.step h) hle
  | cached idle count hle => exact .cached (idle.step h) (count.step h) hle

/-- A request starts without rows. -/
theorem Bounded.start (hle : R.rows.length ≤ N) : R.Bounded N R.start := by
  have h_q : R.startStore.st.buffer.q = [] := congrArg ChunkBuffer.q R.start_buffer
  refine .started (.initial R) (.initial R) (.initial R) (.initial R)
    ⟨fun _ h => absurd h List.not_mem_nil, ?_, Nat.zero_le _⟩ hle
  change 0 + R.startStore.st.buffer.q.length ≤ 0
  rw [h_q]
  exact le_rfl

end Bounded

end Request

/-! ### The cap of a query -/

namespace Cluster

variable (C : Cluster Node)

/-- The number of rows that a node's engine finds for a query, up to the cap. -/
def share (spec : QuerySpec) (n : Node) : ℕ :=
  (spec.cut (QueryEngine.found (C.store n) spec)).length

/-- The nodes' shares of a query with a cap are within it, and no request for such a query
deposits a chunk twice. -/
def Capped (s : PortalState Node) : PortalLabel Node → Prop
  | .submitQuery spec => spec.maxRows ≠ 0 →
      (C.overlay.nodes.map (C.share spec)).sum ≤ spec.maxRows.toNat
  | .request k l => ∀ a ∈ s.requests[k]?, a.spec.maxRows ≠ 0 → Request.DepositsOnce a.state l

instance [DecidableEq Node] (s : PortalState Node) (l : PortalLabel Node) :
    Decidable (C.Capped s l) := by
  unfold Capped
  induction l using PortalLabel.casesOn <;> infer_instance

/-- The engines emit no more than their shares. -/
theorem length_rows_le (spec : QuerySpec) :
    (C.request spec).rows.length ≤ (C.overlay.nodes.map (C.share spec)).sum := by
  rw [C.request_rows, Cluster.result, List.length_flatMap]
  refine List.sum_le_sum fun n _ => ?_
  unfold emitted
  cases hrun : QueryEngine.run (C.store n) spec C.sort C.params.initialChunkRows
      (fun _ => false) with
  | none => exact Nat.zero_le _
  | some calls =>
    change (calls.flatMap SinkCall.rows).length ≤ C.share spec n
    rw [QueryEngine.run_found hrun, QuerySpec.cut_map, List.length_map]
    exact le_rfl

variable [DecidableEq Node]

/-- A request that is answered from the cache returns what was there. -/
theorem cachedStart_bounded {spec : QuerySpec} {rows : List Row311} {N : ℕ}
    (hle : rows.length ≤ N) : (C.request spec).Bounded N (C.cachedStart spec rows) := by
  have h_count : Request.RowCount rows.length (C.cachedStart spec rows).store := by
    refine ⟨fun _ h => absurd h List.not_mem_nil, ?_, Nat.zero_le _⟩
    change 0 + (C.cachedState rows).buffer.q.length ≤ rows.length + 0
    unfold cachedState
    dsimp only
    rw [ChunkBuffer.markProducerDone_q, ChunkBuffer.pushRows_fst_q, Nat.zero_add]
    change ([] ++ _).length ≤ _
    rw [List.nil_append]
    exact (ChunkBuffer.taken_sublist _ rows).length_le
  exact .cached ⟨rfl, rfl, rfl, rfl⟩ h_count hle

/-- Requests and entries for queries with a cap are within it. -/
structure CapsInv (s : PortalState Node) : Prop where
  cache : ∀ e ∈ s.cache.lru, e.2.spec.maxRows ≠ 0 →
    e.2.rows.length ≤ e.2.spec.maxRows.toNat
  requests : ∀ a ∈ s.requests, a.spec.maxRows ≠ 0 →
    (C.request a.spec).Bounded a.spec.maxRows.toNat a.state

variable {C} {s s' : PortalState Node} {l : PortalLabel Node}

theorem CapsInv.step (hI : C.CapsInv s) (hcapped : C.Capped s l) (h : C.PortalStep s l s') :
    C.CapsInv s' := by
  cases h with
  | @hit spec rows cache hget =>
    refine ⟨fun e he => hI.cache e (QueryCache.mem_get (by rw [hget]; exact he)), ?_⟩
    refine forall_mem_concat hI.requests fun hmax => C.cachedStart_bounded ?_
    -- the entry is for an equal query, with the same cap
    obtain ⟨e, he, h_spec, rfl⟩ := QueryCache.get_eq_some (congrArg Prod.fst hget)
    have h_max : e.2.spec.maxRows = spec.maxRows := QueryCache.maxRows_eq h_spec
    rw [← h_max] at hmax ⊢
    exact hI.cache e he hmax
  | @miss spec cache hget _ =>
    refine ⟨fun e he => hI.cache e (QueryCache.mem_get (by rw [hget]; exact he)), ?_⟩
    exact forall_mem_concat hI.requests fun hmax =>
      .start ((C.length_rows_le spec).trans (hcapped hmax))
  | @act k l a state ha hstep =>
    have h_a : a.spec.maxRows ≠ 0 →
        (C.request a.spec).Bounded a.spec.maxRows.toNat state := fun hmax =>
      (hI.requests a (List.mem_of_getElem? ha) hmax).step hstep (hcapped a ha hmax)
    refine ⟨fun e he hmax => ?_, forall_mem_set hI.requests h_a⟩
    rcases QueryCache.mem_foldl_put he with he | ⟨h_spec, hput⟩
    · exact hI.cache e he hmax
    · have h_max : e.2.spec.maxRows = a.spec.maxRows := QueryCache.maxRows_eq h_spec
      rw [h_max] at hmax ⊢
      exact (h_a hmax).length_put (List.mem_of_mem_drop hput)

/-- Two nodes with the same three rows. -/
def twins : Cluster Overlay.Id3 := { near with store := fun _ => QueryEngine.nearStore }

end Cluster
end Mini2
