import Mini2.Node.Completeness

/-!
# What a request hands to the cache

The responses of a request are collected as they are sent, and put into the cache
with the final one, unless that says that the request is canceled. The put does
not look at how the end of the result came about. `step_puts` says what it takes
for the collected rows to be those of all engines (`Keeps`):

* chunks reach the buffer once, whole, and as their engines emitted them;
* a node is marked as done after its chunks;
* no cancellation falls between the reads of `canceled` and `final`;
* fetches of the request do not overlap around the put.

All of it only matters while the request collects, and the first two only until it
is canceled.
-/

namespace Mini2

open Framework

variable {Node Row : Type*}

/-- The portal is about to mark the producer, if the chunk is its last. -/
def PushPc.marking : PushPc Node → Bool
  | .pushed _ => true
  | _ => false

/-- The rows of a fetch that have been collected. -/
def Fetch.collected (f : Fetch Row) : List Row := if f.pc = .popped then [] else f.rsp.rows

theorem Fetch.collected_eq_nil {f : Fetch Row} (hrows : f.rsp.rows = []) : f.collected = [] := by
  unfold Fetch.collected
  split
  · rfl
  · exact hrows

/-- The response says that the result is complete. -/
def Fetch.complete (f : Fetch Row) : Bool :=
  match f.pc with
  | .finalRead | .closing | .answered => f.rsp.final && !f.rsp.canceled
  | _ => false

namespace Request

/-! ### Sound deposits -/

/-- `c` is chunk `seq` of `n`, counted from one. -/
def IsChunk (R : Request Node Row) (n : Node) (seq : ℕ) (c : SinkCall Row) : Prop :=
  seq ≠ 0 ∧ (R.scan n).calls[seq - 1]? = some c

/-- A chunk that is deposited is one of its producer's, is not in the log, and finds
room for all of its rows. -/
def SoundDeposit (R : Request Node Row) (σ : Store Node Row) (producer : Node) (seq : ℕ)
    (c : SinkCall Row) : Prop :=
  R.IsChunk producer seq c ∧ (producer, seq) ∉ σ.log.map (fun d => (d.producer, d.seq)) ∧
    HasRoom σ c

/-- The deposit and the mark that an action makes are sound. -/
def SoundBuffer (R : Request Node Row) (s : State Node Row) : Label Node → Prop
  | .env (.work k) => ∀ w ∈ s.store.workers[k]?, ∀ c ∈ w.todo.head?,
      (w.pc = .found → R.SoundDeposit s.store w.node (w.history.length + 1) c) ∧
      (w.pc = .deposited → c.done = true → R.Complete s.store.log w.node)
  | .env (.push i) => ∀ p ∈ s.store.pushes[i]?,
      (p.pc = .live → R.SoundDeposit s.store p.producer p.seq p.call) ∧
      (p.pc.marking = true → p.call.done = true → R.Complete s.store.log p.producer)
  | l => R.SoundMark s l

/-- A fetch that reads the end of the result has not missed a cancellation, and when
it puts what is collected, no other fetch has rows that are not, or has put some. -/
def SoundFetch (s : State Node Row) : Label Node → Prop
  | .env (.fetch i _) => ∀ f ∈ s.store.fetches[i]?,
      (f.pc = .canceledRead → f.rsp.canceled = false → s.store.st.buffer.canceled = false) ∧
      (f.pc = .finalRead → f.rsp.final = true → f.rsp.canceled = false →
        s.store.puts.flatten = [] ∧ ∀ g ∈ s.store.fetches, g.pc = .popped → g.rsp.rows = [])
  | _ => True

/-- What an action has to respect for the cache. -/
def Keeps (R : Request Node Row) (s : State Node Row) (l : Label Node) : Prop :=
  s.store.st.cacheCollect = true →
    (s.store.st.buffer.canceled = false → R.SoundBuffer s l) ∧ SoundFetch s l

section Decidable

variable [DecidableEq Node] [DecidableEq Row] (R : Request Node Row)

instance (n : Node) (seq : ℕ) (c : SinkCall Row) : Decidable (R.IsChunk n seq c) :=
  inferInstanceAs (Decidable (_ ∧ _))

instance (σ : Store Node Row) (producer : Node) (seq : ℕ) (c : SinkCall Row) :
    Decidable (R.SoundDeposit σ producer seq c) :=
  inferInstanceAs (Decidable (_ ∧ _ ∧ _))

instance (s : State Node Row) (l : Label Node) : Decidable (R.SoundBuffer s l) := by
  unfold SoundBuffer
  induction l using Framework.Cascade.Label.casesOn with
  | env e => induction e using Event.casesOn <;> infer_instance
  | _ => infer_instance

instance (s : State Node Row) (l : Label Node) : Decidable (SoundFetch s l) := by
  unfold SoundFetch
  induction l using Framework.Cascade.Label.casesOn with
  | env e => induction e using Event.casesOn <;> infer_instance
  | _ => infer_instance

instance (s : State Node Row) (l : Label Node) : Decidable (R.Keeps s l) :=
  inferInstanceAs (Decidable (_ → _ ∧ _))

end Decidable

/-! ### The invariant -/

/-- The log of a buffer that is not canceled. -/
structure SoundLog (R : Request Node Row) (σ : Store Node Row) : Prop where
  full : Full σ.log
  once : (σ.log.map fun d => (d.producer, d.seq)).Nodup
  chunk : ∀ d ∈ σ.log, d.producer ∈ R.overlay.nodes ∧ R.IsChunk d.producer d.seq d.call
  done : ∀ n ∈ σ.st.buffer.done, R.Complete σ.log n

/-- All rows of the request have been fetched, and no more will. -/
structure Drained (R : Request Node Row) (σ : Store Node Row) : Prop where
  rows : (fetched σ).Perm R.rows
  q : σ.st.buffer.q = []
  complete : σ.st.buffer.canceled = false → ∀ n ∈ R.overlay.nodes, R.Complete σ.log n

/-- The bookkeeping of a request that collects. -/
structure CollectInv (R : Request Node Row) (σ : Store Node Row) : Prop where
  log : σ.st.buffer.canceled = false → R.SoundLog σ
  canceled : σ.st.buffer.canceled = true → σ.st.buffer.q = []
  final : ∀ f ∈ σ.fetches, f.complete = true → R.Drained σ
  collected : (σ.puts.flatten ++ σ.st.cacheAccum).Perm (σ.fetches.flatMap Fetch.collected)

section Log

variable {R : Request Node Row} {σ : Store Node Row}

/-- Chunks that are in the log once are no more than there are. -/
theorem SoundLog.subperm (hI : R.SoundLog σ) :
    (σ.log.flatMap fun d => d.call.rows).Subperm R.rows := by
  -- the log names its chunks by producer and number, each once
  have h_keys : (σ.log.flatMap fun d => d.call.rows) =
      (σ.log.map fun d => (d.producer, d.seq)).flatMap
        fun x => ((R.scan x.1).calls[x.2 - 1]?).elim [] SinkCall.rows := by
    rw [List.flatMap_map]
    refine List.flatMap_congr fun d hd => ?_
    rw [(hI.chunk d hd).2.2]
    rfl
  rw [h_keys, rows_eq_chunks]
  refine flatMap_subperm (K := fun x y => x.1 = y.1 ∧ x.2 = y.2.val + 1) hI.once ?_ ?_
  · rintro ⟨n, k⟩ ⟨n', k'⟩ y ⟨rfl, rfl⟩ ⟨rfl, rfl⟩
    rfl
  · intro x hx
    obtain ⟨d, hd, rfl⟩ := List.mem_map.mp hx
    obtain ⟨h_node, h_seq, h_call⟩ := hI.chunk d hd
    obtain ⟨hlt, h_get⟩ := List.getElem?_eq_some_iff.mp h_call
    refine ⟨⟨d.producer, ⟨d.seq - 1, hlt⟩⟩, List.mem_sigma.mpr ⟨h_node, List.mem_finRange _⟩,
      ⟨rfl, (Nat.succ_pred_eq_of_ne_zero h_seq).symm⟩, ?_⟩
    rw [h_call]
    exact congrArg SinkCall.rows h_get

/-- **The log has exactly the rows of the engines** once all chunks are in it. -/
theorem SoundLog.accepted_perm (hI : R.SoundLog σ)
    (hcomplete : ∀ n ∈ R.overlay.nodes, R.Complete σ.log n) : (accepted σ).Perm R.rows := by
  have h_accepted : accepted σ = σ.log.flatMap fun d => d.call.rows :=
    List.flatMap_congr hI.full
  rw [h_accepted]
  exact hI.subperm.antisymm (rows_subperm hcomplete)

/-- Once all chunks are in the log, no other is sound. -/
theorem SoundDeposit.not_complete {producer : Node} {seq : ℕ} {c : SinkCall Row}
    (h : R.SoundDeposit σ producer seq c) : ¬ R.Complete σ.log producer := by
  obtain ⟨⟨h_seq, h_call⟩, h_new, -⟩ := h
  intro hcomplete
  obtain ⟨d, hd, h_producer, h_eq, -⟩ :=
    hcomplete (seq - 1) (List.getElem?_eq_some_iff.mp h_call).1
  refine h_new (List.mem_map.mpr ⟨d, hd, Prod.ext h_producer ?_⟩)
  rw [h_eq]
  exact Nat.succ_pred_eq_of_ne_zero h_seq

end Log

/-! ### Every action keeps the bookkeeping -/

section Keep

variable {R : Request Node Row} {σ σ' : Store Node Row}

theorem Drained.mono (h : R.Drained σ) (hfetched : (fetched σ').Perm (fetched σ))
    (hq : σ'.st.buffer.q = []) (hlive : σ'.st.buffer.canceled = false →
      σ.st.buffer.canceled = false) (hlog : σ.log <+: σ'.log) : R.Drained σ' where
  rows := hfetched.trans h.rows
  q := hq
  complete hl n hn := (h.complete (hlive hl) n hn).mono hlog

/-- The bookkeeping looks at these fields only. -/
theorem CollectInv.congr (hI : R.CollectInv σ) (hlog : σ'.log = σ.log) (hst : σ'.st = σ.st)
    (hfetches : σ'.fetches = σ.fetches) (hputs : σ'.puts = σ.puts) : R.CollectInv σ' := by
  obtain ⟨_, _, _, st, _, _, _, fetches, _, _, log, puts⟩ := σ'
  obtain rfl : log = σ.log := hlog
  obtain rfl : st = σ.st := hst
  obtain rfl : fetches = σ.fetches := hfetches
  obtain rfl : puts = σ.puts := hputs
  refine ⟨fun h => ?_, hI.canceled, fun f hf h => ?_, hI.collected⟩
  · have h_log := hI.log h
    exact ⟨h_log.full, h_log.once, h_log.chunk, h_log.done⟩
  · have h_drained := hI.final f hf h
    exact ⟨h_drained.rows, h_drained.q, h_drained.complete⟩

/-- A sound chunk joins the queue as it joins the log. -/
theorem CollectInv.deposit (hI : R.CollectInv σ) {producer : Node} {seq : ℕ} {c : SinkCall Row}
    (hnode : producer ∈ R.overlay.nodes)
    (hsound : σ.st.buffer.canceled = false → R.SoundDeposit σ producer seq c) :
    R.CollectInv (σ.deposit producer seq c) := by
  have h_canceled : (σ.deposit producer seq c).st.buffer.canceled = σ.st.buffer.canceled :=
    ChunkBuffer.pushRows_fst_canceled _ _
  have h_grows : σ.log <+: (σ.deposit producer seq c).log := List.prefix_append _ _
  -- a canceled buffer takes nothing
  have h_q : σ.st.buffer.canceled = true →
      (σ.deposit producer seq c).st.buffer.q = σ.st.buffer.q := by
    intro hcanceled
    refine (ChunkBuffer.pushRows_fst_q _ _).trans ?_
    simp [ChunkBuffer.taken, hcanceled]
  refine ⟨fun hlive => ?_, fun hcanceled => ?_, fun f hf hfinal => ?_, hI.collected⟩
  · rw [h_canceled] at hlive
    have h_log := hI.log hlive
    obtain ⟨h_chunk, h_new, h_room⟩ := hsound hlive
    refine ⟨h_log.full.deposit hlive h_room _ _, ?_, ?_, fun n hn => ?_⟩
    · change ((σ.log ++ [(⟨producer, seq, c, _⟩ : Deposit Node Row)]).map
        fun d => (d.producer, d.seq)).Nodup
      rw [List.map_append, List.nodup_append_comm]
      exact List.nodup_cons.mpr ⟨h_new, h_log.once⟩
    · exact forall_mem_concat h_log.chunk ⟨hnode, h_chunk⟩
    · refine (h_log.done n ?_).mono h_grows
      exact (congrArg (n ∈ ·) (ChunkBuffer.pushRows_fst_done _ _)).mp hn
  · rw [h_canceled] at hcanceled
    rw [h_q hcanceled]
    exact hI.canceled hcanceled
  · have h_drained := hI.final f hf hfinal
    refine h_drained.mono (List.Perm.refl _) ?_ (fun h => h_canceled ▸ h) h_grows
    -- in a live buffer that is drained, no sound deposit is left to make
    cases hlive : σ.st.buffer.canceled with
    | false => exact absurd (h_drained.complete hlive _ hnode) (hsound hlive).not_complete
    | true => exact (h_q hlive).trans h_drained.q

/-- Marks are for nodes whose chunks are in the log. -/
theorem CollectInv.mark (hI : R.CollectInv σ) {st : RequestState Node Row}
    (hst : st = { σ.st with buffer := { σ.st.buffer with done := st.buffer.done } })
    (hdone : σ.st.buffer.canceled = false → ∀ n ∈ st.buffer.done,
      n ∈ σ.st.buffer.done ∨ R.Complete σ.log n) : R.CollectInv { σ with st := st } := by
  -- only the marks change
  have h_q : st.buffer.q = σ.st.buffer.q := congrArg (fun st => st.buffer.q) hst
  have h_canceled : st.buffer.canceled = σ.st.buffer.canceled :=
    congrArg (fun st => st.buffer.canceled) hst
  have h_accum : st.cacheAccum = σ.st.cacheAccum := congrArg (fun st => st.cacheAccum) hst
  refine ⟨fun hlive => ?_, fun h => h_q.trans (hI.canceled (h_canceled ▸ h)),
    fun f hf hfinal => ?_, ?_⟩
  · have hlive : st.buffer.canceled = false := hlive
    rw [h_canceled] at hlive
    have h_log := hI.log hlive
    exact ⟨h_log.full, h_log.once, h_log.chunk,
      fun n hn => (hdone hlive n hn).elim (h_log.done n) id⟩
  · have h_drained := hI.final f hf hfinal
    exact h_drained.mono (List.Perm.refl _) (h_q.trans h_drained.q) (fun h => h_canceled ▸ h)
      (List.prefix_refl _)
  · change (σ.puts.flatten ++ st.cacheAccum).Perm _
    rw [h_accum]
    exact hI.collected

/-- Canceling empties the queue. -/
theorem CollectInv.cancelBuffer (hI : R.CollectInv σ) : R.CollectInv σ.cancelBuffer where
  log h := absurd h (by simp [Store.cancelBuffer, ChunkBuffer.cancel])
  canceled _ := rfl
  final f hf hfinal := (hI.final f hf hfinal).mono (List.Perm.refl _) rfl
    (fun h => absurd h (by simp [Store.cancelBuffer, ChunkBuffer.cancel])) (List.prefix_refl _)
  collected := hI.collected

/-- A fetch goes on with the rows it has. -/
theorem CollectInv.setFetch (hI : R.CollectInv σ) {i : ℕ} {f g : Fetch Row}
    (hf : σ.fetches[i]? = some f) (hrows : g.rsp.rows = f.rsp.rows)
    (hcollected : g.collected = f.collected)
    (hfinal : g.complete = true → R.Drained σ) : R.CollectInv (σ.setFetch i g) := by
  have h_drained : R.Drained σ → R.Drained (σ.setFetch i g) := fun h =>
    h.mono (List.Perm.of_eq (fetched_set hf hrows)) h.q id (List.prefix_refl _)
  refine ⟨fun h => ?_, hI.canceled, ?_, ?_⟩
  · have h_log := hI.log h
    exact ⟨h_log.full, h_log.once, h_log.chunk, h_log.done⟩
  · exact forall_mem_set (fun e he h => h_drained (hI.final e he h)) fun h => h_drained (hfinal h)
  · refine hI.collected.trans (List.Perm.of_eq ?_)
    change _ = (σ.fetches.set i g).flatMap Fetch.collected
    rw [flatMap_set_eq hf hcollected]

/-- A new fetch has no rows. -/
theorem CollectInv.newFetch (hI : R.CollectInv σ) {f : Fetch Row} (hrows : f.rsp.rows = [])
    (hfinal : f.complete = false) :
    R.CollectInv { σ with fetches := σ.fetches ++ [f] } := by
  refine ⟨fun h => ?_, hI.canceled, ?_, ?_⟩
  · have h_log := hI.log h
    exact ⟨h_log.full, h_log.once, h_log.chunk, h_log.done⟩
  · refine forall_mem_concat (fun g hg h => ?_) fun h => absurd h (by simp [hfinal])
    have h_drained := hI.final g hg h
    have h_fetched := List.Perm.of_eq (fetched_concat (σ := σ) hrows)
    exact h_drained.mono h_fetched h_drained.q id (List.prefix_refl _)
  · rw [flatMap_concat_nil (Fetch.collected_eq_nil hrows)]
    exact hI.collected

/-- A pop moves rows from the queue to its fetch, which has not collected them. -/
theorem CollectInv.pop (hI : R.CollectInv σ) (hW : FlowInv σ) {i want : ℕ} {f f' : Fetch Row}
    {st : RequestState Node Row} (hf : σ.fetches[i]? = some f) (hpc : f.pc = .found)
    (hrows : f'.rsp.rows = (σ.st.buffer.popUpTo want).2) (hpc' : f'.pc = .popped)
    (haccum : st.cacheAccum = σ.st.cacheAccum) :
    R.CollectInv (({ σ with st := st.withBuffer (σ.st.buffer.popUpTo want).1 } :
      Store Node Row).setFetch i f') := by
  have h_empty := hW.found f (List.mem_of_getElem? hf) hpc
  have h_drained : R.Drained σ → R.Drained (({ σ with
      st := st.withBuffer (σ.st.buffer.popUpTo want).1 } : Store Node Row).setFetch i f') := by
    intro h
    -- a drained buffer has nothing to pop
    have h_popped : (σ.st.buffer.popUpTo want).2 = [] := by simp [ChunkBuffer.popUpTo, h.q]
    have h_fetched := fetched_set_perm (g := f') hf h_empty
    rw [hrows, h_popped, List.append_nil] at h_fetched
    exact h.mono h_fetched (by simp [ChunkBuffer.popUpTo, h.q, Store.setFetch]) id
      (List.prefix_refl _)
  refine ⟨fun h => ?_, fun h => ?_, ?_, ?_⟩
  · have h_log := hI.log h
    exact ⟨h_log.full, h_log.once, h_log.chunk, h_log.done⟩
  · have h_q := hI.canceled h
    simp [ChunkBuffer.popUpTo, h_q, Store.setFetch]
  · exact forall_mem_set (fun g hg h => h_drained (hI.final g hg h))
      fun h => absurd h (by simp [Fetch.complete, hpc'])
  · change (σ.puts.flatten ++ st.cacheAccum).Perm ((σ.fetches.set i f').flatMap Fetch.collected)
    have h_collected : f'.collected = f.collected := by
      simp [Fetch.collected, hpc, hpc', h_empty]
    rw [haccum, flatMap_set_eq hf h_collected]
    exact hI.collected

/-- The rows of a fetch are collected. -/
theorem CollectInv.accumulate (hI : R.CollectInv σ) {i : ℕ} {f f' : Fetch Row}
    (hf : σ.fetches[i]? = some f) (hpc : f.pc = .popped) (hrows : f'.rsp.rows = f.rsp.rows)
    (hpc' : f'.pc = .accumulated)
    (hcollect : (σ.st.accumulate f.rsp.rows).cacheCollect = true) :
    R.CollectInv
      (({ σ with st := σ.st.accumulate f.rsp.rows } : Store Node Row).setFetch i f') := by
  have h_drained : R.Drained σ → R.Drained
      (({ σ with st := σ.st.accumulate f.rsp.rows } : Store Node Row).setFetch i f') := by
    intro h
    have h_fetched : (fetched (σ.setFetch i f')).Perm (fetched σ) :=
      List.Perm.of_eq (fetched_set hf hrows)
    refine h.mono h_fetched ?_ (fun hlive => ?_) (List.prefix_refl _)
    · exact (congrArg ChunkBuffer.q (σ.st.accumulate_buffer _)).trans h.q
    · exact (congrArg ChunkBuffer.canceled (σ.st.accumulate_buffer _)).symm.trans hlive
  refine ⟨fun h => ?_, fun h => ?_, ?_, ?_⟩
  · have h : (σ.st.accumulate f.rsp.rows).buffer.canceled = false := h
    rw [RequestState.accumulate_buffer] at h
    have h_log := hI.log h
    refine ⟨h_log.full, h_log.once, h_log.chunk, fun n hn => h_log.done n ?_⟩
    exact (congrArg (fun b => n ∈ b.done) (σ.st.accumulate_buffer _)).mp hn
  · have h : (σ.st.accumulate f.rsp.rows).buffer.canceled = true := h
    rw [RequestState.accumulate_buffer] at h
    exact (congrArg ChunkBuffer.q (σ.st.accumulate_buffer _)).trans (hI.canceled h)
  · exact forall_mem_set (fun g hg h => h_drained (hI.final g hg h))
      fun h => absurd h (by simp [Fetch.complete, hpc'])
  · change (σ.puts.flatten ++ (σ.st.accumulate f.rsp.rows).cacheAccum).Perm
      ((σ.fetches.set i f').flatMap Fetch.collected)
    -- the rows of the fetch count from now on
    have h_set := flatMap_set_perm (b := f') (f := Fetch.collected) hf
    have h_none : f.collected = [] := if_pos hpc
    have h_some : f'.collected = f.rsp.rows := (if_neg (by simp [hpc'])).trans hrows
    rw [h_none, h_some, List.append_nil] at h_set
    rw [(σ.st.accumulate_collect hcollect).2, ← List.append_assoc]
    exact (hI.collected.append_right _).trans h_set.symm

/-- What is collected moves to the puts. -/
theorem CollectInv.put (hI : R.CollectInv σ) : R.CollectInv { σ with
    st := { σ.st with cacheAccum := [] }
    puts := σ.puts ++ [σ.st.cacheAccum] } where
  log h := by
    have h_log := hI.log h
    exact ⟨h_log.full, h_log.once, h_log.chunk, h_log.done⟩
  canceled := hI.canceled
  final f hf h := by
    have h_drained := hI.final f hf h
    exact ⟨h_drained.rows, h_drained.q, h_drained.complete⟩
  collected := by
    rw [List.flatten_append, List.flatten_singleton, List.append_nil]
    exact hI.collected

/-- **What a fetch puts is the whole result**, when all of it is collected. -/
theorem CollectInv.whole (hI : R.CollectInv σ) {f : Fetch Row} (hf : f ∈ σ.fetches)
    (hfinal : f.complete = true) (hputs : σ.puts.flatten = [])
    (hpopped : ∀ g ∈ σ.fetches, g.pc = .popped → g.rsp.rows = []) :
    σ.st.cacheAccum.Perm R.rows := by
  have h_collected : σ.fetches.flatMap Fetch.collected = fetched σ := by
    refine List.flatMap_congr fun g hg => ?_
    unfold Fetch.collected
    split
    · next hpc => exact (hpopped g hg hpc).symm
    · rfl
  have h_perm := hI.collected
  rw [hputs, List.nil_append, h_collected] at h_perm
  exact h_perm.trans (hI.final f hf hfinal).rows

end Keep

section Step

variable [DecidableEq Node] {R : Request Node Row} {σ : Store Node Row} {e : Event Node}
  {s s' : State Node Row} {l : Label Node}

/-- A request that has stopped to collect does not start again. -/
theorem EnvStep.collect (h : R.EnvStep s.store e σ) (hcollect : σ.st.cacheCollect = true) :
    s.store.st.cacheCollect = true := by
  cases h with
  | @workMark k w c todo _ _ _ =>
    exact (congrArg RequestState.cacheCollect (markDoneIf_st c w.node)).symm.trans hcollect
  | @pushMark i took p _ _ =>
    exact (congrArg RequestState.cacheCollect (markDoneIf_st p.call p.producer)).symm.trans
      hcollect
  | fetchPop _ _ hst _ =>
    subst hst
    exact hcollect
  | fetchAccumulate _ _ _ => exact (s.store.st.accumulate_collect hcollect).1
  | _ => exact hcollect

theorem step_collect (h : R.cascade.Step s l s') (hcollect : s'.store.st.cacheCollect = true) :
    s.store.st.cacheCollect = true := by
  cases h with
  | @collect i id c d todo r hc hpc hd hr =>
    have h_st := settle_st (σ := s.store) c.dst c.msg d.dst (some r)
    exact (congrArg RequestState.cacheCollect h_st).symm.trans hcollect
  | @expire i id c d todo hc hpc hd =>
    have h_st := settle_st (σ := s.store) c.dst c.msg d.dst none
    exact (congrArg RequestState.cacheCollect h_st).symm.trans hcollect
  | env he => exact (env_cases he).collect hcollect
  | _ => exact hcollect

/-- The mark after a chunk touches the set of producers that are done. -/
theorem CollectInv.markDoneIf (hI : R.CollectInv σ) {c : SinkCall Row} (producer : Node)
    (hsound : σ.st.buffer.canceled = false → c.done = true → R.Complete σ.log producer) :
    R.CollectInv (σ.markDoneIf c producer) := by
  refine hI.mark (markDoneIf_st c producer) fun hlive n hn => ?_
  rcases mem_done_markDoneIf.mp hn with ⟨hdone, rfl⟩ | hn
  · exact Or.inr (hsound hlive hdone)
  · exact Or.inl hn

/-- The end of a result that is not canceled comes after all rows have been fetched. -/
theorem CollectInv.drained (hI : R.CollectInv σ) (hW : FlowInv σ) (hN : R.NodesInv σ)
    (hlive : σ.st.buffer.canceled = false) (hfinal : σ.st.buffer.isFinal = true) :
    R.Drained σ := by
  obtain ⟨h_q, h_card⟩ := (σ.st.buffer.isFinal_iff hlive).mp hfinal
  have h_log := hI.log hlive
  have h_complete : ∀ n ∈ R.overlay.nodes, R.Complete σ.log n := fun n hn =>
    h_log.done n (hN.all_done h_card n hn)
  have h_flow := hW.flow hlive
  rw [h_q, List.append_nil] at h_flow
  exact ⟨h_flow.trans (h_log.accepted_perm h_complete), h_q, fun _ => h_complete⟩

/-- **Every action around the flood keeps the bookkeeping.** -/
theorem CollectInv.env (hI : R.CollectInv s.store) (h : R.EnvStep s.store e σ)
    (hW : FlowInv s.store) (hN : R.NodesInv s.store) (hkeeps : R.Keeps s (.env e))
    (hcollect : σ.st.cacheCollect = true) : R.CollectInv σ := by
  -- a request that collects after the step has collected before it
  obtain ⟨h_buffer, h_fetch⟩ := hkeeps (h.collect hcollect)
  cases h with
  | @workDeposit k w c todo hw hpc htodo =>
    have h_dep := hI.deposit (hN.workers w (List.mem_of_getElem? hw)) fun hlive =>
      (h_buffer hlive w hw c (by rw [htodo]; rfl)).1 hpc
    exact h_dep.congr rfl rfl rfl rfl
  | @workMark k w c todo hw hpc htodo =>
    have h_mark := hI.markDoneIf w.node fun hlive =>
      (h_buffer hlive w hw c (by rw [htodo]; rfl)).2 hpc
    exact h_mark.congr rfl rfl rfl rfl
  | @pushDeposit i p hp hpc =>
    have h_dep := hI.deposit (hN.pushes p (List.mem_of_getElem? hp)) fun hlive =>
      (h_buffer hlive p hp).1 hpc
    exact h_dep.congr rfl rfl rfl rfl
  | @pushMark i took p hp hpc =>
    have h_mark := hI.markDoneIf p.producer fun hlive =>
      (h_buffer hlive p hp).2 (by rw [hpc]; rfl)
    exact h_mark.congr rfl rfl rfl rfl
  | fetchBegin _ => exact hI.newFetch rfl rfl
  | fetchGone _ => exact hI.newFetch rfl rfl
  | fetchPop hf hpc hst _ =>
    exact hI.pop hW hf hpc rfl rfl (by rw [hst, RequestState.recordFetch_cacheAccum])
  | fetchAccumulate hf hpc hrsp =>
    exact hI.accumulate hf hpc (by rw [hrsp]) rfl hcollect
  | fetchServed hf hpc =>
    exact hI.setFetch hf rfl (by simp [Fetch.collected, hpc]) (by simp [Fetch.complete])
  | fetchCounted hf hpc =>
    exact hI.setFetch hf rfl (by simp [Fetch.collected, hpc]) (by simp [Fetch.complete])
  | fetchCanceled hf hpc =>
    exact hI.setFetch hf rfl (by simp [Fetch.collected, hpc]) (by simp [Fetch.complete])
  | fetchFinal hf hpc =>
    refine hI.setFetch hf rfl (by simp [Fetch.collected, hpc]) fun hcomplete => ?_
    -- the response that reads the end finds the buffer drained
    obtain ⟨hfinal, hread⟩ : s.store.st.buffer.isFinal = true ∧ _ := by
      simpa [Fetch.complete] using hcomplete
    exact hI.drained hW hN ((h_fetch _ hf).1 hpc hread) hfinal
  | @fetchPut i dt f hf hpc hfinal _ hread =>
    exact hI.put.setFetch hf rfl (by simp [Fetch.collected, hpc]) fun h =>
      hI.put.final f (List.mem_of_getElem? hf) (by simp [Fetch.complete, hpc, hfinal, hread])
  | @fetchNoPut i dt f hf hpc _ _ =>
    exact hI.setFetch hf rfl (by simp [Fetch.collected, hpc]) fun h =>
      hI.final f (List.mem_of_getElem? hf) (by simpa [Fetch.complete, hpc] using h)
  | @fetchMore i dt f hf hpc _ =>
    exact hI.setFetch hf rfl (by simp [Fetch.collected, hpc]) fun h =>
      hI.final f (List.mem_of_getElem? hf) (by simpa [Fetch.complete, hpc] using h)
  | @fetchErase i dt f hf hpc =>
    have h_set := hI.setFetch (g := { f with pc := .answered }) hf rfl
      (by simp [Fetch.collected, hpc]) fun h =>
        hI.final f (List.mem_of_getElem? hf) (by simpa [Fetch.complete, hpc] using h)
    exact h_set.congr rfl rfl rfl rfl
  | cancelFound _ => exact hI.cancelBuffer.congr rfl rfl rfl rfl
  | janitorCancel _ => exact hI.cancelBuffer.congr rfl rfl rfl rfl
  | _ => exact hI.congr rfl rfl rfl rfl

/-- `SubmitQuery`'s mark for a neighbour touches the set of producers that are done. -/
theorem CollectInv.settle (hI : R.CollectInv σ) (n : Node) {nb : Node} {m : Task Node}
    {ack : Option (ForwardQueryAck Node)} (hsound : σ.st.buffer.canceled = false →
      m = .submitQuery → ack.any ForwardQueryAck.accepted = false → R.Complete σ.log nb) :
    R.CollectInv (settle σ n m nb ack) := by
  refine hI.mark (settle_st n m nb ack) fun hlive v hv => ?_
  rcases (mem_done_settle (n := n)).mp hv with ⟨hm, hack, rfl⟩ | hv
  · exact Or.inr (hsound hlive hm hack)
  · exact Or.inl hv

/-- **Every action keeps the bookkeeping** of a request that collects. -/
theorem CollectInv.step (hI : R.CollectInv s.store) (hW : FlowInv s.store)
    (hN : R.NodesInv s.store) (hkeeps : R.Keeps s l) (h : R.cascade.Step s l s')
    (hcollect : s'.store.st.cacheCollect = true) : R.CollectInv s'.store := by
  have h_sound := (hkeeps (step_collect h hcollect)).1
  cases h with
  | @collect i id c d todo r hc hpc hd hr =>
    exact hI.settle c.dst fun hlive hmsg hack =>
      h_sound hlive _ (awaited_eq hc hpc hd hmsg) (by rw [hr]; exact hack)
  | @expire i id c d todo hc hpc hd =>
    exact hI.settle c.dst fun hlive hmsg _ => h_sound hlive _ (awaited_eq hc hpc hd hmsg)
  | env he => exact hI.env (env_cases he) hW hN hkeeps hcollect
  | _ => exact hI.congr rfl rfl rfl rfl

/-- **Whatever is put is the whole result.** -/
theorem step_puts (hI : s.store.st.cacheCollect = true → R.CollectInv s.store)
    (hkeeps : R.Keeps s l) (h : R.cascade.Step s l s') :
    s'.store.puts = s.store.puts ∨
      ∃ rows, s'.store.puts = s.store.puts ++ [rows] ∧ rows.Perm R.rows := by
  cases h with
  | env he =>
    cases env_cases he with
    | @fetchPut i dt f hf hpc hfinal hcollect hread =>
      obtain ⟨h_puts, h_popped⟩ := ((hkeeps hcollect).2 f hf).2 hpc hfinal hread
      exact Or.inr ⟨_, rfl, (hI hcollect).whole (List.mem_of_getElem? hf)
        (by simp [Fetch.complete, hpc, hfinal, hread]) h_puts h_popped⟩
    | _ => exact Or.inl rfl
  | _ => exact Or.inl rfl

/-- All that is known of a request while it collects. -/
structure Collecting (R : Request Node Row) (s : State Node Row) : Prop where
  flood : R.FloodInv s
  nodes : R.NodesInv s.store
  flow : FlowInv s.store
  collect : R.CollectInv s.store

theorem Collecting.step (hI : s.store.st.cacheCollect = true → R.Collecting s)
    (hkeeps : R.Keeps s l) (h : R.cascade.Step s l s')
    (hcollect : s'.store.st.cacheCollect = true) : R.Collecting s' := by
  have hI := hI (step_collect h hcollect)
  exact ⟨hI.flood.step h, hI.nodes.step hI.flood h, hI.flow.step h,
    hI.collect.step hI.flow hI.nodes hkeeps h hcollect⟩

theorem Collecting.initial (R : Request Node Row) : R.Collecting R.start where
  flood := .initial R
  nodes := .initial R
  flow := .initial R
  collect := by
    refine ⟨fun _ => ⟨fun _ h => absurd h List.not_mem_nil, List.nodup_nil,
      fun _ h => absurd h List.not_mem_nil, (CompleteInv.initial R).done⟩, fun h => ?_,
      fun _ h => absurd h List.not_mem_nil, List.Perm.refl _⟩
    exact absurd (start_live R) (by simp [h])

end Step

end Request
end Mini2
