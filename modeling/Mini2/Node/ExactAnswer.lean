import Mini2.Node.Duplicates
import Mini2.Node.MaxRows
import Mini2.Node.ServedResult
import Mini2.Node.Tree

/-!
# Exact answers

On a tree no forward is rejected, so `SubmitQuery` marks no node whose chunks are still to
come. If nothing fails, is canceled or expires either, every chunk is sent once; and if the
buffer has room for the whole result, none of them is cut short. What the client has been sent
by the time of a final response is then the result, with no row missing and no row twice
(`tree_answer_exact`), in every interleaving of the handlers, the workers and the fetches.
-/

namespace Mini2

open Framework

variable {Node Row : Type*}

namespace Request

/-- Nothing fails, is canceled or expires, and one client fetches, one fetch after the other. -/
def Undisturbed (s : State Node Row) (l : Label Node) : Prop := clean l = true ∧ OneClient s l

instance [DecidableEq Node] (s : State Node Row) (l : Label Node) : Decidable (Undisturbed s l) :=
  inferInstanceAs (Decidable (_ ∧ _))

/-- While a fetch is open, the others have been answered. -/
theorem CachingInv.others_answered {σ : Store Node Row} {limit i : ℕ} {f : Fetch Row}
    (hI : CachingInv limit σ) (hf : σ.fetches[i]? = some f) (hpc : f.pc ≠ .answered) :
    ∀ g ∈ σ.fetches.eraseIdx i, g.pc = .answered := by
  intro g hg
  by_contra hopen
  -- two open fetches would both be the last
  have h_f := hI.last i f hf hpc
  obtain ⟨j, hj⟩ := List.mem_iff_getElem?.mp hg
  rw [List.getElem?_eraseIdx] at hj
  split at hj
  · have h_g := hI.last j g hj hopen
    omega
  · have h_g := hI.last (j + 1) g hj hopen
    omega

section Env

variable [DecidableEq Node] {R : Request Node Row} {σ σ' : Store Node Row} {e : Event Node}
  {s s' : State Node Row} {l : Label Node}

/-- The buffer never changes its size. -/
theorem EnvStep.capacity_eq (h : R.EnvStep σ e σ') :
    σ'.st.buffer.capacity = σ.st.buffer.capacity := by
  cases h with
  | workDeposit _ _ _ => exact ChunkBuffer.pushRows_fst_capacity _ _
  | pushDeposit _ _ => exact ChunkBuffer.pushRows_fst_capacity _ _
  | @workMark k w c todo _ _ _ =>
    exact congrArg (fun st => st.buffer.capacity) (markDoneIf_st c w.node)
  | @pushMark i took p _ _ =>
    exact congrArg (fun st => st.buffer.capacity) (markDoneIf_st p.call p.producer)
  | fetchAccumulate _ _ _ =>
    exact congrArg ChunkBuffer.capacity (RequestState.accumulate_buffer _ _)
  | _ => rfl

theorem step_capacity (h : R.cascade.Step s l s') :
    s'.store.st.buffer.capacity = s.store.st.buffer.capacity := by
  cases h with
  | @collect i id c d todo r hc hpc hd hr =>
    have h_st := settle_st (σ := s.store) c.dst c.msg d.dst (some r)
    exact congrArg (fun st => st.buffer.capacity) h_st
  | @expire i id c d todo hc hpc hd =>
    have h_st := settle_st (σ := s.store) c.dst c.msg d.dst none
    exact congrArg (fun st => st.buffer.capacity) h_st
  | env he => exact (env_cases he).capacity_eq
  | _ => rfl

/-- Somebody waits for every push call. -/
def Escorted (σ : Store Node Row) : Prop := ∀ p ∈ σ.pushes, p.worker.isSome = true

/-- Only a call that fails is left alone. -/
theorem Escorted.step (hI : Escorted s.store) (hclean : clean l = true)
    (h : R.cascade.Step s l s') : Escorted s'.store := by
  have h_go : ∀ {i : ℕ} {p p' : PushCall Node Row}, s.store.pushes[i]? = some p →
      p'.worker = p.worker → ∀ q ∈ s.store.pushes.set i p', q.worker.isSome = true :=
    fun hp hworker => forall_mem_set_of hI hp fun h => hworker ▸ h
  cases h with
  | env he =>
    cases env_cases he with
    -- a new call is waited for; the others keep who waits for them
    | workPush _ _ _ _ _ => exact forall_mem_concat hI rfl
    | workRetry _ _ _ => exact forall_mem_concat hI rfl
    | pushFound hp _ _ => exact h_go hp rfl
    | pushUnregistered hp _ _ => exact h_go hp rfl
    | pushNoRoute hp _ _ _ => exact h_go hp rfl
    | pushRelay hp _ _ _ _ => exact h_go hp rfl
    | pushNoPeer hp _ _ _ _ => exact h_go hp rfl
    | pushCanceled hp _ _ => exact h_go hp rfl
    | pushLive hp _ _ => exact h_go hp rfl
    | pushDeposit hp _ => exact h_go hp rfl
    | pushMark hp _ => exact h_go hp rfl
    | pushAck hp _ => exact h_go hp rfl
    | pushReturn hp _ _ => exact h_go hp rfl
    | pushFail _ _ => exact absurd hclean (by simp [clean])
    | _ => exact hI
  | _ => exact hI

/-- A handler that has run to its end has accepted its forward. -/
def Accepts (s : State Node Row) : Prop :=
  ∀ c ∈ s.calls, ∀ r, c.pc = .returned r → r.accepted = true

theorem Accepts.step (hI : Accepts s) (h : R.cascade.Step s l s') : Accepts s' := by
  rcases h.calls_cases with ⟨-, heq⟩ | ⟨i, c, pc, new, hc, hmove, heq⟩
  · intro d hd
    exact hI d (heq ▸ hd)
  intro d hd r hr
  rw [heq] at hd
  rcases Cascade.mem_moved hd with hd | rfl | hd
  · exact hI d hd r hr
  · -- an answer that a handler gives at its end is an acceptance
    cases hmove with
    | returned hpc =>
      obtain rfl := Cascade.Pc.returned.inj hr
      rfl
    | _ => exact absurd hr (by simp)
  · rw [hmove.new_sent hd] at hr
    exact absurd hr (by simp)

end Env

/-! ### The invariant -/

/-- What holds of a request on a tree, as long as nothing disturbs it. -/
structure ExactInv [DecidableEq Node] (R : Request Node Row) (s : State Node Row) : Prop where
  tree : R.TreeInv s
  upstream : R.UpstreamInv s
  deposits : DepositInv s.store
  nodes : R.NodesInv s.store
  flow : FlowInv s.store
  sender : SenderInv s.store
  chunks : R.ChunksInv s.store
  live : s.store.st.buffer.canceled = false
  capacity : s.store.st.buffer.capacity = R.params.chunkBufferCap
  copies : ∀ x, Request.copies s.store x ≤ 1
  escorted : Escorted s.store
  accepts : Accepts s
  full : Full s.store.log
  complete : R.CompleteInv s.store
  caching : CachingInv R.params.cacheMaxRows s.store
  served : R.ServedInv s.store

section Exact

variable [DecidableEq Node] {R : Request Node Row} {s s' : State Node Row} {l : Label Node}

theorem ExactInv.initial (htree : R.overlay.IsTree) : R.ExactInv R.start where
  tree := .initial htree
  upstream := .initial R
  deposits := .initial R
  nodes := .initial R
  flow := .initial R
  sender := .initial R
  chunks := .initial R
  live := start_live R
  capacity := congrArg ChunkBuffer.capacity R.start_buffer
  copies _ := Nat.zero_le _
  escorted _ hp := absurd hp List.not_mem_nil
  accepts c hc r hr := by
    obtain rfl := List.mem_singleton.mp hc
    exact absurd hr (by simp)
  full _ hd := absurd hd List.not_mem_nil
  complete := .initial R
  caching := .initial R
  served := .initial R

/-- No node is marked as done because its forward is rejected. -/
theorem ExactInv.soundMark (hI : R.ExactInv s) (hclean : clean l = true)
    (h : R.cascade.Step s l s') : R.SoundMark s l := by
  cases h with
  | @collect i id c d todo r hc hpc hd hr =>
    intro e he hrejected
    -- the call that is awaited is the one that has been answered
    obtain rfl : d = e := by
      unfold awaited at he
      rw [hc] at he
      split at he
      · next heq =>
        obtain rfl := Option.some.inj heq
        obtain ⟨rfl, -⟩ := Cascade.Pc.waiting.inj hpc
        exact Option.some.inj (hd.symm.trans he)
      · exact absurd he (by simp)
    have h_mem := List.mem_of_getElem? hd
    cases hpc : d.pc with
    -- on a tree no forward is refused, and none that is not refused is rejected
    | refused r => exact absurd hpc (hI.tree.unrefused d h_mem r)
    | returned r =>
      rw [hpc] at hrejected
      have h_accepted := hI.accepts d h_mem r hpc
      exact absurd h_accepted (by simpa [Cascade.Pc.answer] using hrejected)
    | _ =>
      rw [hpc] at hr
      exact absurd hr (by simp [Cascade.Pc.answer])
  | expire _ _ _ => exact absurd hclean (by simp [clean])
  | _ => exact trivial

/-- No two attempts at a chunk compete, as there is one only. -/
theorem ExactInv.retriesLost (hI : R.ExactInv s) : RetriesLost s l := by
  cases l with
  | env e =>
    cases e with
    | work k =>
      intro w hw hretrying
      -- no worker is in a second attempt
      have h_steady := (hI.complete.workers w (List.mem_of_getElem? hw)).steady
      cases hpc : w.pc with
      | backoff retries => exact absurd hpc (h_steady retries)
      | _ =>
        rw [hpc] at hretrying
        exact absurd hretrying (by simp [WorkerPc.retrying])
    | push i =>
      intro p hp _ hworker
      -- and no call has been left by its worker
      have h_escorted := hI.escorted p (List.mem_of_getElem? hp)
      rw [hworker] at h_escorted
      exact absurd h_escorted (by simp)
    | _ => exact trivial
  | _ => exact trivial

theorem count_key (log : List (Deposit Node Row)) (x : Node × ℕ) :
    (log.map Deposit.key).count x = log.countP fun d => (d.producer, d.seq) = x := by
  rw [List.count_eq_countP, List.countP_map]
  exact List.countP_congr fun d _ => by simp [Deposit.key]

/-- The buffer has room for a chunk that has not been deposited yet. -/
theorem ExactInv.hasRoom (hI : R.ExactInv s) (hcap : R.rows.length ≤ R.params.chunkBufferCap)
    {producer : Node} {seq : ℕ} {c : SinkCall Row} (hnode : producer ∈ R.overlay.nodes)
    (hchunk : R.StartsChunk producer seq c)
    (hnew : s.store.log.countP (fun d => (d.producer, d.seq) = (producer, seq)) = 0) :
    HasRoom s.store c := by
  -- as if all of it were deposited: the rows of distinct chunks are within the result
  let σ : Store Node Row := { s.store with log := s.store.log ++ [⟨producer, seq, c, c.rows⟩] }
  have h_chunks : R.ChunksInv σ :=
    ⟨hI.chunks.workers, hI.chunks.pushes, forall_mem_concat hI.chunks.log hchunk,
      forall_mem_concat hI.chunks.nodes hnode,
      forall_mem_concat hI.chunks.accepted (List.Sublist.refl _)⟩
  have h_once : (σ.log.map Deposit.key).Nodup := by
    rw [List.nodup_iff_count_le_one]
    intro x
    have h_copies := hI.copies x
    unfold Request.copies at h_copies
    rw [count_key, List.countP_append, List.countP_singleton]
    by_cases heq : (producer, seq) = x
    · rw [← heq, hnew]
      simp
    · simp only [heq, decide_false, Bool.false_eq_true, if_false]
      omega
  have h_total := length_accepted h_chunks h_once
  have h_accepted : accepted σ = accepted s.store ++ c.rows := by
    show (s.store.log ++ [_]).flatMap Deposit.accepted = _
    rw [List.flatMap_append, List.flatMap_singleton]
    rfl
  have h_flow := (hI.flow.flow hI.live).length_eq
  unfold HasRoom
  rw [hI.capacity]
  rw [h_accepted, List.length_append] at h_total
  rw [List.length_append] at h_flow
  omega

/-- **No chunk is cut short.** -/
theorem ExactInv.neverShort (hI : R.ExactInv s)
    (hcap : R.rows.length ≤ R.params.chunkBufferCap) : NeverShort s l := by
  cases l with
  | env e =>
    cases e with
    | work k =>
      intro w hw hpc c hc
      have h_mem := List.mem_of_getElem? hw
      rw [List.head?_eq_getElem?] at hc
      have h_chunk : R.StartsChunk w.node (w.history.length + 1) c :=
        hI.chunks.workers w h_mem 0 c hc
      refine hI.hasRoom hcap (hI.nodes.workers w h_mem) h_chunk ?_
      -- the worker itself holds the one copy
      have h_copies := hI.copies (w.node, w.history.length + 1)
      have h_one : 0 < s.store.workers.countP (Request.deposits (w.node, w.history.length + 1)) :=
        List.countP_pos_iff.mpr ⟨w, h_mem, by simp [Request.deposits, hpc]⟩
      unfold Request.copies at h_copies
      omega
    | push i =>
      intro p hp hpc
      have h_mem := List.mem_of_getElem? hp
      refine hI.hasRoom hcap (hI.nodes.pushes p h_mem) (hI.chunks.pushes p h_mem) ?_
      have h_copies := hI.copies (p.producer, p.seq)
      have h_one : 0 < s.store.pushes.countP (carries (p.producer, p.seq)) := by
        refine List.countP_pos_iff.mpr ⟨p, h_mem, ?_⟩
        simp [carries, hpc, PushPc.underway, hI.escorted p h_mem]
      unfold Request.copies at h_copies
      omega
    | _ => exact trivial
  | _ => exact trivial

/-- When a fetch is about to close its request, the others have been answered. -/
theorem ExactInv.settled (hI : R.ExactInv s) : Settled s l := by
  cases l with
  | env e =>
    cases e with
    | fetch i dt =>
      intro f hf hpc g hg
      exact Or.inr (hI.caching.others_answered hf (by simp [hpc]) g hg)
    | _ => exact trivial
  | _ => exact trivial

/-- **Every action keeps the answer exact.** -/
theorem ExactInv.step (hI : R.ExactInv s) (htree : R.overlay.IsTree)
    (hself : R.overlay.selfRoute ∉ R.overlay.nodes)
    (hcap : R.rows.length ≤ R.params.chunkBufferCap) (hl : Undisturbed s l)
    (h : R.cascade.Step s l s') : R.ExactInv s' := by
  -- on a tree each node executes once
  have h_nodes : (s.store.workers.map Worker.node).Nodup := by
    rw [List.nodup_iff_count_le_one]
    intro n
    have h_le := hI.tree.exec n
    unfold executions at h_le
    split at h_le <;> omega
  obtain ⟨hclean, hclient⟩ := hl
  -- each part of the invariant is kept with the help of the others
  have h_flood := hI.tree.flood
  exact
    { tree := hI.tree.step htree h
      upstream := hI.upstream.step h_flood h
      deposits := hI.deposits.step h
      nodes := hI.nodes.step h_flood h
      flow := hI.flow.step h
      sender := hI.sender.step h
      chunks := hI.chunks.step hI.nodes h
      live := (step_live h (uncanceled_of_clean hclean)).trans hI.live
      capacity := (step_capacity h).trans hI.capacity
      copies := copies_step hI.copies hI.sender hI.deposits h_nodes hI.retriesLost h
      escorted := hI.escorted.step hclean h
      accepts := hI.accepts.step h
      full := hI.full.step hI.live (hI.neverShort hcap) h
      complete := hI.complete.step h_flood hI.upstream hI.deposits hI.nodes hI.live hself hclean
        (hI.soundMark hclean h) h
      caching := hI.caching.step hclient h
      served := hI.served.step hI.complete hI.flow hI.nodes hI.full hI.live hclean hI.settled h }

/-- The log never has more rows than the result. -/
theorem ExactInv.length_accepted (hI : R.ExactInv s) :
    (accepted s.store).length ≤ R.rows.length := by
  refine Request.length_accepted hI.chunks ?_
  rw [List.nodup_iff_count_le_one]
  intro x
  have h_copies := hI.copies x
  rw [count_key]
  unfold Request.copies at h_copies
  omega

/-- What has been fetched by the time of a final response is the result. -/
theorem ExactInv.fetched_perm (hI : R.ExactInv s) {f : Fetch Row} (hf : f ∈ s.store.fetches)
    (hfinal : f.rsp.final = true) : (fetched s.store).Perm R.rows := by
  have h_flow := (hI.flow.flow hI.live).length_eq
  rw [List.length_append] at h_flow
  have h_len := hI.length_accepted
  exact ((hI.served.final f hf hfinal).perm_of_length_le (by omega)).symm

theorem ExactInv.reachable (htree : R.overlay.IsTree)
    (hself : R.overlay.selfRoute ∉ R.overlay.nodes)
    (hcap : R.rows.length ≤ R.params.chunkBufferCap) (h : R.machine.Reachable Undisturbed s) :
    R.ExactInv s :=
  h.invariant R.ExactInv (.initial htree)
    fun _ _ _ hI hl hstep => hI.step htree hself hcap hl (Cascade.step_iff.mp hstep)

/-- So is what has been returned. -/
theorem ExactInv.returned_perm (hI : R.ExactInv s) :
    ∀ f ∈ s.store.fetches, f.pc = .answered → f.rsp.final = true →
      (returned s.store).Perm R.rows := by
  intro f hf hpc hfinal
  have h_fetched := hI.fetched_perm hf hfinal
  have h_returned := hI.served.answered f hf hpc hfinal
  exact (h_returned.perm_of_length_le
    (returned_subperm.length_le.trans h_fetched.length_eq.le)).symm

/-- **Answers on a tree are exact.** Let the overlay be a tree, and the buffer at least as
large as the result. Then, in every run in which nothing fails, is canceled or expires and one
client fetches, once a final response has been sent, the rows of all responses together are
those that the engines emit, each of them as often as they do. -/
theorem tree_answer_exact (R : Request Node Row) (htree : R.overlay.IsTree)
    (hself : R.overlay.selfRoute ∉ R.overlay.nodes)
    (hcap : R.rows.length ≤ R.params.chunkBufferCap) (h : R.machine.Reachable Undisturbed s) :
    ∀ f ∈ s.store.fetches, f.pc = .answered → f.rsp.final = true →
      (returned s.store).Perm (R.overlay.nodes.flatMap fun n => (R.scan n).rows) :=
  (ExactInv.reachable htree hself hcap h).returned_perm

end Exact

/-- A row of nodes, of which the last has a row. -/
def rowAtEnd : Request Overlay.Id3 ℕ where
  overlay := .chain
  params := .default
  scan n := .single (if n = .c then [1] else [])

/-- A query goes down a row of nodes, and each of them sends or deposits one chunk. -/
def overChain : List (Label Overlay.Id3) :=
  [.send 0, .check 1, .commit 1, .send 1, .check 2, .commit 2, .finish 2, .collect 1, .finish 1,
    .collect 0, .finish 0, .env (.work 0)] ++ List.replicate 7 (.env (.push 0)) ++
  [.env (.work 0), .env (.work 1)] ++ List.replicate 5 (.env (.push 1)) ++ [.env (.work 1)] ++
  depositLocal 2

/-- The row comes to the portal over `b`, and one fetch returns it. -/
theorem tree_answer_exact_chain : ∃ s, rowAtEnd.machine.Reachable Undisturbed s ∧
    (∃ f ∈ s.store.fetches, f.pc = .answered ∧ f.rsp.final = true) ∧
      (returned s.store).Perm [1] := by
  obtain ⟨s, hrun, f, hf, hpc, hfinal⟩ := Machine.exists_run_of_exec (M := rowAtEnd.machine)
    (P := Undisturbed) (s := rowAtEnd.start)
    (l := overChain ++ fetchOnce)
    (Φ := fun s => ∃ f ∈ s.store.fetches, f.pc = .answered ∧ f.rsp.final = true)
    (by decide +kernel)
  exact ⟨s, ⟨_, hrun⟩, ⟨f, hf, hpc, hfinal⟩,
    tree_answer_exact rowAtEnd Overlay.chain_isTree (by decide) (by decide) ⟨_, hrun⟩ f hf hpc
      hfinal⟩

end Request
end Mini2
