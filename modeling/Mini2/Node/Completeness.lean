import Mini2.Node.Backpressure
import Mini2.Node.Upstream

/-!
# Complete answers

The portal reports the end of a result when as many producers are done as it
expects and its queue is empty. A producer is marked as done by the last chunk
it sends, and all of its chunks are in the log by then (`Orderly`,
`PushOrderly`). It is also marked by `SubmitQuery`, when its forward is rejected:
as the node may have been reached by another path, that says nothing about its
chunks. `final_complete` is about the runs in which that second mark is sound;
`final_incomplete` is a run on a triangle in which it is not.
-/

namespace Mini2
namespace Request

open Framework

variable {Node Row : Type*}

/-! ### Records of all chunks -/

/-- The first `m` chunks of `n` are in the log. -/
def Upto (R : Request Node Row) (log : List (Deposit Node Row)) (n : Node) (m : ℕ) : Prop :=
  ∀ k < m, ∃ d ∈ log, d.producer = n ∧ d.seq = k + 1 ∧ (R.scan n).calls[k]? = some d.call

/-- All chunks of `n` are in the log. -/
def Complete (R : Request Node Row) (log : List (Deposit Node Row)) (n : Node) : Prop :=
  R.Upto log n (R.scan n).calls.length

section Records

variable {R : Request Node Row} {log log' : List (Deposit Node Row)} {n : Node} {m m' : ℕ}

theorem Upto.mono (h : R.Upto log n m) (hlog : log <+: log') : R.Upto log' n m := by
  intro k hk
  obtain ⟨d, hd, h⟩ := h k hk
  exact ⟨d, hlog.subset hd, h⟩

theorem Upto.le (h : R.Upto log n m) (hle : m' ≤ m) : R.Upto log n m' :=
  fun k hk => h k (hk.trans_le hle)

theorem Upto.succ (h : R.Upto log n m) {c : SinkCall Row} (hc : (R.scan n).calls[m]? = some c)
    (hrec : Recorded log n (m + 1) c) : R.Upto log n (m + 1) := by
  intro k hk
  rcases Nat.lt_succ_iff_lt_or_eq.mp hk with hk | rfl
  · exact h k hk
  · obtain ⟨d, hd, h_producer, h_seq, rfl⟩ := hrec
    exact ⟨d, hd, h_producer, h_seq, hc⟩

/-- The last chunk of a node completes it. -/
theorem Upto.complete (h : R.Upto log n m) {c : SinkCall Row}
    (hc : (R.scan n).calls[m]? = some c) (hrec : Recorded log n (m + 1) c)
    (hdone : c.done = true) : R.Complete log n := by
  unfold Complete
  rw [(R.scan n).length_of_done hc hdone]
  exact h.succ hc hrec

/-- The chunks of all nodes, by their places. -/
def chunks (R : Request Node Row) : List ((n : Node) × Fin (R.scan n).calls.length) :=
  R.overlay.nodes.sigma fun n => List.finRange (R.scan n).calls.length

/-- The rows of a chunk. -/
def chunkRows (R : Request Node Row) (x : (n : Node) × Fin (R.scan n).calls.length) : List Row :=
  ((R.scan x.1).calls.get x.2).rows

theorem chunks_nodup (R : Request Node Row) : R.chunks.Nodup :=
  R.overlay.nodes_nodup.sigma fun _ => List.nodup_finRange _

/-- The rows that the engines emit, on all nodes together. -/
def rows (R : Request Node Row) : List Row := R.overlay.nodes.flatMap fun n => (R.scan n).rows

theorem rows_eq_chunks (R : Request Node Row) : R.rows = R.chunks.flatMap R.chunkRows := by
  simp only [rows, chunks, List.sigma, List.flatMap_assoc, List.flatMap_map]
  congr 1
  funext n
  have h_calls : (R.scan n).calls = (List.finRange _).map (R.scan n).calls.get := by
    rw [← List.ofFn_eq_map, List.ofFn_get]
  unfold Scan.rows
  conv_lhs => rw [h_calls]
  rw [List.flatMap_map]
  rfl

/-- **All rows are there** when the chunks of all nodes are. -/
theorem rows_subperm (h : ∀ n ∈ R.overlay.nodes, R.Complete log n) :
    R.rows.Subperm (log.flatMap fun d => d.call.rows) := by
  rw [rows_eq_chunks]
  refine flatMap_subperm (K := fun x d => d.producer = x.1 ∧ d.seq = x.2.val + 1)
    R.chunks_nodup ?_ ?_
  · rintro ⟨n, k⟩ ⟨n', k'⟩ d ⟨rfl, hk⟩ ⟨rfl, hk'⟩
    obtain rfl : k = k' := Fin.ext (by simpa using hk.symm.trans hk')
    rfl
  · rintro ⟨n, k⟩ hk
    obtain ⟨d, hd, h_producer, h_seq, h_call⟩ := h n (List.mem_sigma.mp hk).1 k k.2
    rw [List.getElem?_eq_getElem k.2] at h_call
    exact ⟨d, hd, ⟨h_producer, h_seq⟩, by rw [← Option.some.inj h_call]; rfl⟩

end Records

/-! ### Settled fetches and sound marks -/

/-- When a final response goes out, the other fetches that took rows have been
answered. -/
def Settled (s : State Node Row) : Label Node → Prop
  | .env (.fetch i _) => ∀ f ∈ s.store.fetches[i]?, f.pc = .closing →
      ∀ g ∈ s.store.fetches.eraseIdx i, g.rsp.rows = [] ∨ g.pc = .answered
  | _ => True

/-- The call that the handler of call `i` waits for, if that handler is
`SubmitQuery`'s. -/
def awaited (s : State Node Row) (i : ℕ) :
    Option (Cascade.Call Node (Task Node) (ForwardQueryAck Node)) :=
  match s.calls[i]? with
  | some ⟨_, .submitQuery, .waiting id _⟩ => s.calls[id]?
  | _ => none

theorem awaited_eq {s : State Node Row} {i id : ℕ}
    {c d : Cascade.Call Node (Task Node) (ForwardQueryAck Node)} {todo : List (Node × Task Node)}
    (hc : s.calls[i]? = some c) (hpc : c.pc = .waiting id todo) (hd : s.calls[id]? = some d)
    (hm : c.msg = .submitQuery) : awaited s i = some d := by
  obtain ⟨dst, msg, pc⟩ := c
  obtain rfl : msg = .submitQuery := hm
  obtain rfl : pc = .waiting id todo := hpc
  unfold awaited
  rw [hc]
  exact hd

/-- A neighbour whose forward has failed or is rejected has deposited all of its
chunks when `SubmitQuery` learns of it, and marks it as done. -/
def SoundMark (R : Request Node Row) (s : State Node Row) : Label Node → Prop
  | .collect i => ∀ d ∈ awaited s i, d.pc.answer.any ForwardQueryAck.accepted = false →
      R.Complete s.store.log d.dst
  | .expire i => ∀ d ∈ awaited s i, R.Complete s.store.log d.dst
  | _ => True

section Decidable

variable [DecidableEq Node] [DecidableEq Row] (R : Request Node Row)

instance (log : List (Deposit Node Row)) (n : Node) (m : ℕ) : Decidable (R.Upto log n m) := by
  unfold Upto
  infer_instance

instance (log : List (Deposit Node Row)) (n : Node) : Decidable (R.Complete log n) :=
  inferInstanceAs (Decidable (R.Upto _ _ _))

instance (s : State Node Row) (l : Label Node) : Decidable (Settled s l) := by
  unfold Settled
  induction l using Framework.Cascade.Label.casesOn with
  | env e => induction e using Event.casesOn <;> infer_instance
  | _ => infer_instance

instance (s : State Node Row) (l : Label Node) : Decidable (R.SoundMark s l) := by
  unfold SoundMark
  induction l using Framework.Cascade.Label.casesOn with
  | env e => induction e using Event.casesOn <;> infer_instance
  | _ => infer_instance

end Decidable

/-! ### What a worker has sent is in the log -/

/-- What a worker has sent, in a run without failures and cancellations. -/
structure Orderly (R : Request Node Row) (σ : Store Node Row) (w : Worker Node Row) : Prop where
  /-- It goes through the sink calls of its engine. -/
  scan : w.history.map Prod.fst ++ w.todo = (R.scan w.node).calls
  /-- The chunks it is done with are in the log. -/
  sent : R.Upto σ.log w.node w.history.length
  /-- No attempt of its has failed. -/
  steady : ∀ retries, w.pc ≠ .backoff retries
  /-- Its chunks go to the portal's own buffer, or to a neighbour with a route. -/
  upstream : (w.upstream = R.overlay.selfRoute ∧ w.node = R.overlay.portal) ∨
    (w.upstream ∈ R.overlay.nbrs w.node ∧ (σ.routes w.upstream).isSome)

/-- What a push call has behind it, in such a run. -/
structure PushOrderly (R : Request Node Row) (σ : Store Node Row) (p : PushCall Node Row) :
    Prop where
  pos : 0 < p.seq
  /-- It carries a chunk of its producer's engine. -/
  call : (R.scan p.producer).calls[p.seq - 1]? = some p.call
  /-- The chunks before it are in the log. -/
  upto : R.Upto σ.log p.producer (p.seq - 1)
  /-- It is on its way along routes. -/
  routed : ∀ n, p.pc = .at n → (σ.routes n).isSome
  /-- It is turned away only when the request is gone. -/
  ack : ∀ ack, p.pc = .acked ack →
    ack.ok = true ∨ (ack.canceled = true ∧ σ.registered = false)

/-- The bookkeeping of a run without failures and cancellations. -/
structure CompleteInv (R : Request Node Row) (σ : Store Node Row) : Prop where
  workers : ∀ w ∈ σ.workers, R.Orderly σ w
  pushes : ∀ p ∈ σ.pushes, R.PushOrderly σ p
  /-- A producer that is done is complete. -/
  done : ∀ n ∈ σ.st.buffer.done, R.Complete σ.log n
  /-- A request is erased only after a complete answer. -/
  erased : σ.registered = false → ∀ n ∈ R.overlay.nodes, R.Complete σ.log n
  final : ∀ f ∈ σ.fetches, f.rsp.final = true → ∀ n ∈ R.overlay.nodes, R.Complete σ.log n
  closing : ∀ f ∈ σ.fetches, f.pc = .closing → f.rsp.final = true
  /-- No route is marked as canceled. -/
  uncut : ∀ n, σ.cancelMarks n = false

section Orderly

variable {R : Request Node Row} {σ σ' : Store Node Row}

/-- Nothing is taken back. -/
structure Grows (σ σ' : Store Node Row) : Prop where
  log : σ.log <+: σ'.log
  routes : ∀ n, (σ.routes n).isSome → (σ'.routes n).isSome
  erased : σ.registered = false → σ'.registered = false

theorem Orderly.mono {w : Worker Node Row} (h : R.Orderly σ w) (hgrows : Grows σ σ') :
    R.Orderly σ' w where
  scan := h.scan
  sent := h.sent.mono hgrows.log
  steady := h.steady
  upstream := h.upstream.imp id fun h => ⟨h.1, hgrows.routes _ h.2⟩

theorem PushOrderly.mono {p : PushCall Node Row} (h : R.PushOrderly σ p)
    (hgrows : Grows σ σ') : R.PushOrderly σ' p where
  pos := h.pos
  call := h.call
  upto := h.upto.mono hgrows.log
  routed n hn := hgrows.routes n (h.routed n hn)
  ack a ha := (h.ack a ha).imp id fun h => ⟨h.1, hgrows.erased h.2⟩

/-- The current chunk of a worker is the next of its engine. -/
theorem Orderly.current {w : Worker Node Row} (h : R.Orderly σ w) {c : SinkCall Row}
    {todo : List (SinkCall Row)} (htodo : w.todo = c :: todo) :
    (R.scan w.node).calls[w.history.length]? = some c := by
  rw [← h.scan, htodo, List.getElem?_append_right (by simp)]
  simp

/-- A worker that goes on after its chunk is in the log. -/
theorem Orderly.advance {w : Worker Node Row} (h : R.Orderly σ w) {c : SinkCall Row}
    {todo : List (SinkCall Row)} {outcome : Outcome} (htodo : w.todo = c :: todo)
    (hsent : R.Upto σ.log w.node (w.history.length + 1)) :
    R.Orderly σ (w.advance c todo outcome) where
  scan := by
    have h_scan := h.scan
    rw [htodo] at h_scan
    simpa [Worker.advance] using h_scan
  sent := by simpa [Worker.advance] using hsent
  steady := by simp [Worker.advance]
  upstream := h.upstream

/-- The chunks of a node are in the log up to any chunk, once they all are. -/
theorem Orderly.upto_of_complete {w : Worker Node Row} (h : R.Orderly σ w) {c : SinkCall Row}
    {todo : List (SinkCall Row)} (htodo : w.todo = c :: todo)
    (hcomplete : R.Complete σ.log w.node) : R.Upto σ.log w.node (w.history.length + 1) :=
  hcomplete.le (List.getElem?_eq_some_iff.mp (h.current htodo)).1

theorem Orderly.goto {w : Worker Node Row} (h : R.Orderly σ w) {pc : WorkerPc}
    (hpc : ∀ retries, pc ≠ .backoff retries) : R.Orderly σ { w with pc := pc } :=
  ⟨h.scan, h.sent, hpc, h.upstream⟩

/-- The chunk that a worker sends is orderly. -/
theorem Orderly.push {w : Worker Node Row} (h : R.Orderly σ w) {c : SinkCall Row}
    {todo : List (SinkCall Row)} (htodo : w.todo = c :: todo) {k : ℕ}
    (hself : w.upstream ≠ R.overlay.selfRoute) :
    R.PushOrderly σ ⟨w.node, w.history.length + 1, c, some k, [], .at w.upstream⟩ where
  pos := Nat.succ_pos _
  call := h.current htodo
  upto := h.sent
  routed n hn := by
    obtain rfl := PushPc.at.inj hn
    rcases h.upstream with ⟨h_self, -⟩ | ⟨-, h_route⟩
    · exact absurd h_self hself
    · exact h_route
  ack a ha := absurd ha (by simp)

/-- The chunks of a push call, with its own. -/
theorem PushOrderly.complete {p : PushCall Node Row} (h : R.PushOrderly σ p)
    (hrec : Recorded σ.log p.producer p.seq p.call) (hdone : p.call.done = true) :
    R.Complete σ.log p.producer := by
  have h_seq : p.seq = p.seq - 1 + 1 := (Nat.succ_pred_eq_of_pos h.pos).symm
  rw [h_seq] at hrec
  exact h.upto.complete h.call hrec hdone

end Orderly

/-! ### Every action keeps the bookkeeping -/

section Env

variable [DecidableEq Node] {R : Request Node Row} {σ σ' : Store Node Row} {e : Event Node}

theorem EnvStep.grows (h : R.EnvStep σ e σ') : Grows σ σ' where
  log := h.log_grows
  routes n hn := by rwa [h.routes_eq]
  erased hreg := by
    cases h with
    | fetchErase _ _ => rfl
    | janitorErase _ => rfl
    | _ => exact hreg

/-- Workers stay orderly. -/
theorem EnvStep.workers_orderly (h : R.EnvStep σ e σ') (hI : R.CompleteInv σ)
    (hD : DepositInv σ) (hN : R.NodesInv σ) (hself : R.overlay.selfRoute ∉ R.overlay.nodes) :
    ∀ w ∈ σ'.workers, R.Orderly σ' w := by
  have h_old : ∀ w ∈ σ.workers, R.Orderly σ' w := fun w hw => (hI.workers w hw).mono h.grows
  cases h with
  | workFound hw _ _ _ _ _ =>
    exact forall_mem_set h_old ((h_old _ (List.mem_of_getElem? hw)).goto (by simp))
  | workGone hw _ htodo hupstream hgone =>
    -- the portal has erased the request after a complete answer
    have h_w := h_old _ (List.mem_of_getElem? hw)
    have h_node := h_w.upstream.elim And.right
      fun h => absurd (R.overlay.nbrs_mem (hupstream ▸ h.1)) hself
    have h_reg : σ.registered = false := by simpa [h_node] using hgone
    refine forall_mem_set h_old (h_w.advance htodo (h_w.upto_of_complete htodo ?_))
    exact hI.erased h_reg _ (h_node ▸ R.overlay.portal_mem)
  | workPush hw _ _ _ _ =>
    exact forall_mem_set h_old ((h_old _ (List.mem_of_getElem? hw)).goto (by simp))
  | workNoPeer hw _ _ hupstream hpeer =>
    -- the upstream node is a neighbour
    rcases (h_old _ (List.mem_of_getElem? hw)).upstream with h | h
    · exact absurd h.1 hupstream
    · exact absurd h.1 hpeer
  | workDeposit hw _ _ =>
    exact forall_mem_set h_old ((h_old _ (List.mem_of_getElem? hw)).goto (by simp))
  | workMark hw hpc htodo =>
    have h_w := h_old _ (List.mem_of_getElem? hw)
    -- the chunk has been deposited, and is in the log
    have h_rec := (hD.workers _ (List.mem_of_getElem? hw)).deposited hpc _ (by rw [htodo]; rfl)
    exact forall_mem_set h_old
      (h_w.advance htodo (h_w.sent.succ (h_w.current htodo) h_rec))
  | workAcked hw hpc htodo hp _ hack hok =>
    have h_w := h_old _ (List.mem_of_getElem? hw)
    -- the call that has been answered carries the current chunk
    obtain ⟨p', hp', h_producer, h_seq, h_call⟩ :=
      (hD.workers _ (List.mem_of_getElem? hw)).pushing _ _ hpc
    obtain rfl := Option.some.inj (hp.symm.trans hp')
    have h_rec := hD.pushes _ (List.mem_of_getElem? hp) (by rw [hack]; exact hok)
    rw [htodo] at h_call
    rw [h_producer, h_seq, ← Option.some.inj h_call] at h_rec
    exact forall_mem_set h_old
      (h_w.advance htodo (h_w.sent.succ (h_w.current htodo) h_rec))
  | workCanceled hw _ htodo hp _ hack hok _ =>
    have h_w := h_old _ (List.mem_of_getElem? hw)
    -- an answer that says canceled comes from an erased request, here after a complete answer
    rcases (hI.pushes _ (List.mem_of_getElem? hp)).ack _ hack with h | ⟨-, h_reg⟩
    · exact absurd h (by simp [hok])
    · refine forall_mem_set h_old (h_w.advance htodo (h_w.upto_of_complete htodo ?_))
      exact hI.erased h_reg _ (hN.workers _ (List.mem_of_getElem? hw))
  | workBackoff hw _ _ hp _ hack hok hcanceled =>
    -- no other answer is a refusal
    rcases (hI.pushes _ (List.mem_of_getElem? hp)).ack _ hack with h | h
    · exact absurd h (by simp [hok])
    · exact absurd h.1 (by simp [hcanceled])
  | workRetry hw hpc _ =>
    exact absurd hpc ((h_old _ (List.mem_of_getElem? hw)).steady _)
  | workExhausted hw hpc _ =>
    exact absurd hpc ((h_old _ (List.mem_of_getElem? hw)).steady _)
  | cut _ _ _ hmark _ => exact absurd hmark (by simp [hI.uncut])
  | _ => exact h_old

/-- Push calls stay orderly. -/
theorem EnvStep.pushes_orderly (h : R.EnvStep σ e σ') (hclean : clean (.env e) = true)
    (hI : R.CompleteInv σ) (hlive : σ.st.buffer.canceled = false)
    (hroutes : ∀ n r, σ.routes n = some r → n ≠ R.overlay.portal →
      R.overlay.Adj n r.upstreamPeer ∧ (σ.routes r.upstreamPeer).isSome) :
    ∀ p ∈ σ'.pushes, R.PushOrderly σ' p := by
  have h_grows := h.grows
  have h_old : ∀ p ∈ σ.pushes, R.PushOrderly σ' p := fun p hp => (hI.pushes p hp).mono h_grows
  -- a call that stays off the routes and is not turned away
  have h_goto : ∀ {i : ℕ} {p : PushCall Node Row} (pc : PushPc Node), σ.pushes[i]? = some p →
      (∀ n, pc ≠ .at n) → (∀ ack, pc = .acked ack → ack.ok = true) →
      R.PushOrderly σ' { p with pc := pc } := fun pc hp hat hack =>
    have h_p := h_old _ (List.mem_of_getElem? hp)
    ⟨h_p.pos, h_p.call, h_p.upto, fun n hn => absurd hn (hat n), fun a ha => Or.inl (hack a ha)⟩
  cases h with
  | workPush hw _ htodo hself _ =>
    have h_w := (hI.workers _ (List.mem_of_getElem? hw)).mono h_grows
    exact forall_mem_concat h_old (h_w.push htodo hself)
  | workRetry hw hpc _ =>
    exact absurd hpc ((hI.workers _ (List.mem_of_getElem? hw)).steady _)
  | pushFound hp _ _ => exact forall_mem_set h_old (h_goto _ hp (by simp) (by simp))
  | pushUnregistered hp _ hreg =>
    have h_p := h_old _ (List.mem_of_getElem? hp)
    refine forall_mem_set h_old ⟨h_p.pos, h_p.call, h_p.upto, by simp, fun a ha => Or.inr ?_⟩
    obtain rfl := PushPc.acked.inj ha
    exact ⟨rfl, hreg⟩
  | pushNoRoute hp hpc _ hroute =>
    have h_some := (hI.pushes _ (List.mem_of_getElem? hp)).routed _ hpc
    exact absurd h_some (by simp [hroute])
  | pushRelay hp _ hn hroute _ =>
    have h_p := h_old _ (List.mem_of_getElem? hp)
    refine forall_mem_set h_old ⟨h_p.pos, h_p.call, h_p.upto, fun n hn' => ?_, by simp⟩
    obtain rfl := PushPc.at.inj hn'
    exact (hroutes _ _ hroute hn).2
  | pushNoPeer _ _ hn hroute hpeer => exact absurd (hroutes _ _ hroute hn).1 hpeer
  | pushCanceled _ _ hcanceled => exact absurd hcanceled (by simp [hlive])
  | pushLive hp _ _ => exact forall_mem_set h_old (h_goto _ hp (by simp) (by simp))
  | pushDeposit hp _ => exact forall_mem_set h_old (h_goto _ hp (by simp) (by simp))
  | pushMark hp _ => exact forall_mem_set h_old (h_goto _ hp (by simp) (by simp))
  | pushAck hp _ =>
    refine forall_mem_set h_old (h_goto _ hp (by simp) fun a ha => ?_)
    obtain rfl := PushPc.acked.inj ha
    rfl
  | pushReturn hp hpc _ =>
    -- the relay passes the answer on
    have h_p := h_old _ (List.mem_of_getElem? hp)
    refine forall_mem_set h_old ⟨h_p.pos, h_p.call, h_p.upto, by simp, fun a ha => ?_⟩
    obtain rfl := PushPc.acked.inj ha
    simpa [PushChunkAck.relay] using h_p.ack _ hpc
  | pushFail _ _ => exact absurd hclean (by simp [clean])
  | _ => exact h_old

/-- **Every action around the flood keeps the bookkeeping.** -/
theorem CompleteInv.env (hI : R.CompleteInv σ) (h : R.EnvStep σ e σ')
    (hclean : clean (.env e) = true) (hD : DepositInv σ) (hN : R.NodesInv σ)
    (hlive : σ.st.buffer.canceled = false) (hself : R.overlay.selfRoute ∉ R.overlay.nodes)
    (hroutes : ∀ n r, σ.routes n = some r → n ≠ R.overlay.portal →
      R.overlay.Adj n r.upstreamPeer ∧ (σ.routes r.upstreamPeer).isSome) :
    R.CompleteInv σ' where
  workers := h.workers_orderly hI hD hN hself
  pushes := h.pushes_orderly hclean hI hlive hroutes
  done n hn := by
    refine Upto.mono ?_ h.grows.log
    rcases h.mem_done hn with
      hn | ⟨w, hw, hpc, rfl, c, hc, hdone⟩ | ⟨p, hp, ⟨took, hpc⟩, rfl, hdone⟩
    · exact hI.done n hn
    · -- the portal's own worker marks, after its last chunk
      obtain ⟨c', todo, htodo⟩ := List.exists_cons_of_ne_nil
        (List.ne_nil_of_mem (List.mem_of_mem_head? hc))
      obtain rfl : c' = c := by simpa [htodo] using hc
      have h_w := hI.workers w hw
      exact h_w.sent.complete (h_w.current htodo) ((hD.workers w hw).deposited hpc _ hc) hdone
    · -- a push call marks, with the last chunk of its producer
      exact (hI.pushes p hp).complete (hD.pushes p hp (by rw [hpc]; rfl)) hdone
  erased hreg := by
    have h_old : σ.registered = false → ∀ n ∈ R.overlay.nodes, R.Complete σ'.log n :=
      fun hreg n hn => (hI.erased hreg n hn).mono h.grows.log
    cases h with
    -- a final response goes out, whose node has seen the end
    | fetchErase hf hpc =>
      have h_f := List.mem_of_getElem? hf
      exact hI.final _ h_f (hI.closing _ h_f hpc)
    | janitorErase _ => exact absurd hclean (by simp [clean])
    | _ => exact h_old hreg
  final := by
    have h_old : ∀ f ∈ σ.fetches, f.rsp.final = true →
        ∀ n ∈ R.overlay.nodes, R.Complete σ'.log n :=
      fun f hf hfinal n hn => (hI.final f hf hfinal n hn).mono h.grows.log
    refine h.forall_final h_old ?_ ?_
    · exact fun hreg n hn => (hI.erased hreg n hn).mono h.grows.log
    · -- all expected producers are done, so every node is
      intro hfinal n hn
      have h_card := ((σ.st.buffer.isFinal_iff hlive).mp hfinal).2
      exact (hI.done n (hN.all_done h_card n hn)).mono h.grows.log
  closing := h.closing_final hI.closing
  uncut := by
    cases h with
    | abort _ => exact absurd hclean (by simp [clean])
    | _ => exact hI.uncut

end Env

section Step

variable [DecidableEq Node] {R : Request Node Row} {s s' : State Node Row} {l : Label Node}

theorem CompleteInv.initial (R : Request Node Row) : R.CompleteInv R.startStore where
  workers _ hw := absurd hw List.not_mem_nil
  pushes _ hp := absurd hp List.not_mem_nil
  done n hn := by
    have h_done : R.startStore.st.buffer.done = ∅ := congrArg ChunkBuffer.done R.start_buffer
    rw [h_done] at hn
    exact absurd hn (Finset.notMem_empty n)
  erased hreg := absurd hreg (by simp [startStore])
  final _ hf := absurd hf List.not_mem_nil
  closing _ hf := absurd hf List.not_mem_nil
  uncut _ := rfl

/-- The worker of a handler that has just ended is orderly. -/
theorem FloodInv.worker_orderly (hF : R.FloodInv s)
    {c : Cascade.Call Node (Task Node) (ForwardQueryAck Node)} (hc : c ∈ s.calls) :
    R.Orderly s.store ⟨c.dst, R.upstream c.msg, (R.scan c.dst).calls, [], .ready⟩ where
  scan := rfl
  sent _ hk := absurd hk (Nat.not_lt_zero _)
  steady := by simp
  upstream := by
    cases hm : c.msg with
    | submitQuery =>
      -- the portal, and any other node that has been asked
      have h_valid := hF.valid c hc
      rw [hm] at h_valid
      exact Or.inl ⟨rfl, h_valid⟩
    | forwardQuery req =>
      obtain ⟨h_valid, h_from⟩ := hF.from_routed hc hm
      exact Or.inr ⟨R.overlay.nbrs_symm h_valid.peer, h_from⟩

omit [DecidableEq Node] in
/-- An action of the flood touches the routes, the workers it starts and the
producers it marks. -/
theorem CompleteInv.flood {σ σ' : Store Node Row} (hI : R.CompleteInv σ) (hgrows : Grows σ σ')
    (hworkers : ∀ w ∈ σ'.workers, w ∈ σ.workers ∨ R.Orderly σ' w)
    (hdone : ∀ n ∈ σ'.st.buffer.done, n ∈ σ.st.buffer.done ∨ R.Complete σ.log n)
    (hreg : σ'.registered = σ.registered) (hpushes : σ'.pushes = σ.pushes)
    (hfetches : σ'.fetches = σ.fetches) (hmarks : σ'.cancelMarks = σ.cancelMarks) :
    R.CompleteInv σ' where
  workers w hw := (hworkers w hw).elim (fun h => (hI.workers w h).mono hgrows) id
  pushes := hpushes ▸ fun p hp => (hI.pushes p hp).mono hgrows
  done n hn := ((hdone n hn).elim (hI.done n) id).mono hgrows.log
  erased h n hn := (hI.erased (hreg ▸ h) n hn).mono hgrows.log
  final := hfetches ▸ fun f hf hfinal n hn => (hI.final f hf hfinal n hn).mono hgrows.log
  closing := hfetches ▸ hI.closing
  uncut := hmarks ▸ hI.uncut

/-- **Every action keeps the bookkeeping**, if marks for rejected forwards are sound. -/
theorem CompleteInv.step (hI : R.CompleteInv s.store) (hF : R.FloodInv s)
    (hU : R.UpstreamInv s) (hD : DepositInv s.store) (hN : R.NodesInv s.store)
    (hlive : s.store.st.buffer.canceled = false)
    (hself : R.overlay.selfRoute ∉ R.overlay.nodes) (hclean : clean l = true)
    (hmark : R.SoundMark s l) (h : R.cascade.Step s l s') : R.CompleteInv s'.store := by
  have h_routes : ∀ n, (s.store.routes n).isSome → (s'.store.routes n).isSome :=
    fun _ => routes_mono h
  cases h with
  | check hc hpc => exact hI
  | commit hc hpc =>
    -- a route more, and nothing else that the invariant reads
    exact hI.flood ⟨List.prefix_refl _, h_routes, id⟩ (fun w hw => Or.inl hw)
      (fun n hn => Or.inl hn) rfl rfl rfl rfl
  | send hc hpc => exact hI
  | @collect i id c d todo r hc hpc hd hr =>
    refine hI.flood ⟨List.prefix_refl _, fun _ hn => hn, fun hreg => hreg⟩
      (fun w hw => Or.inl hw) (fun n hn => ?_) rfl rfl rfl rfl
    rcases (mem_done_settle (n := c.dst)).mp hn with ⟨h_msg, h_refused, rfl⟩ | hn
    · -- the mark for a rejected forward
      exact Or.inr (hmark d (awaited_eq hc hpc hd h_msg) (by rw [hr]; exact h_refused))
    · exact Or.inl hn
  | expire _ _ _ => exact absurd hclean (by simp [clean])
  | finish hc hpc =>
    -- a worker starts, with its chunks in order
    refine hI.flood ⟨List.prefix_refl _, h_routes, id⟩ (fun w hw => ?_)
      (fun n hn => Or.inl hn) rfl rfl rfl rfl
    rcases List.mem_append.mp hw with hw | hw
    · exact Or.inl hw
    · obtain rfl := List.mem_singleton.mp hw
      exact Or.inr ((hF.worker_orderly (List.mem_of_getElem? hc)).mono
        ⟨List.prefix_refl _, h_routes, id⟩)
  | env he =>
    exact hI.env (env_cases he) hclean hD hN hlive hself fun n r hr hn => hU.upstream hr hn

end Step

/-! ### What has been returned -/

/-- The rows of the responses sent. -/
def returned (σ : Store Node Row) : List Row :=
  (σ.fetches.filter fun f => f.pc = .answered).flatMap fun f => f.rsp.rows

/-- Once a response is final, all rows have been fetched. -/
structure ServedInv (R : Request Node Row) (σ : Store Node Row) : Prop where
  final : ∀ f ∈ σ.fetches, f.rsp.final = true → R.rows.Subperm (fetched σ)
  erased : σ.registered = false → R.rows.Subperm (returned σ)
  answered : ∀ f ∈ σ.fetches, f.pc = .answered → f.rsp.final = true → R.rows.Subperm (returned σ)

section Returned

variable {σ : Store Node Row}

/-- When every fetch with rows has been answered, all fetched rows are returned. -/
theorem returned_eq_fetched (h : ∀ g ∈ σ.fetches, g.rsp.rows = [] ∨ g.pc = .answered) :
    returned σ = fetched σ := by
  -- a fetch that has not been answered adds no rows to either side
  have h_list : ∀ L : List (Fetch Row), (∀ g ∈ L, g.rsp.rows = [] ∨ g.pc = .answered) →
      (L.filter fun f => f.pc = .answered).flatMap (fun f => f.rsp.rows) =
        L.flatMap fun f => f.rsp.rows := by
    intro L hL
    induction L with
    | nil => rfl
    | cons g L ih =>
      have ih := ih fun g hg => hL g (List.mem_cons_of_mem _ hg)
      by_cases hpc : g.pc = .answered
      · rw [List.filter_cons_of_pos (by simpa using hpc), List.flatMap_cons, List.flatMap_cons, ih]
      · have h_rows := (hL g List.mem_cons_self).resolve_right hpc
        rw [List.filter_cons_of_neg (by simpa using hpc), List.flatMap_cons, h_rows, ih,
          List.nil_append]
  exact h_list _ h

theorem returned_subperm : (returned σ).Subperm (fetched σ) :=
  (List.filter_sublist.flatMap _).subperm

end Returned

section Served

variable [DecidableEq Node] {R : Request Node Row} {σ σ' : Store Node Row} {e : Event Node}
  {s s' : State Node Row} {l : Label Node}

/-- No fetched row is given back. -/
theorem EnvStep.fetched_subperm (h : R.EnvStep σ e σ') (hI : FlowInv σ) :
    (fetched σ).Subperm (fetched σ') := by
  rcases h.fetches_cases with heq | ⟨f, -, heq⟩ | ⟨i, f, f', hmove, heq⟩
  · unfold fetched
    rw [heq]
  · unfold fetched
    rw [heq, List.flatMap_append]
    exact (List.sublist_append_left _ _).subperm
  · have h_set : fetched σ' = fetched (σ.setFetch i f') := by
      unfold fetched
      rw [heq]
      rfl
    rw [h_set]
    rcases hmove.rows with hpc | hrows
    · -- the pop comes to a fetch without rows
      have h_empty := hI.found f (List.mem_of_getElem? hmove.get) hpc
      have h_perm := fetched_set_perm (g := f') hmove.get h_empty
      exact (List.sublist_append_left _ _).subperm.trans h_perm.symm.subperm
    · rw [fetched_set hmove.get hrows]

/-- No response is taken back. -/
theorem EnvStep.returned_sublist (h : R.EnvStep σ e σ') :
    (returned σ).Sublist (returned σ') := by
  unfold returned
  refine List.Sublist.flatMap ?_ _
  rcases h.fetches_cases with heq | ⟨f, -, heq⟩ | ⟨i, f, f', hmove, heq⟩
  · rw [heq]
  · rw [heq, List.filter_append]
    exact List.sublist_append_left _ _
  · rw [heq]
    exact filter_sublist_filter_set hmove.get (decide_eq_false hmove.busy)

omit [DecidableEq Node] in
/-- **All rows have been fetched** when the log is complete and the queue empty. -/
theorem FlowInv.fetched_all (hI : FlowInv σ) (hfull : Full σ.log)
    (hlive : σ.st.buffer.canceled = false) (hq : σ.st.buffer.q = [])
    (hcomplete : ∀ n ∈ R.overlay.nodes, R.Complete σ.log n) : R.rows.Subperm (fetched σ) := by
  have h_rows := rows_subperm hcomplete
  have h_accepted : accepted σ = σ.log.flatMap fun d => d.call.rows :=
    List.flatMap_congr hfull
  have h_flow := hI.flow hlive
  rw [hq, List.append_nil, h_accepted] at h_flow
  exact h_rows.trans h_flow.symm.subperm

/-- **Every action around the flood keeps the account of the responses**, if a
final response goes out alone. -/
theorem ServedInv.env (hI : R.ServedInv σ) (h : R.EnvStep σ e σ') (hC : R.CompleteInv σ)
    (hW : FlowInv σ) (hfinal : σ.st.buffer.isFinal = true → R.rows.Subperm (fetched σ))
    (hclean : clean (.env e) = true)
    (hsettled : ∀ i dt, e = .fetch i dt → ∀ f ∈ σ.fetches[i]?, f.pc = .closing →
      ∀ g ∈ σ.fetches.eraseIdx i, g.rsp.rows = [] ∨ g.pc = .answered) : R.ServedInv σ' := by
  have h_subperm := h.fetched_subperm hW
  have h_sublist := h.returned_sublist
  -- what has been fetched and returned before still is
  have h_fetched : ∀ f ∈ σ.fetches, f.rsp.final = true → R.rows.Subperm (fetched σ') :=
    fun f hf hfinal => (hI.final f hf hfinal).trans h_subperm
  have h_erased : σ.registered = false → R.rows.Subperm (returned σ') :=
    fun hreg => (hI.erased hreg).trans h_sublist.subperm
  have h_returned : ∀ f ∈ σ.fetches, f.pc = .answered → f.rsp.final = true →
      R.rows.Subperm (returned σ') :=
    fun f hf hpc hfinal => (hI.answered f hf hpc hfinal).trans h_sublist.subperm
  -- when a final response goes out, all other responses with rows are out
  have h_closing : ∀ (i : ℕ) (dt : ℚ) (f g : Fetch Row), e = .fetch i dt →
      σ.fetches[i]? = some f → f.pc = .closing → g.pc = .answered →
      g.rsp.rows = f.rsp.rows → σ'.fetches = σ.fetches.set i g → R.rows.Subperm (returned σ') := by
    intro i dt f g he hf hpc hpc' _ heq
    have h_f := List.mem_of_getElem? hf
    have h_all := (hI.final f h_f (hC.closing f h_f hpc)).trans h_subperm
    have h_out : ∀ o ∈ σ'.fetches, o.rsp.rows = [] ∨ o.pc = .answered := by
      rw [heq]
      exact forall_mem_set_of_eraseIdx (hsettled i dt he f hf hpc) (Or.inr hpc')
    rwa [← returned_eq_fetched h_out] at h_all
  refine ⟨h.forall_final h_fetched ?_ ?_, ?_, h.forall_answered h_returned h_erased h_closing⟩
  · exact fun hreg => (h_erased hreg).trans returned_subperm
  · exact fun hend => (hfinal hend).trans h_subperm
  · intro hreg
    cases h with
    | @fetchErase i dt f hf hpc =>
      exact h_closing i dt f { f with pc := .answered } rfl hf hpc rfl rfl rfl
    | janitorErase _ => exact absurd hclean (by simp [clean])
    | _ => exact h_erased hreg

theorem ServedInv.step (hI : R.ServedInv s.store) (hC : R.CompleteInv s.store)
    (hW : FlowInv s.store) (hN : R.NodesInv s.store) (hfull : Full s.store.log)
    (hlive : s.store.st.buffer.canceled = false) (hclean : clean l = true)
    (hsettled : Settled s l) (h : R.cascade.Step s l s') : R.ServedInv s'.store := by
  cases h with
  | @env e σ he =>
    refine hI.env (env_cases he) hC hW (fun hfinal => ?_) hclean fun i dt h => ?_
    · obtain ⟨h_q, h_card⟩ := (s.store.st.buffer.isFinal_iff hlive).mp hfinal
      exact hW.fetched_all hfull hlive h_q fun n hn => hC.done n (hN.all_done h_card n hn)
    · subst h
      exact hsettled
  | _ => exact ⟨hI.final, hI.erased, hI.answered⟩

theorem ServedInv.initial (R : Request Node Row) : R.ServedInv R.startStore :=
  ⟨fun _ h => absurd h List.not_mem_nil, fun h => absurd h (by simp [startStore]),
    fun _ h => absurd h List.not_mem_nil⟩

/-! ### The result -/

/-- **Final answers are complete**, in every run without failures, cancellations
and short counts in which a neighbour whose forward is rejected has deposited its
chunks when it is marked as done, and a final response goes out when the others
are out: once a final response is sent, every row that the engines emit is in a
response that has been sent. -/
theorem final_complete (R : Request Node Row) (hself : R.overlay.selfRoute ∉ R.overlay.nodes)
    {s : State Node Row} (h : R.machine.Reachable (fun s l => clean l = true ∧ NeverShort s l ∧
      Settled s l ∧ R.SoundMark s l) s) :
    ∀ f ∈ s.store.fetches, f.pc = .answered → f.rsp.final = true → f.rsp.canceled = false →
      (R.overlay.nodes.flatMap fun n => (R.scan n).rows).Subperm (returned s.store) := by
  -- the invariants of the flood, the deposits and the buffer are kept together
  have h_inv := h.invariant
    (fun s => (R.FloodInv s ∧ R.UpstreamInv s ∧ DepositInv s.store ∧ R.NodesInv s.store) ∧
      (FlowInv s.store ∧ s.store.st.buffer.canceled = false ∧ Full s.store.log) ∧
      R.CompleteInv s.store ∧ R.ServedInv s.store)
    ⟨⟨.initial R, .initial R, .initial R, .initial R⟩,
      ⟨.initial R, start_live R, fun _ hd => absurd hd List.not_mem_nil⟩,
      .initial R, .initial R⟩
    fun s l s' ⟨⟨hF, hU, hD, hN⟩, ⟨hW, hlive, hfull⟩, hC, hS⟩
      ⟨hclean, hshort, hsettled, hmark⟩ hstep => by
      have hstep := Cascade.step_iff.mp hstep
      exact ⟨⟨hF.step hstep, hU.step hF hstep, hD.step hstep, hN.step hF hstep⟩,
        ⟨hW.step hstep, (step_live hstep (uncanceled_of_clean hclean)).trans hlive,
          hfull.step hlive hshort hstep⟩,
        hC.step hF hU hD hN hlive hself hclean hmark hstep,
        hS.step hC hW hN hfull hlive hclean hsettled hstep⟩
  exact fun f hf hpc hfinal _ => h_inv.2.2.2.answered f hf hpc hfinal

end Served

/-! ### Two runs -/

/-- The portal deposits its own chunk as worker `k`. -/
def depositLocal (k : ℕ) : List (Label Node) := List.replicate 3 (.env (.work k))

/-- A client fetches once, as the request's first fetch. -/
def fetchOnce : List (Label Node) := .env (.fetchBegin 0) :: List.replicate 8 (.env (.fetch 0 100))

/-- One fetch returns both rows of `b` as the final response. -/
theorem final_complete_two : ∃ s, (twoRows 2).machine.Reachable (fun s l => clean l = true ∧
      NeverShort s l ∧ Settled s l ∧ (twoRows 2).SoundMark s l) s ∧
    (∃ f ∈ s.store.fetches, f.pc = .answered ∧ f.rsp.final = true ∧ f.rsp.canceled = false) ∧
    [1, 2].Subperm (returned s.store) := by
  obtain ⟨s, hrun, hf⟩ := Machine.exists_run_of_exec (M := (twoRows 2).machine)
    (P := fun s l => clean l = true ∧ NeverShort s l ∧ Settled s l ∧ (twoRows 2).SoundMark s l)
    (s := (twoRows 2).start) (l := pushTwoRows ++ depositLocal 1 ++ fetchOnce)
    (Φ := fun s => ∃ f ∈ s.store.fetches,
      f.pc = .answered ∧ f.rsp.final = true ∧ f.rsp.canceled = false)
    (by decide +kernel)
  obtain ⟨f, hf, hpc, hfinal, hlive⟩ := hf
  exact ⟨s, ⟨_, hrun⟩, ⟨f, hf, hpc, hfinal, hlive⟩,
    final_complete (twoRows 2) (by decide) ⟨_, hrun⟩ f hf hpc hfinal hlive⟩

/-- A triangle in which `c` alone has a row. -/
def rowAtC : Request Overlay.Id3 ℕ where
  overlay := .triangle
  params := .default
  scan n := .single (if n = .c then [1] else [])

/-- `c` is reached through `b` first. The portal's own forward to it is rejected as
a duplicate, on which the portal marks it as done: it reports the end of the
result before `c` has sent its row. -/
theorem final_incomplete : ∃ s, rowAtC.machine.Reachable
      (fun s l => clean l = true ∧ NeverShort s l ∧ Settled s l) s ∧
    ∃ f ∈ s.store.fetches, f.pc = .answered ∧ f.rsp.final = true ∧ f.rsp.canceled = false ∧
      ¬ (rowAtC.overlay.nodes.flatMap fun n => (rowAtC.scan n).rows).Subperm
        (returned s.store) := by
  obtain ⟨s, hrun, hf⟩ := Machine.exists_run_of_exec (M := rowAtC.machine)
    (P := fun s l => clean l = true ∧ NeverShort s l ∧ Settled s l)
    (s := rowAtC.start)
    (l := [.send 0, .check 1, .commit 1, .send 1, .check 2, .commit 2, .finish 2, .collect 1,
      .finish 1, .collect 0, .send 0, .check 3, .collect 0, .finish 0] ++ depositLocal 2 ++
      [.env (.work 1), .env (.push 0), .env (.push 0), .env (.push 0), .env (.push 0),
        .env (.push 0)] ++ fetchOnce)
    (Φ := fun s => ∃ f ∈ s.store.fetches, f.pc = .answered ∧ f.rsp.final = true ∧
      f.rsp.canceled = false ∧
      ¬ (rowAtC.overlay.nodes.flatMap fun n => (rowAtC.scan n).rows).Subperm (returned s.store))
    (by decide +kernel)
  exact ⟨s, ⟨_, hrun⟩, hf⟩

end Request
end Mini2
