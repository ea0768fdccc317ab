import Mini2.Node.Collected

/-!
# The way of a chunk to the portal

What holds of workers and push calls in every run in which nothing is canceled,
whatever calls fail. A chunk is sent along routes, so it is never turned away for
want of a route or a peer, and an answer `canceled` means that the portal has erased
the request (`PushDelivers.refused`). A worker goes through the chunks of its engine
and is done with one when it has been acknowledged, when its five attempts have
failed, or when the request is gone for it (`Delivers.outcome`).

* `DeliveryInv.step` — every action keeps this.
* `DeliveryInv.sent` — as long as no chunk is given up, a worker's chunks are in the
  log, or the request is gone.
-/

namespace Mini2

open Framework

variable {Node Row : Type*}

/-- The worker has made a push call for its current chunk. -/
def WorkerPc.sending : WorkerPc → Bool
  | .pushing _ _ => true
  | .backoff _ => true
  | _ => false

namespace Request

/-- The request is gone for the worker: the portal has erased it, or the worker runs on
another node and, by the name of its upstream node, takes that node for the portal. -/
def GoneFor (R : Request Node Row) (σ : Store Node Row) (w : Worker Node Row) : Prop :=
  σ.registered = false ∨ (w.upstream = R.overlay.selfRoute ∧ w.node ≠ R.overlay.portal)

/-- What a worker has behind it. -/
structure Delivers (R : Request Node Row) (σ : Store Node Row) (w : Worker Node Row) : Prop where
  /-- It goes through the sink calls of its engine. -/
  scan : w.history.map Prod.fst ++ w.todo = (R.scan w.node).calls
  /-- Its chunks go to the portal's own buffer, or to a neighbour with a route. -/
  upstream : (w.upstream = R.overlay.selfRoute ∧ w.node = R.overlay.portal) ∨
    (w.upstream ∈ R.overlay.nbrs w.node ∧ (σ.routes w.upstream).isSome)
  sending : w.pc.sending = true → w.upstream ≠ R.overlay.selfRoute
  /-- The portal's own deposit has found the request. -/
  found : w.pc = .found ∨ w.pc = .deposited → w.node = R.overlay.portal
  outcome : ∀ x ∈ w.history, x.2 = .acked ∨ x.2 = .deposited ∨ x.2 = .exhausted ∨ R.GoneFor σ w

/-- What a push call has behind it. -/
structure PushDelivers (R : Request Node Row) (σ : Store Node Row) (p : PushCall Node Row) :
    Prop where
  /-- It carries a chunk of its producer's engine. -/
  chunk : R.IsChunk p.producer p.seq p.call
  /-- It is on its way along routes. -/
  routed : ∀ n, p.pc = .at n → (σ.routes n).isSome
  /-- It is turned away only when the request is gone. -/
  refused : ∀ ack, p.pc = .acked ack → ack.canceled = true → σ.registered = false

/-- The bookkeeping of a run in which nothing is canceled. -/
structure DeliveryInv (R : Request Node Row) (σ : Store Node Row) : Prop where
  workers : ∀ w ∈ σ.workers, R.Delivers σ w
  pushes : ∀ p ∈ σ.pushes, R.PushDelivers σ p
  /-- No route is marked as canceled. -/
  uncut : ∀ n, σ.cancelMarks n = false

section Keep

variable {R : Request Node Row} {σ σ' : Store Node Row} {w : Worker Node Row} {c : SinkCall Row}
  {todo : List (SinkCall Row)}

theorem GoneFor.mono (h : R.GoneFor σ w) (hgrows : Grows σ σ') : R.GoneFor σ' w :=
  h.imp hgrows.erased id

theorem Delivers.mono (h : R.Delivers σ w) (hgrows : Grows σ σ') : R.Delivers σ' w where
  scan := h.scan
  upstream := h.upstream.imp id fun h => ⟨h.1, hgrows.routes _ h.2⟩
  sending := h.sending
  found := h.found
  outcome x hx := (h.outcome x hx).imp id (.imp id (.imp id fun h => h.mono hgrows))

theorem PushDelivers.mono {p : PushCall Node Row} (h : R.PushDelivers σ p)
    (hgrows : Grows σ σ') : R.PushDelivers σ' p where
  chunk := h.chunk
  routed n hn := hgrows.routes n (h.routed n hn)
  refused ack ha hc := hgrows.erased (h.refused ack ha hc)

/-- The current chunk of a worker is the next of its engine. -/
theorem Delivers.current (h : R.Delivers σ w) (htodo : w.todo = c :: todo) :
    R.IsChunk w.node (w.history.length + 1) c := by
  refine ⟨Nat.succ_ne_zero _, ?_⟩
  rw [← h.scan, htodo, Nat.add_sub_cancel, List.getElem?_append_right (by simp)]
  simp

/-- The chunks that a worker is done with are the first of its engine. -/
theorem Delivers.past (h : R.Delivers σ w) {k : ℕ} {outcome : Outcome}
    (hk : w.history[k]? = some (c, outcome)) : (R.scan w.node).calls[k]? = some c := by
  have hlt : k < w.history.length := (List.getElem?_eq_some_iff.mp hk).1
  rw [← h.scan, List.getElem?_append_left (by simpa using hlt), List.getElem?_map, hk]
  rfl

/-- A worker goes on to the next chunk. -/
theorem Delivers.advance (h : R.Delivers σ w) {outcome : Outcome} (htodo : w.todo = c :: todo)
    (houtcome : outcome = .acked ∨ outcome = .deposited ∨ outcome = .exhausted ∨ R.GoneFor σ w) :
    R.Delivers σ (w.advance c todo outcome) where
  scan := by
    have h_scan := h.scan
    rw [htodo] at h_scan
    simpa [Worker.advance] using h_scan
  upstream := h.upstream
  sending hs := absurd hs (by simp [Worker.advance, WorkerPc.sending])
  found hf := absurd hf (by simp [Worker.advance])
  outcome := forall_mem_concat h.outcome houtcome

/-- A worker stays with its chunk. -/
theorem Delivers.goto (h : R.Delivers σ w) {pc : WorkerPc}
    (hsending : pc.sending = true → w.upstream ≠ R.overlay.selfRoute)
    (hfound : pc = .found ∨ pc = .deposited → w.node = R.overlay.portal) :
    R.Delivers σ { w with pc := pc } :=
  ⟨h.scan, h.upstream, hsending, hfound, h.outcome⟩

/-- The chunk that a worker sends. -/
theorem Delivers.push (h : R.Delivers σ w) (htodo : w.todo = c :: todo) {k : ℕ}
    (hself : w.upstream ≠ R.overlay.selfRoute) :
    R.PushDelivers σ ⟨w.node, w.history.length + 1, c, some k, [], .at w.upstream⟩ where
  chunk := h.current htodo
  routed n hn := by
    obtain rfl := PushPc.at.inj hn
    exact (h.upstream.resolve_left fun h => hself h.1).2
  refused ack ha := absurd ha (by simp)

/-- A push call goes on, and is not turned away. -/
theorem PushDelivers.goto {p : PushCall Node Row} (h : R.PushDelivers σ p) {pc : PushPc Node}
    {hops : List Node} {worker : Option ℕ} (hat : ∀ n, pc = .at n → (σ.routes n).isSome)
    (hack : ∀ ack, pc = .acked ack → ack.canceled = true → σ.registered = false) :
    R.PushDelivers σ { p with worker := worker, hops := hops, pc := pc } :=
  ⟨h.chunk, hat, hack⟩

/-- **Nothing that is sent is lost**, as long as no chunk is given up: what a worker is
done with is in the log, or the request is gone for the worker. -/
theorem DeliveryInv.sent (hI : R.DeliveryInv σ) (hD : DepositInv σ) (hw : w ∈ σ.workers)
    (hexhausted : ∀ k c, w.history[k]? = some (c, .exhausted) → Recorded σ.log w.node (k + 1) c) :
    R.Upto σ.log w.node w.history.length ∨ R.GoneFor σ w := by
  by_cases hgone : R.GoneFor σ w
  · exact Or.inr hgone
  refine Or.inl fun k hk => ?_
  obtain ⟨⟨c, outcome⟩, hget⟩ : ∃ x, w.history[k]? = some x :=
    ⟨_, List.getElem?_eq_getElem hk⟩
  -- each of its chunks has been acknowledged, deposited or given up, or the request was gone
  have h_rec : Recorded σ.log w.node (k + 1) c := by
    have h_ok := (hD.workers w hw).history k c outcome hget
    rcases (hI.workers w hw).outcome _ (List.mem_of_getElem? hget) with h | h | h | h
    · exact h_ok (Or.inl h)
    · exact h_ok (Or.inr h)
    · obtain rfl : outcome = .exhausted := h
      exact hexhausted k c hget
    · exact absurd h hgone
  obtain ⟨d, hd, h_producer, h_seq, h_call⟩ := h_rec
  exact ⟨d, hd, h_producer, h_seq, h_call ▸ (hI.workers w hw).past hget⟩

end Keep

/-! ### Every action keeps the bookkeeping -/

section Env

variable [DecidableEq Node] {R : Request Node Row} {σ σ' : Store Node Row} {e : Event Node}

/-- Workers go on through their chunks. -/
theorem EnvStep.workers_deliver (h : R.EnvStep σ e σ') (hI : R.DeliveryInv σ) :
    ∀ w ∈ σ'.workers, R.Delivers σ' w := by
  have h_old : ∀ w ∈ σ.workers, R.Delivers σ' w := fun w hw => (hI.workers w hw).mono h.grows
  have h_get : ∀ {k : ℕ} {w : Worker Node Row}, σ.workers[k]? = some w → R.Delivers σ' w :=
    fun hw => h_old _ (List.mem_of_getElem? hw)
  cases h with
  | workFound hw _ _ _ hnode _ =>
    exact forall_mem_set h_old ((h_get hw).goto (by simp [WorkerPc.sending]) fun _ => hnode)
  | @workGone k w c todo hw _ htodo hself hgone =>
    refine forall_mem_set h_old ((h_get hw).advance htodo (Or.inr (Or.inr (Or.inr ?_))))
    by_cases hnode : w.node = R.overlay.portal
    · exact Or.inl (Bool.eq_false_iff.mpr fun hreg => hgone ⟨hnode, hreg⟩)
    · exact Or.inr ⟨hself, hnode⟩
  | workPush hw _ _ hself _ =>
    exact forall_mem_set h_old ((h_get hw).goto (fun _ => hself) (by simp))
  | workNoPeer hw _ _ hself hpeer =>
    -- the upstream node is a neighbour
    exact absurd ((h_get hw).upstream.resolve_left fun h => hself h.1).1 hpeer
  | workDeposit hw hpc _ =>
    exact forall_mem_set h_old
      ((h_get hw).goto (by simp [WorkerPc.sending]) fun _ => (h_get hw).found (Or.inl hpc))
  | workMark hw _ htodo =>
    exact forall_mem_set h_old ((h_get hw).advance htodo (Or.inr (Or.inl rfl)))
  | workAcked hw _ htodo _ _ _ _ =>
    exact forall_mem_set h_old ((h_get hw).advance htodo (Or.inl rfl))
  | workCanceled hw _ htodo hp _ hack _ hcanceled =>
    -- the chunk has been turned away, so the request is gone
    have h_erased := (hI.pushes _ (List.mem_of_getElem? hp)).refused _ hack hcanceled
    exact forall_mem_set h_old
      ((h_get hw).advance htodo (Or.inr (Or.inr (Or.inr (Or.inl h_erased)))))
  | workBackoff hw hpc _ _ _ _ _ _ =>
    refine forall_mem_set h_old ((h_get hw).goto (fun _ => ?_) (by simp))
    exact (h_get hw).sending (by rw [hpc]; rfl)
  | workRetry hw hpc _ =>
    refine forall_mem_set h_old ((h_get hw).goto (fun _ => ?_) (by simp))
    exact (h_get hw).sending (by rw [hpc]; rfl)
  | workExhausted hw _ htodo =>
    exact forall_mem_set h_old ((h_get hw).advance htodo (Or.inr (Or.inr (Or.inl rfl))))
  | cut _ _ _ hmark _ => exact absurd hmark (by simp [hI.uncut])
  | _ => exact h_old

/-- Push calls go on along routes. -/
theorem EnvStep.pushes_deliver (h : R.EnvStep σ e σ') (hI : R.DeliveryInv σ)
    (hlive : σ.st.buffer.canceled = false)
    (hroutes : ∀ n r, σ.routes n = some r → n ≠ R.overlay.portal →
      R.overlay.Adj n r.upstreamPeer ∧ (σ.routes r.upstreamPeer).isSome) :
    ∀ p ∈ σ'.pushes, R.PushDelivers σ' p := by
  have h_grows := h.grows
  have h_old : ∀ p ∈ σ.pushes, R.PushDelivers σ' p := fun p hp => (hI.pushes p hp).mono h_grows
  have h_get : ∀ {i : ℕ} {p : PushCall Node Row}, σ.pushes[i]? = some p → R.PushDelivers σ' p :=
    fun hp => h_old _ (List.mem_of_getElem? hp)
  cases h with
  | workPush hw _ htodo hself _ =>
    have h_w := (hI.workers _ (List.mem_of_getElem? hw)).mono h_grows
    exact forall_mem_concat h_old (h_w.push htodo hself)
  | workRetry hw hpc htodo =>
    have h_w := (hI.workers _ (List.mem_of_getElem? hw)).mono h_grows
    exact forall_mem_concat h_old (h_w.push htodo (h_w.sending (by rw [hpc]; rfl)))
  | pushFound hp _ _ => exact forall_mem_set h_old ((h_get hp).goto (by simp) (by simp))
  | pushUnregistered hp _ hreg =>
    exact forall_mem_set h_old ((h_get hp).goto (by simp) fun _ _ _ => hreg)
  | pushNoRoute hp hpc _ hroute =>
    have h_some := (hI.pushes _ (List.mem_of_getElem? hp)).routed _ hpc
    exact absurd h_some (by simp [hroute])
  | pushRelay hp _ hn hroute _ =>
    refine forall_mem_set h_old ((h_get hp).goto (fun n hn' => ?_) (by simp))
    obtain rfl := PushPc.at.inj hn'
    exact (hroutes _ _ hroute hn).2
  | pushNoPeer _ _ hn hroute hpeer => exact absurd (hroutes _ _ hroute hn).1 hpeer
  | pushCanceled _ _ hcanceled => exact absurd hcanceled (by simp [hlive])
  | pushLive hp _ _ => exact forall_mem_set h_old ((h_get hp).goto (by simp) (by simp))
  | pushDeposit hp _ => exact forall_mem_set h_old ((h_get hp).goto (by simp) (by simp))
  | pushMark hp _ => exact forall_mem_set h_old ((h_get hp).goto (by simp) (by simp))
  | pushAck hp _ =>
    refine forall_mem_set h_old ((h_get hp).goto (by simp) fun ack ha hcanceled => ?_)
    obtain rfl := PushPc.acked.inj ha
    exact absurd hcanceled (by simp [depositAck])
  | pushReturn hp hpc _ =>
    -- the relay passes the answer on
    refine forall_mem_set h_old ((h_get hp).goto (by simp) fun ack ha hcanceled => ?_)
    obtain rfl := PushPc.acked.inj ha
    exact (h_get hp).refused _ hpc hcanceled
  | pushFail hp _ =>
    -- the caller holds a failed answer; what goes on is the call as it was
    have h_p := h_get hp
    refine forall_mem_concat (forall_mem_set h_old (h_p.goto (by simp) fun ack ha hcanceled => ?_))
      (h_p.goto h_p.routed h_p.refused)
    obtain rfl := PushPc.acked.inj ha
    exact absurd hcanceled (by simp [PushChunkAck.failed])
  | _ => exact h_old

end Env

section Step

variable [DecidableEq Node] {R : Request Node Row} {s s' : State Node Row} {l : Label Node}

theorem DeliveryInv.initial (R : Request Node Row) : R.DeliveryInv R.startStore :=
  ⟨fun _ h => absurd h List.not_mem_nil, fun _ h => absurd h List.not_mem_nil, fun _ => rfl⟩

/-- The worker of a handler that has just ended. -/
theorem FloodInv.worker_delivers (hF : R.FloodInv s)
    {c : Cascade.Call Node (Task Node) (ForwardQueryAck Node)} (hc : c ∈ s.calls) :
    R.Delivers s.store ⟨c.dst, R.upstream c.msg, (R.scan c.dst).calls, [], .ready⟩ where
  scan := rfl
  upstream := by
    cases hm : c.msg with
    | submitQuery =>
      have h_valid := hF.valid c hc
      rw [hm] at h_valid
      exact Or.inl ⟨rfl, h_valid⟩
    | forwardQuery req =>
      obtain ⟨h_valid, h_from⟩ := hF.from_routed hc hm
      exact Or.inr ⟨R.overlay.nbrs_symm h_valid.peer, h_from⟩
  sending h := absurd h (by simp [WorkerPc.sending])
  found h := absurd h (by simp)
  outcome x hx := absurd hx List.not_mem_nil

omit [DecidableEq Node] in
/-- An action of the flood touches the routes and the workers it starts. -/
theorem DeliveryInv.flood {σ σ' : Store Node Row} (hI : R.DeliveryInv σ) (hgrows : Grows σ σ')
    (hworkers : ∀ w ∈ σ'.workers, w ∈ σ.workers ∨ R.Delivers σ' w)
    (hpushes : σ'.pushes = σ.pushes) (hmarks : σ'.cancelMarks = σ.cancelMarks) :
    R.DeliveryInv σ' where
  workers w hw := (hworkers w hw).elim (fun h => (hI.workers w h).mono hgrows) id
  pushes := hpushes ▸ fun p hp => (hI.pushes p hp).mono hgrows
  uncut := hmarks ▸ hI.uncut

/-- **Every action keeps the bookkeeping**, as long as nothing is canceled. -/
theorem DeliveryInv.step (hI : R.DeliveryInv s.store) (hF : R.FloodInv s) (hU : R.UpstreamInv s)
    (hlive : s.store.st.buffer.canceled = false) (huncanceled : uncanceled l = true)
    (h : R.cascade.Step s l s') : R.DeliveryInv s'.store := by
  have h_routes : ∀ n, (s.store.routes n).isSome → (s'.store.routes n).isSome :=
    fun _ => routes_mono h
  cases h with
  | check hc hpc => exact hI
  | commit hc hpc =>
    exact hI.flood ⟨List.prefix_refl _, h_routes, id⟩ (fun w hw => Or.inl hw) rfl rfl
  | send hc hpc => exact hI
  | collect hc hpc hd hr =>
    exact hI.flood ⟨List.prefix_refl _, h_routes, id⟩ (fun w hw => Or.inl hw) rfl rfl
  | expire hc hpc hd =>
    exact hI.flood ⟨List.prefix_refl _, h_routes, id⟩ (fun w hw => Or.inl hw) rfl rfl
  | finish hc hpc =>
    -- a worker starts; its upstream node has a route
    refine hI.flood ⟨List.prefix_refl _, h_routes, id⟩ (fun w hw => ?_) rfl rfl
    rcases List.mem_append.mp hw with hw | hw
    · exact Or.inl hw
    · obtain rfl := List.mem_singleton.mp hw
      exact Or.inr ((hF.worker_delivers (List.mem_of_getElem? hc)).mono
        ⟨List.prefix_refl _, h_routes, id⟩)
  | env he =>
    have h_env := env_cases he
    refine ⟨h_env.workers_deliver hI,
      h_env.pushes_deliver hI hlive fun n r hr hn => hU.upstream hr hn, ?_⟩
    -- no route is marked as canceled
    cases h_env with
    | abort _ => exact absurd huncanceled (by simp [uncanceled])
    | _ => exact hI.uncut

end Step

end Request
end Mini2
