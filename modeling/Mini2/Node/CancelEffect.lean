import Mini2.Node.Portal

/-!
# What a client sees of its cancellation

Once the portal's part of `CancelQuery` is over, the request's buffer is canceled, or the
registry does not hold the request any more. A canceled buffer is empty and stays so, as
pushes only pretend to be accepted; so a fetch that begins from then on returns no rows,
and both of its flags are set on either way it can go: the request is unknown, or the
buffer is canceled (`Canceled`).

`cancel_effective` says this of every request of the portal, also of those that are
answered from the cache, and that every such fetch is answered.
-/

namespace Mini2

open Framework

variable {Node Row : Type*}

/-- The response says whether the request is canceled. -/
def FetchPc.hasCanceled : FetchPc → Bool
  | .canceledRead | .finalRead | .closing | .answered => true
  | _ => false

/-- The response says whether the result is final. -/
def FetchPc.hasFinal : FetchPc → Bool
  | .finalRead | .closing | .answered => true
  | _ => false

namespace Request

/-! ### The fetches after a cancellation -/

/-- A fetch that has begun after the cancellation. -/
structure CanceledFetch (σ : Store Node Row) (f : Fetch Row) : Prop where
  rows : f.rsp.rows = []
  /-- It has found the request with its buffer canceled, or has not found it. -/
  buffer : f.pc ≠ .answered → σ.st.buffer.canceled = true
  canceled : f.pc.hasCanceled = true → f.rsp.canceled = true
  final : f.pc.hasFinal = true → f.rsp.final = true
  erased : f.pc = .answered → σ.registered = false

/-- The request is canceled, or gone, and so it is for the fetches from the `n`-th on. -/
structure Canceled (n : ℕ) (σ : Store Node Row) : Prop where
  gone : σ.st.buffer.canceled = true ∨ σ.registered = false
  drained : σ.st.buffer.canceled = true → σ.st.buffer.q = []
  late : ∀ f ∈ σ.fetches.drop n, CanceledFetch σ f

theorem CanceledFetch.mono {σ σ' : Store Node Row} {f : Fetch Row} (h : CanceledFetch σ f)
    (hcanceled : σ.st.buffer.canceled = true → σ'.st.buffer.canceled = true)
    (hregistered : σ.registered = false → σ'.registered = false) : CanceledFetch σ' f where
  rows := h.rows
  buffer hpc := hcanceled (h.buffer hpc)
  canceled := h.canceled
  final := h.final
  erased hpc := hregistered (h.erased hpc)

section Env

variable [DecidableEq Node] {R : Request Node Row} {σ σ' : Store Node Row} {e : Event Node}
  {n : ℕ}

/-- The fetches that began after the cancellation go on as such. -/
theorem Canceled.late_step (hI : Canceled n σ) (h : R.EnvStep σ e σ') :
    ∀ f ∈ σ'.fetches.drop n, CanceledFetch σ' f := by
  have h_canceled := h.canceled_mono
  have h_registered := h.registered_mono
  have h_old : ∀ f ∈ σ.fetches.drop n, CanceledFetch σ' f :=
    fun f hf => (hI.late f hf).mono h_canceled h_registered
  have h_get : ∀ {i : ℕ} {f : Fetch Row}, σ.fetches[i]? = some f → n ≤ i → CanceledFetch σ' f :=
    fun hf hn => h_old _ (mem_drop_of_getElem? hn hf)
  -- a fetch in the middle of its reads
  have h_go : ∀ {i : ℕ} {f f' : Fetch Row}, σ.fetches[i]? = some f → f.pc ≠ .answered →
      f'.rsp.rows = f.rsp.rows → (n ≤ i → f'.pc.hasCanceled = true → f'.rsp.canceled = true) →
      (n ≤ i → f'.pc.hasFinal = true → f'.rsp.final = true) → f'.pc ≠ .answered →
      n ≤ i → CanceledFetch σ' f' := by
    intro i f f' hf hpc hrows hcanceled hfinal hpc' hn
    have h_f := h_get hf hn
    exact ⟨hrows.trans h_f.rows, fun _ => h_f.buffer hpc, hcanceled hn, hfinal hn,
      fun h => absurd h hpc'⟩
  cases h with
  | fetchBegin hreg =>
    -- the registry still holds the request, so its buffer is canceled
    have h_buffer := hI.gone.resolve_right (by simp [hreg])
    exact forall_mem_drop_concat h_old
      ⟨rfl, fun _ => h_buffer, by simp [FetchPc.hasCanceled], by simp [FetchPc.hasFinal], by simp⟩
  | fetchGone hreg =>
    exact forall_mem_drop_concat h_old
      ⟨rfl, fun hpc => absurd rfl hpc, fun _ => rfl, fun _ => rfl, fun _ => hreg⟩
  | @fetchPop i dt f hf hpc st hst want hwant =>
    refine forall_mem_drop_set h_old fun hn => ?_
    have h_buffer := (hI.late f (mem_drop_of_getElem? hn hf)).buffer (by simp [hpc])
    refine ⟨?_, fun _ => h_buffer, by simp [FetchPc.hasCanceled], by simp [FetchPc.hasFinal],
      by simp⟩
    change σ.st.buffer.q.take want = []
    rw [hI.drained h_buffer, List.take_nil]
  | fetchAccumulate hf hpc hrsp =>
    exact forall_mem_drop_set h_old (h_go hf (by simp [hpc]) (by rw [hrsp])
      (by simp [FetchPc.hasCanceled]) (by simp [FetchPc.hasFinal]) (by simp))
  | fetchServed hf hpc =>
    exact forall_mem_drop_set h_old (h_go hf (by simp [hpc]) rfl
      (by simp [FetchPc.hasCanceled]) (by simp [FetchPc.hasFinal]) (by simp))
  | fetchCounted hf hpc =>
    exact forall_mem_drop_set h_old (h_go hf (by simp [hpc]) rfl
      (by simp [FetchPc.hasCanceled]) (by simp [FetchPc.hasFinal]) (by simp))
  | fetchCanceled hf hpc =>
    exact forall_mem_drop_set h_old (h_go hf (by simp [hpc]) rfl
      (fun hn _ => (h_get hf hn).buffer (by simp [hpc])) (by simp [FetchPc.hasFinal]) (by simp))
  | fetchFinal hf hpc =>
    refine forall_mem_drop_set h_old (h_go hf (by simp [hpc]) rfl
      (fun hn _ => (h_get hf hn).canceled (by rw [hpc]; rfl)) (fun hn _ => ?_) (by simp))
    -- a canceled buffer is final
    have h_buffer := (hI.late _ (mem_drop_of_getElem? hn hf)).buffer (by simp [hpc])
    change σ.st.buffer.isFinal = true
    rw [ChunkBuffer.isFinal, if_pos h_buffer]
  | fetchPut hf hpc _ _ _ =>
    exact forall_mem_drop_set h_old (h_go hf (by simp [hpc]) rfl
      (fun hn _ => (h_get hf hn).canceled (by rw [hpc]; rfl))
      (fun hn _ => (h_get hf hn).final (by rw [hpc]; rfl)) (by simp))
  | fetchNoPut hf hpc _ _ =>
    exact forall_mem_drop_set h_old (h_go hf (by simp [hpc]) rfl
      (fun hn _ => (h_get hf hn).canceled (by rw [hpc]; rfl))
      (fun hn _ => (h_get hf hn).final (by rw [hpc]; rfl)) (by simp))
  | @fetchMore i dt f hf hpc hmore =>
    refine forall_mem_drop_set h_old fun hn => ?_
    have h_final := (h_get hf hn).final (by rw [hpc]; rfl)
    exact absurd h_final (by simp [hmore])
  | @fetchErase i dt f hf hpc =>
    refine forall_mem_drop_set h_old fun hn => ?_
    have h_f := h_get hf hn
    exact ⟨h_f.rows, fun h => absurd rfl h, fun _ => h_f.canceled (by rw [hpc]; rfl),
      fun _ => h_f.final (by rw [hpc]; rfl), fun _ => rfl⟩
  | _ => exact h_old

end Env

section Step

variable [DecidableEq Node] {R : Request Node Row} {s s' : State Node Row} {l : Label Node}

/-- **Every action keeps what the client sees of its cancellation.** -/
theorem Canceled.step {n : ℕ} (hI : Canceled n s.store) (h : R.cascade.Step s l s') :
    Canceled n s'.store := by
  have h_drained := drained_step hI.drained h
  -- `SubmitQuery` marks producers as done, which no fetch looks at any more
  have h_settle : ∀ (v : Node) (m : Task Node) (nb : Node) (ack : Option (ForwardQueryAck Node)),
      (s.store.st.buffer.canceled = true →
        (settle s.store v m nb ack).st.buffer.canceled = true) := by
    intro v m nb ack hcanceled
    rw [settle_st]
    exact hcanceled
  cases h with
  | @collect i id c d todo r hc hpc hd hr =>
    exact ⟨hI.gone.imp_left (h_settle c.dst c.msg d.dst (some r)), h_drained, fun f hf =>
      (hI.late f hf).mono (h_settle c.dst c.msg d.dst (some r)) fun h => h⟩
  | @expire i id c d todo hc hpc hd =>
    exact ⟨hI.gone.imp_left (h_settle c.dst c.msg d.dst none), h_drained, fun f hf =>
      (hI.late f hf).mono (h_settle c.dst c.msg d.dst none) fun h => h⟩
  | env he =>
    have he := env_cases he
    exact ⟨hI.gone.imp he.canceled_mono he.registered_mono, h_drained, hI.late_step he⟩
  | _ => exact ⟨hI.gone, h_drained, fun f hf => (hI.late f hf).mono (fun h => h) fun h => h⟩

/-! ### A fetch comes to its answer -/

omit [DecidableEq Node] in
/-- The next action of a fetch is enabled, whatever the state of the request. -/
theorem fetch_enabled {σ : Store Node Row} {i : ℕ} {f : Fetch Row}
    (hf : σ.fetches[i]? = some f) (hpc : f.pc ≠ .answered) (dt : ℚ) :
    ∃ σ' f', fetch σ i dt = some σ' ∧ σ'.fetches[i]? = some f' ∧ f'.pc.left < f.pc.left := by
  -- a fetch is where it has been put
  have h_set : ∀ {σ' : Store Node Row} {f' : Fetch Row}, σ'.fetches = σ.fetches →
      (σ'.setFetch i f').fetches[i]? = some f' := by
    intro σ' f' heq
    change (σ'.fetches.set i f')[i]? = some f'
    rw [heq]
    exact List.getElem?_set_self (List.getElem?_eq_some_iff.mp hf).1
  unfold fetch
  rw [hf]
  dsimp only
  cases h : f.pc with
  | found => exact ⟨_, _, rfl, h_set rfl, by simp [FetchPc.left]⟩
  | popped => exact ⟨_, _, rfl, h_set rfl, by simp [FetchPc.left]⟩
  | accumulated => exact ⟨_, _, rfl, h_set rfl, by simp [FetchPc.left]⟩
  | served => exact ⟨_, _, rfl, h_set rfl, by simp [FetchPc.left]⟩
  | counted => exact ⟨_, _, rfl, h_set rfl, by simp [FetchPc.left]⟩
  | canceledRead => exact ⟨_, _, rfl, h_set rfl, by simp [FetchPc.left]⟩
  | finalRead =>
    dsimp only
    split
    · split
      · exact ⟨_, _, rfl, h_set rfl, by simp [FetchPc.left]⟩
      · exact ⟨_, _, rfl, h_set rfl, by simp [FetchPc.left]⟩
    · exact ⟨_, _, rfl, h_set rfl, by simp [FetchPc.left]⟩
  | closing => exact ⟨_, _, rfl, h_set rfl, by simp [FetchPc.left]⟩
  | answered => exact absurd h hpc

/-- A fetch that is left to itself is answered. -/
theorem exists_run_answered (R : Request Node Row) {i : ℕ} {f : Fetch Row}
    (hf : s.store.fetches[i]? = some f) :
    ∃ ls s', (∀ l ∈ ls, ∃ dt, l = .env (.fetch i dt)) ∧
      R.machine.Run (fun _ _ => True) s ls s' ∧
      ∃ f', s'.store.fetches[i]? = some f' ∧ f'.pc = .answered := by
  -- by induction on the actions that the fetch has left
  induction hk : f.pc.left using Nat.strong_induction_on generalizing s f with
  | _ k ih =>
    by_cases hpc : f.pc = .answered
    · exact ⟨[], s, fun l hl => absurd hl List.not_mem_nil, .nil s, f, hf, hpc⟩
    · obtain ⟨σ, f', hσ, hf', h_left⟩ := fetch_enabled hf hpc 0
      obtain ⟨ls, s', h_ls, hrun, h_answered⟩ :=
        ih f'.pc.left (hk ▸ h_left) (s := { s with store := σ }) hf' rfl
      refine ⟨.env (.fetch i 0) :: ls, s', ?_, .cons trivial ?_ hrun, h_answered⟩
      · intro l hl
        rcases List.mem_cons.mp hl with rfl | hl
        · exact ⟨0, rfl⟩
        · exact h_ls l hl
      · exact Cascade.step_iff.mpr (.env hσ)

end Step

end Request

/-! ### The portal after a cancellation -/

namespace Cluster

variable {Node : Type*} [DecidableEq Node] {C : Cluster Node} {s s₁ s₂ : PortalState Node} {k : ℕ}

/-- The portal's part of a `CancelQuery` for request `k` is over with this action: it has
canceled the buffer, or found that the registry does not hold the request. -/
def CancelReturns (s : PortalState Node) (k : ℕ) : Request.Label Node → Prop
  | .env .cancelFound => True
  | .env .cancelQuery => ∀ a ∈ s.requests[k]?, a.state.store.registered = false
  | _ => False

/-- A canceled buffer is empty, in every state of the portal. -/
theorem drained_reachable {P : PortalState Node → PortalLabel Node → Prop}
    (h : C.machine.Reachable P s) : ∀ a ∈ s.requests,
      a.state.store.st.buffer.canceled = true → a.state.store.st.buffer.q = [] := by
  refine forall_requests (fun _ s => s.store.st.buffer.canceled = true → s.store.st.buffer.q = [])
    (fun spec hcanceled => ?_) (fun spec rows hcanceled => ?_)
    (fun _ _ _ _ hI hstep => Request.drained_step hI hstep) h
  · rw [Request.start_live] at hcanceled
    exact absurd hcanceled (by simp)
  · -- a request that is answered from the cache starts with its buffer live
    change ((ChunkBuffer.create _ _ : ChunkBuffer Node Row311).markProducerStarted
      _ |>.pushRows rows).1.canceled = true at hcanceled
    rw [ChunkBuffer.pushRows_fst_canceled] at hcanceled
    exact absurd hcanceled (by simp [ChunkBuffer.create, ChunkBuffer.markProducerStarted])

/-- Once the portal's part of `CancelQuery` is over, the request is canceled or gone. -/
theorem canceled_of_returns {l : Request.Label Node} (h : C.machine.Reachable (fun _ _ => True) s)
    (hreturns : CancelReturns s k l) (hstep : C.machine.step s (.request k l) = some s₁) :
    ∃ a, s₁.requests[k]? = some a ∧
      Request.Canceled a.state.store.fetches.length a.state.store := by
  have hstep : C.PortalStep s (.request k l) s₁ := step_cases hstep
  cases hstep with
  | @act _ _ a state ha hst =>
    have h_lt : k < s.requests.length := (List.getElem?_eq_some_iff.mp ha).1
    have h_drained := Request.drained_step (drained_reachable h a (List.mem_of_getElem? ha)) hst
    refine ⟨⟨a.spec, state⟩, List.getElem?_set_self h_lt, ?_, h_drained, fun f hf => ?_⟩
    · cases hst with
      | env he =>
        cases Request.env_cases he with
        | cancelFound _ => exact Or.inl rfl
        | cancelQuery hreg => exact absurd (hreturns a ha) (by simp [hreg])
        | cancelGone hreg => exact Or.inr hreg
        | _ => exact absurd hreturns (by simp [CancelReturns])
      | _ => exact absurd hreturns (by simp [CancelReturns])
    · -- no fetch has begun after this action yet
      rw [List.drop_length] at hf
      exact absurd hf List.not_mem_nil

/-- A run of one request is a run of the portal. -/
theorem exists_run_request {spec : QuerySpec} {ls : List (Request.Label Node)}
    {start state : Request.State Node Row311} (ha : s.requests[k]? = some ⟨spec, start⟩)
    (h : (C.request spec).machine.Run (fun _ _ => True) start ls state) :
    ∃ s', C.machine.Run (fun _ _ => True) s (ls.map (.request k)) s' ∧
      s'.requests[k]? = some ⟨spec, state⟩ := by
  induction h generalizing s with
  | nil state => exact ⟨s, .nil s, ha⟩
  | @cons state state' u l ls _ hstep _ ih =>
    have h_lt : k < s.requests.length := (List.getElem?_eq_some_iff.mp ha).1
    have hstep : (C.request spec).cascade.step state l = some state' := hstep
    -- the portal takes the step of the request
    have h_act : ∃ s', C.machine.step s (.request k l) = some s' ∧
        s'.requests[k]? = some ⟨spec, state'⟩ := by
      change ∃ s', C.act s k l = some s' ∧ _
      unfold Cluster.act
      rw [ha]
      dsimp only
      rw [hstep]
      exact ⟨_, rfl, List.getElem?_set_self h_lt⟩
    obtain ⟨s', h_step, h_get⟩ := h_act
    obtain ⟨t, h_run, h_t⟩ := ih h_get
    exact ⟨t, .cons trivial h_step h_run, h_t⟩

/-- **A cancellation takes effect for the client.** In every run of the portal, once its
part of a `CancelQuery` for request `k` is over, every fetch of `k` that begins from then
on and is answered has returned no rows, with both flags on, and the registry no longer
holds the request; and every such fetch can be answered by its own actions. -/
theorem cancel_effective (C : Cluster Node) {l : Request.Label Node}
    {ls : List (PortalLabel Node)} (h : C.machine.Reachable (fun _ _ => True) s)
    (hreturns : CancelReturns s k l) (hstep : C.machine.step s (.request k l) = some s₁)
    (hrun : C.machine.Run (fun _ _ => True) s₁ ls s₂) :
    ∃ a₁ a₂, s₁.requests[k]? = some a₁ ∧ s₂.requests[k]? = some a₂ ∧
      ∀ i f, a₁.state.store.fetches.length ≤ i → a₂.state.store.fetches[i]? = some f →
        (f.pc = .answered → f.rsp.rows = [] ∧ f.rsp.final = true ∧ f.rsp.canceled = true ∧
          a₂.state.store.registered = false) ∧
        ∃ ls' s₃ a₃ f₃, (∀ l ∈ ls', ∃ dt, l = .request k (.env (.fetch i dt))) ∧
          C.machine.Run (fun _ _ => True) s₂ ls' s₃ ∧ s₃.requests[k]? = some a₃ ∧
          a₃.state.store.fetches[i]? = some f₃ ∧ f₃.pc = .answered := by
  -- what the cancellation leaves behind holds on, whatever the portal does next
  obtain ⟨a₁, ha₁, h_canceled⟩ := canceled_of_returns h hreturns hstep
  obtain ⟨state, ha₂, h_late⟩ := run_request
    (fun s => Request.Canceled a₁.state.store.fetches.length s.store)
    (fun _ _ _ hI hst => hI.step hst) hrun ha₁ h_canceled
  refine ⟨a₁, _, ha₁, ha₂, fun i f hi hf => ⟨fun hpc => ?_, ?_⟩⟩
  · have h_f := h_late.late f (mem_drop_of_getElem? hi hf)
    exact ⟨h_f.rows, h_f.final (by rw [hpc]; rfl), h_f.canceled (by rw [hpc]; rfl), h_f.erased hpc⟩
  · -- the fetch goes on by itself, and the portal takes its actions
    obtain ⟨ls', state', h_ls, h_run, f₃, hf₃, hpc⟩ :=
      Request.exists_run_answered (C.request a₁.spec) hf
    obtain ⟨s₃, h_run', ha₃⟩ := exists_run_request ha₂ h_run
    refine ⟨_, s₃, _, f₃, fun l hl => ?_, h_run', ha₃, hf₃, hpc⟩
    obtain ⟨l', hl', rfl⟩ := List.mem_map.mp hl
    obtain ⟨dt, rfl⟩ := h_ls l' hl'
    exact ⟨dt, rfl⟩

/-- `b` sends its rows, the client cancels, and its next fetch returns none of them. -/
theorem cancel_effective_near : ∃ (s₂ : PortalState Overlay.Id3) (a : Active Overlay.Id3)
    (f : Fetch Row311), s₂.requests[0]? = some a ∧
    a.state.store.log ≠ [] ∧ f ∈ a.state.store.fetches ∧
    f.pc = .answered ∧ f.rsp.rows = [] ∧ f.rsp.final = true ∧ f.rsp.canceled = true ∧
    a.state.store.registered = false := by
  obtain ⟨s, hs, s₁, h_step, h_none, s₂, h_exec, h_late⟩ :=
    Machine.exists_run_of_exec (M := near.machine) (P := fun _ _ => True) (s := near.machine.init)
    (l := firstRequest (Request.pushTwoRows ++ [.env .cancelQuery]))
    (Φ := fun s => ∃ s₁ ∈ near.machine.step s (.request 0 (.env .cancelFound)),
      (∀ a ∈ s₁.requests[0]?, a.state.store.fetches.length ≤ 0) ∧
      ∃ s₂ ∈ near.machine.exec (fun _ _ => True) s₁ (Request.fetchOnce.map (.request 0)),
        ∀ a ∈ s₂.requests[0]?, ∃ f ∈ a.state.store.fetches[0]?,
          f.pc = .answered ∧ a.state.store.log ≠ [])
    (by decide +kernel)
  obtain ⟨a₁, a₂, ha₁, ha₂, h_fetches⟩ := cancel_effective near (k := 0) (l := .env .cancelFound)
    ⟨_, hs⟩ trivial h_step (Machine.exec_iff.mp h_exec)
  obtain ⟨f, hf, hpc, h_log⟩ := h_late a₂ ha₂
  obtain ⟨h_rows, h_final, h_canceled, h_erased⟩ := (h_fetches 0 f (h_none a₁ ha₁) hf).1 hpc
  exact ⟨s₂, a₂, f, ha₂, h_log, List.mem_of_getElem? hf, hpc, h_rows, h_final, h_canceled, h_erased⟩

end Cluster
end Mini2
