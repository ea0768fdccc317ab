import Mini2.Node.Client
import Mini2.Node.Quiescence
import Mini2.Portal.Pacing

/-!
# The client comes to its end

A client does not wait for ever. Where only dead nodes fail, the request comes to rest, and then
every producer has been marked as done. From then on a fetch takes rows out of the buffer
(`Progress.step`), or it finds the buffer empty and its response is final. So a client that goes
on fetching is done after finitely many fetches (`client_finishes`).
-/

namespace Mini2

open Framework

variable {Node Row : Type*}

namespace Request

/-! ### What does not change -/

section Kept

variable [DecidableEq Node] {R : Request Node Row} {σ σ' : Store Node Row} {e : Event Node}
  {s s' : State Node Row} {l : Label Node}

omit [DecidableEq Node] in
theorem accumulate_limits (st : RequestState Node Row) (rows : List Row) :
    (st.accumulate rows).minChunk = st.minChunk ∧ (st.accumulate rows).maxChunk = st.maxChunk := by
  unfold RequestState.accumulate
  split
  · split
    · exact ⟨rfl, rfl⟩
    · exact ⟨rfl, rfl⟩
  · exact ⟨rfl, rfl⟩

/-- The limits of chunk sizes never change. -/
theorem EnvStep.limits_eq (h : R.EnvStep σ e σ') :
    σ'.st.minChunk = σ.st.minChunk ∧ σ'.st.maxChunk = σ.st.maxChunk := by
  cases h with
  | @workMark k w c todo _ _ _ =>
    have h_st := markDoneIf_st (σ := σ) c w.node
    exact ⟨congrArg (fun st => st.minChunk) h_st, congrArg (fun st => st.maxChunk) h_st⟩
  | @pushMark i took p _ _ =>
    have h_st := markDoneIf_st (σ := σ) p.call p.producer
    exact ⟨congrArg (fun st => st.minChunk) h_st, congrArg (fun st => st.maxChunk) h_st⟩
  | fetchPop _ _ hst _ =>
    subst hst
    exact ⟨rfl, rfl⟩
  | fetchAccumulate _ _ _ => exact accumulate_limits _ _
  | _ => exact ⟨rfl, rfl⟩

theorem step_limits (h : R.cascade.Step s l s') :
    s'.store.st.minChunk = s.store.st.minChunk ∧ s'.store.st.maxChunk = s.store.st.maxChunk := by
  cases h with
  | @collect i id c d todo r hc hpc hd hr =>
    have h_st := settle_st (σ := s.store) c.dst c.msg d.dst (some r)
    exact ⟨congrArg (fun st => st.minChunk) h_st, congrArg (fun st => st.maxChunk) h_st⟩
  | @expire i id c d todo hc hpc hd =>
    have h_st := settle_st (σ := s.store) c.dst c.msg d.dst none
    exact ⟨congrArg (fun st => st.minChunk) h_st, congrArg (fun st => st.maxChunk) h_st⟩
  | env he => exact (env_cases he).limits_eq
  | _ => exact ⟨rfl, rfl⟩

/-- The first call is the one that the client waits for. -/
def Submits (s : State Node Row) : Prop :=
  ∃ c, s.calls[0]? = some c ∧ c.msg = .submitQuery

theorem Submits.step (hI : Submits s) (h : R.cascade.Step s l s') : Submits s' := by
  obtain ⟨d, hd, hm⟩ := hI
  rcases h.calls_cases with ⟨-, heq⟩ | ⟨i, c, pc, new, hc, -, heq⟩
  · exact ⟨d, by rw [heq]; exact hd, hm⟩
  · obtain ⟨d', hd', -, hm', -⟩ := Cascade.exists_moved_get pc new hc hd
    exact ⟨d', by rw [heq]; exact hd', hm'.trans hm⟩

end Kept

/-! ### Fetches from a buffer that no one fills -/

/-- Every producer is done, and a fetch asks for a row at least. -/
structure Draining (st : RequestState Node Row) : Prop where
  live : st.buffer.canceled = false
  done : st.buffer.expectedProducers ≤ st.buffer.done.card
  minChunk : st.minChunk ≠ 0
  maxChunk : st.maxChunk ≠ 0

/-- There were `n` rows before the fetch. Once it has popped, there are fewer, or none; once it
has looked for the end, there are fewer, or it has found it. -/
structure Progress (n : ℕ) (st : RequestState Node Row) (f : Fetch Row) : Prop where
  le : st.buffer.q.length ≤ n
  popped : f.pc ≠ .found → st.buffer.q.length < n ∨ st.buffer.q = []
  read : f.pc.left ≤ 2 → st.buffer.q.length < n ∨ f.rsp.final = true

section Fetches

variable {st : RequestState Node Row} {n : ℕ} {f : Fetch Row}

/-- Where only the content of the queue, the pace and what is collected change. -/
theorem Draining.congr (h : Draining st) {st' : RequestState Node Row}
    (hlive : st'.buffer.canceled = st.buffer.canceled)
    (hexpected : st'.buffer.expectedProducers = st.buffer.expectedProducers)
    (hdone : st'.buffer.done = st.buffer.done) (hmin : st'.minChunk = st.minChunk)
    (hmax : st'.maxChunk = st.maxChunk) : Draining st' :=
  ⟨hlive.trans h.live, by rw [hexpected, hdone]; exact h.done, hmin ▸ h.minChunk,
    hmax ▸ h.maxChunk⟩

theorem Draining.recordFetch (h : Draining st) (dt : ℚ) (maxRows : ℕ) :
    Draining ((st.recordFetch dt).withBuffer (st.buffer.popUpTo maxRows).1) :=
  h.congr rfl rfl rfl rfl rfl

theorem Draining.accumulate (h : Draining st) (rows : List Row) :
    Draining (st.accumulate rows) := by
  obtain ⟨h_min, h_max⟩ := accumulate_limits st rows
  have h_buffer := st.accumulate_buffer rows
  exact h.congr (by rw [h_buffer]) (by rw [h_buffer]) (by rw [h_buffer]) h_min h_max

/-- **A pop makes the queue shorter**, or finds it empty. -/
theorem Draining.pop (h : Draining st) (hle : st.buffer.q.length ≤ n) (dt : ℚ) (maxRows : UInt32) :
    (st.buffer.q.drop ((st.recordFetch dt).want maxRows).toNat).length < n ∨
      st.buffer.q.drop ((st.recordFetch dt).want maxRows).toNat = [] := by
  have h_size : (st.recordFetch dt).suggestedChunk ≠ 0 :=
    st.recordFetch_suggestedChunk dt h.minChunk h.maxChunk
  have h_some : maxRows ≠ 0 ∨ (st.recordFetch dt).suggestedChunk ≠ 0 := Or.inr h_size
  have h_want : ((st.recordFetch dt).want maxRows).toNat ≠ 0 := fun h_zero =>
    (st.recordFetch dt).want_ne_zero h_some h.maxChunk (UInt32.toNat_inj.mp h_zero)
  by_cases h_q : st.buffer.q = []
  · exact Or.inr (by rw [h_q, List.drop_nil])
  · have h_pos := List.length_pos_iff.mpr h_q
    exact Or.inl (by rw [List.length_drop]; omega)

/-- **A fetch goes on**, and makes progress. -/
theorem Progress.step {σ : Store Node Row} {i : ℕ} (h : Progress n σ.st f) (hσ : Draining σ.st)
    (hf : σ.fetches[i]? = some f) (hbusy : f.pc ≠ .answered) (dt : ℚ) :
    ∃ σ' f', fetch σ i dt = some σ' ∧ σ'.fetches = σ.fetches.set i f' ∧ Draining σ'.st ∧
      Progress n σ'.st f' ∧ f'.pc.left < f.pc.left := by
  obtain ⟨h_le, h_popped, h_read⟩ := h
  obtain ⟨maxRows, rsp, pc⟩ := f
  unfold fetch
  rw [hf]
  cases pc with
  | found =>
    -- the pop takes rows, if there are any
    refine ⟨_, _, rfl, rfl, hσ.recordFetch dt _, ⟨?_, fun _ => hσ.pop h_le dt maxRows, ?_⟩,
      Nat.lt_succ_self 7⟩
    · show (σ.st.buffer.q.drop _).length ≤ n
      rw [List.length_drop]
      omega
    · intro h_left
      exact absurd h_left (by simp [FetchPc.left])
  | popped =>
    -- from here on the queue does not change
    have h_buffer := σ.st.accumulate_buffer rsp.rows
    refine ⟨_, _, rfl, rfl, hσ.accumulate rsp.rows, ⟨?_, ?_, ?_⟩, Nat.lt_succ_self 6⟩
    · show (σ.st.accumulate rsp.rows).buffer.q.length ≤ n
      rw [h_buffer]
      exact h_le
    · intro _
      show (σ.st.accumulate rsp.rows).buffer.q.length < n ∨
        (σ.st.accumulate rsp.rows).buffer.q = []
      rw [h_buffer]
      exact h_popped (by simp)
    · intro h_left
      exact absurd h_left (by simp [FetchPc.left])
  | accumulated =>
    exact ⟨_, _, rfl, rfl, hσ, ⟨h_le, fun _ => h_popped (by simp),
      fun h_left => absurd h_left (by simp [FetchPc.left])⟩, Nat.lt_succ_self 5⟩
  | served =>
    exact ⟨_, _, rfl, rfl, hσ, ⟨h_le, fun _ => h_popped (by simp),
      fun h_left => absurd h_left (by simp [FetchPc.left])⟩, Nat.lt_succ_self 4⟩
  | counted =>
    exact ⟨_, _, rfl, rfl, hσ, ⟨h_le, fun _ => h_popped (by simp),
      fun h_left => absurd h_left (by simp [FetchPc.left])⟩, Nat.lt_succ_self 3⟩
  | canceledRead =>
    refine ⟨_, _, rfl, rfl, hσ, ⟨h_le, fun _ => h_popped (by simp), ?_⟩, Nat.lt_succ_self 2⟩
    intro _
    -- an empty queue is the end
    rcases h_popped (by simp) with h_lt | h_nil
    · exact Or.inl h_lt
    · exact Or.inr ((σ.st.buffer.isFinal_iff hσ.live).mpr ⟨h_nil, hσ.done⟩)
  | finalRead =>
    -- what has been read of the end stays
    have h_read := h_read le_rfl
    dsimp only
    split
    · split
      · exact ⟨_, _, rfl, rfl, hσ.congr rfl rfl rfl rfl rfl,
          ⟨h_le, fun _ => h_popped (by simp), fun _ => h_read⟩, Nat.lt_succ_self 1⟩
      · exact ⟨_, _, rfl, rfl, hσ, ⟨h_le, fun _ => h_popped (by simp), fun _ => h_read⟩,
          Nat.lt_succ_self 1⟩
    · exact ⟨_, _, rfl, rfl, hσ, ⟨h_le, fun _ => h_popped (by simp), fun _ => h_read⟩,
        Nat.zero_lt_two⟩
  | closing =>
    exact ⟨_, _, rfl, rfl, hσ, ⟨h_le, fun _ => h_popped (by simp),
      fun _ => h_read (by simp [FetchPc.left])⟩, Nat.zero_lt_one⟩
  | answered => exact absurd rfl hbusy

end Fetches

/-! ### Runs with the client -/

/-- Only dead nodes fail, and no call or signal disturbs the client. -/
def Steady (dead : Node → Prop) (s : ClientState Node Row) : ClientLabel Node → Prop
  | .request l => OnlyUnreachable dead s.request l
  | .rpcFails => False
  | .sigint => False
  | _ => True

theorem Steady.serving {dead : Node → Prop} {s : ClientState Node Row} {l : ClientLabel Node}
    (h : Steady dead s l) : Serving (OnlyUnreachable dead) s l := by
  cases l with
  | request l => exact fun _ => h
  | _ => trivial

section Runs

variable [DecidableEq Node] {R : Request Node Row} {dead : Node → Prop}

/-- The client can be done. -/
def Finishes (R : Request Node Row) (dead : Node → Prop) (s : ClientState Node Row) : Prop :=
  ∃ ls u, R.clientMachine.Run (Steady dead) s ls u ∧ u.client.pc = .done

theorem Finishes.of_run {s t : ClientState Node Row} {ls : List (ClientLabel Node)}
    (hrun : R.clientMachine.Run (Steady dead) s ls t) (h : R.Finishes dead t) :
    R.Finishes dead s := by
  obtain ⟨ls', u, hrun', hdone⟩ := h
  exact ⟨ls ++ ls', u, hrun.append hrun', hdone⟩

theorem Finishes.of_step {s t : ClientState Node Row} {l : ClientLabel Node}
    (hstep : R.ClientStep s l t) (hl : Steady dead s l) (h : R.Finishes dead t) :
    R.Finishes dead s :=
  .of_run (.cons hl (clientStep_iff.mpr hstep) (.nil t)) h

/-- What the request does, it does next to the client. -/
theorem run_beside (c : Client Row) {r u : State Node Row} {ls : List (Label Node)}
    (h : R.machine.Run (OnlyUnreachable dead) r ls u) (hcall : ∀ l ∈ ls, clientCall l = false) :
    R.clientMachine.Run (Steady dead) ⟨r, c⟩ (ls.map .request) ⟨u, c⟩ := by
  induction h with
  | nil r => exact .nil _
  | @cons r t u l ls hl hstep _ ih =>
    obtain ⟨h_first, h_rest⟩ := List.forall_mem_cons.mp hcall
    have h_step : R.ClientStep ⟨r, c⟩ (.request l) ⟨t, c⟩ :=
      .request h_first (Cascade.step_iff.mp hstep)
    exact .cons hl (clientStep_iff.mpr h_step) (ih h_rest)

/-- **A fetch is answered**, by its own actions. -/
theorem Progress.answered (R : Request Node Row) (dead : Node → Prop)
    (calls : List (Cascade.Call Node (Task Node) (ForwardQueryAck Node))) {σ : Store Node Row}
    {n i : ℕ} {f : Fetch Row} (h : Progress n σ.st f) (hσ : Draining σ.st)
    (hf : σ.fetches[i]? = some f) :
    ∃ ls σ' f', R.machine.Run (OnlyUnreachable dead) ⟨calls, σ⟩ ls ⟨calls, σ'⟩ ∧
      (∀ l ∈ ls, clientCall l = false) ∧ σ'.fetches[i]? = some f' ∧ f'.pc = .answered ∧
      Draining σ'.st ∧ Progress n σ'.st f' := by
  -- by induction on the actions that the fetch has left
  induction hk : f.pc.left using Nat.strongRecOn generalizing σ f with
  | _ k ih =>
    by_cases hpc : f.pc = .answered
    · exact ⟨[], σ, f, .nil _, fun _ h => absurd h List.not_mem_nil, hf, hpc, hσ, h⟩
    · obtain ⟨σ₁, f₁, h_fetch, h_set, hσ₁, h₁, h_left⟩ := h.step hσ hf hpc 100
      -- it is still the fetch that the client waits for
      have hf₁ : σ₁.fetches[i]? = some f₁ := by
        rw [h_set]
        exact List.getElem?_set_self (List.getElem?_eq_some_iff.mp hf).1
      obtain ⟨ls, σ', f', hrun, hcall, hf', hpc', hσ', h'⟩ := ih _ (hk ▸ h_left) h₁ hσ₁ hf₁ rfl
      have h_step : R.cascade.Step ⟨calls, σ⟩ (.env (.fetch i 100)) ⟨calls, σ₁⟩ := .env h_fetch
      exact ⟨.env (.fetch i 100) :: ls, σ', f', .cons rfl (Cascade.step_iff.mpr h_step) hrun,
        List.forall_mem_cons.mpr ⟨rfl, hcall⟩, hf', hpc', hσ', h'⟩

/-- The client receives the response, and goes on from there. -/
theorem finishes_fetching {n i : ℕ} {s : ClientState Node Row} {f : Fetch Row}
    (hlater : ∀ t : ClientState Node Row, t.client.pc = .looping → t.client.interrupted = false →
      Draining t.request.store.st → t.request.store.st.buffer.q.length < n → R.Finishes dead t)
    (hpc : s.client.pc = .fetching i) (hint : s.client.interrupted = false)
    (hσ : Draining s.request.store.st) (hf : s.request.store.fetches[i]? = some f)
    (h : Progress n s.request.store.st f) : R.Finishes dead s := by
  obtain ⟨⟨calls, σ⟩, c⟩ := s
  obtain ⟨ls, σ', f', hrun, hcall, hf', hanswered, hσ', h'⟩ := h.answered R dead calls hσ hf
  refine .of_run (run_beside c hrun hcall) (.of_step (.receive hpc hf' hanswered) trivial ?_)
  by_cases hfinal : f'.rsp.final = true
  · exact ⟨[], _, .nil _, if_pos hfinal⟩
  · -- there are fewer rows before the next fetch
    have h_less := (h'.read (by rw [hanswered]; exact Nat.zero_le 2)).resolve_right hfinal
    exact hlater _ (if_neg hfinal) hint hσ' h_less

/-- **A client that goes on fetching is done after finitely many fetches.** -/
theorem finishes_looping {s : ClientState Node Row} (hpc : s.client.pc = .looping)
    (hint : s.client.interrupted = false) (hσ : Draining s.request.store.st) :
    R.Finishes dead s := by
  induction hn : s.request.store.st.buffer.q.length using Nat.strongRecOn generalizing s with
  | _ n ih =>
    refine .of_step (.fetch hpc hint) trivial ?_
    let σ := s.request.store
    by_cases hreg : σ.registered = true
    · have h_begin : fetchBegin σ s.client.want = { σ with
          fetches := σ.fetches ++ [⟨s.client.want, ⟨[], 0, 0, 0, false, false⟩, .found⟩] } :=
        if_pos hreg
      rw [h_begin]
      refine finishes_fetching (n := n) (fun t h_pc h_int h_σ h_lt => ?_) rfl hint hσ
        List.getElem?_concat_length ⟨hn.le, fun h => absurd rfl h, fun h => ?_⟩
      · exact ih _ h_lt h_pc h_int h_σ rfl
      · exact absurd h (by simp [FetchPc.left])
    · -- the portal has forgotten the request, and says so
      have h_begin : fetchBegin σ s.client.want = { σ with
          fetches := σ.fetches ++ [⟨s.client.want, ⟨[], 0, 0, 0, true, true⟩, .answered⟩] } :=
        if_neg hreg
      rw [h_begin]
      exact .of_step (.receive rfl List.getElem?_concat_length rfl) trivial ⟨[], _, .nil _, rfl⟩

/-! ### Every client comes to its end -/

/-- What the end of a client rests on, besides the request's coming to rest. -/
structure AnswersInv (R : Request Node Row) (s : State Node Row) : Prop where
  submits : Submits s
  accepts : Accepts s
  minChunk : s.store.st.minChunk = R.params.minChunkRows
  maxChunk : s.store.st.maxChunk = R.params.maxChunkRows

theorem AnswersInv.reachable {P : State Node Row → Label Node → Prop} {s : State Node Row}
    (h : R.machine.Reachable P s) : R.AnswersInv s := by
  refine h.invariant R.AnswersInv ⟨⟨_, rfl, rfl⟩, ?_, rfl, rfl⟩ fun s l s' hI _ hstep => ?_
  · intro c hc r hr
    obtain rfl := List.mem_singleton.mp hc
    exact absurd hr (by simp)
  · have hstep := Cascade.step_iff.mp hstep
    obtain ⟨h_min, h_max⟩ := step_limits hstep
    exact ⟨hI.submits.step hstep, hI.accepts.step hstep, h_min.trans hI.minChunk,
      h_max.trans hI.maxChunk⟩

/-- At rest, `SubmitQuery` has been answered, and the buffer only waits to be drained. -/
theorem Rests.draining {s : State Node Row} (hrest : Rests dead s) (hS : R.SettledInv dead s)
    (hA : R.AnswersInv s) (hself : R.overlay.selfRoute ∉ R.overlay.nodes)
    (hjoined : ∀ n ∈ R.overlay.nodes, R.LivePath dead n ∨ n ∈ R.overlay.nbrs R.overlay.portal)
    (hmin : R.params.minChunkRows ≠ 0) (hmax : R.params.maxChunkRows ≠ 0) :
    Draining s.store.st ∧
      ∃ c sack, s.calls[0]? = some c ∧ c.pc = .returned sack ∧ sack.accepted = true := by
  refine ⟨⟨hS.live, ?_, hA.minChunk ▸ hmin, hA.maxChunk ▸ hmax⟩, ?_⟩
  · -- no producer is pending once all nodes are at rest
    have h_pending := hS.pendingProducers_eq hself hrest hjoined
    unfold ChunkBuffer.pendingProducers at h_pending
    split at h_pending
    · assumption
    · omega
  · obtain ⟨c, hc, hm⟩ := hA.submits
    have h_mem := List.mem_of_getElem? hc
    obtain ⟨sack, hsack⟩ := hrest.calls.returned h_mem ((hS.flood.calls c h_mem).root hm)
    exact ⟨c, sack, hc, hsack, hA.accepts c h_mem sack hsack⟩

/-- **Every client comes to its end.** Let only dead nodes fail, and every node be joined to the
portal by live nodes or asked by the portal itself, and let the limits of the chunk sizes not be
zero. From every state of a run in which the client has met with no failure or signal, servers
and client can go on until the client is done, without another failure. -/
theorem client_finishes (R : Request Node Row) (dead : Node → Prop)
    (hself : R.overlay.selfRoute ∉ R.overlay.nodes)
    (hjoined : ∀ n ∈ R.overlay.nodes, R.LivePath dead n ∨ n ∈ R.overlay.nbrs R.overlay.portal)
    (hmin : R.params.minChunkRows ≠ 0) (hmax : R.params.maxChunkRows ≠ 0)
    {s : ClientState Node Row}
    (h : R.clientMachine.Reachable (Serving (OnlyUnreachable dead)) s)
    (hint : s.client.interrupted = false) (hpc : s.client.pc ≠ .failed) :
    ∃ ls u, R.clientMachine.Run (Steady dead) s ls u ∧ u.client.pc = .done := by
  have h_projects : ∀ {s : ClientState Node Row},
      R.clientMachine.Reachable (Serving (OnlyUnreachable dead)) s →
      ∃ u old new, R.machine.Reachable (OnlyUnreachable dead) u ∧
        (s.client.pc.stopped = false → u = s.request) ∧
          Receiving u.store.fetches s.client old new :=
    client_projects (fun _ _ _ h => h) fun _ _ _ => rfl
  obtain ⟨r, old, new, h_reach, h_eq, h_recv⟩ := h_projects h
  have h_going : s.client.pc.stopped = false := by
    refine Bool.eq_false_iff.mpr fun h_stopped => ?_
    exact absurd (h_recv.interrupted h_stopped) (by simp [hint])
  obtain rfl := h_eq h_going
  -- the request comes to rest while the client waits
  obtain ⟨ls₀, hrun₀⟩ := h_reach
  obtain ⟨ls, u, hrun, hworking, -, hrest⟩ := comes_to_rest R dead ⟨ls₀, hrun₀⟩
  have h_reach' : R.machine.Reachable (OnlyUnreachable dead) u := ⟨_, hrun₀.append hrun⟩
  have h_calls : ∀ l ∈ ls, clientCall l = false := by
    intro l hl
    have h_working := hworking l hl
    cases l with
    | env e => cases e <;> first | rfl | exact absurd h_working Bool.false_ne_true
    | _ => rfl
  obtain ⟨h_draining, c, sack, hc, hsack, h_accepted⟩ :=
    hrest.draining (.reachable h_reach') (.reachable h_reach') hself hjoined hmin hmax
  have h_beside := run_beside s.client hrun h_calls
  refine Finishes.of_run h_beside ?_
  cases h_pc : s.client.pc with
  | submitting =>
    refine .of_step (.submitted h_pc hc hsack) trivial (finishes_looping ?_ hint h_draining)
    exact if_pos h_accepted
  | looping => exact finishes_looping h_pc hint h_draining
  | fetching i =>
    -- its fetch is the last one, and still is
    obtain ⟨ls₁, hrun₁⟩ := h
    obtain ⟨r, old, new, -, h_eq, h_recv⟩ := h_projects (s := ⟨u, s.client⟩)
      ⟨_, hrun₁.append (h_beside.mono fun _ _ => Steady.serving)⟩
    obtain rfl := h_eq h_going
    obtain ⟨rfl, hlen⟩ := h_recv.waiting i h_pc
    have h_fetches : old.length < r.store.fetches.length := by
      rw [h_recv.split, List.length_append]
      omega
    exact finishes_fetching (n := r.store.st.buffer.q.length + 1)
      (fun t h_pc h_int h_σ _ => finishes_looping h_pc h_int h_σ) h_pc hint h_draining
      (List.getElem?_eq_getElem h_fetches)
      ⟨Nat.le_succ _, fun _ => Or.inl (Nat.lt_succ_self _), fun _ => Or.inl (Nat.lt_succ_self _)⟩
  | canceling => exact absurd h_going (by simp [h_pc, ClientPc.stopped])
  | done => exact ⟨[], _, .nil _, h_pc⟩
  | canceled => exact absurd h_going (by simp [h_pc, ClientPc.stopped])
  | failed => exact absurd h_pc hpc

end Runs

/-- A client of a portal whose only neighbour is down. -/
theorem client_finishes_pair : ∃ ls u, (quiet .pair).clientMachine.Run (Steady (· = .b))
    (quiet .pair).clientMachine.init ls u ∧ u.client.pc = .done := by
  refine client_finishes (quiet .pair) (· = .b) (by decide) (fun n hn => ?_) (by decide)
    (by decide) ⟨[], .nil _⟩ rfl (by simp [clientMachine, Client.start])
  rcases List.mem_pair.mp hn with rfl | rfl
  · exact Or.inl .refl
  · exact Or.inr (List.mem_singleton_self _)

end Request
end Mini2
