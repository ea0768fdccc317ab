import Mini2.Node.Flood

/-!
# What reaches the buffer

The invariants of the path from a worker to the portal's buffer, in every run:
whatever calls fail, and whether or not the request is canceled.

* `DepositInv` — what has been acknowledged is in the log: an answer `ok` comes
  from a deposit of exactly the chunk that was pushed (`PushOk`), so a worker
  that goes on after an `ok` has its chunk recorded (`WorkerOk`).
* `FlowInv` — the rows in the log that the buffer accepted are those in its queue
  and those that fetches have taken, until the buffer is canceled.

Neither says that the buffer accepted *all* rows of a chunk: `pushRows` may take
only some, and no sender looks at the number it returns. `backpressure_keeps`
states what holds when it always takes them all, and `backpressure_drops` is a
run in which it does not.
-/

namespace Mini2

open Framework

variable {Node Row : Type*}

/-- The portal has deposited the chunk of the call. -/
def PushPc.deposited : PushPc Node → Bool
  | .pushed _ => true
  | .marked _ => true
  | .acked ack => ack.ok
  | _ => false

namespace Request

/-! ### Acknowledged chunks -/

/-- A chunk is in the log. -/
def Recorded (log : List (Deposit Node Row)) (producer : Node) (seq : ℕ) (c : SinkCall Row) :
    Prop :=
  ∃ d ∈ log, d.producer = producer ∧ d.seq = seq ∧ d.call = c

theorem Recorded.mono {log log' : List (Deposit Node Row)} {producer : Node} {seq : ℕ}
    {c : SinkCall Row} (h : Recorded log producer seq c) (hlog : log <+: log') :
    Recorded log' producer seq c := by
  obtain ⟨d, hd, h⟩ := h
  exact ⟨d, hlog.subset hd, h⟩

/-- A push call past its deposit has its chunk recorded. -/
def PushOk (log : List (Deposit Node Row)) (p : PushCall Node Row) : Prop :=
  p.pc.deposited → Recorded log p.producer p.seq p.call

/-- What a worker rests on. -/
structure WorkerOk (log : List (Deposit Node Row)) (pushes : List (PushCall Node Row))
    (w : Worker Node Row) : Prop where
  /-- The call it waits for carries its current chunk. -/
  pushing : ∀ id retries, w.pc = .pushing id retries → ∃ p, pushes[id]? = some p ∧
    p.producer = w.node ∧ p.seq = w.history.length + 1 ∧ w.todo.head? = some p.call
  /-- The portal's own deposit has recorded its current chunk. -/
  deposited : w.pc = .deposited → ∀ c, w.todo.head? = some c →
    Recorded log w.node (w.history.length + 1) c
  /-- The chunks it went on from because they were accepted are recorded. -/
  history : ∀ j c outcome, w.history[j]? = some (c, outcome) →
    outcome = .acked ∨ outcome = .deposited → Recorded log w.node (j + 1) c

/-- What has been acknowledged is in the log. -/
structure DepositInv (σ : Store Node Row) : Prop where
  pushes : ∀ p ∈ σ.pushes, PushOk σ.log p
  workers : ∀ w ∈ σ.workers, WorkerOk σ.log σ.pushes w

/-- The push calls keep their places and what they carry. -/
def PushesKept (pushes pushes' : List (PushCall Node Row)) : Prop :=
  ∀ (id : ℕ) (p : PushCall Node Row), pushes[id]? = some p →
    ∃ p' : PushCall Node Row, pushes'[id]? = some p' ∧ p'.producer = p.producer ∧
      p'.seq = p.seq ∧ p'.call = p.call

theorem PushesKept.refl (pushes : List (PushCall Node Row)) : PushesKept pushes pushes :=
  fun _ p hp => ⟨p, hp, rfl, rfl, rfl⟩

theorem PushesKept.append (pushes new : List (PushCall Node Row)) :
    PushesKept pushes (pushes ++ new) := by
  intro id p hp
  have hid : id < pushes.length := (List.getElem?_eq_some_iff.mp hp).1
  exact ⟨p, by rw [List.getElem?_append_left hid]; exact hp, rfl, rfl, rfl⟩

theorem PushesKept.set {pushes : List (PushCall Node Row)} {i : ℕ} {p r : PushCall Node Row}
    (hp : pushes[i]? = some p) (hproducer : r.producer = p.producer) (hseq : r.seq = p.seq)
    (hcall : r.call = p.call) : PushesKept pushes (pushes.set i r) := by
  intro id q hq
  have hi : i < pushes.length := (List.getElem?_eq_some_iff.mp hp).1
  by_cases hid : i = id
  · subst hid
    obtain rfl : p = q := Option.some.inj (hp.symm.trans hq)
    exact ⟨r, by simp [hi], hproducer, hseq, hcall⟩
  · exact ⟨q, by rw [List.getElem?_set_ne hid]; exact hq, rfl, rfl, rfl⟩

theorem PushesKept.trans {pushes pushes' pushes'' : List (PushCall Node Row)}
    (h : PushesKept pushes pushes') (h' : PushesKept pushes' pushes'') :
    PushesKept pushes pushes'' := by
  intro id p hp
  obtain ⟨p', hp', h₁, h₂, h₃⟩ := h id p hp
  obtain ⟨p'', hp'', h₁', h₂', h₃'⟩ := h' id p' hp'
  exact ⟨p'', hp'', h₁'.trans h₁, h₂'.trans h₂, h₃'.trans h₃⟩

theorem WorkerOk.mono {log log' : List (Deposit Node Row)}
    {pushes pushes' : List (PushCall Node Row)} {w : Worker Node Row}
    (h : WorkerOk log pushes w) (hlog : log <+: log') (hpushes : PushesKept pushes pushes') :
    WorkerOk log' pushes' w where
  pushing id retries hpc := by
    obtain ⟨p, hp, h_producer, h_seq, h_call⟩ := h.pushing id retries hpc
    obtain ⟨p', hp', h_producer', h_seq', h_call'⟩ := hpushes id p hp
    exact ⟨p', hp', h_producer'.trans h_producer, h_seq'.trans h_seq, h_call'.symm ▸ h_call⟩
  deposited hpc c hc := (h.deposited hpc c hc).mono hlog
  history j c outcome hj ho := (h.history j c outcome hj ho).mono hlog

/-- A worker that goes on has its history extended by the chunk it is done with. -/
theorem WorkerOk.advance {log : List (Deposit Node Row)} {pushes : List (PushCall Node Row)}
    {w : Worker Node Row} (h : WorkerOk log pushes w) {c : SinkCall Row}
    {todo : List (SinkCall Row)} {outcome : Outcome}
    (hrec : outcome = .acked ∨ outcome = .deposited →
      Recorded log w.node (w.history.length + 1) c) :
    WorkerOk log pushes (w.advance c todo outcome) where
  pushing id retries hpc := absurd hpc (by simp [Worker.advance])
  deposited hpc := absurd hpc (by simp [Worker.advance])
  history j c' outcome' hj ho := by
    rcases getElem?_concat_cases hj with hj | ⟨rfl, hx⟩
    · exact h.history j c' outcome' hj ho
    · obtain ⟨rfl, rfl⟩ := Prod.mk.inj hx
      exact hrec ho

/-- A worker between two actions on the same chunk. -/
theorem WorkerOk.goto {log : List (Deposit Node Row)} {pushes : List (PushCall Node Row)}
    {w : Worker Node Row} (h : WorkerOk log pushes w) {pc : WorkerPc} {todo : List (SinkCall Row)}
    (hpushing : ∀ id retries, pc ≠ .pushing id retries) (hdeposited : pc ≠ .deposited) :
    WorkerOk log pushes { w with pc := pc, todo := todo } where
  pushing id retries hpc := absurd hpc (hpushing id retries)
  deposited hpc := absurd hpc hdeposited
  history := h.history

section EnvStep

variable [DecidableEq Node] {R : Request Node Row} {σ σ' : Store Node Row} {e : Event Node}

/-- The log only grows. -/
theorem EnvStep.log_grows (h : R.EnvStep σ e σ') : σ.log <+: σ'.log := by
  cases h with
  | workDeposit _ _ _ => exact List.prefix_append _ _
  | pushDeposit _ _ => exact List.prefix_append _ _
  | _ => exact List.prefix_refl _

/-- The buffer accepts rows from the front of a chunk. -/
theorem EnvStep.accepted_sublist (h : R.EnvStep σ e σ')
    (hI : ∀ d ∈ σ.log, d.accepted.Sublist d.call.rows) :
    ∀ d ∈ σ'.log, d.accepted.Sublist d.call.rows := by
  rcases h.log_cases with hlog | ⟨k, w, c, -, rfl⟩ | ⟨i, p, -, rfl⟩
  · rw [hlog]
    exact hI
  · exact forall_mem_concat hI (σ.st.buffer.taken_sublist c.rows)
  · exact forall_mem_concat hI (σ.st.buffer.taken_sublist p.call.rows)

/-- The push calls keep their places and what they carry. -/
theorem EnvStep.pushes_kept (h : R.EnvStep σ e σ') : PushesKept σ.pushes σ'.pushes := by
  rcases h.pushes_cases with heq | ⟨k, w, c, retries, -, rfl⟩ | ⟨i, p, p', new, hp, hsame, -, heq⟩
  · rw [heq]
    exact .refl _
  · exact .append _ _
  · rw [heq]
    exact (PushesKept.set hp hsame.producer hsame.seq hsame.call).trans (.append _ _)

/-- An answer `ok` comes from a deposit. -/
theorem EnvStep.pushes_ok (h : R.EnvStep σ e σ') (hI : ∀ p ∈ σ.pushes, PushOk σ.log p) :
    ∀ p ∈ σ'.pushes, PushOk σ'.log p := by
  have h_old : ∀ p ∈ σ.pushes, PushOk σ'.log p :=
    fun p hp hpc => (hI p hp hpc).mono h.log_grows
  -- a call that has not been deposited rests on nothing
  have h_not : ∀ {p : PushCall Node Row}, p.pc.deposited = false → PushOk σ'.log p :=
    fun hp hpc => absurd hpc (by simp [hp])
  cases h with
  | workPush _ _ _ _ _ => exact forall_mem_concat h_old (h_not rfl)
  | workRetry _ _ _ => exact forall_mem_concat h_old (h_not rfl)
  | pushFound _ _ _ => exact forall_mem_set h_old (h_not rfl)
  | pushUnregistered _ _ _ => exact forall_mem_set h_old (h_not rfl)
  | pushNoRoute _ _ _ _ => exact forall_mem_set h_old (h_not rfl)
  | pushRelay _ _ _ _ _ => exact forall_mem_set h_old (h_not rfl)
  | pushNoPeer _ _ _ _ _ => exact forall_mem_set h_old (h_not rfl)
  | pushCanceled _ _ _ => exact forall_mem_set h_old (h_not rfl)
  | pushLive _ _ _ => exact forall_mem_set h_old (h_not rfl)
  | pushDeposit _ _ =>
    -- the deposit has just been logged
    exact forall_mem_set h_old fun _ =>
      ⟨_, List.mem_append_right _ (List.mem_singleton_self _), rfl, rfl, rfl⟩
  | pushMark hp hpc =>
    have h_p := h_old _ (List.mem_of_getElem? hp)
    exact forall_mem_set h_old fun _ => h_p (by rw [hpc]; rfl)
  | pushAck hp hpc =>
    have h_p := h_old _ (List.mem_of_getElem? hp)
    exact forall_mem_set h_old fun _ => h_p (by rw [hpc]; rfl)
  | pushReturn hp hpc _ =>
    -- a relay answers `ok` exactly if its own call did
    have h_p := h_old _ (List.mem_of_getElem? hp)
    refine forall_mem_set h_old fun hok => h_p ?_
    rw [hpc]
    simpa [PushPc.deposited, PushChunkAck.relay] using hok
  | pushFail hp _ =>
    -- the sender sees a failure; the call itself may go on to its deposit
    have h_p := h_old _ (List.mem_of_getElem? hp)
    exact forall_mem_concat (forall_mem_set h_old (h_not rfl)) fun hpc => h_p hpc
  | _ => exact h_old

/-- A worker that goes on after an `ok` has its chunk recorded. -/
theorem EnvStep.workers_ok (h : R.EnvStep σ e σ') (hI : DepositInv σ) :
    ∀ w ∈ σ'.workers, WorkerOk σ'.log σ'.pushes w := by
  -- log and pushes only grow, so a worker that stays is as it should be
  have h_old : ∀ w ∈ σ.workers, WorkerOk σ'.log σ'.pushes w :=
    fun w hw => (hI.workers w hw).mono h.log_grows h.pushes_kept
  cases h with
  | workFound hw _ _ _ _ _ =>
    exact forall_mem_set h_old ((h_old _ (List.mem_of_getElem? hw)).goto (by simp) (by simp))
  | workGone hw _ _ _ _ =>
    exact forall_mem_set h_old ((h_old _ (List.mem_of_getElem? hw)).advance (by simp))
  | workPush hw _ htodo _ _ =>
    refine forall_mem_set h_old ⟨?_, fun hpc => absurd hpc (by simp),
      (h_old _ (List.mem_of_getElem? hw)).history⟩
    intro id retries hpc
    obtain ⟨rfl, -⟩ := WorkerPc.pushing.inj hpc
    exact ⟨_, List.getElem?_concat_length, rfl, rfl, by rw [htodo]; rfl⟩
  | workNoPeer hw _ _ _ _ =>
    exact forall_mem_set h_old ((h_old _ (List.mem_of_getElem? hw)).advance (by simp))
  | workDeposit hw _ htodo =>
    refine forall_mem_set h_old ⟨fun id retries hpc => absurd hpc (by simp), ?_,
      (h_old _ (List.mem_of_getElem? hw)).history⟩
    intro _ c hc
    rw [htodo] at hc
    obtain rfl := Option.some.inj hc
    exact ⟨_, List.mem_append_right _ (List.mem_singleton_self _), rfl, rfl, rfl⟩
  | workMark hw hpc htodo =>
    have h_w := h_old _ (List.mem_of_getElem? hw)
    exact forall_mem_set h_old (h_w.advance fun _ => h_w.deposited hpc _ (by rw [htodo]; rfl))
  | workAcked hw hpc htodo hp _ hack hok =>
    have h_w := h_old _ (List.mem_of_getElem? hw)
    refine forall_mem_set h_old (h_w.advance fun _ => ?_)
    -- the push that is acknowledged is the worker's own, and has been deposited
    obtain ⟨p', hp', h_producer, h_seq, h_call⟩ := h_w.pushing _ _ hpc
    obtain rfl := Option.some.inj (hp.symm.trans hp')
    rw [htodo] at h_call
    obtain rfl := Option.some.inj h_call
    rw [← h_producer, ← h_seq]
    exact hI.pushes _ (List.mem_of_getElem? hp) (by rw [hack]; exact hok)
  | workCanceled hw _ _ _ _ _ _ _ =>
    exact forall_mem_set h_old ((h_old _ (List.mem_of_getElem? hw)).advance (by simp))
  | workBackoff hw _ _ _ _ _ _ _ =>
    exact forall_mem_set h_old ((h_old _ (List.mem_of_getElem? hw)).goto (by simp) (by simp))
  | workRetry hw _ htodo =>
    refine forall_mem_set h_old ⟨?_, fun hpc => absurd hpc (by simp),
      (h_old _ (List.mem_of_getElem? hw)).history⟩
    intro id retries hpc
    obtain ⟨rfl, -⟩ := WorkerPc.pushing.inj hpc
    exact ⟨_, List.getElem?_concat_length, rfl, rfl, by rw [htodo]; rfl⟩
  | workExhausted hw _ _ =>
    exact forall_mem_set h_old ((h_old _ (List.mem_of_getElem? hw)).advance (by simp))
  | cut hw hpc _ _ _ =>
    exact forall_mem_set h_old
      ((h_old _ (List.mem_of_getElem? hw)).goto (by simp [hpc]) (by simp [hpc]))
  | _ => exact h_old

theorem DepositInv.env (hI : DepositInv σ) (h : R.EnvStep σ e σ') : DepositInv σ' :=
  ⟨h.pushes_ok hI.pushes, h.workers_ok hI⟩

end EnvStep

section Step

variable [DecidableEq Node] {R : Request Node Row} {s s' : State Node Row} {l : Label Node}

theorem DepositInv.initial (R : Request Node Row) : DepositInv R.startStore :=
  ⟨fun _ h => absurd h List.not_mem_nil, fun _ h => absurd h List.not_mem_nil⟩

/-- **Every action keeps the log in step with the acknowledgements.** -/
theorem DepositInv.step (hI : DepositInv s.store) (h : R.cascade.Step s l s') :
    DepositInv s'.store := by
  cases h with
  | finish hc hpc =>
    refine ⟨hI.pushes, forall_mem_concat hI.workers ⟨?_, ?_, ?_⟩⟩
    · exact fun _ _ hpc => absurd hpc (by simp)
    · exact fun hpc => absurd hpc (by simp)
    · exact fun j c outcome hj => absurd hj (by simp)
  | env he => exact hI.env (env_cases he)
  | _ => exact ⟨hI.pushes, hI.workers⟩

theorem DepositInv.reachable {P : State Node Row → Label Node → Prop}
    (h : R.machine.Reachable P s) : DepositInv s.store :=
  h.invariant (fun s => DepositInv s.store) (.initial R)
    fun _ _ _ hI _ hstep => hI.step (Cascade.step_iff.mp hstep)

end Step

/-! ### Marks -/

section Marks

variable [DecidableEq Node] {σ : Store Node Row}

/-- The mark after a chunk touches the set of producers that are done, if any. -/
theorem markDoneIf_st (c : SinkCall Row) (producer : Node) : (σ.markDoneIf c producer).st =
    { σ.st with buffer :=
      { σ.st.buffer with done := (σ.markDoneIf c producer).st.buffer.done } } := by
  unfold Store.markDoneIf
  dsimp only
  split <;> rfl

/-- So does what `SubmitQuery` makes of a forward's outcome. -/
theorem settle_st (n : Node) (m : Task Node) (nb : Node) (ack : Option (ForwardQueryAck Node)) :
    (settle σ n m nb ack).st = { σ.st with buffer :=
      { σ.st.buffer with done := (settle σ n m nb ack).st.buffer.done } } := by
  unfold settle
  dsimp only
  split
  · split <;> rfl
  · rfl

/-- What a chunk's deposit can do to the set of producers that are done. -/
theorem mem_done_markDoneIf {c : SinkCall Row} {producer n : Node} :
    n ∈ (σ.markDoneIf c producer).st.buffer.done ↔
      (c.done = true ∧ n = producer) ∨ n ∈ σ.st.buffer.done := by
  unfold Store.markDoneIf
  dsimp only
  split
  · next h => simp [h]
  · next h => simp [h]

/-- `SubmitQuery` marks a neighbour whose forward has failed or is rejected. -/
theorem mem_done_settle {n nb v : Node} {m : Task Node} {ack : Option (ForwardQueryAck Node)} :
    v ∈ (settle σ n m nb ack).st.buffer.done ↔
      (m = .submitQuery ∧ ack.any ForwardQueryAck.accepted = false ∧ v = nb) ∨
        v ∈ σ.st.buffer.done := by
  unfold settle
  dsimp only
  split
  · split
    · next h => simp [h]
    · next h => simp [h]
  · simp

end Marks

/-! ### The rows in the buffer -/

/-- The rows that fetches have taken from the buffer. -/
def fetched (σ : Store Node Row) : List Row := σ.fetches.flatMap fun f => f.rsp.rows

/-- The rows that the buffer has accepted. -/
def accepted (σ : Store Node Row) : List Row := σ.log.flatMap Deposit.accepted

/-- The accepted rows are in the queue or fetched. -/
structure FlowInv (σ : Store Node Row) : Prop where
  /-- A fetch that has not popped holds no rows. -/
  found : ∀ f ∈ σ.fetches, f.pc = .found → f.rsp.rows = []
  flow : σ.st.buffer.canceled = false →
    (fetched σ ++ σ.st.buffer.q).Perm (accepted σ)

section Flow

variable {σ σ' : Store Node Row}

/-- A fetch that keeps its rows leaves the fetched rows alone. -/
theorem fetched_set {i : ℕ} {f f' : Fetch Row} (hf : σ.fetches[i]? = some f)
    (hrows : f'.rsp.rows = f.rsp.rows) : fetched (σ.setFetch i f') = fetched σ := by
  exact flatMap_set_eq (f := fun f => f.rsp.rows) hf hrows

/-- A fetch without rows that takes some adds them to the fetched rows. -/
theorem fetched_set_perm {i : ℕ} {f g : Fetch Row} (hf : σ.fetches[i]? = some f)
    (hrows : f.rsp.rows = []) : (fetched (σ.setFetch i g)).Perm (fetched σ ++ g.rsp.rows) := by
  have h_set := flatMap_set_perm (b := g) (f := fun f => f.rsp.rows) hf
  rwa [hrows, List.append_nil] at h_set

/-- A new fetch without rows leaves the fetched rows alone. -/
theorem fetched_concat {f : Fetch Row} (hrows : f.rsp.rows = []) :
    fetched { σ with fetches := σ.fetches ++ [f] } = fetched σ :=
  flatMap_concat_nil (f := fun f : Fetch Row => f.rsp.rows) hrows

/-- A chunk joins the queue as it joins the log. -/
theorem FlowInv.deposit (hI : FlowInv σ) (producer : Node) (seq : ℕ) (c : SinkCall Row) :
    FlowInv (σ.deposit producer seq c) where
  found := hI.found
  flow hlive := by
    have hlive : σ.st.buffer.canceled = false := by simpa [Store.deposit] using hlive
    have h_flow := hI.flow hlive
    unfold fetched accepted at h_flow ⊢
    simp only [Store.deposit, RequestState.withBuffer_buffer, ChunkBuffer.pushRows_fst_q,
      List.flatMap_append, List.flatMap_singleton, ← List.append_assoc]
    exact h_flow.append_right _

/-- What leaves the queue alone keeps the account. -/
theorem FlowInv.withBuffer (hI : FlowInv σ) {st : RequestState Node Row}
    (hq : st.buffer.q = σ.st.buffer.q) (hcanceled : st.buffer.canceled = σ.st.buffer.canceled) :
    FlowInv { σ with st := st } where
  found := hI.found
  flow hlive := by
    have h_flow := hI.flow (hcanceled ▸ hlive)
    change (fetched σ ++ st.buffer.q).Perm (accepted σ)
    rwa [hq]

/-- Marks leave the queue alone. -/
theorem FlowInv.mark (hI : FlowInv σ) {st : RequestState Node Row}
    (hst : st = { σ.st with buffer := { σ.st.buffer with done := st.buffer.done } }) :
    FlowInv { σ with st := st } :=
  hI.withBuffer (congrArg (fun st => st.buffer.q) hst)
    (congrArg (fun st => st.buffer.canceled) hst)

/-- Canceling ends the account. -/
theorem FlowInv.cancelBuffer (hI : FlowInv σ) : FlowInv σ.cancelBuffer where
  found := hI.found
  flow hlive := absurd hlive (by simp [Store.cancelBuffer, ChunkBuffer.cancel])

/-- A fetch that keeps its rows leaves the account alone. -/
theorem FlowInv.setFetch (hI : FlowInv σ) {i : ℕ} {f g : Fetch Row}
    (hf : σ.fetches[i]? = some f) (hrows : g.rsp.rows = f.rsp.rows) (hpc : g.pc ≠ .found) :
    FlowInv (σ.setFetch i g) where
  found := forall_mem_set hI.found fun h => absurd h hpc
  flow hlive := by
    have h_flow := hI.flow hlive
    change (fetched (σ.setFetch i g) ++ σ.st.buffer.q).Perm (accepted σ)
    rwa [fetched_set hf hrows]

/-- A new fetch holds no rows. -/
theorem FlowInv.newFetch (hI : FlowInv σ) {f : Fetch Row} (hrows : f.rsp.rows = []) :
    FlowInv { σ with fetches := σ.fetches ++ [f] } where
  found := forall_mem_concat hI.found fun _ => hrows
  flow hlive := by
    rw [fetched_concat hrows]
    exact hI.flow hlive

section Env

variable [DecidableEq Node] {R : Request Node Row} {e : Event Node}

omit [DecidableEq Node] in
/-- A pop moves rows from the queue to its fetch. -/
theorem FlowInv.pop (hI : FlowInv σ) {i want : ℕ} {f f' : Fetch Row} {st : RequestState Node Row}
    (hf : σ.fetches[i]? = some f) (hpc : f.pc = .found)
    (hrows : f'.rsp.rows = (σ.st.buffer.popUpTo want).2) (hpc' : f'.pc ≠ .found) :
    FlowInv (({ σ with st := st.withBuffer (σ.st.buffer.popUpTo want).1 } :
      Store Node Row).setFetch i f') where
  found := forall_mem_set hI.found fun h => absurd h hpc'
  flow hlive := by
    have h_flow := hI.flow hlive
    have h_empty := hI.found f (List.mem_of_getElem? hf) hpc
    -- what the pop takes from the queue is what the fetch gets
    have h_pop := fetched_set_perm (g := f') hf h_empty
    have h_append := σ.st.buffer.popUpTo_append want
    change (fetched (σ.setFetch i f') ++ (σ.st.buffer.popUpTo want).1.q).Perm (accepted σ)
    refine (h_pop.append_right _).trans ?_
    rw [hrows, List.append_assoc, h_append]
    exact h_flow

theorem FlowInv.env (hI : FlowInv σ) (h : R.EnvStep σ e σ') : FlowInv σ' := by
  cases h with
  | @workDeposit k w c todo _ _ _ =>
    -- rows that come in, with the log, from a worker or from a push call
    have h_dep := hI.deposit w.node (w.history.length + 1) c
    exact ⟨h_dep.found, h_dep.flow⟩
  | @workMark k w c todo _ _ _ =>
    have h_mark := hI.mark (markDoneIf_st c w.node)
    exact ⟨h_mark.found, h_mark.flow⟩
  | @pushDeposit i p _ _ =>
    have h_dep := hI.deposit p.producer p.seq p.call
    exact ⟨h_dep.found, h_dep.flow⟩
  | @pushMark i took p _ _ =>
    have h_mark := hI.mark (markDoneIf_st p.call p.producer)
    exact ⟨h_mark.found, h_mark.flow⟩
  | fetchBegin _ => exact hI.newFetch rfl
  | fetchGone _ => exact hI.newFetch rfl
  | fetchPop hf hpc _ _ => exact hI.pop hf hpc rfl (by simp)
  | fetchAccumulate hf _ hrsp =>
    -- what is kept for the cache is no part of the flow
    exact (hI.withBuffer (by simp) (by simp)).setFetch hf (by rw [hrsp]) (by simp)
  | fetchServed hf _ => exact hI.setFetch hf rfl (by simp)
  | fetchCounted hf _ => exact hI.setFetch hf rfl (by simp)
  | fetchCanceled hf _ => exact hI.setFetch hf rfl (by simp)
  | fetchFinal hf _ => exact hI.setFetch hf rfl (by simp)
  | @fetchPut i dt f hf _ _ _ _ =>
    -- nor is what is put into it, or that the request is erased
    have h_set := hI.setFetch (g := { f with pc := .closing }) hf rfl (by simp)
    exact ⟨h_set.found, h_set.flow⟩
  | fetchNoPut hf _ _ _ => exact hI.setFetch hf rfl (by simp)
  | fetchMore hf _ _ => exact hI.setFetch hf rfl (by simp)
  | @fetchErase i dt f hf _ =>
    have h_set := hI.setFetch (g := { f with pc := .answered }) hf rfl (by simp)
    exact ⟨h_set.found, h_set.flow⟩
  | cancelFound _ => exact ⟨hI.cancelBuffer.found, hI.cancelBuffer.flow⟩
  | janitorCancel _ => exact ⟨hI.cancelBuffer.found, hI.cancelBuffer.flow⟩
  | _ => exact ⟨hI.found, hI.flow⟩

end Env

end Flow

section Step

variable [DecidableEq Node] {R : Request Node Row} {s s' : State Node Row} {l : Label Node}

theorem FlowInv.initial (R : Request Node Row) : FlowInv R.startStore where
  found _ h := absurd h List.not_mem_nil
  flow _ := by
    have h_q : R.startStore.st.buffer.q = [] := congrArg ChunkBuffer.q R.start_buffer
    change (([] : List Row) ++ R.startStore.st.buffer.q).Perm []
    rw [h_q]
    exact List.Perm.refl _

/-- **Every action keeps the account of the rows.** -/
theorem FlowInv.step (hI : FlowInv s.store) (h : R.cascade.Step s l s') : FlowInv s'.store := by
  cases h with
  | @collect i id c d todo r hc hpc hd hr =>
    exact hI.mark (settle_st c.dst c.msg d.dst (some r))
  | @expire i id c d todo hc hpc hd =>
    exact hI.mark (settle_st c.dst c.msg d.dst none)
  | env he => exact hI.env (env_cases he)
  | _ => exact ⟨hI.found, hI.flow⟩

theorem FlowInv.reachable {P : State Node Row → Label Node → Prop}
    (h : R.machine.Reachable P s) : FlowInv s.store :=
  h.invariant (fun s => FlowInv s.store) (.initial R)
    fun _ _ _ hI _ hstep => hI.step (Cascade.step_iff.mp hstep)

/-- **A canceled buffer is empty and stays so**: pushes only pretend to be accepted. -/
theorem EnvStep.drained {σ σ' : Store Node Row} {e : Event Node} (h : R.EnvStep σ e σ')
    (hI : σ.st.buffer.canceled = true → σ.st.buffer.q = []) :
    σ'.st.buffer.canceled = true → σ'.st.buffer.q = [] := by
  -- a push onto a canceled buffer leaves it empty
  have h_push : ∀ rows, (σ.st.buffer.pushRows rows).1.canceled = true →
      (σ.st.buffer.pushRows rows).1.q = [] := by
    intro rows hcanceled
    rw [ChunkBuffer.pushRows_fst_canceled] at hcanceled
    rw [ChunkBuffer.pushRows_fst_q, hI hcanceled, ChunkBuffer.taken, hcanceled]
    rfl
  -- marks do not touch the queue
  have h_mark : ∀ (c : SinkCall Row) (producer : Node),
      (σ.markDoneIf c producer).st.buffer.canceled = true →
        (σ.markDoneIf c producer).st.buffer.q = [] := by
    intro c producer hcanceled
    rw [markDoneIf_st] at hcanceled ⊢
    exact hI hcanceled
  cases h with
  | workDeposit _ _ _ => exact h_push _
  | workMark _ _ _ => exact h_mark _ _
  | pushDeposit _ _ => exact h_push _
  | pushMark _ _ => exact h_mark _ _
  | @fetchPop i dt f _ _ st _ want _ =>
    intro hcanceled
    change σ.st.buffer.q.drop want = []
    rw [hI hcanceled, List.drop_nil]
  | @fetchAccumulate i dt f _ _ _ _ =>
    change (σ.st.accumulate f.rsp.rows).buffer.canceled = true →
      (σ.st.accumulate f.rsp.rows).buffer.q = []
    rw [RequestState.accumulate_buffer]
    exact hI
  | cancelFound _ => exact fun _ => rfl
  | janitorCancel _ => exact fun _ => rfl
  | _ => exact hI

/-- What `SubmitQuery` makes of a forward's outcome leaves the queue alone. -/
theorem settle_drained {σ : Store Node Row} (n : Node) (m : Task Node) (nb : Node)
    (ack : Option (ForwardQueryAck Node)) (hI : σ.st.buffer.canceled = true → σ.st.buffer.q = []) :
    (settle σ n m nb ack).st.buffer.canceled = true → (settle σ n m nb ack).st.buffer.q = [] := by
  intro hcanceled
  rw [settle_st] at hcanceled ⊢
  exact hI hcanceled

theorem drained_step (hI : s.store.st.buffer.canceled = true → s.store.st.buffer.q = [])
    (h : R.cascade.Step s l s') :
    s'.store.st.buffer.canceled = true → s'.store.st.buffer.q = [] := by
  cases h with
  | @collect i id c d todo r hc hpc hd hr => exact settle_drained c.dst c.msg d.dst (some r) hI
  | @expire i id c d todo hc hpc hd => exact settle_drained c.dst c.msg d.dst none hI
  | env he => exact (env_cases he).drained hI
  | _ => exact hI

end Step

/-! ### The producers -/

/-- Whoever produces rows, or is marked as done, is a node of the overlay. -/
structure NodesInv (R : Request Node Row) (σ : Store Node Row) : Prop where
  workers : ∀ w ∈ σ.workers, w.node ∈ R.overlay.nodes
  pushes : ∀ p ∈ σ.pushes, p.producer ∈ R.overlay.nodes
  done : ∀ n ∈ σ.st.buffer.done, n ∈ R.overlay.nodes
  expected : σ.st.buffer.expectedProducers = R.overlay.nodes.length

section Nodes

variable [DecidableEq Node] {R : Request Node Row} {σ σ' : Store Node Row} {e : Event Node}
  {s s' : State Node Row} {l : Label Node}

/-- When as many producers are done as are expected, all nodes are. -/
theorem NodesInv.all_done (hI : R.NodesInv σ)
    (hcard : σ.st.buffer.expectedProducers ≤ σ.st.buffer.done.card) :
    ∀ n ∈ R.overlay.nodes, n ∈ σ.st.buffer.done := by
  have h_sub : σ.st.buffer.done ⊆ R.overlay.nodes.toFinset :=
    fun n hn => List.mem_toFinset.mpr (hI.done n hn)
  have h_card : R.overlay.nodes.toFinset.card ≤ σ.st.buffer.done.card := by
    rw [List.toFinset_card_of_nodup R.overlay.nodes_nodup, ← hI.expected]
    exact hcard
  intro n hn
  rw [Finset.eq_of_subset_of_card_le h_sub h_card]
  exact List.mem_toFinset.mpr hn

theorem EnvStep.expected_eq (h : R.EnvStep σ e σ') :
    σ'.st.buffer.expectedProducers = σ.st.buffer.expectedProducers := by
  have h_mark : ∀ (c : SinkCall Row) (producer : Node),
      (σ.markDoneIf c producer).st.buffer.expectedProducers = σ.st.buffer.expectedProducers :=
    fun c producer => congrArg (fun st => st.buffer.expectedProducers) (markDoneIf_st c producer)
  cases h with
  | workDeposit _ _ _ => exact ChunkBuffer.pushRows_fst_expectedProducers _ _
  | workMark _ _ _ => exact h_mark _ _
  | pushDeposit _ _ => exact ChunkBuffer.pushRows_fst_expectedProducers _ _
  | pushMark _ _ => exact h_mark _ _
  | fetchAccumulate _ _ _ =>
    exact congrArg ChunkBuffer.expectedProducers (RequestState.accumulate_buffer _ _)
  | _ => rfl

/-- A producer is newly marked as done by the mark after its own deposit. -/
theorem EnvStep.mem_done (h : R.EnvStep σ e σ') {n : Node} (hn : n ∈ σ'.st.buffer.done) :
    n ∈ σ.st.buffer.done ∨
    (∃ w ∈ σ.workers, w.pc = .deposited ∧ w.node = n ∧
      ∃ c, w.todo.head? = some c ∧ c.done = true) ∨
    ∃ p ∈ σ.pushes, (∃ took, p.pc = .pushed took) ∧ p.producer = n ∧ p.call.done = true := by
  cases h with
  | workDeposit _ _ _ =>
    exact Or.inl ((congrArg (n ∈ ·) (ChunkBuffer.pushRows_fst_done _ _)).mp hn)
  | @workMark k w c todo hw hpc htodo =>
    -- the mark is new, and that of a last chunk
    rcases mem_done_markDoneIf.mp hn with ⟨hdone, rfl⟩ | hn
    · exact Or.inr (Or.inl ⟨w, List.mem_of_getElem? hw, hpc, rfl, c, by rw [htodo]; rfl, hdone⟩)
    · exact Or.inl hn
  | pushDeposit _ _ =>
    exact Or.inl ((congrArg (n ∈ ·) (ChunkBuffer.pushRows_fst_done _ _)).mp hn)
  | @pushMark i took p hp hpc =>
    rcases mem_done_markDoneIf.mp hn with ⟨hdone, rfl⟩ | hn
    · exact Or.inr (Or.inr ⟨p, List.mem_of_getElem? hp, ⟨took, hpc⟩, rfl, hdone⟩)
    · exact Or.inl hn
  | fetchAccumulate _ _ _ =>
    have hn : n ∈ (σ.st.accumulate _).buffer.done := hn
    rw [RequestState.accumulate_buffer] at hn
    exact Or.inl hn
  | _ => exact Or.inl hn

/-- Marks are not taken back. -/
theorem EnvStep.done_mono {σ σ' : Store Node Row} {e : Event Node} (h : R.EnvStep σ e σ') :
    σ.st.buffer.done ⊆ σ'.st.buffer.done := by
  intro n hn
  cases h with
  | workDeposit _ _ _ => exact (congrArg (n ∈ ·) (ChunkBuffer.pushRows_fst_done _ _)).mpr hn
  | workMark _ _ _ => exact mem_done_markDoneIf.mpr (Or.inr hn)
  | pushDeposit _ _ => exact (congrArg (n ∈ ·) (ChunkBuffer.pushRows_fst_done _ _)).mpr hn
  | pushMark _ _ => exact mem_done_markDoneIf.mpr (Or.inr hn)
  | fetchAccumulate _ _ _ =>
    change n ∈ (σ.st.accumulate _).buffer.done
    rwa [RequestState.accumulate_buffer]
  | _ => exact hn

theorem done_mono (h : R.cascade.Step s l s') :
    s.store.st.buffer.done ⊆ s'.store.st.buffer.done := by
  intro n hn
  cases h with
  | @collect i id c d todo r hc hpc hd hr => exact (mem_done_settle (n := c.dst)).mpr (Or.inr hn)
  | @expire i id c d todo hc hpc hd => exact (mem_done_settle (n := c.dst)).mpr (Or.inr hn)
  | env he => exact (env_cases he).done_mono hn
  | _ => exact hn

/-- A push call keeps its producer, and a new one has its worker's node as producer. -/
theorem EnvStep.producers (h : R.EnvStep σ e σ') {P : Node → Prop}
    (hw : ∀ w ∈ σ.workers, P w.node) (hI : ∀ p ∈ σ.pushes, P p.producer) :
    ∀ p ∈ σ'.pushes, P p.producer := by
  rcases h.pushes_cases with heq | ⟨k, w, c, retries, hsend, rfl⟩ |
    ⟨i, p, p', new, hp, hsame, hnew, heq⟩
  · rw [heq]
    exact hI
  · exact forall_mem_concat hI (hw w (List.mem_of_getElem? hsend.get))
  · have h_p := hI p (List.mem_of_getElem? hp)
    rw [heq, List.forall_mem_append]
    exact ⟨forall_mem_set hI (hsame.producer ▸ h_p), fun q hq => (hnew q hq).producer ▸ h_p⟩

/-- Workers stay on their nodes. -/
theorem EnvStep.workers_nodes (h : R.EnvStep σ e σ') {P : Node → Prop}
    (hI : ∀ w ∈ σ.workers, P w.node) : ∀ w ∈ σ'.workers, P w.node := by
  intro w hw
  have h_mem : w.node ∈ σ.workers.map Worker.node :=
    h.nodes_eq ▸ List.mem_map.mpr ⟨w, hw, rfl⟩
  obtain ⟨w', hw', heq⟩ := List.mem_map.mp h_mem
  exact heq ▸ hI w' hw'

theorem NodesInv.env (hI : R.NodesInv σ) (h : R.EnvStep σ e σ') : R.NodesInv σ' where
  workers := h.workers_nodes hI.workers
  pushes := h.producers hI.workers hI.pushes
  done n hn := by
    rcases h.mem_done hn with hn | ⟨w, hw, -, rfl, -⟩ | ⟨p, hp, -, rfl, -⟩
    · exact hI.done n hn
    · exact hI.workers w hw
    · exact hI.pushes p hp
  expected := h.expected_eq.trans hI.expected

/-- Calls go to nodes of the overlay. -/
theorem FloodInv.dst_mem (hF : R.FloodInv s)
    {c : Cascade.Call Node (Task Node) (ForwardQueryAck Node)} (hc : c ∈ s.calls) :
    c.dst ∈ R.overlay.nodes := by
  have h_valid := hF.valid c hc
  cases hm : c.msg with
  | submitQuery =>
    rw [hm] at h_valid
    have h_valid : c.dst = R.overlay.portal := h_valid
    rw [h_valid]
    exact R.overlay.portal_mem
  | forwardQuery req =>
    rw [hm] at h_valid
    exact R.overlay.nbrs_mem h_valid.peer

theorem NodesInv.settle (hI : R.NodesInv σ) {n nb : Node} {m : Task Node}
    {ack : Option (ForwardQueryAck Node)} (hnb : nb ∈ R.overlay.nodes) :
    R.NodesInv (settle σ n m nb ack) where
  workers := hI.workers
  pushes := hI.pushes
  done v hv := by
    rcases mem_done_settle.mp hv with ⟨-, -, rfl⟩ | hv
    · exact hnb
    · exact hI.done v hv
  expected := by
    have h_st := settle_st (σ := σ) n m nb ack
    exact (congrArg (fun st => st.buffer.expectedProducers) h_st).trans hI.expected

theorem NodesInv.step (hF : R.FloodInv s) (hI : R.NodesInv s.store)
    (h : R.cascade.Step s l s') : R.NodesInv s'.store := by
  cases h with
  | @collect i id c d todo r hc hpc hd hr =>
    exact hI.settle (n := c.dst) (hF.dst_mem (List.mem_of_getElem? hd))
  | @expire i id c d todo hc hpc hd =>
    exact hI.settle (n := c.dst) (hF.dst_mem (List.mem_of_getElem? hd))
  | finish hc hpc =>
    exact ⟨forall_mem_concat hI.workers (hF.dst_mem (List.mem_of_getElem? hc)), hI.pushes,
      hI.done, hI.expected⟩
  | env he => exact hI.env (env_cases he)
  | _ => exact ⟨hI.workers, hI.pushes, hI.done, hI.expected⟩

theorem NodesInv.initial (R : Request Node Row) : R.NodesInv R.startStore where
  workers _ hw := absurd hw List.not_mem_nil
  pushes _ hp := absurd hp List.not_mem_nil
  done n hn := by
    have h_done : R.startStore.st.buffer.done = ∅ := congrArg ChunkBuffer.done R.start_buffer
    rw [h_done] at hn
    exact absurd hn (Finset.notMem_empty n)
  expected := congrArg ChunkBuffer.expectedProducers R.start_buffer

theorem NodesInv.reachable {P : State Node Row → Label Node → Prop}
    (h : R.machine.Reachable P s) : R.NodesInv s.store :=
  (h.invariant (fun s => R.FloodInv s ∧ R.NodesInv s.store) ⟨.initial R, .initial R⟩
    fun _ _ _ hI _ hstep =>
      ⟨hI.1.step (Cascade.step_iff.mp hstep), hI.2.step hI.1 (Cascade.step_iff.mp hstep)⟩).2

end Nodes

end Request
end Mini2
