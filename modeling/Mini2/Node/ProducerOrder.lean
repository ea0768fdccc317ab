import Mini2.Node.Completeness
import Mini2.Node.Duplicates

/-!
# The order of a producer's rows

A worker sends its chunks one after the other and waits for each answer, the relays only
pass a chunk on, and the buffer is a queue. So as long as every push call returns its true
result, the rows of one producer arrive in the order in which its engine emits them:
chunks may be missing, or short, but none overtakes another.

`producer_order` follows the rows through three stages, with an invariant for each:

* `EmittedInv` — what a worker has handed to its sink is the beginning of what its engine
  emits.
* `kept_step` — the chunks of a producer in the log are among those its worker is done
  with, in this order, and the current one if it has been deposited.
* `OrderInv` — the rows that fetches have taken, one fetch after the other, are the
  beginning of the rows that the buffer has accepted.
-/

namespace Mini2

open Framework

variable {Node Row : Type*}

/-- The sink calls that the engine of the worker has made so far. -/
def Worker.made (w : Worker Node Row) : List (SinkCall Row) :=
  w.history.map Prod.fst ++ if w.pc = .ready then [] else w.todo.take 1

namespace Request

/-! ### One fetch after the other -/

/-- One client fetches, one fetch after the other, and no push call fails. -/
def Sequential (s : State Node Row) : Label Node → Prop
  | .env (.fetchBegin _) => ∀ f ∈ s.store.fetches, f.pc = .answered
  | .env (.pushFail _ _) => False
  | _ => True

instance [DecidableEq Node] (s : State Node Row) (l : Label Node) :
    Decidable (Sequential s l) := by
  unfold Sequential
  induction l using Framework.Cascade.Label.casesOn with
  | env e => induction e using Event.casesOn <;> infer_instance
  | _ => infer_instance

/-- The accepted rows with their producers, in the order in which the buffer has queued
them. -/
def tagged (σ : Store Node Row) : List (Node × Row) :=
  σ.log.flatMap fun d => d.accepted.map (Prod.mk d.producer)

/-- The rows that the client has received, with their producers. The buffer hands rows out
in the order in which it has queued them, so they are the first of these. -/
def received (σ : Store Node Row) : List (Node × Row) := (tagged σ).take (returned σ).length

/-! ### From the buffer to the client -/

/-- The fetches take the accepted rows in order. -/
structure OrderInv (σ : Store Node Row) : Prop where
  found : ∀ f ∈ σ.fetches, f.pc = .found → f.rsp.rows = []
  drained : σ.st.buffer.canceled = true → σ.st.buffer.q = []
  flow : σ.st.buffer.canceled = false → fetched σ ++ σ.st.buffer.q = accepted σ
  taken : fetched σ <+: accepted σ
  /-- Only the last fetch may be open. -/
  last : ∀ (i : ℕ) (f : Fetch Row), σ.fetches[i]? = some f → f.pc ≠ .answered →
    i + 1 = σ.fetches.length

section Order

variable {σ : Store Node Row}

/-- What the last fetch takes comes after what the fetches before it have taken. -/
theorem fetched_set_last {i : ℕ} {f f' : Fetch Row} (hf : σ.fetches[i]? = some f)
    (hlast : i + 1 = σ.fetches.length) (hrows : f.rsp.rows = []) :
    fetched (σ.setFetch i f') = fetched σ ++ f'.rsp.rows := by
  exact flatMap_set_last (f := fun f => f.rsp.rows) hf hlast hrows

/-- A fetch that keeps its rows leaves the order alone. -/
theorem OrderInv.setFetch (hI : OrderInv σ) {i : ℕ} {f g : Fetch Row}
    (hf : σ.fetches[i]? = some f) (hpc : f.pc ≠ .answered) (hrows : g.rsp.rows = f.rsp.rows)
    (hpc' : g.pc ≠ .found) : OrderInv (σ.setFetch i g) where
  found := forall_mem_set hI.found fun h => absurd h hpc'
  drained := hI.drained
  flow hlive := by
    rw [fetched_set hf hrows]
    exact hI.flow hlive
  taken := by
    rw [fetched_set hf hrows]
    exact hI.taken
  last := last_of_set hI.last hf hpc

/-- A new fetch holds no rows, and is the last. -/
theorem OrderInv.newFetch (hI : OrderInv σ) {f : Fetch Row} (hrows : f.rsp.rows = [])
    (hall : ∀ f ∈ σ.fetches, f.pc = .answered) :
    OrderInv { σ with fetches := σ.fetches ++ [f] } := by
  refine ⟨forall_mem_concat hI.found fun _ => hrows, hI.drained, fun hlive => ?_, ?_, ?_⟩
  · rw [fetched_concat hrows]
    exact hI.flow hlive
  · rw [fetched_concat hrows]
    exact hI.taken
  · -- all fetches before have been answered
    exact last_of_concat fun g hg => not_not.mpr (hall g hg)

/-- A pop moves the head of the queue behind what has been taken. -/
theorem OrderInv.pop (hI : OrderInv σ) {i want : ℕ} {f f' : Fetch Row} {st : RequestState Node Row}
    (hf : σ.fetches[i]? = some f) (hpc : f.pc = .found)
    (hrows : f'.rsp.rows = (σ.st.buffer.popUpTo want).2) (hpc' : f'.pc ≠ .found) :
    OrderInv (({ σ with st := st.withBuffer (σ.st.buffer.popUpTo want).1 } :
      Store Node Row).setFetch i f') := by
  have h_busy : f.pc ≠ .answered := by
    rw [hpc]
    exact FetchPc.noConfusion
  have h_empty := hI.found f (List.mem_of_getElem? hf) hpc
  have h_fetched : fetched (σ.setFetch i f') = fetched σ ++ (σ.st.buffer.popUpTo want).2 := by
    rw [fetched_set_last hf (hI.last i f hf h_busy) h_empty, hrows]
  have h_append := σ.st.buffer.popUpTo_append want
  have h_drained : σ.st.buffer.canceled = true → (σ.st.buffer.popUpTo want).1.q = [] ∧
      (σ.st.buffer.popUpTo want).2 = [] := by
    intro hcanceled
    rw [hI.drained hcanceled] at h_append
    exact (List.append_eq_nil_iff.mp h_append).symm
  have h_flow : σ.st.buffer.canceled = false →
      fetched (σ.setFetch i f') ++ (σ.st.buffer.popUpTo want).1.q = accepted σ := by
    intro hlive
    calc fetched (σ.setFetch i f') ++ (σ.st.buffer.popUpTo want).1.q
        = fetched σ ++ ((σ.st.buffer.popUpTo want).2 ++ (σ.st.buffer.popUpTo want).1.q) := by
          rw [h_fetched, List.append_assoc]
      _ = fetched σ ++ σ.st.buffer.q := by rw [h_append]
      _ = accepted σ := hI.flow hlive
  -- a canceled buffer gives nothing, and a live one its next rows
  refine ⟨forall_mem_set hI.found fun h => absurd h hpc', fun hcanceled => (h_drained hcanceled).1,
    h_flow, ?_, last_of_set hI.last hf h_busy⟩
  change fetched (σ.setFetch i f') <+: accepted σ
  by_cases hcanceled : σ.st.buffer.canceled = true
  · rw [h_fetched, (h_drained hcanceled).2, List.append_nil]
    exact hI.taken
  · rw [← h_flow (Bool.eq_false_iff.mpr hcanceled)]
    exact List.prefix_append _ _

/-- A chunk joins the queue as it joins the log. -/
theorem OrderInv.deposit (hI : OrderInv σ) (producer : Node) (seq : ℕ) (c : SinkCall Row)
    (hdrained : (σ.deposit producer seq c).st.buffer.canceled = true →
      (σ.deposit producer seq c).st.buffer.q = []) : OrderInv (σ.deposit producer seq c) := by
  -- the rows that are taken are the last ones accepted
  have h_accepted : accepted (σ.deposit producer seq c) =
      accepted σ ++ σ.st.buffer.taken c.rows := by
    unfold accepted
    change (σ.log ++ [_]).flatMap _ = _
    rw [List.flatMap_append, List.flatMap_singleton]
  refine ⟨hI.found, hdrained, fun hlive => ?_, ?_, hI.last⟩
  · change (σ.st.buffer.pushRows c.rows).1.canceled = false at hlive
    rw [ChunkBuffer.pushRows_fst_canceled] at hlive
    change fetched σ ++ (σ.st.buffer.pushRows c.rows).1.q = _
    rw [ChunkBuffer.pushRows_fst_q, h_accepted, ← List.append_assoc, hI.flow hlive]
  · rw [h_accepted]
    exact hI.taken.trans (List.prefix_append _ _)

/-- What leaves the queue alone keeps the order. -/
theorem OrderInv.withBuffer (hI : OrderInv σ) {st : RequestState Node Row}
    (hq : st.buffer.q = σ.st.buffer.q) (hcanceled : st.buffer.canceled = σ.st.buffer.canceled) :
    OrderInv { σ with st := st } where
  found := hI.found
  drained h := by
    rw [hcanceled] at h
    rw [hq]
    exact hI.drained h
  flow h := by
    rw [hcanceled] at h
    rw [hq]
    exact hI.flow h
  taken := hI.taken
  last := hI.last

/-- Marks leave the queue alone. -/
theorem OrderInv.mark (hI : OrderInv σ) {st : RequestState Node Row}
    (hst : st = { σ.st with buffer := { σ.st.buffer with done := st.buffer.done } }) :
    OrderInv { σ with st := st } :=
  hI.withBuffer (congrArg (fun st => st.buffer.q) hst)
    (congrArg (fun st => st.buffer.canceled) hst)

/-- What has been taken before the cancellation stays. -/
theorem OrderInv.cancelBuffer (hI : OrderInv σ) : OrderInv σ.cancelBuffer :=
  ⟨hI.found, fun _ => rfl, fun h => absurd h (by simp [Store.cancelBuffer, ChunkBuffer.cancel]),
    hI.taken, hI.last⟩

/-- Invariants of the queue and the fetches do not look at the other components. -/
theorem OrderInv.congr {τ : Store Node Row} (hI : OrderInv τ) (hst : σ.st = τ.st)
    (hfetches : σ.fetches = τ.fetches) (hlog : σ.log = τ.log) : OrderInv σ := by
  have h_fetched : fetched σ = fetched τ := by
    unfold fetched
    rw [hfetches]
  have h_accepted : accepted σ = accepted τ := by
    unfold accepted
    rw [hlog]
  refine ⟨hfetches ▸ hI.found, hst ▸ hI.drained, ?_, ?_, hfetches ▸ hI.last⟩
  · rw [hst, h_fetched, h_accepted]
    exact hI.flow
  · rw [h_fetched, h_accepted]
    exact hI.taken

/-- The responses of sequential fetches are the first rows that have been taken. -/
theorem OrderInv.returned_prefix (hI : OrderInv σ) : returned σ <+: accepted σ := by
  refine List.IsPrefix.trans ?_ hI.taken
  unfold returned fetched
  rcases List.eq_nil_or_concat σ.fetches with heq | ⟨l, f, heq⟩
  · rw [heq]
    exact List.prefix_refl _
  rw [List.concat_eq_append] at heq
  -- all fetches but the last have been answered
  have h_answered : ∀ g ∈ l, decide (g.pc = .answered) = true := by
    intro g hg
    obtain ⟨i, hi⟩ := List.mem_iff_getElem?.mp hg
    have h_lt : i < l.length := (List.getElem?_eq_some_iff.mp hi).1
    by_contra hopen
    have h_last := hI.last i g (heq ▸ (List.getElem?_append_left h_lt).trans hi)
      fun h => hopen (decide_eq_true h)
    rw [heq, List.length_append, List.length_singleton] at h_last
    omega
  rw [heq, List.filter_append, List.filter_eq_self.mpr h_answered, List.flatMap_append,
    List.flatMap_append, List.prefix_append_right_inj]
  by_cases hf : f.pc = .answered
  · rw [List.filter_singleton, decide_eq_true hf]
    exact List.prefix_refl _
  · rw [List.filter_singleton, decide_eq_false hf]
    exact List.nil_prefix

end Order

section Run

variable [DecidableEq Node] {R : Request Node Row} {σ : Store Node Row} {e : Event Node}
  {s s' : State Node Row} {l : Label Node}

/-- **Every action around the cascade keeps the order** of what the client takes. -/
theorem OrderInv.env (hI : OrderInv s.store) (h : R.EnvStep s.store e σ)
    (hseq : Sequential s (.env e)) : OrderInv σ := by
  have h_drained := h.drained hI.drained
  cases h with
  | @workDeposit k w c todo _ _ _ =>
    have h_dep := hI.deposit w.node (w.history.length + 1) c h_drained
    exact h_dep.congr rfl rfl rfl
  | @workMark k w c todo _ _ _ =>
    have h_mark := hI.mark (markDoneIf_st c w.node)
    exact h_mark.congr rfl rfl rfl
  | @pushDeposit i p _ _ =>
    have h_dep := hI.deposit p.producer p.seq p.call h_drained
    exact h_dep.congr rfl rfl rfl
  | @pushMark i took p _ _ =>
    have h_mark := hI.mark (markDoneIf_st p.call p.producer)
    exact h_mark.congr rfl rfl rfl
  -- the fetches before have been answered
  | fetchBegin _ => exact hI.newFetch rfl hseq
  | fetchGone _ => exact hI.newFetch rfl hseq
  | fetchPop hf hpc _ _ => exact hI.pop hf hpc rfl (by simp)
  | fetchAccumulate hf hpc hrsp =>
    exact (hI.withBuffer (by simp) (by simp)).setFetch hf (by simp [hpc]) (by rw [hrsp]) (by simp)
  | fetchServed hf hpc => exact hI.setFetch hf (by simp [hpc]) rfl (by simp)
  | fetchCounted hf hpc => exact hI.setFetch hf (by simp [hpc]) rfl (by simp)
  | fetchCanceled hf hpc => exact hI.setFetch hf (by simp [hpc]) rfl (by simp)
  | fetchFinal hf hpc => exact hI.setFetch hf (by simp [hpc]) rfl (by simp)
  | @fetchPut i dt f hf hpc _ _ _ =>
    have h_set := hI.setFetch (g := { f with pc := .closing }) hf (by simp [hpc]) rfl (by simp)
    exact ⟨h_set.found, h_set.drained, h_set.flow, h_set.taken, h_set.last⟩
  | fetchNoPut hf hpc _ _ => exact hI.setFetch hf (by simp [hpc]) rfl (by simp)
  | fetchMore hf hpc _ => exact hI.setFetch hf (by simp [hpc]) rfl (by simp)
  | @fetchErase i dt f hf hpc =>
    have h_set := hI.setFetch (g := { f with pc := .answered }) hf (by simp [hpc]) rfl (by simp)
    exact h_set.congr rfl rfl rfl
  | cancelFound _ => exact hI.cancelBuffer.congr rfl rfl rfl
  | janitorCancel _ => exact hI.cancelBuffer.congr rfl rfl rfl
  | _ => exact hI.congr rfl rfl rfl

theorem OrderInv.step (hI : OrderInv s.store)
    (hseq : Sequential s l) (h : R.cascade.Step s l s') : OrderInv s'.store := by
  cases h with
  | @collect i id c d todo r hc hpc hd hr => exact hI.mark (settle_st c.dst c.msg d.dst (some r))
  | @expire i id c d todo hc hpc hd => exact hI.mark (settle_st c.dst c.msg d.dst none)
  | env he => exact hI.env (env_cases he) hseq
  | _ => exact hI.congr rfl rfl rfl

theorem OrderInv.initial (R : Request Node Row) : OrderInv R.startStore where
  found _ h := absurd h List.not_mem_nil
  drained _ := congrArg ChunkBuffer.q R.start_buffer
  flow _ := by
    have h_q : R.startStore.st.buffer.q = [] := congrArg ChunkBuffer.q R.start_buffer
    rw [h_q]
    rfl
  taken := List.prefix_refl _
  last _ _ h := absurd h (by simp [startStore])

end Run

/-! ### From the engine to the log -/

/-- The current chunk of the worker has been deposited. -/
def Worker.delivered (pushes : List (PushCall Node Row)) (w : Worker Node Row) : Bool :=
  match w.pc with
  | .deposited => true
  | .pushing id _ => pushes[id]?.any fun p => p.pc.deposited
  | _ => false

/-- The chunks that the worker is done with, and the current one if it has been deposited. -/
def Worker.kept (pushes : List (PushCall Node Row)) (w : Worker Node Row) : List (SinkCall Row) :=
  w.history.map Prod.fst ++ if Worker.delivered pushes w then w.todo.take 1 else []

/-- The rows of the sink calls of a worker are the first that its engine emits. -/
def EmittedInv (R : Request Node Row) (σ : Store Node Row) : Prop :=
  ∀ w ∈ σ.workers, (w.history.map Prod.fst ++ w.todo).flatMap SinkCall.rows <+:
    (R.scan w.node).rows

section Kept

variable {w : Worker Node Row} {c : SinkCall Row} {todo : List (SinkCall Row)}
  {pushes : List (PushCall Node Row)}

theorem kept_of_delivered (h : Worker.delivered pushes w = true) (htodo : w.todo = c :: todo) :
    Worker.kept pushes w = w.history.map Prod.fst ++ [c] := by
  rw [Worker.kept, if_pos h, htodo]
  rfl

theorem kept_of_not_delivered (h : Worker.delivered pushes w = false) :
    Worker.kept pushes w = w.history.map Prod.fst := by
  rw [Worker.kept, if_neg (by simp [h]), List.append_nil]

/-- What is kept is at least what the worker is done with, and at most the chunk more that
it is at. -/
theorem kept_bounds (htodo : w.todo = c :: todo) :
    (w.history.map Prod.fst).Sublist (Worker.kept pushes w) ∧
      (Worker.kept pushes w).Sublist (w.history.map Prod.fst ++ [c]) := by
  cases h : Worker.delivered pushes w with
  | true =>
    rw [kept_of_delivered h htodo]
    exact ⟨List.sublist_append_left _ _, List.Sublist.refl _⟩
  | false =>
    rw [kept_of_not_delivered h]
    exact ⟨List.Sublist.refl _, List.sublist_append_left _ _⟩

/-- A worker that goes on is done with its chunk. -/
theorem kept_advance (outcome : Outcome) :
    Worker.kept pushes (w.advance c todo outcome) = w.history.map Prod.fst ++ [c] := by
  rw [kept_of_not_delivered rfl]
  change (w.history ++ [(c, outcome)]).map Prod.fst = _
  rw [List.map_append]
  rfl

/-- What is kept has been handed to the sink. -/
theorem kept_sublist_made : (Worker.kept pushes w).Sublist w.made := by
  unfold Worker.kept Worker.made
  refine List.Sublist.append_left ?_ _
  split
  · next h =>
    split
    · next hpc => exact absurd h (by simp [Worker.delivered, hpc])
    · exact List.Sublist.refl _
  · exact List.nil_sublist _

/-- What has been handed to the sink comes first. -/
theorem made_prefix : w.made <+: w.history.map Prod.fst ++ w.todo := by
  unfold Worker.made
  rw [List.prefix_append_right_inj]
  split
  · exact List.nil_prefix
  · exact List.take_prefix _ _

end Kept

section Env

variable [DecidableEq Node] {R : Request Node Row} {σ σ' : Store Node Row} {e : Event Node}
  {s s' : State Node Row} {l : Label Node}

/-- A call that has deposited its chunk says so, unless it fails. -/
theorem EnvStep.deposited_mono (h : R.EnvStep σ e σ') (hcalls : ∀ i j, e ≠ .pushFail i j)
    (id : ℕ) (hdeposited : (σ.pushes[id]?.any fun p => p.pc.deposited) = true) :
    (σ'.pushes[id]?.any fun p => p.pc.deposited) = true := by
  have h_append : ∀ new, ((σ.pushes ++ [new])[id]?.any fun p => p.pc.deposited) = true := by
    intro new
    cases hp : σ.pushes[id]? with
    | none =>
      rw [hp] at hdeposited
      exact absurd hdeposited (by simp)
    | some p =>
      rw [List.getElem?_append_left (List.getElem?_eq_some_iff.mp hp).1]
      exact hdeposited
  have h_set : ∀ {i : ℕ} {p p' : PushCall Node Row}, σ.pushes[i]? = some p →
      (p.pc.deposited = true → p'.pc.deposited = true) →
      ((σ.pushes.set i p')[id]?.any fun p => p.pc.deposited) = true := by
    intro i p p' hp hgo
    by_cases hi : i = id
    · subst hi
      rw [List.getElem?_set_self (List.getElem?_eq_some_iff.mp hp).1]
      rw [hp] at hdeposited
      exact hgo hdeposited
    · rw [List.getElem?_set_ne hi]
      exact hdeposited
  cases h with
  | workPush _ _ _ _ _ => exact h_append _
  | workRetry _ _ _ => exact h_append _
  | pushFound hp hpc _ => exact h_set hp (by simp [hpc, PushPc.deposited])
  | pushUnregistered hp hpc _ => exact h_set hp (by simp [hpc, PushPc.deposited])
  | pushNoRoute hp hpc _ _ => exact h_set hp (by simp [hpc, PushPc.deposited])
  | pushRelay hp hpc _ _ _ => exact h_set hp (by simp [hpc, PushPc.deposited])
  | pushNoPeer hp hpc _ _ _ => exact h_set hp (by simp [hpc, PushPc.deposited])
  | pushCanceled hp hpc _ => exact h_set hp (by simp [hpc, PushPc.deposited])
  | pushLive hp hpc _ => exact h_set hp (by simp [hpc, PushPc.deposited])
  | pushDeposit hp _ => exact h_set hp fun _ => rfl
  | pushMark hp _ => exact h_set hp fun _ => rfl
  | pushAck hp _ => exact h_set hp fun _ => rfl
  | pushReturn hp hpc _ =>
    -- a relay passes `ok` on
    exact h_set hp (by simp [hpc, PushPc.deposited, PushChunkAck.relay])
  | @pushFail i j p _ _ => exact absurd rfl (hcalls i j)
  | _ => exact hdeposited

/-- **A worker keeps what it has kept**, as long as no call fails. -/
theorem EnvStep.kept_mono (h : R.EnvStep σ e σ') (hcalls : ∀ i j, e ≠ .pushFail i j) :
    ∀ v' ∈ σ'.workers, ∃ v ∈ σ.workers, v'.node = v.node ∧
      (Worker.kept σ.pushes v).Sublist (Worker.kept σ'.pushes v') := by
  have h_old : ∀ v ∈ σ.workers, ∃ u ∈ σ.workers, v.node = u.node ∧
      (Worker.kept σ.pushes u).Sublist (Worker.kept σ'.pushes v) := by
    intro v hv
    refine ⟨v, hv, rfl, List.Sublist.append_left ?_ _⟩
    by_cases hdelivered : Worker.delivered σ.pushes v = true
    · have h_still : Worker.delivered σ'.pushes v = true := by
        unfold Worker.delivered at hdelivered ⊢
        split
        · rfl
        · next id retries hpc =>
          rw [hpc] at hdelivered
          exact h.deposited_mono hcalls id hdelivered
        · next hpc hpushing =>
          split at hdelivered
          · next hpc' => exact absurd hpc' hpc
          · next id retries hpc' => exact absurd hpc' (hpushing id retries)
          · exact absurd hdelivered (by simp)
      rw [if_pos hdelivered, if_pos h_still]
    · rw [if_neg hdelivered]
      exact List.nil_sublist _
  -- the worker that moves had not deposited its current chunk, and has it still
  have h_stay : ∀ {k : ℕ} {w w' : Worker Node Row}, σ.workers[k]? = some w →
      w'.node = w.node → w'.history = w.history → Worker.delivered σ.pushes w = false →
      ∃ v ∈ σ.workers, w'.node = v.node ∧
        (Worker.kept σ.pushes v).Sublist (Worker.kept σ'.pushes w') := by
    intro k w w' hw hnode hhistory hdelivered
    refine ⟨w, List.mem_of_getElem? hw, hnode, ?_⟩
    rw [kept_of_not_delivered hdelivered, Worker.kept, hhistory]
    exact List.sublist_append_left _ _
  -- the worker is done with its current chunk
  have h_advance : ∀ {k : ℕ} {w : Worker Node Row} {c : SinkCall Row}
      {todo : List (SinkCall Row)} {outcome : Outcome}, σ.workers[k]? = some w →
      w.todo = c :: todo → ∃ v ∈ σ.workers, (w.advance c todo outcome).node = v.node ∧
        (Worker.kept σ.pushes v).Sublist (Worker.kept σ'.pushes (w.advance c todo outcome)) := by
    intro k w c todo outcome hw htodo
    refine ⟨w, List.mem_of_getElem? hw, rfl, ?_⟩
    rw [kept_advance]
    exact (kept_bounds htodo).2
  cases h with
  | workFound hw hpc _ _ _ _ =>
    exact forall_mem_set h_old (h_stay hw rfl rfl (by simp [Worker.delivered, hpc]))
  | workGone hw _ htodo _ _ => exact forall_mem_set h_old (h_advance hw htodo)
  | workPush hw hpc _ _ _ =>
    exact forall_mem_set h_old (h_stay hw rfl rfl (by simp [Worker.delivered, hpc]))
  | workNoPeer hw _ htodo _ _ => exact forall_mem_set h_old (h_advance hw htodo)
  | workDeposit hw hpc _ =>
    exact forall_mem_set h_old (h_stay hw rfl rfl (by simp [Worker.delivered, hpc]))
  | workMark hw _ htodo => exact forall_mem_set h_old (h_advance hw htodo)
  | workAcked hw _ htodo _ _ _ _ => exact forall_mem_set h_old (h_advance hw htodo)
  | workCanceled hw _ htodo _ _ _ _ _ => exact forall_mem_set h_old (h_advance hw htodo)
  | workBackoff hw hpc _ hp _ hack hok _ =>
    -- the answer is not `ok`, so there was no deposit
    exact forall_mem_set h_old (h_stay hw rfl rfl
      (by simp [Worker.delivered, hpc, hp, hack, hok, PushPc.deposited]))
  | workRetry hw hpc _ =>
    exact forall_mem_set h_old (h_stay hw rfl rfl (by simp [Worker.delivered, hpc]))
  | workExhausted hw _ htodo => exact forall_mem_set h_old (h_advance hw htodo)
  | cut hw hpc _ _ _ =>
    exact forall_mem_set h_old (h_stay hw rfl rfl (by simp [Worker.delivered, hpc]))
  | _ => exact h_old

/-- The chunks of a producer in the log. -/
def sent (σ : Store Node Row) (n : Node) : List (SinkCall Row) :=
  (σ.log.filter fun d => d.producer = n).map Deposit.call

/-- What is in the log, the workers have kept, in this order. -/
structure KeptInv (σ : Store Node Row) : Prop where
  kept : ∀ w ∈ σ.workers, (sent σ w.node).Sublist (Worker.kept σ.pushes w)
  /-- Somebody waits for every call. -/
  held : ∀ p ∈ σ.pushes, p.worker.isSome = true
  accepted : ∀ d ∈ σ.log, d.accepted.Sublist d.call.rows

theorem sent_deposit_self (producer : Node) (seq : ℕ) (c : SinkCall Row) :
    sent (σ.deposit producer seq c) producer = sent σ producer ++ [c] := by
  unfold sent
  change (List.filter _ (σ.log ++ [_])).map _ = _
  rw [List.filter_append, List.map_append, List.filter_singleton, decide_eq_true rfl]
  rfl

theorem sent_deposit_of_ne {producer n : Node} (hne : producer ≠ n) (seq : ℕ)
    (c : SinkCall Row) : sent (σ.deposit producer seq c) n = sent σ n := by
  unfold sent
  change (List.filter _ (σ.log ++ [_])).map _ = _
  rw [List.filter_append, List.map_append, List.filter_singleton, decide_eq_false hne]
  exact List.append_nil _

/-- **The order of the chunks in the log**: what is deposited comes after what its worker
is done with. -/
theorem KeptInv.kept_env (hI : KeptInv σ) (h : R.EnvStep σ e σ')
    (hcalls : ∀ i j, e ≠ .pushFail i j) (hS : SenderInv σ) (hD : DepositInv σ)
    (hnodes : (σ.workers.map Worker.node).Nodup) :
    ∀ w ∈ σ'.workers, (sent σ' w.node).Sublist (Worker.kept σ'.pushes w) := by
  intro v' hv'
  -- the worker before the action, and that each node has one worker only
  obtain ⟨v, hv, hnode, hsub⟩ := h.kept_mono hcalls v' hv'
  have h_before : (sent σ v'.node).Sublist (Worker.kept σ.pushes v) := hnode ▸ hI.kept v hv
  have h_only : ∀ u ∈ σ.workers, u.node = v'.node → u = v := fun u hu heq =>
    List.inj_on_of_nodup_map hnodes hu hv (heq.trans hnode)
  have h_only' : ∀ u ∈ σ'.workers, u.node = v'.node → u = v' := fun u hu heq =>
    List.inj_on_of_nodup_map (h.nodes_eq ▸ hnodes) hu hv' heq
  rcases h.log_cases with hlog | ⟨k, w, c, hdep, rfl⟩ | ⟨i, p, hdep, rfl⟩
  · -- nothing is deposited
    have h_sent : sent σ' v'.node = sent σ v'.node := by
      unfold sent
      rw [hlog]
    rw [h_sent]
    exact h_before.trans hsub
  · by_cases hw : w.node = v'.node
    · -- the portal's own worker deposits its current chunk
      obtain ⟨todo, htodo⟩ : ∃ todo, w.todo = c :: todo := List.head?_eq_some_iff.mp hdep.head
      obtain rfl := h_only w (List.mem_of_getElem? hdep.get) hw
      obtain rfl := h_only' _ (mem_set_self hdep.get) hw
      -- before the deposit the chunk did not count as delivered, and after it does
      rw [kept_of_not_delivered (by simp [Worker.delivered, hdep.pc])] at h_before
      rw [kept_of_delivered (w := { w with pc := .deposited }) rfl htodo]
      change (sent (σ.deposit w.node _ c) w.node).Sublist _
      rw [sent_deposit_self]
      exact h_before.append_right [c]
    · -- a deposit of another node
      change (sent (σ.deposit w.node _ c) v'.node).Sublist _
      rw [sent_deposit_of_ne hw]
      exact h_before.trans hsub
  · by_cases hp : p.producer = v'.node
    · -- the worker that waits for the call is at the chunk of the call
      obtain ⟨k, hk⟩ := Option.isSome_iff_exists.mp
        (hI.held p (List.mem_of_getElem? hdep.get))
      obtain ⟨w, retries, hw, hpc⟩ := hS.waiting i p hdep.get (by rw [hdep.pc]; rfl) k hk
      have hw := List.mem_of_getElem? hw
      obtain ⟨p', hp', h_producer, -, h_head⟩ := (hD.workers w hw).pushing i retries hpc
      obtain rfl := Option.some.inj (hdep.get.symm.trans hp')
      obtain ⟨todo, htodo⟩ : ∃ todo, w.todo = p.call :: todo := List.head?_eq_some_iff.mp h_head
      obtain rfl := h_only w hw (h_producer.symm.trans hp)
      obtain rfl := h_only' w hw (h_producer.symm.trans hp)
      rw [kept_of_not_delivered (by
        simp [Worker.delivered, hpc, hdep.get, hdep.pc, PushPc.deposited])] at h_before
      have h_delivered : Worker.delivered (σ.pushes.set i { p with
          pc := .pushed (σ.st.buffer.pushRows p.call.rows).2 }) w = true := by
        rw [Worker.delivered, hpc]
        dsimp only
        rw [List.getElem?_set_self (List.getElem?_eq_some_iff.mp hdep.get).1]
        rfl
      change List.Sublist _ (Worker.kept (σ.pushes.set i _) w)
      rw [kept_of_delivered h_delivered htodo]
      change (sent (σ.deposit p.producer p.seq p.call) w.node).Sublist _
      rw [← h_producer] at h_before ⊢
      rw [sent_deposit_self]
      exact h_before.append_right [p.call]
    · -- a deposit of another node
      change (sent (σ.deposit p.producer p.seq p.call) v'.node).Sublist _
      rw [sent_deposit_of_ne hp]
      exact h_before.trans hsub

/-- Without failed calls, nobody stops to wait for one. -/
theorem EnvStep.pushes_held (h : R.EnvStep σ e σ') (hcalls : ∀ i j, e ≠ .pushFail i j)
    (hI : ∀ p ∈ σ.pushes, p.worker.isSome = true) : ∀ p ∈ σ'.pushes, p.worker.isSome = true := by
  cases h with
  -- a new call is waited for; the others keep who waits for them
  | workPush _ _ _ _ _ => exact forall_mem_concat hI rfl
  | workRetry _ _ _ => exact forall_mem_concat hI rfl
  | pushFound hp _ _ => exact forall_mem_set_of hI hp id
  | pushUnregistered hp _ _ => exact forall_mem_set_of hI hp id
  | pushNoRoute hp _ _ _ => exact forall_mem_set_of hI hp id
  | pushRelay hp _ _ _ _ => exact forall_mem_set_of hI hp id
  | pushNoPeer hp _ _ _ _ => exact forall_mem_set_of hI hp id
  | pushCanceled hp _ _ => exact forall_mem_set_of hI hp id
  | pushLive hp _ _ => exact forall_mem_set_of hI hp id
  | pushDeposit hp _ => exact forall_mem_set_of hI hp id
  | pushMark hp _ => exact forall_mem_set_of hI hp id
  | pushAck hp _ => exact forall_mem_set_of hI hp id
  | pushReturn hp _ _ => exact forall_mem_set_of hI hp id
  | @pushFail i j p _ _ => exact absurd rfl (hcalls i j)
  | _ => exact hI

theorem KeptInv.step (hI : KeptInv s.store) (hS : SenderInv s.store) (hD : DepositInv s.store)
    (hnodes : (s'.store.workers.map Worker.node).Nodup) (hseq : Sequential s l)
    (h : R.cascade.Step s l s') : KeptInv s'.store := by
  have h_nodes := nodes_nodup_of_step h hnodes
  cases h with
  | @finish _ c hc hpc =>
    refine ⟨forall_mem_concat hI.kept ?_, hI.held, hI.accepted⟩
    -- nothing has been sent by a node that starts to execute
    have h_none : sent s.store c.dst = [] := by
      have hnodes : ((s.store.workers ++ [_]).map Worker.node).Nodup := hnodes
      rw [List.map_append, List.nodup_append] at hnodes
      unfold sent
      rw [List.map_eq_nil_iff, List.filter_eq_nil_iff]
      intro d hd hproducer
      obtain ⟨w, hw, h_node, -⟩ := hS.log d hd
      refine hnodes.2.2 _ (List.mem_map.mpr ⟨w, hw, rfl⟩) _ (List.mem_singleton_self _) ?_
      exact h_node.trans (of_decide_eq_true hproducer)
    change (sent s.store c.dst).Sublist _
    rw [h_none]
    exact List.nil_sublist _
  | @env e σ he =>
    have he := env_cases he
    have h_calls : ∀ i j, e ≠ .pushFail i j := by
      rintro i j rfl
      exact hseq
    exact ⟨hI.kept_env he h_calls hS hD h_nodes, he.pushes_held h_calls hI.held,
      he.accepted_sublist hI.accepted⟩
  | _ => exact ⟨hI.kept, hI.held, hI.accepted⟩

theorem KeptInv.initial (R : Request Node Row) : KeptInv R.startStore :=
  ⟨fun _ h => absurd h List.not_mem_nil, fun _ h => absurd h List.not_mem_nil,
    fun _ h => absurd h List.not_mem_nil⟩

/-- A worker's sink calls stay those of its engine; a worker that is canceled makes one last
call with the rows it has gathered. -/
theorem EmittedInv.env (hI : R.EmittedInv σ) (h : R.EnvStep σ e σ') : R.EmittedInv σ' := by
  unfold EmittedInv
  rcases h.worker_step with heq | ⟨k, w, w', hw, hstep, heq⟩
  · rw [heq]
    exact hI
  have h_w := hI w (List.mem_of_getElem? hw)
  rw [heq]
  refine forall_mem_set hI ?_
  cases hstep with
  | stay pc => exact h_w
  | @advance c todo outcome htodo _ _ =>
    -- the current chunk moves to the history
    change ((w.history ++ [(c, outcome)]).map Prod.fst ++ todo).flatMap SinkCall.rows <+: _
    rw [List.map_append, List.append_assoc]
    rw [htodo] at h_w
    exact h_w
  | @cut m c todo htodo =>
    -- what is left are the first rows of the current chunk
    rw [htodo, List.flatMap_append, List.flatMap_cons] at h_w
    change (w.history.map Prod.fst ++ [(⟨c.rows.take m, true⟩ : SinkCall Row)]).flatMap
      SinkCall.rows <+: _
    rw [List.flatMap_append, List.flatMap_singleton]
    refine List.IsPrefix.trans ?_ h_w
    rw [List.prefix_append_right_inj]
    exact (List.take_prefix m c.rows).trans (List.prefix_append _ _)

theorem EmittedInv.step (hI : R.EmittedInv s.store) (h : R.cascade.Step s l s') :
    R.EmittedInv s'.store := by
  cases h with
  | finish _ _ => exact forall_mem_concat hI (List.prefix_refl _)
  | env he => exact EmittedInv.env hI (env_cases he)
  | _ => exact hI

/-! ### Each producer in its order -/

/-- The rows that the engine of a node has emitted so far. -/
def emitted (σ : Store Node Row) (n : Node) : List Row :=
  (σ.workers.filter fun w => w.node = n).flatMap fun w => w.made.flatMap SinkCall.rows

/-- The rows of a producer among those accepted. -/
theorem filter_tagged (n : Node) : ((tagged σ).filter fun x => x.1 = n).map Prod.snd =
    (σ.log.filter fun d => d.producer = n).flatMap Deposit.accepted := by
  unfold tagged
  induction σ.log with
  | nil => rfl
  | cons d log ih =>
    rw [List.flatMap_cons, List.filter_append, List.map_append, ih, List.filter_map]
    -- a deposit is one of the node with all of its rows, or with none
    by_cases hd : d.producer = n
    · rw [List.filter_cons, if_pos (decide_eq_true hd), List.flatMap_cons]
      have h_all : d.accepted.filter ((fun x : Node × Row => decide (x.1 = n)) ∘
          Prod.mk d.producer) = d.accepted := by
        rw [List.filter_eq_self]
        exact fun r _ => decide_eq_true hd
      rw [h_all, List.map_map]
      exact congrArg (· ++ _) (List.map_id _)
    · rw [List.filter_cons, if_neg (by simpa using hd)]
      have h_none : d.accepted.filter ((fun x : Node × Row => decide (x.1 = n)) ∘
          Prod.mk d.producer) = [] := by
        rw [List.filter_eq_nil_iff]
        exact fun r _ h => hd (of_decide_eq_true h)
      rw [h_none]
      rfl

omit [DecidableEq Node] in
/-- The accepted rows without their producers. -/
theorem map_snd_tagged : (tagged σ).map Prod.snd = accepted σ := by
  unfold tagged accepted
  rw [List.map_flatMap]
  refine List.flatMap_congr fun d _ => ?_
  rw [List.map_map]
  exact List.map_id _

omit [DecidableEq Node] in
/-- What the client has received, without its producers, is what has been returned. -/
theorem map_snd_received (hO : OrderInv σ) : (received σ).map Prod.snd = returned σ := by
  have h_prefix := hO.returned_prefix
  unfold received
  rw [List.map_take, map_snd_tagged]
  exact (List.prefix_iff_eq_take.mp h_prefix).symm

/-- The rows of a producer that the client has received are among those that its worker has
handed to the sink, in this order. -/
theorem KeptInv.received_sublist (hI : KeptInv σ) (hS : SenderInv σ)
    (hnodes : (σ.workers.map Worker.node).Nodup) (n : Node) :
    (((received σ).filter fun x => x.1 = n).map Prod.snd).Sublist (emitted σ n) := by
  -- what has been received is part of what has been accepted
  have h_received : (((received σ).filter fun x => x.1 = n).map Prod.snd).Sublist
      ((σ.log.filter fun d => d.producer = n).flatMap Deposit.accepted) := by
    rw [← filter_tagged]
    exact ((List.take_sublist _ _).filter _).map _
  refine h_received.trans ?_
  by_cases hw : ∃ w ∈ σ.workers, w.node = n
  · obtain ⟨w, hw, rfl⟩ := hw
    have h_emitted : emitted σ w.node = w.made.flatMap SinkCall.rows := by
      unfold emitted
      rw [filter_key_eq_singleton hnodes hw, List.flatMap_singleton]
    have h_accepted : ((σ.log.filter fun d => d.producer = w.node).flatMap
        Deposit.accepted).Sublist ((sent σ w.node).flatMap SinkCall.rows) := by
      unfold sent
      rw [List.flatMap_map]
      exact List.Sublist.flatMap_right _ fun d hd => hI.accepted d (List.mem_of_mem_filter hd)
    rw [h_emitted]
    exact h_accepted.trans (((hI.kept w hw).trans kept_sublist_made).flatMap _)
  · -- a node that does not execute sends nothing
    have h_none : (σ.log.filter fun d => d.producer = n) = [] := by
      rw [List.filter_eq_nil_iff]
      intro d hd hproducer
      obtain ⟨w, hmem, h_node, -⟩ := hS.log d hd
      exact hw ⟨w, hmem, h_node.trans (of_decide_eq_true hproducer)⟩
    rw [h_none]
    exact List.nil_sublist _

/-- What a node has emitted so far comes first in what its engine emits. -/
theorem EmittedInv.emitted_prefix (hI : R.EmittedInv σ)
    (hnodes : (σ.workers.map Worker.node).Nodup) (n : Node) :
    emitted σ n <+: (R.scan n).rows := by
  unfold emitted
  by_cases hw : ∃ w ∈ σ.workers, w.node = n
  · -- the node's only worker has made the first sink calls of its engine
    obtain ⟨w, hw, rfl⟩ := hw
    rw [filter_key_eq_singleton hnodes hw, List.flatMap_singleton]
    refine List.IsPrefix.trans ?_ (hI w hw)
    obtain ⟨rest, heq⟩ := made_prefix (w := w)
    rw [← heq, List.flatMap_append]
    exact List.prefix_append _ _
  · have h_none : (σ.workers.filter fun w => w.node = n) = [] := by
      rw [List.filter_eq_nil_iff]
      exact fun w hmem hnode => hw ⟨w, hmem, of_decide_eq_true hnode⟩
    rw [h_none]
    exact List.nil_prefix

/-- **The order of a producer's rows is kept from end to end.** In every run in which one
client fetches sequentially, no push call fails and each node executes once: the rows
returned are the first rows that the buffer has queued, and among them, those of each
producer are a subsequence of the rows that its engine has emitted so far, which in turn
come first in what the engine emits. -/
theorem producer_order (R : Request Node Row) (h : R.machine.Reachable Sequential s)
    (honce : (s.store.workers.map Worker.node).Nodup) :
    (received s.store).map Prod.snd = returned s.store ∧
    ∀ n, (((received s.store).filter fun x => x.1 = n).map Prod.snd).Sublist
        (emitted s.store n) ∧ emitted s.store n <+: (R.scan n).rows := by
  -- the order in the log rests on one worker for each node
  obtain ⟨⟨hO, hE, hS, -⟩, hK⟩ := h.invariant
    (fun s => (OrderInv s.store ∧ R.EmittedInv s.store ∧ SenderInv s.store ∧
      DepositInv s.store) ∧ ((s.store.workers.map Worker.node).Nodup → KeptInv s.store))
    ⟨⟨.initial R, fun _ h => absurd h List.not_mem_nil, .initial R, .initial R⟩,
      fun _ => .initial R⟩
    fun s l s' ⟨⟨hO, hE, hS, hD⟩, hK⟩ hseq hstep => by
      have hstep := Cascade.step_iff.mp hstep
      refine ⟨⟨hO.step hseq hstep, hE.step hstep, hS.step hstep, hD.step hstep⟩, fun hnodes => ?_⟩
      exact (hK (nodes_nodup_of_step hstep hnodes)).step hS hD hnodes hseq hstep
  exact ⟨map_snd_received hO, fun n =>
    ⟨(hK honce).received_sublist hS honce n, hE.emitted_prefix honce n⟩⟩

end Env

/-- `b` sends two chunks of one row each, and the client fetches after each of them. -/
theorem producer_order_two : ∃ s, twoChunks.machine.Reachable Sequential s ∧
    returned s.store = [1, 2] ∧ (received s.store).map Prod.snd = returned s.store ∧
    (((received s.store).filter fun x => x.1 = .b).map Prod.snd).Sublist
      (twoChunks.scan .b).rows := by
  obtain ⟨s, hrun, honce, h_returned⟩ := Machine.exists_run_of_exec (M := twoChunks.machine)
    (P := Sequential) (s := twoChunks.start)
    (l := bothExecute ++ pushThrough 0 0 ++ fetchOnce.take 8 ++ pushThrough 0 1 ++ depositLocal 1 ++
      [.env (.fetchBegin 0)] ++ List.replicate 8 (.env (.fetch 1 100)))
    (Φ := fun s => (s.store.workers.map Worker.node).Nodup ∧ returned s.store = [1, 2])
    (by decide +kernel)
  obtain ⟨h_received, h_order⟩ := producer_order twoChunks ⟨_, hrun⟩ honce
  have h_b := h_order .b
  exact ⟨s, ⟨_, hrun⟩, h_returned, h_received, h_b.1.trans h_b.2.sublist⟩

end Request
end Mini2
