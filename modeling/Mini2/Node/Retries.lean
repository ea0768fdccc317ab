import Mini2.Node.Delivery

/-!
# Chunks that are tried again

A chunk is sent five times at most. Whether the chunks before the last one have
arrived when the last one does depends on what becomes of a chunk whose five
attempts have failed: the worker goes on to the next one as if it had been
acknowledged, and nothing at the portal looks at the numbers of the chunks.

`done_after_all` is about the runs in which one of the five attempts has reached the
buffer all the same: there, a chunk is deposited after all chunks before it.
`done_without_first` is a run in which all five calls fail on their way out.
-/

namespace Mini2

open Framework

variable {Node Row : Type*}

/-- The portal has looked the request up for the call, and has not answered it. -/
def PushPc.arrived : PushPc Node → Bool
  | .found => true
  | .live => true
  | .pushed _ => true
  | .marked _ => true
  | _ => false

namespace Request

/-- A chunk that a worker gives up is in the log: one of its attempts has been carried
out, although the worker has not learned of it. -/
def GivesUpRecorded (s : State Node Row) : Label Node → Prop
  | .env (.work k) => ∀ w ∈ s.store.workers[k]?, w.pc = .backoff 0 →
      ∀ c ∈ w.todo.head?, Recorded s.store.log w.node (w.history.length + 1) c
  | _ => True

section Decidable

variable [DecidableEq Node] [DecidableEq Row]

instance (log : List (Deposit Node Row)) (producer : Node) (seq : ℕ) (c : SinkCall Row) :
    Decidable (Recorded log producer seq c) := by
  unfold Recorded
  infer_instance

instance (s : State Node Row) (l : Label Node) : Decidable (GivesUpRecorded s l) := by
  unfold GivesUpRecorded
  induction l using Framework.Cascade.Label.casesOn with
  | env e => induction e using Event.casesOn <;> infer_instance
  | _ => infer_instance

end Decidable

/-- Chunks reach the log in their order. -/
structure InOrder (R : Request Node Row) (σ : Store Node Row) : Prop where
  exhausted : ∀ w ∈ σ.workers, ∀ k c, w.history[k]? = some (c, .exhausted) →
    Recorded σ.log w.node (k + 1) c
  /-- The portal's own deposit comes after the chunks before it. -/
  found : ∀ w ∈ σ.workers, w.pc = .found → R.Upto σ.log w.node w.history.length
  /-- A chunk is on its way after the chunks before it, or for nothing. -/
  travelling : ∀ p ∈ σ.pushes, ∀ n, p.pc = .at n →
    R.Upto σ.log p.producer (p.seq - 1) ∨ σ.registered = false
  arrived : ∀ p ∈ σ.pushes, p.pc.arrived = true → R.Upto σ.log p.producer (p.seq - 1)
  log : ∀ d ∈ σ.log, R.Upto σ.log d.producer (d.seq - 1)

section Keep

variable {R : Request Node Row} {σ σ' : Store Node Row}

/-- A deposit comes after the chunks before it. -/
theorem InOrder.log_deposit (hI : R.InOrder σ) {producer : Node} {seq : ℕ} (c : SinkCall Row)
    (hupto : R.Upto σ.log producer (seq - 1)) :
    ∀ d ∈ (σ.deposit producer seq c).log,
      R.Upto (σ.deposit producer seq c).log d.producer (d.seq - 1) :=
  forall_mem_concat (fun d hd => (hI.log d hd).mono (List.prefix_append _ _))
    (hupto.mono (List.prefix_append _ _))

variable [DecidableEq Node] {e : Event Node}

/-- A chunk that is given up is in the log. -/
theorem EnvStep.exhausted_recorded (h : R.EnvStep σ e σ') (hI : R.InOrder σ)
    (hgives : ∀ k, e = .work k → ∀ w ∈ σ.workers[k]?, w.pc = .backoff 0 →
      ∀ c ∈ w.todo.head?, Recorded σ.log w.node (w.history.length + 1) c) :
    ∀ w ∈ σ'.workers, ∀ k c, w.history[k]? = some (c, .exhausted) →
      Recorded σ'.log w.node (k + 1) c := by
  have h_old : ∀ w ∈ σ.workers, ∀ k c, w.history[k]? = some (c, .exhausted) →
      Recorded σ'.log w.node (k + 1) c :=
    fun w hw k c hk => (hI.exhausted w hw k c hk).mono h.log_grows
  rcases h.worker_step with heq | ⟨k, w, w', hw, hstep, heq⟩
  · rw [heq]
    exact h_old
  have h_w := h_old w (List.mem_of_getElem? hw)
  rw [heq]
  refine forall_mem_set h_old ?_
  cases hstep with
  | stay pc => exact h_w
  | @advance c todo outcome htodo _ hexhausted =>
    intro j d hj
    rcases getElem?_concat_cases hj with hj | ⟨rfl, hx⟩
    · exact h_w j d hj
    · -- a worker that goes on has given its chunk up only if it says so
      obtain ⟨rfl, houtcome⟩ := Prod.mk.inj hx
      obtain ⟨rfl, hpc⟩ := hexhausted houtcome.symm
      exact (hgives k rfl w hw hpc d (by rw [htodo]; rfl)).mono h.log_grows
  | cut htodo => exact h_w

/-- The portal's own deposit comes after the chunks before it. -/
theorem EnvStep.found_upto (h : R.EnvStep σ e σ') (hI : R.InOrder σ) (hV : R.DeliveryInv σ)
    (hD : DepositInv σ) :
    ∀ w ∈ σ'.workers, w.pc = .found → R.Upto σ'.log w.node w.history.length := by
  have h_old : ∀ w ∈ σ.workers, w.pc = .found → R.Upto σ'.log w.node w.history.length :=
    fun w hw hpc => (hI.found w hw hpc).mono h.log_grows
  -- any other place of a worker asks for nothing
  have h_not : ∀ {w : Worker Node Row}, w.pc ≠ .found → w.pc = .found →
      R.Upto σ'.log w.node w.history.length := fun hne hpc => absurd hpc hne
  cases h with
  | workFound hw _ _ _ hnode hreg =>
    refine forall_mem_set h_old fun _ => ?_
    have hmem := List.mem_of_getElem? hw
    rcases hV.sent hD hmem (hI.exhausted _ hmem) with h | h | h
    · exact h
    · exact absurd h (by simp [hreg])
    · exact absurd hnode h.2
  | workGone _ _ _ _ _ => exact forall_mem_set h_old (h_not (by simp [Worker.advance]))
  | workPush _ _ _ _ _ => exact forall_mem_set h_old (h_not (by simp))
  | workNoPeer _ _ _ _ _ => exact forall_mem_set h_old (h_not (by simp [Worker.advance]))
  | workDeposit _ _ _ => exact forall_mem_set h_old (h_not (by simp))
  | workMark _ _ _ => exact forall_mem_set h_old (h_not (by simp [Worker.advance]))
  | workAcked _ _ _ _ _ _ _ => exact forall_mem_set h_old (h_not (by simp [Worker.advance]))
  | workCanceled _ _ _ _ _ _ _ _ => exact forall_mem_set h_old (h_not (by simp [Worker.advance]))
  | workBackoff _ _ _ _ _ _ _ _ => exact forall_mem_set h_old (h_not (by simp))
  | workRetry _ _ _ => exact forall_mem_set h_old (h_not (by simp))
  | workExhausted _ _ _ => exact forall_mem_set h_old (h_not (by simp [Worker.advance]))
  | cut hw hpc _ _ _ => exact forall_mem_set h_old (h_not (by simp [hpc]))
  | _ => exact h_old

omit [DecidableEq Node] in
/-- A chunk is sent after the chunks before it, or for nothing. -/
theorem DeliveryInv.sent_or_erased (hV : R.DeliveryInv σ) (hD : DepositInv σ) (hI : R.InOrder σ)
    {w : Worker Node Row} (hw : w ∈ σ.workers) (hself : w.upstream ≠ R.overlay.selfRoute) :
    R.Upto σ.log w.node w.history.length ∨ σ.registered = false := by
  rcases hV.sent hD hw (hI.exhausted w hw) with h | h | h
  · exact Or.inl h
  · exact Or.inr h
  · exact absurd h.1 hself

/-- Chunks travel after the chunks before them, or for nothing. -/
theorem EnvStep.travelling_upto (h : R.EnvStep σ e σ') (hI : R.InOrder σ) (hV : R.DeliveryInv σ)
    (hD : DepositInv σ) : ∀ p ∈ σ'.pushes, ∀ n, p.pc = .at n →
      R.Upto σ'.log p.producer (p.seq - 1) ∨ σ'.registered = false := by
  have h_grows := h.grows
  have h_old : ∀ p ∈ σ.pushes, ∀ n, p.pc = .at n →
      R.Upto σ'.log p.producer (p.seq - 1) ∨ σ'.registered = false :=
    fun p hp n hn => (hI.travelling p hp n hn).imp (fun h => h.mono h_grows.log) h_grows.erased
  -- a call that is not on its way asks for nothing
  have h_not : ∀ {p : PushCall Node Row}, (∀ n, p.pc ≠ .at n) → ∀ n, p.pc = .at n →
      R.Upto σ'.log p.producer (p.seq - 1) ∨ σ'.registered = false :=
    fun hne n hn => absurd hn (hne n)
  cases h with
  | workPush hw _ _ hself _ =>
    exact forall_mem_concat h_old fun _ _ =>
      hV.sent_or_erased hD hI (List.mem_of_getElem? hw) hself
  | workRetry hw hpc _ =>
    have hmem := List.mem_of_getElem? hw
    have h_self := (hV.workers _ hmem).sending (by rw [hpc]; rfl)
    exact forall_mem_concat h_old fun _ _ => hV.sent_or_erased hD hI hmem h_self
  | pushFound _ _ _ => exact forall_mem_set h_old (h_not (by simp))
  | pushUnregistered _ _ _ => exact forall_mem_set h_old (h_not (by simp))
  | pushNoRoute _ _ _ _ => exact forall_mem_set h_old (h_not (by simp))
  | pushRelay hp hpc _ _ _ =>
    have h_p := h_old _ (List.mem_of_getElem? hp) _ hpc
    exact forall_mem_set h_old fun _ _ => h_p
  | pushNoPeer _ _ _ _ _ => exact forall_mem_set h_old (h_not (by simp))
  | pushCanceled _ _ _ => exact forall_mem_set h_old (h_not (by simp))
  | pushLive _ _ _ => exact forall_mem_set h_old (h_not (by simp))
  | pushDeposit _ _ => exact forall_mem_set h_old (h_not (by simp))
  | pushMark _ _ => exact forall_mem_set h_old (h_not (by simp))
  | pushAck _ _ => exact forall_mem_set h_old (h_not (by simp))
  | pushReturn _ _ _ => exact forall_mem_set h_old (h_not (by simp))
  | pushFail hp _ =>
    have h_p := h_old _ (List.mem_of_getElem? hp)
    exact forall_mem_concat (forall_mem_set h_old (h_not (by simp))) h_p
  | _ => exact h_old

/-- The portal looks requests up for chunks whose predecessors are in the log. -/
theorem EnvStep.arrived_upto (h : R.EnvStep σ e σ') (hI : R.InOrder σ) :
    ∀ p ∈ σ'.pushes, p.pc.arrived = true → R.Upto σ'.log p.producer (p.seq - 1) := by
  have h_old : ∀ p ∈ σ.pushes, p.pc.arrived = true → R.Upto σ'.log p.producer (p.seq - 1) :=
    fun p hp hpc => (hI.arrived p hp hpc).mono h.log_grows
  have h_not : ∀ {p : PushCall Node Row}, p.pc.arrived = false → p.pc.arrived = true →
      R.Upto σ'.log p.producer (p.seq - 1) := fun hfalse hpc => absurd hpc (by simp [hfalse])
  -- a call that has arrived goes on
  have h_goto : ∀ {i : ℕ} {p : PushCall Node Row} {pc : PushPc Node}, σ.pushes[i]? = some p →
      p.pc.arrived = true → ({ p with pc := pc } : PushCall Node Row).pc.arrived = true →
      R.Upto σ'.log p.producer (p.seq - 1) :=
    fun hp harrived _ => h_old _ (List.mem_of_getElem? hp) harrived
  cases h with
  | workPush _ _ _ _ _ => exact forall_mem_concat h_old (h_not rfl)
  | workRetry _ _ _ => exact forall_mem_concat h_old (h_not rfl)
  | pushFound hp hpc hreg =>
    refine forall_mem_set h_old fun _ => ?_
    rcases hI.travelling _ (List.mem_of_getElem? hp) _ hpc with h | h
    · exact h
    · exact absurd h (by simp [hreg])
  | pushUnregistered _ _ _ => exact forall_mem_set h_old (h_not rfl)
  | pushNoRoute _ _ _ _ => exact forall_mem_set h_old (h_not rfl)
  | pushRelay _ _ _ _ _ => exact forall_mem_set h_old (h_not rfl)
  | pushNoPeer _ _ _ _ _ => exact forall_mem_set h_old (h_not rfl)
  | pushCanceled _ _ _ => exact forall_mem_set h_old (h_not rfl)
  | pushLive hp hpc _ => exact forall_mem_set h_old (h_goto hp (by rw [hpc]; rfl))
  | pushDeposit hp hpc => exact forall_mem_set h_old (h_goto hp (by rw [hpc]; rfl))
  | pushMark hp hpc => exact forall_mem_set h_old (h_goto hp (by rw [hpc]; rfl))
  | pushAck _ _ => exact forall_mem_set h_old (h_not rfl)
  | pushReturn _ _ _ => exact forall_mem_set h_old (h_not rfl)
  | pushFail hp _ =>
    have h_p := h_old _ (List.mem_of_getElem? hp)
    exact forall_mem_concat (forall_mem_set h_old (h_not rfl)) h_p
  | _ => exact h_old

/-- Deposits come after the chunks before them. -/
theorem EnvStep.log_upto (h : R.EnvStep σ e σ') (hI : R.InOrder σ) :
    ∀ d ∈ σ'.log, R.Upto σ'.log d.producer (d.seq - 1) := by
  cases h with
  | workDeposit hw hpc _ =>
    exact hI.log_deposit _ (hI.found _ (List.mem_of_getElem? hw) hpc)
  | pushDeposit hp hpc =>
    exact hI.log_deposit _ (hI.arrived _ (List.mem_of_getElem? hp) (by rw [hpc]; rfl))
  | _ => exact hI.log

end Keep

section Step

variable [DecidableEq Node] {R : Request Node Row} {s s' : State Node Row} {l : Label Node}

theorem InOrder.initial (R : Request Node Row) : R.InOrder R.startStore :=
  ⟨fun _ h => absurd h List.not_mem_nil, fun _ h => absurd h List.not_mem_nil,
    fun _ h => absurd h List.not_mem_nil, fun _ h => absurd h List.not_mem_nil,
    fun _ h => absurd h List.not_mem_nil⟩

/-- **Every action keeps the order**, if chunks that are given up are in the log. -/
theorem InOrder.step (hI : R.InOrder s.store) (hV : R.DeliveryInv s.store)
    (hD : DepositInv s.store) (hgives : GivesUpRecorded s l) (h : R.cascade.Step s l s') :
    R.InOrder s'.store := by
  cases h with
  | finish hc hpc =>
    refine ⟨forall_mem_concat hI.exhausted ?_, forall_mem_concat hI.found (by simp),
      hI.travelling, hI.arrived, hI.log⟩
    -- a worker that starts has sent nothing yet
    exact fun k c hk => absurd hk (by simp)
  | @env e σ he =>
    have h_env := env_cases he
    refine ⟨h_env.exhausted_recorded hI fun k hk => ?_, h_env.found_upto hI hV hD,
      h_env.travelling_upto hI hV hD, h_env.arrived_upto hI, h_env.log_upto hI⟩
    subst hk
    exact hgives
  | _ => exact ⟨hI.exhausted, hI.found, hI.travelling, hI.arrived, hI.log⟩

/-- **A recorded end means that nothing is missing**, in every run without cancellation in
which each deposit finds room and every chunk that is given up has reached the buffer:
when the last chunk of a producer is deposited, so are all chunks that the producer's
engine has emitted before it, with all of their rows. -/
theorem done_after_all (R : Request Node Row) {s : State Node Row}
    (h : R.machine.Reachable (fun s l => uncanceled l = true ∧ NeverShort s l ∧
      GivesUpRecorded s l) s) :
    ∀ d ∈ s.store.log, d.call.done = true → ∀ k c, (R.scan d.producer).calls[k]? = some c →
      k + 1 < d.seq →
        ∃ e ∈ s.store.log, e.producer = d.producer ∧ e.seq = k + 1 ∧ e.accepted = c.rows := by
  -- the order of the log rests on the flood, its routes and the deposits
  obtain ⟨-, ⟨-, h_full⟩, -, h_order⟩ := h.invariant
    (fun s => (R.FloodInv s ∧ R.UpstreamInv s ∧ DepositInv s.store) ∧
      (s.store.st.buffer.canceled = false ∧ Full s.store.log) ∧
      R.DeliveryInv s.store ∧ R.InOrder s.store)
    ⟨⟨.initial R, .initial R, .initial R⟩,
      ⟨start_live R, fun _ hd => absurd hd List.not_mem_nil⟩, .initial R, .initial R⟩
    fun s l s' ⟨⟨hF, hU, hD⟩, ⟨hlive, hfull⟩, hV, hI⟩ ⟨huncanceled, hshort, hgives⟩ hstep => by
      have hstep := Cascade.step_iff.mp hstep
      exact ⟨⟨hF.step hstep, hU.step hF hstep, hD.step hstep⟩,
        ⟨(step_live hstep huncanceled).trans hlive, hfull.step hlive hshort hstep⟩,
        hV.step hF hU hlive huncanceled hstep, hI.step hV hD hgives hstep⟩
  intro d hd _ k c hk hlt
  -- the earlier chunk is in the log, and has been taken as a whole
  obtain ⟨e, he, h_producer, h_seq, h_call⟩ := h_order.log d hd k (by omega)
  obtain rfl : e.call = c := Option.some.inj (h_call.symm.trans hk)
  exact ⟨e, he, h_producer, h_seq, h_full e he⟩

end Step

/-! ### Runs with failed calls -/

/-- Two nodes of which `b` emits two chunks of one row each. -/
def twoChunks : Request Overlay.Id3 ℕ where
  overlay := .pair
  params := .default
  scan n :=
    if n = .b then
      ⟨[⟨[1], false⟩, ⟨[2], true⟩], [⟨[1], false⟩], ⟨[2], true⟩, rfl, rfl, by simp⟩
    else .single []

/-- Both nodes have started to execute, `b` as worker 0. -/
def bothExecute : List (Label Overlay.Id3) :=
  [.send 0, .check 1, .commit 1, .finish 1, .collect 0, .finish 0]

/-- Worker `k` makes push call `i`, which fails on its way out. -/
def pushLost (k i : ℕ) : List (Label Overlay.Id3) :=
  [.env (.work k), .env (.pushFail i 0), .env (.work k)]

/-- Worker `k` makes push call `i`, which is carried out. -/
def pushThrough (k i : ℕ) : List (Label Overlay.Id3) :=
  .env (.work k) :: List.replicate 5 (.env (.push i)) ++ [.env (.work k)]

/-- The first call for chunk 1 fails, and the second is carried out. -/
theorem done_after_all_retry : ∃ s, twoChunks.machine.Reachable (fun s l => uncanceled l = true ∧
      NeverShort s l ∧ GivesUpRecorded s l) s ∧
    ∃ e ∈ s.store.log, e.producer = .b ∧ e.seq = 1 ∧ e.accepted = [1] := by
  obtain ⟨s, hrun, d, hd, hdone, h_producer, h_seq⟩ :=
    Machine.exists_run_of_exec (M := twoChunks.machine)
      (P := fun s l => uncanceled l = true ∧ NeverShort s l ∧ GivesUpRecorded s l)
      (s := twoChunks.start)
      (l := bothExecute ++ pushLost 0 0 ++ pushThrough 0 2 ++ pushThrough 0 3)
      (Φ := fun s => ∃ d ∈ s.store.log, d.call.done = true ∧ d.producer = .b ∧ d.seq = 2)
      (by decide +kernel)
  have h := done_after_all twoChunks ⟨_, hrun⟩ d hd hdone 0 ⟨[1], false⟩
    (by rw [h_producer]; rfl) (by omega)
  rw [h_producer] at h
  exact ⟨s, ⟨_, hrun⟩, h⟩

/-- All five calls for chunk 1 fail on their way out. Chunk 2 is deposited, and marks `b`
as done. -/
theorem done_without_first : ∃ s, twoChunks.machine.Reachable
      (fun s l => uncanceled l = true ∧ NeverShort s l) s ∧
    ∃ d ∈ s.store.log, d.call.done = true ∧ d.producer ∈ s.store.st.buffer.done ∧
      (∃ c, (twoChunks.scan d.producer).calls[0]? = some c) ∧ 0 + 1 < d.seq ∧
      ∀ e ∈ s.store.log, ¬ (e.producer = d.producer ∧ e.seq = 1) := by
  obtain ⟨s, hrun, d, hd⟩ := Machine.exists_run_of_exec (M := twoChunks.machine)
    (P := fun s l => uncanceled l = true ∧ NeverShort s l) (s := twoChunks.start)
    (l := bothExecute ++ pushLost 0 0 ++ pushLost 0 2 ++ pushLost 0 4 ++ pushLost 0 6 ++
      pushLost 0 8 ++ [.env (.work 0)] ++ pushThrough 0 10)
    (Φ := fun s => ∃ d ∈ s.store.log, d.call.done = true ∧ d.producer ∈ s.store.st.buffer.done ∧
      ((twoChunks.scan d.producer).calls[0]?).isSome ∧ 0 + 1 < d.seq ∧
      ∀ e ∈ s.store.log, ¬ (e.producer = d.producer ∧ e.seq = 1))
    (by decide +kernel)
  obtain ⟨hdone, hmark, hsome, h⟩ := hd.2
  exact ⟨s, ⟨_, hrun⟩, d, hd.1, hdone, hmark, Option.isSome_iff_exists.mp hsome, h⟩

end Request
end Mini2
