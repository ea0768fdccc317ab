import Mini2.Node.Deposits

/-!
# Backpressure

The buffer tells a producer to slow down by accepting fewer rows than it was
given. `PushChunk` turns a short count into a suggested delay and still answers
`ok`, on which the producer goes on to its next chunk; the portal's own
deposit does not look at the count at all. The rows beyond the count are gone.

`backpressure_keeps` is the promise under the condition that makes it true: every
chunk that reaches the buffer finds room for all of its rows, and the portal's own
chunks find their request. `backpressure_drops` is a run without it.
-/

namespace Mini2
namespace Request

open Framework

variable {Node Row : Type*}

/-! ### Runs without failures and cancellations -/

/-- No RPC fails and nothing is canceled or expired. -/
def clean : Label Node → Bool
  | .expire _ => false
  | .env (.pushFail _ _) => false
  | .env .cancelQuery => false
  | .env .cancelFound => false
  | .env (.abort _) => false
  | .env .janitorLoop => false
  | _ => true

/-- Nothing is canceled or expired; RPCs may fail. -/
def uncanceled : Label Node → Bool
  | .env .cancelQuery => false
  | .env .cancelFound => false
  | .env (.abort _) => false
  | .env .janitorLoop => false
  | _ => true

theorem uncanceled_of_clean {l : Label Node} (h : clean l = true) : uncanceled l = true := by
  cases l with
  | env e => cases e <;> first | rfl | exact h
  | _ => rfl

/-- The buffer has room for all rows of the chunk. -/
def HasRoom (σ : Store Node Row) (c : SinkCall Row) : Prop :=
  σ.st.buffer.q.length + c.rows.length ≤ σ.st.buffer.capacity

instance (σ : Store Node Row) (c : SinkCall Row) : Decidable (HasRoom σ c) :=
  inferInstanceAs (Decidable (_ ≤ _))

/-- A chunk that is deposited finds room for all of its rows. -/
def NeverShort (s : State Node Row) : Label Node → Prop
  | .env (.work k) => ∀ w ∈ s.store.workers[k]?, w.pc = .found →
      ∀ c ∈ w.todo.head?, HasRoom s.store c
  | .env (.push i) => ∀ p ∈ s.store.pushes[i]?, p.pc = .live → HasRoom s.store p.call
  | _ => True

section Guards

variable [DecidableEq Node] (R : Request Node Row)

/-- The portal's own chunk finds the request in the registry. -/
def PortalFinds (s : State Node Row) : Label Node → Prop
  | .env (.work k) => ∀ w ∈ s.store.workers[k]?, w.pc = .ready →
      w.upstream = R.overlay.selfRoute →
      w.node = R.overlay.portal ∧ s.store.registered = true
  | _ => True

instance (s : State Node Row) (l : Label Node) : Decidable (NeverShort s l) := by
  unfold NeverShort
  induction l using Framework.Cascade.Label.casesOn with
  | env e => induction e using Event.casesOn <;> infer_instance
  | _ => infer_instance

instance (s : State Node Row) (l : Label Node) : Decidable (R.PortalFinds s l) := by
  unfold PortalFinds
  induction l using Framework.Cascade.Label.casesOn with
  | env e => induction e using Event.casesOn <;> infer_instance
  | _ => infer_instance

end Guards

/-- The accepted rows of every deposit are all of its rows. -/
def Full (log : List (Deposit Node Row)) : Prop := ∀ d ∈ log, d.accepted = d.call.rows

section Step

variable [DecidableEq Node] {R : Request Node Row} {σ σ' : Store Node Row} {e : Event Node}
  {s s' : State Node Row} {l : Label Node}

/-- Nothing else cancels the buffer. -/
theorem EnvStep.live (h : R.EnvStep σ e σ') (hlive : uncanceled (.env e) = true) :
    σ'.st.buffer.canceled = σ.st.buffer.canceled := by
  cases h with
  -- what only adds rows or marks leaves the flag alone
  | workDeposit _ _ _ => exact ChunkBuffer.pushRows_fst_canceled _ _
  | @workMark k w c todo _ _ _ =>
    exact congrArg (fun st => st.buffer.canceled) (markDoneIf_st c w.node)
  | pushDeposit _ _ => exact ChunkBuffer.pushRows_fst_canceled _ _
  | @pushMark i took p _ _ =>
    exact congrArg (fun st => st.buffer.canceled) (markDoneIf_st p.call p.producer)
  | fetchAccumulate _ _ _ =>
    exact congrArg ChunkBuffer.canceled (RequestState.accumulate_buffer _ _)
  | cancelFound _ => exact absurd hlive (by simp [uncanceled])
  | janitorCancel _ => exact absurd hlive (by simp [uncanceled])
  | _ => rfl

/-- A canceled buffer stays canceled. -/
theorem EnvStep.canceled_mono (h : R.EnvStep σ e σ') (hcanceled : σ.st.buffer.canceled = true) :
    σ'.st.buffer.canceled = true := by
  by_cases he : uncanceled (.env e : Label Node) = true
  · rw [h.live he]
    exact hcanceled
  · cases h with
    | cancelQuery _ => exact hcanceled
    | cancelGone _ => exact hcanceled
    | cancelFound _ => rfl
    | abort _ => exact hcanceled
    | janitorCollect _ _ => exact hcanceled
    | janitorCancel _ => rfl
    | janitorErase _ => exact hcanceled
    | _ => exact absurd rfl he

/-- A request that is erased does not come back. -/
theorem EnvStep.registered_mono (h : R.EnvStep σ e σ') (hregistered : σ.registered = false) :
    σ'.registered = false := by
  cases h with
  | fetchErase _ _ => rfl
  | janitorErase _ => rfl
  | _ => exact hregistered

theorem step_live (h : R.cascade.Step s l s') (hlive : uncanceled l = true) :
    s'.store.st.buffer.canceled = s.store.st.buffer.canceled := by
  cases h with
  | @collect i id c d todo r hc hpc hd hr =>
    have h_st := settle_st (σ := s.store) c.dst c.msg d.dst (some r)
    exact congrArg (fun st => st.buffer.canceled) h_st
  | @expire i id c d todo hc hpc hd =>
    have h_st := settle_st (σ := s.store) c.dst c.msg d.dst none
    exact congrArg (fun st => st.buffer.canceled) h_st
  | env he => exact (env_cases he).live hlive
  | _ => rfl

theorem start_live (R : Request Node Row) : R.start.store.st.buffer.canceled = false :=
  congrArg ChunkBuffer.canceled R.start_buffer

omit [DecidableEq Node] in
/-- A deposit that finds room is full. -/
theorem Full.deposit (hI : Full σ.log) (hlive : σ.st.buffer.canceled = false) {c : SinkCall Row}
    (hroom : HasRoom σ c) (producer : Node) (seq : ℕ) :
    Full (σ.log ++ [⟨producer, seq, c, σ.st.buffer.taken c.rows⟩]) :=
  forall_mem_concat hI (σ.st.buffer.taken_eq_of_room c.rows hlive hroom)

theorem Full.step (hI : Full s.store.log) (hlive : s.store.st.buffer.canceled = false)
    (hshort : NeverShort s l) (h : R.cascade.Step s l s') : Full s'.store.log := by
  cases h with
  | env he =>
    cases env_cases he with
    | workDeposit hw hpc htodo =>
      exact hI.deposit hlive (hshort _ hw hpc _ (by rw [htodo]; rfl)) _ _
    | pushDeposit hp hpc => exact hI.deposit hlive (hshort _ hp hpc) _ _
    | _ => exact hI
  | _ => exact hI

/-- No chunk of the portal has missed its request. -/
def NoneGone (σ : Store Node Row) : Prop := ∀ w ∈ σ.workers, ∀ x ∈ w.history, x.2 ≠ .gone

theorem NoneGone.step (hI : NoneGone s.store) (hfinds : R.PortalFinds s l)
    (h : R.cascade.Step s l s') : NoneGone s'.store := by
  cases h with
  | finish _ _ => exact forall_mem_concat hI fun x hx => absurd hx List.not_mem_nil
  | @env e σ he =>
    change ∀ w ∈ σ.workers, ∀ x ∈ w.history, x.2 ≠ .gone
    rcases (env_cases he).workers_cases with heq | ⟨k, w, w', hmove, heq⟩
    · rw [heq]
      exact hI
    have h_w := hI w (List.mem_of_getElem? hmove.get)
    have h_w' : ∀ x ∈ w'.history, x.2 ≠ .gone := by
      rcases hmove.history with h_stay | ⟨c, outcome, -, h_new, h_gone⟩
      · rw [h_stay]
        exact h_w
      · -- the portal's own deposit has looked for its request
        rw [h_new]
        refine forall_mem_concat h_w fun ho => ?_
        obtain ⟨rfl, hpc, hself, hmiss⟩ := h_gone ho
        exact hmiss (hfinds w hmove.get hpc hself)
    rw [heq]
    exact forall_mem_set hI h_w'
  | _ => exact hI

/-- **Backpressure keeps every row**, in every run without failures and
cancellations in which each deposit finds room for all of its rows and the
portal's own deposits find the request: the rows of every chunk from which its
sender has gone on have been appended to the buffer, whose rows so far are those
in its queue and those that fetches have taken. -/
theorem backpressure_keeps (R : Request Node Row) {s : State Node Row}
    (h : R.machine.Reachable
      (fun s l => clean l = true ∧ NeverShort s l ∧ R.PortalFinds s l) s) :
    (∀ w ∈ s.store.workers, ∀ j c outcome, w.history[j]? = some (c, outcome) →
      outcome = .acked ∨ outcome = .deposited ∨ outcome = .gone →
      ∃ d ∈ s.store.log, d.producer = w.node ∧ d.seq = j + 1 ∧ d.accepted = c.rows) ∧
    (fetched s.store ++ s.store.st.buffer.q).Perm (accepted s.store) := by
  -- the buffer stays live, the log whole, and no worker finds the request gone
  obtain ⟨h_live, h_full, h_gone⟩ := h.invariant
    (fun s => s.store.st.buffer.canceled = false ∧ Full s.store.log ∧ NoneGone s.store)
    ⟨start_live R, fun _ hd => absurd hd List.not_mem_nil, fun _ hw => absurd hw List.not_mem_nil⟩
    fun s l s' hI hP hstep => by
      have hstep := Cascade.step_iff.mp hstep
      exact ⟨(step_live hstep (uncanceled_of_clean hP.1)).trans hI.1, hI.2.1.step hI.1 hP.2.1 hstep,
        hI.2.2.step hP.2.2 hstep⟩
  refine ⟨fun w hw j c outcome hj ho => ?_, (FlowInv.reachable h).flow h_live⟩
  -- an acknowledged chunk has been deposited, and so into the log
  have h_outcome : outcome = .acked ∨ outcome = .deposited := by
    rcases ho with ho | ho | ho
    · exact Or.inl ho
    · exact Or.inr ho
    · exact absurd ho (h_gone w hw _ (List.mem_of_getElem? hj))
  obtain ⟨d, hd, h_producer, h_seq, h_call⟩ :=
    ((DepositInv.reachable h).workers w hw).history j c outcome hj h_outcome
  exact ⟨d, hd, h_producer, h_seq, by rw [h_full d hd, h_call]⟩

/-! ### A chunk that does not fit -/

/-- Two nodes of which `b` emits one chunk of two rows, and a buffer for `cap` rows. -/
def twoRows (cap : ℕ) : Request Overlay.Id3 ℕ where
  overlay := .pair
  params := { RequestParams.default with chunkBufferCap := cap }
  scan n := .single (if n = .b then [1, 2] else [])

/-- `b` is forwarded the query, executes it and pushes its one chunk. -/
def pushTwoRows : List (Label Overlay.Id3) :=
  [.send 0, .check 1, .commit 1, .finish 1, .collect 0, .finish 0,
    .env (.work 0), .env (.push 0), .env (.push 0), .env (.push 0), .env (.push 0),
    .env (.push 0), .env (.work 0)]

/-- With room for both rows, both arrive. -/
theorem backpressure_keeps_two : ∃ s, (twoRows 2).machine.Reachable
    (fun s l => clean l = true ∧ NeverShort s l ∧ (twoRows 2).PortalFinds s l) s ∧
    (∃ w ∈ s.store.workers, w.history[0]? = some (⟨[1, 2], true⟩, .acked)) ∧
    ∃ d ∈ s.store.log, d.accepted = [1, 2] := by
  obtain ⟨s, hrun, hw⟩ := Machine.exists_run_of_exec (M := (twoRows 2).machine)
    (P := fun s l => clean l = true ∧ NeverShort s l ∧ (twoRows 2).PortalFinds s l)
    (s := (twoRows 2).start) (l := pushTwoRows)
    (Φ := fun s => ∃ w ∈ s.store.workers, w.history[0]? = some (⟨[1, 2], true⟩, .acked))
    (by decide)
  obtain ⟨w, hw, hj⟩ := hw
  obtain ⟨d, hd, -, -, h_rows⟩ :=
    (backpressure_keeps (twoRows 2) ⟨_, hrun⟩).1 w hw 0 _ _ hj (Or.inl rfl)
  exact ⟨s, ⟨_, hrun⟩, ⟨w, hw, hj⟩, d, hd, h_rows⟩

/-- With room for one of the two rows, `b` goes on after an `ok` and the other
row is lost. -/
theorem backpressure_drops : ∃ s, (twoRows 1).machine.Reachable (fun _ l => clean l = true) s ∧
    ∃ w ∈ s.store.workers, w.history[0]? = some (⟨[1, 2], true⟩, .acked) ∧
      ∀ d ∈ s.store.log, d.accepted ≠ [1, 2] := by
  obtain ⟨s, hrun, hw⟩ := Machine.exists_run_of_exec (M := (twoRows 1).machine)
    (P := fun _ l => clean l = true) (s := (twoRows 1).start) (l := pushTwoRows)
    (Φ := fun s => ∃ w ∈ s.store.workers, w.history[0]? = some (⟨[1, 2], true⟩, .acked) ∧
      ∀ d ∈ s.store.log, d.accepted ≠ [1, 2])
    (by decide)
  exact ⟨s, ⟨_, hrun⟩, hw⟩

end Step

end Request
end Mini2
