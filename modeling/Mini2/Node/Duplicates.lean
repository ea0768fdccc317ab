import Mini2.Node.Executions
import Mini2.Node.Retries

/-!
# Chunks that are deposited twice

A caller that sees a push call fail sends the chunk again, and nothing on the way or at
the portal looks at the chunk's number. What a caller has given up may still be carried
out, so two attempts of one chunk can both end in a deposit (`retries_twice`).

`retries_once` is about the runs in which they do not compete. It counts the copies of a
chunk that are in the log, or on their way there with somebody waiting (`copies`): a
worker adds one when it begins to send a chunk, and no other before that one is lost.
-/

namespace Mini2

open Framework

variable {Node Row : Type*}

/-- The chunks that the worker has begun to send. -/
def Worker.begun (w : Worker Node Row) : ℕ :=
  if w.pc = .ready then w.history.length else w.history.length + 1

namespace Request

variable [DecidableEq Node]

/-! ### Copies of a chunk -/

/-- The call may still deposit chunk `x`, and somebody waits for it. -/
def carries (x : Node × ℕ) (p : PushCall Node Row) : Bool :=
  p.pc.underway && p.worker.isSome && decide ((p.producer, p.seq) = x)

/-- The portal's own worker is about to deposit chunk `x`. -/
def deposits (x : Node × ℕ) (w : Worker Node Row) : Bool :=
  decide (w.pc = .found) && decide ((w.node, w.history.length + 1) = x)

/-- The copies of chunk `x` that are in the log, or on their way there with somebody
waiting. -/
def copies (σ : Store Node Row) (x : Node × ℕ) : ℕ :=
  σ.log.countP (fun d => (d.producer, d.seq) = x) + σ.pushes.countP (carries x) +
    σ.workers.countP (deposits x)

/-- A chunk is sent again only if no attempt has been carried out, and an attempt that
has been given up is carried out only if no other has been, and none is under way. -/
def RetriesLost (s : State Node Row) : Label Node → Prop
  | .env (.work k) => ∀ w ∈ s.store.workers[k]?, w.pc.retrying = true →
      (w.node, w.history.length + 1) ∉ s.store.log.map (fun d => (d.producer, d.seq))
  | .env (.push i) => ∀ p ∈ s.store.pushes[i]?, p.pc = .live → p.worker = none →
      copies s.store (p.producer, p.seq) = 0
  | _ => True

instance (s : State Node Row) (l : Label Node) : Decidable (RetriesLost s l) := by
  unfold RetriesLost
  induction l using Framework.Cascade.Label.casesOn with
  | env e => induction e using Event.casesOn <;> infer_instance
  | _ => infer_instance

/-! ### Who sends a chunk -/

/-- The node has a worker that has begun to send chunk `seq`. -/
def Begun (σ : Store Node Row) (n : Node) (seq : ℕ) : Prop :=
  ∃ w ∈ σ.workers, w.node = n ∧ seq ≤ w.begun

/-- Chunks are sent by workers that wait for the answer. -/
structure SenderInv (σ : Store Node Row) : Prop where
  log : ∀ d ∈ σ.log, Begun σ d.producer d.seq
  pushes : ∀ p ∈ σ.pushes, Begun σ p.producer p.seq
  /-- Whoever waits for a call that has not been answered is where it waits. -/
  waiting : ∀ (i : ℕ) (p : PushCall Node Row), σ.pushes[i]? = some p → p.pc.underway = true →
    ∀ k, p.worker = some k →
      ∃ (w : Worker Node Row) (retries : ℕ), σ.workers[k]? = some w ∧ w.pc = .pushing i retries

section Sender

variable {R : Request Node Row} {σ σ' : Store Node Row} {e : Event Node}

/-- A worker takes back nothing that it has begun to send. -/
theorem EnvStep.begun_mono (h : R.EnvStep σ e σ') {n : Node} {seq : ℕ} (hbegun : Begun σ n seq) :
    Begun σ' n seq := by
  -- a worker that moves has begun no fewer chunks than before
  have h_go : ∀ {k : ℕ} {w w' : Worker Node Row}, σ.workers[k]? = some w →
      σ'.workers = σ.workers.set k w' → w'.node = w.node → w.begun ≤ w'.begun →
      Begun σ' n seq := by
    intro k w w' hw heq hnode hle
    obtain ⟨v, hv, rfl, hseq⟩ := hbegun
    obtain ⟨v', hv', hnode', hle'⟩ := exists_mem_set
      (r := fun v v' : Worker Node Row => v'.node = v.node ∧ v.begun ≤ v'.begun)
      (fun _ => ⟨rfl, le_refl _⟩) hw ⟨hnode, hle⟩ v hv
    exact ⟨v', heq ▸ hv', hnode', hseq.trans hle'⟩
  cases h with
  | workFound hw hpc _ _ _ _ => exact h_go hw rfl rfl (by simp [Worker.begun, hpc])
  | workGone hw hpc _ _ _ =>
    exact h_go hw rfl rfl (by simp [Worker.begun, Worker.advance, hpc])
  | workPush hw hpc _ _ _ => exact h_go hw rfl rfl (by simp [Worker.begun, hpc])
  | workNoPeer hw hpc _ _ _ =>
    exact h_go hw rfl rfl (by simp [Worker.begun, Worker.advance, hpc])
  | workDeposit hw hpc _ => exact h_go hw rfl rfl (by simp [Worker.begun, hpc])
  | workMark hw hpc _ => exact h_go hw rfl rfl (by simp [Worker.begun, Worker.advance, hpc])
  | workAcked hw hpc _ _ _ _ _ =>
    exact h_go hw rfl rfl (by simp [Worker.begun, Worker.advance, hpc])
  | workCanceled hw hpc _ _ _ _ _ _ =>
    exact h_go hw rfl rfl (by simp [Worker.begun, Worker.advance, hpc])
  | workBackoff hw hpc _ _ _ _ _ _ => exact h_go hw rfl rfl (by simp [Worker.begun, hpc])
  | workRetry hw hpc _ => exact h_go hw rfl rfl (by simp [Worker.begun, hpc])
  | workExhausted hw hpc _ =>
    exact h_go hw rfl rfl (by simp [Worker.begun, Worker.advance, hpc])
  | cut hw hpc _ _ _ => exact h_go hw rfl rfl (by simp [Worker.begun, hpc])
  | _ => exact hbegun

omit [DecidableEq Node] in
/-- A worker that sends its current chunk has begun to send it. -/
theorem begun_startPush {k : ℕ} {w : Worker Node Row} (hw : σ.workers[k]? = some w)
    (c : SinkCall Row) (retries : ℕ) :
    Begun (σ.startPush k w c retries) w.node (w.history.length + 1) :=
  ⟨_, mem_set_self hw, rfl, by simp [Worker.begun]⟩

/-- Deposits are of chunks that a worker has begun to send. -/
theorem SenderInv.log_env (hI : SenderInv σ) (h : R.EnvStep σ e σ') :
    ∀ d ∈ σ'.log, Begun σ' d.producer d.seq := by
  have h_old : ∀ d ∈ σ.log, Begun σ' d.producer d.seq :=
    fun d hd => h.begun_mono (hI.log d hd)
  cases h with
  | workDeposit hw hpc _ =>
    exact forall_mem_concat h_old ⟨_, mem_set_self hw, rfl, by simp [Worker.begun]⟩
  | @pushDeposit i p hp hpc =>
    have h_p := hI.pushes p (List.mem_of_getElem? hp)
    exact forall_mem_concat h_old h_p
  | _ => exact h_old

/-- So are push calls. -/
theorem SenderInv.pushes_env (hI : SenderInv σ) (h : R.EnvStep σ e σ') :
    ∀ p ∈ σ'.pushes, Begun σ' p.producer p.seq := by
  have h_old : ∀ p ∈ σ.pushes, Begun σ' p.producer p.seq :=
    fun p hp => h.begun_mono (hI.pushes p hp)
  rcases h.pushes_cases with heq | ⟨k, w, c, retries, hsend, rfl⟩ |
    ⟨i, p, p', new, hp, hmove, hnew, heq⟩
  · rw [heq]
    exact h_old
  · exact forall_mem_concat h_old (begun_startPush hsend.get c retries)
  · have h_p := h_old p (List.mem_of_getElem? hp)
    rw [heq, List.forall_mem_append]
    refine ⟨forall_mem_set h_old ?_, fun q hq => ?_⟩
    · rwa [hmove.producer, hmove.seq]
    · rwa [(hnew q hq).producer, (hnew q hq).seq]

/-- A worker that waits for a call that has not been answered stays where it is. -/
theorem EnvStep.still_pushing (h : R.EnvStep σ e σ') {i k retries : ℕ} {p : PushCall Node Row}
    {w : Worker Node Row} (hp : σ.pushes[i]? = some p) (hpc : p.pc.underway = true)
    (hw : σ.workers[k]? = some w) (hwait : w.pc = .pushing i retries) :
    σ'.workers[k]? = some w := by
  -- another worker moves
  have h_other : ∀ {j : ℕ} {v v' : Worker Node Row}, σ.workers[j]? = some v →
      σ'.workers = σ.workers.set j v' → (∀ retries, v.pc ≠ .pushing i retries) →
      σ'.workers[k]? = some w := by
    intro j v v' hv heq hne
    have h_ne : j ≠ k := by
      rintro rfl
      obtain rfl := Option.some.inj (hv.symm.trans hw)
      exact hne retries hwait
    rw [heq, List.getElem?_set_ne h_ne, hw]
  -- the call that the worker which moves has waited for has been answered
  have h_answered : ∀ {j id retries : ℕ} {v v' : Worker Node Row} {q : PushCall Node Row}
      {ack : PushChunkAck}, σ.workers[j]? = some v → σ'.workers = σ.workers.set j v' →
      v.pc = .pushing id retries → σ.pushes[id]? = some q → q.pc = .acked ack →
      σ'.workers[k]? = some w := by
    intro j id retries' v v' q ack hv heq hvpc hq hack
    refine h_other hv heq fun retries'' hcontra => ?_
    obtain ⟨rfl, -⟩ := WorkerPc.pushing.inj (hvpc.symm.trans hcontra)
    obtain rfl := Option.some.inj (hp.symm.trans hq)
    exact absurd hpc (by simp [hack, PushPc.underway])
  cases h with
  | workFound hv hvpc _ _ _ _ => exact h_other hv rfl (by simp [hvpc])
  | workGone hv hvpc _ _ _ => exact h_other hv rfl (by simp [hvpc])
  | workPush hv hvpc _ _ _ => exact h_other hv rfl (by simp [hvpc])
  | workNoPeer hv hvpc _ _ _ => exact h_other hv rfl (by simp [hvpc])
  | workDeposit hv hvpc _ => exact h_other hv rfl (by simp [hvpc])
  | workMark hv hvpc _ => exact h_other hv rfl (by simp [hvpc])
  | workAcked hv hvpc _ hq _ hack _ => exact h_answered hv rfl hvpc hq hack
  | workCanceled hv hvpc _ hq _ hack _ _ => exact h_answered hv rfl hvpc hq hack
  | workBackoff hv hvpc _ hq _ hack _ _ => exact h_answered hv rfl hvpc hq hack
  | workRetry hv hvpc _ => exact h_other hv rfl (by simp [hvpc])
  | workExhausted hv hvpc _ => exact h_other hv rfl (by simp [hvpc])
  | cut hv hvpc _ _ _ => exact h_other hv rfl (by simp [hvpc])
  | _ => exact hw

/-- Whoever waits for a call that has not been answered is where it waits. -/
theorem SenderInv.waiting_env (hI : SenderInv σ) (h : R.EnvStep σ e σ') :
    ∀ (i : ℕ) (p : PushCall Node Row), σ'.pushes[i]? = some p → p.pc.underway = true →
      ∀ k, p.worker = some k →
        ∃ (w : Worker Node Row) (retries : ℕ), σ'.workers[k]? = some w ∧
          w.pc = .pushing i retries := by
  have h_old : ∀ (i : ℕ) (p : PushCall Node Row), σ.pushes[i]? = some p →
      p.pc.underway = true → ∀ k, p.worker = some k → ∃ (w : Worker Node Row) (retries : ℕ),
        σ'.workers[k]? = some w ∧ w.pc = .pushing i retries := by
    intro i p hp hpc k hk
    obtain ⟨w, retries, hw, hwait⟩ := hI.waiting i p hp hpc k hk
    exact ⟨w, retries, h.still_pushing hp hpc hw hwait, hwait⟩
  rcases h.pushes_cases with heq | ⟨k, w, c, retries, hsend, rfl⟩ |
    ⟨j, q, q', new, hq, hmove, hnew, heq⟩
  · rw [heq]
    exact h_old
  · intro i p hp hpc k' hk'
    rcases getElem?_concat_cases hp with hp | ⟨rfl, rfl⟩
    · exact h_old i p hp hpc k' hk'
    · -- the call that has just been made
      obtain rfl := Option.some.inj hk'
      exact ⟨_, retries, List.getElem?_set_self (List.getElem?_eq_some_iff.mp hsend.get).1, rfl⟩
  · intro i p hp hpc k hk
    rw [heq] at hp
    rcases Nat.lt_or_ge i (σ.pushes.set j q').length with hlt | hge
    · rw [List.getElem?_append_left hlt] at hp
      by_cases hij : j = i
      · subst hij
        rw [List.getElem?_set_self (List.getElem?_eq_some_iff.mp hq).1] at hp
        obtain rfl := Option.some.inj hp
        exact h_old j q hq (hmove.underway hpc) k (hmove.worker ▸ hk)
      · rw [List.getElem?_set_ne hij] at hp
        exact h_old i p hp hpc k hk
    · -- nobody waits for what goes on of a call that has been given up
      rw [List.getElem?_append_right hge] at hp
      have h_none := (hnew p (List.mem_of_getElem? hp)).worker
      exact absurd hk (by simp [h_none])

theorem SenderInv.env (hI : SenderInv σ) (h : R.EnvStep σ e σ') : SenderInv σ' :=
  ⟨hI.log_env h, hI.pushes_env h, hI.waiting_env h⟩

end Sender

/-! ### One copy -/

section Env

variable {R : Request Node Row} {σ σ' : Store Node Row} {e : Event Node} {x : Node × ℕ}

/-- Whoever begins to send chunk `x`: a worker with its current chunk, or the deposit of
an attempt that nobody waits for. -/
inductive Adds (σ : Store Node Row) (e : Event Node) (x : Node × ℕ) : Prop
  | work {k : ℕ} {w : Worker Node Row} (he : e = .work k) (hw : σ.workers[k]? = some w)
      (hpc : w.pc = .ready ∨ w.pc.retrying = true) (hx : x = (w.node, w.history.length + 1))
  | push {i : ℕ} {p : PushCall Node Row} (he : e = .push i) (hp : σ.pushes[i]? = some p)
      (hpc : p.pc = .live) (hworker : p.worker = none) (hx : x = (p.producer, p.seq))

/-- Another place of a worker that is not about to deposit adds no copy. -/
theorem countP_deposits_set {k : ℕ} {w w' : Worker Node Row} (hw : σ.workers[k]? = some w)
    (hpc : w'.pc ≠ .found) :
    (σ.workers.set k w').countP (deposits x) ≤ σ.workers.countP (deposits x) := by
  have h_set := countP_set_add (b := w') (p := deposits x) hw
  have h_not : deposits x w' = false := by simp [deposits, hpc]
  rw [h_not, if_neg Bool.false_ne_true] at h_set
  omega

/-- A call that is moved carries no more than it did. -/
theorem countP_carries_set {i : ℕ} {p p' : PushCall Node Row} (hp : σ.pushes[i]? = some p)
    (hmove : PushMove p p') :
    (σ.pushes.set i p').countP (carries x) ≤ σ.pushes.countP (carries x) := by
  have h_set := countP_set_add (b := p') (p := carries x) hp
  have h_le : carries x p' = true → carries x p = true := by
    simp only [carries, Bool.and_eq_true, hmove.worker, hmove.producer, hmove.seq]
    exact fun h => ⟨⟨hmove.underway h.1.1, h.1.2⟩, h.2⟩
  by_cases hcarries : carries x p' = true
  · rw [if_pos hcarries, if_pos (h_le hcarries)] at h_set
    omega
  · rw [if_neg hcarries] at h_set
    omega

/-- A worker is about to deposit when it has found the request. -/
theorem EnvStep.deposits_cases (h : R.EnvStep σ e σ') :
    σ'.workers.countP (deposits x) ≤ σ.workers.countP (deposits x) ∨ (Adds σ e x ∧
      σ'.workers.countP (deposits x) ≤ σ.workers.countP (deposits x) + 1 ∧
      σ'.pushes = σ.pushes) := by
  cases h with
  | @workFound k w c todo hw hpc _ _ _ _ =>
    -- a worker that finds the request is one more for its chunk, and for no other
    by_cases hx : x = (w.node, w.history.length + 1)
    · have h_set := countP_set_add (b := { w with pc := .found }) (p := deposits x) hw
      refine Or.inr ⟨.work rfl hw (Or.inl hpc) hx, ?_, rfl⟩
      dsimp only [Store.setWorker]
      split_ifs at h_set <;> omega
    · have h_set := countP_set_add (b := { w with pc := .found }) (p := deposits x) hw
      simp only [deposits, Ne.symm hx, decide_false, Bool.and_false, Bool.false_eq_true,
        if_false] at h_set
      exact Or.inl (by simp only [Store.setWorker]; omega)
  -- all others leave that stage, or are not in it
  | workGone hw _ _ _ _ => exact Or.inl (countP_deposits_set hw (by simp [Worker.advance]))
  | workPush hw _ _ _ _ => exact Or.inl (countP_deposits_set hw (by simp))
  | workNoPeer hw _ _ _ _ => exact Or.inl (countP_deposits_set hw (by simp [Worker.advance]))
  | workDeposit hw _ _ => exact Or.inl (countP_deposits_set hw (by simp))
  | workMark hw _ _ => exact Or.inl (countP_deposits_set hw (by simp [Worker.advance]))
  | workAcked hw _ _ _ _ _ _ => exact Or.inl (countP_deposits_set hw (by simp [Worker.advance]))
  | workCanceled hw _ _ _ _ _ _ _ =>
    exact Or.inl (countP_deposits_set hw (by simp [Worker.advance]))
  | workBackoff hw _ _ _ _ _ _ _ => exact Or.inl (countP_deposits_set hw (by simp))
  | workRetry hw _ _ => exact Or.inl (countP_deposits_set hw (by simp))
  | workExhausted hw _ _ => exact Or.inl (countP_deposits_set hw (by simp [Worker.advance]))
  | cut hw hpc _ _ _ => exact Or.inl (countP_deposits_set hw (by simp [hpc]))
  | _ => exact Or.inl (le_refl _)

/-- A call carries a chunk when its worker has sent it. -/
theorem EnvStep.carries_cases (h : R.EnvStep σ e σ') :
    σ'.pushes.countP (carries x) ≤ σ.pushes.countP (carries x) ∨ (Adds σ e x ∧
      σ'.pushes.countP (carries x) ≤ σ.pushes.countP (carries x) + 1 ∧
      σ'.workers.countP (deposits x) ≤ σ.workers.countP (deposits x)) := by
  rcases h.pushes_cases with heq | ⟨k, w, c, retries, hsend, rfl⟩ |
    ⟨i, p, p', new, hp, hmove, hnew, heq⟩
  · rw [heq]
    exact Or.inl (le_refl _)
  · change (σ.pushes ++ [_]).countP (carries x) ≤ _ ∨ _
    rw [List.countP_append, List.countP_singleton]
    by_cases hx : x = (w.node, w.history.length + 1)
    · refine Or.inr ⟨.work hsend.event hsend.get hsend.turn hx, ?_,
        countP_deposits_set hsend.get (by simp)⟩
      change (σ.pushes ++ [_]).countP (carries x) ≤ _
      rw [List.countP_append, List.countP_singleton]
      split <;> omega
    · exact Or.inl (by simp [carries, Ne.symm hx])
  · -- nobody waits for what goes on of a call that has been given up
    have h_new : new.countP (carries x) = 0 := by
      rw [List.countP_eq_zero]
      intro q hq
      simp [carries, (hnew q hq).worker]
    rw [heq, List.countP_append, h_new]
    exact Or.inl (countP_carries_set hp hmove)

/-- **What an action does to the copies of a chunk**: it adds one at most, where somebody
begins to send it. -/
theorem EnvStep.copies_cases (h : R.EnvStep σ e σ') (x : Node × ℕ) :
    copies σ' x ≤ copies σ x ∨ (Adds σ e x ∧ copies σ' x ≤ copies σ x + 1) := by
  unfold copies
  rcases h.log_cases with hlog | ⟨k, w, c, hdep, rfl⟩ | ⟨i, p, hdep, rfl⟩
  · rw [hlog]
    rcases h.carries_cases (x := x) with hpushes | ⟨hadds, hpushes, hworkers⟩
    · rcases h.deposits_cases (x := x) with hworkers | ⟨hadds, hworkers, heq⟩
      · exact Or.inl (by omega)
      · exact Or.inr ⟨hadds, by omega⟩
    · exact Or.inr ⟨hadds, by omega⟩
  · -- the worker's copy moves to the log
    have h_set := countP_set_add (b := { w with pc := .deposited }) (p := deposits x) hdep.get
    refine Or.inl ?_
    dsimp only [Store.setWorker, Store.deposit]
    rw [List.countP_append, List.countP_singleton]
    simp only [deposits, hdep.pc, decide_true, Bool.true_and, reduceCtorEq, decide_false,
      Bool.false_and, Bool.false_eq_true, if_false] at h_set ⊢
    omega
  · -- so does the call's, if somebody waits for it
    have h_set := countP_set_add (b := { p with
      pc := .pushed (σ.st.buffer.pushRows p.call.rows).2 }) (p := carries x) hdep.get
    dsimp only [Store.setPush, Store.deposit]
    rw [List.countP_append, List.countP_singleton]
    cases hworker : p.worker with
    | some k =>
      refine Or.inl ?_
      simp only [carries, hdep.pc, hworker, PushPc.underway, Option.isSome_some, Bool.true_and,
        Bool.false_and, Bool.false_eq_true, if_false] at h_set ⊢
      omega
    | none =>
      simp only [carries, hdep.pc, hworker, PushPc.underway, Option.isSome_none, Bool.and_false,
        Bool.false_and, Bool.false_eq_true, if_false] at h_set
      by_cases hx : x = (p.producer, p.seq)
      · refine Or.inr ⟨.push hdep.event hdep.get hdep.pc hworker hx, ?_⟩
        split <;> omega
      · rw [if_neg (by simpa using Ne.symm hx)]
        exact Or.inl (by omega)

end Env

/-! ### Runs -/

section Step

variable {R : Request Node Row} {s s' : State Node Row} {l : Label Node}

/-- **Whoever begins to send a chunk finds no copy of it**, if its node executes once. -/
theorem Adds.fresh {e : Event Node} {x : Node × ℕ} (h : Adds s.store e x)
    (hS : SenderInv s.store) (hD : DepositInv s.store)
    (hnodes : (s.store.workers.map Worker.node).Nodup) (hlost : RetriesLost s (.env e)) :
    copies s.store x = 0 := by
  cases h with
  | push he hp hpc hworker hx =>
    subst he hx
    exact hlost _ hp hpc hworker
  | @work k w he hw hpc hx =>
    subst he hx
    have h_only : ∀ v ∈ s.store.workers, v.node = w.node → v = w := fun v hv hnode =>
      List.inj_on_of_nodup_map hnodes hv (List.mem_of_getElem? hw) hnode
    have h_log : s.store.log.countP
        (fun d => (d.producer, d.seq) = (w.node, w.history.length + 1)) = 0 := by
      rw [List.countP_eq_zero]
      intro d hd hkey
      have hkey := of_decide_eq_true hkey
      rcases hpc with hready | hretry
      · -- the worker has not begun to send the chunk
        obtain ⟨v, hv, hnode, hle⟩ := hS.log d hd
        obtain ⟨hproducer, hseq⟩ := Prod.mk.inj hkey
        obtain rfl := h_only v hv (hnode.trans hproducer)
        rw [hseq, Worker.begun, if_pos hready] at hle
        exact absurd hle (Nat.not_succ_le_self _)
      · exact hlost w hw hretry (List.mem_map.mpr ⟨d, hd, hkey⟩)
    have h_pushes : s.store.pushes.countP (carries (w.node, w.history.length + 1)) = 0 := by
      rw [List.countP_eq_zero]
      intro q hq hcarries
      simp only [carries, Bool.and_eq_true, decide_eq_true_eq] at hcarries
      obtain ⟨⟨hunderway, hsome⟩, hkey⟩ := hcarries
      obtain ⟨i, hi⟩ := List.mem_iff_getElem?.mp hq
      obtain ⟨j, hj⟩ := Option.isSome_iff_exists.mp hsome
      -- the worker that waits for the call runs on the same node
      obtain ⟨v, retries, hv, hwait⟩ := hS.waiting i q hi hunderway j hj
      have hv := List.mem_of_getElem? hv
      obtain ⟨q', hq', hproducer, -⟩ := (hD.workers v hv).pushing i retries hwait
      obtain rfl := Option.some.inj (hi.symm.trans hq')
      obtain rfl := h_only v hv (hproducer.symm.trans (Prod.mk.inj hkey).1)
      rcases hpc with hready | hretry
      · exact absurd hready (by simp [hwait])
      · exact absurd hretry (by simp [hwait, WorkerPc.retrying])
    have h_workers : s.store.workers.countP (deposits (w.node, w.history.length + 1)) = 0 := by
      rw [List.countP_eq_zero]
      intro v hv hdeposits
      simp only [deposits, Bool.and_eq_true, decide_eq_true_eq] at hdeposits
      obtain rfl := h_only v hv (Prod.mk.inj hdeposits.2).1
      rcases hpc with hready | hretry
      · exact absurd hready (by simp [hdeposits.1])
      · exact absurd hretry (by simp [hdeposits.1, WorkerPc.retrying])
    rw [copies, h_log, h_pushes, h_workers]

theorem SenderInv.initial (R : Request Node Row) : SenderInv R.startStore :=
  ⟨fun _ h => absurd h List.not_mem_nil, fun _ h => absurd h List.not_mem_nil,
    fun _ _ h => absurd h (by simp [startStore])⟩

theorem SenderInv.step (hI : SenderInv s.store) (h : R.cascade.Step s l s') :
    SenderInv s'.store := by
  cases h with
  | @finish _ c hc hpc =>
    have h_begun : ∀ {n : Node} {seq : ℕ}, Begun s.store n seq →
        Begun (R.finish s.store c.dst c.msg) n seq :=
      fun ⟨w, hw, h⟩ => ⟨w, List.mem_append_left _ hw, h⟩
    refine ⟨fun d hd => h_begun (hI.log d hd), fun p hp => h_begun (hI.pushes p hp),
      fun i p hp hpc k hk => ?_⟩
    obtain ⟨w, retries, hw, hwait⟩ := hI.waiting i p hp hpc k hk
    exact ⟨w, retries, (List.getElem?_append_left
      (List.getElem?_eq_some_iff.mp hw).1).trans hw, hwait⟩
  | env he => exact hI.env (env_cases he)
  | _ => exact ⟨hI.log, hI.pushes, hI.waiting⟩

/-- A node that executes once has not executed twice before. -/
theorem nodes_nodup_of_step (h : R.cascade.Step s l s')
    (hnodes : (s'.store.workers.map Worker.node).Nodup) :
    (s.store.workers.map Worker.node).Nodup := by
  cases h with
  | finish hc hpc =>
    have hnodes : ((s.store.workers ++ [_]).map Worker.node).Nodup := hnodes
    rw [List.map_append] at hnodes
    exact hnodes.sublist (List.sublist_append_left _ _)
  | env he => exact (env_cases he).nodes_eq ▸ hnodes
  | _ => exact hnodes

/-- **Every action keeps chunks single**, as long as no two attempts compete. -/
theorem copies_step (hI : ∀ x, copies s.store x ≤ 1) (hS : SenderInv s.store)
    (hD : DepositInv s.store) (hnodes : (s.store.workers.map Worker.node).Nodup)
    (hlost : RetriesLost s l) (h : R.cascade.Step s l s') : ∀ x, copies s'.store x ≤ 1 := by
  intro x
  cases h with
  | @finish _ c hc hpc =>
    -- the new worker has found nothing yet
    change copies (R.finish s.store c.dst c.msg) x ≤ 1
    refine le_trans (le_of_eq ?_) (hI x)
    simp [copies, Request.finish, deposits]
  | env he =>
    rcases (env_cases he).copies_cases x with hle | ⟨hadds, hle⟩
    · exact hle.trans (hI x)
    · rwa [hadds.fresh hS hD hnodes hlost] at hle
  | _ => exact hI x

/-- **Retries duplicate nothing**, in every run in which each node executes once and the
attempts of a chunk do not compete: it is sent again only if none of them has been carried
out, and an attempt that has been given up is not carried out once another is on its way
or has been. Then each chunk is deposited at most once. -/
theorem retries_once (R : Request Node Row) {s : State Node Row}
    (h : R.machine.Reachable RetriesLost s) (honce : (s.store.workers.map Worker.node).Nodup) :
    (s.store.log.map fun d => (d.producer, d.seq)).Nodup := by
  have h_inv : (SenderInv s.store ∧ DepositInv s.store) ∧
      ((s.store.workers.map Worker.node).Nodup → ∀ x, copies s.store x ≤ 1) :=
    h.invariant (fun s => (SenderInv s.store ∧ DepositInv s.store) ∧
        ((s.store.workers.map Worker.node).Nodup → ∀ x, copies s.store x ≤ 1))
      ⟨⟨.initial R, .initial R⟩, fun _ _ => Nat.zero_le _⟩
      fun s l s' ⟨⟨hS, hD⟩, hI⟩ hlost hstep => by
        have hstep := Cascade.step_iff.mp hstep
        refine ⟨⟨hS.step hstep, hD.step hstep⟩, fun hnodes => ?_⟩
        have h_nodes := nodes_nodup_of_step hstep hnodes
        exact copies_step (hI h_nodes) hS hD h_nodes hlost hstep
  rw [List.nodup_iff_count_le_one]
  intro x
  -- a deposit is one of the copies, of which there is one at most
  have h_le := h_inv.2 honce x
  have h_count : (s.store.log.map fun d => (d.producer, d.seq)).count x =
      s.store.log.countP fun d => (d.producer, d.seq) = x := by
    rw [List.count_eq_countP, List.countP_map]
    exact List.countP_congr fun d _ => by simp
  rw [h_count]
  unfold copies at h_le
  omega

end Step

/-- The first call for chunk 1 is lost on its way out, and the second is carried out. -/
theorem retries_once_lost : ∃ s, twoChunks.machine.Reachable RetriesLost s ∧
    s.store.pushes.length = 3 ∧ s.store.log.length = 1 ∧
    (s.store.log.map fun d => (d.producer, d.seq)).Nodup := by
  obtain ⟨s, hrun, hlen, hlog, honce⟩ := Machine.exists_run_of_exec (M := twoChunks.machine)
    (P := RetriesLost) (s := twoChunks.start) (l := bothExecute ++ pushLost 0 0 ++ pushThrough 0 2)
    (Φ := fun s => s.store.pushes.length = 3 ∧ s.store.log.length = 1 ∧
      (s.store.workers.map Worker.node).Nodup)
    (by decide +kernel)
  exact ⟨s, ⟨_, hrun⟩, hlen, hlog, retries_once _ ⟨_, hrun⟩ honce⟩

/-- The call for chunk 1 is carried out, but fails on its way back. `b` sends the chunk
again, and it is deposited a second time. -/
theorem retries_twice : ∃ s, twoChunks.machine.Reachable (fun _ _ => True) s ∧
    (s.store.workers.map Worker.node).Nodup ∧
    ¬ (s.store.log.map fun d => (d.producer, d.seq)).Nodup := by
  obtain ⟨s, hrun, h⟩ := Machine.exists_run_of_exec (M := twoChunks.machine)
    (P := fun _ _ => True) (s := twoChunks.start)
    (l := bothExecute ++ [.env (.work 0)] ++ List.replicate 5 (.env (.push 0)) ++
      [.env (.pushFail 0 0), .env (.work 0)] ++ pushThrough 0 2)
    (Φ := fun s => (s.store.workers.map Worker.node).Nodup ∧
      ¬ (s.store.log.map fun d => (d.producer, d.seq)).Nodup)
    (by decide +kernel)
  exact ⟨s, ⟨_, hrun⟩, h⟩

end Request
end Mini2
