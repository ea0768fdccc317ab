import Mini2.Node.Coverage
import Mini2.Node.Retries

/-!
# Requests on an overlay with unreachable nodes

The buffer waits for all configured nodes. A node is marked as done by its own last
chunk, or by `SubmitQuery` when the portal's own forward to it fails; nobody else marks
a node that cannot be reached. `unreachable_final_iff` says when that is enough for a
request at rest to be final: each node that live nodes do not join to the portal has to
be a neighbour of the portal. `unreachable_stuck` is a run on a chain of three nodes of
which the last is down.

* `ReachInv` — only nodes that live nodes join to the portal take part, and the portal
  has asked each of its neighbours, or marked it.
* `MarkInv` — the last chunk of a producer, once acknowledged, has marked it.
-/

namespace Mini2

open Framework

variable {Node Row : Type*}

/-- The portal has marked the producer of the chunk, if it is its last. -/
def PushPc.past : PushPc Node → Bool
  | .marked _ => true
  | .acked ack => ack.ok
  | _ => false

/-- The innermost handler has answered. -/
def PushPc.isAcked : PushPc Node → Bool
  | .acked _ => true
  | _ => false

theorem PushPc.isAcked_iff {pc : PushPc Node} : pc.isAcked = true ↔ ∃ ack, pc = .acked ack := by
  cases pc <;> simp [PushPc.isAcked]

namespace Request

variable [DecidableEq Node]

/-! ### Calls that only dead nodes fail -/

/-- The call that the handler of call `i` waits for. -/
def waitedFor (s : State Node Row) (i : ℕ) :
    Option (Cascade.Call Node (Task Node) (ForwardQueryAck Node)) :=
  match s.calls[i]? with
  | some ⟨_, _, .waiting id _⟩ => s.calls[id]?
  | _ => none

/-- Calls to dead nodes do not arrive, and fail; nothing else fails, is canceled or
expires. -/
def OnlyUnreachable (dead : Node → Prop) (s : State Node Row) : Label Node → Prop
  | .check i => ∀ c ∈ s.calls[i]?, ¬ dead c.dst
  | .expire i => ∀ d ∈ waitedFor s i, dead d.dst
  | l => clean l = true

instance (dead : Node → Prop) [DecidablePred dead] (s : State Node Row) (l : Label Node) :
    Decidable (OnlyUnreachable dead s l) := by
  unfold OnlyUnreachable
  induction l using Framework.Cascade.Label.casesOn <;> infer_instance

omit [DecidableEq Node] in
theorem OnlyUnreachable.uncanceled {dead : Node → Prop} {s : State Node Row} {l : Label Node}
    (h : OnlyUnreachable dead s l) : uncanceled l = true := by
  cases l with
  | check i => rfl
  | expire i => rfl
  | _ => exact uncanceled_of_clean h

/-- Nothing is running or in flight, but for the calls to dead nodes, and the client has
drained the buffer. -/
structure AllAtRest (dead : Node → Prop) (s : State Node Row) : Prop where
  calls : AtRest dead s
  workers : ∀ w ∈ s.store.workers, w.todo = []
  pushes : ∀ p ∈ s.store.pushes, p.hops = [] ∧ ∃ ack, p.pc = .acked ack
  q : s.store.st.buffer.q = []

/-! ### Who takes part -/

/-- `nb` has been asked to take part, or the portal has marked it as done. -/
def Asked (s : State Node Row) (nb : Node) : Prop :=
  nb ∈ s.store.st.buffer.done ∨ ∃ d ∈ s.calls, d.dst = nb ∧ d.pc ≠ .sent

/-- The handler is about to ask `nb`, or waits for its answer. -/
def Asking (s : State Node Row) (c : Cascade.Call Node (Task Node) (ForwardQueryAck Node))
    (nb : Node) : Prop :=
  (∃ q ∈ c.pc.todo, q.1 = nb) ∨
    ∃ id todo, c.pc = .waiting id todo ∧ ∃ d, s.calls[id]? = some d ∧ d.dst = nb

/-- Only nodes that live nodes join to the portal take part, and the portal asks all of
its neighbours. -/
structure ReachInv (R : Request Node Row) (dead : Node → Prop) (s : State Node Row) : Prop where
  calls : ∀ c ∈ s.calls, c.pc ≠ .sent → R.LivePath dead c.dst
  workers : ∀ w ∈ s.store.workers, R.LivePath dead w.node
  pushes : ∀ p ∈ s.store.pushes, R.LivePath dead p.producer
  done : ∀ n ∈ s.store.st.buffer.done, R.LivePath dead n ∨ n ∈ R.overlay.nbrs R.overlay.portal
  asked : ∃ c, s.calls[0]? = some c ∧ c.msg = .submitQuery ∧
    ∀ nb ∈ R.overlay.nbrs R.overlay.portal, Asking s c nb ∨ Asked s nb

section Reach

variable {R : Request Node Row} {dead : Node → Prop} {s s' : State Node Row} {l : Label Node}

/-- Whoever has been asked stays so. -/
theorem Asked.mono {nb : Node} (hasked : Asked s nb) (h : R.cascade.Step s l s') : Asked s' nb := by
  rcases hasked with hdone | ⟨d, hd, hdst, hpc⟩
  · exact Or.inl (done_mono h hdone)
  refine Or.inr ?_
  rcases h.calls_cases with ⟨-, heq⟩ | ⟨i, c, pc, new, hc, hmove, heq⟩
  · exact ⟨d, heq ▸ hd, hdst, hpc⟩
  · rw [heq]
    by_cases hdc : d = c
    · subst hdc
      refine ⟨_, Cascade.moved_mem hc, hdst, ?_⟩
      cases hmove <;> simp
    · obtain ⟨d', hd', hdst', -, hsame⟩ := Cascade.exists_moved pc new hc hd
      exact ⟨d', hd', hdst'.trans hdst, by rwa [hsame hdc]⟩

omit [DecidableEq Node] in
theorem not_sent_of_committed {pc : Cascade.Pc Node (Task Node) (ForwardQueryAck Node)}
    (h : pc.committed) : pc ≠ .sent := by
  rintro rfl
  exact absurd h (by simp [Cascade.Pc.committed])

/-- A node that takes a forward in is joined to the portal by live nodes. -/
theorem ReachInv.livePath (hI : R.ReachInv dead s) (hF : R.FloodInv s)
    {c : Cascade.Call Node (Task Node) (ForwardQueryAck Node)} (hc : c ∈ s.calls)
    (hlive : ¬ dead c.dst) : R.LivePath dead c.dst := by
  cases hm : c.msg with
  | submitQuery =>
    exact hI.calls c hc (not_sent_of_committed ((hF.calls c hc).root hm))
  | forwardQuery req =>
    obtain ⟨h_valid, h_from⟩ := hF.from_routed hc hm
    obtain ⟨d, hd, hdst, hcomm⟩ := hF.source _ h_from
    have h_path := hI.calls d hd (not_sent_of_committed hcomm)
    rw [hdst] at h_path
    exact h_path.tail ⟨h_valid.peer, hlive⟩

/-- Handlers run on nodes that live nodes join to the portal. -/
theorem ReachInv.calls_step (hI : R.ReachInv dead s) (hF : R.FloodInv s)
    (honly : OnlyUnreachable dead s l) (h : R.cascade.Step s l s') :
    ∀ c ∈ s'.calls, c.pc ≠ .sent → R.LivePath dead c.dst := by
  cases h with
  | check hc hpc =>
    -- the call arrives, from a node that takes part
    have h_path := hI.livePath hF (List.mem_of_getElem? hc) (honly _ hc)
    exact forall_mem_set hI.calls fun _ => h_path
  | commit hc hpc =>
    -- any other action of the handler is on the same node
    have h_path := hI.calls _ (List.mem_of_getElem? hc) (by simp [hpc])
    exact forall_mem_set hI.calls fun _ => h_path
  | send hc hpc =>
    have h_path := hI.calls _ (List.mem_of_getElem? hc) (by simp [hpc])
    -- the new call has not arrived yet
    exact forall_mem_concat (forall_mem_set hI.calls fun _ => h_path) fun hne => absurd rfl hne
  | collect hc hpc hd hr =>
    have h_path := hI.calls _ (List.mem_of_getElem? hc) (by simp [hpc])
    exact forall_mem_set hI.calls fun _ => h_path
  | expire hc hpc hd =>
    have h_path := hI.calls _ (List.mem_of_getElem? hc) (by simp [hpc])
    exact forall_mem_set hI.calls fun _ => h_path
  | finish hc hpc =>
    have h_path := hI.calls _ (List.mem_of_getElem? hc) (by simp [hpc])
    exact forall_mem_set hI.calls fun _ => h_path
  | env he => exact hI.calls

/-- `SubmitQuery` marks neighbours of the portal. -/
theorem ReachInv.done_settle (hI : R.ReachInv dead s) (hF : R.FloodInv s)
    (hA : Cascade.Awaits R.cascade s.calls) {i id : ℕ} {todo : List (Node × Task Node)}
    {c d : Cascade.Call Node (Task Node) (ForwardQueryAck Node)} (hc : s.calls[i]? = some c)
    (hpc : c.pc = .waiting id todo) (hd : s.calls[id]? = some d)
    (ack : Option (ForwardQueryAck Node)) :
    ∀ n ∈ (settle s.store c.dst c.msg d.dst ack).st.buffer.done,
      R.LivePath dead n ∨ n ∈ R.overlay.nbrs R.overlay.portal := by
  intro n hn
  rcases (mem_done_settle (n := c.dst)).mp hn with ⟨hm, -, rfl⟩ | hn
  · -- the call is one of the portal's own
    obtain ⟨d', hd', hout⟩ := hA c (List.mem_of_getElem? hc) id todo hpc
    obtain rfl := Option.some.inj (hd.symm.trans hd')
    have h_valid := hF.valid c (List.mem_of_getElem? hc)
    rw [hm] at hout h_valid
    obtain ⟨nb, hnb, heq⟩ := mem_outgoing_submit.mp hout
    obtain ⟨rfl, -⟩ := Prod.mk.inj heq
    have h_portal : c.dst = R.overlay.portal := h_valid
    exact Or.inr (h_portal ▸ hnb)
  · exact hI.done n hn

/-- Whoever the handler waits for keeps its place. -/
theorem Asking.mono {c : Cascade.Call Node (Task Node) (ForwardQueryAck Node)} {nb : Node}
    (hasking : Asking s c nb) (h : R.cascade.Step s l s') : Asking s' c nb := by
  rcases hasking with htodo | ⟨id, todo, hpc, d, hd, hdst⟩
  · exact Or.inl htodo
  refine Or.inr ⟨id, todo, hpc, ?_⟩
  rcases h.calls_cases with ⟨-, heq⟩ | ⟨i, c', pc, new, hc', hmove, heq⟩
  · exact ⟨d, heq ▸ hd, hdst⟩
  · obtain ⟨d', hd', hdst', -, -⟩ := Cascade.exists_moved_get pc new hc' hd
    exact ⟨d', heq ▸ hd', hdst'.trans hdst⟩

/-- **The portal asks all of its neighbours**, or marks them. -/
theorem ReachInv.asked_step (hI : R.ReachInv dead s) (hF : R.FloodInv s)
    (h : R.cascade.Step s l s') :
    ∃ c, s'.calls[0]? = some c ∧ c.msg = .submitQuery ∧
      ∀ nb ∈ R.overlay.nbrs R.overlay.portal, Asking s' c nb ∨ Asked s' nb := by
  obtain ⟨c, hc, hm, hall⟩ := hI.asked
  have h_comm := (hF.calls c (List.mem_of_getElem? hc)).root hm
  have h_len : 0 < s.calls.length := (List.getElem?_eq_some_iff.mp hc).1
  have h_asked : ∀ nb, Asked s nb → Asked s' nb := fun nb hasked => hasked.mono h
  have h_asking : ∀ nb, Asking s c nb → Asking s' c nb := fun nb hasking => hasking.mono h
  -- another handler goes on
  have h_stay : s'.calls[0]? = some c → ∃ c, s'.calls[0]? = some c ∧ c.msg = .submitQuery ∧
      ∀ nb ∈ R.overlay.nbrs R.overlay.portal, Asking s' c nb ∨ Asked s' nb :=
    fun hc' => ⟨c, hc', hm, fun nb hnb => (hall nb hnb).imp (h_asking nb) (h_asked nb)⟩
  -- the portal's handler goes on
  have h_root : ∀ pc, s'.calls[0]? = some { c with pc := pc } →
      (∀ nb, Asking s c nb → Asking s' { c with pc := pc } nb ∨ Asked s' nb) →
      ∃ c, s'.calls[0]? = some c ∧ c.msg = .submitQuery ∧
        ∀ nb ∈ R.overlay.nbrs R.overlay.portal, Asking s' c nb ∨ Asked s' nb :=
    fun pc hc' hgo => ⟨_, hc', hm, fun nb hnb =>
      (hall nb hnb).elim (hgo nb) fun hasked => Or.inr (h_asked nb hasked)⟩
  cases h with
  | @check i d hd hpc =>
    have h_ne : i ≠ 0 := by
      rintro rfl
      obtain rfl := Option.some.inj (hc.symm.trans hd)
      exact not_sent_of_committed h_comm hpc
    exact h_stay ((List.getElem?_set_ne h_ne).trans hc)
  | @commit i d hd hpc =>
    have h_ne : i ≠ 0 := by
      rintro rfl
      obtain rfl := Option.some.inj (hc.symm.trans hd)
      rw [hpc] at h_comm
      exact absurd h_comm (by simp [Cascade.Pc.committed])
    exact h_stay ((List.getElem?_set_ne h_ne).trans hc)
  | @send i d p m todo hd hpc =>
    by_cases hi : i = 0
    · subst hi
      obtain rfl := Option.some.inj (hc.symm.trans hd)
      have h_set : (s.calls.set 0 { c with pc := .waiting s.calls.length todo }).length =
          s.calls.length := List.length_set
      refine h_root (.waiting s.calls.length todo) ?_ fun nb hasking => Or.inl ?_
      · exact (List.getElem?_append_left (h_len.trans_eq h_set.symm)).trans
          (List.getElem?_set_self h_len)
      rcases hasking with ⟨q, hq, rfl⟩ | ⟨id, todo', hpc', -⟩
      · rw [hpc] at hq
        rcases List.mem_cons.mp hq with rfl | hq
        · -- the portal asks this one now
          refine Or.inr ⟨_, _, rfl, ⟨p, m, .sent⟩, ?_, rfl⟩
          exact (congrArg _ h_set.symm).trans List.getElem?_concat_length
        · exact Or.inl ⟨q, hq, rfl⟩
      · rw [hpc] at hpc'
        exact absurd hpc' (by simp)
    · refine h_stay ((List.getElem?_append_left ?_).trans ((List.getElem?_set_ne hi).trans hc))
      rwa [List.length_set]
  | @collect i id d e todo r hd hpc he hr =>
    by_cases hi : i = 0
    · subst hi
      obtain rfl := Option.some.inj (hc.symm.trans hd)
      refine h_root (.calling todo) (List.getElem?_set_self h_len) fun nb hasking => ?_
      rcases hasking with ⟨q, hq, rfl⟩ | ⟨id', todo', hpc', e', he', rfl⟩
      · rw [hpc] at hq
        exact Or.inl (Or.inl ⟨q, hq, rfl⟩)
      · -- the neighbour has answered
        obtain ⟨rfl, -⟩ := Cascade.Pc.waiting.inj (hpc.symm.trans hpc')
        obtain rfl := Option.some.inj (he.symm.trans he')
        refine Or.inr (h_asked _ (Or.inr ⟨e, List.mem_of_getElem? he, rfl, fun hsent => ?_⟩))
        rw [hsent] at hr
        exact absurd hr (by simp [Cascade.Pc.answer])
    · exact h_stay ((List.getElem?_set_ne hi).trans hc)
  | @expire i id d e todo hd hpc he =>
    by_cases hi : i = 0
    · subst hi
      obtain rfl := Option.some.inj (hc.symm.trans hd)
      refine h_root (.calling todo) (List.getElem?_set_self h_len) fun nb hasking => ?_
      rcases hasking with ⟨q, hq, rfl⟩ | ⟨id', todo', hpc', e', he', rfl⟩
      · rw [hpc] at hq
        exact Or.inl (Or.inl ⟨q, hq, rfl⟩)
      · -- the call has failed, and the portal marks the neighbour
        obtain ⟨rfl, -⟩ := Cascade.Pc.waiting.inj (hpc.symm.trans hpc')
        obtain rfl := Option.some.inj (he.symm.trans he')
        exact Or.inr (Or.inl ((mem_done_settle (n := c.dst)).mpr (Or.inl ⟨hm, rfl, rfl⟩)))
    · exact h_stay ((List.getElem?_set_ne hi).trans hc)
  | @finish i d hd hpc =>
    by_cases hi : i = 0
    · subst hi
      obtain rfl := Option.some.inj (hc.symm.trans hd)
      refine h_root _ (List.getElem?_set_self h_len) fun nb hasking => ?_
      rcases hasking with ⟨q, hq, -⟩ | ⟨id, todo, hpc', -⟩
      · rw [hpc] at hq
        exact absurd hq List.not_mem_nil
      · rw [hpc] at hpc'
        exact absurd hpc' (by simp)
    · exact h_stay ((List.getElem?_set_ne hi).trans hc)
  | env he => exact h_stay hc

/-- **Every action keeps who takes part**, if only dead nodes cannot be reached. -/
theorem ReachInv.step (hI : R.ReachInv dead s) (hF : R.FloodInv s)
    (hA : Cascade.Awaits R.cascade s.calls) (honly : OnlyUnreachable dead s l)
    (h : R.cascade.Step s l s') : R.ReachInv dead s' := by
  refine ⟨hI.calls_step hF honly h, ?_, ?_, ?_, hI.asked_step hF h⟩
  · cases h with
    | finish hc hpc =>
      -- a worker starts where its handler runs
      have h_path := hI.calls _ (List.mem_of_getElem? hc) (by simp [hpc])
      exact forall_mem_concat hI.workers h_path
    | env he => exact (env_cases he).workers_nodes hI.workers
    | _ => exact hI.workers
  · cases h with
    -- a push call is that of a worker
    | env he => exact (env_cases he).producers hI.workers hI.pushes
    | _ => exact hI.pushes
  · cases h with
    | collect hc hpc hd hr => exact hI.done_settle hF hA hc hpc hd _
    | expire hc hpc hd => exact hI.done_settle hF hA hc hpc hd _
    | env he =>
      intro n hn
      -- marks for last chunks are those of workers and of their calls
      rcases (env_cases he).mem_done hn with hn | ⟨w, hw, -, rfl, -⟩ | ⟨p, hp, -, rfl, -⟩
      · exact hI.done n hn
      · exact Or.inl (hI.workers w hw)
      · exact Or.inl (hI.pushes p hp)
    | _ => exact hI.done

theorem ReachInv.initial (R : Request Node Row) (dead : Node → Prop) :
    R.ReachInv dead R.start where
  calls c hc _ := by
    obtain rfl := List.mem_singleton.mp hc
    exact Relation.ReflTransGen.refl
  workers _ hw := absurd hw List.not_mem_nil
  pushes _ hp := absurd hp List.not_mem_nil
  done n hn := by
    have h_done : R.startStore.st.buffer.done = ∅ := congrArg ChunkBuffer.done R.start_buffer
    have hn : n ∈ R.startStore.st.buffer.done := hn
    rw [h_done] at hn
    exact absurd hn (Finset.notMem_empty n)
  asked := by
    refine ⟨_, rfl, rfl, fun nb hnb => Or.inl (Or.inl ?_)⟩
    exact ⟨_, mem_outgoing_submit.mpr ⟨nb, hnb, rfl⟩, rfl⟩

end Reach

/-! ### Who is marked as done -/

/-- In a run without failed push calls, the last chunk of a producer marks it. -/
structure MarkInv (R : Request Node Row) (σ : Store Node Row) : Prop where
  pushes : ∀ p ∈ σ.pushes, p.pc.past = true → p.call.done = true → p.producer ∈ σ.st.buffer.done
  workers : ∀ w ∈ σ.workers, ∀ x ∈ w.history, x.2 = .acked ∨ x.2 = .deposited →
    x.1.done = true → w.node ∈ σ.st.buffer.done
  /-- No attempt has failed. -/
  steady : ∀ w ∈ σ.workers, (∀ retries, w.pc ≠ .backoff retries) ∧
    ∀ x ∈ w.history, x.2 ≠ .exhausted
  answered : ∀ p ∈ σ.pushes, ∀ ack, p.pc = .acked ack → ack.ok = true ∨ ack.canceled = true
  /-- A request is erased only after a final answer. -/
  erased : σ.registered = false → ∀ n ∈ R.overlay.nodes, n ∈ σ.st.buffer.done
  final : ∀ f ∈ σ.fetches, f.rsp.final = true → ∀ n ∈ R.overlay.nodes, n ∈ σ.st.buffer.done
  closing : ∀ f ∈ σ.fetches, f.pc = .closing → f.rsp.final = true

section Mark

variable {R : Request Node Row} {σ σ' : Store Node Row} {e : Event Node}

/-- A call that is past the portal's mark has marked its producer. -/
theorem EnvStep.pushes_marked (h : R.EnvStep σ e σ') (hI : R.MarkInv σ) :
    ∀ p ∈ σ'.pushes, p.pc.past = true → p.call.done = true → p.producer ∈ σ'.st.buffer.done := by
  have h_old : ∀ p ∈ σ.pushes, p.pc.past = true → p.call.done = true →
      p.producer ∈ σ'.st.buffer.done :=
    fun p hp hpast hdone => h.done_mono (hI.pushes p hp hpast hdone)
  have h_not : ∀ {p : PushCall Node Row}, p.pc.past = false → p.pc.past = true →
      p.call.done = true → p.producer ∈ σ'.st.buffer.done :=
    fun hfalse hpast => absurd hpast (by simp [hfalse])
  cases h with
  | workPush _ _ _ _ _ => exact forall_mem_concat h_old (h_not rfl)
  | workRetry _ _ _ => exact forall_mem_concat h_old (h_not rfl)
  | pushFound _ _ _ => exact forall_mem_set h_old (h_not rfl)
  | pushUnregistered _ _ _ => exact forall_mem_set h_old (h_not rfl)
  | pushNoRoute _ _ _ _ => exact forall_mem_set h_old (h_not rfl)
  | pushRelay _ _ _ _ _ => exact forall_mem_set h_old (h_not rfl)
  | pushNoPeer _ _ _ _ _ => exact forall_mem_set h_old (h_not rfl)
  | pushCanceled _ _ _ => exact forall_mem_set h_old (h_not rfl)
  | pushLive _ _ _ => exact forall_mem_set h_old (h_not rfl)
  | pushDeposit _ _ => exact forall_mem_set h_old (h_not rfl)
  | pushMark _ _ =>
    exact forall_mem_set h_old fun _ hdone => mem_done_markDoneIf.mpr (Or.inl ⟨hdone, rfl⟩)
  | pushAck hp hpc =>
    have h_p := h_old _ (List.mem_of_getElem? hp) (by rw [hpc]; rfl)
    exact forall_mem_set h_old fun _ => h_p
  | pushReturn hp hpc _ =>
    -- a relay answers `ok` exactly if its own call did
    have h_p := h_old _ (List.mem_of_getElem? hp)
    refine forall_mem_set h_old fun hpast => h_p ?_
    rw [hpc]
    simpa [PushPc.past, PushChunkAck.relay] using hpast
  | pushFail hp _ =>
    have h_p := h_old _ (List.mem_of_getElem? hp)
    exact forall_mem_concat (forall_mem_set h_old (h_not rfl)) h_p
  | _ => exact h_old

/-- A worker whose last chunk has been acknowledged has been marked. -/
theorem EnvStep.workers_marked (h : R.EnvStep σ e σ') (hI : R.MarkInv σ) (hD : DepositInv σ) :
    ∀ w ∈ σ'.workers, ∀ x ∈ w.history, x.2 = .acked ∨ x.2 = .deposited → x.1.done = true →
      w.node ∈ σ'.st.buffer.done := by
  have h_old : ∀ w ∈ σ.workers, ∀ x ∈ w.history, x.2 = .acked ∨ x.2 = .deposited →
      x.1.done = true → w.node ∈ σ'.st.buffer.done :=
    fun w hw x hx houtcome hdone => h.done_mono (hI.workers w hw x hx houtcome hdone)
  have h_stay : ∀ {k : ℕ} {w w' : Worker Node Row}, σ.workers[k]? = some w → w'.node = w.node →
      w'.history = w.history → ∀ x ∈ w'.history, x.2 = .acked ∨ x.2 = .deposited →
        x.1.done = true → w'.node ∈ σ'.st.buffer.done := by
    intro k w w' hw hnode hhistory
    rw [hnode, hhistory]
    exact h_old w (List.mem_of_getElem? hw)
  -- the worker goes on from its chunk
  have h_advance : ∀ {k : ℕ} {w : Worker Node Row} {c : SinkCall Row} {outcome : Outcome}
      {todo : List (SinkCall Row)}, σ.workers[k]? = some w →
      (outcome = .acked ∨ outcome = .deposited → c.done = true → w.node ∈ σ'.st.buffer.done) →
      ∀ x ∈ (w.advance c todo outcome).history, x.2 = .acked ∨ x.2 = .deposited →
        x.1.done = true → w.node ∈ σ'.st.buffer.done :=
    fun hw hlast => forall_mem_concat (h_old _ (List.mem_of_getElem? hw)) hlast
  cases h with
  | workFound hw _ _ _ _ _ => exact forall_mem_set h_old (h_stay hw rfl rfl)
  | workGone hw _ _ _ _ => exact forall_mem_set h_old (h_advance hw (by simp))
  | workPush hw _ _ _ _ => exact forall_mem_set h_old (h_stay hw rfl rfl)
  | workNoPeer hw _ _ _ _ => exact forall_mem_set h_old (h_advance hw (by simp))
  | workDeposit hw _ _ => exact forall_mem_set h_old (h_stay hw rfl rfl)
  | workMark hw _ _ =>
    refine forall_mem_set h_old (h_advance hw fun _ hdone => ?_)
    exact mem_done_markDoneIf.mpr (Or.inl ⟨hdone, rfl⟩)
  | workAcked hw hpc htodo hp _ hack hok =>
    -- the answer is `ok`, so the portal is past its mark
    obtain ⟨p', hp', h_producer, -, h_call⟩ :=
      (hD.workers _ (List.mem_of_getElem? hw)).pushing _ _ hpc
    obtain rfl := Option.some.inj (hp.symm.trans hp')
    rw [htodo] at h_call
    obtain rfl := Option.some.inj h_call
    refine forall_mem_set h_old (h_advance hw fun _ hdone => ?_)
    have h_p := hI.pushes _ (List.mem_of_getElem? hp) (by rw [hack]; exact hok) hdone
    exact h_producer ▸ h_p
  | workCanceled hw _ _ _ _ _ _ _ => exact forall_mem_set h_old (h_advance hw (by simp))
  | workBackoff hw _ _ _ _ _ _ _ => exact forall_mem_set h_old (h_stay hw rfl rfl)
  | workRetry hw _ _ => exact forall_mem_set h_old (h_stay hw rfl rfl)
  | workExhausted hw _ _ => exact forall_mem_set h_old (h_advance hw (by simp))
  | cut hw _ _ _ _ => exact forall_mem_set h_old (h_stay hw rfl rfl)
  | _ => exact h_old

/-- Without failed calls no attempt fails. -/
theorem EnvStep.workers_steady (h : R.EnvStep σ e σ') (hI : R.MarkInv σ) :
    ∀ w ∈ σ'.workers, (∀ retries, w.pc ≠ .backoff retries) ∧
      ∀ x ∈ w.history, x.2 ≠ .exhausted := by
  have h_busy : ∀ {k retries : ℕ} {w : Worker Node Row} {q : Prop}, σ.workers[k]? = some w →
      w.pc = .backoff retries → q :=
    fun hw hpc => absurd hpc ((hI.steady _ (List.mem_of_getElem? hw)).1 _)
  -- the worker goes on with its chunk
  have h_stay : ∀ {k : ℕ} {w w' : Worker Node Row}, σ.workers[k]? = some w →
      w'.history = w.history → (∀ retries, w'.pc ≠ .backoff retries) →
      (∀ retries, w'.pc ≠ .backoff retries) ∧ ∀ x ∈ w'.history, x.2 ≠ .exhausted := by
    intro k w w' hw hhistory hpc
    rw [hhistory]
    exact ⟨hpc, (hI.steady _ (List.mem_of_getElem? hw)).2⟩
  -- the worker is through with its chunk
  have h_advance : ∀ {k : ℕ} {w : Worker Node Row} {c : SinkCall Row} {outcome : Outcome}
      {todo : List (SinkCall Row)}, σ.workers[k]? = some w → outcome ≠ .exhausted →
      (∀ retries, (w.advance c todo outcome).pc ≠ .backoff retries) ∧
        ∀ x ∈ (w.advance c todo outcome).history, x.2 ≠ .exhausted :=
    fun hw houtcome => ⟨by simp [Worker.advance],
      forall_mem_concat (hI.steady _ (List.mem_of_getElem? hw)).2 houtcome⟩
  cases h with
  | workFound hw _ _ _ _ _ => exact forall_mem_set hI.steady (h_stay hw rfl (by simp))
  | workGone hw _ _ _ _ => exact forall_mem_set hI.steady (h_advance hw (by simp))
  | workPush hw _ _ _ _ => exact forall_mem_set hI.steady (h_stay hw rfl (by simp))
  | workNoPeer hw _ _ _ _ => exact forall_mem_set hI.steady (h_advance hw (by simp))
  | workDeposit hw _ _ => exact forall_mem_set hI.steady (h_stay hw rfl (by simp))
  | workMark hw _ _ => exact forall_mem_set hI.steady (h_advance hw (by simp))
  | workAcked hw _ _ _ _ _ _ => exact forall_mem_set hI.steady (h_advance hw (by simp))
  | workCanceled hw _ _ _ _ _ _ _ => exact forall_mem_set hI.steady (h_advance hw (by simp))
  | workBackoff _ _ _ hp _ hack hok hcanceled =>
    -- an answer that is neither `ok` nor `canceled`
    rcases hI.answered _ (List.mem_of_getElem? hp) _ hack with h | h
    · exact absurd h (by simp [hok])
    · exact absurd h (by simp [hcanceled])
  | workRetry hw hpc _ => exact h_busy hw hpc
  | workExhausted hw hpc _ => exact h_busy hw hpc
  | cut hw hpc _ _ _ => exact forall_mem_set hI.steady (h_stay hw rfl (by simp [hpc]))
  | _ => exact hI.steady

/-- Without failed calls an answer is `ok` or `canceled`. -/
theorem EnvStep.pushes_answered (h : R.EnvStep σ e σ') (hclean : clean (.env e) = true)
    (hI : R.MarkInv σ) (hroutes : ∀ n r, σ.routes n = some r → n ≠ R.overlay.portal →
      R.overlay.Adj n r.upstreamPeer ∧ (σ.routes r.upstreamPeer).isSome) :
    ∀ p ∈ σ'.pushes, ∀ ack, p.pc = .acked ack → ack.ok = true ∨ ack.canceled = true := by
  have h_old := hI.answered
  cases h with
  | workPush _ _ _ _ _ => exact forall_mem_concat h_old (by simp)
  | workRetry _ _ _ => exact forall_mem_concat h_old (by simp)
  | pushFound _ _ _ => exact forall_mem_set h_old (by simp)
  | pushUnregistered _ _ _ => exact forall_mem_set h_old (by simp [PushChunkAck.gone])
  | pushNoRoute _ _ _ _ => exact forall_mem_set h_old (by simp [PushChunkAck.gone])
  | pushRelay _ _ _ _ _ => exact forall_mem_set h_old (by simp)
  | pushNoPeer _ _ hn hroute hpeer => exact absurd (hroutes _ _ hroute hn).1 hpeer
  | pushCanceled _ _ _ => exact forall_mem_set h_old (by simp [PushChunkAck.gone])
  | pushLive _ _ _ => exact forall_mem_set h_old (by simp)
  | pushDeposit _ _ => exact forall_mem_set h_old (by simp)
  | pushMark _ _ => exact forall_mem_set h_old (by simp)
  | pushAck _ _ => exact forall_mem_set h_old (by simp [depositAck])
  | pushReturn hp hpc _ =>
    -- the relay passes the answer on
    have h_p := h_old _ (List.mem_of_getElem? hp) _ hpc
    refine forall_mem_set h_old fun ack ha => ?_
    obtain rfl := PushPc.acked.inj ha
    simpa [PushChunkAck.relay] using h_p
  | pushFail _ _ => exact absurd hclean (by simp [clean])
  | _ => exact h_old

theorem MarkInv.env (hI : R.MarkInv σ) (h : R.EnvStep σ e σ') (hclean : clean (.env e) = true)
    (hD : DepositInv σ) (hN : R.NodesInv σ) (hlive : σ.st.buffer.canceled = false)
    (hroutes : ∀ n r, σ.routes n = some r → n ≠ R.overlay.portal →
      R.overlay.Adj n r.upstreamPeer ∧ (σ.routes r.upstreamPeer).isSome) : R.MarkInv σ' where
  pushes := h.pushes_marked hI
  workers := h.workers_marked hI hD
  steady := h.workers_steady hI
  answered := h.pushes_answered hclean hI hroutes
  erased hreg := by
    have h_mono := h.done_mono
    have h_old : σ.registered = false → ∀ n ∈ R.overlay.nodes, n ∈ σ'.st.buffer.done :=
      fun hreg n hn => h_mono (hI.erased hreg n hn)
    cases h with
    | fetchErase hf hpc =>
      have h_f := List.mem_of_getElem? hf
      exact hI.final _ h_f (hI.closing _ h_f hpc)
    | janitorErase _ => exact absurd hclean (by simp [clean])
    | _ => exact h_old hreg
  final := by
    have h_mono := h.done_mono
    have h_old : ∀ f ∈ σ.fetches, f.rsp.final = true → ∀ n ∈ R.overlay.nodes,
        n ∈ σ'.st.buffer.done := fun f hf hfinal n hn => h_mono (hI.final f hf hfinal n hn)
    refine h.forall_final h_old (fun hreg n hn => h_mono (hI.erased hreg n hn)) ?_
    -- all expected producers are done, so every node is
    intro hfinal n hn
    exact h_mono (hN.all_done ((σ.st.buffer.isFinal_iff hlive).mp hfinal).2 n hn)
  closing := h.closing_final hI.closing

end Mark

section Step

variable {R : Request Node Row} {dead : Node → Prop} {s s' : State Node Row} {l : Label Node}

/-- **Every action keeps the marks.** -/
theorem MarkInv.step (hI : R.MarkInv s.store) (hU : R.UpstreamInv s) (hD : DepositInv s.store)
    (hN : R.NodesInv s.store) (hlive : s.store.st.buffer.canceled = false)
    (honly : OnlyUnreachable dead s l) (h : R.cascade.Step s l s') : R.MarkInv s'.store := by
  -- what `SubmitQuery` makes of an answer adds a mark at most
  have h_settle : ∀ (n nb : Node) (m : Task Node) (ack : Option (ForwardQueryAck Node)),
      R.MarkInv (settle s.store n m nb ack) := by
    intro n nb m ack
    have h_mono : ∀ v ∈ s.store.st.buffer.done,
        v ∈ (settle s.store n m nb ack).st.buffer.done :=
      fun v hv => (mem_done_settle (n := n)).mpr (Or.inr hv)
    exact ⟨fun p hp hpast hdone => h_mono _ (hI.pushes p hp hpast hdone),
      fun w hw x hx houtcome hdone => h_mono _ (hI.workers w hw x hx houtcome hdone),
      hI.steady, hI.answered, fun hreg n hn => h_mono _ (hI.erased hreg n hn),
      fun f hf hfinal n hn => h_mono _ (hI.final f hf hfinal n hn), hI.closing⟩
  cases h with
  | @collect i id c d todo r hc hpc hd hr => exact h_settle c.dst d.dst c.msg (some r)
  | @expire i id c d todo hc hpc hd => exact h_settle c.dst d.dst c.msg none
  | finish hc hpc =>
    exact ⟨hI.pushes, forall_mem_concat hI.workers fun x hx => absurd hx List.not_mem_nil,
      forall_mem_concat hI.steady ⟨by simp, fun x hx => absurd hx List.not_mem_nil⟩,
      hI.answered, hI.erased, hI.final, hI.closing⟩
  | env he =>
    exact hI.env (env_cases he) honly hD hN hlive fun n r hr hn => hU.upstream hr hn
  | _ => exact ⟨hI.pushes, hI.workers, hI.steady, hI.answered, hI.erased, hI.final, hI.closing⟩

theorem MarkInv.initial (R : Request Node Row) : R.MarkInv R.startStore :=
  ⟨fun _ h => absurd h List.not_mem_nil, fun _ h => absurd h List.not_mem_nil,
    fun _ h => absurd h List.not_mem_nil, fun _ h => absurd h List.not_mem_nil,
    fun h => absurd h (by simp [startStore]), fun _ h => absurd h List.not_mem_nil,
    fun _ h => absurd h List.not_mem_nil⟩

omit [DecidableEq Node] in
/-- **A worker that has made all of its sink calls has been marked.** -/
theorem MarkInv.worker_done (hI : R.MarkInv s.store) (hV : R.DeliveryInv s.store)
    (hself : R.overlay.selfRoute ∉ R.overlay.nodes) {w : Worker Node Row}
    (hw : w ∈ s.store.workers) (hnode : w.node ∈ R.overlay.nodes) (htodo : w.todo = []) :
    w.node ∈ s.store.st.buffer.done := by
  have h_w := hV.workers w hw
  -- the last chunk of the engine is the last of the worker's history
  obtain ⟨init, last, hcalls, hlast, -⟩ := (R.scan w.node).shape
  have h_scan := h_w.scan
  rw [htodo, List.append_nil, hcalls] at h_scan
  have h_mem : last ∈ w.history.map Prod.fst := by
    rw [h_scan]
    exact List.mem_append_right _ (List.mem_singleton_self _)
  obtain ⟨x, hx, rfl⟩ := List.mem_map.mp h_mem
  rcases h_w.outcome x hx with h | h | h | h
  · exact hI.workers w hw x hx (Or.inl h) hlast
  · exact hI.workers w hw x hx (Or.inr h) hlast
  · exact absurd h ((hI.steady w hw).2 x hx)
  · -- the request is gone: it has been final
    rcases h with h_erased | ⟨h_self, h_other⟩
    · exact hI.erased h_erased _ hnode
    · rcases h_w.upstream with h | h
      · exact absurd h.2 h_other
      · exact absurd (R.overlay.nbrs_mem (h_self ▸ h.1)) hself

/-- At rest, whoever has been asked is done. -/
theorem ReachInv.done_of_rest (hI : R.ReachInv dead s) (hF : R.FloodInv s)
    (hM : R.MarkInv s.store) (hV : R.DeliveryInv s.store)
    (hself : R.overlay.selfRoute ∉ R.overlay.nodes) (hcalls : AtRest dead s)
    (hworkers : ∀ w ∈ s.store.workers, w.todo = []) {n : Node} (hn : n ∈ R.overlay.nodes)
    (h : R.LivePath dead n ∨ n ∈ R.overlay.nbrs R.overlay.portal) :
    n ∈ s.store.st.buffer.done := by
  have h_reached : R.LivePath dead n → n ∈ s.store.st.buffer.done := by
    intro hpath
    obtain ⟨-, w, hw, rfl⟩ := hF.covers hcalls hpath
    exact hM.worker_done hV hself hw hn (hworkers w hw)
  rcases h with hpath | hnb
  · exact h_reached hpath
  obtain ⟨c, hc, hm, hall⟩ := hI.asked
  -- the portal's handler has returned, so it asks nobody any more
  obtain ⟨r, hr⟩ := hcalls.returned (List.mem_of_getElem? hc)
    ((hF.calls c (List.mem_of_getElem? hc)).root hm)
  rcases hall n hnb with (⟨q, hq, -⟩ | ⟨id, todo, hpc, -⟩) | hdone | ⟨d, hd, rfl, hpc⟩
  · rw [hr] at hq
    exact absurd hq List.not_mem_nil
  · rw [hr] at hpc
    exact absurd hpc (by simp)
  · exact hdone
  · exact h_reached (hI.calls d hd hpc)

theorem ReachInv.all_done (hI : R.ReachInv dead s) (hF : R.FloodInv s) (hM : R.MarkInv s.store)
    (hV : R.DeliveryInv s.store) (hself : R.overlay.selfRoute ∉ R.overlay.nodes)
    (hrest : AllAtRest dead s) {n : Node} (hn : n ∈ R.overlay.nodes)
    (h : R.LivePath dead n ∨ n ∈ R.overlay.nbrs R.overlay.portal) :
    n ∈ s.store.st.buffer.done :=
  hI.done_of_rest hF hM hV hself hrest.calls hrest.workers hn h

/-- **When a request at rest is final.** For every overlay and every set of nodes that
cannot be reached, in every run without other failures: once nothing is running or in
flight and the buffer is empty, the buffer is final exactly if each configured node is
joined to the portal by live nodes or is a neighbour of the portal. -/
theorem unreachable_final_iff (R : Request Node Row) (dead : Node → Prop)
    (hself : R.overlay.selfRoute ∉ R.overlay.nodes) {s : State Node Row}
    (h : R.machine.Reachable (OnlyUnreachable dead) s) (hrest : AllAtRest dead s) :
    s.store.st.buffer.isFinal = true ↔
      ∀ n ∈ R.overlay.nodes, R.LivePath dead n ∨ n ∈ R.overlay.nbrs R.overlay.portal := by
  -- each of the invariants is kept with the help of the others
  obtain ⟨⟨hF, -, -, hN⟩, hlive, hV, -, hI, hM⟩ := h.invariant
    (fun s => (R.FloodInv s ∧ R.UpstreamInv s ∧ DepositInv s.store ∧ R.NodesInv s.store) ∧
      s.store.st.buffer.canceled = false ∧ R.DeliveryInv s.store ∧
      Cascade.Awaits R.cascade s.calls ∧ R.ReachInv dead s ∧ R.MarkInv s.store)
    ⟨⟨.initial R, .initial R, .initial R, .initial R⟩, start_live R, .initial R,
      fun c hc id todo hpc => by
        obtain rfl := List.mem_singleton.mp hc
        exact absurd hpc (by simp),
      .initial R dead, .initial R⟩
    fun s l s' ⟨⟨hF, hU, hD, hN⟩, hlive, hV, hA, hI, hM⟩ honly hstep => by
      have hstep := Cascade.step_iff.mp hstep
      exact ⟨⟨hF.step hstep, hU.step hF hstep, hD.step hstep, hN.step hF hstep⟩,
        (step_live hstep honly.uncanceled).trans hlive,
        hV.step hF hU hlive honly.uncanceled hstep, hA.step hF.shape hstep,
        hI.step hF hA honly hstep, hM.step hU hD hN hlive honly hstep⟩
  rw [s.store.st.buffer.isFinal_iff hlive]
  constructor
  · -- who is marked takes part, or has been given up by the portal
    rintro ⟨-, hcard⟩ n hn
    exact hI.done n (hN.all_done hcard n hn)
  · intro hall
    refine ⟨hrest.q, ?_⟩
    -- who takes part has been marked by the time that all is at rest
    have h_sub : R.overlay.nodes.toFinset ⊆ s.store.st.buffer.done := fun n hn =>
      have hn := List.mem_toFinset.mp hn
      hI.all_done hF hM hV hself hrest hn (hall n hn)
    rw [hN.expected, ← List.toFinset_card_of_nodup R.overlay.nodes_nodup]
    exact Finset.card_le_card h_sub

end Step

/-! ### Runs with a node that is down -/

omit [DecidableEq Node] in
/-- `AllAtRest`, as it is evaluated. -/
theorem allAtRest_of {dead : Node → Prop} {s : State Node Row}
    (h : (∀ c ∈ s.calls, c.pc.answer.isSome ∨ (c.pc = .sent ∧ dead c.dst)) ∧
      (∀ w ∈ s.store.workers, w.todo.isEmpty) ∧
      (∀ p ∈ s.store.pushes, p.hops = [] ∧ p.pc.isAcked = true) ∧
      s.store.st.buffer.q.isEmpty) : AllAtRest dead s where
  calls := h.1
  workers w hw := List.isEmpty_iff.mp (h.2.1 w hw)
  pushes p hp := ⟨(h.2.2.1 p hp).1, PushPc.isAcked_iff.mp (h.2.2.1 p hp).2⟩
  q := List.isEmpty_iff.mp h.2.2.2

/-- The portal's one neighbour is down. The portal marks it, and its own last chunk ends
the result. -/
theorem unreachable_final_pair : ∃ s, (quiet .pair).machine.Reachable
      (OnlyUnreachable (· = .b)) s ∧ AllAtRest (· = .b) s ∧ s.store.st.buffer.isFinal = true := by
  obtain ⟨s, hrun, h⟩ := Machine.exists_run_of_exec (M := (quiet .pair).machine)
    (P := OnlyUnreachable (· = .b)) (s := (quiet .pair).start)
    (l := [.send 0, .expire 0, .finish 0] ++ depositLocal 0)
    (Φ := fun s => (∀ c ∈ s.calls, c.pc.answer.isSome ∨ (c.pc = .sent ∧ c.dst = .b)) ∧
      (∀ w ∈ s.store.workers, w.todo.isEmpty) ∧
      (∀ p ∈ s.store.pushes, p.hops = [] ∧ p.pc.isAcked = true) ∧ s.store.st.buffer.q.isEmpty)
    (by decide +kernel)
  have hrest : AllAtRest (· = .b) s := allAtRest_of h
  refine ⟨s, ⟨_, hrun⟩, hrest,
    (unreachable_final_iff (quiet .pair) (· = .b) (by decide) ⟨_, hrun⟩ hrest).mpr fun n hn => ?_⟩
  rcases List.mem_pair.mp hn with rfl | rfl
  · exact Or.inl .refl
  · exact Or.inr (List.mem_singleton_self _)

/-- The last node of a chain of three is down. `b` cannot forward to it, and nobody marks
it. -/
theorem unreachable_stuck : ∃ s, (quiet .chain).machine.Reachable
      (OnlyUnreachable (· = .c)) s ∧ AllAtRest (· = .c) s ∧ s.store.st.buffer.isFinal = false := by
  obtain ⟨s, hrun, h⟩ := Machine.exists_run_of_exec (M := (quiet .chain).machine)
    (P := OnlyUnreachable (· = .c)) (s := (quiet .chain).start)
    (l := [.send 0, .check 1, .commit 1, .send 1, .expire 1, .finish 1, .collect 0, .finish 0] ++
      pushThrough 0 0 ++ depositLocal 1)
    (Φ := fun s => ((∀ c ∈ s.calls, c.pc.answer.isSome ∨ (c.pc = .sent ∧ c.dst = .c)) ∧
      (∀ w ∈ s.store.workers, w.todo.isEmpty) ∧
      (∀ p ∈ s.store.pushes, p.hops = [] ∧ p.pc.isAcked = true) ∧
      s.store.st.buffer.q.isEmpty) ∧ s.store.st.buffer.isFinal = false)
    (by decide +kernel)
  exact ⟨s, ⟨_, hrun⟩, allAtRest_of h.1, h.2⟩

end Request
end Mini2
