import Mini2.Framework.CascadeProgress
import Mini2.Node.Unreachable

/-!
# Requests come to rest

What one query sets off ends by itself. The flood ends because every hop uses up a node, a
worker sends each chunk at most five times, and a chunk on its way up passes each node at
most once: it follows the upstream pointers, and these go back in the order of the first
inserts, which later inserts do not change. `weight` adds all of this up, and is a bound on
the actions still to come, in every interleaving and whatever fails, is canceled or expires
(`traffic_le`).

Nor does a request get stuck on the way: as long as some handler, worker or push call is not
finished, one of them can act (`exists_working`). So a request comes to rest
(`comes_to_rest`), and then nothing keeps its result from being final but the rows that the
client has not fetched yet (`settles`).
-/

namespace Mini2

open Framework

variable {Node Row : Type*}

namespace Request

variable [DecidableEq Node] {R : Request Node Row} {s s' : State Node Row} {l : Label Node}
  {σ σ' : Store Node Row} {e : Event Node}

/-- The actions of the handlers, the workers and the push calls. The client, the aborts, the
janitor and failing push calls are what happens to them. -/
def working : Label Node → Bool
  | .env (.work _) => true
  | .env (.cut _ _) => true
  | .env (.push _) => true
  | .env _ => false
  | _ => true

/-! ### The order of the first inserts -/

/-- The nodes with a route. -/
def routed (R : Request Node Row) (s : State Node Row) : Finset Node :=
  R.overlay.nodes.toFinset.filter fun n => (s.store.routes n).isSome

/-- `rank` orders the nodes by their first route insert, without gaps. -/
def Ranked (R : Request Node Row) (s : State Node Row) (rank : Node → ℕ) : Prop :=
  ∃ bound, R.FirstInserts s rank bound ∧ bound ≤ (R.routed s).card

theorem Ranked.initial (R : Request Node Row) : R.Ranked R.start fun _ => 0 := by
  refine ⟨1, ⟨fun _ _ => Nat.zero_lt_one, ?_, ?_⟩, ?_⟩
  · intro n r hr hn
    have h_none : R.startStore.routes n = none := by simp [startStore, hn]
    exact absurd (h_none.symm.trans hr) (by simp)
  · intro c hc req _ hpc
    obtain rfl := List.mem_singleton.mp hc
    exact absurd hpc (by simp)
  · refine Finset.card_pos.mpr ⟨R.overlay.portal, Finset.mem_filter.mpr ⟨?_, ?_⟩⟩
    · exact List.mem_toFinset.mpr R.overlay.portal_mem
    · simp [start, startStore]

/-- Ranks stay below the number of nodes. -/
theorem Ranked.lt {rank : Node → ℕ} (h : R.Ranked s rank) {n : Node}
    (hn : (s.store.routes n).isSome) : rank n < R.overlay.nodes.length := by
  obtain ⟨bound, hI, hbound⟩ := h
  have h_card : (R.routed s).card ≤ R.overlay.nodes.length :=
    (Finset.card_filter_le _ _).trans (List.toFinset_card_le _)
  have h_lt := hI.lt_bound n hn
  omega

theorem Ranked.upstreamInv {rank : Node → ℕ} (h : R.Ranked s rank) : R.UpstreamInv s :=
  ⟨rank, h.imp fun _ h => h.1⟩

/-- **A node keeps the rank that its first insert has given it.** -/
theorem Ranked.step {rank : Node → ℕ} (hF : R.FloodInv s) (hI : R.Ranked s rank)
    (h : R.cascade.Step s l s') : ∃ rank', R.Ranked s' rank' ∧
      ∀ n, (s.store.routes n).isSome → rank' n = rank n ∧ (s'.store.routes n).isSome := by
  obtain ⟨bound, hI, hbound⟩ := hI
  rcases routes_cases h with heq | ⟨i, c, req, hc, hpc, hm, hcalls, hroutes⟩
  · refine ⟨rank, ⟨bound, hI.keep h heq, ?_⟩, fun n hn => ⟨rfl, heq ▸ hn⟩⟩
    unfold routed
    rw [heq]
    exact hbound
  -- otherwise a node gets a route, whether it has had one or not
  have h_keep : ∀ n, (s.store.routes n).isSome → (s'.store.routes n).isSome :=
    fun _ => routes_mono h
  have h_sub : R.routed s ⊆ R.routed s' := fun n hn => by
    obtain ⟨hmem, hn⟩ := Finset.mem_filter.mp hn
    exact Finset.mem_filter.mpr ⟨hmem, h_keep n hn⟩
  cases hold : s.store.routes c.dst with
  | none =>
    refine ⟨_, ⟨_, hI.insert hF hc hm hcalls hroutes hold, ?_⟩, fun n hn => ⟨?_, h_keep n hn⟩⟩
    · -- the node is one more with a route
      have h_mem : c.dst ∈ R.overlay.nodes := hF.dst_mem (List.mem_of_getElem? hc)
      have h_new : c.dst ∈ R.routed s' := by
        refine Finset.mem_filter.mpr ⟨List.mem_toFinset.mpr h_mem, ?_⟩
        rw [hroutes]
        simp
      have h_old : c.dst ∉ R.routed s := fun h => by
        rw [routed, Finset.mem_filter, hold] at h
        exact absurd h.2 (by simp)
      have h_lt := Finset.card_lt_card ((Finset.ssubset_iff_of_subset h_sub).mpr ⟨_, h_new, h_old⟩)
      omega
    · refine Function.update_of_ne ?_ _ _
      rintro rfl
      rw [hold] at hn
      exact absurd hn (by simp)
  | some r =>
    refine ⟨rank, ⟨bound, ?_, hbound.trans (Finset.card_le_card h_sub)⟩,
      fun n hn => ⟨rfl, h_keep n hn⟩⟩
    exact hI.overwrite hF h hc hpc hm hroutes (by rw [hold]; rfl)

/-! ### Where the chunks are -/

/-- Push calls are on their way to nodes with a route, and so will be those of the workers. -/
structure Placed (R : Request Node Row) (σ : Store Node Row) : Prop where
  pushes : ∀ p ∈ σ.pushes, ∀ n, p.pc = .at n → (σ.routes n).isSome
  workers : ∀ w ∈ σ.workers, w.upstream ≠ R.overlay.selfRoute ∨ w.pc.sending = true →
    (σ.routes w.upstream).isSome

theorem Placed.initial (R : Request Node Row) : R.Placed R.startStore :=
  ⟨fun _ h => absurd h List.not_mem_nil, fun _ h => absurd h List.not_mem_nil⟩

section Env

variable (hI : R.Placed σ) (h : R.EnvStep σ e σ')

include hI h

theorem Placed.env_pushes (hup : ∀ n r, σ.routes n = some r → n ≠ R.overlay.portal →
    (σ.routes r.upstreamPeer).isSome) :
    ∀ p ∈ σ'.pushes, ∀ n, p.pc = .at n → (σ.routes n).isSome := by
  -- a call that is no longer on its way has arrived
  have h_arrived : ∀ {i : ℕ} {p : PushCall Node Row}, (∀ n, p.pc ≠ .at n) →
      ∀ q ∈ σ.pushes.set i p, ∀ n, q.pc = .at n → (σ.routes n).isSome :=
    fun hp => forall_mem_set hI.pushes fun n hn => absurd hn (hp n)
  have h_sent : ∀ {w : Worker Node Row} {p : PushCall Node Row}, w ∈ σ.workers →
      w.upstream ≠ R.overlay.selfRoute ∨ w.pc.sending = true → p.pc = .at w.upstream →
      ∀ q ∈ σ.pushes ++ [p], ∀ n, q.pc = .at n → (σ.routes n).isSome := by
    intro w p hw hsends hp
    refine forall_mem_concat hI.pushes fun n hn => ?_
    rw [hp] at hn
    obtain rfl := PushPc.at.inj hn
    exact hI.workers w hw hsends
  cases h with
  | workPush hw _ _ hself _ => exact h_sent (List.mem_of_getElem? hw) (Or.inl hself) rfl
  | workRetry hw hpc _ =>
    exact h_sent (List.mem_of_getElem? hw) (Or.inr (by rw [hpc]; rfl)) rfl
  | pushFound _ _ _ => exact h_arrived (by simp)
  | pushUnregistered _ _ _ => exact h_arrived (by simp)
  | pushNoRoute _ _ _ _ => exact h_arrived (by simp)
  | pushRelay _ _ hn hroute _ =>
    refine forall_mem_set hI.pushes fun n hat => ?_
    obtain rfl := PushPc.at.inj hat
    exact hup _ _ hroute hn
  | pushNoPeer _ _ _ _ _ => exact h_arrived (by simp)
  | pushCanceled _ _ _ => exact h_arrived (by simp)
  | pushLive _ _ _ => exact h_arrived (by simp)
  | pushDeposit _ _ => exact h_arrived (by simp)
  | pushMark _ _ => exact h_arrived (by simp)
  | pushAck _ _ => exact h_arrived (by simp)
  | pushReturn _ _ _ => exact h_arrived (by simp)
  | pushFail hp _ =>
    -- what goes on is where it was
    exact forall_mem_concat (h_arrived (by simp)) fun n hn =>
      hI.pushes _ (List.mem_of_getElem? hp) n hn
  | _ => exact hI.pushes

theorem Placed.env_workers : ∀ w ∈ σ'.workers,
    w.upstream ≠ R.overlay.selfRoute ∨ w.pc.sending = true → (σ.routes w.upstream).isSome := by
  -- the worker is not sending yet, or no longer, or was so before
  have h_move : ∀ {k : ℕ} {w w' : Worker Node Row}, σ.workers[k]? = some w →
      w'.upstream = w.upstream →
      (w'.pc.sending = true → w.upstream ≠ R.overlay.selfRoute ∨ w.pc.sending = true) →
      ∀ v ∈ σ.workers.set k w',
        v.upstream ≠ R.overlay.selfRoute ∨ v.pc.sending = true → (σ.routes v.upstream).isSome := by
    intro k w w' hw hup hpc
    refine forall_mem_set_of hI.workers hw fun hroute hsends => ?_
    rw [hup] at hsends ⊢
    exact hroute (hsends.elim Or.inl hpc)
  cases h with
  | workFound hw _ _ _ _ _ => exact h_move hw rfl (by simp [WorkerPc.sending])
  | workGone hw _ _ _ _ => exact h_move hw rfl (by simp [Worker.advance, WorkerPc.sending])
  | workPush hw _ _ hself _ => exact h_move hw rfl fun _ => Or.inl hself
  | workNoPeer hw _ _ _ _ => exact h_move hw rfl (by simp [Worker.advance, WorkerPc.sending])
  | workDeposit hw _ _ => exact h_move hw rfl (by simp [WorkerPc.sending])
  | workMark hw _ _ => exact h_move hw rfl (by simp [Worker.advance, WorkerPc.sending])
  | workAcked hw _ _ _ _ _ _ =>
    exact h_move hw rfl (by simp [Worker.advance, WorkerPc.sending])
  | workCanceled hw _ _ _ _ _ _ _ =>
    exact h_move hw rfl (by simp [Worker.advance, WorkerPc.sending])
  | workBackoff hw hpc _ _ _ _ _ _ => exact h_move hw rfl fun _ => Or.inr (by rw [hpc]; rfl)
  | workRetry hw hpc _ => exact h_move hw rfl fun _ => Or.inr (by rw [hpc]; rfl)
  | workExhausted hw _ _ => exact h_move hw rfl (by simp [Worker.advance, WorkerPc.sending])
  | cut hw _ _ _ _ => exact h_move hw rfl Or.inr
  | _ => exact hI.workers

/-- The actions around the flood send chunks along routes only. -/
theorem Placed.env (hup : ∀ n r, σ.routes n = some r → n ≠ R.overlay.portal →
    (σ.routes r.upstreamPeer).isSome) : R.Placed σ' where
  pushes := by
    rw [h.routes_eq]
    exact hI.env_pushes h hup
  workers := by
    rw [h.routes_eq]
    exact hI.env_workers h

end Env

/-- What an action of the flood does to the chunks: it starts a worker, or nothing. -/
theorem flood_cases (h : R.cascade.Step s l s') :
    (∃ e, l = .env e ∧ R.EnvStep s.store e s'.store ∧ s'.calls = s.calls) ∨
      (l.isCall = true ∧ s'.store.pushes = s.store.pushes ∧
        (s'.store.workers = s.store.workers ∨ ∃ c ∈ s.calls, s'.store.workers =
          s.store.workers ++ [⟨c.dst, R.upstream c.msg, (R.scan c.dst).calls, [], .ready⟩])) := by
  cases h with
  | env he => exact Or.inl ⟨_, rfl, env_cases he, rfl⟩
  | finish hc _ => exact Or.inr ⟨rfl, rfl, Or.inr ⟨_, List.mem_of_getElem? hc, rfl⟩⟩
  | _ => exact Or.inr ⟨rfl, rfl, Or.inl rfl⟩

/-- **Every action keeps the chunks on routes.** -/
theorem Placed.step (hI : R.Placed s.store) (hF : R.FloodInv s) (hU : R.UpstreamInv s)
    (h : R.cascade.Step s l s') : R.Placed s'.store := by
  rcases flood_cases h with ⟨e, -, henv, -⟩ | ⟨-, hpushes, hworkers⟩
  · exact hI.env henv fun n r hr hn => (hU.upstream hr hn).2
  refine ⟨fun p hp n hn => routes_mono h (hI.pushes p (hpushes ▸ hp) n hn), ?_⟩
  have h_old : ∀ w ∈ s.store.workers, w.upstream ≠ R.overlay.selfRoute ∨ w.pc.sending = true →
      (s'.store.routes w.upstream).isSome :=
    fun w hw hsends => routes_mono h (hI.workers w hw hsends)
  rcases hworkers with heq | ⟨c, hc, heq⟩
  · rw [heq]
    exact h_old
  · rw [heq]
    refine forall_mem_concat h_old fun hsends => routes_mono h ?_
    -- a new worker sends to whom its forward came from
    cases hm : c.msg with
    | submitQuery =>
      rw [hm] at hsends
      exact absurd rfl (hsends.resolve_right (by simp [WorkerPc.sending]))
    | forwardQuery req => exact (hF.from_routed hc hm).2

/-! ### The actions still to come -/

/-- Sending a chunk, all that its push call does on `N` nodes, and reading the answer. -/
def attemptWeight (N : ℕ) : ℕ := 2 * N + 8

/-- A chunk that a worker has not begun with. Each of its rows can be cut off. -/
def chunkWeight (N : ℕ) (c : SinkCall Row) : ℕ := 5 * attemptWeight N + 1 + c.rows.length

/-- What is left of the attempts at the current chunk. -/
def currentWeight (N : ℕ) : WorkerPc → ℕ
  | .ready => 5 * attemptWeight N + 1
  | .found => 2
  | .deposited => 1
  | .pushing _ retries => retries * attemptWeight N + 2
  | .backoff retries => retries * attemptWeight N + 1

def chunksWeight (N : ℕ) (todo : List (SinkCall Row)) : ℕ := (todo.map (chunkWeight N)).sum

def workerWeight (N : ℕ) (w : Worker Node Row) : ℕ :=
  match w.todo with
  | [] => 0
  | c :: todo => currentWeight N w.pc + c.rows.length + chunksWeight N todo

/-- A call that goes up the ranks has to come back the same way. -/
def pushWeight (rank : Node → ℕ) (p : PushCall Node Row) : ℕ :=
  p.hops.length +
    match p.pc with
    | .at n => 2 * rank n + 6
    | .found => 5
    | .live => 4
    | .pushed _ => 3
    | .marked _ => 2
    | .acked _ => 0

/-- The actions of the workers and the push calls still to come. -/
def storeWeight (N : ℕ) (rank : Node → ℕ) (σ : Store Node Row) : ℕ :=
  (σ.workers.map (workerWeight N)).sum + (σ.pushes.map (pushWeight rank)).sum

omit [DecidableEq Node] in
/-- A worker that has nothing begun is worth its chunks. -/
theorem workerWeight_ready {N : ℕ} {w : Worker Node Row} (hpc : w.pc = .ready) :
    workerWeight N w = chunksWeight N w.todo := by
  unfold workerWeight chunksWeight
  cases w.todo with
  | nil => rfl
  | cons c todo =>
    rw [hpc]
    rfl

section Weight

variable {N : ℕ} {rank : Node → ℕ}

omit [DecidableEq Node] in
/-- A worker that is done with its chunk has spent what was left of it. -/
theorem workerWeight_advance {w : Worker Node Row} {c : SinkCall Row} {todo : List (SinkCall Row)}
    (htodo : w.todo = c :: todo) (outcome : Outcome) (hpos : 0 < currentWeight N w.pc) :
    workerWeight N (w.advance c todo outcome) + 1 ≤ workerWeight N w := by
  rw [workerWeight_ready rfl]
  unfold workerWeight
  rw [htodo]
  change chunksWeight N todo + 1 ≤ currentWeight N w.pc + c.rows.length + chunksWeight N todo
  omega

omit [DecidableEq Node] in
/-- So has one that stays with it. -/
theorem workerWeight_goto {w : Worker Node Row} {c : SinkCall Row} {todo : List (SinkCall Row)}
    (htodo : w.todo = c :: todo) {pc : WorkerPc} {m : ℕ}
    (hpc : currentWeight N pc + m ≤ currentWeight N w.pc) :
    workerWeight N { w with pc := pc } + m ≤ workerWeight N w := by
  unfold workerWeight
  rw [htodo]
  change currentWeight N pc + c.rows.length + chunksWeight N todo + m ≤
    currentWeight N w.pc + c.rows.length + chunksWeight N todo
  omega

/-- **Every action of a worker or a push call spends weight**, and nothing around them adds
any. -/
theorem EnvStep.weight (h : R.EnvStep σ e σ') (hI : R.Placed σ)
    (hlt : ∀ n, (σ.routes n).isSome → rank n < N)
    (hup : ∀ n r, σ.routes n = some r → n ≠ R.overlay.portal → rank r.upstreamPeer < rank n) :
    storeWeight N rank σ' + (if working (.env e) then 1 else 0) ≤ storeWeight N rank σ := by
  have h_worker : ∀ {k : ℕ} {w w' : Worker Node Row}, σ.workers[k]? = some w →
      σ'.workers = σ.workers.set k w' → σ'.pushes = σ.pushes →
      workerWeight N w' + 1 ≤ workerWeight N w →
      storeWeight N rank σ' + 1 ≤ storeWeight N rank σ := by
    intro k w w' hw hworkers hpushes hle
    have h_sum := sum_map_set (f := workerWeight N) (b := w') hw
    unfold storeWeight
    rw [hworkers, hpushes]
    omega
  have h_push : ∀ {i : ℕ} {p p' : PushCall Node Row}, σ.pushes[i]? = some p →
      σ'.pushes = σ.pushes.set i p' → σ'.workers = σ.workers →
      pushWeight rank p' + 1 ≤ pushWeight rank p →
      storeWeight N rank σ' + 1 ≤ storeWeight N rank σ := by
    intro i p p' hp hpushes hworkers hle
    have h_sum := sum_map_set (f := pushWeight rank) (b := p') hp
    unfold storeWeight
    rw [hworkers, hpushes]
    omega
  -- an attempt is worth sending the chunk, and its push call
  have h_send : ∀ {k retries : ℕ} {w : Worker Node Row} {c : SinkCall Row}
      {todo : List (SinkCall Row)}, σ.workers[k]? = some w → w.todo = c :: todo →
      w.upstream ≠ R.overlay.selfRoute ∨ w.pc.sending = true →
      currentWeight N (.pushing σ.pushes.length retries) + attemptWeight N ≤
        currentWeight N w.pc + 2 →
      storeWeight N rank (σ.startPush k w c retries) + 1 ≤ storeWeight N rank σ := by
    intro k retries w c todo hw htodo hsends hcurrent
    have h_rank := hlt _ (hI.workers w (List.mem_of_getElem? hw) hsends)
    have h_goto : workerWeight N { w with pc := .pushing σ.pushes.length retries } +
        (attemptWeight N - 2) ≤ workerWeight N w := by
      refine workerWeight_goto htodo ?_
      unfold attemptWeight at hcurrent ⊢
      omega
    have h_sum := sum_map_set (f := workerWeight N)
      (b := { w with pc := .pushing σ.pushes.length retries }) hw
    change ((σ.workers.set k { w with pc := .pushing σ.pushes.length retries }).map _).sum +
      ((σ.pushes ++ [_]).map _).sum + 1 ≤ _
    rw [List.map_append, List.sum_append, List.map_singleton, List.sum_singleton]
    unfold storeWeight pushWeight
    unfold attemptWeight at h_goto
    simp only [List.length_nil]
    omega
  cases h with
  | workFound hw hpc htodo _ _ _ =>
    refine h_worker hw rfl rfl (workerWeight_goto htodo ?_)
    rw [hpc]
    simp only [currentWeight, attemptWeight]
    omega
  | workGone hw hpc htodo _ _ =>
    exact h_worker hw rfl rfl (workerWeight_advance htodo _ (by simp [hpc, currentWeight]))
  | workPush hw hpc htodo hself _ =>
    refine h_send hw htodo (Or.inl hself) ?_
    rw [hpc]
    simp only [currentWeight]
    omega
  | workNoPeer hw hpc htodo _ _ =>
    exact h_worker hw rfl rfl (workerWeight_advance htodo _ (by simp [hpc, currentWeight]))
  | workDeposit hw hpc htodo =>
    refine h_worker hw rfl rfl (workerWeight_goto htodo ?_)
    rw [hpc]
    exact Nat.le_refl _
  | workMark hw hpc htodo =>
    exact h_worker hw rfl rfl (workerWeight_advance htodo _ (by simp [hpc, currentWeight]))
  | workAcked hw hpc htodo _ _ _ _ =>
    exact h_worker hw rfl rfl (workerWeight_advance htodo _ (by simp [hpc, currentWeight]))
  | workCanceled hw hpc htodo _ _ _ _ _ =>
    exact h_worker hw rfl rfl (workerWeight_advance htodo _ (by simp [hpc, currentWeight]))
  | workBackoff hw hpc htodo _ _ _ _ _ =>
    refine h_worker hw rfl rfl (workerWeight_goto htodo ?_)
    rw [hpc]
    exact Nat.le_refl _
  | @workRetry k retries w c todo hw hpc htodo =>
    refine h_send hw htodo (Or.inr (by rw [hpc]; rfl)) ?_
    rw [hpc]
    simp only [currentWeight, Nat.succ_mul]
    omega
  | workExhausted hw hpc htodo =>
    exact h_worker hw rfl rfl (workerWeight_advance htodo _ (by simp [hpc, currentWeight]))
  | @cut k m w c todo hw hpc htodo _ hm =>
    -- the rows that are cut off pay for it
    refine h_worker hw rfl rfl ?_
    unfold workerWeight chunksWeight
    rw [htodo, hpc]
    simp only [List.length_take, List.map_nil, List.sum_nil]
    omega
  | pushFound hp hpc _ => exact h_push hp rfl rfl (by simp [pushWeight, hpc])
  | pushUnregistered hp hpc _ => exact h_push hp rfl rfl (by simp [pushWeight, hpc])
  | pushNoRoute hp hpc _ _ => exact h_push hp rfl rfl (by simp [pushWeight, hpc])
  | pushRelay hp hpc hn hroute _ =>
    -- the next node comes earlier in the order of the first inserts
    have h_rank := hup _ _ hroute hn
    refine h_push hp rfl rfl ?_
    simp only [pushWeight, hpc, List.length_cons]
    omega
  | pushNoPeer hp hpc _ _ _ => exact h_push hp rfl rfl (by simp [pushWeight, hpc])
  | pushCanceled hp hpc _ => exact h_push hp rfl rfl (by simp [pushWeight, hpc])
  | pushLive hp hpc _ => exact h_push hp rfl rfl (by simp [pushWeight, hpc])
  | pushDeposit hp hpc => exact h_push hp rfl rfl (by simp [pushWeight, hpc])
  | pushMark hp hpc => exact h_push hp rfl rfl (by simp [pushWeight, hpc])
  | pushAck hp hpc => exact h_push hp rfl rfl (by simp [pushWeight, hpc])
  | pushReturn hp hpc hhops => exact h_push hp rfl rfl (by simp [pushWeight, hpc, hhops])
  | @pushFail i j p hp hj =>
    -- the two parts of the call are worth what the call was
    have h_sum := sum_map_set (f := pushWeight rank)
      (b := { p with hops := p.hops.drop j, pc := .acked .failed }) hp
    have h_parts : pushWeight rank { p with hops := p.hops.drop j, pc := .acked .failed } +
        pushWeight rank { p with worker := none, hops := p.hops.take j } = pushWeight rank p := by
      simp only [pushWeight, List.length_drop, List.length_take]
      omega
    unfold storeWeight
    rw [List.map_append, List.sum_append, List.map_singleton, List.sum_singleton]
    simp only [working, Bool.false_eq_true, if_false]
    omega
  | _ => exact Nat.le_refl _

end Weight

/-! ### The bound -/

/-- What a new worker is worth, on any node. -/
def scanWeight (R : Request Node Row) : ℕ :=
  (R.overlay.nodes.map fun n => chunksWeight R.overlay.nodes.length (R.scan n).calls).sum

/-- The actions still to come. Each action of the flood may start a worker. -/
def weight (R : Request Node Row) (rank : Node → ℕ) (s : State Node Row) : ℕ :=
  (R.scanWeight + 1) * R.forwardRanking.potential s.calls +
    storeWeight R.overlay.nodes.length rank s.store

/-- The actions that a request can take, of its handlers, workers and push calls. -/
def trafficBound (R : Request Node Row) : ℕ :=
  (R.scanWeight + 1) * R.forwardRanking.potential R.start.calls

/-- What the traffic of a request rests on. -/
structure WorkInv (R : Request Node Row) (s : State Node Row) : Prop where
  flood : R.FloodInv s
  awaits : Cascade.Awaits R.cascade s.calls
  ahead : Cascade.Ahead s.calls
  deposits : DepositInv s.store
  placed : R.Placed s.store

/-- A request that `m` more actions are enough for. -/
structure Budget (R : Request Node Row) (s : State Node Row) (m : ℕ) : Prop extends
    R.WorkInv s where
  weight : ∃ rank, R.Ranked s rank ∧ R.weight rank s ≤ m

theorem Budget.initial (R : Request Node Row) : R.Budget R.start R.trafficBound where
  flood := .initial R
  awaits := by
    intro c hc id todo hpc
    obtain rfl := List.mem_singleton.mp hc
    exact absurd hpc (by simp)
  ahead := .singleton (by simp)
  deposits := .initial R
  placed := .initial R
  weight := ⟨fun _ => 0, .initial R, Nat.le_refl _⟩

omit [DecidableEq Node] in
/-- Ranks of nodes without a route weigh nothing. -/
theorem Placed.storeWeight_congr (hI : R.Placed σ) {N : ℕ} {rank rank' : Node → ℕ}
    (h : ∀ n, (σ.routes n).isSome → rank' n = rank n) :
    storeWeight N rank' σ = storeWeight N rank σ := by
  unfold storeWeight
  have h_push : σ.pushes.map (pushWeight rank') = σ.pushes.map (pushWeight rank) := by
    refine List.map_congr_left fun p hp => ?_
    unfold pushWeight
    cases hpc : p.pc with
    | «at» n => exact congrArg (fun r => p.hops.length + (2 * r + 6)) (h n (hI.pushes p hp n hpc))
    | _ => rfl
  rw [h_push]

omit [DecidableEq Node] in
/-- A node's engine hands over no more than all engines together. -/
theorem chunksWeight_le_scanWeight {n : Node} (hn : n ∈ R.overlay.nodes) :
    chunksWeight R.overlay.nodes.length (R.scan n).calls ≤ R.scanWeight :=
  List.single_le_sum (fun _ _ => Nat.zero_le _) _ (List.mem_map_of_mem hn)

/-- **Every action of a request spends its budget.** -/
theorem Budget.step {m : ℕ} (hI : R.Budget s m) (h : R.cascade.Step s l s') :
    ∃ m', R.Budget s' m' ∧ m' + (if working l then 1 else 0) ≤ m := by
  obtain ⟨hinv, rank, hranked, hweight⟩ := hI
  obtain ⟨rank', hranked', hkeep⟩ := hranked.step hinv.flood h
  have hplaced' := hinv.placed.step hinv.flood hranked.upstreamInv h
  refine ⟨R.weight rank' s', ⟨⟨hinv.flood.step h, hinv.awaits.step hinv.flood.shape h,
    hinv.ahead.step h, hinv.deposits.step h, hplaced'⟩, rank', hranked', Nat.le_refl _⟩, ?_⟩
  refine le_trans ?_ hweight
  have h_calls := R.forwardRanking.potential_step h hinv.flood.shape hinv.flood.valid
  rcases flood_cases h with ⟨e, rfl, henv, hcalls⟩ | ⟨hcall, hpushes, hworkers⟩
  · have h_env := henv.weight hinv.placed (fun n hn => hranked.lt hn)
      fun n r hr hn => (hranked.choose_spec.1.route n r hr hn).2.2
    have h_ranks := hplaced'.storeWeight_congr (N := R.overlay.nodes.length)
      fun n hn => (hkeep n (henv.routes_eq ▸ hn)).1
    unfold Request.weight
    rw [hcalls, h_ranks, Nat.add_assoc]
    exact Nat.add_le_add_left h_env _
  · rw [if_pos hcall] at h_calls
    have h_ranks := hinv.placed.storeWeight_congr (N := R.overlay.nodes.length)
      fun n hn => (hkeep n hn).1
    -- what a new worker is worth has been set aside for the action that starts it
    have h_store : storeWeight R.overlay.nodes.length rank' s'.store ≤
        storeWeight R.overlay.nodes.length rank s.store + R.scanWeight := by
      rw [← h_ranks]
      unfold storeWeight
      rw [hpushes]
      rcases hworkers with heq | ⟨c, hc, heq⟩
      · rw [heq]
        exact Nat.le_add_right _ _
      · have h_new := R.chunksWeight_le_scanWeight (hinv.flood.dst_mem hc)
        rw [heq, List.map_append, List.sum_append, List.map_singleton, List.sum_singleton,
          workerWeight_ready rfl]
        dsimp only
        omega
    have h_paid := Nat.mul_le_mul_left (R.scanWeight + 1) h_calls
    rw [Nat.mul_succ] at h_paid
    unfold Request.weight
    split <;> omega

/-- **What a query sets off ends by itself.** In every run of a request, whatever fails, is
canceled or expires, and whatever the client does, its handlers, workers and push calls take
no more actions than `trafficBound`. -/
theorem traffic_le (R : Request Node Row) {P : State Node Row → Label Node → Prop}
    {ls : List (Label Node)} (h : R.machine.Run P R.start ls s) :
    ls.countP working ≤ R.trafficBound := by
  obtain ⟨m, -, hle⟩ := h.budget R.Budget working
    (fun _ _ _ _ hI _ hstep => hI.step (Cascade.step_iff.mp hstep)) (.initial R)
  omega

/-! ### Progress -/

/-- Nothing is running or in flight, but for the calls to dead nodes. -/
structure Rests (dead : Node → Prop) (s : State Node Row) : Prop where
  calls : AtRest dead s
  workers : ∀ w ∈ s.store.workers, w.todo = []
  pushes : ∀ p ∈ s.store.pushes, p.hops = [] ∧ ∃ ack, p.pc = .acked ack

/-- A push call that has not come back can go on. -/
theorem exists_push {i : ℕ} {p : PushCall Node Row} (hp : σ.pushes[i]? = some p)
    (hback : ¬ (p.hops = [] ∧ ∃ ack, p.pc = .acked ack)) : ∃ σ', R.push σ i = some σ' := by
  refine Option.isSome_iff_exists.mp ?_
  unfold push
  rw [hp]
  dsimp only
  cases hpc : p.pc with
  | «at» n =>
    dsimp only
    split
    · split <;> rfl
    · split
      · rfl
      · split <;> rfl
  | found =>
    dsimp only
    split <;> rfl
  -- only an answer that has come back to its worker stays where it is
  | acked ack =>
    cases hhops : p.hops with
    | nil => exact absurd ⟨hhops, ack, hpc⟩ hback
    | cons n hops => rfl
  | _ => rfl

/-- A worker with chunks left can go on, once the push calls have come back. -/
theorem exists_work {k : ℕ} {w : Worker Node Row} (hw : σ.workers[k]? = some w)
    (htodo : w.todo ≠ []) (hok : WorkerOk σ.log σ.pushes w)
    (hback : ∀ p ∈ σ.pushes, p.hops = [] ∧ ∃ ack, p.pc = .acked ack) :
    ∃ σ', R.work σ k = some σ' := by
  refine Option.isSome_iff_exists.mp ?_
  obtain ⟨c, todo, htodo⟩ := List.exists_cons_of_ne_nil htodo
  unfold work
  rw [hw]
  dsimp only
  rw [htodo]
  cases hpc : w.pc with
  | ready =>
    dsimp only
    split
    · split <;> rfl
    · split <;> rfl
  | pushing id retries =>
    -- its call has come back with an answer, whatever that is
    obtain ⟨p, hp, -⟩ := hok.pushing id retries hpc
    obtain ⟨hhops, ack, hack⟩ := hback p (List.mem_of_getElem? hp)
    dsimp only
    rw [hp]
    dsimp only
    rw [hhops, hack]
    dsimp only
    split
    · rfl
    · split <;> rfl
  | backoff retries => cases retries <;> rfl
  | _ => rfl

omit [DecidableEq Node] in
/-- What a handler may do where only dead nodes fail. -/
theorem OnlyUnreachable.of_regular {dead : Node → Prop} (h : Cascade.Regular dead s l) :
    OnlyUnreachable dead s l ∧ working l = true := by
  cases l with
  | check i =>
    obtain ⟨c, hc, hlive⟩ := h
    refine ⟨fun d hd => ?_, rfl⟩
    obtain rfl := Option.some.inj (hc.symm.trans hd)
    exact hlive
  | expire i =>
    obtain ⟨⟨dst, msg, pc⟩, id, todo, d, hc, hpc, hd, hdead⟩ := h
    obtain rfl : pc = .waiting id todo := hpc
    refine ⟨fun e he => ?_, rfl⟩
    unfold waitedFor at he
    rw [hc] at he
    obtain rfl := Option.some.inj (hd.symm.trans he)
    exact hdead
  | env e => exact absurd h id
  | _ => exact ⟨rfl, rfl⟩

/-- **No request gets stuck.** As long as it is not at rest, one of its handlers, workers and
push calls can act, without any failure but those of the dead nodes. -/
theorem WorkInv.exists_working (hI : R.WorkInv s) (dead : Node → Prop) (hbusy : ¬ Rests dead s) :
    ∃ l s', OnlyUnreachable dead s l ∧ working l = true ∧ R.machine.step s l = some s' := by
  by_cases hcalls : AtRest dead s
  · by_cases hpushes : ∀ p ∈ s.store.pushes, p.hops = [] ∧ ∃ ack, p.pc = .acked ack
    · -- the push calls are back, so the worker that is left can read its answer
      have h_worker : ∃ w ∈ s.store.workers, w.todo ≠ [] := by
        by_contra h
        push Not at h
        exact hbusy ⟨hcalls, h, hpushes⟩
      obtain ⟨w, hw, htodo⟩ := h_worker
      obtain ⟨k, hk⟩ := List.mem_iff_getElem?.mp hw
      obtain ⟨σ, hσ⟩ := exists_work (R := R) hk htodo (hI.deposits.workers w hw) hpushes
      exact ⟨.env (.work k), _, rfl, rfl, Cascade.step_iff.mpr (.env hσ)⟩
    · push Not at hpushes
      obtain ⟨p, hp, hback⟩ := hpushes
      obtain ⟨i, hi⟩ := List.mem_iff_getElem?.mp hp
      obtain ⟨σ, hσ⟩ := exists_push (R := R) hi fun ⟨hhops, ack, hack⟩ => hback hhops ack hack
      exact ⟨.env (.push i), _, rfl, rfl, Cascade.step_iff.mpr (.env hσ)⟩
  · have h_call : ∃ c ∈ s.calls, ¬ c.Over dead := by
      by_contra h
      push Not at h
      exact hcalls h
    obtain ⟨l, s', hregular, hstep⟩ := Cascade.exists_step hI.awaits hI.ahead dead h_call
    obtain ⟨honly, hworking⟩ := OnlyUnreachable.of_regular hregular
    exact ⟨l, s', honly, hworking, Cascade.step_iff.mpr hstep⟩

/-- **A request comes to rest.** From every state of a run in which only dead nodes fail,
its handlers, workers and push calls can go on until nothing is left to do, and in no more
actions than `trafficBound`. -/
theorem comes_to_rest (R : Request Node Row) (dead : Node → Prop)
    (h : R.machine.Reachable (OnlyUnreachable dead) s) :
    ∃ ls u, R.machine.Run (OnlyUnreachable dead) s ls u ∧ (∀ l ∈ ls, working l = true) ∧
      ls.length ≤ R.trafficBound ∧ Rests dead u := by
  obtain ⟨ls, hrun⟩ := h
  have h_step : ∀ s l t m, R.Budget s m → OnlyUnreachable dead s l → R.machine.step s l = some t →
      ∃ m', R.Budget t m' ∧ m' + (if working l then 1 else 0) ≤ m :=
    fun _ _ _ _ hI _ hstep => hI.step (Cascade.step_iff.mp hstep)
  obtain ⟨m, hI, hle⟩ := hrun.budget R.Budget working h_step (.initial R)
  obtain ⟨ls', u, hrun', hworking, hlen, hrest⟩ := Machine.exists_run_of_budget (M := R.machine)
    R.Budget working (Rests dead) h_step
    (fun s m hI => or_iff_not_imp_left.mpr fun hbusy => hI.toWorkInv.exists_working dead hbusy) hI
  exact ⟨ls', u, hrun', hworking, by omega, hrest⟩

/-! ### What is left at rest -/

/-- What holds in a run in which only dead nodes fail. -/
structure SettledInv (R : Request Node Row) (dead : Node → Prop) (s : State Node Row) : Prop where
  flood : R.FloodInv s
  upstream : R.UpstreamInv s
  deposits : DepositInv s.store
  nodes : R.NodesInv s.store
  live : s.store.st.buffer.canceled = false
  delivery : R.DeliveryInv s.store
  awaits : Cascade.Awaits R.cascade s.calls
  reach : R.ReachInv dead s
  marks : R.MarkInv s.store

theorem SettledInv.reachable {dead : Node → Prop}
    (h : R.machine.Reachable (OnlyUnreachable dead) s) : R.SettledInv dead s := by
  refine h.invariant (R.SettledInv dead)
    ⟨.initial R, .initial R, .initial R, .initial R, start_live R, .initial R,
      (Budget.initial R).awaits, .initial R dead, .initial R⟩ fun s l s' hI honly hstep => ?_
  have hstep := Cascade.step_iff.mp hstep
  exact ⟨hI.flood.step hstep, hI.upstream.step hI.flood hstep, hI.deposits.step hstep,
    hI.nodes.step hI.flood hstep, (step_live hstep honly.uncanceled).trans hI.live,
    hI.delivery.step hI.flood hI.upstream hI.live honly.uncanceled hstep,
    hI.awaits.step hI.flood.shape hstep, hI.reach.step hI.flood hI.awaits honly hstep,
    hI.marks.step hI.upstream hI.deposits hI.nodes hI.live honly hstep⟩

/-- At rest the buffer waits for no producer, if every node can be reached or is asked by the
portal itself. -/
theorem SettledInv.pendingProducers_eq {dead : Node → Prop} (hI : R.SettledInv dead s)
    (hself : R.overlay.selfRoute ∉ R.overlay.nodes) (hrest : Rests dead s)
    (hjoined : ∀ n ∈ R.overlay.nodes, R.LivePath dead n ∨ n ∈ R.overlay.nbrs R.overlay.portal) :
    s.store.st.buffer.pendingProducers = 0 := by
  have h_sub : R.overlay.nodes.toFinset ⊆ s.store.st.buffer.done := fun n hn =>
    have hn := List.mem_toFinset.mp hn
    hI.reach.done_of_rest hI.flood hI.marks hI.delivery hself hrest.calls hrest.workers hn
      (hjoined n hn)
  have h_card := Finset.card_le_card h_sub
  rw [List.toFinset_card_of_nodup R.overlay.nodes_nodup, ← hI.nodes.expected] at h_card
  exact if_pos h_card

/-- **Every request comes to rest and settles.** Let only dead nodes fail. From every state of
a run, whatever the client has done, handlers, workers and push calls can go on until nothing
is left to do, without another failure and within `trafficBound`. If every node is joined to
the portal by live nodes or asked by the portal itself, the buffer then waits for no producer
any more. -/
theorem settles (R : Request Node Row) (dead : Node → Prop)
    (h : R.machine.Reachable (OnlyUnreachable dead) s) :
    ∃ ls u, R.machine.Run (OnlyUnreachable dead) s ls u ∧ (∀ l ∈ ls, working l = true) ∧
      ls.length ≤ R.trafficBound ∧ Rests dead u ∧ u.store.st.buffer.canceled = false ∧
      (R.overlay.selfRoute ∉ R.overlay.nodes →
        (∀ n ∈ R.overlay.nodes, R.LivePath dead n ∨ n ∈ R.overlay.nbrs R.overlay.portal) →
        u.store.st.buffer.pendingProducers = 0) := by
  obtain ⟨ls₀, hrun₀⟩ := h
  obtain ⟨ls, u, hrun, hworking, hlen, hrest⟩ := comes_to_rest R dead ⟨ls₀, hrun₀⟩
  have hI : R.SettledInv dead u := .reachable ⟨_, hrun₀.append hrun⟩
  exact ⟨ls, u, hrun, hworking, hlen, hrest, hI.live,
    fun hself hjoined => hI.pendingProducers_eq hself hrest hjoined⟩

/-! ### A run with a node that is down -/

/-- The portal gives up on its neighbour and deposits its own last chunk. -/
def portalOnly : List (Label Overlay.Id3) := [.send 0, .expire 0, .finish 0] ++ depositLocal 0

/-- Six actions, of at most 1968. -/
theorem traffic_le_pair : portalOnly.countP working = 6 ∧
    (quiet .pair).trafficBound = 1968 ∧
    portalOnly.countP working ≤ (quiet .pair).trafficBound := by
  obtain ⟨s, hrun, -⟩ := Machine.exists_run_of_exec (M := (quiet .pair).machine)
    (P := fun _ _ => True) (s := (quiet .pair).start) (l := portalOnly)
    (Φ := fun s => s.store.workers.length = 1) (by decide +kernel)
  exact ⟨by decide, by decide +kernel, traffic_le (quiet .pair) hrun⟩

/-- The portal marks `b`, which is down, itself: the buffer does not wait for it for ever. -/
theorem settles_pair : ∃ ls u, (quiet .pair).machine.Run (OnlyUnreachable (· = .b))
    (quiet .pair).start ls u ∧ (∀ l ∈ ls, working l = true) ∧
      ls.length ≤ (quiet .pair).trafficBound ∧ u.store.st.buffer.pendingProducers = 0 := by
  obtain ⟨ls, u, hrun, hworking, hlen, -, -, hsettled⟩ :=
    settles (quiet .pair) (· = .b) ⟨[], .nil _⟩
  refine ⟨ls, u, hrun, hworking, hlen, hsettled (by decide) fun n hn => ?_⟩
  rcases List.mem_pair.mp hn with rfl | rfl
  · exact Or.inl .refl
  · exact Or.inr (List.mem_singleton_self _)

end Request
end Mini2
