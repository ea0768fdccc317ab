import Mini2.Node.CacheReplay
import Mini2.Node.ExactAnswer

/-!
# The portal's answers

A query is answered from the overlay or from the cache. In the first case, the answer is
exact as long as the request is undisturbed (`ExactInv`); in the second, the request has the
cached rows in its buffer, and fetches are all that ever happens to it (`Replay`). The cache
in turn holds what requests of the first kind have put there, so the two invariants are kept
together, for all requests and the cache at once (`AnswersInv`).

`answers_exact` is the result for the portal: whatever requests there are and however their
actions interleave, an answer has each row of the result exactly as often as the engines
emit it, and it makes no difference whether it comes from the cache.
-/

namespace Mini2

open Framework

variable {Node Row : Type*}

namespace Request

/-! ### Requests that the cache answers -/

section Replay

variable [DecidableEq Node] {R : Request Node Row} {s s' : State Node Row} {l : Label Node}
  {σ : Store Node Row} {e : Event Node} {rows : List Row}

/-- Nobody but the client acts for a request without producers. -/
theorem Idle.event (hI : Idle s) (hclean : clean l = true) (h : R.cascade.Step s l s') :
    ∃ e σ, l = .env e ∧ s' = { s with store := σ } ∧ R.EnvStep s.store e σ ∧
      ((∃ maxRows, e = .fetchBegin maxRows) ∨ ∃ i dt, e = .fetch i dt) := by
  cases h with
  | @env e σ he =>
    refine ⟨e, σ, rfl, rfl, env_cases he, ?_⟩
    cases e with
    -- there are no workers and no push calls
    | work k => exact absurd he (by simp [cascade, env, work, hI.workers])
    | cut k m => exact absurd he (by simp [cascade, env, cut, hI.workers])
    | push i => exact absurd he (by simp [cascade, env, push, hI.pushes])
    | fetchBegin maxRows => exact Or.inl ⟨maxRows, rfl⟩
    | fetch i dt => exact Or.inr ⟨i, dt, rfl⟩
    | _ => exact absurd hclean (by simp [clean])
  -- and no calls of the flood
  | check hc _ => exact absurd hc (getElem?_ne_some hI.calls)
  | commit hc _ => exact absurd hc (getElem?_ne_some hI.calls)
  | send hc _ => exact absurd hc (getElem?_ne_some hI.calls)
  | collect hc _ _ _ => exact absurd hc (getElem?_ne_some hI.calls)
  | expire hc _ _ => exact absurd hc (getElem?_ne_some hI.calls)
  | finish hc _ => exact absurd hc (getElem?_ne_some hI.calls)

/-- The rows of a request go from its queue to its responses, and the request ends with the
last of them. -/
structure ReplayInv (rows : List Row) (σ : Store Node Row) : Prop where
  caching : CachingInv σ.st.cacheMaxRows σ
  live : σ.st.buffer.canceled = false
  collect : σ.st.cacheCollect = false
  unput : σ.puts = []
  flow : (fetched σ ++ σ.st.buffer.q).Perm rows
  drained : ∀ f ∈ σ.fetches, f.rsp.final = true → σ.st.buffer.q = []
  closing : ∀ f ∈ σ.fetches, f.pc = .closing → f.rsp.final = true
  erased : σ.registered = false → rows.Subperm (returned σ)
  answered : ∀ f ∈ σ.fetches, f.pc = .answered → f.rsp.final = true → rows.Subperm (returned σ)

omit [DecidableEq Node] in
/-- The rows are in a response or in the queue. -/
theorem ReplayInv.fetched_perm (hI : ReplayInv rows σ) {f : Fetch Row} (hf : f ∈ σ.fetches)
    (hfinal : f.rsp.final = true) : (fetched σ).Perm rows := by
  have h_flow := hI.flow
  rwa [hI.drained f hf hfinal, List.append_nil] at h_flow

omit [DecidableEq Node] in
/-- Once the request has been erased, nothing is left. -/
theorem ReplayInv.drained_of_erased (hI : ReplayInv rows σ) (hreg : σ.registered = false) :
    σ.st.buffer.q = [] := by
  have h_flow := hI.flow.length_eq
  have h_all : rows.length ≤ (fetched σ).length :=
    ((hI.erased hreg).trans returned_subperm).length_le
  rw [List.length_append] at h_flow
  exact List.eq_nil_of_length_eq_zero (by omega)

/-- A fetch takes its rows from the queue, and nothing else does. -/
theorem ReplayInv.flow_env (hI : ReplayInv rows σ) (h : R.EnvStep σ e σ')
    (hevent : (∃ maxRows, e = .fetchBegin maxRows) ∨ ∃ i dt, e = .fetch i dt) :
    (fetched σ' ++ σ'.st.buffer.q).Perm rows ∧
      (σ.st.buffer.q = [] → σ'.st.buffer.q = []) := by
  have h_read : ∀ {i : ℕ} {f f' : Fetch Row}, σ.fetches[i]? = some f →
      f'.rsp.rows = f.rsp.rows → (fetched (σ.setFetch i f') ++ σ.st.buffer.q).Perm rows := by
    intro i f f' hf hrows
    rw [fetched_set hf hrows]
    exact hI.flow
  have h_begin : ∀ {f : Fetch Row}, f.rsp.rows = [] →
      (fetched { σ with fetches := σ.fetches ++ [f] } ++ σ.st.buffer.q).Perm rows := by
    intro f hrows
    rw [fetched_concat hrows]
    exact hI.flow
  obtain ⟨maxRows, rfl⟩ | ⟨i, dt, rfl⟩ := hevent
  · cases h with
    | fetchBegin _ => exact ⟨h_begin rfl, id⟩
    | fetchGone _ => exact ⟨h_begin rfl, id⟩
  · cases h with
    | @fetchPop _ _ f hf hpc st hst want hwant =>
      -- the rows of the pop go from the queue to the response
      have h_empty := hI.caching.found f (List.mem_of_getElem? hf) hpc
      have h_pop := fetched_set_perm (σ := σ) (g := { f with
        rsp := { f.rsp with rows := (σ.st.buffer.popUpTo want).2 }, pc := .popped }) hf h_empty
      have h_append := σ.st.buffer.popUpTo_append want
      constructor
      · refine (h_pop.append_right _).trans ?_
        show (fetched σ ++ (σ.st.buffer.popUpTo want).2 ++ (σ.st.buffer.popUpTo want).1.q).Perm rows
        rw [List.append_assoc, h_append]
        exact hI.flow
      · intro h_q
        show σ.st.buffer.q.drop want = []
        rw [h_q]
        exact List.drop_nil
    | fetchAccumulate hf _ hrsp =>
      -- nothing is collected
      have h_same : ∀ rows, σ.st.accumulate rows = σ.st := fun rows => if_neg (by simp [hI.collect])
      rw [h_same]
      subst hrsp
      exact ⟨h_read hf rfl, id⟩
    | fetchServed hf _ => exact ⟨h_read hf rfl, id⟩
    | fetchCounted hf _ => exact ⟨h_read hf rfl, id⟩
    | fetchCanceled hf _ => exact ⟨h_read hf rfl, id⟩
    | fetchFinal hf _ => exact ⟨h_read hf rfl, id⟩
    | fetchPut _ _ _ hcollect _ => exact absurd hcollect (by simp [hI.collect])
    | fetchNoPut hf _ _ _ => exact ⟨h_read hf rfl, id⟩
    | fetchMore hf _ _ => exact ⟨h_read hf rfl, id⟩
    | fetchErase hf _ => exact ⟨h_read hf rfl, id⟩

/-- **Every action of the client keeps the replay.** -/
theorem ReplayInv.step (hI : ReplayInv rows s.store) (hidle : Idle s) (hl : Undisturbed s l)
    (h : R.cascade.Step s l s') : ReplayInv rows s'.store := by
  obtain ⟨hclean, hclient⟩ := hl
  have h_caching := hI.caching.step hclient h
  obtain ⟨h_collect, h_unput⟩ := no_put_step hI.collect hI.unput h
  have h_live := (step_live h (uncanceled_of_clean hclean)).trans hI.live
  obtain ⟨e, σ, rfl, rfl, h, h_event⟩ := hidle.event hclean h
  obtain ⟨h_flow, h_q⟩ := hI.flow_env h h_event
  have h_sublist := h.returned_sublist
  -- a response is only final once the queue is empty, and nothing is deposited any more
  have h_final : s.store.st.buffer.isFinal = true → s.store.st.buffer.q = [] := fun hfinal =>
    ((s.store.st.buffer.isFinal_iff hI.live).mp hfinal).1
  have h_drained : ∀ f ∈ s.store.fetches, f.rsp.final = true → σ.st.buffer.q = [] :=
    fun f hf hfinal => h_q (hI.drained f hf hfinal)
  -- what has been returned stays returned
  have h_old : ∀ f ∈ s.store.fetches, f.pc = .answered → f.rsp.final = true →
      rows.Subperm (returned σ) :=
    fun f hf hpc hfinal => (hI.answered f hf hpc hfinal).trans h_sublist.subperm
  have h_gone : s.store.registered = false → rows.Subperm (returned σ) :=
    fun hreg => (hI.erased hreg).trans h_sublist.subperm
  -- the response that ends the request is the last one
  have h_closing : ∀ (i : ℕ) (dt : ℚ) (f g : Fetch Row), e = .fetch i dt →
      s.store.fetches[i]? = some f → f.pc = .closing → g.pc = .answered →
      g.rsp.rows = f.rsp.rows → σ.fetches = s.store.fetches.set i g →
      rows.Subperm (returned σ) := by
    intro i dt f g _ hf hpc hpc' hrows heq
    have h_f := List.mem_of_getElem? hf
    have h_all := hI.fetched_perm h_f (hI.closing f h_f hpc)
    have h_same : fetched σ = fetched s.store := by
      unfold fetched
      rw [heq]
      exact flatMap_set_eq (f := fun f : Fetch Row => f.rsp.rows) hf hrows
    have h_out : ∀ o ∈ σ.fetches, o.rsp.rows = [] ∨ o.pc = .answered := by
      rw [heq]
      have h_others := hI.caching.others_answered hf (by simp [hpc])
      exact forall_mem_set_of_eraseIdx (fun o ho => Or.inr (h_others o ho)) (Or.inr hpc')
    rw [returned_eq_fetched h_out, h_same]
    exact h_all.symm.subperm
  have h_limit : σ.st.cacheMaxRows = s.store.st.cacheMaxRows := h_caching.maxRows
  refine ⟨h_limit ▸ h_caching, h_live, h_collect, h_unput, h_flow, ?_,
    h.closing_final hI.closing, ?_, h.forall_answered h_old h_gone h_closing⟩
  · exact h.forall_final h_drained (fun hreg => h_q (hI.drained_of_erased hreg))
      fun hfinal => h_q (h_final hfinal)
  · intro hreg
    cases h with
    | @fetchErase i dt f hf hpc =>
      exact h_closing i dt f { f with pc := .answered } rfl hf hpc rfl rfl rfl
    | janitorErase _ => exact absurd hclean (by simp [clean])
    | _ => exact h_gone hreg

end Replay

section Put

variable [DecidableEq Node] {R : Request Node Row} {s s' : State Node Row} {l : Label Node}

/-- What an undisturbed request puts is the result. -/
theorem ExactInv.put_perm (hI' : R.ExactInv s') (h : R.cascade.Step s l s') :
    s'.store.puts = s.store.puts ∨ ∀ rows ∈ s'.store.puts, rows.Perm R.rows := by
  cases h with
  | env he =>
    cases env_cases he with
    | @fetchPut i dt f hf hpc hfinal _ _ =>
      right
      intro rows hrows
      -- the put comes with a final response, when all rows have been fetched
      have h_fetched := hI'.fetched_perm (f := { f with pc := .closing }) (mem_set_self hf) hfinal
      obtain h_none | ⟨h_puts, -⟩ := hI'.caching.puts_cases
      · exact absurd (h_none ▸ hrows) List.not_mem_nil
      · obtain rfl := List.mem_singleton.mp (h_puts ▸ hrows)
        exact h_fetched
    | _ => exact Or.inl rfl
  | _ => exact Or.inl rfl

end Put
end Request

/-! ### All requests, and the cache -/

namespace Cluster

variable (C : Cluster Node)

/-- The results of the queries fit into the buffers, and nothing disturbs the requests. -/
def Calm (s : PortalState Node) : PortalLabel Node → Prop
  | .submitQuery spec => (C.result spec).length ≤ C.params.chunkBufferCap
  | .request k l => ∀ a ∈ s.requests[k]?, Request.Undisturbed a.state l

variable [DecidableEq Node]

instance (s : PortalState Node) (l : PortalLabel Node) : Decidable (C.Calm s l) := by
  unfold Calm
  induction l using PortalLabel.casesOn <;> infer_instance

/-- How a request comes to its answer. -/
inductive Answers (a : Active Node) : Prop
  | overlay (hcap : (C.request a.spec).rows.length ≤ C.params.chunkBufferCap)
      (exact : (C.request a.spec).ExactInv a.state)
  | cache {rows : List Row311} (hrows : rows.Perm (C.result a.spec)) (idle : Request.Idle a.state)
      (replay : Request.ReplayInv rows a.state.store)

/-- All requests come to their answers, and so does whoever asks the cache. -/
structure AnswersInv (s : PortalState Node) : Prop where
  whole : ∀ e ∈ s.cache.lru, e.2.rows.Perm (C.result e.2.spec)
  requests : ∀ a ∈ s.requests, C.Answers a

variable {C} {s s' : PortalState Node} {l : PortalLabel Node} {a : Active Node}

/-- A final answer is the result. -/
theorem Answers.returned_perm (h : C.Answers a) {f : Fetch Row311}
    (hf : f ∈ a.state.store.fetches) (hpc : f.pc = .answered) (hfinal : f.rsp.final = true) :
    (Request.returned a.state.store).Perm (C.result a.spec) := by
  cases h with
  | overlay _ exact =>
    have h_fetched := exact.fetched_perm hf hfinal
    have h_returned := exact.served.answered f hf hpc hfinal
    rw [← C.request_rows]
    exact (h_returned.perm_of_length_le
      (Request.returned_subperm.length_le.trans h_fetched.length_eq.le)).symm
  | cache hrows _ replay =>
    have h_fetched := replay.fetched_perm hf hfinal
    have h_returned := replay.answered f hf hpc hfinal
    exact (h_returned.perm_of_length_le
      (Request.returned_subperm.length_le.trans h_fetched.length_eq.le)).symm.trans hrows

/-- A hit starts with the whole result in the buffer. -/
theorem Answers.hit {spec : QuerySpec} {rows : List Row311} (hrows : rows.Perm (C.result spec))
    (hcap : (C.result spec).length ≤ C.params.chunkBufferCap) :
    C.Answers ⟨spec, C.cachedStart spec rows⟩ := by
  have h_room : rows.length ≤ C.params.chunkBufferCap := hrows.length_eq.trans_le hcap
  -- the rows of the cache have room
  have h_start := Cached.start C spec rows 0
  rw [List.take_of_length_le h_room] at h_start
  refine .cache hrows ⟨rfl, rfl, rfl, rfl⟩
    { caching := ?_, live := h_start.live, collect := h_start.collect, unput := rfl, flow := ?_
      drained := fun _ h => absurd h List.not_mem_nil
      closing := fun _ h => absurd h List.not_mem_nil
      erased := fun h => absurd h (by simp [cachedStart, Request.startStore])
      answered := fun _ h => absurd h List.not_mem_nil }
  · exact
      { found := fun _ h => absurd h List.not_mem_nil
        last := fun _ _ h => absurd h (by simp [cachedStart, Request.startStore])
        maxRows := rfl
        phase := Or.inl ⟨rfl, fun _ => rfl, fun _ => Nat.zero_le _⟩ }
  · show ([] ++ (C.cachedState rows).buffer.q).Perm rows
    exact List.Perm.of_eq h_start.q

/-- **Every action of the portal keeps the answers exact.** -/
theorem AnswersInv.step (hI : C.AnswersInv s) (htree : C.overlay.IsTree)
    (hself : C.overlay.selfRoute ∉ C.overlay.nodes) (hl : C.Calm s l) (h : C.PortalStep s l s') :
    C.AnswersInv s' := by
  cases h with
  | @hit spec rows cache hget =>
    refine ⟨fun e he => hI.whole e (QueryCache.mem_get (by rw [hget]; exact he)), ?_⟩
    -- the entry is for an equal query
    obtain ⟨e, he, h_spec, rfl⟩ := QueryCache.get_eq_some (congrArg Prod.fst hget)
    have h_whole := hI.whole e he
    rw [C.result_congr h_spec] at h_whole
    exact forall_mem_concat hI.requests (.hit h_whole hl)
  | @miss spec cache hget _ =>
    refine ⟨fun e he => hI.whole e (QueryCache.mem_get (by rw [hget]; exact he)), ?_⟩
    have h_cap : (C.request spec).rows.length ≤ C.params.chunkBufferCap := by
      rw [C.request_rows]
      exact hl
    exact forall_mem_concat hI.requests (.overlay h_cap (.initial htree))
  | @act k l a state ha hstep =>
    have h_l := hl a ha
    cases hI.requests a (List.mem_of_getElem? ha) with
    | overlay hcap exact =>
      have h_exact := exact.step htree hself hcap h_l hstep
      refine ⟨fun e he => ?_, forall_mem_set hI.requests (.overlay hcap h_exact)⟩
      obtain he | ⟨h_spec, h_put⟩ := QueryCache.mem_foldl_put he
      · exact hI.whole e he
      · -- the new entry answers all specifications that the cache takes for equal
        rw [C.result_congr h_spec, ← C.request_rows]
        obtain h_puts | h_puts := h_exact.put_perm hstep
        · rw [h_puts, List.drop_length] at h_put
          exact absurd h_put List.not_mem_nil
        · exact h_puts _ (List.mem_of_mem_drop h_put)
    | cache hrows idle replay =>
      have h_replay := replay.step idle h_l hstep
      refine ⟨fun e he => ?_,
        forall_mem_set hI.requests (.cache hrows (idle.step hstep) h_replay)⟩
      -- nothing is put
      obtain he | ⟨-, h_put⟩ := QueryCache.mem_foldl_put he
      · exact hI.whole e he
      · rw [h_replay.unput, List.drop_nil] at h_put
        exact absurd h_put List.not_mem_nil

theorem AnswersInv.reachable {C : Cluster Node} (htree : C.overlay.IsTree)
    (hself : C.overlay.selfRoute ∉ C.overlay.nodes) (h : C.machine.Reachable C.Calm s) :
    C.AnswersInv s :=
  h.invariant C.AnswersInv
    ⟨fun _ h => absurd h List.not_mem_nil, fun _ h => absurd h List.not_mem_nil⟩
    fun _ _ _ hI hl hstep => hI.step htree hself hl (step_cases hstep)

/-- **The portal answers exactly.** Let the overlay be a tree. In every run of the portal in
which results fit into the buffers and nothing disturbs the requests, each of which is fetched
by one client, the rows of a request that has been answered to the end are those that the
engines emit for its query, each of them as often as they do: whether they come from the
overlay or from the cache, and whatever the other requests do. -/
theorem answers_exact (C : Cluster Node) (htree : C.overlay.IsTree)
    (hself : C.overlay.selfRoute ∉ C.overlay.nodes) (h : C.machine.Reachable C.Calm s)
    (ha : a ∈ s.requests) : ∀ f ∈ a.state.store.fetches, f.pc = .answered → f.rsp.final = true →
      (Request.returned a.state.store).Perm
        (C.overlay.nodes.flatMap fun n => C.emitted a.spec n) := by
  intro f hf hpc hfinal
  exact ((AnswersInv.reachable htree hself h).requests a ha).returned_perm hf hpc hfinal

/-- The stores of `near` on a row of nodes. -/
def nearChain : Cluster Overlay.Id3 := { near with overlay := .chain }

/-- A query is asked twice: the first time its row comes from `b`, the second time from the
cache. -/
theorem answers_exact_chain : ∃ s, nearChain.machine.Reachable nearChain.Calm s ∧
    ∃ a ∈ s.requests, a.state.store.registered = false ∧ a.state.store.log = [] ∧
      (Request.returned a.state.store).Perm
        (nearChain.overlay.nodes.flatMap fun n => nearChain.emitted a.spec n) := by
  obtain ⟨s, hrun, a, ha, hgone, hlog, f, hf, hpc, hfinal⟩ := Machine.exists_run_of_exec
    (M := nearChain.machine) (P := nearChain.Calm) (s := nearChain.machine.init)
    (l := firstRequest (Request.overChain ++ Request.fetchOnce) ++
      .submitQuery QueryEngine.noiseQuery :: Request.fetchOnce.map (.request 1))
    (Φ := fun s => ∃ a ∈ s.requests, a.state.store.registered = false ∧
      a.state.store.log.isEmpty = true ∧
      ∃ f ∈ a.state.store.fetches, f.pc = .answered ∧ f.rsp.final = true)
    (by decide +kernel)
  exact ⟨s, ⟨_, hrun⟩, a, ha, hgone, List.isEmpty_iff.mp hlog,
    answers_exact nearChain Overlay.chain_isTree (by decide) ⟨_, hrun⟩ ha f hf hpc hfinal⟩

end Cluster
end Mini2
