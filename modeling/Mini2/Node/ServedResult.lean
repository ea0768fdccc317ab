import Mini2.Node.Portal
import Mini2.Portal.CacheLru

/-!
# What is put into the cache is what has been served

`FetchChunk` collects the rows of its responses in the state of the request and puts them
into the cache with the final response. While one client fetches, one fetch after the other,
a request is in one of two phases: it still gathers (`Gathering`), or it has handed its
result over (`HandedOver`), and then only the erasure of the request is left to do.
-/

namespace Mini2

open Framework

variable {Node Row : Type*}

namespace Request

/-- One client fetches, one fetch after the other. -/
def OneClient (s : State Node Row) : Label Node → Prop
  | .env (.fetchBegin _) => ∀ f ∈ s.store.fetches, f.pc = .answered
  | _ => True

instance [DecidableEq Node] (s : State Node Row) (l : Label Node) : Decidable (OneClient s l) := by
  unfold OneClient
  induction l using Framework.Cascade.Label.casesOn with
  | env e => induction e using Event.casesOn <;> infer_instance
  | _ => infer_instance

/-- Nothing has been put. A request that still collects has collected the rows of all
responses, apart from one that has just popped. -/
structure Gathering (limit : ℕ) (σ : Store Node Row) : Prop where
  puts : σ.puts = []
  accum : σ.st.cacheCollect = true → σ.st.cacheAccum = σ.fetches.flatMap Fetch.collected
  length : σ.st.cacheCollect = true → σ.st.cacheAccum.length ≤ limit

/-- The rows of all responses have been put, and no more will follow. -/
structure HandedOver (limit : ℕ) (σ : Store Node Row) : Prop where
  puts : σ.puts = [fetched σ]
  length : (fetched σ).length ≤ limit
  ended : ∀ f ∈ σ.fetches, f.pc = .answered ∨ f.pc = .closing
  erased : (∀ f ∈ σ.fetches, f.pc = .answered) → σ.registered = false

/-- The bookkeeping of sequential fetches. -/
structure CachingInv (limit : ℕ) (σ : Store Node Row) : Prop where
  found : ∀ f ∈ σ.fetches, f.pc = .found → f.rsp.rows = []
  /-- Only the last fetch may be open. -/
  last : ∀ (i : ℕ) (f : Fetch Row), σ.fetches[i]? = some f → f.pc ≠ .answered →
    i + 1 = σ.fetches.length
  maxRows : σ.st.cacheMaxRows = limit
  phase : Gathering limit σ ∨ HandedOver limit σ

section Keep

variable {σ σ' : Store Node Row} {limit i : ℕ} {f g : Fetch Row}

/-- What has been handed over leaves one open fetch at most, which is closing. -/
theorem HandedOver.closing (h : HandedOver limit σ) (hf : σ.fetches[i]? = some f)
    (hpc : f.pc ≠ .answered) : f.pc = .closing :=
  (h.ended f (List.mem_of_getElem? hf)).resolve_left hpc

/-- So a request with a fetch in an earlier place still gathers. -/
theorem CachingInv.gathering (hI : CachingInv limit σ) (hf : σ.fetches[i]? = some f)
    (hpc : f.pc ≠ .answered) (hpc' : f.pc ≠ .closing) : Gathering limit σ :=
  hI.phase.resolve_right fun h => hpc' (h.closing hf hpc)

/-- Actions that leave the fetches and the collected rows alone. -/
theorem CachingInv.idle (hI : CachingInv limit σ) (hfetches : σ'.fetches = σ.fetches)
    (hputs : σ'.puts = σ.puts) (hst : ∃ buffer, σ'.st = { σ.st with buffer := buffer })
    (hreg : σ.registered = false → σ'.registered = false) : CachingInv limit σ' := by
  obtain ⟨_, _, _, st, registered, _, _, fetches, _, _, _, puts⟩ := σ'
  obtain rfl : fetches = σ.fetches := hfetches
  obtain rfl : puts = σ.puts := hputs
  obtain ⟨buffer, rfl : st = _⟩ := hst
  refine ⟨hI.found, hI.last, hI.maxRows, hI.phase.imp (fun h => ?_) fun h => ?_⟩
  · exact ⟨h.puts, h.accum, h.length⟩
  · exact ⟨h.puts, h.length, h.ended, fun hall => hreg (h.erased hall)⟩

/-- A fetch that goes on with its rows. -/
theorem CachingInv.setFetch (hI : CachingInv limit σ) (hf : σ.fetches[i]? = some f)
    (hpc : f.pc ≠ .answered) (hclosing : f.pc ≠ .closing) (hpc' : g.pc ≠ .found)
    (hcollected : g.collected = f.collected) : CachingInv limit (σ.setFetch i g) := by
  have h_gathering := hI.gathering hf hpc hclosing
  refine ⟨forall_mem_set hI.found fun h => absurd h hpc', last_of_set hI.last hf hpc, hI.maxRows,
    Or.inl ⟨h_gathering.puts, fun hcollect => ?_, h_gathering.length⟩⟩
  change _ = (σ.fetches.set i g).flatMap Fetch.collected
  rw [flatMap_set_eq hf hcollected]
  exact h_gathering.accum hcollect

/-- A new fetch has no rows. It starts while the request is registered, or is answered at
once. -/
theorem CachingInv.newFetch (hI : CachingInv limit σ) (hrows : f.rsp.rows = [])
    (hall : ∀ f ∈ σ.fetches, f.pc = .answered) (hreg : f.pc = .answered ∨ σ.registered = true) :
    CachingInv limit { σ with fetches := σ.fetches ++ [f] } := by
  refine ⟨forall_mem_concat hI.found fun _ => hrows,
    last_of_concat fun g hg => not_not.mpr (hall g hg), hI.maxRows,
    hI.phase.imp (fun h => ?_) fun h => ?_⟩
  · -- the new fetch has no rows that could be missing
    refine ⟨h.puts, fun hcollect => ?_, h.length⟩
    change _ = (σ.fetches ++ [f]).flatMap Fetch.collected
    rw [flatMap_concat_nil (Fetch.collected_eq_nil hrows)]
    exact h.accum hcollect
  · -- the entry is gone with the hand-over, so the fetch finds nothing
    have h_gone := h.erased hall
    have h_answered : f.pc = .answered := hreg.resolve_right (by simp [h_gone])
    refine ⟨?_, ?_, forall_mem_concat h.ended (Or.inl h_answered), fun _ => h_gone⟩
    · rw [fetched_concat hrows]
      exact h.puts
    · rw [fetched_concat hrows]
      exact h.length

/-- The rows of a fetch are collected behind those before, or the collection is given up. -/
theorem CachingInv.accumulate (hI : CachingInv limit σ) (hf : σ.fetches[i]? = some f)
    (hpc : f.pc = .popped) (hrows : g.rsp.rows = f.rsp.rows) (hpc' : g.pc = .accumulated) :
    CachingInv limit (({ σ with st := σ.st.accumulate f.rsp.rows } :
      Store Node Row).setFetch i g) := by
  have h_open : f.pc ≠ .answered := by simp [hpc]
  have h_gathering := hI.gathering hf h_open (by simp [hpc])
  have h_limit : (σ.st.accumulate f.rsp.rows).cacheMaxRows = limit := by
    rw [← hI.maxRows]
    unfold RequestState.accumulate
    split
    · split <;> rfl
    · rfl
  have h_none : f.collected = [] := if_pos hpc
  have h_some : g.collected = f.rsp.rows := (if_neg (by simp [hpc'])).trans hrows
  have h_set : (σ.fetches.set i g).flatMap Fetch.collected =
      σ.fetches.flatMap Fetch.collected ++ f.rsp.rows := by
    rw [flatMap_set_last hf (hI.last i f hf h_open) h_none, h_some]
  refine ⟨forall_mem_set hI.found fun h => absurd h (by simp [hpc']), last_of_set hI.last hf h_open,
    h_limit, Or.inl ⟨h_gathering.puts, fun hcollect => ?_, fun hcollect => ?_⟩⟩
  · -- it still collects, so there has been room for the rows
    obtain ⟨h_before, h_accum⟩ := σ.st.accumulate_collect hcollect
    change (σ.st.accumulate f.rsp.rows).cacheAccum = (σ.fetches.set i g).flatMap Fetch.collected
    rw [h_accum, h_set, h_gathering.accum h_before]
  · change (σ.st.accumulate f.rsp.rows).cacheAccum.length ≤ limit
    rw [← hI.maxRows]
    exact σ.st.length_collect hcollect

/-- The result is handed over as it has been served. -/
theorem CachingInv.put (hI : CachingInv limit σ) (hf : σ.fetches[i]? = some f)
    (hpc : f.pc = .finalRead) (hcollect : σ.st.cacheCollect = true) :
    CachingInv limit (({ σ with
      st := { σ.st with cacheAccum := [] }
      puts := σ.puts ++ [σ.st.cacheAccum] } : Store Node Row).setFetch i
        { f with pc := .closing }) := by
  have h_open : f.pc ≠ .answered := by simp [hpc]
  have h_gathering := hI.gathering hf h_open (by simp [hpc])
  have h_ended : ∀ e ∈ σ.fetches, e.pc = .answered ∨ e = f := by
    intro e he
    by_cases hpc' : e.pc = .answered
    · exact Or.inl hpc'
    · exact Or.inr (eq_of_last hI.last hf h_open he hpc')
  -- no fetch has rows that have not been collected
  have h_all : σ.fetches.flatMap Fetch.collected = fetched σ := by
    refine List.flatMap_congr fun e he => if_neg ?_
    rcases h_ended e he with h | rfl
    · simp [h]
    · simp [hpc]
  have h_fetched : fetched (σ.setFetch i { f with pc := .closing }) = fetched σ :=
    fetched_set hf rfl
  refine ⟨forall_mem_set hI.found fun h => absurd h (by simp),
    last_of_set hI.last hf h_open, hI.maxRows, Or.inr ⟨?_, ?_, ?_, fun hall => ?_⟩⟩
  · change σ.puts ++ [σ.st.cacheAccum] = [fetched (σ.setFetch i { f with pc := .closing })]
    rw [h_gathering.puts, h_fetched, h_gathering.accum hcollect, h_all]
    rfl
  · -- what has been collected has been kept below the limit
    change (fetched (σ.setFetch i { f with pc := .closing })).length ≤ limit
    rw [h_fetched, ← h_all, ← h_gathering.accum hcollect]
    exact h_gathering.length hcollect
  · -- only the fetch that hands the result over may still be open
    intro e he
    by_cases hpc' : e.pc = .answered
    · exact Or.inl hpc'
    · have h_self := List.getElem?_set_self (a := { f with pc := .closing })
        (List.getElem?_eq_some_iff.mp hf).1
      have h_same := eq_of_last (last_of_set hI.last hf h_open) h_self (by simp) he hpc'
      exact Or.inr (congrArg Fetch.pc h_same)
  · -- the fetch itself is not answered yet
    exact absurd (hall _ (mem_set_self hf)) (by simp)

/-- Erasing the request is the end of it. -/
theorem CachingInv.erase (hI : CachingInv limit σ) (hf : σ.fetches[i]? = some f)
    (hpc : f.pc = .closing) : CachingInv limit (({ σ with registered := false } :
      Store Node Row).setFetch i { f with pc := .answered }) := by
  have h_open : f.pc ≠ .answered := by simp [hpc]
  -- neither what is collected nor what has been fetched changes
  have h_collected : ({ f with pc := .answered } : Fetch Row).collected = f.collected := by
    simp [Fetch.collected, hpc]
  have h_fetched : fetched (σ.setFetch i { f with pc := .answered }) = fetched σ :=
    fetched_set hf rfl
  refine ⟨forall_mem_set hI.found fun h => absurd h (by simp),
    last_of_set hI.last hf h_open, hI.maxRows, hI.phase.imp (fun h => ?_) fun h => ?_⟩
  · refine ⟨h.puts, fun hcollect => ?_, h.length⟩
    change _ = (σ.fetches.set i { f with pc := .answered }).flatMap Fetch.collected
    rw [flatMap_set_eq hf h_collected]
    exact h.accum hcollect
  · exact ⟨h.puts.trans (congrArg (fun rows => [rows]) h_fetched.symm),
      (congrArg List.length h_fetched).trans_le h.length,
      forall_mem_set h.ended (Or.inl rfl), fun _ => rfl⟩

/-- A pop gives its rows to the fetch, which has not collected them. -/
theorem CachingInv.pop (hI : CachingInv limit σ) {st : RequestState Node Row}
    (hf : σ.fetches[i]? = some f) (hpc : f.pc = .found) (hpc' : g.pc = .popped)
    (haccum : st.cacheAccum = σ.st.cacheAccum) (hcollect : st.cacheCollect = σ.st.cacheCollect)
    (hlimit : st.cacheMaxRows = σ.st.cacheMaxRows) :
    CachingInv limit (({ σ with st := st } : Store Node Row).setFetch i g) := by
  have h_open : f.pc ≠ .answered := by simp [hpc]
  have h_gathering := hI.gathering hf h_open (by simp [hpc])
  have h_empty := hI.found f (List.mem_of_getElem? hf) hpc
  -- rows that have just been popped do not count as collected
  have h_none : g.collected = f.collected := by simp [Fetch.collected, hpc, hpc', h_empty]
  refine ⟨forall_mem_set hI.found fun h => absurd h (by simp [hpc']), last_of_set hI.last hf h_open,
    hlimit.trans hI.maxRows, Or.inl ⟨h_gathering.puts, fun h => ?_, fun h => ?_⟩⟩
  · change st.cacheAccum = (σ.fetches.set i g).flatMap Fetch.collected
    rw [haccum, flatMap_set_eq hf h_none]
    exact h_gathering.accum (hcollect.symm.trans h)
  · change st.cacheAccum.length ≤ limit
    rw [haccum]
    exact h_gathering.length (hcollect.symm.trans h)

/-- The puts of a request in either phase. -/
theorem CachingInv.puts_cases (hI : CachingInv limit σ) :
    σ.puts = [] ∨ σ.puts = [fetched σ] ∧ (fetched σ).length ≤ limit :=
  hI.phase.imp Gathering.puts fun h => ⟨h.puts, h.length⟩

end Keep

section Step

variable [DecidableEq Node] {R : Request Node Row} {σ : Store Node Row} {limit : ℕ}
  {e : Event Node} {s s' : State Node Row} {l : Label Node}

theorem CachingInv.env (hI : CachingInv limit s.store) (h : R.EnvStep s.store e σ)
    (hclient : OneClient s (.env e)) : CachingInv limit σ := by
  have h_reg := h.registered_mono
  cases h with
  | @workMark k w c todo _ _ _ =>
    exact hI.idle rfl rfl ⟨_, markDoneIf_st c w.node⟩ h_reg
  | @pushMark i took p _ _ =>
    exact hI.idle rfl rfl ⟨_, markDoneIf_st p.call p.producer⟩ h_reg
  | fetchBegin hreg => exact hI.newFetch rfl hclient (Or.inr hreg)
  | fetchGone _ => exact hI.newFetch rfl hclient (Or.inl rfl)
  | fetchPop hf hpc hst _ =>
    subst hst
    exact hI.pop hf hpc rfl rfl rfl rfl
  | fetchAccumulate hf hpc hrsp => exact hI.accumulate hf hpc (by rw [hrsp]) rfl
  | fetchServed hf hpc =>
    exact hI.setFetch hf (by simp [hpc]) (by simp [hpc]) (by simp) (by simp [Fetch.collected, hpc])
  | fetchCounted hf hpc =>
    exact hI.setFetch hf (by simp [hpc]) (by simp [hpc]) (by simp) (by simp [Fetch.collected, hpc])
  | fetchCanceled hf hpc =>
    exact hI.setFetch hf (by simp [hpc]) (by simp [hpc]) (by simp) (by simp [Fetch.collected, hpc])
  | fetchFinal hf hpc =>
    exact hI.setFetch hf (by simp [hpc]) (by simp [hpc]) (by simp) (by simp [Fetch.collected, hpc])
  | fetchPut hf hpc _ hcollect _ => exact hI.put hf hpc hcollect
  | fetchNoPut hf hpc _ _ =>
    exact hI.setFetch hf (by simp [hpc]) (by simp [hpc]) (by simp) (by simp [Fetch.collected, hpc])
  | fetchMore hf hpc _ =>
    exact hI.setFetch hf (by simp [hpc]) (by simp [hpc]) (by simp) (by simp [Fetch.collected, hpc])
  | fetchErase hf hpc => exact hI.erase hf hpc
  -- all other events leave the fetches and the puts alone
  | _ => exact hI.idle rfl rfl ⟨_, rfl⟩ h_reg

theorem CachingInv.step (hI : CachingInv limit s.store) (hclient : OneClient s l)
    (h : R.cascade.Step s l s') : CachingInv limit s'.store := by
  cases h with
  | @collect i id c d todo r hc hpc hd hr =>
    exact hI.idle rfl rfl ⟨_, settle_st c.dst c.msg d.dst (some r)⟩ fun h => h
  | @expire i id c d todo hc hpc hd =>
    exact hI.idle rfl rfl ⟨_, settle_st c.dst c.msg d.dst none⟩ fun h => h
  | env he => exact hI.env (env_cases he) hclient
  | _ => exact hI.idle rfl rfl ⟨_, rfl⟩ fun h => h

theorem CachingInv.initial (R : Request Node Row) :
    CachingInv R.params.cacheMaxRows R.startStore where
  found _ h := absurd h List.not_mem_nil
  last _ _ h := absurd h (by simp [startStore])
  maxRows := rfl
  phase := Or.inl ⟨rfl, fun _ => rfl, fun _ => Nat.zero_le _⟩

/-- A request that does not collect never puts anything. -/
theorem no_put_step (hcollect : s.store.st.cacheCollect = false) (hputs : s.store.puts = [])
    (h : R.cascade.Step s l s') : s'.store.st.cacheCollect = false ∧ s'.store.puts = [] := by
  have h_collect : s'.store.st.cacheCollect = false :=
    Bool.eq_false_iff.mpr fun h' => absurd (step_collect h h') (by simp [hcollect])
  refine ⟨h_collect, ?_⟩
  cases h with
  | env he =>
    cases env_cases he with
    | fetchPut _ _ _ hput _ => exact absurd hput (by simp [hcollect])
    | _ => exact hputs
  | _ => exact hputs

end Step

end Request

namespace Cluster

variable [DecidableEq Node] {C : Cluster Node} {s s' t : PortalState Node} {l : PortalLabel Node}
  {P : PortalState Node → PortalLabel Node → Prop}

/-- Request `k` is fetched by one client, one fetch after the other. -/
def OneClient (k : ℕ) (s : PortalState Node) : PortalLabel Node → Prop
  | .submitQuery _ => True
  | .request j l => j = k → ∀ a ∈ s.requests[j]?, Request.OneClient a.state l

instance (k : ℕ) (s : PortalState Node) (l : PortalLabel Node) : Decidable (OneClient k s l) := by
  unfold OneClient
  induction l using PortalLabel.casesOn <;> infer_instance

/-- The portal never changes the limit of its cache. -/
theorem PortalStep.cache_maxRows (h : C.PortalStep s l s') :
    s'.cache.maxRows = s.cache.maxRows := by
  cases h with
  | @hit spec rows cache hget =>
    have h_get : (s.cache.get C.hash.specHash spec).2.maxRows = s.cache.maxRows :=
      QueryCache.get_limits.2
    rwa [hget] at h_get
  | @miss spec cache hget _ =>
    have h_get : (s.cache.get C.hash.specHash spec).2.maxRows = s.cache.maxRows :=
      QueryCache.get_limits.2
    rwa [hget] at h_get
  | @act k l a state _ _ =>
    change ((state.store.puts.drop a.state.store.puts.length).foldl
      (fun cache rows => cache.put C.hash.specHash a.spec rows) s.cache).maxRows = s.cache.maxRows
    -- however many results are put
    generalize state.store.puts.drop a.state.store.puts.length = puts
    induction puts using List.reverseRecOn with
    | nil => rfl
    | append_singleton puts rows ih =>
      rw [List.foldl_append]
      exact QueryCache.put_limits.2.trans ih

theorem run_cache_maxRows {ls : List (PortalLabel Node)} (h : C.machine.Run P s ls t)
    (hs : s.cache.maxRows = C.params.cacheMaxRows) : t.cache.maxRows = C.params.cacheMaxRows :=
  h.invariant (fun s => s.cache.maxRows = C.params.cacheMaxRows)
    (fun _ _ _ hs _ hst => (step_cases hst).cache_maxRows.trans hs) hs

/-- **What is cached is what was served.** The portal submits a query as its request `k` and
goes on in any way in which one client fetches it, one fetch after the other. Then the
request puts at most one result, which has the rows of all of its responses, in order, and
is not too large for the cache. It puts none once more rows have been served, nor if it has
been answered from the cache itself. -/
theorem cached_is_served (C : Cluster Node) {spec : QuerySpec} {ls : List (PortalLabel Node)}
    (hs : C.machine.Reachable (fun _ _ => True) s)
    (hsubmit : C.step s (.submitQuery spec) = some s')
    (hrun : C.machine.Run (OneClient s.requests.length) s' ls t) :
    ∃ a, t.requests[s.requests.length]? = some a ∧
      a.state.store.puts.length ≤ 1 ∧
      (∀ rows ∈ a.state.store.puts, rows = Request.fetched a.state.store ∧
        rows.length ≤ C.params.cacheMaxRows ∧ rows.length ≤ t.cache.maxRows) ∧
      (C.params.cacheMaxRows < (Request.fetched a.state.store).length →
        a.state.store.puts = []) ∧
      ((s.cache.get C.hash.specHash spec).1.isSome → a.state.store.puts = []) := by
  have h_init : C.machine.init.cache.maxRows = C.params.cacheMaxRows := rfl
  obtain ⟨ls₀, h_reach⟩ := hs
  have h_limit : t.cache.maxRows = C.params.cacheMaxRows :=
    run_cache_maxRows hrun
      ((step_cases hsubmit).cache_maxRows.trans (run_cache_maxRows h_reach h_init))
  rw [h_limit]
  cases step_cases hsubmit with
  | @hit _ rows cache hget =>
    -- a cached request does not collect
    obtain ⟨state, h_get, -, h_puts⟩ := run_request
      (fun state => state.store.st.cacheCollect = false ∧ state.store.puts = [])
      (fun _ _ _ h hstep => Request.no_put_step h.1 h.2 hstep) hrun List.getElem?_concat_length
      ⟨rfl, rfl⟩
    exact ⟨_, h_get, by simp [h_puts]⟩
  | @miss _ cache hget hexec =>
    -- no step of another request touches this one
    have h_kept := hrun.invariant
      (fun u => ∃ state : Request.State Node Row311,
        u.requests[s.requests.length]? = some ⟨spec, state⟩ ∧
        Request.CachingInv C.params.cacheMaxRows state.store)
      (fun u l u' hu hclient hst => by
        obtain ⟨state, h_get, hI⟩ := hu
        rcases (step_cases hst).request_cases h_get with h_same | ⟨l', state', rfl, hstep, h_get'⟩
        · exact ⟨state, h_same, hI⟩
        · exact ⟨state', h_get', hI.step (hclient rfl _ h_get) hstep⟩)
      ⟨(C.request spec).start, List.getElem?_concat_length, .initial (C.request spec)⟩
    obtain ⟨state, h_get, hI⟩ := h_kept
    refine ⟨_, h_get, ?_⟩
    -- either nothing has been put yet, or all that has been served
    rcases hI.puts_cases with h_puts | ⟨h_puts, h_length⟩
    · simp [h_puts]
    · simp [h_puts, hget, h_length]

/-- The row that one fetch returns is put. -/
theorem cached_is_served_near : ∃ t : PortalState Overlay.Id3, ∃ a, t.requests[0]? = some a ∧
    a.state.store.puts ≠ [] ∧
      ∀ rows ∈ a.state.store.puts, rows = Request.fetched a.state.store := by
  obtain ⟨t, hrun, h_puts⟩ := Machine.exists_run_of_exec (M := near.machine)
    (P := OneClient 0) (s := near.machine.init)
    (l := firstRequest (Request.pushTwoRows ++ Request.depositLocal 1 ++ Request.fetchOnce))
    (Φ := fun t => ∀ a ∈ t.requests[0]?, a.state.store.puts ≠ []) (by decide +kernel)
  cases hrun with
  | cons _ hsubmit hrun =>
    obtain ⟨a, h_get, -, h_rows, -⟩ :=
      cached_is_served near ⟨[], .nil near.machine.init⟩ hsubmit hrun
    exact ⟨t, a, h_get, h_puts a h_get, fun rows hrows => (h_rows rows hrows).1⟩

end Cluster
end Mini2
