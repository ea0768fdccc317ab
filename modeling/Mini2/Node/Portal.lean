import Mini2.Node.Collected
import Mini2.Portal.QueryCache
import Mini2.Query.QueryEngine

/-!
# The portal and its cache

`SubmitQuery` answers a query that is in the cache from there, and starts a request
on the overlay otherwise; the final fetch of such a request puts its result into the
cache. Requests have ids of their own and share nothing else, so the portal's runs
interleave submissions with the actions of any number of requests.

`cache_wellFormed` says that index and entries of the cache stay in step in every run, and
`cache_whole` that the cache holds whole results only, in the runs in which the
requests that collect keep their results whole. `cache_incomplete` is a run in which
they do not: a neighbour that cannot be reached is marked as done, and the result
without its rows is put.
-/

namespace Mini2

open Framework

variable {Node : Type*}

/-- The overlay of a cluster, the values of its configuration, and the partitions of
its nodes. -/
structure Cluster (Node : Type*) where
  overlay : Overlay Node
  params : RequestParams
  /-- `cache_capacity` -/
  cacheCapacity : ℕ
  store : Node → PartitionStore
  /-- `std::sort` -/
  sort : SizeSort
  /-- `std::hash` -/
  hash : StdHash

/-- A request that the portal has started, and its specification. -/
structure Active (Node : Type*) where
  spec : QuerySpec
  state : Request.State Node Row311

/-- The portal's cache, and all requests so far. -/
structure PortalState (Node : Type*) where
  cache : QueryCache
  requests : List (Active Node)

/-- The portal's actions. -/
inductive PortalLabel (Node : Type*)
  | submitQuery (spec : QuerySpec)
  | request (k : ℕ) (l : Request.Label Node)
  deriving DecidableEq

namespace Cluster

variable (C : Cluster Node)

/-! ### Requests -/

/-- The sink calls of a node's engine for a query. -/
def execute (n : Node) (spec : QuerySpec) : Option (Scan Row311) :=
  QueryEngine.scan (C.store n) spec C.sort C.params.initialChunkRows

/-- A query as a request. -/
def request (spec : QuerySpec) : Request Node Row311 where
  overlay := C.overlay
  params := C.params
  scan n := (C.execute n spec).getD (.single [])

/-- The rows that a node's engine emits for a query. -/
def emitted (spec : QuerySpec) (n : Node) : List Row311 :=
  ((QueryEngine.run (C.store n) spec C.sort C.params.initialChunkRows fun _ => false).getD
    []).flatMap SinkCall.rows

/-- The whole result of a query. -/
def result (spec : QuerySpec) : List Row311 := C.overlay.nodes.flatMap (C.emitted spec)

theorem request_rows (spec : QuerySpec) : (C.request spec).rows = C.result spec := by
  refine List.flatMap_congr fun n _ => ?_
  have h_calls := QueryEngine.scan_calls (C.store n) spec C.sort C.params.initialChunkRows
  change ((C.execute n spec).getD (.single [])).rows = _
  unfold execute emitted
  rw [← h_calls]
  cases QueryEngine.scan (C.store n) spec C.sort C.params.initialChunkRows <;> rfl

/-- Queries that are equal to the cache have one result. -/
theorem result_congr {a b : QuerySpec} (h : QueryCache.specEqual a b = true) :
    C.result a = C.result b := by
  have h_key : ∀ s, C.result (QueryCache.key s) = C.result s := by
    intro s
    unfold QueryCache.key
    split
    · rfl
    · next hgeo =>
      refine List.flatMap_congr fun n _ => ?_
      unfold emitted
      rw [QueryEngine.run_box (Bool.eq_false_iff.mpr hgeo)]
  rw [← h_key a, ← h_key b, QueryCache.specEqual_iff.mp h]

variable [DecidableEq Node]

/-- The state of a request that is answered from the cache: its one producer has
pushed the rows and is done. -/
def cachedState (rows : List Row311) : RequestState Node Row311 :=
  let st := RequestState.create C.params 1
  { st with
    cacheCollect := false
    buffer := ((st.buffer.markProducerStarted C.overlay.cacheProducer).pushRows
      rows).1.markProducerDone C.overlay.cacheProducer }

/-- No node but the portal knows of such a request. -/
def cachedStart (spec : QuerySpec) (rows : List Row311) : Request.State Node Row311 where
  calls := []
  store := { (C.request spec).startStore with
    routes := fun _ => none
    st := C.cachedState rows }

/-! ### The portal as a machine -/

/-- `SubmitQuery`, up to its fan-out. There is no action where the run of some engine
is undefined. -/
def submitQuery (s : PortalState Node) (spec : QuerySpec) : Option (PortalState Node) :=
  match s.cache.get C.hash.specHash spec with
  | (some rows, cache) => some ⟨cache, s.requests ++ [⟨spec, C.cachedStart spec rows⟩]⟩
  | (none, cache) =>
    if ∀ n ∈ C.overlay.nodes, (C.execute n spec).isSome then
      some ⟨cache, s.requests ++ [⟨spec, (C.request spec).start⟩]⟩
    else none

/-- An action of request `k`. What it puts goes to the cache. -/
def act (s : PortalState Node) (k : ℕ) (l : Request.Label Node) : Option (PortalState Node) :=
  match s.requests[k]? with
  | none => none
  | some a =>
    match (C.request a.spec).cascade.step a.state l with
    | none => none
    | some state => some {
        cache := (state.store.puts.drop a.state.store.puts.length).foldl
          (fun cache rows => cache.put C.hash.specHash a.spec rows) s.cache
        requests := s.requests.set k ⟨a.spec, state⟩ }

def step (s : PortalState Node) : PortalLabel Node → Option (PortalState Node)
  | .submitQuery spec => C.submitQuery s spec
  | .request k l => C.act s k l

/-- The runs of the portal. -/
def machine : Machine (PortalState Node) (PortalLabel Node) where
  init := ⟨.create C.cacheCapacity C.params.cacheMaxRows, []⟩
  step := C.step

/-- What each action of the portal can do. -/
inductive PortalStep (C : Cluster Node) (s : PortalState Node) :
    PortalLabel Node → PortalState Node → Prop
  | hit {spec : QuerySpec} {rows : List Row311} {cache : QueryCache}
      (hget : s.cache.get C.hash.specHash spec = (some rows, cache)) :
      PortalStep C s (.submitQuery spec) ⟨cache, s.requests ++ [⟨spec, C.cachedStart spec rows⟩]⟩
  | miss {spec : QuerySpec} {cache : QueryCache}
      (hget : s.cache.get C.hash.specHash spec = (none, cache))
      (hrun : ∀ n ∈ C.overlay.nodes, (C.execute n spec).isSome) :
      PortalStep C s (.submitQuery spec) ⟨cache, s.requests ++ [⟨spec, (C.request spec).start⟩]⟩
  | act {k : ℕ} {l : Request.Label Node} {a : Active Node} {state : Request.State Node Row311}
      (ha : s.requests[k]? = some a) (hstep : (C.request a.spec).cascade.Step a.state l state) :
      PortalStep C s (.request k l) {
        cache := (state.store.puts.drop a.state.store.puts.length).foldl
          (fun cache rows => cache.put C.hash.specHash a.spec rows) s.cache
        requests := s.requests.set k ⟨a.spec, state⟩ }

variable {C} in
theorem step_cases {s s' : PortalState Node} {l : PortalLabel Node} (h : C.step s l = some s') :
    C.PortalStep s l s' := by
  cases l with
  | submitQuery spec =>
    change C.submitQuery s spec = some s' at h
    unfold Cluster.submitQuery at h
    split at h
    · -- the result is in the cache
      next rows cache hget =>
      obtain rfl := Option.some.inj h
      exact .hit hget
    · -- it is not, and the portal runs the query, if it has a result
      next cache hget =>
      split at h
      · next hrun =>
        obtain rfl := Option.some.inj h
        exact .miss hget hrun
      · exact absurd h (by simp)
  | request k l =>
    change C.act s k l = some s' at h
    unfold Cluster.act at h
    split at h
    · exact absurd h (by simp)
    next a ha =>
    split at h
    · exact absurd h (by simp)
    -- the request takes the step
    next state hstep =>
    obtain rfl := Option.some.inj h
    exact .act ha (Cascade.step_iff.mp hstep)

/-- The requests keep their results whole. -/
def Keeps (s : PortalState Node) : PortalLabel Node → Prop
  | .submitQuery _ => True
  | .request k l => ∀ a ∈ s.requests[k]?, (C.request a.spec).Keeps a.state l

instance (s : PortalState Node) (l : PortalLabel Node) : Decidable (C.Keeps s l) := by
  unfold Keeps
  split <;> infer_instance

/-! ### One request among the others -/

section OneRequest

variable {C} {s s' : PortalState Node} {l : PortalLabel Node}
  {P : PortalState Node → PortalLabel Node → Prop}

/-- A request takes a step of its own, or stays as it is. -/
theorem PortalStep.request_cases (h : C.PortalStep s l s') {k : ℕ} {a : Active Node}
    (ha : s.requests[k]? = some a) : s'.requests[k]? = some a ∨
      ∃ l' state, l = .request k l' ∧ (C.request a.spec).cascade.Step a.state l' state ∧
        s'.requests[k]? = some ⟨a.spec, state⟩ := by
  have h_lt : k < s.requests.length := (List.getElem?_eq_some_iff.mp ha).1
  cases h with
  | hit _ => exact Or.inl ((List.getElem?_append_left h_lt).trans ha)
  | miss _ _ => exact Or.inl ((List.getElem?_append_left h_lt).trans ha)
  | @act j l' b state hb hstep =>
    by_cases hjk : j = k
    · subst hjk
      -- the step is one of this request
      obtain rfl := Option.some.inj (ha.symm.trans hb)
      exact Or.inr ⟨l', state, rfl, hstep, List.getElem?_set_self h_lt⟩
    · exact Or.inl ((List.getElem?_set_ne hjk).trans ha)

/-- What the steps of a request keep, the runs of the portal keep of it. -/
theorem run_request {a : Active Node} {k : ℕ} {t : PortalState Node}
    {ls : List (PortalLabel Node)} (I : Request.State Node Row311 → Prop)
    (hstep : ∀ s l s', I s → (C.request a.spec).cascade.Step s l s' → I s')
    (h : C.machine.Run P s ls t) (ha : s.requests[k]? = some a) (hI : I a.state) :
    ∃ state, t.requests[k]? = some ⟨a.spec, state⟩ ∧ I state := by
  refine h.invariant (fun s => ∃ state, s.requests[k]? = some ⟨a.spec, state⟩ ∧ I state)
    (fun s l s' hs _ hst => ?_) ⟨a.state, ha, hI⟩
  obtain ⟨state, hget, hI⟩ := hs
  rcases (step_cases hst).request_cases hget with hget' | ⟨l', state', -, hst', hget'⟩
  · exact ⟨state, hget', hI⟩
  · exact ⟨state', hget', hstep _ _ _ hI hst'⟩

/-- What holds of a request from its start on holds of all requests. -/
theorem forall_requests (I : QuerySpec → Request.State Node Row311 → Prop)
    (hstart : ∀ spec, I spec (C.request spec).start)
    (hcached : ∀ spec rows, I spec (C.cachedStart spec rows))
    (hstep : ∀ spec s l s', I spec s → (C.request spec).cascade.Step s l s' → I spec s')
    (h : C.machine.Reachable P s) : ∀ a ∈ s.requests, I a.spec a.state := by
  refine h.invariant (fun s => ∀ a ∈ s.requests, I a.spec a.state)
    (fun _ h => absurd h List.not_mem_nil) fun s l s' hs _ hst => ?_
  cases step_cases hst with
  | hit _ => exact forall_mem_concat hs (hcached _ _)
  | miss _ _ => exact forall_mem_concat hs (hstart _)
  | @act k l a state ha hact =>
    have h_a := hs a (List.mem_of_getElem? ha)
    exact forall_mem_set hs (hstep _ _ _ _ h_a hact)

end OneRequest

/-! ### What the cache holds -/

/-- Every entry is the whole result of its query. -/
structure CacheInv (s : PortalState Node) : Prop where
  whole : ∀ e ∈ s.cache.lru, e.2.rows.Perm (C.result e.2.spec)
  requests : ∀ a ∈ s.requests, a.state.store.st.cacheCollect = true →
    (C.request a.spec).Collecting a.state

variable {C} {s s' : PortalState Node} {l : PortalLabel Node}

theorem CacheInv.step (hI : C.CacheInv s) (hkeeps : C.Keeps s l) (h : C.PortalStep s l s') :
    C.CacheInv s' := by
  cases h with
  | hit hget =>
    refine ⟨fun e he => hI.whole e (QueryCache.mem_get (by rw [hget]; exact he)), ?_⟩
    -- a request that the cache answers does not collect
    exact forall_mem_concat hI.requests fun h => absurd h (by simp [cachedStart, cachedState])
  | miss hget _ =>
    refine ⟨fun e he => hI.whole e (QueryCache.mem_get (by rw [hget]; exact he)), ?_⟩
    exact forall_mem_concat hI.requests fun _ => .initial _
  | @act k l a state ha hstep =>
    have h_a := hI.requests a (List.mem_of_getElem? ha)
    refine ⟨?_, forall_mem_set hI.requests (Request.Collecting.step h_a (hkeeps a ha) hstep)⟩
    -- a step puts nothing, or the whole result
    rcases Request.step_puts (fun h => (h_a h).collect) (hkeeps a ha) hstep with
      h_puts | ⟨rows, h_puts, h_rows⟩
    · rw [h_puts, List.drop_length]
      exact hI.whole
    · rw [h_puts, List.drop_left]
      intro e he
      -- the new entry answers all specifications that the cache takes for equal
      rcases QueryCache.mem_put he with he | ⟨h_spec, rfl⟩
      · exact hI.whole e he
      · rw [C.result_congr h_spec, ← C.request_rows]
        exact h_rows

/-- **The cache finds all of its entries**, whatever the requests do. -/
theorem cache_wellFormed {P : PortalState Node → PortalLabel Node → Prop}
    (h : C.machine.Reachable P s) : QueryCache.WellFormed C.hash.specHash s.cache := by
  refine h.invariant (fun s => QueryCache.WellFormed C.hash.specHash s.cache)
    (QueryCache.create_wellFormed _ _ _) fun s l s' hI _ hst => ?_
  cases step_cases hst with
  | @hit spec rows cache hget =>
    have h_get : QueryCache.WellFormed C.hash.specHash (s.cache.get C.hash.specHash spec).2 :=
      QueryCache.get_wellFormed hI
    rwa [hget] at h_get
  | @miss spec cache hget _ =>
    have h_get : QueryCache.WellFormed C.hash.specHash (s.cache.get C.hash.specHash spec).2 :=
      QueryCache.get_wellFormed hI
    rwa [hget] at h_get
  | act _ _ => exact QueryCache.foldl_put_wellFormed hI _

/-- **Only whole results are cached**, in every run in which the requests that collect
their results keep them whole. -/
theorem cache_whole (C : Cluster Node) {s : PortalState Node}
    (h : C.machine.Reachable C.Keeps s) : ∀ e ∈ s.cache.lru,
      e.2.rows.Perm (C.overlay.nodes.flatMap fun n => C.emitted e.2.spec n) :=
  (h.invariant C.CacheInv ⟨fun _ h => absurd h List.not_mem_nil,
    fun _ h => absurd h List.not_mem_nil⟩ fun _ _ _ hI hkeeps hstep =>
      hI.step hkeeps (step_cases hstep)).whole

/-- Two nodes, of which `b` has three rows. -/
def near : Cluster Overlay.Id3 where
  overlay := .pair
  params := .default
  cacheCapacity := 256
  store n := if n = .b then QueryEngine.nearStore else .empty
  sort := .stable
  hash := ⟨fun _ => 0, fun _ => 0, fun _ => 0, fun _ => 0, fun _ => 0⟩

/-- The actions of the first request. -/
def firstRequest (ls : List (Request.Label Overlay.Id3)) : List (PortalLabel Overlay.Id3) :=
  .submitQuery QueryEngine.noiseQuery :: ls.map (.request 0)

/-- `b` sends its rows, and one fetch returns and puts them. -/
theorem cache_whole_near : ∃ s, near.machine.Reachable near.Keeps s ∧ ∃ e ∈ s.cache.lru,
    e.2.spec = QueryEngine.noiseQuery ∧
      e.2.rows.Perm (near.overlay.nodes.flatMap fun n => near.emitted e.2.spec n) := by
  obtain ⟨s, hrun, e, he, h_spec⟩ := Machine.exists_run_of_exec (M := near.machine)
    (P := near.Keeps) (s := near.machine.init)
    (l := firstRequest (Request.pushTwoRows ++ Request.depositLocal 1 ++ Request.fetchOnce))
    (Φ := fun s => ∃ e ∈ s.cache.lru, e.2.spec = QueryEngine.noiseQuery) (by decide +kernel)
  exact ⟨s, ⟨_, hrun⟩, e, he, h_spec, cache_whole near ⟨_, hrun⟩ e he⟩

/-- `b` cannot be reached when the query is submitted. The result without its rows is
put into the cache. -/
theorem cache_incomplete : ∃ s, near.machine.Reachable (fun _ _ => True) s ∧ ∃ e ∈ s.cache.lru,
    ¬ e.2.rows.Perm (near.overlay.nodes.flatMap fun n => near.emitted e.2.spec n) := by
  obtain ⟨s, hrun, e, he⟩ := Machine.exists_run_of_exec (M := near.machine)
    (P := fun _ _ => True) (s := near.machine.init)
    (l := firstRequest ([.send 0, .expire 0, .finish 0] ++ Request.depositLocal 0 ++
      Request.fetchOnce))
    (Φ := fun s => ∃ e ∈ s.cache.lru,
      ¬ e.2.rows.Perm (near.overlay.nodes.flatMap fun n => near.emitted e.2.spec n))
    (by decide +kernel)
  exact ⟨s, ⟨_, hrun⟩, e, he⟩

end Cluster
end Mini2
