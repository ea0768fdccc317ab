import Mini2.Framework.Simulation
import Mini2.Node.ExactAnswer
import Mini2.Python.NodeServer

/-!
# Python servers and C++ servers

A cluster with a C++ portal in which other nodes are Python servers. A Python worker differs from
a C++ one in that it returns where the other goes on with its next chunk: once the request is
gone or canceled, and where it has no stub (`Ends`). So each run of the cluster is a run of C++
servers in which the workers that have returned take no further action (`mixed_refines`). The
store on that side is the same, but for the chunks left to the workers whose last chunk met such
an end (`Lags`). What holds of all runs of C++ servers and does not depend on such chunks holds
here, as exact answers on a tree (`mixed_answer_exact`).
-/

namespace Mini2
namespace Python

open Framework

variable {Node Row : Type*}

/-! ### Workers that have returned -/

/-- What has become of a chunk after which `_execute_local` returns. -/
inductive Ends : Outcome → Prop
  /-- `if not st: return` -/
  | gone : Ends .gone
  /-- `if not stub: return` -/
  | noPeer : Ends .noPeer
  /-- `if ack.canceled: return` -/
  | canceled : Ends .canceled

/-- A worker, and the same one on C++ servers: where the last chunk it took here was one after
which it returns, it may have chunks left there. -/
inductive Left : Worker Node Row → Worker Node Row → Prop
  | same (w : Worker Node Row) : Left w w
  | returned {w : Worker Node Row} {c : SinkCall Row} {outcome : Outcome} (htodo : w.todo = [])
      (hpc : w.pc = .ready) (hlast : w.history.getLast? = some (c, outcome))
      (hends : Ends outcome) (todo : List (SinkCall Row)) : Left w { w with todo := todo }

/-- A store, and the same one on C++ servers. -/
def Lags (σ σ' : Mini2.Store Node Row) : Prop :=
  ∃ ws, List.Forall₂ Left σ.workers ws ∧ σ' = { σ with workers := ws }

/-- A worker that has not returned is the same there. -/
theorem Left.eq_of_todo {w w' : Worker Node Row} {c : SinkCall Row} {todo : List (SinkCall Row)}
    (h : Left w w') (htodo : w.todo = c :: todo) : w' = w := by
  cases h with
  | same => rfl
  | returned hnil => exact absurd (hnil.symm.trans htodo) (List.cons_ne_nil _ _).symm

/-- One worker moves on both sides. -/
theorem forall₂_set {ws ws' : List (Worker Node Row)} (h : List.Forall₂ Left ws ws') (k : ℕ)
    {w w' : Worker Node Row} (hw : Left w w') : List.Forall₂ Left (ws.set k w) (ws'.set k w') := by
  induction h generalizing k with
  | nil => exact .nil
  | cons h_head h_tail ih =>
    cases k with
    | zero => exact .cons hw h_tail
    | succ k => exact .cons h_head (ih k)

theorem forall₂_getElem? {ws ws' : List (Worker Node Row)} (h : List.Forall₂ Left ws ws') {k : ℕ}
    {w : Worker Node Row} (hw : ws[k]? = some w) : ∃ w', ws'[k]? = some w' ∧ Left w w' := by
  induction h generalizing k with
  | nil => exact absurd hw (by simp)
  | cons h_head _ ih =>
    cases k with
    | zero =>
      obtain rfl := Option.some.inj hw
      exact ⟨_, rfl, h_head⟩
    | succ k => exact ih hw

variable [DecidableEq Node] {R : Request Node Row} {σ σ' τ : Mini2.Store Node Row}

/-! ### Actions of workers -/

/-- The action of a C++ worker, for comparison. -/
def cppEffect (O : Overlay Node) (registered : Bool) (pushes : List (PushCall Node Row))
    (w : Worker Node Row) : Option (Effect Node Row) :=
  match w.pc, w.todo with
  | .ready, c :: todo =>
    if w.upstream = O.selfRoute then
      if w.node = O.portal ∧ registered then some (.move { w with pc := .found })
      else some (.move (w.advance c todo .gone))
    else if w.upstream ∈ O.nbrs w.node then some (.push c 4)
    else some (.move (w.advance c todo .noPeer))
  | .found, c :: _ => some (.deposit c)
  | .deposited, c :: todo => some (.mark c (w.advance c todo .deposited))
  | .pushing id retries, c :: todo =>
    match pushes[id]? with
    | some p =>
      match p.hops, p.pc with
      | [], .acked ack =>
        if ack.ok then some (.move (w.advance c todo .acked))
        else if ack.canceled then some (.move (w.advance c todo .canceled))
        else some (.move { w with pc := .backoff retries })
      | _, _ => none
    | none => none
  | .backoff (retries + 1), c :: _ => some (.push c retries)
  | .backoff 0, c :: todo => some (.move (w.advance c todo .exhausted))
  | _, [] => none

/-- `executeLocal` of the C++ code carries it out. -/
theorem work_eq {k : ℕ} {w : Worker Node Row} (hw : σ.workers[k]? = some w) :
    R.work σ k = (cppEffect R.overlay σ.registered σ.pushes w).map (Effect.apply σ k w) := by
  obtain ⟨node, upstream, todo, history, pc⟩ := w
  unfold Request.work cppEffect
  rw [hw]
  cases todo with
  | nil =>
    -- no chunk, no action
    cases pc with
    | backoff retries => cases retries <;> rfl
    | _ => rfl
  | cons c todo =>
    cases pc with
    | ready =>
      dsimp only
      split
      · split <;> rfl
      · split <;> rfl
    | pushing id retries =>
      dsimp only
      -- only an answer that has come back is acted on
      cases σ.pushes[id]? with
      | none => rfl
      | some p =>
        obtain ⟨producer, seq, call, worker, hops, pc⟩ := p
        cases hops with
        | cons n hops => rfl
        | nil =>
          cases pc with
          | acked ack =>
            dsimp only
            split
            · rfl
            · split <;> rfl
          | _ => rfl
    | backoff retries => cases retries <;> rfl
    | _ => rfl

/-- The two workers do the same, unless the chunk is one after which the Python one returns. -/
inductive SameOrStop (w : Worker Node Row) : Effect Node Row → Effect Node Row → Prop
  | same (e : Effect Node Row) : SameOrStop w e e
  | stop {outcome : Outcome} (hends : Ends outcome) (c : SinkCall Row)
      (todo : List (SinkCall Row)) :
      SameOrStop w (.move (w.stop c outcome)) (.move (w.advance c todo outcome))

/-- The two differ in three places, each an end for the Python worker. -/
theorem executeLocal_cases {O : Overlay Node} {registered : Bool}
    {pushes : List (PushCall Node Row)} {w : Worker Node Row} {e : Effect Node Row}
    (h : executeLocal O registered pushes w = some e) :
    ∃ e', cppEffect O registered pushes w = some e' ∧ SameOrStop w e e' := by
  obtain ⟨node, upstream, todo, history, pc⟩ := w
  unfold executeLocal at h
  unfold cppEffect
  cases todo with
  | nil =>
    -- no chunk, no action
    cases pc with
    | backoff retries => cases retries <;> exact absurd h (by simp)
    | _ => exact absurd h (by simp)
  | cons c todo =>
    cases pc with
    | ready =>
      -- a deposit at the portal itself, or a first attempt to push
      dsimp only at h ⊢
      split at h
      · next hself =>
        rw [if_pos hself]
        split at h
        · next hfound =>
          obtain rfl := Option.some.inj h
          exact ⟨_, if_pos hfound, .same _⟩
        · next hgone =>
          obtain rfl := Option.some.inj h
          exact ⟨_, if_neg hgone, .stop .gone c todo⟩
      · next hself =>
        rw [if_neg hself]
        split at h
        · next hpeer =>
          obtain rfl := Option.some.inj h
          exact ⟨_, if_pos hpeer, .same _⟩
        · next hpeer =>
          obtain rfl := Option.some.inj h
          exact ⟨_, if_neg hpeer, .stop .noPeer c todo⟩
    | pushing id retries =>
      -- nothing, unless the call has come back with an answer
      dsimp only at h ⊢
      cases hp : pushes[id]? with
      | none =>
        rw [hp] at h
        exact absurd h (by simp)
      | some p =>
        rw [hp] at h
        obtain ⟨producer, seq, call, worker, hops, pc⟩ := p
        cases hops with
        | cons n hops => exact absurd h (by simp)
        | nil =>
          cases pc with
          | acked ack =>
            dsimp only at h ⊢
            by_cases hok : ack.ok = true
            · rw [if_pos hok] at h
              obtain rfl := Option.some.inj h
              exact ⟨_, if_pos hok, .same _⟩
            · rw [if_neg hok] at h ⊢
              by_cases hcanceled : ack.canceled = true
              · rw [if_pos hcanceled] at h
                obtain rfl := Option.some.inj h
                exact ⟨_, if_pos hcanceled, .stop .canceled c todo⟩
              · rw [if_neg hcanceled] at h
                obtain rfl := Option.some.inj h
                exact ⟨_, if_neg hcanceled, .same _⟩
          | _ => exact absurd h (by simp)
    -- from here on the two are written alike
    | backoff retries =>
      cases retries <;> exact ⟨_, h, .same _⟩
    | _ => exact ⟨_, h, .same _⟩

theorem cppEffect_todo {O : Overlay Node} {registered : Bool} {pushes : List (PushCall Node Row)}
    {w : Worker Node Row} {e : Effect Node Row} (h : cppEffect O registered pushes w = some e) :
    ∃ c todo, w.todo = c :: todo := by
  unfold cppEffect at h
  cases htodo : w.todo with
  | nil => rw [htodo] at h; split at h <;> simp_all
  | cons c todo => exact ⟨c, todo, rfl⟩

/-- What a worker does keeps the stores related. -/
theorem Lags.apply (h : Lags σ σ') {k : ℕ} {w : Worker Node Row} {e e' : Effect Node Row}
    (he : SameOrStop w e e') : Lags (e.apply σ k w) (e'.apply σ' k w) := by
  obtain ⟨ws, h_ws, rfl⟩ := h
  cases he with
  | same =>
    cases e with
    | move w' => exact ⟨_, forall₂_set h_ws k (.same w'), rfl⟩
    | push c retries => exact ⟨_, forall₂_set h_ws k (.same _), rfl⟩
    | deposit c => exact ⟨_, forall₂_set h_ws k (.same _), rfl⟩
    | mark c w' => exact ⟨_, forall₂_set h_ws k (.same w'), rfl⟩
  | @stop outcome hends c todo =>
    -- the chunk and its outcome are the last of the history on both sides
    have hlast : (w.stop c outcome).history.getLast? = some (c, outcome) := List.getLast?_concat
    exact ⟨_, forall₂_set h_ws k (.returned rfl rfl hlast hends todo), rfl⟩

/-! ### The other actions -/

section Others

variable {ws : List (Worker Node Row)}

/-- Only the actions of workers read the workers. -/
theorem push_workers (i : ℕ) : R.push { σ with workers := ws } i =
    (R.push σ i).map fun τ => { τ with workers := ws } := by
  unfold Request.push
  cases h : σ.pushes[i]? with
  | none => rfl
  | some p =>
    obtain ⟨producer, seq, call, worker, hops, pc⟩ := p
    cases pc with
    -- the stages that look something up; none looks at the workers
    | «at» n =>
      dsimp only
      split
      · split <;> rfl
      · split
        · rfl
        · split <;> rfl
    | found =>
      dsimp only
      split <;> rfl
    | acked ack => cases hops <;> rfl
    | _ => rfl

omit [DecidableEq Node] in
theorem pushFail_workers (i j : ℕ) : Request.pushFail { σ with workers := ws } i j =
    (Request.pushFail σ i j).map fun τ => { τ with workers := ws } := by
  unfold Request.pushFail
  cases h : σ.pushes[i]? with
  | none => rfl
  | some p =>
    dsimp only
    split <;> rfl

omit [DecidableEq Node] in
theorem fetch_workers (i : ℕ) (dt : ℚ) : Request.fetch { σ with workers := ws } i dt =
    (Request.fetch σ i dt).map fun τ => { τ with workers := ws } := by
  unfold Request.fetch
  cases h : σ.fetches[i]? with
  | none => rfl
  | some f =>
    obtain ⟨maxRows, rsp, pc⟩ := f
    cases pc with
    | finalRead =>
      dsimp only
      split
      · split <;> rfl
      · rfl
    | _ => rfl

/-- An action of which the workers are no part. -/
def aside : Request.Event Node → Bool
  | .work _ => false
  | .cut _ _ => false
  | _ => true

theorem env_workers {e : Request.Event Node} (he : aside e = true) :
    R.env { σ with workers := ws } e = (R.env σ e).map fun τ => { τ with workers := ws } := by
  cases e with
  | work k => exact absurd he Bool.false_ne_true
  | cut k m => exact absurd he Bool.false_ne_true
  | push i => exact push_workers i
  | pushFail i j => exact pushFail_workers i j
  | fetchBegin maxRows =>
    -- each handler branches on the registry, or on a flag, and writes its own part
    show some (Request.fetchBegin _ maxRows) = (some (Request.fetchBegin σ maxRows)).map _
    unfold Request.fetchBegin
    dsimp only
    split <;> rfl
  | fetch i dt => exact fetch_workers i dt
  | cancelQuery =>
    show some (Request.cancelQuery _) = (some (Request.cancelQuery σ)).map _
    unfold Request.cancelQuery
    dsimp only
    split <;> rfl
  | cancelFound =>
    show Request.cancelFound _ = (Request.cancelFound σ).map _
    unfold Request.cancelFound
    dsimp only
    split <;> rfl
  | abort n =>
    show Request.abort _ n = (Request.abort σ n).map _
    unfold Request.abort
    dsimp only
    split
    · split <;> rfl
    · rfl
  | janitorLoop =>
    show Request.janitorLoop _ = (Request.janitorLoop σ).map _
    unfold Request.janitorLoop
    dsimp only
    split
    · split <;> rfl
    · rfl
    · rfl

/-- Such an action leaves the workers as they are. -/
theorem workers_eq_of_aside {e : Request.Event Node} (he : aside e = true)
    (h : R.env σ e = some τ) : τ.workers = σ.workers := by
  cases e with
  | work k => exact absurd he Bool.false_ne_true
  | cut k m => exact absurd he Bool.false_ne_true
  | _ => cases Request.env_cases h <;> rfl

end Others

/-! ### Every run is one of C++ servers -/

variable {python : Node → Bool}

/-- **An action of the servers is one of C++ servers.** -/
theorem Lags.env (h : Lags σ σ') {e : Request.Event Node}
    (he : (mixed R python).env σ e = some τ) : ∃ τ', R.env σ' e = some τ' ∧ Lags τ τ' := by
  have h_rel := h
  obtain ⟨ws, h_ws, rfl⟩ := h
  by_cases h_aside : aside e = true
  · have h_env : R.env σ e = some τ := by
      cases e with
      | work k => exact absurd h_aside Bool.false_ne_true
      | _ => exact he
    refine ⟨{ τ with workers := ws }, by rw [env_workers h_aside, h_env]; rfl, ws, ?_, rfl⟩
    rwa [workers_eq_of_aside h_aside h_env]
  · cases e with
    | work k =>
      change work R python σ k = some τ at he
      unfold work at he
      split at he
      · exact absurd he (by simp)
      · next w hw =>
        -- what the worker does, and what it would do on a C++ server
        obtain ⟨effect, effect', h_cpp, h_same, rfl⟩ : ∃ effect effect',
            cppEffect R.overlay σ.registered σ.pushes w = some effect' ∧
              SameOrStop w effect effect' ∧ effect.apply σ k w = τ := by
          split at he
          · obtain ⟨effect, h_effect, h_τ⟩ := Option.map_eq_some_iff.mp he
            obtain ⟨effect', h_cpp, h_same⟩ := executeLocal_cases h_effect
            exact ⟨effect, effect', h_cpp, h_same, h_τ⟩
          · rw [work_eq hw] at he
            obtain ⟨effect, h_effect, h_τ⟩ := Option.map_eq_some_iff.mp he
            exact ⟨effect, effect, h_effect, .same effect, h_τ⟩
        obtain ⟨c, todo, htodo⟩ := cppEffect_todo h_cpp
        -- a worker with a chunk left has not returned, and is the same on both sides
        obtain ⟨w', hw', h_left⟩ := forall₂_getElem? h_ws hw
        obtain rfl := h_left.eq_of_todo htodo
        refine ⟨effect'.apply _ k w', ?_, h_rel.apply h_same⟩
        show R.work { σ with workers := ws } k = _
        rw [work_eq (show ({ σ with workers := ws } : Mini2.Store Node Row).workers[k]? = some w'
          from hw')]
        exact congrArg (Option.map _) h_cpp
    | cut k m =>
      change Request.cut σ k m = some τ at he
      cases Request.env_cases (R := R) (e := .cut k m) he with
      | @cut _ _ w c todo hw hpc htodo hmark hm =>
        obtain ⟨w', hw', h_left⟩ := forall₂_getElem? h_ws hw
        obtain rfl := h_left.eq_of_todo htodo
        refine ⟨_, ?_, ws.set k { w' with todo := [⟨c.rows.take m, true⟩] },
          forall₂_set h_ws k (.same _), rfl⟩
        show Request.cut { σ with workers := ws } k m = _
        -- only a worker with a chunk left cuts it short
        obtain ⟨node, upstream, todo', history, pc⟩ := w'
        obtain rfl : pc = .ready := hpc
        obtain rfl : todo' = c :: todo := htodo
        unfold Request.cut
        dsimp only
        rw [hw']
        exact if_pos ⟨hmark, hm⟩
    | _ => exact absurd rfl h_aside

/-- The cluster is simulated by one of C++ servers. -/
theorem mixed_refines_cascade : (mixed R python).Refines R.cascade Lags where
  check := by
    rintro σ σ' n m ⟨ws, -, rfl⟩
    rfl
  commit := by
    rintro σ σ' n m ⟨ws, h_ws, rfl⟩
    exact ⟨ws, h_ws, rfl⟩
  outgoing n m := rfl
  settle := by
    rintro σ σ' n m p r ⟨ws, h_ws, rfl⟩
    exact ⟨ws, h_ws, rfl⟩
  finish := by
    rintro σ σ' n m ⟨ws, h_ws, rfl⟩
    -- a worker starts on both sides
    exact ⟨_, List.rel_append h_ws (.cons (.same _) .nil), rfl⟩
  reply n m := rfl
  env e h he := h.env he

section Mixed

variable {s : Request.State Node Row}

/-- The first worker's first call is answered after the query has been canceled. -/
def canceledPush : List (Request.Label Overlay.Id3) :=
  [.env .cancelQuery, .env .cancelFound, .env (.work 0), .env (.push 0), .env (.push 0),
    .env (.work 0)]

/-- **A cluster with Python servers does nothing that C++ servers do not do**: each of its runs
is, action by action, one of a cluster of C++ servers. The calls, the routes, the buffer, the
responses to the client and all else are the same there, except that workers that have
returned here, because the request was gone or canceled or for want of a stub, may have chunks
left. -/
theorem mixed_refines (R : Request Node Row) (python : Node → Bool)
    {ls : List (Request.Label Node)}
    (h : (mixedMachine R python).Run (fun _ _ => True) R.start ls s) :
    ∃ s', R.machine.Run (fun _ _ => True) R.start ls s' ∧ s'.calls = s.calls ∧
      Lags s.store s'.store := by
  have h_start : Cascade.Related Lags R.start R.start := ⟨rfl, [], .nil, rfl⟩
  obtain ⟨s', h_run, h_rel⟩ : ∃ s', R.machine.Run (fun _ _ => True) R.start ls s' ∧
      Cascade.Related Lags s s' := mixed_refines_cascade.run (fun _ _ _ _ _ => trivial) h_start h
  exact ⟨s', h_run, h_rel.calls, h_rel.store⟩

/-- The query is canceled while the first of two chunks is on its way from `b`, a Python server.
The worker returns, and the second chunk is dropped. -/
theorem mixed_refines_canceled : ∃ s s' : Request.State Overlay.Id3 ℕ,
    (mixedMachine Request.twoChunks (fun n => n = .b)).Run (fun _ _ => True)
      Request.twoChunks.start (Request.bothExecute ++ canceledPush) s ∧
    (∃ w ∈ s.store.workers, w.history = [(⟨[1], false⟩, .canceled)] ∧ w.todo = []) ∧
      Lags s.store s'.store := by
  obtain ⟨s, h_run, h_returned⟩ := Machine.exists_run_of_exec
    (M := mixedMachine Request.twoChunks (fun n => n = .b)) (P := fun _ _ => True)
    (s := Request.twoChunks.start) (l := Request.bothExecute ++ canceledPush)
    (Φ := fun s => ∃ w ∈ s.store.workers, w.history = [(⟨[1], false⟩, .canceled)] ∧ w.todo = [])
    (by decide +kernel)
  obtain ⟨s', -, -, h_lags⟩ := mixed_refines Request.twoChunks (fun n => n = .b) h_run
  exact ⟨s, s', h_run, h_returned, h_lags⟩

/-- **Answers on a tree are exact**, also with Python servers on it. -/
theorem mixed_answer_exact (R : Request Node Row) (python : Node → Bool)
    (htree : R.overlay.IsTree) (hself : R.overlay.selfRoute ∉ R.overlay.nodes)
    (hcap : R.rows.length ≤ R.params.chunkBufferCap)
    (h : (mixedMachine R python).Reachable Request.Undisturbed s) :
    ∀ f ∈ s.store.fetches, f.pc = .answered → f.rsp.final = true →
      (Request.returned s.store).Perm (R.overlay.nodes.flatMap fun n => (R.scan n).rows) := by
  obtain ⟨ls, h_run⟩ := h
  have h_start : Cascade.Related Lags R.start R.start := ⟨rfl, [], .nil, rfl⟩
  -- one client fetches there too
  have h_guard : ∀ (s s' : Request.State Node Row) (l : Request.Label Node),
      Cascade.Related Lags s s' → Request.Undisturbed s l → Request.Undisturbed s' l := by
    intro s s' l h_rel h_l
    obtain ⟨ws, -, h_store⟩ := h_rel.store
    refine ⟨h_l.1, ?_⟩
    have h_client := h_l.2
    unfold Request.OneClient at h_client ⊢
    rwa [h_store]
  obtain ⟨s', h_run', h_rel⟩ := mixed_refines_cascade.run h_guard h_start h_run
  obtain ⟨ws, -, h_store⟩ := h_rel.store
  have h_exact := (Request.ExactInv.reachable htree hself hcap ⟨ls, h_run'⟩).returned_perm
  rwa [h_store] at h_exact

/-- The row of the last node comes from a Python server, over a C++ server. -/
theorem mixed_answer_exact_chain : ∃ s, (mixedMachine Request.rowAtEnd (fun n => n = .c)).Reachable
      Request.Undisturbed s ∧
    (∃ f ∈ s.store.fetches, f.pc = .answered ∧ f.rsp.final = true) ∧
      (Request.returned s.store).Perm [1] := by
  obtain ⟨s, h_run, f, hf, hpc, hfinal⟩ := Machine.exists_run_of_exec
    (M := mixedMachine Request.rowAtEnd (fun n => n = .c)) (P := Request.Undisturbed)
    (s := Request.rowAtEnd.start) (l := Request.overChain ++ Request.fetchOnce)
    (Φ := fun s => ∃ f ∈ s.store.fetches, f.pc = .answered ∧ f.rsp.final = true)
    (by decide +kernel)
  exact ⟨s, ⟨_, h_run⟩, ⟨f, hf, hpc, hfinal⟩, mixed_answer_exact Request.rowAtEnd
    (fun n => n = .c) Overlay.chain_isTree (by decide) (by decide) ⟨_, h_run⟩ f hf hpc hfinal⟩

end Mixed

end Python
end Mini2
