import Mini2.Framework.ListUpdate
import Mini2.Node.Request

/-!
# What the surroundings of a request can do

`Request.EnvStep` lists the actions around the cascade, one constructor for each
branch of the code, and `Request.env_cases` is the inversion of `Request.env`.
Every invariant of the store is proved from it.

Most invariants look at one component of the store only. What an action can do to
the workers, the push calls, the log and the fetches is said once for each of these:
`EnvStep.workers_cases`, `EnvStep.pushes_cases`, `EnvStep.log_cases` and
`EnvStep.fetches_cases`.
-/

namespace Mini2

open Framework

variable {Node Row : Type*}

/-- The call may still deposit its chunk. -/
def PushPc.underway : PushPc Node → Bool
  | .at _ => true
  | .found => true
  | .live => true
  | _ => false

/-- The worker is about to send its current chunk again. -/
def WorkerPc.retrying : WorkerPc → Bool
  | .backoff (_ + 1) => true
  | _ => false

/-- The actions that a fetch has left. -/
def FetchPc.left : FetchPc → ℕ
  | .found => 8
  | .popped => 7
  | .accumulated => 6
  | .served => 5
  | .counted => 4
  | .canceledRead => 3
  | .finalRead => 2
  | .closing => 1
  | .answered => 0

namespace Request

variable [DecidableEq Node] {R : Request Node Row}

/-- What each action can do. -/
inductive EnvStep (R : Request Node Row) (σ : Store Node Row) :
    Event Node → Store Node Row → Prop
  | workFound {k : ℕ} {w : Worker Node Row} {c : SinkCall Row} {todo : List (SinkCall Row)}
      (hw : σ.workers[k]? = some w) (hpc : w.pc = .ready) (htodo : w.todo = c :: todo)
      (hself : w.upstream = R.overlay.selfRoute) (hnode : w.node = R.overlay.portal)
      (hreg : σ.registered = true) :
      EnvStep R σ (.work k) (σ.setWorker k { w with pc := .found })
  | workGone {k : ℕ} {w : Worker Node Row} {c : SinkCall Row} {todo : List (SinkCall Row)}
      (hw : σ.workers[k]? = some w) (hpc : w.pc = .ready) (htodo : w.todo = c :: todo)
      (hself : w.upstream = R.overlay.selfRoute)
      (hgone : ¬ (w.node = R.overlay.portal ∧ σ.registered = true)) :
      EnvStep R σ (.work k) (σ.setWorker k (w.advance c todo .gone))
  | workPush {k : ℕ} {w : Worker Node Row} {c : SinkCall Row} {todo : List (SinkCall Row)}
      (hw : σ.workers[k]? = some w) (hpc : w.pc = .ready) (htodo : w.todo = c :: todo)
      (hself : w.upstream ≠ R.overlay.selfRoute) (hpeer : w.upstream ∈ R.overlay.nbrs w.node) :
      EnvStep R σ (.work k) (σ.startPush k w c 4)
  | workNoPeer {k : ℕ} {w : Worker Node Row} {c : SinkCall Row} {todo : List (SinkCall Row)}
      (hw : σ.workers[k]? = some w) (hpc : w.pc = .ready) (htodo : w.todo = c :: todo)
      (hself : w.upstream ≠ R.overlay.selfRoute) (hpeer : w.upstream ∉ R.overlay.nbrs w.node) :
      EnvStep R σ (.work k) (σ.setWorker k (w.advance c todo .noPeer))
  | workDeposit {k : ℕ} {w : Worker Node Row} {c : SinkCall Row} {todo : List (SinkCall Row)}
      (hw : σ.workers[k]? = some w) (hpc : w.pc = .found) (htodo : w.todo = c :: todo) :
      EnvStep R σ (.work k)
        ((σ.deposit w.node (w.history.length + 1) c).setWorker k { w with pc := .deposited })
  | workMark {k : ℕ} {w : Worker Node Row} {c : SinkCall Row} {todo : List (SinkCall Row)}
      (hw : σ.workers[k]? = some w) (hpc : w.pc = .deposited) (htodo : w.todo = c :: todo) :
      EnvStep R σ (.work k)
        ((σ.markDoneIf c w.node).setWorker k (w.advance c todo .deposited))
  | workAcked {k id retries : ℕ} {w : Worker Node Row} {c : SinkCall Row}
      {todo : List (SinkCall Row)} {p : PushCall Node Row} {ack : PushChunkAck}
      (hw : σ.workers[k]? = some w) (hpc : w.pc = .pushing id retries)
      (htodo : w.todo = c :: todo) (hp : σ.pushes[id]? = some p) (hhops : p.hops = [])
      (hack : p.pc = .acked ack) (hok : ack.ok = true) :
      EnvStep R σ (.work k) (σ.setWorker k (w.advance c todo .acked))
  | workCanceled {k id retries : ℕ} {w : Worker Node Row} {c : SinkCall Row}
      {todo : List (SinkCall Row)} {p : PushCall Node Row} {ack : PushChunkAck}
      (hw : σ.workers[k]? = some w) (hpc : w.pc = .pushing id retries)
      (htodo : w.todo = c :: todo) (hp : σ.pushes[id]? = some p) (hhops : p.hops = [])
      (hack : p.pc = .acked ack) (hok : ack.ok = false) (hcanceled : ack.canceled = true) :
      EnvStep R σ (.work k) (σ.setWorker k (w.advance c todo .canceled))
  | workBackoff {k id retries : ℕ} {w : Worker Node Row} {c : SinkCall Row}
      {todo : List (SinkCall Row)} {p : PushCall Node Row} {ack : PushChunkAck}
      (hw : σ.workers[k]? = some w) (hpc : w.pc = .pushing id retries)
      (htodo : w.todo = c :: todo) (hp : σ.pushes[id]? = some p) (hhops : p.hops = [])
      (hack : p.pc = .acked ack) (hok : ack.ok = false) (hcanceled : ack.canceled = false) :
      EnvStep R σ (.work k) (σ.setWorker k { w with pc := .backoff retries })
  | workRetry {k retries : ℕ} {w : Worker Node Row} {c : SinkCall Row}
      {todo : List (SinkCall Row)} (hw : σ.workers[k]? = some w)
      (hpc : w.pc = .backoff (retries + 1)) (htodo : w.todo = c :: todo) :
      EnvStep R σ (.work k) (σ.startPush k w c retries)
  | workExhausted {k : ℕ} {w : Worker Node Row} {c : SinkCall Row} {todo : List (SinkCall Row)}
      (hw : σ.workers[k]? = some w) (hpc : w.pc = .backoff 0) (htodo : w.todo = c :: todo) :
      EnvStep R σ (.work k) (σ.setWorker k (w.advance c todo .exhausted))
  | cut {k m : ℕ} {w : Worker Node Row} {c : SinkCall Row} {todo : List (SinkCall Row)}
      (hw : σ.workers[k]? = some w) (hpc : w.pc = .ready) (htodo : w.todo = c :: todo)
      (hmark : σ.cancelMarks w.node = true) (hm : m < c.rows.length) :
      EnvStep R σ (.cut k m) (σ.setWorker k { w with todo := [⟨c.rows.take m, true⟩] })
  | pushFound {i : ℕ} {p : PushCall Node Row} (hp : σ.pushes[i]? = some p)
      (hpc : p.pc = .at R.overlay.portal) (hreg : σ.registered = true) :
      EnvStep R σ (.push i) (σ.setPush i { p with pc := .found })
  | pushUnregistered {i : ℕ} {p : PushCall Node Row} (hp : σ.pushes[i]? = some p)
      (hpc : p.pc = .at R.overlay.portal) (hreg : σ.registered = false) :
      EnvStep R σ (.push i) (σ.setPush i { p with pc := .acked .gone })
  | pushNoRoute {i : ℕ} {p : PushCall Node Row} {n : Node} (hp : σ.pushes[i]? = some p)
      (hpc : p.pc = .at n) (hn : n ≠ R.overlay.portal) (hroute : σ.routes n = none) :
      EnvStep R σ (.push i) (σ.setPush i { p with pc := .acked .gone })
  | pushRelay {i : ℕ} {p : PushCall Node Row} {n : Node} {route : Route Node}
      (hp : σ.pushes[i]? = some p) (hpc : p.pc = .at n) (hn : n ≠ R.overlay.portal)
      (hroute : σ.routes n = some route) (hpeer : route.upstreamPeer ∈ R.overlay.nbrs n) :
      EnvStep R σ (.push i)
        (σ.setPush i { p with hops := n :: p.hops, pc := .at route.upstreamPeer })
  | pushNoPeer {i : ℕ} {p : PushCall Node Row} {n : Node} {route : Route Node}
      (hp : σ.pushes[i]? = some p) (hpc : p.pc = .at n) (hn : n ≠ R.overlay.portal)
      (hroute : σ.routes n = some route) (hpeer : route.upstreamPeer ∉ R.overlay.nbrs n) :
      EnvStep R σ (.push i) (σ.setPush i { p with pc := .acked .failed })
  | pushCanceled {i : ℕ} {p : PushCall Node Row} (hp : σ.pushes[i]? = some p)
      (hpc : p.pc = .found) (hcanceled : σ.st.buffer.canceled = true) :
      EnvStep R σ (.push i) (σ.setPush i { p with pc := .acked .gone })
  | pushLive {i : ℕ} {p : PushCall Node Row} (hp : σ.pushes[i]? = some p)
      (hpc : p.pc = .found) (hcanceled : σ.st.buffer.canceled = false) :
      EnvStep R σ (.push i) (σ.setPush i { p with pc := .live })
  | pushDeposit {i : ℕ} {p : PushCall Node Row} (hp : σ.pushes[i]? = some p)
      (hpc : p.pc = .live) :
      EnvStep R σ (.push i) ((σ.deposit p.producer p.seq p.call).setPush i
        { p with pc := .pushed (σ.st.buffer.pushRows p.call.rows).2 })
  | pushMark {i took : ℕ} {p : PushCall Node Row} (hp : σ.pushes[i]? = some p)
      (hpc : p.pc = .pushed took) :
      EnvStep R σ (.push i)
        ((σ.markDoneIf p.call p.producer).setPush i { p with pc := .marked took })
  | pushAck {i took : ℕ} {p : PushCall Node Row} (hp : σ.pushes[i]? = some p)
      (hpc : p.pc = .marked took) :
      EnvStep R σ (.push i) (σ.setPush i { p with pc := .acked (R.depositAck σ p took) })
  | pushReturn {i : ℕ} {p : PushCall Node Row} {n : Node} {hops : List Node}
      {ack : PushChunkAck} (hp : σ.pushes[i]? = some p) (hpc : p.pc = .acked ack)
      (hhops : p.hops = n :: hops) :
      EnvStep R σ (.push i) (σ.setPush i { p with hops := hops, pc := .acked ack.relay })
  | pushFail {i j : ℕ} {p : PushCall Node Row} (hp : σ.pushes[i]? = some p)
      (hj : j ≤ p.hops.length) :
      EnvStep R σ (.pushFail i j) { σ with
        pushes := σ.pushes.set i { p with hops := p.hops.drop j, pc := .acked .failed } ++
          [{ p with worker := none, hops := p.hops.take j }] }
  | fetchBegin {maxRows : UInt32} (hreg : σ.registered = true) :
      EnvStep R σ (.fetchBegin maxRows) { σ with
        fetches := σ.fetches ++ [⟨maxRows, ⟨[], 0, 0, 0, false, false⟩, .found⟩] }
  | fetchGone {maxRows : UInt32} (hreg : σ.registered = false) :
      EnvStep R σ (.fetchBegin maxRows) { σ with
        fetches := σ.fetches ++ [⟨maxRows, ⟨[], 0, 0, 0, true, true⟩, .answered⟩] }
  | fetchPop {i : ℕ} {dt : ℚ} {f : Fetch Row} (hf : σ.fetches[i]? = some f)
      (hpc : f.pc = .found) {st : RequestState Node Row} (hst : st = σ.st.recordFetch dt)
      {want : ℕ} (hwant : want = (st.want f.maxRows).toNat) :
      EnvStep R σ (.fetch i dt)
        (({ σ with st := st.withBuffer (σ.st.buffer.popUpTo want).1 }).setFetch i
          { f with rsp := { f.rsp with rows := (σ.st.buffer.popUpTo want).2 }, pc := .popped })
  | fetchAccumulate {i : ℕ} {dt : ℚ} {f : Fetch Row} (hf : σ.fetches[i]? = some f)
      (hpc : f.pc = .popped) {rsp : ChunkResponse Row} (hrsp : rsp = { f.rsp with
        suggestedNextMax := (σ.st.accumulate f.rsp.rows).suggestedChunk }) :
      EnvStep R σ (.fetch i dt) (({ σ with st := σ.st.accumulate f.rsp.rows }).setFetch i
        { f with rsp := rsp, pc := .accumulated })
  | fetchServed {i : ℕ} {dt : ℚ} {f : Fetch Row} (hf : σ.fetches[i]? = some f)
      (hpc : f.pc = .accumulated) :
      EnvStep R σ (.fetch i dt) (σ.setFetch i
        { f with rsp := { f.rsp with rowsSoFar := σ.st.buffer.rowsServed }, pc := .served })
  | fetchCounted {i : ℕ} {dt : ℚ} {f : Fetch Row} (hf : σ.fetches[i]? = some f)
      (hpc : f.pc = .served) :
      EnvStep R σ (.fetch i dt) (σ.setFetch i { f with
        rsp := { f.rsp with pendingProducers := σ.st.buffer.pendingProducers }, pc := .counted })
  | fetchCanceled {i : ℕ} {dt : ℚ} {f : Fetch Row} (hf : σ.fetches[i]? = some f)
      (hpc : f.pc = .counted) :
      EnvStep R σ (.fetch i dt) (σ.setFetch i
        { f with rsp := { f.rsp with canceled := σ.st.buffer.canceled }, pc := .canceledRead })
  | fetchFinal {i : ℕ} {dt : ℚ} {f : Fetch Row} (hf : σ.fetches[i]? = some f)
      (hpc : f.pc = .canceledRead) :
      EnvStep R σ (.fetch i dt) (σ.setFetch i
        { f with rsp := { f.rsp with final := σ.st.buffer.isFinal }, pc := .finalRead })
  | fetchPut {i : ℕ} {dt : ℚ} {f : Fetch Row} (hf : σ.fetches[i]? = some f)
      (hpc : f.pc = .finalRead) (hfinal : f.rsp.final = true)
      (hcollect : σ.st.cacheCollect = true) (hlive : f.rsp.canceled = false) :
      EnvStep R σ (.fetch i dt) (({ σ with
        st := { σ.st with cacheAccum := [] }
        puts := σ.puts ++ [σ.st.cacheAccum] }).setFetch i { f with pc := .closing })
  | fetchNoPut {i : ℕ} {dt : ℚ} {f : Fetch Row} (hf : σ.fetches[i]? = some f)
      (hpc : f.pc = .finalRead) (hfinal : f.rsp.final = true)
      (hno : ¬ (σ.st.cacheCollect = true ∧ f.rsp.canceled = false)) :
      EnvStep R σ (.fetch i dt) (σ.setFetch i { f with pc := .closing })
  | fetchMore {i : ℕ} {dt : ℚ} {f : Fetch Row} (hf : σ.fetches[i]? = some f)
      (hpc : f.pc = .finalRead) (hfinal : f.rsp.final = false) :
      EnvStep R σ (.fetch i dt) (σ.setFetch i { f with pc := .answered })
  | fetchErase {i : ℕ} {dt : ℚ} {f : Fetch Row} (hf : σ.fetches[i]? = some f)
      (hpc : f.pc = .closing) :
      EnvStep R σ (.fetch i dt)
        (({ σ with registered := false }).setFetch i { f with pc := .answered })
  | cancelQuery (hreg : σ.registered = true) :
      EnvStep R σ .cancelQuery { σ with cancelers := σ.cancelers + 1 }
  | cancelGone (hreg : σ.registered = false) :
      EnvStep R σ .cancelQuery { σ with aborting := true }
  | cancelFound {k : ℕ} (hk : σ.cancelers = k + 1) :
      EnvStep R σ .cancelFound { σ.cancelBuffer with cancelers := k, aborting := true }
  | abort {n : Node} {marks : Node → Bool} (haborting : σ.aborting = true) :
      EnvStep R σ (.abort n) { σ with cancelMarks := marks }
  | janitorCollect (hidle : σ.janitor = .idle) (hreg : σ.registered = true) :
      EnvStep R σ .janitorLoop { σ with janitor := .collected }
  | janitorCancel (hcollected : σ.janitor = .collected) :
      EnvStep R σ .janitorLoop { σ.cancelBuffer with janitor := .aborting, aborting := true }
  | janitorErase (haborting : σ.janitor = .aborting) :
      EnvStep R σ .janitorLoop { σ with janitor := .idle, registered := false }

variable {σ σ' : Store Node Row}

theorem work_cases {k : ℕ} (h : R.work σ k = some σ') : R.EnvStep σ (.work k) σ' := by
  unfold work at h
  split at h
  · exact absurd h (by simp)
  -- the cases follow the counter of the worker and what it has left to do
  next w hw =>
  split at h
  · -- ready: a deposit at the portal itself, or a first attempt to push
    next c todo hpc htodo =>
    split at h
    · next hself =>
      split at h
      · next hfound =>
        obtain rfl := Option.some.inj h
        exact .workFound hw hpc htodo hself hfound.1 hfound.2
      · next hgone =>
        obtain rfl := Option.some.inj h
        exact .workGone hw hpc htodo hself hgone
    · next hself =>
      split at h
      · next hpeer =>
        obtain rfl := Option.some.inj h
        exact .workPush hw hpc htodo hself hpeer
      · next hpeer =>
        obtain rfl := Option.some.inj h
        exact .workNoPeer hw hpc htodo hself hpeer
  · -- the two halves of a deposit
    next c todo hpc htodo =>
    obtain rfl := Option.some.inj h
    exact .workDeposit hw hpc htodo
  · next c todo hpc htodo =>
    obtain rfl := Option.some.inj h
    exact .workMark hw hpc htodo
  · -- a push call has come back
    next id retries c todo hpc htodo =>
    split at h
    · next p hp =>
      split at h
      · next ack hhops hack =>
        split at h
        · next hok =>
          obtain rfl := Option.some.inj h
          exact .workAcked hw hpc htodo hp hhops hack hok
        · next hok =>
          split at h
          · next hcanceled =>
            obtain rfl := Option.some.inj h
            exact .workCanceled hw hpc htodo hp hhops hack (Bool.eq_false_iff.mpr hok) hcanceled
          · next hcanceled =>
            obtain rfl := Option.some.inj h
            exact .workBackoff hw hpc htodo hp hhops hack (Bool.eq_false_iff.mpr hok)
              (Bool.eq_false_iff.mpr hcanceled)
      · exact absurd h (by simp)
    · exact absurd h (by simp)
  · -- one more attempt, or none is left
    next retries c todo hpc htodo =>
    obtain rfl := Option.some.inj h
    exact .workRetry hw hpc htodo
  · next c todo hpc htodo =>
    obtain rfl := Option.some.inj h
    exact .workExhausted hw hpc htodo
  · exact absurd h (by simp)

theorem push_cases {i : ℕ} (h : R.push σ i = some σ') : R.EnvStep σ (.push i) σ' := by
  unfold push at h
  split at h
  · exact absurd h (by simp)
  next p hp =>
  split at h
  · -- on its way: the portal looks the request up, a relay its route
    next n hpc =>
    split at h
    · next hn =>
      subst hn
      split at h
      · next hreg =>
        obtain rfl := Option.some.inj h
        exact .pushFound hp hpc hreg
      · next hreg =>
        obtain rfl := Option.some.inj h
        exact .pushUnregistered hp hpc (Bool.eq_false_iff.mpr hreg)
    · next hn =>
      split at h
      · next hroute =>
        obtain rfl := Option.some.inj h
        exact .pushNoRoute hp hpc hn hroute
      · next route hroute =>
        split at h
        · next hpeer =>
          obtain rfl := Option.some.inj h
          exact .pushRelay hp hpc hn hroute hpeer
        · next hpeer =>
          obtain rfl := Option.some.inj h
          exact .pushNoPeer hp hpc hn hroute hpeer
  · -- at the portal with its request: the buffer is canceled, or takes the chunk
    next hpc =>
    split at h
    · next hcanceled =>
      obtain rfl := Option.some.inj h
      exact .pushCanceled hp hpc hcanceled
    · next hcanceled =>
      obtain rfl := Option.some.inj h
      exact .pushLive hp hpc (Bool.eq_false_iff.mpr hcanceled)
  · -- the rows go into the buffer
    next hpc =>
    obtain rfl := Option.some.inj h
    exact .pushDeposit hp hpc
  · -- the mark of a last chunk
    next took hpc =>
    obtain rfl := Option.some.inj h
    exact .pushMark hp hpc
  · -- the answer is ready
    next took hpc =>
    obtain rfl := Option.some.inj h
    exact .pushAck hp hpc
  · -- the answer goes back from node to node
    next ack hpc =>
    split at h
    · exact absurd h (by simp)
    · next n hops hhops =>
      obtain rfl := Option.some.inj h
      exact .pushReturn hp hpc hhops

theorem fetch_cases {i : ℕ} {dt : ℚ} (h : fetch σ i dt = some σ') :
    R.EnvStep σ (.fetch i dt) σ' := by
  unfold fetch at h
  split at h
  · exact absurd h (by simp)
  -- one case for each stage of the fetch
  next f hf =>
  split at h
  · next hpc =>
    obtain rfl := Option.some.inj h
    exact .fetchPop hf hpc rfl rfl
  · next hpc =>
    obtain rfl := Option.some.inj h
    exact .fetchAccumulate hf hpc rfl
  · next hpc =>
    obtain rfl := Option.some.inj h
    exact .fetchServed hf hpc
  · next hpc =>
    obtain rfl := Option.some.inj h
    exact .fetchCounted hf hpc
  · next hpc =>
    obtain rfl := Option.some.inj h
    exact .fetchCanceled hf hpc
  · next hpc =>
    obtain rfl := Option.some.inj h
    exact .fetchFinal hf hpc
  · next hpc =>
    split at h
    · next hfinal =>
      split at h
      · next hput =>
        obtain rfl := Option.some.inj h
        simp only [Bool.and_eq_true, Bool.not_eq_true'] at hput
        exact .fetchPut hf hpc hfinal hput.1 hput.2
      · next hput =>
        obtain rfl := Option.some.inj h
        refine .fetchNoPut hf hpc hfinal ?_
        simpa using hput
    · next hfinal =>
      obtain rfl := Option.some.inj h
      exact .fetchMore hf hpc (Bool.eq_false_iff.mpr hfinal)
  · next hpc =>
    obtain rfl := Option.some.inj h
    exact .fetchErase hf hpc
  · exact absurd h (by simp)

/-- The inversion of `env`. -/
theorem env_cases {e : Event Node} (h : R.env σ e = some σ') : R.EnvStep σ e σ' := by
  cases e with
  | work k => exact work_cases h
  | cut k m =>
    -- a worker cuts its chunk short only where its route is marked as canceled
    simp only [env, cut] at h
    split at h
    · exact absurd h (by simp)
    next w hw =>
    split at h
    · next c todo hpc htodo =>
      split at h
      · next hcut =>
        obtain rfl := Option.some.inj h
        exact .cut hw hpc htodo hcut.1 hcut.2
      · exact absurd h (by simp)
    · exact absurd h (by simp)
  | push i => exact push_cases h
  | pushFail i j =>
    -- any link that the call has passed may fail
    simp only [env, pushFail] at h
    split at h
    · exact absurd h (by simp)
    next p hp =>
    split at h
    · next hj =>
      obtain rfl := Option.some.inj h
      exact .pushFail hp hj
    · exact absurd h (by simp)
  | fetchBegin maxRows =>
    -- the registry holds the request, or has erased it
    simp only [env, fetchBegin, Option.some.injEq] at h
    subst h
    split
    · next hreg => exact .fetchBegin hreg
    · next hreg => exact .fetchGone (Bool.eq_false_iff.mpr hreg)
  | fetch i dt => exact fetch_cases h
  | cancelQuery =>
    -- a cancellation finds the request, or goes straight on to the aborts
    simp only [env, cancelQuery, Option.some.injEq] at h
    subst h
    split
    · next hreg => exact .cancelQuery hreg
    · next hreg => exact .cancelGone (Bool.eq_false_iff.mpr hreg)
  | cancelFound =>
    -- one of the handlers that have found the request cancels its buffer
    simp only [env, cancelFound] at h
    split at h
    · exact absurd h (by simp)
    · next k hk =>
      obtain rfl := Option.some.inj h
      exact .cancelFound hk
  | abort n =>
    -- a node with a route marks it, and any other does nothing
    simp only [env, abort] at h
    split at h
    · next haborting =>
      split at h
      · obtain rfl := Option.some.inj h
        exact .abort haborting
      · obtain rfl := Option.some.inj h
        exact .abort haborting
    · exact absurd h (by simp)
  | janitorLoop =>
    -- the three stages of the janitor
    simp only [env, janitorLoop] at h
    split at h
    · next hidle =>
      split at h
      · next hreg =>
        obtain rfl := Option.some.inj h
        exact .janitorCollect hidle hreg
      · exact absurd h (by simp)
    · next hcollected =>
      obtain rfl := Option.some.inj h
      exact .janitorCancel hcollected
    · next haborting =>
      obtain rfl := Option.some.inj h
      exact .janitorErase haborting

/-! ### One worker, one push call, one fetch -/

section Components

variable {e : Event Node}

/-- What an action does to the worker it moves. -/
structure WorkerMove (R : Request Node Row) (σ : Store Node Row) (e : Event Node) (k : ℕ)
    (w w' : Worker Node Row) : Prop where
  get : σ.workers[k]? = some w
  node : w'.node = w.node
  /-- A worker that goes on is done with its current chunk, and the request is gone
  for it only where its own deposit does not find it. -/
  history : w'.history = w.history ∨ ∃ c outcome, w.todo.head? = some c ∧
    w'.history = w.history ++ [(c, outcome)] ∧
      (outcome = .gone → e = .work k ∧ w.pc = .ready ∧ w.upstream = R.overlay.selfRoute ∧
        ¬ (w.node = R.overlay.portal ∧ σ.registered = true))

/-- What becomes of worker `w` when it moves. -/
inductive WorkerStep (R : Request Node Row) (σ : Store Node Row) (e : Event Node) (k : ℕ)
    (w : Worker Node Row) : Worker Node Row → Prop
  /-- It stays with its chunk. -/
  | stay (pc : WorkerPc) : WorkerStep R σ e k w { w with pc := pc }
  /-- It is done with its chunk. The request is gone for it only where its own deposit does
  not find it, and a chunk is given up only after its last attempt. -/
  | advance {c : SinkCall Row} {todo : List (SinkCall Row)} {outcome : Outcome}
      (htodo : w.todo = c :: todo)
      (hgone : outcome = .gone → e = .work k ∧ w.pc = .ready ∧
        w.upstream = R.overlay.selfRoute ∧ ¬ (w.node = R.overlay.portal ∧ σ.registered = true))
      (hexhausted : outcome = .exhausted → e = .work k ∧ w.pc = .backoff 0) :
      WorkerStep R σ e k w (w.advance c todo outcome)
  /-- Its engine breaks off. -/
  | cut {m : ℕ} {c : SinkCall Row} {todo : List (SinkCall Row)} (htodo : w.todo = c :: todo) :
      WorkerStep R σ e k w { w with todo := [⟨c.rows.take m, true⟩] }

/-- **An action moves one worker at most**, in one of three ways. -/
theorem EnvStep.worker_step (h : R.EnvStep σ e σ') : σ'.workers = σ.workers ∨
    ∃ k w w', σ.workers[k]? = some w ∧ R.WorkerStep σ e k w w' ∧
      σ'.workers = σ.workers.set k w' := by
  have h_stay : ∀ {k : ℕ} {w : Worker Node Row} {pc : WorkerPc}, σ.workers[k]? = some w →
      σ'.workers = σ.workers.set k { w with pc := pc } →
      ∃ k w w', σ.workers[k]? = some w ∧ R.WorkerStep σ e k w w' ∧
        σ'.workers = σ.workers.set k w' :=
    fun hw heq => ⟨_, _, _, hw, .stay _, heq⟩
  -- the worker goes on in a way that neither loses the request nor gives the chunk up
  have h_advance : ∀ {k : ℕ} {w : Worker Node Row} {c : SinkCall Row}
      {todo : List (SinkCall Row)} {outcome : Outcome}, σ.workers[k]? = some w →
      w.todo = c :: todo → σ'.workers = σ.workers.set k (w.advance c todo outcome) →
      outcome ≠ .gone → outcome ≠ .exhausted →
      ∃ k w w', σ.workers[k]? = some w ∧ R.WorkerStep σ e k w w' ∧
        σ'.workers = σ.workers.set k w' :=
    fun hw htodo heq hgone hexhausted => ⟨_, _, _, hw, .advance htodo
      (fun h => absurd h hgone) (fun h => absurd h hexhausted), heq⟩
  cases h with
  | workFound hw _ _ _ _ _ => exact Or.inr (h_stay hw rfl)
  | workGone hw hpc htodo hself hgone =>
    exact Or.inr ⟨_, _, _, hw, .advance htodo (fun _ => ⟨rfl, hpc, hself, hgone⟩) (by simp), rfl⟩
  | workPush hw _ _ _ _ => exact Or.inr (h_stay hw rfl)
  | workNoPeer hw _ htodo _ _ => exact Or.inr (h_advance hw htodo rfl (by simp) (by simp))
  | workDeposit hw _ _ => exact Or.inr (h_stay hw rfl)
  | workMark hw _ htodo => exact Or.inr (h_advance hw htodo rfl (by simp) (by simp))
  | workAcked hw _ htodo _ _ _ _ => exact Or.inr (h_advance hw htodo rfl (by simp) (by simp))
  | workCanceled hw _ htodo _ _ _ _ _ =>
    exact Or.inr (h_advance hw htodo rfl (by simp) (by simp))
  | workBackoff hw _ _ _ _ _ _ _ => exact Or.inr (h_stay hw rfl)
  | workRetry hw _ _ => exact Or.inr (h_stay hw rfl)
  | workExhausted hw hpc htodo =>
    exact Or.inr ⟨_, _, _, hw, .advance htodo (by simp) (fun _ => ⟨rfl, hpc⟩), rfl⟩
  | cut hw _ htodo _ _ => exact Or.inr ⟨_, _, _, hw, .cut htodo, rfl⟩
  | _ => exact Or.inl rfl

/-- The same, for those who need not know what the worker has before it. -/
theorem EnvStep.workers_cases (h : R.EnvStep σ e σ') : σ'.workers = σ.workers ∨
    ∃ k w w', R.WorkerMove σ e k w w' ∧ σ'.workers = σ.workers.set k w' := by
  rcases h.worker_step with heq | ⟨k, w, w', hw, hstep, heq⟩
  · exact Or.inl heq
  refine Or.inr ⟨k, w, w', ?_, heq⟩
  cases hstep with
  | stay pc => exact ⟨hw, rfl, Or.inl rfl⟩
  | @advance c todo outcome htodo hgone _ =>
    exact ⟨hw, rfl, Or.inr ⟨c, outcome, by rw [htodo]; rfl, rfl, hgone⟩⟩
  | cut _ => exact ⟨hw, rfl, Or.inl rfl⟩

/-- A worker sends its current chunk, for the first time or again. -/
structure SendMove (σ : Store Node Row) (e : Event Node) (k : ℕ) (w : Worker Node Row)
    (c : SinkCall Row) : Prop where
  event : e = .work k
  get : σ.workers[k]? = some w
  head : w.todo.head? = some c
  turn : w.pc = .ready ∨ w.pc.retrying = true

/-- Two push calls carry the same chunk. -/
structure SameChunk (p p' : PushCall Node Row) : Prop where
  producer : p'.producer = p.producer
  seq : p'.seq = p.seq
  call : p'.call = p.call

/-- What an action does to the push call it moves. -/
structure PushMove (p p' : PushCall Node Row) : Prop extends SameChunk p p' where
  worker : p'.worker = p.worker
  underway : p'.pc.underway = true → p.pc.underway = true

/-- What goes on of a call whose caller has given up. -/
structure Abandoned (p q : PushCall Node Row) : Prop extends SameChunk p q where
  worker : q.worker = none
  pc : q.pc = p.pc

/-- **An action moves one push call at most**, or starts one for a worker; a push call
whose hops are given up goes on as a new one. -/
theorem EnvStep.pushes_cases (h : R.EnvStep σ e σ') : σ'.pushes = σ.pushes ∨
    (∃ k w c retries, SendMove σ e k w c ∧ σ' = σ.startPush k w c retries) ∨
    ∃ i p p' new, σ.pushes[i]? = some p ∧ PushMove p p' ∧ (∀ q ∈ new, Abandoned p q) ∧
      σ'.pushes = σ.pushes.set i p' ++ new := by
  -- the call moves, and no other is started
  have h_move : ∀ {i : ℕ} {p p' : PushCall Node Row}, σ.pushes[i]? = some p →
      σ'.pushes = σ.pushes.set i p' → PushMove p p' → ∃ i p p' new, σ.pushes[i]? = some p ∧
        PushMove p p' ∧ (∀ q ∈ new, Abandoned p q) ∧ σ'.pushes = σ.pushes.set i p' ++ new :=
    fun hp heq hmove => ⟨_, _, _, [], hp, hmove, fun _ hq => absurd hq List.not_mem_nil,
      heq.trans (List.append_nil _).symm⟩
  -- the call goes on and may still deposit its chunk
  have h_go : ∀ {p : PushCall Node Row} {hops : List Node} {pc : PushPc Node},
      p.pc.underway = true → PushMove p { p with hops := hops, pc := pc } :=
    fun hpc => ⟨⟨rfl, rfl, rfl⟩, rfl, fun _ => hpc⟩
  -- the call has deposited its chunk, or never will
  have h_end : ∀ {p : PushCall Node Row} {hops : List Node} {pc : PushPc Node},
      pc.underway = false → PushMove p { p with hops := hops, pc := pc } :=
    fun hpc => ⟨⟨rfl, rfl, rfl⟩, rfl, fun h => absurd h (by simp [hpc])⟩
  cases h with
  | workPush hw hpc htodo _ _ =>
    exact Or.inr (Or.inl ⟨_, _, _, _, ⟨rfl, hw, by rw [htodo]; rfl, Or.inl hpc⟩, rfl⟩)
  | workRetry hw hpc htodo =>
    exact Or.inr (Or.inl
      ⟨_, _, _, _, ⟨rfl, hw, by rw [htodo]; rfl, Or.inr (by rw [hpc]; rfl)⟩, rfl⟩)
  | pushFound hp hpc _ => exact Or.inr (Or.inr (h_move hp rfl (h_go (by rw [hpc]; rfl))))
  | pushUnregistered hp _ _ => exact Or.inr (Or.inr (h_move hp rfl (h_end rfl)))
  | pushNoRoute hp _ _ _ => exact Or.inr (Or.inr (h_move hp rfl (h_end rfl)))
  | pushRelay hp hpc _ _ _ => exact Or.inr (Or.inr (h_move hp rfl (h_go (by rw [hpc]; rfl))))
  | pushNoPeer hp _ _ _ _ => exact Or.inr (Or.inr (h_move hp rfl (h_end rfl)))
  | pushCanceled hp _ _ => exact Or.inr (Or.inr (h_move hp rfl (h_end rfl)))
  | pushLive hp hpc _ => exact Or.inr (Or.inr (h_move hp rfl (h_go (by rw [hpc]; rfl))))
  | pushDeposit hp _ => exact Or.inr (Or.inr (h_move hp rfl (h_end rfl)))
  | pushMark hp _ => exact Or.inr (Or.inr (h_move hp rfl (h_end rfl)))
  | pushAck hp _ => exact Or.inr (Or.inr (h_move hp rfl (h_end rfl)))
  | pushReturn hp _ _ => exact Or.inr (Or.inr (h_move hp rfl (h_end rfl)))
  | @pushFail i j p hp _ =>
    exact Or.inr (Or.inr ⟨i, p, { p with hops := p.hops.drop j, pc := .acked .failed },
      [{ p with worker := none, hops := p.hops.take j }], hp, h_end rfl,
      List.forall_mem_singleton.mpr ⟨⟨rfl, rfl, rfl⟩, rfl, rfl⟩, rfl⟩)
  | _ => exact Or.inl rfl

/-- The portal's own worker deposits its current chunk. -/
structure WorkDeposit (σ : Store Node Row) (e : Event Node) (k : ℕ) (w : Worker Node Row)
    (c : SinkCall Row) : Prop where
  event : e = .work k
  get : σ.workers[k]? = some w
  pc : w.pc = .found
  head : w.todo.head? = some c

/-- A push call deposits its chunk. -/
structure PushDeposit (σ : Store Node Row) (e : Event Node) (i : ℕ) (p : PushCall Node Row) :
    Prop where
  event : e = .push i
  get : σ.pushes[i]? = some p
  pc : p.pc = .live

/-- **An action deposits one chunk at most.** -/
theorem EnvStep.log_cases (h : R.EnvStep σ e σ') : σ'.log = σ.log ∨
    (∃ k w c, WorkDeposit σ e k w c ∧
      σ' = (σ.deposit w.node (w.history.length + 1) c).setWorker k { w with pc := .deposited }) ∨
    ∃ i p, PushDeposit σ e i p ∧ σ' = (σ.deposit p.producer p.seq p.call).setPush i
      { p with pc := .pushed (σ.st.buffer.pushRows p.call.rows).2 } := by
  cases h with
  | workDeposit hw hpc htodo =>
    exact Or.inr (Or.inl ⟨_, _, _, ⟨rfl, hw, hpc, by rw [htodo]; rfl⟩, rfl⟩)
  | pushDeposit hp hpc => exact Or.inr (Or.inr ⟨_, _, ⟨rfl, hp, hpc⟩, rfl⟩)
  | _ => exact Or.inl rfl

/-- A fetch that begins, or finds the request gone and is answered at once. -/
structure FetchStart (σ : Store Node Row) (f : Fetch Row) : Prop where
  rows : f.rsp.rows = []
  final : f.rsp.final = true → f.rsp.canceled = true ∧ σ.registered = false
  closing : f.pc ≠ .closing

/-- What an action does to the fetch it moves. -/
structure FetchMove (σ : Store Node Row) (e : Event Node) (i : ℕ) (f f' : Fetch Row) : Prop where
  event : ∃ dt, e = .fetch i dt
  get : σ.fetches[i]? = some f
  busy : f.pc ≠ .answered
  /-- Rows come in with the pop. -/
  rows : f.pc = .found ∨ f'.rsp.rows = f.rsp.rows
  /-- The end of the result is what the buffer says. -/
  final : f'.rsp.final = true → f.rsp.final = true ∨ σ.st.buffer.isFinal = true
  closing : f'.pc = .closing → f'.rsp.final = true
  /-- A response goes out when the request has been erased, or is not final. -/
  answered : f'.pc = .answered → f.pc = .closing ∨ f'.rsp.final = false

/-- **An action moves one fetch at most**, or starts one. -/
theorem EnvStep.fetches_cases (h : R.EnvStep σ e σ') : σ'.fetches = σ.fetches ∨
    (∃ f, FetchStart σ f ∧ σ'.fetches = σ.fetches ++ [f]) ∨
    ∃ i f f', FetchMove σ e i f f' ∧ σ'.fetches = σ.fetches.set i f' := by
  have h_move : ∀ {i : ℕ} {f f' : Fetch Row}, σ'.fetches = σ.fetches.set i f' →
      FetchMove σ e i f f' → ∃ i f f', FetchMove σ e i f f' ∧ σ'.fetches = σ.fetches.set i f' :=
    fun heq hmove => ⟨_, _, _, hmove, heq⟩
  -- the fetch goes on to the next read
  have h_read : ∀ {i : ℕ} {f f' : Fetch Row}, σ.fetches[i]? = some f →
      σ'.fetches = σ.fetches.set i f' → (∃ dt, e = .fetch i dt) → f.pc ≠ .answered →
      f'.rsp.rows = f.rsp.rows → f'.rsp.final = f.rsp.final → f'.pc ≠ .closing →
      f'.pc ≠ .answered → ∃ i f f', FetchMove σ e i f f' ∧ σ'.fetches = σ.fetches.set i f' :=
    fun hf heq hevent hbusy hrows hfinal hclosing hanswered => h_move heq
      ⟨hevent, hf, hbusy, Or.inr hrows, fun h => Or.inl (hfinal ▸ h),
        fun h => absurd h hclosing, fun h => absurd h hanswered⟩
  cases h with
  | fetchBegin _ => exact Or.inr (Or.inl ⟨_, ⟨rfl, by simp, by simp⟩, rfl⟩)
  | fetchGone hreg => exact Or.inr (Or.inl ⟨_, ⟨rfl, fun _ => ⟨rfl, hreg⟩, by simp⟩, rfl⟩)
  | fetchPop hf hpc _ _ =>
    exact Or.inr (Or.inr (h_move rfl
      ⟨⟨_, rfl⟩, hf, by simp [hpc], Or.inl hpc, Or.inl, by simp, by simp⟩))
  | fetchAccumulate hf hpc hrsp =>
    subst hrsp
    exact Or.inr (Or.inr (h_read hf rfl ⟨_, rfl⟩ (by simp [hpc]) rfl rfl (by simp) (by simp)))
  | fetchServed hf hpc =>
    exact Or.inr (Or.inr (h_read hf rfl ⟨_, rfl⟩ (by simp [hpc]) rfl rfl (by simp) (by simp)))
  | fetchCounted hf hpc =>
    exact Or.inr (Or.inr (h_read hf rfl ⟨_, rfl⟩ (by simp [hpc]) rfl rfl (by simp) (by simp)))
  | fetchCanceled hf hpc =>
    exact Or.inr (Or.inr (h_read hf rfl ⟨_, rfl⟩ (by simp [hpc]) rfl rfl (by simp) (by simp)))
  | fetchFinal hf hpc =>
    exact Or.inr (Or.inr (h_move rfl
      ⟨⟨_, rfl⟩, hf, by simp [hpc], Or.inr rfl, Or.inr, by simp, by simp⟩))
  | fetchPut hf hpc hfinal _ _ =>
    exact Or.inr (Or.inr (h_move rfl
      ⟨⟨_, rfl⟩, hf, by simp [hpc], Or.inr rfl, Or.inl, fun _ => hfinal, by simp⟩))
  | fetchNoPut hf hpc hfinal _ =>
    exact Or.inr (Or.inr (h_move rfl
      ⟨⟨_, rfl⟩, hf, by simp [hpc], Or.inr rfl, Or.inl, fun _ => hfinal, by simp⟩))
  | fetchMore hf hpc hmore =>
    exact Or.inr (Or.inr (h_move rfl
      ⟨⟨_, rfl⟩, hf, by simp [hpc], Or.inr rfl, Or.inl, by simp, fun _ => Or.inr hmore⟩))
  | fetchErase hf hpc =>
    exact Or.inr (Or.inr (h_move rfl
      ⟨⟨_, rfl⟩, hf, by simp [hpc], Or.inr rfl, Or.inl, by simp, fun _ => Or.inl hpc⟩))
  | _ => exact Or.inl rfl

/-- What holds of all fetches holds of them after an action, if it holds of the fetch that
starts and of the one that moves. -/
theorem EnvStep.forall_fetches {P : Fetch Row → Prop} (h : R.EnvStep σ e σ')
    (hold : ∀ f ∈ σ.fetches, P f) (hstart : ∀ f, FetchStart σ f → P f)
    (hmove : ∀ i f f', FetchMove σ e i f f' → σ'.fetches = σ.fetches.set i f' → P f') :
    ∀ f ∈ σ'.fetches, P f := by
  rcases h.fetches_cases with heq | ⟨f, h_start, heq⟩ | ⟨i, f, f', h_move, heq⟩
  · rw [heq]
    exact hold
  · rw [heq]
    exact forall_mem_concat hold (hstart f h_start)
  · have h_f := hmove i f f' h_move heq
    rw [heq]
    exact forall_mem_set hold h_f

/-- The fetch that closes the request has a final response. -/
theorem EnvStep.closing_final (h : R.EnvStep σ e σ')
    (hold : ∀ f ∈ σ.fetches, f.pc = .closing → f.rsp.final = true) :
    ∀ f ∈ σ'.fetches, f.pc = .closing → f.rsp.final = true :=
  h.forall_fetches hold (fun _ hstart hpc => absurd hpc hstart.closing)
    fun _ _ _ hmove _ => hmove.closing

/-- What holds once the buffer is final, or the request erased, holds once a response is
final. -/
theorem EnvStep.forall_final {Q : Prop} (h : R.EnvStep σ e σ')
    (hold : ∀ f ∈ σ.fetches, f.rsp.final = true → Q) (hgone : σ.registered = false → Q)
    (hend : σ.st.buffer.isFinal = true → Q) : ∀ f ∈ σ'.fetches, f.rsp.final = true → Q := by
  refine h.forall_fetches hold (fun f hstart hf => hgone (hstart.final hf).2) ?_
  intro i f f' hmove _ hf
  rcases hmove.final hf with h_was | h_is
  · exact hold f (List.mem_of_getElem? hmove.get) h_was
  · exact hend h_is

/-- What holds once the closing fetch has answered, or the request is erased, holds once a
final response is out. -/
theorem EnvStep.forall_answered {Q : Prop} (h : R.EnvStep σ e σ')
    (hold : ∀ f ∈ σ.fetches, f.pc = .answered → f.rsp.final = true → Q)
    (hgone : σ.registered = false → Q)
    (hclosed : ∀ (i : ℕ) (dt : ℚ) (f f' : Fetch Row), e = .fetch i dt →
      σ.fetches[i]? = some f → f.pc = .closing → f'.pc = .answered →
      f'.rsp.rows = f.rsp.rows → σ'.fetches = σ.fetches.set i f' → Q) :
    ∀ f ∈ σ'.fetches, f.pc = .answered → f.rsp.final = true → Q := by
  refine h.forall_fetches hold (fun f hstart _ hf => hgone (hstart.final hf).2) ?_
  intro i f f' hmove heq hpc hf
  obtain ⟨dt, he⟩ := hmove.event
  rcases hmove.answered hpc with h_closed | h_more
  · have h_rows := hmove.rows.resolve_left (by simp [h_closed])
    exact hclosed i dt f f' he hmove.get h_closed hpc h_rows heq
  · exact absurd hf (by simp [h_more])

end Components

end Request
end Mini2
