import Mini2.Node.Request
import Mini2.Python.BoundedBuffer
import Mini2.Python.RequestState

/-!
# Python node servers

`node_server.py` implements the two services once more. `executeLocal` is its worker: unlike the
C++ one, which goes on with the next chunk whatever has become of a chunk, it ends where the
request is gone or canceled, or where there is no stub for the upstream node.

`mixed` is a cluster with a C++ portal in which some of the other nodes are Python servers, and
`server` one of Python servers only. The messages, the routes, the workers and the calls under
way are those of `Request`; a Python portal has no cache and no janitor.
-/

namespace Mini2

open Framework

variable {Node Row : Type*}

/-- The worker returns from a chunk, and drops the scan. -/
def Worker.stop (w : Worker Node Row) (c : SinkCall Row) (outcome : Outcome) : Worker Node Row :=
  { w with todo := [], history := w.history ++ [(c, outcome)], pc := .ready }

namespace Python

/-! ### _execute_local -/

/-- What an action of a worker does. -/
inductive Effect (Node Row : Type*)
  /-- Only the worker itself moves. -/
  | move (w : Worker Node Row)
  /-- It sends its chunk upstream. -/
  | push (c : SinkCall Row) (retries : ℕ)
  /-- It pushes its chunk to the buffer of its own node. -/
  | deposit (c : SinkCall Row)
  /-- It marks its own node, if the chunk is the last, and goes on. -/
  | mark (c : SinkCall Row) (w : Worker Node Row)

section Servers

variable [DecidableEq Node]

/-- One action of a worker that runs `_execute_local`. -/
def executeLocal (O : Overlay Node) (registered : Bool) (pushes : List (PushCall Node Row))
    (w : Worker Node Row) : Option (Effect Node Row) :=
  match w.pc, w.todo with
  | .ready, c :: _ =>
    -- `upstream_peer == _SELF_ROUTE`; only the portal has requests
    if w.upstream = O.selfRoute then
      if w.node = O.portal ∧ registered then some (.move { w with pc := .found })
      else some (.move (w.stop c .gone))
    -- the first of five attempts
    else if w.upstream ∈ O.nbrs w.node then some (.push c 4)
    -- `if not stub: return`
    else some (.move (w.stop c .noPeer))
  | .found, c :: _ => some (.deposit c)
  | .deposited, c :: todo => some (.mark c (w.advance c todo .deposited))
  | .pushing id retries, c :: todo =>
    match pushes[id]? with
    | some p =>
      match p.hops, p.pc with
      | [], .acked ack =>
        if ack.ok then some (.move (w.advance c todo .acked))
        -- `return` from the loop over the scan
        else if ack.canceled then some (.move (w.stop c .canceled))
        else some (.move { w with pc := .backoff retries })
      | _, _ => none
    | none => none
  | .backoff (retries + 1), c :: _ => some (.push c retries)
  | .backoff 0, c :: todo => some (.move (w.advance c todo .exhausted))
  | _, [] => none

/-! ### Python servers around a C++ portal -/

/-- Carry out an action of worker `k`. -/
def Effect.apply (σ : Mini2.Store Node Row) (k : ℕ) (w : Worker Node Row) :
    Effect Node Row → Mini2.Store Node Row
  | .move w' => σ.setWorker k w'
  | .push c retries => σ.startPush k w c retries
  | .deposit c =>
    (σ.deposit w.node (w.history.length + 1) c).setWorker k { w with pc := .deposited }
  | .mark c w' => (σ.markDoneIf c w.node).setWorker k w'

/-- One action of worker `k`, which is one of a Python server where `python` says so. -/
def work (R : Request Node Row) (python : Node → Bool) (σ : Mini2.Store Node Row) (k : ℕ) :
    Option (Mini2.Store Node Row) :=
  match σ.workers[k]? with
  | none => none
  | some w =>
    if python w.node then
      (executeLocal R.overlay σ.registered σ.pushes w).map (Effect.apply σ k w)
    else R.work σ k

/-- A request on a cluster with a C++ portal. -/
def mixed (R : Request Node Row) (python : Node → Bool) :
    Cascade Node (Task Node) (ForwardQueryAck Node) (Mini2.Store Node Row)
      (Request.Event Node) :=
  { R.cascade with
    env := fun σ e =>
      match e with
      | .work k => work R python σ k
      | e => R.env σ e }

/-! ### Python servers only -/

/-- `_RequestState` -/
structure PortalRequest (Node Row : Type*) extends RequestState where
  buffer : BoundedBuffer Node Row

/-- All nodes' state for one request. -/
structure Servers (Node Row : Type*) where
  /-- `_routes` of each node. -/
  routes : Node → Option (Route Node)
  /-- The route of the node has been marked as canceled. -/
  cancelMarks : Node → Bool
  /-- Aborts are under way. -/
  aborting : Bool
  st : PortalRequest Node Row
  /-- The portal's `_reqs` holds `st`. -/
  registered : Bool
  workers : List (Worker Node Row)
  pushes : List (PushCall Node Row)
  fetches : List (Fetch Row)
  /-- The `CancelQuery` handlers that hold `st` and are about to cancel it. -/
  cancelers : ℕ
  log : List (Deposit Node Row)

namespace Servers

variable (σ : Servers Node Row)

def setPush (i : ℕ) (p : PushCall Node Row) : Servers Node Row :=
  { σ with pushes := σ.pushes.set i p }

def setFetch (i : ℕ) (f : Fetch Row) : Servers Node Row :=
  { σ with fetches := σ.fetches.set i f }

/-- `st.buffer.push(rows)` for a chunk. -/
def deposit (producer : Node) (seq : ℕ) (c : SinkCall Row) : Servers Node Row :=
  { σ with
    st := { σ.st with buffer := (σ.st.buffer.push c.rows).1 }
    log := σ.log ++ [⟨producer, seq, c,
      if σ.st.buffer.canceled then [] else c.rows.take (σ.st.buffer.push c.rows).2⟩] }

/-- `if done: st.buffer.mark_done(producer)` -/
def markDoneIf (c : SinkCall Row) (producer : Node) : Servers Node Row :=
  { σ with
    st := if c.done then { σ.st with buffer := σ.st.buffer.markDone producer } else σ.st }

/-- `st.buffer.cancel()` -/
def cancelBuffer : Servers Node Row :=
  { σ with st := { σ.st with buffer := σ.st.buffer.cancel } }

end Servers

variable (R : Request Node Row)

/-- One action of worker `k`. -/
def serverWork (σ : Servers Node Row) (k : ℕ) : Option (Servers Node Row) :=
  match σ.workers[k]? with
  | none => none
  | some w =>
    (executeLocal R.overlay σ.registered σ.pushes w).map fun effect =>
      match effect with
      | .move w' => { σ with workers := σ.workers.set k w' }
      | .push c retries =>
        { σ with
          workers := σ.workers.set k { w with pc := .pushing σ.pushes.length retries }
          pushes := σ.pushes ++ [⟨w.node, w.history.length + 1, c, some k, [], .at w.upstream⟩] }
      | .deposit c =>
        { σ.deposit w.node (w.history.length + 1) c with
          workers := σ.workers.set k { w with pc := .deposited } }
      | .mark c w' => { σ.markDoneIf c w.node with workers := σ.workers.set k w' }

/-- The poll of the scan of worker `k`, with `m` rows of the next chunk gathered. -/
def scanCanceled (σ : Servers Node Row) (k m : ℕ) : Option (Servers Node Row) :=
  match σ.workers[k]? with
  | none => none
  | some w =>
    match w.pc, w.todo with
    | .ready, c :: _ =>
      -- the loop is left, and what has been gathered is yielded as the last chunk
      if σ.cancelMarks w.node ∧ m < c.rows.length then
        some { σ with workers := σ.workers.set k { w with todo := [⟨c.rows.take m, true⟩] } }
      else none
    | _, _ => none

/-- One action of a `PushChunk` call. -/
def pushChunk (σ : Servers Node Row) (i : ℕ) : Option (Servers Node Row) :=
  match σ.pushes[i]? with
  | none => none
  | some p =>
    match p.pc with
    | .at n =>
      if n = R.overlay.portal then
        if σ.registered then some (σ.setPush i { p with pc := .found })
        else some (σ.setPush i { p with pc := .acked .gone })
      else
        match σ.routes n with
        | none => some (σ.setPush i { p with pc := .acked .gone })
        | some route =>
          if route.upstreamPeer ∈ R.overlay.nbrs n then
            some (σ.setPush i { p with hops := n :: p.hops, pc := .at route.upstreamPeer })
          -- `PushChunkAck(ok=False)`
          else some (σ.setPush i { p with pc := .acked .failed })
    | .found =>
      if σ.st.buffer.canceled then some (σ.setPush i { p with pc := .acked .gone })
      else some (σ.setPush i { p with pc := .live })
    | .live =>
      some ((σ.deposit p.producer p.seq p.call).setPush i
        { p with pc := .pushed (σ.st.buffer.push p.call.rows).2 })
    | .pushed took =>
      some ((σ.markDoneIf p.call p.producer).setPush i { p with pc := .marked took })
    | .marked took =>
      some (σ.setPush i { p with pc := .acked ⟨true, false, UInt32.ofNat σ.st.buffer.buffered,
        if took < p.call.rows.length then R.params.pushBackoffMs else 0⟩ })
    | .acked ack =>
      match p.hops with
      | [] => none
      | _ :: hops => some (σ.setPush i { p with hops := hops, pc := .acked ack.relay })

/-- `except grpc.RpcError`, between hop `j` of a `PushChunk` call and its caller. -/
def pushRaises (σ : Servers Node Row) (i j : ℕ) : Option (Servers Node Row) :=
  match σ.pushes[i]? with
  | none => none
  | some p =>
    if j ≤ p.hops.length then
      some { σ with
        pushes := σ.pushes.set i { p with hops := p.hops.drop j, pc := .acked .failed } ++
          [{ p with worker := none, hops := p.hops.take j }] }
    else none

/-- A client calls `FetchChunk`. -/
def fetchChunk (σ : Servers Node Row) (maxRows : UInt32) : Servers Node Row :=
  if σ.registered then
    { σ with fetches := σ.fetches ++ [⟨maxRows, ⟨[], 0, 0, 0, false, false⟩, .found⟩] }
  else
    { σ with fetches := σ.fetches ++ [⟨maxRows, ⟨[], 0, 0, 0, true, true⟩, .answered⟩] }

/-- `want` -/
def PortalRequest.want (st : PortalRequest Node Row) (maxRows : UInt32) : ℤ :=
  min (if maxRows = 0 then st.suggestedChunk else (maxRows.toNat : ℤ)) st.maxChunk

/-- One action of fetch `i`; the first of them `dt` milliseconds after the request's last
fetch. -/
def fetchStep (σ : Servers Node Row) (i : ℕ) (dt : ℚ) : Option (Servers Node Row) :=
  match σ.fetches[i]? with
  | none => none
  | some f =>
    match f.pc with
    | .found =>
      let st := { σ.st with toRequestState := σ.st.recordFetch dt }
      let popped := st.buffer.popUpTo (st.want f.maxRows).toNat
      some (({ σ with st := { st with buffer := popped.1 } } : Servers Node Row).setFetch i
        { f with rsp := { f.rsp with rows := popped.2 }, pc := .popped })
    | .popped =>
      -- nothing is accumulated
      some (σ.setFetch i { f with
        rsp := { f.rsp with suggestedNextMax := UInt32.ofNat σ.st.suggestedChunk.toNat }
        pc := .accumulated })
    | .accumulated =>
      some (σ.setFetch i
        { f with rsp := { f.rsp with rowsSoFar := σ.st.buffer.rowsServed }, pc := .served })
    | .served =>
      some (σ.setFetch i { f with
        rsp := { f.rsp with pendingProducers := σ.st.buffer.pendingProducers }, pc := .counted })
    | .counted =>
      some (σ.setFetch i
        { f with rsp := { f.rsp with canceled := σ.st.buffer.canceled }, pc := .canceledRead })
    | .canceledRead =>
      some (σ.setFetch i
        { f with rsp := { f.rsp with final := σ.st.buffer.isFinal }, pc := .finalRead })
    | .finalRead =>
      if f.rsp.final then some (σ.setFetch i { f with pc := .closing })
      else some (σ.setFetch i { f with pc := .answered })
    | .closing =>
      some (({ σ with registered := false } : Servers Node Row).setFetch i
        { f with pc := .answered })
    | .answered => none

/-- `CancelQuery` looks the request up. -/
def cancelQuery (σ : Servers Node Row) : Servers Node Row :=
  if σ.registered then { σ with cancelers := σ.cancelers + 1 } else { σ with aborting := true }

/-- `CancelQuery` cancels the buffer it found and goes on to the aborts. -/
def cancelFound (σ : Servers Node Row) : Option (Servers Node Row) :=
  match σ.cancelers with
  | 0 => none
  | k + 1 => some { σ.cancelBuffer with cancelers := k, aborting := true }

/-- An abort reaches a node. -/
def abort (σ : Servers Node Row) (n : Node) : Option (Servers Node Row) :=
  if σ.aborting then
    match σ.routes n with
    | some _ => some { σ with cancelMarks := Function.update σ.cancelMarks n true }
    | none => some σ
  else none

def serverEnv (σ : Servers Node Row) : Request.Event Node → Option (Servers Node Row)
  | .work k => serverWork R σ k
  | .cut k m => scanCanceled σ k m
  | .push i => pushChunk R σ i
  | .pushFail i j => pushRaises σ i j
  | .fetchBegin maxRows => some (fetchChunk σ maxRows)
  | .fetch i dt => fetchStep σ i dt
  | .cancelQuery => some (cancelQuery σ)
  | .cancelFound => cancelFound σ
  | .abort n => abort σ n
  -- there is no janitor
  | .janitorLoop => none

/-- The calls that `SubmitQuery` and `ForwardQuery` make. -/
def forwards (n : Node) : Task Node → List (Node × Task Node)
  | .submitQuery => (R.overlay.nbrs n).map fun nb => (nb, .forwardQuery ⟨n, [n], 16⟩)
  | .forwardQuery req =>
    let visited := req.visited ++ [n]
    ((R.overlay.nbrs n).filter fun nb => ¬ (nb = req.fromNode ∨ nb ∈ visited)).map fun nb =>
      -- `max(0, ttl - 1)` is the subtraction of natural numbers
      (nb, .forwardQuery ⟨n, visited, req.ttl - 1⟩)

/-- A request on a cluster of Python servers. -/
def server : Cascade Node (Task Node) (ForwardQueryAck Node) (Servers Node Row)
    (Request.Event Node) where
  check σ n m :=
    match m with
    | .submitQuery => none
    | .forwardQuery req =>
      if n ∈ req.visited then some ⟨false, n, "loop"⟩
      else if (σ.routes n).isSome then some ⟨false, n, "dup"⟩
      else none
  commit σ n m :=
    match m with
    | .submitQuery => σ
    | .forwardQuery req =>
      { σ with
        routes := Function.update σ.routes n (some ⟨req.fromNode, req.visited ++ [n]⟩) }
  outgoing := forwards R
  settle σ _ m nb ack :=
    match m with
    | .submitQuery =>
      if ack.any ForwardQueryAck.accepted then σ
      else { σ with st := { σ.st with buffer := σ.st.buffer.markDone nb } }
    | .forwardQuery _ => σ
  finish σ n m :=
    { σ with workers := σ.workers ++ [⟨n, R.upstream m, (R.scan n).calls, [], .ready⟩] }
  reply n _ := ⟨true, n, ""⟩
  env := serverEnv R

/-- `SubmitQuery` is about to fan out. -/
def serverStart : Cascade.State Node (Task Node) (ForwardQueryAck Node) (Servers Node Row) where
  calls := [⟨R.overlay.portal, .submitQuery, .calling (forwards R R.overlay.portal .submitQuery)⟩]
  store := {
    routes := Function.update (fun _ => none) R.overlay.portal
      (some ⟨R.overlay.selfRoute, [R.overlay.portal]⟩)
    cancelMarks := fun _ => false
    aborting := false
    st := {
      toRequestState := .create R.params.initialChunkRows.toNat R.params.minChunkRows.toNat
        R.params.maxChunkRows.toNat
      buffer := R.overlay.nodes.foldl BoundedBuffer.markStarted
        (.create R.params.chunkBufferCap R.overlay.nodes.length) }
    registered := true
    workers := []
    pushes := []
    fetches := []
    cancelers := 0
    log := [] }

/-- The runs of a request on Python servers. -/
def serverMachine : Machine
    (Cascade.State Node (Task Node) (ForwardQueryAck Node) (Servers Node Row))
    (Request.Label Node) :=
  (server R).machine (serverStart R)

/-- The runs of a request around a C++ portal. -/
def mixedMachine (python : Node → Bool) :
    Machine (Request.State Node Row) (Request.Label Node) :=
  (mixed R python).machine R.start

end Servers
end Python
end Mini2
