import Mathlib
import Mini2.Framework.Cascade
import Mini2.Overlay.Topology
import Mini2.Portal.RequestRegistry
import Mini2.Query.Scan

/-!
# One request on an overlay

Everything the node servers do for one request id, from the moment at which
`SubmitQuery` has created its state and its route. The handlers of `SubmitQuery`
and `ForwardQuery` are a cascade of blocking calls; everything else happens
around it, as the cascade's environment:

* the workers that run `executeLocal`, one for each handler that ran to its end;
* the `PushChunk` calls, with the chain of relays that wait for each;
* the client's `FetchChunk` calls;
* `CancelQuery`, the aborts it causes, and the janitor.

Every access to a shared object is one atomic action. RPC failures are actions
as well (`expire` of the cascade, `pushFail`): the caller goes on and the callee
may still be running.

`Store.log` and `Worker.history` record what has happened; no action reads them.
-/

namespace Mini2

open Framework

variable {Node Row : Type*}

/-! ### Messages -/

/-- `ForwardQueryRequest`, for the one request of the model. -/
structure ForwardQueryRequest (Node : Type*) where
  fromNode : Node
  visited : List Node
  ttl : ℕ
  deriving DecidableEq

structure ForwardQueryAck (Node : Type*) where
  accepted : Bool
  nodeId : Node
  error : String
  deriving DecidableEq

/-- What a handler of the cascade works on. -/
inductive Task (Node : Type*)
  | submitQuery
  | forwardQuery (req : ForwardQueryRequest Node)
  deriving DecidableEq

structure PushChunkAck where
  ok : Bool
  canceled : Bool
  bufferedRows : UInt32
  suggestedDelayMs : UInt32
  deriving DecidableEq

/-- The answer of a handler that finds the request gone or canceled. -/
def PushChunkAck.gone : PushChunkAck := ⟨false, true, 0, 0⟩

/-- An answer without fields set; also what a caller holds after a failed RPC. -/
def PushChunkAck.failed : PushChunkAck := ⟨false, false, 0, 0⟩

/-- The answer of a relay whose own call went through with the answer `fa`. -/
def PushChunkAck.relay (fa : PushChunkAck) : PushChunkAck :=
  ⟨true && fa.ok, fa.canceled, fa.bufferedRows, fa.suggestedDelayMs⟩

structure ChunkResponse (Row : Type*) where
  rows : List Row
  suggestedNextMax : UInt32
  rowsSoFar : ℕ
  pendingProducers : ℕ
  canceled : Bool
  final : Bool
  deriving DecidableEq

/-! ### Shared state -/

/-- `RouteState`; its flag `canceled` is part of `Store.cancelMarks`. -/
structure Route (Node : Type*) where
  upstreamPeer : Node
  visited : List Node
  deriving DecidableEq

/-- How a sink call ended. -/
inductive Outcome
  /-- `ack.ok()` -/
  | acked
  /-- The portal's own deposit. -/
  | deposited
  /-- The portal's own deposit did not find the request. -/
  | gone
  /-- No peer client for the upstream node. -/
  | noPeer
  /-- `ack.canceled()` -/
  | canceled
  /-- No retry left. -/
  | exhausted
  deriving DecidableEq

/-- Where a worker is within a sink call. -/
inductive WorkerPc
  /-- The engine is about to call the sink. -/
  | ready
  /-- The portal's own deposit has found the request. -/
  | found
  /-- The rows are deposited. -/
  | deposited
  /-- Waiting for push call `id`, with `retries` attempts left after it. -/
  | pushing (id retries : ℕ)
  /-- Sleeping before the next attempt. -/
  | backoff (retries : ℕ)
  deriving DecidableEq

/-- A thread in `executeLocal`. -/
structure Worker (Node Row : Type*) where
  node : Node
  /-- `upstream_peer`, taken from the forward that started the worker. -/
  upstream : Node
  /-- The sink calls from the current one on. -/
  todo : List (SinkCall Row)
  /-- The sink calls made. -/
  history : List (SinkCall Row × Outcome)
  pc : WorkerPc

/-- Where a `PushChunk` call is. -/
inductive PushPc (Node : Type*)
  /-- On its way to a node that has not looked anything up yet. -/
  | at (n : Node)
  /-- The portal has found the request. -/
  | found
  /-- The portal has seen that the buffer is not canceled. -/
  | live
  /-- The portal has pushed the rows, and `took` of them were accepted. -/
  | pushed (took : ℕ)
  /-- The portal has marked the producer, if the chunk is its last. -/
  | marked (took : ℕ)
  /-- The innermost handler has answered. -/
  | acked (ack : PushChunkAck)
  deriving DecidableEq

/-- One `PushChunk` call, through all of its relays. -/
structure PushCall (Node Row : Type*) where
  producer : Node
  seq : ℕ
  call : SinkCall Row
  /-- The worker that waits for the answer; none once it has given up. -/
  worker : Option ℕ
  /-- The relays that wait for the answer, the one closest to the portal first. -/
  hops : List Node
  pc : PushPc Node

/-- Where a `FetchChunk` call is. -/
inductive FetchPc
  | found
  | popped
  | accumulated
  | served
  | counted
  | canceledRead
  | finalRead
  /-- The final response is complete and the request about to be erased. -/
  | closing
  | answered
  deriving DecidableEq

/-- One `FetchChunk` call and the response it fills in. -/
structure Fetch (Row : Type*) where
  maxRows : UInt32
  rsp : ChunkResponse Row
  pc : FetchPc

/-- What the janitor is doing for the request. -/
inductive JanitorPc
  | idle
  /-- It has collected the request as expired. -/
  | collected
  /-- It has canceled the buffer and is sending aborts. -/
  | aborting
  deriving DecidableEq

/-- One deposit into the buffer, and the rows the buffer accepted. -/
structure Deposit (Node Row : Type*) where
  producer : Node
  seq : ℕ
  call : SinkCall Row
  accepted : List Row

/-- All nodes' state for one request. -/
structure Store (Node Row : Type*) where
  /-- `routes_` of each node. -/
  routes : Node → Option (Route Node)
  /-- Some route entry of the node has been marked as canceled. -/
  cancelMarks : Node → Bool
  /-- Aborts are under way. -/
  aborting : Bool
  st : RequestState Node Row
  /-- The portal's registry holds `st`. -/
  registered : Bool
  workers : List (Worker Node Row)
  pushes : List (PushCall Node Row)
  fetches : List (Fetch Row)
  /-- The `CancelQuery` handlers that hold `st` and are about to cancel it. -/
  cancelers : ℕ
  janitor : JanitorPc
  log : List (Deposit Node Row)
  /-- The results handed to the cache. -/
  puts : List (List Row)

/-- One request: the overlay it runs on, the configuration values it reads, and
what each node's engine emits for its specification. -/
structure Request (Node Row : Type*) where
  overlay : Overlay Node
  params : RequestParams
  scan : Node → Scan Row

namespace Store

variable (σ : Store Node Row)

def setWorker (k : ℕ) (w : Worker Node Row) : Store Node Row :=
  { σ with workers := σ.workers.set k w }

def setPush (i : ℕ) (p : PushCall Node Row) : Store Node Row :=
  { σ with pushes := σ.pushes.set i p }

def setFetch (i : ℕ) (f : Fetch Row) : Store Node Row :=
  { σ with fetches := σ.fetches.set i f }

/-- Send the current chunk of worker `k` upstream. -/
def startPush (k : ℕ) (w : Worker Node Row) (c : SinkCall Row) (retries : ℕ) : Store Node Row :=
  { σ with
    workers := σ.workers.set k { w with pc := .pushing σ.pushes.length retries }
    pushes := σ.pushes ++ [⟨w.node, w.history.length + 1, c, some k, [], .at w.upstream⟩] }

/-- `st->buffer->pushRows(rows)` for a chunk. -/
def deposit (producer : Node) (seq : ℕ) (c : SinkCall Row) : Store Node Row :=
  { σ with
    st := σ.st.withBuffer (σ.st.buffer.pushRows c.rows).1
    log := σ.log ++ [⟨producer, seq, c, σ.st.buffer.taken c.rows⟩] }

/-- `st->buffer->cancel()` -/
def cancelBuffer : Store Node Row := { σ with st := σ.st.withBuffer σ.st.buffer.cancel }

variable [DecidableEq Node]

/-- `if (done) st->buffer->markProducerDone(producer)` -/
def markDoneIf (c : SinkCall Row) (producer : Node) : Store Node Row :=
  { σ with st := if c.done then σ.st.withBuffer (σ.st.buffer.markProducerDone producer) else σ.st }

end Store

/-- Go on to the next sink call. -/
def Worker.advance (w : Worker Node Row) (c : SinkCall Row) (todo : List (SinkCall Row))
    (outcome : Outcome) : Worker Node Row :=
  { w with todo := todo, history := w.history ++ [(c, outcome)], pc := .ready }

namespace Request

variable [DecidableEq Node] (R : Request Node Row)

/-! ### executeLocal -/

/-- One action of worker `k`. A chunk is tried five times. -/
def work (σ : Store Node Row) (k : ℕ) : Option (Store Node Row) :=
  match σ.workers[k]? with
  | none => none
  | some w =>
    match w.pc, w.todo with
    | .ready, c :: todo =>
      -- `upstream_peer == kSelfRoute`; only the portal's registry holds anything
      if w.upstream = R.overlay.selfRoute then
        if w.node = R.overlay.portal ∧ σ.registered then
          some (σ.setWorker k { w with pc := .found })
        else some (σ.setWorker k (w.advance c todo .gone))
      -- the first of five attempts
      else if w.upstream ∈ R.overlay.nbrs w.node then some (σ.startPush k w c 4)
      -- `if (!up) return;`
      else some (σ.setWorker k (w.advance c todo .noPeer))
    | .found, c :: _ =>
      some ((σ.deposit w.node (w.history.length + 1) c).setWorker k { w with pc := .deposited })
    | .deposited, c :: todo =>
      some ((σ.markDoneIf c w.node).setWorker k (w.advance c todo .deposited))
    | .pushing id retries, c :: todo =>
      -- the call returns when its innermost handler has answered and no relay waits
      match σ.pushes[id]? with
      | some p =>
        match p.hops, p.pc with
        | [], .acked ack =>
          if ack.ok then some (σ.setWorker k (w.advance c todo .acked))
          -- the sink returns, and the engine goes on to the next chunk
          else if ack.canceled then some (σ.setWorker k (w.advance c todo .canceled))
          else some (σ.setWorker k { w with pc := .backoff retries })
        | _, _ => none
      | none => none
    | .backoff (retries + 1), c :: _ => some (σ.startPush k w c retries)
    | .backoff 0, c :: todo => some (σ.setWorker k (w.advance c todo .exhausted))
    | _, [] => none

/-- The engine of worker `k` finds its route canceled, with `m` rows of the next
chunk gathered. Which of the node's route entries the worker holds is left open. -/
def cut (σ : Store Node Row) (k m : ℕ) : Option (Store Node Row) :=
  match σ.workers[k]? with
  | none => none
  | some w =>
    match w.pc, w.todo with
    | .ready, c :: _ =>
      -- the engine breaks out of its loop and calls the sink for the last time
      if σ.cancelMarks w.node ∧ m < c.rows.length then
        some (σ.setWorker k { w with todo := [⟨c.rows.take m, true⟩] })
      else none
    | _, _ => none

/-! ### PushChunk -/

/-- The portal's answer after a deposit of which `took` rows were accepted. -/
def depositAck (R : Request Node Row) (σ : Store Node Row) (p : PushCall Node Row) (took : ℕ) :
    PushChunkAck where
  ok := true
  canceled := false
  bufferedRows := UInt32.ofNat σ.st.buffer.bufferedRows
  suggestedDelayMs := if took < p.call.rows.length then R.params.pushBackoffMs else 0

/-- One action of push call `i`. -/
def push (σ : Store Node Row) (i : ℕ) : Option (Store Node Row) :=
  match σ.pushes[i]? with
  | none => none
  | some p =>
    match p.pc with
    | .at n =>
      if n = R.overlay.portal then
        if σ.registered then some (σ.setPush i { p with pc := .found })
        else some (σ.setPush i { p with pc := .acked .gone })
      else
        -- an internal node forwards the chunk one hop upstream
        match σ.routes n with
        | none => some (σ.setPush i { p with pc := .acked .gone })
        | some route =>
          if route.upstreamPeer ∈ R.overlay.nbrs n then
            some (σ.setPush i { p with hops := n :: p.hops, pc := .at route.upstreamPeer })
          -- `ack->set_ok(false)` and no more
          else some (σ.setPush i { p with pc := .acked .failed })
    | .found =>
      if σ.st.buffer.isCanceled then some (σ.setPush i { p with pc := .acked .gone })
      else some (σ.setPush i { p with pc := .live })
    | .live =>
      some ((σ.deposit p.producer p.seq p.call).setPush i
        { p with pc := .pushed (σ.st.buffer.pushRows p.call.rows).2 })
    | .pushed took =>
      some ((σ.markDoneIf p.call p.producer).setPush i { p with pc := .marked took })
    | .marked took =>
      some (σ.setPush i { p with pc := .acked (R.depositAck σ p took) })
    | .acked ack =>
      -- the relay closest to the portal answers next
      match p.hops with
      | [] => none
      | _ :: hops => some (σ.setPush i { p with hops := hops, pc := .acked ack.relay })

/-- The RPC between hop `j` and its caller fails: the caller goes on with a
failed call, and what is below it goes on for nobody. -/
def pushFail (σ : Store Node Row) (i j : ℕ) : Option (Store Node Row) :=
  match σ.pushes[i]? with
  | none => none
  | some p =>
    -- the calls above hop `j` keep their place, those below it are a new one
    if j ≤ p.hops.length then
      some { σ with
        pushes := σ.pushes.set i { p with hops := p.hops.drop j, pc := .acked .failed } ++
          [{ p with worker := none, hops := p.hops.take j }] }
    else none

/-! ### FetchChunk -/

/-- A client calls `FetchChunk`. -/
def fetchBegin (σ : Store Node Row) (maxRows : UInt32) : Store Node Row :=
  if σ.registered then
    { σ with fetches := σ.fetches ++ [⟨maxRows, ⟨[], 0, 0, 0, false, false⟩, .found⟩] }
  else
    { σ with fetches := σ.fetches ++ [⟨maxRows, ⟨[], 0, 0, 0, true, true⟩, .answered⟩] }

/-- One action of fetch `i`; the first of them `dt` milliseconds after the
request's last fetch. -/
def fetch (σ : Store Node Row) (i : ℕ) (dt : ℚ) : Option (Store Node Row) :=
  match σ.fetches[i]? with
  | none => none
  | some f =>
    match f.pc with
    | .found =>
      let st := σ.st.recordFetch dt
      let popped := st.buffer.popUpTo (st.want f.maxRows).toNat
      some (({ σ with st := st.withBuffer popped.1 }).setFetch i
        { f with rsp := { f.rsp with rows := popped.2 }, pc := .popped })
    | .popped =>
      let st := σ.st.accumulate f.rsp.rows
      some (({ σ with st := st }).setFetch i
        { f with rsp := { f.rsp with suggestedNextMax := st.suggestedChunk }, pc := .accumulated })
    | .accumulated =>
      some (σ.setFetch i
        { f with rsp := { f.rsp with rowsSoFar := σ.st.buffer.rowsServed }, pc := .served })
    | .served =>
      some (σ.setFetch i { f with
        rsp := { f.rsp with pendingProducers := σ.st.buffer.pendingProducers }, pc := .counted })
    | .counted =>
      some (σ.setFetch i
        { f with rsp := { f.rsp with canceled := σ.st.buffer.isCanceled }, pc := .canceledRead })
    | .canceledRead =>
      some (σ.setFetch i
        { f with rsp := { f.rsp with final := σ.st.buffer.isFinal }, pc := .finalRead })
    | .finalRead =>
      if f.rsp.final then
        -- the put, and the move of what it puts
        if σ.st.cacheCollect && !f.rsp.canceled then
          some (({ σ with
            st := { σ.st with cacheAccum := [] }
            puts := σ.puts ++ [σ.st.cacheAccum] }).setFetch i { f with pc := .closing })
        else some (σ.setFetch i { f with pc := .closing })
      else some (σ.setFetch i { f with pc := .answered })
    | .closing =>
      some (({ σ with registered := false }).setFetch i { f with pc := .answered })
    | .answered => none

/-! ### Cancellation -/

/-- `CancelQuery` looks the request up. Where there is none, it goes on to the
aborts. -/
def cancelQuery (σ : Store Node Row) : Store Node Row :=
  if σ.registered then { σ with cancelers := σ.cancelers + 1 } else { σ with aborting := true }

/-- `CancelQuery` cancels the buffer it found and goes on to the aborts. -/
def cancelFound (σ : Store Node Row) : Option (Store Node Row) :=
  match σ.cancelers with
  | 0 => none
  | k + 1 => some { σ.cancelBuffer with cancelers := k, aborting := true }

/-- An abort reaches a node. Which ones do is left open. -/
def abort (σ : Store Node Row) (n : Node) : Option (Store Node Row) :=
  if σ.aborting then
    match σ.routes n with
    | some _ => some { σ with cancelMarks := Function.update σ.cancelMarks n true }
    | none => some σ
  else none

/-- The janitor's next action on the request, once it has expired: collect it,
cancel it, erase it. -/
def janitorLoop (σ : Store Node Row) : Option (Store Node Row) :=
  match σ.janitor with
  | .idle => if σ.registered then some { σ with janitor := .collected } else none
  | .collected => some { σ.cancelBuffer with janitor := .aborting, aborting := true }
  | .aborting => some { σ with janitor := .idle, registered := false }

/-! ### The request as a cascade -/

/-- The actions around the cascade. -/
inductive Event (Node : Type*)
  | work (k : ℕ)
  | cut (k m : ℕ)
  | push (i : ℕ)
  | pushFail (i j : ℕ)
  | fetchBegin (maxRows : UInt32)
  | fetch (i : ℕ) (dt : ℚ)
  | cancelQuery
  | cancelFound
  | abort (n : Node)
  | janitorLoop
  deriving DecidableEq

def env (σ : Store Node Row) : Event Node → Option (Store Node Row)
  | .work k => R.work σ k
  | .cut k m => cut σ k m
  | .push i => R.push σ i
  | .pushFail i j => pushFail σ i j
  | .fetchBegin maxRows => some (fetchBegin σ maxRows)
  | .fetch i dt => fetch σ i dt
  | .cancelQuery => some (cancelQuery σ)
  | .cancelFound => cancelFound σ
  | .abort n => abort σ n
  | .janitorLoop => janitorLoop σ

/-- The checks of `ForwardQuery`: loop avoidance, then the lookup under
`routes_mu_`. -/
def check (σ : Store Node Row) (n : Node) : Task Node → Option (ForwardQueryAck Node)
  | .submitQuery => none
  | .forwardQuery req =>
    if n ∈ req.visited then some ⟨false, n, "loop"⟩
    -- `routes_mu_` is released again before the insert
    else if (σ.routes n).isSome then some ⟨false, n, "dup"⟩
    else none

/-- The route insert of `ForwardQuery`, in a second section under `routes_mu_`. -/
def commit (σ : Store Node Row) (n : Node) (m : Task Node) : Store Node Row :=
  { σ with
    routes :=
      match m with
      | .submitQuery => σ.routes
      | .forwardQuery req =>
        Function.update σ.routes n (some ⟨req.fromNode, req.visited ++ [n]⟩) }

/-- The fan-outs of `SubmitQuery` and `ForwardQuery`. -/
def outgoing (n : Node) : Task Node → List (Node × Task Node)
  | .submitQuery => (R.overlay.nbrs n).map fun nb => (nb, .forwardQuery ⟨n, [n], 16⟩)
  | .forwardQuery req =>
    ((R.overlay.nbrs n).filter fun nb => nb ≠ req.fromNode ∧ nb ∉ req.visited ++ [n]).map
      fun nb => (nb, .forwardQuery
        ⟨n, req.visited ++ [n], if req.ttl = 0 then 0 else req.ttl - 1⟩)

/-- `SubmitQuery` marks a neighbour done when its forward fails or is rejected. -/
def settle (σ : Store Node Row) (_n : Node) (m : Task Node) (nb : Node)
    (ack : Option (ForwardQueryAck Node)) : Store Node Row :=
  { σ with
    st :=
      match m with
      | .submitQuery =>
        if ack.any ForwardQueryAck.accepted then σ.st
        else σ.st.withBuffer (σ.st.buffer.markProducerDone nb)
      | .forwardQuery _ => σ.st }

/-- The upstream of the worker that a handler starts. -/
def upstream : Task Node → Node
  | .submitQuery => R.overlay.selfRoute
  | .forwardQuery req => req.fromNode

/-- Both handlers end by starting `executeLocal` in a thread. -/
def finish (σ : Store Node Row) (n : Node) (m : Task Node) : Store Node Row :=
  { σ with workers := σ.workers ++ [⟨n, R.upstream m, (R.scan n).calls, [], .ready⟩] }

/-- The handlers of a request, and what happens around them. -/
def cascade : Cascade Node (Task Node) (ForwardQueryAck Node) (Store Node Row) (Event Node) where
  check := check
  commit := commit
  outgoing := R.outgoing
  settle := settle
  finish := R.finish
  reply n _ := ⟨true, n, ""⟩
  env := R.env

/-- The state after `registry_.create` and the marks of `SubmitQuery`. -/
def startState : RequestState Node Row :=
  let st := RequestState.create R.params R.overlay.nodes.length
  { st with
    cacheMaxRows := R.params.cacheMaxRows
    cacheCollect := true
    buffer := R.overlay.nodes.foldl ChunkBuffer.markProducerStarted st.buffer }

/-- `SubmitQuery` has created the request and the portal's route. -/
def startStore : Store Node Row where
  routes := Function.update (fun _ => none) R.overlay.portal
    (some ⟨R.overlay.selfRoute, [R.overlay.portal]⟩)
  cancelMarks _ := false
  aborting := false
  st := R.startState
  registered := true
  workers := []
  pushes := []
  fetches := []
  cancelers := 0
  janitor := .idle
  log := []
  puts := []

/-- The states of one request. -/
abbrev State (Node Row : Type*) :=
  Cascade.State Node (Task Node) (ForwardQueryAck Node) (Store Node Row)

/-- The actions of one request. -/
abbrev Label (Node : Type*) := Cascade.Label (Event Node)

/-- `SubmitQuery` is about to fan out. -/
def start : State Node Row where
  calls := [⟨R.overlay.portal, .submitQuery,
    .calling (R.outgoing R.overlay.portal .submitQuery)⟩]
  store := R.startStore

/-- A request starts with an empty buffer that waits for all nodes. -/
theorem start_buffer (R : Request Node Row) : R.start.store.st.buffer =
    { ChunkBuffer.create R.params.chunkBufferCap R.overlay.nodes.length with
      started := R.start.store.st.buffer.started } :=
  ChunkBuffer.foldl_markProducerStarted _ _

/-- The runs of one request. -/
def machine : Machine (State Node Row) (Label Node) := R.cascade.machine R.start

/-- A request for which no node emits a row. -/
def quiet (O : Overlay Node) : Request Node Unit where
  overlay := O
  params := .default
  scan _ := .single []

end Request
end Mini2
