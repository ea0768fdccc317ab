import Mini2.Framework.Isolation
import Mini2.Node.Portal

/-!
# The portal's handlers, side by side

The handlers of the portal, each as one step on what all of its requests share: the
registry, the cache, the routes and the counter of rows served. The aborts that
`CancelQuery` and the janitor send out change nothing at the portal, and the timed wait of
`popUpTo` only delays the pop.

`portal_handle` says what a handler sees and changes of the registry: the entry of its own
request, as if there were no other (`alone`). It follows that the requests are isolated
from each other (`requests_isolated`): whatever the handlers of other requests do in
between, and whatever the cache, the routes and the counter have been before, a request's
client and its producers get the same replies.
-/

namespace Mini2

open Framework

variable {Rid Node : Type*}

/-! ### A request on its own -/

/-- What the registry keeps for a request. -/
structure RequestEntry (Node : Type*) where
  spec : QuerySpec
  st : RequestState Node Row311
  /-- `last_fetch_at`, in milliseconds. -/
  lastFetchAt : ℚ

/-- The answer of `FetchChunk` where there is no such request. -/
def ChunkResponse.gone {Row : Type*} : ChunkResponse Row := ⟨[], 0, 0, 0, true, true⟩

namespace RequestEntry

variable (e : RequestEntry Node)

/-- What `FetchChunk` does with the request it has found, at the time `now`. -/
def fetch (maxRows : UInt32) (now : ℚ) : RequestEntry Node × ChunkResponse Row311 :=
  let st := e.st.recordFetch (now - e.lastFetchAt)
  let popped := st.buffer.popUpTo (st.want maxRows).toNat
  -- shadow-accumulate for the cache
  let st := (st.withBuffer popped.1).accumulate popped.2
  ({ e with st := st, lastFetchAt := now },
    { rows := popped.2
      suggestedNextMax := st.suggestedChunk
      rowsSoFar := st.buffer.rowsServed
      pendingProducers := st.buffer.pendingProducers
      canceled := st.buffer.isCanceled
      final := st.buffer.isFinal })

/-- `st->buffer->cancel()` -/
def cancel : RequestEntry Node := { e with st := e.st.withBuffer e.st.buffer.cancel }

variable [DecidableEq Node]

/-- Push the rows of a chunk, mark its producer as done if it is the last, and return the
number of rows taken. -/
def deposit (producer : Node) (c : SinkCall Row311) : RequestEntry Node × ℕ :=
  let pushed := e.st.buffer.pushRows c.rows
  let st := e.st.withBuffer pushed.1
  ({ e with st := if c.done then st.withBuffer (st.buffer.markProducerDone producer) else st },
    pushed.2)

/-- What `PushChunk` does with the request it has found at the portal. -/
def push (pushBackoffMs : UInt32) (producer : Node) (c : SinkCall Row311) :
    RequestEntry Node × PushChunkAck :=
  if e.st.buffer.isCanceled then (e, .gone)
  else
    let deposited := e.deposit producer c
    (deposited.1,
      { ok := true
        canceled := false
        bufferedRows := UInt32.ofNat deposited.1.st.buffer.bufferedRows
        suggestedDelayMs := if deposited.2 < c.rows.length then pushBackoffMs else 0 })

end RequestEntry

/-! ### The handlers -/

/-- `RouteState`, with its flag. -/
structure RouteState (Node : Type*) extends Route Node where
  canceled : Bool

/-- What the portal's requests share. -/
structure NodeServer (Rid Node : Type*) where
  registry : Rid → Option (RequestEntry Node)
  cache : QueryCache
  routes : Rid → Option (RouteState Node)
  totalRowsServed : UInt64

/-- A call of one of the portal's handlers. -/
inductive PortalCall (Rid Node : Type*)
  /-- The client fetches, at the time `now`. -/
  | fetchChunk (rid : Rid) (maxRows : UInt32) (now : ℚ)
  /-- A chunk of `producer` arrives from a neighbour. -/
  | pushChunk (rid : Rid) (producer : Node) (c : SinkCall Row311)
  | cancelQuery (rid : Rid)
  /-- The portal's own engine calls its sink. -/
  | executeLocal (rid : Rid) (c : SinkCall Row311)
  /-- The janitor abandons the request. -/
  | janitorLoop (rid : Rid)
  deriving DecidableEq

/-- The request that a call is about. -/
def PortalCall.rid : PortalCall Rid Node → Rid
  | .fetchChunk rid _ _ => rid
  | .pushChunk rid _ _ => rid
  | .cancelQuery rid => rid
  | .executeLocal rid _ => rid
  | .janitorLoop rid => rid

/-- What the caller of a handler gets. -/
inductive PortalReply
  | chunk (rsp : ChunkResponse Row311)
  | push (ack : PushChunkAck)
  | cancel (accepted : Bool)
  /-- Nobody waits for the portal's own threads. -/
  | none

namespace Cluster

variable [DecidableEq Rid] [DecidableEq Node] (C : Cluster Node)

section Handlers

variable (s : NodeServer Rid Node) (rid : Rid)

/-- `FetchChunk` -/
def fetchChunk (maxRows : UInt32) (now : ℚ) : NodeServer Rid Node × ChunkResponse Row311 :=
  match s.registry rid with
  | none => (s, .gone)
  | some e =>
    let (e, rsp) := e.fetch maxRows now
    -- the registry and the handler hold one state of the request
    let s := { s with
      registry := Function.update s.registry rid (some e)
      totalRowsServed := s.totalRowsServed + UInt64.ofNat rsp.rows.length }
    if rsp.final then
      -- the put is for the cache only
      let s :=
        if e.st.cacheCollect && !rsp.canceled then
          { s with cache := s.cache.put C.hash.specHash e.spec e.st.cacheAccum }
        else s
      ({ s with registry := Function.update s.registry rid none }, rsp)
    else (s, rsp)

/-- `PushChunk`, on the portal. -/
def pushChunk (producer : Node) (c : SinkCall Row311) : NodeServer Rid Node × PushChunkAck :=
  match s.registry rid with
  | none => (s, .gone)
  | some e =>
    let (e, ack) := e.push C.params.pushBackoffMs producer c
    ({ s with registry := Function.update s.registry rid (some e) }, ack)

/-- `CancelQuery`. It accepts in any case. -/
def cancelQuery : NodeServer Rid Node × Bool :=
  ({ s with
    registry := Function.update s.registry rid ((s.registry rid).map RequestEntry.cancel)
    routes := Function.update s.routes rid
      ((s.routes rid).map fun route => { route with canceled := true }) }, true)

/-- The sink of `executeLocal`, on the portal. -/
def executeLocal (c : SinkCall Row311) : NodeServer Rid Node :=
  match s.registry rid with
  | none => s
  | some e =>
    { s with registry := Function.update s.registry rid (some (e.deposit C.overlay.portal c).1) }

/-- What `janitorLoop` does with a request that has expired. The canceled buffer is gone
with it. -/
def janitorLoop : NodeServer Rid Node :=
  { s with registry := Function.update s.registry rid none }

end Handlers

/-- The portal as a server. -/
def portal : Server (NodeServer Rid Node) (PortalCall Rid Node) PortalReply where
  handle s
    | .fetchChunk rid maxRows now =>
      let (s, rsp) := C.fetchChunk s rid maxRows now
      (s, .chunk rsp)
    | .pushChunk rid producer c =>
      let (s, ack) := C.pushChunk s rid producer c
      (s, .push ack)
    | .cancelQuery rid =>
      let (s, accepted) := cancelQuery s rid
      (s, .cancel accepted)
    | .executeLocal rid c => (C.executeLocal s rid c, .none)
    | .janitorLoop rid => (janitorLoop s rid, .none)

/-! ### Isolation -/

/-- A portal that has one request at most, and nothing besides. -/
def alone : Server (Option (RequestEntry Node)) (PortalCall Rid Node) PortalReply where
  handle entry
    | .fetchChunk _ maxRows now =>
      match entry with
      | none => (none, .chunk .gone)
      | some e =>
        let (e, rsp) := e.fetch maxRows now
        (if rsp.final then none else some e, .chunk rsp)
    | .pushChunk _ producer c =>
      match entry with
      | none => (none, .push .gone)
      | some e =>
        let (e, ack) := e.push C.params.pushBackoffMs producer c
        (some e, .push ack)
    | .cancelQuery _ => (entry.map RequestEntry.cancel, .cancel true)
    | .executeLocal _ c => (entry.map fun e => (e.deposit C.overlay.portal c).1, .none)
    | .janitorLoop _ => (none, .none)

section Isolation

variable {C : Cluster Node} (s : NodeServer Rid Node) (rid : Rid)

omit [DecidableEq Node] in
/-- A handler that finds no request changes no entry. -/
theorem registry_update_none {rid : Rid} (h : s.registry rid = none) :
    Function.update s.registry rid none = s.registry := by
  rw [← h, Function.update_eq_self]

theorem fetchChunk_eq (maxRows : UInt32) (now : ℚ) :
    (C.fetchChunk s rid maxRows now).1.registry = Function.update s.registry rid
        (C.alone.handle (s.registry rid) (.fetchChunk rid maxRows now)).1 ∧
      PortalReply.chunk (C.fetchChunk s rid maxRows now).2 =
        (C.alone.handle (s.registry rid) (.fetchChunk rid maxRows now)).2 := by
  unfold fetchChunk alone
  cases h : s.registry rid with
  | none => exact ⟨(registry_update_none s h).symm, rfl⟩
  | some e =>
    dsimp only
    cases hfinal : (e.fetch maxRows now).2.final with
    | false => exact ⟨rfl, rfl⟩
    | true =>
      -- the entry is erased, after the put that only the cache sees
      refine ⟨?_, rfl⟩
      rw [if_pos rfl, if_pos rfl]
      dsimp only
      split
      · exact Function.update_idem _ _ _
      · exact Function.update_idem _ _ _

theorem pushChunk_eq (producer : Node) (c : SinkCall Row311) :
    (C.pushChunk s rid producer c).1.registry = Function.update s.registry rid
        (C.alone.handle (s.registry rid) (.pushChunk rid producer c)).1 ∧
      PortalReply.push (C.pushChunk s rid producer c).2 =
        (C.alone.handle (s.registry rid) (.pushChunk rid producer c)).2 := by
  unfold pushChunk alone
  cases h : s.registry rid with
  | none => exact ⟨(registry_update_none s h).symm, rfl⟩
  | some e => exact ⟨rfl, rfl⟩

theorem executeLocal_eq (c : SinkCall Row311) :
    (C.executeLocal s rid c).registry = Function.update s.registry rid
      (C.alone.handle (s.registry rid) (.executeLocal rid c)).1 := by
  unfold executeLocal alone
  cases h : s.registry rid with
  | none => exact (registry_update_none s h).symm
  | some e => rfl

/-- **A handler reads and writes the entry of its own request only**, and makes of it what
it makes of the only request there is. -/
theorem portal_handle (call : PortalCall Rid Node) :
    (C.portal.handle s call).1.registry = Function.update s.registry call.rid
        (C.alone.handle (s.registry call.rid) call).1 ∧
      (C.portal.handle s call).2 = (C.alone.handle (s.registry call.rid) call).2 := by
  cases call with
  | fetchChunk rid maxRows now => exact fetchChunk_eq s rid maxRows now
  | pushChunk rid producer c => exact pushChunk_eq s rid producer c
  | cancelQuery rid => exact ⟨rfl, rfl⟩
  | executeLocal rid c => exact ⟨executeLocal_eq s rid c, rfl⟩
  | janitorLoop rid => exact ⟨rfl, rfl⟩

/-- The calls of one request are isolated from those of the others. -/
theorem portal_isolates (C : Cluster Node) (rid : Rid) :
    C.portal.Isolates C.alone (fun call => call.rid = rid) (fun s => s.registry rid) where
  state s call hcall := by
    subst hcall
    change (C.portal.handle s call).1.registry call.rid = _
    rw [(portal_handle s call).1, Function.update_self]
  reply s call hcall := by
    subst hcall
    exact (portal_handle s call).2
  other s call hcall := by
    change (C.portal.handle s call).1.registry rid = s.registry rid
    rw [(portal_handle s call).1, Function.update_of_ne (Ne.symm hcall)]

/-- **Requests are isolated at the portal.** Two sequences of calls with the same calls
about a request give the same replies to them, from any two states of the portal that
agree on the request. -/
theorem requests_isolated (C : Cluster Node) (rid : Rid) {s t : NodeServer Rid Node}
    (hentry : s.registry rid = t.registry rid) {calls calls' : List (PortalCall Rid Node)}
    (hcalls : calls.filter (fun call => call.rid = rid) =
      calls'.filter (fun call => call.rid = rid)) :
    (C.portal.trace s calls).filter (fun x => x.1.rid = rid) =
      (C.portal.trace t calls').filter (fun x => x.1.rid = rid) :=
  (portal_isolates C rid).trace_eq hentry hcalls

/-- Nor does it make a difference to what is left of the request. -/
theorem entry_isolated (C : Cluster Node) (rid : Rid) {s t : NodeServer Rid Node}
    (hentry : s.registry rid = t.registry rid) {calls calls' : List (PortalCall Rid Node)}
    (hcalls : calls.filter (fun call => call.rid = rid) =
      calls'.filter (fun call => call.rid = rid)) :
    (C.portal.run s calls).registry rid = (C.portal.run t calls').registry rid :=
  (portal_isolates C rid).run_eq hentry hcalls

end Isolation

/-- A portal on which every request has just been submitted. -/
def busy : NodeServer ℕ Overlay.Id3 where
  registry _ := some ⟨QueryEngine.noiseQuery, (near.request QueryEngine.noiseQuery).startState, 0⟩
  cache := .create 0 0
  routes _ := none
  totalRowsServed := 0

/-- A portal on which only request `0` has. -/
def calm : NodeServer ℕ Overlay.Id3 :=
  { busy with registry := Function.update (fun _ => none) 0 (busy.registry 0) }

/-- `b` sends all of its rows as one chunk, and the client fetches them. -/
def sendAndFetch (rid : ℕ) : List (PortalCall ℕ Overlay.Id3) :=
  [.pushChunk rid .b ⟨QueryEngine.nearStore.rows, true⟩, .fetchChunk rid 0 100]

/-- Request `0` gets its rows between the calls of request `1`, which is canceled and
fetched, as it does without them. -/
theorem requests_isolated_two :
    (near.portal.trace busy (.cancelQuery 1 :: sendAndFetch 0 ++ sendAndFetch 1)).filter
        (fun x => x.1.rid = 0) =
      (near.portal.trace calm (sendAndFetch 0)).filter (fun x => x.1.rid = 0) :=
  requests_isolated near 0 (by rfl) (by rfl)

end Cluster
end Mini2
