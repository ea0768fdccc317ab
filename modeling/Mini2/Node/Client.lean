import Mini2.Node.ExactAnswer

/-!
# The client

`main` of the client submits its query and then fetches in a loop, asking for as many rows as the
last response has suggested, until a response is final. It looks at the interrupt flag between
two fetches, and sends `CancelQuery` when it is set. Where a call fails it gives up.

The client is one more party around a request, and the only one that fetches. So the runs with it
are runs of the request with one fetch after the other (`client_projects`), whatever the client
meets with, and what holds of these runs can be read off its output: on a tree it prints nothing
but rows of the result, and all of them once it is done (`client_prints_result`).
-/

namespace Mini2

open Framework

variable {Node Row : Type*}

/-! ### The loop -/

/-- Where the client is. -/
inductive ClientPc
  /-- It waits for the answer to `SubmitQuery`. -/
  | submitting
  /-- It is at the head of its loop. -/
  | looping
  /-- It waits for the answer to a fetch. -/
  | fetching (i : ℕ)
  /-- It waits for the answer to `CancelQuery`. -/
  | canceling
  /-- It has left the loop on a final response. -/
  | done
  /-- It has left the loop on an interrupt. -/
  | canceled
  /-- It has given up on a call. -/
  | failed
  deriving DecidableEq

/-- The client has sent `CancelQuery`. -/
def ClientPc.stopped : ClientPc → Bool
  | .canceling => true
  | .canceled => true
  | _ => false

/-- The client's variables. -/
structure Client (Row : Type*) where
  pc : ClientPc
  /-- `g_interrupted` -/
  interrupted : Bool
  want : UInt32
  total : UInt64
  /-- The rows it has printed, in order. -/
  printed : List Row

namespace Client

/-- It has called `SubmitQuery`. -/
def start : Client Row := ⟨.submitting, false, 0, 0, []⟩

/-- The body of the loop, after a fetch. -/
def receive (c : Client Row) (cr : ChunkResponse Row) : Client Row :=
  { c with
    pc := if cr.final then .done else .looping
    want := cr.suggestedNextMax
    total := c.total + UInt64.ofNat cr.rows.length
    printed := c.printed ++ cr.rows }

end Client

/-- A request and its client. -/
structure ClientState (Node Row : Type*) where
  request : Request.State Node Row
  client : Client Row

/-- The actions of both. -/
inductive ClientLabel (Node : Type*)
  | request (l : Request.Label Node)
  | submitted
  | loop
  | receive
  | canceled
  | rpcFails
  | sigint

namespace Request

/-- The calls that the client makes. -/
def clientCall : Label Node → Bool
  | .env (.fetchBegin _) => true
  | .env .cancelQuery => true
  | _ => false

section Step

variable [DecidableEq Node] (R : Request Node Row)

/-- One action of the request or of the client. -/
def clientStep (s : ClientState Node Row) : ClientLabel Node → Option (ClientState Node Row)
  | .request l =>
    if clientCall l then none
    else (R.cascade.step s.request l).map fun request => { s with request := request }
  | .submitted =>
    match s.client.pc, (s.request.calls[0]?).map Cascade.Call.pc with
    | .submitting, some (.returned sack) => some { s with
        client := { s.client with pc := if sack.accepted then .looping else .failed } }
    | _, _ => none
  | .loop =>
    match s.client.pc with
    | .looping =>
      if s.client.interrupted then
        some ⟨{ s.request with store := cancelQuery s.request.store },
          { s.client with pc := .canceling }⟩
      else
        some ⟨{ s.request with store := fetchBegin s.request.store s.client.want },
          { s.client with pc := .fetching s.request.store.fetches.length }⟩
    | _ => none
  | .receive =>
    match s.client.pc with
    | .fetching i =>
      match s.request.store.fetches[i]? with
      | some f =>
        if f.pc = .answered then some { s with client := s.client.receive f.rsp } else none
      | none => none
    | _ => none
  | .canceled =>
    -- the answer is not looked at
    match s.client.pc with
    | .canceling => some { s with client := { s.client with pc := .canceled } }
    | _ => none
  | .rpcFails =>
    match s.client.pc with
    | .submitting => some { s with client := { s.client with pc := .failed } }
    | .fetching _ => some { s with client := { s.client with pc := .failed } }
    | _ => none
  | .sigint => some { s with client := { s.client with interrupted := true } }

/-- The runs of a request with its client. -/
def clientMachine : Machine (ClientState Node Row) (ClientLabel Node) where
  init := ⟨R.start, .start⟩
  step := R.clientStep

/-- What an action can do. -/
inductive ClientStep (R : Request Node Row) (s : ClientState Node Row) :
    ClientLabel Node → ClientState Node Row → Prop
  | request {l : Label Node} {request : State Node Row} (hcall : clientCall l = false)
      (hstep : R.cascade.Step s.request l request) :
      ClientStep R s (.request l) { s with request := request }
  | submitted {c : Cascade.Call Node (Task Node) (ForwardQueryAck Node)}
      {sack : ForwardQueryAck Node} (hpc : s.client.pc = .submitting)
      (hc : s.request.calls[0]? = some c) (hsack : c.pc = .returned sack) :
      ClientStep R s .submitted { s with
        client := { s.client with pc := if sack.accepted then .looping else .failed } }
  | cancel (hpc : s.client.pc = .looping) (hint : s.client.interrupted = true) :
      ClientStep R s .loop ⟨{ s.request with store := cancelQuery s.request.store },
        { s.client with pc := .canceling }⟩
  | fetch (hpc : s.client.pc = .looping) (hint : s.client.interrupted = false) :
      ClientStep R s .loop ⟨{ s.request with store := fetchBegin s.request.store s.client.want },
        { s.client with pc := .fetching s.request.store.fetches.length }⟩
  | receive {i : ℕ} {f : Fetch Row} (hpc : s.client.pc = .fetching i)
      (hf : s.request.store.fetches[i]? = some f) (hanswered : f.pc = .answered) :
      ClientStep R s .receive { s with client := s.client.receive f.rsp }
  | canceled (hpc : s.client.pc = .canceling) :
      ClientStep R s .canceled { s with client := { s.client with pc := .canceled } }
  | submitFails (hpc : s.client.pc = .submitting) :
      ClientStep R s .rpcFails { s with client := { s.client with pc := .failed } }
  | fetchFails {i : ℕ} (hpc : s.client.pc = .fetching i) :
      ClientStep R s .rpcFails { s with client := { s.client with pc := .failed } }
  | sigint : ClientStep R s .sigint { s with client := { s.client with interrupted := true } }

variable {R} {s s' : ClientState Node Row} {l : ClientLabel Node}

theorem clientStep_cases (h : R.clientStep s l = some s') : R.ClientStep s l s' := by
  cases l with
  | request l =>
    -- the servers act, but for the calls that only the client makes
    change (if _ then none else (R.cascade.step s.request l).map _) = some s' at h
    split at h
    · exact absurd h (by simp)
    · next hcall =>
      obtain ⟨request, hstep, rfl⟩ := Option.map_eq_some_iff.mp h
      exact .request (Bool.eq_false_iff.mpr hcall) (Cascade.step_iff.mp hstep)
  | submitted =>
    -- the answer to `SubmitQuery` has come in
    unfold clientStep at h
    dsimp only at h
    split at h
    · next sack hpc hc =>
      obtain rfl := Option.some.inj h
      obtain ⟨c, hc, hsack⟩ := Option.map_eq_some_iff.mp hc
      exact .submitted hpc hc hsack
    · exact absurd h (by simp)
  | loop =>
    -- the head of the loop: a signal has come in, or not
    unfold clientStep at h
    dsimp only at h
    split at h
    · next hpc =>
      split at h
      · next hint =>
        obtain rfl := Option.some.inj h
        exact .cancel hpc hint
      · next hint =>
        obtain rfl := Option.some.inj h
        exact .fetch hpc (Bool.eq_false_iff.mpr hint)
    · exact absurd h (by simp)
  | receive =>
    -- the response to the fetch under way is complete
    unfold clientStep at h
    dsimp only at h
    split at h
    · next i hpc =>
      split at h
      · next f hf =>
        split at h
        · next hanswered =>
          obtain rfl := Option.some.inj h
          exact .receive hpc hf hanswered
        · exact absurd h (by simp)
      · exact absurd h (by simp)
    · exact absurd h (by simp)
  | canceled =>
    -- `CancelQuery` has come back
    unfold clientStep at h
    dsimp only at h
    split at h
    · next hpc =>
      obtain rfl := Option.some.inj h
      exact .canceled hpc
    · exact absurd h (by simp)
  | rpcFails =>
    -- both other calls may fail
    unfold clientStep at h
    dsimp only at h
    split at h
    · next hpc =>
      obtain rfl := Option.some.inj h
      exact .submitFails hpc
    · next i hpc =>
      obtain rfl := Option.some.inj h
      exact .fetchFails hpc
    · exact absurd h (by simp)
  | sigint =>
    obtain rfl := Option.some.inj h
    exact .sigint

theorem clientStep_eq (h : R.ClientStep s l s') : R.clientStep s l = some s' := by
  cases h with
  | request hcall hstep =>
    -- an action of the servers, and the branches of the client one by one
    show (if _ then none else (R.cascade.step s.request _).map _) = _
    rw [if_neg (Bool.eq_false_iff.mp hcall), Cascade.step_iff.mpr hstep]
    rfl
  | submitted hpc hc hsack =>
    unfold clientStep
    dsimp only
    rw [hpc, hc, Option.map_some, hsack]
  | cancel hpc hint =>
    unfold clientStep
    dsimp only
    rw [hpc]
    exact if_pos hint
  | fetch hpc hint =>
    unfold clientStep
    dsimp only
    rw [hpc]
    exact if_neg (Bool.eq_false_iff.mp hint)
  | receive hpc hf hanswered =>
    unfold clientStep
    dsimp only
    rw [hpc]
    dsimp only
    rw [hf]
    exact if_pos hanswered
  | canceled hpc =>
    unfold clientStep
    dsimp only
    rw [hpc]
  | submitFails hpc =>
    unfold clientStep
    dsimp only
    rw [hpc]
  | fetchFails hpc =>
    unfold clientStep
    dsimp only
    rw [hpc]
  | sigint => rfl

theorem clientStep_iff : R.clientMachine.step s l = some s' ↔ R.ClientStep s l s' :=
  ⟨clientStep_cases, clientStep_eq⟩

end Step

/-! ### What the client has received -/

/-- The fetches of a client: those whose responses it has received, and at most one more. -/
structure Receiving (fetches : List (Fetch Row)) (c : Client Row) (old new : List (Fetch Row)) :
    Prop where
  split : fetches = old ++ new
  answered : ∀ f ∈ old, f.pc = .answered
  printed : c.printed = old.flatMap fun f => f.rsp.rows
  total : c.total = UInt64.ofNat c.printed.length
  waiting : ∀ i, c.pc = .fetching i → i = old.length ∧ new.length = 1
  idle : c.pc ≠ .failed → (∀ i, c.pc ≠ .fetching i) → new = []
  final : c.pc = .done → ∃ f ∈ old, f.rsp.final = true
  interrupted : c.pc.stopped = true → c.interrupted = true

section Receiving

variable {c : Client Row} {old new : List (Fetch Row)} {fetches : List (Fetch Row)}

theorem Receiving.initial : Receiving [] (.start : Client Row) [] [] where
  split := rfl
  answered _ h := absurd h List.not_mem_nil
  printed := rfl
  total := rfl
  waiting _ h := absurd h (by simp [Client.start])
  idle _ _ := rfl
  final h := absurd h (by simp [Client.start])
  interrupted h := absurd h (by simp [Client.start, ClientPc.stopped])

/-- Nothing but where the client is changes. -/
theorem Receiving.goto (h : Receiving fetches c old new) {pc : ClientPc} {interrupted : Bool}
    (hwaiting : ∀ i, pc ≠ .fetching i) (hidle : pc ≠ .failed → new = []) (hdone : pc ≠ .done)
    (hint : pc.stopped = true → interrupted = true) :
    Receiving fetches { c with pc := pc, interrupted := interrupted } old new where
  split := h.split
  answered := h.answered
  printed := h.printed
  total := h.total
  waiting i hpc := absurd hpc (hwaiting i)
  idle hpc _ := hidle hpc
  final hpc := absurd hpc hdone
  interrupted := hint

/-- A fetch goes out. -/
theorem Receiving.fetch (h : Receiving fetches c old []) (f : Fetch Row) :
    Receiving (fetches ++ [f]) { c with pc := .fetching fetches.length } old [f] where
  split := by rw [h.split, List.append_nil]
  answered := h.answered
  printed := h.printed
  total := h.total
  waiting i hpc := by
    obtain rfl := ClientPc.fetching.inj hpc
    rw [h.split, List.append_nil]
    exact ⟨rfl, rfl⟩
  idle _ hpc := absurd rfl (hpc _)
  final hpc := absurd hpc (by simp)
  interrupted hpc := absurd hpc (by simp [ClientPc.stopped])

/-- The response to the fetch has come in. -/
theorem Receiving.receive (h : Receiving fetches c old new) {i : ℕ} {f : Fetch Row}
    (hpc : c.pc = .fetching i) (hf : fetches[i]? = some f) (hanswered : f.pc = .answered) :
    Receiving fetches (c.receive f.rsp) (old ++ [f]) [] := by
  obtain ⟨rfl, hlen⟩ := h.waiting i hpc
  -- the fetch that the client waits for is the only one that it has not received
  obtain ⟨g, rfl⟩ := List.length_eq_one_iff.mp hlen
  have h_split := h.split
  rw [h_split, List.getElem?_concat_length] at hf
  obtain rfl := Option.some.inj hf
  exact
    { split := by rw [h_split, List.append_nil]
      answered := forall_mem_concat h.answered hanswered
      printed := by
        show c.printed ++ g.rsp.rows = _
        rw [h.printed, List.flatMap_append, List.flatMap_singleton]
      total := by
        show c.total + UInt64.ofNat g.rsp.rows.length =
          UInt64.ofNat (c.printed ++ g.rsp.rows).length
        rw [h.total, List.length_append, UInt64.ofNat_add]
      -- it waits for no fetch now
      waiting := by
        intro i h_pc
        unfold Client.receive at h_pc
        dsimp only at h_pc
        split at h_pc
        · exact absurd h_pc (by simp)
        · exact absurd h_pc (by simp)
      idle := fun _ _ => rfl
      -- it is done only where the response was final
      final := by
        intro h_done
        refine ⟨g, List.mem_append_right _ (List.mem_singleton_self g), ?_⟩
        unfold Client.receive at h_done
        dsimp only at h_done
        split at h_done
        · next hfinal => exact hfinal
        · exact absurd h_done (by simp)
      interrupted := by
        intro h_stopped
        unfold Client.receive at h_stopped
        dsimp only at h_stopped
        split at h_stopped
        · exact absurd h_stopped (by simp [ClientPc.stopped])
        · exact absurd h_stopped (by simp [ClientPc.stopped]) }

/-- What has been received does not change any more. -/
theorem Receiving.set (h : Receiving fetches c old new) {i : ℕ} {f f' : Fetch Row}
    (hf : fetches[i]? = some f) (hbusy : f.pc ≠ .answered) :
    ∃ new', Receiving (fetches.set i f') c old new' := by
  -- the fetch that moves is not among those received, which are answered
  have h_le : old.length ≤ i := by
    by_contra h_lt
    rw [h.split, List.getElem?_append_left (not_le.mp h_lt)] at hf
    exact hbusy (h.answered f (List.mem_of_getElem? hf))
  refine ⟨new.set (i - old.length) f', ?_⟩
  exact
    { split := by rw [h.split, List.set_append_right _ _ h_le]
      answered := h.answered
      printed := h.printed
      total := h.total
      waiting := by
        intro j hpc
        rw [List.length_set]
        exact h.waiting j hpc
      idle := by
        intro hfailed hfetching
        rw [h.idle hfailed hfetching]
        rfl
      final := h.final
      interrupted := h.interrupted }

end Receiving

section Projection

variable [DecidableEq Node] {R : Request Node Row} {s s' : State Node Row} {l : Label Node}
  {c : Client Row} {old new : List (Fetch Row)}

/-- Only the client starts fetches. -/
theorem EnvStep.length_fetches {σ σ' : Store Node Row} {e : Event Node} (h : R.EnvStep σ e σ')
    (hcall : clientCall (.env e) = false) : σ'.fetches.length = σ.fetches.length := by
  cases h with
  | fetchBegin _ => exact absurd hcall (by simp [clientCall])
  | fetchGone _ => exact absurd hcall (by simp [clientCall])
  | fetchPop _ _ _ _ => exact List.length_set
  | fetchAccumulate _ _ _ => exact List.length_set
  | fetchServed _ _ => exact List.length_set
  | fetchCounted _ _ => exact List.length_set
  | fetchCanceled _ _ => exact List.length_set
  | fetchFinal _ _ => exact List.length_set
  | fetchPut _ _ _ _ _ => exact List.length_set
  | fetchNoPut _ _ _ _ => exact List.length_set
  | fetchMore _ _ _ => exact List.length_set
  | fetchErase _ _ => exact List.length_set
  | _ => rfl

/-- **What the client has received stays as it is**, whatever the request does. -/
theorem Receiving.step (h : Receiving s.store.fetches c old new) (hcall : clientCall l = false)
    (hstep : R.cascade.Step s l s') : ∃ new', Receiving s'.store.fetches c old new' := by
  cases hstep with
  | @env e σ he =>
    have h_env := env_cases he
    rcases h_env.fetches_cases with heq | ⟨f, -, heq⟩ | ⟨i, f, f', hmove, heq⟩
    · exact ⟨new, by rw [heq]; exact h⟩
    · have h_len := h_env.length_fetches hcall
      rw [heq, List.length_append] at h_len
      exact absurd h_len (by simp)
    · rw [heq]
      exact h.set hmove.get hmove.busy
  | _ => exact ⟨new, h⟩

/-- The servers act as `P` allows until the client sends `CancelQuery`. The client may do
anything. -/
def Serving (P : State Node Row → Label Node → Prop) (s : ClientState Node Row) :
    ClientLabel Node → Prop
  | .request l => s.client.pc.stopped = false → P s.request l
  | _ => True

instance (P : State Node Row → Label Node → Prop) [∀ s l, Decidable (P s l)]
    (s : ClientState Node Row) (l : ClientLabel Node) : Decidable (Serving P s l) := by
  unfold Serving
  induction l using ClientLabel.casesOn <;> infer_instance

/-- **The client's runs are runs of its request**, with one fetch after the other, and its output
is what they return. Once the client has sent `CancelQuery`, it only waits for the answer. -/
theorem client_projects {P G : State Node Row → Label Node → Prop}
    (hserver : ∀ s l, clientCall l = false → P s l → G s l)
    (hfetch : ∀ s maxRows, (∀ f ∈ s.store.fetches, f.pc = .answered) →
      G s (.env (.fetchBegin maxRows))) {s : ClientState Node Row}
    (h : R.clientMachine.Reachable (Serving P) s) :
    ∃ u old new, R.machine.Reachable G u ∧ (s.client.pc.stopped = false → u = s.request) ∧
      Receiving u.store.fetches s.client old new := by
  have h_start : Receiving R.start.store.fetches (.start : Client Row) [] [] := .initial
  -- the invariant is a run of the request alone, up to where the client has stopped
  refine h.invariant (fun s => ∃ u old new, R.machine.Reachable G u ∧
    (s.client.pc.stopped = false → u = s.request) ∧ Receiving u.store.fetches s.client old new)
    ⟨R.start, [], [], ⟨[], .nil _⟩, fun _ => rfl, h_start⟩ fun s l s' hI hP hstep => ?_
  obtain ⟨u, old, new, ⟨ls, hrun⟩, hu, h_recv⟩ := hI
  cases clientStep_iff.mp hstep with
  | @request l request hcall hst =>
    -- what the servers do after the client has stopped is not followed
    by_cases h_stopped : s.client.pc.stopped = true
    · exact ⟨u, old, new, ⟨ls, hrun⟩, fun h => absurd (h_stopped.symm.trans h) (by simp), h_recv⟩
    · have h_going := Bool.eq_false_iff.mpr h_stopped
      obtain rfl := hu h_going
      -- until then it is an action of the run, and may move the fetch
      obtain ⟨new', h_recv'⟩ := h_recv.step hcall hst
      refine ⟨request, old, new', ⟨ls ++ [l], hrun.append ?_⟩, fun _ => rfl, h_recv'⟩
      exact .cons (hserver _ l hcall (hP h_going)) (Cascade.step_iff.mpr hst) (.nil _)
  | submitted hpc hc hsack =>
    -- accepted or rejected, nothing has been fetched yet
    obtain rfl := hu (by rw [hpc]; rfl)
    have h_new := h_recv.idle (by simp [hpc]) (by simp [hpc])
    refine ⟨_, old, new, ⟨ls, hrun⟩, fun _ => rfl, h_recv.goto ?_ (fun _ => h_new) ?_ ?_⟩
    · intro i
      split <;> simp
    · split <;> simp
    · split <;> simp [ClientPc.stopped]
  | cancel hpc hint =>
    -- between two fetches the client stops
    obtain rfl := hu (by rw [hpc]; rfl)
    have h_new := h_recv.idle (by simp [hpc]) (by simp [hpc])
    exact ⟨_, old, new, ⟨ls, hrun⟩, fun h => absurd h (by simp [ClientPc.stopped]),
      h_recv.goto (by simp) (fun _ => h_new) (by simp) fun _ => hint⟩
  | fetch hpc hint =>
    obtain rfl := hu (by rw [hpc]; rfl)
    obtain rfl := h_recv.idle (by simp [hpc]) (by simp [hpc])
    -- the earlier fetches have been answered, so that the guard admits one more
    have h_answered : ∀ f ∈ s.request.store.fetches, f.pc = .answered := by
      rw [h_recv.split, List.append_nil]
      exact h_recv.answered
    have h_step : R.cascade.Step s.request (.env (.fetchBegin s.client.want))
        { s.request with store := fetchBegin s.request.store s.client.want } := .env rfl
    have h_run := hrun.append (.cons (hfetch _ _ h_answered) (Cascade.step_iff.mpr h_step) (.nil _))
    -- the new fetch is the one that the client now waits for
    obtain ⟨f, h_begin⟩ : ∃ f, (fetchBegin s.request.store s.client.want).fetches =
        s.request.store.fetches ++ [f] := by
      unfold fetchBegin
      split
      · exact ⟨_, rfl⟩
      · exact ⟨_, rfl⟩
    refine ⟨_, old, [f], ⟨_, h_run⟩, fun _ => rfl, ?_⟩
    show Receiving (fetchBegin s.request.store s.client.want).fetches _ _ _
    rw [h_begin]
    exact h_recv.fetch f
  | receive hpc hf hanswered =>
    -- its response moves from the new to the old ones
    obtain rfl := hu (by rw [hpc]; rfl)
    exact ⟨_, _, [], ⟨ls, hrun⟩, fun _ => rfl, h_recv.receive hpc hf hanswered⟩
  | canceled hpc =>
    -- the client has stopped before, and goes on to its end
    have h_new := h_recv.idle (by simp [hpc]) (by simp [hpc])
    exact ⟨u, old, new, ⟨ls, hrun⟩, fun h => absurd h (by simp [ClientPc.stopped]),
      h_recv.goto (by simp) (fun _ => h_new) (by simp)
        fun _ => h_recv.interrupted (by rw [hpc]; rfl)⟩
  | submitFails hpc =>
    -- a failed client prints nothing more, whatever comes in
    obtain rfl := hu (by rw [hpc]; rfl)
    exact ⟨_, old, new, ⟨ls, hrun⟩, fun _ => rfl,
      h_recv.goto (by simp) (fun h => absurd rfl h) (by simp) (by simp [ClientPc.stopped])⟩
  | fetchFails hpc =>
    obtain rfl := hu (by rw [hpc]; rfl)
    exact ⟨_, old, new, ⟨ls, hrun⟩, fun _ => rfl,
      h_recv.goto (by simp) (fun h => absurd rfl h) (by simp) (by simp [ClientPc.stopped])⟩
  | sigint =>
    -- the flag is all that a signal sets
    exact ⟨u, old, new, ⟨ls, hrun⟩, hu, { h_recv with interrupted := fun _ => rfl }⟩

end Projection

/-! ### What the client prints -/

section Prints

variable {R : Request Node Row} {c : Client Row} {old new : List (Fetch Row)}

/-- **Rows of distinct chunks are rows of the result.** -/
theorem ChunksInv.accepted_subperm {σ : Store Node Row} (hI : R.ChunksInv σ)
    (honce : (σ.log.map Deposit.key).Nodup) : (Request.accepted σ).Subperm R.rows := by
  let whole : Node × ℕ → List Row := fun key =>
    ((R.scan key.1).calls[key.2 - 1]?).elim [] SinkCall.rows
  -- each deposit is a part of a whole chunk
  have h_parts : (Request.accepted σ).Sublist ((σ.log.map Deposit.key).flatMap whole) := by
    rw [List.flatMap_map]
    refine List.Sublist.flatMap_right _ fun d hd => ?_
    obtain ⟨c, ⟨-, h_call⟩, h_prefix⟩ := hI.log d hd
    show d.accepted.Sublist (((R.scan d.producer).calls[d.seq - 1]?).elim [] _)
    rw [h_call]
    exact (hI.accepted d hd).trans h_prefix.sublist
  refine h_parts.subperm.trans ?_
  rw [rows_eq_chunks]
  refine flatMap_subperm (K := fun x y => x.1 = y.1 ∧ x.2 = y.2.val + 1) honce ?_ ?_
  · rintro ⟨n, k⟩ ⟨n', k'⟩ y ⟨rfl, rfl⟩ ⟨rfl, rfl⟩
    rfl
  · intro x hx
    obtain ⟨d, hd, rfl⟩ := List.mem_map.mp hx
    obtain ⟨c, ⟨h_seq, h_call⟩, -⟩ := hI.log d hd
    obtain ⟨hlt, h_get⟩ := List.getElem?_eq_some_iff.mp h_call
    refine ⟨⟨d.producer, ⟨d.seq - 1, hlt⟩⟩, List.mem_sigma.mpr ⟨hI.nodes d hd, List.mem_finRange _⟩,
      ⟨rfl, (Nat.succ_pred_eq_of_ne_zero h_seq).symm⟩, ?_⟩
    show ((R.scan d.producer).calls[d.seq - 1]).rows =
      ((R.scan d.producer).calls[d.seq - 1]?).elim [] SinkCall.rows
    rw [h_call, h_get]
    rfl

/-- What is returned is part of the result, at any time. -/
theorem ExactInv.returned_subperm_rows [DecidableEq Node] {s : State Node Row} (hI : R.ExactInv s) :
    (returned s.store).Subperm R.rows := by
  have h_once : (s.store.log.map Deposit.key).Nodup := by
    rw [List.nodup_iff_count_le_one]
    intro x
    have h_copies := hI.copies x
    rw [count_key]
    unfold Request.copies at h_copies
    omega
  -- it has been fetched, so it has been accepted before
  have h_accepted : (returned s.store).Subperm (accepted s.store) :=
    (returned_subperm.trans (List.sublist_append_left _ _).subperm).trans
      (hI.flow.flow hI.live).subperm
  exact h_accepted.trans (hI.chunks.accepted_subperm h_once)

/-- The client prints what is returned. -/
theorem Receiving.printed_sublist {σ : Store Node Row} (h : Receiving σ.fetches c old new) :
    c.printed.Sublist (returned σ) := by
  have h_old : old.filter (fun f => f.pc = .answered) = old :=
    List.filter_eq_self.mpr fun f hf => decide_eq_true (h.answered f hf)
  unfold returned
  rw [h.printed, h.split, List.filter_append, h_old, List.flatMap_append]
  exact List.sublist_append_left _ _

/-- Once it has received all responses, it has printed all of that. -/
theorem Receiving.printed_eq {σ : Store Node Row} (h : Receiving σ.fetches c old []) :
    c.printed = returned σ := by
  have h_old : old.filter (fun f => f.pc = .answered) = old :=
    List.filter_eq_self.mpr fun f hf => decide_eq_true (h.answered f hf)
  unfold returned
  rw [h.printed, h.split, List.append_nil, h_old]

/-- **The client prints the result.** Let the overlay be a tree, and the buffer at least as large
as the result. In every run in which nothing fails, is canceled or expires on the servers before
the client itself cancels its query, and whatever the client meets with, what it has printed are
rows of the result, none of them more often than the engines emit it; the total is their number,
in 64 bits; and when the client is done, it has printed all of them. -/
theorem client_prints_result [DecidableEq Node] (R : Request Node Row) (htree : R.overlay.IsTree)
    (hself : R.overlay.selfRoute ∉ R.overlay.nodes)
    (hcap : R.rows.length ≤ R.params.chunkBufferCap) {s : ClientState Node Row}
    (h : R.clientMachine.Reachable (Serving fun _ l => clean l = true) s) :
    s.client.printed.Subperm (R.overlay.nodes.flatMap fun n => (R.scan n).rows) ∧
      s.client.total = UInt64.ofNat s.client.printed.length ∧
      (s.client.pc = .done →
        s.client.printed.Perm (R.overlay.nodes.flatMap fun n => (R.scan n).rows)) := by
  -- a client fetches once at a time, so the request is not disturbed
  obtain ⟨u, old, new, h_reach, -, h_recv⟩ := client_projects (G := Undisturbed)
    (fun s l hcall hclean => by
      refine ⟨hclean, ?_⟩
      unfold OneClient
      split
      · exact absurd hcall (by simp [clientCall])
      · trivial) (fun s maxRows hanswered => ⟨rfl, hanswered⟩) h
  have hI : R.ExactInv u := .reachable htree hself hcap h_reach
  refine ⟨h_recv.printed_sublist.subperm.trans hI.returned_subperm_rows, h_recv.total, ?_⟩
  intro hdone
  -- a client that is done has received a final response
  obtain ⟨f, hf, hfinal⟩ := h_recv.final hdone
  obtain rfl := h_recv.idle (by simp [hdone]) (by simp [hdone])
  rw [h_recv.printed_eq]
  refine hI.returned_perm f ?_ (h_recv.answered f hf) hfinal
  rw [h_recv.split, List.append_nil]
  exact hf

/-- The client fetches once the query has gone down the row, and prints the one row of its end. -/
theorem client_prints_result_chain :
    ∃ s, rowAtEnd.clientMachine.Reachable (Serving fun _ l => clean l = true) s ∧
      s.client.pc = .done ∧ s.client.printed.Perm [1] := by
  obtain ⟨s, hrun, hdone⟩ := Machine.exists_run_of_exec (M := rowAtEnd.clientMachine)
    (P := Serving fun _ l => clean l = true) (s := rowAtEnd.clientMachine.init)
    (l := overChain.map .request ++ [.submitted, .loop] ++
      List.replicate 8 (.request (.env (.fetch 0 100))) ++ [.receive])
    (Φ := fun s => s.client.pc = .done) (by decide +kernel)
  exact ⟨s, ⟨_, hrun⟩, hdone, (client_prints_result rowAtEnd Overlay.chain_isTree (by decide)
    (by decide) ⟨_, hrun⟩).2.2 hdone⟩

end Prints

end Request
end Mini2
