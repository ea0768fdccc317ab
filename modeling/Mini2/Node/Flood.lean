import Mini2.Framework.CascadeBound
import Mini2.Node.RequestStep

/-!
# The flood of a request

`SubmitQuery` starts a flood of `ForwardQuery` calls. This module is about the
calls and the routes, in every interleaving of the handlers: messages may be
delayed, callers may give up while the callee goes on, and two handlers on one
node may both pass the dup check before either inserts its route.

* `TaskValid` — what every forward carries: a duplicate-free list of overlay
  nodes that starts with the portal, and the neighbour that sent it. Each hop
  adds a node, so a flood ends (`forwardRanking`).
* `FloodInv` — every node that a forward has visited, or that has rejected one,
  has a route, and every route comes from a handler past its insert. On it rests
  `FloodInv.covers`: a flood that has come to rest has reached every live node that
  live nodes join to the portal.
-/

namespace Mini2

open Framework

variable {Node Row : Type*}

/-! ### What a forward carries -/

/-- What holds of every `ForwardQuery` to `n`. -/
structure ForwardQueryRequest.Valid (O : Overlay Node) (n : Node)
    (req : ForwardQueryRequest Node) : Prop where
  nodup : req.visited.Nodup
  head : req.visited.head? = some O.portal
  mem_nodes : ∀ v ∈ req.visited, v ∈ O.nodes
  from_mem : req.fromNode ∈ req.visited
  peer : n ∈ O.nbrs req.fromNode

namespace ForwardQueryRequest.Valid

variable {O : Overlay Node} {n : Node} {req : ForwardQueryRequest Node}

theorem portal_mem (h : req.Valid O n) : O.portal ∈ req.visited :=
  List.mem_of_mem_head? h.head

/-- A forwarding chain has at most as many hops as there are nodes. -/
theorem length_le (h : req.Valid O n) : req.visited.length ≤ O.nodes.length :=
  (h.nodup.subperm h.mem_nodes).length_le

/-- A forward that its node has not been visited by leaves room for one more hop. -/
theorem length_lt (h : req.Valid O n) (hn : n ∉ req.visited) :
    req.visited.length < O.nodes.length := by
  have h_nodup : (n :: req.visited).Nodup := List.nodup_cons.mpr ⟨hn, h.nodup⟩
  have h_sub : ∀ v ∈ n :: req.visited, v ∈ O.nodes := by
    intro v hv
    rcases List.mem_cons.mp hv with rfl | hv
    · exact O.nbrs_mem h.peer
    · exact h.mem_nodes v hv
  exact (h_nodup.subperm h_sub).length_le

end ForwardQueryRequest.Valid

namespace Request

variable [DecidableEq Node] {R : Request Node Row}

/-- What holds of every task. -/
def TaskValid (R : Request Node Row) (n : Node) : Task Node → Prop
  | .submitQuery => n = R.overlay.portal
  | .forwardQuery req => req.Valid R.overlay n

/-- The forwards of `SubmitQuery`. -/
theorem mem_outgoing_submit {n : Node} {q : Node × Task Node} :
    q ∈ R.outgoing n .submitQuery ↔
      ∃ nb ∈ R.overlay.nbrs n, q = (nb, .forwardQuery ⟨n, [n], 16⟩) := by
  simp only [outgoing, List.mem_map]
  exact ⟨fun ⟨nb, h, e⟩ => ⟨nb, h, e.symm⟩, fun ⟨nb, h, e⟩ => ⟨nb, h, e.symm⟩⟩

/-- The forwards of `ForwardQuery`. -/
theorem mem_outgoing_forward {n : Node} {req : ForwardQueryRequest Node}
    {q : Node × Task Node} :
    q ∈ R.outgoing n (.forwardQuery req) ↔
      ∃ nb ∈ R.overlay.nbrs n, (nb ≠ req.fromNode ∧ nb ∉ req.visited ++ [n]) ∧
        q = (nb, .forwardQuery
          ⟨n, req.visited ++ [n], if req.ttl = 0 then 0 else req.ttl - 1⟩) := by
  simp only [outgoing, List.mem_map, List.mem_filter, decide_eq_true_eq]
  constructor
  · rintro ⟨nb, ⟨hnb, hskip⟩, rfl⟩
    exact ⟨nb, hnb, hskip, rfl⟩
  · rintro ⟨nb, hnb, hskip, rfl⟩
    exact ⟨nb, ⟨hnb, hskip⟩, rfl⟩

/-- The forwards that `ForwardQuery` lets through. -/
theorem check_forward_eq_none {σ : Store Node Row} {n : Node}
    {req : ForwardQueryRequest Node} :
    check σ n (.forwardQuery req) = none ↔ n ∉ req.visited ∧ σ.routes n = none := by
  unfold check
  by_cases hloop : n ∈ req.visited
  · simp [hloop]
  · cases hroute : σ.routes n <;> simp [hloop]

/-- Every forward carries what it should, because the one it comes from does. -/
theorem TaskValid.inherit (σ : Store Node Row) (n : Node) (m : Task Node)
    (hv : R.TaskValid n m) (hcheck : check σ n m = none) (q : Node × Task Node)
    (hq : q ∈ R.outgoing n m) : R.TaskValid q.1 q.2 := by
  cases m with
  | submitQuery =>
    obtain ⟨nb, hnb, rfl⟩ := mem_outgoing_submit.mp hq
    obtain rfl : n = R.overlay.portal := hv
    exact ⟨List.nodup_singleton _, rfl,
      fun v hv => List.mem_singleton.mp hv ▸ R.overlay.portal_mem,
      List.mem_singleton_self _, hnb⟩
  | forwardQuery req =>
    obtain ⟨nb, hnb, -, rfl⟩ := mem_outgoing_forward.mp hq
    have hv : req.Valid R.overlay n := hv
    -- a node that is on the path already refuses the call
    have hn := (check_forward_eq_none.mp hcheck).1
    constructor
    · exact List.nodup_append.mpr ⟨hv.nodup, List.nodup_singleton n, by
        intro a ha b hb hab
        rw [hab, List.mem_singleton.mp hb] at ha
        exact hn ha⟩
    · have h_ne : req.visited ≠ [] := List.ne_nil_of_mem hv.from_mem
      rw [List.head?_append_of_ne_nil _ h_ne]
      exact hv.head
    · intro v h_mem
      rcases List.mem_append.mp h_mem with h_mem | h_mem
      · exact hv.mem_nodes v h_mem
      · rw [List.mem_singleton.mp h_mem]
        exact R.overlay.nbrs_mem hv.peer
    · exact List.mem_append_right _ (List.mem_singleton_self n)
    · exact hnb

/-- The hops a forward has left. -/
def hopsLeft (R : Request Node Row) (_n : Node) : Task Node → ℕ
  | .submitQuery => R.overlay.nodes.length
  | .forwardQuery req => R.overlay.nodes.length - req.visited.length

/-- **Every hop uses up a node.** -/
theorem hopsLeft_descend (σ : Store Node Row) (n : Node) (m : Task Node)
    (hv : R.TaskValid n m) (hcheck : check σ n m = none) (q : Node × Task Node)
    (hq : q ∈ R.outgoing n m) : R.hopsLeft q.1 q.2 < R.hopsLeft n m := by
  cases m with
  | submitQuery =>
    obtain ⟨nb, hnb, rfl⟩ := mem_outgoing_submit.mp hq
    -- the portal is a node itself, so a hop is left
    have h_pos : 0 < R.overlay.nodes.length := List.length_pos_of_mem R.overlay.portal_mem
    simp only [hopsLeft, List.length_singleton]
    omega
  | forwardQuery req =>
    obtain ⟨nb, hnb, -, rfl⟩ := mem_outgoing_forward.mp hq
    have hv : req.Valid R.overlay n := hv
    -- a path without repetitions that misses a node is shorter than their list
    have h_lt := hv.length_lt (check_forward_eq_none.mp hcheck).1
    simp only [hopsLeft, List.length_append, List.length_singleton]
    omega

/-- The ranking of a flood. -/
def forwardRanking (R : Request Node Row) : Cascade.Ranking R.cascade where
  valid := R.TaskValid
  rank := R.hopsLeft
  fan := R.overlay.nodes.length
  fan_le n m _ := by
    have h_le := R.overlay.nbrs_length_le n
    cases m with
    | submitQuery => simpa [cascade, outgoing] using h_le
    | forwardQuery req =>
      simp only [cascade, outgoing, List.length_map]
      exact (List.length_filter_le _ _).trans h_le
  inherit := TaskValid.inherit
  descend := hopsLeft_descend

/-! ### What the surroundings leave alone -/

section Frame

variable {σ σ' : Store Node Row} {e : Event Node}

theorem EnvStep.routes_eq (h : R.EnvStep σ e σ') : σ'.routes = σ.routes := by
  cases h <;> rfl

/-- Only the handlers start workers. -/
theorem EnvStep.nodes_eq (h : R.EnvStep σ e σ') :
    σ'.workers.map Worker.node = σ.workers.map Worker.node := by
  rcases h.workers_cases with heq | ⟨k, w, w', hmove, heq⟩
  · rw [heq]
  · rw [heq]
    exact map_set_eq hmove.get hmove.node

end Frame

/-! ### The invariant of the flood -/

/-- One call of the flood, as the routes and the workers bear it out. -/
structure CallOk (σ : Store Node Row)
    (c : Cascade.Call Node (Task Node) (ForwardQueryAck Node)) : Prop where
  /-- The handler of `SubmitQuery` is past its sections. -/
  root : c.msg = .submitQuery → c.pc.committed
  /-- The nodes a forward has visited have routes. -/
  visited : ∀ req, c.msg = .forwardQuery req → ∀ v ∈ req.visited, (σ.routes v).isSome
  /-- A handler past its insert has a route. -/
  routed : c.pc.committed → (σ.routes c.dst).isSome
  /-- A node that rejects a forward has a route. -/
  refused : ∀ r, c.pc = .refused r → (σ.routes c.dst).isSome
  /-- A handler that has answered has started a worker. -/
  started : ∀ r, c.pc = .returned r → ∃ w ∈ σ.workers, w.node = c.dst

section CallOk

omit [DecidableEq Node]

variable {σ : Store Node Row} {c : Cascade.Call Node (Task Node) (ForwardQueryAck Node)}

theorem CallOk.mono {σ' : Store Node Row} (h : CallOk σ c)
    (hroutes : ∀ v, (σ.routes v).isSome → (σ'.routes v).isSome)
    (hworkers : ∀ v, v ∈ σ.workers.map Worker.node → v ∈ σ'.workers.map Worker.node) :
    CallOk σ' c where
  root := h.root
  visited req hreq v hv := hroutes v (h.visited req hreq v hv)
  routed hcomm := hroutes _ (h.routed hcomm)
  refused r hr := hroutes _ (h.refused r hr)
  started r hr := by
    have h_mem : c.dst ∈ σ.workers.map Worker.node := List.mem_map.mpr (h.started r hr)
    exact List.mem_map.mp (hworkers _ h_mem)

/-- A forward in flight, whose visited nodes have routes. -/
theorem CallOk.forward {n : Node} {req : ForwardQueryRequest Node}
    (h : ∀ v ∈ req.visited, (σ.routes v).isSome) : CallOk σ ⟨n, .forwardQuery req, .sent⟩ where
  root hm := absurd hm (by simp)
  visited req' hreq := by
    obtain rfl := Task.forwardQuery.inj hreq
    exact h
  routed hcomm := absurd hcomm (by simp [Cascade.Pc.committed])
  refused r hr := absurd hr (by simp)
  started r hr := absurd hr (by simp)

/-- A handler past its insert goes on, and has not answered yet. -/
theorem CallOk.goOn {pc : Cascade.Pc Node (Task Node) (ForwardQueryAck Node)} (h : CallOk σ c)
    (hrouted : (σ.routes c.dst).isSome) (hpc : pc.committed) (hanswer : pc.answer = none) :
    CallOk σ { c with pc := pc } where
  root _ := hpc
  visited := h.visited
  routed _ := hrouted
  refused r hr := by
    obtain rfl : pc = .refused r := hr
    exact absurd hanswer (by simp [Cascade.Pc.answer])
  started r hr := by
    obtain rfl : pc = .returned r := hr
    exact absurd hanswer (by simp [Cascade.Pc.answer])

/-- A call whose handler is not past its insert is a forward. -/
theorem CallOk.exists_forward (h : CallOk σ c) (hpc : c.pc.committed = false) :
    ∃ req, c.msg = .forwardQuery req := by
  cases hm : c.msg with
  | submitQuery =>
    have h_comm := h.root hm
    rw [hpc] at h_comm
    exact absurd h_comm (by simp)
  | forwardQuery req => exact ⟨req, rfl⟩

end CallOk

/-- The bookkeeping of the flood of a request. -/
structure FloodInv (R : Request Node Row) (s : State Node Row) : Prop where
  shape : Cascade.Shape R.cascade [(R.overlay.portal, .submitQuery)] s.calls
  valid : ∀ c ∈ s.calls, R.TaskValid c.dst c.msg
  calls : ∀ c ∈ s.calls, CallOk s.store c
  /-- The portal's own entry is never overwritten. -/
  portal : s.store.routes R.overlay.portal = some ⟨R.overlay.selfRoute, [R.overlay.portal]⟩
  /-- Every route comes from a handler past its insert. -/
  source : ∀ n, (s.store.routes n).isSome → ∃ c ∈ s.calls, c.dst = n ∧ c.pc.committed

theorem FloodInv.initial (R : Request Node Row) : R.FloodInv R.start where
  shape :=
    { passed := by
        intro c hc _
        obtain rfl := List.mem_singleton.mp hc
        exact ⟨R.startStore, rfl⟩
      todo := by
        intro c hc
        obtain rfl := List.mem_singleton.mp hc
        exact List.suffix_rfl
      covered := by
        intro c hc _ q hq
        obtain rfl := List.mem_singleton.mp hc
        exact Or.inl hq
      origin := by
        intro d hd
        obtain rfl := List.mem_singleton.mp hd
        exact Or.inl (List.mem_singleton_self _) }
  valid := by
    intro c hc
    obtain rfl := List.mem_singleton.mp hc
    rfl
  calls := by
    intro c hc
    obtain rfl := List.mem_singleton.mp hc
    exact ⟨fun _ => rfl, fun req h => absurd h (by simp), fun _ => by simp [start, startStore],
      fun r h => absurd h (by simp), fun r h => absurd h (by simp)⟩
  portal := by simp [start, startStore]
  source := by
    intro n hn
    refine ⟨_, List.mem_singleton_self _, ?_, rfl⟩
    -- only the portal knows a route before the first step
    by_contra hdst
    have hne : n ≠ R.overlay.portal := fun h => hdst h.symm
    have h_none : R.startStore.routes n = none := by simp [startStore, hne]
    have hn : (R.startStore.routes n).isSome := hn
    rw [h_none] at hn
    exact absurd hn (by simp)

section Step

variable {s s' : State Node Row} {l : Label Node}

/-- A `ForwardQuery` handler inserts its route, and nothing else touches a route. -/
theorem routes_cases (h : R.cascade.Step s l s') :
    s'.store.routes = s.store.routes ∨
      ∃ i c req, s.calls[i]? = some c ∧ c.pc = .admitted ∧ c.msg = .forwardQuery req ∧
        s'.calls = s.calls.set i { c with pc := .calling (R.outgoing c.dst c.msg) } ∧
        s'.store.routes =
          Function.update s.store.routes c.dst (some ⟨req.fromNode, req.visited ++ [c.dst]⟩) := by
  cases h with
  | @commit i c hc hpc =>
    obtain ⟨dst, msg, pc⟩ := c
    cases msg with
    -- the portal's own route was there from the start
    | submitQuery => exact Or.inl rfl
    | forwardQuery req => exact Or.inr ⟨i, _, req, hc, hpc, rfl, rfl, rfl⟩
  | env he => exact Or.inl (env_cases he).routes_eq
  | _ => exact Or.inl rfl

/-- An action takes no route away. -/
theorem routes_mono (h : R.cascade.Step s l s') {v : Node} (hv : (s.store.routes v).isSome) :
    (s'.store.routes v).isSome := by
  rcases routes_cases h with heq | ⟨i, c, req, -, -, -, -, heq⟩
  · rwa [heq]
  · rw [heq]
    by_cases hdst : v = c.dst
    · subst hdst; simp
    · rwa [Function.update_of_ne hdst]

/-- An action takes no worker away. -/
theorem nodes_mono (h : R.cascade.Step s l s') {v : Node}
    (hv : v ∈ s.store.workers.map Worker.node) : v ∈ s'.store.workers.map Worker.node := by
  cases h with
  | @finish i c hc hpc =>
    change v ∈ (s.store.workers ++ [_]).map Worker.node
    rw [List.map_append]
    exact List.mem_append_left _ hv
  | env he => exact (env_cases he).nodes_eq.symm ▸ hv
  | _ => exact hv

/-- A node at which the first section answers has a route: it has been visited, or
the dup check has found its route. -/
theorem CallOk.refusal {σ : Store Node Row} {r : ForwardQueryAck Node}
    {c : Cascade.Call Node (Task Node) (ForwardQueryAck Node)} (h : CallOk σ c)
    (hpc : c.pc.committed = false) (hcheck : check σ c.dst c.msg = some r) :
    (σ.routes c.dst).isSome := by
  obtain ⟨req, hreq⟩ := h.exists_forward hpc
  by_contra hnone
  have h_fresh : c.dst ∉ req.visited := fun hmem => hnone (h.visited req hreq _ hmem)
  have h_none : check σ c.dst c.msg = none := by
    rw [hreq]
    exact check_forward_eq_none.mpr ⟨h_fresh, Option.not_isSome_iff_eq_none.mp hnone⟩
  rw [h_none] at hcheck
  exact absurd hcheck (by simp)

/-- A forward that a handler past its insert sends has visited nodes with routes. -/
theorem CallOk.outgoing {σ : Store Node Row}
    {c : Cascade.Call Node (Task Node) (ForwardQueryAck Node)} {q : Node × Task Node}
    (h : CallOk σ c) (hcomm : c.pc.committed) (hq : q ∈ R.outgoing c.dst c.msg) :
    CallOk σ ⟨q.1, q.2, .sent⟩ := by
  have h_routed := h.routed hcomm
  cases hm : c.msg with
  | submitQuery =>
    rw [hm] at hq
    obtain ⟨nb, -, rfl⟩ := mem_outgoing_submit.mp hq
    refine .forward fun v hv => ?_
    rw [List.mem_singleton.mp hv]
    exact h_routed
  | forwardQuery req =>
    rw [hm] at hq
    obtain ⟨nb, -, -, rfl⟩ := mem_outgoing_forward.mp hq
    refine .forward fun v hv => ?_
    -- the nodes that the handler's own forward has visited, and the handler's node
    rcases List.mem_append.mp hv with hv | hv
    · exact h.visited req hm v hv
    · rw [List.mem_singleton.mp hv]
      exact h_routed

/-- What the calls rest on is kept by every action. -/
theorem CallOk.step (hI : R.FloodInv s) (h : R.cascade.Step s l s') :
    ∀ c ∈ s'.calls, CallOk s'.store c := by
  have h_old : ∀ c ∈ s.calls, CallOk s'.store c :=
    fun c hc => (hI.calls c hc).mono (fun _ => routes_mono h) (fun _ => nodes_mono h)
  cases h with
  | @check i c hc hpc =>
    have h_c := h_old c (List.mem_of_getElem? hc)
    have h_pc : c.pc.committed = false := by rw [hpc]; rfl
    obtain ⟨req, hreq⟩ := h_c.exists_forward h_pc
    intro d hd
    rcases List.mem_or_eq_of_mem_set hd with hd | rfl
    · exact h_old d hd
    have h_root : c.msg ≠ .submitQuery := by rw [hreq]; simp
    unfold Cascade.checkPc
    cases hcheck : R.cascade.check s.store c.dst c.msg with
    | none =>
      exact ⟨fun h => absurd h h_root, h_c.visited,
        fun h => absurd h (by simp [Cascade.Pc.committed]), fun r h => absurd h (by simp),
        fun r h => absurd h (by simp)⟩
    | some r =>
      exact ⟨fun h => absurd h h_root, h_c.visited,
        fun h => absurd h (by simp [Cascade.Pc.committed]),
        fun _ _ => h_c.refusal h_pc hcheck, fun r h => absurd h (by simp)⟩
  | @commit i c hc hpc =>
    -- the second section has just inserted the route
    have h_c := h_old c (List.mem_of_getElem? hc)
    obtain ⟨req, hreq⟩ := h_c.exists_forward (by rw [hpc]; rfl)
    have h_routed : ((commit s.store c.dst c.msg).routes c.dst).isSome := by
      rw [hreq]
      simp [commit]
    intro d hd
    rcases List.mem_or_eq_of_mem_set hd with hd | rfl
    · exact h_old d hd
    · exact h_c.goOn h_routed rfl rfl
  | @send i c p m todo hc hpc =>
    have hcL := List.mem_of_getElem? hc
    have h_c := h_old c hcL
    have h_comm : c.pc.committed := by rw [hpc]; rfl
    intro d hd
    rcases Cascade.mem_moved hd with hd | rfl | hd
    · exact h_old d hd
    · exact h_c.goOn (h_c.routed h_comm) rfl rfl
    · obtain rfl := List.mem_singleton.mp hd
      have h_out : (p, m) ∈ R.outgoing c.dst c.msg := by
        have h_todo := hI.shape.todo c hcL
        rw [hpc] at h_todo
        exact h_todo.subset List.mem_cons_self
      exact h_c.outgoing h_comm h_out
  | @collect i id c d todo r hc hpc hd hr =>
    have h_c := h_old c (List.mem_of_getElem? hc)
    intro e he
    rcases List.mem_or_eq_of_mem_set he with he | rfl
    · exact h_old e he
    · exact h_c.goOn (h_c.routed (by rw [hpc]; rfl)) rfl rfl
  | @expire i id c d todo hc hpc hd =>
    have h_c := h_old c (List.mem_of_getElem? hc)
    intro e he
    rcases List.mem_or_eq_of_mem_set he with he | rfl
    · exact h_old e he
    · exact h_c.goOn (h_c.routed (by rw [hpc]; rfl)) rfl rfl
  | @finish i c hc hpc =>
    -- the last section has just started the worker
    have h_c := h_old c (List.mem_of_getElem? hc)
    intro d hd
    rcases List.mem_or_eq_of_mem_set hd with hd | rfl
    · exact h_old d hd
    · refine ⟨fun _ => rfl, h_c.visited, fun _ => h_c.routed (by rw [hpc]; rfl),
        fun r h => absurd h (by simp), fun r h => ?_⟩
      exact ⟨_, List.mem_append_right _ (List.mem_singleton_self _), rfl⟩
  | env he => exact h_old

/-- A handler between its two sections has not been visited by its forward. -/
theorem FloodInv.fresh_of_admitted (hI : R.FloodInv s)
    {c : Cascade.Call Node (Task Node) (ForwardQueryAck Node)} (hc : c ∈ s.calls)
    (hpc : c.pc = .admitted) {req : ForwardQueryRequest Node} (hm : c.msg = .forwardQuery req) :
    c.dst ∉ req.visited := by
  obtain ⟨σ, hσ⟩ := hI.shape.passed c hc (by rw [hpc]; rfl)
  rw [hm] at hσ
  exact (check_forward_eq_none.mp hσ).1

/-- **The flood invariant is preserved by every action.** -/
theorem FloodInv.step (hI : R.FloodInv s) (h : R.cascade.Step s l s') : R.FloodInv s' where
  shape := hI.shape.step h
  valid := Cascade.valid_step TaskValid.inherit hI.shape hI.valid h
  calls := CallOk.step hI h
  portal := by
    rcases routes_cases h with heq | ⟨i, c, req, hc, hpc, hm, -, heq⟩
    · rw [heq]; exact hI.portal
    · -- no forward gets past the loop check on the portal
      have hcL := List.mem_of_getElem? hc
      have h_valid := hI.valid c hcL
      rw [hm] at h_valid
      have h_ne : R.overlay.portal ≠ c.dst := fun h_eq =>
        hI.fresh_of_admitted hcL hpc hm (h_eq ▸ h_valid.portal_mem)
      rw [heq, Function.update_of_ne h_ne]
      exact hI.portal
  source := by
    intro n hn
    have h_new : (s.store.routes n).isSome ∨ ∃ i c, s.calls[i]? = some c ∧ c.dst = n ∧
        s'.calls = s.calls.set i { c with pc := .calling (R.outgoing c.dst c.msg) } := by
      rcases routes_cases h with heq | ⟨i, c, req, hc, -, -, hcalls, heq⟩
      · exact Or.inl (heq ▸ hn)
      · by_cases hdst : c.dst = n
        · exact Or.inr ⟨i, c, hc, hdst, hcalls⟩
        · rw [heq, Function.update_of_ne (Ne.symm hdst)] at hn
          exact Or.inl hn
    rcases h_new with hn | ⟨i, c, hc, hdst, heq⟩
    · obtain ⟨c, hc, hdst, hcomm⟩ := hI.source n hn
      rcases h.calls_cases with ⟨-, heq⟩ | ⟨i, e, pc, new, he, hmove, heq⟩
      · exact ⟨c, heq ▸ hc, hdst, hcomm⟩
      · rw [heq]
        by_cases hce : c = e
        · subst hce
          exact ⟨_, Cascade.moved_mem he, hdst, hmove.committed_mono hcomm⟩
        · obtain ⟨c', hc', hdst', -, hsame⟩ :=
            Cascade.exists_moved pc new he hc
          exact ⟨c', hc', hdst'.trans hdst, by rw [hsame hce]; exact hcomm⟩
    · refine ⟨{ c with pc := .calling (R.outgoing c.dst c.msg) }, ?_, hdst, rfl⟩
      have h_mem : { c with pc := .calling (R.outgoing c.dst c.msg) } ∈
          s.calls.set i { c with pc := .calling (R.outgoing c.dst c.msg) } ++ [] :=
        Cascade.moved_mem hc
      rwa [List.append_nil, ← heq] at h_mem

/-- Every run of a request keeps the flood invariant. -/
theorem FloodInv.reachable {P : State Node Row → Label Node → Prop}
    (h : R.machine.Reachable P s) : R.FloodInv s :=
  h.invariant R.FloodInv (FloodInv.initial R)
    fun _ _ _ hI _ hstep => hI.step (Cascade.step_iff.mp hstep)

end Step

end Request
end Mini2
