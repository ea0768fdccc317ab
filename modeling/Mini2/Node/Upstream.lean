import Mini2.Node.Flood
import Mini2.Overlay.Config

/-!
# Where the upstream pointers lead

A route entry can be overwritten: two forwards of one request may both be past
the dup check of a node when the first of them inserts its route. The pointers
therefore form no fixed tree. What survives is the order of the *first* inserts
(`UpstreamInv`): a forward is sent by a node that has its route already, so the
sender's first insert comes before that of the node, whichever forward's insert
is the last.

* `UpstreamInv.reaches` — following the pointers leads to the portal.
* `UpstreamInv.acyclic` — and never back to where one has been.
-/

namespace Mini2
namespace Request

open Framework

variable {Node Row : Type*} [DecidableEq Node] {R : Request Node Row}
  {s s' : State Node Row} {l : Label Node}

/-- `PushChunk` on `a` relays to `b`. -/
def Follows (R : Request Node Row) (s : State Node Row) (a b : Node) : Prop :=
  a ≠ R.overlay.portal ∧ ∃ route, s.store.routes a = some route ∧ route.upstreamPeer = b

/-- `rank` orders the nodes by their first route insert. -/
structure FirstInserts (R : Request Node Row) (s : State Node Row) (rank : Node → ℕ)
    (bound : ℕ) : Prop where
  lt_bound : ∀ n, (s.store.routes n).isSome → rank n < bound
  /-- The upstream node is a neighbour whose first insert came before. -/
  route : ∀ n r, s.store.routes n = some r → n ≠ R.overlay.portal →
    R.overlay.Adj n r.upstreamPeer ∧ (s.store.routes r.upstreamPeer).isSome ∧
      rank r.upstreamPeer < rank n
  /-- So it will be for a handler that is about to overwrite a route. -/
  admitted : ∀ c ∈ s.calls, ∀ req, c.msg = .forwardQuery req → c.pc = .admitted →
    (s.store.routes c.dst).isSome → rank req.fromNode < rank c.dst

/-- The nodes with a route can be ranked by their first inserts. -/
def UpstreamInv (R : Request Node Row) (s : State Node Row) : Prop :=
  ∃ rank bound, R.FirstInserts s rank bound

theorem UpstreamInv.initial (R : Request Node Row) : R.UpstreamInv R.start := by
  refine ⟨fun _ => 0, 1, fun _ _ => Nat.zero_lt_one, ?_, ?_⟩
  · intro n r hr hn
    have h_none : R.startStore.routes n = none := by simp [startStore, hn]
    have hr : R.startStore.routes n = some r := hr
    rw [h_none] at hr
    exact absurd hr (by simp)
  · intro c hc req _ hpc
    obtain rfl := List.mem_singleton.mp hc
    exact absurd hpc (by simp)

/-- A handler that has just passed the dup check finds no route. -/
theorem admitted_cases (h : R.cascade.Step s l s')
    {c : Cascade.Call Node (Task Node) (ForwardQueryAck Node)} (hc : c ∈ s'.calls)
    (hpc : c.pc = .admitted) {req : ForwardQueryRequest Node} (hm : c.msg = .forwardQuery req) :
    c ∈ s.calls ∨ s.store.routes c.dst = none := by
  rcases h.calls_cases with ⟨-, heq⟩ | ⟨i, d, pc, new, hd, hmove, heq⟩
  · exact Or.inl (heq ▸ hc)
  · rw [heq] at hc
    rcases Cascade.mem_moved hc with hold | rfl | hnew
    · exact Or.inl hold
    · cases hmove with
      -- it has passed the check with this action
      | admitted _ hcheck =>
        have hcheck : check s.store d.dst d.msg = none := hcheck
        have hm : d.msg = .forwardQuery req := hm
        rw [hm] at hcheck
        exact Or.inr (check_forward_eq_none.mp hcheck).2
      | _ => exact absurd hpc (by simp)
    · cases hmove with
      | sent _ =>
        rw [List.mem_singleton.mp hnew] at hpc
        exact absurd hpc (by simp)
      | _ => exact absurd hnew List.not_mem_nil

/-- The sender of a forward has a route. -/
theorem FloodInv.from_routed (hF : R.FloodInv s)
    {c : Cascade.Call Node (Task Node) (ForwardQueryAck Node)} (hc : c ∈ s.calls)
    {req : ForwardQueryRequest Node} (hm : c.msg = .forwardQuery req) :
    req.Valid R.overlay c.dst ∧ (s.store.routes req.fromNode).isSome := by
  have h_valid := hF.valid c hc
  rw [hm] at h_valid
  exact ⟨h_valid, (hF.calls c hc).visited req hm _ h_valid.from_mem⟩

/-- The ranks stay as they are while the routes do. -/
theorem FirstInserts.keep {rank : Node → ℕ} {bound : ℕ} (hI : R.FirstInserts s rank bound)
    (h : R.cascade.Step s l s') (heq : s'.store.routes = s.store.routes) :
    R.FirstInserts s' rank bound := by
  constructor
  · rw [heq]
    exact hI.lt_bound
  · rw [heq]
    exact hI.route
  · intro c hc req hm hpc hn
    rw [heq] at hn
    -- a call that is admitted now has found no route
    rcases admitted_cases h hc hpc hm with hc | h_none
    · exact hI.admitted c hc req hm hpc hn
    · rw [h_none] at hn
      exact absurd hn (by simp)

/-- **An insert over an old entry** keeps the ranks. -/
theorem FirstInserts.overwrite {rank : Node → ℕ} {bound i : ℕ}
    {c : Cascade.Call Node (Task Node) (ForwardQueryAck Node)} {req : ForwardQueryRequest Node}
    (hF : R.FloodInv s) (hI : R.FirstInserts s rank bound) (h : R.cascade.Step s l s')
    (hc : s.calls[i]? = some c) (hpc : c.pc = .admitted) (hm : c.msg = .forwardQuery req)
    (hroutes : s'.store.routes =
      Function.update s.store.routes c.dst (some ⟨req.fromNode, req.visited ++ [c.dst]⟩))
    (hold : (s.store.routes c.dst).isSome) : R.FirstInserts s' rank bound := by
  have hcL := List.mem_of_getElem? hc
  obtain ⟨h_valid, h_from⟩ := hF.from_routed hcL hm
  -- the same nodes have a route
  have h_iff : ∀ n, (s'.store.routes n).isSome ↔ (s.store.routes n).isSome := by
    intro n
    rw [hroutes]
    by_cases hn : n = c.dst
    · subst hn; simp [hold]
    · rw [Function.update_of_ne hn]
  constructor
  · exact fun n hn => hI.lt_bound n ((h_iff n).mp hn)
  · intro n r hr hn
    rw [hroutes] at hr
    rw [h_iff]
    -- the new route leads to a node that had one before the call was admitted
    by_cases hdst : n = c.dst
    · subst hdst
      rw [Function.update_self] at hr
      obtain rfl := Option.some.inj hr
      exact ⟨R.overlay.nbrs_symm h_valid.peer, h_from, hI.admitted c hcL req hm hpc hold⟩
    · rw [Function.update_of_ne hdst] at hr
      exact hI.route n r hr hn
  · intro d hd req' hm' hpc' hn
    rw [h_iff] at hn
    -- a call that is admitted now has found no route
    rcases admitted_cases h hd hpc' hm' with hd | h_none
    · exact hI.admitted d hd req' hm' hpc' hn
    · rw [h_none] at hn
      exact absurd hn (by simp)

/-- **The first insert of a node** comes after those of all nodes routed so far. -/
theorem FirstInserts.insert {rank : Node → ℕ} {bound i : ℕ}
    {c : Cascade.Call Node (Task Node) (ForwardQueryAck Node)} {req : ForwardQueryRequest Node}
    (hF : R.FloodInv s) (hI : R.FirstInserts s rank bound)
    (hc : s.calls[i]? = some c) (hm : c.msg = .forwardQuery req)
    (hcalls : s'.calls = s.calls.set i { c with pc := .calling (R.outgoing c.dst c.msg) })
    (hroutes : s'.store.routes =
      Function.update s.store.routes c.dst (some ⟨req.fromNode, req.visited ++ [c.dst]⟩))
    (hnew : s.store.routes c.dst = none) :
    R.FirstInserts s' (Function.update rank c.dst bound) (bound + 1) := by
  have hcL := List.mem_of_getElem? hc
  obtain ⟨h_valid, h_from⟩ := hF.from_routed hcL hm
  -- whoever had a route before keeps the rank, and is not the new node
  have h_ne : ∀ n, (s.store.routes n).isSome → n ≠ c.dst := by
    rintro n hn rfl
    rw [hnew] at hn
    exact absurd hn (by simp)
  have h_rank : ∀ n, (s.store.routes n).isSome → Function.update rank c.dst bound n = rank n :=
    fun n hn => Function.update_of_ne (h_ne n hn) _ _
  have h_keep : ∀ n, (s.store.routes n).isSome → (s'.store.routes n).isSome := by
    intro n hn
    rw [hroutes, Function.update_of_ne (h_ne n hn)]
    exact hn
  constructor
  · intro n hn
    by_cases hdst : n = c.dst
    · rw [hdst, Function.update_self]
      -- the new rank is the greatest
      exact Nat.lt_succ_self bound
    · rw [hroutes, Function.update_of_ne hdst] at hn
      rw [h_rank n hn]
      exact Nat.lt_succ_of_lt (hI.lt_bound n hn)
  · intro n r hr hn
    rw [hroutes] at hr
    by_cases hdst : n = c.dst
    · subst hdst
      rw [Function.update_self] at hr
      obtain rfl := Option.some.inj hr
      -- its route leads to a node with an earlier one
      refine ⟨R.overlay.nbrs_symm h_valid.peer, h_keep _ h_from, ?_⟩
      rw [h_rank _ h_from, Function.update_self]
      exact hI.lt_bound _ h_from
    · rw [Function.update_of_ne hdst] at hr
      -- the other routes are as before
      obtain ⟨h_adj, h_up, h_lt⟩ := hI.route n r hr hn
      have hn_routed : (s.store.routes n).isSome := by rw [hr]; rfl
      refine ⟨h_adj, h_keep _ h_up, ?_⟩
      rw [h_rank _ h_up, h_rank _ hn_routed]
      exact h_lt
  · intro d hd req' hm' hpc' hn
    rw [hcalls] at hd
    rcases List.mem_or_eq_of_mem_set hd with hd | rfl
    · have h_from' := (hF.from_routed hd hm').2
      rw [h_rank _ h_from']
      by_cases hdst : d.dst = c.dst
      · rw [hdst, Function.update_self]
        exact hI.lt_bound _ h_from'
      · rw [Function.update_of_ne hdst]
        rw [hroutes, Function.update_of_ne hdst] at hn
        exact hI.admitted d hd req' hm' hpc' hn
    · exact absurd hpc' (by simp)

/-- **Every action keeps the order of the first inserts.** -/
theorem UpstreamInv.step (hF : R.FloodInv s) (hI : R.UpstreamInv s)
    (h : R.cascade.Step s l s') : R.UpstreamInv s' := by
  obtain ⟨rank, bound, hI⟩ := hI
  rcases routes_cases h with heq | ⟨i, c, req, hc, hpc, hm, hcalls, hroutes⟩
  · exact ⟨rank, bound, hI.keep h heq⟩
  · cases hold : s.store.routes c.dst with
    -- the node has no route yet, or one that is written over
    | none => exact ⟨_, _, hI.insert hF hc hm hcalls hroutes hold⟩
    | some r =>
      exact ⟨rank, bound, hI.overwrite hF h hc hpc hm hroutes (by rw [hold]; rfl)⟩

theorem UpstreamInv.reachable {P : State Node Row → Label Node → Prop}
    (h : R.machine.Reachable P s) : R.UpstreamInv s :=
  (h.invariant (fun s => R.FloodInv s ∧ R.UpstreamInv s) ⟨.initial R, .initial R⟩
    fun _ _ _ hI _ hstep =>
      ⟨hI.1.step (Cascade.step_iff.mp hstep), hI.2.step hI.1 (Cascade.step_iff.mp hstep)⟩).2

omit [DecidableEq Node] in
/-- Following a pointer goes back in the order of the first inserts. -/
theorem FirstInserts.rank_lt {rank : Node → ℕ} {bound : ℕ} (hI : R.FirstInserts s rank bound)
    {a b : Node} (h : R.Follows s a b) : rank b < rank a := by
  obtain ⟨hne, r, hr, rfl⟩ := h
  exact (hI.route a r hr hne).2.2

/-- **The pointers lead to the portal.** -/
theorem UpstreamInv.reaches (hI : R.UpstreamInv s) {n : Node}
    (hn : (s.store.routes n).isSome) :
    Relation.ReflTransGen (R.Follows s) n R.overlay.portal := by
  obtain ⟨rank, bound, hI⟩ := hI
  induction hk : rank n using Nat.strong_induction_on generalizing n with
  | _ k ih =>
    by_cases hportal : n = R.overlay.portal
    · rw [hportal]
    · obtain ⟨r, hr⟩ := Option.isSome_iff_exists.mp hn
      obtain ⟨-, h_up, h_lt⟩ := hI.route n r hr hportal
      exact .head ⟨hportal, r, hr, rfl⟩ (ih _ (hk ▸ h_lt) h_up rfl)

omit [DecidableEq Node] in
/-- **The pointers never lead back.** -/
theorem UpstreamInv.acyclic (hI : R.UpstreamInv s) (n : Node) :
    ¬ Relation.TransGen (R.Follows s) n n := by
  obtain ⟨rank, bound, hI⟩ := hI
  have h_lt : ∀ {a b}, Relation.TransGen (R.Follows s) a b → rank b < rank a := by
    intro a b h
    induction h with
    | single h => exact hI.rank_lt h
    | tail _ h ih => exact (hI.rank_lt h).trans ih
  exact fun h => lt_irrefl _ (h_lt h)

omit [DecidableEq Node] in
/-- A routed node's upstream node is a routed neighbour. -/
theorem UpstreamInv.upstream (hI : R.UpstreamInv s) {n : Node} {r : Route Node}
    (hr : s.store.routes n = some r) (hn : n ≠ R.overlay.portal) :
    R.overlay.Adj n r.upstreamPeer ∧ (s.store.routes r.upstreamPeer).isSome := by
  obtain ⟨rank, bound, hI⟩ := hI
  exact ⟨(hI.route n r hr hn).1, (hI.route n r hr hn).2.1⟩

/-- **Upstream pointers lead to the portal**, on every overlay that a topology
file declares, however its containers are iterated, and in every interleaving of
the handlers: the portal's own entry stays what it is; every other route points
to a neighbour that has a route; and following the pointers from a node with a
route reaches the portal and never comes back. -/
theorem upstream_leads_to_portal {path : Str} {file : Option Str} {cfg : Config} {root : Str}
    {T : Topology Str} (hload : Config.load path file = .ok cfg) (hdecl : cfg.Declared)
    (hroot : cfg.IsOnlyRoot root) (hT : cfg.ReadAs root T) (R : Request Str Row)
    (hR : R.overlay = Config.overlay hload hdecl hroot hT) {s : State Str Row}
    (hs : R.machine.Reachable (fun _ _ => True) s) :
    s.store.routes root = some ⟨"__self__".toList, [root]⟩ ∧
    (∀ n r, s.store.routes n = some r → n ≠ root →
      r.upstreamPeer ∈ cfg.neighborsOf n ∧ (s.store.routes r.upstreamPeer).isSome) ∧
    (∀ n, (s.store.routes n).isSome → Relation.ReflTransGen (R.Follows s) n root) ∧
    ∀ n, ¬ Relation.TransGen (R.Follows s) n n := by
  have hF := FloodInv.reachable hs
  have hI := UpstreamInv.reachable hs
  have h_portal : R.overlay.portal = root := by
    rw [hR]
    exact hT.portal
  refine ⟨?_, ?_, ?_, hI.acyclic⟩
  · -- the portal's own route
    have h_self : R.overlay.selfRoute = "__self__".toList := by
      rw [hR]
      exact hT.selfRoute
    rw [← h_portal, ← h_self]
    exact hF.portal
  · intro n r hr hn
    -- any other leads to a neighbour in the file
    obtain ⟨h_adj, h_up⟩ := hI.upstream hr (h_portal ▸ hn)
    unfold Overlay.Adj at h_adj
    rw [hR] at h_adj
    exact ⟨(hT.nbrs n _).mp h_adj, h_up⟩
  · intro n hn
    rw [← h_portal]
    exact hI.reaches hn

/-- Two nodes read from a file, after `B` has inserted its route. -/
theorem upstream_leads_to_portal_pair : ∃ (R : Request Str Unit) (s : State Str Unit),
    R.machine.Reachable (fun _ _ => True) s ∧ (s.store.routes ['B']).isSome ∧
      Relation.ReflTransGen (R.Follows s) ['B'] ['A'] := by
  let R : Request Str Unit := quiet (Config.overlay Config.load_pairText Config.pair_declared
    Config.pair_isOnlyRoot Config.pair_readAs)
  obtain ⟨s, hrun, hB⟩ := Machine.exists_run_of_exec (M := R.machine) (P := fun _ _ => True)
    (s := R.start) (l := [.send 0, .check 1, .commit 1])
    (Φ := fun s => (s.store.routes ['B']).isSome) (by decide +kernel)
  have h := upstream_leads_to_portal Config.load_pairText Config.pair_declared
    Config.pair_isOnlyRoot Config.pair_readAs R rfl ⟨_, hrun⟩
  exact ⟨R, s, ⟨_, hrun⟩, hB, h.2.2.1 _ hB⟩

end Request
end Mini2
