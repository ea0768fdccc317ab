import Mini2.Node.Flood

/-!
# What a flood reaches

A flood ends, because every hop uses up a node (`forwardRanking`). Once it has
come to rest, every live node that live nodes join to the portal has a route and
has started executing (`FloodInv.covers`): each of its neighbours has either sent
it the request, or has skipped it because the request had been there already.
Nothing is assumed about the order of the actions, and any call may fail.
-/

namespace Mini2
namespace Request

open Framework

variable {Node Row : Type*} [DecidableEq Node] {R : Request Node Row} {s : State Node Row}
  {crashed : Node → Prop}

/-- No handler is running, and the only calls in flight are those to nodes that
never answer. -/
def AtRest (crashed : Node → Prop) (s : State Node Row) : Prop :=
  ∀ c ∈ s.calls, c.pc.answer.isSome ∨ (c.pc = .sent ∧ crashed c.dst)

/-- `n` is joined to the portal by live nodes. -/
def LivePath (R : Request Node Row) (crashed : Node → Prop) : Node → Prop :=
  Relation.ReflTransGen (fun a b => R.overlay.Adj a b ∧ ¬ crashed b) R.overlay.portal

omit [DecidableEq Node] in
/-- At rest, a handler past its insert has answered. -/
theorem AtRest.returned (h : AtRest crashed s)
    {c : Cascade.Call Node (Task Node) (ForwardQueryAck Node)} (hc : c ∈ s.calls)
    (hcomm : c.pc.committed) : ∃ r, c.pc = .returned r := by
  obtain ⟨dst, msg, pc⟩ := c
  have h_rest := h _ hc
  cases pc with
  | returned r => exact ⟨r, rfl⟩
  | _ => simp [Cascade.Pc.answer, Cascade.Pc.committed] at h_rest hcomm

/-- At rest, a live node that a forward went to has a route. -/
theorem FloodInv.routed_of_call (hI : R.FloodInv s) (h : AtRest crashed s)
    {d : Cascade.Call Node (Task Node) (ForwardQueryAck Node)} (hd : d ∈ s.calls)
    (hlive : ¬ crashed d.dst) : (s.store.routes d.dst).isSome := by
  have h_ok := hI.calls d hd
  rcases h d hd with h_answer | ⟨-, hcrashed⟩
  · cases hpc : d.pc with
    | refused r => exact h_ok.refused r hpc
    | returned r => exact h_ok.routed (by rw [hpc]; rfl)
    | _ => rw [hpc] at h_answer; exact absurd h_answer (by simp [Cascade.Pc.answer])
  · exact absurd hcrashed hlive

/-- At rest, the live neighbours of a routed node are routed. -/
theorem FloodInv.routed_of_adj (hI : R.FloodInv s) (h : AtRest crashed s) {n m : Node}
    (hn : (s.store.routes n).isSome) (hadj : R.overlay.Adj n m) (hlive : ¬ crashed m) :
    (s.store.routes m).isSome := by
  obtain ⟨c, hc, rfl, hcomm⟩ := hI.source n hn
  obtain ⟨r, hr⟩ := h.returned hc hcomm
  -- a handler that has answered has made all of its calls
  have h_called : ∀ q ∈ R.outgoing c.dst c.msg, ∃ d ∈ s.calls, (d.dst, d.msg) = q := by
    intro q hq
    rcases hI.shape.covered c hc hcomm q hq with h_todo | h_call
    · rw [hr] at h_todo
      exact absurd h_todo List.not_mem_nil
    · exact h_call
  have h_routed : ∀ task, (m, task) ∈ R.outgoing c.dst c.msg → (s.store.routes m).isSome := by
    intro task hq
    obtain ⟨d, hd, heq⟩ := h_called _ hq
    obtain ⟨rfl, -⟩ := Prod.mk.inj heq
    exact hI.routed_of_call h hd hlive
  cases hm : c.msg with
  | submitQuery =>
    rw [hm] at h_routed
    exact h_routed _ (mem_outgoing_submit.mpr ⟨m, hadj, rfl⟩)
  | forwardQuery req =>
    rw [hm] at h_routed
    have h_from : req.fromNode ∈ req.visited := by
      have h_valid := hI.valid c hc
      rw [hm] at h_valid
      exact h_valid.from_mem
    by_cases hskip : m ≠ req.fromNode ∧ m ∉ req.visited ++ [c.dst]
    · exact h_routed _ (mem_outgoing_forward.mpr ⟨m, hadj, hskip, rfl⟩)
    · -- `m` is skipped because the request has been there
      have h_seen : m ∈ req.visited ∨ m = c.dst := by
        by_cases hfrom : m = req.fromNode
        · exact Or.inl (hfrom ▸ h_from)
        · simpa using not_not.mp fun h_mem => hskip ⟨hfrom, h_mem⟩
      rcases h_seen with h_seen | rfl
      · exact (hI.calls c hc).visited req hm m h_seen
      · exact hn

/-- **Coverage.** -/
theorem FloodInv.covers (hI : R.FloodInv s) (h : AtRest crashed s) {n : Node}
    (hpath : R.LivePath crashed n) :
    (s.store.routes n).isSome ∧ ∃ w ∈ s.store.workers, w.node = n := by
  have h_routed : (s.store.routes n).isSome := by
    induction hpath with
    | refl => rw [hI.portal]; rfl
    | tail _ hadj ih => exact hI.routed_of_adj h ih hadj.1 hadj.2
  obtain ⟨c, hc, rfl, hcomm⟩ := hI.source n h_routed
  obtain ⟨r, hr⟩ := h.returned hc hcomm
  exact ⟨h_routed, (hI.calls c hc).started r hr⟩

/-- **The flood of a request.** In every interleaving of the handlers, with any
calls failing: the handlers take a bounded number of actions; every forward's
visited list is duplicate-free, starts with the portal and names overlay nodes
only; and once the flood is at rest, every live node that live nodes join to the
portal has a route and has started executing. -/
theorem forwardQuery_flood (R : Request Node Row) :
    (∃ B, ∀ ls s, R.machine.Run (fun _ _ => True) R.start ls s →
      ls.countP Cascade.Label.isCall ≤ B) ∧
    ∀ s, R.machine.Reachable (fun _ _ => True) s →
      (∀ c ∈ s.calls, ∀ req, c.msg = .forwardQuery req →
        req.visited.Nodup ∧ req.visited.head? = some R.overlay.portal ∧
          (∀ v ∈ req.visited, v ∈ R.overlay.nodes) ∧
          req.visited.length ≤ R.overlay.nodes.length) ∧
      ∀ crashed, AtRest crashed s → ∀ n, R.LivePath crashed n →
        (s.store.routes n).isSome ∧ ∃ w ∈ s.store.workers, w.node = n := by
  have h_initial := FloodInv.initial R
  refine ⟨⟨R.forwardRanking.potential R.start.calls, fun ls s hrun => ?_⟩, fun s hs => ⟨?_, ?_⟩⟩
  · -- each call lowers the potential, which bounds their number
    exact R.forwardRanking.steps_le hrun h_initial.shape h_initial.valid
  · intro c hc req hm
    -- every call carries a path without repetitions
    have h_valid := (FloodInv.reachable hs).valid c hc
    rw [hm] at h_valid
    exact ⟨h_valid.nodup, h_valid.head, h_valid.mem_nodes, h_valid.length_le⟩
  · intro crashed hrest n hpath
    exact (FloodInv.reachable hs).covers hrest hpath

/-- With `c` crashed, `b` is reached all the same: both forwards to `c` time out. -/
theorem forwardQuery_flood_crashed : ∃ s, (quiet .triangle).machine.Reachable (fun _ _ => True) s ∧
    AtRest (· = .c) s ∧ (s.store.routes .b).isSome ∧ ∃ w ∈ s.store.workers, w.node = .b := by
  obtain ⟨s, hrun, hrest⟩ := Machine.exists_run_of_exec (M := (quiet .triangle).machine)
    (P := fun _ _ => True) (s := (quiet .triangle).start)
    (l := [.send 0, .check 1, .commit 1, .send 1, .expire 1, .finish 1, .collect 0, .send 0,
      .expire 0, .finish 0])
    (Φ := fun s => ∀ c ∈ s.calls, c.pc.answer.isSome ∨ (c.pc = .sent ∧ c.dst = .c)) (by decide)
  have hrest : AtRest (· = .c) s := hrest
  have h_path : (quiet .triangle).LivePath (· = .c) .b :=
    .single ⟨show _ ∈ Overlay.triangle.nbrs _ by decide, by decide⟩
  exact ⟨s, ⟨_, hrun⟩, hrest,
    ((forwardQuery_flood (quiet .triangle)).2 s ⟨_, hrun⟩).2 _ hrest _ h_path⟩

end Request
end Mini2
