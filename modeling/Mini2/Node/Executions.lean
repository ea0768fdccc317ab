import Mini2.Node.Flood

/-!
# How often a node executes a request

`ForwardQuery` looks for a route under `routes_mu_`, gives the mutex up, and
inserts its own route under the mutex again. Two handlers on one node can both
be between the two sections, and both then start a worker. `executes_once` shows
that nothing else can go wrong: as long as every insert still finds no entry,
each node starts `executeLocal` at most once. `executes_twice` is a run in which
an insert finds one, after a caller has given up on a handler still running.
-/

namespace Mini2
namespace Request

open Framework

variable {Node Row : Type*} [DecidableEq Node] {R : Request Node Row}
  {s s' : State Node Row} {l : Label Node}

/-- A route insert finds no entry for the request. -/
def FreshInsert (s : State Node Row) : Label Node → Prop
  | .commit i => ∀ c ∈ s.calls[i]?, s.store.routes c.dst = none
  | _ => True

instance (s : State Node Row) (l : Label Node) : Decidable (FreshInsert s l) := by
  unfold FreshInsert
  induction l using Framework.Cascade.Label.casesOn with
  | env e => induction e using Event.casesOn <;> infer_instance
  | _ => infer_instance

/-- A handler on `n` past its insert and not yet at its end. -/
def runningOn (n : Node) (c : Cascade.Call Node (Task Node) (ForwardQueryAck Node)) : Bool :=
  match c.pc with
  | .calling _ => c.dst = n
  | .waiting _ _ => c.dst = n
  | _ => false

/-- The executions that a node has started or is about to start. -/
def executions (s : State Node Row) (n : Node) : ℕ :=
  (s.store.workers.map Worker.node).count n + s.calls.countP (runningOn n)

/-- Each route stands for one execution. -/
def ExecInv (s : State Node Row) : Prop :=
  ∀ n, executions s n ≤ if (s.store.routes n).isSome then 1 else 0

theorem ExecInv.initial (R : Request Node Row) : ExecInv R.start := by
  intro n
  by_cases hn : n = R.overlay.portal
  · subst hn
    simp [executions, start, startStore, runningOn]
  · have h_ne : R.overlay.portal ≠ n := Ne.symm hn
    simp [executions, start, startStore, runningOn, h_ne]

/-- An action that starts no worker, inserts no route and keeps its handler
running, or not running, keeps the count. -/
theorem ExecInv.moved {i : ℕ} {c d : Cascade.Call Node (Task Node) (ForwardQueryAck Node)}
    {new : List (Cascade.Call Node (Task Node) (ForwardQueryAck Node))} {n : Node}
    (hI : ExecInv s) (hc : s.calls[i]? = some c) (hcalls : s'.calls = s.calls.set i d ++ new)
    (hnew : ∀ e ∈ new, e.pc = .sent) (hrun : runningOn n d = runningOn n c)
    (hworkers : s'.store.workers = s.store.workers) (hroutes : s'.store.routes = s.store.routes) :
    executions s' n ≤ if (s'.store.routes n).isSome then 1 else 0 := by
  have h_count := countP_set_add (b := d) (p := runningOn n) hc
  -- a call that has just been sent runs nothing yet
  have h_new : new.countP (runningOn n) = 0 := by
    rw [List.countP_eq_zero]
    intro e he
    simp [runningOn, hnew e he]
  have h_le := hI n
  rw [hrun] at h_count
  unfold executions at h_le ⊢
  rw [hworkers, hroutes, hcalls, List.countP_append, h_new]
  omega

/-- **Every action keeps the count, if inserts are fresh.** -/
theorem ExecInv.step (hF : R.FloodInv s) (hI : ExecInv s) (hfresh : FreshInsert s l)
    (h : R.cascade.Step s l s') : ExecInv s' := by
  intro n
  have h_le := hI n
  cases h with
  | @check i c hc hpc =>
    have h_run : runningOn n { c with pc := R.cascade.checkPc s.store c } = runningOn n c := by
      unfold Cascade.checkPc
      split <;> simp [runningOn, hpc]
    exact hI.moved hc (List.append_nil _).symm (by simp) h_run rfl rfl
  | @commit i c hc hpc =>
    -- the insert is the node's first: nothing has been executed on it yet
    have h_free : s.store.routes c.dst = none := hfresh c hc
    obtain ⟨dst, msg, pc⟩ := c
    obtain rfl : pc = .admitted := hpc
    have h_count := countP_set_add
      (b := ⟨dst, msg, .calling (R.cascade.outgoing dst msg)⟩) (p := runningOn n) hc
    cases msg with
    | submitQuery =>
      have h_root := (hF.calls _ (List.mem_of_getElem? hc)).root rfl
      exact absurd h_root (by simp [Cascade.Pc.committed])
    | forwardQuery req =>
      unfold executions at h_le ⊢
      change (s.store.workers.map Worker.node).count n +
        (s.calls.set i ⟨dst, .forwardQuery req,
          .calling (R.cascade.outgoing dst (.forwardQuery req))⟩).countP (runningOn n) ≤
        if (Function.update s.store.routes dst (some ⟨req.fromNode, req.visited ++ [dst]⟩) n).isSome
        then 1 else 0
      by_cases hn : n = dst
      · subst hn
        rw [h_free, Option.isSome_none, if_neg Bool.false_ne_true] at h_le
        rw [Function.update_self, Option.isSome_some, if_pos rfl]
        simp only [runningOn, decide_true, if_true, Bool.false_eq_true, if_false] at h_count
        omega
      · rw [Function.update_of_ne hn]
        simp only [runningOn, Ne.symm hn, decide_false, Bool.false_eq_true, if_false] at h_count
        omega
  | @send i c p m todo hc hpc =>
    have h_run : runningOn n { c with pc := .waiting s.calls.length todo } = runningOn n c := by
      simp [runningOn, hpc]
    exact hI.moved hc rfl (by simp) h_run rfl rfl
  | @collect i id c d todo r hc hpc hd hr =>
    have h_run : runningOn n { c with pc := .calling todo } = runningOn n c := by
      simp [runningOn, hpc]
    exact hI.moved hc (List.append_nil _).symm (by simp) h_run rfl rfl
  | @expire i id c d todo hc hpc hd =>
    have h_run : runningOn n { c with pc := .calling todo } = runningOn n c := by
      simp [runningOn, hpc]
    exact hI.moved hc (List.append_nil _).symm (by simp) h_run rfl rfl
  | @finish i c hc hpc =>
    -- the handler stops running and its worker starts
    have h_count := countP_set_add
      (b := { c with pc := .returned (R.cascade.reply c.dst c.msg) }) (p := runningOn n) hc
    unfold executions at h_le ⊢
    change ((s.store.workers ++ [_]).map Worker.node).count n +
      (s.calls.set i _).countP (runningOn n) ≤ if (s.store.routes n).isSome then 1 else 0
    rw [List.map_append, List.count_append]
    by_cases hn : c.dst = n
    · simp [runningOn, hpc, hn] at h_count ⊢
      omega
    · simp [runningOn, hpc, hn] at h_count ⊢
      omega
  | env he =>
    have h_env := env_cases he
    unfold executions at h_le ⊢
    rw [h_env.nodes_eq, h_env.routes_eq]
    exact h_le

/-- **Each node executes a request at most once**, in every run whose route
inserts find no entry. -/
theorem executes_once (R : Request Node Row) (s : State Node Row)
    (h : R.machine.Reachable FreshInsert s) : (s.store.workers.map Worker.node).Nodup := by
  have h_inv : R.FloodInv s ∧ ExecInv s :=
    h.invariant (fun s => R.FloodInv s ∧ ExecInv s) ⟨.initial R, .initial R⟩
      fun _ _ _ hI hfresh hstep =>
        ⟨hI.1.step (Cascade.step_iff.mp hstep), hI.2.step hI.1 hfresh (Cascade.step_iff.mp hstep)⟩
  rw [List.nodup_iff_count_le_one]
  intro n
  have h_le := h_inv.2 n
  unfold executions at h_le
  split at h_le <;> omega

/-- In a run of the flood over a triangle every node executes once. -/
theorem executes_once_triangle : ∃ s, (quiet .triangle).machine.Reachable FreshInsert s ∧
    s.store.workers.length = 3 ∧ (s.store.workers.map Worker.node).Nodup := by
  obtain ⟨s, hrun, hlen⟩ := Machine.exists_run_of_exec (M := (quiet .triangle).machine)
    (P := FreshInsert) (s := (quiet .triangle).start)
    (l := [.send 0, .check 1, .commit 1, .send 1, .check 2, .commit 2, .finish 2, .collect 1,
      .finish 1, .collect 0, .send 0, .check 3, .collect 0, .finish 0])
    (Φ := fun s => s.store.workers.length = 3) (by decide)
  exact ⟨s, ⟨_, hrun⟩, hlen, executes_once _ s ⟨_, hrun⟩⟩

/-- `a` gives up on `b`, whose handler goes on to forward to `c`, and forwards to
`c` itself: both handlers on `c` pass the dup check before either inserts. -/
theorem executes_twice : ∃ s, (quiet .triangle).machine.Reachable (fun _ _ => True) s ∧
    ¬ (s.store.workers.map Worker.node).Nodup := by
  obtain ⟨s, hrun, hdup⟩ := Machine.exists_run_of_exec (M := (quiet .triangle).machine)
    (P := fun _ _ => True) (s := (quiet .triangle).start)
    (l := [.send 0, .check 1, .commit 1, .send 1, .expire 0, .send 0, .check 2, .check 3,
      .commit 2, .commit 3, .finish 2, .send 3, .check 4, .collect 3, .finish 3])
    (Φ := fun s => ¬ (s.store.workers.map Worker.node).Nodup) (by decide)
  exact ⟨s, ⟨_, hrun⟩, hdup⟩

end Request
end Mini2
