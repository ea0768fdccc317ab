import Mini2.Framework.CascadeOnce
import Mini2.Node.ExactlyOnce
import Mini2.Node.Quiescence
import Mini2.Overlay.Tree

/-!
# Requests on a tree

The nodes that a forward has visited and the node it goes to are a path from the portal. On a
tree there is one path to each node, so no node is sent the request twice: the visited list
alone keeps the flood from coming back (`TreeInv`), in every interleaving and whatever fails.
On any other overlay it does not, and some forward is rejected (`visited_suffices_iff`).
-/

namespace Mini2

open Framework

variable {Node Row : Type*}

/-- The nodes of a task, from the portal to the node that it is for. -/
def Task.path (n : Node) : Task Node → List Node
  | .submitQuery => [n]
  | .forwardQuery req => req.visited ++ [n]

theorem Task.path_getLast? (n : Node) (m : Task Node) : (m.path n).getLast? = some n := by
  cases m with
  | submitQuery => rfl
  | forwardQuery req => exact List.getLast?_concat

namespace Request

variable [DecidableEq Node] {R : Request Node Row} {s s' : State Node Row} {l : Label Node}

/-- A forward goes one step on from the path of the task that sends it. -/
theorem outgoing_path {n : Node} {m : Task Node} {q : Node × Task Node}
    (hq : q ∈ R.outgoing n m) :
    q.1 ∈ R.overlay.nbrs n ∧ q.2.path q.1 = m.path n ++ [q.1] ∧
      (m ≠ .submitQuery → q.1 ∉ m.path n) := by
  cases m with
  | submitQuery =>
    obtain ⟨nb, hnb, rfl⟩ := mem_outgoing_submit.mp hq
    exact ⟨hnb, rfl, fun h => absurd rfl h⟩
  | forwardQuery req =>
    obtain ⟨nb, hnb, hskip, rfl⟩ := mem_outgoing_forward.mp hq
    exact ⟨hnb, rfl, fun _ => hskip.2⟩

/-- Each neighbour that is not on the path is forwarded to. -/
theorem exists_outgoing {n nb : Node} {m : Task Node} (hnb : nb ∈ R.overlay.nbrs n)
    (hm : R.TaskValid n m) (hpath : m = .submitQuery ∨ nb ∉ m.path n) :
    ∃ q ∈ R.outgoing n m, q.1 = nb := by
  cases m with
  | submitQuery => exact ⟨_, mem_outgoing_submit.mpr ⟨nb, hnb, rfl⟩, rfl⟩
  | forwardQuery req =>
    have h_path : nb ∉ req.visited ++ [n] := hpath.resolve_left (by simp)
    have h_valid : req.Valid R.overlay n := hm
    refine ⟨_, mem_outgoing_forward.mpr ⟨nb, hnb, ⟨?_, h_path⟩, rfl⟩, rfl⟩
    rintro rfl
    exact h_path (List.mem_append_left _ h_valid.from_mem)

/-! ### The flood of a tree -/

/-- The path of a task leads from the portal along edges, without repetitions. -/
structure Straight (R : Request Node Row) (n : Node) (m : Task Node) : Prop where
  head : (m.path n).head? = some R.overlay.portal
  chain : (m.path n).IsChain R.overlay.graph.Adj
  nodup : (m.path n).Nodup

omit [DecidableEq Node] in
theorem Straight.portal_mem {n : Node} {m : Task Node} (h : R.Straight n m) :
    R.overlay.portal ∈ m.path n :=
  List.mem_of_mem_head? h.head

/-- On a tree, forwards lead away from where they come from. -/
theorem Straight.outgoing (htree : R.overlay.IsTree) {n : Node} {m : Task Node}
    (h : R.Straight n m) {q : Node × Task Node} (hq : q ∈ R.outgoing n m) :
    q.1 ∉ m.path n ∧ R.Straight q.1 q.2 := by
  obtain ⟨h_nbr, h_path, h_skip⟩ := outgoing_path hq
  have h_new : q.1 ∉ m.path n := by
    cases m with
    | submitQuery =>
      -- the portal does not forward to itself
      obtain rfl : n = R.overlay.portal := Option.some.inj h.head
      intro h_self
      rw [List.mem_singleton.mp h_self] at h_nbr
      exact htree.portal h_nbr
    | forwardQuery req => exact h_skip (by simp)
  have h_ne : n ≠ q.1 := by
    rintro rfl
    exact h_new (List.mem_of_mem_getLast? (m.path_getLast? _))
  refine ⟨h_new, ?_, ?_, ?_⟩
  · rw [h_path, List.head?_append, h.head]
    rfl
  · rw [h_path]
    refine h.chain.append (List.isChain_singleton _) ?_
    intro a ha b hb
    obtain rfl : n = a := Option.some.inj ((m.path_getLast? n).symm.trans ha)
    obtain rfl : q.1 = b := Option.some.inj hb
    exact ⟨h_ne, h_nbr⟩
  · rw [h_path]
    exact List.nodup_append.mpr ⟨h.nodup, List.nodup_singleton _, fun a ha b hb hab =>
      h_new (List.mem_singleton.mp hb ▸ hab ▸ ha)⟩

/-- **The forwards of a tree spread along it.** -/
theorem branching (htree : R.overlay.IsTree) :
    Cascade.Branching R.cascade R.Straight [(R.overlay.portal, .submitQuery)] where
  inherit _ _ h _ hq := (h.outgoing htree hq).2
  nodup n m _ := by
    show ((R.outgoing n m).map Prod.fst).Nodup
    cases m with
    | submitQuery =>
      simp only [Request.outgoing, List.map_map, Function.comp_def, List.map_id']
      exact R.overlay.nbrs_nodup n
    | forwardQuery req =>
      simp only [Request.outgoing, List.map_map, Function.comp_def, List.map_id']
      exact (R.overlay.nbrs_nodup n).filter _
  sender n m n' m' h h' q hq q' hq' hsame := by
    -- both paths lead to the node that is called, so they are one
    have h_q := (h.outgoing htree hq).2
    have h_q' := (h'.outgoing htree hq').2
    have h_paths : q.2.path q.1 = q'.2.path q'.1 := by
      apply eq_of_isChain htree.acyclic h_q.chain h_q'.chain h_q.nodup h_q'.nodup
      · rw [h_q.head, h_q'.head]
      · rw [Task.path_getLast?, Task.path_getLast?, hsame]
    rw [(outgoing_path hq).2.1, (outgoing_path hq').2.1, hsame] at h_paths
    have h_last := congrArg List.getLast? (List.append_cancel_right h_paths)
    rw [Task.path_getLast?, Task.path_getLast?] at h_last
    exact Option.some.inj h_last
  root n m h q hq r hr hsame := by
    rw [List.mem_singleton.mp hr] at hsame
    exact (h.outgoing htree hq).1 (hsame ▸ h.portal_mem)

/-- What holds of a request on a tree. -/
structure TreeInv (R : Request Node Row) (s : State Node Row) : Prop where
  flood : R.FloodInv s
  exec : ExecInv s
  straight : ∀ c ∈ s.calls, R.Straight c.dst c.msg
  single : Cascade.Single s.calls
  /-- No node rejects a forward. -/
  unrefused : ∀ c ∈ s.calls, ∀ r, c.pc ≠ .refused r

theorem TreeInv.initial (htree : R.overlay.IsTree) : R.TreeInv R.start where
  flood := .initial R
  exec := .initial R
  straight c hc := by
    obtain rfl := List.mem_singleton.mp hc
    exact ⟨rfl, List.isChain_singleton _, List.nodup_singleton _⟩
  single := by
    refine .singleton fun q hq hself => ?_
    have hq : q ∈ R.outgoing R.overlay.portal .submitQuery := hq
    -- the portal does not ask itself
    have h_nbr := (outgoing_path hq).1
    rw [← hself] at h_nbr
    exact htree.portal h_nbr
  unrefused c hc r := by
    obtain rfl := List.mem_singleton.mp hc
    simp

/-- A node that no call has reached yet lets the first one through. -/
theorem TreeInv.check_eq_none (hI : R.TreeInv s)
    {c : Cascade.Call Node (Task Node) (ForwardQueryAck Node)} (hc : c ∈ s.calls)
    (hpc : c.pc.committed = false) : check s.store c.dst c.msg = none := by
  obtain ⟨req, hm⟩ := (hI.flood.calls c hc).exists_forward hpc
  rw [hm]
  refine check_forward_eq_none.mpr ⟨?_, ?_⟩
  · have h_nodup := (hI.straight c hc).nodup
    rw [hm] at h_nodup
    exact fun h_mem => (List.nodup_append.mp h_nodup).2.2 _ h_mem _ (List.mem_singleton_self _) rfl
  · -- a route would come from another call to the node
    rw [← Option.not_isSome_iff_eq_none]
    intro h_routed
    obtain ⟨d, hd, hdst, hcomm⟩ := hI.flood.source _ h_routed
    obtain rfl := hI.single.eq_of_dst hd hc hdst
    rw [hpc] at hcomm
    exact absurd hcomm Bool.false_ne_true

theorem TreeInv.fresh (hI : R.TreeInv s) (h : R.cascade.Step s l s') : FreshInsert s l := by
  cases h with
  | @commit i c hc hpc =>
    intro d hd
    obtain rfl := Option.some.inj (hc.symm.trans hd)
    have h_mem := List.mem_of_getElem? hc
    have h_check := hI.check_eq_none h_mem (by rw [hpc]; rfl)
    obtain ⟨req, hm⟩ := (hI.flood.calls c h_mem).exists_forward (by rw [hpc]; rfl)
    rw [hm] at h_check
    exact (check_forward_eq_none.mp h_check).2
  | _ => exact trivial

/-- **Every action on a tree finds its forward expected.** -/
theorem TreeInv.step (htree : R.overlay.IsTree) (hI : R.TreeInv s)
    (h : R.cascade.Step s l s') : R.TreeInv s' where
  flood := hI.flood.step h
  exec := hI.exec.step hI.flood (hI.fresh h) h
  straight := Cascade.valid_step (fun _ _ _ hv _ q hq => (hv.outgoing htree hq).2)
    hI.flood.shape hI.straight h
  single := hI.single.step (branching htree) hI.flood.shape hI.straight h
  unrefused := by
    rcases h.calls_cases with ⟨-, heq⟩ | ⟨i, c, pc, new, hc, hmove, heq⟩
    · rw [heq]
      exact hI.unrefused
    have hcL := List.mem_of_getElem? hc
    rw [heq]
    intro d hd r hr
    rcases Cascade.mem_moved hd with hd | rfl | hd
    · exact hI.unrefused d hd r hr
    · -- the call that moves: on a tree its check goes through
      cases hmove with
      | refused hpc hcheck =>
        have h_none := hI.check_eq_none hcL (by rw [hpc]; rfl)
        exact absurd (hcheck.symm.trans h_none) (by simp)
      | _ => exact absurd hr (by simp)
    · -- a new call has not been answered
      rw [hmove.new_sent hd] at hr
      exact absurd hr (by simp)

theorem TreeInv.reachable (htree : R.overlay.IsTree) {P : State Node Row → Label Node → Prop}
    (h : R.machine.Reachable P s) : R.TreeInv s :=
  h.invariant R.TreeInv (.initial htree)
    fun _ _ _ hI _ hstep => hI.step htree (Cascade.step_iff.mp hstep)

/-! ### Floods without rejections -/

/-- A node has at most one handler past its insert. -/
def CommitsOnce (L : List (Cascade.Call Node (Task Node) (ForwardQueryAck Node))) : Prop :=
  ∀ (i j : ℕ) (c d : Cascade.Call Node (Task Node) (ForwardQueryAck Node)), L[i]? = some c →
    L[j]? = some d → c.pc.committed → d.pc.committed → c.dst = d.dst → i = j

omit [DecidableEq Node] in
/-- A call that moves, and one that is new. -/
theorem CommitsOnce.moved
    {L new : List (Cascade.Call Node (Task Node) (ForwardQueryAck Node))} {i : ℕ}
    {c : Cascade.Call Node (Task Node) (ForwardQueryAck Node)}
    {pc : Cascade.Pc Node (Task Node) (ForwardQueryAck Node)} (hI : CommitsOnce L)
    (hc : L[i]? = some c) (hnew : ∀ d ∈ new, d.pc = .sent)
    (hpc : pc.committed → c.pc.committed ∨ ∀ d ∈ L, d.pc.committed → d.dst ≠ c.dst) :
    CommitsOnce (L.set i { c with pc := pc } ++ new) := by
  -- a committed entry is the moved call, or was there before
  have h_cases : ∀ {j : ℕ} {d : Cascade.Call Node (Task Node) (ForwardQueryAck Node)},
      (L.set i { c with pc := pc } ++ new)[j]? = some d → d.pc.committed →
        (j = i ∧ d = { c with pc := pc }) ∨ (j ≠ i ∧ L[j]? = some d) := by
    intro j d hd hcomm
    rcases Nat.lt_or_ge j (L.set i { c with pc := pc }).length with hlt | hge
    · rw [List.getElem?_append_left hlt] at hd
      exact Cascade.getElem?_set_cases hd
    · rw [List.getElem?_append_right hge] at hd
      rw [hnew d (List.mem_of_getElem? hd)] at hcomm
      exact absurd hcomm (by simp [Cascade.Pc.committed])
  -- the moved call meets no other on its node
  have h_one : ∀ {j : ℕ} {d : Cascade.Call Node (Task Node) (ForwardQueryAck Node)},
      pc.committed → L[j]? = some d → d.pc.committed → c.dst = d.dst → i = j := by
    intro j d hcomm hd hcomm' hdst
    rcases hpc hcomm with h_was | h_new
    · exact hI i j c d hc hd h_was hcomm' hdst
    · exact absurd hdst.symm (h_new d (List.mem_of_getElem? hd) hcomm')
  intro j k d e hd he hcomm hcomm' hdst
  rcases h_cases hd hcomm with ⟨rfl, rfl⟩ | ⟨-, hd'⟩
  · rcases h_cases he hcomm' with ⟨rfl, -⟩ | ⟨-, he'⟩
    · rfl
    · exact h_one hcomm he' hcomm' hdst
  · rcases h_cases he hcomm' with ⟨rfl, rfl⟩ | ⟨-, he'⟩
    · exact (h_one hcomm' hd' hcomm hdst.symm).symm
    · exact hI j k d e hd' he' hcomm hcomm' hdst

/-- **Patient callers never get a node to insert its route twice.** -/
theorem CommitsOnce.step {dead : Node → Prop} (hI : CommitsOnce s.calls)
    (hP : R.PatientInv dead s) (h : R.cascade.Step s l s') : CommitsOnce s'.calls := by
  rcases h.calls_cases with ⟨-, heq⟩ | ⟨i, c, pc, new, hc, hmove, heq⟩
  · rw [heq]
    exact hI
  have hcL := List.mem_of_getElem? hc
  rw [heq]
  refine hI.moved hc (fun _ hd => hmove.new_sent hd) fun hcomm => ?_
  cases hmove with
  | committed hpc =>
    -- the node has had no route when it let the forward through, and has none now
    have h_check : check s.store c.dst c.msg = none := hP.checked c hcL hpc
    obtain ⟨req, hm⟩ := (hP.flood.calls c hcL).exists_forward (by rw [hpc]; rfl)
    rw [hm] at h_check
    refine Or.inr fun d hd hcomm' hdst => ?_
    have h_routed := (hP.flood.calls d hd).routed hcomm'
    rw [hdst, (check_forward_eq_none.mp h_check).2] at h_routed
    exact absurd h_routed (by simp)
  | sent hpc => exact Or.inl (by rw [hpc]; rfl)
  | resumed hpc => exact Or.inl (by rw [hpc]; rfl)
  | returned hpc => exact Or.inl (by rw [hpc]; rfl)
  | _ => exact absurd hcomm (by simp [Cascade.Pc.committed])

omit [DecidableEq Node] in
theorem CommitsOnce.eq_of_dst (hI : CommitsOnce s.calls)
    {c d : Cascade.Call Node (Task Node) (ForwardQueryAck Node)} (hc : c ∈ s.calls)
    (hd : d ∈ s.calls) (hcomm : c.pc.committed) (hcomm' : d.pc.committed)
    (hdst : c.dst = d.dst) : c = d := by
  obtain ⟨i, hi⟩ := List.mem_iff_getElem?.mp hc
  obtain ⟨j, hj⟩ := List.mem_iff_getElem?.mp hd
  obtain rfl := hI i j c d hi hj hcomm hcomm' hdst
  exact Option.some.inj (hi.symm.trans hj)

/-- A request whose flood has ended without a rejection. -/
structure Explored (R : Request Node Row) (s : State Node Row) : Prop where
  flood : R.FloodInv s
  once : CommitsOnce s.calls
  returned : ∀ c ∈ s.calls, ∃ r, c.pc = .returned r

theorem Explored.committed (hI : R.Explored s)
    {c : Cascade.Call Node (Task Node) (ForwardQueryAck Node)} (hc : c ∈ s.calls) :
    c.pc.committed := by
  obtain ⟨r, hr⟩ := hI.returned c hc
  rw [hr]
  rfl

theorem Explored.eq_of_dst (hI : R.Explored s)
    {c d : Cascade.Call Node (Task Node) (ForwardQueryAck Node)} (hc : c ∈ s.calls)
    (hd : d ∈ s.calls) (hdst : c.dst = d.dst) : c = d :=
  hI.once.eq_of_dst hc hd (hI.committed hc) (hI.committed hd) hdst

/-- A forward that was let through has not visited its node. -/
theorem FloodInv.path_nodup (hF : R.FloodInv s)
    {c : Cascade.Call Node (Task Node) (ForwardQueryAck Node)} (hc : c ∈ s.calls)
    (hcomm : c.pc.committed) : (c.msg.path c.dst).Nodup := by
  obtain ⟨σ, hσ⟩ := hF.shape.passed c hc (Cascade.Pc.passed_of_committed hcomm)
  have h_valid := hF.valid c hc
  cases hm : c.msg with
  | submitQuery => exact List.nodup_singleton _
  | forwardQuery req =>
    rw [hm] at hσ h_valid
    have h_valid : req.Valid R.overlay c.dst := h_valid
    have h_new := (check_forward_eq_none.mp hσ).1
    exact List.nodup_append.mpr ⟨h_valid.nodup, List.nodup_singleton _, fun a ha b hb hab =>
      h_new (List.mem_singleton.mp hb ▸ hab ▸ ha)⟩

/-- The paths of the nodes on a path are its beginnings. -/
theorem Explored.exists_prefix (hI : R.Explored s)
    {c : Cascade.Call Node (Task Node) (ForwardQueryAck Node)} (hc : c ∈ s.calls) {n : Node}
    (hn : n ∈ c.msg.path c.dst) :
    ∃ d ∈ s.calls, d.dst = n ∧ d.msg.path d.dst <+: c.msg.path c.dst := by
  induction hk : (c.msg.path c.dst).length using Nat.strongRecOn generalizing c with
  | _ k ih =>
    rcases hI.flood.shape.origin c hc with h_root | ⟨e, he, -, hout⟩
    · obtain ⟨hdst, hmsg⟩ := Prod.mk.inj (List.mem_singleton.mp h_root)
      rw [hmsg] at hn
      exact ⟨c, hc, (List.mem_singleton.mp hn).symm, List.prefix_refl _⟩
    · -- the path goes one step on from that of the sender
      have h_path := (outgoing_path hout).2.1
      have h_lt : (e.msg.path e.dst).length < k := by
        rw [← hk, h_path, List.length_append, List.length_singleton]
        exact Nat.lt_succ_self _
      rw [h_path] at hn
      rcases List.mem_append.mp hn with hn | hn
      · obtain ⟨d, hd, hdst, hpre⟩ := ih _ h_lt he hn rfl
        exact ⟨d, hd, hdst, hpre.trans (h_path ▸ List.prefix_append _ _)⟩
      · exact ⟨c, hc, (List.mem_singleton.mp hn).symm, List.prefix_refl _⟩

/-- A neighbour that is not on the path of a node has been reached from there. -/
theorem Explored.path_eq (hI : R.Explored s)
    {c d : Cascade.Call Node (Task Node) (ForwardQueryAck Node)} (hc : c ∈ s.calls)
    (hd : d ∈ s.calls) (hadj : R.overlay.Adj c.dst d.dst)
    (hpath : c.msg = .submitQuery ∨ d.dst ∉ c.msg.path c.dst) :
    d.msg.path d.dst = c.msg.path c.dst ++ [d.dst] := by
  obtain ⟨q, hq, hdst⟩ := exists_outgoing hadj (hI.flood.valid c hc) hpath
  rcases hI.flood.shape.covered c hc (hI.committed hc) q hq with h_todo | ⟨e, he, rfl⟩
  · obtain ⟨r, hr⟩ := hI.returned c hc
    rw [hr] at h_todo
    exact absurd h_todo List.not_mem_nil
  · obtain rfl := hI.eq_of_dst he hd hdst
    exact (outgoing_path hq).2.1

/-- **Every edge goes one step on from a path.** -/
theorem Explored.path_cases (hI : R.Explored s)
    {c d : Cascade.Call Node (Task Node) (ForwardQueryAck Node)} (hc : c ∈ s.calls)
    (hd : d ∈ s.calls) (hne : c.dst ≠ d.dst) (hadj : R.overlay.Adj c.dst d.dst) :
    d.msg.path d.dst = c.msg.path c.dst ++ [d.dst] ∨
      c.msg.path c.dst = d.msg.path d.dst ++ [c.dst] := by
  by_cases h_mem : d.dst ∈ c.msg.path c.dst
  · -- then the path of `d` ends before `c`
    obtain ⟨e, he, hdst, rest, hpre⟩ := hI.exists_prefix hc h_mem
    obtain rfl := hI.eq_of_dst he hd hdst
    refine Or.inr (hI.path_eq he hc (R.overlay.nbrs_symm hadj) (Or.inr fun h_back => ?_))
    have h_nodup := hI.flood.path_nodup hc (hI.committed hc)
    have h_last := c.msg.path_getLast? c.dst
    rw [← hpre] at h_nodup h_last
    cases rest using List.reverseRecOn with
    | nil =>
      rw [List.append_nil, Task.path_getLast?] at h_last
      exact hne (Option.some.inj h_last).symm
    | append_singleton rest x =>
      rw [← List.append_assoc, List.getLast?_concat] at h_last
      obtain rfl := Option.some.inj h_last
      exact (List.nodup_append.mp h_nodup).2.2 _ h_back _
        (List.mem_append_right _ (List.mem_singleton_self _)) rfl
  · exact Or.inl (hI.path_eq hc hd hadj (Or.inr h_mem))

/-- **An overlay that is explored without rejections is a tree.** -/
theorem Explored.isTree (hI : R.Explored s)
    (hcall : ∀ n ∈ R.overlay.nodes, ∃ c ∈ s.calls, c.dst = n) : R.overlay.IsTree where
  acyclic := by
    obtain ⟨root, -, -⟩ := hcall _ R.overlay.portal_mem
    have h_nonempty : Nonempty (Cascade.Call Node (Task Node) (ForwardQueryAck Node)) := ⟨root⟩
    choose! call hcall hdst using hcall
    have h_nodes : ∀ {n m}, R.overlay.graph.Adj n m → n ∈ R.overlay.nodes ∧ m ∈ R.overlay.nodes :=
      fun h => ⟨R.overlay.nbrs_mem (R.overlay.nbrs_symm h.2), R.overlay.nbrs_mem h.2⟩
    refine isAcyclic_of_paths (fun n => (call n).msg.path n) (fun n _ _ => Task.path_getLast? n _)
      fun n m h => ?_
    obtain ⟨hn, hm⟩ := h_nodes h
    have h_cases := hI.path_cases (hcall n hn) (hcall m hm)
    rw [hdst n hn, hdst m hm] at h_cases
    exact h_cases h.1 h.2
  portal := by
    intro h_self
    obtain ⟨c, hc, hdst⟩ := hcall _ R.overlay.portal_mem
    -- the portal lets no forward through, so its handler is that of the query itself
    have h_nodup := hI.flood.path_nodup hc (hI.committed hc)
    have h_valid := hI.flood.valid c hc
    have h_msg : c.msg = .submitQuery := by
      cases hm : c.msg with
      | submitQuery => rfl
      | forwardQuery req =>
        rw [hm] at h_nodup h_valid
        have h_valid : req.Valid R.overlay c.dst := h_valid
        exact absurd rfl ((List.nodup_append.mp h_nodup).2.2 _ h_valid.portal_mem _
          (by rw [hdst]; exact List.mem_singleton_self _))
    rw [← hdst] at h_self
    have h_loop := congrArg List.length (hI.path_eq hc hc h_self (Or.inl h_msg))
    rw [List.length_append] at h_loop
    exact absurd h_loop (by simp)

omit [DecidableEq Node] in
/-- Handlers give up on dead nodes only. -/
theorem OnlyUnreachable.patient {dead : Node → Prop} (h : OnlyUnreachable dead s l) :
    Cascade.Patient dead s l := by
  cases l with
  | check i => exact h
  | expire i =>
    intro d hd
    apply h d
    unfold Cascade.State.callee at hd
    split at hd
    · next hc =>
      unfold waitedFor
      rw [hc]
      exact hd
    · exact absurd hd (by simp)
  | _ => exact trivial

/-- **The visited list suffices exactly on trees.** On an overlay that the portal is joined to
every node of, no forward is ever rejected — whatever the interleaving, and whatever fails, is
canceled or expires — if and only if the overlay has no cycles. -/
theorem visited_suffices_iff (R : Request Node Row)
    (hjoined : ∀ n ∈ R.overlay.nodes, Relation.ReflTransGen R.overlay.Adj R.overlay.portal n) :
    (∀ s, R.machine.Reachable (fun _ _ => True) s → ∀ c ∈ s.calls, ∀ r, c.pc ≠ .refused r) ↔
      R.overlay.IsTree := by
  constructor
  · intro hunrefused
    -- a run to its end, in which nothing fails
    obtain ⟨ls, u, hrun, -, -, hrest⟩ := comes_to_rest R (fun _ => False) ⟨[], .nil R.start⟩
    have hP : R.PatientInv (fun _ => False) u ∧ CommitsOnce u.calls := by
      refine hrun.invariant (fun s => R.PatientInv (fun _ => False) s ∧ CommitsOnce s.calls)
        (fun s l s' hI hl hstep => ?_) ⟨.initial R id, ?_⟩
      · have hstep := Cascade.step_iff.mp hstep
        exact ⟨hI.1.step hl.patient hstep, hI.2.step hI.1 hstep⟩
      · intro i j c d hc hd _ _ _
        have h_i := (List.getElem?_eq_some_iff.mp hc).1
        have h_j := (List.getElem?_eq_some_iff.mp hd).1
        have h_one : R.start.calls.length = 1 := rfl
        omega
    have h_reach : R.machine.Reachable (fun _ _ => True) u := 
      ⟨ls, hrun.mono fun _ _ _ => trivial⟩
    have hI : R.Explored u := by
      refine ⟨hP.1.flood, hP.2, fun c hc => ?_⟩
      have h_rest := hrest.calls c hc
      cases hpc : c.pc with
      | returned r => exact ⟨r, rfl⟩
      | refused r => exact absurd hpc (hunrefused u h_reach c hc r)
      | _ =>
        rw [hpc] at h_rest
        simp [Cascade.Pc.answer] at h_rest
    refine hI.isTree fun n hn => ?_
    have h_path : R.LivePath (fun _ => False) n :=
      (hjoined n hn).lift id fun _ _ h => ⟨h, id⟩
    obtain ⟨c, hc, hdst, -⟩ := hI.flood.source n (hI.flood.covers hrest.calls h_path).1
    exact ⟨c, hc, hdst⟩
  · exact fun htree s hs => (TreeInv.reachable htree hs).unrefused

/-- On the triangle `c` rejects the forward of the portal, as that of `b` has come first. -/
theorem visited_suffices_iff_triangle : ¬ Overlay.triangle.IsTree := by
  obtain ⟨s, hrun, c, hc, hrefused⟩ := Machine.exists_run_of_exec (M := (quiet .triangle).machine)
    (P := fun _ _ => True) (s := (quiet .triangle).start)
    (l := [.send 0, .check 1, .commit 1, .send 1, .check 2, .commit 2, .finish 2, .collect 1,
      .finish 1, .collect 0, .send 0, .check 3])
    (Φ := fun s => ∃ c ∈ s.calls, c.pc = .refused ⟨false, .c, "dup"⟩) (by decide)
  -- every node is the portal or its neighbour
  have h_joined : ∀ n ∈ Overlay.triangle.nodes,
      Relation.ReflTransGen Overlay.triangle.Adj Overlay.triangle.portal n := by
    intro n hn
    have h_cases : n = .a ∨ n ∈ Overlay.triangle.nbrs .a := by
      revert hn
      cases n <;> decide
    rcases h_cases with rfl | h_nbr
    · exact .refl
    · exact .single h_nbr
  have h_iff := visited_suffices_iff (quiet .triangle) h_joined
  exact fun htree => h_iff.mpr htree s ⟨_, hrun⟩ c hc _ hrefused

end Request
end Mini2
