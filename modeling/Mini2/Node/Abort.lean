import Mini2.Framework.CascadeBound
import Mini2.Framework.StraightWalk
import Mini2.Overlay.Topology

/-!
# Abort propagation

`CancelQuery` and the janitor send an `Abort` to every neighbour, and the
`Abort` handler marks the node's own route and sends the message on to every
neighbour but the sender. Nothing else stops it: there is no visited list, as
`ForwardQuery` has, and no memory of an abort already handled.

An abort message is therefore a dart of the overlay, and a chain of abort
messages is a walk that never turns straight back. `abort_bounded` bounds the
messages of an overlay none of whose walks from the portal crosses a dart
twice, by the rank of the darts; `abort_unbounded` delivers arbitrarily many on
every other overlay. The shipped topology is one of these: `B`, `D` and `E`
form a triangle.
-/

namespace Mini2

open Framework

variable {Node : Type*} [DecidableEq Node]

/-- What starts a cascade of aborts on the portal. -/
inductive AbortCause
  | cancelQuery
  /-- One expired request. -/
  | janitorLoop
  deriving DecidableEq

/-- The fan-outs of a cascade of aborts. -/
inductive AbortMsg (Node : Type*)
  /-- The fan-out that starts the cascade. -/
  | start (cause : AbortCause)
  /-- `AbortRequest`, with its `from_node`. -/
  | abort (fromNode : Node)
  deriving DecidableEq

/-- The route entries of one request that an abort touches. -/
structure AbortStore (Node : Type*) where
  /-- The node has a route entry for the request. -/
  routed : Node → Bool
  /-- `RouteState::canceled`. -/
  canceled : Node → Bool

/-- `it->second->canceled.store(true)` under `routes_mu_`, if there is an entry. -/
def AbortStore.cancelRoute (σ : AbortStore Node) (n : Node) : AbortStore Node :=
  if σ.routed n then { σ with canceled := Function.update σ.canceled n true } else σ

/-- The neighbours a node sends an abort to. -/
def abortTargets (T : Topology Node) (n : Node) : AbortMsg Node → List Node
  | .abort fromNode => (T.nbrs n).filter (· ≠ fromNode)
  | .start _ => T.nbrs n

/-- `Abort`, `CancelQuery` and the janitor as handlers. `CancelQuery` marks the
portal's own route after its fan-out; the janitor does not. -/
def abortCascade (T : Topology Node) :
    Cascade Node (AbortMsg Node) Unit (AbortStore Node) Empty where
  check _ _ _ := none
  commit σ n m :=
    match m with
    | .abort _ => σ.cancelRoute n
    | .start _ => σ
  outgoing n m := (abortTargets T n m).map fun nb => (nb, .abort n)
  settle σ _ _ _ _ := σ
  finish σ n m :=
    match m with
    | .start .cancelQuery => σ.cancelRoute n
    | _ => σ
  reply _ _ := ()
  env _ e := e.elim

/-- The portal has just started its fan-out. -/
def abortStart (T : Topology Node) (cause : AbortCause) (σ : AbortStore Node) :
    Cascade.State Node (AbortMsg Node) Unit (AbortStore Node) where
  calls := [⟨T.portal, .start cause,
    .calling ((abortCascade T).outgoing T.portal (.start cause))⟩]
  store := σ

/-- The runs of one cascade of aborts. -/
def abortMachine (T : Topology Node) (cause : AbortCause) (σ : AbortStore Node) :=
  (abortCascade T).machine (abortStart T cause σ)

/-- **Finite propagation**: a number that depends on the overlay alone bounds
the `Abort` messages delivered by every run of handlers that `cause` starts, and
a run that can go no further has none in flight. -/
def AbortsBounded (T : Topology Node) (cause : AbortCause) : Prop :=
  ∃ B : ℕ, ∀ (σ : AbortStore Node) ls s,
    (abortMachine T cause σ).Run (fun _ _ => True) (abortStart T cause σ) ls s →
      ls.countP Cascade.Label.isCheck ≤ B ∧
      ((∀ l, (abortCascade T).step s l = none) → ∀ c ∈ s.calls, c.pc ≠ .sent)

/-- No walk from the portal that never turns straight back crosses an edge
twice in the same direction. -/
def Topology.CycleFree (T : Topology Node) : Prop :=
  Straight.CycleFree (fun n m => m ∈ T.nbrs n) T.portal

section Outgoing

variable {T : Topology Node}

/-- The messages an abort causes continue the walk of that abort. -/
theorem mem_outgoing_abort {n u : Node} {q : Node × AbortMsg Node} :
    q ∈ (abortCascade T).outgoing n (.abort u) ↔
      ∃ nb, q = (nb, .abort n) ∧ Straight.Next (fun n m => m ∈ T.nbrs n) (u, n) (n, nb) := by
  simp only [abortCascade, abortTargets, List.mem_map, List.mem_filter, decide_eq_true_eq,
    Straight.Next]
  constructor
  · rintro ⟨nb, ⟨hnb, hne⟩, rfl⟩
    exact ⟨nb, rfl, trivial, hnb, hne⟩
  · rintro ⟨nb, rfl, -, hnb, hne⟩
    exact ⟨nb, ⟨hnb, hne⟩, rfl⟩

/-- The fan-out of `CancelQuery` and of the janitor goes to every neighbour. -/
theorem mem_outgoing_start {cause : AbortCause} {n : Node} {q : Node × AbortMsg Node} :
    q ∈ (abortCascade T).outgoing n (.start cause) ↔
      ∃ nb, nb ∈ T.nbrs n ∧ q = (nb, .abort n) := by
  simp only [abortCascade, abortTargets, List.mem_map]
  exact ⟨fun ⟨nb, h, e⟩ => ⟨nb, h, e.symm⟩, fun ⟨nb, h, e⟩ => ⟨nb, h, e.symm⟩⟩

end Outgoing

/-! ### Overlays without a closed walk -/

/-- The rank of an abort message: the darts ahead of the one it crossed, and
more than all of them for the messages that start a cascade. -/
noncomputable def abortRank (O : Overlay Node) (n : Node) : AbortMsg Node → ℕ
  | .abort u => Straight.rank O.Adj (u, n)
  | .start _ => {e : Node × Node | O.Adj e.1 e.2}.ncard + 1

/-- The messages a cascade from the portal consists of. -/
def AbortValid (O : Overlay Node) (n : Node) : AbortMsg Node → Prop
  | .abort u => Straight.From O.Adj O.portal (u, n)
  | .start _ => n = O.portal

theorem abortValid_inherit (O : Overlay Node) (n : Node) (m : AbortMsg Node)
    (hv : AbortValid O n m) (q : Node × AbortMsg Node)
    (hq : q ∈ (abortCascade O.toTopology).outgoing n m) : AbortValid O q.1 q.2 := by
  cases m with
  | abort u =>
    obtain ⟨nb, rfl, hnext⟩ := mem_outgoing_abort.mp hq
    exact Straight.From.next hv hnext
  | start cause =>
    obtain ⟨nb, hnb, rfl⟩ := mem_outgoing_start.mp hq
    obtain rfl : n = O.portal := hv
    exact ⟨nb, hnb, .refl⟩

/-- Every abort is a step down the rank, on an overlay without a closed walk. -/
theorem abortRank_descend (O : Overlay Node) (hfree : O.CycleFree) (n : Node)
    (m : AbortMsg Node) (hv : AbortValid O n m) (q : Node × AbortMsg Node)
    (hq : q ∈ (abortCascade O.toTopology).outgoing n m) :
    abortRank O q.1 q.2 < abortRank O n m := by
  have hv' := abortValid_inherit O n m hv q hq
  cases m with
  | abort u =>
    obtain ⟨nb, rfl, hnext⟩ := mem_outgoing_abort.mp hq
    exact Straight.rank_lt O.adj_finite hnext (hfree _ hv')
  | start cause =>
    obtain ⟨nb, hnb, rfl⟩ := mem_outgoing_start.mp hq
    exact Nat.lt_succ_of_le (Set.ncard_le_ncard (Straight.ahead_subset _ _) O.adj_finite)

/-- The ranking of the aborts of an overlay without a closed walk. -/
noncomputable def abortRanking (O : Overlay Node) (hfree : O.CycleFree) :
    Cascade.Ranking (abortCascade O.toTopology) where
  valid := AbortValid O
  rank := abortRank O
  fan := O.nodes.length
  fan_le n m _ := by
    have h_le := O.nbrs_length_le n
    cases m with
    | abort u =>
      simp only [abortCascade, abortTargets, List.length_map]
      exact (List.length_filter_le _ _).trans h_le
    | start cause => simpa [abortCascade, abortTargets] using h_le
  inherit _ := fun n m hv _ => abortValid_inherit O n m hv
  descend _ := fun n m hv _ => abortRank_descend O hfree n m hv

/-- A call in flight can be delivered, so a run that can go no further has none. -/
theorem abort_none_in_flight {T : Topology Node}
    {s : Cascade.State Node (AbortMsg Node) Unit (AbortStore Node)}
    (hstuck : ∀ l, (abortCascade T).step s l = none) : ∀ c ∈ s.calls, c.pc ≠ .sent := by
  intro c hc hpc
  obtain ⟨i, hi⟩ := List.mem_iff_getElem?.mp hc
  have h_check := Cascade.step_iff.mpr (Cascade.Step.check (P := abortCascade T) hi hpc)
  rw [hstuck] at h_check
  exact absurd h_check (by simp)

theorem isCheck_le_isCall (ls : List (Cascade.Label Empty)) :
    ls.countP Cascade.Label.isCheck ≤ ls.countP Cascade.Label.isCall := by
  refine List.countP_mono_left fun l _ hl => ?_
  cases l <;> first | rfl | exact absurd hl (by simp [Cascade.Label.isCheck])

/-- The bookkeeping invariant holds when a cascade starts. -/
theorem abortStart_shape (T : Topology Node) (cause : AbortCause) (σ : AbortStore Node) :
    Cascade.Shape (abortCascade T) [(T.portal, .start cause)] (abortStart T cause σ).calls where
  passed := by
    intro c hc _
    exact ⟨σ, rfl⟩
  todo := by
    intro c hc
    obtain rfl := List.mem_singleton.mp hc
    exact List.suffix_rfl
  covered := by
    intro c hc _ q hq
    obtain rfl := List.mem_singleton.mp hc
    exact Or.inl hq
  origin := by
    intro d hd
    obtain rfl := List.mem_singleton.mp hd
    exact Or.inl (List.mem_singleton_self _)

/-- **Aborts are bounded on a cycle-free overlay.** -/
theorem abort_bounded (O : Overlay Node) (cause : AbortCause) (hfree : O.CycleFree) :
    AbortsBounded O.toTopology cause := by
  refine ⟨(abortRanking O hfree).potential [⟨O.portal, .start cause,
    .calling ((abortCascade O.toTopology).outgoing O.portal (.start cause))⟩], ?_⟩
  intro σ ls s hrun
  refine ⟨?_, abort_none_in_flight⟩
  have h_valid : ∀ c ∈ (abortStart O.toTopology cause σ).calls, AbortValid O c.dst c.msg := by
    intro c hc
    obtain rfl := List.mem_singleton.mp hc
    rfl
  exact (isCheck_le_isCall ls).trans
    ((abortRanking O hfree).steps_le hrun (abortStart_shape _ _ _) h_valid)

/-! ### Overlays with a closed walk -/

/-- A walk that never turns straight back is a chain of abort messages. -/
theorem isChain_abort {T : Topology Node} {a : Node × Node} {chain : List (Node × Node)}
    (h : (a :: chain).IsChain (Straight.Next fun n m => m ∈ T.nbrs n)) :
    ((a.2, AbortMsg.abort a.1) :: chain.map fun d => (d.2, AbortMsg.abort d.1)).IsChain
      fun p q => q ∈ (abortCascade T).outgoing p.1 p.2 := by
  induction chain generalizing a with
  | nil => exact List.isChain_singleton _
  | cons b chain ih =>
    obtain ⟨hab, hrest⟩ := List.isChain_cons_cons.mp h
    refine List.isChain_cons_cons.mpr ⟨?_, ih hrest⟩
    obtain ⟨b₁, b₂⟩ := b
    obtain rfl : a.2 = b₁ := hab.1
    exact mem_outgoing_abort.mpr ⟨b₂, rfl, rfl, hab.2⟩

/-- **Aborts are unbounded on every other overlay**: the handlers can follow
the closed walk round and round. -/
theorem abort_unbounded (T : Topology Node) (cause : AbortCause) (hcycle : ¬ T.CycleFree) :
    ¬ AbortsBounded T cause := by
  rintro ⟨B, hB⟩
  unfold Topology.CycleFree Straight.CycleFree at hcycle
  push Not at hcycle
  -- a cycle that the portal reaches has walks of any length
  obtain ⟨d, ⟨v, hv, hreach⟩, hloop⟩ := hcycle
  obtain ⟨chain, hchain, hlen⟩ :=
    Straight.exists_chain hloop B (Relation.TransGen.trans_right hreach hloop)
  -- nothing a node knows makes it refuse, so any store will do
  let σ : AbortStore Node := ⟨fun _ => false, fun _ => false⟩
  have h_first : (v, AbortMsg.abort T.portal) ∈ (abortCascade T).outgoing T.portal (.start cause) :=
    mem_outgoing_start.mpr ⟨v, hv, rfl⟩
  -- the portal sends the abort into the walk, and each node sends it on
  obtain ⟨ls₁, t, j, hrun₁, hj⟩ := Cascade.exists_run_send (P := abortCascade T)
    (o := abortStart T cause σ) (s := abortStart T cause σ) (G := fun _ _ => True)
    (fun _ _ _ => trivial) (i := 0) rfl rfl h_first
  obtain ⟨ls₂, u, hrun₂, hcount⟩ := Cascade.exists_run_of_chain (P := abortCascade T)
    (o := abortStart T cause σ) (G := fun _ _ => True) (fun _ _ _ => trivial)
    (fun _ _ _ => rfl) hj (isChain_abort hchain)
  have h_le := (hB σ (ls₁ ++ ls₂) u (hrun₁.append hrun₂)).1
  rw [List.countP_append] at h_le
  rw [List.length_map, hlen] at hcount
  omega

/-- **Aborts are finite exactly on the overlays without a closed walk.** -/
theorem abort_bounded_iff (O : Overlay Node) (cause : AbortCause) :
    AbortsBounded O.toTopology cause ↔ O.CycleFree := by
  constructor
  · intro h
    by_contra hcycle
    exact abort_unbounded O.toTopology cause hcycle h
  · exact abort_bounded O cause

/-- On three nodes in a triangle an abort goes round and round. -/
theorem abort_triangle : ¬ AbortsBounded Overlay.triangle.toTopology .cancelQuery := by
  refine abort_unbounded _ _ fun hfree => ?_
  have h_next : ∀ u v w : Overlay.Id3, w ∈ Overlay.triangle.nbrs v → w ≠ u →
      Straight.Next (fun n m => m ∈ Overlay.triangle.nbrs n) (u, v) (v, w) :=
    fun _ _ _ hadj hne => ⟨rfl, hadj, hne⟩
  refine hfree (.a, .b) ⟨.b, show _ ∈ Overlay.triangle.nbrs _ by decide, .refl⟩ ?_
  exact .head (h_next .a .b .c (by decide) (by decide))
    (.head (h_next .b .c .a (by decide) (by decide))
      (.single (h_next .c .a .b (by decide) (by decide))))

end Mini2
