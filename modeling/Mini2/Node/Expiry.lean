import Mini2.Framework.CascadeSettled
import Mini2.Node.Abort
import Mini2.Node.Flood
import Mini2.Node.Handlers

/-!
# Expiry and cancellation

The janitor and `CancelQuery` both cancel the buffer of a request and abort it on all
neighbours, but only `CancelQuery` marks the portal's own route entry. `flag_iff` says which
entries are marked once the aborts of either have settled: those of the nodes that an abort
can get to through the overlay, and after `CancelQuery` the portal's.

It follows that an expiry cancels what `CancelQuery` cancels exactly if the portal has
nothing to mark or some abort finds a way back to it (`expiry_cancels_iff`). On a tree no
abort does (`returns_iff_cycle`), and the portal's own scan goes on.
-/

namespace Mini2

open Framework

variable {Node Row : Type*} [DecidableEq Node]

/-! ### What is marked -/

/-- The handler of a call has marked its node's route entry. -/
def marked (c : Cascade.Call Node (AbortMsg Node) Unit) : Bool :=
  match c.msg with
  | .abort _ => c.pc.committed
  | .start .cancelQuery => c.pc.isReturned
  | .start .janitorLoop => false

/-- The entries that are marked are those that were from the start and those that a
handler has marked. -/
structure FlagInv (σ : AbortStore Node)
    (s : Cascade.State Node (AbortMsg Node) Unit (AbortStore Node)) : Prop where
  routed : s.store.routed = σ.routed
  canceled : ∀ n, s.store.canceled n = true ↔
    σ.canceled n = true ∨ (σ.routed n = true ∧ ∃ c ∈ s.calls, c.dst = n ∧ marked c)

section Flags

variable {T : Topology Node} {σ : AbortStore Node}
  {s s' : Cascade.State Node (AbortMsg Node) Unit (AbortStore Node)}

@[simp] theorem cancelRoute_routed (σ : AbortStore Node) (p : Node) :
    (σ.cancelRoute p).routed = σ.routed := by
  unfold AbortStore.cancelRoute
  split <;> rfl

theorem cancelRoute_canceled (σ : AbortStore Node) (p n : Node) :
    (σ.cancelRoute p).canceled n = true ↔
      σ.canceled n = true ∨ (σ.routed n = true ∧ p = n) := by
  unfold AbortStore.cancelRoute
  -- only a node with a route has something to mark
  by_cases h_routed : σ.routed p = true
  · rw [if_pos h_routed]
    show Function.update σ.canceled p true n = true ↔ _
    by_cases h_eq : p = n
    · subst h_eq
      simp [h_routed]
    · rw [Function.update_of_ne (Ne.symm h_eq)]
      simp [h_eq]
  · rw [if_neg h_routed]
    constructor
    · exact Or.inl
    · rintro (h_flag | ⟨h_n, rfl⟩)
      · exact h_flag
      · exact absurd h_n h_routed

/-- One call moves, and its node's entry is marked if its handler has done so now. -/
theorem FlagInv.move (h : FlagInv σ s) {i : ℕ} {c : Cascade.Call Node (AbortMsg Node) Unit}
    {pc : Cascade.Pc Node (AbortMsg Node) Unit}
    {new : List (Cascade.Call Node (AbortMsg Node) Unit)} (hc : s.calls[i]? = some c)
    (hcalls : s'.calls = s.calls.set i { c with pc := pc } ++ new)
    (hnew : ∀ d ∈ new, marked d = false) (hmono : marked c → marked { c with pc := pc })
    (hrouted : s'.store.routed = s.store.routed)
    (hcanceled : ∀ n, s'.store.canceled n = true ↔ s.store.canceled n = true ∨
      (s.store.routed n = true ∧ c.dst = n ∧ marked { c with pc := pc })) : FlagInv σ s' where
  routed := hrouted.trans h.routed
  canceled := by
    intro n
    -- the marks of the new list are the old ones and that of the call that moved
    have h_marked : (∃ d ∈ s'.calls, d.dst = n ∧ marked d) ↔
        (∃ d ∈ s.calls, d.dst = n ∧ marked d) ∨ (c.dst = n ∧ marked { c with pc := pc }) := by
      rw [hcalls]
      constructor
      · rintro ⟨d, hd, hdst, hd_marked⟩
        rcases Cascade.mem_moved hd with hd | rfl | hd
        · exact Or.inl ⟨d, hd, hdst, hd_marked⟩
        · exact Or.inr ⟨hdst, hd_marked⟩
        · exact absurd hd_marked (by rw [hnew d hd]; simp)
      · rintro (⟨d, hd, hdst, hd_marked⟩ | ⟨hdst, hd_marked⟩)
        · by_cases h_eq : d = c
          · subst h_eq
            exact ⟨_, Cascade.moved_mem hc, hdst, hmono hd_marked⟩
          · obtain ⟨d', hd', -, -, h_kept⟩ := Cascade.exists_moved pc new hc hd
            rw [h_kept h_eq] at hd'
            exact ⟨d, hd', hdst, hd_marked⟩
        · exact ⟨_, Cascade.moved_mem hc, hdst, hd_marked⟩
    rw [hcanceled, h.canceled, h.routed, h_marked, and_or_left, or_assoc]

/-- One call moves, and nothing is marked. -/
theorem FlagInv.keep (h : FlagInv σ s) {i : ℕ} {c : Cascade.Call Node (AbortMsg Node) Unit}
    {pc : Cascade.Pc Node (AbortMsg Node) Unit}
    {new : List (Cascade.Call Node (AbortMsg Node) Unit)} (hc : s.calls[i]? = some c)
    (hcalls : s'.calls = s.calls.set i { c with pc := pc } ++ new)
    (hnew : ∀ d ∈ new, marked d = false) (hsame : marked { c with pc := pc } = marked c)
    (hstore : s'.store = s.store) : FlagInv σ s' := by
  apply h.move hc hcalls hnew (fun hm => hsame.trans hm) (by rw [hstore])
  intro n
  rw [hstore, hsame]
  constructor
  · exact Or.inl
  · rintro (h_flag | ⟨h_routed, rfl, h_marked⟩)
    · exact h_flag
    · -- the call was marked before, and its node flagged
      rw [h.canceled]
      rw [h.routed] at h_routed
      exact Or.inr ⟨h_routed, c, List.mem_of_getElem? hc, rfl, h_marked⟩

/-- **Every action keeps track of the marks.** -/
theorem FlagInv.step (h : FlagInv σ s) {l : Cascade.Label Empty}
    (hstep : (abortCascade T).Step s l s') : FlagInv σ s' := by
  have h_none : ∀ d ∈ ([] : List (Cascade.Call Node (AbortMsg Node) Unit)), marked d = false :=
    fun d hd => absurd hd List.not_mem_nil
  cases hstep with
  | @check i c hc hpc =>
    obtain ⟨dst, msg, pc⟩ := c
    obtain rfl : pc = .sent := hpc
    have h_same : marked ⟨dst, msg, .admitted⟩ = marked ⟨dst, msg, .sent⟩ := by
      rcases msg with ⟨_ | _⟩ | u <;> rfl
    exact h.keep hc (List.append_nil _).symm h_none h_same rfl
  | @commit i c hc hpc =>
    obtain ⟨dst, msg, pc⟩ := c
    obtain rfl : pc = .admitted := hpc
    cases msg with
    | start cause =>
      have h_same : marked ⟨dst, .start cause,
          .calling ((abortCascade T).outgoing dst (.start cause))⟩ =
          marked ⟨dst, .start cause, .admitted⟩ := by
        cases cause <;> rfl
      exact h.keep hc (List.append_nil _).symm h_none h_same rfl
    | abort u =>
      -- the section of the `Abort` handler that marks the entry
      apply h.move hc (List.append_nil _).symm h_none (fun _ => rfl)
      · exact cancelRoute_routed _ _
      · intro n
        show (s.store.cancelRoute dst).canceled n = true ↔ _
        rw [cancelRoute_canceled]
        exact or_congr_right (and_congr_right fun _ => (and_iff_left rfl).symm)
  | @send i c p m todo hc hpc =>
    obtain ⟨dst, msg, pc⟩ := c
    obtain rfl : pc = .calling ((p, m) :: todo) := hpc
    have h_same : marked ⟨dst, msg, .waiting s.calls.length todo⟩ =
        marked ⟨dst, msg, .calling ((p, m) :: todo)⟩ := by
      rcases msg with ⟨_ | _⟩ | u <;> rfl
    have h_new : ∀ d ∈ [(⟨p, m, .sent⟩ : Cascade.Call Node (AbortMsg Node) Unit)],
        marked d = false := by
      intro d hd
      obtain rfl := List.mem_singleton.mp hd
      rcases m with ⟨_ | _⟩ | u <;> rfl
    exact h.keep hc rfl h_new h_same rfl
  | @collect i id c d todo r hc hpc hd hr =>
    obtain ⟨dst, msg, pc⟩ := c
    obtain rfl : pc = .waiting id todo := hpc
    have h_same : marked ⟨dst, msg, .calling todo⟩ = marked ⟨dst, msg, .waiting id todo⟩ := by
      rcases msg with ⟨_ | _⟩ | u <;> rfl
    exact h.keep hc (List.append_nil _).symm h_none h_same rfl
  | @expire i id c d todo hc hpc hd =>
    obtain ⟨dst, msg, pc⟩ := c
    obtain rfl : pc = .waiting id todo := hpc
    have h_same : marked ⟨dst, msg, .calling todo⟩ = marked ⟨dst, msg, .waiting id todo⟩ := by
      rcases msg with ⟨_ | _⟩ | u <;> rfl
    exact h.keep hc (List.append_nil _).symm h_none h_same rfl
  | @finish i c hc hpc =>
    obtain ⟨dst, msg, pc⟩ := c
    obtain rfl : pc = .calling [] := hpc
    cases msg with
    | start cause =>
      cases cause with
      | cancelQuery =>
        -- the last section of `CancelQuery`, which the janitor does not have
        apply h.move hc (List.append_nil _).symm h_none (fun _ => rfl)
        · exact cancelRoute_routed _ _
        · intro n
          show (s.store.cancelRoute dst).canceled n = true ↔ _
          rw [cancelRoute_canceled]
          exact or_congr_right (and_congr_right fun _ => (and_iff_left rfl).symm)
      | janitorLoop => exact h.keep hc (List.append_nil _).symm h_none rfl rfl
    | abort u => exact h.keep hc (List.append_nil _).symm h_none rfl rfl
  | @env e _ he => exact e.elim

end Flags

/-! ### Where aborts get to -/

section Aborts

variable {T : Topology Node} {cause : AbortCause} {n u : Node}

/-- An abort is caused if a walk from the portal that never turns straight back crosses
its edge. -/
theorem caused_abort : (abortCascade T).Caused [(T.portal, .start cause)] (n, .abort u) ↔
    Straight.From (fun n m => m ∈ T.nbrs n) T.portal (u, n) := by
  constructor
  · rintro ⟨r, hr, h_reach⟩
    obtain rfl := List.mem_singleton.mp hr
    -- what is caused is the start itself, or an abort on such a walk
    have h_walk : ∀ q, Relation.ReflTransGen
        (fun a b => b ∈ (abortCascade T).outgoing a.1 a.2) (T.portal, .start cause) q →
        q = (T.portal, .start cause) ∨ ∃ u, q.2 = .abort u ∧
          Straight.From (fun n m => m ∈ T.nbrs n) T.portal (u, q.1) := by
      intro q hq
      induction hq with
      | refl => exact Or.inl rfl
      | @tail a b _ hab ih =>
        rcases ih with rfl | ⟨u, h_msg, h_from⟩
        · obtain ⟨nb, hnb, rfl⟩ := mem_outgoing_start.mp hab
          exact Or.inr ⟨T.portal, rfl, nb, hnb, .refl⟩
        · rw [h_msg] at hab
          obtain ⟨nb, rfl, h_next⟩ := mem_outgoing_abort.mp hab
          exact Or.inr ⟨a.1, rfl, h_from.next h_next⟩
    rcases h_walk _ h_reach with h_eq | ⟨v, h_msg, h_from⟩
    · exact absurd (congrArg Prod.snd h_eq) (by simp)
    · obtain rfl := AbortMsg.abort.inj h_msg
      exact h_from
  · rintro ⟨v, hv, h_reach⟩
    have h_walk : ∀ d, Relation.ReflTransGen (Straight.Next fun n m => m ∈ T.nbrs n)
        (T.portal, v) d → (abortCascade T).Caused [(T.portal, .start cause)] (d.2, .abort d.1) := by
      intro d hd
      induction hd with
      | refl =>
        refine ⟨_, List.mem_singleton_self _, .single ?_⟩
        exact mem_outgoing_start.mpr ⟨v, hv, rfl⟩
      | @tail a b _ hab ih =>
        apply ih.next
        refine mem_outgoing_abort.mpr ⟨b.2, ?_, ?_⟩
        · rw [hab.1]
        · rw [hab.1]
          exact ⟨rfl, hab.2⟩
    exact h_walk _ h_reach

/-- Nobody sends a start. -/
theorem caused_start {cause' : AbortCause}
    (h : (abortCascade T).Caused [(T.portal, .start cause)] (n, .start cause')) :
    n = T.portal ∧ cause' = cause := by
  obtain ⟨r, hr, h_reach⟩ := h
  obtain rfl := List.mem_singleton.mp hr
  rcases Relation.ReflTransGen.cases_tail h_reach with h_eq | ⟨a, -, h_out⟩
  · obtain ⟨h_n, h_msg⟩ := Prod.mk.inj h_eq
    exact ⟨h_n.symm ▸ rfl, (AbortMsg.start.inj h_msg).symm ▸ rfl⟩
  · simp only [abortCascade, List.mem_map] at h_out
    obtain ⟨nb, -, h_eq⟩ := h_out
    exact absurd (congrArg Prod.snd h_eq) (by simp)

theorem grown_start (σ : AbortStore Node) :
    Cascade.Grown (abortCascade T) [(T.portal, .start cause)] (abortStart T cause σ).calls where
  shape := abortStart_shape T cause σ
  rooted := by
    intro r hr
    obtain rfl := List.mem_singleton.mp hr
    exact ⟨_, List.mem_singleton_self _, rfl⟩
  caused := by
    intro c hc
    obtain rfl := List.mem_singleton.mp hc
    exact ⟨_, List.mem_singleton_self _, .refl⟩

/-- An overlay has finitely many edges for aborts to cross. -/
theorem caused_finite (O : Overlay Node) (cause : AbortCause) :
    {q | (abortCascade O.toTopology).Caused [(O.portal, .start cause)] q}.Finite := by
  have h_darts := O.adj_finite.image fun d => (d.2, AbortMsg.abort d.1)
  refine (h_darts.insert (O.portal, .start cause)).subset ?_
  rintro ⟨n, m⟩ h
  cases m with
  | start cause' =>
    obtain ⟨rfl, rfl⟩ := caused_start h
    exact Or.inl rfl
  | abort u => exact Or.inr ⟨(u, n), (caused_abort.mp h).joined, rfl⟩

end Aborts

/-! ### A request that expires -/

/-- What the nodes hold of one request. -/
structure Holdings (Node Row : Type*) where
  /-- The request's state at the portal. -/
  st : RequestState Node Row
  /-- The portal's registry holds `st`. -/
  registered : Bool
  /-- The entry of each node's `routes_`. -/
  routes : Node → Option (RouteState Node)

namespace Holdings

variable (h : Holdings Node Row)

/-- The node's entry is marked as canceled: a scan of the node that polls it stops. -/
def Marked (n : Node) : Prop := ∃ route, h.routes n = some route ∧ route.canceled = true

/-- The route entries as the aborts see them. -/
def abortStore : AbortStore Node where
  routed n := (h.routes n).isSome
  canceled n := (h.routes n).any RouteState.canceled

/-- The route entries with the flags of `σ`. -/
def withFlags (σ : AbortStore Node) : Holdings Node Row :=
  { h with
    routes := fun n => (h.routes n).map fun route => { route with canceled := σ.canceled n } }

/-- `st->buffer->cancel()` -/
def cancelBuffer : Holdings Node Row := { h with st := h.st.withBuffer h.st.buffer.cancel }

/-- What `cause` leaves behind, given the marks `σ` of its aborts: `CancelQuery` looks the
request up, the janitor has collected it and erases it in the end. -/
def after (cause : AbortCause) (σ : AbortStore Node) : Holdings Node Row :=
  match cause with
  | .cancelQuery => (if h.registered then h.cancelBuffer else h).withFlags σ
  | .janitorLoop => { h.cancelBuffer.withFlags σ with registered := false }

/-- The aborts of `cause` are finished in the state `s`: each has been handled, or repeats
one that has. -/
def Finishes (O : Overlay Node) (cause : AbortCause)
    (s : Cascade.State Node (AbortMsg Node) Unit (AbortStore Node)) : Prop :=
  (∃ ls, (abortMachine O.toTopology cause h.abortStore).Run (fun _ _ => True)
    (abortStart O.toTopology cause h.abortStore) ls s) ∧ Cascade.Settled s.calls

/-- The same route entries are marked, and the buffer is the same. -/
structure SameCancel (h₁ h₂ : Holdings Node Row) : Prop where
  marked : ∀ n, h₁.Marked n ↔ h₂.Marked n
  buffer : h₁.st.buffer = h₂.st.buffer

/-- An expiry cancels what `CancelQuery` does, however their aborts travel. -/
def ExpiresAlike (O : Overlay Node) : Prop :=
  ∀ s₁ s₂, h.Finishes O .janitorLoop s₁ → h.Finishes O .cancelQuery s₂ →
    SameCancel (h.after .janitorLoop s₁.store) (h.after .cancelQuery s₂.store)

section Results

variable {h} {O : Overlay Node} {cause : AbortCause}
  {s : Cascade.State Node (AbortMsg Node) Unit (AbortStore Node)}

/-- **The entries that are marked in the end**: those that were, those of the nodes that an
abort gets to, and after `CancelQuery` the portal's. -/
theorem flag_iff (hs : h.Finishes O cause s) (n : Node) : s.store.canceled n = true ↔
    h.abortStore.canceled n = true ∨ (h.abortStore.routed n = true ∧
      ((∃ u, Straight.From O.Adj O.portal (u, n)) ∨ (n = O.portal ∧ cause = .cancelQuery))) := by
  obtain ⟨⟨ls, h_run⟩, h_settled⟩ := hs
  have h_flags : FlagInv h.abortStore s := by
    apply h_run.invariant (fun s => FlagInv h.abortStore s)
    · intro s l t h_inv _ hstep
      exact h_inv.step (Cascade.step_iff.mp hstep)
    · refine ⟨rfl, fun n => (or_iff_left ?_).symm⟩
      rintro ⟨-, c, hc, -, h_marked⟩
      obtain rfl := List.mem_singleton.mp hc
      cases cause <;> exact absurd h_marked (by simp [Mini2.marked, Cascade.Pc.isReturned])
  have h_grown := (grown_start h.abortStore).run h_run
  rw [h_flags.canceled]
  refine or_congr_right (and_congr_right fun _ => ?_)
  constructor
  · rintro ⟨⟨dst, msg, pc⟩, hc, rfl, h_marked⟩
    have h_caused := (h_grown.mem_iff h_settled).mp ⟨_, hc, rfl⟩
    cases msg with
    | abort u => exact Or.inl ⟨u, caused_abort.mp h_caused⟩
    | start cause' =>
      obtain ⟨rfl, rfl⟩ := caused_start h_caused
      cases cause' with
      | cancelQuery => exact Or.inr ⟨rfl, rfl⟩
      | janitorLoop => exact absurd h_marked (by simp [Mini2.marked])
  · -- what has been caused has been handled, at least once
    have h_handled : ∀ m, (abortCascade O.toTopology).Caused [(O.portal, .start cause)] (n, m) →
        ∃ d ∈ s.calls, d.dst = n ∧ d.msg = m ∧ d.pc.isReturned = true := by
      intro m h_caused
      obtain ⟨c, hc, h_key⟩ := (h_grown.mem_iff h_settled).mpr h_caused
      obtain ⟨d, hd, h_same, h_returned⟩ := h_settled c hc
      obtain ⟨hdst, hmsg⟩ := Prod.mk.inj (h_same.trans h_key)
      exact ⟨d, hd, hdst, hmsg, h_returned⟩
    rintro (⟨u, h_from⟩ | ⟨rfl, rfl⟩)
    · obtain ⟨⟨dst, msg, pc⟩, hd, hdst, rfl, h_returned⟩ := h_handled _ (caused_abort.mpr h_from)
      refine ⟨_, hd, hdst, ?_⟩
      cases pc with
      | returned r => rfl
      | _ => exact absurd h_returned (by simp [Cascade.Pc.isReturned])
    · obtain ⟨⟨dst, msg, pc⟩, hd, hdst, rfl, h_returned⟩ :=
        h_handled _ ⟨_, List.mem_singleton_self _, .refl⟩
      exact ⟨_, hd, hdst, h_returned⟩

/-- The aborts of both can finish. -/
theorem exists_finishes (h : Holdings Node Row) (O : Overlay Node) (cause : AbortCause) :
    ∃ s, h.Finishes O cause s := by
  have hG : ∀ (_ : Cascade.State Node (AbortMsg Node) Unit (AbortStore Node))
      (l : Cascade.Label Empty), l.isCall → True := fun _ _ _ => trivial
  -- the handler of the start first, which is running
  obtain ⟨ls₁, t, h_run, h_calls⟩ := Cascade.exists_run_drain
    (P := abortCascade O.toTopology) (o := abortStart O.toTopology cause h.abortStore)
    (s := abortStart O.toTopology cause h.abortStore) (i := 0) hG rfl rfl
  have h_grown := (grown_start h.abortStore).run h_run
  have h_quiet : Cascade.Quiet t.calls := by
    intro c hc
    rw [h_calls] at hc
    rcases List.mem_append.mp hc with hc | hc
    · obtain rfl := List.mem_singleton.mp hc
      exact Or.inr rfl
    · obtain ⟨q, -, rfl⟩ := List.mem_map.mp hc
      exact Or.inl rfl
  obtain ⟨ls₂, s, h_rest, h_settled⟩ := Cascade.exists_settled hG (fun _ _ _ => rfl)
    (caused_finite O cause) h_grown h_quiet
  exact ⟨s, ⟨ls₁ ++ ls₂, h_run.append h_rest⟩, h_settled⟩

omit [DecidableEq Node] in
/-- The marks that `cause` leaves behind. -/
theorem marked_after (cause : AbortCause) (σ : AbortStore Node) (n : Node) :
    (h.after cause σ).Marked n ↔ (h.routes n).isSome ∧ σ.canceled n = true := by
  have h_routes : (h.after cause σ).routes n =
      (h.routes n).map fun route => { route with canceled := σ.canceled n } := by
    cases cause with
    | cancelQuery =>
      show (Holdings.withFlags (if h.registered then h.cancelBuffer else h) σ).routes n = _
      split <;> rfl
    | janitorLoop => rfl
  unfold Marked
  rw [h_routes]
  cases h.routes n with
  | none => simp
  | some route => simp

/-- The aborts mark the same entries, but for the portal's. -/
theorem flag_eq {s₁ s₂ : Cascade.State Node (AbortMsg Node) Unit (AbortStore Node)} {n : Node}
    (hs₁ : h.Finishes O .janitorLoop s₁) (hs₂ : h.Finishes O .cancelQuery s₂)
    (hn : n = O.portal → h.abortStore.canceled n = true ∨ h.abortStore.routed n = false ∨
      Straight.Returns O.Adj O.portal) :
    s₁.store.canceled n = true ↔ s₂.store.canceled n = true := by
  rw [flag_iff hs₁, flag_iff hs₂]
  refine ⟨Or.imp_right (And.imp_right fun h' => Or.inl (by simpa using h')), ?_⟩
  rintro (h_flag | ⟨h_routed, h_from | ⟨rfl, -⟩⟩)
  · exact Or.inl h_flag
  · exact Or.inr ⟨h_routed, Or.inl h_from⟩
  · -- what `CancelQuery` marks itself
    rcases hn rfl with h_flag | h_none | h_returns
    · exact Or.inl h_flag
    · exact absurd h_routed (by simp [h_none])
    · exact Or.inr ⟨h_routed, Or.inl h_returns⟩

theorem ExpiresAlike.portal (h_alike : h.ExpiresAlike O) {route : RouteState Node}
    (hroute : h.routes O.portal = some route) :
    route.canceled = true ∨ Straight.Returns O.Adj O.portal := by
  obtain ⟨s₁, hs₁⟩ := exists_finishes h O .janitorLoop
  obtain ⟨s₂, hs₂⟩ := exists_finishes h O .cancelQuery
  have h_some : (h.routes O.portal).isSome := by rw [hroute]; rfl
  -- `CancelQuery` has marked the portal's entry, so the janitor's aborts have too
  have h_cancel : (h.after .cancelQuery s₂.store).Marked O.portal := by
    rw [marked_after, flag_iff hs₂]
    exact ⟨h_some, Or.inr ⟨h_some, Or.inr ⟨rfl, rfl⟩⟩⟩
  have h_expiry := ((h_alike s₁ s₂ hs₁ hs₂).marked O.portal).mpr h_cancel
  rw [marked_after, flag_iff hs₁] at h_expiry
  rcases h_expiry.2 with h_flag | ⟨-, h_from | ⟨-, h_cause⟩⟩
  · left
    simpa [abortStore, hroute] using h_flag
  · exact Or.inr h_from
  · exact absurd h_cause (by simp)

theorem expiresAlike_of (hexpired : h.registered = true)
    (hportal : ∀ route, h.routes O.portal = some route →
      route.canceled = true ∨ Straight.Returns O.Adj O.portal) : h.ExpiresAlike O := by
  intro s₁ s₂ hs₁ hs₂
  constructor
  · intro n
    rw [marked_after, marked_after]
    refine and_congr_right fun h_some => flag_eq hs₁ hs₂ ?_
    rintro rfl
    obtain ⟨route, h_route⟩ := Option.isSome_iff_exists.mp h_some
    -- the portal is marked before, or by an abort that comes back to it
    rcases hportal route h_route with h_flag | h_returns
    · left
      simpa [abortStore, h_route] using h_flag
    · exact Or.inr (Or.inr h_returns)
  · show h.cancelBuffer.st.buffer = (if h.registered then h.cancelBuffer else h).st.buffer
    rw [if_pos hexpired]

end Results

/-- **An expiry cancels what `CancelQuery` cancels exactly if the portal's route entry, if it
has one, is marked already, or some abort finds a way back to the portal.** -/
theorem expiry_cancels_iff (O : Overlay Node) (h : Holdings Node Row)
    (hexpired : h.registered = true) :
    h.ExpiresAlike O ↔ ∀ route, h.routes O.portal = some route →
      route.canceled = true ∨ Straight.Returns O.Adj O.portal :=
  ⟨fun h_alike _ h_route => h_alike.portal h_route, expiresAlike_of hexpired⟩

/-- A request of two nodes whose rows nobody fetches any more. -/
def abandoned : Holdings Overlay.Id3 Unit where
  st := .create .default 2
  registered := true
  routes
    | .a => some ⟨⟨.self, [.a]⟩, false⟩
    | .b => some ⟨⟨.a, [.a, .b]⟩, false⟩
    | _ => none

/-- Round a triangle the aborts of the janitor come back to the portal. -/
theorem expiry_cancels_triangle : abandoned.ExpiresAlike Overlay.triangle := by
  refine (expiry_cancels_iff Overlay.triangle abandoned rfl).mpr fun route _ => Or.inr ?_
  have h_next : ∀ u v w : Overlay.Id3, w ∈ Overlay.triangle.nbrs v → w ≠ u →
      Straight.Next Overlay.triangle.Adj (u, v) (v, w) := fun _ _ _ h_adj h_ne => ⟨rfl, h_adj, h_ne⟩
  refine ⟨.c, .b, show _ ∈ Overlay.triangle.nbrs _ by decide, ?_⟩
  exact (Relation.ReflTransGen.single (h_next .a .b .c (by decide) (by decide))).tail
    (h_next .b .c .a (by decide) (by decide))

/-- The portal's one call goes out, is handled, and returns. -/
def oneAbort : List (Cascade.Label Empty) :=
  [.send 0, .check 1, .commit 1, .finish 1, .collect 0, .finish 0]

/-- **On two nodes, an expiry spares the portal's own scan.** -/
theorem expiry_spares_portal :
    abandoned.registered = true ∧ ¬ abandoned.ExpiresAlike Overlay.pair := by
  refine ⟨rfl, fun h_alike => ?_⟩
  obtain ⟨s₁, h_run₁, h_settled₁, h_spared⟩ := Machine.exists_run_of_exec
    (M := abortMachine Overlay.pair.toTopology .janitorLoop abandoned.abortStore)
    (P := fun _ _ => True) (Φ := fun s => Cascade.Settled s.calls ∧ s.store.canceled .a = false)
    (s := abortStart Overlay.pair.toTopology .janitorLoop abandoned.abortStore) (l := oneAbort)
    (by decide)
  obtain ⟨s₂, h_run₂, h_settled₂, h_marked⟩ := Machine.exists_run_of_exec
    (M := abortMachine Overlay.pair.toTopology .cancelQuery abandoned.abortStore)
    (P := fun _ _ => True) (Φ := fun s => Cascade.Settled s.calls ∧ s.store.canceled .a = true)
    (s := abortStart Overlay.pair.toTopology .cancelQuery abandoned.abortStore) (l := oneAbort)
    (by decide)
  have h_same := (h_alike s₁ s₂ ⟨⟨_, h_run₁⟩, h_settled₁⟩ ⟨⟨_, h_run₂⟩, h_settled₂⟩).marked .a
  rw [marked_after, marked_after, h_spared, h_marked] at h_same
  exact absurd (h_same.mpr ⟨rfl, rfl⟩).2 (by simp)

omit [DecidableEq Node] in
/-- **Aborts find a way back to the portal exactly on an overlay with a closed walk**, if no
node is its own neighbour. -/
theorem returns_iff_cycle (O : Overlay Node) (hself : ∀ n, n ∉ O.nbrs n) :
    Straight.Returns O.Adj O.portal ↔ ¬ O.CycleFree :=
  Straight.returns_iff (fun _ _ h => O.nbrs_symm h) hself O.adj_finite

/-- What the nodes hold in a state of a request. -/
def ofStore (σ : Store Node Row) : Holdings Node Row where
  st := σ.st
  registered := σ.registered
  routes n := (σ.routes n).map fun route => ⟨route, σ.cancelMarks n⟩

/-- In every state that a submitted request reaches, the portal has a route entry for it. -/
theorem portal_routed {R : Request Node Row} {s : Request.State Node Row}
    {G : Request.State Node Row → Request.Label Node → Prop}
    (hreach : R.machine.Reachable G s) : (s.store.routes R.overlay.portal).isSome := by
  apply hreach.invariant (fun s => (s.store.routes R.overlay.portal).isSome)
  · show (R.startStore.routes R.overlay.portal).isSome
    simp [Request.startStore]
  · intro s l t h_some _ hstep
    exact Request.routes_mono (Cascade.step_iff.mp hstep) h_some

/-- **A submitted request that expires is canceled like by `CancelQuery` exactly if the
portal's entry is marked already, or some abort finds a way back to it.** -/
theorem request_expires_iff {R : Request Node Row} {s : Request.State Node Row}
    {G : Request.State Node Row → Request.Label Node → Prop}
    (hreach : R.machine.Reachable G s) (hexpired : s.store.registered = true) :
    (ofStore s.store).ExpiresAlike R.overlay ↔
      s.store.cancelMarks R.overlay.portal = true ∨
        Straight.Returns R.overlay.Adj R.overlay.portal := by
  obtain ⟨route, h_route⟩ := Option.isSome_iff_exists.mp (portal_routed hreach)
  -- the portal always has an entry for a request that was submitted
  have h_held : (ofStore s.store).routes R.overlay.portal =
      some ⟨route, s.store.cancelMarks R.overlay.portal⟩ := by
    show (s.store.routes R.overlay.portal).map _ = _
    rw [h_route]
    rfl
  constructor
  · intro h_alike
    exact h_alike.portal h_held
  · intro h_cond
    apply expiresAlike_of hexpired
    intro route' h_route'
    obtain rfl := Option.some.inj (h_held.symm.trans h_route')
    exact h_cond

end Holdings

end Mini2
