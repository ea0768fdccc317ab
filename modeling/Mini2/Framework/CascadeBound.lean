import Mini2.Framework.CascadeShape
import Mathlib.Algebra.BigOperators.Group.List.Basic
import Mathlib.Tactic.Ring
import Mathlib.Tactic.Linarith

/-!
# Bounded and unbounded cascades

If outgoing messages have a smaller rank than the message that causes them and
every handler makes a bounded number of calls, then a run has a bounded number
of handler actions (`Ranking.steps_le`). The bound is the potential of the
first state: the potential of a call pays for every action it can still cause,
and `Move.weight_lt` shows that each action spends some of it.

Conversely a chain of outgoing calls that every party lets through can be
delivered call by call (`exists_run_of_chain`): the handler that has to make
some other calls first gives up on each of them. A cascade with arbitrarily
long chains therefore delivers arbitrarily many messages.
-/

namespace Framework
namespace Cascade

variable {Party Msg Reply Store Env : Type*} {P : Cascade Party Msg Reply Store Env}

/-! ### The potential of a ranked cascade -/

/-- A rank on messages that outgoing calls strictly decrease, and a bound on
the calls one handler makes. -/
structure Ranking (P : Cascade Party Msg Reply Store Env) where
  /-- The messages that occur. -/
  valid : Party → Msg → Prop
  rank : Party → Msg → ℕ
  fan : ℕ
  fan_le : ∀ p m, valid p m → (P.outgoing p m).length ≤ fan
  inherit : ∀ σ p m, valid p m → P.check σ p m = none → ∀ q ∈ P.outgoing p m, valid q.1 q.2
  descend : ∀ σ p m, valid p m → P.check σ p m = none →
    ∀ q ∈ P.outgoing p m, rank q.1 q.2 < rank p m

/-- The actions a message of rank `r` can cause, with `fan` calls a handler. -/
def cost (fan : ℕ) : ℕ → ℕ
  | 0 => 3
  | r + 1 => 3 + fan * (2 + cost fan r)

theorem cost_mono (fan : ℕ) {r r' : ℕ} (h : r ≤ r') : cost fan r ≤ cost fan r' := by
  have h_succ : ∀ k, cost fan k ≤ cost fan (k + 1) := by
    intro k
    induction k with
    | zero => simp only [cost]; omega
    | succ k ih =>
      simp only [cost] at ih ⊢
      have := Nat.mul_le_mul_left fan (Nat.add_le_add_left ih 2)
      omega
  exact monotone_nat_of_le_succ h_succ h

namespace Ranking

variable (R : Ranking P)

/-- What one call of a handler on `m` at `p` is worth: sending it, getting past
it, and all it causes. -/
def unit (p : Party) (m : Msg) : ℕ := 2 + cost R.fan (R.rank p m - 1)

/-- The actions a call can still cause. -/
def weight (c : Call Party Msg Reply) : ℕ :=
  match c.pc with
  | .sent => cost R.fan (R.rank c.dst c.msg)
  | .admitted => cost R.fan (R.rank c.dst c.msg) - 1
  | .calling todo => 1 + todo.length * R.unit c.dst c.msg
  | .waiting _ todo => 2 + todo.length * R.unit c.dst c.msg
  | .refused _ => 0
  | .returned _ => 0

/-- The actions a call list can still cause. -/
def potential (L : List (Call Party Msg Reply)) : ℕ := (L.map R.weight).sum

theorem cost_pos (r : ℕ) : 3 ≤ cost R.fan r := by
  cases r <;> simp [cost]

/-- Committing costs one action: the outgoing calls are paid for by the rank. -/
theorem commit_le {p : Party} {m : Msg} (hv : R.valid p m)
    (hcheck : ∃ σ, P.check σ p m = none) :
    (P.outgoing p m).length * R.unit p m + 3 ≤ cost R.fan (R.rank p m) := by
  obtain ⟨σ, hσ⟩ := hcheck
  have hfan := R.fan_le p m hv
  have hdesc := R.descend σ p m hv hσ
  unfold unit
  cases hr : R.rank p m with
  | zero =>
    -- rank `0` leaves no outgoing call
    have h_nil : P.outgoing p m = [] := by
      rw [List.eq_nil_iff_forall_not_mem]
      intro q hq
      have := hdesc q hq
      omega
    simp [h_nil, cost]
  | succ r =>
    have := Nat.mul_le_mul_right (2 + cost R.fan r) hfan
    simp only [cost, Nat.add_sub_cancel]
    omega

/-- **Every move spends potential.** -/
theorem weight_lt {roots : List (Party × Msg)} {s : State Party Msg Reply Store}
    {c : Call Party Msg Reply} {pc : Pc Party Msg Reply} {new : List (Call Party Msg Reply)}
    (hmove : P.Move s c pc new) (hshape : Shape P roots s.calls) (hc : c ∈ s.calls)
    (hv : R.valid c.dst c.msg) :
    R.weight { c with pc := pc } + R.potential new < R.weight c := by
  have h_pos := R.cost_pos (R.rank c.dst c.msg)
  cases hmove with
  | refused hpc hcheck =>
    simp only [weight, hpc, potential, List.map_nil, List.sum_nil]
    omega
  | admitted hpc hcheck =>
    simp only [weight, hpc, potential, List.map_nil, List.sum_nil]
    omega
  | committed hpc =>
    have h_le := R.commit_le hv (hshape.passed c hc (by rw [hpc]; rfl))
    simp only [weight, hpc, potential, List.map_nil, List.sum_nil]
    omega
  | @sent q todo hpc =>
    obtain ⟨σ, hσ⟩ := hshape.passed c hc (by rw [hpc]; rfl)
    have htodo := hshape.todo c hc
    rw [hpc] at htodo
    have h_desc := R.descend σ c.dst c.msg hv hσ q (htodo.subset List.mem_cons_self)
    -- the new call is worth at most one unit of the caller
    have h_cost : cost R.fan (R.rank q.1 q.2) + 2 ≤ R.unit c.dst c.msg := by
      unfold unit
      have := cost_mono R.fan (show R.rank q.1 q.2 ≤ R.rank c.dst c.msg - 1 by omega)
      omega
    simp only [weight, hpc, potential, List.map_cons, List.map_nil, List.sum_cons, List.sum_nil,
      List.length_cons, Nat.succ_mul]
    omega
  | resumed hpc =>
    simp only [weight, hpc, potential, List.map_nil, List.sum_nil]
    omega
  | returned hpc =>
    simp only [weight, hpc, potential, List.map_nil, List.sum_nil, List.length_nil]
    omega

theorem potential_append (L L' : List (Call Party Msg Reply)) :
    R.potential (L ++ L') = R.potential L + R.potential L' := by
  simp [potential]

theorem potential_set {L : List (Call Party Msg Reply)} {i : ℕ} {c d : Call Party Msg Reply}
    (hc : L[i]? = some c) : R.potential (L.set i d) + R.weight c = R.potential L + R.weight d := by
  induction L generalizing i with
  | nil => exact absurd hc (by simp)
  | cons e L ih =>
    cases i with
    | zero =>
      obtain rfl : e = c := by simpa using hc
      simp only [potential, List.set_cons_zero, List.map_cons, List.sum_cons]
      ring
    | succ i =>
      -- the head keeps its weight
      have h_tail := ih (i := i) (by simpa using hc)
      simp only [potential, List.set_cons_succ, List.map_cons, List.sum_cons] at h_tail ⊢
      omega

/-- One action spends potential if it is a handler's, and none otherwise. -/
theorem potential_step {roots : List (Party × Msg)} {s s' : State Party Msg Reply Store}
    {l : Label Env} (hstep : P.Step s l s') (hshape : Shape P roots s.calls)
    (hv : ∀ c ∈ s.calls, R.valid c.dst c.msg) :
    R.potential s'.calls + (if l.isCall then 1 else 0) ≤ R.potential s.calls := by
  rcases hstep.calls_cases with ⟨h_env, heq⟩ | ⟨i, c, pc, new, hc, hmove, heq⟩
  · -- the environment leaves the calls alone, and is not counted
    rw [heq, h_env]
    simp
  · have hcL := List.mem_of_getElem? hc
    -- the call that moves gets lighter by more than what it starts
    have h_lt := R.weight_lt hmove hshape hcL (hv c hcL)
    have h_set := R.potential_set (d := { c with pc := pc }) hc
    rw [heq, potential_append]
    split <;> omega

/-- **The bound.** A run from a state with the bookkeeping invariant has at most
as many handler actions as the potential of that state. -/
theorem steps_le {roots : List (Party × Msg)} {o s u : State Party Msg Reply Store}
    {G : State Party Msg Reply Store → Label Env → Prop} {ls : List (Label Env)}
    (hrun : (P.machine o).Run G s ls u) (hshape : Shape P roots s.calls)
    (hv : ∀ c ∈ s.calls, R.valid c.dst c.msg) :
    ls.countP Label.isCall ≤ R.potential s.calls := by
  -- shape and validity are kept along the run, which is what the weight needs
  have h := hrun.decrease
    (fun t => Shape P roots t.calls ∧ ∀ c ∈ t.calls, R.valid c.dst c.msg)
    (fun t => R.potential t.calls) Label.isCall ?_ ⟨hshape, hv⟩
  · omega
  · rintro t l t' ⟨hsh, hval⟩ - hstep
    have hstep := step_iff.mp hstep
    exact ⟨⟨hsh.step hstep, valid_step R.inherit hsh hval hstep⟩,
      R.potential_step hstep hsh hval⟩

end Ranking

/-! ### Delivering a chain of calls -/

section Chain

variable {o s : State Party Msg Reply Store}
  {G : State Party Msg Reply Store → Label Env → Prop}

/-- A handler can make its next call and give up on it. -/
theorem exists_run_skip (hG : ∀ s l, l.isCall → G s l) {i : ℕ} {c : Call Party Msg Reply}
    {todo : List (Party × Msg)} {q : Party × Msg} (hc : s.calls[i]? = some c)
    (hpc : c.pc = .calling (q :: todo)) :
    ∃ u : State Party Msg Reply Store, (P.machine o).Run G s [.send i, .expire i] u ∧
      u.calls = s.calls.set i { c with pc := .calling todo } ++ [⟨q.1, q.2, .sent⟩] := by
  have hi : i < s.calls.length := (List.getElem?_eq_some_iff.mp hc).1
  have h_send := Step.send (P := P) hc hpc
  set s₁ : State Party Msg Reply Store := { s with
    calls := s.calls.set i { c with pc := .waiting s.calls.length todo } ++
      [⟨q.1, q.2, .sent⟩] } with hs₁
  have h_new : s₁.calls[s.calls.length]? = some ⟨q.1, q.2, .sent⟩ := by
    rw [hs₁]; simp
  have hc₁ : s₁.calls[i]? = some { c with pc := .waiting s.calls.length todo } := by
    rw [hs₁]
    simp only
    rw [List.getElem?_append_left (by simpa using hi), List.getElem?_set, if_pos rfl, if_pos hi]
  have h_expire := Step.expire (P := P) hc₁ rfl h_new
  refine ⟨_, .cons (hG _ _ rfl) (step_iff.mpr h_send)
    (.cons (hG _ _ rfl) (step_iff.mpr h_expire) (.nil _)), ?_⟩
  -- the entry is replaced twice, in front of the new one
  simp only [State.setPc, hs₁]
  rw [List.set_append_left _ _ (by simpa using hi), List.set_set]

/-- A handler that has `q` among its calls to make can have it in flight: it
gives up on the calls before it. -/
theorem exists_run_send (hG : ∀ s l, l.isCall → G s l) {i : ℕ} {c : Call Party Msg Reply}
    {todo : List (Party × Msg)} {q : Party × Msg} (hc : s.calls[i]? = some c)
    (hpc : c.pc = .calling todo) (hq : q ∈ todo) :
    ∃ (ls : List (Label Env)) (u : State Party Msg Reply Store) (j : ℕ),
      (P.machine o).Run G s ls u ∧ u.calls[j]? = some ⟨q.1, q.2, .sent⟩ := by
  induction todo generalizing s c with
  | nil => exact absurd hq List.not_mem_nil
  | cons q' todo ih =>
    have hi : i < s.calls.length := (List.getElem?_eq_some_iff.mp hc).1
    obtain ⟨s₂, h_skip, h_calls⟩ := exists_run_skip (o := o) hG hc hpc
    rcases List.mem_cons.mp hq with rfl | hq
    · refine ⟨_, s₂, s.calls.length, h_skip, ?_⟩
      rw [h_calls]
      simp
    · -- give up on `q'` and go on
      have hc₂ : s₂.calls[i]? = some { c with pc := .calling todo } := by
        rw [h_calls, List.getElem?_append_left (by simpa using hi)]
        exact List.getElem?_set_self hi
      obtain ⟨ls, u, j, hrun, hj⟩ := ih hc₂ rfl hq
      exact ⟨_, u, j, h_skip.append hrun, hj⟩

/-- A message that its party lets through can be delivered, up to the calls it causes. -/
theorem exists_run_commit (hG : ∀ s l, l.isCall → G s l) {i : ℕ} {c : Call Party Msg Reply}
    (hcheck : P.check s.store c.dst c.msg = none) (hc : s.calls[i]? = some c)
    (hpc : c.pc = .sent) :
    ∃ u : State Party Msg Reply Store, (P.machine o).Run G s [.check i, .commit i] u ∧
      u.calls = s.calls.set i { c with pc := .calling (P.outgoing c.dst c.msg) } := by
  have hi : i < s.calls.length := (List.getElem?_eq_some_iff.mp hc).1
  have h_check := Step.check (P := P) hc hpc
  have h_pc : P.checkPc s.store c = .admitted := by
    unfold checkPc
    rw [hcheck]
  rw [h_pc] at h_check
  have hc₁ : (s.setPc i c .admitted).calls[i]? = some { c with pc := .admitted } :=
    List.getElem?_set_self hi
  have h_commit := Step.commit (P := P) hc₁ rfl
  refine ⟨_, .cons (hG _ _ rfl) (step_iff.mpr h_check)
    (.cons (hG _ _ rfl) (step_iff.mpr h_commit) (.nil _)), ?_⟩
  -- the entry is replaced twice
  exact List.set_set _

/-- **Chains can be delivered.** From a call in flight, every chain of outgoing
calls that all parties let through is delivered by some run. -/
theorem exists_run_of_chain (hG : ∀ s l, l.isCall → G s l)
    (hcheck : ∀ σ p m, P.check σ p m = none) {j : ℕ} {q : Party × Msg}
    (hj : s.calls[j]? = some ⟨q.1, q.2, .sent⟩) {chain : List (Party × Msg)}
    (hchain : (q :: chain).IsChain fun a b => b ∈ P.outgoing a.1 a.2) :
    ∃ ls u, (P.machine o).Run G s ls u ∧ chain.length < ls.countP Label.isCheck := by
  induction chain generalizing s j q with
  | nil =>
    refine ⟨[.check j], _, .cons (hG _ _ rfl) (step_iff.mpr (.check hj rfl)) (.nil _), ?_⟩
    simp [Label.isCheck]
  | cons q' chain ih =>
    obtain ⟨h_out, h_rest⟩ := List.isChain_cons_cons.mp hchain
    have hjl : j < s.calls.length := (List.getElem?_eq_some_iff.mp hj).1
    -- the call is checked, committed, and makes the next one of the chain
    obtain ⟨s₂, hrun₂, h_calls⟩ := exists_run_commit (o := o) hG (hcheck _ _ _) hj rfl
    have hj₂ : s₂.calls[j]? = some ⟨q.1, q.2, .calling (P.outgoing q.1 q.2)⟩ := by
      rw [h_calls]
      exact List.getElem?_set_self hjl
    obtain ⟨ls₁, t, k, hrun₁, hk⟩ := exists_run_send (o := o) hG hj₂ rfl h_out
    obtain ⟨ls, u, hrun, hcount⟩ := ih hk h_rest
    refine ⟨_, u, hrun₂.append (hrun₁.append hrun), ?_⟩
    -- one check here, and the others in the rest of the chain
    simp only [List.countP_append, List.countP_cons, List.countP_nil, Label.isCheck,
      List.length_cons]
    simp
    omega

end Chain

end Cascade
end Framework
