import Mini2.Framework.Cascade

/-!
# Simulations

A machine is simulated by another one if its steps are matched, label by label, along a
relation between their states; so are then its guarded runs (`Machine.Run.simulate`).

Cascades with the same parties, messages and replies are compared by their stores alone: where
the sections of the handlers and the surroundings respect a relation between the stores
(`Cascade.Refines`), the runs of the first are runs of the second with the same calls.
-/

namespace Framework

variable {σ τ α : Type*}

/-- **The simulation rule.** Steps that are matched along a relation, from states whose guard
carries over, make up runs that are. -/
theorem Machine.Run.simulate {M : Machine σ α} {N : Machine τ α} {P : σ → α → Prop}
    {Q : τ → α → Prop} (Rel : σ → τ → Prop) (hguard : ∀ s t l, Rel s t → P s l → Q t l)
    (hstep : ∀ s t l s', Rel s t → M.step s l = some s' → ∃ t', N.step t l = some t' ∧ Rel s' t')
    {s u : σ} {t : τ} {ls : List α} (h : M.Run P s ls u) (hs : Rel s t) :
    ∃ v, N.Run Q t ls v ∧ Rel u v := by
  induction h generalizing t with
  | nil s => exact ⟨t, .nil t, hs⟩
  | cons hP hst _ ih =>
    obtain ⟨t', h_step, h_rel⟩ := hstep _ _ _ _ hs hst
    obtain ⟨v, h_run, h_v⟩ := ih h_rel
    exact ⟨v, .cons (hguard _ _ _ hs hP) h_step h_run, h_v⟩

namespace Cascade

variable {Party Msg Reply Store Store' Env : Type*}

/-- The sections of a cascade, and its surroundings, respect a relation to the stores of
another. -/
structure Refines (P : Cascade Party Msg Reply Store Env)
    (P' : Cascade Party Msg Reply Store' Env) (Rel : Store → Store' → Prop) : Prop where
  check : ∀ {σ σ'} n m, Rel σ σ' → P'.check σ' n m = P.check σ n m
  commit : ∀ {σ σ'} n m, Rel σ σ' → Rel (P.commit σ n m) (P'.commit σ' n m)
  outgoing : ∀ n m, P'.outgoing n m = P.outgoing n m
  settle : ∀ {σ σ'} n m p r, Rel σ σ' → Rel (P.settle σ n m p r) (P'.settle σ' n m p r)
  finish : ∀ {σ σ'} n m, Rel σ σ' → Rel (P.finish σ n m) (P'.finish σ' n m)
  reply : ∀ n m, P'.reply n m = P.reply n m
  env : ∀ {σ σ' τ} e, Rel σ σ' → P.env σ e = some τ → ∃ τ', P'.env σ' e = some τ' ∧ Rel τ τ'

/-- The same calls, over related stores. -/
structure Related (Rel : Store → Store' → Prop) (s : State Party Msg Reply Store)
    (s' : State Party Msg Reply Store') : Prop where
  calls : s'.calls = s.calls
  store : Rel s.store s'.store

variable {P : Cascade Party Msg Reply Store Env} {P' : Cascade Party Msg Reply Store' Env}
  {Rel : Store → Store' → Prop} {s t : State Party Msg Reply Store}
  {s' : State Party Msg Reply Store'} {l : Label Env}

/-- An action of the first cascade is one of the second. -/
theorem Refines.step (h : P.Refines P' Rel) (hs : Related Rel s s') (hstep : P.Step s l t) :
    ∃ t', P'.Step s' l t' ∧ Related Rel t t' := by
  obtain ⟨calls, store⟩ := s'
  obtain ⟨rfl, h_store⟩ : calls = s.calls ∧ Rel s.store store := ⟨hs.calls, hs.store⟩
  cases hstep with
  | @check i c hc hpc =>
    refine ⟨_, .check hc hpc, ?_, h_store⟩
    show s.calls.set i _ = s.calls.set i _
    -- the handler sees the same, and admits or refuses alike
    rw [checkPc, checkPc, h.check c.dst c.msg h_store]
  | @commit i c hc hpc =>
    refine ⟨_, .commit hc hpc, ?_, h.commit c.dst c.msg h_store⟩
    show s.calls.set i _ = s.calls.set i _
    -- it sends the same messages on
    rw [h.outgoing]
  | send hc hpc => exact ⟨_, .send hc hpc, rfl, h_store⟩
  | @collect i id c d todo r hc hpc hd hr =>
    exact ⟨_, .collect hc hpc hd hr, rfl, h.settle c.dst c.msg d.dst (some r) h_store⟩
  | @expire i id c d todo hc hpc hd =>
    exact ⟨_, .expire hc hpc hd, rfl, h.settle c.dst c.msg d.dst none h_store⟩
  | @finish i c hc hpc =>
    refine ⟨_, .finish hc hpc, ?_, h.finish c.dst c.msg h_store⟩
    show s.calls.set i _ = s.calls.set i _
    -- and gives the same answer
    rw [h.reply]
  | @env e τ he =>
    obtain ⟨τ', h_env, h_rel⟩ := h.env e h_store he
    exact ⟨_, .env h_env, rfl, h_rel⟩

/-- **The runs of a cascade are runs of one that it refines**, with the same labels and the
same calls. -/
theorem Refines.run (h : P.Refines P' Rel) {s₀ : State Party Msg Reply Store}
    {s₀' : State Party Msg Reply Store'} {G : State Party Msg Reply Store → Label Env → Prop}
    {G' : State Party Msg Reply Store' → Label Env → Prop}
    (hguard : ∀ s s' l, Related Rel s s' → G s l → G' s' l) (hs : Related Rel s s')
    {ls : List (Label Env)} (hrun : (P.machine s₀).Run G s ls t) :
    ∃ t', (P'.machine s₀').Run G' s' ls t' ∧ Related Rel t t' := by
  refine hrun.simulate (Related Rel) hguard (fun s s' l t h_rel h_step => ?_) hs
  obtain ⟨t', h_step', h_rel'⟩ := h.step h_rel (step_iff.mp h_step)
  exact ⟨t', step_iff.mpr h_step', h_rel'⟩

end Cascade
end Framework
