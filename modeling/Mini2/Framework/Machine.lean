import Mathlib.Data.List.Basic
import Mathlib.Logic.Basic
import Mathlib.Tactic.Common

/-!
# Labelled machines and guarded runs

A machine is an initial state and a partial step function: `step s l` is the
state after the atomic action `l`, and `none` where `l` is not enabled. A run
is a finite sequence of enabled actions. Statements about "every run in which
such a thing never happens" read a *guard* on every step of the run, so a run
is indexed by a predicate `P : σ → α → Prop` that holds of each pre-state and
the label taken there.

* `Machine.Run` — the guarded runs, and their composition.
* `Machine.Run.invariant` — a predicate preserved by every guarded step holds
  at the end of every guarded run. All state invariants below go through it.
* `Machine.Run.origin` — what does not hold from the start has come about at some
  state of the run.
* `Machine.Run.decrease` — a measure that every counted step decreases bounds
  the number of counted steps.
* `Machine.Run.budget`, `Machine.exists_run_of_budget` — the same for a budget that the
  state does not determine, and what follows where a counted step is always possible.
* `Machine.exec` — the executable form, from which concrete runs are read off
  (`Machine.exec_iff`).
-/

namespace Framework

/-- A machine over the states `σ` and the action labels `α`. -/
structure Machine (σ α : Type*) where
  /-- The state every run starts from. -/
  init : σ
  /-- One atomic action; `none` where it is not enabled. -/
  step : σ → α → Option σ

namespace Machine

variable {σ α : Type*} {M : Machine σ α} {P : σ → α → Prop}

/-- The runs of `M` whose every step is guarded by `P`. -/
inductive Run (M : Machine σ α) (P : σ → α → Prop) : σ → List α → σ → Prop
  | nil (s : σ) : Run M P s [] s
  | cons {s t u : σ} {l : α} {ls : List α} (hP : P s l) (hstep : M.step s l = some t)
      (hrun : Run M P t ls u) : Run M P s (l :: ls) u

/-- The states reached by the runs of `M` guarded by `P`. -/
def Reachable (M : Machine σ α) (P : σ → α → Prop) (s : σ) : Prop :=
  ∃ ls, M.Run P M.init ls s

namespace Run

theorem append {s t u : σ} {ls ls' : List α} (h : M.Run P s ls t) (h' : M.Run P t ls' u) :
    M.Run P s (ls ++ ls') u := by
  induction h with
  | nil s => exact h'
  | cons hP hstep _ ih => exact .cons hP hstep (ih h')

/-- A run that meets a guard meets a weaker one. -/
theorem mono {Q : σ → α → Prop} {s t : σ} {ls : List α} (hPQ : ∀ s l, P s l → Q s l)
    (h : M.Run P s ls t) : M.Run Q s ls t := by
  induction h with
  | nil s => exact .nil s
  | cons hP hstep _ ih => exact .cons (hPQ _ _ hP) hstep ih

/-- **The invariant rule.** A predicate that every guarded step preserves
carries over from the first state of a guarded run to its last. -/
theorem invariant (I : σ → Prop)
    (hstep : ∀ s l t, I s → P s l → M.step s l = some t → I t)
    {s u : σ} {ls : List α} (h : M.Run P s ls u) (hs : I s) : I u := by
  induction h with
  | nil s => exact hs
  | cons hP hst _ ih => exact ih (hstep _ _ _ hs hP hst)

/-- **The origin rule.** If `Q` comes about only by steps from states of which `V`
holds, a run that ends in `Q` has started there, or has passed such a state. -/
theorem origin (Q V : σ → Prop)
    (hstep : ∀ s l t, P s l → M.step s l = some t → Q t → Q s ∨ V s)
    {s u : σ} {ls : List α} (h : M.Run P s ls u) (hu : Q u) :
    Q s ∨ ∃ ls₁ m ls₂, ls = ls₁ ++ ls₂ ∧ M.Run P s ls₁ m ∧ M.Run P m ls₂ u ∧ V m := by
  induction h with
  | nil s => exact Or.inl hu
  | @cons s t u l ls hP hst hrun ih =>
    -- either the rest of the run has the origin, or it goes back to the first step
    rcases ih hu with ht | ⟨ls₁, m, ls₂, rfl, h₁, h₂, hm⟩
    · rcases hstep s l t hP hst ht with hs | hs
      · exact Or.inl hs
      · exact Or.inr ⟨[], s, l :: ls, rfl, .nil s, .cons hP hst hrun, hs⟩
    · exact Or.inr ⟨l :: ls₁, m, ls₂, rfl, .cons hP hst h₁, h₂, hm⟩

/-- **The measure rule.** If the counted steps strictly decrease `μ` along an
invariant and the others do not increase it, a run counts at most `μ` of its
first state. -/
theorem decrease (I : σ → Prop) (μ : σ → ℕ) (count : α → Bool)
    (hstep : ∀ s l t, I s → P s l → M.step s l = some t →
      I t ∧ μ t + (if count l then 1 else 0) ≤ μ s)
    {s u : σ} {ls : List α} (h : M.Run P s ls u) (hs : I s) :
    μ u + ls.countP count ≤ μ s := by
  induction h with
  | nil s => simp
  | cons hP hst _ ih =>
    -- a counted step pays for itself
    obtain ⟨ht, hμ⟩ := hstep _ _ _ hs hP hst
    have h_rest := ih ht
    rw [List.countP_cons]
    omega

/-- **The budget rule.** If every step hands the budget of its state on, less one where
it is counted, a run counts at most the budget that it starts with. -/
theorem budget (I : σ → ℕ → Prop) (count : α → Bool)
    (hstep : ∀ s l t m, I s m → P s l → M.step s l = some t →
      ∃ m', I t m' ∧ m' + (if count l then 1 else 0) ≤ m)
    {s u : σ} {ls : List α} (h : M.Run P s ls u) {m : ℕ} (hs : I s m) :
    ∃ m', I u m' ∧ m' + ls.countP count ≤ m := by
  induction h generalizing m with
  | nil s => exact ⟨m, hs, Nat.le_refl _⟩
  | cons hP hst _ ih =>
    -- the rest of the run has what the first step leaves
    obtain ⟨m₁, ht, h_first⟩ := hstep _ _ _ _ hs hP hst
    obtain ⟨m₂, hu, h_rest⟩ := ih ht
    refine ⟨m₂, hu, ?_⟩
    rw [List.countP_cons]
    omega

end Run

/-- **The progress rule.** If, with a budget, a counted step is possible wherever `Q` does
not hold yet, counted steps alone lead to `Q`, within the budget. -/
theorem exists_run_of_budget (I : σ → ℕ → Prop) (count : α → Bool) (Q : σ → Prop)
    (hstep : ∀ s l t m, I s m → P s l → M.step s l = some t →
      ∃ m', I t m' ∧ m' + (if count l then 1 else 0) ≤ m)
    (hprogress : ∀ s m, I s m →
      Q s ∨ ∃ l t, P s l ∧ count l = true ∧ M.step s l = some t)
    {s : σ} {m : ℕ} (hs : I s m) :
    ∃ ls u, M.Run P s ls u ∧ (∀ l ∈ ls, count l = true) ∧ ls.length ≤ m ∧ Q u := by
  -- every counted step uses up some of the budget
  induction m using Nat.strongRecOn generalizing s with
  | _ m ih =>
    rcases hprogress s m hs with hQ | ⟨l, t, hP, hcount, hst⟩
    · exact ⟨[], s, .nil s, fun _ h => absurd h List.not_mem_nil, Nat.zero_le _, hQ⟩
    · obtain ⟨m', ht, h_less⟩ := hstep s l t m hs hP hst
      rw [if_pos hcount] at h_less
      obtain ⟨ls, u, hrun, hall, hlen, hQ⟩ := ih m' (by omega) ht
      refine ⟨l :: ls, u, .cons hP hst hrun, List.forall_mem_cons.mpr ⟨hcount, hall⟩, ?_, hQ⟩
      rw [List.length_cons]
      omega

/-- The invariant rule read at the reachable states. -/
theorem Reachable.invariant (I : σ → Prop) (hinit : I M.init)
    (hstep : ∀ s l t, I s → P s l → M.step s l = some t → I t)
    {s : σ} (h : M.Reachable P s) : I s := by
  obtain ⟨ls, hrun⟩ := h
  exact hrun.invariant I hstep hinit

/-! ### Executable runs -/

section Exec

variable [∀ s l, Decidable (P s l)]

/-- Run a list of actions, checking the guard before each. -/
def exec (M : Machine σ α) (P : σ → α → Prop) [∀ s l, Decidable (P s l)] :
    σ → List α → Option σ
  | s, [] => some s
  | s, l :: ls => if P s l then (M.step s l).bind fun t => exec M P t ls else none

/-- `exec` finds exactly the guarded runs. -/
theorem exec_iff {s u : σ} {ls : List α} : M.exec P s ls = some u ↔ M.Run P s ls u := by
  induction ls generalizing s with
  | nil =>
    constructor
    · intro h
      obtain rfl := Option.some.inj h
      exact .nil s
    · intro h
      cases h
      rfl
  | cons l ls ih =>
    constructor
    · intro h
      unfold exec at h
      split at h
      · next hP =>
        -- the guard held, and the step was enabled
        obtain ⟨t, hstep, hrest⟩ := Option.bind_eq_some_iff.mp h
        exact .cons hP hstep (ih.mp hrest)
      · exact absurd h (by simp)
    · intro h
      cases h with
      | cons hP hstep hrun =>
        unfold exec
        rw [if_pos hP, hstep]
        exact ih.mpr hrun

/-- A predicate of the state an executed run ends in, found by evaluation, is
reached by a guarded run. -/
theorem exists_run_of_exec {Φ : σ → Prop} [DecidablePred Φ] {s : σ} {l : List α}
    (h : (M.exec P s l).any (fun u => Φ u) = true) : ∃ u, M.Run P s l u ∧ Φ u := by
  obtain ⟨u, hu, hΦ⟩ := (Option.any_eq_true_iff_get _ _).mp h |>.elim fun hs hp =>
    (⟨_, (Option.some_get hs).symm, hp⟩ : ∃ u, M.exec P s l = some u ∧ decide (Φ u) = true)
  exact ⟨u, exec_iff.mp hu, of_decide_eq_true hΦ⟩

end Exec

end Machine
end Framework
