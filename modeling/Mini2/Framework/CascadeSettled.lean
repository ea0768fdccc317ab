import Mini2.Framework.CascadeBound
import Mathlib.Data.Set.Card
import Mathlib.Logic.Relation

/-!
# Cascades that have settled

A call list has settled when each of its calls has been answered by a whole handler, or
repeats one that has. What is still under way then repeats what has been done, and nothing
new is to come.

* `Grown.mem_iff` — the messages of a settled list are those that the roots cause,
  whatever the order was in which the handlers ran and whichever of their calls they gave
  up on.
* `exists_settled` — where all parties let messages through and the roots cause finitely
  many, some run settles: the handlers give up on all of their calls, and a message is
  delivered once.
-/

namespace Framework
namespace Cascade

variable {Party Msg Reply Store Env : Type*}

/-- Answered by the whole handler. -/
def Pc.isReturned : Pc Party Msg Reply → Bool
  | .returned _ => true
  | _ => false

/-- Every call has been answered by a whole handler, or repeats one that has. -/
def Settled (L : List (Call Party Msg Reply)) : Prop :=
  ∀ c ∈ L, ∃ d ∈ L, (d.dst, d.msg) = (c.dst, c.msg) ∧ d.pc.isReturned

instance [DecidableEq Party] [DecidableEq Msg] (L : List (Call Party Msg Reply)) :
    Decidable (Settled L) :=
  inferInstanceAs (Decidable (∀ c ∈ L, ∃ d ∈ L, (d.dst, d.msg) = (c.dst, c.msg) ∧
    d.pc.isReturned = true))

/-- The messages that handlers send because of `roots`, each with the party it is for. -/
def Caused (P : Cascade Party Msg Reply Store Env) (roots : List (Party × Msg))
    (q : Party × Msg) : Prop :=
  ∃ r ∈ roots, Relation.ReflTransGen (fun a b => b ∈ P.outgoing a.1 a.2) r q

/-- A call list that has grown from the calls with the messages `roots`. -/
structure Grown (P : Cascade Party Msg Reply Store Env) (roots : List (Party × Msg))
    (L : List (Call Party Msg Reply)) : Prop where
  shape : Shape P roots L
  rooted : ∀ r ∈ roots, ∃ d ∈ L, (d.dst, d.msg) = r
  caused : ∀ c ∈ L, P.Caused roots (c.dst, c.msg)

variable {P : Cascade Party Msg Reply Store Env} {roots : List (Party × Msg)}

theorem Caused.next {a b : Party × Msg} (h : P.Caused roots a) (hab : b ∈ P.outgoing a.1 a.2) :
    P.Caused roots b := by
  obtain ⟨r, hr, h_reach⟩ := h
  exact ⟨r, hr, h_reach.tail hab⟩

section Settled

variable {s s' : State Party Msg Reply Store} {l : Label Env}
  {L : List (Call Party Msg Reply)}

theorem Grown.step (h : Grown P roots s.calls) (hstep : P.Step s l s') :
    Grown P roots s'.calls where
  shape := h.shape.step hstep
  rooted := by
    intro r hr
    -- a root stays where it is
    obtain ⟨d, hd, h_root⟩ := h.rooted r hr
    rcases hstep.calls_cases with ⟨-, heq⟩ | ⟨i, c, pc, new, hc, -, heq⟩
    · rw [heq]
      exact ⟨d, hd, h_root⟩
    · obtain ⟨d', hd', hdst, hmsg, -⟩ := exists_moved pc new hc hd
      rw [heq]
      exact ⟨d', hd', by rw [hdst, hmsg]; exact h_root⟩
  caused := by
    -- what a handler sends on has been caused by its own call
    have h_out : ∀ (σ : Store) p m, P.Caused roots (p, m) → P.check σ p m = none →
        ∀ q ∈ P.outgoing p m, P.Caused roots (q.1, q.2) :=
      fun _ p m hv _ q hq => Caused.next hv hq
    have h_valid : ∀ c ∈ s'.calls, (fun p m => P.Caused roots (p, m)) c.dst c.msg :=
      valid_step h_out h.shape h.caused hstep
    exact h_valid

theorem Grown.run {o u : State Party Msg Reply Store}
    {G : State Party Msg Reply Store → Label Env → Prop} {ls : List (Label Env)}
    (h : Grown P roots s.calls) (hrun : (P.machine o).Run G s ls u) : Grown P roots u.calls := by
  apply hrun.invariant (fun t => Grown P roots t.calls)
  · intro t l t' h_inv _ hstep
    exact h_inv.step (step_iff.mp hstep)
  · exact h

/-- **The calls of a settled list are those that the roots cause.** -/
theorem Grown.mem_iff (h : Grown P roots L) (hsettled : Settled L) {q : Party × Msg} :
    (∃ d ∈ L, (d.dst, d.msg) = q) ↔ P.Caused roots q := by
  constructor
  · rintro ⟨d, hd, rfl⟩
    exact h.caused d hd
  · rintro ⟨r, hr, h_reach⟩
    induction h_reach with
    | refl => exact h.rooted r hr
    | @tail a b _ hab ih =>
      obtain ⟨c, hc, rfl⟩ := ih
      -- a handler of the same message has made all of its calls
      obtain ⟨d, hd, h_same, h_returned⟩ := hsettled c hc
      obtain ⟨hdst, hmsg⟩ := Prod.mk.inj h_same
      have h_out : b ∈ P.outgoing d.dst d.msg := by
        rw [hdst, hmsg]
        exact hab
      obtain ⟨dst, msg, pc⟩ := d
      cases pc with
      | returned r =>
        rcases h.shape.covered _ hd rfl b h_out with h_todo | h_made
        · exact absurd h_todo List.not_mem_nil
        · exact h_made
      | _ => exact absurd h_returned (by simp [Pc.isReturned])

end Settled

/-! ### Runs that settle -/

section Exists

variable {o s : State Party Msg Reply Store}
  {G : State Party Msg Reply Store → Label Env → Prop}

/-- A handler can make all of its calls, give up on each, and answer. -/
theorem exists_run_drain (hG : ∀ s l, l.isCall → G s l) {i : ℕ} {c : Call Party Msg Reply}
    {todo : List (Party × Msg)} (hc : s.calls[i]? = some c) (hpc : c.pc = .calling todo) :
    ∃ (ls : List (Label Env)) (u : State Party Msg Reply Store), (P.machine o).Run G s ls u ∧
      u.calls = s.calls.set i { c with pc := .returned (P.reply c.dst c.msg) } ++
        todo.map fun q => ⟨q.1, q.2, .sent⟩ := by
  have hi : i < s.calls.length := (List.getElem?_eq_some_iff.mp hc).1
  -- induction on the calls that are left to make
  induction todo generalizing s c with
  | nil =>
    have h_finish := Step.finish (P := P) hc hpc
    refine ⟨[.finish i], _, .cons (hG _ _ rfl) (step_iff.mpr h_finish) (.nil _), ?_⟩
    simp [State.setPc]
  | cons q todo ih =>
    obtain ⟨s₁, h_skip, h_calls⟩ := exists_run_skip (o := o) hG hc hpc
    have hc₁ : s₁.calls[i]? = some { c with pc := .calling todo } := by
      rw [h_calls, List.getElem?_append_left (by simpa using hi)]
      exact List.getElem?_set_self hi
    have hi₁ : i < s₁.calls.length := (List.getElem?_eq_some_iff.mp hc₁).1
    obtain ⟨ls, u, h_rest, hu⟩ := ih hc₁ rfl hi₁
    refine ⟨_, u, h_skip.append h_rest, ?_⟩
    rw [hu, h_calls, List.set_append_left _ _ (by simpa using hi), List.set_set,
      List.append_assoc]
    rfl

/-- A message that all let through can be delivered and handled. -/
theorem exists_run_handle (hG : ∀ s l, l.isCall → G s l)
    (hcheck : ∀ σ p m, P.check σ p m = none) {i : ℕ} {c : Call Party Msg Reply}
    (hc : s.calls[i]? = some c) (hpc : c.pc = .sent) :
    ∃ (ls : List (Label Env)) (u : State Party Msg Reply Store), (P.machine o).Run G s ls u ∧
      u.calls = s.calls.set i { c with pc := .returned (P.reply c.dst c.msg) } ++
        (P.outgoing c.dst c.msg).map fun q => ⟨q.1, q.2, .sent⟩ := by
  have hi : i < s.calls.length := (List.getElem?_eq_some_iff.mp hc).1
  obtain ⟨t, h_commit, h_calls⟩ := exists_run_commit (o := o) hG (hcheck _ _ _) hc hpc
  have hc₁ : t.calls[i]? = some { c with pc := .calling (P.outgoing c.dst c.msg) } := by
    rw [h_calls]
    exact List.getElem?_set_self hi
  obtain ⟨ls, u, h_drain, hu⟩ := exists_run_drain (o := o) hG hc₁ rfl
  refine ⟨_, u, h_commit.append h_drain, ?_⟩
  rw [hu, h_calls, List.set_set]

/-- Nothing is being handled. -/
def Quiet (L : List (Call Party Msg Reply)) : Prop :=
  ∀ c ∈ L, c.pc = .sent ∨ c.pc.isReturned

/-- The messages that are caused and that no handler has answered yet. -/
def unanswered (P : Cascade Party Msg Reply Store Env) (roots : List (Party × Msg))
    (L : List (Call Party Msg Reply)) : Set (Party × Msg) :=
  {q | P.Caused roots q ∧ ∀ d ∈ L, (d.dst, d.msg) = q → ¬ d.pc.isReturned}

/-- **Some run settles**, from a state in which nothing is being handled. -/
theorem exists_settled (hG : ∀ s l, l.isCall → G s l) (hcheck : ∀ σ p m, P.check σ p m = none)
    (hfin : {q | P.Caused roots q}.Finite) (hgrown : Grown P roots s.calls)
    (hquiet : Quiet s.calls) :
    ∃ (ls : List (Label Env)) (u : State Party Msg Reply Store),
      (P.machine o).Run G s ls u ∧ Settled u.calls := by
  -- every message that is handled leaves fewer that have not been
  induction h_count : (unanswered P roots s.calls).ncard using Nat.strong_induction_on
    generalizing s with
  | _ n ih =>
    by_cases h_settled : Settled s.calls
    · exact ⟨[], s, .nil s, h_settled⟩
    unfold Settled at h_settled
    push Not at h_settled
    obtain ⟨c, hc, h_new⟩ := h_settled
    have h_sent : c.pc = .sent := (hquiet c hc).resolve_right (h_new c hc rfl)
    obtain ⟨i, hi⟩ := List.mem_iff_getElem?.mp hc
    obtain ⟨ls₁, t, h_run, h_calls⟩ := exists_run_handle (o := o) hG hcheck hi h_sent
    have h_grown : Grown P roots t.calls := hgrown.run h_run
    have h_quiet : Quiet t.calls := by
      intro d hd
      rw [h_calls] at hd
      rcases mem_moved hd with hd | rfl | hd
      · exact hquiet d hd
      · exact Or.inr rfl
      · obtain ⟨q, -, rfl⟩ := List.mem_map.mp hd
        exact Or.inl rfl
    have h_lt : (unanswered P roots t.calls).ncard < n := by
      rw [← h_count]
      refine Set.ncard_lt_ncard ⟨?_, ?_⟩ (hfin.subset fun q hq => hq.1)
      · rintro q ⟨h_caused, h_none⟩
        refine ⟨h_caused, fun d hd hq h_returned => ?_⟩
        -- what has been answered stays answered
        obtain ⟨d', hd', hdst, hmsg, h_kept⟩ := exists_moved
          (.returned (P.reply c.dst c.msg)) ((P.outgoing c.dst c.msg).map _) hi hd
        have h_ne : d ≠ c := by
          rintro rfl
          exact h_new d hc rfl h_returned
        refine h_none d' (h_calls ▸ hd') (by rw [hdst, hmsg]; exact hq) ?_
        rw [h_kept h_ne]
        exact h_returned
      · intro h_sub
        have h_c : (c.dst, c.msg) ∈ unanswered P roots s.calls :=
          ⟨hgrown.caused c hc, fun d hd hq => h_new d hd hq⟩
        refine (h_sub h_c).2 { c with pc := .returned (P.reply c.dst c.msg) } ?_ rfl rfl
        rw [h_calls]
        exact moved_mem hi
    obtain ⟨ls₂, u, h_rest, hu⟩ := ih _ h_lt h_grown h_quiet rfl
    exact ⟨ls₁ ++ ls₂, u, h_run.append h_rest, hu⟩

end Exists

end Cascade
end Framework
