import Mini2.Framework.Cascade
import Mathlib.Data.List.Basic

/-!
# The bookkeeping of cascades

Everything one action does to the call list is a `Move` of one call, possibly
with one new call at the end (`Step.calls_cases`). On it rest

* `Shape.step` — the bookkeeping invariant: a call past its first section was
  let through by it, the calls still to be made are a suffix of the outgoing
  ones, an outgoing call is still to be made or has been made, and every call
  that is not a root was made by a committed handler;
* `Awaits.step` — a handler that waits does so for a call that it has made;
* `valid_step` — a property of messages that outgoing messages inherit holds of
  every call.
-/

namespace Framework
namespace Cascade

variable {Party Msg Reply Store Env : Type*} {P : Cascade Party Msg Reply Store Env}

/-! ### Moves of the call list -/

/-- How one action moves a call `c`, and the call it adds. -/
inductive Move (P : Cascade Party Msg Reply Store Env) (s : State Party Msg Reply Store)
    (c : Call Party Msg Reply) : Pc Party Msg Reply → List (Call Party Msg Reply) → Prop
  | refused {r : Reply} (hpc : c.pc = .sent) (hcheck : P.check s.store c.dst c.msg = some r) :
      Move P s c (.refused r) []
  | admitted (hpc : c.pc = .sent) (hcheck : P.check s.store c.dst c.msg = none) :
      Move P s c .admitted []
  | committed (hpc : c.pc = .admitted) : Move P s c (.calling (P.outgoing c.dst c.msg)) []
  | sent {q : Party × Msg} {todo : List (Party × Msg)} (hpc : c.pc = .calling (q :: todo)) :
      Move P s c (.waiting s.calls.length todo) [⟨q.1, q.2, .sent⟩]
  | resumed {id : ℕ} {todo : List (Party × Msg)} (hpc : c.pc = .waiting id todo) :
      Move P s c (.calling todo) []
  | returned (hpc : c.pc = .calling []) : Move P s c (.returned (P.reply c.dst c.msg)) []

/-- One action leaves the call list alone or moves one call. -/
theorem Step.calls_cases {s s' : State Party Msg Reply Store} {l : Label Env}
    (h : P.Step s l s') :
    (l.isCall = false ∧ s'.calls = s.calls) ∨
      ∃ i c pc new, s.calls[i]? = some c ∧ P.Move s c pc new ∧
        s'.calls = s.calls.set i { c with pc := pc } ++ new := by
  cases h with
  | @check i c hc hpc =>
    refine Or.inr ⟨i, c, P.checkPc s.store c, [], hc, ?_, by simp [State.setPc]⟩
    -- the check decides where the call goes on
    unfold checkPc
    split
    · next r hr => exact .refused hpc hr
    · next hn => exact .admitted hpc hn
  | @commit i c hc hpc =>
    exact Or.inr ⟨i, c, _, [], hc, .committed hpc, by simp [State.setPc]⟩
  | @send i c p m todo hc hpc =>
    exact Or.inr ⟨i, c, _, [⟨p, m, .sent⟩], hc, .sent (q := (p, m)) hpc, rfl⟩
  | @collect i id c d todo r hc hpc hd hr =>
    exact Or.inr ⟨i, c, _, [], hc, .resumed hpc, by simp [State.setPc]⟩
  | @expire i id c d todo hc hpc hd =>
    exact Or.inr ⟨i, c, _, [], hc, .resumed hpc, by simp [State.setPc]⟩
  | @finish i c hc hpc =>
    exact Or.inr ⟨i, c, _, [], hc, .returned hpc, by simp [State.setPc]⟩
  | env he => exact Or.inl ⟨rfl, rfl⟩

/-- A committed handler is past its first section. -/
theorem Pc.passed_of_committed {pc : Pc Party Msg Reply} (h : pc.committed) : pc.passed := by
  cases pc <;> first | rfl | exact h

section Calls

variable {L : List (Call Party Msg Reply)} {i : ℕ} {c d : Call Party Msg Reply}
  {pc : Pc Party Msg Reply} {new : List (Call Party Msg Reply)}

/-- A call of the moved list is an old one, the moved one or the new one. -/
theorem mem_moved (hd : d ∈ L.set i { c with pc := pc } ++ new) :
    d ∈ L ∨ d = { c with pc := pc } ∨ d ∈ new := by
  rcases List.mem_append.mp hd with hd | hd
  · rcases List.mem_or_eq_of_mem_set hd with hd | hd
    · exact Or.inl hd
    · exact Or.inr (Or.inl hd)
  · exact Or.inr (Or.inr hd)

variable (pc new) in
/-- Calls keep their callee and their message, and their place. -/
theorem exists_moved_get (hc : L[i]? = some c) {j : ℕ} (hd : L[j]? = some d) :
    ∃ d', (L.set i { c with pc := pc } ++ new)[j]? = some d' ∧ d'.dst = d.dst ∧
      d'.msg = d.msg ∧ (j ≠ i → d' = d) := by
  have hj : j < L.length := (List.getElem?_eq_some_iff.mp hd).1
  rw [List.getElem?_append_left (by simpa using hj), List.getElem?_set]
  by_cases hij : i = j
  · subst hij
    obtain rfl : c = d := Option.some.inj (hc.symm.trans hd)
    exact ⟨{ c with pc := pc }, by rw [if_pos rfl, if_pos hj], rfl, rfl, fun h => absurd rfl h⟩
  · exact ⟨d, by rw [if_neg hij]; exact hd, rfl, rfl, fun _ => rfl⟩

variable (pc new) in
theorem exists_moved (hc : L[i]? = some c) (hd : d ∈ L) :
    ∃ d' ∈ L.set i { c with pc := pc } ++ new, d'.dst = d.dst ∧ d'.msg = d.msg ∧
      (d ≠ c → d' = d) := by
  obtain ⟨j, hj⟩ := List.mem_iff_getElem?.mp hd
  obtain ⟨d', hd', hdst, hmsg, hne⟩ := exists_moved_get pc new hc hj
  refine ⟨d', List.mem_of_getElem? hd', hdst, hmsg, fun h => hne fun hji => h ?_⟩
  subst hji
  exact Option.some.inj (hj.symm.trans hc)

/-- The moved call is in the moved list. -/
theorem moved_mem (hc : L[i]? = some c) :
    { c with pc := pc } ∈ L.set i { c with pc := pc } ++ new := by
  have hi : i < L.length := (List.getElem?_eq_some_iff.mp hc).1
  exact List.mem_append_left _ (List.mem_of_getElem? (i := i) (by simp [hi]))

end Calls

/-! ### The bookkeeping invariant -/

/-- The bookkeeping of a call list whose root calls carry the messages `roots`. -/
structure Shape (P : Cascade Party Msg Reply Store Env) (roots : List (Party × Msg))
    (L : List (Call Party Msg Reply)) : Prop where
  /-- A call past its first section was let through by it. -/
  passed : ∀ c ∈ L, c.pc.passed → ∃ σ, P.check σ c.dst c.msg = none
  /-- The calls still to be made are the last outgoing ones. -/
  todo : ∀ c ∈ L, c.pc.todo <:+ P.outgoing c.dst c.msg
  /-- An outgoing call is still to be made or has been made. -/
  covered : ∀ c ∈ L, c.pc.committed → ∀ q ∈ P.outgoing c.dst c.msg,
    q ∈ c.pc.todo ∨ ∃ d ∈ L, (d.dst, d.msg) = q
  /-- A call is a root or was made by a committed handler. -/
  origin : ∀ d ∈ L, (d.dst, d.msg) ∈ roots ∨
    ∃ c ∈ L, c.pc.committed ∧ (d.dst, d.msg) ∈ P.outgoing c.dst c.msg

section Shape

variable {roots : List (Party × Msg)} {s s' : State Party Msg Reply Store} {l : Label Env}

section Move

variable {c d : Call Party Msg Reply} {pc : Pc Party Msg Reply}
  {new : List (Call Party Msg Reply)}

/-- A move keeps a committed call committed. -/
theorem Move.committed_mono (h : P.Move s c pc new) (hc : c.pc.committed) : pc.committed := by
  cases h with
  | refused hpc _ => rw [hpc] at hc; exact absurd hc (by simp [Pc.committed])
  | admitted hpc _ => rw [hpc] at hc; exact absurd hc (by simp [Pc.committed])
  | _ => rfl

/-- Nobody has seen a new call yet. -/
theorem Move.new_sent (h : P.Move s c pc new) (hd : d ∈ new) : d.pc = .sent := by
  cases h with
  | sent hpc => rw [List.mem_singleton.mp hd]
  | _ => exact absurd hd List.not_mem_nil

/-- A new call is one that a committed handler still had to make. -/
theorem Move.new_todo (h : P.Move s c pc new) (hd : d ∈ new) :
    c.pc.committed ∧ (d.dst, d.msg) ∈ c.pc.todo := by
  cases h with
  | @sent q todo hpc =>
    rw [List.mem_singleton.mp hd, hpc]
    exact ⟨rfl, List.mem_cons_self⟩
  | _ => exact absurd hd List.not_mem_nil

/-- A call gets past its first section where that lets it through. -/
theorem Move.passed_cases (h : P.Move s c pc new) (hpassed : pc.passed) :
    c.pc.passed ∨ P.check s.store c.dst c.msg = none := by
  cases h with
  | refused hpc hcheck => exact absurd hpassed (by simp [Pc.passed, Pc.committed])
  | admitted hpc hcheck => exact Or.inr hcheck
  | committed hpc => exact Or.inl (by rw [hpc]; rfl)
  | sent hpc => exact Or.inl (by rw [hpc]; rfl)
  | resumed hpc => exact Or.inl (by rw [hpc]; rfl)
  | returned hpc => exact Or.inl (by rw [hpc]; rfl)

/-- Moves make calls in their order. -/
theorem Move.todo_suffix (h : P.Move s c pc new) (htodo : c.pc.todo <:+ P.outgoing c.dst c.msg) :
    pc.todo <:+ P.outgoing c.dst c.msg := by
  cases h with
  | committed hpc => exact List.suffix_rfl
  | sent hpc =>
    rw [hpc] at htodo
    exact (List.suffix_cons _ _).trans htodo
  | resumed hpc =>
    rw [hpc] at htodo
    exact htodo
  | _ => exact List.nil_suffix

/-- A call that is no longer to be made is a new one, or was not to be made before. -/
theorem Move.covered_cases (h : P.Move s c pc new) (hcomm : pc.committed) {q : Party × Msg}
    (hq : q ∈ P.outgoing c.dst c.msg) :
    q ∈ pc.todo ∨ (c.pc.committed ∧ (q ∈ c.pc.todo → ∃ d ∈ new, (d.dst, d.msg) = q)) := by
  cases h with
  | refused hpc hcheck => exact absurd hcomm (by simp [Pc.committed])
  | admitted hpc hcheck => exact absurd hcomm (by simp [Pc.committed])
  | committed hpc => exact Or.inl hq
  | @sent q' todo hpc =>
    by_cases h_mem : q ∈ todo
    · exact Or.inl h_mem
    -- the entry that has left the list is the one that has been sent
    refine Or.inr ⟨by rw [hpc]; rfl, fun h_todo => ⟨_, List.mem_singleton_self _, ?_⟩⟩
    rw [hpc] at h_todo
    exact ((List.mem_cons.mp h_todo).resolve_right h_mem).symm
  | @resumed id todo hpc =>
    by_cases h_mem : q ∈ todo
    · exact Or.inl h_mem
    refine Or.inr ⟨by rw [hpc]; rfl, fun h_todo => ?_⟩
    rw [hpc] at h_todo
    exact absurd h_todo h_mem
  | returned hpc =>
    refine Or.inr ⟨by rw [hpc]; rfl, fun h_todo => ?_⟩
    rw [hpc] at h_todo
    exact absurd h_todo List.not_mem_nil

end Move

/-- **The bookkeeping is preserved by every action.** -/
theorem Shape.step (h : Shape P roots s.calls) (hstep : P.Step s l s') :
    Shape P roots s'.calls := by
  rcases hstep.calls_cases with ⟨-, heq⟩ | ⟨i, c, pc, new, hc, hmove, heq⟩
  · rw [heq]
    exact h
  have hcL : c ∈ s.calls := List.mem_of_getElem? hc
  rw [heq]
  constructor
  case passed =>
    intro d hd hpassed
    rcases mem_moved hd with hd | rfl | hd
    · exact h.passed d hd hpassed
    · rcases hmove.passed_cases hpassed with h_old | h_check
      · exact h.passed c hcL h_old
      · exact ⟨s.store, h_check⟩
    · rw [hmove.new_sent hd] at hpassed
      exact absurd hpassed (by simp [Pc.passed, Pc.committed])
  case todo =>
    intro d hd
    rcases mem_moved hd with hd | rfl | hd
    · exact h.todo d hd
    · exact hmove.todo_suffix (h.todo c hcL)
    · rw [hmove.new_sent hd]
      exact List.nil_suffix
  case covered =>
    intro d hd hcomm q hq
    -- what has been called stays called
    have h_keep : (∃ e ∈ s.calls, (e.dst, e.msg) = q) →
        ∃ e ∈ s.calls.set i { c with pc := pc } ++ new, (e.dst, e.msg) = q := by
      rintro ⟨e, he, heq⟩
      obtain ⟨e', he', hdst, hmsg, -⟩ := exists_moved pc new hc he
      exact ⟨e', he', by rw [hdst, hmsg]; exact heq⟩
    rcases mem_moved hd with hd | rfl | hd
    · exact (h.covered d hd hcomm q hq).imp id h_keep
    · rcases hmove.covered_cases hcomm hq with h_todo | ⟨h_comm, h_new⟩
      · exact Or.inl h_todo
      rcases h.covered c hcL h_comm q hq with h_todo | h_made
      · obtain ⟨e, he, heq⟩ := h_new h_todo
        exact Or.inr ⟨e, List.mem_append_right _ he, heq⟩
      · exact Or.inr (h_keep h_made)
    · rw [hmove.new_sent hd] at hcomm
      exact absurd hcomm (by simp [Pc.committed])
  case origin =>
    intro d hd
    -- a committed handler stays one
    have h_keep : ∀ e ∈ s.calls, e.pc.committed → ∀ q ∈ P.outgoing e.dst e.msg,
        ∃ e' ∈ s.calls.set i { c with pc := pc } ++ new,
          e'.pc.committed ∧ q ∈ P.outgoing e'.dst e'.msg := by
      intro e he hcomm q hq
      by_cases hec : e = c
      · subst hec
        exact ⟨_, moved_mem hc, hmove.committed_mono hcomm, hq⟩
      · obtain ⟨e', he', hdst, hmsg, hne⟩ := exists_moved pc new hc he
        refine ⟨e', he', ?_, by rw [hdst, hmsg]; exact hq⟩
        rw [hne hec]
        exact hcomm
    have h_old : ∀ d ∈ s.calls, (d.dst, d.msg) ∈ roots ∨
        ∃ c' ∈ s.calls.set i { c with pc := pc } ++ new,
          c'.pc.committed ∧ (d.dst, d.msg) ∈ P.outgoing c'.dst c'.msg := by
      intro d hd
      rcases h.origin d hd with hr | ⟨e, he, hcomm, hq⟩
      · exact Or.inl hr
      · exact Or.inr (h_keep e he hcomm _ hq)
    rcases mem_moved hd with hd | rfl | hd
    · exact h_old d hd
    · exact h_old c hcL
    · obtain ⟨h_comm, h_todo⟩ := hmove.new_todo hd
      exact Or.inr (h_keep c hcL h_comm _ ((h.todo c hcL).subset h_todo))

/-- A handler that waits does so for a call that it has made. -/
def Awaits (P : Cascade Party Msg Reply Store Env) (L : List (Call Party Msg Reply)) : Prop :=
  ∀ c ∈ L, ∀ id todo, c.pc = .waiting id todo →
    ∃ d, L[id]? = some d ∧ (d.dst, d.msg) ∈ P.outgoing c.dst c.msg

/-- **Every action keeps who waits for what.** -/
theorem Awaits.step (h : Awaits P s.calls) (hshape : Shape P roots s.calls)
    (hstep : P.Step s l s') : Awaits P s'.calls := by
  rcases hstep.calls_cases with ⟨-, heq⟩ | ⟨i, c, pc, new, hc, hmove, heq⟩
  · rw [heq]
    exact h
  rw [heq]
  -- what is waited for keeps its place
  have h_keep : ∀ {id : ℕ} {e : Call Party Msg Reply}, (∃ d, s.calls[id]? = some d ∧
      (d.dst, d.msg) ∈ P.outgoing e.dst e.msg) →
      ∃ d, (s.calls.set i { c with pc := pc } ++ new)[id]? = some d ∧
        (d.dst, d.msg) ∈ P.outgoing e.dst e.msg := by
    rintro id e ⟨d, hd, hout⟩
    obtain ⟨d', hd', hdst, hmsg, -⟩ := exists_moved_get pc new hc hd
    exact ⟨d', hd', by rw [hdst, hmsg]; exact hout⟩
  intro e he id todo hpc
  rcases mem_moved he with he | rfl | he
  · exact h_keep (h e he id todo hpc)
  · cases hmove with
    | @sent q rest hcalling =>
      -- the call that has just been made
      obtain ⟨rfl, -⟩ := Pc.waiting.inj hpc
      have h_todo := hshape.todo c (List.mem_of_getElem? hc)
      rw [hcalling] at h_todo
      have h_len : (s.calls.set i { c with pc := .waiting s.calls.length rest }).length =
          s.calls.length := List.length_set
      refine ⟨⟨q.1, q.2, .sent⟩, ?_, h_todo.subset List.mem_cons_self⟩
      rw [List.getElem?_append_right (Nat.le_of_eq h_len), h_len, Nat.sub_self]
      rfl
    | _ => exact absurd hpc (by simp)
  · rw [hmove.new_sent he] at hpc
    exact absurd hpc (by simp)

/-- **Messages inherit.** A property of messages that the outgoing messages of
an admitted message inherit is kept by every action. -/
theorem valid_step {valid : Party → Msg → Prop}
    (hout : ∀ σ p m, valid p m → P.check σ p m = none → ∀ q ∈ P.outgoing p m, valid q.1 q.2)
    (hshape : Shape P roots s.calls) (h : ∀ c ∈ s.calls, valid c.dst c.msg)
    (hstep : P.Step s l s') : ∀ c ∈ s'.calls, valid c.dst c.msg := by
  rcases hstep.calls_cases with ⟨-, heq⟩ | ⟨i, c, pc, new, hc, hmove, heq⟩
  · rw [heq]; exact h
  have hcL : c ∈ s.calls := List.mem_of_getElem? hc
  rw [heq]
  intro d hd
  -- an old call, the one that has moved, or one that it has sent on
  rcases mem_moved hd with hd | rfl | hd
  · exact h d hd
  · exact h c hcL
  · obtain ⟨h_comm, h_todo⟩ := hmove.new_todo hd
    obtain ⟨σ, hσ⟩ := hshape.passed c hcL (Pc.passed_of_committed h_comm)
    exact hout σ c.dst c.msg (h c hcL) hσ _ ((hshape.todo c hcL).subset h_todo)

end Shape

end Cascade
end Framework
