import Mini2.Framework.CascadeShape

/-!
# Cascades do not deadlock

A handler waits for a call that has been made after its own (`Ahead`), so handlers do not
wait for each other in a circle: the last call that has no answer is one that something
can be done about. Some parties may be lost. A call to one of them does not arrive, and
its caller is the one that can go on: it gives up.

* `exists_step` — as long as some call is neither answered nor on its way to a lost
  party, a handler can act, and gives up on nobody but lost parties.
-/

namespace Framework
namespace Cascade

variable {Party Msg Reply Store Env : Type*} {P : Cascade Party Msg Reply Store Env}
  {s s' : State Party Msg Reply Store} {l : Label Env}

/-- A handler waits for a call made after its own. -/
def Ahead (L : List (Call Party Msg Reply)) : Prop :=
  ∀ (i : ℕ) (c : Call Party Msg Reply) (id : ℕ) (todo : List (Party × Msg)),
    L[i]? = some c → c.pc = .waiting id todo → i < id

theorem Ahead.singleton {c : Call Party Msg Reply} (hc : ∀ id todo, c.pc ≠ .waiting id todo) :
    Ahead [c] := by
  intro i d id todo hd hpc
  obtain rfl := List.mem_singleton.mp (List.mem_of_getElem? hd)
  exact absurd hpc (hc id todo)

/-- **Every action keeps the order of the waiting calls.** -/
theorem Ahead.step (h : Ahead s.calls) (hstep : P.Step s l s') : Ahead s'.calls := by
  rcases hstep.calls_cases with ⟨-, heq⟩ | ⟨i, c, pc, new, hc, hmove, heq⟩
  · rw [heq]
    exact h
  have hi : i < s.calls.length := (List.getElem?_eq_some_iff.mp hc).1
  rw [heq]
  intro j d id todo hd hpc
  by_cases hj : j < s.calls.length
  · rw [List.getElem?_append_left (by simpa using hj)] at hd
    by_cases hij : i = j
    · subst hij
      rw [List.getElem?_set_self hi] at hd
      obtain rfl := Option.some.inj hd
      cases hmove with
      | sent _ =>
        -- the new call is the last
        obtain ⟨rfl, -⟩ := Pc.waiting.inj hpc
        exact hi
      | _ => exact absurd hpc (by simp)
    · rw [List.getElem?_set_ne hij] at hd
      exact h j d id todo hd hpc
  · -- nobody has seen a new call yet
    rw [List.getElem?_append_right (by simpa using hj)] at hd
    rw [hmove.new_sent (List.mem_of_getElem? hd)] at hpc
    exact absurd hpc (by simp)

/-- The call is answered, or on its way to a lost party for ever. -/
def Call.Over (lost : Party → Prop) (c : Call Party Msg Reply) : Prop :=
  c.pc.answer.isSome ∨ (c.pc = .sent ∧ lost c.dst)

/-- The actions of the handlers where the calls to lost parties do not arrive, and no
other call fails. -/
def Regular (lost : Party → Prop) (s : State Party Msg Reply Store) : Label Env → Prop
  | .check i => ∃ c, s.calls[i]? = some c ∧ ¬ lost c.dst
  | .expire i => ∃ c id todo d, s.calls[i]? = some c ∧ c.pc = .waiting id todo ∧
      s.calls[id]? = some d ∧ lost d.dst
  | .env _ => False
  | _ => True

/-- **No deadlock.** Something can be done about a call that is not over, or about one of
those that it waits for. -/
theorem exists_step (hawaits : Awaits P s.calls) (hahead : Ahead s.calls) (lost : Party → Prop)
    (hbusy : ∃ c ∈ s.calls, ¬ c.Over lost) : ∃ l s', Regular lost s l ∧ P.Step s l s' := by
  obtain ⟨c, hc, hover⟩ := hbusy
  obtain ⟨i, hi⟩ := List.mem_iff_getElem?.mp hc
  -- the induction goes up in the list, as waiting does
  induction hk : s.calls.length - i using Nat.strongRecOn generalizing i c with
  | _ k ih =>
    cases hpc : c.pc with
    | sent =>
      exact ⟨.check i, _, ⟨c, hi, fun hlost => hover (Or.inr ⟨hpc, hlost⟩)⟩, .check hi hpc⟩
    | admitted => exact ⟨.commit i, _, trivial, .commit hi hpc⟩
    | calling todo =>
      cases todo with
      | nil => exact ⟨.finish i, _, trivial, .finish hi hpc⟩
      | cons q todo => exact ⟨.send i, _, trivial, .send (p := q.1) (m := q.2) hi hpc⟩
    | waiting id todo =>
      obtain ⟨d, hd, -⟩ := hawaits c hc id todo hpc
      by_cases hdover : d.Over lost
      · rcases hdover with hans | ⟨-, hlost⟩
        · obtain ⟨r, hr⟩ := Option.isSome_iff_exists.mp hans
          exact ⟨.collect i, _, trivial, .collect hi hpc hd hr⟩
        · exact ⟨.expire i, _, ⟨c, id, todo, d, hi, hpc, hd, hlost⟩, .expire hi hpc hd⟩
      · -- the call that is waited for comes later
        have h_ahead := hahead i c id todo hi hpc
        have h_id : id < s.calls.length := (List.getElem?_eq_some_iff.mp hd).1
        exact ih (s.calls.length - id) (by omega) d (List.mem_of_getElem? hd) hdover id hd rfl
    | refused r => exact absurd (Or.inl (by rw [hpc]; rfl)) hover
    | returned r => exact absurd (Or.inl (by rw [hpc]; rfl)) hover

end Cascade
end Framework
