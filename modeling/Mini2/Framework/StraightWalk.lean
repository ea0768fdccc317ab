import Mathlib.Data.Set.Card
import Mathlib.Data.List.Chain
import Mathlib.Logic.Relation

/-!
# Walks that never turn straight back

A dart is an ordered pair of adjacent vertices. `Next adj a b` says that a walk
can cross `b` right after `a`: it goes on from where `a` arrived, and not back
to where `a` came from. The walks that start at a vertex are bounded exactly
when none of their darts lies on a closed walk of this kind (`CycleFree`):

* `rank_lt` — otherwise finiteness gives each dart a rank that `Next` decreases,
  the number of darts still ahead;
* `exists_chain` — a dart on a closed walk starts chains of every length;
* `returns_iff` — between distinct vertices that are joined both ways, these are also the
  starts from which some walk comes back.
-/

namespace Framework
namespace Straight

variable {V : Type*}

/-- A walk that has crossed `a` can cross `b` next. -/
def Next (adj : V → V → Prop) (a b : V × V) : Prop :=
  a.2 = b.1 ∧ adj b.1 b.2 ∧ b.2 ≠ a.1

/-- The darts that walks from the vertex `start` cross. -/
def From (adj : V → V → Prop) (start : V) (d : V × V) : Prop :=
  ∃ v, adj start v ∧ Relation.ReflTransGen (Next adj) (start, v) d

/-- No walk from `start` ever crosses one of its darts twice. -/
def CycleFree (adj : V → V → Prop) (start : V) : Prop :=
  ∀ d, From adj start d → ¬ Relation.TransGen (Next adj) d d

variable {adj : V → V → Prop} {start : V} {a b d : V × V}

theorem From.next (h : From adj start a) (hab : Next adj a b) : From adj start b := by
  obtain ⟨v, hv, hreach⟩ := h
  exact ⟨v, hv, hreach.tail hab⟩

/-- The darts ahead of `d`. -/
def ahead (adj : V → V → Prop) (d : V × V) : Set (V × V) :=
  {e | Relation.TransGen (Next adj) d e}

/-- The number of darts ahead of `d`. -/
noncomputable def rank (adj : V → V → Prop) (d : V × V) : ℕ := (ahead adj d).ncard

/-- Every dart ahead joins adjacent vertices. -/
theorem ahead_subset (adj : V → V → Prop) (d : V × V) : ahead adj d ⊆ {e | adj e.1 e.2} := by
  intro e he
  cases he with
  | single h => exact h.2.1
  | tail _ h => exact h.2.1

/-- **The rank decreases.** On an adjacency with finitely many darts, a dart off
every closed walk has fewer darts ahead than the dart before it. -/
theorem rank_lt (hfin : {e : V × V | adj e.1 e.2}.Finite) (hab : Next adj a b)
    (hb : ¬ Relation.TransGen (Next adj) b b) : rank adj b < rank adj a := by
  refine Set.ncard_lt_ncard ⟨?_, ?_⟩ (hfin.subset (ahead_subset adj a))
  · intro e he
    exact Relation.TransGen.head hab he
  · intro hsub
    exact hb (hsub (Relation.TransGen.single hab))

/-- **Closed walks go on for ever.** A dart from which a closed walk is reached
starts chains of every length. -/
theorem exists_chain (hloop : Relation.TransGen (Next adj) d d) (n : ℕ)
    (ha : Relation.TransGen (Next adj) a d) :
    ∃ chain : List (V × V), (a :: chain).IsChain (Next adj) ∧ chain.length = n := by
  induction n generalizing a with
  | zero => exact ⟨[], List.isChain_singleton a, rfl⟩
  | succ n ih =>
    obtain ⟨c, hac, hcd⟩ := Relation.TransGen.head'_iff.mp ha
    obtain ⟨chain, hchain, hlen⟩ := ih (Relation.TransGen.trans_right hcd hloop)
    exact ⟨c :: chain, List.isChain_cons_cons.mpr ⟨hac, hchain⟩, by simp [hlen]⟩

/-! ### Walks that come back -/

/-- Some walk from `start` comes back to it. -/
def Returns (adj : V → V → Prop) (start : V) : Prop := ∃ u, From adj start (u, start)

/-- The dart the other way. -/
def reverse (d : V × V) : V × V := (d.2, d.1)

/-- A dart that a walk crosses joins adjacent vertices. -/
theorem From.joined (h : From adj start d) : adj d.1 d.2 := by
  obtain ⟨v, hv, h_reach⟩ := h
  rcases Relation.ReflTransGen.cases_tail h_reach with rfl | ⟨e, -, h_next⟩
  · exact hv
  · exact h_next.2.1

/-- A walk that can turn round somewhere can go all the way back. -/
theorem returns_of_reverse (hsymm : ∀ u v, adj u v → adj v u) {v : V} (hv : adj start v)
    (hreach : Relation.ReflTransGen (Next adj) (start, v) d) (hback : From adj start (reverse d)) :
    Returns adj start := by
  induction hreach with
  | refl => exact ⟨v, hback⟩
  | @tail a d h_path h_next ih =>
    apply ih
    -- the step back from `d` to `a`
    refine hback.next ⟨h_next.1.symm, ?_, ?_⟩
    · exact hsymm _ _ (From.joined ⟨v, hv, h_path⟩)
    · intro h_turn
      exact h_next.2.2 h_turn.symm

/-- From a closed walk there is a way back: into it by the first of its darts, round it, and
out again where it was entered. -/
theorem returns_of_loop (hsymm : ∀ u v, adj u v → adj v u) {v : V} (hv : adj start v)
    (hreach : Relation.ReflTransGen (Next adj) (start, v) d)
    (hloop : Relation.TransGen (Next adj) d d) : Returns adj start := by
  induction hreach with
  | refl =>
    obtain ⟨e, h_round, h_last⟩ := Relation.TransGen.tail'_iff.mp hloop
    obtain ⟨x, y⟩ := e
    obtain rfl : y = start := h_last.1
    exact ⟨x, v, hv, h_round⟩
  | @tail a d h_path h_next ih =>
    by_cases h_loop : Relation.TransGen (Next adj) a a
    · exact ih h_loop
    -- `d` is the first dart on a closed walk, and `e` the one before it there
    obtain ⟨e, h_round, h_last⟩ := Relation.TransGen.tail'_iff.mp hloop
    have h_from : From adj start a := ⟨v, hv, h_path⟩
    have h_meet : e.2 = a.2 := h_last.1.trans h_next.1.symm
    have h_ne : a.1 ≠ e.1 := by
      intro h_eq
      obtain rfl : a = e := Prod.ext h_eq h_meet.symm
      exact h_loop (Relation.TransGen.head' h_next h_round)
    apply returns_of_reverse hsymm hv h_path
    have h_e : From adj start e := ⟨v, hv, (h_path.tail h_next).trans h_round⟩
    exact h_e.next ⟨h_meet, hsymm _ _ h_from.joined, h_ne⟩

/-- Off every closed walk, no walk crosses a dart both ways. -/
theorem CycleFree.not_reverse (hirrefl : ∀ u, ¬ adj u u)
    (hfin : {e : V × V | adj e.1 e.2}.Finite) (hfree : CycleFree adj start)
    (hfrom : From adj start d) : ¬ Relation.ReflTransGen (Next adj) d (reverse d) := by
  -- the darts between are crossed both ways too, down to one that is its own reverse
  induction h_rank : rank adj d using Nat.strong_induction_on generalizing d with
  | _ n ih =>
    intro h_reach
    rcases Relation.ReflTransGen.cases_head h_reach with h_self | ⟨d₁, h_first, h_reach⟩
    · have h_eq : d.1 = d.2 := congrArg Prod.fst h_self
      exact hirrefl d.1 (h_eq ▸ hfrom.joined)
    rcases Relation.ReflTransGen.cases_tail h_reach with h_self | ⟨e, h_mid, h_last⟩
    · exact h_first.2.2 (congrArg Prod.snd h_self).symm
    have h_from : From adj start d₁ := hfrom.next h_first
    have h_meet : e.2 = d₁.1 := h_last.1.trans h_first.1
    by_cases h_same : d₁.2 = e.1
    · obtain rfl : e = reverse d₁ := Prod.ext h_same.symm h_meet
      have h_lt : rank adj d₁ < n := h_rank ▸ rank_lt hfin h_first (hfree d₁ h_from)
      exact ih _ h_lt h_from rfl h_mid
    · apply hfree d₁ h_from
      exact Relation.TransGen.tail' h_mid ⟨h_meet, h_from.joined, h_same⟩

/-- **Walks come back exactly where there is a closed one.** -/
theorem returns_iff (hsymm : ∀ u v, adj u v → adj v u) (hirrefl : ∀ u, ¬ adj u u)
    (hfin : {e : V × V | adj e.1 e.2}.Finite) : Returns adj start ↔ ¬ CycleFree adj start := by
  constructor
  · rintro ⟨u, v, hv, h_reach⟩ hfree
    have h_from : From adj start (start, v) := ⟨v, hv, .refl⟩
    by_cases h_same : v = u
    · subst h_same
      exact hfree.not_reverse hirrefl hfin h_from h_reach
    · exact hfree _ h_from (Relation.TransGen.tail' h_reach ⟨rfl, hv, h_same⟩)
  · intro h_cycle
    unfold CycleFree at h_cycle
    push Not at h_cycle
    obtain ⟨d, ⟨v, hv, h_reach⟩, h_loop⟩ := h_cycle
    exact returns_of_loop hsymm hv h_reach h_loop

end Straight
end Framework
