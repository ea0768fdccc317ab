import Mini2.Framework.CascadeShape
import Mini2.Framework.ListUpdate

/-!
# Cascades that call each party once

The calls of a cascade form a tree. If its messages spread along a tree of parties as well
— no party is called by two others, or twice by one, and none calls a root (`Branching`) —
then there is at most one call to each party, in every interleaving and whatever fails
(`Single.step`).
-/

namespace Framework
namespace Cascade

variable {Party Msg Reply Store Env : Type*} {P : Cascade Party Msg Reply Store Env}
  {roots : List (Party × Msg)}

/-- The messages of a cascade spread along a tree of parties. -/
structure Branching (P : Cascade Party Msg Reply Store Env) (valid : Party → Msg → Prop)
    (roots : List (Party × Msg)) : Prop where
  /-- What is sent by a valid message is valid. -/
  inherit : ∀ p m, valid p m → ∀ q ∈ P.outgoing p m, valid q.1 q.2
  /-- Nobody calls a party twice. -/
  nodup : ∀ p m, valid p m → ((P.outgoing p m).map Prod.fst).Nodup
  /-- A party is called by one other only. -/
  sender : ∀ p m p' m', valid p m → valid p' m' →
    ∀ q ∈ P.outgoing p m, ∀ q' ∈ P.outgoing p' m', q.1 = q'.1 → p = p'
  /-- Nobody calls a root. -/
  root : ∀ p m, valid p m → ∀ q ∈ P.outgoing p m, ∀ r ∈ roots, r.1 ≠ q.1

/-- There is at most one call to each party, and none yet to those still to be called. -/
structure Single (L : List (Call Party Msg Reply)) : Prop where
  once : (L.map Call.dst).Nodup
  ahead : ∀ c ∈ L, ∀ q ∈ c.pc.todo, ∀ d ∈ L, d.dst ≠ q.1

variable {valid : Party → Msg → Prop} {s s' : State Party Msg Reply Store} {l : Label Env}

/-- Calls to one party are one call. -/
theorem Single.eq_of_dst {L : List (Call Party Msg Reply)} (h : Single L)
    {c d : Call Party Msg Reply} (hc : c ∈ L) (hd : d ∈ L) (hdst : c.dst = d.dst) : c = d :=
  List.inj_on_of_nodup_map h.once hc hd hdst

/-- A handler that is about to commit calls parties that nobody has called. -/
theorem Single.fresh (h : Single s.calls) (hB : Branching P valid roots)
    (hshape : Shape P roots s.calls) (hvalid : ∀ c ∈ s.calls, valid c.dst c.msg)
    {c : Call Party Msg Reply} (hc : c ∈ s.calls) (hpc : c.pc.committed = false) :
    ∀ q ∈ P.outgoing c.dst c.msg, ∀ d ∈ s.calls, d.dst ≠ q.1 := by
  intro q hq d hd hdst
  rcases hshape.origin d hd with h_root | ⟨e, he, hcomm, hout⟩
  · exact hB.root c.dst c.msg (hvalid c hc) q hq _ h_root hdst
  · -- the call has been made by a handler on the same party, which has committed
    have h_party : e.dst = c.dst :=
      hB.sender _ _ _ _ (hvalid e he) (hvalid c hc) _ hout q hq hdst
    obtain rfl := h.eq_of_dst he hc h_party
    rw [hpc] at hcomm
    exact absurd hcomm Bool.false_ne_true

/-- **Every action keeps calls single.** -/
theorem Single.step (h : Single s.calls) (hB : Branching P valid roots)
    (hshape : Shape P roots s.calls) (hvalid : ∀ c ∈ s.calls, valid c.dst c.msg)
    (hstep : P.Step s l s') : Single s'.calls := by
  rcases hstep.calls_cases with ⟨-, heq⟩ | ⟨i, c, pc, new, hc, hmove, heq⟩
  · rw [heq]
    exact h
  have hcL : c ∈ s.calls := List.mem_of_getElem? hc
  have h_dsts : (s.calls.set i { c with pc := pc } ++ new).map Call.dst =
      s.calls.map Call.dst ++ new.map Call.dst := by
    rw [List.map_append, map_set_eq (b := { c with pc := pc }) hc rfl]
  -- a call that is made goes to a party that has not been called
  have h_new : ∀ e ∈ new, ∀ d ∈ s.calls, d.dst ≠ e.dst := fun e he d hd =>
    h.ahead c hcL _ (hmove.new_todo he).2 d hd
  have h_once : ((s.calls.set i { c with pc := pc } ++ new).map Call.dst).Nodup := by
    rw [h_dsts, List.nodup_append]
    refine ⟨h.once, ?_, ?_⟩
    · cases hmove with
      | sent hpc => exact List.nodup_singleton _
      | _ => exact List.nodup_nil
    · rintro p hp p' hp' rfl
      obtain ⟨d, hd, rfl⟩ := List.mem_map.mp hp
      obtain ⟨e, he, hdst⟩ := List.mem_map.mp hp'
      exact h_new e he d hd hdst.symm
  -- the call that has moved has nobody ahead whom another has called
  have h_moved : ∀ q ∈ pc.todo, (∀ d ∈ s.calls, d.dst ≠ q.1) ∧ ∀ e ∈ new, e.dst ≠ q.1 := by
    intro q hq
    cases hmove with
    | committed hpc =>
      refine ⟨h.fresh hB hshape hvalid hcL (by rw [hpc]; rfl) q hq, ?_⟩
      exact fun _ he => absurd he List.not_mem_nil
    | @sent q' todo hpc =>
      have h_todo : q ∈ c.pc.todo := by
        rw [hpc]
        exact List.mem_cons_of_mem _ hq
      refine ⟨h.ahead c hcL q h_todo, fun e he hdst => ?_⟩
      obtain rfl := List.mem_singleton.mp he
      have h_suffix := hshape.todo c hcL
      rw [hpc] at h_suffix
      have h_nodup : ((q' :: todo).map Prod.fst).Nodup :=
        (hB.nodup c.dst c.msg (hvalid c hcL)).sublist (h_suffix.sublist.map _)
      exact (List.nodup_cons.mp h_nodup).1 (List.mem_map.mpr ⟨q, hq, hdst.symm⟩)
    | @resumed id todo hpc =>
      refine ⟨h.ahead c hcL q (by rw [hpc]; exact hq), ?_⟩
      exact fun _ he => absurd he List.not_mem_nil
    | _ => exact absurd hq List.not_mem_nil
  rw [heq]
  refine ⟨h_once, fun e he q hq d hd => ?_⟩
  by_cases h_dst : e.dst = c.dst
  · obtain rfl := List.inj_on_of_nodup_map h_once he (moved_mem hc) h_dst
    obtain ⟨h_old, h_made⟩ := h_moved q hq
    rcases mem_moved hd with hd | rfl | hd
    · exact h_old d hd
    · exact h_old c hcL
    · exact h_made d hd
  · rcases mem_moved he with he | rfl | he
    · rcases mem_moved hd with hd | rfl | hd
      · exact h.ahead e he q hq d hd
      · exact h.ahead e he q hq c hcL
      · -- the new call has been made on another party
        intro h_same
        obtain ⟨-, h_todo⟩ := hmove.new_todo hd
        refine h_dst (hB.sender _ _ _ _ (hvalid e he) (hvalid c hcL) q
          ((hshape.todo e he).subset hq) _ ((hshape.todo c hcL).subset h_todo) h_same.symm)
    · exact absurd rfl h_dst
    · rw [hmove.new_sent he] at hq
      exact absurd hq List.not_mem_nil

/-- A single root call that is still to make its calls. -/
theorem Single.singleton {c : Call Party Msg Reply} (h : ∀ q ∈ c.pc.todo, c.dst ≠ q.1) :
    Single [c] where
  once := List.nodup_singleton _
  ahead := by
    intro d hd q hq e he
    rw [List.mem_singleton.mp hd] at hq
    rw [List.mem_singleton.mp he]
    exact h q hq

end Cascade
end Framework
