import Mini2.Framework.CascadeShape
import Mini2.Framework.ListUpdate

/-!
# Cascades with patient callers

Let some parties be dead: they never answer, and their callers give up on them. As long as
callers give up on nobody else (`Patient`), the calls that live parties have not answered form
a stack: whoever waits does so for the next of them, and only the last one can act (`Serial`).
A cascade is then as if run by one thread, and what the first section of a handler has found
still holds at its second (`Checked`).
-/

namespace Framework
namespace Cascade

variable {Party Msg Reply Store Env : Type*} {P : Cascade Party Msg Reply Store Env}
  {dead : Party → Prop} {L : List (Call Party Msg Reply)} {i j id : ℕ}
  {c d : Call Party Msg Reply}

/-- The handler is neither waiting nor at its end. -/
def Pc.active : Pc Party Msg Reply → Bool
  | .sent => true
  | .admitted => true
  | .calling _ => true
  | _ => false

/-- The call that the handler of call `i` waits for. -/
def State.callee (s : State Party Msg Reply Store) (i : ℕ) : Option (Call Party Msg Reply) :=
  match s.calls[i]? with
  | some ⟨_, _, .waiting id _⟩ => s.calls[id]?
  | _ => none

theorem State.callee_eq {s : State Party Msg Reply Store} {todo : List (Party × Msg)}
    (hc : s.calls[i]? = some c) (hpc : c.pc = .waiting id todo) : s.callee i = s.calls[id]? := by
  obtain ⟨dst, msg, pc⟩ := c
  obtain rfl : pc = .waiting id todo := hpc
  unfold State.callee
  rw [hc]

/-- Calls to dead parties do not arrive, and callers give up on no others. -/
def Patient (dead : Party → Prop) (s : State Party Msg Reply Store) : Label Env → Prop
  | .check i => ∀ c ∈ s.calls[i]?, ¬ dead c.dst
  | .expire i => ∀ d ∈ s.callee i, dead d.dst
  | _ => True

instance (dead : Party → Prop) [DecidablePred dead] (s : State Party Msg Reply Store)
    (l : Label Env) : Decidable (Patient dead s l) := by
  unfold Patient
  induction l using Label.casesOn <;> infer_instance

/-- Call `i` is to a live party, and has not been answered. -/
def OpenAt (dead : Party → Prop) (L : List (Call Party Msg Reply)) (i : ℕ) : Prop :=
  ∃ c, L[i]? = some c ∧ c.pc.answer = none ∧ ¬ dead c.dst

/-- The handler of call `i` can act by itself. -/
def ActiveAt (dead : Party → Prop) (L : List (Call Party Msg Reply)) (i : ℕ) : Prop :=
  ∃ c, L[i]? = some c ∧ c.pc.active = true ∧ ¬ dead c.dst

/-- The handler of call `i` waits for call `id`. -/
def WaitsFor (dead : Party → Prop) (L : List (Call Party Msg Reply)) (i id : ℕ) : Prop :=
  ∃ c todo, L[i]? = some c ∧ c.pc = .waiting id todo ∧ ¬ dead c.dst

/-- The open calls form a stack. -/
structure Serial (dead : Party → Prop) (L : List (Call Party Msg Reply)) : Prop where
  /-- Whoever waits does so for the next open call. -/
  waiting : ∀ {i j id}, WaitsFor dead L i id → i < j → OpenAt dead L j →
    id ≤ j ∧ OpenAt dead L id
  /-- Whoever can act is the last open call. -/
  active : ∀ {i j}, ActiveAt dead L i → i < j → ¬ OpenAt dead L j
  /-- Dead parties do not act. -/
  lost : ∀ c ∈ L, dead c.dst → c.pc = .sent

theorem ActiveAt.open (h : ActiveAt dead L i) : OpenAt dead L i := by
  obtain ⟨c, hc, hpc, hlive⟩ := h
  refine ⟨c, hc, ?_, hlive⟩
  cases h : c.pc with
  | sent => rfl
  | admitted => rfl
  | calling todo => rfl
  | _ =>
    rw [h] at hpc
    exact absurd hpc Bool.false_ne_true

theorem WaitsFor.open (h : WaitsFor dead L i id) : OpenAt dead L i := by
  obtain ⟨c, todo, hc, hpc, hlive⟩ := h
  exact ⟨c, hc, by rw [hpc]; rfl, hlive⟩

/-- **Only one handler can act.** -/
theorem Serial.eq_of_active (h : Serial dead L) (hi : ActiveAt dead L i)
    (hj : ActiveAt dead L j) : i = j := by
  by_contra hne
  rcases Nat.lt_or_gt_of_ne hne with hlt | hlt
  · exact h.active hi hlt hj.open
  · exact h.active hj hlt hi.open

/-- While a handler can act, nobody waits for a call that has been answered. -/
theorem Serial.not_answered (h : Serial dead L) (hj : ActiveAt dead L j)
    (hi : WaitsFor dead L i id) : OpenAt dead L id := by
  rcases Nat.lt_trichotomy i j with hlt | rfl | hlt
  · exact (h.waiting hi hlt hj.open).2
  · obtain ⟨c, hc, hpc, -⟩ := hj
    obtain ⟨d, todo, hd, hwait, -⟩ := hi
    obtain rfl := Option.some.inj (hc.symm.trans hd)
    rw [hwait] at hpc
    exact absurd hpc Bool.false_ne_true
  · exact absurd hi.open (h.active hj hlt)

/-- A handler that has begun is on a live party. -/
theorem Serial.live (h : Serial dead L) (hc : L[i]? = some c) (hpc : c.pc ≠ .sent) :
    ¬ dead c.dst :=
  fun hdead => hpc (h.lost c (List.mem_of_getElem? hc) hdead)

/-! ### Moves of the stack -/

section Moves

variable {pc : Pc Party Msg Reply}

/-- What stands in the list after an entry is replaced. -/
theorem getElem?_set_cases (hd : (L.set i c)[j]? = some d) :
    (j = i ∧ d = c) ∨ (j ≠ i ∧ L[j]? = some d) := by
  rw [List.getElem?_set] at hd
  split at hd
  · next hij =>
    split at hd
    · exact Or.inl ⟨hij.symm, (Option.some.inj hd).symm⟩
    · exact absurd hd (by simp)
  · next hij => exact Or.inr ⟨fun h => hij h.symm, hd⟩

/-- A call that moves was open before, so what is open now was. -/
theorem OpenAt.of_set (hc : L[i]? = some c) (hopen : c.pc.answer = none)
    (h : OpenAt dead (L.set i { c with pc := pc }) j) : OpenAt dead L j := by
  obtain ⟨d, hd, hpc, hlive⟩ := h
  rcases getElem?_set_cases hd with ⟨rfl, rfl⟩ | ⟨-, hd⟩
  · exact ⟨c, hc, hopen, hlive⟩
  · exact ⟨d, hd, hpc, hlive⟩

theorem OpenAt.set (h : OpenAt dead L j) (hji : j ≠ i) : OpenAt dead (L.set i c) j := by
  obtain ⟨d, hd, hpc⟩ := h
  exact ⟨d, by rw [List.getElem?_set_ne (Ne.symm hji)]; exact hd, hpc⟩

/-- The last open call goes on, or ends. -/
theorem Serial.set (h : Serial dead L) (hc : L[i]? = some c) (hopen : c.pc.answer = none)
    (hlive : ¬ dead c.dst) (hlast : ∀ j, i < j → ¬ OpenAt dead L j)
    (hpc : ∀ id todo, pc ≠ .waiting id todo) : Serial dead (L.set i { c with pc := pc }) where
  waiting := by
    rintro k j id ⟨d, todo, hd, hwait⟩ hkj hj
    rcases getElem?_set_cases hd with ⟨-, rfl⟩ | ⟨hki, hd⟩
    · exact absurd hwait.1 (hpc id todo)
    have h_old := hj.of_set hc hopen
    obtain ⟨h_le, h_open⟩ := h.waiting ⟨d, todo, hd, hwait⟩ hkj h_old
    refine ⟨h_le, ?_⟩
    by_cases hid : id = i
    · subst hid
      -- what is open behind the call that moves is that call
      have h_same : j = id := by
        by_contra hne
        exact hlast j (Nat.lt_of_le_of_ne h_le (Ne.symm hne)) h_old
      exact h_same ▸ hj
    · exact h_open.set hid
  active := by
    rintro k j ⟨d, hd, hactive⟩ hkj hj
    have h_old := hj.of_set hc hopen
    rcases getElem?_set_cases hd with ⟨rfl, -⟩ | ⟨-, hd⟩
    · exact hlast j hkj h_old
    · exact h.active ⟨d, hd, hactive⟩ hkj h_old
  lost := forall_mem_set h.lost fun hdead => absurd hdead hlive

/-- The last open call makes a call, and waits for it. -/
theorem Serial.send (h : Serial dead L) (hc : L[i]? = some c) (hactive : c.pc.active = true)
    (hlive : ¬ dead c.dst) {todo : List (Party × Msg)} (hd : d.pc = .sent) :
    Serial dead (L.set i { c with pc := .waiting L.length todo } ++ [d]) := by
  have h_active : ActiveAt dead L i := ⟨c, hc, hactive, hlive⟩
  have h_i : i < L.length := (List.getElem?_eq_some_iff.mp hc).1
  -- an entry is the new call, the one that waits for it, or as before
  have h_cases : ∀ {k : ℕ} {x : Call Party Msg Reply},
      (L.set i { c with pc := .waiting L.length todo } ++ [d])[k]? = some x →
        (k = L.length ∧ x = d) ∨ (k = i ∧ x = { c with pc := .waiting L.length todo }) ∨
          (k ≠ i ∧ L[k]? = some x) := by
    intro k x hx
    rcases getElem?_concat_cases hx with hx | ⟨hk, rfl⟩
    · exact Or.inr (getElem?_set_cases hx)
    · exact Or.inl ⟨hk.trans List.length_set, rfl⟩
  have h_old : ∀ {k : ℕ}, OpenAt dead L k →
      OpenAt dead (L.set i { c with pc := .waiting L.length todo } ++ [d]) k := by
    rintro k ⟨x, hx, hopen⟩
    by_cases hki : k = i
    · subst hki
      obtain rfl := Option.some.inj (hc.symm.trans hx)
      refine ⟨{ c with pc := .waiting L.length todo }, ?_, rfl, hlive⟩
      rw [List.getElem?_append_left (by rw [List.length_set]; exact h_i)]
      exact List.getElem?_set_self h_i
    · obtain ⟨y, hy, hopen⟩ := OpenAt.set (c := { c with pc := .waiting L.length todo })
        ⟨x, hx, hopen⟩ hki
      refine ⟨y, ?_, hopen⟩
      rw [List.getElem?_append_left (List.getElem?_eq_some_iff.mp hy).1]
      exact hy
  constructor
  · rintro k j id ⟨x, todo', hx, hpc, hlive'⟩ hkj ⟨y, hy, hopen⟩
    rcases h_cases hx with ⟨-, rfl⟩ | ⟨rfl, rfl⟩ | ⟨hki, hx⟩
    · rw [hd] at hpc
      exact absurd hpc (by simp)
    · -- the caller waits for the new call, if that is open
      obtain ⟨rfl, -⟩ := Pc.waiting.inj hpc
      rcases h_cases hy with ⟨rfl, -⟩ | ⟨rfl, -⟩ | ⟨-, hy'⟩
      · exact ⟨Nat.le_refl _, y, hy, hopen⟩
      · exact absurd hkj (Nat.lt_irrefl _)
      · exact absurd ⟨y, hy', hopen⟩ (h.active h_active hkj)
    · -- whoever else waits stands before the caller
      have h_wait : WaitsFor dead L k id := ⟨x, todo', hx, hpc, hlive'⟩
      have h_lt : k < i := by
        by_contra hge
        exact h.active h_active (Nat.lt_of_le_of_ne (Nat.not_lt.mp hge) (Ne.symm hki)) h_wait.open
      obtain ⟨h_le, h_open⟩ := h.waiting h_wait h_lt h_active.open
      refine ⟨?_, h_old h_open⟩
      rcases h_cases hy with ⟨rfl, -⟩ | ⟨rfl, -⟩ | ⟨-, hy⟩
      · exact Nat.le_of_lt (Nat.lt_of_le_of_lt h_le h_i)
      · exact h_le
      · exact (h.waiting h_wait hkj ⟨y, hy, hopen⟩).1
  · rintro k j ⟨x, hx, hpc, hlive'⟩ hkj ⟨y, hy, hopen⟩
    rcases h_cases hx with ⟨rfl, rfl⟩ | ⟨rfl, rfl⟩ | ⟨hki, hx⟩
    · -- nothing stands behind the new call
      have h_lt := (List.getElem?_eq_some_iff.mp hy).1
      rw [List.length_append, List.length_set, List.length_singleton] at h_lt
      exact absurd hkj (Nat.not_lt.mpr (Nat.lt_succ_iff.mp h_lt))
    · exact absurd hpc Bool.false_ne_true
    · exact hki (h.eq_of_active ⟨x, hx, hpc, hlive'⟩ h_active)
  · exact forall_mem_concat (forall_mem_set h.lost fun hdead => absurd hdead hlive) fun _ => hd

end Moves

/-! ### Every action keeps the stack -/

section Step

variable {s s' : State Party Msg Reply Store} {l : Label Env}

/-- **As long as callers are patient, the open calls form a stack.** -/
theorem Serial.step (h : Serial dead s.calls) (hl : Patient dead s l) (hstep : P.Step s l s') :
    Serial dead s'.calls := by
  have h_last : ∀ {i : ℕ} {c : Call Party Msg Reply}, s.calls[i]? = some c →
      c.pc.active = true → ¬ dead c.dst → ∀ j, i < j → ¬ OpenAt dead s.calls j :=
    fun hc hpc hlive j hij => h.active ⟨_, hc, hpc, hlive⟩ hij
  -- a caller goes on when the call that it waits for is not open any more
  have h_resume : ∀ {i id : ℕ} {c d : Call Party Msg Reply} {todo : List (Party × Msg)},
      s.calls[i]? = some c → c.pc = .waiting id todo → s.calls[id]? = some d →
      (d.pc.answer = none → dead d.dst) → ∀ j, i < j → ¬ OpenAt dead s.calls j := by
    intro i id c d todo hc hpc hd hclosed j hij hj
    have h_live := h.live hc (by simp [hpc])
    obtain ⟨e, he, hopen, hlive⟩ := (h.waiting ⟨c, todo, hc, hpc, h_live⟩ hij hj).2
    obtain rfl := Option.some.inj (hd.symm.trans he)
    exact hlive (hclosed hopen)
  cases hstep with
  | @check i c hc hpc =>
    have h_live := hl c hc
    refine h.set hc (by rw [hpc]; rfl) h_live (h_last hc (by rw [hpc]; rfl) h_live)
      fun id todo => ?_
    unfold checkPc
    cases P.check s.store c.dst c.msg <;> simp
  | commit hc hpc =>
    have h_live := h.live hc (by simp [hpc])
    exact h.set hc (by rw [hpc]; rfl) h_live (h_last hc (by rw [hpc]; rfl) h_live) (by simp)
  | send hc hpc => exact h.send hc (by rw [hpc]; rfl) (h.live hc (by simp [hpc])) rfl
  | collect hc hpc hd hr =>
    exact h.set hc (by rw [hpc]; rfl) (h.live hc (by simp [hpc]))
      (h_resume hc hpc hd fun hopen => absurd (hr.symm.trans hopen) (by simp)) (by simp)
  | expire hc hpc hd =>
    exact h.set hc (by rw [hpc]; rfl) (h.live hc (by simp [hpc]))
      (h_resume hc hpc hd fun _ => hl _ ((State.callee_eq hc hpc).trans hd)) (by simp)
  | finish hc hpc =>
    have h_live := h.live hc (by simp [hpc])
    exact h.set hc (by rw [hpc]; rfl) h_live (h_last hc (by rw [hpc]; rfl) h_live) (by simp)
  | env _ => exact h

/-- What the first section of a handler has found still holds before its second. -/
def Checked (P : Cascade Party Msg Reply Store Env) (s : State Party Msg Reply Store) : Prop :=
  ∀ c ∈ s.calls, c.pc = .admitted → P.check s.store c.dst c.msg = none

/-- **Nobody comes between the two sections of a handler**, where the surroundings do not
interfere with the first. -/
theorem Checked.step (hI : Checked P s) (h : Serial dead s.calls) (hl : Patient dead s l)
    (hframe : ∀ σ e σ', P.env σ e = some σ' → ∀ p m, P.check σ' p m = P.check σ p m)
    (hstep : P.Step s l s') : Checked P s' := by
  have h_active : ∀ {j : ℕ} {d : Call Party Msg Reply}, s.calls[j]? = some d →
      d.pc = .admitted → ActiveAt dead s.calls j :=
    fun hd hpc => ⟨_, hd, by rw [hpc]; rfl, h.live hd (by simp [hpc])⟩
  -- a handler between its sections is the only one that can act
  have h_only : ∀ {i : ℕ} {c : Call Party Msg Reply} {pc : Pc Party Msg Reply},
      ActiveAt dead s.calls i → pc ≠ .admitted →
        ∀ d ∈ s.calls.set i { c with pc := pc }, d.pc ≠ .admitted := by
    intro i c pc hi hpc d hd hpd
    obtain ⟨j, hj⟩ := List.mem_iff_getElem?.mp hd
    rcases getElem?_set_cases hj with ⟨-, rfl⟩ | ⟨hji, hj⟩
    · exact hpc hpd
    · exact hji (h.eq_of_active (h_active hj hpd) hi)
  -- and nobody goes on who waits
  have h_none : ∀ {i id : ℕ} {c d : Call Party Msg Reply} {todo : List (Party × Msg)},
      s.calls[i]? = some c → c.pc = .waiting id todo → s.calls[id]? = some d →
      (d.pc.answer = none → dead d.dst) →
        ∀ e ∈ s.calls.set i { c with pc := .calling todo }, e.pc ≠ .admitted := by
    intro i id c d todo hc hpc hd hclosed e he hpe
    obtain ⟨j, hj⟩ := List.mem_iff_getElem?.mp he
    rcases getElem?_set_cases hj with ⟨-, rfl⟩ | ⟨-, hj⟩
    · exact absurd hpe (by simp)
    · obtain ⟨f, hf, hopen, hlive⟩ := h.not_answered (h_active hj hpe)
        ⟨c, todo, hc, hpc, h.live hc (by simp [hpc])⟩
      obtain rfl := Option.some.inj (hd.symm.trans hf)
      exact hlive (hclosed hopen)
  cases hstep with
  | @check i c hc hpc =>
    refine forall_mem_set hI fun hadmitted => ?_
    change P.check s.store c.dst c.msg = none
    unfold checkPc at hadmitted
    cases hcheck : P.check s.store c.dst c.msg with
    | none => rfl
    | some r =>
      rw [hcheck] at hadmitted
      exact absurd hadmitted (by simp)
  | @commit i c hc hpc =>
    exact fun d hd hpd => absurd hpd (h_only (h_active hc hpc) (by simp) d hd)
  | send hc hpc =>
    refine forall_mem_concat (forall_mem_set hI fun hpc' => ?_) fun hpc' => ?_
    · exact absurd hpc' (by simp)
    · exact absurd hpc' (by simp)
  | collect hc hpc hd hr =>
    exact fun e he hpe => absurd hpe (h_none hc hpc hd
      (fun hopen => absurd (hr.symm.trans hopen) (by simp)) e he)
  | expire hc hpc hd =>
    exact fun e he hpe => absurd hpe (h_none hc hpc hd
      (fun _ => hl _ ((State.callee_eq hc hpc).trans hd)) e he)
  | @finish i c hc hpc =>
    have h_i : ActiveAt dead s.calls i :=
      ⟨c, hc, by rw [hpc]; rfl, h.live hc (by simp [hpc])⟩
    exact fun d hd hpd => absurd hpd (h_only h_i (by simp) d hd)
  | env he =>
    intro d hd hpd
    rw [hframe _ _ _ he]
    exact hI d hd hpd

/-- A single root call, to a live party. -/
theorem Serial.singleton (h : ∀ id todo, c.pc ≠ .waiting id todo) (hlive : ¬ dead c.dst) :
    Serial dead [c] where
  waiting := by
    rintro i j id ⟨d, todo, hd, hpc, -⟩
    rw [List.mem_singleton.mp (List.mem_of_getElem? hd)] at hpc
    exact absurd hpc (h id todo)
  active := by
    rintro i j - hij ⟨d, hd, -⟩
    have h_lt := (List.getElem?_eq_some_iff.mp hd).1
    rw [List.length_singleton] at h_lt
    exact absurd hij (Nat.not_lt.mpr (Nat.le_trans (Nat.lt_succ_iff.mp h_lt) (Nat.zero_le i)))
  lost d hd hdead := absurd hdead (by rw [List.mem_singleton.mp hd]; exact hlive)

end Step

end Cascade
end Framework
