import Mathlib.Algebra.GroupWithZero.Nat
import Mathlib.Data.List.Flatten
import Mathlib.Data.List.Perm.Subperm
import Mathlib.Data.List.Nodup

/-!
# Lists with one entry replaced

The calls, workers and messages of a system are kept in lists, and an action
replaces one entry or adds one at the end. What this does to a property of all
entries (`forall_mem_set`, `forall_mem_set_of`, `forall_mem_concat`) and to what
the entries contribute together (`map_set_eq`, `flatMap_set_perm`, `countP_set_add`,
`sum_map_set`) does not depend on what they are.

`flatMap_subperm` compares what two lists contribute: items whose records can be
told apart are found among the records together if each of them is found;
`length_flatMap_le` bounds what records with distinct keys contribute by their keys.
-/

namespace Framework

variable {α β : Type*}

section Entries

variable {P : α → Prop} {L : List α} {i : ℕ} {a b : α}

theorem forall_mem_set (hL : ∀ x ∈ L, P x) (ha : P a) : ∀ x ∈ L.set i a, P x := by
  intro x hx
  rcases List.mem_or_eq_of_mem_set hx with hx | rfl
  · exact hL x hx
  · exact ha

/-- An entry that is replaced can pass its property on. -/
theorem forall_mem_set_of (hL : ∀ x ∈ L, P x) (ha : L[i]? = some a) (hP : P a → P b) :
    ∀ x ∈ L.set i b, P x :=
  forall_mem_set hL (hP (hL a (List.mem_of_getElem? ha)))

theorem forall_mem_concat (hL : ∀ x ∈ L, P x) (ha : P a) : ∀ x ∈ L ++ [a], P x := by
  intro x hx
  rcases List.mem_append.mp hx with hx | hx
  · exact hL x hx
  · rw [List.mem_singleton.mp hx]
    exact ha

theorem mem_set_self (ha : L[i]? = some a) : b ∈ L.set i b :=
  List.mem_of_getElem? (List.getElem?_set_self (List.getElem?_eq_some_iff.mp ha).1)

theorem getElem?_ne_some (hL : L = []) : L[i]? ≠ some a := by
  rw [hL]
  simp

theorem set_concat_length : (L ++ [a]).set L.length b = L ++ [b] := by
  rw [List.set_append_right _ _ (Nat.le_refl _), Nat.sub_self]
  rfl

/-- An entry of a list with one more is an entry of the list, or the new one. -/
theorem getElem?_concat_cases {j : ℕ} {x : α} (hj : (L ++ [a])[j]? = some x) :
    L[j]? = some x ∨ (j = L.length ∧ x = a) := by
  by_cases hlt : j < L.length
  · rw [List.getElem?_append_left hlt] at hj
    exact Or.inl hj
  · have hj_lt := (List.getElem?_eq_some_iff.mp hj).1
    rw [List.length_append, List.length_singleton] at hj_lt
    obtain rfl : j = L.length := by omega
    rw [List.getElem?_concat_length] at hj
    exact Or.inr ⟨rfl, (Option.some.inj hj).symm⟩

/-- Replacing an entry only matters to the entries from `n` on if it is one of them. -/
theorem forall_mem_drop_set {n : ℕ} (hL : ∀ x ∈ L.drop n, P x) (ha : n ≤ i → P a) :
    ∀ x ∈ (L.set i a).drop n, P x := by
  intro x hx
  rw [List.drop_set] at hx
  split at hx
  · exact hL x hx
  · next hi => exact forall_mem_set hL (ha (Nat.le_of_not_lt hi)) x hx

theorem forall_mem_drop_concat {n : ℕ} (hL : ∀ x ∈ L.drop n, P x) (ha : P a) :
    ∀ x ∈ (L ++ [a]).drop n, P x := by
  intro x hx
  rw [List.drop_append] at hx
  rcases List.mem_append.mp hx with hx | hx
  · exact hL x hx
  · rw [List.mem_singleton.mp (List.mem_of_mem_drop hx)]
    exact ha

theorem mem_drop_of_getElem? {n : ℕ} (hn : n ≤ i) (ha : L[i]? = some a) : a ∈ L.drop n := by
  refine List.mem_of_getElem? (i := i - n) ?_
  rw [List.getElem?_drop, Nat.add_sub_cancel' hn]
  exact ha

/-- What holds of the other entries holds of all after an entry is replaced. -/
theorem forall_mem_set_of_eraseIdx (hL : ∀ x ∈ L.eraseIdx i, P x) (hb : P b) :
    ∀ x ∈ L.set i b, P x := by
  intro x hx
  obtain ⟨j, hj⟩ := List.mem_iff_getElem?.mp hx
  by_cases hij : i = j
  · subst hij
    have hi : i < L.length := by simpa using (List.getElem?_eq_some_iff.mp hj).1
    rw [List.getElem?_set_self hi] at hj
    exact Option.some.inj hj ▸ hb
  · rw [List.getElem?_set_ne hij] at hj
    exact hL x (List.mem_eraseIdx_iff_getElem?.mpr ⟨j, Ne.symm hij, hj⟩)

/-- Replacing an entry by one with the same image changes no image. -/
theorem map_set_eq {f : α → β} (ha : L[i]? = some a) (hf : f b = f a) :
    (L.set i b).map f = L.map f := by
  obtain ⟨hi, rfl⟩ := List.getElem?_eq_some_iff.mp ha
  rw [List.map_set, hf, ← List.getElem_map f (h := by simpa using hi), List.set_getElem_self]

/-- Replacing an entry by one that contributes the same changes nothing. -/
theorem flatMap_set_eq {f : α → List β} (ha : L[i]? = some a) (hf : f b = f a) :
    (L.set i b).flatMap f = L.flatMap f := by
  rw [List.flatMap_def, List.flatMap_def, map_set_eq ha hf]

/-- Replacing an entry changes a count by what it changes on that entry. -/
theorem countP_set_add {p : α → Bool} (ha : L[i]? = some a) :
    (L.set i b).countP p + (if p a then 1 else 0) = L.countP p + (if p b then 1 else 0) := by
  obtain ⟨hi, rfl⟩ := List.getElem?_eq_some_iff.mp ha
  rw [List.countP_set hi]
  have h_pos : p L[i] = true → 0 < L.countP p := fun h =>
    List.countP_pos_iff.mpr ⟨_, List.getElem_mem hi, h⟩
  by_cases h : p L[i]
  · have := h_pos h
    simp only [h, if_true]
    omega
  · simp [h]

/-- What every entry can be followed up by is there after an entry is replaced. -/
theorem exists_mem_set {r : α → α → Prop} (hr : ∀ x, r x x) (ha : L[i]? = some a) (hab : r a b) :
    ∀ x ∈ L, ∃ y ∈ L.set i b, r x y := by
  intro x hx
  obtain ⟨j, hj⟩ := List.mem_iff_getElem?.mp hx
  by_cases hij : i = j
  · subst hij
    obtain rfl := Option.some.inj (ha.symm.trans hj)
    exact ⟨b, mem_set_self ha, hab⟩
  · exact ⟨x, List.mem_of_getElem? ((List.getElem?_set_ne hij).trans hj), hr x⟩

/-- The list around an entry. -/
theorem exists_split_of_getElem? (ha : L[i]? = some a) :
    ∃ l r, L = l ++ a :: r ∧ ∀ b, L.set i b = l ++ b :: r := by
  obtain ⟨hi, rfl⟩ := List.getElem?_eq_some_iff.mp ha
  refine ⟨L.take i, L.drop (i + 1), ?_, fun b => ?_⟩
  · rw [← List.drop_eq_getElem_cons hi, List.take_append_drop]
  · rw [List.set_eq_take_append_cons_drop, if_pos hi]

/-- Replacing an entry changes a sum by what it changes on that entry. -/
theorem sum_map_set {f : α → ℕ} (ha : L[i]? = some a) :
    ((L.set i b).map f).sum + f a = (L.map f).sum + f b := by
  obtain ⟨l, r, rfl, h_set⟩ := exists_split_of_getElem? ha
  rw [h_set]
  simp only [List.map_append, List.map_cons, List.sum_append, List.sum_cons]
  omega

/-- The list before its last entry. -/
theorem exists_concat_of_last (ha : L[i]? = some a) (hlast : i + 1 = L.length) :
    ∃ l, L = l ++ [a] ∧ ∀ b, L.set i b = l ++ [b] := by
  obtain ⟨hi, rfl⟩ := List.getElem?_eq_some_iff.mp ha
  have h_drop : L.drop (i + 1) = [] := List.drop_eq_nil_of_le (Nat.le_of_eq hlast.symm)
  refine ⟨L.take i, ?_, fun b => ?_⟩
  · rw [← h_drop, ← List.drop_eq_getElem_cons hi, List.take_append_drop]
  · rw [List.set_eq_take_append_cons_drop, if_pos hi, h_drop]

/-- If only the last entry has a property, all entries that have it are the same. -/
theorem eq_of_last (hL : ∀ j x, L[j]? = some x → P x → j + 1 = L.length) (ha : L[i]? = some a)
    (hP : P a) {x : α} (hx : x ∈ L) (hPx : P x) : x = a := by
  obtain ⟨j, hj⟩ := List.mem_iff_getElem?.mp hx
  obtain rfl : j = i := Nat.add_right_cancel ((hL j x hj hPx).trans (hL i a ha hP).symm)
  exact Option.some.inj (hj.symm.trans ha)

/-- If only the last entry has a property, it is the one replaced, and again the only one. -/
theorem last_of_set (hL : ∀ j x, L[j]? = some x → P x → j + 1 = L.length) (ha : L[i]? = some a)
    (hP : P a) : ∀ j x, (L.set i b)[j]? = some x → P x → j + 1 = (L.set i b).length := by
  intro j x hx hPx
  rw [List.length_set]
  by_cases hij : i = j
  · subst hij
    exact hL i a ha hP
  · -- another entry is as it was, and so the last one itself
    rw [List.getElem?_set_ne hij] at hx
    exact hL j x hx hPx

/-- A new last entry is the only one that may have a property that none had. -/
theorem last_of_concat (hL : ∀ x ∈ L, ¬ P x) :
    ∀ j x, (L ++ [a])[j]? = some x → P x → j + 1 = (L ++ [a]).length := by
  intro j x hx hPx
  rcases getElem?_concat_cases hx with hx | ⟨rfl, -⟩
  · exact absurd hPx (hL x (List.mem_of_getElem? hx))
  · rw [List.length_append, List.length_singleton]

/-- A last entry that contributed nothing contributes behind all others. -/
theorem flatMap_set_last {f : α → List β} (ha : L[i]? = some a) (hlast : i + 1 = L.length)
    (hf : f a = []) : (L.set i b).flatMap f = L.flatMap f ++ f b := by
  obtain ⟨l, heq, hset⟩ := exists_concat_of_last ha hlast
  rw [hset, heq, List.flatMap_append, List.flatMap_append, List.flatMap_singleton,
    List.flatMap_singleton, hf, List.append_nil]

/-- A new entry that contributes nothing changes nothing. -/
theorem flatMap_concat_nil {f : α → List β} (hf : f a = []) :
    (L ++ [a]).flatMap f = L.flatMap f := by
  rw [List.flatMap_append, List.flatMap_singleton, hf, List.append_nil]

/-- Replacing an entry trades what it contributes. -/
theorem flatMap_set_perm {f : α → List β} (ha : L[i]? = some a) :
    ((L.set i b).flatMap f ++ f a).Perm (L.flatMap f ++ f b) := by
  obtain ⟨l, r, rfl, h_set⟩ := exists_split_of_getElem? ha
  rw [h_set]
  simp only [List.flatMap_append, List.flatMap_cons, List.append_assoc]
  refine List.Perm.append_left _ ?_
  rw [← List.append_assoc]
  exact List.perm_append_comm.trans (List.perm_append_comm.append_left _)

/-- Replacing an entry that is filtered out takes nothing away. -/
theorem filter_sublist_filter_set {p : α → Bool} (ha : L[i]? = some a) (hp : p a = false) :
    (L.filter p).Sublist ((L.set i b).filter p) := by
  obtain ⟨l, r, rfl, h_set⟩ := exists_split_of_getElem? ha
  rw [h_set, List.filter_append, List.filter_append, List.filter_cons_of_neg (by simp [hp])]
  exact List.Sublist.append_left ((List.sublist_cons_self b r).filter p) _

end Entries

/-! ### Items and their records -/

/-- The entry with a key, among entries with distinct keys. -/
theorem filter_key_eq_singleton {κ : Type*} [DecidableEq κ] {L : List α} {f : α → κ} {a : α}
    (hnodup : (L.map f).Nodup) (ha : a ∈ L) : (L.filter fun b => f b = f a) = [a] := by
  induction L with
  | nil => exact absurd ha List.not_mem_nil
  | cons b L ih =>
    rw [List.map_cons, List.nodup_cons] at hnodup
    rcases List.mem_cons.mp ha with rfl | ha
    · -- no other entry has the key of the first
      have h_rest : (L.filter fun b => f b = f a) = [] := by
        rw [List.filter_eq_nil_iff]
        intro b hb heq
        exact hnodup.1 (List.mem_map.mpr ⟨b, hb, of_decide_eq_true heq⟩)
      rw [List.filter_cons, if_pos (decide_eq_true rfl), h_rest]
    · -- the entry is further back, and the first one has another key
      have h_ne : f b ≠ f a := fun heq => hnodup.1 (List.mem_map.mpr ⟨a, ha, heq.symm⟩)
      rw [List.filter_cons, if_neg (by simpa using h_ne)]
      exact ih hnodup.2 ha

/-- Lists indexed by distinct keys, each of them found in a list of records that
determine their key, are found there together. -/
theorem flatMap_subperm {κ ρ : Type*} {keys : List κ} {recs : List ρ} {K : κ → ρ → Prop}
    {f : κ → List α} {g : ρ → List α} (hnodup : keys.Nodup)
    (hkey : ∀ {k k' d}, K k d → K k' d → k = k')
    (h : ∀ k ∈ keys, ∃ d ∈ recs, K k d ∧ g d = f k) :
    (keys.flatMap f).Subperm (recs.flatMap g) := by
  induction keys generalizing recs with
  | nil => exact List.nil_subperm
  | cons k keys ih =>
    obtain ⟨h_k, h_nodup⟩ := List.nodup_cons.mp hnodup
    obtain ⟨d, hd, h_key, h_eq⟩ := h k List.mem_cons_self
    obtain ⟨l, r, rfl⟩ := List.append_of_mem hd
    -- the other keys find their records beside this one
    have h_rest : ∀ k' ∈ keys, ∃ d' ∈ l ++ r, K k' d' ∧ g d' = f k' := by
      intro k' hk'
      obtain ⟨d', hd', h_key', h_eq'⟩ := h k' (List.mem_cons_of_mem _ hk')
      refine ⟨d', ?_, h_key', h_eq'⟩
      rcases List.mem_append.mp hd' with hd' | hd'
      · exact List.mem_append_left _ hd'
      · rcases List.mem_cons.mp hd' with rfl | hd'
        · exact absurd (hkey h_key h_key' ▸ hk') h_k
        · exact List.mem_append_right _ hd'
    have h_perm : ((l ++ d :: r).flatMap g).Perm (g d ++ (l ++ r).flatMap g) := by
      simp only [List.flatMap_append, List.flatMap_cons]
      exact List.perm_append_comm_assoc _ _ _
    rw [List.flatMap_cons, ← h_eq]
    exact ((List.subperm_append_left _).mpr (ih h_nodup h_rest)).trans h_perm.symm.subperm

/-- Records with distinct keys contribute no more together than the keys, if each of them
contributes no more than its key. -/
theorem length_flatMap_le {κ ρ : Type*} {keys : List κ} {recs : List ρ} {key : ρ → κ}
    {f : κ → List α} {g : ρ → List α} (hnodup : (recs.map key).Nodup)
    (h : ∀ d ∈ recs, key d ∈ keys ∧ (g d).length ≤ (f (key d)).length) :
    (recs.flatMap g).length ≤ (keys.flatMap f).length := by
  induction recs generalizing keys with
  | nil => exact Nat.zero_le _
  | cons d recs ih =>
    rw [List.map_cons, List.nodup_cons] at hnodup
    obtain ⟨h_mem, h_le⟩ := h d List.mem_cons_self
    obtain ⟨l, r, rfl⟩ := List.append_of_mem h_mem
    -- the keys of the other records are beside this one
    have h_rest : ∀ d' ∈ recs, key d' ∈ l ++ r ∧ (g d').length ≤ (f (key d')).length := by
      intro d' hd'
      obtain ⟨h_mem', h_le'⟩ := h d' (List.mem_cons_of_mem _ hd')
      refine ⟨?_, h_le'⟩
      rcases List.mem_append.mp h_mem' with h_left | h_right
      · exact List.mem_append_left _ h_left
      · rcases List.mem_cons.mp h_right with heq | h_right
        · exact absurd (heq ▸ List.mem_map_of_mem hd') hnodup.1
        · exact List.mem_append_right _ h_right
    have h_ih := ih hnodup.2 h_rest
    rw [List.flatMap_append, List.length_append] at h_ih
    rw [List.flatMap_cons, List.flatMap_append, List.flatMap_cons, List.length_append,
      List.length_append, List.length_append]
    omega

end Framework
