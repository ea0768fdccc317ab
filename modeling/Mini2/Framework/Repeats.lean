import Mini2.Framework.Postings

/-!
# Posting lists with repeats

An index that is asked for the same key twice answers with the rows of the key
twice. What becomes of them depends on what is done with the answer:

* `copies` — each row as often as a count says; `Buckets.sort_flatMap_rows` says
  how often a lookup of several keys returns a row.
* `take_copies_eq_iff` — when the repeats do not show among the first rows.
* `mergeAll_eq` — merging with a list without repeats, by two pointers, drops them.
-/

namespace Framework

/-! ### Counted rows -/

section Repeats

variable {ι β : Type*} {m : ι → ℕ} {l : List ι}

/-- Each element of a list as often as `m` says. -/
def copies (m : ι → ℕ) (l : List ι) : List ι := l.flatMap fun i => List.replicate (m i) i

theorem copies_cons (m : ι → ℕ) (i : ι) (l : List ι) :
    copies m (i :: l) = List.replicate (m i) i ++ copies m l := List.flatMap_cons

theorem copies_append (m : ι → ℕ) (l l' : List ι) :
    copies m (l ++ l') = copies m l ++ copies m l' := List.flatMap_append

theorem copies_congr {m' : ι → ℕ} (h : ∀ i ∈ l, m i = m' i) : copies m l = copies m' l :=
  List.flatMap_congr fun i hi => by rw [h i hi]

theorem filter_copies (p : ι → Bool) (m : ι → ℕ) (l : List ι) :
    (copies m l).filter p = copies (fun i => if p i then m i else 0) l := by
  unfold copies
  rw [List.filter_flatMap]
  refine List.flatMap_congr fun i _ => ?_
  rw [List.filter_replicate]
  dsimp only
  split <;> rfl

theorem map_copies (f : ι → β) (m : β → ℕ) (l : List ι) :
    (copies (fun i => m (f i)) l).map f = copies m (l.map f) := by
  unfold copies
  rw [List.map_flatMap, List.flatMap_map]
  refine List.flatMap_congr fun i _ => ?_
  rw [List.map_replicate]

/-- A filter yields every row once or not at all. -/
theorem copies_ite (p : ι → Bool) (l : List ι) :
    copies (fun i => if p i then 1 else 0) l = l.filter p := by
  induction l with
  | nil => rfl
  | cons i l ih =>
    rw [copies_cons, ih]
    by_cases h : p i = true
    · rw [if_pos h, List.filter_cons_of_pos h]
      rfl
    · rw [if_neg h, List.filter_cons_of_neg h]
      rfl

/-- Elements with the count zero can be left out first. -/
theorem copies_filter {p : ι → Bool} (h : ∀ i ∈ l, p i = false → m i = 0) :
    copies m (l.filter p) = copies m l := by
  induction l with
  | nil => rfl
  | cons i l ih =>
    obtain ⟨h_i, h_l⟩ := List.forall_mem_cons.mp h
    cases hp : p i with
    | true => rw [List.filter_cons_of_pos hp, copies_cons, copies_cons, ih h_l]
    | false =>
      rw [List.filter_cons_of_neg (by simp [hp]), copies_cons, ih h_l, h_i hp]
      rfl

theorem copies_eq_nil : copies m l = [] ↔ ∀ i ∈ l, m i = 0 := by
  rw [copies, List.flatMap_eq_nil_iff]
  exact forall₂_congr fun i _ => List.replicate_eq_nil_iff i

theorem mem_copies {i : ι} : i ∈ copies m l ↔ i ∈ l ∧ 1 ≤ m i := by
  rw [copies, List.mem_flatMap]
  constructor
  · rintro ⟨j, hj, hi⟩
    obtain ⟨h_ne, rfl⟩ := List.mem_replicate.mp hi
    exact ⟨hj, Nat.pos_of_ne_zero h_ne⟩
  · rintro ⟨hi, h⟩
    exact ⟨i, hi, List.mem_replicate.mpr ⟨Nat.pos_iff_ne_zero.mp h, rfl⟩⟩

theorem length_le_copies (hm : ∀ i ∈ l, 1 ≤ m i) : l.length ≤ (copies m l).length := by
  induction l with
  | nil => exact Nat.zero_le _
  | cons i l ih =>
    obtain ⟨h_i, h_l⟩ := List.forall_mem_cons.mp hm
    have h_le := ih h_l
    rw [copies_cons, List.length_append, List.length_replicate, List.length_cons]
    omega

theorem count_copies [DecidableEq ι] (hl : l.Nodup) (m : ι → ℕ) (i : ι) :
    (copies m l).count i = if i ∈ l then m i else 0 := by
  induction l with
  | nil => rfl
  | cons j l ih =>
    obtain ⟨h_j, h_l⟩ := List.nodup_cons.mp hl
    rw [copies_cons, List.count_append, List.count_replicate, ih h_l]
    by_cases h : j = i
    · subst h
      rw [if_neg h_j]
      simp
    · -- the copies of another item do not count
      have h_mem : (i ∈ j :: l ↔ i ∈ l) := by
        rw [List.mem_cons]
        exact or_iff_right (Ne.symm h)
      simp [h, h_mem]

theorem pairwise_copies [Preorder ι] (hl : l.Pairwise (· < ·)) (m : ι → ℕ) :
    (copies m l).Pairwise (· ≤ ·) := by
  refine List.pairwise_flatMap.mpr ⟨fun i _ => ?_, hl.imp fun {i j} h x hx y hy => ?_⟩
  · exact List.pairwise_replicate.mpr (Or.inr le_rfl)
  · rw [List.eq_of_mem_replicate hx, List.eq_of_mem_replicate hy]
    exact h.le

/-- The shares that owners have in a list make up the list. -/
theorem flatMap_filter_perm [DecidableEq ι] {α : Type*} [DecidableEq α] {owners : List α}
    (howners : owners.Nodup) {owner : ι → Option α}
    (h : ∀ i ∈ l, ∃ a ∈ owners, owner i = some a) :
    (owners.flatMap fun a => l.filter fun i => owner i = some a).Perm l := by
  refine List.perm_iff_count.mpr fun i => ?_
  have h_count : ∀ owners : List α, owners.Nodup →
      (owners.flatMap fun a => l.filter fun i => owner i = some a).count i =
        if ∃ a ∈ owners, owner i = some a then l.count i else 0 := by
    intro owners howners
    induction owners with
    | nil => simp
    | cons a owners ih =>
      obtain ⟨h_a, h_owners⟩ := List.nodup_cons.mp howners
      rw [List.flatMap_cons, List.count_append, ih h_owners]
      by_cases h_own : owner i = some a
      · -- no other owner has a share in `i`
        have h_none : ¬ ∃ b ∈ owners, owner i = some b := by
          rintro ⟨b, hb, h_b⟩
          exact h_a (Option.some.inj (h_own.symm.trans h_b) ▸ hb)
        rw [if_neg h_none, if_pos ⟨a, List.mem_cons_self, h_own⟩,
          List.count_filter (by simpa using h_own), Nat.add_zero]
      · have h_zero : (l.filter fun i => decide (owner i = some a)).count i = 0 := by
          refine List.count_eq_zero.mpr fun hi => h_own ?_
          simpa using (List.mem_filter.mp hi).2
        simp [h_zero, h_own]
  rw [h_count owners howners]
  by_cases hi : i ∈ l
  · rw [if_pos (h i hi)]
  · rw [List.count_eq_zero_of_not_mem hi, ite_self]

/-- **Looking several keys up.** The sorted rows have each row once for every time
that its key was looked up. -/
theorem Buckets.sort_flatMap_rows {κ : Type*} [DecidableEq κ] [LinearOrder ι] {rows : List ι}
    (hrows : rows.Pairwise (· < ·)) (key : ι → Option κ) (ks : List κ) :
    (ks.flatMap (Buckets.index key rows).rows).insertionSort (· ≤ ·) =
      copies (fun i => ks.countP fun k => key i = some k) rows := by
  -- two sorted lists are equal if they have each item equally often
  have h_nodup : rows.Nodup := hrows.imp fun h => ne_of_lt h
  have h_count : ∀ i, (ks.flatMap (Buckets.index key rows).rows).count i =
      if i ∈ rows then ks.countP fun k => key i = some k else 0 := by
    intro i
    induction ks with
    | nil => simp
    | cons k ks ih =>
      -- an item is at most once in a bucket
      have h_one : ((Buckets.index key rows).rows k).count i =
          if i ∈ rows then (if key i = some k then 1 else 0) else 0 := by
        rw [Buckets.rows_index, ← copies_ite, count_copies h_nodup]
        simp
      rw [List.flatMap_cons, List.count_append, ih, h_one, List.countP_cons]
      by_cases hi : i ∈ rows
      · simp [hi, Nat.add_comm]
      · simp [hi]
  have h_perm : (ks.flatMap (Buckets.index key rows).rows).Perm
      (copies (fun i => ks.countP fun k => key i = some k) rows) :=
    List.perm_iff_count.mpr fun i => by rw [h_count, count_copies h_nodup]
  exact ((List.perm_insertionSort (· ≤ ·) _).trans h_perm).eq_of_pairwise'
    (List.pairwise_insertionSort (· ≤ ·) _) (pairwise_copies hrows _)

/-- The first `n` elements of the copies depend on the first `n` elements only. -/
theorem take_copies_congr {m' : ι → ℕ} {n : ℕ} (hm : ∀ i ∈ l.take n, 1 ≤ m i)
    (h : ∀ i ∈ l.take n, m i = m' i) : (copies m l).take n = (copies m' l).take n := by
  -- every item is there once at least, so `n` items fill `n` places
  have h_split : ∀ m : ι → ℕ, copies m l = copies m (l.take n) ++ copies m (l.drop n) :=
    fun m => by rw [← copies_append, List.take_append_drop]
  have h_le := length_le_copies hm
  have h_eq := copies_congr h
  rw [List.length_take] at h_le
  rw [h_split m, h_split m', ← h_eq]
  by_cases hn : n ≤ l.length
  · rw [min_eq_left hn] at h_le
    rw [List.take_append_of_le_length h_le, List.take_append_of_le_length h_le]
  · rw [List.drop_eq_nil_of_le (le_of_not_ge hn)]
    rfl

/-- A list whose first `n` elements are those of its copies has nothing that is
repeated before another element, or before its end. -/
theorem eq_of_take_copies (hm : ∀ i ∈ l, 1 ≤ m i) {k n : ℕ} (hk : 1 ≤ k) {r : ι}
    (h : (List.replicate k r ++ copies m l).take n = l.take n) :
    n ≤ l.length ∧ ∀ s ∈ l.take n, s = r := by
  induction l generalizing k n with
  | nil =>
    have h_length := congrArg List.length h
    simp [copies] at h_length
    have h_zero : n = 0 := by omega
    simp [h_zero]
  | cons s l ih =>
    match n with
    | 0 => simp
    | n + 1 =>
      obtain ⟨k, rfl⟩ : ∃ k', k = k' + 1 := ⟨k - 1, by omega⟩
      rw [List.replicate_succ, List.cons_append, List.take_succ_cons, List.take_succ_cons,
        List.cons.injEq] at h
      obtain ⟨rfl, h⟩ := h
      -- what was left of the copies joins those of the next item
      rw [copies_cons, ← List.append_assoc, List.replicate_append_replicate] at h
      have h_m := hm r List.mem_cons_self
      obtain ⟨h_le, h_all⟩ := ih (fun i hi => hm i (List.mem_cons_of_mem r hi)) (by omega) h
      refine ⟨Nat.succ_le_succ h_le, ?_⟩
      rw [List.take_succ_cons]
      exact List.forall_mem_cons.mpr ⟨rfl, h_all⟩

/-- Conversely, repeats do not show among equal elements. -/
theorem take_copies_of_eq (hm : ∀ i ∈ l, 1 ≤ m i) {n : ℕ} {r : ι} (hn : n ≤ l.length)
    (h : ∀ s ∈ l.take n, s = r) (k : ℕ) :
    (List.replicate k r ++ copies m l).take n = l.take n := by
  induction l generalizing k n with
  | nil =>
    obtain rfl := Nat.le_zero.mp hn
    rfl
  | cons s l ih =>
    match n with
    | 0 => rfl
    | n + 1 =>
      rw [List.take_succ_cons] at h ⊢
      obtain ⟨rfl, h_all⟩ := List.forall_mem_cons.mp h
      -- the next item is the same one, so its copies go on
      obtain ⟨j, hj⟩ : ∃ j, k + m s = j + 1 := by
        have := hm s List.mem_cons_self
        exact ⟨k + m s - 1, by omega⟩
      rw [copies_cons, ← List.append_assoc, List.replicate_append_replicate, hj,
        List.replicate_succ, List.cons_append, List.take_succ_cons,
        ih (fun i hi => hm i (List.mem_cons_of_mem s hi)) (Nat.le_of_succ_le_succ hn) h_all]

/-- **When repeats do not show.** The first `n` elements of `l` and of its copies
agree exactly if nothing in there that is repeated comes before another element
or before the end of `l`. -/
theorem take_copies_eq_iff (hm : ∀ i ∈ l, 1 ≤ m i) (n : ℕ) :
    (copies m l).take n = l.take n ↔
      ∀ a r b, l.take n = a ++ r :: b → 1 < m r → n ≤ l.length ∧ ∀ s ∈ b, s = r := by
  induction l generalizing n with
  | nil => simp [copies]
  | cons i l ih =>
    match n with
    | 0 => simp
    | n + 1 =>
      obtain ⟨h_i, h_l⟩ := List.forall_mem_cons.mp hm
      have h_rest := ih h_l n
      obtain ⟨k, hk⟩ : ∃ k, m i = k + 1 := ⟨m i - 1, by omega⟩
      rw [copies_cons, hk, List.replicate_succ, List.cons_append, List.take_succ_cons,
        List.take_succ_cons, List.cons.injEq]
      constructor
      · rintro ⟨-, heq⟩ a r b hab hr
        -- the item with more than one copy is the first one, or comes later
        match a with
        | [] =>
          obtain ⟨rfl, rfl⟩ := List.cons.inj hab
          obtain ⟨h_le, h_all⟩ := eq_of_take_copies h_l (by omega : 1 ≤ k) heq
          exact ⟨Nat.succ_le_succ h_le, h_all⟩
        | j :: a =>
          obtain ⟨rfl, h_tail⟩ := List.cons.inj hab
          match k with
          | 0 =>
            obtain ⟨h_le, h_all⟩ := h_rest.mp heq a r b h_tail hr
            exact ⟨Nat.succ_le_succ h_le, h_all⟩
          | k + 1 =>
            -- the first item is repeated too, so all items behind it are the same
            obtain ⟨h_le, h_all⟩ := eq_of_take_copies h_l (Nat.le_add_left 1 k) heq
            refine ⟨Nat.succ_le_succ h_le, fun s hs => ?_⟩
            rw [h_tail] at h_all
            rw [h_all s (by simp [hs]), h_all r (by simp)]
      · intro h
        refine ⟨rfl, ?_⟩
        match k with
        | 0 =>
          refine h_rest.mpr fun a r b hab hr => ?_
          obtain ⟨h_le, h_all⟩ := h (i :: a) r b (by rw [hab]; rfl) hr
          exact ⟨Nat.le_of_succ_le_succ h_le, h_all⟩
        | k + 1 =>
          obtain ⟨h_le, h_all⟩ := h [] i (l.take n) rfl (by omega)
          exact take_copies_of_eq h_l (Nat.le_of_succ_le_succ h_le) h_all _

end Repeats

/-! ### Merging by two pointers -/

section Merge

variable {ι : Type*} [LinearOrder ι] {rows : List ι}

/-- The elements that two ascending lists have in common, by two pointers. -/
def mergeCommon : List ι → List ι → List ι
  | a :: as, b :: bs =>
    if a = b then a :: mergeCommon as bs
    else if a < b then mergeCommon as (b :: bs)
    else mergeCommon (a :: as) bs
  | _, _ => []
  termination_by as bs => as.length + bs.length

/-- With a list without repeats, its elements that the other list has, too. -/
theorem mergeCommon_eq {as bs : List ι} (has : as.Pairwise (· < ·)) (hbs : bs.Pairwise (· ≤ ·)) :
    mergeCommon as bs = as.filter (· ∈ bs) := by
  fun_induction mergeCommon as bs with
  | case1 as a bs ih =>
    obtain ⟨h_head, h_as⟩ := List.pairwise_cons.mp has
    rw [ih h_as hbs.of_cons, List.filter_cons_of_pos (by simp)]
    refine congrArg (a :: ·) (List.filter_congr fun x hx => decide_eq_decide.mpr ?_)
    rw [List.mem_cons]
    exact (or_iff_right (h_head x hx).ne').symm
  | case2 a as b bs hne hlt ih =>
    rw [ih has.of_cons hbs, List.filter_cons_of_neg]
    rw [decide_eq_true_eq, List.mem_cons, not_or]
    refine ⟨hne, fun hmem => ?_⟩
    exact absurd ((List.pairwise_cons.mp hbs).1 a hmem) (not_le.mpr hlt)
  | case3 a as b bs hne hlt ih =>
    rw [ih has hbs.of_cons]
    refine List.filter_congr fun x hx => decide_eq_decide.mpr ?_
    -- `b` is below everything that is left
    have h_lt : b < x := by
      have h_a : b < a := lt_of_le_of_ne (not_lt.mp hlt) (Ne.symm hne)
      rcases List.mem_cons.mp hx with rfl | hx
      · exact h_a
      · exact h_a.trans ((List.pairwise_cons.mp has).1 x hx)
    rw [List.mem_cons]
    exact (or_iff_right h_lt.ne').symm
  | case4 as bs h =>
    cases as with
    | nil => rfl
    | cons a as =>
      cases bs with
      | nil => simp
      | cons b bs => exact absurd rfl (h a as b bs rfl)

theorem mergeCommon_comm (as bs : List ι) : mergeCommon as bs = mergeCommon bs as := by
  fun_induction mergeCommon as bs with
  | case1 as a bs ih => rw [mergeCommon, if_pos rfl, ih]
  | case2 a as b bs hne hlt ih =>
    -- the other side is behind, and drops its head
    rw [mergeCommon, if_neg (Ne.symm hne), if_neg (not_lt.mpr hlt.le), ih]
  | case3 a as b bs hne hlt ih =>
    have h_lt : b < a := lt_of_le_of_ne (not_lt.mp hlt) (Ne.symm hne)
    rw [mergeCommon, if_neg (Ne.symm hne), if_pos h_lt, ih]
  | case4 as bs h =>
    cases as with
    | nil => cases bs <;> rw [mergeCommon] <;> simp
    | cons a as =>
      cases bs with
      | nil => rw [mergeCommon]; simp
      | cons b bs => exact absurd rfl (h a as b bs rfl)

/-- The common elements are in the order of `rows`, without repeats, when one of
the lists is. -/
theorem mergeCommon_eq_filter (hrows : rows.Pairwise (· < ·)) {as bs : List ι}
    (has : as.Pairwise (· ≤ ·)) (hbs : bs.Pairwise (· ≤ ·))
    (hone : as.Pairwise (· < ·) ∨ bs.Pairwise (· < ·)) (hsub : ∀ i ∈ as, i ∈ rows) :
    mergeCommon as bs = rows.filter fun i => i ∈ as ∧ i ∈ bs := by
  have h_strict : (mergeCommon as bs).Pairwise (· < ·) ∧
      ∀ i, i ∈ mergeCommon as bs ↔ i ∈ as ∧ i ∈ bs := by
    rcases hone with h | h
    · rw [mergeCommon_eq h hbs]
      exact ⟨h.filter _, fun i => by simp⟩
    · rw [mergeCommon_comm, mergeCommon_eq h has]
      exact ⟨h.filter _, fun i => by simp [and_comm]⟩
  -- two sorted lists with the same members
  refine (h_strict.1.sortedLT).eq_of_mem_iff (hrows.filter _).sortedLT fun i => ?_
  rw [h_strict.2, List.mem_filter, decide_eq_true_eq]
  exact (and_iff_right_of_imp fun h => hsub i h.1).symm

/-- Merge one list after the other, until nothing is left. -/
def mergeAll : List ι → List (List ι) → List ι
  | work, [] => work
  | work, c :: cs => if work.isEmpty then work else mergeAll (mergeCommon work c) cs

/-- From a list without repeats on, the merges are a filter. -/
theorem mergeAll_filter (hrows : rows.Pairwise (· < ·)) (p : ι → Bool) {cs : List (List ι)}
    (hcs : ∀ d ∈ cs, d.Pairwise (· ≤ ·)) :
    mergeAll (rows.filter p) cs = rows.filter fun i => p i ∧ ∀ d ∈ cs, i ∈ d := by
  induction cs generalizing p with
  | nil => simp [mergeAll]
  | cons c cs ih =>
    obtain ⟨h_c, h_cs⟩ := List.forall_mem_cons.mp hcs
    rw [mergeAll]
    split
    · next hempty =>
      -- once the list is empty, the merges end
      have h_none := List.filter_eq_nil_iff.mp (List.isEmpty_iff.mp hempty)
      rw [List.isEmpty_iff.mp hempty]
      refine (List.filter_eq_nil_iff.mpr fun i hi h => h_none i hi ?_).symm
      exact (of_decide_eq_true h).1
    · rw [mergeCommon_eq (hrows.filter p) h_c, List.filter_filter, ih _ h_cs]
      refine List.filter_congr fun i _ => decide_eq_decide.mpr ?_
      rw [Bool.and_eq_true, decide_eq_true_eq, List.forall_mem_cons, and_right_comm, and_assoc]
      tauto

/-- The first merge of two lists, one of them without repeats, and all after it. -/
theorem mergeAll_cons (hrows : rows.Pairwise (· < ·)) {c d : List ι} {cs : List (List ι)}
    (hcs : ∀ e ∈ c :: d :: cs, e.Pairwise (· ≤ ·) ∧ ∀ i ∈ e, i ∈ rows)
    (hone : c.Pairwise (· < ·) ∨ d.Pairwise (· < ·)) :
    mergeAll c (d :: cs) = rows.filter fun i => ∀ e ∈ c :: d :: cs, i ∈ e := by
  obtain ⟨h_c, h_ds⟩ := List.forall_mem_cons.mp hcs
  obtain ⟨h_d, h_cs⟩ := List.forall_mem_cons.mp h_ds
  rw [mergeAll]
  split
  · next hempty =>
    rw [List.isEmpty_iff.mp hempty]
    -- an empty list has nothing in common with the others
    refine (List.filter_eq_nil_iff.mpr fun i _ h => ?_).symm
    exact absurd (of_decide_eq_true h [] List.mem_cons_self) List.not_mem_nil
  · rw [mergeCommon_eq_filter hrows h_c.1 h_d.1 hone h_c.2,
      mergeAll_filter hrows _ fun e he => (h_cs e he).1]
    refine List.filter_congr fun i _ => decide_eq_decide.mpr ?_
    rw [decide_eq_true_eq, List.forall_mem_cons, List.forall_mem_cons, and_assoc]

/-- **Merging is conjunction**, in any order of the lists, when at most one of several
has repeats. -/
theorem mergeAll_eq (hrows : rows.Pairwise (· < ·)) {cands : List (List ι)} {c : List ι}
    {cs : List (List ι)} (hperm : (c :: cs).Perm cands)
    (hcands : ∀ e ∈ cands, e.Pairwise (· ≤ ·) ∧ ∀ i ∈ e, i ∈ rows)
    (hone : cands.Pairwise fun c d => c.Pairwise (· < ·) ∨ d.Pairwise (· < ·))
    (hmany : 1 < cands.length ∨ ∀ e ∈ cands, e.Pairwise (· < ·)) :
    mergeAll c cs = rows.filter fun i => ∀ e ∈ cands, i ∈ e := by
  have h_filter : mergeAll c cs = rows.filter fun i => ∀ e ∈ c :: cs, i ∈ e := by
    have h_all : ∀ e ∈ c :: cs, e.Pairwise (· ≤ ·) ∧ ∀ i ∈ e, i ∈ rows :=
      fun e he => hcands e (hperm.mem_iff.mp he)
    cases cs with
    | nil =>
      -- a single list has to be free of repetitions by itself
      have h_strict : c.Pairwise (· < ·) := by
        refine hmany.resolve_left ?_ c (hperm.mem_iff.mp List.mem_cons_self)
        rw [← hperm.length_eq]
        exact Nat.lt_irrefl 1
      refine (h_strict.sortedLT).eq_of_mem_iff (hrows.filter _).sortedLT fun i => ?_
      rw [List.mem_filter, decide_eq_true_eq, List.forall_mem_singleton]
      exact (and_iff_right_of_imp ((h_all c List.mem_cons_self).2 i)).symm
    | cons d cs =>
      refine mergeAll_cons hrows h_all ?_
      -- of any two lists one is free of repetitions, in whatever order they come
      have h_pairs := (hperm.pairwise_iff fun h => h.symm).mpr hone
      exact (List.pairwise_cons.mp h_pairs).1 d List.mem_cons_self
  rw [h_filter]
  refine List.filter_congr fun i _ => decide_eq_decide.mpr ?_
  exact forall_congr' fun e => imp_congr_left hperm.mem_iff

end Merge

end Framework
