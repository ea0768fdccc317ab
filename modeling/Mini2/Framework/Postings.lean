import Mathlib.Algebra.Order.Group.Multiset
import Mathlib.Data.List.AList
import Mathlib.Data.List.Sort
import Mathlib.Data.List.TakeWhile
import Mathlib.Tactic.Abel

/-!
# Posting lists

The rows of a table in which a predicate holds, in ascending order, are its
posting list. An index keeps such lists for the predicates that queries use, and
a conjunction is answered by intersecting lists instead of filtering the table.

Over a strictly ascending list `rows`, the posting list of `p` *is*
`rows.filter p`, and every operation is described by what it does to `p`:

* `Buckets.rows_index`, `Buckets.contents_index` — an index by key holds the posting list of
  each key, and so divides the rows that have a key.
* `window_eq_filter` — in a list sorted by a key, the part between two bounds,
  found by partition points.
* `sort_eq_filter` — sorting restores the posting list from any arrangement.
* `setIntersection_filter`, `intersectAll_filter` — intersection is conjunction.
-/

namespace Framework

/-! ### Indices by key -/

/-- A map from keys to lists of rows. -/
abbrev Buckets (κ ι : Type*) := AList fun _ : κ => List ι

namespace Buckets

variable {κ ι : Type*} [DecidableEq κ]

/-- The rows of a key; none for a key that is not in the map. -/
def rows (m : Buckets κ ι) (k : κ) : List ι := (m.lookup k).getD []

/-- `m[k].push_back(i)` -/
def pushBack (m : Buckets κ ι) (k : κ) (i : ι) : Buckets κ ι := m.insert k (m.rows k ++ [i])

/-- Add a row under its key; a row without a key is left out. -/
def add (key : ι → Option κ) (m : Buckets κ ι) (i : ι) : Buckets κ ι :=
  match key i with
  | some k => m.pushBack k i
  | none => m

/-- The index of a list of rows. -/
def index (key : ι → Option κ) (l : List ι) : Buckets κ ι := l.foldl (add key) ∅

theorem rows_pushBack (m : Buckets κ ι) (k k' : κ) (i : ι) :
    (m.pushBack k i).rows k' = if k = k' then m.rows k' ++ [i] else m.rows k' := by
  unfold pushBack rows
  by_cases hk : k = k'
  · subst hk
    rw [AList.lookup_insert, if_pos rfl, Option.getD_some]
  · rw [AList.lookup_insert_ne (Ne.symm hk), if_neg hk]

theorem rows_add (key : ι → Option κ) (m : Buckets κ ι) (k : κ) (i : ι) :
    (add key m i).rows k = m.rows k ++ [i].filter fun i => key i = some k := by
  unfold add
  cases hkey : key i with
  | none => simp [hkey]
  | some k' =>
    by_cases hk : k' = k
    · subst hk
      simp [rows_pushBack, hkey]
    · simp [rows_pushBack, hkey, hk]

/-- **An index holds the posting list of each key.** -/
theorem rows_index (key : ι → Option κ) (l : List ι) (k : κ) :
    (index key l).rows k = l.filter fun i => key i = some k := by
  -- the buckets that there are already come first
  have h_fold : ∀ (l : List ι) (m : Buckets κ ι),
      (l.foldl (add key) m).rows k = m.rows k ++ l.filter fun i => key i = some k := by
    intro l
    induction l with
    | nil => simp
    | cons i l ih =>
      intro m
      rw [List.foldl_cons, ih, rows_add, List.append_assoc, ← List.filter_append]
      rfl
  exact (h_fold l ∅).trans (List.nil_append _)

/-- An index is empty when no row has a key. -/
theorem keys_index (key : ι → Option κ) (l : List ι) :
    (index key l).keys = [] ↔ ∀ i ∈ l, key i = none := by
  have h_fold : ∀ (l : List ι) (m : Buckets κ ι),
      (l.foldl (add key) m).keys = [] ↔ m.keys = [] ∧ ∀ i ∈ l, key i = none := by
    intro l
    induction l with
    | nil => simp
    | cons i l ih =>
      intro m
      rw [List.foldl_cons, ih, List.forall_mem_cons, ← and_assoc]
      -- an item without a key adds no bucket
      refine and_congr_left fun _ => ?_
      unfold add
      cases hkey : key i with
      | none => simp
      | some k => simp [pushBack, AList.keys_insert]
  rw [index, h_fold]
  simp

/-- The rows of all keys. -/
def contents (m : Buckets κ ι) : List ι := m.entries.flatMap Sigma.snd

theorem contents_pushBack (m : Buckets κ ι) (k : κ) (i : ι) :
    (m.pushBack k i).contents.Perm (m.contents ++ [i]) := by
  change ((⟨k, m.rows k ++ [i]⟩ :: m.entries.kerase k).flatMap Sigma.snd).Perm
    (m.entries.flatMap Sigma.snd ++ [i])
  -- the bucket of the key moves to the front, wherever it has been
  by_cases hk : k ∈ m.entries.keys
  · obtain ⟨old, l₁, l₂, -, h_split, h_erase⟩ := List.exists_of_kerase hk
    have h_mem : (⟨k, old⟩ : Sigma fun _ : κ => List ι) ∈ m.entries := by simp [h_split]
    have h_rows : m.rows k = old := by
      rw [rows, Option.mem_def.mp (AList.mem_lookup_iff.mpr h_mem), Option.getD_some]
    rw [h_rows, h_erase, h_split, List.flatMap_cons, List.flatMap_append, List.flatMap_append,
      List.flatMap_cons, ← Multiset.coe_eq_coe]
    simp only [← Multiset.coe_add]
    abel
  · -- the key is new, and so is its bucket
    have h_rows : m.rows k = [] := by
      rw [rows, AList.lookup_eq_none.mpr hk, Option.getD_none]
    rw [h_rows, List.kerase_of_notMem_keys hk, List.flatMap_cons]
    exact List.perm_append_comm

/-- **An index divides the rows that have a key.** -/
theorem contents_index (key : ι → Option κ) (l : List ι) :
    (index key l).contents.Perm (l.filter fun i => (key i).isSome) := by
  have h_fold : ∀ (l : List ι) (m : Buckets κ ι),
      (l.foldl (add key) m).contents.Perm (m.contents ++ l.filter fun i => (key i).isSome) := by
    intro l
    induction l with
    | nil => simp
    | cons i l ih =>
      intro m
      rw [List.foldl_cons]
      refine (ih _).trans ?_
      unfold add
      cases hkey : key i with
      | none => simp [hkey]
      | some k =>
        rw [List.filter_cons_of_pos (by simp [hkey]), ← List.singleton_append, ← List.append_assoc]
        -- the item joins one bucket
        exact (contents_pushBack m k i).append_right _
  exact h_fold l ∅

end Buckets

/-! ### Windows of sorted lists -/

section Window

variable {α : Type*} {r : α → α → Prop} {p : α → Bool} {l : List α}

/-- The elements from the first that is not `below`, as `std::lower_bound` finds
it, to the last that is `upto`, as `std::upper_bound` does. -/
def window (below upto : α → Bool) (l : List α) : List α :=
  (l.takeWhile upto).drop (l.takeWhile below).length

/-- Whoever comes after an element outside a downward closed predicate is outside. -/
theorem filter_eq_nil_of_head (hp : ∀ a b, r a b → p b → p a) {a : α}
    (hl : (a :: l).Pairwise r) (ha : ¬ p a) : l.filter p = [] :=
  List.filter_eq_nil_iff.mpr fun b hb hpb => ha (hp a b ((List.pairwise_cons.mp hl).1 b hb) hpb)

theorem takeWhile_eq_filter (hp : ∀ a b, r a b → p b → p a) (hl : l.Pairwise r) :
    l.takeWhile p = l.filter p := by
  induction l with
  | nil => rfl
  | cons a l ih =>
    by_cases ha : p a
    · rw [List.takeWhile_cons_of_pos ha, List.filter_cons_of_pos ha, ih hl.of_cons]
    · rw [List.takeWhile_cons_of_neg ha, List.filter_cons_of_neg ha,
        filter_eq_nil_of_head hp hl ha]

/-- **The window of a sorted list** holds the elements between the bounds. -/
theorem window_eq_filter {below upto : α → Bool} (hbelow : ∀ a b, r a b → below b → below a)
    (hupto : ∀ a b, r a b → upto b → upto a) (hl : l.Pairwise r) :
    window below upto l = l.filter fun a => !below a && upto a := by
  unfold window
  induction l with
  | nil => rfl
  | cons a l ih =>
    by_cases h_upto : upto a
    · rw [List.takeWhile_cons_of_pos h_upto]
      by_cases h_below : below a
      · rw [List.takeWhile_cons_of_pos h_below, List.length_cons, List.drop_succ_cons,
          ih hl.of_cons, List.filter_cons_of_neg (by simp [h_below])]
      · -- nothing behind `a` is below
        have h_above : ∀ b ∈ l, !below b := by
          have h_nil := filter_eq_nil_of_head hbelow hl h_below
          simpa using List.filter_eq_nil_iff.mp h_nil
        have h_filter : (l.filter fun a => !below a && upto a) = l.filter upto :=
          List.filter_congr fun b hb => by rw [h_above b hb, Bool.true_and]
        rw [List.takeWhile_cons_of_neg h_below, List.length_nil, List.drop_zero,
          List.filter_cons_of_pos (by simp [h_below, h_upto]), h_filter,
          takeWhile_eq_filter hupto hl.of_cons]
    · -- nothing behind `a` is within the upper bound
      have h_none : (l.filter fun a => !below a && upto a) = [] := by
        have h_nil := filter_eq_nil_of_head hupto hl h_upto
        refine List.filter_eq_nil_iff.mpr fun b hb h => ?_
        exact List.filter_eq_nil_iff.mp h_nil b hb (Bool.and_eq_true_iff.mp h).2
      rw [List.takeWhile_cons_of_neg h_upto, List.drop_nil,
        List.filter_cons_of_neg (by simp [h_upto]), h_none]

end Window

/-! ### Sorting and intersecting -/

section Sorted

variable {ι : Type*} [LinearOrder ι] {rows : List ι}

/-- **Sorting restores the posting list.** -/
theorem sort_eq_filter (hrows : rows.Pairwise (· < ·)) {p : ι → Bool} {l : List ι}
    (hl : l.Perm (rows.filter p)) : l.insertionSort (· ≤ ·) = rows.filter p := by
  have h_sorted : (rows.filter p).Pairwise (· ≤ ·) :=
    (hrows.sublist List.filter_sublist).imp fun h => le_of_lt h
  exact ((List.perm_insertionSort (· ≤ ·) l).trans hl).eq_of_pairwise'
    (List.pairwise_insertionSort (· ≤ ·) l) h_sorted

/-- `std::set_intersection`, for ascending lists. -/
def setIntersection : List ι → List ι → List ι
  | [], _ => []
  | a :: as, bs =>
    match bs.dropWhile (· < a) with
    | [] => []
    | b :: bs => if a < b then setIntersection as (b :: bs) else a :: setIntersection as bs

/-- The elements of the first list that the second has, too. -/
theorem setIntersection_eq {as bs : List ι} (has : as.Pairwise (· < ·))
    (hbs : bs.Pairwise (· < ·)) : setIntersection as bs = as.filter (· ∈ bs) := by
  induction as generalizing bs with
  | nil => rfl
  | cons a as ih =>
    obtain ⟨h_head, h_as⟩ := List.pairwise_cons.mp has
    -- what is dropped is below `a`, so nothing that follows is lost
    have h_mem : ∀ x ∈ a :: as, (x ∈ bs ↔ x ∈ bs.dropWhile (· < a)) := by
      intro x hx
      have h_le : a ≤ x := by
        rcases List.mem_cons.mp hx with rfl | hx
        · exact le_rfl
        · exact le_of_lt (h_head x hx)
      conv_lhs => rw [← List.takeWhile_append_dropWhile (p := (· < a)) (l := bs)]
      rw [List.mem_append, or_iff_right]
      intro hmem
      have h_lt := List.mem_takeWhile_imp (p := fun x => decide (x < a)) hmem
      exact absurd (of_decide_eq_true h_lt) (not_lt.mpr h_le)
    have h_bs : (bs.dropWhile (· < a)).Pairwise (· < ·) :=
      hbs.sublist (List.dropWhile_sublist _)
    have h_first := List.head?_dropWhile_not (· < a) bs
    unfold setIntersection
    cases hdrop : bs.dropWhile (· < a) with
    | nil =>
      rw [hdrop] at h_mem
      simpa using h_mem
    | cons b bs' =>
      rw [hdrop] at h_mem h_bs h_first
      rw [List.filter_congr fun x hx => decide_eq_decide.mpr (h_mem x hx)]
      have h_le : a ≤ b := by simpa using h_first
      obtain ⟨h_min, h_bs'⟩ := List.pairwise_cons.mp h_bs
      dsimp only
      split
      · next hlt =>
        -- the next element is greater, so `a` is not there
        have h_not : a ∉ b :: bs' := by
          intro hmem
          rcases List.mem_cons.mp hmem with rfl | hmem
          · exact lt_irrefl _ hlt
          · exact lt_asymm hlt (h_min a hmem)
        rw [List.filter_cons_of_neg (by simpa using h_not), ih h_as h_bs]
      · next hlt =>
        -- it is `a`
        obtain rfl : a = b := le_antisymm h_le (not_lt.mp hlt)
        have h_tail : ∀ x ∈ as, (x ∈ bs' ↔ x ∈ a :: bs') := fun x hx =>
          ⟨List.mem_cons_of_mem a, fun h => (List.mem_cons.mp h).resolve_left (h_head x hx).ne'⟩
        rw [List.filter_cons_of_pos (by simp), ih h_as h_bs',
          List.filter_congr fun x hx => decide_eq_decide.mpr (h_tail x hx)]

/-- **Intersection is conjunction.** -/
theorem setIntersection_filter (hrows : rows.Pairwise (· < ·)) (p q : ι → Bool) :
    setIntersection (rows.filter p) (rows.filter q) = rows.filter fun i => p i && q i := by
  rw [setIntersection_eq (hrows.sublist List.filter_sublist) (hrows.sublist List.filter_sublist),
    List.filter_filter]
  refine List.filter_congr fun i hi => ?_
  by_cases hq : q i <;> simp [hi, hq]

/-- Intersect one list after the other, until nothing is left. -/
def intersectAll : List ι → List (List ι) → List ι
  | work, [] => work
  | work, c :: cs => if work.isEmpty then work else intersectAll (setIntersection work c) cs

/-- **Intersecting posting lists is filtering by all of their predicates.** -/
theorem intersectAll_filter (hrows : rows.Pairwise (· < ·)) (p : ι → Bool)
    (ps : List (ι → Bool)) :
    intersectAll (rows.filter p) (ps.map rows.filter) =
      rows.filter fun i => p i && ps.all (· i) := by
  induction ps generalizing p with
  | nil => simp [intersectAll]
  | cons q ps ih =>
    rw [List.map_cons, intersectAll]
    split
    · next hempty =>
      -- nothing is left to intersect with, as the code notices
      have h_none := List.filter_eq_nil_iff.mp (List.isEmpty_iff.mp hempty)
      rw [List.isEmpty_iff.mp hempty]
      refine (List.filter_eq_nil_iff.mpr fun i hi h => h_none i hi ?_).symm
      exact (Bool.and_eq_true_iff.mp h).1
    · rw [setIntersection_filter hrows, ih]
      refine List.filter_congr fun i _ => ?_
      rw [List.all_cons, Bool.and_assoc]

/-- Intersecting sublists of `rows` keeps the rows that are in all of them. -/
theorem intersectAll_eq (hrows : rows.Pairwise (· < ·)) {c : List ι} {cs : List (List ι)}
    (hcs : ∀ d ∈ c :: cs, d.Sublist rows) :
    intersectAll c cs = rows.filter fun i => ∀ d ∈ c :: cs, i ∈ d := by
  -- a sorted list without repetitions is determined by its members
  have h_posting : ∀ d ∈ c :: cs, rows.filter (fun i => decide (i ∈ d)) = d := fun d hd =>
    (((hrows.filter _).sortedLT).eq_of_mem_iff (hrows.sublist (hcs d hd)).sortedLT) fun i => by
      rw [List.mem_filter, decide_eq_true_eq]
      exact and_iff_right_of_imp fun h => (hcs d hd).subset h
  have h_cs : (cs.map fun d i => decide (i ∈ d)).map (fun p => rows.filter p) = cs := by
    rw [List.map_map]
    exact (List.map_congr_left fun d hd => h_posting d (List.mem_cons_of_mem c hd)).trans
      (List.map_id cs)
  have h_filter := intersectAll_filter hrows (fun i => decide (i ∈ c))
    (cs.map fun d i => decide (i ∈ d))
  rw [h_posting c List.mem_cons_self, h_cs] at h_filter
  rw [h_filter]
  refine List.filter_congr fun i _ => ?_
  simp [List.all_eq]

/-- What an ascending list yields before the first row outside `p`. -/
theorem mem_takeWhile_iff (hrows : rows.Pairwise (· < ·)) {p : ι → Bool} {i : ι} :
    i ∈ rows.takeWhile p ↔ i ∈ rows ∧ ∀ j ∈ rows, j ≤ i → p j := by
  induction rows with
  | nil => simp
  | cons a rows ih =>
    obtain ⟨h_head, h_rows⟩ := List.pairwise_cons.mp hrows
    by_cases ha : p a
    · rw [List.takeWhile_cons_of_pos ha, List.mem_cons, List.mem_cons, ih h_rows,
        List.forall_mem_cons]
      constructor
      · rintro (rfl | ⟨hi, h⟩)
        · exact ⟨Or.inl rfl, fun _ => ha, fun j hj h => absurd (h_head j hj) (not_lt.mpr h)⟩
        · exact ⟨Or.inr hi, fun _ => ha, h⟩
      · rintro ⟨hi, -, h⟩
        exact hi.imp_right fun hi => ⟨hi, h⟩
    · rw [List.takeWhile_cons_of_neg ha]
      -- the first row fails, and no row is before it
      refine iff_of_false List.not_mem_nil fun h => ha (h.2 a List.mem_cons_self ?_)
      rcases List.mem_cons.mp h.1 with rfl | hi
      · exact le_rfl
      · exact le_of_lt (h_head i hi)

end Sorted

/-! ### Prefixes of filtered lists -/

section Prefix

variable {ι β : Type*}

/-- The first `c` elements of `l` are those of a prefix of `l.filter g`, as far as
`f` can tell, exactly if they are all there. -/
theorem take_map_eq_iff {l t : List ι} {g : ι → Bool} {f : ι → β} (hl : l.Nodup)
    (ht : t <+: l.filter g) (hg : ∀ i j, f i = f j → g i = g j) (c : ℕ) :
    (t.take c).map f = (l.take c).map f ↔ ∀ i ∈ l.take c, i ∈ t := by
  have h_g : ∀ i ∈ t, g i := fun i hi => (List.mem_filter.mp (ht.subset hi)).2
  -- a start of `l` without gaps is a start of `l.filter g`
  have h_start : (∀ i ∈ l.take c, g i) → l.take c <+: l.filter g := by
    intro h
    conv_rhs => rw [← List.take_append_drop c l]
    rw [List.filter_append, List.filter_eq_self.mpr h]
    exact List.prefix_append _ _
  have h_le : t.length ≤ l.length := ht.length_le.trans (List.length_filter_le _ _)
  constructor
  · intro heq
    have h_all : ∀ i ∈ l.take c, g i := by
      intro i hi
      obtain ⟨j, hj, h_eq⟩ := List.mem_map.mp (heq.symm ▸ List.mem_map_of_mem hi)
      exact hg j i h_eq ▸ h_g j (List.mem_of_mem_take hj)
    have h_length : (l.take c).length = (t.take c).length := by
      simpa using (congrArg List.length heq).symm
    have h_take : l.take c <+: t.take c :=
      List.prefix_of_prefix_length_le (h_start h_all) ((List.take_prefix c t).trans ht)
        h_length.le
    exact fun i hi => List.mem_of_mem_take (h_take.subset hi)
  · intro h
    have h_count : (l.take c).length ≤ t.length :=
      (List.subperm_of_subset (hl.sublist (List.take_sublist c l)) h).length_le
    have h_take : l.take c <+: t.take c := by
      refine List.prefix_of_prefix_length_le (h_start fun i hi => h_g i (h i hi))
        ((List.take_prefix c t).trans ht) ?_
      rw [List.length_take] at h_count ⊢
      rw [List.length_take]
      omega
    refine congrArg (List.map f) (h_take.eq_of_length ?_).symm
    rw [List.length_take] at h_count
    rw [List.length_take, List.length_take]
    omega

end Prefix

end Framework
