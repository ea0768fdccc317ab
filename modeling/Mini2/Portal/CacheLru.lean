import Mini2.Framework.Lru
import Mini2.Portal.QueryCache

/-!
# The cache is an LRU map

`QueryCache` answers like a map that forgets its least recently used entry and finds
specifications by `key`, which is the same for specifications that `specEqual` takes for
equal (`queryCache_lru`). Nothing is asked of the hash but that it respects this equality,
so entries may collide as they like.
-/

namespace Mini2

open Framework

namespace QueryCache

def size (c : QueryCache) : ℕ := c.lru.length

/-- A new `QueryCache`, with the hash `S`. -/
def object (S : SpecHash) (capacity maxRows : ℕ) :
    Object QueryCache (CacheOp QuerySpec (List Row311)) (CacheAnswer (List Row311)) where
  init := create capacity maxRows
  step c op :=
    match op with
    | .get spec => ((c.get S spec).2, ⟨(c.get S spec).1, (c.get S spec).2.size⟩)
    | .put spec rows => (c.put S spec rows, ⟨none, (c.put S spec rows).size⟩)

/-- The entries in the order of their use, by the keys of their specifications. -/
def contents (c : QueryCache) : Recency QuerySpec (List Row311) :=
  c.lru.map fun e => (key e.2.spec, e.2.rows)

variable {S : SpecHash} {c : QueryCache} {spec : QuerySpec} {rows : List Row311} {e : ℕ × Entry}

/-- No two entries have one key. -/
theorem WellFormed.nodup_keys (hI : WellFormed S c) :
    (c.lru.map fun e => key e.2.spec).Nodup := by
  refine List.pairwise_map.mpr (hI.distinct.imp fun h heq => ?_)
  rw [specEqual_iff.mpr heq] at h
  exact Bool.noConfusion h

/-- Taking out the place of an entry takes out its key. -/
theorem WellFormed.eraseP_eq (hI : WellFormed S c) (he : e ∈ c.lru) :
    c.lru.eraseP (fun e' => e'.1 = e.1) =
      c.lru.filter fun e' => key e'.2.spec ≠ key e.2.spec := by
  obtain ⟨e', l₁, l₂, -, h_eq, h_lru, h_erase⟩ :=
    List.exists_of_eraseP (p := fun e' => e'.1 = e.1) he (decide_eq_true rfl)
  have h_mem : e' ∈ c.lru := h_lru ▸ List.mem_append_right _ List.mem_cons_self
  -- places are unique, so the entry taken out is `e`
  obtain rfl := List.inj_on_of_nodup_map hI.nodup h_mem he (of_decide_eq_true h_eq)
  -- and so are keys, so that no entry on either side of it has its key
  have h_keys := List.pairwise_map.mp hI.nodup_keys
  rw [h_lru] at h_keys
  obtain ⟨-, h_after, h_before⟩ := List.pairwise_append.mp h_keys
  have h_l₁ : ∀ x ∈ l₁, key x.2.spec ≠ key e'.2.spec := fun x hx =>
    h_before x hx e' List.mem_cons_self
  have h_l₂ : ∀ x ∈ l₂, key x.2.spec ≠ key e'.2.spec := fun x hx =>
    ((List.pairwise_cons.mp h_after).1 x hx).symm
  rw [h_erase, h_lru, List.filter_append, List.filter_cons_of_neg (by simp),
    List.filter_eq_self.mpr fun x hx => decide_eq_true (h_l₁ x hx),
    List.filter_eq_self.mpr fun x hx => decide_eq_true (h_l₂ x hx)]

/-- Moving an entry to the front uses its key. -/
theorem WellFormed.contents_splice (hI : WellFormed S c) (he : e ∈ c.lru) (rows : List Row311) :
    (splice (e.1, { e.2 with rows := rows }) c.lru).map (fun e => (key e.2.spec, e.2.rows)) =
      Recency.use c.contents (key e.2.spec) rows := by
  unfold splice Recency.use contents
  rw [List.map_cons, hI.eraseP_eq he, List.filter_map]
  rfl

/-- **The index finds what is there.** -/
theorem WellFormed.find_eq (hI : WellFormed S c) :
    c.find S spec = c.lru.find? fun e => key e.2.spec = key spec := by
  cases hfind : c.find S spec with
  | none =>
    -- the hash respects equality, so an equal entry would have been found
    refine (List.find?_eq_none.mpr fun e he => ?_).symm
    have h_spec := hI.find_eq_none hfind e he
    simpa [← specEqual_iff] using h_spec
  | some e =>
    obtain ⟨h_mem, h_spec⟩ := find_eq_some hfind
    exact ((find?_key_iff hI.nodup_keys).mpr ⟨h_mem, specEqual_iff.mp h_spec⟩).symm

theorem WellFormed.lookup_eq (hI : WellFormed S c) :
    Recency.lookup c.contents (key spec) = (c.find S spec).map fun e => e.2.rows := by
  unfold Recency.lookup contents
  rw [List.find?_map, Option.map_map, hI.find_eq]
  rfl

theorem contents_evict : c.evict.contents =
    if c.lru.length ≥ c.capacity then c.contents.dropLast else c.contents := by
  unfold evict
  split
  · unfold contents
    split
    · exact List.map_dropLast
    · -- an empty list is what is left of an empty list
      next hnone =>
      rw [List.getLast?_eq_none_iff.mp hnone]
      rfl
  · rfl

/-- The cache holds the entries of the list. -/
structure Holds (S : SpecHash) (capacity maxRows : ℕ) (c : QueryCache)
    (l : Recency QuerySpec (List Row311)) : Prop where
  wellFormed : WellFormed S c
  capacity : c.capacity = capacity
  maxRows : c.maxRows = maxRows
  contents : c.contents = l

variable {capacity maxRows : ℕ} {l : Recency QuerySpec (List Row311)}

theorem Holds.size_eq (h : Holds S capacity maxRows c l) : c.size = l.length := by
  rw [← h.contents, QueryCache.contents, List.length_map, size]

/-- No operation changes the limits. -/
theorem get_limits : (c.get S spec).2.capacity = c.capacity ∧
    (c.get S spec).2.maxRows = c.maxRows := by
  unfold get
  split
  · exact ⟨rfl, rfl⟩
  · split
    · exact ⟨rfl, rfl⟩
    · exact ⟨rfl, rfl⟩

theorem evict_limits : c.evict.capacity = c.capacity ∧ c.evict.maxRows = c.maxRows := by
  unfold evict
  split
  · split
    · exact ⟨rfl, rfl⟩
    · exact ⟨rfl, rfl⟩
  · exact ⟨rfl, rfl⟩

theorem put_limits : (c.put S spec rows).capacity = c.capacity ∧
    (c.put S spec rows).maxRows = c.maxRows := by
  unfold put
  split
  · exact ⟨rfl, rfl⟩
  · split
    · exact ⟨rfl, rfl⟩
    · exact evict_limits

theorem Holds.get (h : Holds S capacity maxRows c l) (spec : QuerySpec) :
    Holds S capacity maxRows (c.get S spec).2 (Recency.get l (key spec)).1 ∧
      (c.get S spec).1 = (Recency.get l (key spec)).2 := by
  -- the cache counts hits and misses, which the list does not have
  have h_same : (c.get S spec).2.contents = (Recency.get l (key spec)).1 ∧
      (c.get S spec).1 = (Recency.get l (key spec)).2 := by
    unfold Recency.get QueryCache.get
    rw [← h.contents, h.wellFormed.lookup_eq]
    split
    · next hzero =>
      -- a cache without room is empty
      have h_empty : c.lru = [] := List.eq_nil_of_length_eq_zero
        (Nat.le_zero.mp (hzero ▸ h.wellFormed.size))
      have h_none : c.find S spec = none := by
        rw [h.wellFormed.find_eq, h_empty, List.find?_nil]
      rw [h_none]
      exact ⟨rfl, rfl⟩
    · cases hfind : c.find S spec with
      | none => exact ⟨rfl, rfl⟩
      | some e =>
        obtain ⟨h_mem, h_spec⟩ := find_eq_some hfind
        have h_splice := h.wellFormed.contents_splice h_mem e.2.rows
        rw [specEqual_iff.mp h_spec] at h_splice
        exact ⟨h_splice, rfl⟩
  exact ⟨⟨get_wellFormed h.wellFormed, get_limits.1.trans h.capacity,
    get_limits.2.trans h.maxRows, h_same.1⟩, h_same.2⟩

theorem Holds.put (h : Holds S capacity maxRows c l) (spec : QuerySpec) (rows : List Row311) :
    Holds S capacity maxRows (c.put S spec rows)
      (if capacity = 0 ∨ decide (rows.length ≤ maxRows) = false then l
        else Recency.put l capacity (key spec) rows) := by
  refine ⟨put_wellFormed h.wellFormed, put_limits.1.trans h.capacity,
    put_limits.2.trans h.maxRows, ?_⟩
  -- both refuse the same results
  have h_fits : (c.capacity = 0 ∨ rows.length > c.maxRows) ↔
      capacity = 0 ∨ decide (rows.length ≤ maxRows) = false := by
    rw [h.capacity, h.maxRows, decide_eq_false_iff_not, not_le]
  unfold QueryCache.put
  by_cases hrefused : c.capacity = 0 ∨ rows.length > c.maxRows
  · rw [if_pos hrefused, if_pos (h_fits.mp hrefused), h.contents]
  rw [if_neg hrefused, if_neg (mt h_fits.mpr hrefused)]
  unfold Recency.put
  rw [← h.contents, h.wellFormed.lookup_eq]
  cases hfind : c.find S spec with
  | some e =>
    -- the entry moves to the front, with the new rows
    obtain ⟨h_mem, h_spec⟩ := find_eq_some hfind
    have h_splice := h.wellFormed.contents_splice h_mem rows
    rw [specEqual_iff.mp h_spec] at h_splice
    exact h_splice
  | none =>
    -- the key is new, so that there is no entry to take out
    have h_new : ∀ e ∈ c.evict.contents, e.1 ≠ key spec := by
      intro e he
      obtain ⟨e', h_mem, rfl⟩ := List.mem_map.mp he
      have h_spec := h.wellFormed.find_eq_none hfind e' (mem_evict h_mem)
      rw [Ne, ← specEqual_iff, h_spec]
      exact Bool.false_ne_true
    have h_use : (c.evict.insert S spec rows).contents =
        Recency.use c.evict.contents (key spec) rows := by
      unfold Recency.use
      rw [List.filter_eq_self.mpr fun e he => decide_eq_true (h_new e he)]
      rfl
    have h_length : c.contents.length = c.lru.length := List.length_map _
    refine h_use.trans ?_
    rw [contents_evict, h_length, ← h.capacity]
    -- a full cache has made room first, as the list does
    by_cases hfull : c.lru.length ≥ c.capacity
    · simp [hfull]
    · simp [hfull]

/-- **The cache behaves as the list of its entries.** -/
theorem simulates (S : SpecHash) (capacity maxRows : ℕ) :
    Object.Simulates (object S capacity maxRows)
      (Recency.object key (fun rows : List Row311 => rows.length ≤ maxRows) capacity)
      (Holds S capacity maxRows) where
  init := ⟨create_wellFormed S capacity maxRows, rfl, rfl, rfl⟩
  step c l op h := by
    cases op with
    | get spec =>
      obtain ⟨h_next, h_found⟩ := h.get spec
      exact ⟨h_next, congrArg₂ CacheAnswer.mk h_found h_next.size_eq⟩
    | put spec rows =>
      have h_next := h.put spec rows
      exact ⟨h_next, congrArg (CacheAnswer.mk none) h_next.size_eq⟩

/-- Every lookup counts, as a hit or as a miss. -/
theorem hits_add_misses (S : SpecHash) (capacity maxRows : ℕ)
    (ops : List (CacheOp QuerySpec (List Row311))) :
    ((object S capacity maxRows).after ops).hits + ((object S capacity maxRows).after ops).misses =
      ops.countP CacheOp.isGet := by
  induction ops using List.reverseRecOn with
  | nil => rfl
  | append_singleton ops op ih =>
    rw [Object.after_concat, List.countP_append, ← ih]
    -- any state will do: one operation counts itself
    generalize (object S capacity maxRows).after ops = c
    cases op with
    | get spec =>
      change (c.get S spec).2.hits + (c.get S spec).2.misses = c.hits + c.misses + 1
      unfold QueryCache.get
      split
      · rfl
      · split
        · exact Nat.add_right_comm _ _ _
        · rfl
    | put spec rows =>
      have h_same : (c.put S spec rows).hits = c.hits ∧ (c.put S spec rows).misses = c.misses := by
        unfold QueryCache.put evict
        split
        · exact ⟨rfl, rfl⟩
        · split
          · exact ⟨rfl, rfl⟩
          · split
            · split <;> exact ⟨rfl, rfl⟩
            · exact ⟨rfl, rfl⟩
      change (c.put S spec rows).hits + (c.put S spec rows).misses = c.hits + c.misses
      rw [h_same.1, h_same.2]

end QueryCache

/-- **The cache is an LRU map.** It gives the answers of a map of its capacity that finds
specifications by their key, and refuses results with too many rows. In every state that it
can reach, index and entries are in step, no two entries have equal specifications, there
are no more entries than the capacity, and every lookup has been counted. -/
theorem queryCache_lru (S : SpecHash) (capacity maxRows : ℕ)
    (ops : List (CacheOp QuerySpec (List Row311))) :
    let cache := QueryCache.object S capacity maxRows
    let map : Object (LruMap QuerySpec (List Row311)) _ _ :=
      LruMap.object QueryCache.key (fun rows => rows.length ≤ maxRows) capacity
    cache.answers ops = map.answers ops ∧
      QueryCache.WellFormed S (cache.after ops) ∧ (cache.after ops).size ≤ capacity ∧
      (cache.after ops).hits + (cache.after ops).misses = ops.countP CacheOp.isGet := by
  intro cache map
  have h_cache := QueryCache.simulates S capacity maxRows
  have h_holds := h_cache.after ops
  refine ⟨(h_cache.answers_eq ops).trans ((Recency.simulates _ _ _).answers_eq ops),
    h_holds.wellFormed, ?_, QueryCache.hits_add_misses S capacity maxRows ops⟩
  exact h_holds.wellFormed.size.trans_eq h_holds.capacity

end Mini2
