import Mini2.Data.Record311

/-!
# The result cache

`QueryCache` keeps the results of recent queries, the most recently used first, and
finds them through an index from the hashes of their specifications to the places
of their entries. An iterator is a number here, which its entry keeps for as long as
it exists.

* `specEqual_iff` — the key of an entry is its specification, less a box that is not
  used.
* `get_wellFormed`, `put_wellFormed` — index and entries stay in step.
* `mem_put` — an entry is old, or holds what was just put.
-/

namespace Mini2

/-! ### Keys -/

/-- `std::hash` on the types of a specification's fields. -/
structure StdHash where
  int : ℤ → UInt64
  string : Str → UInt64
  uint32 : UInt32 → UInt64
  bool : Bool → UInt64
  double : ℚ → UInt64

namespace QueryCache

def hc (seed v : UInt64) : UInt64 :=
  seed ^^^ (v + 0x9e3779b9 + (seed <<< (6 : UInt64)) + (seed >>> (2 : UInt64)))

def hashSpec (H : StdHash) (s : QuerySpec) : UInt64 :=
  let h := hc 0 (H.int s.borough)
  let h := hc h (H.string s.complaintType)
  let h := hc h (H.uint32 s.dateFrom)
  let h := hc h (H.uint32 s.dateTo)
  let h := hc h (H.bool s.useGeoBox)
  let h :=
    if s.useGeoBox then
      hc (hc (hc (hc h (H.double s.minLat)) (H.double s.maxLat)) (H.double s.minLon))
        (H.double s.maxLon)
    else h
  hc h (H.uint32 s.maxRows)

def specEqual (a b : QuerySpec) : Bool :=
  if a.borough ≠ b.borough then false
  else if a.complaintType ≠ b.complaintType then false
  else if a.dateFrom ≠ b.dateFrom then false
  else if a.dateTo ≠ b.dateTo then false
  else if a.useGeoBox ≠ b.useGeoBox then false
  else if a.maxRows ≠ b.maxRows then false
  else if a.useGeoBox then
    if a.minLat ≠ b.minLat then false
    else if a.maxLat ≠ b.maxLat then false
    else if a.minLon ≠ b.minLon then false
    else if a.maxLon ≠ b.maxLon then false
    else true
  else true

/-- The specification less a box that is not used. -/
def key (s : QuerySpec) : QuerySpec :=
  if s.useGeoBox then s else { s with minLat := 0, maxLat := 0, minLon := 0, maxLon := 0 }

/-- Two specifications are equal to the cache exactly if their keys are. -/
theorem specEqual_iff {a b : QuerySpec} : specEqual a b = true ↔ key a = key b := by
  obtain ⟨_, _, _, _, _, _, _, _, geo, _⟩ := a
  obtain ⟨_, _, _, _, _, _, _, _, geo', _⟩ := b
  cases geo <;> cases geo' <;> simp [specEqual, key]
  tauto

/-- Equal specifications have the same cap. -/
theorem maxRows_eq {a b : QuerySpec} (h : specEqual a b = true) : a.maxRows = b.maxRows := by
  have h_key : ∀ s, (key s).maxRows = s.maxRows := by
    intro s
    unfold key
    split <;> rfl
  rw [← h_key a, ← h_key b, specEqual_iff.mp h]

/-- Equal specifications have equal hashes. -/
theorem hashSpec_eq (H : StdHash) {a b : QuerySpec} (h : specEqual a b = true) :
    hashSpec H a = hashSpec H b := by
  have h_key : ∀ s, hashSpec H (key s) = hashSpec H s := by
    intro s
    unfold key
    split
    · rfl
    · next hgeo => simp [hashSpec, hgeo]
  rw [← h_key a, ← h_key b, specEqual_iff.mp h]

/-- `QueryCache::Entry`. -/
structure Entry where
  hash : UInt64
  spec : QuerySpec
  rows : List Row311

end QueryCache

/-- A hash of specifications that respects their equality. -/
structure SpecHash where
  hash : QuerySpec → UInt64
  hash_eq {a b : QuerySpec} (h : QueryCache.specEqual a b = true) : hash a = hash b

/-- The hash of the code. -/
def StdHash.specHash (H : StdHash) : SpecHash := ⟨QueryCache.hashSpec H, QueryCache.hashSpec_eq H⟩

/-- `QueryCache`. -/
structure QueryCache where
  capacity : ℕ
  maxRows : ℕ
  /-- The entries under their iterators, the most recently used first. -/
  lru : List (ℕ × QueryCache.Entry)
  /-- The iterator of each entry under its hash. -/
  index : List (UInt64 × ℕ)
  /-- The iterator of the next new entry. -/
  fresh : ℕ
  hits : ℕ
  misses : ℕ

namespace QueryCache

/-! ### Operations -/

/-- The constructor. -/
def create (capacity maxRows : ℕ) : QueryCache := ⟨capacity, maxRows, [], [], 0, 0, 0⟩

variable (S : SpecHash) (c : QueryCache) (spec : QuerySpec) (rows : List Row311)

/-- The entry with an equal specification among those with its hash. -/
def find : Option (ℕ × Entry) :=
  (c.index.filter fun x => x.1 = S.hash spec).findSome? fun x =>
    (c.lru.find? fun e => e.1 = x.2).filter fun e => specEqual e.2.spec spec

/-- `lru_.splice(lru_.begin(), lru_, it)`, for the entry `e`. -/
def splice (e : ℕ × Entry) (l : List (ℕ × Entry)) : List (ℕ × Entry) :=
  e :: l.eraseP fun e' => e'.1 = e.1

def get : Option (List Row311) × QueryCache :=
  if c.capacity = 0 then (none, { c with misses := c.misses + 1 })
  else
    match c.find S spec with
    | some e => (some e.2.rows, { c with lru := splice e c.lru, hits := c.hits + 1 })
    | none => (none, { c with misses := c.misses + 1 })

/-- Remove the least recently used entry, if the cache is full. -/
def evict : QueryCache :=
  if c.lru.length ≥ c.capacity then
    match c.lru.getLast? with
    | some back => { c with lru := c.lru.dropLast, index := c.index.erase (back.2.hash, back.1) }
    | none => c
  else c

/-- Add an entry. -/
def insert : QueryCache :=
  { c with
    lru := (c.fresh, ⟨S.hash spec, spec, rows⟩) :: c.lru
    index := (S.hash spec, c.fresh) :: c.index
    fresh := c.fresh + 1 }

def put : QueryCache :=
  if c.capacity = 0 ∨ rows.length > c.maxRows then c
  else
    match c.find S spec with
    | some e => { c with lru := splice (e.1, { e.2 with rows := rows }) c.lru }
    | none => c.evict.insert S spec rows

/-! ### Index and entries -/

/-- What the index holds for an entry. -/
def indexOf (e : ℕ × Entry) : UInt64 × ℕ := (e.2.hash, e.1)

/-- The index finds every entry, under a hash and an iterator of its own. -/
structure WellFormed (S : SpecHash) (c : QueryCache) : Prop where
  indexed : c.index.Perm (c.lru.map indexOf)
  nodup : (c.lru.map Prod.fst).Nodup
  fresh : ∀ e ∈ c.lru, e.1 < c.fresh
  hashed : ∀ e ∈ c.lru, e.2.hash = S.hash e.2.spec
  /-- No two entries have equal specifications. -/
  distinct : c.lru.Pairwise fun e e' => specEqual e.2.spec e'.2.spec = false
  size : c.lru.length ≤ c.capacity

section

variable {S : SpecHash} {c : QueryCache} {spec : QuerySpec} {rows : List Row311} {e : ℕ × Entry}

theorem specEqual_comm {a b : QuerySpec} : specEqual a b = specEqual b a := by
  rw [Bool.eq_iff_iff, specEqual_iff, specEqual_iff, eq_comm]

theorem find_eq_some (h : c.find S spec = some e) : e ∈ c.lru ∧ specEqual e.2.spec spec = true := by
  obtain ⟨x, -, hx⟩ := List.exists_of_findSome?_eq_some h
  obtain ⟨h_find, h_spec⟩ := Option.filter_eq_some_iff.mp hx
  exact ⟨List.mem_of_find?_eq_some h_find, h_spec⟩

/-- An iterator leads to its entry. -/
theorem find?_iterator {l : List (ℕ × Entry)} (h : (l.map Prod.fst).Nodup) (he : e ∈ l) :
    l.find? (fun e' => e'.1 = e.1) = some e := by
  obtain ⟨e', he'⟩ := Option.isSome_iff_exists.mp
    (List.find?_isSome (p := fun e' => e'.1 = e.1) |>.mpr ⟨e, he, decide_eq_true rfl⟩)
  have h_key : e'.1 = e.1 := by simpa using List.find?_some he'
  rw [he', List.inj_on_of_nodup_map h (List.mem_of_find?_eq_some he') he h_key]

/-- The other entries, and the one that is moved. -/
theorem perm_splice {l : List (ℕ × Entry)} (h : (l.map Prod.fst).Nodup) (he : e ∈ l) :
    (splice e l).Perm l := by
  obtain ⟨e', l₁, l₂, -, h_eq, rfl, h_erase⟩ :=
    List.exists_of_eraseP (p := fun e' => e'.1 = e.1) he (decide_eq_true rfl)
  obtain rfl := List.inj_on_of_nodup_map h (List.mem_append_right _ List.mem_cons_self) he
    (of_decide_eq_true h_eq)
  unfold splice
  rw [h_erase]
  exact List.perm_middle.symm

/-- **The index misses no entry.** -/
theorem WellFormed.find_eq_none (hI : WellFormed S c) (h : c.find S spec = none) :
    ∀ e ∈ c.lru, specEqual e.2.spec spec = false := by
  intro e he
  refine Bool.eq_false_iff.mpr fun hspec => ?_
  have h_index : indexOf e ∈ c.index := hI.indexed.mem_iff.mpr (List.mem_map_of_mem he)
  have h_hash : e.2.hash = S.hash spec := (hI.hashed e he).trans (S.hash_eq hspec)
  have h_none := List.findSome?_eq_none_iff.mp h (indexOf e)
    (List.mem_filter.mpr ⟨h_index, decide_eq_true h_hash⟩)
  have h_find : c.lru.find? (fun e' => e'.1 = (indexOf e).2) = some e :=
    find?_iterator hI.nodup he
  rw [h_find, Option.filter_some, if_pos hspec] at h_none
  exact absurd h_none (by simp)

/-- The invariant is about the entries as a set. -/
theorem WellFormed.perm (hI : WellFormed S c) {l : List (ℕ × Entry)} (h : l.Perm c.lru)
    {hits misses : ℕ} : WellFormed S { c with lru := l, hits := hits, misses := misses } where
  indexed := hI.indexed.trans (h.map indexOf).symm
  nodup := (h.map Prod.fst).nodup_iff.mpr hI.nodup
  fresh e he := hI.fresh e (h.mem_iff.mp he)
  hashed e he := hI.hashed e (h.mem_iff.mp he)
  distinct := hI.distinct.perm h.symm fun h => specEqual_comm.trans h
  size := h.length_eq.trans_le hI.size

theorem get_wellFormed (hI : WellFormed S c) : WellFormed S (c.get S spec).2 := by
  unfold get
  split
  · exact hI.perm (List.Perm.refl _)
  · split
    · next e he => exact hI.perm (perm_splice hI.nodup (find_eq_some he).1)
    · exact hI.perm (List.Perm.refl _)

/-- Eviction adds no entry. -/
theorem mem_evict (h : e ∈ c.evict.lru) : e ∈ c.lru := by
  unfold evict at h
  split at h
  · split at h
    · exact List.dropLast_subset _ h
    · exact h
  · exact h

/-- Removing the last entry removes it from the index. -/
theorem WellFormed.evict (hI : WellFormed S c) : WellFormed S c.evict := by
  unfold QueryCache.evict
  split
  -- there is room
  swap
  · exact hI
  split
  · next back hback =>
    -- the entry at the back is the first of the index, up to order
    have h_split : c.lru = c.lru.dropLast ++ [back] :=
      (List.dropLast_append_getLast? back hback).symm
    have h_sub : c.lru.dropLast.Sublist c.lru := List.dropLast_sublist _
    have h_index : c.index.Perm (indexOf back :: c.lru.dropLast.map indexOf) := by
      refine hI.indexed.trans ?_
      conv_lhs => rw [h_split]
      rw [List.map_append, List.map_singleton]
      exact List.perm_append_singleton _ _
    refine ⟨?_, hI.nodup.sublist (h_sub.map _), fun e he => hI.fresh e (h_sub.subset he),
      fun e he => hI.hashed e (h_sub.subset he), hI.distinct.sublist h_sub,
      h_sub.length_le.trans hI.size⟩
    have h_erase := h_index.erase (indexOf back)
    rwa [List.erase_cons_head] at h_erase
  · exact hI

/-- Eviction makes room. -/
theorem length_evict (h : c.capacity ≠ 0) (hsize : c.lru.length ≤ c.capacity) :
    c.evict.lru.length < c.evict.capacity := by
  unfold QueryCache.evict
  split
  · next hfull =>
    split
    · change c.lru.dropLast.length < c.capacity
      rw [List.length_dropLast]
      omega
    · next hnone =>
      rw [List.getLast?_eq_none_iff.mp hnone] at hfull
      exact absurd (Nat.le_zero.mp hfull) h
  · next hroom => exact not_le.mp hroom

/-- A new entry, for a specification that is not there, into a cache with room. -/
theorem WellFormed.insert (hI : WellFormed S c) (hroom : c.lru.length < c.capacity)
    (hnew : ∀ e ∈ c.lru, specEqual e.2.spec spec = false) :
    WellFormed S (c.insert S spec rows) where
  indexed := hI.indexed.cons _
  nodup := List.nodup_cons.mpr ⟨fun h => by
    obtain ⟨e, he, h_eq⟩ := List.mem_map.mp h
    exact absurd (hI.fresh e he) (by simp [h_eq]), hI.nodup⟩
  fresh := List.forall_mem_cons.mpr ⟨Nat.lt_succ_self _, fun e he =>
    (hI.fresh e he).trans (Nat.lt_succ_self _)⟩
  hashed := List.forall_mem_cons.mpr ⟨rfl, hI.hashed⟩
  distinct := List.pairwise_cons.mpr
    ⟨fun e he => specEqual_comm.trans (hnew e he), hI.distinct⟩
  size := hroom

/-- An entry keeps its iterator, its hash and its specification when its rows are
replaced. -/
theorem WellFormed.setRows {l : List (ℕ × Entry)} (hI : WellFormed S { c with lru := e :: l }) :
    WellFormed S { c with lru := (e.1, { e.2 with rows := rows }) :: l } where
  indexed := hI.indexed
  nodup := hI.nodup
  fresh := List.forall_mem_cons.mpr (List.forall_mem_cons.mp hI.fresh)
  hashed := List.forall_mem_cons.mpr (List.forall_mem_cons.mp hI.hashed)
  distinct := List.pairwise_cons.mpr (List.pairwise_cons.mp hI.distinct)
  size := hI.size

theorem put_wellFormed (hI : WellFormed S c) : WellFormed S (c.put S spec rows) := by
  unfold put
  split
  · exact hI
  next hput =>
  split
  · next e he => exact (hI.perm (perm_splice hI.nodup (find_eq_some he).1)).setRows
  · next hnone =>
    have h_new := hI.find_eq_none hnone
    exact hI.evict.insert (length_evict (fun h => hput (Or.inl h)) hI.size)
      fun e he => h_new e (mem_evict he)

/-- Nor do a request's puts, one after the other, bring the two out of step. -/
theorem foldl_put_wellFormed (hI : WellFormed S c) (puts : List (List Row311)) :
    WellFormed S (puts.foldl (fun c rows => c.put S spec rows) c) := by
  induction puts generalizing c with
  | nil => exact hI
  | cons rows puts ih => exact ih (put_wellFormed hI)

theorem create_wellFormed (S : SpecHash) (capacity maxRows : ℕ) :
    WellFormed S (create capacity maxRows) :=
  ⟨List.Perm.refl _, List.nodup_nil, fun _ h => absurd h List.not_mem_nil,
    fun _ h => absurd h List.not_mem_nil, List.Pairwise.nil, Nat.zero_le _⟩

end

/-! ### What is in the cache -/

section

variable {S : SpecHash} {c : QueryCache} {spec : QuerySpec} {rows : List Row311} {e : ℕ × Entry}

/-- **A hit returns an entry** for an equal specification. -/
theorem get_eq_some (h : (c.get S spec).1 = some rows) :
    ∃ e ∈ c.lru, specEqual e.2.spec spec = true ∧ e.2.rows = rows := by
  unfold get at h
  split at h
  · exact absurd h (by simp)
  · split at h
    · next e he => exact ⟨e, (find_eq_some he).1, (find_eq_some he).2, Option.some.inj h⟩
    · exact absurd h (by simp)

/-- Looking up adds no entry. -/
theorem mem_get (h : e ∈ (c.get S spec).2.lru) : e ∈ c.lru := by
  unfold get at h
  split at h
  · exact h
  · split at h
    · next e' he =>
      rcases List.mem_cons.mp h with rfl | h
      · exact (find_eq_some he).1
      · exact List.mem_of_mem_eraseP h
    · exact h

/-- **What can be in the cache** after a result is put. -/
theorem mem_put (h : e ∈ (c.put S spec rows).lru) :
    e ∈ c.lru ∨ (specEqual e.2.spec spec = true ∧ e.2.rows = rows) := by
  unfold put at h
  split at h
  · exact Or.inl h
  · split at h
    · next e' he =>
      rcases List.mem_cons.mp h with rfl | h
      · exact Or.inr ⟨(find_eq_some he).2, rfl⟩
      · exact Or.inl (List.mem_of_mem_eraseP h)
    · rcases List.mem_cons.mp h with rfl | h
      · exact Or.inr ⟨specEqual_iff.mpr rfl, rfl⟩
      · exact Or.inl (mem_evict h)

/-- What can be in the cache after a request has put its results. -/
theorem mem_foldl_put {puts : List (List Row311)}
    (h : e ∈ (puts.foldl (fun c rows => c.put S spec rows) c).lru) :
    e ∈ c.lru ∨ (specEqual e.2.spec spec = true ∧ e.2.rows ∈ puts) := by
  induction puts generalizing c with
  | nil => exact Or.inl h
  | cons rows puts ih =>
    rcases ih h with h | ⟨h_spec, h_mem⟩
    · rcases mem_put h with h | ⟨h_spec, rfl⟩
      · exact Or.inl h
      · exact Or.inr ⟨h_spec, List.mem_cons_self⟩
    · exact Or.inr ⟨h_spec, List.mem_cons_of_mem _ h_mem⟩

end

end QueryCache
end Mini2
