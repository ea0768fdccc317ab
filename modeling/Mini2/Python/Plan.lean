import Mini2.Python.Scan

/-!
# Plans and partitions

Two things should not show in the rows of a query: whether a scan was planned from the
indices, and how the records are distributed over stores.

* `scan_eq_linear_iff` — exactly when a planned scan yields what going through all rows
  does. The grid leaves out the rows at (0, 0), and has a row twice for a box with two
  cells of one key.
* `cellKey_inj` — no two cells have one key but far outside of the coordinates there are.
* `scan_partition` — a scan yields each row by itself, so a query without a cap yields the
  same rows however they are distributed.
-/

namespace Mini2
namespace Python

open Framework

/-! ### Planned and linear scans -/

section Plan

variable (store : PartitionStore) (q : QuerySpec)

/-- The rows that a query asks for, within the cap. -/
def hits : List Row311 := q.cut (store.rows.filter q.admits)

/-- A query with a box asks for rows that have a location, and when it has nothing but
the box, a row whose key is that of two cells of the box is followed, up to the cap, by
equal rows only, and the cap is reached. -/
def PlanExact : Prop :=
  q.useGeoBox = true →
    (∀ r ∈ hits store q, r.ungeocoded = false) ∧
      (q.boxOnly → ∀ before r after, hits store q = before ++ r :: after → 1 < sharing q r →
        (q.maxRows ≠ 0 ∧ (hits store q).length = q.maxRows.toNat) ∧ ∀ s ∈ after, s = r)

variable {store q}

/-- What a planned scan makes of the rows asked for, those without a location aside. -/
def repeats (q : QuerySpec) (r : Row311) : ℕ := if q.boxOnly then sharing q r else 1

theorem times_of_geocoded {r : Row311} (hgeo : q.useGeoBox = true) (hr : q.admits r = true)
    (hplace : r.ungeocoded = false) : times q r = repeats q r := by
  simp [times, repeats, hgeo, hr, hplace]

theorem one_le_repeats {r : Row311} (hgeo : q.useGeoBox = true) (hr : q.admits r = true) :
    1 ≤ repeats q r := by
  have h_box : q.inBox r = true := by
    rw [QuerySpec.admits, hgeo] at hr
    simpa using (Bool.and_eq_true_iff.mp hr).2
  unfold repeats
  split
  · exact sharing_pos h_box
  · exact le_rfl

theorem ungeocoded_of_mem_copies {r : Row311} {rows : List Row311} (hgeo : q.useGeoBox = true)
    (h : r ∈ copies (times q) rows) : r.ungeocoded = false := by
  have h_times := (mem_copies.mp h).2
  unfold times at h_times
  by_contra hplace
  rw [if_pos hgeo, if_pos (Bool.of_not_eq_false hplace), ite_self] at h_times
  exact absurd h_times (by simp)

/-- **A planned scan and a linear one** yield the same rows exactly if all rows asked
for are in the grid, and none that shows there twice. -/
theorem scan_eq_linear_iff (store : PartitionStore) (q : QuerySpec) (chunkRows : ℕ) :
    scanRows store q chunkRows false = scanRows store q chunkRows true ↔ PlanExact store q := by
  rw [scan_rows, scan_linear]
  have h_outside : ∀ r ∈ store.rows, q.admits r = false → times q r = 0 := fun r _ hr => by
    simp [times, hr]
  rw [← copies_filter h_outside]
  cases hgeo : q.useGeoBox with
  | false =>
    -- every row asked for comes once
    have h_once : copies (times q) (store.rows.filter q.admits) = store.rows.filter q.admits := by
      rw [copies_filter h_outside, ← copies_ite]
      exact copies_congr fun r _ => by simp [times, hgeo]
    refine iff_of_true (congrArg q.cut h_once) fun h => ?_
    exact absurd h (by simp [hgeo])
  | true =>
    unfold PlanExact hits
    rw [forall_prop_of_true hgeo]
    generalize h_asked : store.rows.filter q.admits = asked
    have h_admits : ∀ r ∈ asked, q.admits r = true := fun r hr =>
      (List.mem_filter.mp (h_asked ▸ hr)).2
    -- with a bound in place of no cap
    obtain ⟨n, hn₁, hn₂⟩ : ∃ n, (copies (times q) asked).length ≤ n ∧ asked.length < n :=
      ⟨(copies (times q) asked).length + asked.length + 1, by omega, by omega⟩
    rw [q.cut_eq_take hn₁, q.cut_eq_take hn₂.le]
    generalize h_cap : (if q.maxRows = 0 then n else q.maxRows.toNat) = cap
    have h_full : cap ≤ asked.length ↔
        q.maxRows ≠ 0 ∧ (asked.take cap).length = q.maxRows.toNat := by
      rw [List.length_take]
      split at h_cap
      · next h_zero => simp [h_zero]; omega
      · next h_zero =>
        rw [and_iff_right h_zero, ← h_cap, min_eq_left_iff]
    by_cases h_places : ∀ r ∈ asked.take cap, r.ungeocoded = false
    · have h_take : (copies (times q) asked).take cap = (copies (repeats q) asked).take cap := by
        have h_eq : ∀ r ∈ asked.take cap, times q r = repeats q r := fun r hr =>
          times_of_geocoded hgeo (h_admits r (List.mem_of_mem_take hr)) (h_places r hr)
        refine take_copies_congr (fun r hr => ?_) h_eq
        rw [h_eq r hr]
        exact one_le_repeats hgeo (h_admits r (List.mem_of_mem_take hr))
      rw [h_take, take_copies_eq_iff fun r hr => one_le_repeats hgeo (h_admits r hr)]
      simp only [h_full, and_iff_right h_places]
      unfold repeats
      by_cases h_only : q.boxOnly
      · simp [h_only]
      · simp [h_only]
    · refine iff_of_false (fun heq => h_places fun r hr => ?_) fun h => h_places h.1
      exact ungeocoded_of_mem_copies hgeo (List.mem_of_mem_take (heq ▸ hr))

/-- A row without a location, which asks for itself with a box around (0, 0). -/
def blankRow : Row311 := ⟨1, 20230101, .queens, 0, 0, "Noise".toList⟩

/-- The box of one degree around (0, 0). -/
def originQuery : QuerySpec where
  borough := 0
  complaintType := []
  dateFrom := 0
  dateTo := 0
  minLat := -1 / 100
  maxLat := 1 / 100
  minLon := -1 / 100
  maxLon := 1 / 100
  useGeoBox := true
  maxRows := 0

/-- The linear scan yields the row, the planned one does not. -/
theorem scan_ungeocoded :
    scanRows (.ofRows [blankRow]) originQuery 1 false ≠
      scanRows (.ofRows [blankRow]) originQuery 1 true := by
  decide +kernel

/-! #### Cells with one key -/

theorem cellKey_eq {la lo : ℤ} (hla : -2 ^ 30 ≤ la) (hlo : -2 ^ 30 ≤ lo ∧ lo < 2 ^ 32 - 2 ^ 30) :
    cellKey la lo = (la + 2 ^ 30) * 2 ^ 32 + (lo + 2 ^ 30) := by
  obtain ⟨a, ha⟩ := Int.eq_ofNat_of_zero_le (by omega : 0 ≤ la + 2 ^ 30)
  obtain ⟨b, hb⟩ := Int.eq_ofNat_of_zero_le (by omega : 0 ≤ lo + 2 ^ 30)
  have h_lt : b < 2 ^ 32 := by omega
  have h_or : Int.lor (((a : ℕ) : ℤ) <<< 32) (b : ℤ) = ((a <<< 32 ||| b : ℕ) : ℤ) := rfl
  rw [cellKey, ha, hb, h_or, ← Nat.shiftLeft_add_eq_or_of_lt h_lt, Nat.shiftLeft_eq]
  push_cast
  rfl

/-- **Cells have their own keys** between 10,737,418 degrees south and west and 32,212,254
degrees east. -/
theorem cellKey_inj {c d : ℤ × ℤ} (hc : -2 ^ 30 ≤ c.1 ∧ -2 ^ 30 ≤ c.2 ∧ c.2 < 2 ^ 32 - 2 ^ 30)
    (hd : -2 ^ 30 ≤ d.1 ∧ -2 ^ 30 ≤ d.2 ∧ d.2 < 2 ^ 32 - 2 ^ 30)
    (h : cellKey c.1 c.2 = cellKey d.1 d.2) : c = d := by
  rw [cellKey_eq hc.1 hc.2, cellKey_eq hd.1 hd.2] at h
  ext
  · omega
  · omega

/-- A box within these bounds has each of its rows once. -/
theorem sharing_eq_one {r : Row311} (hr : q.inBox r = true)
    (hlat : -2 ^ 30 ≤ Indices.cell q.minLat)
    (hlon : -2 ^ 30 ≤ Indices.cell q.minLon ∧ Indices.cell q.maxLon < 2 ^ 32 - 2 ^ 30) :
    sharing q r = 1 := by
  refine le_antisymm ?_ (sharing_pos hr)
  obtain ⟨h_lat, h_lon⟩ := inBox_iff.mp hr
  -- the cell of a key in the box is the row's own
  have h_own : ∀ c ∈ PartitionStore.boxCells q.minLat q.maxLat q.minLon q.maxLon,
      cellKey c.1 c.2 = rowKey r → c = (Indices.cell r.latitude, Indices.cell r.longitude) := by
    intro c hc h_key
    obtain ⟨h_row, h_col⟩ := Indices.mem_cells.mp hc
    have h₁ := Indices.cell_mono h_lat.1
    have h₂ := Indices.cell_mono h_lon.1
    have h₃ := Indices.cell_mono h_lon.2
    refine cellKey_inj ?_ ?_ h_key
    · omega
    · dsimp only
      omega
  calc sharing q r
      ≤ (PartitionStore.boxCells q.minLat q.maxLat q.minLon q.maxLon).count
          (Indices.cell r.latitude, Indices.cell r.longitude) := by
        refine List.countP_mono_left fun c hc h => ?_
        exact beq_iff_eq.mpr (h_own c hc (of_decide_eq_true h))
    _ ≤ 1 := List.nodup_iff_count_le_one.mp (Indices.cells_nodup _ _ _ _) _

/-- For a box on earth, it is the rows without a location alone that a planned scan
leaves out. -/
theorem planExact_iff (store : PartitionStore) (hlat : -2 ^ 30 ≤ Indices.cell q.minLat)
    (hlon : -2 ^ 30 ≤ Indices.cell q.minLon ∧ Indices.cell q.maxLon < 2 ^ 32 - 2 ^ 30) :
    PlanExact store q ↔ (q.useGeoBox = true → ∀ r ∈ hits store q, r.ungeocoded = false) := by
  refine forall_congr' fun hgeo => and_iff_left fun _ before r after h_hits h_more => ?_
  have h_mem : r ∈ hits store q := by
    rw [h_hits]
    exact List.mem_append_right _ List.mem_cons_self
  rw [hits, q.cut_eq_take le_rfl] at h_mem
  have h_admits := (List.mem_filter.mp (List.mem_of_mem_take h_mem)).2
  have h_box : q.inBox r = true := by
    rw [QuerySpec.admits, hgeo] at h_admits
    simpa using (Bool.and_eq_true_iff.mp h_admits).2
  rw [sharing_eq_one h_box hlat hlon] at h_more
  exact absurd h_more (Nat.lt_irrefl 1)

/-- Beyond, a row can come twice. -/
example : sharing
    { originQuery with
      maxLat := 15 / 1000, minLat := 0, minLon := 32212254.72, maxLon := 32212254.72 }
    { blankRow with latitude := 5 / 1000, longitude := 32212254.72 } = 2 := by decide +kernel

end Plan

/-! ### Distributed records -/

section Partition

variable {α : Type*} [DecidableEq α]

/-- The records that `partition_data.py` writes for a node. -/
def partition (nodes : List α) (records : List Row311) (nid : α) : List Row311 :=
  records.filter fun r => nodes[r.uniqueKey.toNat % nodes.length]? = some nid

/-- **Distributing the records makes no difference** to a query without a cap. -/
theorem scan_partition (nodes : List α) (hnodes : nodes.Nodup) (hne : nodes ≠ [])
    (records : List Row311) (q : QuerySpec) (hcap : q.maxRows = 0) (chunkRows : α → ℕ)
    (n : ℕ) :
    (nodes.flatMap fun nid =>
      scanRows (.ofRows (partition nodes records nid)) q (chunkRows nid) false).Perm
      (scanRows (.ofRows records) q n false) := by
  -- a scan counts each row by itself
  have h_scan : ∀ rows n, scanRows (.ofRows rows) q n false =
      rows.flatMap fun r => List.replicate (times q r) r := fun rows n => by
    rw [scan_rows, PartitionStore.rows_ofRows, QuerySpec.cut, if_pos hcap]
    rfl
  -- and each row is on one node
  have h_owner : ∀ r ∈ records, ∃ nid ∈ nodes,
      nodes[r.uniqueKey.toNat % nodes.length]? = some nid := by
    intro r _
    have h_lt := Nat.mod_lt r.uniqueKey.toNat (List.length_pos_iff.mpr hne)
    exact ⟨_, List.getElem_mem h_lt, List.getElem?_eq_getElem h_lt⟩
  have h_shares := flatMap_filter_perm hnodes h_owner
  simp only [h_scan]
  rw [← List.flatMap_assoc]
  exact h_shares.flatMap_right _

/-- Two records on two nodes, one of them without a location. -/
theorem scan_partition_two :
    (["A", "B"].flatMap fun nid => scanRows (.ofRows (partition ["A", "B"]
      [blankRow, { blankRow with uniqueKey := 2, latitude := 1 / 200 }] nid)) originQuery 512
        false).Perm
      (scanRows (.ofRows [blankRow, { blankRow with uniqueKey := 2, latitude := 1 / 200 }])
        originQuery 512 false) :=
  scan_partition ["A", "B"] (by decide) (by decide) _ _ rfl (fun _ => 512) 512

end Partition
end Python
end Mini2
