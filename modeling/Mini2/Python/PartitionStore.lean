import Mini2.Framework.Repeats
import Mini2.Store.Indices

/-!
# The partition of a Python node

The Python `PartitionStore` keeps the columns of the C++ one, and dictionaries of row
ids as indices. It follows the C++ indices closely; the differences are these:

* Python numbers do not overflow, so every store has its indices and every box is
  looked up.
* The borough of a query is looked up as the number that the message carries.
* Two cells of the grid can have one key. A box over both finds their rows twice
  (`geoBox_eq`).
-/

namespace Mini2

namespace QuerySpec

variable (q : QuerySpec) (r : Row311)

/-- No predicate but the box narrows the query down. -/
def boxOnly : Prop :=
  q.borough = 0 ∧ q.complaintType = [] ∧ q.dateFrom = 0 ∧ q.dateTo = 0

instance : Decidable q.boxOnly := inferInstanceAs (Decidable (_ ∧ _))

/-- A query that only has a box asks for all rows in it. -/
theorem indexedOk_of_boxOnly (h : q.boxOnly) : q.indexedOk r = true := by
  obtain ⟨h_borough, h_complaint, h_from, h_to⟩ := h
  simp [indexedOk, boroughOk, complaintOk, dateOk, h_borough, h_complaint, h_from, h_to]

end QuerySpec

/-- The (0, 0) of rows without a location. -/
def Row311.ungeocoded (r : Row311) : Bool := r.latitude = 0 && r.longitude = 0

namespace Python

open Framework

/-! ### The store -/

/-- Pack two numbers of cells into one key, which is a Python number. -/
def cellKey (la lo : ℤ) : ℤ := Int.lor ((la + 2 ^ 30) <<< 32) (lo + 2 ^ 30)

/-- The key of the cell that a row lies in. -/
def rowKey (r : Row311) : ℤ := cellKey (Indices.cell r.latitude) (Indices.cell r.longitude)

/-- The key of a row in the grid, which leaves out rows without a location. -/
def gridKey (cols : Columns) (i : Fin cols.n) : Option ℤ :=
  if (cols.row i).ungeocoded then none else some (rowKey (cols.row i))

/-- `PartitionStore`, once its indices are built. -/
structure PartitionStore extends Columns where
  byBorough : Buckets ℤ (Fin n)
  byComplaint : Buckets Str (Fin n)
  /-- Dates and row ids, in the order of the dates. -/
  byDate : List (UInt32 × Fin n)
  byCell : Buckets ℤ (Fin n)
  byBorough_built : byBorough = .index (fun i => some (boroughs.get i).code) toColumns.ids
  byComplaint_built : byComplaint = .index (fun i => some (complaints.get i)) toColumns.ids
  byDate_built :
    byDate = (toColumns.ids.map fun i => (dates.get i, i)).insertionSort Indices.dateLE
  byCell_built : byCell = .index (gridKey toColumns) toColumns.ids

namespace PartitionStore

/-- Build all indices in one pass. -/
def buildIndices (cols : Columns) : PartitionStore where
  toColumns := cols
  byBorough := .index (fun i => some (cols.boroughs.get i).code) cols.ids
  byComplaint := .index (fun i => some (cols.complaints.get i)) cols.ids
  byDate := (cols.ids.map fun i => (cols.dates.get i, i)).insertionSort Indices.dateLE
  byCell := .index (gridKey cols) cols.ids
  byBorough_built := rfl
  byComplaint_built := rfl
  byDate_built := rfl
  byCell_built := rfl

/-- The store of a list of rows: one append for each, then the indices. -/
def ofRows (rows : List Row311) : PartitionStore := buildIndices (rows.foldl Columns.push .empty)

theorem rows_ofRows (rows : List Row311) : (ofRows rows).rows = rows :=
  Columns.rows_foldl_push rows .empty

/-! ### Lookups -/

variable (store : PartitionStore)

/-- `_date_range` -/
def dateRange (lo hi : UInt32) : List (Fin store.n) :=
  if store.byDate.isEmpty then []
  else
    let out := (window (fun e => e.1 < lo) (fun e => !(hi < e.1)) store.byDate).map Prod.snd
    out.insertionSort (· ≤ ·)

/-- The cells of a box. -/
def boxCells (minLat maxLat minLon maxLon : ℚ) : List (ℤ × ℤ) :=
  Indices.cells (Indices.cell minLat) (Indices.cell maxLat) (Indices.cell minLon)
    (Indices.cell maxLon)

/-- `_geo_box` -/
def geoBox (minLat maxLat minLon maxLon : ℚ) : List (Fin store.n) :=
  if store.byCell.keys = [] ∨ minLat > maxLat ∨ minLon > maxLon then []
  else
    let keys := (boxCells minLat maxLat minLon maxLon).map fun c => cellKey c.1 c.2
    (keys.flatMap store.byCell.rows).insertionSort (· ≤ ·)

theorem rows_borough (b : ℤ) :
    (store.byBorough.lookup b).getD [] =
      store.ids.filter fun i => (store.row i).borough.code = b := by
  have h_rows := Buckets.rows_index (fun i => some (store.boroughs.get i).code) store.ids b
  rw [← store.byBorough_built] at h_rows
  exact h_rows.trans (List.filter_congr fun i _ => decide_eq_decide.mpr Option.some_inj)

theorem rows_complaint (s : Str) :
    (store.byComplaint.lookup s).getD [] =
      store.ids.filter fun i => (store.row i).complaintType = s := by
  have h_rows := Buckets.rows_index (fun i => some (store.complaints.get i)) store.ids s
  rw [← store.byComplaint_built] at h_rows
  exact h_rows.trans (List.filter_congr fun i _ => decide_eq_decide.mpr Option.some_inj)

/-- **The rows within two dates.** -/
theorem dateRange_eq (lo hi : UInt32) :
    store.dateRange lo hi = store.ids.filter fun i =>
      !decide ((store.row i).createdYmd < lo) && !decide (hi < (store.row i).createdYmd) := by
  unfold dateRange
  split
  · next hempty =>
    have h_ids : store.ids = [] := by
      have h_length := congrArg List.length store.byDate_built
      rw [List.isEmpty_iff.mp hempty, List.length_insertionSort, List.length_map] at h_length
      exact List.length_eq_zero_iff.mp h_length.symm
    rw [h_ids, List.filter_nil]
  · rw [store.byDate_built]
    exact Indices.dateWindow_eq store.toColumns lo hi

/-- How many cells of a box have the key of a row's cell. -/
def sharing (minLat maxLat minLon maxLon : ℚ) (r : Row311) : ℕ :=
  (boxCells minLat maxLat minLon maxLon).countP fun c => cellKey c.1 c.2 = rowKey r

/-- How often the grid finds a row for a box. -/
def found (minLat maxLat minLon maxLon : ℚ) (r : Row311) : ℕ :=
  if minLat > maxLat ∨ minLon > maxLon ∨ r.ungeocoded then 0
  else sharing minLat maxLat minLon maxLon r

/-- **The rows in the cells of a box**, once for each cell that has their key. -/
theorem geoBox_eq (minLat maxLat minLon maxLon : ℚ) :
    store.geoBox minLat maxLat minLon maxLon =
      copies (fun i => found minLat maxLat minLon maxLon (store.row i)) store.ids := by
  have h_none : ∀ m : Fin store.n → ℕ, (∀ i, m i = 0) → copies m store.ids = [] := by
    intro m hm
    refine List.flatMap_eq_nil_iff.mpr fun i _ => ?_
    rw [hm i]
    rfl
  unfold geoBox
  split
  · next h =>
    refine (h_none _ fun i => if_pos ?_).symm
    rcases h with h_keys | h_lat | h_lon
    · -- an empty grid has no located row
      rw [store.byCell_built, Buckets.keys_index] at h_keys
      have h_key := h_keys i (store.mem_ids i)
      unfold gridKey at h_key
      split at h_key
      · next hplace => exact Or.inr (Or.inr hplace)
      · exact absurd h_key (by simp)
    · exact Or.inl h_lat
    · exact Or.inr (Or.inl h_lon)
  · next h =>
    obtain ⟨-, h_lat, h_lon⟩ : _ ∧ _ ∧ _ := by simpa only [not_or] using h
    rw [store.byCell_built, Buckets.sort_flatMap_rows store.ids_pairwise]
    refine copies_congr fun i _ => ?_
    rw [List.countP_map]
    unfold found gridKey
    by_cases hplace : (store.row i).ungeocoded = true
    · rw [if_pos hplace, if_pos (Or.inr (Or.inr hplace))]
      exact List.countP_eq_zero.mpr fun c _ => by simp
    · have h_in :
          ¬ (minLat > maxLat ∨ minLon > maxLon ∨ (store.row i).ungeocoded = true) := by
        rintro (h | h | h)
        · exact h_lat h
        · exact h_lon h
        · exact hplace h
      rw [if_neg hplace, if_neg h_in]
      refine List.countP_congr fun c _ => ?_
      simp [eq_comm]

/-- A row in a box lies in a cell of it. -/
theorem sharing_pos {minLat maxLat minLon maxLon : ℚ} {r : Row311}
    (hlat : minLat ≤ r.latitude ∧ r.latitude ≤ maxLat)
    (hlon : minLon ≤ r.longitude ∧ r.longitude ≤ maxLon) :
    1 ≤ sharing minLat maxLat minLon maxLon r := by
  refine List.countP_pos_iff.mpr
    ⟨(Indices.cell r.latitude, Indices.cell r.longitude), ?_, decide_eq_true rfl⟩
  exact Indices.mem_cells.mpr
    ⟨⟨Indices.cell_mono hlat.1, Indices.cell_mono hlat.2⟩,
      Indices.cell_mono hlon.1, Indices.cell_mono hlon.2⟩

end PartitionStore
end Python
end Mini2
