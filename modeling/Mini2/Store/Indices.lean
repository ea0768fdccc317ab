import Mini2.Framework.Postings
import Mini2.Store.Columns

/-!
# Secondary indices

`Indices` holds, for the columns of one partition, the rows of each borough and of
each complaint type, the rows in the order of their dates, and the rows of each
cell of a grid over the coordinates. Each lookup returns a posting list:

* `rows_borough`, `rows_complaint` — exactly the rows with the value.
* `dateRange_eq` — exactly the rows within the dates.
* `geoBox_eq` — the rows in the cells that the box overlaps, less those at (0, 0).

The arithmetic on cells is that of `int32_t`. Where it overflows, or a row count
does not fit 32 bits, the code's behaviour is undefined and the result here none.
-/

namespace Mini2

open Framework

/-- A value of `int32_t`; none for a number that does not fit. -/
def int32 (z : ℤ) : Option ℤ := if -2 ^ 31 ≤ z ∧ z < 2 ^ 31 then some z else none

/-- A computation that needs a number to fit. -/
theorem int32_bind_eq_some {α : Type} {z : ℤ} {f : ℤ → Option α} {a : α} :
    (int32 z >>= f) = some a ↔ (-2 ^ 31 ≤ z ∧ z < 2 ^ 31) ∧ f z = some a := by
  unfold int32
  split
  · next h => exact ⟨fun hf => ⟨h, hf⟩, And.right⟩
  · next h => exact ⟨fun hf => absurd hf (by simp), fun hf => absurd hf.1 h⟩

/-- `Indices`, over the rows of a partition. -/
structure Indices (n : ℕ) where
  byBorough : Buckets Borough (Fin n)
  byComplaint : Buckets Str (Fin n)
  /-- Dates and row ids, in the order of the dates. -/
  byDate : List (UInt32 × Fin n)
  byCell : Buckets ℕ (Fin n)

namespace Indices

/-! ### The grid -/

/-- `GRID_DEG`, the width of a cell in degrees. -/
def gridDeg : ℚ := 1 / 100

/-- The number of the cell of a coordinate. -/
def cell (x : ℚ) : ℤ := ⌊x / gridDeg⌋

theorem cell_mono {x y : ℚ} (h : x ≤ y) : cell x ≤ cell y :=
  Int.floor_le_floor (by unfold gridDeg; linarith)

/-- Pack two numbers of cells, as `uint32_t`, into one key. -/
def pack (la lo : ℤ) : ℕ :=
  ((la + 2 ^ 30) % 2 ^ 32).toNat * 2 ^ 32 + ((lo + 2 ^ 30) % 2 ^ 32).toNat

/-- The key of a cell, if the bias does not overflow. -/
def packKey (la lo : ℤ) : Option ℕ := do
  let _ ← int32 (la + 2 ^ 30)
  let _ ← int32 (lo + 2 ^ 30)
  some (pack la lo)

/-- The key of the cell of a pair of coordinates. -/
def cellKey (lat lon : ℚ) : Option ℕ := do
  let la ← int32 (cell lat)
  let lo ← int32 (cell lon)
  packKey la lo

/-! ### Building -/

variable {n : ℕ}

/-- The order of the date index: by date, then by row id. -/
def dateLE (a b : UInt32 × Fin n) : Prop := if a.1 ≠ b.1 then a.1 < b.1 else a.2 ≤ b.2

instance : DecidableRel (dateLE (n := n)) := fun _ _ => inferInstanceAs (Decidable (ite _ _ _))

/-- Whether the coordinates of a row are the (0, 0) of rows without a location. -/
def ungeocoded (cols : Columns) (i : Fin cols.n) : Bool :=
  cols.lats.get i = 0 && cols.lons.get i = 0

/-- The key of a row in the grid, which leaves out rows without a location. -/
def gridKey (cols : Columns) (i : Fin cols.n) : Option ℕ :=
  if ungeocoded cols i then none else cellKey (cols.lats.get i) (cols.lons.get i)

/-- Build all indices. The loops count rows in 32 bits and never end beyond. -/
def build (cols : Columns) : Option (Indices cols.n) :=
  if cols.n < 2 ^ 32 ∧ ∀ i, ungeocoded cols i = false → (gridKey cols i).isSome then
    some {
      byBorough := .index (fun i => some (cols.boroughs.get i)) cols.ids
      byComplaint := .index (fun i => some (cols.complaints.get i)) cols.ids
      byDate := (cols.ids.map fun i => (cols.dates.get i, i)).insertionSort dateLE
      byCell := .index (gridKey cols) cols.ids }
  else none

/-! ### Lookups -/

variable (idx : Indices n)

/-- The rows of a borough; none if it has no rows. -/
def boroughRows (b : Borough) : Option (List (Fin n)) := idx.byBorough.lookup b

/-- The rows of a complaint type; none if it has no rows. -/
def complaintRows (s : Str) : Option (List (Fin n)) := idx.byComplaint.lookup s

/-- The rows whose date is within the bounds, where zero is no bound. -/
def dateRange (dateFrom dateTo : UInt32) : List (Fin n) :=
  if idx.byDate.isEmpty then []
  else
    let lo := if dateFrom = 0 then 0 else dateFrom
    let hi := if dateTo = 0 then 0xFFFFFFFF else dateTo
    if lo > hi then []
    else
      let out := (window (fun e => e.1 < lo) (fun e => !(hi < e.1)) idx.byDate).map Prod.snd
      out.insertionSort (· ≤ ·)

/-- `max_size` of a vector of row ids, beyond which `reserve` throws. -/
def maxSize : ℕ := 2 ^ 61 - 1

/-- The cells of a rectangle. -/
def cells (la0 la1 lo0 lo1 : ℤ) : List (ℤ × ℤ) := Int.range la0 (la1 + 1) ×ˢ Int.range lo0 (lo1 + 1)

/-- The rows in the cells that overlap a box. -/
def geoBox (minLat maxLat minLon maxLon : ℚ) : Option (List (Fin n)) :=
  if idx.byCell.keys = [] then some []
  else if minLat > maxLat ∨ minLon > maxLon then some []
  else do
    let la0 ← int32 (cell minLat)
    let la1 ← int32 (cell maxLat)
    let lo0 ← int32 (cell minLon)
    let lo1 ← int32 (cell maxLon)
    let avgPerCell := n / idx.byCell.keys.length + 1
    let laCells ← int32 ((← int32 (la1 - la0)) + 1)
    let loCells ← int32 ((← int32 (lo1 - lo0)) + 1)
    let cellsInBox := laCells.toNat * loCells.toNat % 2 ^ 64
    if avgPerCell * cellsInBox % 2 ^ 64 > maxSize then none
    else
      let keys ← (cells la0 la1 lo0 lo1).mapM fun c => packKey c.1 c.2
      some ((keys.flatMap idx.byCell.rows).insertionSort (· ≤ ·))

/-! ### What the lookups return -/

section Built

variable {cols : Columns} {idx : Indices cols.n}

theorem build_eq_some (h : build cols = some idx) :
    (cols.n < 2 ^ 32 ∧ ∀ i, ungeocoded cols i = false → (gridKey cols i).isSome) ∧
      idx.byBorough = .index (fun i => some (cols.boroughs.get i)) cols.ids ∧
      idx.byComplaint = .index (fun i => some (cols.complaints.get i)) cols.ids ∧
      idx.byDate = (cols.ids.map fun i => (cols.dates.get i, i)).insertionSort dateLE ∧
      idx.byCell = .index (gridKey cols) cols.ids := by
  unfold build at h
  split at h
  · next hfits =>
    obtain rfl := Option.some.inj h
    exact ⟨hfits, rfl, rfl, rfl, rfl⟩
  · exact absurd h (by simp)

/-- **A borough's rows.** -/
theorem rows_borough (h : build cols = some idx) (b : Borough) :
    (idx.boroughRows b).getD [] = cols.ids.filter fun i => cols.boroughs.get i = b := by
  obtain ⟨-, h_borough, -⟩ := build_eq_some h
  have h_rows := Buckets.rows_index (fun i => some (cols.boroughs.get i)) cols.ids b
  rw [← h_borough] at h_rows
  simpa [Buckets.rows, boroughRows] using h_rows

/-- **A complaint type's rows.** -/
theorem rows_complaint (h : build cols = some idx) (s : Str) :
    (idx.complaintRows s).getD [] = cols.ids.filter fun i => cols.complaints.get i = s := by
  obtain ⟨-, -, h_complaint, -⟩ := build_eq_some h
  have h_rows := Buckets.rows_index (fun i => some (cols.complaints.get i)) cols.ids s
  rw [← h_complaint] at h_rows
  simpa [Buckets.rows, complaintRows] using h_rows

/-! #### Dates -/

theorem dateLE_iff {a b : UInt32 × Fin n} :
    dateLE a b ↔ a.1.toNat < b.1.toNat ∨ a.1.toNat = b.1.toNat ∧ a.2 ≤ b.2 := by
  have h_eq : a.1.toNat = b.1.toNat ↔ a.1 = b.1 := UInt32.toNat_inj
  unfold dateLE
  split
  · next hne =>
    rw [UInt32.lt_iff_toNat_lt]
    exact ⟨Or.inl, fun h => h.resolve_right fun h => hne (h_eq.mp h.1)⟩
  · next heq =>
    have heq := h_eq.mpr (not_not.mp heq)
    exact ⟨fun h => Or.inr ⟨heq, h⟩, fun h => h.elim (fun h => absurd h heq.not_lt) And.right⟩

instance : Std.Total (dateLE (n := n)) := ⟨fun a b => by
  rw [dateLE_iff, dateLE_iff]
  omega⟩

instance : IsTrans _ (dateLE (n := n)) := ⟨fun a b c hab hbc => by
  rw [dateLE_iff] at *
  omega⟩

/-- A lower bound, with zero read as no bound. -/
theorem dateFrom_ok (dateFrom d : UInt32) :
    (decide (dateFrom = 0) || decide (dateFrom ≤ d)) =
      !decide (d < if dateFrom = 0 then 0 else dateFrom) := by
  have h_zero : ¬ d < 0 := UInt32.not_lt.mpr (UInt32.le_iff_toNat_le.mpr (Nat.zero_le _))
  by_cases h : dateFrom = 0 <;> simp [h, h_zero, ← UInt32.not_lt]

/-- An upper bound, with zero read as no bound. -/
theorem dateTo_ok (dateTo d : UInt32) :
    (decide (dateTo = 0) || decide (d ≤ dateTo)) =
      !decide ((if dateTo = 0 then 0xFFFFFFFF else dateTo) < d) := by
  have h_max : ¬ 0xFFFFFFFF < d :=
    UInt32.not_lt.mpr (UInt32.le_iff_toNat_le.mpr (Nat.le_of_lt_succ d.toNat_lt))
  by_cases h : dateTo = 0 <;> simp [h, h_max, ← UInt32.not_lt]

/-- The date index between two dates, back in the order of the rows. -/
theorem dateWindow_eq (cols : Columns) (lo hi : UInt32) :
    ((window (fun e => decide (e.1 < lo)) (fun e => !decide (hi < e.1))
      ((cols.ids.map fun i => (cols.dates.get i, i)).insertionSort dateLE)).map
        Prod.snd).insertionSort (· ≤ ·) =
      cols.ids.filter fun i =>
        !decide (cols.dates.get i < lo) && !decide (hi < cols.dates.get i) := by
  refine sort_eq_filter cols.ids_pairwise ?_
  have h_le : ∀ a b : UInt32 × Fin cols.n, dateLE a b → a.1.toNat ≤ b.1.toNat :=
    fun a b hab => (dateLE_iff.mp hab).elim le_of_lt fun h => h.1.le
  rw [window_eq_filter (r := dateLE) (fun a b hab hb => ?_) (fun a b hab hb => ?_)
    (List.pairwise_insertionSort dateLE _)]
  · -- sorting by date is a permutation of the rows
    have h_perm := ((List.perm_insertionSort dateLE
      (cols.ids.map fun i => (cols.dates.get i, i))).filter
        fun e => !decide (e.1 < lo) && !decide (hi < e.1)).map Prod.snd
    refine h_perm.trans ?_
    rw [List.filter_map, List.map_map]
    exact (List.map_id _).symm ▸ List.Perm.refl _
  · have := h_le a b hab
    simp only [decide_eq_true_eq, UInt32.lt_iff_toNat_lt] at hb ⊢
    omega
  · have := h_le a b hab
    simp only [Bool.not_eq_true', decide_eq_false_iff_not, UInt32.lt_iff_toNat_lt] at hb ⊢
    omega

/-- **The rows within two dates.** -/
theorem dateRange_eq (h : build cols = some idx) (dateFrom dateTo : UInt32) :
    idx.dateRange dateFrom dateTo = cols.ids.filter fun i =>
      (dateFrom = 0 || dateFrom ≤ cols.dates.get i) &&
        (dateTo = 0 || cols.dates.get i ≤ dateTo) := by
  obtain ⟨-, -, -, h_date, -⟩ := build_eq_some h
  simp only [dateFrom_ok, dateTo_ok]
  unfold dateRange
  split
  · next hempty =>
    -- an empty index is one of no rows
    have h_ids : cols.ids = [] := by
      have h_length := congrArg List.length h_date
      rw [List.isEmpty_iff.mp hempty, List.length_insertionSort, List.length_map] at h_length
      exact List.length_eq_zero_iff.mp h_length.symm
    rw [h_ids, List.filter_nil]
  · generalize (if dateFrom = 0 then 0 else dateFrom) = lo
    generalize (if dateTo = 0 then 0xFFFFFFFF else dateTo) = hi
    dsimp only
    split
    · next hgt =>
      -- no date is within bounds that cross
      refine (List.filter_eq_nil_iff.mpr fun i _ h => ?_).symm
      simp only [Bool.and_eq_true, Bool.not_eq_true', decide_eq_false_iff_not,
        UInt32.lt_iff_toNat_lt] at h hgt
      omega
    · rw [h_date]
      exact dateWindow_eq cols lo hi

/-! #### Boxes -/

/-- The number of a cell for which the bias does not overflow. -/
def Biased (c : ℤ) : Prop := -2 ^ 31 ≤ c ∧ c < 2 ^ 30

theorem packKey_eq_some {la lo : ℤ} (hla : -2 ^ 31 ≤ la) (hlo : -2 ^ 31 ≤ lo) {k : ℕ} :
    packKey la lo = some k ↔ (Biased la ∧ Biased lo) ∧ k = pack la lo := by
  unfold packKey
  rw [int32_bind_eq_some, int32_bind_eq_some, Option.some.injEq, ← and_assoc, eq_comm]
  refine and_congr_left fun _ => ?_
  unfold Biased
  omega

/-- Two cells with the same key are the same. -/
theorem pack_inj {c d : ℤ × ℤ} (h : Biased c.1 ∧ Biased c.2) (h' : Biased d.1 ∧ Biased d.2)
    (heq : pack c.1 c.2 = pack d.1 d.2) : c = d := by
  unfold pack Biased at *
  ext <;> omega

theorem cellKey_eq_some {lat lon : ℚ} {k : ℕ} : cellKey lat lon = some k ↔
    (Biased (cell lat) ∧ Biased (cell lon)) ∧ k = pack (cell lat) (cell lon) := by
  unfold cellKey
  rw [int32_bind_eq_some, int32_bind_eq_some]
  constructor
  · rintro ⟨hla, hlo, h⟩
    exact (packKey_eq_some hla.1 hlo.1).mp h
  · rintro ⟨hbias, h⟩
    refine ⟨?_, ?_, (packKey_eq_some hbias.1.1 hbias.2.1).mpr ⟨hbias, h⟩⟩
    · unfold Biased at hbias
      omega
    · unfold Biased at hbias
      omega

/-- The coordinates are the (0, 0) of rows without a location, or have a key. -/
def OnGrid (r : Row311) : Prop :=
  (r.latitude = 0 ∧ r.longitude = 0) ∨ (Biased (cell r.latitude) ∧ Biased (cell r.longitude))

/-- **When the indices can be built.** -/
theorem build_isSome : (build cols).isSome ↔ cols.n < 2 ^ 32 ∧ ∀ r ∈ cols.rows, OnGrid r := by
  -- a row has a key unless its cell is off the grid
  have h_row : ∀ i, (ungeocoded cols i = false → (gridKey cols i).isSome) ↔
      OnGrid (cols.row i) := by
    intro i
    have h_place : ungeocoded cols i = true ↔
        (cols.row i).latitude = 0 ∧ (cols.row i).longitude = 0 := by
      simp [ungeocoded, Columns.row]
    unfold OnGrid gridKey
    rw [← h_place]
    cases h : ungeocoded cols i with
    | true => simp
    | false =>
      simp only [Option.isSome_iff_exists, cellKey_eq_some, Bool.false_eq_true, if_false, false_or,
        forall_const, exists_and_left, exists_eq, and_true]
      rfl
  unfold build Columns.rows
  rw [List.forall_mem_ofFn_iff]
  split
  · next h => exact iff_of_true rfl ⟨h.1, fun i => (h_row i).mp (h.2 i)⟩
  · next h => exact iff_of_false (by simp) fun h' => h ⟨h'.1, fun i => (h_row i).mpr (h'.2 i)⟩

theorem mem_cells {la0 la1 lo0 lo1 : ℤ} {c : ℤ × ℤ} : c ∈ cells la0 la1 lo0 lo1 ↔
    (la0 ≤ c.1 ∧ c.1 ≤ la1) ∧ lo0 ≤ c.2 ∧ c.2 ≤ lo1 := by
  obtain ⟨la, lo⟩ := c
  rw [cells, List.mem_product, Int.mem_range_iff, Int.mem_range_iff, Int.lt_add_one_iff,
    Int.lt_add_one_iff]

theorem cells_nodup (la0 la1 lo0 lo1 : ℤ) : (cells la0 la1 lo0 lo1).Nodup := by
  have h_range : ∀ a b : ℤ, (Int.range a b).Nodup := fun a b =>
    List.nodup_range.map fun r r' h => by simpa using h
  exact (h_range _ _).product (h_range _ _)

/-- All cells of a rectangle have keys when its corners do. -/
theorem mapM_packKey {l : List (ℤ × ℤ)} (hl : ∀ c ∈ l, -2 ^ 31 ≤ c.1 ∧ -2 ^ 31 ≤ c.2)
    {keys : List ℕ} : l.mapM (fun c => packKey c.1 c.2) = some keys ↔
      (∀ c ∈ l, Biased c.1 ∧ Biased c.2) ∧ keys = l.map fun c => pack c.1 c.2 := by
  induction l generalizing keys with
  | nil => simp [eq_comm]
  | cons c l ih =>
    obtain ⟨h_c, h_l⟩ := List.forall_mem_cons.mp hl
    rw [List.mapM_cons, List.forall_mem_cons, List.map_cons]
    constructor
    · intro h
      obtain ⟨k, hk, h⟩ := Option.bind_eq_some_iff.mp h
      obtain ⟨ks, hks, h⟩ := Option.bind_eq_some_iff.mp h
      obtain ⟨h_bias, rfl⟩ := (packKey_eq_some h_c.1 h_c.2).mp hk
      obtain ⟨h_all, rfl⟩ := (ih h_l).mp hks
      exact ⟨⟨h_bias, h_all⟩, (Option.some.inj h).symm⟩
    · rintro ⟨⟨h_bias, h_all⟩, rfl⟩
      rw [(packKey_eq_some h_c.1 h_c.2).mpr ⟨h_bias, rfl⟩, (ih h_l).mpr ⟨h_all, rfl⟩]
      rfl

/-- A row lies in a cell that overlaps the box. -/
def overlaps (minLat maxLat minLon maxLon : ℚ) (cols : Columns) (i : Fin cols.n) : Bool :=
  (cell minLat ≤ cell (cols.lats.get i) && cell (cols.lats.get i) ≤ cell maxLat) &&
    (cell minLon ≤ cell (cols.lons.get i) && cell (cols.lons.get i) ≤ cell maxLon)

/-- The numbers that `geoBox` computes fit their types. -/
structure BoxFits (idx : Indices n) (minLat maxLat minLon maxLon : ℚ) : Prop where
  lat : -2 ^ 31 ≤ cell minLat ∧ cell maxLat < 2 ^ 30 ∧ cell maxLat - cell minLat + 1 < 2 ^ 31
  lon : -2 ^ 31 ≤ cell minLon ∧ cell maxLon < 2 ^ 30 ∧ cell maxLon - cell minLon + 1 < 2 ^ 31
  room : (n / idx.byCell.keys.length + 1) * ((cell maxLat - cell minLat + 1).toNat *
    (cell maxLon - cell minLon + 1).toNat % 2 ^ 64) % 2 ^ 64 ≤ maxSize

/-- Then the bias does not overflow for any cell of the box. -/
theorem BoxFits.biased {idx : Indices n} {minLat maxLat minLon maxLon : ℚ}
    (h : BoxFits idx minLat maxLat minLon maxLon) :
    ∀ c ∈ cells (cell minLat) (cell maxLat) (cell minLon) (cell maxLon),
      Biased c.1 ∧ Biased c.2 := by
  intro c hc
  obtain ⟨h_lat, h_lon⟩ := mem_cells.mp hc
  exact ⟨⟨h.lat.1.trans h_lat.1, h_lat.2.trans_lt h.lat.2.1⟩,
    h.lon.1.trans h_lon.1, h_lon.2.trans_lt h.lon.2.1⟩

/-- The grid is empty when no row has a location. -/
theorem keys_byCell (h : build cols = some idx) :
    idx.byCell.keys = [] ↔ ∀ i, ungeocoded cols i = true := by
  obtain ⟨⟨-, h_keyed⟩, -, -, -, h_grid⟩ := build_eq_some h
  rw [h_grid, Buckets.keys_index]
  refine ⟨fun h_none i => ?_, fun h_all i _ => if_pos (h_all i)⟩
  by_contra h_place
  have h_some := h_keyed i (Bool.eq_false_iff.mpr h_place)
  rw [h_none i (cols.mem_ids i)] at h_some
  exact absurd h_some (by simp)

/-- The keys of a rectangle of cells find its rows. -/
theorem flatMap_rows_perm (h : build cols = some idx) {la0 la1 lo0 lo1 : ℤ}
    (hbias : ∀ c ∈ cells la0 la1 lo0 lo1, Biased c.1 ∧ Biased c.2) :
    (((cells la0 la1 lo0 lo1).map fun c => pack c.1 c.2).flatMap idx.byCell.rows).Perm
      (cols.ids.filter fun i => !ungeocoded cols i &&
        decide ((cell (cols.lats.get i), cell (cols.lons.get i)) ∈ cells la0 la1 lo0 lo1)) := by
  obtain ⟨⟨-, h_keyed⟩, -, -, -, h_grid⟩ := build_eq_some h
  have h_rows : ∀ k, idx.byCell.rows k = cols.ids.filter fun i => gridKey cols i = some k :=
    fun k => h_grid ▸ Buckets.rows_index (gridKey cols) cols.ids k
  have h_ids : cols.ids.Nodup := cols.ids_pairwise.imp fun h => ne_of_lt h
  refine (List.perm_ext_iff_of_nodup ?_ (h_ids.filter _)).mpr fun i => ?_
  · -- a row has one key only
    refine List.nodup_flatMap.mpr ⟨fun k _ => h_rows k ▸ h_ids.filter _, ?_⟩
    refine ((cells_nodup la0 la1 lo0 lo1).map_on ?_).imp fun {k k'} hne i hi hi' => hne ?_
    · exact fun c hc c' hc' heq => pack_inj (hbias c hc) (hbias c' hc') heq
    · rw [h_rows, List.mem_filter, decide_eq_true_eq] at hi hi'
      exact Option.some.inj (hi.2.symm.trans hi'.2)
  · rw [List.mem_flatMap, List.mem_filter]
    simp only [h_rows, List.mem_filter, decide_eq_true_eq, Bool.and_eq_true, Bool.not_eq_true']
    constructor
    · rintro ⟨k, hk, h_i, h_key⟩
      obtain ⟨c, hc, rfl⟩ := List.mem_map.mp hk
      unfold gridKey at h_key
      split at h_key
      · exact absurd h_key (by simp)
      · next hplace =>
        obtain ⟨h_bias, h_eq⟩ := cellKey_eq_some.mp h_key
        obtain rfl := pack_inj (d := (_, _)) (hbias c hc) h_bias h_eq
        exact ⟨h_i, Bool.eq_false_iff.mpr hplace, hc⟩
    · rintro ⟨h_i, h_place, hc⟩
      refine ⟨_, List.mem_map_of_mem hc, h_i, ?_⟩
      obtain ⟨k, hk⟩ := Option.isSome_iff_exists.mp (h_keyed i h_place)
      unfold gridKey at hk ⊢
      rw [h_place] at hk ⊢
      rw [hk, (cellKey_eq_some.mp hk).2]

/-- A box is looked up if its numbers fit. -/
theorem geoBox_eq_rows {minLat maxLat minLon maxLon : ℚ} (hgrid : idx.byCell.keys ≠ [])
    (hlat : minLat ≤ maxLat) (hlon : minLon ≤ maxLon) {out : List (Fin cols.n)} :
    idx.geoBox minLat maxLat minLon maxLon = some out ↔
      BoxFits idx minLat maxLat minLon maxLon ∧
        out = (((cells (cell minLat) (cell maxLat) (cell minLon) (cell maxLon)).map
          fun c => pack c.1 c.2).flatMap idx.byCell.rows).insertionSort (· ≤ ·) := by
  have h_lat := cell_mono hlat
  have h_lon := cell_mono hlon
  -- no cell of the box lies below the corner where both bounds start
  have h_low : -2 ^ 31 ≤ cell minLat → -2 ^ 31 ≤ cell minLon →
      ∀ c ∈ cells (cell minLat) (cell maxLat) (cell minLon) (cell maxLon),
        -2 ^ 31 ≤ c.1 ∧ -2 ^ 31 ≤ c.2 := fun hla hlo c hc =>
    ⟨hla.trans (mem_cells.mp hc).1.1, hlo.trans (mem_cells.mp hc).2.1⟩
  unfold geoBox
  rw [if_neg hgrid, if_neg (by simp [hlat, hlon])]
  -- the four conversions, and then the four expressions of the sides
  rw [int32_bind_eq_some, int32_bind_eq_some, int32_bind_eq_some, int32_bind_eq_some]
  dsimp only
  rw [int32_bind_eq_some, int32_bind_eq_some, int32_bind_eq_some, int32_bind_eq_some]
  constructor
  · rintro ⟨hla0, hla1, hlo0, hlo1, -, hlas, -, hlos, hrest⟩
    split at hrest
    · exact absurd hrest (by simp)
    next hroom =>
    -- the keys of all cells are packed only if that of the last corner fits
    obtain ⟨keys, hkeys, hrest⟩ := Option.bind_eq_some_iff.mp hrest
    obtain ⟨hbias, rfl⟩ := (mapM_packKey (h_low hla0.1 hlo0.1)).mp hkeys
    obtain ⟨h_top, h_right⟩ :=
      hbias (cell maxLat, cell maxLon) (mem_cells.mpr ⟨⟨h_lat, le_rfl⟩, h_lon, le_rfl⟩)
    exact ⟨⟨⟨hla0.1, h_top.2, hlas.2⟩, ⟨hlo0.1, h_right.2, hlos.2⟩, not_lt.mp hroom⟩,
      (Option.some.inj hrest).symm⟩
  · rintro ⟨h_fits, rfl⟩
    have hbias := h_fits.biased
    obtain ⟨⟨hla0, hla1, hlas⟩, ⟨hlo0, hlo1, hlos⟩, hroom⟩ := h_fits
    -- what fits within the box fits at its bounds
    refine ⟨by omega, by omega, by omega, by omega, by omega, by omega, by omega, by omega, ?_⟩
    rw [if_neg (not_lt.mpr hroom), (mapM_packKey (h_low hla0 hlo0)).mpr ⟨hbias, rfl⟩]
    rfl

/-- **The rows in the cells of a box.** -/
theorem geoBox_eq_some (h : build cols = some idx) {minLat maxLat minLon maxLon : ℚ}
    (hgrid : idx.byCell.keys ≠ []) (hlat : minLat ≤ maxLat) (hlon : minLon ≤ maxLon)
    {out : List (Fin cols.n)} : idx.geoBox minLat maxLat minLon maxLon = some out ↔
      BoxFits idx minLat maxLat minLon maxLon ∧
        out = cols.ids.filter fun i =>
          !ungeocoded cols i && overlaps minLat maxLat minLon maxLon cols i := by
  rw [geoBox_eq_rows hgrid hlat hlon]
  refine and_congr_right fun h_fits => ?_
  -- once all cells have keys, their rows are those that overlap
  rw [sort_eq_filter cols.ids_pairwise (flatMap_rows_perm h h_fits.biased)]
  have h_overlaps : ∀ i, decide ((cell (cols.lats.get i), cell (cols.lons.get i)) ∈
      cells (cell minLat) (cell maxLat) (cell minLon) (cell maxLon)) =
        overlaps minLat maxLat minLon maxLon cols i := by
    intro i
    rw [overlaps, ← Bool.decide_and, ← Bool.decide_and, ← Bool.decide_and]
    exact decide_eq_decide.mpr mem_cells
  simp only [h_overlaps]

end Built

end Indices
end Mini2
