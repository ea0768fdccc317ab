import Mathlib.Tactic.Linarith
import Mini2.Framework.Rounding
import Mini2.Store.PartitionStore

/-!
# The range of the grid

`Indices::geoBox` converts the bounds of a box to numbers of cells and walks the cells
between them in `int32_t`. Nothing restricts the bounds before, so the walk is followed
here step by step (`boxLoops`):

* `boxLoops_eq_some` — the walk meets no overflow exactly if its first cells are not below
  those of the type, and its last ones and the sides of the rectangle leave the bias room.
* `boxLoops_exact_iff` — so with the cells of the code, which rounds the quotient to a
  `double` before it takes the floor (`doubleCell`). A coordinate just below a border is in
  the next cell then, so a side can be longer than the exact one.
* `geoBox_eq_loops` — with exact cells, what `geoBox` returns is what the walk collects.

Within five million degrees the numbers fit, but the size that `geoBox` reserves can still
be more than a vector can have. If it is not, the rows of the box are found
(`geoBox_finds_iff`).
-/

namespace Mini2
namespace Indices

open Framework

/-! ### The walk -/

/-- `for (lo = lo0; lo <= lo1; ++lo)`, from `lo` on; none if a number does not fit. -/
def lonLoop (la lo lo1 : ℤ) : Option (List (ℤ × ℤ)) :=
  if lo ≤ lo1 then do
    let _ ← int32 (la + 2 ^ 30)
    let _ ← int32 (lo + 2 ^ 30)
    let _ ← int32 (lo + 1)
    let rest ← lonLoop la (lo + 1) lo1
    some ((la, lo) :: rest)
  else some []
termination_by (lo1 + 1 - lo).toNat

/-- `for (la = la0; la <= la1; ++la)`, from `la` on; none if a number does not fit. -/
def latLoop (la la1 lo0 lo1 : ℤ) : Option (List (ℤ × ℤ)) :=
  if la ≤ la1 then do
    let row ← lonLoop la lo0 lo1
    let _ ← int32 (la + 1)
    let rest ← latLoop (la + 1) la1 lo0 lo1
    some (row ++ rest)
  else some []
termination_by (la1 + 1 - la).toNat

/-- The cells that `geoBox` looks up for a box, in order, where `cellOf` takes the floor of
the quotient of a bound; none if a number that it computes does not fit an `int32_t`. -/
def boxLoops (cellOf : ℚ → ℤ) (minLat maxLat minLon maxLon : ℚ) : Option (List (ℤ × ℤ)) := do
  let la0 ← int32 (cellOf minLat)
  let la1 ← int32 (cellOf maxLat)
  let lo0 ← int32 (cellOf minLon)
  let lo1 ← int32 (cellOf maxLon)
  let _ ← int32 ((← int32 (la1 - la0)) + 1)
  let _ ← int32 ((← int32 (lo1 - lo0)) + 1)
  latLoop la0 la1 lo0 lo1

/-- The first of a range, and the rest. -/
theorem range_cons {a b : ℤ} (h : a ≤ b) :
    Int.range a (b + 1) = a :: Int.range (a + 1) (b + 1) := by
  unfold Int.range
  obtain ⟨k, hk⟩ : ∃ k : ℕ, b + 1 - a = k + 1 := ⟨(b - a).toNat, by omega⟩
  have h_length : (b + 1 - a).toNat = k + 1 := by omega
  have h_length' : (b + 1 - (a + 1)).toNat = k := by omega
  rw [h_length, h_length', List.range_succ_eq_map, List.map_cons, List.map_map]
  refine congrArg₂ List.cons (by simp) (List.map_congr_left fun i _ => ?_)
  simp only [Function.comp_apply, Nat.cast_succ]
  ring

theorem range_nil {a b : ℤ} (h : b < a) : Int.range a (b + 1) = [] := by
  unfold Int.range
  rw [show (b + 1 - a).toNat = 0 by omega]
  rfl

/-- **The inner loop.** -/
theorem lonLoop_eq_some {la lo lo1 : ℤ} (hla : -2 ^ 31 ≤ la) (hlo : -2 ^ 31 ≤ lo)
    {out : List (ℤ × ℤ)} : lonLoop la lo lo1 = some out ↔
      (lo ≤ lo1 → la < 2 ^ 30 ∧ lo1 < 2 ^ 30) ∧ out = (Int.range lo (lo1 + 1)).map (la, ·) := by
  -- induction on the cells that are left in the row
  induction hk : (lo1 + 1 - lo).toNat generalizing lo out with
  | zero =>
    have h_end : ¬ lo ≤ lo1 := by omega
    rw [lonLoop, if_neg h_end, range_nil (not_le.mp h_end), List.map_nil, Option.some.injEq]
    simp [h_end, eq_comm]
  | succ k ih =>
    have h_more : lo ≤ lo1 := by omega
    rw [lonLoop, if_pos h_more, int32_bind_eq_some, int32_bind_eq_some, int32_bind_eq_some,
      range_cons h_more, List.map_cons]
    constructor
    · rintro ⟨h_la, h_lo, h_next, h⟩
      obtain ⟨rest, h_rest, h_out⟩ := Option.bind_eq_some_iff.mp h
      obtain ⟨h_fits, rfl⟩ := (ih (by omega) (by omega)).mp h_rest
      refine ⟨fun _ => ⟨by omega, ?_⟩, (Option.some.inj h_out).symm⟩
      -- the last cell of the row is this one or a later one
      rcases h_more.lt_or_eq with h_lt | rfl
      · exact (h_fits (by omega)).2
      · omega
    · rintro ⟨h_fits, rfl⟩
      obtain ⟨h_la, h_lo⟩ := h_fits h_more
      refine ⟨by omega, by omega, by omega, Option.bind_eq_some_iff.mpr ⟨_, ?_, rfl⟩⟩
      exact (ih (by omega) (by omega)).mpr ⟨fun _ => ⟨h_la, h_lo⟩, rfl⟩

/-- **The outer loop**, over rows that are not empty. -/
theorem latLoop_eq_some {la la1 lo0 lo1 : ℤ} (hla : -2 ^ 31 ≤ la) (hlo : -2 ^ 31 ≤ lo0)
    (hrow : lo0 ≤ lo1) {out : List (ℤ × ℤ)} : latLoop la la1 lo0 lo1 = some out ↔
      (la ≤ la1 → la1 < 2 ^ 30 ∧ lo1 < 2 ^ 30) ∧ out = cells la la1 lo0 lo1 := by
  -- induction on the rows that are left
  induction hk : (la1 + 1 - la).toNat generalizing la out with
  | zero =>
    have h_end : ¬ la ≤ la1 := by omega
    rw [latLoop, if_neg h_end, cells, range_nil (not_le.mp h_end), Option.some.injEq]
    simp [h_end, eq_comm]
  | succ k ih =>
    have h_more : la ≤ la1 := by omega
    have h_cells : cells la la1 lo0 lo1 =
        (Int.range lo0 (lo1 + 1)).map (la, ·) ++ cells (la + 1) la1 lo0 lo1 := by
      unfold cells
      rw [range_cons h_more]
      rfl
    rw [latLoop, if_pos h_more, h_cells]
    constructor
    · intro h
      obtain ⟨row, h_row, h⟩ := Option.bind_eq_some_iff.mp h
      obtain ⟨h_next, h⟩ := int32_bind_eq_some.mp h
      obtain ⟨rest, h_rest, h_out⟩ := Option.bind_eq_some_iff.mp h
      obtain ⟨h_fits, rfl⟩ := (lonLoop_eq_some hla hlo).mp h_row
      obtain ⟨h_rest_fits, rfl⟩ := (ih (by omega) (by omega)).mp h_rest
      refine ⟨fun _ => ⟨?_, (h_fits hrow).2⟩, (Option.some.inj h_out).symm⟩
      -- the last row is this one or a later one
      rcases h_more.lt_or_eq with h_lt | rfl
      · exact (h_rest_fits (by omega)).1
      · exact (h_fits hrow).1
    · rintro ⟨h_fits, rfl⟩
      obtain ⟨h_la, h_lo⟩ := h_fits h_more
      have h_row : lonLoop la lo0 lo1 = some ((Int.range lo0 (lo1 + 1)).map (la, ·)) :=
        (lonLoop_eq_some hla hlo).mpr ⟨fun _ => ⟨by omega, h_lo⟩, rfl⟩
      have h_rest : latLoop (la + 1) la1 lo0 lo1 = some (cells (la + 1) la1 lo0 lo1) :=
        (ih (by omega) (by omega)).mpr ⟨fun _ => ⟨h_la, h_lo⟩, rfl⟩
      refine Option.bind_eq_some_iff.mpr ⟨_, h_row, int32_bind_eq_some.mpr ⟨by omega, ?_⟩⟩
      exact Option.bind_eq_some_iff.mpr ⟨_, h_rest, rfl⟩

/-- The cells between two bounds fit the arithmetic of the grid. -/
def SideFits (cellOf : ℚ → ℤ) (lo hi : ℚ) : Prop :=
  -2 ^ 31 ≤ cellOf lo ∧ cellOf hi < 2 ^ 30 ∧ cellOf hi - cellOf lo + 1 < 2 ^ 31

/-- What the walk visits, if it meets no overflow. -/
theorem boxLoops_eq_some {cellOf : ℚ → ℤ} (hmono : Monotone cellOf)
    {minLat maxLat minLon maxLon : ℚ} (hlat : minLat ≤ maxLat) (hlon : minLon ≤ maxLon)
    {out : List (ℤ × ℤ)} : boxLoops cellOf minLat maxLat minLon maxLon = some out ↔
      (SideFits cellOf minLat maxLat ∧ SideFits cellOf minLon maxLon) ∧
        out = cells (cellOf minLat) (cellOf maxLat) (cellOf minLon) (cellOf maxLon) := by
  have h_lat := hmono hlat
  have h_lon := hmono hlon
  unfold boxLoops SideFits
  rw [int32_bind_eq_some, int32_bind_eq_some, int32_bind_eq_some, int32_bind_eq_some]
  rw [int32_bind_eq_some, int32_bind_eq_some, int32_bind_eq_some, int32_bind_eq_some]
  constructor
  · rintro ⟨h_la0, h_la1, h_lo0, h_lo1, -, h_las, -, h_los, h⟩
    obtain ⟨h_fits, h_out⟩ := (latLoop_eq_some h_la0.1 h_lo0.1 h_lon).mp h
    obtain ⟨h_top, h_right⟩ := h_fits h_lat
    exact ⟨⟨⟨h_la0.1, h_top, h_las.2⟩, h_lo0.1, h_right, h_los.2⟩, h_out⟩
  · rintro ⟨⟨⟨h_la0, h_la1, h_las⟩, h_lo0, h_lo1, h_los⟩, h_out⟩
    -- the eight conversions and sizes fit, and so does the walk
    refine ⟨by omega, by omega, by omega, by omega, by omega, by omega, by omega, by omega, ?_⟩
    exact (latLoop_eq_some h_la0 h_lo0 h_lon).mpr ⟨fun _ => ⟨h_la1, h_lo1⟩, h_out⟩

/-! ### Moderate coordinates -/

/-- A coordinate within five million degrees. -/
def Moderate (x : ℚ) : Prop := |x| ≤ 5000000

/-- It has a number far from the ends of `int32_t`. -/
theorem Moderate.cell_bounds {x : ℚ} (h : Moderate x) :
    -500000000 ≤ cell x ∧ cell x ≤ 500000000 := by
  obtain ⟨h_low, h_high⟩ := abs_le.mp h
  unfold cell gridDeg
  rw [Int.le_floor, ← Int.lt_add_one_iff, Int.floor_lt]
  push_cast
  constructor <;> linarith

theorem Moderate.sideFits {lo hi : ℚ} (hlo : Moderate lo) (hhi : Moderate hi) :
    SideFits cell lo hi := by
  have h_lo := hlo.cell_bounds
  have h_hi := hhi.cell_bounds
  unfold SideFits
  omega

/-! ### Double precision -/

/-- `GRID_DEG` as the code has it: the double nearest to `0.01`. -/
def gridDouble : ℚ := binary64.round gridDeg

/-- The number of the cell of a coordinate in `double`: the quotient is rounded before the
floor is taken. -/
def doubleCell (x : ℚ) : ℤ := ⌊binary64.round (x / gridDouble)⌋

theorem gridDouble_eq : gridDouble = 5764607523034235 / 2 ^ 59 := by decide +kernel

theorem doubleCell_mono : Monotone doubleCell := by
  intro x y h
  have h_pos : 0 ≤ gridDouble := by rw [gridDouble_eq]; norm_num
  exact Int.floor_le_floor (FloatFormat.round_mono (div_le_div_of_nonneg_right h h_pos))

/-- At a border of the grid, the rounding counts. -/
example : cell (binary64.round (404 / 10)) = 4039 ∧
    doubleCell (binary64.round (404 / 10)) = 4040 := by decide +kernel

/-- An integer below the rounded quotient is one below the cell, and a half above it is one
above. -/
theorem le_doubleCell {x : ℚ} {c : ℤ} (hc : |c| < 2 ^ 53) (h : c ≤ x / gridDouble) :
    c ≤ doubleCell x := by
  have h_round := FloatFormat.round_mono (F := binary64) h
  rw [FloatFormat.round_intCast hc (by decide)] at h_round
  exact Int.le_floor.mpr h_round

theorem doubleCell_le {x : ℚ} {c : ℤ} (hc : |2 * c + 1| < 2 ^ 53)
    (h : x / gridDouble ≤ c + 1 / 2) : doubleCell x ≤ c := by
  have h_half : (c + 1 / 2 : ℚ) = (2 * c + 1 : ℤ) * 2 ^ (-1 : ℤ) := by
    push_cast
    ring
  have h_round := FloatFormat.round_mono (F := binary64) h
  rw [h_half, FloatFormat.round_eq_self hc (by decide), ← h_half] at h_round
  refine Int.lt_add_one_iff.mp (Int.floor_lt.mpr ?_)
  push_cast
  linarith

/-- **The code's cell is the exact one or one next to it.** -/
theorem Moderate.doubleCell_near {x : ℚ} (h : Moderate x) :
    cell x - 1 ≤ doubleCell x ∧ doubleCell x ≤ cell x + 1 := by
  obtain ⟨h_low, h_high⟩ := abs_le.mp h
  have h_bounds := h.cell_bounds
  have h_floor : (cell x : ℚ) ≤ x / gridDeg := Int.floor_le _
  have h_next : x / gridDeg < cell x + 1 := Int.lt_floor_add_one _
  -- `GRID_DEG` is so near to `0.01` that the quotients differ by less than a half
  have h_quotient : x / gridDouble = x * (2 ^ 59 / 5764607523034235) := by
    rw [gridDouble_eq, div_div_eq_mul_div, mul_div_assoc]
  unfold gridDeg at h_floor h_next
  constructor
  · refine le_doubleCell (abs_lt.mpr ⟨by omega, by omega⟩) ?_
    rw [h_quotient]
    push_cast
    linarith
  · refine doubleCell_le (abs_lt.mpr ⟨by omega, by omega⟩) ?_
    rw [h_quotient]
    push_cast
    linarith

theorem Moderate.sideFits_double {lo hi : ℚ} (hlo : Moderate lo) (hhi : Moderate hi) :
    SideFits doubleCell lo hi := by
  have h_lo := hlo.cell_bounds
  have h_hi := hhi.cell_bounds
  have h_lo_near := hlo.doubleCell_near
  have h_hi_near := hhi.doubleCell_near
  unfold SideFits
  omega

/-- A query for New York and its surroundings. -/
def cityQuery : QuerySpec := ⟨0, [], 0, 0, 40, 41, -75, -73, true, 0⟩

/-- A query for everywhere, as a client may write it. -/
def everywhereQuery : QuerySpec :=
  ⟨0, [], 0, 0, -1000000000, 1000000000, -1000000000, 1000000000, true, 0⟩

variable {n : ℕ}

/-- The size that `geoBox` reserves, a `std::size_t`. -/
def reserved (idx : Indices n) (minLat maxLat minLon maxLon : ℚ) : ℕ :=
  (n / idx.byCell.keys.length + 1) * ((cell maxLat - cell minLat + 1).toNat *
    (cell maxLon - cell minLon + 1).toNat % 2 ^ 64) % 2 ^ 64

theorem boxFits_iff {idx : Indices n} {minLat maxLat minLon maxLon : ℚ} :
    BoxFits idx minLat maxLat minLon maxLon ↔
      (SideFits cell minLat maxLat ∧ SideFits cell minLon maxLon) ∧
        reserved idx minLat maxLat minLon maxLon ≤ maxSize :=
  ⟨fun h => ⟨⟨h.lat, h.lon⟩, h.room⟩, fun h => ⟨h.1.1, h.1.2, h.2⟩⟩

section Built

variable {cols : Columns} {idx : Indices cols.n} {minLat maxLat minLon maxLon : ℚ}

/-- **`geoBox` walks over the box**: it returns the rows of the cells on the way, in the
order of their ids. -/
theorem geoBox_eq_loops (hgrid : idx.byCell.keys ≠ []) (hlat : minLat ≤ maxLat)
    (hlon : minLon ≤ maxLon) : idx.geoBox minLat maxLat minLon maxLon =
      if reserved idx minLat maxLat minLon maxLon > maxSize then none
      else (boxLoops cell minLat maxLat minLon maxLon).map fun visited =>
        (visited.flatMap fun c => idx.byCell.rows (pack c.1 c.2)).insertionSort (· ≤ ·) := by
  refine Option.ext fun out => ?_
  rw [geoBox_eq_rows hgrid hlat hlon, boxFits_iff, List.flatMap_map]
  -- `reserve` comes before the loops
  by_cases h_room : reserved idx minLat maxLat minLon maxLon > maxSize
  · rw [if_pos h_room]
    simp [not_le.mpr h_room]
  · rw [if_neg h_room, Option.map_eq_some_iff]
    constructor
    · rintro ⟨⟨h_sides, -⟩, rfl⟩
      exact ⟨_, (boxLoops_eq_some (fun _ _ => cell_mono) hlat hlon).mpr ⟨h_sides, rfl⟩, rfl⟩
    · rintro ⟨visited, h_walk, rfl⟩
      obtain ⟨h_sides, rfl⟩ := (boxLoops_eq_some (fun _ _ => cell_mono) hlat hlon).mp h_walk
      exact ⟨⟨h_sides, not_lt.mp h_room⟩, rfl⟩

/-! ### The rows of a box -/

/-- The row lies in the closed box. -/
def InBox (minLat maxLat minLon maxLon : ℚ) (r : Row311) : Prop :=
  (minLat ≤ r.latitude ∧ r.latitude ≤ maxLat) ∧ minLon ≤ r.longitude ∧ r.longitude ≤ maxLon

/-- A point of the box lies in the cell of the row. -/
def CellOverlaps (minLat maxLat minLon maxLon : ℚ) (r : Row311) : Prop :=
  (∃ lat, cell lat = cell r.latitude ∧ minLat ≤ lat ∧ lat ≤ maxLat) ∧
    ∃ lon, cell lon = cell r.longitude ∧ minLon ≤ lon ∧ lon ≤ maxLon

/-- What a lookup of the box is to return: row ids in strictly ascending order, all rows
of the box but those without a location, and only rows whose cell overlaps the box. -/
structure FindsBox (cols : Columns) (minLat maxLat minLon maxLon : ℚ) (out : List (Fin cols.n)) :
    Prop where
  ascending : out.Pairwise (· < ·)
  complete : ∀ i, InBox minLat maxLat minLon maxLon (cols.row i) →
    ¬ ((cols.row i).latitude = 0 ∧ (cols.row i).longitude = 0) → i ∈ out
  sound : ∀ i ∈ out, CellOverlaps minLat maxLat minLon maxLon (cols.row i)

/-- The cells between two bounds are the cells of the coordinates between them. -/
theorem exists_cell_iff {lo hi : ℚ} (h : lo ≤ hi) {c : ℤ} :
    (∃ x, cell x = c ∧ lo ≤ x ∧ x ≤ hi) ↔ cell lo ≤ c ∧ c ≤ cell hi := by
  constructor
  · rintro ⟨x, rfl, h_lo, h_hi⟩
    exact ⟨cell_mono h_lo, cell_mono h_hi⟩
  · rintro ⟨h_lo, h_hi⟩
    have h_corner : cell (c * gridDeg) = c := by
      unfold cell gridDeg
      rw [mul_div_assoc, div_self (by norm_num), mul_one, Int.floor_intCast]
    have h_max : cell (max lo (c * gridDeg)) = max (cell lo) (cell (c * gridDeg)) :=
      Monotone.map_max fun _ _ => cell_mono
    -- the corner of the cell, or the bound if that is further
    refine ⟨max lo (c * gridDeg), ?_, le_max_left _ _, max_le h ?_⟩
    · rw [h_max, h_corner, max_eq_right h_lo]
    · have h_floor := Int.le_floor.mp h_hi
      unfold gridDeg at h_floor ⊢
      linarith

theorem overlaps_iff (hlat : minLat ≤ maxLat) (hlon : minLon ≤ maxLon) {i : Fin cols.n} :
    overlaps minLat maxLat minLon maxLon cols i = true ↔
      CellOverlaps minLat maxLat minLon maxLon (cols.row i) := by
  unfold overlaps CellOverlaps
  rw [exists_cell_iff hlat, exists_cell_iff hlon]
  simp only [Bool.and_eq_true, decide_eq_true_eq]
  rfl

/-- A lookup that goes through finds the rows of the box. -/
theorem findsBox_filter (hlat : minLat ≤ maxLat) (hlon : minLon ≤ maxLon) :
    FindsBox cols minLat maxLat minLon maxLon (cols.ids.filter fun i =>
      !ungeocoded cols i && overlaps minLat maxLat minLon maxLon cols i) where
  ascending := cols.ids_pairwise.filter _
  complete i hbox hplace := by
    -- a row of the box is on the grid, unless it is the one place that is left out
    have h_place : ungeocoded cols i = false := by
      rw [Bool.eq_false_iff]
      intro h
      exact hplace (by simpa [ungeocoded, Columns.row] using h)
    have h_overlaps : overlaps minLat maxLat minLon maxLon cols i = true :=
      (overlaps_iff hlat hlon).mpr ⟨⟨_, rfl, hbox.1⟩, _, rfl, hbox.2⟩
    exact List.mem_filter.mpr ⟨cols.mem_ids i, by simp [h_place, h_overlaps]⟩
  sound i hi := by
    have h_hit := (List.mem_filter.mp hi).2
    exact (overlaps_iff hlat hlon).mp (Bool.and_eq_true_iff.mp h_hit).2

/-- Without a row on the grid, a cell counts as one row. -/
theorem reserved_le (hbox : (Moderate minLat ∧ Moderate maxLat) ∧ Moderate minLon ∧ Moderate maxLon)
    (hempty : idx.byCell.keys = []) : reserved idx minLat maxLat minLon maxLon ≤ maxSize := by
  have h_minLat := hbox.1.1.cell_bounds
  have h_maxLat := hbox.1.2.cell_bounds
  have h_minLon := hbox.2.1.cell_bounds
  have h_maxLon := hbox.2.2.cell_bounds
  have h_rows : (cell maxLat - cell minLat + 1).toNat ≤ 1000000001 := by omega
  have h_cols : (cell maxLon - cell minLon + 1).toNat ≤ 1000000001 := by omega
  rw [reserved, hempty, List.length_nil, Nat.div_zero, Nat.zero_add, Nat.one_mul, Nat.mod_mod]
  calc _ ≤ _ := Nat.mod_le _ _
    _ ≤ 1000000001 * 1000000001 := Nat.mul_le_mul h_rows h_cols
    _ ≤ maxSize := by unfold maxSize; norm_num

/-- **The grid loses no row**, for moderate coordinates and bounds, if and only if the size
that `geoBox` reserves is one that a vector can have. -/
theorem geoBox_finds_iff (cols : Columns) (hn : cols.n < 2 ^ 32)
    (hrows : ∀ i, Moderate (cols.row i).latitude ∧ Moderate (cols.row i).longitude)
    (hbox : (Moderate minLat ∧ Moderate maxLat) ∧ Moderate minLon ∧ Moderate maxLon)
    (hlat : minLat ≤ maxLat) (hlon : minLon ≤ maxLon) :
    ∃ idx, build cols = some idx ∧
      ((∃ out, idx.geoBox minLat maxLat minLon maxLon = some out ∧
          FindsBox cols minLat maxLat minLon maxLon out) ↔
        reserved idx minLat maxLat minLon maxLon ≤ maxSize) := by
  have h_grid : ∀ r ∈ cols.rows, OnGrid r := by
    intro r hr
    obtain ⟨i, rfl⟩ := List.mem_ofFn.mp hr
    have h_lat := (hrows i).1.cell_bounds
    have h_lon := (hrows i).2.cell_bounds
    refine Or.inr ⟨?_, ?_⟩ <;> unfold Biased <;> omega
  obtain ⟨idx, h_build⟩ := Option.isSome_iff_exists.mp (build_isSome.mpr ⟨hn, h_grid⟩)
  refine ⟨idx, h_build, ?_⟩
  by_cases h_empty : idx.byCell.keys = []
  · refine iff_of_true ⟨[], ?_, .nil, fun i _ h_place => ?_, by simp⟩ ?_
    · rw [geoBox, if_pos h_empty]
    · -- a grid without cells is one of rows without a location
      have h_none := (keys_byCell h_build).mp h_empty i
      exact absurd (by simpa [ungeocoded, Columns.row] using h_none) h_place
    · exact reserved_le hbox h_empty
  · have h_fits : BoxFits idx minLat maxLat minLon maxLon ↔ _ :=
      boxFits_iff.trans (and_iff_right ⟨hbox.1.1.sideFits hbox.1.2, hbox.2.1.sideFits hbox.2.2⟩)
    rw [← h_fits]
    constructor
    · rintro ⟨out, h_out, -⟩
      exact ((geoBox_eq_some h_build h_empty hlat hlon).mp h_out).1
    · intro h_fits
      exact ⟨_, (geoBox_eq_some h_build h_empty hlat hlon).mpr ⟨h_fits, rfl⟩,
        findsBox_filter hlat hlon⟩

end Built

/-- Three rows at one place. -/
def crowdedColumns : Columns where
  n := 3
  keys := #v[11, 12, 13]
  dates := #v[20230101, 20230101, 20230101]
  boroughs := #v[.queens, .queens, .queens]
  lats := #v[1, 1, 1]
  lons := #v[1, 1, 1]
  complaints := #v["Noise".toList, "Noise".toList, "Noise".toList]

theorem crowded_moderate (i : Fin crowdedColumns.n) :
    Moderate (crowdedColumns.row i).latitude ∧ Moderate (crowdedColumns.row i).longitude := by
  unfold Moderate
  revert i
  decide +kernel

theorem crowded_keys {idx : Indices crowdedColumns.n} (h : build crowdedColumns = some idx) :
    idx.byCell.keys.length = 1 := by
  obtain ⟨-, -, -, -, h_grid⟩ := build_eq_some h
  rw [h_grid]
  decide +kernel

/-- A box of four square degrees around them finds them. -/
theorem crowded_found : ∃ idx out, build crowdedColumns = some idx ∧
    idx.geoBox 0 2 0 2 = some out ∧ FindsBox crowdedColumns 0 2 0 2 out := by
  have h_box : (Moderate 0 ∧ Moderate 2) ∧ Moderate 0 ∧ Moderate 2 := by
    unfold Moderate
    decide +kernel
  obtain ⟨idx, h_build, h_iff⟩ := geoBox_finds_iff crowdedColumns (by decide) crowded_moderate
    h_box (by norm_num) (by norm_num)
  obtain ⟨out, h_out, h_finds⟩ := h_iff.mpr (by
    rw [reserved, crowded_keys h_build]
    decide +kernel)
  exact ⟨idx, out, h_build, h_out, h_finds⟩

/-- A box of ten million degrees each way asks for more room than there is. -/
theorem crowded_lost : (crowdedColumns.n < 2 ^ 32 ∧ ∀ i,
      Moderate (crowdedColumns.row i).latitude ∧ Moderate (crowdedColumns.row i).longitude) ∧
    (Moderate (-5000000) ∧ Moderate 5000000) ∧
    ¬ ∃ idx out, build crowdedColumns = some idx ∧
      idx.geoBox (-5000000) 5000000 (-5000000) 5000000 = some out := by
  refine ⟨⟨by decide, crowded_moderate⟩, by unfold Moderate; decide +kernel, ?_⟩
  rintro ⟨idx, out, h_build, h_out⟩
  have h_keys := crowded_keys h_build
  -- the three rows are on the grid, so the lookup comes to `reserve`
  have h_some : idx.byCell.keys ≠ [] := by
    intro h
    rw [h] at h_keys
    exact absurd h_keys (by decide)
  obtain ⟨h_fits, -⟩ := (geoBox_eq_some h_build h_some (by norm_num) (by norm_num)).mp h_out
  have h_room := h_fits.room
  rw [h_keys] at h_room
  revert h_room
  decide +kernel

end Indices
end Mini2
