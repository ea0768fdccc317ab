import Mini2.Data.Record311

/-!
# Columns

The columns of a partition, one vector for each field, all of the same length. A
row id is a number below that length.
-/

namespace Mini2

/-- The columns of `PartitionStore`. -/
structure Columns where
  n : ℕ
  keys : Vector UInt64 n
  dates : Vector UInt32 n
  boroughs : Vector Borough n
  lats : Vector ℚ n
  lons : Vector ℚ n
  complaints : Vector Str n

namespace Columns

def empty : Columns := ⟨0, #v[], #v[], #v[], #v[], #v[], #v[]⟩

variable (cols : Columns)

/-- One `push_back` on each column. -/
def push (r : Row311) : Columns where
  n := cols.n + 1
  keys := cols.keys.push r.uniqueKey
  dates := cols.dates.push r.createdYmd
  boroughs := cols.boroughs.push r.borough
  lats := cols.lats.push r.latitude
  lons := cols.lons.push r.longitude
  complaints := cols.complaints.push r.complaintType

/-- The row with the id `i`. -/
def row (i : Fin cols.n) : Row311 where
  uniqueKey := cols.keys.get i
  createdYmd := cols.dates.get i
  borough := cols.boroughs.get i
  latitude := cols.lats.get i
  longitude := cols.lons.get i
  complaintType := cols.complaints.get i

/-- The ids of all rows, in ascending order. -/
def ids : List (Fin cols.n) := List.finRange cols.n

/-- All rows. -/
def rows : List Row311 := List.ofFn cols.row

theorem ids_pairwise : cols.ids.Pairwise (· < ·) := (List.sortedLT_finRange _).pairwise

theorem mem_ids (i : Fin cols.n) : i ∈ cols.ids := List.mem_finRange i

theorem rows_eq_map : cols.rows = cols.ids.map cols.row := List.ofFn_eq_map

theorem getElem_push_castSucc {α : Type*} {n : ℕ} (v : Vector α n) (a : α) (i : Fin n) :
    (v.push a)[i.castSucc] = v[i] := Vector.getElem_push_lt i.2

theorem getElem_push_last {α : Type*} {n : ℕ} (v : Vector α n) (a : α) :
    (v.push a)[Fin.last n] = a := Vector.getElem_push_last

theorem row_push_castSucc (r : Row311) (i : Fin cols.n) :
    (cols.push r).row i.castSucc = cols.row i :=
  Row311.ext (getElem_push_castSucc _ _ i) (getElem_push_castSucc _ _ i)
    (getElem_push_castSucc _ _ i) (getElem_push_castSucc _ _ i) (getElem_push_castSucc _ _ i)
    (getElem_push_castSucc _ _ i)

theorem row_push_last (r : Row311) : (cols.push r).row (Fin.last cols.n) = r :=
  Row311.ext (getElem_push_last _ _) (getElem_push_last _ _) (getElem_push_last _ _)
    (getElem_push_last _ _) (getElem_push_last _ _) (getElem_push_last _ _)

theorem rows_push (r : Row311) : (cols.push r).rows = cols.rows ++ [r] := by
  have h_rows : (cols.push r).rows =
      List.ofFn (fun i : Fin cols.n => (cols.push r).row i.castSucc) ++
        [(cols.push r).row (Fin.last cols.n)] := List.ofFn_succ_last
  rw [h_rows, row_push_last, funext (cols.row_push_castSucc r)]
  rfl

/-- Pushing rows one by one appends them. -/
theorem rows_foldl_push (rows : List Row311) (cols : Columns) :
    (rows.foldl push cols).rows = cols.rows ++ rows := by
  -- induction on the rows that are left, for any columns so far
  induction rows generalizing cols with
  | nil => exact (List.append_nil _).symm
  | cons r rows ih => rw [List.foldl_cons, ih, rows_push, List.append_assoc, List.singleton_append]

/-! ### Columns from rows -/

theorem ofFn_getElem {α : Type*} {n : ℕ} (v : Vector α n) :
    List.ofFn (fun i : Fin n => v[i]) = v.toList := by
  rw [← Vector.toList_ofFn]
  exact congrArg Vector.toList Vector.ofFn_getElem

theorem keys_toList : cols.keys.toList = cols.rows.map Row311.uniqueKey := by
  rw [← ofFn_getElem, rows, List.map_ofFn]
  rfl

theorem dates_toList : cols.dates.toList = cols.rows.map Row311.createdYmd := by
  rw [← ofFn_getElem, rows, List.map_ofFn]
  rfl

theorem boroughs_toList : cols.boroughs.toList = cols.rows.map Row311.borough := by
  rw [← ofFn_getElem, rows, List.map_ofFn]
  rfl

theorem complaints_toList : cols.complaints.toList = cols.rows.map Row311.complaintType := by
  rw [← ofFn_getElem, rows, List.map_ofFn]
  rfl

theorem length_rows : cols.rows.length = cols.n := List.length_ofFn

end Columns
end Mini2
