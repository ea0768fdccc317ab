import Mini2.Store.Csv
import Mini2.Store.Indices

/-!
# The partition of a node

`PartitionStore::load` reads a partition file into columns and builds the indices
over them. The partition files come from scripts that write a fixed header and
one row for each record (`partitionFile`).

* `loadLine_record` — what a record comes back as: the CR before each line end
  keeps the last header field from being recognized, so no line has a complaint
  type.
* `roundTrips_iff` — hence a partition file comes back as it was written exactly
  if its records have no complaint types.
-/

namespace Mini2

/-! ### Loading -/

/-- Which field of a line holds which column. -/
structure ColMap where
  uniqueKey : Option ℕ
  created : Option ℕ
  complaint : Option ℕ
  borough : Option ℕ
  lat : Option ℕ
  lon : Option ℕ
  createdIsYmd : Bool
  deriving DecidableEq

namespace ColMap

/-- Field `i` of the header is `h`. -/
def set (m : ColMap) (h : Str) (i : ℕ) : ColMap :=
  if h = "unique_key".toList ∨ h = "Unique Key".toList then { m with uniqueKey := some i }
  else if h = "created_ymd".toList then { m with created := some i, createdIsYmd := true }
  else if h = "created_date".toList ∨ h = "Created Date".toList then { m with created := some i }
  else if h = "complaint_type".toList ∨ h = "Complaint Type".toList then
    { m with complaint := some i }
  else if h = "borough".toList ∨ h = "Borough".toList then { m with borough := some i }
  else if h = "latitude".toList ∨ h = "Latitude".toList then { m with lat := some i }
  else if h = "longitude".toList ∨ h = "Longitude".toList then { m with lon := some i }
  else m

def detect (hdr : List Str) : ColMap :=
  hdr.zipIdx.foldl (fun m x => m.set x.1 x.2) ⟨none, none, none, none, none, none, false⟩

end ColMap

def parseDateAny (s : Str) (alreadyYmd : Bool) : UInt32 :=
  if s.isEmpty then 0 else if alreadyYmd then UInt32.ofNat (strtoull s) else parseYmd s

def parseU64Safe (s : Str) : UInt64 := if s.isEmpty then 0 else UInt64.ofNat (strtoull s)

/-- `strtod` is none where it converts nothing. -/
def parseDoubleSafe (strtod : Str → Option ℚ) (s : Str) : ℚ :=
  if s.isEmpty then 0 else (strtod s).getD 0

/-- The field of a column, where the line has it. -/
def fieldAt (fields : List Str) (col : Option ℕ) : Option Str := col.bind fun i => fields[i]?

/-- The row that a line yields; none for a line that is skipped. -/
def loadLine (strtod : Str → Option ℚ) (cm : ColMap) (line : Str) : Option Row311 := do
  if line.isEmpty then none
  let fields := splitCsv line
  let keyText ← fieldAt fields cm.uniqueKey
  let dateText ← fieldAt fields cm.created
  if parseU64Safe keyText = 0 then none
  some {
    uniqueKey := parseU64Safe keyText
    createdYmd := parseDateAny dateText cm.createdIsYmd
    borough := (fieldAt fields cm.borough).elim .unspecified boroughFromString
    latitude := (fieldAt fields cm.lat).elim 0 (parseDoubleSafe strtod)
    longitude := (fieldAt fields cm.lon).elim 0 (parseDoubleSafe strtod)
    complaintType := (fieldAt fields cm.complaint).getD [] }

/-- The columns of the lines after the header. -/
def loadColumns (strtod : Str → Option ℚ) (cm : ColMap) (body : List Str) : Columns :=
  body.foldl (fun cols line => (loadLine strtod cm line).elim cols cols.push) .empty

/-- `PartitionStore`, with the indices built from its columns. -/
structure PartitionStore extends Columns where
  indices : Indices n
  built : Indices.build toColumns = some indices

namespace PartitionStore

/-- A store without rows. -/
def empty : PartitionStore where
  toColumns := .empty
  indices := ⟨∅, ∅, [], ∅⟩
  built := rfl

/-- Build the indices, if that ends. -/
def ofColumns (cols : Columns) : Option PartitionStore :=
  match h : Indices.build cols with
  | some indices => some ⟨cols, indices, h⟩
  | none => none

theorem ofColumns_eq_some {cols : Columns} {store : PartitionStore} :
    ofColumns cols = some store ↔ store.toColumns = cols := by
  obtain ⟨cols', indices', built⟩ := store
  unfold ofColumns
  split
  · next indices h =>
    constructor
    · intro heq
      exact congrArg PartitionStore.toColumns (Option.some.inj heq).symm
    · intro heq
      obtain rfl : cols' = cols := heq
      -- the columns determine the indices
      obtain rfl := Option.some.inj (h.symm.trans built)
      rfl
  · next h =>
    refine iff_of_false (by simp) fun heq => ?_
    obtain rfl : cols' = cols := heq
    exact absurd (h.symm.trans built) (by simp)

/-- Load a file, if there is one. None where building the indices does not end, or
is undefined; an exception is its text. -/
def load (strtod : Str → Option ℚ) (path : Str) (file : Option Str) :
    Option (Except Str PartitionStore) :=
  match file.map lines with
  | none => some (.ok .empty)
  | some [] => some (.ok .empty)
  | some (header :: body) =>
    let cm := ColMap.detect (splitCsv header)
    if cm.uniqueKey = none ∨ cm.created = none then
      some (.error ("PartitionStore: header missing required columns in ".toList ++ path))
    else (ofColumns (loadColumns strtod cm body)).map .ok

end PartitionStore

/-! ### Partition files -/

/-- A record, as the scripts get it. -/
structure Record where
  key : UInt64
  date : UInt32
  borough : Borough
  latitude : Str
  longitude : Str
  complaint : Str
  key_ne : key ≠ 0
  latitude_plain : Plain latitude
  longitude_plain : Plain longitude
  complaint_plain : Plain complaint

/-- The name of a borough in a partition file, or nothing. -/
def boroughName : Borough → Str
  | .unspecified => []
  | .manhattan => "MANHATTAN".toList
  | .brooklyn => "BROOKLYN".toList
  | .queens => "QUEENS".toList
  | .bronx => "BRONX".toList
  | .statenIsland => "STATEN ISLAND".toList

theorem plain_boroughName (b : Borough) : Plain (boroughName b) := by
  cases b <;> decide

theorem plain_toDec (n : ℕ) : Plain (toDec n) := by
  intro c hc
  have h_digit := isDigit_of_mem_toDec hc
  refine ⟨?_, ?_, ?_⟩ <;> rintro rfl <;> exact absurd h_digit (by decide)

/-- `_HEADER_CANON` -/
def headerCanon : List Str :=
  ["unique_key".toList, "created_ymd".toList, "borough".toList, "latitude".toList,
    "longitude".toList, "complaint_type".toList]

namespace Record

variable (r : Record)

/-- The fields of a record before its complaint type. -/
def front : List Str :=
  [toDec r.key.toNat, toDec r.date.toNat, boroughName r.borough, r.latitude, r.longitude]

/-- What the scripts pass to `writerow`. -/
def fields : List Str := r.front ++ [r.complaint]

theorem front_plain : ∀ f ∈ r.front, Plain f := by
  simp only [front, List.forall_mem_cons]
  exact ⟨plain_toDec _, plain_toDec _, plain_boroughName _, r.latitude_plain,
    r.longitude_plain, fun _ h => absurd h List.not_mem_nil⟩

theorem fields_plain : ∀ f ∈ r.fields, Plain f := by
  intro f hf
  rcases List.mem_append.mp hf with hf | hf
  · exact r.front_plain f hf
  · exact List.mem_singleton.mp hf ▸ r.complaint_plain

/-- The row that a record comes back as. -/
def loaded (strtod : Str → Option ℚ) : Row311 where
  uniqueKey := r.key
  createdYmd := r.date
  borough := r.borough
  latitude := parseDoubleSafe strtod r.latitude
  longitude := parseDoubleSafe strtod r.longitude
  complaintType := []

end Record

/-- A partition file, as both scripts write it. -/
def partitionFile (rs : List Record) : Str :=
  writerow headerCanon ++ rs.flatMap fun r => writerow r.fields

/-- What `detect` makes of the header of a partition file: the last of its fields
ends with a CR. -/
def canonMap : ColMap where
  uniqueKey := some 0
  created := some 1
  complaint := none
  borough := some 2
  lat := some 3
  lon := some 4
  createdIsYmd := true

theorem detect_headerCanon :
    ColMap.detect (splitCsv (writeFields headerCanon ++ ['\r'])) = canonMap := by decide

theorem boroughFromString_boroughName (b : Borough) : boroughFromString (boroughName b) = b := by
  cases b <;> decide

theorem parseU64Safe_toDec (k : UInt64) : parseU64Safe (toDec k.toNat) = k := by
  have h_ne : toDec k.toNat ≠ [] := Nat.toDigits_ne_nil
  rw [parseU64Safe, if_neg (by simpa using h_ne), strtoull_toDec k.toNat_lt]
  exact UInt64.ofNat_toNat

theorem parseDateAny_toDec (d : UInt32) : parseDateAny (toDec d.toNat) true = d := by
  have h_ne : toDec d.toNat ≠ [] := Nat.toDigits_ne_nil
  have h_lt : d.toNat < 2 ^ 64 := d.toNat_lt.trans (by decide)
  rw [parseDateAny, if_neg (by simpa using h_ne), if_pos rfl, strtoull_toDec h_lt]
  exact UInt32.ofNat_toNat

/-- **What a record comes back as.** -/
theorem loadLine_record (strtod : Str → Option ℚ) (r : Record) :
    loadLine strtod canonMap (writeFields r.fields ++ ['\r']) = some (r.loaded strtod) := by
  have h_split := splitCsv_writeFields r.front_plain r.complaint_plain (by simp [Record.front])
  unfold loadLine Record.fields
  rw [h_split, if_neg (by simp)]
  simp [Record.front, fieldAt, canonMap, Record.loaded, parseU64Safe_toDec, parseDateAny_toDec,
    boroughFromString_boroughName, r.key_ne]

/-- The lines of a partition file end with a CR. -/
theorem lines_partitionFile (rs : List Record) : lines (partitionFile rs) =
    (writeFields headerCanon ++ ['\r']) :: rs.map fun r => writeFields r.fields ++ ['\r'] := by
  -- a row holds no LF but the one at its end
  have h_line : ∀ {fields : List Str} {rest : Str}, (∀ f ∈ fields, Plain f) →
      lines (writerow fields ++ rest) = (writeFields fields ++ ['\r']) :: lines rest := by
    intro fields rest hplain
    have h_not : '\n' ∉ writeFields fields ++ ['\r'] := by
      simp [notMem_writeFields hplain]
    rw [← lines_append h_not rest]
    simp [writerow]
  have h_header : ∀ f ∈ headerCanon, Plain f := by
    decide
  unfold partitionFile
  rw [h_line h_header]
  congr 1
  induction rs with
  | nil => exact lines_nil
  | cons r rs ih => rw [List.flatMap_cons, h_line r.fields_plain, ih, List.map_cons]

theorem rows_loadColumns (strtod : Str → Option ℚ) (cm : ColMap) (body : List Str) :
    (loadColumns strtod cm body).rows = body.filterMap (loadLine strtod cm) := by
  have h_push : loadColumns strtod cm body =
      (body.filterMap (loadLine strtod cm)).foldl Columns.push .empty := by
    unfold loadColumns
    rw [List.foldl_filterMap]
    congr 1
    funext cols line
    cases loadLine strtod cm line <;> rfl
  rw [h_push]
  exact Columns.rows_foldl_push _ .empty

/-- The columns of a partition file. -/
def recordColumns (strtod : Str → Option ℚ) (rs : List Record) : Columns :=
  loadColumns strtod canonMap (rs.map fun r => writeFields r.fields ++ ['\r'])

theorem rows_recordColumns (strtod : Str → Option ℚ) (rs : List Record) :
    (recordColumns strtod rs).rows = rs.map fun r => r.loaded strtod := by
  rw [recordColumns, rows_loadColumns, List.filterMap_map, ← List.filterMap_eq_map]
  exact List.filterMap_congr fun r _ => loadLine_record strtod r

/-- **Loading a partition file** yields its columns, if their indices can be built. -/
theorem load_partitionFile {strtod : Str → Option ℚ} {path : Str} {rs : List Record}
    {store : PartitionStore} :
    PartitionStore.load strtod path (some (partitionFile rs)) = some (.ok store) ↔
      store.toColumns = recordColumns strtod rs := by
  unfold PartitionStore.load
  rw [Option.map_some, lines_partitionFile]
  dsimp only
  rw [detect_headerCanon, if_neg (by decide)]
  rw [← PartitionStore.ofColumns_eq_some, Option.map_eq_some_iff]
  simp only [Except.ok.injEq, exists_eq_right]
  rfl

/-- A partition file comes back as it was written. -/
def RoundTrips (strtod : Str → Option ℚ) (path : Str) (rs : List Record) : Prop :=
  ∃ store, PartitionStore.load strtod path (some (partitionFile rs)) = some (.ok store) ∧
    store.keys.toList = rs.map Record.key ∧
    store.dates.toList = rs.map Record.date ∧
    store.boroughs.toList = rs.map Record.borough ∧
    store.complaints.toList = rs.map Record.complaint

/-- The complaint types of what comes back are all empty. -/
theorem RoundTrips.complaint {strtod : Str → Option ℚ} {path : Str} {rs : List Record}
    (h : RoundTrips strtod path rs) : ∀ r ∈ rs, r.complaint = [] := by
  obtain ⟨store, hload, -, -, -, h_complaints⟩ := h
  rw [Columns.complaints_toList, load_partitionFile.mp hload, rows_recordColumns, List.map_map]
    at h_complaints
  exact fun r hr => (List.map_inj_left.mp h_complaints r hr).symm

/-- **A partition file comes back as it was written** exactly if no record has a
complaint type, and the indices over its rows can be built: there are fewer than
`2 ^ 32` of them, and the cells of their coordinates have keys. -/
theorem roundTrips_iff (strtod : Str → Option ℚ) (path : Str) (rs : List Record) :
    RoundTrips strtod path rs ↔ (∀ r ∈ rs, r.complaint = []) ∧ rs.length < 2 ^ 32 ∧
      ∀ r ∈ rs, Indices.OnGrid (r.loaded strtod) := by
  have h_rows := rows_recordColumns strtod rs
  have h_length : (recordColumns strtod rs).n = rs.length := by
    rw [← Columns.length_rows, h_rows, List.length_map]
  -- the indices are all that can fail
  have h_built : (Indices.build (recordColumns strtod rs)).isSome ↔ rs.length < 2 ^ 32 ∧
      ∀ r ∈ rs, Indices.OnGrid (r.loaded strtod) := by
    rw [Indices.build_isSome, h_length, h_rows, List.forall_mem_map]
  rw [← h_built]
  constructor
  · intro h
    refine ⟨h.complaint, ?_⟩
    -- what is loaded has its indices
    obtain ⟨store, hload, -⟩ := h
    rw [← load_partitionFile.mp hload, store.built]
    rfl
  · rintro ⟨h_empty, h_isSome⟩
    obtain ⟨indices, h_indices⟩ := Option.isSome_iff_exists.mp h_isSome
    -- the columns are those of the records, but for the complaint types
    refine ⟨⟨recordColumns strtod rs, indices, h_indices⟩, load_partitionFile.mpr rfl, ?_⟩
    dsimp only
    rw [Columns.keys_toList, Columns.dates_toList, Columns.boroughs_toList,
      Columns.complaints_toList, h_rows, List.map_map, List.map_map, List.map_map, List.map_map]
    exact ⟨rfl, rfl, rfl, List.map_congr_left fun r hr => (h_empty r hr).symm⟩

/-- A record without coordinates, which are left empty. -/
def rodentRecord : Record where
  key := 1000000
  date := 20230101
  borough := .queens
  latitude := []
  longitude := []
  complaint := "Rodent".toList
  key_ne := by decide
  latitude_plain := by decide
  longitude_plain := by decide
  complaint_plain := by decide

/-- Its complaint type does not come back. -/
theorem rodentRecord_lost : ¬ RoundTrips (fun _ => none) "part_A.csv".toList [rodentRecord] :=
  fun h => absurd (h.complaint rodentRecord (List.mem_singleton_self _)) (by decide)

end Mini2
