import Mini2.Python.CellsAgree
import Mini2.Python.QuotedLines

/-!
# The two loaders

A node loads its partition file in C++ or in Python. The C++ code goes through the lines of the
file, drops their quotes, and takes for a number what a cell starts with. The Python code goes
through the records of `csv.reader`, and takes a cell for a number as a whole or not at all.

`sameRows_iff` says for which files with the canonical header the two end with the same rows:
the lines with a key and the records with a key make pairs, whose cells both loaders read alike
by their characters (`CellsAlike`). Where both readers split all lines alike, this is a matter
of each line alone (`loadAlike_linesText`), and a row as the partition scripts write it is read
alike (`cellsAlike_record`).

The texts here are ASCII: of others the C++ code sees the bytes, and Python the characters.
-/

namespace Mini2

/-! ### Files with the canonical header -/

/-- A file with the canonical header, and what follows it. -/
def canonText (body : Str) : Str := [','].intercalate headerCanon ++ '\n' :: body

/-- The columns of the canonical header. -/
def canonColumns : ColMap where
  uniqueKey := some 0
  created := some 1
  complaint := some 5
  borough := some 2
  lat := some 3
  lon := some 4
  createdIsYmd := true

/-! ### Rows in C++ -/

/-- The fields have a key, and a date: the first one starts with a number other than zero. -/
def HasKey (fields : List Str) : Prop :=
  2 ≤ fields.length ∧ ∃ z ≠ 0, LeadingNumber (fields.getD 0 []) z

theorem hasKey_iff {fields : List Str} :
    HasKey fields ↔ 2 ≤ fields.length ∧ parseU64Safe (fields.getD 0 []) ≠ 0 := by
  rw [HasKey, parseU64Safe_ne_zero]

instance (fields : List Str) : Decidable (HasKey fields) := decidable_of_iff _ hasKey_iff.symm

/-- The fields of a line with a key. -/
def keyedLine (line : Str) : Option (List Str) :=
  if line.isEmpty then none else (some (splitCsv line)).filter fun fields => HasKey fields

/-- The lines with a key. -/
def keyedLines (body : Str) : List (List Str) := (lines body).filterMap keyedLine

/-- The row that the fields make. -/
def lineRow (strtod : Str → Option ℚ) (fields : List Str) : Row311 where
  uniqueKey := parseU64Safe (fields.getD 0 [])
  createdYmd := parseDateAny (fields.getD 1 []) true
  borough := fields[2]?.elim .unspecified boroughFromString
  latitude := fields[3]?.elim 0 (parseDoubleSafe strtod)
  longitude := fields[4]?.elim 0 (parseDoubleSafe strtod)
  complaintType := fields[5]?.getD []

/-- A line with a key is loaded, and no other. -/
theorem loadLine_eq (strtod : Str → Option ℚ) (line : Str) :
    loadLine strtod canonColumns line = (keyedLine line).map (lineRow strtod) := by
  unfold loadLine keyedLine
  by_cases h_empty : line.isEmpty
  · rw [if_pos h_empty, if_pos h_empty]
    rfl
  · rw [if_neg h_empty, if_neg h_empty]
    generalize splitCsv line = fields
    -- the key and the date are the first two fields
    match fields with
    | [] => rfl
    | [_] => rfl
    | key :: date :: rest =>
      by_cases h_key : parseU64Safe key = 0
      · simp [fieldAt, canonColumns, hasKey_iff, h_key]
      · simp [fieldAt, canonColumns, hasKey_iff, h_key, lineRow]

theorem rows_canonText (strtod : Str → Option ℚ) (body : Str) :
    (loadColumns strtod canonColumns (lines body)).rows =
      (keyedLines body).map (lineRow strtod) := by
  rw [rows_loadColumns, funext (loadLine_eq strtod), keyedLines, List.map_filterMap]

/-- **What the C++ code loads.** It never throws. -/
theorem load_canonText (strtod : Str → Option ℚ) (path body : Str) :
    PartitionStore.load strtod path (some (canonText body)) =
      (PartitionStore.ofColumns (loadColumns strtod canonColumns (lines body))).map .ok := by
  have h_header : '\n' ∉ [','].intercalate headerCanon := by decide
  have h_detect : ColMap.detect (splitCsv ([','].intercalate headerCanon)) = canonColumns := by
    decide
  -- the header names both columns, so that nothing is thrown
  unfold PartitionStore.load canonText
  rw [Option.map_some, lines_append h_header]
  dsimp only
  rw [h_detect, if_neg (by decide)]

namespace Python

/-! ### Rows in Python -/

/-- The columns of the canonical header. -/
def canonHeader : Header where
  key := 0
  date := 1
  complaint := some 5
  borough := some 2
  lat := some 3
  lon := some 4
  alreadyYmd := true

section Loaders

variable (U : Unicode) (float : Str → Option Double)

/-- The record has a key, and a date: the first field is a number other than zero. -/
def RecordHasKey (row : List Str) : Prop :=
  2 ≤ row.length ∧ ∃ z ≠ 0, WholeNumber ((row.getD 0 []).map U.toAscii) z

theorem recordHasKey_iff {row : List Str} :
    RecordHasKey U row ↔ (keyed U canonHeader row).isSome := by
  have h_key : ∀ s, (∃ z ≠ 0, WholeNumber (s.map U.toAscii) z) ↔ ∃ z ≠ 0, keyOf U s = some z :=
    fun s => exists_congr fun z => and_congr_right fun hz => (keyOf_eq_some hz).symm
  unfold RecordHasKey keyed canonHeader
  rw [h_key]
  match row with
  | [] => simp
  | [_] => simp
  | key :: date :: rest => cases h : keyOf U key <;> simp [h]

instance (row : List Str) : Decidable (RecordHasKey U row) :=
  decidable_of_iff _ (recordHasKey_iff U).symm

/-- The records with a key. -/
def keyedRecords (body : Str) : List (List Str) :=
  (csvRecords body).filterMap fun r => r.filter fun row => RecordHasKey U row

/-- The row that a record makes. -/
def recordRow (row : List Str) : StoreRow where
  key := UInt64.ofNat ((keyOf U (row.getD 0 [])).getD 0).toNat
  date := UInt32.ofNat ((dateOf U true (row.getD 1 [])).getD 0).toNat
  borough := boroughOf U row (some 2)
  lat := (coordOf float row (some 3)).getD (.finite 0)
  lon := (coordOf float row (some 4)).getD (.finite 0)
  complaint := row[5]?.getD []

variable {U float} {row : List Str}

/-- What the key and the date of a record are. -/
theorem keyed_eq_some {k : ℤ} {date : Str} (h : keyed U canonHeader row = some (k, date)) :
    keyOf U (row.getD 0 []) = some k ∧ k ≠ 0 ∧ row.getD 1 [] = date := by
  unfold keyed canonHeader at h
  simp only [Option.bind_eq_bind, Option.bind_eq_some_iff] at h
  obtain ⟨key, h_key, date', h_date, k', h_k, h⟩ := h
  split at h
  · exact absurd h (by simp)
  · next h_ne =>
    obtain ⟨rfl, rfl⟩ := Prod.mk.inj (Option.some.inj h)
    rw [List.getD_eq_getElem?_getD, List.getD_eq_getElem?_getD, h_key, h_date]
    exact ⟨h_k, h_ne, rfl⟩

theorem fits_iff {k : ℤ} {date : Str} (h : keyed U canonHeader row = some (k, date)) :
    Fits U float canonHeader row ↔ (0 ≤ k ∧ k < 2 ^ 64) ∧
      (∃ d ∈ dateOf U true (row.getD 1 []), 0 ≤ d ∧ d < 2 ^ 32) ∧
        (coordOf float row (some 3)).isSome ∧ (coordOf float row (some 4)).isSome := by
  obtain ⟨-, -, rfl⟩ := keyed_eq_some h
  constructor
  · intro hfits
    exact hfits k _ h
  · intro hcells k' date' h'
    -- the record has one key and one date
    obtain ⟨rfl, rfl⟩ := Prod.mk.inj (Option.some.inj (h.symm.trans h'))
    exact hcells

/-- The row of a record with a key. -/
theorem tolerated_eq (h : RecordHasKey U row) (hfits : Fits U float canonHeader row) :
    tolerated U float canonHeader row = some (recordRow U float row) := by
  obtain ⟨⟨k, date⟩, h_keyed⟩ := Option.isSome_iff_exists.mp ((recordHasKey_iff U).mp h)
  obtain ⟨h_key, h_ne, h_date⟩ := keyed_eq_some h_keyed
  obtain ⟨h_range, ⟨d, h_d, h_dated⟩, -⟩ := (fits_iff h_keyed).mp hfits
  -- a key of zero would have been skipped
  have h_pos : 0 < k := lt_of_le_of_ne h_range.1 h_ne.symm
  have h_filter : (some d).filter (fun d => 0 ≤ d ∧ d < 2 ^ 32) = some d :=
    Option.filter_eq_some_iff.mpr ⟨rfl, decide_eq_true h_dated⟩
  rw [h_date] at h_d
  have h_alike : dateOf U canonHeader.alreadyYmd date = some d := h_d
  unfold tolerated recordRow
  rw [h_keyed, h_key, h_date, h_d]
  dsimp only [Option.bind_eq_bind, Option.bind_some]
  rw [if_pos ⟨h_pos, h_range.2⟩, h_alike, h_filter]
  rfl

/-- The rows that a file makes, if all of its records can be taken. -/
theorem rows_of_usable {body : Str}
    (h : ∀ r ∈ csvRecords body, ∃ row, r = some row ∧ Usable U float canonHeader row) :
    (csvRecords body).filterMap (fun r => r.bind (tolerated U float canonHeader)) =
      (keyedRecords U body).map (recordRow U float) := by
  rw [keyedRecords, List.map_filterMap]
  refine List.filterMap_congr fun r hr => ?_
  obtain ⟨row, rfl, h_row⟩ := h r hr
  rw [Option.bind_some]
  -- a record without a key is skipped
  by_cases h_key : RecordHasKey U row
  · rw [tolerated_eq h_key h_row.fits, Option.filter_some, if_pos (decide_eq_true h_key)]
    rfl
  · rw [Option.filter_some, if_neg (by simpa using h_key)]
    have h_keyed : keyed U canonHeader row = none :=
      Option.not_isSome_iff_eq_none.mp ((recordHasKey_iff U).not.mp h_key)
    simp [tolerated, h_keyed]

/-- The fields of the header. -/
def headerFields : List RawField :=
  [.bare "unique_key".toList (by decide), .bare "created_ymd".toList (by decide),
    .bare "borough".toList (by decide), .bare "latitude".toList (by decide),
    .bare "longitude".toList (by decide), .bare "complaint_type".toList (by decide)]

theorem csvRecords_canonText (body : Str) :
    csvRecords (canonText body) = some headerCanon :: csvRecords body := by
  -- the header is a line without quotes
  have h_line : [','].intercalate headerCanon = lineText headerFields := by decide
  have h_record : lineRecord headerFields = headerCanon := by decide
  have h_length : ∀ f ∈ headerFields, f.value.length ≤ CsvReader.fieldLimit := by decide
  rw [canonText, h_line, csvRecords_lineText h_length, h_record]

theorem colNamed_headerCanon (name : Str) :
    colNamed U headerCanon name = colNamed .ascii headerCanon name := by
  have h_ascii : ∀ h ∈ headerCanon, Ascii h := by decide
  have h_filter : headerCanon.zipIdx.filter (fun h => strip U h.1 = name) =
      headerCanon.zipIdx.filter fun h => strip .ascii h.1 = name :=
    List.filter_congr fun h hh => by
      rw [strip_ascii U (h_ascii h.1 (List.fst_mem_of_mem_zipIdx hh))]
  rw [colNamed, h_filter, colNamed]

theorem readHeader_headerCanon : readHeader U headerCanon = some canonHeader := by
  have h_ascii : readHeader .ascii headerCanon = some canonHeader := by decide
  -- what a database knows of other characters makes no difference here
  have h_named : colNamed U headerCanon = colNamed .ascii headerCanon :=
    funext colNamed_headerCanon
  rw [← h_ascii]
  unfold readHeader col
  rw [h_named]

end Loaders

/-! ### When the two agree -/

/-- **Both loaders end with the same rows**, or both fail. -/
def SameRows : Option (Except Str Mini2.PartitionStore) → Except LoadError Store → Prop
  | some (.ok cpp), .ok python =>
    cpp.keys.toList = python.keys ∧ cpp.dates.toList = python.dates ∧
      cpp.boroughs.toList.map Borough.code = python.boroughs ∧
        cpp.complaints.toList = python.complaints
  | some (.error _), .error _ => True
  | _, _ => False

section Agree

variable (U : Unicode) (float : Str → Option Double) (strtod : Str → Option ℚ)

/-- The cells of a line and of a record, both with a key, are read alike, and can be put into
the indices. -/
structure CellsAlike (fields row : List Str) : Prop where
  key : SameKey U (fields.getD 0 []) (row.getD 0 [])
  date : SameDate U (fields.getD 1 []) (row.getD 1 [])
  borough : SameBorough U fields[2]? row[2]?
  complaint : row[5]?.getD [] = fields[5]?.getD []
  /-- The coordinates are numbers to Python, and have a cell. -/
  located : ∃ la lo, coordOf float row (some 3) = some la ∧ coordOf float row (some 4) = some lo ∧
    Located la lo
  /-- They have a cell in the C++ code. -/
  onGrid : Indices.OnGrid (lineRow strtod fields)

/-- **The loaders find the same rows in a file**: no field is too long for `csv.reader`, the row
ids have room in 32 bits, and the lines with a key go with the records with a key. -/
structure LoadAlike (body : Str) : Prop where
  readable : none ∉ csvRecords body
  few : (keyedLines body).length < 2 ^ 32
  rows : List.Forall₂ (CellsAlike U float strtod) (keyedLines body) (keyedRecords U body)

variable {U float strtod} {fields row : List Str} {body : Str}

/-- The row of the C++ store is that of the Python store, but for the coordinates. -/
def SameRow (r : Row311) (r' : StoreRow) : Prop :=
  r.uniqueKey = r'.key ∧ r.createdYmd = r'.date ∧ r.borough.code = r'.borough ∧
    r.complaintType = r'.complaint

theorem eq_toNat_uint64 {z : ℤ} {k : UInt64} :
    z = k.toNat ↔ (0 ≤ z ∧ z < 2 ^ 64) ∧ k = UInt64.ofNat z.toNat := by
  have h_lt := k.toNat_lt
  rw [← UInt64.toNat_inj, UInt64.toNat_ofNat']
  omega

theorem eq_toNat_uint32 {z : ℤ} {d : UInt32} :
    z = d.toNat ↔ (0 ≤ z ∧ z < 2 ^ 32) ∧ d = UInt32.ofNat z.toNat := by
  have h_lt := d.toNat_lt
  rw [← UInt32.toNat_inj, UInt32.toNat_ofNat']
  omega

/-- What the loaders make of cells that are read alike. -/
theorem cellsAlike_values (h : RecordHasKey U row) : CellsAlike U float strtod fields row ↔
    keyOf U (row.getD 0 []) = some ((parseU64Safe (fields.getD 0 [])).toNat : ℤ) ∧
      dateOf U true (row.getD 1 []) = some ((parseDateAny (fields.getD 1 []) true).toNat : ℤ) ∧
      boroughOf U row (some 2) = (fields[2]?.elim .unspecified boroughFromString).code ∧
      row[5]?.getD [] = fields[5]?.getD [] ∧
      (∃ la lo, coordOf float row (some 3) = some la ∧ coordOf float row (some 4) = some lo ∧
        Located la lo) ∧ Indices.OnGrid (lineRow strtod fields) := by
  obtain ⟨⟨k, date⟩, h_keyed⟩ := Option.isSome_iff_exists.mp ((recordHasKey_iff U).mp h)
  obtain ⟨h_key, h_ne, -⟩ := keyed_eq_some h_keyed
  -- the key of the record is not zero, and so the one of the line, if it is the same
  have h_zero : keyOf U (row.getD 0 []) = some ((parseU64Safe (fields.getD 0 [])).toNat : ℤ) →
      parseU64Safe (fields.getD 0 []) ≠ 0 := by
    intro h_same h_zero
    rw [h_key, Option.some.injEq, h_zero] at h_same
    exact h_ne h_same
  rw [← sameDate_iff, ← and_iff_right_of_imp h_zero, ← sameKey_iff]
  have h_borough : boroughOf U row (some 2) =
      (fields[2]?.elim .unspecified boroughFromString).code ↔ SameBorough U fields[2]? row[2]? :=
    sameBorough_iff.symm
  rw [h_borough]
  exact ⟨fun h => ⟨h.key, h.date, h.borough, h.complaint, h.located, h.onGrid⟩,
    fun ⟨key, date, borough, complaint, located, onGrid⟩ =>
      ⟨key, date, borough, complaint, located, onGrid⟩⟩

/-- Cells are read alike if they can be taken, and make the same row. -/
theorem cellsAlike_iff (h : RecordHasKey U row) : CellsAlike U float strtod fields row ↔
    Usable U float canonHeader row ∧ Indices.OnGrid (lineRow strtod fields) ∧
      SameRow (lineRow strtod fields) (recordRow U float row) := by
  obtain ⟨⟨k, date⟩, h_keyed⟩ := Option.isSome_iff_exists.mp ((recordHasKey_iff U).mp h)
  obtain ⟨h_key, -⟩ := keyed_eq_some h_keyed
  obtain ⟨d, h_date⟩ : ∃ d, dateOf U true (row.getD 1 []) = some d := ⟨_, rfl⟩
  have h_row : recordRow U float row = ⟨UInt64.ofNat k.toNat, UInt32.ofNat d.toNat,
      boroughOf U row (some 2), (coordOf float row (some 3)).getD (.finite 0),
      (coordOf float row (some 4)).getD (.finite 0), row[5]?.getD []⟩ := by
    rw [recordRow, h_key, h_date]
    rfl
  rw [cellsAlike_values h]
  constructor
  · intro ⟨key, date, borough, complaint, ⟨la, lo, h_la, h_lo, h_located⟩, onGrid⟩
    -- numbers that come back from their arrays are those that went in
    rw [h_key, Option.some.injEq, eq_toNat_uint64] at key
    rw [h_date, Option.some.injEq, eq_toNat_uint32] at date
    have h_fits : Fits U float canonHeader row := by
      rw [fits_iff h_keyed, h_date, h_la, h_lo]
      exact ⟨key.1, ⟨d, rfl, date.1⟩, rfl, rfl⟩
    refine ⟨⟨h_fits, fun r hr => ?_⟩, onGrid, ?_⟩
    · obtain rfl := Option.some.inj ((tolerated_eq h h_fits).symm.trans hr)
      rw [h_row, h_la, h_lo]
      exact h_located
    · rw [h_row]
      exact ⟨key.2, date.2, borough.symm, complaint.symm⟩
  · intro ⟨h_usable, onGrid, h_same⟩
    rw [h_row] at h_same
    obtain ⟨key, date, borough, complaint⟩ := h_same
    -- the cells are numbers in range, and equal as such to those of the line
    have h_cells := (fits_iff h_keyed).mp h_usable.fits
    rw [h_date] at h_cells
    obtain ⟨h_range, ⟨d', h_d, h_dated⟩, h_la, h_lo⟩ := h_cells
    obtain rfl := Option.some.inj h_d
    obtain ⟨la, h_la⟩ := Option.isSome_iff_exists.mp h_la
    obtain ⟨lo, h_lo⟩ := Option.isSome_iff_exists.mp h_lo
    have h_located := h_usable.located _ (tolerated_eq h h_usable.fits)
    rw [h_row, h_la, h_lo] at h_located
    refine ⟨?_, ?_, borough.symm, complaint.symm, ⟨la, lo, h_la, h_lo, h_located⟩, onGrid⟩
    · rw [h_key, Option.some.injEq, eq_toNat_uint64]
      exact ⟨h_range, key⟩
    · rw [h_date, Option.some.injEq, eq_toNat_uint32]
      exact ⟨h_dated, date⟩

/-- Pairs that are related if each of the two has a property, and they are related otherwise. -/
theorem forall₂_and_iff {α β : Type} {R S : α → β → Prop} {p : β → Prop} {q : α → Prop}
    {l : List α} {u : List β} (h : ∀ a, ∀ b ∈ u, (R a b ↔ p b ∧ q a ∧ S a b)) :
    List.Forall₂ R l u ↔ (∀ b ∈ u, p b) ∧ (∀ a ∈ l, q a) ∧ List.Forall₂ S l u := by
  induction l generalizing u with
  | nil =>
    rw [List.forall₂_nil_left_iff, List.forall₂_nil_left_iff]
    constructor
    · rintro rfl
      simp
    · exact fun hall => hall.2.2
  | cons a l ih =>
    cases u with
    | nil => simp
    | cons b u =>
      -- the first pair, and then the others
      obtain ⟨h_head, h_tail⟩ := forall_and.mp fun a => List.forall_mem_cons.mp (h a)
      rw [List.forall₂_cons, List.forall₂_cons, h_head, ih h_tail, List.forall_mem_cons,
        List.forall_mem_cons]
      tauto

/-- The same rows make the same columns. -/
theorem forall₂_sameRow {l : List Row311} {u : List StoreRow} :
    List.Forall₂ SameRow l u ↔ l.map Row311.uniqueKey = u.map StoreRow.key ∧
      l.map Row311.createdYmd = u.map StoreRow.date ∧
        (l.map Row311.borough).map Borough.code = u.map StoreRow.borough ∧
          l.map Row311.complaintType = u.map StoreRow.complaint := by
  induction l generalizing u with
  | nil => cases u <;> simp
  | cons r l ih =>
    cases u with
    | nil => simp
    | cons r' u =>
      rw [List.forall₂_cons, ih]
      simp only [SameRow, List.map_cons, List.cons.injEq]
      tauto

/-- All records can be taken if those with a key can, and no field is too long. -/
theorem forall_usable_iff :
    (∀ r ∈ csvRecords body, ∃ row, r = some row ∧ Usable U float canonHeader row) ↔
      none ∉ csvRecords body ∧ ∀ row ∈ keyedRecords U body, Usable U float canonHeader row := by
  constructor
  · intro h
    refine ⟨fun h_none => ?_, fun row h_row => ?_⟩
    · obtain ⟨row, h_row, -⟩ := h none h_none
      exact absurd h_row (by simp)
    · obtain ⟨r, hr, h_filter⟩ := List.mem_filterMap.mp h_row
      obtain ⟨row', rfl, h_usable⟩ := h r hr
      obtain ⟨h_eq, -⟩ := Option.filter_eq_some_iff.mp h_filter
      exact Option.some.inj h_eq ▸ h_usable
  · rintro ⟨h_none, h_keyed⟩ r hr
    -- a record that cannot be read is a field that is too long
    cases r with
    | none => exact absurd hr h_none
    | some row =>
      refine ⟨row, rfl, ?_⟩
      by_cases h_key : RecordHasKey U row
      · exact h_keyed row (List.mem_filterMap.mpr
          ⟨_, hr, Option.filter_eq_some_iff.mpr ⟨rfl, decide_eq_true h_key⟩⟩)
      · exact .of_skipped (Option.not_isSome_iff_eq_none.mp ((recordHasKey_iff U).not.mp h_key))

theorem recordHasKey_of_mem (h : row ∈ keyedRecords U body) : RecordHasKey U row := by
  obtain ⟨r, -, h_filter⟩ := List.mem_filterMap.mp h
  exact of_decide_eq_true (Option.filter_eq_some_iff.mp h_filter).2

/-- What is asked of the records, of the lines, and of both. -/
theorem loadAlike_iff : LoadAlike U float strtod body ↔
    (∀ r ∈ csvRecords body, ∃ row, r = some row ∧ Usable U float canonHeader row) ∧
      ((keyedLines body).length < 2 ^ 32 ∧
        ∀ fields ∈ keyedLines body, Indices.OnGrid (lineRow strtod fields)) ∧
      List.Forall₂ SameRow ((keyedLines body).map (lineRow strtod))
        ((keyedRecords U body).map (recordRow U float)) := by
  -- what is asked of a pair is split into three
  have h_rows : List.Forall₂ (CellsAlike U float strtod) (keyedLines body) (keyedRecords U body) ↔
      _ := forall₂_and_iff fun fields row h_row => cellsAlike_iff (recordHasKey_of_mem h_row)
  rw [forall_usable_iff, List.forall₂_map_left_iff, List.forall₂_map_right_iff]
  constructor
  · intro h
    obtain ⟨h_usable, h_grid, h_same⟩ := h_rows.mp h.rows
    exact ⟨⟨h.readable, h_usable⟩, ⟨h.few, h_grid⟩, h_same⟩
  · rintro ⟨⟨readable, h_usable⟩, ⟨few, h_grid⟩, h_same⟩
    exact ⟨readable, few, h_rows.mpr ⟨h_usable, h_grid, h_same⟩⟩

/-- Stores that have been loaded have the same rows if the rows of the file are. -/
theorem sameRows_loaded {cpp : Mini2.PartitionStore} {python : Store}
    (hcpp : cpp.toColumns = loadColumns strtod canonColumns (lines body))
    (hpython : python.toArrays =
      Arrays.empty.addRows ((keyedRecords U body).map (recordRow U float))) :
    SameRows (some (.ok cpp)) (.ok python) ↔
      List.Forall₂ SameRow ((keyedLines body).map (lineRow strtod))
        ((keyedRecords U body).map (recordRow U float)) := by
  rw [forall₂_sameRow, ← rows_canonText, ← hcpp, ← Columns.keys_toList, ← Columns.dates_toList,
    ← Columns.boroughs_toList, ← Columns.complaints_toList]
  dsimp only [SameRows]
  rw [hpython]
  rfl

/-- The C++ code loads a file if its indices can be built. -/
theorem ofColumns_canonText :
    (∃ cpp, Mini2.PartitionStore.ofColumns (loadColumns strtod canonColumns (lines body)) =
        some cpp) ↔
      (keyedLines body).length < 2 ^ 32 ∧
        ∀ fields ∈ keyedLines body, Indices.OnGrid (lineRow strtod fields) := by
  have h_length : (loadColumns strtod canonColumns (lines body)).n = (keyedLines body).length := by
    rw [← Columns.length_rows, rows_canonText, List.length_map]
  rw [← h_length, ← List.forall_mem_map, ← rows_canonText, ← Indices.build_isSome]
  simp only [Mini2.PartitionStore.ofColumns_eq_some]
  constructor
  · rintro ⟨cpp, h_cpp⟩
    rw [← h_cpp, cpp.built]
    rfl
  · intro h
    obtain ⟨indices, h_built⟩ := Option.isSome_iff_exists.mp h
    exact ⟨⟨_, indices, h_built⟩, rfl⟩

/-- What the Python code loads, if it does. -/
theorem toArrays_canonText (h : ∀ r ∈ csvRecords body, ∃ row, r = some row ∧
    Usable U float canonHeader row) : ∃ s, load U float (some (canonText body)) = .ok s ∧
      s.toArrays = Arrays.empty.addRows ((keyedRecords U body).map (recordRow U float)) := by
  obtain ⟨s, h_load, -, h_arrays⟩ :=
    load_of_usable (csvRecords_canonText body) readHeader_headerCanon h
  exact ⟨s, h_load, h_arrays.trans (congrArg _ (rows_of_usable h))⟩

theorem sameRows_of_loadAlike (path : Str) (h : LoadAlike U float strtod body) :
    SameRows (Mini2.PartitionStore.load strtod path (some (canonText body)))
      (load U float (some (canonText body))) := by
  -- both load the file, and with the same rows
  obtain ⟨h_usable, h_built, h_same⟩ := loadAlike_iff.mp h
  obtain ⟨cpp, h_cpp⟩ := ofColumns_canonText.mpr h_built
  obtain ⟨s, h_load, h_arrays⟩ := toArrays_canonText h_usable
  rw [load_canonText, h_cpp, h_load]
  exact (sameRows_loaded (Mini2.PartitionStore.ofColumns_eq_some.mp h_cpp) h_arrays).mpr h_same

theorem loadAlike_of_sameRows {path : Str}
    (h : SameRows (Mini2.PartitionStore.load strtod path (some (canonText body)))
      (load U float (some (canonText body)))) : LoadAlike U float strtod body := by
  rw [load_canonText] at h
  cases h_cpp : Mini2.PartitionStore.ofColumns (loadColumns strtod canonColumns (lines body)) with
  | none => simp [h_cpp, SameRows] at h
  | some cpp =>
    cases h_python : load U float (some (canonText body)) with
    | error e => simp [h_cpp, h_python, SameRows] at h
    | ok s =>
      -- both have returned, so nothing has been in the way of either
      have h_usable := usable_of_load (csvRecords_canonText body) readHeader_headerCanon h_python
      obtain ⟨s', h_load, h_arrays⟩ := toArrays_canonText h_usable
      obtain rfl := Except.ok.inj (h_python.symm.trans h_load)
      rw [h_cpp, h_python] at h
      exact loadAlike_iff.mpr ⟨h_usable, ofColumns_canonText.mp ⟨cpp, h_cpp⟩,
        (sameRows_loaded (Mini2.PartitionStore.ofColumns_eq_some.mp h_cpp) h_arrays).mp h⟩

/-- **When the two loaders agree** on a file with the canonical header. -/
theorem sameRows_iff (U : Unicode) (float : Str → Option Double) (strtod : Str → Option ℚ)
    (path body : Str) :
    SameRows (Mini2.PartitionStore.load strtod path (some (canonText body)))
      (load U float (some (canonText body))) ↔ LoadAlike U float strtod body :=
  ⟨loadAlike_of_sameRows, sameRows_of_loadAlike path⟩

/-- A borough that is not in capitals. -/
def brooklynBody : Str := "1,20240115,Brooklyn,,,Noise\n".toList

/-- C++ loads the row with no borough, and Python with that of Brooklyn. -/
theorem brooklyn_otherwise : ¬ SameRows
    (Mini2.PartitionStore.load (fun _ => none) "part_A.csv".toList (some (canonText brooklynBody)))
    (load .ascii (fun _ => none) (some (canonText brooklynBody))) := by
  intro h
  have h_rows := (loadAlike_of_sameRows h).rows
  have h_line : keyedLines brooklynBody = [["1".toList, "20240115".toList, "Brooklyn".toList, [],
    [], "Noise".toList]] := by decide
  have h_record : keyedRecords .ascii brooklynBody = keyedLines brooklynBody := by decide
  rw [h_record, h_line, List.forall₂_cons] at h_rows
  have h_borough := sameBorough_iff.mp h_rows.1.borough
  exact absurd h_borough (by decide)

/-! ### Files that both readers split alike -/

theorem filterMap_filter_some {α β : Type} (f : α → β) (p : β → Bool) (l : List α) :
    l.filterMap (fun a => (some (f a)).filter p) = (l.map f).filter p := by
  rw [← List.filterMap_eq_filter, List.filterMap_map]
  exact List.filterMap_congr fun a _ => Option.filter_some

theorem keyedLine_lineText (line : List RawField) :
    keyedLine (lineText line) = (some (lineRecord line)).filter fun fields => HasKey fields := by
  unfold keyedLine lineRecord
  by_cases h_empty : lineText line = []
  · rw [h_empty]
    rfl
  · -- a line that is not empty has a field
    have h_line : line ≠ [] := fun h => h_empty (h ▸ rfl)
    rw [if_neg (by simpa using h_empty), if_neg h_empty, splitCsv_lineText h_line]

theorem keyedLines_linesText (body : List (List RawField)) :
    keyedLines (linesText body) = (body.map lineRecord).filter fun fields => HasKey fields := by
  rw [keyedLines, lines_linesText, List.filterMap_map, ← filterMap_filter_some]
  exact List.filterMap_congr fun line _ => keyedLine_lineText line

section Lines

variable {lns : List (List RawField)}
  (hlength : ∀ line ∈ lns, ∀ f ∈ line, f.value.length ≤ CsvReader.fieldLimit)

include hlength

theorem keyedRecords_linesText : keyedRecords U (linesText lns) =
    (lns.map lineRecord).filter fun row => RecordHasKey U row := by
  rw [keyedRecords, csvRecords_linesText hlength, List.filterMap_map, ← filterMap_filter_some]
  rfl

/-- **Files that both readers split alike**, and in which no line has a key for only one of the
loaders. The loaders agree on such a file if they agree on each of its lines. -/
theorem loadAlike_linesText
    (hkey : ∀ line ∈ lns, HasKey (lineRecord line) ↔ RecordHasKey U (lineRecord line)) :
    LoadAlike U float strtod (linesText lns) ↔
      (lns.filter fun line => HasKey (lineRecord line)).length < 2 ^ 32 ∧
        ∀ line ∈ lns, HasKey (lineRecord line) →
          CellsAlike U float strtod (lineRecord line) (lineRecord line) := by
  -- the same lines have a key, and each is split into the same cells
  have h_same : keyedRecords U (linesText lns) = keyedLines (linesText lns) := by
    rw [keyedRecords_linesText hlength, keyedLines_linesText]
    refine List.filter_congr fun row h_row => ?_
    obtain ⟨line, h_line, rfl⟩ := List.mem_map.mp h_row
    exact decide_eq_decide.mpr (hkey line h_line).symm
  have h_none : none ∉ csvRecords (linesText lns) := by
    rw [csvRecords_linesText hlength]
    simp
  have h_rows : List.Forall₂ (CellsAlike U float strtod) (keyedLines (linesText lns))
      (keyedRecords U (linesText lns)) ↔ ∀ line ∈ lns, HasKey (lineRecord line) →
        CellsAlike U float strtod (lineRecord line) (lineRecord line) := by
    -- each line goes with itself
    rw [h_same, List.forall₂_same, keyedLines_linesText]
    simp
  have h_few : (keyedLines (linesText lns)).length =
      (lns.filter fun line => HasKey (lineRecord line)).length := by
    rw [keyedLines_linesText, List.filter_map, List.length_map]
    rfl
  rw [← h_few, ← h_rows]
  exact ⟨fun h => ⟨h.few, h.rows⟩, fun ⟨few, rows⟩ => ⟨h_none, few, rows⟩⟩

end Lines

/-! ### Rows of the partition scripts -/

/-- The name of a borough is read as it is meant, in Python too. -/
theorem boroughFromStr_boroughName (U : Unicode) (b : Borough) :
    boroughFromStr U (boroughName b) = b.code := by
  have h_ascii : ∀ b, Ascii (boroughName b) ∧ Ascii (upper .ascii (boroughName b)) := by
    rintro (_ | _ | _ | _ | _ | _) <;> decide
  rw [boroughFromStr, upper_ascii U (h_ascii b).1, strip_ascii U (h_ascii b).2]
  cases b <;> decide

/-- **A row as the scripts write it** is read alike, if both read its coordinates. -/
theorem cellsAlike_record (r : Record)
    (hlocated : ∃ la lo, coordOf float r.fields (some 3) = some la ∧
      coordOf float r.fields (some 4) = some lo ∧ Located la lo)
    (hgrid : Indices.OnGrid (lineRow strtod r.fields)) :
    CellsAlike U float strtod r.fields r.fields where
  key := by
    -- the key is written in digits
    have h_ascii : Ascii (toDec r.key.toNat) :=
      fun c hc => ascii_of_isDigit (isDigit_of_mem_toDec hc)
    have h_ne : r.key.toNat ≠ 0 := fun h => r.key_ne (UInt64.toNat_inj.mp h)
    exact (sameKey_self h_ascii).mpr (plainNumber_toDec h_ne r.key.toNat_lt)
  date := by
    -- so is the date, which may be zero
    have h_ne : toDec r.date.toNat ≠ [] := Nat.toDigits_ne_nil
    have h_lt : r.date.toNat < 2 ^ 64 := r.date.toNat_lt.trans (by decide)
    refine sameDate_iff.mpr ?_
    change dateOf U true (toDec r.date.toNat) =
      some ((parseDateAny (toDec r.date.toNat) true).toNat : ℤ)
    rw [parseDateAny_toDec, dateOf, if_pos rfl, if_neg (by simpa using h_ne), int_toDec U h_lt]
    rfl
  borough := by
    refine sameBorough_iff.mpr ?_
    change boroughFromStr U (boroughName r.borough) =
      (boroughFromString (boroughName r.borough)).code
    rw [boroughFromStr_boroughName, boroughFromString_boroughName]
  complaint := rfl
  located := hlocated
  onGrid := hgrid

end Agree

end Python
end Mini2
