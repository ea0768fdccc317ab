import Mini2.Framework.Postings
import Mini2.Python.CsvReader
import Mini2.Python.PartitionStore
import Mini2.Python.RawDate

/-!
# Loading a partition in Python

`PartitionStore.load` reads the records of a partition file one by one, and appends the cells
of each to six arrays, of which those of the keys and the dates have elements of a bounded
range. The indices are built at the end.

A double is a rational here, if it is finite, and `float` is any function of the text.

* `tolerates_iff` — loading is tolerant, and leaves a store in order, exactly for the files of
  which every row is `Usable`.
-/

namespace Mini2
namespace Python

open Framework

/-! ### Cells -/

/-- A double. -/
inductive Double
  | finite (x : ℚ)
  | infinite
  | nan
  deriving DecidableEq

/-- What is raised. -/
inductive LoadError
  /-- `csv.Error` -/
  | csv
  /-- `ValueError` -/
  | value
  /-- `OverflowError` -/
  | overflow
  /-- `IndexError` -/
  | index
  deriving DecidableEq

/-- `_BOROUGH_BY_NAME` -/
def boroughByName : List (Str × ℤ) :=
  [("MANHATTAN".toList, 1), ("BROOKLYN".toList, 2), ("QUEENS".toList, 3), ("BRONX".toList, 4),
    ("STATEN ISLAND".toList, 5)]

/-- `borough_from_str` -/
def boroughFromStr (U : Unicode) (s : Str) : ℤ :=
  (boroughByName.lookup (strip U (upper U s))).getD 0

/-- The doubles from here on are infinite. -/
def doubleLimit : ℚ := 2 ^ 1024 - 2 ^ 970

/-- `int(math.floor(x / _GRID_DEG))` -/
def floorCell : Double → Except LoadError ℤ
  | .finite x =>
    if |x / Indices.gridDeg| < doubleLimit then .ok (Indices.cell x) else .error .overflow
  | .infinite => .error .overflow
  | .nan => .error .value

/-! ### The header -/

/-- The columns of a file. -/
structure Header where
  key : ℕ
  date : ℕ
  complaint : Option ℕ
  borough : Option ℕ
  lat : Option ℕ
  lon : Option ℕ
  alreadyYmd : Bool
  deriving DecidableEq

section Load

variable (U : Unicode) (float : Str → Option Double)

/-- `cols.get(name)`: the last of the columns with the name. -/
def colNamed (hdr : List Str) (name : Str) : Option ℕ :=
  (hdr.zipIdx.filter fun h => strip U h.1 = name).getLast?.map Prod.snd

/-- `col(*names)` -/
def col (hdr : List Str) (names : List Str) : Option ℕ := names.findSome? (colNamed U hdr)

/-- The columns that a header names; none without those of the keys and the dates. -/
def readHeader (hdr : List Str) : Option Header := do
  let key ← col U hdr ["unique_key".toList, "Unique Key".toList]
  let date ← col U hdr ["created_ymd".toList, "created_date".toList, "Created Date".toList]
  some {
    key := key
    date := date
    complaint := col U hdr ["complaint_type".toList, "Complaint Type".toList]
    borough := col U hdr ["borough".toList, "Borough".toList]
    lat := col U hdr ["latitude".toList, "Latitude".toList]
    lon := col U hdr ["longitude".toList, "Longitude".toList]
    alreadyYmd := (colNamed U hdr "created_ymd".toList).isSome }

/-! ### Rows -/

/-- The values of a row, before they are appended. -/
structure RowValues where
  k : ℤ
  d : ℤ
  b : ℤ
  la : Double
  lo : Double
  ct : Str

/-- The key of a row; none where `int` raises. -/
def keyOf (s : Str) : Option ℤ := if s.isEmpty then some 0 else int U s

/-- The date of a row; none where it raises. -/
def dateOf (alreadyYmd : Bool) (s : Str) : Option ℤ :=
  if alreadyYmd then some (if s.isEmpty then 0 else (int U s).getD 0) else parseYmdAny U s

/-- A coordinate of a row; none where `float` raises. -/
def coordOf (row : List Str) (col : Option ℕ) : Option Double :=
  match fieldAt row col with
  | none => some (.finite 0)
  | some s => if s.isEmpty then some (.finite 0) else float s

def boroughOf (row : List Str) (col : Option ℕ) : ℤ :=
  (fieldAt row col).elim 0 (boroughFromStr U)

/-- The key of a row, and the text of its date; none for a row that is skipped. -/
def keyed (hdr : Header) (row : List Str) : Option (ℤ × Str) := do
  let key ← row[hdr.key]?
  let date ← row[hdr.date]?
  let k ← keyOf U key
  if k = 0 then none else some (k, date)

/-- The values of a row; none for a row that is skipped. -/
def rowValues (hdr : Header) (row : List Str) : Except LoadError (Option RowValues) :=
  match keyed U hdr row with
  | none => .ok none
  | some (k, date) =>
    match dateOf U hdr.alreadyYmd date, coordOf float row hdr.lat, coordOf float row hdr.lon with
    | some d, some la, some lo =>
      .ok (some ⟨k, d, boroughOf U row hdr.borough, la, lo, (fieldAt row hdr.complaint).getD []⟩)
    | _, _, _ => .error .value

/-! ### Columns -/

/-- The six columns of a store. -/
structure Arrays where
  /-- `array("Q")` -/
  keys : List UInt64
  /-- `array("I")` -/
  dates : List UInt32
  boroughs : List ℤ
  lats : List Double
  lons : List Double
  complaints : List Str

def Arrays.empty : Arrays := ⟨[], [], [], [], [], []⟩

/-- One `append` on each column, and what is raised: the elements of an array have a range. -/
def Arrays.append (a : Arrays) (v : RowValues) : Arrays × Option LoadError :=
  if ¬ (0 ≤ v.k ∧ v.k < 2 ^ 64) then (a, some .overflow)
  else
    let a := { a with keys := a.keys ++ [UInt64.ofNat v.k.toNat] }
    if ¬ (0 ≤ v.d ∧ v.d < 2 ^ 32) then (a, some .overflow)
    else
      ({ a with
        dates := a.dates ++ [UInt32.ofNat v.d.toNat]
        boroughs := a.boroughs ++ [v.b]
        lats := a.lats ++ [v.la]
        lons := a.lons ++ [v.lo]
        complaints := a.complaints ++ [v.ct] }, none)

/-- The loop over the records. -/
def loadRows (hdr : Header) (a : Arrays) : List (Option (List Str)) → Arrays × Option LoadError
  | [] => (a, none)
  | none :: _ => (a, some .csv)
  | some row :: rows =>
    match rowValues U float hdr row with
    | .error e => (a, some e)
    | .ok none => loadRows hdr a rows
    | .ok (some v) =>
      match a.append v with
      | (a, some e) => (a, some e)
      | (a, none) => loadRows hdr a rows

/-! ### Indices -/

/-- `PartitionStore` -/
structure Store extends Arrays where
  byBorough : Buckets ℤ ℕ
  byComplaint : Buckets Str ℕ
  /-- Dates and row ids, in the order of the dates. -/
  byDate : List (UInt32 × ℕ)
  byCell : Buckets ℤ ℕ

/-- `PartitionStore.empty` -/
def Store.empty : Store :=
  { Arrays.empty with byBorough := ∅, byComplaint := ∅, byDate := [], byCell := ∅ }

/-- What the indices hold of a row. -/
structure Entry where
  borough : ℤ
  complaint : Str
  date : UInt32
  /-- None for a row without a location. -/
  cell : Option ℤ

/-- The cell of a row in the grid. -/
def cellOf (la lo : Double) : Except LoadError (Option ℤ) :=
  if la = .finite 0 ∧ lo = .finite 0 then .ok none
  else do
    let la ← floorCell la
    let lo ← floorCell lo
    .ok (some (cellKey la lo))

/-- Read row `i` for the indices. -/
def Arrays.entry (a : Arrays) (i : ℕ) : Except LoadError Entry :=
  match a.boroughs[i]?, a.complaints[i]?, a.dates[i]?, a.lats[i]?, a.lons[i]? with
  | some b, some ct, some d, some la, some lo => do
    let cell ← cellOf la lo
    .ok ⟨b, ct, d, cell⟩
  | _, _, _, _, _ => .error .index

/-- The order of pairs of a date and a row id. -/
def entryLE (a b : UInt32 × ℕ) : Prop := if a.1 ≠ b.1 then a.1 < b.1 else a.2 ≤ b.2

instance : DecidableRel entryLE := fun _ _ => inferInstanceAs (Decidable (ite _ _ _))

/-- `_build_indices` -/
def buildIndices (a : Arrays) : Except LoadError Store := do
  let ids := List.range a.keys.length
  let entries ← ids.mapM a.entry
  .ok { a with
    byBorough := .index (fun i => entries[i]?.map Entry.borough) ids
    byComplaint := .index (fun i => entries[i]?.map Entry.complaint) ids
    byDate := (entries.zipIdx.map fun e => (e.1.date, e.2)).insertionSort entryLE
    byCell := .index (fun i => entries[i]?.bind Entry.cell) ids }

/-- `PartitionStore.load`, of a store that is empty. -/
def load (file : Option Str) : Except LoadError Store :=
  match file.map csvRecords with
  | none => .ok .empty
  | some [] => .ok .empty
  | some (none :: _) => .error .csv
  | some (some hdr :: rows) =>
    match readHeader U hdr with
    | none => .error .value
    | some hdr =>
      match loadRows U float hdr .empty rows with
      | (_, some e) => .error e
      | (a, none) => buildIndices a

/-! ### What is expected -/

/-- A row of a store. -/
structure StoreRow where
  key : UInt64
  date : UInt32
  borough : ℤ
  lat : Double
  lon : Double
  complaint : Str

/-- Rows behind those of the columns. -/
def Arrays.addRows (a : Arrays) (rows : List StoreRow) : Arrays where
  keys := a.keys ++ rows.map StoreRow.key
  dates := a.dates ++ rows.map StoreRow.date
  boroughs := a.boroughs ++ rows.map StoreRow.borough
  lats := a.lats ++ rows.map StoreRow.lat
  lons := a.lons ++ rows.map StoreRow.lon
  complaints := a.complaints ++ rows.map StoreRow.complaint

/-- What a tolerant loader makes of a record. One without a usable key is skipped, and any
other cell that is not usable counts as empty. -/
def tolerated (hdr : Header) (row : List Str) : Option StoreRow := do
  let (k, date) ← keyed U hdr row
  if 0 < k ∧ k < 2 ^ 64 then
    some {
      key := UInt64.ofNat k.toNat
      date := ((dateOf U hdr.alreadyYmd date).filter fun d => 0 ≤ d ∧ d < 2 ^ 32).elim 0
        fun d => UInt32.ofNat d.toNat
      borough := boroughOf U row hdr.borough
      lat := (coordOf float row hdr.lat).getD (.finite 0)
      lon := (coordOf float row hdr.lon).getD (.finite 0)
      complaint := (fieldAt row hdr.complaint).getD [] }
  else none

/-- The columns are equally long, the date index has an entry for each row, and each row is in
one bucket for its borough and in one for its complaint type. -/
structure Store.InOrder (s : Store) : Prop where
  dates : s.dates.length = s.keys.length
  boroughs : s.boroughs.length = s.keys.length
  lats : s.lats.length = s.keys.length
  lons : s.lons.length = s.keys.length
  complaints : s.complaints.length = s.keys.length
  byDate : s.byDate.length = s.keys.length
  byBorough : s.byBorough.contents.Perm (List.range s.keys.length)
  byComplaint : s.byComplaint.contents.Perm (List.range s.keys.length)

/-- **Loading is tolerant**: it returns, with a store in order that has the rows of all records
behind the header. -/
def Tolerates (hdr : Header) (text : Str) : Prop :=
  ∃ s, load U float (some text) = .ok s ∧ s.InOrder ∧
    s.toArrays = Arrays.empty.addRows
      ((csvRecords text).tail.filterMap fun r => r.bind (tolerated U float hdr))

/-! ### What is usable -/

/-- The coordinates are those of rows without a location, or have a cell. -/
def Located (la lo : Double) : Prop := ∃ cell, cellOf la lo = .ok cell

/-- No cell of the row raises an error, unless the row is skipped: its key and its date are in
the range of their arrays, and its coordinates are numbers. -/
def Fits (hdr : Header) (row : List Str) : Prop :=
  ∀ k date, keyed U hdr row = some (k, date) →
    (0 ≤ k ∧ k < 2 ^ 64) ∧ (∃ d ∈ dateOf U hdr.alreadyYmd date, 0 ≤ d ∧ d < 2 ^ 32) ∧
      (coordOf float row hdr.lat).isSome ∧ (coordOf float row hdr.lon).isSome

/-- A row that loading can take. -/
structure Usable (hdr : Header) (row : List Str) : Prop where
  fits : Fits U float hdr row
  located : ∀ r ∈ tolerated U float hdr row, Located r.lat r.lon

/-! ### The loop -/

variable {U float} {hdr : Header} {row : List Str}

/-- A row that is skipped can be taken. -/
theorem Usable.of_skipped (h : keyed U hdr row = none) : Usable U float hdr row where
  fits := by simp [Fits, h]
  located := by simp [tolerated, h]

theorem Arrays.addRows_addRows (a : Arrays) (rows rows' : List StoreRow) :
    (a.addRows rows).addRows rows' = a.addRows (rows ++ rows') := by
  simp [Arrays.addRows]

theorem Arrays.addRows_nil (a : Arrays) : a.addRows [] = a := by simp [Arrays.addRows]

/-- A row that fits its arrays is appended to all of them. -/
theorem Arrays.append_eq (a : Arrays) {v : RowValues} (hk : 0 ≤ v.k ∧ v.k < 2 ^ 64)
    (hd : 0 ≤ v.d ∧ v.d < 2 ^ 32) :
    a.append v = (a.addRows [⟨UInt64.ofNat v.k.toNat, UInt32.ofNat v.d.toNat, v.b, v.la, v.lo,
      v.ct⟩], none) := by
  unfold append
  rw [if_neg (not_not.mpr hk)]
  dsimp only
  rw [if_neg (not_not.mpr hd)]
  rfl

/-- Any other one raises an error. -/
theorem Arrays.append_error (a : Arrays) {v : RowValues}
    (h : ¬ ((0 ≤ v.k ∧ v.k < 2 ^ 64) ∧ 0 ≤ v.d ∧ v.d < 2 ^ 32)) : (a.append v).2 ≠ none := by
  unfold append
  split
  · exact Option.some_ne_none _
  · next hk =>
    dsimp only
    split
    · exact Option.some_ne_none _
    · next hd => exact absurd ⟨not_not.mp hk, not_not.mp hd⟩ h

-- the key stays in its array when the date does not fit
example : (Arrays.empty.append ⟨7, 2 ^ 32, 0, .finite 0, .finite 0, []⟩).1 =
    { Arrays.empty with keys := [7] } := rfl

/-- A loop that appends goes on, or has ended. -/
theorem loadRows_of_values {a : Arrays} {v : RowValues} {rows : List (Option (List Str))}
    (h : rowValues U float hdr row = .ok (some v)) :
    loadRows U float hdr a (some row :: rows) =
      if (a.append v).2 = none then loadRows U float hdr (a.append v).1 rows else a.append v := by
  rw [loadRows, h]
  dsimp only
  generalize a.append v = appended
  obtain ⟨a', e⟩ := appended
  cases e <;> rfl

theorem keyed_ne_zero {k : ℤ} {date : Str} (h : keyed U hdr row = some (k, date)) : k ≠ 0 := by
  unfold keyed at h
  simp only [Option.bind_eq_bind, Option.bind_eq_some_iff] at h
  obtain ⟨_, -, _, -, _, -, h⟩ := h
  split at h
  · exact absurd h (by simp)
  · next hk => exact (Prod.mk.inj (Option.some.inj h)).1 ▸ hk

/-- What can become of a row. -/
inductive RowCase (U : Unicode) (float : Str → Option Double) (hdr : Header) (row : List Str) :
    Prop
  /-- It is skipped. -/
  | skip (values : rowValues U float hdr row = .ok none) (fits : Fits U float hdr row)
      (row_eq : tolerated U float hdr row = none)
  /-- Its values are appended. -/
  | append (v : RowValues) (values : rowValues U float hdr row = .ok (some v))
      (fits : Fits U float hdr row ↔ (0 ≤ v.k ∧ v.k < 2 ^ 64) ∧ 0 ≤ v.d ∧ v.d < 2 ^ 32)
      (row_eq : Fits U float hdr row → tolerated U float hdr row =
        some ⟨UInt64.ofNat v.k.toNat, UInt32.ofNat v.d.toNat, v.b, v.la, v.lo, v.ct⟩)
  /-- A cell raises an error. -/
  | error (e : LoadError) (values : rowValues U float hdr row = .error e)
      (fits : ¬ Fits U float hdr row)

theorem rowCase (U : Unicode) (float : Str → Option Double) (hdr : Header) (row : List Str) :
    RowCase U float hdr row := by
  cases h_keyed : keyed U hdr row with
  | none =>
    exact .skip (by simp [rowValues, h_keyed]) (by simp [Fits, h_keyed])
      (by simp [tolerated, h_keyed])
  | some kd =>
    obtain ⟨k, date⟩ := kd
    have h_fits : Fits U float hdr row ↔ (0 ≤ k ∧ k < 2 ^ 64) ∧
        (∃ d ∈ dateOf U hdr.alreadyYmd date, 0 ≤ d ∧ d < 2 ^ 32) ∧
          (coordOf float row hdr.lat).isSome ∧ (coordOf float row hdr.lon).isSome := by
      simp [Fits, h_keyed]
    -- the key is there, and the other cells are numbers or raise
    by_cases h_some : (dateOf U hdr.alreadyYmd date).isSome ∧
      (coordOf float row hdr.lat).isSome ∧ (coordOf float row hdr.lon).isSome
    · obtain ⟨⟨d, h_d⟩, ⟨la, h_la⟩, lo, h_lo⟩ := by
        simpa only [Option.isSome_iff_exists] using h_some
      have h_ranges : Fits U float hdr row ↔ (0 ≤ k ∧ k < 2 ^ 64) ∧ 0 ≤ d ∧ d < 2 ^ 32 := by
        simp [h_fits, h_d, h_la, h_lo]
      refine .append
        ⟨k, d, boroughOf U row hdr.borough, la, lo, (fieldAt row hdr.complaint).getD []⟩
        (by simp [rowValues, h_keyed, h_d, h_la, h_lo]) h_ranges fun h => ?_
      obtain ⟨h_key, h_date⟩ := h_ranges.mp h
      have h_pos : 0 < k := lt_of_le_of_ne h_key.1 (Ne.symm (keyed_ne_zero h_keyed))
      -- a date in range is taken as it is
      have h_filter : (some d).filter (fun d => 0 ≤ d ∧ d < 2 ^ 32) = some d :=
        Option.filter_eq_some_iff.mpr ⟨rfl, decide_eq_true h_date⟩
      unfold tolerated
      rw [h_keyed]
      dsimp only [Option.bind_eq_bind, Option.bind_some]
      rw [if_pos ⟨h_pos, h_key.2⟩, h_d, h_la, h_lo, h_filter]
      rfl
    · refine .error .value ?_ fun h => h_some ?_
      · unfold rowValues
        rw [h_keyed]
        dsimp only
        split
        · next h_d h_la h_lo => exact absurd (by simp [h_d, h_la, h_lo]) h_some
        · rfl
      · obtain ⟨-, ⟨d, h_d, -⟩, h_coords⟩ := h_fits.mp h
        exact ⟨Option.isSome_iff_exists.mpr ⟨d, h_d⟩, h_coords⟩

/-- **One turn of the loop.** A row that fits is appended as it is expected to be. -/
theorem loadRows_cons (h : Fits U float hdr row) (a : Arrays) (rows : List (Option (List Str))) :
    loadRows U float hdr a (some row :: rows) =
      loadRows U float hdr (a.addRows (tolerated U float hdr row).toList) rows := by
  cases rowCase U float hdr row with
  -- nothing is appended, and nothing is expected
  | skip values _ row_eq =>
    rw [loadRows, values, row_eq, Option.toList_none, Arrays.addRows_nil]
  | append v values fits row_eq =>
    obtain ⟨hk, hd⟩ := fits.mp h
    rw [loadRows_of_values values, a.append_eq hk hd, if_pos rfl, row_eq h]
    rfl
  -- a row that fits raises nothing
  | error e _ fits => exact absurd h fits

/-- Any other row ends the loop. -/
theorem loadRows_cons_error (h : ¬ Fits U float hdr row) (a : Arrays)
    (rows : List (Option (List Str))) :
    (loadRows U float hdr a (some row :: rows)).2 ≠ none := by
  cases rowCase U float hdr row with
  -- a row that is skipped fits
  | skip _ fits _ => exact absurd fits h
  | append v values fits _ =>
    have h_error := a.append_error (v := v) fun hv => h (fits.mpr hv)
    rw [loadRows_of_values values, if_neg h_error]
    exact h_error
  | error e values _ =>
    rw [loadRows, values]
    exact Option.some_ne_none _

/-- **The loop ends without an error** exactly if all rows fit, and then it has appended them. -/
theorem loadRows_iff {a b : Arrays} {records : List (Option (List Str))} :
    loadRows U float hdr a records = (b, none) ↔
      (∀ r ∈ records, ∃ row, r = some row ∧ Fits U float hdr row) ∧
        b = a.addRows (records.filterMap fun r => r.bind (tolerated U float hdr)) := by
  induction records generalizing a with
  | nil => simp [loadRows, Arrays.addRows_nil, eq_comm]
  | cons r records ih =>
    rw [List.forall_mem_cons]
    cases r with
    | none => simp [loadRows]
    | some row =>
      by_cases h : Fits U float hdr row
      · -- the row comes before those of the other records
        have h_rows : (some row :: records).filterMap (fun r => r.bind (tolerated U float hdr)) =
            (tolerated U float hdr row).toList ++
              records.filterMap fun r => r.bind (tolerated U float hdr) := by
          rw [List.filterMap_cons, Option.bind_some]
          cases tolerated U float hdr row <;> rfl
        rw [loadRows_cons h, ih, Arrays.addRows_addRows, h_rows]
        exact and_congr_left fun _ => (and_iff_right ⟨row, rfl, h⟩).symm
      · -- a row that does not fit ends the loop with an error
        refine iff_of_false (fun heq => ?_) fun hall => ?_
        · exact loadRows_cons_error h a records (congrArg Prod.snd heq)
        · obtain ⟨row', h_row, h_fits⟩ := hall.1.1
          obtain rfl := Option.some.inj h_row
          exact h h_fits

/-! ### The indices -/

/-- What the indices hold of a row of the store. -/
def StoreRow.entry (r : StoreRow) : Except LoadError Entry := do
  let cell ← cellOf r.lat r.lon
  .ok ⟨r.borough, r.complaint, r.date, cell⟩

/-- Reading all places of a list one after the other. -/
theorem mapM_range {α β ε : Type} {f : ℕ → Except ε β} {g : α → Except ε β} {l : List α}
    (h : ∀ i a, l[i]? = some a → f i = g a) : (List.range l.length).mapM f = l.mapM g := by
  induction l generalizing f with
  | nil => rfl
  | cons a l ih =>
    -- the places behind the first are those of the rest, one further
    have h_rest : (List.range l.length).mapM (f ∘ Nat.succ) = l.mapM g :=
      ih fun i b hb => h (i + 1) b hb
    rw [List.length_cons, List.range_succ_eq_map, List.mapM_cons, List.mapM_cons, List.mapM_map,
      h 0 a rfl, h_rest]

theorem mapM_isOk {α β ε : Type} {g : α → Except ε β} {l : List α} :
    (∃ bs, l.mapM g = .ok bs) ↔ ∀ a ∈ l, ∃ b, g a = .ok b := by
  induction l with
  | nil => simp [pure, Except.pure]
  | cons a l ih =>
    rw [List.forall_mem_cons, ← ih, List.mapM_cons]
    cases h_a : g a with
    | error e => simp [bind, Except.bind]
    | ok b =>
      cases h_l : l.mapM g with
      | error e => simp [bind, Except.bind]
      | ok bs => simp [bind, Except.bind, pure, Except.pure]

theorem length_mapM {α β ε : Type} {g : α → Except ε β} {l : List α} {bs : List β}
    (h : l.mapM g = .ok bs) : bs.length = l.length := by
  induction l generalizing bs with
  | nil =>
    obtain rfl := Except.ok.inj h
    rfl
  | cons a l ih =>
    rw [List.mapM_cons] at h
    cases h_a : g a with
    | error e => simp [h_a, bind, Except.bind] at h
    | ok b =>
      cases h_l : l.mapM g with
      | error e => simp [h_a, h_l, bind, Except.bind] at h
      | ok bs' =>
        simp only [h_a, h_l, bind, Except.bind, pure, Except.pure, Except.ok.injEq] at h
        rw [← h, List.length_cons, ih h_l, List.length_cons]

theorem entry_addRows (rows : List StoreRow) {i : ℕ} {r : StoreRow} (h : rows[i]? = some r) :
    (Arrays.empty.addRows rows).entry i = r.entry := by
  simp [Arrays.entry, Arrays.addRows, Arrays.empty, h, StoreRow.entry]

theorem StoreRow.entry_isOk {r : StoreRow} : (∃ e, r.entry = .ok e) ↔ Located r.lat r.lon := by
  unfold StoreRow.entry Located
  cases cellOf r.lat r.lon with
  | error e => simp [bind, Except.bind]
  | ok cell => simp [bind, Except.bind]

/-- The index over the entries of all rows. -/
theorem contents_entries {κ : Type} [DecidableEq κ] (key : Entry → κ) {entries : List Entry}
    {n : ℕ} (h : entries.length = n) :
    (Buckets.index (fun i => entries[i]?.map key) (List.range n)).contents.Perm
      (List.range n) := by
  -- every row has an entry, so no row id is left out
  have h_all : ((List.range n).filter fun i => (entries[i]?.map key).isSome) = List.range n := by
    refine List.filter_eq_self.mpr fun i hi => ?_
    rw [Option.isSome_map, List.getElem?_eq_getElem (h ▸ List.mem_range.mp hi), Option.isSome_some]
  have h_perm := Buckets.contents_index (fun i => entries[i]?.map key) (List.range n)
  rwa [h_all] at h_perm

/-- **Building the indices.** It needs all rows to be located, and leaves a store in order. -/
theorem buildIndices_cases (rows : List StoreRow) :
    (∃ s, buildIndices (Arrays.empty.addRows rows) = .ok s ∧ s.InOrder ∧
        s.toArrays = Arrays.empty.addRows rows) ∧ (∀ r ∈ rows, Located r.lat r.lon) ∨
      (∃ e, buildIndices (Arrays.empty.addRows rows) = .error e) ∧
        ¬ ∀ r ∈ rows, Located r.lat r.lon := by
  have h_length : (Arrays.empty.addRows rows).keys.length = rows.length := by
    simp [Arrays.addRows, Arrays.empty]
  -- only the cell of a row can raise an error here
  have h_located : (∃ es, rows.mapM StoreRow.entry = .ok es) ↔
      ∀ r ∈ rows, Located r.lat r.lon := by
    rw [mapM_isOk]
    exact forall₂_congr fun r _ => StoreRow.entry_isOk
  rw [← h_located]
  unfold buildIndices
  dsimp only
  rw [h_length, mapM_range fun i r hr => entry_addRows rows hr]
  cases h_entries : rows.mapM StoreRow.entry with
  | error e => exact Or.inr ⟨⟨e, rfl⟩, by simp⟩
  | ok entries =>
    have h_entries_length := length_mapM h_entries
    refine Or.inl ⟨⟨_, rfl, ?_, rfl⟩, entries, rfl⟩
    constructor
    all_goals simp only [h_length]
    · simp [Arrays.addRows, Arrays.empty]
    · simp [Arrays.addRows, Arrays.empty]
    · simp [Arrays.addRows, Arrays.empty]
    · simp [Arrays.addRows, Arrays.empty]
    · simp [Arrays.addRows, Arrays.empty]
    · simp [List.length_insertionSort, h_entries_length]
    · exact contents_entries Entry.borough h_entries_length
    · exact contents_entries Entry.complaint h_entries_length

/-! ### When loading is tolerant -/

section Records

variable {text : Str} {fields : List Str} {records : List (Option (List Str))}

theorem load_eq (htext : csvRecords text = some fields :: records)
    (hhdr : readHeader U fields = some hdr) : load U float (some text) =
      match loadRows U float hdr .empty records with
      | (_, some e) => .error e
      | (a, none) => buildIndices a := by
  simp only [load, Option.map_some, htext, hhdr]

/-- The rows of usable records are located. -/
theorem located_iff (hfits : ∀ r ∈ records, ∃ row, r = some row ∧ Fits U float hdr row) :
    (∀ r ∈ records.filterMap fun r => r.bind (tolerated U float hdr), Located r.lat r.lon) ↔
      ∀ r ∈ records, ∃ row, r = some row ∧ Usable U float hdr row := by
  constructor
  · intro h r hr
    obtain ⟨row, rfl, h_row⟩ := hfits r hr
    exact ⟨row, rfl, h_row, fun r hr' => h r (List.mem_filterMap.mpr ⟨_, hr, hr'⟩)⟩
  · intro h r hr
    obtain ⟨record, h_record, h_r⟩ := List.mem_filterMap.mp hr
    obtain ⟨row, rfl, h_row⟩ := h record h_record
    exact h_row.located r h_r

/-- A file of usable rows is loaded as it is expected to be. -/
theorem load_of_usable (htext : csvRecords text = some fields :: records)
    (hhdr : readHeader U fields = some hdr)
    (h : ∀ r ∈ records, ∃ row, r = some row ∧ Usable U float hdr row) :
    ∃ s, load U float (some text) = .ok s ∧ s.InOrder ∧ s.toArrays = Arrays.empty.addRows
      (records.filterMap fun r => r.bind (tolerated U float hdr)) := by
  have h_fits : ∀ r ∈ records, ∃ row, r = some row ∧ Fits U float hdr row := by
    intro r hr
    obtain ⟨row, rfl, h_row⟩ := h r hr
    exact ⟨row, rfl, h_row.fits⟩
  -- the loop has appended all rows, and the indices can be built
  rw [load_eq htext hhdr, loadRows_iff.mpr ⟨h_fits, rfl⟩]
  exact ((buildIndices_cases _).resolve_right fun h_error =>
    h_error.2 ((located_iff h_fits).mpr h)).1

/-- Any other file is not loaded. -/
theorem usable_of_load (htext : csvRecords text = some fields :: records)
    (hhdr : readHeader U fields = some hdr) {s : Store} (h : load U float (some text) = .ok s) :
    ∀ r ∈ records, ∃ row, r = some row ∧ Usable U float hdr row := by
  rw [load_eq htext hhdr] at h
  cases h_loop : loadRows U float hdr .empty records with
  | mk a e =>
    rw [h_loop] at h
    cases e with
    | some e => exact absurd h (by simp)
    | none =>
      obtain ⟨h_fits, rfl⟩ := loadRows_iff.mp h_loop
      refine (located_iff h_fits).mp ?_
      rcases buildIndices_cases (records.filterMap fun r => r.bind (tolerated U float hdr)) with
        ⟨-, h_located⟩ | ⟨⟨e, h_error⟩, -⟩
      · exact h_located
      · -- the loop has ended, but the indices could not be built
        exact absurd (h_error.symm.trans h) (by simp)

/-- **Loading is tolerant** of exactly the files that the reader reads, and of which every row
behind the header is usable. -/
theorem tolerates_iff (U : Unicode) (float : Str → Option Double)
    (htext : csvRecords text = some fields :: records) (hhdr : readHeader U fields = some hdr) :
    Tolerates U float hdr text ↔
      ∀ r ∈ records, ∃ row, r = some row ∧ Usable U float hdr row := by
  unfold Tolerates
  rw [htext, List.tail_cons]
  constructor
  · rintro ⟨s, h_load, -⟩
    exact usable_of_load htext hhdr h_load
  · exact load_of_usable htext hhdr

end Records

end Load

/-- A file with a key and a date that are no numbers. -/
def untidyFile : Str := "unique_key,created_ymd\nten,20240115\n11,soon\n".toList

/-- The first row is skipped, and the second has no date. -/
theorem tolerates_untidy :
    Tolerates .ascii (fun _ => none) ⟨0, 1, none, none, none, none, true⟩ untidyFile := by
  have h_records : csvRecords untidyFile = some ["unique_key".toList, "created_ymd".toList] ::
      [some ["ten".toList, "20240115".toList], some ["11".toList, "soon".toList]] := by decide
  have h_first : keyed .ascii ⟨0, 1, none, none, none, none, true⟩
      ["ten".toList, "20240115".toList] = none := by decide
  have h_second : keyed .ascii ⟨0, 1, none, none, none, none, true⟩
      ["11".toList, "soon".toList] = some (11, "soon".toList) := by decide
  refine (tolerates_iff .ascii (fun _ => none) h_records (by decide)).mpr ?_
  simp only [List.forall_mem_cons]
  refine ⟨⟨_, rfl, .of_skipped h_first⟩, ⟨_, rfl, ?_, ?_⟩, by simp⟩
  · intro k date h
    obtain ⟨rfl, rfl⟩ := Prod.mk.inj (Option.some.inj (h_second.symm.trans h))
    exact ⟨by decide, ⟨0, by decide, by decide⟩, rfl, rfl⟩
  · intro r h
    unfold tolerated at h
    rw [h_second] at h
    obtain rfl := Option.some.inj h
    exact ⟨none, rfl⟩

/-- A file with a latitude that is no number. -/
def northFile : Str := "unique_key,created_ymd,latitude\n11,20240115,north\n".toList

/-- It raises a `ValueError`. -/
theorem north_raises : ¬ Tolerates .ascii (fun _ => none) ⟨0, 1, none, none, some 2, none, true⟩
    northFile := by
  rintro ⟨s, h_load, -⟩
  have h_error : (load .ascii (fun _ => none) (some northFile)).toOption.isNone := by decide
  rw [h_load] at h_error
  exact absurd h_error (by simp [Except.toOption])

end Python
end Mini2
