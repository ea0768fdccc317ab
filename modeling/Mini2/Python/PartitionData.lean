import Mini2.Framework.Repeats
import Mini2.Python.CsvRoundTrip
import Mini2.Python.Load

/-!
# scripts/partition_data.py

The script goes through raw files, and appends the rows that have a key to the partition files
of the nodes, row by row: `nodes[key % n]` gets it. What a row needs is only its key; any other
cell may be missing, and is then written as an empty one. The script stops at an error of
`csv.reader`, and where `parse_ymd` raises.

* `parseYmd` and `detectColumns` are not those of the nodes: dates may also have slashes, and
  the column of packed dates is not looked for.
* `partition_holds` — the files hold the rows that are kept, each in the file of its node and
  as `csv.reader` reads it again, and nothing else; also if the script stops early.
-/

namespace Mini2
namespace Python

open Framework

namespace PartitionData

/-! ### Rows -/

/-- What is raised. -/
inductive Raised
  /-- `OSError`, by an input that cannot be opened -/
  | os
  /-- `csv.Error` -/
  | csv
  /-- `ValueError` -/
  | value
  deriving DecidableEq

/-- `str(z)` -/
def str (z : ℤ) : Str := if z < 0 then '-' :: toDec z.natAbs else toDec z.natAbs

/-- What is written of a row. -/
structure Kept where
  key : ℤ
  date : ℤ
  boro : Str
  lat : Str
  lon : Str
  complaint : Str
  deriving DecidableEq

/-- What `writerow` gets. -/
def Kept.fields (k : Kept) : List Str :=
  [str k.key, str k.date, k.boro, k.lat, k.lon, k.complaint]

section Script

variable (U : Unicode)

/-- `parse_ymd`; none where it raises. -/
def parseYmd (s : Str) : Option ℤ :=
  if s.isEmpty then some 0
  else
    let s := strip U s
    if s.length ≥ 8 ∧ isdigit U (s.take 8) then int U (s.take 8)
    else if s.length ≥ 10 ∧ s[4]? = some '-' ∧ s[7]? = some '-' then
      -- the error of a part that is no number is caught
      some <| Option.getD (do
        let y ← int U (slice s 0 4)
        let m ← int U (slice s 5 7)
        let d ← int U (slice s 8 10)
        some (y * 10000 + m * 100 + d)) 0
    else if s.length ≥ 10 ∧ s[2]? = some '/' ∧ s[5]? = some '/' then
      some <| Option.getD (do
        let y ← int U (slice s 6 10)
        let m ← int U (slice s 0 2)
        let d ← int U (slice s 3 5)
        some (y * 10000 + m * 100 + d)) 0
    else some 0

/-- The columns that a header has. -/
structure RawColumns where
  uniqueKey : Option ℕ
  createdDate : Option ℕ
  complaintType : Option ℕ
  borough : Option ℕ
  latitude : Option ℕ
  longitude : Option ℕ

/-- `detect_columns` -/
def detectColumns (header : List Str) : RawColumns where
  uniqueKey := col U header ["unique_key".toList, "Unique Key".toList]
  createdDate := col U header ["created_date".toList, "Created Date".toList]
  complaintType := col U header ["complaint_type".toList, "Complaint Type".toList]
  borough := col U header ["borough".toList, "Borough".toList]
  latitude := col U header ["latitude".toList, "Latitude".toList]
  longitude := col U header ["longitude".toList, "Longitude".toList]

/-- The cell of a row in a column, or an empty one. -/
def cell (row : List Str) (col : Option ℕ) : Str := (fieldAt row col).getD []

/-- The key of a row; none where the row is skipped. -/
def rowKey (cols : RawColumns) (row : List Str) : Option ℤ :=
  let keyStr := cell row cols.uniqueKey
  if keyStr.isEmpty then none
  else
    match int U keyStr with
    | none => none
    | some key => if key = 0 then none else some key

/-- What is written of a row, if it is not skipped. -/
def keep (cols : RawColumns) (row : List Str) : Except Raised (Option Kept) :=
  match rowKey U cols row with
  | none => .ok none
  | some key =>
    match parseYmd U (cell row cols.createdDate) with
    | none => .error .value
    | some date => .ok (some {
        key := key
        date := date
        boro := cell row cols.borough
        lat := cell row cols.latitude
        lon := cell row cols.longitude
        complaint := cell row cols.complaintType })

/-! ### Files -/

/-- `nodes[key % n]`, which is within the list. -/
def nodeOf (nodes : List Str) (key : ℤ) : Str := nodes.getD (key % nodes.length).toNat []

/-- What has been written. -/
structure Output where
  /-- `part_{nid}.csv` -/
  files : Str → Str
  counts : Str → ℕ
  total : ℕ

/-- The files with their headers. -/
def Output.start : Output := ⟨fun _ => writerow headerCanon, fun _ => 0, 0⟩

/-- A row for a node. -/
def Output.write (out : Output) (nid : Str) (k : Kept) : Output where
  files := Function.update out.files nid (out.files nid ++ writerow k.fields)
  counts := Function.update out.counts nid (out.counts nid + 1)
  total := out.total + 1

/-- The loop over the rows of an input, of which `rowsIn` have been written. -/
def partitionRows (nodes : List Str) (limit : ℤ) (cols : RawColumns) (rowsIn : ℕ) (out : Output) :
    List (Option (List Str)) → Output × Option Raised
  | [] => (out, none)
  | none :: _ => (out, some .csv)
  | some row :: rows =>
    match keep U cols row with
    | .error e => (out, some e)
    | .ok none => partitionRows nodes limit cols rowsIn out rows
    | .ok (some k) =>
      let out := out.write (nodeOf nodes k.key) k
      if limit ≠ 0 ∧ (rowsIn + 1 : ℤ) ≥ limit then (out, none)
      else partitionRows nodes limit cols (rowsIn + 1) out rows

/-- One input, none if it cannot be opened. -/
def partitionInput (nodes : List Str) (limit : ℤ) (out : Output) (input : Option Str) :
    Output × Option Raised :=
  match input.map csvRecords with
  | none => (out, some .os)
  | some [] => (out, none)
  | some (none :: _) => (out, some .csv)
  | some (some hdr :: rows) =>
    let cols := detectColumns U hdr
    if hdr = [] ∨ cols.uniqueKey = none then (out, none)
    else partitionRows U nodes limit cols 0 out rows

/-- The loop over the inputs. -/
def partitionInputs (nodes : List Str) (limit : ℤ) (out : Output) :
    List (Option Str) → Output × Option Raised
  | [] => (out, none)
  | input :: inputs =>
    match partitionInput U nodes limit out input with
    | (out, some e) => (out, some e)
    | (out, none) => partitionInputs nodes limit out inputs

/-- The ids that `--nodes` lists. -/
def nodeIds (arg : Str) : List Str := ((arg.splitOn ',').map (strip U)).filter (· ≠ [])

/-- `main`: the files and what has been raised; none where there are no node ids. -/
def main (nodesArg : Str) (limit : ℤ) (inputs : List (Option Str)) :
    Option (Output × Option Raised) :=
  let nodes := nodeIds U nodesArg
  if nodes = [] then none else some (partitionInputs U nodes limit .start inputs)

/-! ### What is expected -/

/-- The rows up to the limit, of which there is none if it is 0. The first row is kept in any
case. -/
def capped (limit : ℤ) (ks : List Kept) : List Kept :=
  if limit = 0 then ks else ks.take (max 1 limit).toNat

/-- The rows to be kept of some records. -/
def keptOf (cols : RawColumns) (rows : List (Option (List Str))) : List Kept :=
  rows.filterMap fun r => r.bind fun row => ((keep U cols row).toOption).join

/-- The rows to be kept of an input. -/
def keptRows (limit : ℤ) (input : Option Str) : List Kept :=
  match input.map csvRecords with
  | some (some hdr :: rows) =>
    let cols := detectColumns U hdr
    if hdr = [] ∨ cols.uniqueKey = none then [] else capped limit (keptOf U cols rows)
  | _ => []

end Script

/-! ### Writing -/

/-- Write rows, each for its node. -/
def Output.writeAll (nodes : List Str) (out : Output) (ks : List Kept) : Output :=
  ks.foldl (fun out k => out.write (nodeOf nodes k.key) k) out

/-- The rows for a node. -/
def share (nodes : List Str) (ks : List Kept) (nid : Str) : List Kept :=
  ks.filter fun k => nodeOf nodes k.key = nid

section Writing

variable {nodes : List Str} {out : Output} {ks : List Kept} {nid : Str}

theorem Output.writeAll_append (ks ks' : List Kept) :
    (out.writeAll nodes ks).writeAll nodes ks' = out.writeAll nodes (ks ++ ks') :=
  (List.foldl_append).symm

theorem share_cons (nodes : List Str) (k : Kept) (ks : List Kept) (nid : Str) :
    share nodes (k :: ks) nid =
      if nodeOf nodes k.key = nid then k :: share nodes ks nid else share nodes ks nid := by
  unfold share
  rw [List.filter_cons]
  simp only [decide_eq_true_eq]

theorem Output.files_writeAll (nodes : List Str) (out : Output) (ks : List Kept) (nid : Str) :
    (out.writeAll nodes ks).files nid =
      out.files nid ++ (share nodes ks nid).flatMap fun k => writerow k.fields := by
  induction ks generalizing out with
  | nil => exact (List.append_nil _).symm
  | cons k ks ih =>
    show ((out.write (nodeOf nodes k.key) k).writeAll nodes ks).files nid = _
    rw [ih, share_cons]
    by_cases h : nodeOf nodes k.key = nid
    · rw [if_pos h, List.flatMap_cons, ← List.append_assoc]
      subst h
      congr 1
      exact Function.update_self _ _ _
    · rw [if_neg h]
      congr 1
      exact Function.update_of_ne (Ne.symm h) _ _

theorem Output.counts_writeAll (nodes : List Str) (out : Output) (ks : List Kept) (nid : Str) :
    (out.writeAll nodes ks).counts nid = out.counts nid + (share nodes ks nid).length := by
  induction ks generalizing out with
  | nil => rfl
  | cons k ks ih =>
    show ((out.write (nodeOf nodes k.key) k).writeAll nodes ks).counts nid = _
    rw [ih, share_cons]
    by_cases h : nodeOf nodes k.key = nid
    · rw [if_pos h, List.length_cons]
      subst h
      rw [show (out.write (nodeOf nodes k.key) k).counts (nodeOf nodes k.key) =
        out.counts (nodeOf nodes k.key) + 1 from Function.update_self _ _ _]
      exact Nat.add_right_comm _ _ _
    · rw [if_neg h]
      congr 1
      exact Function.update_of_ne (Ne.symm h) _ _

theorem Output.total_writeAll (nodes : List Str) (out : Output) (ks : List Kept) :
    (out.writeAll nodes ks).total = out.total + ks.length := by
  induction ks generalizing out with
  | nil => rfl
  | cons k ks ih =>
    show ((out.write (nodeOf nodes k.key) k).writeAll nodes ks).total = _
    rw [ih, List.length_cons]
    exact Nat.add_right_comm _ _ _

/-- Every key has a node. -/
theorem nodeOf_mem (hne : nodes ≠ []) (key : ℤ) : nodeOf nodes key ∈ nodes := by
  have h_pos : 0 < nodes.length := List.length_pos_iff.mpr hne
  have h_nonneg : 0 ≤ key % nodes.length := Int.emod_nonneg _ (by omega)
  have h_lt : key % nodes.length < nodes.length := Int.emod_lt_of_pos _ (by omega)
  have h_in : (key % nodes.length).toNat < nodes.length := by omega
  rw [nodeOf, List.getD_eq_getElem _ _ h_in]
  exact List.getElem_mem h_in

/-- Together, the nodes have all rows. -/
theorem flatMap_share_perm (hne : nodes ≠ []) (ks : List Kept) :
    (nodes.dedup.flatMap (share nodes ks)).Perm ks := by
  have h_owner : ∀ k ∈ ks, ∃ n ∈ nodes.dedup, some (nodeOf nodes k.key) = some n := fun k _ =>
    ⟨_, List.mem_dedup.mpr (nodeOf_mem hne k.key), rfl⟩
  refine (List.Perm.of_eq (List.flatMap_congr fun nid _ => ?_)).trans
    (flatMap_filter_perm nodes.nodup_dedup h_owner)
  exact List.filter_congr fun k _ => decide_eq_decide.mpr Option.some_inj.symm

end Writing

/-! ### Going through the inputs -/

section Inputs

variable {U : Unicode} {nodes : List Str} {limit : ℤ} {cols : RawColumns}

/-- What a part of the script does: it writes rows of those that are expected, the first ones
if it raises something, and else all of them. -/
structure Writes (nodes : List Str) (out : Output) (ks : List Kept)
    (r : Output × Option Raised) (done : List Kept) : Prop where
  out_eq : r.1 = out.writeAll nodes done
  prefix_of : done <+: ks
  all : r.2 = none → done = ks

theorem Writes.nothing {out : Output} {ks : List Kept} (e : Raised) :
    Writes nodes out ks (out, some e) [] :=
  ⟨rfl, List.nil_prefix, fun h => absurd h (by simp)⟩

/-- The rows after some have been written. -/
def rest (limit : ℤ) (rowsIn : ℕ) (ks : List Kept) : List Kept :=
  if limit = 0 then ks else ks.take (max 1 (limit - rowsIn)).toNat

theorem rest_cons_of_stop {rowsIn : ℕ} {k : Kept} {ks : List Kept}
    (h : limit ≠ 0 ∧ (rowsIn + 1 : ℤ) ≥ limit) : rest limit rowsIn (k :: ks) = [k] := by
  have h_one : (max 1 (limit - rowsIn)).toNat = 1 := by
    rw [max_eq_left (by omega)]
    rfl
  rw [rest, if_neg h.1, h_one]
  rfl

theorem rest_cons_of_go {rowsIn : ℕ} {k : Kept} {ks : List Kept}
    (h : ¬ (limit ≠ 0 ∧ (rowsIn + 1 : ℤ) ≥ limit)) :
    rest limit rowsIn (k :: ks) = k :: rest limit (rowsIn + 1) ks := by
  unfold rest
  by_cases h_zero : limit = 0
  · rw [if_pos h_zero, if_pos h_zero]
  · have h_lt : (rowsIn + 1 : ℤ) < limit := lt_of_not_ge fun h_ge => h ⟨h_zero, h_ge⟩
    have h_take : (max 1 (limit - rowsIn)).toNat =
        (max 1 (limit - ((rowsIn + 1 : ℕ) : ℤ))).toNat + 1 := by
      push_cast
      rw [max_eq_right (by omega), max_eq_right (by omega)]
      omega
    rw [if_neg h_zero, if_neg h_zero, h_take, List.take_succ_cons]

theorem keptOf_cons (row : List Str) (rows : List (Option (List Str))) :
    keptOf U cols (some row :: rows) =
      ((keep U cols row).toOption.join).toList ++ keptOf U cols rows := by
  unfold keptOf
  rw [List.filterMap_cons, Option.bind_some]
  cases (keep U cols row).toOption.join <;> rfl

/-- **The loop over the rows** writes those that are kept. -/
theorem partitionRows_writes (rowsIn : ℕ) (out : Output) (rows : List (Option (List Str))) :
    ∃ done, Writes nodes out (rest limit rowsIn (keptOf U cols rows))
      (partitionRows U nodes limit cols rowsIn out rows) done := by
  induction rows generalizing rowsIn out with
  | nil =>
    -- no row is left
    refine ⟨[], rfl, List.nil_prefix, fun _ => ?_⟩
    unfold rest
    split <;> simp [keptOf]
  | cons r rows ih =>
    cases r with
    -- the reader, or the row, raises
    | none => exact ⟨[], .nothing .csv⟩
    | some row =>
      unfold partitionRows
      rw [keptOf_cons]
      cases h_keep : keep U cols row with
      | error e => exact ⟨[], .nothing e⟩
      | ok k =>
        cases k with
        -- the row is skipped
        | none => exact ih rowsIn out
        | some k =>
          show ∃ done, Writes nodes out (rest limit rowsIn (k :: keptOf U cols rows)) _ done
          dsimp only
          split
          · next h_stop =>
            -- the limit has been reached with this row
            rw [rest_cons_of_stop h_stop]
            exact ⟨[k], rfl, List.prefix_rfl, fun _ => rfl⟩
          · next h_go =>
            rw [rest_cons_of_go h_go]
            obtain ⟨done, h_done⟩ := ih (rowsIn + 1) (out.write (nodeOf nodes k.key) k)
            exact ⟨k :: done, h_done.out_eq, (List.cons_prefix_cons).mpr ⟨rfl, h_done.prefix_of⟩,
              fun h => congrArg (k :: ·) (h_done.all h)⟩

theorem rest_zero (ks : List Kept) : rest limit 0 ks = capped limit ks := by
  unfold rest capped
  rw [Nat.cast_zero, sub_zero]

theorem partitionInput_writes (out : Output) (input : Option Str) :
    ∃ done, Writes nodes out (keptRows U limit input) (partitionInput U nodes limit out input)
      done := by
  unfold partitionInput keptRows
  cases input.map csvRecords with
  -- a file that cannot be opened or read
  | none => exact ⟨[], .nothing .os⟩
  | some records =>
    cases records with
    -- an empty file is skipped, and so is one without a key column
    | nil => exact ⟨[], rfl, List.nil_prefix, fun _ => rfl⟩
    | cons hdr rows =>
      cases hdr with
      | none => exact ⟨[], .nothing .csv⟩
      | some hdr =>
        dsimp only
        split
        · exact ⟨[], rfl, List.nil_prefix, fun _ => rfl⟩
        · rw [← rest_zero]
          exact partitionRows_writes 0 out rows

/-- **The loop over the inputs** writes what is kept of them. -/
theorem partitionInputs_writes (out : Output) (inputs : List (Option Str)) :
    ∃ done, Writes nodes out (inputs.flatMap (keptRows U limit))
      (partitionInputs U nodes limit out inputs) done := by
  induction inputs generalizing out with
  | nil => exact ⟨[], rfl, List.nil_prefix, fun _ => rfl⟩
  | cons input inputs ih =>
    -- the first input, and then the others, if nothing has been raised
    obtain ⟨first, h_first⟩ : ∃ first, Writes nodes out (keptRows U limit input)
        (partitionInput U nodes limit out input) first := partitionInput_writes out input
    unfold partitionInputs
    rw [List.flatMap_cons]
    generalize partitionInput U nodes limit out input = r at h_first
    obtain ⟨out₁, e⟩ := r
    cases e with
    | some e =>
      exact ⟨first, h_first.out_eq, h_first.prefix_of.trans (List.prefix_append _ _),
        fun h => absurd h (by simp)⟩
    | none =>
      obtain ⟨done, h_done⟩ := ih out₁
      have h_all : first = keptRows U limit input := h_first.all rfl
      refine ⟨first ++ done, ?_, ?_, fun h => ?_⟩
      · rw [← Output.writeAll_append, ← h_first.out_eq]
        exact h_done.out_eq
      · rw [h_all]
        exact (List.prefix_append_right_inj _).mpr h_done.prefix_of
      · rw [h_all, h_done.all h]

end Inputs

/-! ### How long the fields are -/

section Length

variable {U : Unicode}

theorem length_str_le {z : ℤ} {n : ℕ} (hn : 0 < n) (h : z.natAbs < 10 ^ n) :
    (str z).length ≤ n + 1 := by
  have h_dec : (toDec z.natAbs).length ≤ n := (Nat.length_toDigits_le_iff (by decide) hn).mpr h
  unfold str
  split
  · exact Nat.succ_le_succ h_dec
  · exact h_dec.trans (Nat.le_succ n)

/-- A number of a slice is as long as the slice at most. -/
theorem natAbs_lt_of_slice {s : Str} {i n : ℕ} {z : ℤ} (h : int U (slice s i (i + n)) = some z) :
    z.natAbs < 10 ^ n := by
  have h_length : (slice s i (i + n)).length ≤ n := by
    rw [slice, List.length_drop, List.length_take]
    omega
  exact (int_natAbs_lt U h).trans_le (Nat.pow_le_pow_right (by decide) h_length)

/-- The three parts of a date make a number of nine digits at most. -/
theorem natAbs_lt_of_parts {s : Str} {i j k : ℕ} : (Option.getD (do
      let y ← int U (slice s i (i + 4))
      let m ← int U (slice s j (j + 2))
      let d ← int U (slice s k (k + 2))
      some (y * 10000 + m * 100 + d)) 0).natAbs < 10 ^ 9 := by
  cases h_y : int U (slice s i (i + 4)) with
  -- a part that is no number makes the date zero
  | none => exact (show (0 : ℤ).natAbs < 10 ^ 9 by decide)
  | some y =>
    cases h_m : int U (slice s j (j + 2)) with
    | none => exact (show (0 : ℤ).natAbs < 10 ^ 9 by decide)
    | some m =>
      cases h_d : int U (slice s k (k + 2)) with
      | none => exact (show (0 : ℤ).natAbs < 10 ^ 9 by decide)
      | some d =>
        have h_year : y.natAbs < 10 ^ 4 := natAbs_lt_of_slice h_y
        have h_month : m.natAbs < 10 ^ 2 := natAbs_lt_of_slice h_m
        have h_day : d.natAbs < 10 ^ 2 := natAbs_lt_of_slice h_d
        show (y * 10000 + m * 100 + d).natAbs < 10 ^ 9
        omega

theorem natAbs_lt_of_parseYmd {s : Str} {z : ℤ} (h : parseYmd U s = some z) :
    z.natAbs < 10 ^ 9 := by
  unfold parseYmd at h
  split at h
  · obtain rfl := Option.some.inj h
    decide
  · generalize strip U s = t at h
    dsimp only at h
    -- eight digits in front, or three parts in one of two orders
    split at h
    · have h_eight : (t.take 8).length ≤ 8 := List.length_take_le _ _
      exact (int_natAbs_lt U h).trans_le (Nat.pow_le_pow_right (by decide) (by omega))
    · split at h
      · exact Option.some.inj h ▸ natAbs_lt_of_parts (i := 0) (j := 5) (k := 8)
      · split at h
        · exact Option.some.inj h ▸ natAbs_lt_of_parts (i := 6) (j := 0) (k := 3)
        · obtain rfl := Option.some.inj h
          decide

theorem length_cell_le {row : List Str} {n : ℕ} (hrow : ∀ f ∈ row, f.length ≤ n)
    (col : Option ℕ) : (cell row col).length ≤ n := by
  unfold cell
  cases h_cell : fieldAt row col with
  | none => exact Nat.zero_le _
  | some f =>
    obtain ⟨i, -, h_f⟩ := Option.bind_eq_some_iff.mp h_cell
    exact hrow f (List.mem_of_getElem? h_f)

theorem int_of_rowKey {cols : RawColumns} {row : List Str} {key : ℤ}
    (h : rowKey U cols row = some key) : int U (cell row cols.uniqueKey) = some key := by
  unfold rowKey at h
  dsimp only at h
  split at h
  · exact absurd h (by simp)
  · split at h
    · exact absurd h (by simp)
    · next h_int =>
      split at h
      · exact absurd h (by simp)
      · rwa [← h]

/-- **What is written of a row** that has been read can be read again. -/
theorem length_fields_le {cols : RawColumns} {row : List Str} {k : Kept}
    (hrow : ∀ f ∈ row, f.length ≤ CsvReader.fieldLimit) (h : keep U cols row = .ok (some k)) :
    ∀ f ∈ k.fields, f.length ≤ CsvReader.fieldLimit := by
  unfold keep at h
  split at h
  · exact absurd h (by simp)
  · next key h_key =>
    split at h
    · exact absurd h (by simp)
    · next date h_date =>
      obtain rfl := Option.some.inj (Except.ok.inj h)
      -- numbers are short, as `int` reads no long ones
      have h_int : (str key).length ≤ maxStrDigits + 1 :=
        length_str_le (by decide) (natAbs_lt_of_int U (int_of_rowKey h_key))
      have h_ymd : (str date).length ≤ 9 + 1 :=
        length_str_le (by decide) (natAbs_lt_of_parseYmd h_date)
      -- and the other fields are cells of the row
      have h_cell := length_cell_le hrow
      unfold Kept.fields
      simp only [List.forall_mem_cons]
      exact ⟨h_int.trans (by decide), h_ymd.trans (by decide), h_cell _, h_cell _, h_cell _,
        h_cell _, fun _ h => absurd h List.not_mem_nil⟩

theorem keptRows_length_le {limit : ℤ} {input : Option Str} {k : Kept}
    (hk : k ∈ keptRows U limit input) : ∀ f ∈ k.fields, f.length ≤ CsvReader.fieldLimit := by
  unfold keptRows at hk
  split at hk
  · next hdr rows h_records =>
    obtain ⟨text, -, h_text⟩ := Option.map_eq_some_iff.mp h_records
    dsimp only at hk
    split at hk
    · exact absurd hk List.not_mem_nil
    · -- the cap takes rows away only
      have h_kept : k ∈ keptOf U (detectColumns U hdr) rows := by
        unfold capped at hk
        split at hk
        · exact hk
        · exact List.mem_of_mem_take hk
      obtain ⟨r, hr, h_keep⟩ := List.mem_filterMap.mp h_kept
      obtain ⟨row, rfl, h_row⟩ := Option.bind_eq_some_iff.mp h_keep
      -- a row is kept where the script raises nothing
      have h_ok : keep U (detectColumns U hdr) row = .ok (some k) := by
        cases h_case : keep U (detectColumns U hdr) row with
        | error e => simp [h_case, Except.toOption] at h_row
        | ok o =>
          cases o with
          | none => simp [h_case, Except.toOption] at h_row
          | some k' =>
            rw [h_case] at h_row
            exact congrArg _ h_row
      -- its cells come from the reader, which bounds them
      have h_mem : some row ∈ csvRecords text := by
        rw [h_text]
        exact List.mem_cons_of_mem _ hr
      exact length_fields_le (length_le_of_mem_csvRecords h_mem) h_ok
  · exact absurd hk List.not_mem_nil

end Length

/-! ### What the script does -/

/-- The files of the nodes hold the rows. -/
structure Output.Holds (nodes : List Str) (out : Output) (ks : List Kept) : Prop where
  /-- Each file has those of its node, in their order. -/
  files : ∀ nid ∈ nodes, out.files nid =
    writerow headerCanon ++ (share nodes ks nid).flatMap fun k => writerow k.fields
  /-- This is how `csv.reader` reads it again. -/
  reads : ∀ nid ∈ nodes, csvRecords (out.files nid) =
    some headerCanon :: (share nodes ks nid).map fun k => some k.fields
  counts : ∀ nid ∈ nodes, out.counts nid = (share nodes ks nid).length
  total : out.total = ks.length
  /-- Each row is in one file. -/
  perm : (nodes.dedup.flatMap (share nodes ks)).Perm ks

theorem length_headerCanon_le : ∀ f ∈ headerCanon, f.length ≤ CsvReader.fieldLimit := by decide

/-- Rows that can be read again are held by the files they are written to. -/
theorem Output.holds_writeAll {nodes : List Str} (hne : nodes ≠ []) {ks : List Kept}
    (hlength : ∀ k ∈ ks, ∀ f ∈ k.fields, f.length ≤ CsvReader.fieldLimit) :
    (Output.start.writeAll nodes ks).Holds nodes ks where
  files nid _ := Output.files_writeAll nodes .start ks nid
  reads nid _ := by
    -- the rows of a share are among those kept
    have h_length : ∀ row ∈ (share nodes ks nid).map Kept.fields,
        ∀ f ∈ row, f.length ≤ CsvReader.fieldLimit := by
      intro row hrow
      obtain ⟨k, hk, rfl⟩ := List.mem_map.mp hrow
      exact hlength k (List.mem_filter.mp hk).1
    -- the writer's rows come back one by one
    calc csvRecords ((Output.start.writeAll nodes ks).files nid)
        = csvRecords (writerow headerCanon ++
            ((share nodes ks nid).map Kept.fields).flatMap writerow) := by
          rw [Output.files_writeAll, List.flatMap_map]
          rfl
      _ = some headerCanon :: ((share nodes ks nid).map Kept.fields).map some := by
          rw [csvRecords_writerow length_headerCanon_le, csvRecords_writerows h_length]
      _ = some headerCanon :: (share nodes ks nid).map fun k => some k.fields := by
          rw [List.map_map]
          rfl
  counts nid _ := by
    rw [Output.counts_writeAll]
    exact Nat.zero_add _
  total := by
    rw [Output.total_writeAll]
    exact Nat.zero_add _
  perm := flatMap_share_perm hne ks

section Main

variable {U : Unicode} {nodesArg : Str} {limit : ℤ} {inputs : List (Option Str)}

theorem main_writes {r : Output × Option Raised} (h : main U nodesArg limit inputs = some r) :
    nodeIds U nodesArg ≠ [] ∧ ∃ ks, Writes (nodeIds U nodesArg) .start
      (inputs.flatMap (keptRows U limit)) r ks := by
  unfold main at h
  dsimp only at h
  split at h
  · exact absurd h (by simp)
  · next h_ne =>
    refine ⟨h_ne, ?_⟩
    rw [← Option.some.inj h]
    exact partitionInputs_writes .start inputs

/-- What the script has kept can be read again. -/
theorem Writes.holds {nodes : List Str} {r : Output × Option Raised} {ks : List Kept}
    (hne : nodes ≠ []) (h : Writes nodes .start (inputs.flatMap (keptRows U limit)) r ks) :
    r.1.Holds nodes ks := by
  rw [h.out_eq]
  refine Output.holds_writeAll hne fun k hk => ?_
  obtain ⟨input, -, h_kept⟩ := List.mem_flatMap.mp (h.prefix_of.subset hk)
  exact keptRows_length_le h_kept

/-- **The partition files hold what is kept of the inputs**, up to where the script raises
something, if it does. -/
theorem partition_holds (U : Unicode) (nodesArg : Str) (limit : ℤ) (inputs : List (Option Str))
    {out : Output} {e : Option Raised} (h : main U nodesArg limit inputs = some (out, e)) :
    ∃ ks : List Kept, ks <+: inputs.flatMap (keptRows U limit) ∧
      (e = none → ks = inputs.flatMap (keptRows U limit)) ∧
      out.Holds (nodeIds U nodesArg) ks := by
  obtain ⟨h_ne, ks, h_writes⟩ := main_writes h
  exact ⟨ks, h_writes.prefix_of, h_writes.all, h_writes.holds h_ne⟩

end Main

/-- A raw file: a date with slashes, a complaint type with all that has to be quoted, a row
without a key and one that is too short. -/
def rawFile : Str :=
  "Unique Key,Created Date,Complaint Type,Borough\n".toList ++
    "7,01/15/2024,\"a \"\"b\"\",\r\nc\",BRONX\n,x\n-8\n".toList

/-- It is spread over two nodes. -/
theorem partition_holds_raw : ∃ out ks, main .ascii "A, B,".toList 0 [some rawFile] =
      some (out, none) ∧ ks.map Kept.key = [7, -8] ∧
      out.Holds ["A".toList, "B".toList] ks := by
  obtain ⟨out, h_main⟩ : ∃ out, main .ascii "A, B,".toList 0 [some rawFile] = some (out, none) := by
    have h_none : (main .ascii "A, B,".toList 0 [some rawFile]).map Prod.snd = some none := by
      decide +kernel
    obtain ⟨⟨out, e⟩, h_main, rfl⟩ := Option.map_eq_some_iff.mp h_none
    exact ⟨out, h_main⟩
  obtain ⟨ks, -, h_ks, h_holds⟩ := partition_holds .ascii "A, B,".toList 0 [some rawFile] h_main
  refine ⟨out, ks, h_main, ?_, ?_⟩
  · rw [h_ks rfl]
    decide +kernel
  · rwa [show nodeIds .ascii "A, B,".toList = ["A".toList, "B".toList] by decide] at h_holds

end PartitionData
end Python
end Mini2
