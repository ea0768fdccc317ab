import Mathlib.Tactic.IntervalCases
import Mini2.Data.Text

/-!
# 311 records and queries

The typed record of a 311 row, and the specification of a query. Coordinates are
doubles in the code and rationals here.
-/

namespace Mini2

/-- `Borough`. -/
inductive Borough
  | unspecified
  | manhattan
  | brooklyn
  | queens
  | bronx
  | statenIsland
  deriving DecidableEq

def boroughFromString (s : Str) : Borough :=
  if s = "MANHATTAN".toList then .manhattan
  else if s = "BROOKLYN".toList then .brooklyn
  else if s = "QUEENS".toList then .queens
  else if s = "BRONX".toList then .bronx
  else if s = "STATEN ISLAND".toList then .statenIsland
  else .unspecified

/-- The value of a borough, which is also its `BoroughEnum`. -/
def Borough.code : Borough → ℤ
  | .unspecified => 0
  | .manhattan => 1
  | .brooklyn => 2
  | .queens => 3
  | .bronx => 4
  | .statenIsland => 5

/-- The borough that a message names, or a value of the enumeration's 8 bits that is none. -/
def fromProto (b : ℤ) : Option Borough :=
  match b % 256 with
  | 0 => some .unspecified
  | 1 => some .manhattan
  | 2 => some .brooklyn
  | 3 => some .queens
  | 4 => some .bronx
  | 5 => some .statenIsland
  | _ => none

/-- The six values of `BoroughEnum` are read as they are meant. -/
theorem fromProto_eq_some {b : ℤ} (hb : 0 ≤ b ∧ b ≤ 5) {borough : Borough} :
    fromProto b = some borough ↔ borough.code = b := by
  obtain ⟨h_low, h_high⟩ := hb
  interval_cases b <;> cases borough <;> decide

/-- `c - '0'`, cast to `uint32_t`; a byte above 127 is a negative `char`. -/
def digit (c : Char) : UInt32 :=
  if c.toNat < 128 then UInt32.ofNat c.toNat - 48 else UInt32.ofNat c.toNat - 256 - 48

/-- Parse "YYYY-MM-DD..." into a packed date. The separators are not looked at. -/
def parseYmd (s : Str) : UInt32 :=
  match s with
  | y₁ :: y₂ :: y₃ :: y₄ :: _ :: m₁ :: m₂ :: _ :: d₁ :: d₂ :: _ =>
    if y₁ < '0' ∨ y₁ > '9' then 0
    else
      let y := digit y₁ * 1000 + digit y₂ * 100 + digit y₃ * 10 + digit y₄
      let m := digit m₁ * 10 + digit m₂
      let dd := digit d₁ * 10 + digit d₂
      y * 10000 + m * 100 + dd
  | _ => 0

example : parseYmd "2024-03-07T10:00".toList = 20240307 := by decide

/-- One row of 311 data. -/
@[ext]
structure Row311 where
  uniqueKey : UInt64
  createdYmd : UInt32
  borough : Borough
  latitude : ℚ
  longitude : ℚ
  complaintType : Str
  deriving DecidableEq

/-- `QuerySpec`. A field that is zero or empty stands for any value. The borough is an open
enumeration, and so any number. -/
structure QuerySpec where
  borough : ℤ
  complaintType : Str
  dateFrom : UInt32
  dateTo : UInt32
  minLat : ℚ
  maxLat : ℚ
  minLon : ℚ
  maxLon : ℚ
  useGeoBox : Bool
  maxRows : UInt32
  deriving DecidableEq

namespace QuerySpec

variable (q : QuerySpec) (r : Row311)

/-- The row has the borough asked for. -/
def boroughOk : Bool := q.borough = 0 || r.borough.code = q.borough

def complaintOk : Bool := q.complaintType.isEmpty || r.complaintType = q.complaintType

def dateOk : Bool :=
  (q.dateFrom = 0 || q.dateFrom ≤ r.createdYmd) && (q.dateTo = 0 || r.createdYmd ≤ q.dateTo)

/-- The row lies in the closed box of the query. -/
def inBox : Bool :=
  q.minLat ≤ r.latitude && r.latitude ≤ q.maxLat && q.minLon ≤ r.longitude &&
    r.longitude ≤ q.maxLon

/-- The row satisfies every predicate but the box. -/
def indexedOk : Bool := q.boroughOk r && q.complaintOk r && q.dateOk r

/-- **What a query asks for**, row by row. -/
def admits : Bool := q.indexedOk r && (!q.useGeoBox || q.inBox r)

/-- The cap of a query, which zero lifts. -/
def cut {α : Type*} (rows : List α) : List α :=
  if q.maxRows = 0 then rows else rows.take q.maxRows.toNat

theorem cut_map {α β : Type*} (f : α → β) (rows : List α) :
    q.cut (rows.map f) = (q.cut rows).map f := by
  unfold cut
  split
  · rfl
  · rw [List.map_take]

theorem mem_of_mem_cut {α : Type*} {rows : List α} {r : α} (h : r ∈ q.cut rows) : r ∈ rows := by
  unfold cut at h
  split at h
  · exact h
  · exact List.mem_of_mem_take h

/-- A cap leaves something of every list that is not empty. -/
theorem cut_eq_nil {α : Type*} {rows : List α} : q.cut rows = [] ↔ rows = [] := by
  unfold cut
  split
  · exact Iff.rfl
  · next h_cap =>
    rw [List.take_eq_nil_iff]
    exact or_iff_right fun h => h_cap (UInt32.toNat_inj.mp h)

/-- On lists of at most `n` rows, a cap is there whether lifted or not. -/
theorem cut_eq_take {α : Type*} {rows : List α} {n : ℕ} (h : rows.length ≤ n) :
    q.cut rows = rows.take (if q.maxRows = 0 then n else q.maxRows.toNat) := by
  unfold cut
  split
  · exact (List.take_of_length_le h).symm
  · rfl

/-- A cap that is set is positive, so it leaves room for a first row. -/
theorem maxRows_pos : q.maxRows = 0 ∨ 0 < q.maxRows.toNat := by
  by_cases h_cap : q.maxRows = 0
  · exact Or.inl h_cap
  · refine Or.inr (Nat.pos_of_ne_zero fun h => h_cap ?_)
    exact UInt32.toNat_inj.mp h

end QuerySpec
end Mini2
