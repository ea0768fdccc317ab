import Mini2.Python.Load

/-!
# Cells on both loaders

The C++ loader takes for a number what a cell starts with, and the Python loader takes a cell
as a whole or not at all. A borough has to be the very name in C++, and the name up to case
and blanks in Python.

`SameKey`, `SameDate` and `SameBorough` say of the characters of two cells when the loaders
make the same of them, and `sameKey_iff`, `sameDate_iff` and `sameBorough_iff` that they do
then and only then.
-/

namespace Mini2

theorem toNat_parseU64Safe (s : Str) : (parseU64Safe s).toNat = toULong (leadingInt s) := by
  unfold parseU64Safe
  split
  · next h_empty =>
    rw [List.isEmpty_iff.mp h_empty]
    rfl
  · rw [UInt64.toNat_ofNat', strtoull_eq, Nat.mod_eq_of_lt (toULong_lt _)]

theorem toNat_parseDateAny (s : Str) :
    (parseDateAny s true).toNat = toULong (leadingInt s) % 2 ^ 32 := by
  unfold parseDateAny
  split
  · next h_empty =>
    rw [List.isEmpty_iff.mp h_empty]
    rfl
  · rw [if_pos rfl, UInt32.toNat_ofNat', strtoull_eq]

theorem parseU64Safe_ne_zero {s : Str} : parseU64Safe s ≠ 0 ↔ ∃ z ≠ 0, LeadingNumber s z := by
  have h_zero : parseU64Safe s ≠ 0 ↔ leadingInt s ≠ 0 := by
    rw [ne_eq, ne_eq, ← toULong_eq_zero, ← toNat_parseU64Safe, ← UInt64.toNat_inj]
    rfl
  rw [h_zero]
  constructor
  · exact fun h => ⟨_, h, (leadingNumber_iff h).mpr rfl⟩
  · rintro ⟨z, h_ne, h_number⟩
    rwa [h_number.read.2]

namespace Python

variable (U : Unicode)

/-! ### Keys and dates -/

/-- The cells are the same key of 64 bits, other than zero. -/
def SameKey (s s' : Str) : Prop :=
  ∃ k : ℕ, (k ≠ 0 ∧ k < 2 ^ 64) ∧ (∃ z, StartsWith s z ∧ (toULong z : ℤ) = k) ∧
    WholeNumber (s'.map U.toAscii) k

/-- The cells are the same date of 32 bits, where a cell that is no number counts as zero. -/
def SameDate (s s' : Str) : Prop :=
  ∃ d : ℕ, d < 2 ^ 32 ∧ (∃ z, StartsWith s z ∧ toULong z % 2 ^ 32 = d) ∧
    CountsAs (s'.map U.toAscii) d

section Numbers

variable {U} {s s' : Str}

theorem int_of_isEmpty (h : s.isEmpty) : int U s = none := by
  rw [List.isEmpty_iff.mp h]
  rfl

theorem keyOf_eq_some {k : ℤ} (hk : k ≠ 0) :
    keyOf U s = some k ↔ WholeNumber (s.map U.toAscii) k := by
  rw [← int_eq_some, keyOf]
  split
  · next h_empty => simp [int_of_isEmpty h_empty, hk.symm]
  · rfl

theorem dateOf_eq_some {d : ℤ} :
    dateOf U true s = some d ↔ CountsAs (s.map U.toAscii) d := by
  rw [countsAs_iff, dateOf, if_pos rfl, Option.some.injEq]
  split
  · next h_empty => rw [int_of_isEmpty h_empty, Option.getD_none]
  · rfl

theorem sameKey_iff : SameKey U s s' ↔
    parseU64Safe s ≠ 0 ∧ keyOf U s' = some ((parseU64Safe s).toNat : ℤ) := by
  have h_lt := (parseU64Safe s).toNat_lt
  unfold SameKey
  simp only [startsWith_iff, exists_eq_left', ← toNat_parseU64Safe, Nat.cast_inj]
  constructor
  · rintro ⟨k, ⟨h_ne, -⟩, rfl, h_whole⟩
    exact ⟨fun h => h_ne (congrArg UInt64.toNat h),
      (keyOf_eq_some (Nat.cast_ne_zero.mpr h_ne)).mpr h_whole⟩
  · rintro ⟨h_ne, h_key⟩
    have h_nat : (parseU64Safe s).toNat ≠ 0 := fun h => h_ne (UInt64.toNat_inj.mp h)
    exact ⟨_, ⟨h_nat, h_lt⟩, rfl, (keyOf_eq_some (Nat.cast_ne_zero.mpr h_nat)).mp h_key⟩

theorem sameDate_iff :
    SameDate U s s' ↔ dateOf U true s' = some ((parseDateAny s true).toNat : ℤ) := by
  have h_lt := (parseDateAny s true).toNat_lt
  unfold SameDate
  simp only [startsWith_iff, exists_eq_left', ← toNat_parseDateAny, dateOf_eq_some]
  constructor
  · rintro ⟨d, -, rfl, h_counts⟩
    exact h_counts
  · exact fun h_counts => ⟨_, h_lt, rfl, h_counts⟩

/-- **A cell is the same key to both loaders** if it is digits, and a plus at most, with a value
of 64 bits other than zero. -/
theorem sameKey_self (hs : Ascii s) : SameKey U s s ↔ PlainNumber (2 ^ 64) s := by
  have h_map : s.map U.toAscii = s := by
    refine (List.map_congr_left fun c hc => ?_).trans (List.map_id s)
    exact U.toAscii_of_ascii c (hs c hc)
  have h_keeps : ∀ n : ℕ, n < 2 ^ 64 → (toULong n : ℤ) = n :=
    fun n hn => congrArg Nat.cast (toULong_natCast hn)
  rw [← plainNumber_iff (f := fun z => toULong z) h_keeps, SameKey, h_map]

end Numbers

/-! ### Boroughs -/

def boroughNames : List Str :=
  ["MANHATTAN".toList, "BROOKLYN".toList, "QUEENS".toList, "BRONX".toList, "STATEN ISLAND".toList]

/-- The text is the name, up to case and to blanks around it. -/
def Spells (s name : Str) : Prop :=
  ∃ before after, upper U s = before ++ (name ++ after) ∧ (∀ c ∈ before, U.isSpace c) ∧
    ∀ c ∈ after, U.isSpace c

/-- One cell is the name of a borough, and the other one spells it, or neither is and does. -/
def SameBorough (cell cell' : Option Str) : Prop :=
  ∀ name ∈ boroughNames, cell = some name ↔ ∃ s ∈ cell', Spells U s name

section Boroughs

variable {U} {s name : Str}

/-- What `strip` leaves is what stands between blanks. -/
theorem strip_eq_iff (hne : name ≠ []) (hhead : ∀ c ∈ name.head?, U.isSpace c = false)
    (hlast : ∀ c ∈ name.getLast?, U.isSpace c = false) : strip U s = name ↔
      ∃ before after, s = before ++ (name ++ after) ∧ (∀ c ∈ before, U.isSpace c) ∧
        ∀ c ∈ after, U.isSpace c := by
  constructor
  · rintro rfl
    obtain ⟨after, h_back, h_after⟩ := exists_dropBack U.isSpace (s.dropWhile U.isSpace)
    refine ⟨s.takeWhile U.isSpace, after, ?_, fun _ hc => List.mem_takeWhile_imp hc, h_after⟩
    rw [strip, ← h_back, List.takeWhile_append_dropWhile]
  · rintro ⟨before, after, rfl, h_before, h_after⟩
    have h_head : ∀ c ∈ (name ++ after).head?, U.isSpace c = false := by
      rwa [List.head?_append_of_ne_nil _ hne]
    rw [strip, dropWhile_append_of_head h_before h_head, dropBack_append hlast h_after]

theorem isSpace_of_isUpper {c : Char} (hc : c.isUpper) : U.isSpace c = false := by
  have h_upper : 65 ≤ c.toNat ∧ c.toNat ≤ 90 := by
    simpa [Char.isUpper, UInt32.le_iff_toNat_le] using hc
  have h_sep : ¬ (28 ≤ c.toNat ∧ c.toNat ≤ 31) := by omega
  rw [U.isSpace_of_ascii c (by omega), isSpace_of_lt (by omega)]
  simpa using h_sep

/-- The names of the boroughs start and end with letters. -/
theorem strip_eq_name (hname : name ∈ boroughNames) :
    strip U (upper U s) = name ↔ Spells U s name := by
  have h_letters : ∀ name ∈ boroughNames, name ≠ [] ∧ name.head?.all Char.isUpper ∧
      name.getLast?.all Char.isUpper := by decide
  obtain ⟨h_ne, h_head, h_last⟩ := h_letters name hname
  refine strip_eq_iff h_ne (fun c hc => isSpace_of_isUpper ?_) fun c hc => isSpace_of_isUpper ?_
  · rwa [Option.mem_def.mp hc] at h_head
  · rwa [Option.mem_def.mp hc] at h_last

/-- The code of the borough that a cell names. -/
def codeOf (cell : Option Str) : ℤ := (cell.bind fun s => boroughByName.lookup s).getD 0

/-- The C++ code has the same table. -/
theorem code_boroughFromString (cell : Option Str) :
    (cell.elim .unspecified boroughFromString).code = codeOf cell := by
  cases cell with
  | none => rfl
  | some s =>
    unfold codeOf
    rw [Option.elim_some, Option.bind_some, boroughFromString]
    -- one case for each entry of the table
    split_ifs with h₁ h₂ h₃ h₄ h₅
    · subst h₁; rfl
    · subst h₂; rfl
    · subst h₃; rfl
    · subst h₄; rfl
    · subst h₅; rfl
    · -- no entry has the name
      have h_none : boroughByName.lookup s = none := by
        simp only [List.lookup_eq_none_iff, boroughByName, List.forall_mem_cons, bne_iff_ne]
        exact ⟨h₁, h₂, h₃, h₄, h₅, by simp⟩
      rw [h_none]
      rfl

theorem boroughFromStr_eq (cell : Option Str) : cell.elim 0 (boroughFromStr U) =
    codeOf (cell.map fun s => strip U (upper U s)) := by
  cases cell <;> rfl

/-- A code other than zero has been found in the table. -/
theorem exists_of_codeOf {cell : Option Str} (h : codeOf cell ≠ 0) :
    ∃ p ∈ boroughByName, cell = some p.1 ∧ codeOf cell = p.2 := by
  cases h_found : cell.bind fun s => boroughByName.lookup s with
  | none =>
    rw [codeOf, h_found] at h
    exact absurd rfl h
  | some b =>
    obtain ⟨s, rfl, h_s⟩ := Option.bind_eq_some_iff.mp h_found
    obtain ⟨l₁, l₂, h_table, -⟩ := List.lookup_eq_some_iff.mp h_s
    refine ⟨(s, b), ?_, rfl, by rw [codeOf, h_found, Option.getD_some]⟩
    rw [h_table]
    exact List.mem_append_right _ List.mem_cons_self

/-- Each code is that of one name. -/
theorem codeOf_eq_iff {cell : Option Str} {b : ℤ} (h : (name, b) ∈ boroughByName) :
    codeOf cell = b ↔ cell = some name := by
  have h_lookup : ∀ p ∈ boroughByName, boroughByName.lookup p.1 = some p.2 := by decide
  have h_codes : ∀ p ∈ boroughByName, p.2 ≠ 0 ∧ ∀ q ∈ boroughByName, p.2 = q.2 → p.1 = q.1 := by
    decide
  obtain ⟨h_ne, h_one⟩ := h_codes _ h
  constructor
  · rintro rfl
    obtain ⟨p, hp, h_cell, h_code⟩ := exists_of_codeOf h_ne
    rw [h_cell, ← h_one p hp h_code]
  · rintro rfl
    rw [codeOf, Option.bind_some, h_lookup _ h, Option.getD_some]

theorem codeOf_eq_codeOf {cell cell' : Option Str} : codeOf cell = codeOf cell' ↔
    ∀ name ∈ boroughNames, cell = some name ↔ cell' = some name := by
  have h_names : boroughNames = boroughByName.map Prod.fst := rfl
  rw [h_names]
  constructor
  · intro h_code name hname
    obtain ⟨⟨name, b⟩, h_b, rfl⟩ := List.mem_map.mp hname
    rw [← codeOf_eq_iff h_b, ← codeOf_eq_iff h_b, h_code]
  · intro h
    -- a cell with a code has a name, and so has the other cell
    by_cases h_cell : codeOf cell = 0
    · by_contra h_ne
      obtain ⟨p, hp, h_name, -⟩ := exists_of_codeOf (h_cell ▸ Ne.symm h_ne)
      rw [h_name, (h _ (List.mem_map_of_mem hp)).mpr h_name] at h_ne
      exact h_ne rfl
    · obtain ⟨p, hp, h_name, -⟩ := exists_of_codeOf h_cell
      rw [h_name, (h _ (List.mem_map_of_mem hp)).mp h_name]

theorem sameBorough_iff {cell cell' : Option Str} : SameBorough U cell cell' ↔
    cell'.elim 0 (boroughFromStr U) = (cell.elim .unspecified boroughFromString).code := by
  rw [boroughFromStr_eq, code_boroughFromString, eq_comm, codeOf_eq_codeOf]
  refine forall₂_congr fun name hname => ?_
  rw [Option.map_eq_some_iff]
  simp only [strip_eq_name hname]
  rfl

end Boroughs

end Python
end Mini2
