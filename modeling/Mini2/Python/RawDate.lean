import Mini2.Python.Text
import Mini2.Store.PartitionStore

/-!
# Dates in raw files

A raw file has its dates as text. The C++ code reads the digits at fixed places of it
(`parseYmd`) and looks at the first character only to see whether there is a date at all. The
Python code looks for the two dashes, and takes a string of digits as it stands.

`readAlike_iff` says on which cells the two agree and make a number of nothing but a date:
those that start with a date as `YYYY-MM-DD`, and those of which neither makes a number.
-/

namespace Mini2

/-! ### Dates -/

/-- The number of days of a month. -/
def daysIn (year month : ℕ) : ℕ :=
  if month = 2 then if year % 4 = 0 ∧ (year % 100 ≠ 0 ∨ year % 400 = 0) then 29 else 28
  else if month = 4 ∨ month = 6 ∨ month = 9 ∨ month = 11 then 30
  else 31

/-- A date of the calendar. -/
structure Date where
  year : ℕ
  month : ℕ
  day : ℕ
  year_lt : year < 10000
  month_mem : 1 ≤ month ∧ month ≤ 12
  day_mem : 1 ≤ day ∧ day ≤ daysIn year month

namespace Date

/-- A number with leading zeros. -/
def padded (width n : ℕ) : Str := (toDec n).leftpad width '0'

variable (d : Date)

/-- `YYYYMMDD`, as a number. -/
def ymd : ℕ := d.year * 10000 + d.month * 100 + d.day

/-- `YYYY-MM-DD` -/
def iso : Str := padded 4 d.year ++ '-' :: padded 2 d.month ++ '-' :: padded 2 d.day

/-- `YYYYMMDD` -/
def compact : Str := padded 4 d.year ++ padded 2 d.month ++ padded 2 d.day

/-- A cell is the date in one of the accepted formats. -/
def DenotedBy (s : Str) : Prop := d.iso <+: s ∨ s = d.compact

theorem day_lt : d.day < 100 := by
  -- no month is longer than that
  have h_days : daysIn d.year d.month ≤ 31 := by
    unfold daysIn
    split
    · split <;> decide
    · split <;> decide
  have h_day := d.day_mem.2
  omega

theorem ymd_lt : d.ymd < 2 ^ 32 := by
  have h_year := d.year_lt
  have h_month := d.month_mem.2
  have h_day := d.day_lt
  unfold ymd
  omega

theorem length_padded (width : ℕ) {n : ℕ} (hwidth : 0 < width) (hn : n < 10 ^ width) :
    (padded width n).length = width := by
  have h_le : (toDec n).length ≤ width := (Nat.length_toDigits_le_iff (by decide) hwidth).mpr hn
  rw [padded, List.length_leftpad, max_eq_left h_le]

theorem isDigit_padded {width n : ℕ} {c : Char} (hc : c ∈ padded width n) : c.isDigit := by
  rcases List.mem_append.mp hc with hc | hc
  · rw [List.eq_of_mem_replicate hc]
    decide
  · exact isDigit_of_mem_toDec hc

theorem digitsVal_padded (width n : ℕ) : digitsVal (padded width n) = n := by
  -- the padding does not change the value
  have h_zeros : ∀ k, (List.replicate k '0').foldl
      (fun v c => 10 * v + (c.toNat - '0'.toNat)) 0 = 0 := by
    intro k
    induction k with
    | zero => rfl
    | succ k ih => exact ih
  rw [padded, List.leftpad, digitsVal, List.foldl_append, h_zeros]
  exact Nat.ofDigitChars_ten_toDigits

end Date

/-! ### The two parsers -/

namespace Python

/-- `parse_ymd_any`; none where it raises. -/
def parseYmdAny (U : Unicode) (s : Str) : Option ℤ :=
  if s.isEmpty then some 0
  else if s.length ≥ 8 ∧ isdigit U s then int U s
  else if s.length ≥ 10 ∧ s[4]? = some '-' ∧ s[7]? = some '-' then
    -- the error of a part that is no number is caught
    some <| Option.getD (do
      let y ← int U (slice s 0 4)
      let m ← int U (slice s 5 7)
      let d ← int U (slice s 8 10)
      some (y * 10000 + m * 100 + d)) 0
  else some 0

end Python

/-- **A cell is read alike**, and as a number only if it is a date. -/
structure ReadAlike (U : Python.Unicode) (s : Str) : Prop where
  same : Python.parseYmdAny U s = some ((parseDateAny s false).toNat : ℤ)
  date : parseDateAny s false ≠ 0 →
    ∃ d : Date, d.DenotedBy s ∧ (parseDateAny s false).toNat = d.ymd

/-- The places of `YYYY-MM-DD`, as the digits of a number. -/
def places : List ℤ := [10000000, 1000000, 100000, 10000, 0, 1000, 100, 0, 10, 1]

/-- The number that the characters make, whatever they are. -/
def placeSum (s : Str) : ℤ := (s.zipWith (fun c w => ((c.toNat : ℤ) - 48) * w) places).sum

/-- Nothing that the C++ code makes a number of. -/
def NoYmd (s : Str) : Prop :=
  s.length < 10 ∨ (∃ c ∈ s.head?, c.isDigit = false) ∨ placeSum s = 0

/-- Nothing that the Python code makes a number of. -/
def Python.NoYmdAny (U : Python.Unicode) (s : Str) : Prop :=
  if 8 ≤ s.length ∧ ∀ c ∈ s, c.isDigit then (∀ c ∈ s, c = '0') ∧ s.length ≤ maxStrDigits
  else 10 ≤ s.length → s[4]? = some '-' → s[7]? = some '-' →
    ∀ y ∈ int U (slice s 0 4), ∀ m ∈ int U (slice s 5 7), ∀ d ∈ int U (slice s 8 10),
      y = 0 ∧ m = 0 ∧ d = 0

/-! ### What C++ reads -/

/-- The characters that `parseYmd` looks at. -/
theorem exists_ten {s : Str} (h : 10 ≤ s.length) : ∃ y₁ y₂ y₃ y₄ x m₁ m₂ x' d₁ d₂ rest,
    s = y₁ :: y₂ :: y₃ :: y₄ :: x :: m₁ :: m₂ :: x' :: d₁ :: d₂ :: rest := by
  -- only a text of ten characters or more is left
  match s, h with
  | _ :: _ :: _ :: _ :: _ :: _ :: _ :: _ :: _ :: _ :: _, _ =>
    exact ⟨_, _, _, _, _, _, _, _, _, _, _, rfl⟩

theorem parseYmd_short {s : Str} (h : s.length < 10) : parseYmd s = 0 := by
  unfold parseYmd
  split
  · simp only [List.length_cons] at h
    omega
  · rfl

theorem digit_eq_ofInt {c : Char} (hc : c.toNat < 128) :
    digit c = UInt32.ofInt ((c.toNat : ℤ) - 48) := by
  -- below zero both wrap alike
  have h_all : ∀ n < 128, UInt32.ofNat n - 48 = UInt32.ofInt ((n : ℤ) - 48) := by decide +kernel
  rw [digit, if_pos hc]
  exact h_all c.toNat hc

theorem not_isDigit_iff {c : Char} : c < '0' ∨ c > '9' ↔ c.isDigit = false := by
  rw [← not_iff_not, not_or, not_lt, gt_iff_lt, not_lt, Bool.not_eq_false, Char.isDigit_iff_toNat]
  rfl

/-- The arithmetic of `parseYmd` is that of integers, cut to 32 bits. -/
theorem parseYmd_eq_ofInt {s : Str} (hs : Ascii s) (hlength : 10 ≤ s.length)
    (hhead : ∀ c ∈ s.head?, c.isDigit) : parseYmd s = UInt32.ofInt (placeSum s) := by
  obtain ⟨y₁, y₂, y₃, y₄, x, m₁, m₂, x', d₁, d₂, rest, rfl⟩ := exists_ten hlength
  -- the first character is the only one that is looked at
  have h_head : ¬ (y₁ < '0' ∨ y₁ > '9') := by
    rw [not_isDigit_iff, Bool.not_eq_false]
    exact hhead y₁ rfl
  simp only [Ascii, List.forall_mem_cons] at hs
  obtain ⟨h_y₁, h_y₂, h_y₃, h_y₄, -, h_m₁, h_m₂, -, h_d₁, h_d₂, -⟩ := hs
  have h_sum : placeSum (y₁ :: y₂ :: y₃ :: y₄ :: x :: m₁ :: m₂ :: x' :: d₁ :: d₂ :: rest) =
      (((y₁.toNat : ℤ) - 48) * 1000 + ((y₂.toNat : ℤ) - 48) * 100 + ((y₃.toNat : ℤ) - 48) * 10 +
        ((y₄.toNat : ℤ) - 48)) * 10000 +
      (((m₁.toNat : ℤ) - 48) * 10 + ((m₂.toNat : ℤ) - 48)) * 100 +
      (((d₁.toNat : ℤ) - 48) * 10 + ((d₂.toNat : ℤ) - 48)) := by
    simp only [placeSum, places, List.zipWith_cons_cons, List.zipWith_nil_right, List.sum_cons,
      List.sum_nil]
    ring
  unfold parseYmd
  dsimp only
  rw [if_neg h_head, h_sum, digit_eq_ofInt h_y₁, digit_eq_ofInt h_y₂, digit_eq_ofInt h_y₃,
    digit_eq_ofInt h_y₄, digit_eq_ofInt h_m₁, digit_eq_ofInt h_m₂, digit_eq_ofInt h_d₁,
    digit_eq_ofInt h_d₂]
  simp only [UInt32.ofInt_add, UInt32.ofInt_mul]
  rfl

/-- No sum of ten characters is so large that it wraps. -/
theorem placeSum_bounds {s : Str} (hs : Ascii s) (hlength : 10 ≤ s.length) :
    -2 ^ 32 < placeSum s ∧ placeSum s < 2 ^ 32 := by
  obtain ⟨y₁, y₂, y₃, y₄, x, m₁, m₂, x', d₁, d₂, rest, rfl⟩ := exists_ten hlength
  simp only [Ascii, List.forall_mem_cons] at hs
  obtain ⟨h_y₁, h_y₂, h_y₃, h_y₄, -, h_m₁, h_m₂, -, h_d₁, h_d₂, -⟩ := hs
  simp only [placeSum, places, List.zipWith_cons_cons, List.zipWith_nil_right, List.sum_cons,
    List.sum_nil]
  omega

theorem toNat_ofInt {z : ℤ} (h : -2 ^ 32 < z ∧ z < 2 ^ 32) :
    ((UInt32.ofInt z).toNat : ℤ) = if z < 0 then z + 2 ^ 32 else z := by
  rw [UInt32.ofInt, UInt32.toNat_ofNat']
  split <;> omega

/-- **When the C++ code makes no number of a cell.** -/
theorem parseDateAny_eq_zero {s : Str} (hs : Ascii s) :
    parseDateAny s false = 0 ↔ NoYmd s := by
  have h_parse : parseDateAny s false = parseYmd s := by
    cases s <;> rfl
  unfold NoYmd
  rw [h_parse]
  by_cases hlength : s.length < 10
  · exact iff_of_true (parseYmd_short hlength) (Or.inl hlength)
  · rw [or_iff_right hlength, not_lt] at *
    -- a first character that is no digit ends `parseYmd` at once
    by_cases hhead : ∃ c ∈ s.head?, c.isDigit = false
    · refine iff_of_true ?_ (Or.inl hhead)
      obtain ⟨y₁, y₂, y₃, y₄, x, m₁, m₂, x', d₁, d₂, rest, rfl⟩ := exists_ten hlength
      obtain ⟨c, hc, hdigit⟩ := hhead
      obtain rfl : y₁ = c := Option.some.inj hc
      exact if_pos (not_isDigit_iff.mpr hdigit)
    · rw [or_iff_right hhead, parseYmd_eq_ofInt hs hlength (by simpa using hhead)]
      -- the sum wraps below zero, and cannot become zero by that
      have h_bounds := placeSum_bounds hs hlength
      have h_nat := toNat_ofInt h_bounds
      rw [← UInt32.toNat_inj]
      change (UInt32.ofInt (placeSum s)).toNat = 0 ↔ _
      split at h_nat <;> omega

/-! ### What Python reads -/

namespace Python

variable {U : Unicode} {s : Str}

theorem isdigit_iff (hs : Ascii s) :
    isdigit U s = true ↔ s ≠ [] ∧ ∀ c ∈ s, c.isDigit := by
  have h_all : (∀ c ∈ s, U.isDigit c = true) ↔ ∀ c ∈ s, c.isDigit := by
    refine forall₂_congr fun c hc => ?_
    rw [U.isDigit_of_ascii c (hs c hc)]
  rw [isdigit, Bool.and_eq_true_iff, List.all_eq_true, h_all]
  simp

/-- A date is zero only if all of its parts are. -/
theorem ymd_eq_zero {y m d : ℤ} (hm : m.natAbs < 100) (hd : d.natAbs < 100) :
    y * 10000 + m * 100 + d = 0 ↔ y = 0 ∧ m = 0 ∧ d = 0 := by
  omega

/-- **When the Python code makes no number of a cell.** -/
theorem parseYmdAny_eq_zero (hs : Ascii s) :
    parseYmdAny U s = some 0 ↔ NoYmdAny U s := by
  unfold parseYmdAny NoYmdAny
  split
  · next hempty =>
    obtain rfl := List.isEmpty_iff.mp hempty
    simp
  · next hempty =>
    have h_ne : s ≠ [] := fun h => hempty (List.isEmpty_iff.mpr h)
    have h_isdigit : (s.length ≥ 8 ∧ isdigit U s = true) ↔
        8 ≤ s.length ∧ ∀ c ∈ s, c.isDigit := by
      rw [isdigit_iff hs, and_iff_right h_ne]
    -- the parser takes digits as they stand, and then looks for dashes
    by_cases hdigits : 8 ≤ s.length ∧ ∀ c ∈ s, c.isDigit
    · -- a string of digits
      rw [if_pos (h_isdigit.mpr hdigits), if_pos hdigits, int_digits U h_ne hdigits.2,
        ← digitsVal_eq_zero hdigits.2]
      split
      · next hlength => simp [hlength]
      · next hlength => simp [hlength]
    · rw [if_neg fun h => hdigits (h_isdigit.mp h), if_neg hdigits]
      split
      · next hdashed =>
        simp only [hdashed, forall_const, Option.mem_def]
        cases h_y : int U (slice s 0 4) with
        | none => simp
        | some y =>
          cases h_m : int U (slice s 5 7) with
          | none => simp
          | some m =>
            cases h_d : int U (slice s 8 10) with
            | none => simp
            | some d =>
              -- two characters are a number below a hundred
              have h_two : ∀ {i : ℕ} {z : ℤ}, int U (slice s i (i + 2)) = some z →
                  z.natAbs < 100 := by
                intro i z hz
                have h_length : (slice s i (i + 2)).length ≤ 2 := by
                  rw [slice, List.length_drop, List.length_take]
                  omega
                exact (int_natAbs_lt U hz).trans_le (Nat.pow_le_pow_right (by decide) h_length)
              simpa using ymd_eq_zero (y := y) (h_two h_m) (h_two h_d)
      · next hdashed =>
        refine iff_of_true rfl fun h_length h_four h_seven => ?_
        exact absurd ⟨h_length, h_four, h_seven⟩ hdashed

end Python

/-! ### Dates -/

namespace Date

variable (d : Date) (rest : Str)

/-- The characters of a date. -/
theorem exists_iso : ∃ y₁ y₂ y₃ y₄ m₁ m₂ d₁ d₂,
    padded 4 d.year = [y₁, y₂, y₃, y₄] ∧ padded 2 d.month = [m₁, m₂] ∧
      padded 2 d.day = [d₁, d₂] := by
  have h_year := length_padded 4 (by decide) d.year_lt
  have h_month := length_padded 2 (by decide) (d.month_mem.2.trans_lt (by decide))
  have h_day := length_padded 2 (by decide) d.day_lt
  obtain ⟨m₁, m₂, h_month⟩ := List.length_eq_two.mp h_month
  obtain ⟨d₁, d₂, h_day⟩ := List.length_eq_two.mp h_day
  match h : padded 4 d.year, h_year with
  | [y₁, y₂, y₃, y₄], _ => exact ⟨y₁, y₂, y₃, y₄, m₁, m₂, d₁, d₂, rfl, h_month, h_day⟩

theorem length_compact : d.compact.length = 8 := by
  obtain ⟨_, _, _, _, _, _, _, _, h_year, h_month, h_day⟩ := d.exists_iso
  rw [compact, h_year, h_month, h_day]
  rfl

/-- Python reads a date as it is. -/
theorem parseYmdAny_iso (U : Python.Unicode) :
    Python.parseYmdAny U (d.iso ++ rest) = some (d.ymd : ℤ) := by
  have h_part : ∀ (width : ℕ) {n : ℕ}, 0 < width → n < 10 ^ width → width ≤ 4 →
      Python.int U (padded width n) = some (n : ℤ) := by
    intro width n hwidth hn hle
    have h_length := length_padded width hwidth hn
    have h_ne : padded width n ≠ [] := by
      rintro h
      rw [h] at h_length
      exact absurd h_length hwidth.ne
    rw [Python.int_digits U h_ne fun c hc => isDigit_padded hc, if_pos, digitsVal_padded]
    rw [h_length]
    exact hle.trans (by decide)
  have h_y := h_part 4 (by decide) d.year_lt (by decide)
  have h_m := h_part 2 (by decide) (d.month_mem.2.trans_lt (by decide)) (by decide)
  have h_d := h_part 2 (by decide) d.day_lt (by decide)
  -- the slices of the date are its parts
  obtain ⟨y₁, y₂, y₃, y₄, m₁, m₂, d₁, d₂, h_year, h_month, h_day⟩ := d.exists_iso
  rw [h_year] at h_y
  rw [h_month] at h_m
  rw [h_day] at h_d
  have h_iso : d.iso ++ rest =
      y₁ :: y₂ :: y₃ :: y₄ :: '-' :: m₁ :: m₂ :: '-' :: d₁ :: d₂ :: rest := by
    rw [iso, h_year, h_month, h_day]
    rfl
  -- the dashes are no digits
  have h_dash : Python.isdigit U (d.iso ++ rest) = false := by
    rw [h_iso]
    simp [Python.isdigit, U.isDigit_of_ascii '-' (by decide)]
  unfold Python.parseYmdAny
  rw [h_dash, h_iso]
  simp only [List.isEmpty_cons, Bool.false_eq_true, if_false, and_false]
  rw [if_pos ⟨by simp, rfl, rfl⟩]
  change some (Option.getD (do
    let y ← Python.int U [y₁, y₂, y₃, y₄]
    let m ← Python.int U [m₁, m₂]
    let d ← Python.int U [d₁, d₂]
    some (y * 10000 + m * 100 + d)) 0) = _
  rw [h_y, h_m, h_d]
  simp [ymd]

/-- So does the C++ code. -/
theorem parseDateAny_iso (hs : Ascii (d.iso ++ rest)) :
    (parseDateAny (d.iso ++ rest) false).toNat = d.ymd := by
  have h_digits : ∀ width n, ∀ c ∈ padded width n, '0'.toNat ≤ c.toNat :=
    fun _ _ c hc => (digit_bounds (isDigit_padded hc)).1
  have h_year_digits := h_digits 4 d.year
  have h_month_digits := h_digits 2 d.month
  have h_day_digits := h_digits 2 d.day
  have h_year_val := digitsVal_padded 4 d.year
  have h_month_val := digitsVal_padded 2 d.month
  have h_day_val := digitsVal_padded 2 d.day
  have h_head : ∀ c ∈ padded 4 d.year, c.isDigit := fun c hc => isDigit_padded hc
  obtain ⟨y₁, y₂, y₃, y₄, m₁, m₂, d₁, d₂, h_year, h_month, h_day⟩ := d.exists_iso
  have h_iso : d.iso ++ rest =
      y₁ :: y₂ :: y₃ :: y₄ :: '-' :: m₁ :: m₂ :: '-' :: d₁ :: d₂ :: rest := by
    rw [iso, h_year, h_month, h_day]
    rfl
  rw [h_year] at h_year_digits h_year_val h_head
  rw [h_month] at h_month_digits h_month_val
  rw [h_day] at h_day_digits h_day_val
  -- the dashes have no place, and the digits have theirs
  have h_sum : placeSum (d.iso ++ rest) = d.ymd := by
    rw [h_iso, placeSum, places, ymd]
    simp only [List.zipWith_cons_cons, List.zipWith_nil_right, List.sum_cons, List.sum_nil]
    simp only [List.forall_mem_cons] at h_year_digits h_month_digits h_day_digits
    simp only [digitsVal, List.foldl_cons, List.foldl_nil] at h_year_val h_month_val h_day_val
    have h_zero : '0'.toNat = 48 := by decide
    omega
  have h_lt := d.ymd_lt
  have h_nat := toNat_ofInt (z := d.ymd) ⟨by omega, by omega⟩
  rw [if_neg (by omega)] at h_nat
  have h_parse : parseDateAny (d.iso ++ rest) false = UInt32.ofInt (placeSum (d.iso ++ rest)) := by
    -- the year starts with a digit
    have h_first : ∀ c ∈ (d.iso ++ rest).head?, c.isDigit := by
      intro c hc
      rw [h_iso] at hc
      exact Option.some.inj hc ▸ h_head y₁ List.mem_cons_self
    rw [← parseYmd_eq_ofInt hs (by rw [h_iso]; simp) h_first, h_iso]
    rfl
  rw [h_parse, h_sum]
  exact Int.ofNat_inj.mp h_nat

end Date

/-! ### Where they agree -/

/-- **When a cell is read alike.** It starts with a date as `YYYY-MM-DD`, or neither parser
makes a number of it. -/
theorem readAlike_iff (U : Python.Unicode) {s : Str} (hs : Ascii s) :
    ReadAlike U s ↔ (∃ d : Date, d.iso <+: s) ∨ NoYmd s ∧ Python.NoYmdAny U s := by
  rw [← parseDateAny_eq_zero hs, ← Python.parseYmdAny_eq_zero hs]
  constructor
  · intro h
    by_cases hzero : parseDateAny s false = 0
    · -- C++ makes nothing of the cell, so Python may not either
      have h_same := h.same
      rw [hzero] at h_same
      exact Or.inr ⟨hzero, h_same⟩
    · obtain ⟨d, h_iso | rfl, -⟩ := h.date hzero
      · exact Or.inl ⟨d, h_iso⟩
      · -- eight digits are too short for the C++ code
        have h_short : NoYmd d.compact := Or.inl (d.length_compact.trans_lt (by decide))
        exact absurd ((parseDateAny_eq_zero hs).mpr h_short) hzero
  · rintro (⟨d, rest, rfl⟩ | ⟨h_cpp, h_python⟩)
    · have h_nat := d.parseDateAny_iso rest hs
      refine ⟨?_, fun _ => ⟨d, Or.inl (List.prefix_append _ _), h_nat⟩⟩
      rw [h_nat, d.parseYmdAny_iso rest U]
    · refine ⟨?_, fun h => absurd h_cpp h⟩
      rw [h_cpp, h_python]
      rfl

/-- A date with a time is read as the date. -/
theorem readAlike_time : ReadAlike .ascii "2024-01-15T01:00:00".toList :=
  (readAlike_iff .ascii (by decide)).mpr
    (Or.inl ⟨⟨2024, 1, 15, by decide, by decide, by decide⟩, by decide +kernel⟩)

/-- The dates of the raw files have slashes. The C++ code makes 909224 of this one, and the
Python code nothing. -/
theorem slashes_read_otherwise : ¬ ReadAlike .ascii "01/15/2024 12:00:00 AM".toList :=
  fun h => absurd h.same (by decide)

end Mini2
