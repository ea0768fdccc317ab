import Mathlib

/-!
# Text as the code reads it

The C++ code reads bytes, so a text is a list of characters. The functions here
are those of the standard library that the parsers of the code call.
-/

namespace Mini2

/-- A `std::string`. -/
abbrev Str := List Char

/-- A text with ASCII characters only. -/
def Ascii (s : Str) : Prop := ∀ c ∈ s, c.toNat < 128

-- the characters of the text are looked at, not all characters
instance (s : Str) : Decidable (Ascii s) := List.decidableBAll _ s

/-- `std::isspace`, in the default locale. -/
def isSpace (c : Char) : Bool :=
  c = ' ' || c = '\t' || c = '\n' || c.toNat = 11 || c.toNat = 12 || c = '\r'

/-- The lines that a loop over `std::getline` sees: an unterminated last line
counts unless it is empty. -/
def lines (text : Str) : List Str :=
  let parts := text.splitOn '\n'
  if parts.getLast? = some [] then parts.dropLast else parts

/-- A terminated line is read as it stands. -/
theorem lines_append {line : Str} (hline : '\n' ∉ line) (rest : Str) :
    lines (line ++ '\n' :: rest) = line :: lines rest := by
  have h_split : (line ++ '\n' :: rest).splitOn '\n' = line :: rest.splitOn '\n' :=
    List.splitOn_append_cons_self_of_not_mem hline rest
  have h_ne : rest.splitOn '\n' ≠ [] := List.splitOn_ne_nil _ _
  simp only [lines, h_split, List.getLast?_cons_of_ne_nil h_ne, List.dropLast_cons_of_ne_nil h_ne]
  split <;> rfl

theorem lines_nil : lines [] = [] := by decide

/-- `trim` of `Config.cpp`. -/
def trim (s : Str) : Str := ((s.dropWhile isSpace).reverse.dropWhile isSpace).reverse

/-- Extraction of words by `operator>>`. -/
def splitWhitespace (s : Str) : List Str := (s.splitOnP isSpace).filter (· ≠ [])

/-- The value of a string of decimal digits, most significant first. -/
def digitsVal (s : Str) : ℕ := s.foldl (fun v c => 10 * v + (c.toNat - '0'.toNat)) 0

/-- An optional sign, and what follows it. -/
def splitSign : Str → Bool × Str
  | '-' :: s => (true, s)
  | '+' :: s => (false, s)
  | s => (false, s)

/-- The longest prefix of decimal digits. -/
def leadingDigits (s : Str) : Str := s.takeWhile Char.isDigit

/-- The number that a text starts with, behind blanks and a sign; zero without one. -/
def leadingInt (s : Str) : ℤ :=
  let sign := splitSign (s.dropWhile isSpace)
  let v : ℤ := digitsVal (leadingDigits sign.2)
  if sign.1 then -v else v

/-- A number that does not fit a `long` saturates. -/
def clampLong (z : ℤ) : ℤ := max (-2 ^ 63) (min z (2 ^ 63 - 1))

/-- `std::atoi`. The standard leaves open what it is for a number that does not fit an `int`;
the C library takes the `long` of `strtol`, which saturates, and keeps its low 32 bits. -/
def atoi (s : Str) : ℤ := (clampLong (leadingInt s)).bmod (2 ^ 32)

/-- `std::strtoull` to the base ten: a number that does not fit saturates, and a
minus sign negates modulo `2^64`. -/
def strtoull (s : Str) : ℕ :=
  let sign := splitSign (s.dropWhile isSpace)
  let v := digitsVal (leadingDigits sign.2)
  if v ≥ 2 ^ 64 then 2 ^ 64 - 1
  else if sign.1 then (2 ^ 64 - v) % 2 ^ 64 else v

/-- `std::to_string` of a natural number. -/
def toDec (n : ℕ) : Str := Nat.toDigits 10 n

theorem isDigit_of_mem_toDec {n : ℕ} {c : Char} (hc : c ∈ toDec n) : c.isDigit :=
  Nat.isDigit_of_mem_toDigits (by decide) (by decide) hc

/-- Blanks are the first characters. -/
theorem isSpace_of_lt {c : Char} (hc : 32 < c.toNat) : isSpace c = false := by
  by_contra h
  simp only [isSpace, Bool.not_eq_false, Bool.or_eq_true, decide_eq_true_eq] at h
  rcases h with ((((rfl | rfl) | rfl) | h) | h) | rfl
  · exact absurd hc (by decide)
  · exact absurd hc (by decide)
  · exact absurd hc (by decide)
  · omega
  · omega
  · exact absurd hc (by decide)

theorem isSpace_of_isDigit {c : Char} (hc : c.isDigit) : isSpace c = false := by
  have h_digit := Char.isDigit_iff_toNat.mp hc
  have h_zero : '0'.toNat = 48 := by decide
  exact isSpace_of_lt (by omega)

theorem isDigit_of_isSpace {c : Char} (hc : isSpace c) : c.isDigit = false := by
  by_contra h
  rw [isSpace_of_isDigit (Bool.not_eq_false _ ▸ h)] at hc
  exact absurd hc (by simp)

theorem splitSign_of_isDigit {c : Char} (hc : c.isDigit) (s : Str) :
    splitSign (c :: s) = (false, c :: s) := by
  unfold splitSign
  split
  · next h =>
    obtain ⟨rfl, -⟩ := List.cons.inj h
    exact absurd hc (by decide)
  · next h =>
    obtain ⟨rfl, -⟩ := List.cons.inj h
    exact absurd hc (by decide)
  · rfl

theorem digitsVal_concat (s : Str) (c : Char) :
    digitsVal (s ++ [c]) = 10 * digitsVal s + (c.toNat - '0'.toNat) := by
  rw [digitsVal, List.foldl_append]
  rfl

theorem digitsVal_append (s t : Str) :
    digitsVal (s ++ t) = digitsVal s * 10 ^ t.length + digitsVal t := by
  induction t using List.reverseRecOn with
  | nil => simp [digitsVal]
  | append_singleton t c ih =>
    rw [← List.append_assoc, digitsVal_concat, digitsVal_concat, ih, List.length_append,
      List.length_singleton, pow_succ]
    ring

/-- The value of a digit. -/
theorem digit_bounds {c : Char} (hc : c.isDigit) :
    '0'.toNat ≤ c.toNat ∧ c.toNat - '0'.toNat < 10 := by
  have h_digit := Char.isDigit_iff_toNat.mp hc
  have h_nine : '9'.toNat = '0'.toNat + 9 := by decide
  omega

theorem digitsVal_lt {s : Str} (hs : ∀ c ∈ s, c.isDigit) : digitsVal s < 10 ^ s.length := by
  induction s using List.reverseRecOn with
  | nil => decide
  | append_singleton s c ih =>
    have h_s := ih fun d hd => hs d (List.mem_append_left _ hd)
    have h_c := (digit_bounds (hs c (List.mem_append_right _ (List.mem_singleton_self c)))).2
    rw [digitsVal_concat, List.length_append, List.length_singleton, pow_succ]
    omega

/-- Only zeros have the value zero. -/
theorem digitsVal_eq_zero {s : Str} (hs : ∀ c ∈ s, c.isDigit) :
    digitsVal s = 0 ↔ ∀ c ∈ s, c = '0' := by
  induction s using List.reverseRecOn with
  | nil => exact iff_of_true rfl fun c hc => absurd hc List.not_mem_nil
  | append_singleton s c ih =>
    have h_s := ih fun d hd => hs d (List.mem_append_left _ hd)
    have h_c := digit_bounds (hs c (List.mem_append_right _ (List.mem_singleton_self c)))
    have h_zero : c.toNat - '0'.toNat = 0 ↔ c = '0' := by
      rw [Nat.sub_eq_zero_iff_le]
      refine ⟨fun h => ?_, fun h => h ▸ le_rfl⟩
      exact Char.toNat_inj.mp (le_antisymm h h_c.1)
    rw [digitsVal_concat, List.forall_mem_append, List.forall_mem_singleton, ← h_s, ← h_zero]
    omega

/-- **A number is read back as it was written.** -/
theorem strtoull_toDec {n : ℕ} (hn : n < 2 ^ 64) : strtoull (toDec n) = n := by
  have h_ne : toDec n ≠ [] := Nat.toDigits_ne_nil
  obtain ⟨c, cs, h_dec⟩ := List.exists_cons_of_ne_nil h_ne
  have h_c : c.isDigit := isDigit_of_mem_toDec (h_dec ▸ List.mem_cons_self)
  have h_space : (toDec n).dropWhile isSpace = toDec n := by
    rw [h_dec, List.dropWhile_cons_of_neg (by simp [isSpace_of_isDigit h_c])]
  have h_sign : splitSign (toDec n) = (false, toDec n) := h_dec ▸ splitSign_of_isDigit h_c cs
  have h_digits : leadingDigits (toDec n) = toDec n :=
    List.takeWhile_eq_self_iff.mpr fun c hc => isDigit_of_mem_toDec hc
  have h_val : digitsVal (toDec n) = n := Nat.ofDigitChars_ten_toDigits
  unfold strtoull
  simp only [h_space, h_sign, h_digits, h_val]
  rw [if_neg (not_le.mpr hn), if_neg (by simp)]

/-! ### Parts of a text -/

section Parts

variable {p q : Char → Bool}

theorem mem_of_mem_splitOnP {s w : Str} (hw : w ∈ s.splitOnP p) : w ⊆ s := by
  induction s generalizing w with
  | nil =>
    rw [List.splitOnP_nil, List.mem_singleton] at hw
    exact hw ▸ List.Subset.refl []
  | cons c s ih =>
    rw [List.splitOnP_cons_eq_if_modifyHead] at hw
    obtain ⟨v, vs, h_split⟩ := List.exists_cons_of_ne_nil (List.splitOnP_ne_nil p s)
    rw [h_split] at hw ih
    -- a word ends here, or the first one goes on
    split at hw
    · rcases List.mem_cons.mp hw with rfl | hw
      · exact List.nil_subset _
      · exact List.subset_cons_of_subset c (ih hw)
    · rw [List.modifyHead_cons] at hw
      rcases List.mem_cons.mp hw with rfl | hw
      · exact List.cons_subset_cons c (ih List.mem_cons_self)
      · exact List.subset_cons_of_subset c (ih (List.mem_cons_of_mem v hw))

/-- A line consists of characters of its text. -/
theorem subset_of_mem_lines {text raw : Str} (hraw : raw ∈ lines text) : raw ⊆ text := by
  have h_part : raw ∈ text.splitOn '\n' := by
    unfold lines at hraw
    dsimp only at hraw
    split at hraw
    · exact List.mem_of_mem_dropLast hraw
    · exact hraw
  rw [List.splitOn_eq_splitOnP] at h_part
  exact mem_of_mem_splitOnP h_part

theorem dropWhile_congr {s : Str} (h : ∀ c ∈ s, p c = q c) :
    s.dropWhile p = s.dropWhile q := by
  induction s with
  | nil => rfl
  | cons c s ih =>
    obtain ⟨h_c, h_s⟩ := List.forall_mem_cons.mp h
    rw [List.dropWhile_cons, List.dropWhile_cons, h_c, ih h_s]

theorem splitOnP_congr {s : Str} (h : ∀ c ∈ s, p c = q c) : s.splitOnP p = s.splitOnP q := by
  induction s with
  | nil => rfl
  | cons c s ih =>
    obtain ⟨h_c, h_s⟩ := List.forall_mem_cons.mp h
    rw [List.splitOnP_cons_eq_if_modifyHead, List.splitOnP_cons_eq_if_modifyHead, h_c, ih h_s]

/-- What a text starts with is dropped up to a character that stays. -/
theorem dropWhile_append_of_head {s t : Str} (hs : ∀ c ∈ s, p c)
    (ht : ∀ c ∈ t.head?, p c = false) : (s ++ t).dropWhile p = t := by
  rw [List.dropWhile_append_of_pos hs]
  cases t with
  | nil => rfl
  | cons c t => exact List.dropWhile_cons_of_neg (by simp [ht c rfl])

/-- So is what it ends with. -/
theorem dropBack_append {s t : Str} (hs : ∀ c ∈ s.getLast?, p c = false) (ht : ∀ c ∈ t, p c) :
    ((s ++ t).reverse.dropWhile p).reverse = s := by
  have h_back : ∀ c ∈ t.reverse, p c := fun c hc => ht c (List.mem_reverse.mp hc)
  rw [List.reverse_append, dropWhile_append_of_head h_back (by rwa [List.head?_reverse]),
    List.reverse_reverse]

theorem exists_dropBack (p : Char → Bool) (s : Str) :
    ∃ t, s = (s.reverse.dropWhile p).reverse ++ t ∧ ∀ c ∈ t, p c := by
  refine ⟨(s.reverse.takeWhile p).reverse, ?_, fun c hc => ?_⟩
  · rw [← List.reverse_append, List.takeWhile_append_dropWhile, List.reverse_reverse]
  · exact List.mem_takeWhile_imp (List.mem_reverse.mp hc)

end Parts

end Mini2
