import Mini2.Data.Text

/-!
# Numbers by their characters

The functions of the C library that read a number take what a text starts with: blanks, a
sign, and as many digits as follow. `LeadingNumber` says so of the characters of the text,
without going through them one by one, and `startsWith_iff` that `leadingInt` reads nothing
else. `strtoull_eq` says what becomes of the number in 64 bits.
-/

namespace Mini2

/-! ### The grammar -/

/-- A sign, or none. -/
inductive IsSign : Str → Bool → Prop
  | none : IsSign [] false
  | plus : IsSign ['+'] false
  | minus : IsSign ['-'] true

/-- Digits, one at least. -/
def IsDigits (s : Str) : Prop := s ≠ [] ∧ ∀ c ∈ s, c.isDigit

/-- A number with its sign. -/
def signed (neg : Bool) (n : ℕ) : ℤ := if neg then -n else n

theorem natAbs_signed (neg : Bool) (n : ℕ) : (signed neg n).natAbs = n := by
  cases neg
  · exact Int.natAbs_natCast n
  · exact (Int.natAbs_neg _).trans (Int.natAbs_natCast n)

/-- The text starts with the number: blanks, a sign, and digits, up to another character. -/
inductive LeadingNumber : Str → ℤ → Prop
  | mk {blanks sign digits rest : Str} {neg : Bool} (hblanks : ∀ c ∈ blanks, isSpace c)
    (hsign : IsSign sign neg) (hdigits : IsDigits digits)
    (hrest : ∀ c ∈ rest.head?, c.isDigit = false) :
    LeadingNumber (blanks ++ (sign ++ (digits ++ rest))) (signed neg (digitsVal digits))

/-- The text starts with the number, or the number is zero and the text starts with none. -/
def StartsWith (s : Str) (z : ℤ) : Prop := LeadingNumber s z ∨ z = 0 ∧ ∀ z', ¬ LeadingNumber s z'

/-! ### What is read -/

/-- Blanks end where a sign or a digit stands. -/
theorem head?_sign_digits {c : Char} {sign digits : Str} {neg : Bool} (hsign : IsSign sign neg)
    (hdigits : IsDigits digits) (rest : Str) (hc : c ∈ (sign ++ (digits ++ rest)).head?) :
    isSpace c = false := by
  obtain ⟨d, ds, rfl⟩ := List.exists_cons_of_ne_nil hdigits.1
  cases hsign with
  | none => exact Option.some.inj hc ▸ isSpace_of_isDigit (hdigits.2 d List.mem_cons_self)
  | plus => exact Option.some.inj hc ▸ rfl
  | minus => exact Option.some.inj hc ▸ rfl

theorem splitSign_sign {sign digits : Str} {neg : Bool} (hsign : IsSign sign neg)
    (hdigits : IsDigits digits) (rest : Str) :
    splitSign (sign ++ (digits ++ rest)) = (neg, digits ++ rest) := by
  cases hsign with
  | none =>
    obtain ⟨d, ds, rfl⟩ := List.exists_cons_of_ne_nil hdigits.1
    exact splitSign_of_isDigit (hdigits.2 d List.mem_cons_self) _
  | plus => rfl
  | minus => rfl

/-- Every text is a sign, or none, and what follows it. -/
theorem exists_isSign (s : Str) :
    ∃ sign, IsSign sign (splitSign s).1 ∧ s = sign ++ (splitSign s).2 := by
  unfold splitSign
  split
  · exact ⟨_, .minus, rfl⟩
  · exact ⟨_, .plus, rfl⟩
  · exact ⟨_, .none, rfl⟩

theorem leadingDigits_append {digits rest : Str} (hdigits : ∀ c ∈ digits, c.isDigit)
    (hrest : ∀ c ∈ rest.head?, c.isDigit = false) : leadingDigits (digits ++ rest) = digits := by
  rw [leadingDigits, List.takeWhile_append_of_pos hdigits]
  cases rest with
  | nil => exact List.append_nil _
  | cons c rest =>
    rw [List.takeWhile_cons_of_neg (by simp [hrest c rfl]), List.append_nil]

/-- A number at the start is found. -/
theorem LeadingNumber.read {s : Str} {z : ℤ} (h : LeadingNumber s z) :
    leadingDigits (splitSign (s.dropWhile isSpace)).2 ≠ [] ∧ leadingInt s = z := by
  cases h with
  | @mk blanks sign digits rest neg hblanks hsign hdigits hrest =>
    have h_blanks := dropWhile_append_of_head hblanks fun _ hc =>
      head?_sign_digits hsign hdigits rest hc
    rw [leadingInt, h_blanks, splitSign_sign hsign hdigits]
    dsimp only
    rw [leadingDigits_append hdigits.2 hrest]
    exact ⟨hdigits.1, rfl⟩

/-- Where digits are found, they are those of a number. -/
theorem leadingNumber_leadingInt {s : Str}
    (h : leadingDigits (splitSign (s.dropWhile isSpace)).2 ≠ []) :
    LeadingNumber s (leadingInt s) := by
  obtain ⟨sign, h_sign, h_split⟩ := exists_isSign (s.dropWhile isSpace)
  have h_int : leadingInt s = signed (splitSign (s.dropWhile isSpace)).1
      (digitsVal (leadingDigits (splitSign (s.dropWhile isSpace)).2)) := rfl
  rw [h_int]
  generalize splitSign (s.dropWhile isSpace) = parts at *
  -- the text is put together again from what has been taken off
  have h_text : s = s.takeWhile isSpace ++ (sign ++ (leadingDigits parts.2 ++
      parts.2.dropWhile Char.isDigit)) := by
    rw [leadingDigits, List.takeWhile_append_dropWhile, ← h_split,
      List.takeWhile_append_dropWhile]
  have h_rest : ∀ c ∈ (parts.2.dropWhile Char.isDigit).head?, c.isDigit = false := by
    intro c hc
    have h_head := List.head?_dropWhile_not Char.isDigit parts.2
    rwa [Option.mem_def.mp hc] at h_head
  have h_blanks : ∀ c ∈ s.takeWhile isSpace, isSpace c := fun _ hc => List.mem_takeWhile_imp hc
  have h_number := LeadingNumber.mk h_blanks h_sign ⟨h, fun _ hc => List.mem_takeWhile_imp hc⟩
    h_rest
  rwa [← h_text] at h_number

/-- **What the functions of the library read**, of every text. -/
theorem startsWith_iff {s : Str} {z : ℤ} : StartsWith s z ↔ leadingInt s = z := by
  by_cases h : leadingDigits (splitSign (s.dropWhile isSpace)).2 = []
  · -- nothing is read, and no number stands there
    have h_zero : leadingInt s = 0 := by
      unfold leadingInt
      dsimp only
      rw [h]
      simp [digitsVal]
    have h_none : ∀ z', ¬ LeadingNumber s z' := fun z' h_number => h_number.read.1 h
    rw [StartsWith, or_iff_right (h_none z), and_iff_left h_none, h_zero, eq_comm]
  · constructor
    · rintro (h_number | ⟨-, h_none⟩)
      · exact h_number.read.2
      · exact absurd (leadingNumber_leadingInt h) (h_none _)
    · rintro rfl
      exact Or.inl (leadingNumber_leadingInt h)

/-- A number that is not zero is there. -/
theorem leadingNumber_iff {s : Str} {z : ℤ} (hz : z ≠ 0) :
    LeadingNumber s z ↔ leadingInt s = z := by
  rw [← startsWith_iff, StartsWith, or_iff_left fun h => hz h.1]

/-! ### What becomes of it -/

/-- A number that does not fit 64 bits saturates, and any other one is taken modulo `2 ^ 64`. -/
def toULong (z : ℤ) : ℕ := if 2 ^ 64 ≤ z.natAbs then 2 ^ 64 - 1 else (z % 2 ^ 64).toNat

theorem toULong_lt (z : ℤ) : toULong z < 2 ^ 64 := by
  unfold toULong
  split <;> omega

theorem toULong_natCast {n : ℕ} (hn : n < 2 ^ 64) : toULong n = n := by
  unfold toULong
  split <;> omega

/-- No number but zero becomes zero. -/
theorem toULong_eq_zero {z : ℤ} : toULong z = 0 ↔ z = 0 := by
  unfold toULong
  split <;> omega

theorem strtoull_eq (s : Str) : strtoull s = toULong (leadingInt s) := by
  unfold strtoull leadingInt toULong
  dsimp only
  -- a minus sign counts only for a number that does not saturate
  split_ifs <;> omega

end Mini2
