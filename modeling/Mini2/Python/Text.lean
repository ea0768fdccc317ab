import Mini2.Data.Numeral

/-!
# Text as Python reads it

A Python string is a list of characters too, of any Unicode characters. The functions here
are the ones of its standard library that the Python node calls. What they take from the
Unicode database is left open, but for ASCII.
-/

namespace Mini2
namespace Python

/-- What Python knows about characters. -/
structure Unicode where
  /-- Decimal digits and spaces become those of ASCII. -/
  toAscii : Char → Char
  isDigit : Char → Bool
  isSpace : Char → Bool
  upper : Char → Str
  toAscii_of_ascii : ∀ c, c.toNat < 128 → toAscii c = c
  isDigit_of_ascii : ∀ c, c.toNat < 128 → isDigit c = c.isDigit
  isSpace_of_ascii : ∀ c, c.toNat < 128 →
    isSpace c = (Mini2.isSpace c || (28 ≤ c.toNat && c.toNat ≤ 31))
  upper_of_ascii : ∀ c, c.toNat < 128 → upper c = [c.toUpper]

/-- A database that has the characters of ASCII only. -/
def Unicode.ascii : Unicode where
  toAscii := id
  isDigit := Char.isDigit
  isSpace c := Mini2.isSpace c || (28 ≤ c.toNat && c.toNat ≤ 31)
  upper c := [c.toUpper]
  toAscii_of_ascii _ _ := rfl
  isDigit_of_ascii _ _ := rfl
  isSpace_of_ascii _ _ := rfl
  upper_of_ascii _ _ := rfl

variable (U : Unicode)

/-- `s[i:j]` -/
def slice (s : Str) (i j : ℕ) : Str := (s.take j).drop i

/-- `s.strip()` -/
def strip (s : Str) : Str := ((s.dropWhile U.isSpace).reverse.dropWhile U.isSpace).reverse

/-- `s.upper()` -/
def upper (s : Str) : Str := s.flatMap U.upper

/-- `s.isdigit()` -/
def isdigit (s : Str) : Bool := !s.isEmpty && s.all U.isDigit

/-- `sys.get_int_max_str_digits()` -/
def maxStrDigits : ℕ := 4300

/-- Groups of digits between underscores, not too many in all. -/
def intGroups (groups : List Str) : Bool :=
  (groups.all fun g => !g.isEmpty && g.all Char.isDigit) && groups.flatten.length ≤ maxStrDigits

/-- `int(s)`; none where it raises a `ValueError`. -/
def int (s : Str) : Option ℤ :=
  let sign := splitSign ((s.map U.toAscii).dropWhile isSpace)
  let groups := (sign.2.reverse.dropWhile isSpace).reverse.splitOn '_'
  if intGroups groups then
    let v : ℤ := digitsVal groups.flatten
    some (if sign.1 then -v else v)
  else none

/-! ### Numbers by their characters -/

/-- The text is the number as a whole: blanks, a sign, groups of digits with underscores
between them, not too many digits in all, and blanks. -/
inductive WholeNumber : Str → ℤ → Prop
  | mk {before sign after : Str} {groups : List Str} {neg : Bool}
    (hbefore : ∀ c ∈ before, isSpace c) (hsign : IsSign sign neg)
    (hgroups : groups ≠ [] ∧ ∀ g ∈ groups, IsDigits g)
    (hlength : groups.flatten.length ≤ maxStrDigits) (hafter : ∀ c ∈ after, isSpace c) :
    WholeNumber (before ++ (sign ++ (['_'].intercalate groups ++ after)))
      (signed neg (digitsVal groups.flatten))

theorem intGroups_iff {groups : List Str} : intGroups groups = true ↔
    (∀ g ∈ groups, IsDigits g) ∧ groups.flatten.length ≤ maxStrDigits := by
  simp [intGroups, IsDigits]

/-- Behind the first group an underscore follows, or nothing. -/
theorem exists_intercalate (g : Str) (gs : List Str) :
    ∃ rest, ['_'].intercalate (g :: gs) = g ++ rest ∧ ∀ c ∈ rest.head?, c = '_' := by
  rcases gs with _ | ⟨g', gs⟩
  · exact ⟨[], by rw [List.intercalate_singleton, List.append_nil], by simp⟩
  · refine ⟨'_' :: ['_'].intercalate (g' :: gs), ?_, by simp⟩
    rw [List.intercalate_cons_of_ne_nil (by simp), List.append_assoc]
    rfl

section Groups

variable {before sign after g : Str} {gs : List Str} {neg : Bool}

variable (gs) in
/-- Of groups of digits, the C library reads the first one. -/
theorem leadingNumber_groups (hbefore : ∀ c ∈ before, isSpace c) (hsign : IsSign sign neg)
    (hg : IsDigits g) (hafter : ∀ c ∈ after, isSpace c) :
    LeadingNumber (before ++ (sign ++ (['_'].intercalate (g :: gs) ++ after)))
      (signed neg (digitsVal g)) := by
  obtain ⟨rest, h_first, h_rest⟩ := exists_intercalate g gs
  rw [h_first, List.append_assoc]
  refine LeadingNumber.mk hbefore hsign hg fun c hc => ?_
  -- a blank follows it, an underscore, or nothing
  cases rest with
  | nil => exact isDigit_of_isSpace (hafter c (List.mem_of_mem_head? hc))
  | cons d rest =>
    obtain rfl : c = '_' := (Option.some.inj hc).symm.trans (h_rest d rfl)
    rfl

/-- Another group makes the value ten times as large, at least. -/
theorem digitsVal_groups (hne : gs ≠ []) (hgs : ∀ g ∈ gs, IsDigits g) :
    digitsVal g * 10 ≤ digitsVal (g :: gs).flatten := by
  have h_pos : gs.flatten.length ≠ 0 := by
    obtain ⟨g', gs', rfl⟩ := List.exists_cons_of_ne_nil hne
    have h_g' := List.length_pos_of_ne_nil (hgs g' List.mem_cons_self).1
    rw [List.flatten_cons, List.length_append]
    omega
  rw [List.flatten_cons, digitsVal_append]
  calc digitsVal g * 10 ≤ digitsVal g * 10 ^ gs.flatten.length :=
        Nat.mul_le_mul_left _ (Nat.le_self_pow h_pos 10)
    _ ≤ _ := Nat.le_add_right _ _

end Groups

/-- The groups between underscores are what is there besides them. -/
theorem flatten_splitOn (c : Char) (s : Str) : (s.splitOn c).flatten = s.filter (· ≠ c) := by
  induction s with
  | nil => rfl
  | cons d s ih =>
    rw [List.splitOn_cons_eq_if_modifyHead]
    obtain ⟨g, gs, h_split⟩ := List.exists_cons_of_ne_nil (List.splitOn_ne_nil c s)
    -- an underscore starts a group, and any other character joins the first one
    by_cases h : d = c
    · simp [h, ih]
    · rw [h_split] at ih
      simp only [List.flatten_cons] at ih
      simp [h, h_split, ih]

theorem splitOn_groups {groups : List Str} (h : groups ≠ [] ∧ ∀ g ∈ groups, IsDigits g) :
    (['_'].intercalate groups).splitOn '_' = groups := by
  refine List.splitOn_intercalate '_' (fun g hg h_under => ?_) h.1
  exact absurd ((h.2 g hg).2 '_' h_under) (by decide)

/-- There are no blanks in them. -/
theorem isSpace_of_mem_groups {groups : List Str} (h : groups ≠ [] ∧ ∀ g ∈ groups, IsDigits g)
    {c : Char} (hc : c ∈ ['_'].intercalate groups) : isSpace c = false := by
  by_cases h_under : c = '_'
  · rw [h_under]
    rfl
  · have h_filter : c ∈ (['_'].intercalate groups).filter (· ≠ '_') :=
      List.mem_filter.mpr ⟨hc, by simpa using h_under⟩
    rw [← flatten_splitOn, splitOn_groups h] at h_filter
    obtain ⟨g, hg, hc⟩ := List.mem_flatten.mp h_filter
    exact isSpace_of_isDigit ((h.2 g hg).2 c hc)

/-- A number has at most as many digits as its text has characters, and as `int` takes. -/
theorem WholeNumber.natAbs_lt {s : Str} {z : ℤ} (h : WholeNumber s z) :
    z.natAbs < 10 ^ s.length ∧ z.natAbs < 10 ^ maxStrDigits := by
  cases h with
  | @mk before sign after groups neg hbefore hsign hgroups hlength hafter =>
    have h_digits : ∀ c ∈ groups.flatten, c.isDigit := by
      intro c hc
      obtain ⟨g, hg, hc⟩ := List.mem_flatten.mp hc
      exact (hgroups.2 g hg).2 c hc
    have h_lt : digitsVal groups.flatten < 10 ^ groups.flatten.length := digitsVal_lt h_digits
    -- the underscores, the sign and the blanks are characters of their own
    have h_groups : groups.flatten.length ≤ (['_'].intercalate groups).length := by
      have h_flat := flatten_splitOn '_' (['_'].intercalate groups)
      rw [splitOn_groups hgroups] at h_flat
      rw [h_flat]
      exact List.length_filter_le _ _
    rw [natAbs_signed]
    refine ⟨h_lt.trans_le (Nat.pow_le_pow_right (by decide) ?_),
      h_lt.trans_le (Nat.pow_le_pow_right (by decide) hlength)⟩
    simp only [List.length_append]
    omega

theorem WholeNumber.int {s : Str} {z : ℤ} (h : WholeNumber (s.map U.toAscii) z) :
    int U s = some z := by
  generalize h_text : s.map U.toAscii = t at h
  cases h with
  | @mk before sign after groups neg hbefore hsign hgroups hlength hafter =>
    obtain ⟨g, gs, rfl⟩ := List.exists_cons_of_ne_nil hgroups.1
    obtain ⟨rest, h_first, -⟩ := exists_intercalate g gs
    have h_g := hgroups.2 g List.mem_cons_self
    have h_last : ∀ c ∈ (['_'].intercalate (g :: gs)).getLast?, isSpace c = false := fun c hc =>
      isSpace_of_mem_groups hgroups (List.mem_of_mem_getLast? hc)
    -- blanks and the sign go, and the groups are left
    have h_front : (s.map U.toAscii).dropWhile isSpace =
        sign ++ (['_'].intercalate (g :: gs) ++ after) := by
      rw [h_text, dropWhile_append_of_head hbefore]
      intro c hc
      rw [h_first, List.append_assoc] at hc
      exact head?_sign_digits hsign h_g _ hc
    have h_sign : splitSign (sign ++ (['_'].intercalate (g :: gs) ++ after)) =
        (neg, ['_'].intercalate (g :: gs) ++ after) := by
      rw [h_first, List.append_assoc, splitSign_sign hsign h_g]
    unfold Python.int
    rw [h_front, h_sign]
    dsimp only
    rw [dropBack_append h_last hafter, splitOn_groups hgroups,
      if_pos (intGroups_iff.mpr ⟨hgroups.2, hlength⟩)]
    rfl

/-- **What `int` reads.** -/
theorem int_eq_some {s : Str} {z : ℤ} : int U s = some z ↔ WholeNumber (s.map U.toAscii) z := by
  refine ⟨fun h => ?_, WholeNumber.int U⟩
  obtain ⟨sign, h_sign, h_split⟩ := exists_isSign ((s.map U.toAscii).dropWhile isSpace)
  unfold int at h
  dsimp only at h
  generalize splitSign ((s.map U.toAscii).dropWhile isSpace) = parts at h h_sign h_split
  obtain ⟨after, h_back, h_after⟩ := exists_dropBack isSpace parts.2
  generalize (parts.2.reverse.dropWhile isSpace).reverse = body at h h_back
  split at h
  · next h_groups =>
    obtain ⟨h_digits, h_length⟩ := intGroups_iff.mp h_groups
    have h_before : ∀ c ∈ (s.map U.toAscii).takeWhile isSpace, isSpace c :=
      fun _ hc => List.mem_takeWhile_imp hc
    have h_number := WholeNumber.mk h_before h_sign ⟨List.splitOn_ne_nil _ _, h_digits⟩ h_length
      h_after
    -- the text is put together again from what has been taken off
    rw [List.intercalate_splitOn, ← h_back, ← h_split, List.takeWhile_append_dropWhile] at h_number
    exact Option.some.inj h ▸ h_number
  · exact absurd h (by simp)

theorem int_ascii_eq_some {s : Str} {z : ℤ} : int .ascii s = some z ↔ WholeNumber s z := by
  have h_map : s.map Unicode.ascii.toAscii = s := List.map_id s
  rw [int_eq_some, h_map]

/-- The text is the number as a whole, or the number is zero and the text is none. -/
def CountsAs (s : Str) (z : ℤ) : Prop := WholeNumber s z ∨ z = 0 ∧ ∀ z', ¬ WholeNumber s z'

theorem countsAs_iff {s : Str} {z : ℤ} :
    CountsAs (s.map U.toAscii) z ↔ (int U s).getD 0 = z := by
  unfold CountsAs
  simp only [← int_eq_some]
  cases int U s <;> simp [eq_comm]

/-- Digits with a value other than zero and below a bound, and a plus at most. -/
inductive PlainNumber (bound : ℕ) : Str → Prop
  | mk {before sign digits after : Str} (hbefore : ∀ c ∈ before, isSpace c)
    (hsign : IsSign sign false) (hdigits : IsDigits digits) (hlength : digits.length ≤ maxStrDigits)
    (hvalue : digitsVal digits ≠ 0 ∧ digitsVal digits < bound) (hafter : ∀ c ∈ after, isSpace c) :
    PlainNumber bound (before ++ (sign ++ (digits ++ after)))

/-- **When a text is the same number to the C library and to Python**: for numbers that are
below the bound, the first is followed by a conversion that keeps them. -/
theorem plainNumber_iff {bound : ℕ} {f : ℤ → ℤ} (hf : ∀ n : ℕ, n < bound → f n = n) {s : Str} :
    (∃ k : ℕ, (k ≠ 0 ∧ k < bound) ∧ (∃ z, StartsWith s z ∧ f z = k) ∧ WholeNumber s k) ↔
      PlainNumber bound s := by
  constructor
  · rintro ⟨k, ⟨h_ne, h_lt⟩, ⟨z, h_starts, h_f⟩, h_whole⟩
    generalize h_k : (k : ℤ) = z' at h_whole h_f
    cases h_whole with
    | @mk before sign after groups neg hbefore hsign hgroups hlength hafter =>
      obtain ⟨g, gs, rfl⟩ := List.exists_cons_of_ne_nil hgroups.1
      obtain ⟨h_g, h_gs⟩ := List.forall_mem_cons.mp hgroups.2
      obtain ⟨rfl, h_value⟩ : neg = false ∧ k = digitsVal (g :: gs).flatten := by
        unfold signed at h_k
        cases neg with
        | true =>
          rw [if_pos rfl] at h_k
          omega
        | false => exact ⟨rfl, by rwa [if_neg Bool.false_ne_true, Nat.cast_inj] at h_k⟩
      have h_le : digitsVal g ≤ digitsVal (g :: gs).flatten := by
        rw [List.flatten_cons, digitsVal_append]
        exact (Nat.le_mul_of_pos_right _ (by positivity)).trans (Nat.le_add_right _ _)
      -- the C library reads the first of the groups
      have h_leading := leadingNumber_groups gs hbefore hsign h_g hafter
      have h_first : z = digitsVal g :=
        (startsWith_iff.mp h_starts).symm.trans (startsWith_iff.mp (Or.inl h_leading))
      rw [h_first, hf _ (by omega), ← h_k] at h_f
      -- which is all of them, if it has the same value
      by_cases h_one : gs = []
      · subst h_one
        rw [List.flatten_singleton] at hlength
        rw [List.intercalate_singleton]
        exact .mk hbefore hsign h_g hlength (by omega) hafter
      · have h_ten := digitsVal_groups (g := g) h_one h_gs
        omega
  · intro h
    cases h with
    | @mk before sign digits after hbefore hsign hdigits hlength hvalue hafter =>
      have h_leading := leadingNumber_groups [] hbefore hsign hdigits hafter
      have h_whole : WholeNumber (before ++ (sign ++ (['_'].intercalate [digits] ++ after)))
          (signed false (digitsVal [digits].flatten)) :=
        .mk hbefore hsign (by simpa using hdigits) (by simpa using hlength) hafter
      rw [List.intercalate_singleton] at h_leading h_whole
      rw [List.flatten_singleton] at h_whole
      exact ⟨digitsVal digits, hvalue, ⟨_, Or.inl h_leading, hf _ hvalue.2⟩, h_whole⟩

/-! ### ASCII -/

section Ascii

variable {s : Str}

theorem dropWhile_isSpace (hs : Ascii s) :
    s.dropWhile U.isSpace = s.dropWhile Unicode.ascii.isSpace := by
  apply dropWhile_congr
  intro c hc
  exact (U.isSpace_of_ascii c (hs c hc)).trans (Unicode.ascii.isSpace_of_ascii c (hs c hc)).symm

/-- Of ASCII text, all databases know the same. -/
theorem strip_ascii (hs : Ascii s) : strip U s = strip .ascii s := by
  have h_back : Ascii (s.dropWhile Unicode.ascii.isSpace).reverse := fun c hc =>
    hs c ((List.dropWhile_sublist _).subset (List.mem_reverse.mp hc))
  rw [strip, strip, dropWhile_isSpace U hs, dropWhile_isSpace U h_back]

theorem upper_ascii (hs : Ascii s) : upper U s = upper .ascii s :=
  List.flatMap_congr fun c hc => U.upper_of_ascii c (hs c hc)

theorem int_ascii (h : Ascii s) : int U s = int .ascii s := by
  have h_map : s.map U.toAscii = s.map Unicode.ascii.toAscii := by
    refine List.map_congr_left fun c hc => ?_
    exact (U.toAscii_of_ascii c (h c hc)).trans (Unicode.ascii.toAscii_of_ascii c (h c hc)).symm
  rw [int, int, h_map]

end Ascii

/-! ### Numbers -/

theorem ascii_of_isDigit {c : Char} (hc : c.isDigit) : c.toNat < 128 := by
  have h_digit := (Char.isDigit_iff_toNat.mp hc).2
  have h_nine : '9'.toNat = 57 := by decide
  omega

/-- **A string of digits is read as its value**, unless it is too long. -/
theorem int_digits {s : Str} (hne : s ≠ []) (hs : ∀ c ∈ s, c.isDigit) :
    int U s = if s.length ≤ maxStrDigits then some (digitsVal s : ℤ) else none := by
  have h_space : ∀ {l : Str}, (∀ c ∈ l, c.isDigit) → l.dropWhile isSpace = l := fun {l} hl =>
    List.dropWhile_eq_self_iff.mpr fun hpos =>
      by simp [isSpace_of_isDigit (hl _ (List.getElem_mem hpos))]
  -- digits are ASCII, so nothing is translated and nothing stripped
  have h_map : s.map U.toAscii = s := by
    refine (List.map_congr_left fun c hc => ?_).trans (List.map_id s)
    exact U.toAscii_of_ascii c (ascii_of_isDigit (hs c hc))
  have h_sign : splitSign s = (false, s) := by
    obtain ⟨c, cs, rfl⟩ := List.exists_cons_of_ne_nil hne
    exact splitSign_of_isDigit (hs c List.mem_cons_self) cs
  have h_under : '_' ∉ s := fun h => absurd (hs _ h) (by decide)
  have h_reverse : s.reverse.dropWhile isSpace = s.reverse :=
    h_space fun c hc => hs c (List.mem_reverse.mp hc)
  have h_all : s.all Char.isDigit = true := List.all_eq_true.mpr hs
  -- all of the text is one group of digits
  unfold int intGroups
  rw [h_map, h_space hs, h_sign]
  dsimp only
  rw [h_reverse, List.reverse_reverse, List.splitOn_eq_singleton h_under, List.flatten_singleton]
  simp [h_all, hne]

/-- A number of 64 bits is far below the limit of the digits. -/
theorem length_toDec_le {n : ℕ} (hn : n < 2 ^ 64) : (toDec n).length ≤ maxStrDigits := by
  have h_length : (toDec n).length ≤ 20 :=
    (Nat.length_toDigits_le_iff (by decide) (by decide)).mpr (hn.trans (by decide))
  exact h_length.trans (by decide)

/-- It is read back as it was written. -/
theorem int_toDec {n : ℕ} (hn : n < 2 ^ 64) : int U (toDec n) = some (n : ℤ) := by
  have h_ne : toDec n ≠ [] := Nat.toDigits_ne_nil
  have h_digits : ∀ c ∈ toDec n, c.isDigit := fun c hc => isDigit_of_mem_toDec hc
  have h_val : digitsVal (toDec n) = n := Nat.ofDigitChars_ten_toDigits
  rw [int_digits U h_ne h_digits, h_val, if_pos (length_toDec_le hn)]

theorem plainNumber_toDec {n : ℕ} (hne : n ≠ 0) (hn : n < 2 ^ 64) :
    PlainNumber (2 ^ 64) (toDec n) := by
  have h_val : digitsVal (toDec n) = n := Nat.ofDigitChars_ten_toDigits
  have h_digits : IsDigits (toDec n) := ⟨Nat.toDigits_ne_nil, fun _ hc => isDigit_of_mem_toDec hc⟩
  have h_plain : PlainNumber (2 ^ 64) ([] ++ ([] ++ (toDec n ++ []))) :=
    .mk (by simp) .none h_digits (length_toDec_le hn) (by rw [h_val]; exact ⟨hne, hn⟩) (by simp)
  simpa using h_plain

/-- A number has at most as many digits as its text has characters. -/
theorem int_natAbs_lt {s : Str} {z : ℤ} (h : int U s = some z) : z.natAbs < 10 ^ s.length := by
  have h_lt := ((int_eq_some U).mp h).natAbs_lt.1
  rwa [List.length_map] at h_lt

/-- `int` reads numbers up to its limit of digits. -/
theorem natAbs_lt_of_int {s : Str} {z : ℤ} (h : int U s = some z) :
    z.natAbs < 10 ^ maxStrDigits :=
  ((int_eq_some U).mp h).natAbs_lt.2

end Python
end Mini2
