import Mini2.Data.Text

/-!
# Writing and reading CSV

The scripts write partition files with Python's `csv.writer` in its default
dialect, and the nodes read them with `splitCsv`. The two agree on fields without
quotes and line ends (`splitCsv_writeFields`), but not on where a row ends: the
writer terminates it by CR and LF, the reader's `std::getline` takes the LF for
the end and leaves the CR to the last field.
-/

namespace Mini2

/-! ### csv.writer -/

/-- A field that `csv.writer` quotes: one with a delimiter, a quote or a part of a
line terminator. -/
def needsQuotes (field : Str) : Bool :=
  field.any fun c => c = ',' || c = '"' || c = '\r' || c = '\n'

/-- A field as it is written. -/
def writeField (field : Str) : Str :=
  if needsQuotes field then
    '"' :: field.flatMap (fun c => if c = '"' then ['"', '"'] else [c]) ++ ['"']
  else field

/-- The fields of a row, with delimiters in between. A single empty field is quoted. -/
def writeFields (fields : List Str) : Str :=
  if fields = [[]] then ['"', '"'] else [','].intercalate (fields.map writeField)

/-- `writerow` -/
def writerow (fields : List Str) : Str := writeFields fields ++ ['\r', '\n']

/-! ### splitCsv -/

/-- The loop of `splitCsv`, with the current field `cur`. -/
def splitCsvLoop (inQuotes : Bool) (cur : Str) : Str → List Str
  | [] => [cur]
  | c :: cs =>
    if c = '"' then splitCsvLoop (!inQuotes) cur cs
    else if c = ',' && !inQuotes then cur :: splitCsvLoop inQuotes [] cs
    else splitCsvLoop inQuotes (cur ++ [c]) cs

/-- Split a line into its fields. -/
def splitCsv (line : Str) : List Str := splitCsvLoop false [] line

/-! ### Where they agree -/

/-- A text without quotes and line ends. -/
def Plain (s : Str) : Prop := ∀ c ∈ s, c ≠ '"' ∧ c ≠ '\r' ∧ c ≠ '\n'

-- the characters of the text are looked at, not all characters
instance (s : Str) : Decidable (Plain s) := List.decidableBAll _ s

/-- Characters that are neither quotes nor delimiters join the current field. -/
theorem splitCsvLoop_append {b : Bool} {s : Str}
    (hs : ∀ c ∈ s, c ≠ '"' ∧ (c = ',' → b = true)) (cur rest : Str) :
    splitCsvLoop b cur (s ++ rest) = splitCsvLoop b (cur ++ s) rest := by
  induction s generalizing cur with
  | nil => rw [List.nil_append, List.append_nil]
  | cons c s ih =>
    obtain ⟨⟨h_quote, h_comma⟩, h_s⟩ := List.forall_mem_cons.mp hs
    have h_delim : (c = ',' && !b) = false := by
      by_cases hc : c = ','
      · simp [h_comma hc]
      · simp [hc]
    rw [List.cons_append, splitCsvLoop, if_neg h_quote, h_delim, if_neg Bool.false_ne_true, ih h_s,
      List.append_assoc, List.singleton_append]

/-- A field and whether it stands between quotes, as it stands on a line. -/
def wrap (f : Str × Bool) : Str := if f.2 then '"' :: f.1 ++ ['"'] else f.1

/-- The field can be wrapped so: it holds no quote, and no delimiter unless it is quoted. -/
def Wraps (f : Str × Bool) : Prop := ∀ c ∈ f.1, c ≠ '"' ∧ (c = ',' → f.2 = true)

theorem wraps_of_plain {f : Str × Bool} (hplain : Plain f.1) (hquoted : ',' ∈ f.1 → f.2 = true) :
    Wraps f :=
  fun c hc => ⟨(hplain c hc).1, fun h_comma => hquoted (h_comma ▸ hc)⟩

/-- **A wrapped field is read as the field.** -/
theorem splitCsvLoop_wrap {f : Str × Bool} (hf : Wraps f) (cur rest : Str) :
    splitCsvLoop false cur (wrap f ++ rest) = splitCsvLoop false (cur ++ f.1) rest := by
  obtain ⟨field, quoted⟩ := f
  cases quoted with
  | false => exact splitCsvLoop_append hf cur rest
  | true =>
    -- between the quotes, delimiters are characters of the field
    have h_in := splitCsvLoop_append (b := true) hf cur ('"' :: rest)
    rw [wrap, if_pos rfl, List.append_assoc, List.cons_append, splitCsvLoop, if_pos rfl]
    refine h_in.trans ?_
    rw [splitCsvLoop, if_pos rfl]
    rfl

/-- The fields of a line, one by one, up to what follows the last of them. -/
theorem splitCsvLoop_intercalate {init : List (Str × Bool)} {last : Str × Bool}
    (hinit : ∀ f ∈ init, Wraps f) (hlast : Wraps last) (rest : Str) :
    splitCsvLoop false [] ([','].intercalate ((init ++ [last]).map wrap) ++ rest) =
      init.map Prod.fst ++ splitCsvLoop false last.1 rest := by
  -- induction on the fields: a delimiter outside quotes ends one and clears the current field
  induction init with
  | nil =>
    rw [List.nil_append, List.map_singleton, List.intercalate_singleton, splitCsvLoop_wrap hlast]
    rfl
  | cons f init ih =>
    obtain ⟨h_f, h_init⟩ := List.forall_mem_cons.mp hinit
    rw [List.cons_append, List.map_cons, List.intercalate_cons_of_ne_nil (by simp),
      List.append_assoc, List.append_assoc, splitCsvLoop_wrap h_f]
    exact congrArg (f.1 :: ·) (ih h_init)

/-- **`splitCsv` undoes quoting**: fields without quotes and line ends, each of
them quoted if it holds a delimiter and others at will, come back as they were. -/
theorem splitCsv_wrap (fields : List (Str × Bool)) (hne : fields ≠ [])
    (hplain : ∀ f ∈ fields, Plain f.1) (hquoted : ∀ f ∈ fields, ',' ∈ f.1 → f.2 = true) :
    splitCsv ([','].intercalate (fields.map wrap)) = fields.map Prod.fst := by
  have h_wraps : ∀ f ∈ fields, Wraps f := fun f hf => wraps_of_plain (hplain f hf) (hquoted f hf)
  have h_split := List.dropLast_append_getLast hne
  obtain ⟨h_init, h_last⟩ := List.forall_mem_append.mp (h_split.symm ▸ h_wraps)
  have h_line := splitCsvLoop_intercalate h_init (List.forall_mem_singleton.mp h_last) []
  rw [h_split, List.append_nil] at h_line
  rw [splitCsv, h_line]
  conv_rhs => rw [← h_split, List.map_append, List.map_singleton]
  rfl

theorem splitCsv_wrap_line : splitCsv "a b,\"c,d\",,\"e\",".toList =
    ["a b".toList, "c,d".toList, [], "e".toList, []] :=
  splitCsv_wrap [("a b".toList, false), ("c,d".toList, true), ([], false), ("e".toList, true),
    ([], false)] (by simp) (by decide) (by decide)

/-- A field is written in quotes if it holds a delimiter. -/
theorem writeField_eq_wrap {field : Str} (hplain : Plain field) :
    writeField field = wrap (field, needsQuotes field) := by
  have h_body : field.flatMap (fun c => if c = '"' then ['"', '"'] else [c]) = field := by
    refine (List.flatMap_congr fun c hc => if_neg (hplain c hc).1).trans ?_
    exact List.flatMap_singleton' field
  rw [writeField, h_body]
  rfl

theorem wraps_needsQuotes {field : Str} (hplain : Plain field) :
    Wraps (field, needsQuotes field) :=
  wraps_of_plain hplain fun h_comma => List.any_eq_true.mpr ⟨',', h_comma, rfl⟩

/-- **A row is read back as it was written**, but for the CR at its end. -/
theorem splitCsv_writeFields {init : List Str} {last : Str} (hinit : ∀ f ∈ init, Plain f)
    (hlast : Plain last) (hne : init ≠ []) :
    splitCsv (writeFields (init ++ [last]) ++ ['\r']) = init ++ [last ++ ['\r']] := by
  -- a row of one empty field would be written otherwise
  have h_many : init ++ [last] ≠ [[]] := by
    intro h
    have h_length := congrArg List.length h
    rw [List.length_append, List.length_singleton, List.length_singleton] at h_length
    exact hne (List.length_eq_zero_iff.mp (by omega))
  have h_all : ∀ f ∈ init ++ [last], Plain f :=
    List.forall_mem_append.mpr ⟨hinit, List.forall_mem_singleton.mpr hlast⟩
  -- each field is written with quotes or without
  have h_map : (init ++ [last]).map writeField =
      (init.map (fun f => (f, needsQuotes f)) ++ [(last, needsQuotes last)]).map wrap := by
    rw [List.map_congr_left fun f hf => writeField_eq_wrap (h_all f hf)]
    simp
  have h_init : ∀ f ∈ init.map (fun f => (f, needsQuotes f)), Wraps f :=
    List.forall_mem_map.mpr fun f hf => wraps_needsQuotes (hinit f hf)
  rw [splitCsv, writeFields, if_neg h_many, h_map,
    splitCsvLoop_intercalate h_init (wraps_needsQuotes hlast), List.map_map]
  exact congrArg (· ++ [last ++ ['\r']]) (List.map_id _)

theorem notMem_writeField {field : Str} (hplain : Plain field) : '\n' ∉ writeField field := by
  have h_not : '\n' ∉ field := fun h => (hplain _ h).2.2 rfl
  unfold writeField
  split
  · have h_body : '\n' ∉ field.flatMap fun c => if c = '"' then ['"', '"'] else [c] := by
      intro h
      obtain ⟨c, hc, h⟩ := List.mem_flatMap.mp h
      rw [if_neg (hplain c hc).1] at h
      exact h_not (List.mem_singleton.mp h ▸ hc)
    simp [h_body]
  · exact h_not

/-- A row holds no LF before its end. -/
theorem notMem_writeFields {fields : List Str} (hfields : ∀ f ∈ fields, Plain f) :
    '\n' ∉ writeFields fields := by
  -- neither a field nor a comma is one
  have h_join : '\n' ∉ [','].intercalate (fields.map writeField) := by
    induction fields with
    | nil => exact List.not_mem_nil
    | cons f fields ih =>
      obtain ⟨h_f, h_fields⟩ := List.forall_mem_cons.mp hfields
      have h_field := notMem_writeField h_f
      cases fields with
      | nil => simpa using h_field
      | cons g fields =>
        rw [List.map_cons, List.map_cons, List.intercalate_cons_cons, List.mem_append,
          List.mem_append]
        have h_rest := ih h_fields
        rw [List.map_cons] at h_rest
        simp [h_field, h_rest]
  unfold writeFields
  split
  · decide
  · exact h_join

end Mini2
