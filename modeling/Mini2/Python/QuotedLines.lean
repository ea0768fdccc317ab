import Mini2.Python.CsvReader
import Mini2.Store.Csv

/-!
# Lines that both readers split alike

`splitCsv` takes every quote of a line for the start or the end of a quoted part. `csv.reader`
does so only at the start of a field and at the end of the part that is quoted there; any other
quote is a character of its field, as is a doubled one.

A `RawField` has no quotes but those that both take alike. A line of such fields is split alike
(`splitCsv_lineText`, `csvRecords_lineText`), unless a field is too long for `csv.reader`.
-/

namespace Mini2
namespace Python

/-! ### Fields as they are written -/

/-- A text without quotes, delimiters and line ends. -/
def Bare (s : Str) : Prop := ∀ c ∈ s, c ≠ '"' ∧ c ≠ ',' ∧ c ≠ '\r' ∧ c ≠ '\n'

-- the characters of the text are looked at, not all characters
instance (s : Str) : Decidable (Bare s) := List.decidableBAll _ s

/-- A text without quotes and line feeds, as it may stand between quotes. -/
def Quotable (s : Str) : Prop := ∀ c ∈ s, c ≠ '"' ∧ c ≠ '\n'

instance (s : Str) : Decidable (Quotable s) := List.decidableBAll _ s

/-- A field that both readers take alike. -/
inductive RawField
  | bare (text : Str) (h : Bare text)
  /-- A quoted part, which may be followed by a bare one. -/
  | quoted (body tail : Str) (hbody : Quotable body) (htail : Bare tail)

namespace RawField

/-- The field as it is written. -/
def text : RawField → Str
  | bare text _ => text
  | quoted body tail _ _ => '"' :: (body ++ '"' :: tail)

/-- The field as it is read. -/
def value : RawField → Str
  | bare text _ => text
  | quoted body tail _ _ => body ++ tail

end RawField

/-- A line of fields. -/
def lineText (fields : List RawField) : Str := [','].intercalate (fields.map RawField.text)

theorem lineText_cons (f : RawField) {fields : List RawField} (h : fields ≠ []) :
    lineText (f :: fields) = f.text ++ ',' :: lineText fields := by
  rw [lineText, List.map_cons, List.intercalate_cons_of_ne_nil (by simpa using h),
    List.append_assoc, List.singleton_append]
  rfl

theorem lineText_singleton (f : RawField) : lineText [f] = f.text := by
  rw [lineText, List.map_singleton, List.intercalate_singleton]

/-! ### splitCsv -/

/-- A field is split off as it is read. -/
theorem splitCsvLoop_rawField (f : RawField) (cur rest : Str) :
    splitCsvLoop false cur (f.text ++ rest) = splitCsvLoop false (cur ++ f.value) rest := by
  cases f with
  | bare text h =>
    exact splitCsvLoop_append (fun c hc => ⟨(h c hc).1, fun hcomma => absurd hcomma (h c hc).2.1⟩)
      cur rest
  | quoted body tail hbody htail =>
    have h_body := splitCsvLoop_append (b := true) (fun c hc => ⟨(hbody c hc).1, fun _ => rfl⟩)
      cur ('"' :: (tail ++ rest)) (s := body)
    have h_tail := splitCsvLoop_append (b := false)
      (fun c hc => ⟨(htail c hc).1, fun hcomma => absurd hcomma (htail c hc).2.1⟩)
      (cur ++ body) rest (s := tail)
    change splitCsvLoop false cur ('"' :: ((body ++ '"' :: tail) ++ rest)) = _
    -- the first quote opens the quoted part, and the second one closes it
    rw [splitCsvLoop, if_pos rfl, List.append_assoc, List.cons_append]
    refine h_body.trans ?_
    rw [splitCsvLoop, if_pos rfl]
    exact h_tail.trans (by rw [List.append_assoc]; rfl)

/-- **A line is split into its fields.** -/
theorem splitCsv_lineText {fields : List RawField} (h : fields ≠ []) :
    splitCsv (lineText fields) = fields.map RawField.value := by
  unfold splitCsv
  induction fields with
  | nil => exact absurd rfl h
  | cons f fields ih =>
    by_cases hfields : fields = []
    · -- the last field goes to the end of the line
      subst hfields
      have h_one := splitCsvLoop_rawField f [] []
      rw [List.append_nil, List.nil_append] at h_one
      rw [lineText_singleton, h_one]
      rfl
    · -- a comma outside of quotes ends the field
      rw [lineText_cons f hfields, splitCsvLoop_rawField, List.nil_append, List.map_cons]
      exact congrArg (f.value :: ·) (ih hfields)

/-! ### csv.reader -/

namespace CsvReader

/-- The records `recs` are those of a reader that is within a line, with the text `s` ahead. -/
def Reading (r : CsvReader) (s : Str) (recs : List (Option (List Str))) : Prop :=
  ∃ (r₀ : CsvReader) (cur : Str), cur.foldlM (fun r c => processChar r (some c)) r₀ = some r ∧
    recs = r₀.records (linesFrom cur s)

theorem linesFrom_cons (cur s : Str) {c : Char} (hc : c ≠ '\r' ∧ c ≠ '\n') :
    linesFrom cur (c :: s) = linesFrom (cur ++ [c]) s := by
  rw [linesFrom]
  · exact hc.2
  · exact fun _ h => absurd h hc.1
  · exact hc.1

theorem linesFrom_cr (cur : Str) {s : Str} (hs : s.head? ≠ some '\n') :
    linesFrom cur ('\r' :: s) = (cur ++ ['\r']) :: linesFrom [] s := by
  rw [linesFrom]
  rintro s' rfl
  exact hs rfl

variable {r r' : CsvReader} {s : Str} {recs : List (Option (List Str))} {c : Char}

theorem Reading.start (s : Str) : Reading .start s (csvRecords s) := ⟨.start, [], rfl, rfl⟩

/-- A character within the line. -/
theorem Reading.char (h : Reading r (c :: s) recs) (hc : c ≠ '\r' ∧ c ≠ '\n')
    (hr : r.processChar (some c) = some r') : Reading r' s recs := by
  -- the reader has got the start of the line, and has the rest ahead
  obtain ⟨r₀, cur, h_cur, rfl⟩ := h
  refine ⟨r₀, cur ++ [c], ?_, by rw [linesFrom_cons cur s hc]⟩
  rw [List.foldlM_append, h_cur]
  simpa using hr

/-- The end of a line leaves a quoted field open. -/
theorem processChar_inQuotedField (h : r.state = .inQuotedField) : r.processChar none = some r := by
  unfold processChar
  rw [h]

/-- A carriage return within a quoted field ends the line, but not the record. -/
theorem Reading.cr (h : Reading r ('\r' :: s) recs) (hs : s.head? ≠ some '\n')
    (hr : r.processChar (some '\r') = some r') (hstate : r'.state = .inQuotedField) :
    Reading r' s recs := by
  obtain ⟨r₀, cur, h_cur, rfl⟩ := h
  have h_line : r₀.processLine (cur ++ ['\r']) = some r' := by
    rw [processLine, List.foldlM_append, h_cur]
    simpa [hr] using processChar_inQuotedField hstate
  refine ⟨r', [], rfl, ?_⟩
  rw [linesFrom_cr cur hs, records, h_line]
  -- the record is not at its end, so the next line goes on with it
  simp [hstate]

/-- The end of a line at which a record ends. -/
theorem Reading.lf (h : Reading r ('\n' :: s) recs)
    (hr : (r.processChar (some '\n')).bind (fun r => r.processChar none) = some r')
    (hstate : r'.state = .startRecord) : recs = some r'.fields :: csvRecords s := by
  obtain ⟨r₀, cur, h_cur, rfl⟩ := h
  have h_line : r₀.processLine (cur ++ ['\n']) = some r' := by
    rw [processLine, List.foldlM_append, h_cur]
    simpa using hr
  rw [linesFrom, records, h_line]
  simp [hstate, csvRecords]

/-! #### Characters of a field -/

section Chars

variable {field : Str} {fields : List Str} {state : CsvState}

/-- The states before a field. -/
def AtStart (state : CsvState) : Prop := state = .startRecord ∨ state = .startField

theorem isEol_eq_false (hc : c ≠ '\r' ∧ c ≠ '\n') : isEol (some c) = false := by
  simp [isEol, hc.1, hc.2]

theorem addChar_eq (hlength : r.field.length < fieldLimit) :
    r.addChar state c = some { r with state := state, field := r.field ++ [c] } :=
  if_neg (not_le.mpr hlength)

theorem processChar_atStart (hstate : AtStart state) (hc : c ≠ '\r' ∧ c ≠ '\n') :
    processChar ⟨state, field, fields⟩ (some c) = startField ⟨state, field, fields⟩ (some c) := by
  have h_eol := isEol_eq_false hc
  rcases hstate with rfl | rfl <;> simp [processChar, h_eol]

theorem startField_bare (hc : c ≠ '"' ∧ c ≠ ',' ∧ c ≠ '\r' ∧ c ≠ '\n') :
    startField ⟨state, [], fields⟩ (some c) = some ⟨.inField, [c], fields⟩ := by
  have h_eol := isEol_eq_false hc.2.2
  unfold startField
  rw [h_eol, if_neg (by simp)]
  split
  · next h => exact absurd h (by simp)
  · next h => exact absurd (Option.some.inj h) hc.1
  · next h => exact absurd (Option.some.inj h) hc.2.1
  · next h =>
    obtain rfl := Option.some.inj h
    exact addChar_eq (show 0 < fieldLimit by decide)

theorem processChar_inField (hc : c ≠ ',' ∧ c ≠ '\r' ∧ c ≠ '\n')
    (hlength : field.length < fieldLimit) :
    processChar ⟨.inField, field, fields⟩ (some c) = some ⟨.inField, field ++ [c], fields⟩ := by
  have h_eol := isEol_eq_false hc.2
  unfold processChar
  dsimp only
  rw [h_eol, if_neg (by simp)]
  split
  · next h => exact absurd h (by simp)
  · next h => exact absurd (Option.some.inj h) hc.1
  · next h =>
    obtain rfl := Option.some.inj h
    exact addChar_eq hlength

theorem processChar_quoted (hc : c ≠ '"') (hlength : field.length < fieldLimit) :
    processChar ⟨.inQuotedField, field, fields⟩ (some c) =
      some ⟨.inQuotedField, field ++ [c], fields⟩ := by
  have h_add : addChar ⟨.inQuotedField, field, fields⟩ .inQuotedField c =
      some ⟨.inQuotedField, field ++ [c], fields⟩ := addChar_eq hlength
  rw [← h_add]
  unfold processChar
  split <;> simp_all

theorem processChar_afterQuote (hc : c ≠ '"' ∧ c ≠ ',' ∧ c ≠ '\r' ∧ c ≠ '\n')
    (hlength : field.length < fieldLimit) :
    processChar ⟨.quoteInQuotedField, field, fields⟩ (some c) =
      some ⟨.inField, field ++ [c], fields⟩ := by
  have h_eol := isEol_eq_false hc.2.2
  unfold processChar
  dsimp only
  rw [h_eol, if_neg (by simp)]
  split
  · next h => exact absurd h (by simp)
  · next h => exact absurd (Option.some.inj h) hc.1
  · next h => exact absurd (Option.some.inj h) hc.2.1
  · next h =>
    obtain rfl := Option.some.inj h
    exact addChar_eq hlength

/-- A bare text joins an unquoted field. -/
theorem Reading.bare {text : Str} (htext : Bare text)
    (hlength : (field ++ text).length ≤ fieldLimit)
    (h : Reading ⟨.inField, field, fields⟩ (text ++ s) recs) :
    Reading ⟨.inField, field ++ text, fields⟩ s recs := by
  induction text generalizing field with
  | nil => rwa [List.append_nil]
  | cons c text ih =>
    obtain ⟨h_c, h_text⟩ := List.forall_mem_cons.mp htext
    rw [← List.singleton_append, ← List.append_assoc] at hlength ⊢
    -- there is room for one more character
    have h_room : field.length < fieldLimit := by
      simp only [List.length_append, List.length_singleton] at hlength
      omega
    exact ih h_text hlength (h.char h_c.2.2 (processChar_inField h_c.2 h_room))

/-- A text between quotes joins a quoted field. -/
theorem Reading.quoted {body : Str} (hbody : Quotable body)
    (hlength : (field ++ body).length ≤ fieldLimit)
    (h : Reading ⟨.inQuotedField, field, fields⟩ (body ++ '"' :: s) recs) :
    Reading ⟨.inQuotedField, field ++ body, fields⟩ ('"' :: s) recs := by
  induction body generalizing field with
  | nil => rwa [List.append_nil]
  | cons c body ih =>
    obtain ⟨h_c, h_body⟩ := List.forall_mem_cons.mp hbody
    rw [← List.singleton_append, ← List.append_assoc] at hlength ⊢
    have h_room : field.length < fieldLimit := by
      simp only [List.length_append, List.length_singleton] at hlength
      omega
    have h_char : processChar ⟨.inQuotedField, field, fields⟩ (some c) =
        some ⟨.inQuotedField, field ++ [c], fields⟩ := processChar_quoted h_c.1 h_room
    refine ih h_body hlength ?_
    by_cases h_cr : c = '\r'
    · -- what follows the carriage return is within the quotes
      subst h_cr
      refine h.cr ?_ h_char rfl
      cases body with
      | nil =>
        intro h_head
        exact absurd (Option.some.inj h_head) (by decide)
      | cons d body =>
        intro h_head
        exact (h_body d List.mem_cons_self).2 (Option.some.inj h_head)
    · exact h.char ⟨h_cr, h_c.2⟩ h_char

/-- A field is read as its value, up to what ends it. -/
theorem Reading.rawField (f : RawField) (hlength : f.value.length ≤ fieldLimit)
    (hstate : AtStart state) (h : Reading ⟨state, [], fields⟩ (f.text ++ s) recs) :
    ∃ state', Reading ⟨state', f.value, fields⟩ s recs ∧
      (state' = .inField ∨ state' = .quoteInQuotedField ∨ f.text = [] ∧ state' = state) := by
  cases f with
  | bare text htext =>
    cases text with
    | nil => exact ⟨state, h, Or.inr (Or.inr ⟨rfl, rfl⟩)⟩
    | cons c text =>
      obtain ⟨h_c, h_text⟩ := List.forall_mem_cons.mp htext
      have h_char : processChar ⟨state, [], fields⟩ (some c) = some ⟨.inField, [c], fields⟩ := by
        rw [processChar_atStart hstate h_c.2.2, startField_bare h_c]
      exact ⟨.inField, (h.char h_c.2.2 h_char).bare h_text hlength, Or.inl rfl⟩
  | quoted body tail hbody htail =>
    have h_value : (body ++ tail).length ≤ fieldLimit := hlength
    have h_body : ([] ++ body).length ≤ fieldLimit := by
      rw [List.nil_append]
      rw [List.length_append] at h_value
      omega
    -- a quote at the start of a field opens it
    have h_open : processChar ⟨state, [], fields⟩ (some '"') =
        some ⟨.inQuotedField, [], fields⟩ := by
      rw [processChar_atStart hstate (by decide)]
      rfl
    have h_text : Reading ⟨state, [], fields⟩ ('"' :: (body ++ '"' :: (tail ++ s))) recs := by
      simpa [RawField.text] using h
    -- the next one may be its end, since the part holds none itself
    have h_close : processChar ⟨.inQuotedField, [] ++ body, fields⟩ (some '"') =
        some ⟨.quoteInQuotedField, body, fields⟩ := rfl
    have h_quote := ((h_text.char (by decide) h_open).quoted hbody h_body).char (by decide) h_close
    cases tail with
    | nil =>
      exact ⟨.quoteInQuotedField, by simpa [RawField.value] using h_quote, Or.inr (Or.inl rfl)⟩
    | cons c tail =>
      obtain ⟨h_c, h_tail⟩ := List.forall_mem_cons.mp htail
      have h_room : body.length < fieldLimit := by
        rw [List.length_append, List.length_cons] at h_value
        omega
      have h_rest := (h_quote.char h_c.2.2 (processChar_afterQuote h_c h_room)).bare h_tail
        (by simpa using h_value)
      exact ⟨.inField, by simpa [RawField.value] using h_rest, Or.inl rfl⟩

/-- **A line is read as the values of its fields**, behind those that have been read. -/
theorem Reading.lineText {line : List RawField} (hline : line ≠ [])
    (hlength : ∀ f ∈ line, f.value.length ≤ fieldLimit) (hstate : AtStart state)
    (hempty : state = .startRecord → Python.lineText line ≠ [])
    (h : Reading ⟨state, [], fields⟩ (Python.lineText line ++ '\n' :: s) recs) :
    recs = some (fields ++ line.map RawField.value) :: csvRecords s := by
  induction line generalizing state fields with
  | nil => exact absurd rfl hline
  | cons f line ih =>
    obtain ⟨h_f, h_line⟩ := List.forall_mem_cons.mp hlength
    by_cases h_last : line = []
    · subst h_last
      rw [lineText_singleton] at h hempty
      obtain ⟨state', h_read, h_state⟩ := h.rawField f h_f hstate
      have h_end : (processChar ⟨state', f.value, fields⟩ (some '\n')).bind
          (fun r => r.processChar none) = some ⟨.startRecord, [], fields ++ [f.value]⟩ := by
        rcases h_state with rfl | rfl | ⟨h_text, rfl⟩
        · rfl
        · rfl
        · -- an empty field ends a record, unless it is the first
          rcases hstate with rfl | rfl
          · exact absurd h_text (hempty rfl)
          · rfl
      exact h_read.lf h_end rfl
    · rw [lineText_cons f h_last, List.append_assoc] at h
      obtain ⟨state', h_read, h_state⟩ := h.rawField f h_f hstate
      -- the comma saves the field, and the next one starts
      have h_comma : processChar ⟨state', f.value, fields⟩ (some ',') =
          some ⟨.startField, [], fields ++ [f.value]⟩ := by
        rcases h_state with rfl | rfl | ⟨-, rfl⟩
        · rfl
        · rfl
        · rcases hstate with rfl | rfl <;> rfl
      have h_rest := ih h_last h_line (Or.inr rfl) (fun h => absurd h (by simp))
        (h_read.char (by decide) h_comma)
      rw [h_rest, List.map_cons, List.append_assoc, List.singleton_append]

end Chars

end CsvReader

/-- The record of a line. An empty line has no field. -/
def lineRecord (line : List RawField) : List Str :=
  if lineText line = [] then [] else line.map RawField.value

/-- **The record of a line**, and those of the lines behind it. -/
theorem csvRecords_lineText {line : List RawField}
    (hlength : ∀ f ∈ line, f.value.length ≤ CsvReader.fieldLimit) (s : Str) :
    csvRecords (lineText line ++ '\n' :: s) = some (lineRecord line) :: csvRecords s := by
  have h_start := CsvReader.Reading.start (lineText line ++ '\n' :: s)
  unfold lineRecord
  by_cases h_empty : lineText line = []
  · rw [if_pos h_empty]
    rw [h_empty] at h_start ⊢
    exact h_start.lf rfl rfl
  · have h_line : line ≠ [] := fun h => h_empty (h ▸ rfl)
    rw [if_neg h_empty]
    exact h_start.lineText h_line hlength (Or.inl rfl) fun _ => h_empty

/-! ### Texts of such lines -/

/-- Lines, each with its end. -/
def linesText (body : List (List RawField)) : Str :=
  body.flatMap fun line => lineText line ++ ['\n']

theorem linesText_cons (line : List RawField) (body : List (List RawField)) :
    linesText (line :: body) = lineText line ++ '\n' :: linesText body := by
  rw [linesText, List.flatMap_cons, List.append_assoc, List.singleton_append]
  rfl

theorem RawField.notMem_text (f : RawField) : '\n' ∉ f.text := by
  intro h
  cases f with
  | bare text htext => exact (htext _ h).2.2.2 rfl
  | quoted body tail hbody htail =>
    rcases List.mem_cons.mp h with h_eq | h_rest
    · exact absurd h_eq (by decide)
    · rcases List.mem_append.mp h_rest with h_body | h_rest
      · exact (hbody _ h_body).2 rfl
      · rcases List.mem_cons.mp h_rest with h_eq | h_tail
        · exact absurd h_eq (by decide)
        · exact (htail _ h_tail).2.2.2 rfl

theorem notMem_lineText (line : List RawField) : '\n' ∉ lineText line := by
  induction line with
  | nil => exact List.not_mem_nil
  | cons f line ih =>
    by_cases h_last : line = []
    · rw [h_last, lineText_singleton]
      exact f.notMem_text
    · rw [lineText_cons f h_last, List.mem_append, List.mem_cons]
      rintro (h | h | h)
      · exact f.notMem_text h
      · exact absurd h (by decide)
      · exact ih h

/-- The C++ code goes through the lines. -/
theorem lines_linesText (body : List (List RawField)) :
    lines (linesText body) = body.map lineText := by
  induction body with
  | nil => exact lines_nil
  | cons line body ih => rw [linesText_cons, lines_append (notMem_lineText line), ih, List.map_cons]

/-- The Python code goes through their records. -/
theorem csvRecords_linesText {body : List (List RawField)}
    (hlength : ∀ line ∈ body, ∀ f ∈ line, f.value.length ≤ CsvReader.fieldLimit) :
    csvRecords (linesText body) = body.map fun line => some (lineRecord line) := by
  induction body with
  | nil => rfl
  | cons line body ih =>
    obtain ⟨h_line, h_body⟩ := List.forall_mem_cons.mp hlength
    rw [linesText_cons, csvRecords_lineText h_line, ih h_body, List.map_cons]

end Python
end Mini2
