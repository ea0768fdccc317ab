import Mini2.Python.QuotedLines

/-!
# What csv.writer writes is what csv.reader reads

Both in their default dialects, and for any fields: with delimiters, quotes and line ends of all
kinds. The one limit is that of the reader on the length of a field (`csvRecords_writerows`).
Since the fields that the reader returns are within it, what has been read can be written and
read again.
-/

namespace Mini2
namespace Python
namespace CsvReader

/-! ### Reading what is quoted -/

theorem linesFrom_crlf (cur s : Str) :
    linesFrom cur ('\r' :: '\n' :: s) = linesFrom (cur ++ ['\r']) ('\n' :: s) := by
  rw [linesFrom, linesFrom, List.append_assoc]
  rfl

variable {r r' : CsvReader} {s : Str} {recs : List (Option (List Str))} {c : Char}
  {field : Str} {fields : List Str} {state : CsvState}

/-- A carriage return before a line feed is within the line. -/
theorem Reading.crlf (h : Reading r ('\r' :: '\n' :: s) recs)
    (hr : r.processChar (some '\r') = some r') : Reading r' ('\n' :: s) recs := by
  obtain ⟨r₀, cur, h_cur, rfl⟩ := h
  refine ⟨r₀, cur ++ ['\r'], ?_, by rw [linesFrom_crlf]⟩
  rw [List.foldlM_append, h_cur]
  simpa using hr

/-- A line feed within a quoted field ends the line, but not the record. -/
theorem Reading.lfQuoted (h : Reading r ('\n' :: s) recs)
    (hr : r.processChar (some '\n') = some r') (hstate : r'.state = .inQuotedField) :
    Reading r' s recs := by
  obtain ⟨r₀, cur, h_cur, rfl⟩ := h
  have h_line : r₀.processLine (cur ++ ['\n']) = some r' := by
    rw [processLine, List.foldlM_append, h_cur]
    simpa [hr] using processChar_inQuotedField hstate
  refine ⟨r', [], rfl, ?_⟩
  rw [linesFrom, records, h_line]
  simp [hstate]

/-- Any character but a quote joins a quoted field. -/
theorem Reading.quotedChar (hc : c ≠ '"') (hlength : field.length < fieldLimit)
    (h : Reading ⟨.inQuotedField, field, fields⟩ (c :: s) recs) :
    Reading ⟨.inQuotedField, field ++ [c], fields⟩ s recs := by
  have h_char : processChar ⟨.inQuotedField, field, fields⟩ (some c) =
      some ⟨.inQuotedField, field ++ [c], fields⟩ := processChar_quoted hc hlength
  -- a line end is one more character here, and the reader goes on to the next line
  by_cases h_lf : c = '\n'
  · subst h_lf
    exact h.lfQuoted h_char rfl
  · by_cases h_cr : c = '\r'
    · subst h_cr
      by_cases h_next : s.head? = some '\n'
      · obtain ⟨s, rfl⟩ : ∃ s', s = '\n' :: s' := List.head?_eq_some_iff.mp h_next
        exact h.crlf h_char
      · exact h.cr h_next h_char rfl
    · exact h.char ⟨h_cr, h_lf⟩ h_char

/-- Two quotes in a quoted field are one. -/
theorem Reading.quotedQuote (hlength : field.length < fieldLimit)
    (h : Reading ⟨.inQuotedField, field, fields⟩ ('"' :: '"' :: s) recs) :
    Reading ⟨.inQuotedField, field ++ ['"'], fields⟩ s recs := by
  have h_first : Reading ⟨.quoteInQuotedField, field, fields⟩ ('"' :: s) recs :=
    h.char (by decide) rfl
  exact h_first.char (by decide) (addChar_eq hlength)

/-- A text that has been quoted joins a quoted field. -/
theorem Reading.escaped {body : Str} (hlength : (field ++ body).length ≤ fieldLimit)
    (h : Reading ⟨.inQuotedField, field, fields⟩
      (body.flatMap (fun c => if c = '"' then ['"', '"'] else [c]) ++ s) recs) :
    Reading ⟨.inQuotedField, field ++ body, fields⟩ s recs := by
  induction body generalizing field with
  | nil => rwa [List.append_nil]
  | cons c body ih =>
    rw [← List.singleton_append, ← List.append_assoc] at hlength ⊢
    rw [List.flatMap_cons, List.append_assoc] at h
    have h_room : field.length < fieldLimit := by
      simp only [List.length_append, List.length_singleton] at hlength
      omega
    apply ih hlength
    -- a quote has been doubled, and stands for itself otherwise
    by_cases h_quote : c = '"'
    · rw [if_pos h_quote] at h
      subst h_quote
      exact h.quotedQuote h_room
    · rw [if_neg h_quote] at h
      exact h.quotedChar h_quote h_room

/-! ### Reading fields -/

/-- The states behind a field that was written as `text`. -/
def Behind (text : Str) (state state' : CsvState) : Prop :=
  state' = .inField ∨ state' = .quoteInQuotedField ∨ text = [] ∧ state' = state

theorem bare_of_needsQuotes {f : Str} (h : needsQuotes f = false) : Bare f := by
  intro c hc
  have h_c := List.any_eq_false.mp h c hc
  simp only [Bool.or_eq_true, decide_eq_true_eq, not_or] at h_c
  exact ⟨h_c.1.1.2, h_c.1.1.1, h_c.1.2, h_c.2⟩

/-- **A field is read as it was given.** -/
theorem Reading.writeField (f : Str) (hlength : f.length ≤ fieldLimit) (hstate : AtStart state)
    (h : Reading ⟨state, [], fields⟩ (Mini2.writeField f ++ s) recs) :
    ∃ state', Reading ⟨state', f, fields⟩ s recs ∧ Behind (Mini2.writeField f) state state' := by
  unfold Mini2.writeField at h ⊢
  by_cases h_quotes : needsQuotes f = true
  · rw [if_pos h_quotes] at h ⊢
    -- the quote opens the field, its text follows, and the last quote closes it
    have h_open : processChar ⟨state, [], fields⟩ (some '"') =
        some ⟨.inQuotedField, [], fields⟩ := by
      rw [processChar_atStart hstate (by decide)]
      rfl
    rw [List.append_assoc, List.cons_append] at h
    have h_body : Reading ⟨.inQuotedField, f, fields⟩ (['"'] ++ s) recs :=
      (h.char (by decide) h_open).escaped (by simpa using hlength)
    exact ⟨.quoteInQuotedField, h_body.char (by decide) rfl, Or.inr (Or.inl rfl)⟩
  · rw [if_neg h_quotes] at h ⊢
    exact h.rawField (.bare f (bare_of_needsQuotes (by simpa using h_quotes))) hlength hstate

/-- The end of a row ends the record behind its last field. -/
theorem Reading.rowEnd {text f : Str} {state' : CsvState} (hstate : AtStart state)
    (hempty : state = .startRecord → text ≠ []) (hbehind : Behind text state state')
    (h : Reading ⟨state', f, fields⟩ ('\r' :: '\n' :: s) recs) :
    recs = some (fields ++ [f]) :: csvRecords s := by
  have h_cr : processChar ⟨state', f, fields⟩ (some '\r') =
      some ⟨.eatCrnl, [], fields ++ [f]⟩ := by
    rcases hbehind with rfl | rfl | ⟨h_text, rfl⟩
    · rfl
    · rfl
    · -- an empty field ends a record, unless it is the first
      rcases hstate with rfl | rfl
      · exact absurd h_text (hempty rfl)
      · rfl
  have h_lf : (processChar ⟨.eatCrnl, [], fields ++ [f]⟩ (some '\n')).bind
      (fun r => r.processChar none) = some ⟨.startRecord, [], fields ++ [f]⟩ := rfl
  exact (h.crlf h_cr).lf h_lf rfl

/-- A comma saves the field, and the next one starts. -/
theorem Reading.comma {text f : Str} {state' : CsvState} (hstate : AtStart state)
    (hbehind : Behind text state state')
    (h : Reading ⟨state', f, fields⟩ (',' :: s) recs) :
    Reading ⟨.startField, [], fields ++ [f]⟩ s recs := by
  have h_comma : processChar ⟨state', f, fields⟩ (some ',') =
      some ⟨.startField, [], fields ++ [f]⟩ := by
    rcases hbehind with rfl | rfl | ⟨-, rfl⟩
    · rfl
    · rfl
    · rcases hstate with rfl | rfl <;> rfl
  exact h.char (by decide) h_comma

/-- **A row is read as its fields**, behind those that have been read. -/
theorem Reading.row {row : List Str} (hrow : row ≠ [])
    (hlength : ∀ f ∈ row, f.length ≤ fieldLimit) (hstate : AtStart state)
    (hempty : state = .startRecord → row ≠ [[]])
    (h : Reading ⟨state, [], fields⟩
      ([','].intercalate (row.map Mini2.writeField) ++ '\r' :: '\n' :: s) recs) :
    recs = some (fields ++ row) :: csvRecords s := by
  induction row generalizing state fields with
  | nil => exact absurd rfl hrow
  | cons f row ih =>
    obtain ⟨h_f, h_row⟩ := List.forall_mem_cons.mp hlength
    by_cases h_last : row = []
    · subst h_last
      rw [List.map_singleton, List.intercalate_singleton] at h
      obtain ⟨state', h_read, h_behind⟩ := h.writeField f h_f hstate
      refine h_read.rowEnd hstate (fun h_start h_text => ?_) h_behind
      -- nothing is written for an empty field only
      apply hempty h_start
      unfold Mini2.writeField at h_text
      split at h_text
      · exact absurd h_text (List.cons_ne_nil _ _)
      · rw [h_text]
    · rw [List.map_cons, List.intercalate_cons_of_ne_nil (by simpa using h_last),
        List.append_assoc, List.append_assoc] at h
      obtain ⟨state', h_read, h_behind⟩ := h.writeField f h_f hstate
      have h_rest : Reading ⟨.startField, [], fields ++ [f]⟩ _ recs :=
        h_read.comma hstate h_behind
      rw [ih h_last h_row (Or.inr rfl) (fun h => absurd h (by decide)) h_rest, List.append_assoc,
        List.singleton_append]

end CsvReader

/-! ### Rows -/

/-- **A row is read back as it was written**, whatever is in its fields. -/
theorem csvRecords_writerow {row : List Str}
    (hlength : ∀ f ∈ row, f.length ≤ CsvReader.fieldLimit) (s : Str) :
    csvRecords (writerow row ++ s) = some row :: csvRecords s := by
  have h_start := CsvReader.Reading.start (writerow row ++ s)
  unfold writerow writeFields at h_start ⊢
  rw [List.append_assoc] at h_start ⊢
  by_cases h_one : row = [[]]
  · -- the quotes of a single empty field are an empty field
    subst h_one
    rw [if_pos rfl] at h_start ⊢
    have h_open : CsvReader.Reading ⟨.inQuotedField, [], []⟩ ('"' :: ('\r' :: '\n' :: s)) _ :=
      h_start.char (by decide) rfl
    have h_close : CsvReader.Reading ⟨.quoteInQuotedField, [], []⟩ ('\r' :: '\n' :: s) _ :=
      h_open.char (by decide) rfl
    have h_state : CsvReader.AtStart .startField := Or.inr rfl
    have h_behind : CsvReader.Behind [] .startField .quoteInQuotedField := Or.inr (Or.inl rfl)
    exact h_close.rowEnd h_state (fun h => absurd h (by decide)) h_behind
  · rw [if_neg h_one] at h_start ⊢
    by_cases h_none : row = []
    · subst h_none
      have h_cr : CsvReader.Reading ⟨.eatCrnl, [], []⟩ ('\n' :: s) _ := h_start.crlf rfl
      have h_lf : (CsvReader.processChar ⟨.eatCrnl, [], []⟩ (some '\n')).bind
          (fun r => r.processChar none) = some .start := rfl
      exact h_cr.lf h_lf rfl
    · exact h_start.row h_none hlength (Or.inl rfl) fun _ => h_one

/-- **Rows are read back as they were written.** -/
theorem csvRecords_writerows {rows : List (List Str)}
    (hlength : ∀ row ∈ rows, ∀ f ∈ row, f.length ≤ CsvReader.fieldLimit) :
    csvRecords (rows.flatMap writerow) = rows.map some := by
  induction rows with
  | nil => rfl
  | cons row rows ih =>
    obtain ⟨h_row, h_rows⟩ := List.forall_mem_cons.mp hlength
    rw [List.flatMap_cons, csvRecords_writerow h_row, ih h_rows, List.map_cons]

/-! ### How long a field can be -/

namespace CsvReader

/-- No field of the reader is too long. -/
structure Bounded (r : CsvReader) : Prop where
  field : r.field.length ≤ fieldLimit
  fields : ∀ f ∈ r.fields, f.length ≤ fieldLimit

variable {r r' : CsvReader} {c : Option Char}

theorem Bounded.start : Bounded .start where
  field := Nat.zero_le _
  fields _ hf := absurd hf List.not_mem_nil

theorem Bounded.withState (h : Bounded r) (state : CsvState) : Bounded { r with state := state } :=
  ⟨h.field, h.fields⟩

theorem Bounded.saveField (h : Bounded r) (state : CsvState) : Bounded (r.saveField state) where
  field := Nat.zero_le _
  fields f hf := by
    rcases List.mem_append.mp hf with hf | hf
    · exact h.fields f hf
    · exact List.mem_singleton.mp hf ▸ h.field

theorem Bounded.addChar (h : Bounded r) {state : CsvState} {d : Char}
    (hr : r.addChar state d = some r') : Bounded r' := by
  unfold CsvReader.addChar at hr
  split at hr
  · exact absurd hr (by simp)
  · next h_room =>
    obtain rfl := Option.some.inj hr
    refine ⟨?_, h.fields⟩
    show (r.field ++ [d]).length ≤ fieldLimit
    rw [List.length_append, List.length_singleton]
    omega

theorem Bounded.startField (h : Bounded r) (hr : r.startField c = some r') : Bounded r' := by
  unfold CsvReader.startField at hr
  split at hr
  · exact Option.some.inj hr ▸ h.saveField _
  · split at hr
    · exact Option.some.inj hr ▸ h
    · exact Option.some.inj hr ▸ h.withState _
    · exact Option.some.inj hr ▸ h.saveField _
    · exact h.addChar hr

/-- A character keeps the fields within the limit. -/
theorem Bounded.processChar (h : Bounded r) (hr : r.processChar c = some r') : Bounded r' := by
  unfold CsvReader.processChar at hr
  split at hr
  · exact Option.some.inj hr ▸ h
  · -- at the start of a record
    split at hr
    · exact Option.some.inj hr ▸ h.withState _
    · exact h.startField hr
  · -- at the start of a field
    exact h.startField hr
  · -- in a field: a line end, a delimiter, or a character more
    split at hr
    · exact Option.some.inj hr ▸ h.saveField _
    · split at hr
      · exact Option.some.inj hr ▸ h
      · exact Option.some.inj hr ▸ h.saveField _
      · exact h.addChar hr
  · exact Option.some.inj hr ▸ h
  · exact Option.some.inj hr ▸ h.withState _
  · -- between quotes
    exact h.addChar hr
  · -- behind a quote
    split at hr
    · exact Option.some.inj hr ▸ h.saveField _
    · split at hr
      · exact Option.some.inj hr ▸ h
      · exact h.addChar hr
      · exact Option.some.inj hr ▸ h.saveField _
      · exact h.addChar hr
  · exact Option.some.inj hr ▸ h.withState _
  · -- behind a carriage return
    split at hr
    · exact Option.some.inj hr ▸ h
    · exact absurd hr (by simp)

theorem Bounded.foldlM (h : Bounded r) {line : Str}
    (hr : line.foldlM (fun r c => r.processChar (some c)) r = some r') : Bounded r' := by
  induction line generalizing r with
  | nil => exact Option.some.inj hr ▸ h
  | cons c line ih =>
    obtain ⟨r₁, h_char, h_rest⟩ := Option.bind_eq_some_iff.mp hr
    exact ih (h.processChar h_char) h_rest

theorem Bounded.processLine (h : Bounded r) {line : Str} (hr : r.processLine line = some r') :
    Bounded r' := by
  obtain ⟨r₁, h_line, h_end⟩ := Option.bind_eq_some_iff.mp hr
  exact (h.foldlM h_line).processChar h_end

/-- So it is with the records. -/
theorem Bounded.records (h : Bounded r) {lines : List Str} {row : List Str}
    (hrow : some row ∈ r.records lines) : ∀ f ∈ row, f.length ≤ fieldLimit := by
  induction lines generalizing r with
  | nil =>
    unfold CsvReader.records at hrow
    -- a record that the text breaks off is one, too
    split at hrow
    · obtain rfl := Option.some.inj (List.mem_singleton.mp hrow)
      exact (h.saveField _).fields
    · exact absurd hrow List.not_mem_nil
  | cons line lines ih =>
    unfold CsvReader.records at hrow
    split at hrow
    · exact absurd hrow (by simp)
    · next r₁ h_line =>
      have h_r₁ : Bounded r₁ := h.processLine h_line
      split at hrow
      · -- the line ends the record, or goes on with it
        rcases List.mem_cons.mp hrow with h_eq | hrow
        · exact Option.some.inj h_eq ▸ h_r₁.fields
        · exact ih .start hrow
      · exact ih h_r₁ hrow

end CsvReader

/-- **No field that is read is too long to be read again.** -/
theorem length_le_of_mem_csvRecords {text : Str} {row : List Str}
    (h : some row ∈ csvRecords text) : ∀ f ∈ row, f.length ≤ CsvReader.fieldLimit :=
  CsvReader.Bounded.start.records h

end Python
end Mini2
