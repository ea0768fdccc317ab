import Mini2.Data.Text

/-!
# csv.reader

Python reads a partition file through `csv.reader` in its default dialect: an automaton that
gets the lines of the file one after the other, their ends included, and returns a record
whenever it is back at the start of one. A quoted field may go on over a line end, and may hold
quotes as doubled ones. What the dialect leaves unused, as its escapes, is left out.

`csvRecords` are the records of a text. The reader raises an error only at a field that is too
long, which ends the records.
-/

namespace Mini2
namespace Python

/-! ### Lines -/

/-- The lines of a file opened with `newline=""`, each with its end, after the part `cur` of
the first. -/
def linesFrom (cur : Str) : Str → List Str
  | [] => if cur.isEmpty then [] else [cur]
  | '\n' :: s => (cur ++ ['\n']) :: linesFrom [] s
  | '\r' :: '\n' :: s => (cur ++ ['\r', '\n']) :: linesFrom [] s
  | '\r' :: s => (cur ++ ['\r']) :: linesFrom [] s
  | c :: s => linesFrom (cur ++ [c]) s

/-! ### The automaton -/

/-- `ParserState` -/
inductive CsvState
  | startRecord
  | startField
  | inField
  | inQuotedField
  | quoteInQuotedField
  | eatCrnl
  deriving DecidableEq

/-- The reader within a record. -/
structure CsvReader where
  state : CsvState
  field : Str
  fields : List Str

namespace CsvReader

/-- The reader before a record. -/
def start : CsvReader := ⟨.startRecord, [], []⟩

/-- `csv.field_size_limit()` -/
def fieldLimit : ℕ := 131072

variable (r : CsvReader)

/-- Add a character to the field, which must not get too long. -/
def addChar (state : CsvState) (c : Char) : Option CsvReader :=
  if r.field.length ≥ fieldLimit then none
  else some { r with state := state, field := r.field ++ [c] }

def saveField (state : CsvState) : CsvReader := ⟨state, [], r.fields ++ [r.field]⟩

/-- A line end, or the end of the line that is none of its characters. -/
def isEol : Option Char → Bool
  | none => true
  | some c => c = '\n' || c = '\r'

/-- The state behind a record. -/
def afterRecord : Option Char → CsvState
  | none => .startRecord
  | some _ => .eatCrnl

/-- Process a character before a field. -/
def startField (c : Option Char) : Option CsvReader :=
  if isEol c then some (r.saveField (afterRecord c))
  else
    match c with
    | none => some r
    | some '"' => some { r with state := .inQuotedField }
    | some ',' => some (r.saveField .startField)
    | some c => r.addChar .inField c

/-- `parse_process_char`; none where it raises an error, and no character at the end of a
line. -/
def processChar (c : Option Char) : Option CsvReader :=
  match r.state, c with
  | .startRecord, none => some r
  | .startRecord, some c =>
    if isEol (some c) then some { r with state := .eatCrnl } else r.startField (some c)
  | .startField, c => r.startField c
  | .inField, c =>
    if isEol c then some (r.saveField (afterRecord c))
    else
      match c with
      | none => some r
      | some ',' => some (r.saveField .startField)
      | some c => r.addChar .inField c
  | .inQuotedField, none => some r
  | .inQuotedField, some '"' => some { r with state := .quoteInQuotedField }
  | .inQuotedField, some c => r.addChar .inQuotedField c
  | .quoteInQuotedField, c =>
    if isEol c then some (r.saveField (afterRecord c))
    else
      match c with
      | none => some r
      | some '"' => r.addChar .inQuotedField '"'
      | some ',' => some (r.saveField .startField)
      | some c => r.addChar .inField c
  | .eatCrnl, none => some { r with state := .startRecord }
  | .eatCrnl, some c => if isEol (some c) then some r else none

/-- Process a line, and its end. -/
def processLine (line : Str) : Option CsvReader := do
  let r ← line.foldlM (fun r c => r.processChar (some c)) r
  r.processChar none

/-- The records of the lines, and none at last where the reader raises an error. A quoted field
that is still open at the end of the file is taken as it is. -/
def records (r : CsvReader) : List Str → List (Option (List Str))
  | [] =>
    if !r.field.isEmpty || r.state = .inQuotedField then [some (r.saveField .startRecord).fields]
    else []
  | line :: lines =>
    match r.processLine line with
    | none => [none]
    | some r =>
      if r.state = .startRecord then some r.fields :: records .start lines else records r lines

end CsvReader

/-- The records of a text. -/
def csvRecords (text : Str) : List (Option (List Str)) :=
  CsvReader.start.records (linesFrom [] text)

example : csvRecords "a,\"b\"\"\nc\"d\r\n\r\n,".toList =
    [some ["a".toList, "b\"\ncd".toList], some [], some [[], []]] := by decide

end Python
end Mini2
