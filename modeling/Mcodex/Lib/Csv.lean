import Mathlib.Data.List.Basic

/-!
# Comma separated values

The texts of RFC 4180 as a grammar: a field is bare, if none of its characters separates or quotes,
or quoted, with each of its quotes doubled; commas separate the fields of a record, and a line break
ends it. `read` reads such texts. It skips empty lines, and a byte-order mark in front.
-/

namespace Mcodex.Csv

abbrev Field := List Char
abbrev Record := List Field

/-- The byte-order mark. -/
def bom : Char := '\ufeff'

def isLineBreak (c : Char) : Bool := c = '\n' || c = '\r'

/-- A character that a bare field may not have. -/
def isSpecial (c : Char) : Bool := c = ',' || isLineBreak c || c = '"'

/-- What stands between the quotes of a quoted field. -/
def doubleQuotes : Field → List Char
  | [] => []
  | c :: field => if c = '"' then '"' :: '"' :: doubleQuotes field else c :: doubleQuotes field

/-! ## The grammar -/

inductive FieldText : List Char → Field → Prop
  | bare {field : Field} (h : ∀ c ∈ field, isSpecial c = false) : FieldText field field
  | quoted (field : Field) : FieldText ('"' :: (doubleQuotes field ++ ['"'])) field

inductive RecordText : List Char → Record → Prop
  | last {text : List Char} {field : Field} (h : FieldText text field) : RecordText text [field]
  | cons {text rest : List Char} {field : Field} {record : Record} (h : FieldText text field)
    (hrest : RecordText rest record) : RecordText (text ++ ',' :: rest) (field :: record)

inductive LineBreak : List Char → Prop
  | lf : LineBreak ['\n']
  | crlf : LineBreak ['\r', '\n']
  | cr : LineBreak ['\r']

/-- A record whose only field is empty and bare would be an empty line, and is none. -/
inductive FileText : List Char → List Record → Prop
  | nil : FileText [] []
  | cons {text lineBreak rest : List Char} {record : Record} {records : List Record}
    (h : RecordText text record) (hne : text ≠ []) (hbreak : LineBreak lineBreak)
    (hrest : FileText rest records) : FileText (text ++ (lineBreak ++ rest)) (record :: records)

/-- The reader reads the texts of the grammar, apart from those with a byte-order mark in front. -/
def ReadsRecords {ε : Type*} (read : List Char → Except ε (List Record)) : Prop :=
  ∀ ⦃text : List Char⦄ ⦃records : List Record⦄, FileText text records → text.head? ≠ some bom →
    read text = .ok records

/-! ## The reader -/

inductive ReadState where
  | startRecord
  | startField
  | inField
  | inQuotedField
  | inDoubleEscapedQuote
  deriving DecidableEq, Repr

structure Reader where
  state : ReadState
  /-- The part of the field that is read. -/
  field : Field
  /-- The fields before it. -/
  record : Record
  records : List Record
  deriving Repr

namespace Reader

def new : Reader := ⟨.startRecord, [], [], []⟩

section
variable (reader : Reader)

def push (c : Char) (state : ReadState) : Reader :=
  { reader with state, field := reader.field ++ [c] }

def endField : Reader := ⟨.startField, [], reader.record ++ [reader.field], reader.records⟩

def endRecord : Reader :=
  ⟨.startRecord, [], [], reader.records ++ [reader.record ++ [reader.field]]⟩

/-- A character outside of quotes. -/
def unquoted (c : Char) : Reader :=
  if c = ',' then reader.endField
  else if isLineBreak c then reader.endRecord
  else reader.push c .inField

def fieldStart (c : Char) : Reader :=
  if c = '"' then { reader with state := .inQuotedField } else reader.unquoted c

def step (c : Char) : Reader :=
  match reader.state with
  | .startRecord => if isLineBreak c then reader else reader.fieldStart c
  | .startField => reader.fieldStart c
  | .inField => reader.unquoted c
  | .inQuotedField =>
    if c = '"' then { reader with state := .inDoubleEscapedQuote }
    else reader.push c .inQuotedField
  | .inDoubleEscapedQuote =>
    if c = '"' then reader.push c .inQuotedField else reader.unquoted c

/-- The end of the text ends the record that is being read. -/
def finish : List Record :=
  match reader.state with
  | .startRecord => reader.records
  | .startField | .inField | .inQuotedField | .inDoubleEscapedQuote => reader.endRecord.records

end

end Reader

def read (text : List Char) : List Record :=
  let text := if text.head? = some bom then text.tail else text
  (text.foldl Reader.step .new).finish

/-! ## Reading the grammar -/

namespace Reader

variable {reader : Reader} {text lineBreak : List Char} {field : Field} {record : Record} {c : Char}

/-- The reader is where a field begins, maybe that of a new record. -/
structure AtField (reader : Reader) : Prop where
  state : reader.state = .startRecord ∨ reader.state = .startField
  field : reader.field = []

/-- The reader is behind the end of a field, maybe that of an empty one. -/
structure Behind (reader : Reader) (field : Field) (record : Record) (records : List Record) :
    Prop where
  state : reader.state = .startField ∨ reader.state = .inField ∨
    reader.state = .inDoubleEscapedQuote
  field : reader.field = field
  record : reader.record = record
  records : reader.records = records

theorem foldl_bare (h : ∀ c ∈ field, isSpecial c = false) (hstate : reader.state = .inField) :
    field.foldl step reader = { reader with field := reader.field ++ field } := by
  induction field generalizing reader with
  | nil => simp
  | cons c field ih =>
    have hc := h c List.mem_cons_self
    simp only [isSpecial, Bool.or_eq_false_iff, decide_eq_false_iff_not] at hc
    obtain ⟨⟨hcomma, hbreak⟩, -⟩ := hc
    have hstep : reader.step c = reader.push c .inField := by
      simp [step, hstate, unquoted, hcomma, hbreak]
    rw [List.foldl_cons, hstep, ih (fun d hd => h d (List.mem_cons_of_mem c hd)) rfl]
    simp [push, hstate]

theorem foldl_doubleQuotes (field : Field) (hstate : reader.state = .inQuotedField) :
    (doubleQuotes field).foldl step reader = { reader with field := reader.field ++ field } := by
  induction field generalizing reader with
  | nil => simp [doubleQuotes]
  | cons c field ih =>
    rw [doubleQuotes]
    split
    · rename_i hc
      have hstep : (reader.step '"').step '"' = reader.push '"' .inQuotedField := by
        simp [step, hstate, push]
      rw [List.foldl_cons, List.foldl_cons, hstep, ih rfl]
      simp [push, hstate, hc]
    · rename_i hc
      have hstep : reader.step c = reader.push c .inQuotedField := by simp [step, hstate, hc]
      rw [List.foldl_cons, hstep, ih rfl]
      simp [push, hstate]

/-- An empty field at the start of a record leaves the reader there. -/
theorem behind_of_fieldText (h : FieldText text field) (hstart : reader.AtField)
    (hne : text ≠ [] ∨ reader.state = .startField) :
    (text.foldl step reader).Behind field reader.record reader.records := by
  cases h with
  | bare h =>
    cases text with
    | nil =>
      have hstate := hne.resolve_left (fun hnil => hnil rfl)
      exact ⟨Or.inl hstate, hstart.field, rfl, rfl⟩
    | cons c text =>
      have hc := h c List.mem_cons_self
      simp only [isSpecial, Bool.or_eq_false_iff, decide_eq_false_iff_not] at hc
      obtain ⟨⟨hcomma, hbreak⟩, hquote⟩ := hc
      have hstep : reader.step c = reader.push c .inField := by
        rcases hstart.state with hstate | hstate <;>
          simp [step, hstate, fieldStart, unquoted, hcomma, hbreak, hquote]
      rw [List.foldl_cons, hstep,
        foldl_bare (fun d hd => h d (List.mem_cons_of_mem c hd)) rfl]
      exact ⟨Or.inr (Or.inl rfl), by simp [push, hstart.field], rfl, rfl⟩
  | quoted field =>
    have hstep : reader.step '"' = { reader with state := .inQuotedField } := by
      rcases hstart.state with hstate | hstate <;>
        simp [step, hstate, fieldStart, isLineBreak]
    rw [List.foldl_cons, hstep, List.foldl_append, foldl_doubleQuotes field rfl, List.foldl_cons,
      List.foldl_nil]
    exact ⟨Or.inr (Or.inr rfl), by simp [step, hstart.field], rfl, rfl⟩

theorem step_of_behind {records : List Record} (h : reader.Behind field record records)
    (hc : c ≠ '"') : reader.step c = reader.unquoted c := by
  rcases h.state with hstate | hstate | hstate <;> simp [step, hstate, fieldStart, hc]

theorem foldl_fieldText_comma (h : FieldText text field) (hstart : reader.AtField) :
    (text ++ [',']).foldl step reader =
      ⟨.startField, [], reader.record ++ [field], reader.records⟩ := by
  by_cases hempty : text = [] ∧ reader.state = .startRecord
  · obtain ⟨rfl, hstate⟩ := hempty
    obtain rfl : field = [] := by cases h; rfl
    simp [step, hstate, isLineBreak, fieldStart, unquoted, endField, hstart.field]
  · have hne : text ≠ [] ∨ reader.state = .startField := by
      rcases not_and_or.1 hempty with hne | hstate
      · exact Or.inl hne
      · exact Or.inr (hstart.state.resolve_left hstate)
    have hbehind := behind_of_fieldText h hstart hne
    rw [List.foldl_append, List.foldl_cons, List.foldl_nil,
      step_of_behind hbehind (by decide)]
    simp [unquoted, endField, hbehind.field, hbehind.record, hbehind.records]

theorem foldl_fieldText_break (h : FieldText text field) (hstart : reader.AtField)
    (hne : text ≠ [] ∨ reader.state = .startField) (hc : isLineBreak c = true) :
    (text ++ [c]).foldl step reader =
      ⟨.startRecord, [], [], reader.records ++ [reader.record ++ [field]]⟩ := by
  have hbehind := behind_of_fieldText h hstart hne
  have hquote : c ≠ '"' := by
    rintro rfl
    cases hc
  have hcomma : c ≠ ',' := by
    rintro rfl
    cases hc
  rw [List.foldl_append, List.foldl_cons, List.foldl_nil, step_of_behind hbehind hquote]
  simp [unquoted, endRecord, hcomma, hc, hbehind.field, hbehind.record, hbehind.records]

theorem foldl_recordText_break (h : RecordText text record) (hstart : reader.AtField)
    (hne : text ≠ [] ∨ reader.state = .startField) (hc : isLineBreak c = true) :
    (text ++ [c]).foldl step reader =
      ⟨.startRecord, [], [], reader.records ++ [reader.record ++ record]⟩ := by
  induction h generalizing reader with
  | last h => exact foldl_fieldText_break h hstart hne hc
  | @cons text rest field record h hrest ih =>
    have hsplit : text ++ ',' :: rest ++ [c] = text ++ [','] ++ (rest ++ [c]) := by simp
    rw [hsplit, List.foldl_append, foldl_fieldText_comma h hstart,
      ih ⟨Or.inr rfl, rfl⟩ (Or.inr rfl), List.append_assoc]
    rfl

/-- A line feed behind a carriage return is an empty line. -/
theorem foldl_record (h : RecordText text record) (hne : text ≠ []) (hbreak : LineBreak lineBreak)
    (records : List Record) :
    (text ++ lineBreak).foldl step ⟨.startRecord, [], [], records⟩ =
      ⟨.startRecord, [], [], records ++ [record]⟩ := by
  have hread (c : Char) (hc : isLineBreak c = true) :
      (text ++ [c]).foldl step ⟨.startRecord, [], [], records⟩ =
        ⟨.startRecord, [], [], records ++ [record]⟩ :=
    foldl_recordText_break h ⟨Or.inl rfl, rfl⟩ (Or.inl hne) hc
  cases hbreak with
  | lf => exact hread '\n' rfl
  | cr => exact hread '\r' rfl
  | crlf =>
    have hsplit : text ++ ['\r', '\n'] = text ++ ['\r'] ++ ['\n'] := by simp
    rw [hsplit, List.foldl_append, hread '\r' rfl]
    rfl

theorem foldl_fileText {records : List Record} (h : FileText text records) (before : List Record) :
    text.foldl step ⟨.startRecord, [], [], before⟩ = ⟨.startRecord, [], [], before ++ records⟩ := by
  induction h generalizing before with
  | nil => simp
  | cons h hne hbreak _ ih =>
    rw [← List.append_assoc, List.foldl_append, foldl_record h hne hbreak, ih, List.append_assoc]
    rfl

end Reader

theorem read_of_fileText {text : List Char} {records : List Record} (h : FileText text records)
    (hbom : text.head? ≠ some bom) : read text = records := by
  have hread := Reader.foldl_fileText h []
  rw [read, if_neg hbom, Reader.new, hread]
  rfl

theorem readsRecords_read {ε : Type*} :
    ReadsRecords fun text => Except.ok (ε := ε) (read text) :=
  fun _ _ h hbom => congrArg Except.ok (read_of_fileText h hbom)

end Mcodex.Csv
