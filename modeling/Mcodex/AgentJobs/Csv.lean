import Mcodex.AgentJobs.Items
import Mcodex.Lib.Csv

/-!
# The CSV files of agent jobs

A job reads its rows with the `csv` crate, and writes them again, with ten columns of its own, by
hand. The reader is a parameter that reads the texts of RFC 4180; what is written is one of them, so
a job reads back what it wrote.
-/

namespace Mcodex.AgentJobs

open Csv

/-- `serde_json::Value`; a number is its text. -/
inductive Value where
  | null
  | bool (b : Bool)
  | number (text : List Char)
  | string (text : List Char)
  | array (items : List Value)
  | object (fields : List (List Char × Value))

/-- What the crates `serde_json` and `chrono` write for a value, and for a time. -/
structure Formats where
  json : Value → List Char
  rfc3339 : Int → List Char

/-- An item with the columns that are exported. -/
structure ExportItem extends AgentJobItem where
  jobId : List Char
  rowIndex : Int
  sourceId : Option (List Char)
  rowJson : Value
  attemptCount : Int
  reportedAt : Option Int
  completedAt : Option Int

namespace Value

def asObject : Value → Option (List (List Char × Value))
  | .object fields => some fields
  | .null | .bool _ | .number _ | .string _ | .array _ => none

def asStr : Value → Option (List Char)
  | .string text => some text
  | .null | .bool _ | .number _ | .array _ | .object _ => none

end Value

def AgentJobItemStatus.asStr : AgentJobItemStatus → List Char
  | .pending => "pending".toList
  | .running => "running".toList
  | .completed => "completed".toList
  | .failed => "failed".toList

/-! ## Reading -/

/-- The loop of `ensure_unique_headers`. -/
def ensureUnseenHeaders (seen : List Field) : List Field → Except (List Char) Unit
  | [] => .ok ()
  | header :: headers =>
    if header ∈ seen then .error ("csv header ".toList ++ header ++ " is duplicated".toList)
    else ensureUnseenHeaders (header :: seen) headers

def ensureUniqueHeaders (headers : List Field) : Except (List Char) Unit :=
  ensureUnseenHeaders [] headers

/-- `str::trim_start_matches` on byte-order marks. -/
def trimStartBom (header : Field) : Field := header.dropWhile (· = bom)

/-- The first record has the headers; a text without records has none. -/
def parseCsv (read : List Char → Except (List Char) (List Record)) (content : List Char) :
    Except (List Char) (List Field × List Record) :=
  match read content with
  | .error error => .error error
  | .ok records =>
    let headers := records.headD []
    let rows := records.tail
    .ok (headers.modifyHead trimStartBom, rows.filter fun row => !row.all List.isEmpty)

/-! ## Writing -/

def csvEscape (value : List Char) : List Char :=
  if ',' ∈ value ∨ '\n' ∈ value ∨ '\r' ∈ value ∨ '"' ∈ value then
    '"' :: (doubleQuotes value ++ ['"'])
  else value

/-- The values of a line, escaped and joined. -/
def renderLine (values : List (List Char)) : List Char := [','].intercalate (values.map csvEscape)

def valueToCsvString (formats : Formats) : Value → List Char
  | .null => []
  | .string s => s
  | .bool b => (toString b).toList
  | .number n => n
  | .array items => formats.json (.array items)
  | .object fields => formats.json (.object fields)

def jobColumns : List Field :=
  ["job_id".toList, "item_id".toList, "row_index".toList, "source_id".toList, "status".toList,
    "attempt_count".toList, "last_error".toList, "result_json".toList, "reported_at".toList,
    "completed_at".toList]

def outputHeaders (headers : List Field) : List Field := headers ++ jobColumns

namespace ExportItem

/-- The values of the job's own columns. -/
def jobValues (formats : Formats) (item : ExportItem) : List (List Char) :=
  [item.jobId, item.itemId, (toString item.rowIndex).toList, item.sourceId.getD [],
    item.status.asStr, (toString item.attemptCount).toList, item.lastError.getD [],
    item.resultJson.getD [], (item.reportedAt.map formats.rfc3339).getD [],
    (item.completedAt.map formats.rfc3339).getD []]

def rowValues (formats : Formats) (headers : List Field) (item : ExportItem) :
    Except (List Char) (List (List Char)) :=
  match item.rowJson.asObject with
  | none =>
    .error ("row_json for item ".toList ++ item.itemId ++ " is not a JSON object".toList)
  | some row =>
    .ok (headers.map (fun header => ((row.lookup header).map (valueToCsvString formats)).getD []) ++
      item.jobValues formats)

/-- The row of the item has a text for each of the headers. -/
def Stores (item : ExportItem) (headers : List Field) (texts : List (List Char)) : Prop :=
  ∃ row, item.rowJson = .object row ∧
    headers.map (row.lookup ·) = texts.map fun text => some (.string text)

end ExportItem

/-- The loop over the items. -/
def renderItems (formats : Formats) (headers : List Field) :
    List ExportItem → Except (List Char) (List Char)
  | [] => .ok []
  | item :: items => do
    let values ← item.rowValues formats headers
    let rest ← renderItems formats headers items
    .ok (renderLine values ++ '\n' :: rest)

def renderJobCsv (formats : Formats) (headers : List Field) (items : List ExportItem) :
    Except (List Char) (List Char) := do
  let lines ← renderItems formats headers items
  .ok (renderLine (outputHeaders headers) ++ '\n' :: lines)

/-! ## What is written is RFC 4180 -/

section
variable {formats : Formats} {headers : List Field} {items : List ExportItem} {item : ExportItem}
  {read : List Char → Except (List Char) (List Record)}

theorem fieldText_csvEscape (value : List Char) : FieldText (csvEscape value) value := by
  rw [csvEscape]
  split
  · exact .quoted value
  · rename_i h
    refine .bare fun c hc => ?_
    simp only [not_or] at h
    obtain ⟨hcomma, hlf, hcr, hquote⟩ := h
    have hne (d : Char) (hd : d ∉ value) : c ≠ d := by
      rintro rfl
      exact hd hc
    simp [isSpecial, isLineBreak, hne _ hcomma, hne _ hlf, hne _ hcr, hne _ hquote]

theorem renderLine_cons (value : List Char) {values : List (List Char)} (h : values ≠ []) :
    renderLine (value :: values) = csvEscape value ++ ',' :: renderLine values := by
  rw [renderLine, List.map_cons, List.intercalate_cons_of_ne_nil (by simpa using h)]
  simp [renderLine]

theorem recordText_renderLine {values : List (List Char)} (h : values ≠ []) :
    RecordText (renderLine values) values := by
  induction values with
  | nil => exact absurd rfl h
  | cons value values ih =>
    by_cases hvalues : values = []
    · subst hvalues
      rw [renderLine, List.map_singleton, List.intercalate_singleton]
      exact .last (fieldText_csvEscape value)
    · rw [renderLine_cons value hvalues]
      exact .cons (fieldText_csvEscape value) (ih hvalues)

/-- A line with a comma is not empty. -/
theorem fileText_renderLine {values : List (List Char)} (h : 1 < values.length)
    {rest : List Char} {records : List Record} (hrest : FileText rest records) :
    FileText (renderLine values ++ '\n' :: rest) (values :: records) := by
  have hne : values ≠ [] := List.ne_nil_of_length_pos (by omega)
  refine .cons (recordText_renderLine hne) ?_ .lf hrest
  obtain ⟨value, values, rfl⟩ := List.exists_cons_of_ne_nil hne
  rw [renderLine_cons value (List.ne_nil_of_length_pos (by simpa using h))]
  simp

theorem rowValues_of_stores {texts : List (List Char)} (h : item.Stores headers texts) :
    item.rowValues formats headers = .ok (texts ++ item.jobValues formats) := by
  obtain ⟨row, hrow, htexts⟩ := h
  have hvalues : headers.map (fun header =>
      ((row.lookup header).map (valueToCsvString formats)).getD []) = texts := by
    have hmap := congrArg (List.map fun value : Option Value =>
      (value.map (valueToCsvString formats)).getD []) htexts
    simp only [List.map_map] at hmap
    calc _ = _ := hmap
      _ = texts := by simp [Function.comp_def, valueToCsvString]
  rw [ExportItem.rowValues, hrow]
  simp only [Value.asObject, hvalues]

/-- A row of the file is not dropped: the status of an item is not empty. -/
theorem isEmpty_status (status : AgentJobItemStatus) : status.asStr.isEmpty = false := by
  cases status <;> rfl

theorem length_jobValues (item : ExportItem) : (item.jobValues formats).length = 10 := rfl

theorem not_all_isEmpty (texts : List (List Char)) (item : ExportItem) :
    (texts ++ item.jobValues formats).all List.isEmpty = false := by
  rw [List.all_eq_false]
  refine ⟨item.status.asStr, ?_, ?_⟩
  · simp [ExportItem.jobValues]
  · rw [isEmpty_status]
    exact Bool.false_ne_true

theorem fileText_renderItems {stored : ExportItem → List (List Char)}
    (h : ∀ item ∈ items, item.Stores headers (stored item)) :
    ∃ lines, renderItems formats headers items = .ok lines ∧
      FileText lines (items.map fun item => stored item ++ item.jobValues formats) := by
  induction items with
  | nil => exact ⟨[], rfl, .nil⟩
  | cons item items ih =>
    obtain ⟨lines, hlines, htext⟩ := ih fun other hmem => h other (List.mem_cons_of_mem _ hmem)
    refine ⟨renderLine (stored item ++ item.jobValues formats) ++ '\n' :: lines, ?_, ?_⟩
    · rw [renderItems, rowValues_of_stores (h item List.mem_cons_self), hlines]
      rfl
    · refine fileText_renderLine ?_ htext
      rw [List.length_append, length_jobValues]
      omega

/-- The text begins as its first header does, or with a quote or a comma. -/
theorem head_renderLine (hbom : ∀ header ∈ headers.head?, header.head? ≠ some bom)
    (rest : List Char) :
    (renderLine (outputHeaders headers) ++ '\n' :: rest).head? ≠ some bom := by
  cases headers with
  | nil =>
    intro h
    cases h
  | cons header headers =>
    have hne : headers ++ jobColumns ≠ [] := by simp [jobColumns]
    rw [outputHeaders, List.cons_append, renderLine_cons header hne, csvEscape]
    split
    · simp [bom]
    · cases header with
      | nil => simp [bom]
      | cons c header => simpa using hbom _ rfl

theorem modifyHead_trimStartBom (hbom : ∀ header ∈ headers.head?, header.head? ≠ some bom) :
    (outputHeaders headers).modifyHead trimStartBom = outputHeaders headers := by
  cases headers with
  | nil => rfl
  | cons header headers =>
    have htrim : trimStartBom header = header := by
      cases header with
      | nil => rfl
      | cons c header =>
        have hc : c ≠ bom := by simpa using hbom _ rfl
        simp [trimStartBom, hc]
    simp [outputHeaders, htrim]

/-- What a job writes is read back as the headers, those of the job behind them, and for each of the
items the texts of its row and the values of the job. -/
theorem parseCsv_renderJobCsv (hread : ReadsRecords read)
    (_hunique : ensureUniqueHeaders headers = .ok ())
    (hbom : ∀ header ∈ headers.head?, header.head? ≠ some bom)
    (stored : ExportItem → List (List Char))
    (hstored : ∀ item ∈ items, item.Stores headers (stored item)) :
    ∃ csv, renderJobCsv formats headers items = .ok csv ∧
      parseCsv read csv = .ok (headers ++ jobColumns,
        items.map fun item => stored item ++ item.jobValues formats) := by
  obtain ⟨lines, hlines, htext⟩ : ∃ lines, renderItems formats headers items = .ok lines ∧
      FileText lines (items.map fun item => stored item ++ item.jobValues formats) :=
    fileText_renderItems hstored
  refine ⟨renderLine (outputHeaders headers) ++ '\n' :: lines, ?_, ?_⟩
  · rw [renderJobCsv, hlines]
    rfl
  · have hlength : 1 < (outputHeaders headers).length := by
      rw [outputHeaders, List.length_append]
      have : jobColumns.length = 10 := rfl
      omega
    rw [parseCsv, hread (fileText_renderLine hlength htext) (head_renderLine hbom lines)]
    simp only [List.headD_cons, List.tail_cons, modifyHead_trimStartBom hbom]
    rw [List.filter_eq_self.2]
    · rfl
    · rintro row hrow
      obtain ⟨item, -, rfl⟩ := List.mem_map.1 hrow
      rw [not_all_isEmpty]
      rfl

end

/-- An item whose row has a text with all the characters that are escaped, and an empty one. -/
def quotedItem : ExportItem where
  itemId := "row-1".toList
  status := .completed
  assignedThreadId := none
  resultJson := some "[1,2]".toList
  lastError := none
  jobId := "job".toList
  rowIndex := 0
  sourceId := none
  rowJson := .object [("na,me".toList, .string []), ("note".toList, .string "a\"b\r\nc,".toList)]
  attemptCount := 1
  reportedAt := none
  completedAt := none

theorem parseCsv_renderJobCsv_quotedItem :
    ∃ csv, renderJobCsv ⟨fun _ => [], fun _ => []⟩ ["note".toList, "na,me".toList] [quotedItem] =
        .ok csv ∧
      parseCsv (fun text => .ok (Csv.read text)) csv =
        .ok (["note".toList, "na,me".toList] ++ jobColumns,
          [["a\"b\r\nc,".toList, []] ++ quotedItem.jobValues ⟨fun _ => [], fun _ => []⟩]) :=
  parseCsv_renderJobCsv readsRecords_read (by decide) (by decide)
    (fun _ => ["a\"b\r\nc,".toList, []]) (by
      intro item hitem
      obtain rfl := List.mem_singleton.1 hitem
      exact ⟨_, rfl, rfl⟩)

/-- A first header with a byte-order mark in front is unique, and read back without it. -/
theorem parseCsv_drops_byteOrderMark :
    ensureUniqueHeaders [bom :: "id, name".toList] = .ok () ∧
      ∃ csv, renderJobCsv ⟨fun _ => [], fun _ => []⟩ [bom :: "id, name".toList] [] = .ok csv ∧
        parseCsv (fun text => .ok (Csv.read text)) csv ≠
          .ok ((bom :: "id, name".toList) :: jobColumns, []) := by
  refine ⟨rfl, _, rfl, ?_⟩
  have htext : FileText (renderLine (outputHeaders [bom :: "id, name".toList]) ++ ['\n'])
      [outputHeaders [bom :: "id, name".toList]] := fileText_renderLine (by decide) .nil
  rw [parseCsv, read_of_fileText htext (by decide)]
  intro h
  have hheaders := (Prod.mk.inj (Except.ok.inj h)).1
  have hfirst := congrArg List.head? hheaders
  revert hfirst
  decide

end Mcodex.AgentJobs
