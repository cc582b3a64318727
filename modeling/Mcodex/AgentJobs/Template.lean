import Mcodex.AgentJobs.Csv
import Mcodex.Lib.Replacement

/-!
# The instructions of agent jobs

`render_instruction_template` of `core/src/tools/handlers/agent_jobs.rs` fills the instruction of a
job for one row: `{column}` stands for the row's value, and `{{` and `}}` for a brace. Escaped braces
wait as sentinel texts while the columns are replaced one after the other in the growing text, so
what a column put in is looked at again. A text in which nothing is found but what the instruction
has there is filled as meant (`renderInstructionTemplate_eq`).
-/

namespace Mcodex.AgentJobs

open Replacement

/-! ## Rendering -/

/-- `OPEN_BRACE_SENTINEL`. -/
def openBraceSentinel : List Char := "__CODEX_OPEN_BRACE__".toList

/-- `CLOSE_BRACE_SENTINEL`. -/
def closeBraceSentinel : List Char := "__CODEX_CLOSE_BRACE__".toList

/-- The column in braces. -/
def placeholder (key : List Char) : List Char := '{' :: (key ++ ['}'])

/-- A string as it is, any other value as JSON. -/
def replacementText (formats : Formats) (value : Value) : List Char :=
  value.asStr.getD (formats.json value)

/-- The last two replacements of `render_instruction_template`. -/
def restoreBraces (rendered : List Char) : List Char :=
  replaceAll closeBraceSentinel ['}'] (replaceAll openBraceSentinel ['{'] rendered)

/-- `render_instruction_template`; the fields of a row come in the order of its map. -/
def renderInstructionTemplate (formats : Formats) (instruction : List Char) (rowJson : Value) :
    List Char :=
  let rendered := replaceAll ['}', '}'] closeBraceSentinel
    (replaceAll ['{', '{'] openBraceSentinel instruction)
  match rowJson.asObject with
  | none => restoreBraces rendered
  | some row => restoreBraces (row.foldl (fun rendered field =>
      replaceAll (placeholder field.1) (replacementText formats field.2) rendered) rendered)

/-! ## What an instruction means -/

/-- A piece of an instruction that is being filled: a character of it, an escaped brace, or the
value of a column. -/
inductive Piece where
  | char (c : Char)
  | openBrace
  | closeBrace
  | value (text : List Char)
  deriving DecidableEq

/-- The text of a piece. -/
def Piece.text : Piece → List Char
  | .char c => [c]
  | .openBrace => ['{']
  | .closeBrace => ['}']
  | .value text => text

/-- The text of a piece while columns are replaced. -/
def Piece.sentinelText : Piece → List Char
  | .openBrace => openBraceSentinel
  | .closeBrace => closeBraceSentinel
  | piece => piece.text

/-- The pieces of an instruction: brace pairs are escapes, from the left. -/
def pieces : List Char → List Piece
  | '{' :: '{' :: s => .openBrace :: pieces s
  | '}' :: '}' :: s => .closeBrace :: pieces s
  | c :: s => .char c :: pieces s
  | [] => []

/-- The placeholder of a field, and its value. -/
def columnRule (formats : Formats) (field : List Char × Value) : Rule Piece where
  pattern := (placeholder field.1).map .char
  replacement := [.value (replacementText formats field.2)]

/-- The instruction with the values of a row, put in at once. -/
def fill (formats : Formats) (row : List (List Char × Value)) (instruction : List Char) :
    List Piece :=
  substitute (row.map (columnRule formats)) (pieces instruction)

/-- The instruction as it is meant. -/
def filledText (formats : Formats) (row : List (List Char × Value)) (instruction : List Char) :
    List Char :=
  (fill formats row instruction).flatMap Piece.text

/-- Column names are distinct and free of braces. -/
structure PlainNames (row : List (List Char × Value)) : Prop where
  nodup : (row.map Prod.fst).Nodup
  noOpen : ∀ field ∈ row, '{' ∉ field.1
  noClose : ∀ field ∈ row, '}' ∉ field.1

/-- In the text with the first columns filled the next placeholder occurs only where the instruction
has it, and in the text with all of them filled a sentinel only where the instruction has the
escape. -/
structure Unmixed (formats : Formats) (row : List (List Char × Value)) (instruction : List Char) :
    Prop where
  columns : ∀ done field rest, row = done ++ field :: rest →
    Faithful Piece.sentinelText (columnRule formats field).pattern
      (fill formats done instruction)
  openBrace : Faithful Piece.sentinelText [.openBrace] (fill formats row instruction)
  closeBrace : Faithful Piece.sentinelText [.closeBrace]
    (replaceAll [.openBrace] [.char '{'] (fill formats row instruction))

section
variable {formats : Formats} {row row' : List (List Char × Value)} {instruction : List Char}

/-! ## Escapes -/

theorem flatMap_char {text : Piece → List Char} (htext : ∀ c, text (.char c) = [c])
    (s : List Char) : (s.map Piece.char).flatMap text = s := by
  induction s with
  | nil => rfl
  | cons c s ih => rw [List.map_cons, List.flatMap_cons, htext, ih, List.singleton_append]

/-- The sentinels stand for the escapes of the instruction. -/
theorem sentinelText_pieces (instruction : List Char) :
    (pieces instruction).flatMap Piece.sentinelText =
      replaceAll ['}', '}'] closeBraceSentinel
        (replaceAll ['{', '{'] openBraceSentinel instruction) := by
  fun_induction pieces instruction with
  | case1 s ih =>
    have hopen := @replaceAll_pattern _ _ ['{', '{'] openBraceSentinel s (List.cons_ne_nil _ _)
    rw [List.cons_append, List.singleton_append] at hopen
    rw [hopen, replaceAll_append_of_notMem (by decide), List.flatMap_cons, ih]
    rfl
  | case2 s ih =>
    have hkeep := @replaceAll_append_of_notMem _ _ ['{'] openBraceSentinel ['}', '}'] s '{'
      (by decide)
    have hclose := @replaceAll_pattern _ _ ['}', '}'] closeBraceSentinel
      (replaceAll ['{', '{'] openBraceSentinel s) (List.cons_ne_nil _ _)
    simp only [List.cons_append, List.nil_append] at hkeep hclose
    rw [hkeep, hclose, List.flatMap_cons, ih]
    rfl
  | case3 c s hopen hclose ih =>
    have hcons : ¬['{', '{'] <+: c :: s := by
      intro hpre
      obtain ⟨hc, rest, hrest⟩ := List.cons_prefix_cons.1 hpre
      exact hopen rest hc.symm hrest.symm
    rw [replaceAll_cons hcons, replaceAll_cons, List.flatMap_cons, ih]
    · rfl
    · intro hpre
      obtain ⟨hc, hpre⟩ := List.cons_prefix_cons.1 hpre
      obtain ⟨rest, hrest⟩ := prefix_of_prefix_replaceAll (List.cons_ne_nil _ _) (by decide) hpre
      exact hclose rest hc.symm hrest.symm
  | case4 => rfl

/-! ## Columns -/

theorem placeholder_eq_of_prefix {key key' : List Char} (hkey : '}' ∉ key) (hkey' : '}' ∉ key')
    (hpre : placeholder key <+: placeholder key') : key = key' := by
  have htake : ∀ (key rest : List Char), '}' ∉ key →
      (key ++ '}' :: rest).takeWhile (· ≠ '}') = key := by
    intro key rest hkey
    rw [List.takeWhile_append_of_pos fun c hc => decide_eq_true (ne_of_mem_of_not_mem hc hkey)]
    simp
  obtain ⟨rest, hrest⟩ := (List.cons_prefix_cons.1 hpre).2
  rw [List.append_assoc] at hrest
  rw [← htake key rest hkey, ← htake key' [] hkey']
  exact congrArg _ hrest

theorem PlainNames.delimited (h : PlainNames row) (formats : Formats) :
    Delimited (.char '{') (row.map (columnRule formats)) := by
  constructor
  · intro rule hrule
    obtain ⟨field, hfield, rfl⟩ := List.mem_map.1 hrule
    refine ⟨(field.1 ++ ['}']).map .char, rfl, ?_⟩
    have hopen := h.noOpen field hfield
    simpa using hopen
  · intro rule hrule
    obtain ⟨field, hfield, rfl⟩ := List.mem_map.1 hrule
    refine ⟨_, rfl, fun rule' hrule' => ?_⟩
    obtain ⟨field', hfield', rfl⟩ := List.mem_map.1 hrule'
    simp [columnRule]
  · intro rule hrule rule' hrule' hpre
    obtain ⟨field, hfield, rfl⟩ := List.mem_map.1 hrule
    obtain ⟨field', hfield', rfl⟩ := List.mem_map.1 hrule'
    have hchars : placeholder field.1 <+: placeholder field'.1 :=
      (List.prefix_map_iff_of_injective fun _ _ => Piece.char.inj).1 hpre
    have hkey := placeholder_eq_of_prefix (h.noClose field hfield) (h.noClose field' hfield') hchars
    exact congrArg _ (List.inj_on_of_nodup_map h.nodup hfield hfield' hkey)

theorem PlainNames.of_append {done rest : List (List Char × Value)}
    (h : PlainNames (done ++ rest)) : PlainNames done where
  nodup := ((List.map_append ▸ h.nodup : (done.map Prod.fst ++ rest.map Prod.fst).Nodup)).of_append_left
  noOpen field hfield := h.noOpen field (List.mem_append_left _ hfield)
  noClose field hfield := h.noClose field (List.mem_append_left _ hfield)

/-- One more column is put in. -/
theorem fill_append {done : List (List Char × Value)} {field : List Char × Value}
    (h : PlainNames (done ++ [field])) :
    fill formats (done ++ [field]) instruction =
      replaceAll (columnRule formats field).pattern (columnRule formats field).replacement
        (fill formats done instruction) := by
  rw [fill, fill, ← foldl_replaceAll_eq_substitute (h.delimited formats),
    ← foldl_replaceAll_eq_substitute (h.of_append.delimited formats), List.map_append,
    List.foldl_append]
  rfl

/-- The columns replaced in the text are the columns put in. -/
theorem foldl_placeholder (h : PlainNames row) (hunmixed : Unmixed formats row instruction) :
    row.foldl (fun rendered field =>
        replaceAll (placeholder field.1) (replacementText formats field.2) rendered)
      ((pieces instruction).flatMap Piece.sentinelText) =
    (fill formats row instruction).flatMap Piece.sentinelText := by
  have hfold : ∀ rest done, row = done ++ rest →
      rest.foldl (fun rendered field =>
          replaceAll (placeholder field.1) (replacementText formats field.2) rendered)
        ((fill formats done instruction).flatMap Piece.sentinelText) =
      (fill formats row instruction).flatMap Piece.sentinelText := by
    intro rest
    induction rest with
    | nil =>
      intro done hrow
      rw [hrow, List.append_nil]
      rfl
    | cons field rest ih =>
      intro done hrow
      have hnames : PlainNames (done ++ [field]) := by
        rw [List.append_cons] at hrow
        exact (hrow ▸ h).of_append
      have hpattern : (columnRule formats field).pattern.flatMap Piece.sentinelText =
          placeholder field.1 := flatMap_char (fun _ => rfl) _
      have hreplacement : (columnRule formats field).replacement.flatMap Piece.sentinelText =
          replacementText formats field.2 := List.append_nil _
      have hvisible : Visible Piece.sentinelText (columnRule formats field).pattern :=
        ⟨.char '{', _, rfl, List.cons_ne_nil _ _⟩
      rw [List.foldl_cons, ← hpattern, ← hreplacement,
        replaceAll_flatMap hvisible (hunmixed.columns done field rest hrow), ← fill_append hnames,
        ih (done ++ [field]) (by rw [hrow, List.append_cons])]
  have hstart : fill formats [] instruction = pieces instruction := substitute_no_rules _
  rw [← hfold row [] rfl, hstart]

/-! ## Braces -/

/-- Each sentinel becomes its brace again. -/
theorem restoreBraces_sentinelText {filled : List Piece}
    (hopen : Faithful Piece.sentinelText [.openBrace] filled)
    (hclose : Faithful Piece.sentinelText [.closeBrace]
      (replaceAll [.openBrace] [.char '{'] filled)) :
    restoreBraces (filled.flatMap Piece.sentinelText) = filled.flatMap Piece.text := by
  have hopened := @replaceAll_flatMap _ _ Piece.sentinelText [.openBrace] [.char '{'] _ _ _
    ⟨.openBrace, [], rfl, by decide⟩ hopen
  have hclosed := @replaceAll_flatMap _ _ Piece.sentinelText [.closeBrace] [.char '}'] _ _ _
    ⟨.closeBrace, [], rfl, by decide⟩ hclose
  calc restoreBraces (filled.flatMap Piece.sentinelText)
      = replaceAll closeBraceSentinel ['}']
          ((replaceAll [.openBrace] [.char '{'] filled).flatMap Piece.sentinelText) :=
        congrArg _ hopened
    _ = (replaceAll [.closeBrace] [.char '}']
          (replaceAll [.openBrace] [.char '{'] filled)).flatMap Piece.sentinelText := hclosed
    _ = filled.flatMap Piece.text := by
        rw [replaceAll_singleton, replaceAll_singleton, List.flatMap_map, List.flatMap_map]
        congr 1
        funext piece
        cases piece <;> rfl

/-- **An instruction in which nothing gets mixed up** is filled as meant. -/
theorem renderInstructionTemplate_eq_filledText (h : PlainNames row)
    (hunmixed : Unmixed formats row instruction) :
    renderInstructionTemplate formats instruction (.object row) =
      filledText formats row instruction := by
  rw [filledText, ← restoreBraces_sentinelText hunmixed.openBrace hunmixed.closeBrace,
    ← foldl_placeholder h hunmixed, sentinelText_pieces]
  rfl

/-- The order of the columns does not matter to what is meant. -/
theorem filledText_perm (h : PlainNames row) (hperm : row.Perm row') :
    filledText formats row instruction = filledText formats row' instruction := by
  rw [filledText, filledText, fill, fill, (h.delimited formats).substitute_perm (hperm.map _)]

theorem PlainNames.perm (h : PlainNames row) (hperm : row.Perm row') : PlainNames row' where
  nodup := (hperm.map _).nodup_iff.1 h.nodup
  noOpen field hfield := h.noOpen field (hperm.mem_iff.2 hfield)
  noClose field hfield := h.noClose field (hperm.mem_iff.2 hfield)

end

/-- A row whose column `a` holds the placeholder of the column `b`. -/
def crossingRow : List (List Char × Value) :=
  [(['a'], .string ['{', 'b', '}']), (['b'], .string ['x'])]

end Mcodex.AgentJobs
