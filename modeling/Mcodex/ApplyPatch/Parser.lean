import Mcodex.Lib.Effect
import Mcodex.Lib.Text

/-!
# Parsing a patch

A patch is a list of hunks between a begin and an end marker, one line after the other. A patch may
be given as it is, inside a heredoc, or up to a point only, when it is still streaming. A line is the
list of its characters.
-/

namespace Mcodex.ApplyPatch

open Text

abbrev Line := List Char

def beginPatchMarker : Line := "*** Begin Patch".toList
def endPatchMarker : Line := "*** End Patch".toList
def addFileMarker : Line := "*** Add File: ".toList
def deleteFileMarker : Line := "*** Delete File: ".toList
def updateFileMarker : Line := "*** Update File: ".toList
def moveToMarker : Line := "*** Move to: ".toList
def eofMarker : Line := "*** End of File".toList
def changeContextMarker : Line := "@@ ".toList
def emptyChangeContextMarker : Line := "@@".toList

inductive ParseError where
  | invalidPatchError (message : String)
  | invalidHunkError (message : String) (lineNumber : Nat)
  deriving DecidableEq, Repr

structure UpdateFileChunk where
  changeContext : Option Line
  oldLines : List Line
  newLines : List Line
  isEndOfFile : Bool
  deriving DecidableEq, Repr

inductive Hunk where
  | addFile (path contents : List Char)
  | deleteFile (path : List Char)
  | updateFile (path : List Char) (movePath : Option (List Char)) (chunks : List UpdateFileChunk)
  deriving DecidableEq, Repr

structure ApplyPatchArgs where
  hunks : List Hunk
  patch : List Char
  workdir : Option String
  deriving DecidableEq, Repr

/-! ## Chunks -/

def noLinesError (lineNumber : Nat) : ParseError :=
  .invalidHunkError "Update hunk does not contain any lines" lineNumber

/-- The chunk with one more line, unless the line is none of a chunk. An empty line stands for an
empty line of context. -/
def UpdateFileChunk.push (chunk : UpdateFileChunk) : Line → Option UpdateFileChunk
  | [] => some { chunk with
      oldLines := chunk.oldLines ++ [[]], newLines := chunk.newLines ++ [[]] }
  | c :: text =>
    if c = ' ' then some { chunk with
      oldLines := chunk.oldLines ++ [text], newLines := chunk.newLines ++ [text] }
    else if c = '+' then some { chunk with newLines := chunk.newLines ++ [text] }
    else if c = '-' then some { chunk with oldLines := chunk.oldLines ++ [text] }
    else none

/-- The lines of a chunk that began at a line, of which some were parsed. -/
def parseChunkLines (lineNumber : Nat) :
    List Line → UpdateFileChunk → Nat → Except ParseError (UpdateFileChunk × Nat)
  | [], chunk, parsedLines => .ok (chunk, parsedLines)
  | line :: rest, chunk, parsedLines =>
    if line = eofMarker then
      if parsedLines = 0 then .error (noLinesError (lineNumber + 1))
      else .ok ({ chunk with isEndOfFile := true }, parsedLines + 1)
    else
      match chunk.push line with
      | some chunk => parseChunkLines lineNumber rest chunk (parsedLines + 1)
      | none =>
        if parsedLines = 0 then
          .error (.invalidHunkError ("Unexpected line found in update hunk: '" ++
            String.ofList line ++ "'. Every line should start with ' ' (context line), '+' " ++
            "(added line), or '-' (removed line)") (lineNumber + 1))
        else .ok (chunk, parsedLines)

/-- A chunk after its context line, if it has one. -/
def parseChunkBody (lineNumber : Nat) (changeContext : Option Line) (lines : List Line)
    (startIndex : Nat) : Except ParseError (UpdateFileChunk × Nat) :=
  if lines.isEmpty then .error (noLinesError (lineNumber + 1))
  else
    (parseChunkLines lineNumber lines ⟨changeContext, [], [], false⟩ 0).map fun parsed =>
      (parsed.1, parsed.2 + startIndex)

def parseUpdateFileChunk (lines : List Line) (lineNumber : Nat) (allowMissingContext : Bool) :
    Except ParseError (UpdateFileChunk × Nat) :=
  match lines with
  | [] => .error (noLinesError lineNumber)
  | first :: rest =>
    if first = emptyChangeContextMarker then parseChunkBody lineNumber none rest 1
    else
      match stripPrefix changeContextMarker first with
      | some context => parseChunkBody lineNumber (some context) rest 1
      | none =>
        if allowMissingContext then parseChunkBody lineNumber none (first :: rest) 0
        else .error (.invalidHunkError ("Expected update hunk to start with a @@ context marker, " ++
          "got: '" ++ String.ofList first ++ "'") lineNumber)

theorem parseChunkLines_le {lineNumber : Nat} {lines : List Line} {chunk chunk' : UpdateFileChunk}
    {parsedLines n : Nat}
    (h : parseChunkLines lineNumber lines chunk parsedLines = .ok (chunk', n)) :
    parsedLines ≤ n ∧ n ≤ parsedLines + lines.length ∧ (lines ≠ [] → 0 < n) := by
  induction lines generalizing chunk parsedLines with
  | nil =>
    cases h
    exact ⟨Nat.le_refl _, Nat.le_refl _, fun hne => absurd rfl hne⟩
  | cons line rest ih =>
    rw [parseChunkLines] at h
    rw [List.length_cons]
    split at h
    · split at h
      · cases h
      · cases h
        omega
    · split at h
      · obtain ⟨hge, hle, -⟩ := ih h
        omega
      · split at h
        · cases h
        · cases h
          omega

/-- A chunk takes at least one line, and no more than there are. -/
theorem parseUpdateFileChunk_le {lines : List Line} {lineNumber n : Nat} {allow : Bool}
    {chunk : UpdateFileChunk} (h : parseUpdateFileChunk lines lineNumber allow = .ok (chunk, n)) :
    0 < n ∧ n ≤ lines.length := by
  have body : ∀ context start rest, parseChunkBody lineNumber context rest start = .ok (chunk, n) →
      0 < n ∧ n ≤ rest.length + start := by
    intro context start rest hbody
    unfold parseChunkBody at hbody
    split at hbody
    · cases hbody
    · next hne =>
      cases hlines : parseChunkLines lineNumber rest ⟨context, [], [], false⟩ 0 with
      | error e =>
        rw [hlines] at hbody
        cases hbody
      | ok parsed =>
        rw [hlines] at hbody
        obtain ⟨-, hle, hpos⟩ := parseChunkLines_le hlines
        cases hbody
        have := hpos (by simpa using hne)
        omega
  unfold parseUpdateFileChunk at h
  split at h
  · cases h
  · next first rest =>
    rw [List.length_cons]
    split at h
    · exact body _ _ _ h
    · split at h
      · exact body _ _ _ h
      · split at h
        · have hbody := body _ _ _ h
          exact hbody
        · cases h

/-! ## Hunks -/

/-- The chunks of an update hunk that began at a line, after some lines and chunks of it. An
incomplete hunk ends before the first line that makes no chunk. -/
def parseChunks (allowIncomplete : Bool) (lineNumber : Nat) (remainingLines : List Line)
    (parsedLines : Nat) (chunks : List UpdateFileChunk) :
    Except ParseError (List UpdateFileChunk × Nat) :=
  match remainingLines with
  | [] => .ok (chunks, parsedLines)
  | line :: rest =>
    if (trim line).isEmpty then
      parseChunks allowIncomplete lineNumber rest (parsedLines + 1) chunks
    else if line.head? = some '*' then .ok (chunks, parsedLines)
    else if allowIncomplete ∧ line = ['@'] then .ok (chunks, parsedLines)
    else
      match _h : parseUpdateFileChunk (line :: rest) (lineNumber + parsedLines) chunks.isEmpty with
      | .ok (chunk, chunkLines) =>
        parseChunks allowIncomplete lineNumber ((line :: rest).drop chunkLines)
          (parsedLines + chunkLines) (chunks ++ [chunk])
      | .error (.invalidHunkError message lineNumber) =>
        if allowIncomplete ∧ chunks ≠ [] then .ok (chunks, parsedLines)
        else .error (.invalidHunkError message lineNumber)
      | .error error => .error error
termination_by remainingLines.length
decreasing_by
  · exact Nat.lt_succ_self _
  · have := parseUpdateFileChunk_le _h
    rw [List.length_drop]
    omega

/-- The lines that an add hunk takes. -/
def isAddLine (line : Line) : Bool := line.head? = some '+'

def parseUpdateHunk (allowIncomplete : Bool) (lineNumber : Nat) (path : List Char)
    (lines : List Line) : Except ParseError (Hunk × Nat) := do
  let movePath := lines.head?.bind (stripPrefix moveToMarker)
  let moveLines := if movePath.isSome then 1 else 0
  let (chunks, parsedLines) ←
    parseChunks allowIncomplete lineNumber (lines.drop moveLines) (1 + moveLines) []
  if chunks.isEmpty then
    .error (.invalidHunkError ("Update file hunk for path '" ++ String.ofList path ++ "' is empty")
      lineNumber)
  else .ok (.updateFile path movePath chunks, parsedLines)

/-- The hunk that a header and the lines after it begin with. -/
def parseOneHunk (first : Line) (rest : List Line) (lineNumber : Nat) (allowIncomplete : Bool) :
    Except ParseError (Hunk × Nat) :=
  let header := trim first
  match stripPrefix addFileMarker header with
  | some path =>
    let added := rest.takeWhile isAddLine
    .ok (.addFile path (added.flatMap fun line => line.tail ++ ['\n']), 1 + added.length)
  | none =>
    match stripPrefix deleteFileMarker header with
    | some path => .ok (.deleteFile path, 1)
    | none =>
      match stripPrefix updateFileMarker header with
      | some path => parseUpdateHunk allowIncomplete lineNumber path rest
      | none => .error (.invalidHunkError ("'" ++ String.ofList header ++
          "' is not a valid hunk header. Valid hunk headers: '*** Add File: \x7bpath\x7d', " ++
          "'*** Delete File: \x7bpath\x7d', '*** Update File: \x7bpath\x7d'") lineNumber)

section
variable {allow : Bool} {lineNumber parsedLines : Nat} {line : Line} {rest : List Line}
  {chunks : List UpdateFileChunk}

/-- A line at which a chunk is read. -/
def ReadsChunk (allow : Bool) (line : Line) : Prop :=
  (trim line).isEmpty = false ∧ line.head? ≠ some '*' ∧ ¬ (allow ∧ line = ['@'])

theorem parseChunks_nil :
    parseChunks allow lineNumber [] parsedLines chunks = .ok (chunks, parsedLines) := by
  rw [parseChunks]

theorem parseChunks_blank (hblank : (trim line).isEmpty) :
    parseChunks allow lineNumber (line :: rest) parsedLines chunks =
      parseChunks allow lineNumber rest (parsedLines + 1) chunks := by
  rw [parseChunks, if_pos hblank]

/-- The line ends the hunk. -/
theorem parseChunks_stop (hblank : (trim line).isEmpty = false)
    (hstop : line.head? = some '*' ∨ allow ∧ line = ['@']) :
    parseChunks allow lineNumber (line :: rest) parsedLines chunks =
      .ok (chunks, parsedLines) := by
  rw [parseChunks, if_neg (by simp [hblank])]
  split
  · rfl
  · next hstar => rw [if_pos (hstop.resolve_left hstar)]

theorem parseChunks_chunk (hline : ReadsChunk allow line) {chunk : UpdateFileChunk} {n : Nat}
    (hchunk : parseUpdateFileChunk (line :: rest) (lineNumber + parsedLines) chunks.isEmpty =
      .ok (chunk, n)) :
    parseChunks allow lineNumber (line :: rest) parsedLines chunks =
      parseChunks allow lineNumber ((line :: rest).drop n) (parsedLines + n)
        (chunks ++ [chunk]) := by
  obtain ⟨hblank, hstar, hat⟩ := hline
  rw [parseChunks, if_neg (by simp [hblank]), if_neg hstar, if_neg hat]
  split
  · next heq =>
    cases hchunk.symm.trans heq
    rfl
  · next heq => cases hchunk.symm.trans heq
  · next heq => cases hchunk.symm.trans heq

theorem parseChunks_error (hline : ReadsChunk allow line) {message : String} {n : Nat}
    (hchunk : parseUpdateFileChunk (line :: rest) (lineNumber + parsedLines) chunks.isEmpty =
      .error (.invalidHunkError message n)) :
    parseChunks allow lineNumber (line :: rest) parsedLines chunks =
      if allow ∧ chunks ≠ [] then .ok (chunks, parsedLines)
      else .error (.invalidHunkError message n) := by
  obtain ⟨hblank, hstar, hat⟩ := hline
  rw [parseChunks, if_neg (by simp [hblank]), if_neg hstar, if_neg hat]
  split
  · next heq => cases hchunk.symm.trans heq
  · next heq =>
    cases hchunk.symm.trans heq
    rfl
  · next hne heq => exact absurd (hchunk.symm.trans heq) (by simpa using fun h => hne _ _ h.symm)

end

theorem parseChunkLines_error {lineNumber parsedLines : Nat} {lines : List Line}
    {chunk : UpdateFileChunk} {error : ParseError}
    (h : parseChunkLines lineNumber lines chunk parsedLines = .error error) :
    ∃ message n, error = .invalidHunkError message n := by
  induction lines generalizing chunk parsedLines with
  | nil => cases h
  | cons line rest ih =>
    rw [parseChunkLines] at h
    split at h
    · split at h
      · cases h
        exact ⟨_, _, rfl⟩
      · cases h
    · split at h
      · exact ih h
      · split at h
        · cases h
          exact ⟨_, _, rfl⟩
        · cases h

/-- Every error of a chunk is an error of the hunk. -/
theorem parseUpdateFileChunk_error {lines : List Line} {lineNumber : Nat} {allow : Bool}
    {error : ParseError} (h : parseUpdateFileChunk lines lineNumber allow = .error error) :
    ∃ message n, error = .invalidHunkError message n := by
  have body : ∀ context start rest, parseChunkBody lineNumber context rest start = .error error →
      ∃ message n, error = .invalidHunkError message n := by
    intro context start rest hbody
    unfold parseChunkBody at hbody
    split at hbody
    · cases hbody
      exact ⟨_, _, rfl⟩
    · cases hlines : parseChunkLines lineNumber rest ⟨context, [], [], false⟩ 0 with
      | ok parsed =>
        rw [hlines] at hbody
        cases hbody
      | error e =>
        rw [hlines] at hbody
        cases hbody
        exact parseChunkLines_error hlines
  unfold parseUpdateFileChunk at h
  split at h
  · cases h
    exact ⟨_, _, rfl⟩
  · split at h
    · exact body _ _ _ h
    · split at h
      · exact body _ _ _ h
      · split at h
        · exact body _ _ _ h
        · cases h
          exact ⟨_, _, rfl⟩

/-- What reading chunks from some lines on comes to: by the line in front, nothing is left, the line
is blank, ends the hunk, begins a chunk, or makes none. -/
theorem parseChunks_induct (allow : Bool) (lineNumber : Nat)
    {motive : List Line → Nat → List UpdateFileChunk → Prop}
    (nil : ∀ parsedLines chunks, motive [] parsedLines chunks)
    (blank : ∀ line rest parsedLines chunks, (trim line).isEmpty →
      motive rest (parsedLines + 1) chunks → motive (line :: rest) parsedLines chunks)
    (stop : ∀ line rest parsedLines chunks, (trim line).isEmpty = false →
      (line.head? = some '*' ∨ allow ∧ line = ['@']) → motive (line :: rest) parsedLines chunks)
    (chunk : ∀ line rest parsedLines chunks chunk n, ReadsChunk allow line →
      parseUpdateFileChunk (line :: rest) (lineNumber + parsedLines) chunks.isEmpty =
        .ok (chunk, n) →
      motive ((line :: rest).drop n) (parsedLines + n) (chunks ++ [chunk]) →
      motive (line :: rest) parsedLines chunks)
    (error : ∀ line rest parsedLines chunks message n, ReadsChunk allow line →
      parseUpdateFileChunk (line :: rest) (lineNumber + parsedLines) chunks.isEmpty =
        .error (.invalidHunkError message n) →
      motive (line :: rest) parsedLines chunks)
    (lines : List Line) (parsedLines : Nat) (chunks : List UpdateFileChunk) :
    motive lines parsedLines chunks := by
  induction lines, parsedLines, chunks using parseChunks.induct allow lineNumber with
  | case1 parsedLines chunks => exact nil _ _
  | case2 parsedLines chunks line rest hblank ih => exact blank _ _ _ _ hblank ih
  | case3 parsedLines chunks line rest hblank hstar =>
    exact stop _ _ _ _ (by simpa using hblank) (.inl hstar)
  | case4 parsedLines chunks line rest hblank hstar hat =>
    exact stop _ _ _ _ (by simpa using hblank) (.inr hat)
  | case5 parsedLines chunks line rest hblank hstar hat c n hchunk ih =>
    exact chunk _ _ _ _ _ _ ⟨by simpa using hblank, hstar, hat⟩ hchunk ih
  | case6 parsedLines chunks line rest hblank hstar hat message n hchunk =>
    exact error _ _ _ _ _ _ ⟨by simpa using hblank, hstar, hat⟩ hchunk
  | case7 parsedLines chunks line rest hblank hstar hat message n hchunk =>
    exact error _ _ _ _ _ _ ⟨by simpa using hblank, hstar, hat⟩ hchunk
  | case8 parsedLines chunks line rest hblank hstar hat e hne hchunk =>
    obtain ⟨message, n, rfl⟩ := parseUpdateFileChunk_error hchunk
    exact absurd rfl (hne message n)

theorem parseChunks_le {allow : Bool} {lineNumber parsedLines n : Nat} {lines : List Line}
    {chunks chunks' : List UpdateFileChunk}
    (h : parseChunks allow lineNumber lines parsedLines chunks = .ok (chunks', n)) :
    parsedLines ≤ n ∧ n ≤ parsedLines + lines.length := by
  induction lines, parsedLines, chunks using parseChunks_induct allow lineNumber with
  | nil parsedLines chunks =>
    rw [parseChunks_nil] at h
    cases h
    exact ⟨Nat.le_refl _, Nat.le_refl _⟩
  | blank line rest parsedLines chunks hblank ih =>
    rw [parseChunks_blank hblank] at h
    have := ih h
    rw [List.length_cons]
    omega
  | stop line rest parsedLines chunks hblank hstop =>
    rw [parseChunks_stop hblank hstop] at h
    cases h
    exact ⟨Nat.le_refl _, Nat.le_add_right _ _⟩
  | chunk line rest parsedLines chunks chunk m hline hchunk ih =>
    rw [parseChunks_chunk hline hchunk] at h
    have := ih h
    have := parseUpdateFileChunk_le hchunk
    rw [List.length_drop] at *
    omega
  | error line rest parsedLines chunks message m hline hchunk =>
    rw [parseChunks_error hline hchunk] at h
    split at h
    · cases h
      exact ⟨Nat.le_refl _, Nat.le_add_right _ _⟩
    · cases h

theorem parseUpdateHunk_le {path : List Char} {lines : List Line} {lineNumber n : Nat}
    {allow : Bool} {hunk : Hunk} (h : parseUpdateHunk allow lineNumber path lines = .ok (hunk, n)) :
    0 < n ∧ n ≤ lines.length + 1 := by
  unfold parseUpdateHunk at h
  obtain ⟨⟨chunks, m⟩, hchunks, h⟩ := Effect.bind_eq_ok.1 h
  have hle := parseChunks_le hchunks
  dsimp only at h
  split at h
  · cases h
  · cases h
    rw [List.length_drop] at hle
    split at hle
    · next hmove =>
      cases lines with
      | nil => cases hmove
      | cons line rest =>
        rw [List.length_cons] at hle ⊢
        omega
    · omega

/-- A hunk takes its header at least, and no more lines than there are. -/
theorem parseOneHunk_le {first : Line} {rest : List Line} {lineNumber n : Nat} {allow : Bool}
    {hunk : Hunk} (h : parseOneHunk first rest lineNumber allow = .ok (hunk, n)) :
    0 < n ∧ n ≤ rest.length + 1 := by
  unfold parseOneHunk at h
  dsimp only at h
  split at h
  · cases h
    have := List.takeWhile_prefix (p := isAddLine) (l := rest) |>.length_le
    omega
  · split at h
    · cases h
      omega
    · split at h
      · exact parseUpdateHunk_le h
      · cases h

def parseHunks (allowIncomplete : Bool) (remainingLines : List Line) (lineNumber : Nat) :
    Except ParseError (List Hunk) :=
  match remainingLines with
  | [] => .ok []
  | first :: rest =>
    match _h : parseOneHunk first rest lineNumber allowIncomplete with
    | .ok (hunk, hunkLines) =>
      (parseHunks allowIncomplete ((first :: rest).drop hunkLines) (lineNumber + hunkLines)).map
        (hunk :: ·)
    | .error error => .error error
termination_by remainingLines.length
decreasing_by
  have := parseOneHunk_le _h
  rw [List.length_drop, List.length_cons]
  omega

theorem parseHunks_nil {allow : Bool} {lineNumber : Nat} :
    parseHunks allow [] lineNumber = .ok [] := by
  rw [parseHunks]

theorem parseHunks_cons_eq_ok {allow : Bool} {first : Line} {rest : List Line} {lineNumber : Nat}
    {hunks : List Hunk} : parseHunks allow (first :: rest) lineNumber = .ok hunks ↔
      ∃ hunk n hunks', parseOneHunk first rest lineNumber allow = .ok (hunk, n) ∧
        parseHunks allow ((first :: rest).drop n) (lineNumber + n) = .ok hunks' ∧
        hunks = hunk :: hunks' := by
  rw [parseHunks]
  split
  · next hunk n hone =>
    cases hrest : parseHunks allow ((first :: rest).drop n) (lineNumber + n) with
    | error e => simp [Except.map, hrest, hone]
    | ok hunks' => simp [Except.map, hrest, hone, eq_comm]
  · next hone => simp [hone]

/-! ## Boundaries -/

inductive ParseMode where
  | strict
  | lenient
  | streaming
  deriving DecidableEq, Repr

def checkStartAndEndLinesStrict (firstLine lastLine : Option Line) : Except ParseError Unit :=
  let firstLine := firstLine.map trim
  let lastLine := lastLine.map trim
  if firstLine = some beginPatchMarker ∧ lastLine = some endPatchMarker then .ok ()
  else if firstLine.isSome ∧ firstLine ≠ some beginPatchMarker then
    .error (.invalidPatchError "The first line of the patch must be '*** Begin Patch'")
  else .error (.invalidPatchError "The last line of the patch must be '*** End Patch'")

/-- The lines of the patch, and those between its markers. -/
def checkPatchBoundariesStrict (lines : List Line) : Except ParseError (List Line × List Line) := do
  checkStartAndEndLinesStrict lines.head? lines.getLast?
  return (lines, lines.tail.dropLast)

def isHeredocStart (line : Line) : Bool :=
  line = "<<EOF".toList || line = "<<'EOF'".toList || line = "<<\"EOF\"".toList

def checkPatchBoundariesLenient (originalLines : List Line) :
    Except ParseError (List Line × List Line) :=
  match checkPatchBoundariesStrict originalLines with
  | .ok lines => .ok lines
  | .error originalParseError =>
    if originalLines.head?.any isHeredocStart ∧
        originalLines.getLast?.any ("EOF".toList.isSuffixOf ·) ∧ 4 ≤ originalLines.length then
      checkPatchBoundariesStrict originalLines.tail.dropLast
    else .error originalParseError

def checkPatchBoundariesStreaming (originalLines : List Line) :
    Except ParseError (List Line × List Line) :=
  if originalLines.head?.map trim = some beginPatchMarker then
    let bodyLines :=
      if originalLines.getLast?.map trim = some endPatchMarker then originalLines.tail.dropLast
      else originalLines.tail
    .ok (originalLines, bodyLines)
  else checkPatchBoundariesStrict originalLines

def checkPatchBoundaries : ParseMode → List Line → Except ParseError (List Line × List Line)
  | .strict => checkPatchBoundariesStrict
  | .lenient => checkPatchBoundariesLenient
  | .streaming => checkPatchBoundariesStreaming

def parsePatchText (patch : List Char) (mode : ParseMode) : Except ParseError ApplyPatchArgs := do
  let (patchLines, hunkLines) ← checkPatchBoundaries mode (lines (trim patch))
  let hunks ← parseHunks (mode = .streaming) hunkLines 2
  return ⟨hunks, ['\n'].intercalate patchLines, none⟩

theorem parsePatchText_eq_ok {patch : List Char} {mode : ParseMode} {args : ApplyPatchArgs} :
    parsePatchText patch mode = .ok args ↔ ∃ patchLines hunkLines hunks,
      checkPatchBoundaries mode (lines (trim patch)) = .ok (patchLines, hunkLines) ∧
        parseHunks (mode = .streaming) hunkLines 2 = .ok hunks ∧
          args = ⟨hunks, ['\n'].intercalate patchLines, none⟩ := by
  constructor
  · intro h
    obtain ⟨⟨patchLines, hunkLines⟩, hbounds, h⟩ := Effect.bind_eq_ok.1 h
    obtain ⟨hunks, hhunks, h⟩ := Effect.bind_eq_ok.1 h
    cases h
    exact ⟨_, _, _, hbounds, hhunks, rfl⟩
  · rintro ⟨patchLines, hunkLines, hunks, hbounds, hhunks, rfl⟩
    refine Effect.bind_eq_ok.2 ⟨_, hbounds, ?_⟩
    exact Effect.bind_eq_ok.2 ⟨_, hhunks, rfl⟩

/-- `PARSE_IN_STRICT_MODE` is off. -/
def parsePatch (patch : List Char) : Except ParseError ApplyPatchArgs :=
  parsePatchText patch .lenient

def parsePatchStreaming (patch : List Char) : Except ParseError ApplyPatchArgs :=
  parsePatchText patch .streaming

end Mcodex.ApplyPatch
