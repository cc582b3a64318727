import Mcodex.ApplyPatch.Parser

/-!
# A rendered patch is read back

`renderPatch` writes hunks the canonical way: every chunk with its `@@` line, its old lines and then
its new lines. What follows a chunk begins with `@` or `*`, which no line of a chunk does, and what
follows a hunk begins with `*`; so the parser ends each where the rendering does. The lines are read
back from the text because none has a line break of its own.
-/

namespace Mcodex.ApplyPatch

open Text

/-! ## Rendering -/

/-- A path as a marker line can give it. -/
structure PathText (path : List Char) : Prop where
  ne_nil : path ≠ []
  trimmed : trim path = path
  oneLine : '\n' ∉ path

structure UpdateFileChunk.WellFormed (chunk : UpdateFileChunk) : Prop where
  context : ∀ context ∈ chunk.changeContext, OneLine context
  oldLines : ∀ line ∈ chunk.oldLines, OneLine line
  newLines : ∀ line ∈ chunk.newLines, OneLine line
  ne_nil : chunk.oldLines ≠ [] ∨ chunk.newLines ≠ []

def Hunk.WellFormed : Hunk → Prop
  | .addFile path contents =>
    PathText path ∧ ∃ lines, contents = contentsOf lines ∧ ∀ line ∈ lines, OneLine line
  | .deleteFile path => PathText path
  | .updateFile path movePath chunks => PathText path ∧ (∀ path ∈ movePath, PathText path) ∧
    chunks ≠ [] ∧ ∀ chunk ∈ chunks, chunk.WellFormed

def contextLine : Option Line → Line
  | none => emptyChangeContextMarker
  | some context => changeContextMarker ++ context

def renderChunk (chunk : UpdateFileChunk) : List Line :=
  contextLine chunk.changeContext ::
    (chunk.oldLines.map ('-' :: ·) ++ (chunk.newLines.map ('+' :: ·) ++
      if chunk.isEndOfFile then [eofMarker] else []))

def renderHunk : Hunk → List Line
  | .addFile path contents =>
    (addFileMarker ++ path) :: (contents.splitOn '\n').dropLast.map ('+' :: ·)
  | .deleteFile path => [deleteFileMarker ++ path]
  | .updateFile path movePath chunks =>
    (updateFileMarker ++ path) ::
      (movePath.toList.map (moveToMarker ++ ·) ++ chunks.flatMap renderChunk)

def renderPatch (hunks : List Hunk) : List Char :=
  contentsOf (beginPatchMarker :: hunks.flatMap renderHunk) ++ endPatchMarker

/-- A text in a heredoc. -/
def heredoc (text : List Char) : List Char :=
  "<<'EOF'".toList ++ '\n' :: (text ++ '\n' :: "EOF".toList)

/-! ## Lines of a rendered patch -/

theorem OneLine.marker {marker path : List Char} (hmarker : OneLine marker) (h : PathText path) :
    OneLine (marker ++ path) := by
  refine hmarker.append ⟨h.oneLine, fun hcr => ?_⟩
  rw [← h.trimmed] at hcr
  exact absurd (getLast_trim hcr) (by decide)

theorem OneLine.cons {c : Char} {line : Line} (hc : c ≠ '\n') (hcr : c ≠ '\r')
    (h : OneLine line) : OneLine (c :: line) := by
  have hline : OneLine ([c] ++ line) :=
    OneLine.append ⟨by simpa using hc.symm, by simpa using hcr⟩ h
  exact hline

theorem oneLine_renderChunk {chunk : UpdateFileChunk} (h : chunk.WellFormed) :
    ∀ line ∈ renderChunk chunk, OneLine line := by
  intro line hl
  rw [renderChunk, List.mem_cons, List.mem_append, List.mem_append] at hl
  rcases hl with rfl | hl | hl | hl
  · cases hcontext : chunk.changeContext with
    | none => exact ⟨by decide, by decide⟩
    | some context =>
      exact OneLine.append ⟨by decide, by decide⟩ (h.context context hcontext)
  · obtain ⟨text, ht, rfl⟩ := List.mem_map.1 hl
    exact OneLine.cons (by decide) (by decide) (h.oldLines text ht)
  · obtain ⟨text, ht, rfl⟩ := List.mem_map.1 hl
    exact OneLine.cons (by decide) (by decide) (h.newLines text ht)
  · split at hl
    · rw [List.mem_singleton.1 hl]
      exact ⟨by decide, by decide⟩
    · cases hl

theorem renderHunk_addFile {path : List Char} {lines : List Line}
    (h : ∀ line ∈ lines, OneLine line) : renderHunk (.addFile path (contentsOf lines)) =
      (addFileMarker ++ path) :: lines.map ('+' :: ·) := by
  have hsplit : (contentsOf lines).splitOn '\n' = lines ++ [[]] := by
    rw [← splitOn_contentsOf h List.not_mem_nil, List.append_nil]
  rw [renderHunk, hsplit, List.dropLast_concat]

theorem oneLine_renderHunk {hunk : Hunk} (h : hunk.WellFormed) :
    ∀ line ∈ renderHunk hunk, OneLine line := by
  intro line hl
  cases hunk with
  | addFile path contents =>
    obtain ⟨hpath, lines, rfl, hlines⟩ := h
    rw [renderHunk_addFile hlines, List.mem_cons] at hl
    rcases hl with rfl | hl
    · exact OneLine.marker ⟨by decide, by decide⟩ hpath
    · obtain ⟨text, ht, rfl⟩ := List.mem_map.1 hl
      exact OneLine.cons (by decide) (by decide) (hlines text ht)
  | deleteFile path =>
    rw [List.mem_singleton.1 hl]
    exact OneLine.marker ⟨by decide, by decide⟩ h
  | updateFile path movePath chunks =>
    obtain ⟨hpath, hmove, -, hchunks⟩ := h
    rw [renderHunk, List.mem_cons, List.mem_append] at hl
    rcases hl with rfl | hl | hl
    · exact OneLine.marker ⟨by decide, by decide⟩ hpath
    · obtain ⟨text, ht, rfl⟩ := List.mem_map.1 hl
      exact OneLine.marker ⟨by decide, by decide⟩ (hmove text (Option.mem_toList.1 ht))
    · obtain ⟨chunk, hc, hl⟩ := List.mem_flatMap.1 hl
      exact oneLine_renderChunk (hchunks chunk hc) line hl

/-! ## Chunks are read back -/

theorem ne_eofMarker {c : Char} {text : List Char} (hc : c ≠ '*') : c :: text ≠ eofMarker := by
  intro heq
  have hhead : (c :: text).head? = some '*' := by
    rw [heq]
    decide
  exact hc (Option.some.inj hhead)

section
variable {lineNumber : Nat} {rest : List Line} {chunk : UpdateFileChunk} {parsedLines : Nat}

theorem parseChunkLines_old (old : List Line) :
    parseChunkLines lineNumber (old.map ('-' :: ·) ++ rest) chunk parsedLines =
      parseChunkLines lineNumber rest { chunk with oldLines := chunk.oldLines ++ old }
        (parsedLines + old.length) := by
  induction old generalizing chunk parsedLines with
  | nil => simp
  | cons line old ih =>
    have hpush : chunk.push ('-' :: line) =
        some { chunk with oldLines := chunk.oldLines ++ [line] } := by
      simp [UpdateFileChunk.push]
    rw [List.map_cons, List.cons_append, parseChunkLines, if_neg (ne_eofMarker (by decide)), hpush]
    dsimp only
    rw [ih, List.append_assoc, List.singleton_append, List.length_cons]
    congr 1
    omega

theorem parseChunkLines_new (new : List Line) :
    parseChunkLines lineNumber (new.map ('+' :: ·) ++ rest) chunk parsedLines =
      parseChunkLines lineNumber rest { chunk with newLines := chunk.newLines ++ new }
        (parsedLines + new.length) := by
  induction new generalizing chunk parsedLines with
  | nil => simp
  | cons line new ih =>
    have hpush : chunk.push ('+' :: line) =
        some { chunk with newLines := chunk.newLines ++ [line] } := by
      simp [UpdateFileChunk.push]
    rw [List.map_cons, List.cons_append, parseChunkLines, if_neg (ne_eofMarker (by decide)), hpush]
    dsimp only
    rw [ih, List.append_assoc, List.singleton_append, List.length_cons]
    congr 1
    omega

/-- What follows a chunk: nothing, or a line that is no line of a chunk. -/
def EndsChunk (rest : List Line) : Prop :=
  ∀ line ∈ rest.head?, line ≠ eofMarker ∧ (line.head? = some '@' ∨ line.head? = some '*')

theorem parseChunkLines_end (hrest : EndsChunk rest) (hparsed : 0 < parsedLines) :
    parseChunkLines lineNumber rest chunk parsedLines = .ok (chunk, parsedLines) := by
  cases rest with
  | nil => rfl
  | cons line rest =>
    obtain ⟨heof, hhead⟩ := hrest line rfl
    have hpush : chunk.push line = none := by
      cases line with
      | nil => simp at hhead
      | cons c text =>
        simp only [List.head?_cons, Option.some.injEq] at hhead
        rcases hhead with rfl | rfl
        · simp [UpdateFileChunk.push]
        · simp [UpdateFileChunk.push]
    rw [parseChunkLines, if_neg heof, hpush]
    exact if_neg (Nat.ne_of_gt hparsed)

end

/-- The end of a rendered chunk, after its old and new lines. -/
theorem parseChunkLines_eof {lineNumber parsedLines : Nat} {rest : List Line}
    (hrest : EndsChunk rest) (hparsed : 0 < parsedLines) (context : Option Line)
    (old new : List Line) (isEndOfFile : Bool) :
    parseChunkLines lineNumber ((if isEndOfFile then [eofMarker] else []) ++ rest)
      ⟨context, old, new, false⟩ parsedLines =
        .ok (⟨context, old, new, isEndOfFile⟩, parsedLines + if isEndOfFile then 1 else 0) := by
  cases isEndOfFile with
  | false => exact parseChunkLines_end hrest hparsed
  | true =>
    show parseChunkLines lineNumber (eofMarker :: rest) _ _ = _
    rw [parseChunkLines, if_pos rfl, if_neg (Nat.ne_of_gt hparsed)]
    rfl

/-- The lines of a rendered chunk after its context line. -/
theorem parseChunkBody_render {chunk : UpdateFileChunk} (h : chunk.WellFormed) {rest : List Line}
    (hrest : EndsChunk rest) (lineNumber : Nat) :
    parseChunkBody lineNumber chunk.changeContext
      (chunk.oldLines.map ('-' :: ·) ++ (chunk.newLines.map ('+' :: ·) ++
        ((if chunk.isEndOfFile then [eofMarker] else []) ++ rest))) 1 =
      .ok (chunk, (renderChunk chunk).length) := by
  have hpos : 0 < chunk.oldLines.length + chunk.newLines.length := by
    rcases h.ne_nil with hne | hne
    · have := List.length_pos_of_ne_nil hne
      omega
    · have := List.length_pos_of_ne_nil hne
      omega
  have hlength : (renderChunk chunk).length =
      chunk.oldLines.length + chunk.newLines.length + (if chunk.isEndOfFile then 1 else 0) + 1 := by
    rw [renderChunk, List.length_cons, List.length_append, List.length_append, List.length_map,
      List.length_map, apply_ite List.length, List.length_singleton, List.length_nil]
    omega
  have hne : ¬ (chunk.oldLines.map ('-' :: ·) ++ (chunk.newLines.map ('+' :: ·) ++
      ((if chunk.isEndOfFile then [eofMarker] else []) ++ rest))).isEmpty := by
    rcases h.ne_nil with hne | hne
    · simp [hne]
    · simp [hne]
  rw [parseChunkBody, if_neg hne, parseChunkLines_old, parseChunkLines_new, List.nil_append,
    List.nil_append, parseChunkLines_eof hrest (by omega), hlength, Nat.zero_add]
  rfl

theorem parseUpdateFileChunk_render {chunk : UpdateFileChunk} (h : chunk.WellFormed)
    {rest : List Line} (hrest : EndsChunk rest) (lineNumber : Nat) (allow : Bool) :
    parseUpdateFileChunk (renderChunk chunk ++ rest) lineNumber allow =
      .ok (chunk, (renderChunk chunk).length) := by
  have hbody := parseChunkBody_render h hrest lineNumber
  have hlines : renderChunk chunk ++ rest = contextLine chunk.changeContext ::
      (chunk.oldLines.map ('-' :: ·) ++ (chunk.newLines.map ('+' :: ·) ++
        ((if chunk.isEndOfFile then [eofMarker] else []) ++ rest))) := by
    rw [renderChunk, List.cons_append, List.append_assoc, List.append_assoc]
  rw [hlines, parseUpdateFileChunk]
  cases hcontext : chunk.changeContext with
  | none =>
    rw [contextLine, if_pos rfl]
    rwa [hcontext] at hbody
  | some context =>
    have hmarker : changeContextMarker ++ context ≠ emptyChangeContextMarker := by
      intro heq
      have := congrArg List.length heq
      rw [List.length_append, show changeContextMarker.length = 3 by decide,
        show emptyChangeContextMarker.length = 2 by decide] at this
      omega
    rw [contextLine, if_neg hmarker, stripPrefix_append]
    rwa [hcontext] at hbody

/-! ## Hunks are read back -/

/-- What follows a hunk: nothing, or the header of another. -/
def EndsHunk (rest : List Line) : Prop :=
  ∀ line ∈ rest.head?, line ≠ eofMarker ∧ line.head? = some '*' ∧ (trim line).isEmpty = false

theorem EndsHunk.endsChunk {rest : List Line} (h : EndsHunk rest) : EndsChunk rest :=
  fun line hl => ⟨(h line hl).1, .inr (h line hl).2.1⟩

theorem head_contextLine (context : Option Line) : (contextLine context).head? = some '@' := by
  cases context with
  | none => decide
  | some context =>
    rw [contextLine, List.head?_append, show changeContextMarker.head? = some '@' by decide]
    rfl

theorem readsChunk_contextLine (context : Option Line) (allow : Bool) :
    ReadsChunk allow (contextLine context) := by
  have hhead := head_contextLine context
  refine ⟨by simpa using trim_ne_nil hhead (by decide), by rw [hhead]; decide, fun h => ?_⟩
  have hlength : 2 ≤ (contextLine context).length := by
    cases context with
    | none => decide
    | some context =>
      rw [contextLine, List.length_append, show changeContextMarker.length = 3 by decide]
      omega
  rw [h.2] at hlength
  exact absurd hlength (by decide)

/-- What follows a chunk is the next one, or what follows the hunk. -/
theorem endsChunk_flatMap (chunks : List UpdateFileChunk) {rest : List Line}
    (hrest : EndsHunk rest) : EndsChunk (chunks.flatMap renderChunk ++ rest) := by
  cases chunks with
  | nil => exact hrest.endsChunk
  | cons chunk chunks =>
    intro line hl
    obtain rfl : contextLine chunk.changeContext = line := Option.some.inj hl
    have hhead := head_contextLine chunk.changeContext
    refine ⟨fun heq => ?_, .inl hhead⟩
    rw [heq] at hhead
    exact absurd hhead (by decide)

theorem parseChunks_render {chunks : List UpdateFileChunk} (h : ∀ c ∈ chunks, c.WellFormed)
    {rest : List Line} (hrest : EndsHunk rest) (lineNumber parsedLines : Nat) (allow : Bool)
    (before : List UpdateFileChunk) :
    parseChunks allow lineNumber (chunks.flatMap renderChunk ++ rest) parsedLines before =
      .ok (before ++ chunks, parsedLines + (chunks.flatMap renderChunk).length) := by
  induction chunks generalizing parsedLines before with
  | nil =>
    cases rest with
    | nil =>
      rw [List.flatMap_nil, List.append_nil, parseChunks_nil, List.append_nil]
      rfl
    | cons line rest =>
      obtain ⟨-, hstar, hblank⟩ := hrest line rfl
      rw [List.flatMap_nil, List.nil_append, parseChunks_stop hblank (.inl hstar), List.append_nil]
      rfl
  | cons chunk chunks ih =>
    have hchunk := h chunk List.mem_cons_self
    have hchunks : ∀ c ∈ chunks, c.WellFormed := fun c hc => h c (List.mem_cons_of_mem _ hc)
    have hparse := parseUpdateFileChunk_render hchunk (endsChunk_flatMap chunks hrest)
      (lineNumber + parsedLines) before.isEmpty
    rw [List.flatMap_cons, List.append_assoc]
    obtain ⟨tail, htail⟩ : ∃ tail, renderChunk chunk ++ (chunks.flatMap renderChunk ++ rest) =
        contextLine chunk.changeContext :: tail := ⟨_, rfl⟩
    have hdrop : (contextLine chunk.changeContext :: tail).drop (renderChunk chunk).length =
        chunks.flatMap renderChunk ++ rest := by
      rw [← htail, List.drop_left]
    rw [htail] at hparse ⊢
    rw [parseChunks_chunk (readsChunk_contextLine _ _) hparse, hdrop, ih hchunks,
      List.append_assoc, List.singleton_append, List.length_append, Nat.add_assoc]

theorem trim_header {marker path : List Char} (hmarker : marker.head? = some '*')
    (hpath : PathText path) : trim (marker ++ path) = marker ++ path := by
  refine trim_eq_self ?_ ?_
  · rw [List.head?_append, hmarker]
    simp [show isWhitespace '*' = false by decide]
  · rw [List.getLast?_append_of_ne_nil _ hpath.ne_nil, ← hpath.trimmed]
    exact fun c => getLast_trim

theorem parseOneHunk_addFile {path : List Char} (hpath : PathText path) (lines : List Line)
    {rest : List Line} (hrest : EndsHunk rest) (lineNumber : Nat) (allow : Bool) :
    parseOneHunk (addFileMarker ++ path) (lines.map ('+' :: ·) ++ rest) lineNumber allow =
      .ok (.addFile path (contentsOf lines), lines.length + 1) := by
  have htake : (lines.map ('+' :: ·) ++ rest).takeWhile isAddLine = lines.map ('+' :: ·) := by
    have hall : ∀ line ∈ lines.map ('+' :: ·), isAddLine line := by
      intro line hl
      obtain ⟨text, -, rfl⟩ := List.mem_map.1 hl
      rfl
    rw [List.takeWhile_append_of_pos hall]
    cases rest with
    | nil => rw [List.takeWhile_nil, List.append_nil]
    | cons line rest =>
      have hline : isAddLine line = false := by
        rw [isAddLine, (hrest line rfl).2.1]
        decide
      rw [List.takeWhile_cons, hline]
      exact List.append_nil _
  have hcontents : ((lines.map ('+' :: ·)).flatMap fun line => line.tail ++ ['\n']) =
      contentsOf lines := by
    rw [List.flatMap_map]
    rfl
  rw [parseOneHunk, trim_header (by decide) hpath, stripPrefix_append]
  dsimp only
  rw [htake, hcontents, List.length_map, Nat.add_comm]

theorem parseOneHunk_deleteFile {path : List Char} (hpath : PathText path) (rest : List Line)
    (lineNumber : Nat) (allow : Bool) :
    parseOneHunk (deleteFileMarker ++ path) rest lineNumber allow = .ok (.deleteFile path, 1) := by
  rw [parseOneHunk, trim_header (by decide) hpath,
    stripPrefix_eq_none 5 (by decide) (by decide) (by decide), stripPrefix_append]

theorem parseUpdateHunk_render {movePath : Option (List Char)} {chunks : List UpdateFileChunk}
    (hne : chunks ≠ []) (hchunks : ∀ c ∈ chunks, c.WellFormed) {rest : List Line}
    (hrest : EndsHunk rest) (lineNumber : Nat) (allow : Bool) (path : List Char) :
    parseUpdateHunk allow lineNumber path
      (movePath.toList.map (moveToMarker ++ ·) ++ (chunks.flatMap renderChunk ++ rest)) =
        .ok (.updateFile path movePath chunks,
          (movePath.toList.map (moveToMarker ++ ·) ++ chunks.flatMap renderChunk).length + 1) := by
  have hmove : (movePath.toList.map (moveToMarker ++ ·) ++
      (chunks.flatMap renderChunk ++ rest)).head?.bind (stripPrefix moveToMarker) = movePath := by
    cases movePath with
    | some movePath => exact stripPrefix_append _ _
    | none =>
      obtain ⟨chunk, chunks, rfl⟩ := List.exists_cons_of_ne_nil hne
      have hhead := head_contextLine chunk.changeContext
      show stripPrefix moveToMarker (contextLine chunk.changeContext) = none
      cases hline : contextLine chunk.changeContext with
      | nil => rfl
      | cons c line =>
        rw [hline] at hhead
        obtain rfl := Option.some.inj hhead
        exact stripPrefix_eq_none (m := ['@']) 1 (by decide) (by decide) (by decide) line
  have hdrop : (movePath.toList.map (moveToMarker ++ ·) ++
      (chunks.flatMap renderChunk ++ rest)).drop (if movePath.isSome then 1 else 0) =
        chunks.flatMap renderChunk ++ rest := by
    cases movePath <;> rfl
  have hlength : 1 + (if movePath.isSome then 1 else 0) + (chunks.flatMap renderChunk).length =
      (movePath.toList.map (moveToMarker ++ ·) ++ chunks.flatMap renderChunk).length + 1 := by
    rw [List.length_append]
    cases movePath with
    | none =>
      show 1 + 0 + _ = 0 + _ + 1
      omega
    | some movePath =>
      show 1 + 1 + _ = 1 + _ + 1
      omega
  rw [parseUpdateHunk]
  dsimp only
  rw [hmove, hdrop, parseChunks_render hchunks hrest, List.nil_append, hlength]
  exact if_neg (by simpa using hne)

theorem parseOneHunk_updateFile {path : List Char} (hpath : PathText path)
    {movePath : Option (List Char)} {chunks : List UpdateFileChunk} (hne : chunks ≠ [])
    (hchunks : ∀ c ∈ chunks, c.WellFormed) {rest : List Line} (hrest : EndsHunk rest)
    (lineNumber : Nat) (allow : Bool) :
    parseOneHunk (updateFileMarker ++ path)
      (movePath.toList.map (moveToMarker ++ ·) ++ (chunks.flatMap renderChunk ++ rest)) lineNumber
      allow = .ok (.updateFile path movePath chunks,
        (movePath.toList.map (moveToMarker ++ ·) ++ chunks.flatMap renderChunk).length + 1) := by
  rw [parseOneHunk, trim_header (by decide) hpath,
    stripPrefix_eq_none 5 (by decide) (by decide) (by decide),
    stripPrefix_eq_none 5 (by decide) (by decide) (by decide), stripPrefix_append]
  exact parseUpdateHunk_render hne hchunks hrest lineNumber allow path

/-- A rendered hunk is its header and more. -/
theorem renderHunk_cons (hunk : Hunk) :
    ∃ header tail, renderHunk hunk = header :: tail := by
  cases hunk <;> exact ⟨_, _, rfl⟩

theorem parseOneHunk_render {hunk : Hunk} (h : hunk.WellFormed) {header : Line} {tail rest : List Line}
    (hrender : renderHunk hunk = header :: tail) (hrest : EndsHunk rest) (lineNumber : Nat)
    (allow : Bool) :
    parseOneHunk header (tail ++ rest) lineNumber allow =
      .ok (hunk, (renderHunk hunk).length) := by
  cases hunk with
  | addFile path contents =>
    obtain ⟨hpath, lines, rfl, hlines⟩ := h
    rw [renderHunk_addFile hlines] at hrender ⊢
    cases hrender
    rw [parseOneHunk_addFile hpath lines hrest, List.length_cons, List.length_map]
  | deleteFile path =>
    cases hrender
    exact parseOneHunk_deleteFile h _ lineNumber allow
  | updateFile path movePath chunks =>
    obtain ⟨hpath, -, hne, hchunks⟩ := h
    cases hrender
    rw [List.append_assoc, parseOneHunk_updateFile hpath hne hchunks hrest]
    rfl

theorem endsHunk_header {marker path : List Char} (hmarker : marker.head? = some '*')
    (hlength : 5 ≤ marker.length) (hne : eofMarker.take 5 ≠ marker.take 5) (tail : List Line) :
    EndsHunk ((marker ++ path) :: tail) := by
  intro line hl
  obtain rfl : marker ++ path = line := Option.some.inj hl
  have hhead : (marker ++ path).head? = some '*' := by
    rw [List.head?_append, hmarker]
    rfl
  refine ⟨fun heq => hne ?_, hhead, by simpa using trim_ne_nil hhead (by decide)⟩
  rw [← heq, List.take_append_of_le_length hlength]

theorem endsHunk_render (hunks : List Hunk) : EndsHunk (hunks.flatMap renderHunk) := by
  cases hunks with
  | nil => exact fun _ hl => nomatch hl
  | cons hunk hunks =>
    rw [List.flatMap_cons]
    cases hunk with
    | addFile path contents => exact endsHunk_header (by decide) (by decide) (by decide) _
    | deleteFile path => exact endsHunk_header (by decide) (by decide) (by decide) _
    | updateFile path movePath chunks => exact endsHunk_header (by decide) (by decide) (by decide) _

/-- The rendered hunks are read back, in any mode. -/
theorem parseHunks_render {hunks : List Hunk} (h : ∀ hunk ∈ hunks, hunk.WellFormed) (allow : Bool)
    (lineNumber : Nat) :
    parseHunks allow (hunks.flatMap renderHunk) lineNumber = .ok hunks := by
  induction hunks generalizing lineNumber with
  | nil => exact parseHunks_nil
  | cons hunk hunks ih =>
    obtain ⟨header, tail, hrender⟩ := renderHunk_cons hunk
    have hone := parseOneHunk_render (h hunk List.mem_cons_self) hrender (endsHunk_render hunks)
      lineNumber allow
    have hdrop : (header :: (tail ++ hunks.flatMap renderHunk)).drop (renderHunk hunk).length =
        hunks.flatMap renderHunk := by
      rw [hrender, ← List.cons_append, List.drop_left]
    rw [List.flatMap_cons, hrender, List.cons_append]
    refine parseHunks_cons_eq_ok.2 ⟨_, _, _, hone, ?_, rfl⟩
    rw [hdrop]
    exact ih (fun hunk hh => h hunk (List.mem_cons_of_mem _ hh)) _

/-! ## Patches are read back -/

theorem checkPatchBoundariesStrict_render (body : List Line) :
    checkPatchBoundariesStrict (beginPatchMarker :: body ++ [endPatchMarker]) =
      .ok (beginPatchMarker :: body ++ [endPatchMarker], body) := by
  have hcheck : checkStartAndEndLinesStrict (some beginPatchMarker) (some endPatchMarker) =
      .ok () := by decide
  rw [checkPatchBoundariesStrict, List.getLast?_concat]
  show (checkStartAndEndLinesStrict (some beginPatchMarker) (some endPatchMarker) >>= _) = _
  rw [hcheck, List.cons_append, List.tail_cons, List.dropLast_concat]
  rfl

section
variable {hunks : List Hunk}

theorem lines_renderPatch (h : ∀ hunk ∈ hunks, hunk.WellFormed) :
    lines (renderPatch hunks) = beginPatchMarker :: hunks.flatMap renderHunk ++ [endPatchMarker] := by
  refine lines_contentsOf (fun line hl => ?_) (by decide) (by decide)
  rcases List.mem_cons.1 hl with rfl | hl
  · exact ⟨by decide, by decide⟩
  · obtain ⟨hunk, hh, hl⟩ := List.mem_flatMap.1 hl
    exact oneLine_renderHunk (h hunk hh) line hl

theorem trim_renderPatch : trim (renderPatch hunks) = renderPatch hunks := by
  have hhead : (renderPatch hunks).head? = some '*' := by
    rw [renderPatch, contentsOf_cons, List.append_assoc, List.head?_append,
      show beginPatchMarker.head? = some '*' by decide]
    rfl
  have hlast : (renderPatch hunks).getLast? = some 'h' := by
    rw [renderPatch, List.getLast?_append_of_ne_nil _ (by decide)]
    decide
  exact trim_eq_self_of_ends hhead (by decide) hlast (by decide)

/-- The lines of a rendered patch are the patch that the parser gives. -/
theorem intercalate_renderPatch :
    ['\n'].intercalate (beginPatchMarker :: hunks.flatMap renderHunk ++ [endPatchMarker]) =
      renderPatch hunks :=
  intercalate_append_singleton _ _

def heredocStart : Line := "<<'EOF'".toList
def heredocEnd : Line := "EOF".toList

theorem heredoc_eq : heredoc (renderPatch hunks) =
    contentsOf (heredocStart :: (beginPatchMarker :: hunks.flatMap renderHunk ++ [endPatchMarker])) ++
      heredocEnd := by
  have hlines : contentsOf (beginPatchMarker :: hunks.flatMap renderHunk ++ [endPatchMarker]) =
      renderPatch hunks ++ ['\n'] := by
    rw [contentsOf, List.flatMap_append, List.flatMap_singleton, ← List.append_assoc]
    rfl
  show heredocStart ++ '\n' :: (renderPatch hunks ++ '\n' :: heredocEnd) = _
  rw [contentsOf_cons, hlines, List.append_assoc, List.cons_append, List.append_assoc,
    List.singleton_append]

theorem lines_heredoc (h : ∀ hunk ∈ hunks, hunk.WellFormed) :
    lines (heredoc (renderPatch hunks)) =
      heredocStart :: (beginPatchMarker :: hunks.flatMap renderHunk ++ [endPatchMarker]) ++
        [heredocEnd] := by
  rw [heredoc_eq]
  refine lines_contentsOf (fun line hl => ?_) (by decide) (by decide)
  rw [List.mem_cons, List.mem_append, List.mem_cons, List.mem_singleton] at hl
  rcases hl with rfl | (rfl | hl) | rfl
  · exact ⟨by decide, by decide⟩
  · exact ⟨by decide, by decide⟩
  · obtain ⟨hunk, hh, hl⟩ := List.mem_flatMap.1 hl
    exact oneLine_renderHunk (h hunk hh) line hl
  · exact ⟨by decide, by decide⟩

theorem trim_heredoc (text : List Char) : trim (heredoc text) = heredoc text := by
  have hhead : (heredoc text).head? = some '<' := rfl
  have hlast : (heredoc text).getLast? = some 'F' := by
    show (heredocStart ++ '\n' :: (text ++ '\n' :: heredocEnd)).getLast? = some 'F'
    rw [← List.cons_append, ← List.append_assoc,
      List.getLast?_append_of_ne_nil _ (List.cons_ne_nil _ _)]
    decide
  exact trim_eq_self_of_ends hhead (by decide) hlast (by decide)

/-- The first line of a heredoc is no begin marker, so the lines inside are read. -/
theorem checkPatchBoundariesLenient_heredoc {body : List Line} {bounds : List Line × List Line}
    (h : checkPatchBoundariesStrict body = .ok bounds) (hlength : 2 ≤ body.length) :
    checkPatchBoundariesLenient (heredocStart :: body ++ [heredocEnd]) = .ok bounds := by
  have hstart : (heredocStart :: body ++ [heredocEnd]).head? = some heredocStart := rfl
  have hend : (heredocStart :: body ++ [heredocEnd]).getLast? = some heredocEnd :=
    List.getLast?_concat
  have hinner : (heredocStart :: body ++ [heredocEnd]).tail.dropLast = body := by
    rw [List.cons_append, List.tail_cons, List.dropLast_concat]
  have houter : ∃ error, checkPatchBoundariesStrict (heredocStart :: body ++ [heredocEnd]) =
      .error error := by
    refine ⟨.invalidPatchError "The first line of the patch must be '*** Begin Patch'", ?_⟩
    have hcheck : checkStartAndEndLinesStrict (some heredocStart) (some heredocEnd) =
        .error (.invalidPatchError "The first line of the patch must be '*** Begin Patch'") := by
      decide
    rw [checkPatchBoundariesStrict, hstart, hend, hcheck]
    rfl
  have hheredoc : (some heredocStart).any isHeredocStart ∧
      (some heredocEnd).any ("EOF".toList.isSuffixOf ·) ∧
        4 ≤ (heredocStart :: body ++ [heredocEnd]).length := by
    refine ⟨by decide, by decide, ?_⟩
    rw [List.length_append, List.length_cons, List.length_singleton]
    omega
  obtain ⟨error, houter⟩ := houter
  rw [checkPatchBoundariesLenient, houter, hstart, hend, hinner]
  dsimp only
  rw [if_pos hheredoc, h]

theorem parsePatchText_render (h : ∀ hunk ∈ hunks, hunk.WellFormed) :
    parsePatchText (renderPatch hunks) .strict = .ok ⟨hunks, renderPatch hunks, none⟩ := by
  have hbounds := checkPatchBoundariesStrict_render (hunks.flatMap renderHunk)
  rw [← lines_renderPatch h, ← trim_renderPatch] at hbounds
  refine parsePatchText_eq_ok.2 ⟨_, _, _, hbounds, parseHunks_render h false 2, ?_⟩
  rw [trim_renderPatch, lines_renderPatch h, intercalate_renderPatch]

/-- Well-formed hunks are read back from the canonical patch, as it is and in a heredoc. -/
theorem parsePatch_render (h : ∀ hunk ∈ hunks, hunk.WellFormed) :
    parsePatch (renderPatch hunks) = .ok ⟨hunks, renderPatch hunks, none⟩ ∧
      parsePatch (heredoc (renderPatch hunks)) = .ok ⟨hunks, renderPatch hunks, none⟩ := by
  have hstrict := checkPatchBoundariesStrict_render (hunks.flatMap renderHunk)
  have hhunks := parseHunks_render h false 2
  constructor
  · have hbounds : checkPatchBoundariesLenient (lines (trim (renderPatch hunks))) = .ok
        (beginPatchMarker :: hunks.flatMap renderHunk ++ [endPatchMarker],
          hunks.flatMap renderHunk) := by
      rw [trim_renderPatch, lines_renderPatch h, checkPatchBoundariesLenient, hstrict]
    refine parsePatchText_eq_ok.2 ⟨_, _, _, hbounds, hhunks, ?_⟩
    rw [intercalate_renderPatch]
  · have hlength : 2 ≤ (beginPatchMarker :: hunks.flatMap renderHunk ++ [endPatchMarker]).length := by
      rw [List.length_append, List.length_cons, List.length_singleton]
      omega
    have hbounds := checkPatchBoundariesLenient_heredoc hstrict hlength
    rw [← lines_heredoc h, ← trim_heredoc] at hbounds
    refine parsePatchText_eq_ok.2 ⟨_, _, _, hbounds, hhunks, ?_⟩
    rw [intercalate_renderPatch]

end

/-- An added file, and a moved one with a line that looks like a marker. -/
def exampleHunks : List Hunk :=
  [.addFile "a".toList "x\n\n".toList,
    .updateFile "b".toList (some "c".toList)
      [⟨some [], ["*** End Patch".toList], [], false⟩, ⟨none, [[]], ["y".toList], true⟩]]

theorem pathText_singleton {c : Char} (hc : isWhitespace c = false) (hne : c ≠ '\n') :
    PathText [c] :=
  ⟨List.cons_ne_nil _ _, trim_eq_self_of_ends rfl hc rfl hc,
    by simpa using hne.symm⟩

theorem exampleHunks_wellFormed : ∀ hunk ∈ exampleHunks, hunk.WellFormed := by
  intro hunk hh
  simp only [exampleHunks, List.mem_cons, List.not_mem_nil, or_false] at hh
  rcases hh with rfl | rfl
  · refine ⟨pathText_singleton (by decide) (by decide), ["x".toList, []], by decide, by decide⟩
  · refine ⟨pathText_singleton (by decide) (by decide), ?_, by decide, ?_⟩
    · rintro move ⟨⟩
      exact pathText_singleton (by decide) (by decide)
    · intro chunk hc
      simp only [List.mem_cons, List.not_mem_nil, or_false] at hc
      rcases hc with rfl | rfl
      · constructor <;> decide
      · constructor <;> decide

theorem parsePatch_render_example :
    parsePatch (renderPatch exampleHunks) = .ok ⟨exampleHunks, renderPatch exampleHunks, none⟩ ∧
      parsePatch (heredoc (renderPatch exampleHunks)) =
        .ok ⟨exampleHunks, renderPatch exampleHunks, none⟩ :=
  parsePatch_render exampleHunks_wellFormed

end Mcodex.ApplyPatch
