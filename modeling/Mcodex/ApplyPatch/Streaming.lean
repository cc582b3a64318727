import Mcodex.ApplyPatch.RoundTrip

/-!
# Parsing while the patch is streaming

A patch that is accepted in full is accepted by the streaming parser too, with the same hunks: the
rules that the streaming parser adds apply only where the strict one fails. And while the text
grows, every hunk but the last stays what it was. The last line of a shorter text may go on in a
longer one, so a hunk may change only if it takes lines from there on; every hunk before ends at a
header, which stays a header of the same kind (`IsHeader`) when it goes on.
-/

namespace Mcodex.ApplyPatch

open Text

/-! ## The streaming parser accepts what the strict one does -/

/-- A line that the streaming parser stops at makes no chunk. -/
theorem parseUpdateFileChunk_at (rest : List Line) (lineNumber : Nat) (allow : Bool) :
    ∃ error, parseUpdateFileChunk (['@'] :: rest) lineNumber allow = .error error := by
  rw [parseUpdateFileChunk, if_neg (by decide),
    show stripPrefix changeContextMarker ['@'] = none by decide]
  cases allow with
  | false => exact ⟨_, rfl⟩
  | true =>
    have hlines : ∃ error, parseChunkLines lineNumber (['@'] :: rest) ⟨none, [], [], false⟩ 0 =
        .error error := by
      rw [parseChunkLines, if_neg (by decide)]
      exact ⟨_, rfl⟩
    obtain ⟨error, hlines⟩ := hlines
    refine ⟨error, ?_⟩
    show parseChunkBody lineNumber none (['@'] :: rest) 0 = .error error
    rw [parseChunkBody, hlines]
    rfl

theorem parseChunks_streaming {lineNumber parsedLines : Nat} {lines : List Line}
    {chunks : List UpdateFileChunk} {r : List UpdateFileChunk × Nat}
    (h : parseChunks false lineNumber lines parsedLines chunks = .ok r) :
    parseChunks true lineNumber lines parsedLines chunks = .ok r := by
  induction lines, parsedLines, chunks using parseChunks_induct false lineNumber with
  | nil parsedLines chunks =>
    rw [parseChunks_nil] at h ⊢
    exact h
  | blank line rest parsedLines chunks hblank ih =>
    rw [parseChunks_blank hblank] at h ⊢
    exact ih h
  | stop line rest parsedLines chunks hblank hstop =>
    have hstar : line.head? = some '*' := hstop.resolve_right (by simp)
    rw [parseChunks_stop hblank (.inl hstar)] at h ⊢
    exact h
  | chunk line rest parsedLines chunks chunk n hline hchunk ih =>
    obtain ⟨hblank, hstar, -⟩ := hline
    have hat : line ≠ ['@'] := by
      rintro rfl
      obtain ⟨error, herror⟩ := parseUpdateFileChunk_at rest (lineNumber + parsedLines)
        chunks.isEmpty
      cases hchunk.symm.trans herror
    rw [parseChunks_chunk ⟨hblank, hstar, by simp⟩ hchunk] at h
    rw [parseChunks_chunk ⟨hblank, hstar, by simpa using hat⟩ hchunk]
    exact ih h
  | error line rest parsedLines chunks message n hline hchunk =>
    rw [parseChunks_error hline hchunk, if_neg (by simp)] at h
    cases h

theorem parseUpdateHunk_streaming {lineNumber : Nat} {path : List Char} {lines : List Line}
    {r : Hunk × Nat} (h : parseUpdateHunk false lineNumber path lines = .ok r) :
    parseUpdateHunk true lineNumber path lines = .ok r := by
  obtain ⟨parsed, hchunks, h⟩ := Effect.bind_eq_ok.1 h
  exact Effect.bind_eq_ok.2 ⟨parsed, parseChunks_streaming hchunks, h⟩

theorem parseOneHunk_streaming {first : Line} {rest : List Line} {lineNumber : Nat}
    {r : Hunk × Nat} (h : parseOneHunk first rest lineNumber false = .ok r) :
    parseOneHunk first rest lineNumber true = .ok r := by
  unfold parseOneHunk at h ⊢
  dsimp only at h ⊢
  split
  · next hadd => simpa only [hadd] using h
  · next hadd =>
    simp only [hadd] at h
    split
    · next hdelete => simpa only [hdelete] using h
    · next hdelete =>
      simp only [hdelete] at h
      split
      · next hupdate =>
        simp only [hupdate] at h
        exact parseUpdateHunk_streaming h
      · next hupdate =>
        simp only [hupdate] at h
        cases h

theorem parseHunks_streaming {lines : List Line} {lineNumber : Nat} {hunks : List Hunk}
    (h : parseHunks false lines lineNumber = .ok hunks) :
    parseHunks true lines lineNumber = .ok hunks := by
  induction hunks generalizing lines lineNumber with
  | nil =>
    cases lines with
    | nil => exact parseHunks_nil
    | cons first rest =>
      obtain ⟨_, _, _, -, -, hcons⟩ := parseHunks_cons_eq_ok.1 h
      cases hcons
  | cons hunk hunks ih =>
    cases lines with
    | nil =>
      rw [parseHunks_nil] at h
      cases h
    | cons first rest =>
      obtain ⟨_, n, _, hone, hrest, hcons⟩ := parseHunks_cons_eq_ok.1 h
      cases hcons
      exact parseHunks_cons_eq_ok.2 ⟨_, n, _, parseOneHunk_streaming hone, ih hrest, rfl⟩

theorem checkStartAndEndLinesStrict_eq_ok {firstLine lastLine : Option Line}
    (h : checkStartAndEndLinesStrict firstLine lastLine = .ok ()) :
    firstLine.map trim = some beginPatchMarker ∧ lastLine.map trim = some endPatchMarker := by
  unfold checkStartAndEndLinesStrict at h
  dsimp only at h
  split at h
  · next hmarkers => exact hmarkers
  · split at h
    · cases h
    · cases h

theorem checkPatchBoundaries_streaming {lines : List Line} {bounds : List Line × List Line}
    (h : checkPatchBoundariesStrict lines = .ok bounds) :
    checkPatchBoundariesStreaming lines = .ok bounds := by
  obtain ⟨_, hcheck, hbounds⟩ := Effect.bind_eq_ok.1 h
  obtain ⟨hfirst, hlast⟩ := checkStartAndEndLinesStrict_eq_ok hcheck
  cases hbounds
  rw [checkPatchBoundariesStreaming, if_pos hfirst, if_pos hlast]

/-- What the strict parser accepts, the streaming one accepts with the same hunks. -/
theorem parsePatchStreaming_of_strict {patch : List Char} {args : ApplyPatchArgs}
    (h : parsePatchText patch .strict = .ok args) : parsePatchStreaming patch = .ok args := by
  obtain ⟨patchLines, hunkLines, hunks, hbounds, hhunks, rfl⟩ := parsePatchText_eq_ok.1 h
  exact parsePatchText_eq_ok.2 ⟨_, _, _, checkPatchBoundaries_streaming hbounds,
    parseHunks_streaming hhunks, rfl⟩

/-! ## Headers -/

def headerMarkers : List Line := [addFileMarker, deleteFileMarker, updateFileMarker]

/-- A line that begins a hunk. -/
def IsHeader (line : Line) : Prop := ∃ marker ∈ headerMarkers, marker <+: trim line

section
variable {line p q : Line}

theorem isHeader_of_parseOneHunk {rest : List Line} {lineNumber : Nat} {allow : Bool}
    {r : Hunk × Nat} (h : parseOneHunk line rest lineNumber allow = .ok r) : IsHeader line := by
  have prefix_of : ∀ {marker : Line} {path}, stripPrefix marker (trim line) = some path →
      marker <+: trim line := by
    intro marker path hstrip
    unfold stripPrefix at hstrip
    split at hstrip
    · next hpre => exact List.isPrefixOf_iff_prefix.1 hpre
    · cases hstrip
  unfold parseOneHunk at h
  dsimp only at h
  split at h
  · next hadd => exact ⟨addFileMarker, by simp [headerMarkers], prefix_of hadd⟩
  · split at h
    · next hdelete => exact ⟨deleteFileMarker, by simp [headerMarkers], prefix_of hdelete⟩
    · split at h
      · next hupdate => exact ⟨updateFileMarker, by simp [headerMarkers], prefix_of hupdate⟩
      · cases h

theorem IsHeader.trim_ne {text : Line} (h : IsHeader line)
    (htext : ∀ marker ∈ headerMarkers, ¬ marker <+: text) : trim line ≠ text := by
  rintro rfl
  obtain ⟨marker, hmarker, hpre⟩ := h
  exact htext marker hmarker hpre

theorem IsHeader.head_trim (h : IsHeader line) : (trim line).head? = some '*' := by
  obtain ⟨marker, hmarker, r, hr⟩ := h
  have hhead : ∀ marker ∈ headerMarkers, marker.head? = some '*' := by decide
  rw [← hr, List.head?_append, hhead marker hmarker]
  rfl

theorem IsHeader.trim_ne_nil (h : IsHeader line) : trim line ≠ [] := by
  intro hnil
  have hhead := h.head_trim
  rw [hnil] at hhead
  cases hhead

theorem IsHeader.not_blank (h : IsHeader line) : (trim line).isEmpty = false := by
  simpa using h.trim_ne_nil

/-- A header that goes on is a header. -/
theorem IsHeader.of_isPrefix (h : IsHeader p) (hpq : p <+: q) : IsHeader q := by
  obtain ⟨marker, hmarker, hpre⟩ := id h
  exact ⟨marker, hmarker, hpre.trans (trim_isPrefix hpq h.trim_ne_nil)⟩

theorem IsHeader.trim_ne_endPatchMarker (h : IsHeader line) : trim line ≠ endPatchMarker :=
  h.trim_ne (by decide)

theorem IsHeader.ne_eofMarker (h : IsHeader line) : line ≠ eofMarker := by
  rintro rfl
  have htrim : trim eofMarker = eofMarker := by decide
  exact h.trim_ne (by decide) htrim

/-- A header begins with a star, after whitespace perhaps. -/
theorem IsHeader.head_eq (h : IsHeader line) {c : Char} (hhead : line.head? = some c)
    (hc : isWhitespace c = false) : c = '*' := by
  obtain ⟨rest, rfl⟩ : ∃ rest, line = [c] ++ rest := by
    cases line with
    | nil => cases hhead
    | cons x rest => exact ⟨rest, by rw [Option.some.inj hhead]; rfl⟩
  have hsingle : trim [c] = [c] := trim_eq_self_of_ends rfl hc rfl hc
  have hne : trim [c] ≠ [] := by
    rw [hsingle]
    exact List.cons_ne_nil _ _
  obtain ⟨r, hr⟩ := trim_isPrefix (List.prefix_append [c] rest) hne
  have htrim := h.head_trim
  rw [← hr, hsingle] at htrim
  exact Option.some.inj htrim

theorem IsHeader.head_ne (h : IsHeader line) {c : Char} (hc : isWhitespace c = false)
    (hstar : c ≠ '*') : line.head? ≠ some c :=
  fun hhead => hstar (h.head_eq hhead hc)

theorem IsHeader.not_moveTo (h : IsHeader line) : stripPrefix moveToMarker line = none := by
  refine if_neg fun hmove => ?_
  obtain ⟨r, hr⟩ := List.isPrefixOf_iff_prefix.1 hmove
  have hstart : moveToMarker.take 5 <+: line := by
    rw [← hr]
    exact (List.take_prefix 5 _).trans (List.prefix_append _ r)
  have htrim : trim (moveToMarker.take 5) <+: trim line := trim_isPrefix hstart (by decide)
  obtain ⟨marker, hmarker, hpre⟩ := h
  have hlength : ∀ marker ∈ headerMarkers,
      (trim (moveToMarker.take 5)).length ≤ marker.length := by decide
  have hdiffer : ∀ marker ∈ headerMarkers, ¬ trim (moveToMarker.take 5) <+: marker := by decide
  exact hdiffer marker hmarker
    (List.prefix_of_prefix_length_le htrim hpre (hlength marker hmarker))

/-- A header begins no chunk by itself. -/
theorem IsHeader.parseUpdateFileChunk (h : IsHeader line) (rest : List Line) (lineNumber : Nat) :
    ∃ message n, parseUpdateFileChunk (line :: rest) lineNumber false =
      .error (.invalidHunkError message n) := by
  have hat : line.head? ≠ some '@' := h.head_ne (by decide) (by decide)
  have hempty : line ≠ emptyChangeContextMarker := by
    rintro rfl
    exact hat (by decide)
  have hcontext : stripPrefix changeContextMarker line = none := by
    refine if_neg fun hpre => hat ?_
    obtain ⟨r, rfl⟩ := List.isPrefixOf_iff_prefix.1 hpre
    rw [List.head?_append, show changeContextMarker.head? = some '@' by decide]
    rfl
  rw [ApplyPatch.parseUpdateFileChunk, if_neg hempty, hcontext]
  exact ⟨_, _, rfl⟩

end

/-! ## A hunk that ends at a header

The lines that a hunk takes, and the header after them, decide the hunk: another header that begins
alike ends it in the same way, whatever follows. -/

section
variable {p q : Line} (hp : IsHeader p) (hq : IsHeader q) (hhead : p.head? = q.head?)
  {front rest rest' : List Line} {lineNumber : Nat}

/-- Whether a line is one of a chunk is seen from its first character. -/
theorem push_eq_none {chunk : UpdateFileChunk} (hne : q ≠ []) (hhead : p.head? = q.head?)
    (h : chunk.push p = none) : chunk.push q = none := by
  obtain ⟨c, text, rfl⟩ := List.exists_cons_of_ne_nil hne
  cases p with
  | nil => cases hhead
  | cons d text' =>
    obtain rfl : d = c := Option.some.inj hhead
    rw [UpdateFileChunk.push] at h ⊢
    split at h
    · cases h
    · next hspace =>
      rw [if_neg hspace]
      split at h
      · cases h
      · next hplus =>
        rw [if_neg hplus]
        split at h
        · cases h
        · next hminus => rw [if_neg hminus]

include hp hq hhead

theorem parseChunkLines_header {chunk chunk' : UpdateFileChunk} {parsedLines n : Nat}
    (h : parseChunkLines lineNumber (front ++ p :: rest) chunk parsedLines = .ok (chunk', n))
    (hn : n ≤ parsedLines + front.length) :
    parseChunkLines lineNumber (front ++ q :: rest') chunk parsedLines = .ok (chunk', n) := by
  induction front generalizing chunk parsedLines with
  | nil =>
    rw [List.nil_append, parseChunkLines, if_neg hp.ne_eofMarker] at h
    rw [List.nil_append, parseChunkLines, if_neg hq.ne_eofMarker]
    have hqne : q ≠ [] := by
      rintro rfl
      exact hq.trim_ne_nil rfl
    cases hpush : chunk.push p with
    | some pushed =>
      rw [hpush] at h
      obtain ⟨hle, -, -⟩ := parseChunkLines_le h
      rw [List.length_nil] at hn
      omega
    | none =>
      rw [hpush] at h
      rw [push_eq_none hqne hhead hpush]
      dsimp only at h ⊢
      split at h
      · cases h
      · next hparsed => rw [if_neg hparsed, h]
  | cons line front ih =>
    rw [List.cons_append, parseChunkLines] at h ⊢
    rw [List.length_cons] at hn
    split at h
    · next heof => rw [if_pos heof, h]
    · next heof =>
      rw [if_neg heof]
      cases hpush : chunk.push line with
      | some pushed =>
        rw [hpush] at h
        exact ih h (by omega)
      | none =>
        rw [hpush] at h
        dsimp only at h ⊢
        split at h
        · cases h
        · next hparsed => rw [if_neg hparsed, h]

theorem parseChunkBody_header {context : Option Line} {startIndex n : Nat} {chunk : UpdateFileChunk}
    (h : parseChunkBody lineNumber context (front ++ p :: rest) startIndex = .ok (chunk, n))
    (hn : n ≤ startIndex + front.length) :
    parseChunkBody lineNumber context (front ++ q :: rest') startIndex = .ok (chunk, n) := by
  have hne : ∀ line rest, ¬ (front ++ line :: rest : List Line).isEmpty := by
    intro line rest
    simp
  rw [parseChunkBody, if_neg (hne p rest)] at h
  rw [parseChunkBody, if_neg (hne q rest')]
  cases hlines : parseChunkLines lineNumber (front ++ p :: rest) ⟨context, [], [], false⟩ 0 with
  | error error =>
    rw [hlines] at h
    cases h
  | ok parsed =>
    obtain ⟨chunk', m⟩ := parsed
    rw [hlines] at h
    cases h
    rw [parseChunkLines_header hp hq hhead hlines (by omega)]
    rfl

theorem parseUpdateFileChunk_header {allow : Bool} {n : Nat} {chunk : UpdateFileChunk}
    {line : Line}
    (h : parseUpdateFileChunk (line :: (front ++ p :: rest)) lineNumber allow = .ok (chunk, n))
    (hn : n ≤ front.length + 1) :
    parseUpdateFileChunk (line :: (front ++ q :: rest')) lineNumber allow = .ok (chunk, n) := by
  rw [parseUpdateFileChunk] at h ⊢
  split at h
  · next hempty =>
    rw [if_pos hempty]
    exact parseChunkBody_header hp hq hhead h (by omega)
  · next hempty =>
    rw [if_neg hempty]
    cases hcontext : stripPrefix changeContextMarker line with
    | some context =>
      rw [hcontext] at h
      exact parseChunkBody_header hp hq hhead h (by omega)
    | none =>
      rw [hcontext] at h
      dsimp only at h ⊢
      split at h
      · next hallow =>
        rw [if_pos hallow]
        rw [← List.cons_append] at h ⊢
        exact parseChunkBody_header hp hq hhead h (by rw [List.length_cons]; omega)
      · cases h

/-- A hunk that ends before a header ends before another that begins alike. -/
theorem parseChunks_stop_header {parsedLines : Nat} {chunks chunks' : List UpdateFileChunk}
    (h : parseChunks true lineNumber (p :: rest) parsedLines chunks = .ok (chunks', parsedLines)) :
    parseChunks true lineNumber (q :: rest') parsedLines chunks = .ok (chunks', parsedLines) := by
  by_cases hstar : p.head? = some '*'
  · rw [parseChunks_stop hp.not_blank (.inl hstar)] at h
    rw [parseChunks_stop hq.not_blank (.inl (hhead ▸ hstar)), h]
  · have hreads : ∀ {line}, IsHeader line → line.head? = p.head? → ReadsChunk true line := by
      intro line hline heq
      refine ⟨hline.not_blank, heq ▸ hstar, fun hat => ?_⟩
      exact hline.head_ne (c := '@') (by decide) (by decide) (by rw [hat.2]; rfl)
    cases hchunk : parseUpdateFileChunk (p :: rest) (lineNumber + parsedLines) chunks.isEmpty with
    | ok parsed =>
      obtain ⟨chunk, n⟩ := parsed
      rw [parseChunks_chunk (hreads hp rfl) hchunk] at h
      have hle := parseChunks_le h
      have hpos := parseUpdateFileChunk_le hchunk
      omega
    | error error =>
      obtain ⟨message, n, rfl⟩ := parseUpdateFileChunk_error hchunk
      rw [parseChunks_error (hreads hp rfl) hchunk] at h
      split at h
      · next hchunks =>
        have hempty : chunks.isEmpty = false := by simpa using hchunks.2
        obtain ⟨message, n, hchunk⟩ := hq.parseUpdateFileChunk rest' (lineNumber + parsedLines)
        rw [← hempty] at hchunk
        rw [parseChunks_error (hreads hq hhead.symm) hchunk, if_pos hchunks, h]
      · cases h

theorem parseChunks_header {parsedLines n : Nat} {chunks chunks' : List UpdateFileChunk}
    (h : parseChunks true lineNumber (front ++ p :: rest) parsedLines chunks = .ok (chunks', n))
    (hn : n = parsedLines + front.length) :
    parseChunks true lineNumber (front ++ q :: rest') parsedLines chunks = .ok (chunks', n) := by
  generalize hlines : front ++ p :: rest = lines at h
  induction lines, parsedLines, chunks using parseChunks_induct true lineNumber
    generalizing front with
  | nil parsedLines chunks => simp at hlines
  | blank line tail parsedLines chunks hblank ih =>
    cases front with
    | nil =>
      cases hlines
      rw [hp.not_blank] at hblank
      cases hblank
    | cons line' front =>
      cases hlines
      rw [parseChunks_blank hblank] at h
      rw [List.cons_append, parseChunks_blank hblank]
      rw [List.length_cons] at hn
      exact ih (by omega) rfl h
  | stop line tail parsedLines chunks hblank hstop =>
    cases front with
    | nil =>
      cases hlines
      obtain rfl : n = parsedLines := hn
      exact parseChunks_stop_header hp hq hhead h
    | cons line' front =>
      rw [parseChunks_stop hblank hstop] at h
      cases h
      rw [List.length_cons] at hn
      omega
  | chunk line tail parsedLines chunks chunk m hline hchunk ih =>
    cases front with
    | nil =>
      cases hlines
      obtain rfl : n = parsedLines := hn
      exact parseChunks_stop_header hp hq hhead h
    | cons line' front =>
      cases hlines
      rw [parseChunks_chunk hline hchunk] at h
      have hle := parseChunks_le h
      rw [List.length_cons] at hn
      have hm : m ≤ (line :: front).length := by
        rw [List.length_cons]
        omega
      have hchunk' : parseUpdateFileChunk (line :: (front ++ q :: rest')) (lineNumber + parsedLines)
          chunks.isEmpty = .ok (chunk, m) := parseUpdateFileChunk_header hp hq hhead hchunk hm
      rw [List.cons_append, parseChunks_chunk hline hchunk', ← List.cons_append,
        List.drop_append_of_le_length hm]
      refine ih ?_ ?_ h
      · rw [List.length_drop, List.length_cons]
        rw [List.length_cons] at hm
        omega
      · exact (List.drop_append_of_le_length hm).symm
  | error line tail parsedLines chunks message m hline hchunk =>
    cases front with
    | nil =>
      cases hlines
      obtain rfl : n = parsedLines := hn
      exact parseChunks_stop_header hp hq hhead h
    | cons line' front =>
      rw [parseChunks_error hline hchunk] at h
      split at h
      · cases h
        rw [List.length_cons] at hn
        omega
      · cases h

theorem parseUpdateHunk_header {path : List Char} {hunk : Hunk}
    (h : parseUpdateHunk true lineNumber path (front ++ p :: rest) =
      .ok (hunk, front.length + 1)) :
    parseUpdateHunk true lineNumber path (front ++ q :: rest') =
      .ok (hunk, front.length + 1) := by
  have hmove : (front ++ q :: rest').head?.bind (stripPrefix moveToMarker) =
      (front ++ p :: rest).head?.bind (stripPrefix moveToMarker) := by
    cases front with
    | nil => exact hq.not_moveTo.trans hp.not_moveTo.symm
    | cons line front => rfl
  have hfront : (front ++ p :: rest).head?.bind (stripPrefix moveToMarker) ≠ none →
      0 < front.length := by
    intro hne
    cases front with
    | nil => exact absurd hp.not_moveTo hne
    | cons line front => exact Nat.succ_pos _
  unfold parseUpdateHunk at h ⊢
  rw [hmove]
  generalize (front ++ p :: rest).head?.bind (stripPrefix moveToMarker) = movePath at h hfront
  have hle : (if movePath.isSome then 1 else 0) ≤ front.length := by
    cases movePath with
    | none => exact Nat.zero_le _
    | some path => exact hfront (by simp)
  dsimp only at h ⊢
  rw [List.drop_append_of_le_length hle] at h ⊢
  obtain ⟨⟨chunks, n⟩, hchunks, h⟩ := Effect.bind_eq_ok.1 h
  refine Effect.bind_eq_ok.2 ⟨(chunks, n), parseChunks_header hp hq hhead hchunks ?_, h⟩
  dsimp only at h
  split at h
  · cases h
  · cases h
    rw [List.length_drop]
    omega

/-- A hunk that ends before a header is the same before another that begins alike. -/
theorem parseOneHunk_header {first : Line} {hunk : Hunk}
    (h : parseOneHunk first (front ++ p :: rest) lineNumber true =
      .ok (hunk, front.length + 1)) :
    parseOneHunk first (front ++ q :: rest') lineNumber true = .ok (hunk, front.length + 1) := by
  unfold parseOneHunk at h ⊢
  dsimp only at h ⊢
  cases hadd : stripPrefix addFileMarker (trim first) with
  | some path =>
    simp only [hadd] at h ⊢
    have hadded : (front ++ q :: rest').takeWhile isAddLine =
        (front ++ p :: rest).takeWhile isAddLine := by
      have hfront : (front ++ p :: rest).takeWhile isAddLine = front := by
        have hlength : ((front ++ p :: rest).takeWhile isAddLine).length = front.length := by
          have hparsed := congrArg Prod.snd (Except.ok.inj h)
          dsimp only at hparsed
          omega
        exact (List.prefix_of_prefix_length_le (List.takeWhile_prefix _)
          (List.prefix_append _ _) hlength.le).eq_of_length hlength
      have hnot : isAddLine q = false := by
        have hplus : q.head? ≠ some '+' := hq.head_ne (by decide) (by decide)
        simpa [isAddLine] using hplus
      have hall : ∀ line ∈ front, isAddLine line := by
        intro line hline
        rw [← hfront] at hline
        exact List.mem_takeWhile_imp hline
      rw [hfront, List.takeWhile_append_of_pos hall, List.takeWhile_cons, hnot]
      exact List.append_nil _
    rw [hadded, h]
  | none =>
    simp only [hadd] at h ⊢
    cases hdelete : stripPrefix deleteFileMarker (trim first) with
    | some path =>
      simp only [hdelete] at h ⊢
      exact h
    | none =>
      simp only [hdelete] at h ⊢
      cases hupdate : stripPrefix updateFileMarker (trim first) with
      | some path =>
        simp only [hupdate] at h ⊢
        exact parseUpdateHunk_header hp hq hhead h
      | none =>
        simp only [hupdate] at h
        cases h

end

/-! ## Lines of a text that grows -/

/-- The lines of a body while the patch is streaming: lines are added, the last one goes on, or it
turns out to be the end marker. -/
inductive Grows : List Line → List Line → Prop where
  | more (lines rest : List Line) : Grows lines (lines ++ rest)
  | goesOn (front : List Line) {p q : Line} (hpq : p <+: q) (rest : List Line) :
    Grows (front ++ [p]) (front ++ q :: rest)
  | ends (front : List Line) {p : Line} (hp : ¬ IsHeader p) : Grows (front ++ [p]) front

/-- A header of the shorter body is there in the longer one, after the same lines. -/
theorem Grows.header {front rest lines : List Line} {p : Line}
    (h : Grows (front ++ p :: rest) lines) (hp : IsHeader p) :
    ∃ q rest', lines = front ++ q :: rest' ∧ p <+: q ∧ Grows (p :: rest) (q :: rest') := by
  generalize hshort : front ++ p :: rest = short at h
  cases h with
  | more _ more =>
    subst hshort
    refine ⟨p, rest ++ more, by simp, List.prefix_rfl, ?_⟩
    exact Grows.more (p :: rest) more
  | @goesOn front' p' q hpq more =>
    cases rest using List.reverseRecOn with
    | nil =>
      obtain ⟨rfl, hlast⟩ := List.append_inj' hshort rfl
      cases hlast
      exact ⟨q, more, rfl, hpq, Grows.goesOn [] hpq more⟩
    | append_singleton rest last =>
      rw [← List.cons_append, ← List.append_assoc] at hshort
      obtain ⟨rfl, hlast⟩ := List.append_inj' hshort rfl
      cases hlast
      refine ⟨p, rest ++ q :: more, by simp, List.prefix_rfl, ?_⟩
      exact Grows.goesOn (p :: rest) hpq more
  | @ends front' p' hp' =>
    cases rest using List.reverseRecOn with
    | nil =>
      obtain ⟨rfl, hlast⟩ := List.append_inj' hshort rfl
      cases hlast
      exact absurd hp hp'
    | append_singleton rest last =>
      rw [← List.cons_append, ← List.append_assoc] at hshort
      obtain ⟨rfl, hlast⟩ := List.append_inj' hshort rfl
      cases hlast
      exact ⟨p, rest, rfl, List.prefix_rfl, Grows.ends (p :: rest) hp'⟩

/-- Some hunks are kept by others: there are no fewer, and all but the last are the same. -/
def Kept (hunks hunks' : List Hunk) : Prop :=
  hunks.length ≤ hunks'.length ∧ hunks.dropLast <+: hunks'

theorem isHeader_of_parseHunks {first : Line} {rest : List Line} {lineNumber : Nat} {allow : Bool}
    {hunks : List Hunk} (h : parseHunks allow (first :: rest) lineNumber = .ok hunks) :
    IsHeader first := by
  obtain ⟨_, _, _, hone, -⟩ := parseHunks_cons_eq_ok.1 h
  exact isHeader_of_parseOneHunk hone

theorem Kept.cons {hunks hunks' : List Hunk} (h : Kept hunks hunks') (hne : hunks ≠ [])
    (hunk : Hunk) : Kept (hunk :: hunks) (hunk :: hunks') := by
  obtain ⟨hlength, hpre⟩ := h
  refine ⟨Nat.succ_le_succ hlength, ?_⟩
  rw [List.dropLast_cons_of_ne_nil hne]
  exact (List.prefix_cons_inj hunk).2 hpre

/-- The header at which a hunk ends, if another hunk follows. -/
theorem parseHunks_next {allow : Bool} {first : Line} {rest : List Line} {lineNumber n : Nat}
    {hunks : List Hunk} (hpos : 0 < n)
    (h : parseHunks allow ((first :: rest).drop n) (lineNumber + n) = .ok hunks)
    (hne : hunks ≠ []) :
    ∃ front p after, rest = front ++ p :: after ∧ n = front.length + 1 ∧ IsHeader p := by
  obtain ⟨m, rfl⟩ := Nat.exists_eq_succ_of_ne_zero (Nat.ne_of_gt hpos)
  rw [List.drop_succ_cons] at h
  cases hdrop : rest.drop m with
  | nil =>
    rw [hdrop, parseHunks_nil] at h
    cases h
    exact absurd rfl hne
  | cons p after =>
    rw [hdrop] at h
    have hlength := congrArg List.length hdrop
    rw [List.length_drop, List.length_cons] at hlength
    refine ⟨rest.take m, p, after, ?_, ?_, isHeader_of_parseHunks h⟩
    · rw [← hdrop, List.take_append_drop]
    · rw [List.length_take]
      omega

theorem head_eq_of_isPrefix {p q : Line} (hpq : p <+: q) (hp : IsHeader p) : p.head? = q.head? := by
  obtain ⟨r, rfl⟩ := hpq
  cases p with
  | nil => exact absurd rfl hp.trim_ne_nil
  | cons c p => rfl

theorem parseHunks_grows {lines lines' : List Line} {lineNumber : Nat} {hunks hunks' : List Hunk}
    (hgrows : Grows lines lines') (h : parseHunks true lines lineNumber = .ok hunks)
    (h' : parseHunks true lines' lineNumber = .ok hunks') : Kept hunks hunks' := by
  induction hunks generalizing lines lines' lineNumber hunks' with
  | nil => exact ⟨Nat.zero_le _, List.nil_prefix⟩
  | cons hunk hunks ih =>
    cases lines with
    | nil =>
      rw [parseHunks_nil] at h
      cases h
    | cons first rest =>
      have hfirst := isHeader_of_parseHunks h
      obtain ⟨_, n, _, hone, hrest, hcons⟩ := parseHunks_cons_eq_ok.1 h
      cases hcons
      cases hunks with
      | nil =>
        -- the only hunk may change, but its header is still there
        have hheader : ∃ q rest', lines' = q :: rest' := by
          obtain ⟨q, rest', hlines', -⟩ := @Grows.header [] rest lines' first hgrows hfirst
          exact ⟨q, rest', hlines'⟩
        obtain ⟨q, rest', rfl⟩ := hheader
        obtain ⟨_, _, _, -, -, rfl⟩ := parseHunks_cons_eq_ok.1 h'
        exact ⟨Nat.succ_le_succ (Nat.zero_le _), List.nil_prefix⟩
      | cons next hunks =>
        have hpos := (parseOneHunk_le hone).1
        obtain ⟨front, p, after, rfl, rfl, hp⟩ := parseHunks_next hpos hrest (List.cons_ne_nil _ _)
        obtain ⟨q, rest', rfl, hpq, hgrows'⟩ :=
          @Grows.header (first :: front) after lines' p hgrows hp
        have hone' : parseOneHunk first (front ++ q :: rest') lineNumber true =
            .ok (hunk, front.length + 1) :=
          parseOneHunk_header hp (hp.of_isPrefix hpq) (head_eq_of_isPrefix hpq hp) hone
        rw [List.cons_append] at h'
        obtain ⟨_, _, _, hone'', hrest', rfl⟩ := parseHunks_cons_eq_ok.1 h'
        cases hone'.symm.trans hone''
        rw [List.drop_succ_cons, List.drop_left] at hrest hrest'
        exact (ih hgrows' hrest hrest').cons (List.cons_ne_nil _ _) hunk

/-! ## Texts that grow -/

/-- The body of a patch, before its end marker if it has one. -/
def bodyLines (lines : List Line) : List Line :=
  if lines.getLast?.map trim = some endPatchMarker then lines.tail.dropLast else lines.tail

theorem checkPatchBoundariesStreaming_eq_ok {lines : List Line} {bounds : List Line × List Line}
    (h : checkPatchBoundariesStreaming lines = .ok bounds) :
    lines ≠ [] ∧ bounds.2 = bodyLines lines := by
  unfold checkPatchBoundariesStreaming at h
  split at h
  · next hfirst =>
    cases h
    refine ⟨?_, rfl⟩
    rintro rfl
    cases hfirst
  · next hfirst =>
    obtain ⟨_, hcheck, -⟩ := Effect.bind_eq_ok.1 h
    exact absurd (checkStartAndEndLinesStrict_eq_ok hcheck).1 hfirst

theorem grows_bodyLines {first : Line} {front : List Line} {p q : Line} (hpq : p <+: q)
    (rest : List Line) :
    Grows (bodyLines (first :: front ++ [p])) (bodyLines (first :: front ++ q :: rest)) := by
  have hshort : bodyLines (first :: front ++ [p]) =
      if trim p = endPatchMarker then front else front ++ [p] := by
    rw [bodyLines, List.getLast?_concat, List.cons_append, List.tail_cons, List.dropLast_concat]
    simp
  rw [hshort, bodyLines, List.cons_append, List.tail_cons]
  split
  · -- the shorter text has its end marker, and the longer one goes on after it
    split
    · rw [List.dropLast_append_of_ne_nil (List.cons_ne_nil _ _)]
      exact Grows.more _ _
    · exact Grows.more _ _
  · split
    · next hend =>
      cases rest with
      | nil =>
        rw [List.dropLast_concat]
        rw [← List.cons_append, List.getLast?_concat] at hend
        have hq : trim q = endPatchMarker := by simpa using hend
        exact Grows.ends front fun hp => (hp.of_isPrefix hpq).trim_ne_endPatchMarker hq
      | cons line rest =>
        rw [List.dropLast_append_of_ne_nil (List.cons_ne_nil _ _),
          List.dropLast_cons_of_ne_nil (List.cons_ne_nil _ _)]
        exact Grows.goesOn front hpq _
    · exact Grows.goesOn front hpq rest

/-- While a text grows, the streaming parser keeps the hunks it gave, the last one apart. -/
theorem parsePatchStreaming_kept {shorter longer : List Char} (hpre : shorter <+: longer)
    {args args' : ApplyPatchArgs} (h : parsePatchStreaming shorter = .ok args)
    (h' : parsePatchStreaming longer = .ok args') : Kept args.hunks args'.hunks := by
  obtain ⟨_, body, hunks, hbounds, hhunks, rfl⟩ := parsePatchText_eq_ok.1 h
  obtain ⟨_, body', hunks', hbounds', hhunks', rfl⟩ := parsePatchText_eq_ok.1 h'
  obtain ⟨hne, rfl⟩ := checkPatchBoundariesStreaming_eq_ok hbounds
  obtain ⟨-, rfl⟩ := checkPatchBoundariesStreaming_eq_ok hbounds'
  have htrim : trim shorter ≠ [] := by
    intro hnil
    rw [hnil] at hne
    exact hne (by decide)
  obtain ⟨front, p, q, back, hlines, hlines', hpq, -, -⟩ :=
    lines_isPrefix (trim_isPrefix hpre htrim) htrim fun c => getLast_trim
  rw [hlines] at hhunks
  rw [hlines'] at hhunks'
  show Kept hunks hunks'
  cases front with
  | nil =>
    have hbody : bodyLines ([] ++ [p]) = [] := ite_self []
    rw [hbody, parseHunks_nil] at hhunks
    cases hhunks
    exact ⟨Nat.zero_le _, List.nil_prefix⟩
  | cons first front => exact parseHunks_grows (grows_bodyLines hpq back) hhunks hhunks'

/-- Parsing a streaming patch is stable and agrees with the final parse. -/
theorem streaming_stable :
    (∀ patch args, parsePatchText patch .strict = .ok args → parsePatchStreaming patch = .ok args) ∧
      ∀ patch shorter longer, shorter <+: patch → longer <+: patch →
        shorter.length ≤ longer.length → ∀ args args', parsePatchStreaming shorter = .ok args →
          parsePatchStreaming longer = .ok args' → Kept args.hunks args'.hunks := by
  constructor
  · intro patch args h
    exact parsePatchStreaming_of_strict h
  · intro patch shorter longer hshorter hlonger hlength args args' h h'
    exact parsePatchStreaming_kept (List.prefix_of_prefix_length_le hshorter hlonger hlength) h h'

/-- An added file and a deleted one. -/
def twoHunks (path : List Char) : List Hunk :=
  [.addFile "a".toList "x\n\n".toList, .deleteFile path]

theorem twoHunks_wellFormed {path : List Char} (hpath : PathText path) :
    ∀ hunk ∈ twoHunks path, hunk.WellFormed := by
  intro hunk hh
  simp only [twoHunks, List.mem_cons, List.not_mem_nil, or_false] at hh
  have ha : PathText "a".toList := pathText_singleton (by decide) (by decide)
  rcases hh with rfl | rfl
  · exact ⟨ha, ["x".toList, []], by decide, by decide⟩
  · exact hpath

/-- The patch up to a line that is not yet whole. -/
def twoHunksStart : List Char :=
  contentsOf [beginPatchMarker, "*** Add File: a".toList, "+x".toList, "+".toList] ++
    "*** Delete File: b".toList

theorem parsePatchStreaming_twoHunksStart :
    parsePatchStreaming twoHunksStart = .ok ⟨twoHunks ['b'], twoHunksStart, none⟩ := by
  have hhunks : parseHunks true ((twoHunks ['b']).flatMap renderHunk) 2 = .ok (twoHunks ['b']) :=
    parseHunks_render (twoHunks_wellFormed (pathText_singleton (by decide) (by decide))) true 2
  have hbounds : checkPatchBoundariesStreaming (lines (trim twoHunksStart)) =
      .ok (beginPatchMarker :: (twoHunks ['b']).flatMap renderHunk,
        (twoHunks ['b']).flatMap renderHunk) := by decide
  exact parsePatchText_eq_ok.2 ⟨_, _, _, hbounds, hhunks, by decide⟩

theorem streaming_stable_example :
    let patch := renderPatch (twoHunks ['b', 'c'])
    twoHunksStart <+: patch ∧ parsePatchStreaming patch = .ok ⟨twoHunks ['b', 'c'], patch, none⟩ ∧
      Kept (twoHunks ['b']) (twoHunks ['b', 'c']) := by
  have hpath : PathText ['b', 'c'] :=
    ⟨by decide, trim_eq_self_of_ends rfl (by decide) rfl (by decide), by decide⟩
  have hpre : twoHunksStart <+: renderPatch (twoHunks ['b', 'c']) := by decide
  have hstrict := streaming_stable.1 _ _ (parsePatchText_render (twoHunks_wellFormed hpath))
  have hkept := streaming_stable.2 _ _ _ hpre List.prefix_rfl hpre.length_le _ _
    parsePatchStreaming_twoHunksStart hstrict
  exact ⟨hpre, hstrict, hkept⟩

end Mcodex.ApplyPatch
