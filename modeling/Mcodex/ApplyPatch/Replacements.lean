import Mcodex.ApplyPatch.SeekSequence
import Mcodex.Lib.Splice

/-!
# The regions that chunks replace

Each chunk gives a region of the file: the lines it replaces, sought from where the last region
ended, or an empty region for lines that are added. The regions are sorted and replaced from the
last one to the first one. A chunk at the end of the file is sought in the last lines whatever
regions come before, and additions go in front of a last line that is empty, so that regions can
overlap (`splices_iff`).
-/

namespace Mcodex.ApplyPatch

open Effect Ranking Splice

inductive ApplyPatchError
  | computeReplacements (message : String)
  deriving DecidableEq

/-- The start, the number of the old lines and the new lines. -/
abbrev Replacement := Region Line

/-- The last line is there and empty. -/
def endsEmpty (lines : List Line) : Bool := lines.getLast?.any List.isEmpty

section
variable (lines : List Line) (path : String) (lineIndex : Nat) (chunk : UpdateFileChunk)

/-- The line after the context of the chunk, if it has one. -/
def findContext : Except ApplyPatchError Nat :=
  match chunk.changeContext with
  | none => .ok lineIndex
  | some ctxLine =>
    match seekSequence lines [ctxLine] lineIndex false with
    | some idx => .ok (idx + 1)
    | none => .error (.computeReplacements
        ("Failed to find context '" ++ String.ofList ctxLine ++ "' in " ++ path))

/-- Added lines come at the end, or before the final empty line. -/
def insertionIdx : Nat := if endsEmpty lines then lines.length - 1 else lines.length

/-- The old lines are sought, and sought again without an empty last one. -/
def locate : Option Replacement :=
  match seekSequence lines chunk.oldLines lineIndex chunk.isEndOfFile with
  | some startIdx => some ⟨startIdx, chunk.oldLines.length, chunk.newLines⟩
  | none =>
    if endsEmpty chunk.oldLines then
      let pattern := chunk.oldLines.dropLast
      let newSlice := if endsEmpty chunk.newLines then chunk.newLines.dropLast else chunk.newLines
      (seekSequence lines pattern lineIndex chunk.isEndOfFile).map fun startIdx =>
        ⟨startIdx, pattern.length, newSlice⟩
    else none

/-- The replacement of a chunk, and the line from which the next one is sought. -/
def replacementOf : Except ApplyPatchError (Replacement × Nat) := do
  let lineIndex ← findContext lines path lineIndex chunk
  if chunk.oldLines.isEmpty then
    .ok (⟨insertionIdx lines, 0, chunk.newLines⟩, lineIndex)
  else
    match locate lines lineIndex chunk with
    | some replacement => .ok (replacement, replacement.stop)
    | none => .error (.computeReplacements ("Failed to find expected lines in " ++ path ++ ":\n" ++
        String.ofList (['\n'].intercalate chunk.oldLines)))

/-- The loop over the chunks. -/
def replacementsFrom : Nat → List UpdateFileChunk → Except ApplyPatchError (List Replacement)
  | _, [] => .ok []
  | lineIndex, chunk :: chunks => do
    let (replacement, lineIndex) ← replacementOf lines path lineIndex chunk
    let replacements ← replacementsFrom lineIndex chunks
    .ok (replacement :: replacements)

def compareStart (lhs rhs : Replacement) : Ordering := compare lhs.start rhs.start

def computeReplacements (chunks : List UpdateFileChunk) :
    Except ApplyPatchError (List Replacement) :=
  (replacementsFrom lines path 0 chunks).map (sortBy compareStart)

end

/-! ## Applying replacements -/

/-- Lines are removed one by one, as long as there are any. -/
def removeLines (startIdx : Nat) : Nat → List Line → List Line
  | 0, lines => lines
  | oldLen + 1, lines =>
    removeLines startIdx oldLen (if startIdx < lines.length then lines.eraseIdx startIdx else lines)

/-- Lines are inserted one after the other. -/
def insertLines : Nat → List Line → List Line → List Line
  | _, [], lines => lines
  | idx, newLine :: newSegment, lines =>
    insertLines (idx + 1) newSegment (lines.insertIdx idx newLine)

def applyReplacement (lines : List Line) (replacement : Replacement) : List Line :=
  insertLines replacement.start replacement.newLines
    (removeLines replacement.start replacement.oldLen lines)

def applyReplacements (lines : List Line) (replacements : List Replacement) : List Line :=
  replacements.reverse.foldl applyReplacement lines

section
variable {lines newSegment : List Line} {startIdx oldLen : Nat} {replacement : Replacement}
  {replacements : List Replacement}

theorem removeLines_eq : removeLines startIdx oldLen lines =
    lines.take startIdx ++ lines.drop (startIdx + oldLen) := by
  induction oldLen generalizing lines with
  | zero => exact (List.take_append_drop startIdx lines).symm
  | succ oldLen ih =>
    rw [removeLines]
    split
    · rename_i hlt
      have hlen : (lines.take startIdx).length = startIdx := List.length_take_of_le hlt.le
      rw [ih, List.eraseIdx_eq_take_drop_succ, List.take_append_of_le_length hlen.ge,
        List.take_take, Nat.min_self, List.drop_append, hlen,
        List.drop_eq_nil_of_le (by omega), List.nil_append, List.drop_drop]
      congr 2
      omega
    · rw [ih, List.drop_eq_nil_of_le (by omega), List.drop_eq_nil_of_le (by omega)]

theorem insertIdx_length (before after : List Line) (newLine : Line) :
    (before ++ after).insertIdx before.length newLine = before ++ newLine :: after := by
  induction before with
  | nil => rfl
  | cons line before ih =>
    rw [List.cons_append, List.length_cons, List.insertIdx_succ_cons, ih, List.cons_append]

theorem insertLines_eq (before after newSegment : List Line) :
    insertLines before.length newSegment (before ++ after) = before ++ newSegment ++ after := by
  induction newSegment generalizing before with
  | nil => rw [insertLines, List.append_nil]
  | cons newLine newSegment ih =>
    have hnext : before ++ newLine :: after = (before ++ [newLine]) ++ after := by
      rw [List.append_assoc]
      rfl
    have hlen : before.length + 1 = (before ++ [newLine]).length := by
      rw [List.length_append]
      rfl
    rw [insertLines, insertIdx_length, hnext, hlen, ih, List.append_assoc before]
    rfl

theorem applyReplacement_eq (h : replacement.start ≤ lines.length) :
    applyReplacement lines replacement = replacement.replace lines := by
  have hinsert := insertLines_eq (lines.take replacement.start)
    (lines.drop (replacement.start + replacement.oldLen)) replacement.newLines
  rw [List.length_take_of_le h] at hinsert
  rw [applyReplacement, removeLines_eq]
  exact hinsert

/-- Replacements in order and apart are a splice. -/
theorem applyReplacements_eq
    (h : ∀ replacement ∈ replacements, replacement.stop ≤ lines.length)
    (hbefore : replacements.Pairwise Before) :
    applyReplacements lines replacements = splice lines 0 replacements := by
  rw [← replaceAll_eq_splice h hbefore, applyReplacements, List.foldl_reverse]
  induction replacements with
  | nil => rfl
  | cons replacement replacements ih =>
    have hbefore' := List.pairwise_cons.1 hbefore
    have hrest : ∀ replacement ∈ replacements, replacement.stop ≤ lines.length :=
      fun replacement' hmem => h replacement' (List.mem_cons_of_mem _ hmem)
    have hlen : replacement.stop ≤ (replaceAll lines replacements).length := by
      rw [replaceAll_eq_splice hrest hbefore'.2]
      exact le_length_splice (h replacement List.mem_cons_self) hbefore'.1
    rw [List.foldr_cons, ih hrest hbefore'.2]
    exact applyReplacement_eq ((Nat.le_add_right _ _).trans hlen)

/-! ## Where the region of a chunk lies -/

/-- The region has the lines of the chunk, less an empty last one that was left out. -/
def Gives (chunk : UpdateFileChunk) (replacement : Replacement) : Prop :=
  replacement.newLines = chunk.newLines ∨ replacement.newLines ++ [[]] = chunk.newLines

variable {pattern : List Line} {path : String} {lineIndex lineIndex' : Nat}
  {chunk : UpdateFileChunk} {chunks : List UpdateFileChunk} {eof : Bool} {i : Nat}

theorem dropLast_append_of_endsEmpty (h : endsEmpty lines) : lines.dropLast ++ [[]] = lines := by
  rw [endsEmpty, Option.any_eq_true] at h
  obtain ⟨line, hline, hnil⟩ := h
  rw [List.isEmpty_iff] at hnil
  exact List.dropLast_append_getLast? _ (hnil ▸ hline)

/-- What is found lies in the file, and from the start on or at the end. -/
theorem seekSequence_bounds (hindex : lineIndex ≤ lines.length)
    (h : seekSequence lines pattern lineIndex eof = some i) :
    i + pattern.length ≤ lines.length ∧ (pattern.length = 0 → i = lineIndex) ∧
      (pattern.length ≠ 0 → if eof then i + pattern.length = lines.length else lineIndex ≤ i) := by
  by_cases hnil : pattern = []
  · subst hnil
    obtain rfl : lineIndex = i := Option.some.inj h
    exact ⟨hindex, fun _ => rfl, fun hne => absurd rfl hne⟩
  · rw [seekSequence_eq hnil] at h
    obtain ⟨level, hsome, -⟩ := findSome_seekAt_eq_some.1 h
    obtain ⟨hstart, hmatch, -⟩ := seekAt_eq_some.1 hsome
    have hle := hmatch.1
    refine ⟨hle, fun hlen => absurd (List.length_eq_zero_iff.1 hlen) hnil, fun _ => ?_⟩
    rw [searchStartOf] at hstart
    split
    · rename_i heof
      rw [if_pos heof] at hstart
      omega
    · rename_i heof
      rwa [if_neg heof] at hstart

/-- A region that was located lies in the file, and from the line on or at the end. -/
structure Located (lines : List Line) (lineIndex : Nat) (chunk : UpdateFileChunk)
    (replacement : Replacement) : Prop where
  stop_le : replacement.stop ≤ lines.length
  empty : replacement.oldLen = 0 → replacement.start = lineIndex
  nonempty : replacement.oldLen ≠ 0 →
    if chunk.isEndOfFile then replacement.stop = lines.length else lineIndex ≤ replacement.start
  gives : Gives chunk replacement

theorem located_of_locate (hindex : lineIndex ≤ lines.length)
    (h : locate lines lineIndex chunk = some replacement) :
    Located lines lineIndex chunk replacement := by
  rw [locate] at h
  split at h
  · rename_i startIdx hseek
    obtain rfl := Option.some.inj h
    obtain ⟨hle, hempty, hnonempty⟩ := seekSequence_bounds hindex hseek
    exact ⟨hle, hempty, hnonempty, .inl rfl⟩
  · split at h
    · obtain ⟨startIdx, hseek, rfl⟩ := Option.map_eq_some_iff.1 h
      obtain ⟨hle, hempty, hnonempty⟩ := seekSequence_bounds hindex hseek
      refine ⟨hle, hempty, hnonempty, ?_⟩
      show _ ∨ _
      dsimp only
      split
      · exact .inr (dropLast_append_of_endsEmpty ‹_›)
      · exact .inl rfl
    · cases h

theorem findContext_bounds (hindex : lineIndex ≤ lines.length)
    (h : findContext lines path lineIndex chunk = .ok lineIndex') :
    lineIndex ≤ lineIndex' ∧ lineIndex' ≤ lines.length := by
  rw [findContext] at h
  split at h
  · obtain rfl := Except.ok.inj h
    exact ⟨le_rfl, hindex⟩
  · split at h
    · rename_i idx hseek
      obtain rfl := Except.ok.inj h
      obtain ⟨hle, -, hstart⟩ := seekSequence_bounds hindex hseek
      have hle' : lineIndex ≤ idx := hstart Nat.one_ne_zero
      exact ⟨by omega, hle⟩
    · cases h

/-! ## Regions that are apart -/

/-- A nonempty region that a chunk was located at keeps apart from those before: at the end of the
file it does not reach back over the end of the last one, and with lines added before a final empty
line it has that line only if it has no other. -/
def KeepsApart (lines : List Line) (lastEnd : Nat) (added : Bool) (chunk : UpdateFileChunk)
    (replacement : Replacement) : Prop :=
  replacement.oldLen ≠ 0 →
    (chunk.isEndOfFile → lastEnd + replacement.oldLen ≤ lines.length) ∧
    (added → endsEmpty lines → replacement.stop = lines.length → replacement.oldLen = 1)

/-- The end of the last region, of which an empty one at the end of the file is none. -/
def lastEndAfter (lines : List Line) (lastEnd : Nat) (replacement : Replacement) : Nat :=
  if replacement.oldLen = 0 ∧ replacement.start = lines.length then lastEnd else replacement.stop

/-- The chunks are placed apart, as the loop comes to them: a chunk that adds lines before a final
empty line comes before any that replaces it, and located regions keep apart. -/
def PlacedApart (lines : List Line) (path : String) :
    Nat → Nat → Bool → List UpdateFileChunk → Prop
  | _, _, _, [] => True
  | lineIndex, lastEnd, added, chunk :: chunks =>
    match findContext lines path lineIndex chunk with
    | .error _ => True
    | .ok lineIndex =>
      if chunk.oldLines.isEmpty then
        (endsEmpty lines → lastEnd < lines.length) ∧
          PlacedApart lines path lineIndex lastEnd true chunks
      else
        match locate lines lineIndex chunk with
        | none => True
        | some replacement => KeepsApart lines lastEnd added chunk replacement ∧
          PlacedApart lines path replacement.stop (lastEndAfter lines lastEnd replacement) added
            chunks

/-- Two regions in the order of their chunks are apart once they are sorted. -/
def Clear (replacement replacement' : Replacement) : Prop :=
  if replacement.start ≤ replacement'.start then Before replacement replacement'
  else Before replacement' replacement

theorem pairwise_sortBy_compareStart :
    (sortBy compareStart replacements).Pairwise Before ↔ replacements.Pairwise Clear := by
  have : Std.TransCmp compareStart :=
    inferInstanceAs (Std.TransCmp (compareOn Region.start))
  rw [pairwise_sortBy_iff]
  simp only [compareStart, Nat.isLE_compare]
  rfl

/-- What is known of the regions placed so far. -/
structure Placed (lines : List Line) (lineIndex lastEnd : Nat) (added : Bool)
    (placed : List Replacement) : Prop where
  lastEnd_le : lastEnd ≤ lineIndex
  lineIndex_le : lineIndex ≤ lines.length
  regions : ∀ replacement ∈ placed, replacement.stop ≤ lastEnd ∨
    replacement.oldLen = 0 ∧ (replacement.start = lines.length ∨
      added ∧ endsEmpty lines ∧ replacement.start = lines.length - 1)
  last : lastEnd = 0 ∨ ∃ replacement ∈ placed, replacement.stop = lastEnd ∧
    replacement.start < lines.length
  additions : added → endsEmpty lines → ∃ replacement ∈ placed, replacement.oldLen = 0 ∧
    replacement.start = lines.length - 1

variable {placed : List Replacement} {lastEnd : Nat} {added : Bool}

theorem length_pos_of_endsEmpty (h : endsEmpty lines) : 0 < lines.length := by
  cases lines with
  | nil => cases h
  | cons line lines => exact Nat.succ_pos _

/-- Lines may be added exactly if no region has replaced a final empty line. -/
theorem Placed.clear_insertion (h : Placed lines lineIndex lastEnd added placed) :
    (∀ replacement ∈ placed, Clear replacement ⟨insertionIdx lines, 0, newSegment⟩) ↔
      (endsEmpty lines → lastEnd < lines.length) := by
  have hle := h.lineIndex_le
  have hlastEnd := h.lastEnd_le
  constructor
  · intro hclear hends
    have hpos := length_pos_of_endsEmpty hends
    rcases h.last with hzero | ⟨replacement, hmem, hstop, hstart⟩
    · omega
    · have := hclear replacement hmem
      rw [Clear, Before, Before, insertionIdx, if_pos hends, if_pos (Nat.le_sub_one_of_lt hstart),
        hstop] at this
      simp only at this
      omega
  · intro hlast replacement hmem
    have hregion := h.regions replacement hmem
    rw [Clear, Before, Before, Region.stop, Region.stop, insertionIdx]
    rw [Region.stop] at hregion
    by_cases hends : endsEmpty lines
    · have := hlast hends
      rw [if_pos hends]
      simp only
      split <;> omega
    · rw [if_neg hends]
      simp only
      split <;> omega

theorem Placed.insertion (h : Placed lines lineIndex lastEnd added placed) :
    Placed lines lineIndex lastEnd true (placed ++ [⟨insertionIdx lines, 0, newSegment⟩]) where
  lastEnd_le := h.lastEnd_le
  lineIndex_le := h.lineIndex_le
  regions replacement hmem := by
    rcases List.mem_append.1 hmem with hmem | hmem
    · exact (h.regions replacement hmem).imp id fun ⟨hempty, hat⟩ =>
        ⟨hempty, hat.imp id fun ⟨_, hends, hat⟩ => ⟨rfl, hends, hat⟩⟩
    · obtain rfl := List.mem_singleton.1 hmem
      refine .inr ⟨rfl, ?_⟩
      by_cases hends : endsEmpty lines
      · exact .inr ⟨rfl, hends, if_pos hends⟩
      · exact .inl (if_neg hends)
  last := h.last.imp id fun ⟨replacement, hmem, hlast⟩ =>
    ⟨replacement, List.mem_append_left _ hmem, hlast⟩
  additions _ hends := ⟨_, List.mem_append_right _ List.mem_cons_self, rfl, if_pos hends⟩

theorem Placed.lastEnd_le_start (h : Placed lines lineIndex lastEnd added placed)
    (hlocated : Located lines lineIndex chunk replacement)
    (happart : KeepsApart lines lastEnd added chunk replacement) :
    lastEnd ≤ replacement.start := by
  have hlastEnd := h.lastEnd_le
  by_cases hempty : replacement.oldLen = 0
  · exact (hlocated.empty hempty).symm ▸ hlastEnd
  · have hnonempty := hlocated.nonempty hempty
    split at hnonempty
    · have hreach := (happart hempty).1 ‹_›
      rw [Region.stop] at hnonempty
      omega
    · exact hlastEnd.trans hnonempty

/-- A region clears those before exactly if it keeps apart from them. -/
theorem Placed.clear_located (h : Placed lines lineIndex lastEnd added placed)
    (hlocated : Located lines lineIndex chunk replacement) :
    (∀ replacement' ∈ placed, Clear replacement' replacement) ↔
      KeepsApart lines lastEnd added chunk replacement := by
  have hle := h.lineIndex_le
  have hlastEnd := h.lastEnd_le
  have hstop := hlocated.stop_le
  rw [Region.stop] at hstop
  constructor
  · intro hclear hne
    have hnonempty := hlocated.nonempty hne
    refine ⟨fun heof => ?_, fun hadded hends hend => ?_⟩
    · -- the region that ends last is in the way of one that reaches back over its end
      rw [if_pos heof, Region.stop] at hnonempty
      rcases h.last with hzero | ⟨replacement', hmem, hstop', hstart'⟩
      · omega
      · have hclear' := hclear replacement' hmem
        rw [Clear, Before, Before, hstop', Region.stop] at hclear'
        split at hclear' <;> omega
    · -- and so are the lines that were added
      obtain ⟨replacement', hmem, hempty, hstart'⟩ := h.additions hadded hends
      have hpos := length_pos_of_endsEmpty hends
      have hclear' := hclear replacement' hmem
      rw [Clear, Before, Before, Region.stop, Region.stop, hempty, hstart'] at hclear'
      rw [Region.stop] at hend
      split at hclear' <;> omega
  · intro happart replacement' hmem
    have hregion := h.regions replacement' hmem
    have hstart := h.lastEnd_le_start hlocated happart
    rw [Clear, Before, Before, Region.stop, Region.stop]
    rw [Region.stop] at hregion
    rcases hregion with hbefore | ⟨hempty, hend | ⟨hadded, hends, hat⟩⟩
    · rw [if_pos (by omega)]
      omega
    · split <;> omega
    · have hpos := length_pos_of_endsEmpty hends
      by_cases hnone : replacement.oldLen = 0
      · split <;> omega
      · have hlast := (happart hnone).2 hadded hends
        rw [Region.stop] at hlast
        split <;> omega

/-- What is known of the regions goes on to a located one that keeps apart. -/
theorem Placed.located (h : Placed lines lineIndex lastEnd added placed)
    (hlocated : Located lines lineIndex chunk replacement)
    (happart : KeepsApart lines lastEnd added chunk replacement) :
    Placed lines replacement.stop (lastEndAfter lines lastEnd replacement) added
      (placed ++ [replacement]) := by
  have hstart := h.lastEnd_le_start hlocated happart
  have hstop := hlocated.stop_le
  have hle : lastEnd ≤ lastEndAfter lines lastEnd replacement := by
    rw [lastEndAfter, Region.stop]
    split <;> omega
  refine ⟨?_, hstop, ?_, ?_, fun hadded hends => ?_⟩
  · rw [lastEndAfter, Region.stop]
    split <;> omega
  · intro replacement' hmem
    rcases List.mem_append.1 hmem with hmem | hmem
    · exact (h.regions replacement' hmem).imp (fun hbefore => hbefore.trans hle) id
    · obtain rfl := List.mem_singleton.1 hmem
      rw [lastEndAfter]
      split
      · rename_i hempty
        exact .inr ⟨hempty.1, .inl hempty.2⟩
      · exact .inl le_rfl
  · rw [lastEndAfter]
    split
    · exact h.last.imp id fun ⟨replacement', hmem, hlast⟩ =>
        ⟨replacement', List.mem_append_left _ hmem, hlast⟩
    · refine .inr ⟨replacement, List.mem_append_right _ List.mem_cons_self, rfl, ?_⟩
      rw [Region.stop] at hstop
      omega
  · obtain ⟨replacement', hmem, haddition⟩ := h.additions hadded hends
    exact ⟨replacement', List.mem_append_left _ hmem, haddition⟩

theorem Placed.context (h : Placed lines lineIndex lastEnd added placed)
    (hctx : findContext lines path lineIndex chunk = .ok lineIndex') :
    Placed lines lineIndex' lastEnd added placed := by
  obtain ⟨hle, hle'⟩ := findContext_bounds h.lineIndex_le hctx
  exact ⟨h.lastEnd_le.trans hle, hle', h.regions, h.last, h.additions⟩

/-! ## The loop -/

/-- A chunk adds lines, or is located. -/
theorem replacementOf_eq_ok
    (h : replacementOf lines path lineIndex chunk = .ok (replacement, lineIndex')) :
    ∃ lineIndex₁, findContext lines path lineIndex chunk = .ok lineIndex₁ ∧
      (chunk.oldLines.isEmpty ∧ replacement = ⟨insertionIdx lines, 0, chunk.newLines⟩ ∧
          lineIndex' = lineIndex₁ ∨
        ¬chunk.oldLines.isEmpty ∧ locate lines lineIndex₁ chunk = some replacement ∧
          lineIndex' = replacement.stop) := by
  obtain ⟨lineIndex₁, hctx, h⟩ := bind_eq_ok.1 h
  refine ⟨lineIndex₁, hctx, ?_⟩
  split at h
  · cases h
    exact .inl ⟨‹_›, rfl, rfl⟩
  · split at h
    · rename_i hlocate
      cases h
      exact .inr ⟨‹_›, hlocate, rfl⟩
    · cases h

/-- One region after those placed: the regions are all clear of each other exactly if it is clear
of the ones before, and the rest is with it among those placed. -/
theorem clear_cons_iff : ((∀ region ∈ placed, ∀ region' ∈ replacement :: replacements,
      Clear region region') ∧ (replacement :: replacements).Pairwise Clear) ↔
    (∀ region ∈ placed, Clear region replacement) ∧
      (∀ region ∈ placed ++ [replacement], ∀ region' ∈ replacements, Clear region region') ∧
        replacements.Pairwise Clear := by
  simp only [List.forall_mem_cons, List.pairwise_cons, List.forall_mem_append,
    List.mem_singleton, forall_eq]
  constructor
  · rintro ⟨hplaced, hfirst, hrest⟩
    exact ⟨fun region hmem => (hplaced region hmem).1,
      ⟨fun region hmem => (hplaced region hmem).2, hfirst⟩, hrest⟩
  · rintro ⟨hplaced, ⟨hothers, hfirst⟩, hrest⟩
    exact ⟨fun region hmem => ⟨hplaced region hmem, hothers region hmem⟩, hfirst, hrest⟩

/-- The regions of the chunks are clear of each other and of those placed before exactly if the
chunks are placed apart. -/
theorem clear_replacementsFrom_iff (h : Placed lines lineIndex lastEnd added placed)
    (hok : replacementsFrom lines path lineIndex chunks = .ok replacements) :
    ((∀ region ∈ placed, ∀ region' ∈ replacements, Clear region region') ∧
        replacements.Pairwise Clear) ↔
      PlacedApart lines path lineIndex lastEnd added chunks := by
  induction chunks generalizing lineIndex lastEnd added placed replacements with
  | nil =>
    obtain rfl := Except.ok.inj hok
    exact iff_of_true ⟨fun _ _ _ hmem => (nomatch hmem), .nil⟩ trivial
  | cons chunk chunks ih =>
    obtain ⟨⟨replacement, lineIndex'⟩, hfirst, hok⟩ := bind_eq_ok.1 hok
    obtain ⟨replacements, hrest, hok⟩ := bind_eq_ok.1 hok
    obtain rfl := Except.ok.inj hok
    obtain ⟨lineIndex₁, hctx, hcases⟩ := replacementOf_eq_ok hfirst
    have h₁ := h.context hctx
    rw [clear_cons_iff, PlacedApart]
    simp only [hctx]
    rcases hcases with ⟨hempty, rfl, rfl⟩ | ⟨hsome, hlocate, rfl⟩
    · rw [if_pos hempty, h₁.clear_insertion]
      exact and_congr_right fun _ => ih h₁.insertion hrest
    · have hlocated := located_of_locate h₁.lineIndex_le hlocate
      rw [if_neg hsome, h₁.clear_located hlocated]
      simp only [hlocate]
      exact and_congr_right fun happart => ih (h₁.located hlocated happart) hrest

/-! ## The result -/

/-- The replacements are a splice of the lines: the regions are in the file, in order and apart,
what is outside them survives in order, and the lines of every chunk appear. -/
structure Splices (lines : List Line) (chunks : List UpdateFileChunk)
    (replacements : List Replacement) : Prop where
  inBounds : ∀ replacement ∈ replacements, replacement.stop ≤ lines.length
  apart : replacements.Pairwise Before
  splice : applyReplacements lines replacements = splice lines 0 replacements
  survives : (outside lines 0 replacements).Sublist (applyReplacements lines replacements)
  appears : ∃ placed, placed.Perm replacements ∧ List.Forall₂ Gives chunks placed ∧
    ∀ replacement ∈ placed, replacement.newLines <:+: applyReplacements lines replacements

/-- Every chunk has its region in the file. -/
theorem replacementsFrom_spec (hindex : lineIndex ≤ lines.length)
    (hok : replacementsFrom lines path lineIndex chunks = .ok replacements) :
    (∀ replacement ∈ replacements, replacement.stop ≤ lines.length) ∧
      List.Forall₂ Gives chunks replacements := by
  induction chunks generalizing lineIndex replacements with
  | nil =>
    obtain rfl := Except.ok.inj hok
    exact ⟨fun _ hmem => (nomatch hmem), .nil⟩
  | cons chunk chunks ih =>
    obtain ⟨⟨replacement, lineIndex'⟩, hfirst, hok⟩ := bind_eq_ok.1 hok
    obtain ⟨replacements, hrest, hok⟩ := bind_eq_ok.1 hok
    obtain rfl := Except.ok.inj hok
    obtain ⟨lineIndex₁, hctx, hcases⟩ := replacementOf_eq_ok hfirst
    have hle := (findContext_bounds hindex hctx).2
    have hinsert : insertionIdx lines ≤ lines.length := by
      rw [insertionIdx]
      split <;> omega
    have hfirst : replacement.stop ≤ lines.length ∧ Gives chunk replacement ∧
        lineIndex' ≤ lines.length := by
      rcases hcases with ⟨-, rfl, rfl⟩ | ⟨-, hlocate, rfl⟩
      · exact ⟨hinsert, .inl rfl, hle⟩
      · have hlocated := located_of_locate hle hlocate
        exact ⟨hlocated.stop_le, hlocated.gives, hlocated.stop_le⟩
    obtain ⟨hbounds, hgives⟩ := ih hfirst.2.2 hrest
    exact ⟨List.forall_mem_cons.2 ⟨hfirst.1, hbounds⟩, .cons hfirst.2.1 hgives⟩

/-- **Chunks are applied as a splice** exactly if they are placed apart. -/
theorem splices_iff (lines : List Line) (path : String) (chunks : List UpdateFileChunk)
    (replacements : List Replacement)
    (hok : computeReplacements lines path chunks = .ok replacements) :
    Splices lines chunks replacements ↔ PlacedApart lines path 0 0 false chunks := by
  obtain ⟨placed, hplaced, rfl⟩ : ∃ placed, replacementsFrom lines path 0 chunks = .ok placed ∧
      sortBy compareStart placed = replacements := by
    rw [computeReplacements] at hok
    cases hfrom : replacementsFrom lines path 0 chunks with
    | error err =>
      rw [hfrom] at hok
      cases hok
    | ok placed =>
      rw [hfrom] at hok
      exact ⟨placed, rfl, Except.ok.inj hok⟩
  have hstart : Placed lines 0 0 false [] :=
    ⟨le_rfl, Nat.zero_le _, fun _ hmem => (nomatch hmem), .inl rfl, nofun⟩
  have hclear := clear_replacementsFrom_iff hstart hplaced
  obtain ⟨hbounds, hgives⟩ := replacementsFrom_spec (Nat.zero_le _) hplaced
  have hbounds' : ∀ replacement ∈ sortBy compareStart placed, replacement.stop ≤ lines.length :=
    fun replacement hmem => hbounds replacement (mem_sortBy.1 hmem)
  constructor
  · intro h
    exact hclear.1 ⟨fun _ hmem => (nomatch hmem), pairwise_sortBy_compareStart.1 h.apart⟩
  · intro h
    have happart := pairwise_sortBy_compareStart.2 (hclear.2 h).2
    have hsplice := applyReplacements_eq hbounds' happart
    refine ⟨hbounds', happart, hsplice, hsplice ▸ outside_sublist_splice 0 _,
      placed, (List.perm_insertionSort _ _).symm, hgives, fun replacement hmem => ?_⟩
    exact hsplice ▸ newLines_infix_splice (mem_sortBy.2 hmem)

end

theorem splices_iff_one :
    Splices [['a'], ['b']] [⟨none, [['b']], [['c']], true⟩] [⟨1, 1, [['c']]⟩] ↔
      PlacedApart [['a'], ['b']] "notes.txt" 0 0 false [⟨none, [['b']], [['c']], true⟩] :=
  splices_iff [['a'], ['b']] "notes.txt" [⟨none, [['b']], [['c']], true⟩] [⟨1, 1, [['c']]⟩]
    (by decide)

/-- Two chunks replace the one line of a file, the second one at its end. -/
theorem splices_overlap :
    ¬∀ (lines : List Line) (path : String) (chunks : List UpdateFileChunk)
      (replacements : List Replacement),
      computeReplacements lines path chunks = .ok replacements →
        Splices lines chunks replacements := by
  intro h
  have hsplices := h [['a']] "notes.txt"
    [⟨none, [['a']], [['b']], false⟩, ⟨none, [['a']], [['c']], true⟩]
    [⟨0, 1, [['b']]⟩, ⟨0, 1, [['c']]⟩] (by decide)
  have happart := (List.pairwise_cons.1 hsplices.apart).1 _ List.mem_cons_self
  exact absurd happart (Nat.not_succ_le_zero 0)

end Mcodex.ApplyPatch
