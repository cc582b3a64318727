import Mcodex.Lib.ByteRanges
import Mcodex.Lib.Text

/-!
# The text area

The text of the composer with its cursor and its elements, which are ranges of bytes that move as
one. Positions and ranges from outside are clamped to boundaries of characters and edges of
elements. Segmentation into graphemes and words and display widths are those of the `unicode_*`
crates (`Segmentation`). Left out are the cache of wrapped lines, which the moves here do without,
and the names that elements have on other systems than Linux.
-/

namespace Mcodex.Tui

open Bytes Text

/-- What the text area uses of the crates for Unicode text. -/
structure Segmentation where
  /-- `GraphemeCursor::prev_boundary` from a position of a text. -/
  prevBoundary : List Char → Nat → Option Nat
  /-- `GraphemeCursor::next_boundary` from a position of a text. -/
  nextBoundary : List Char → Nat → Option Nat
  graphemeIndices : List Char → List (Nat × List Char)
  splitWordBoundIndices : List Char → List (Nat × List Char)
  width : List Char → Nat
  prevBoundary_spec : ∀ text pos boundary, isCharBoundary text pos →
    prevBoundary text pos = some boundary → isCharBoundary text boundary ∧ boundary < pos
  nextBoundary_spec : ∀ text pos boundary, isCharBoundary text pos →
    nextBoundary text pos = some boundary → isCharBoundary text boundary ∧ pos < boundary
  splitWordBoundIndices_spec : ∀ run start segment, (start, segment) ∈ splitWordBoundIndices run →
    ∃ before after, run = before ++ segment ++ after ∧ start = byteLen before

structure TextElement where
  id : Nat
  start : Nat
  stop : Nat
  deriving DecidableEq

structure TextArea where
  text : List Char
  cursorPos : Nat
  preferredCol : Option Nat
  elements : List TextElement
  nextElementId : Nat
  killBuffer : List Char
  deriving DecidableEq

/-- `u64::saturating_add(1)`. -/
def nextId (id : Nat) : Nat := min (id + 1) (2 ^ 64 - 1)

def sortByStart (elements : List TextElement) : List TextElement :=
  elements.mergeSort fun e e' => e.start ≤ e'.start

/-- The elements that `set_text_inner` makes of the ranges it is given, and the next id. -/
def elementsOfRanges (text : List Char) : List (Nat × Nat) → Nat → List TextElement × Nat
  | [], id => ([], id)
  | (first, last) :: ranges, id =>
    let start := clampToBoundary text (min first (byteLen text))
    let stop := clampToBoundary text (min last (byteLen text))
    if stop ≤ start then elementsOfRanges text ranges id
    else
      let (elements, id') := elementsOfRanges text ranges (nextId id)
      ({ id, start, stop } :: elements, id')

/-! ## Words -/

def wordSeparators : List Char := "`~!@#$%^&*()-=+[\x7b]\x7d\\|;:'\",.<>/?".toList

def isWordSeparator (c : Char) : Bool := wordSeparators.contains c

/-- Pieces with their offsets, one after the other. -/
def offsetsFrom : Nat → List (List Char) → List (Nat × List Char)
  | _, [] => []
  | offset, piece :: pieces => (offset, piece) :: offsetsFrom (offset + byteLen piece) pieces

/-- The pieces of each segment are its runs of separators and of other characters. -/
def splitWordPieces (unicode : Segmentation) (run : List Char) : List (Nat × List Char) :=
  (unicode.splitWordBoundIndices run).flatMap fun (start, segment) =>
    offsetsFrom start (segment.splitBy fun c d => isWordSeparator c == isWordSeparator d)

/-- `str::find` of a character. -/
def find (s : List Char) (p : Char → Bool) : Option Nat :=
  ((charIndices s).find? fun entry => p entry.2).map (·.1)

/-- The last character that meets a condition, with its offset. -/
def rfind (s : List Char) (p : Char → Bool) : Option (Nat × Char) :=
  (charIndices s).reverse.find? fun entry => p entry.2

/-- Where the last white space ends. -/
def endOfBlank (s : List Char) : Nat :=
  match rfind s isWhitespace with
  | none => 0
  | some (blank, c) => blank + c.utf8Size

namespace TextArea

def new : TextArea where
  text := []
  cursorPos := 0
  preferredCol := none
  elements := []
  nextElementId := 1
  killBuffer := []

section
variable (unicode : Segmentation) (s : TextArea)

/-! ## Positions -/

def findElementContaining (pos : Nat) : Option TextElement :=
  s.elements.find? fun e => e.start < pos && pos < e.stop

/-- A boundary that is not inside an element: the nearest edge of the element otherwise. -/
def clampOutOfElements (pos : Nat) : Nat :=
  let pos := clampToBoundary s.text pos
  match s.findElementContaining pos with
  | some e =>
    if pos - e.start ≤ e.stop - pos then clampToBoundary s.text e.start
    else clampToBoundary s.text e.stop
  | none => pos

def clampPosToNearestBoundary (pos : Nat) : Nat := s.clampOutOfElements pos

def clampPosForInsertion (pos : Nat) : Nat := s.clampOutOfElements pos

/-- One step of the loop of `expand_range_to_element_boundaries`. -/
def expandOver (range : Nat × Nat) (e : TextElement) : Nat × Nat :=
  if e.start < range.2 && range.1 < e.stop then (min range.1 e.start, max range.2 e.stop)
  else range

/-- Passes over the elements until none changes the range. A pass that changes it takes an element
in, so that there are at most as many of these as elements. -/
def expandRangeToElementBoundaries (range : Nat × Nat) : Nat × Nat :=
  (fun range => s.elements.foldl expandOver range)^[s.elements.length + 1] range

def prevAtomicBoundary (pos : Nat) : Nat :=
  if pos = 0 then 0
  else
    match s.elements.find? fun e => e.start < pos && pos ≤ e.stop with
    | some e => e.start
    | none =>
      match unicode.prevBoundary s.text pos with
      | some boundary =>
        match s.findElementContaining boundary with
        | some e => e.start
        | none => boundary
      | none => 0

def nextAtomicBoundary (pos : Nat) : Nat :=
  if byteLen s.text ≤ pos then byteLen s.text
  else
    match s.elements.find? fun e => e.start ≤ pos && pos < e.stop with
    | some e => e.stop
    | none =>
      match unicode.nextBoundary s.text pos with
      | some boundary =>
        match s.findElementContaining boundary with
        | some e => e.stop
        | none => boundary
      | none => byteLen s.text

def adjustPosOutOfElements (pos : Nat) (preferStart : Bool) : Nat :=
  match s.findElementContaining pos with
  | some e => if preferStart then e.start else e.stop
  | none => pos

def beginningOfPreviousWord : Nat :=
  let before := sliceTo s.cursorPos s.text
  match rfind before fun c => !isWhitespace c with
  | none => 0
  | some (firstNonWs, c) =>
    let runStart := endOfBlank (sliceTo firstNonWs before)
    let runEnd := firstNonWs + c.utf8Size
    match (splitWordPieces unicode (slice before runStart runEnd)).reverse with
    | [] => runStart
    | (pieceStart, piece) :: pieces =>
      let start :=
        if piece.all isWordSeparator then
          (pieces.takeWhile fun entry => entry.2.all isWordSeparator).foldl
            (fun _ entry => runStart + entry.1) (runStart + pieceStart)
        else runStart + pieceStart
      s.adjustPosOutOfElements start true

def endOfNextWord : Nat :=
  let after := sliceFrom s.cursorPos s.text
  match find after fun c => !isWhitespace c with
  | none => byteLen s.text
  | some firstNonWs =>
    let run := (sliceFrom firstNonWs after).takeWhile fun c => !isWhitespace c
    match splitWordPieces unicode run with
    | [] => s.cursorPos + firstNonWs
    | (start, piece) :: pieces =>
      let wordStart := s.cursorPos + firstNonWs + start
      let stop :=
        if piece.all isWordSeparator then
          (pieces.takeWhile fun entry => entry.2.all isWordSeparator).foldl
            (fun _ entry => s.cursorPos + firstNonWs + entry.1 + byteLen entry.2)
            (wordStart + byteLen piece)
        else wordStart + byteLen piece
      s.adjustPosOutOfElements stop false

def beginningOfLine (pos : Nat) : Nat :=
  match rfind (sliceTo pos s.text) (· = '\n') with
  | some (newline, _) => newline + 1
  | none => 0

def endOfLine (pos : Nat) : Nat :=
  match find (sliceFrom pos s.text) (· = '\n') with
  | some newline => newline + pos
  | none => byteLen s.text

/-! ## Edits -/

/-- The elements after an edit that replaces `removed` bytes with `inserted` ones. -/
def shiftElements (elements : List TextElement) (start removed inserted : Nat) :
    List TextElement :=
  let stop := start + removed
  (elements.filter fun e => !(start ≤ e.start && e.stop ≤ stop)).map fun e =>
    if e.stop ≤ start then e
    else if stop ≤ e.start then
      { e with start := e.start + inserted - removed, stop := e.stop + inserted - removed }
    else { e with start := min start e.start, stop := start + max inserted (e.stop - stop) }

def setCursor (pos : Nat) : TextArea :=
  { s with
    cursorPos := s.clampPosToNearestBoundary (min pos (byteLen s.text))
    preferredCol := none }

/-- `set_text_clearing_elements`, or `set_text_with_elements` of ranges. -/
def setTextInner (text : List Char) (ranges : Option (List (Nat × Nat))) : TextArea :=
  let (elements, nextElementId) := match ranges with
    | none => ([], s.nextElementId)
    | some ranges =>
      let (elements, id) := elementsOfRanges text ranges s.nextElementId
      (sortByStart elements, id)
  let set := { s with text, elements, nextElementId, preferredCol := none }
  { set with cursorPos := set.clampPosToNearestBoundary (min s.cursorPos (byteLen text)) }

def insertStrAt (pos : Nat) (text : List Char) : TextArea :=
  let pos := s.clampPosForInsertion pos
  { s with
    text := replaceRange s.text pos pos text
    cursorPos := if pos ≤ s.cursorPos then s.cursorPos + byteLen text else s.cursorPos
    elements := shiftElements s.elements pos 0 (byteLen text)
    preferredCol := none }

def insertStr (text : List Char) : TextArea := s.insertStrAt s.cursorPos text

/-- Where the cursor is after an edit of a range. -/
def cursorAfter (start stop inserted : Nat) : Nat :=
  if s.cursorPos < start then s.cursorPos
  else if s.cursorPos ≤ stop then start + inserted
  else s.cursorPos + inserted - (stop - start)

def replaceRangeRaw (range : Nat × Nat) (text : List Char) : TextArea :=
  let start := min range.1 (byteLen s.text)
  let stop := min range.2 (byteLen s.text)
  if stop - start = 0 ∧ text = [] then s
  else
    let replaced := { s with
      text := Bytes.replaceRange s.text start stop text
      preferredCol := none
      elements := shiftElements s.elements start (stop - start) (byteLen text) }
    { replaced with
      cursorPos := replaced.clampPosToNearestBoundary
        (min (s.cursorAfter start stop (byteLen text)) (byteLen replaced.text)) }

def replaceRange (range : Nat × Nat) (text : List Char) : TextArea :=
  s.replaceRangeRaw (s.expandRangeToElementBoundaries range) text

/-- The target of `delete_backward` after some more steps. -/
def backwardTarget : Nat → Nat → Nat
  | 0, target => target
  | n + 1, target =>
    let target := s.prevAtomicBoundary unicode target
    if target = 0 then target else backwardTarget n target

def deleteBackward (n : Nat) : TextArea :=
  if n = 0 ∨ s.cursorPos = 0 then s
  else s.replaceRange (s.backwardTarget unicode n s.cursorPos, s.cursorPos) []

/-- The target of `delete_forward` after some more steps. -/
def forwardTarget : Nat → Nat → Nat
  | 0, target => target
  | n + 1, target =>
    let target := s.nextAtomicBoundary unicode target
    if byteLen s.text ≤ target then target else forwardTarget n target

def deleteForward (n : Nat) : TextArea :=
  if n = 0 ∨ byteLen s.text ≤ s.cursorPos then s
  else s.replaceRange (s.cursorPos, s.forwardTarget unicode n s.cursorPos) []

def killRange (range : Nat × Nat) : TextArea :=
  let range := s.expandRangeToElementBoundaries range
  if range.2 ≤ range.1 then s
  else
    let removed := slice s.text range.1 range.2
    if removed = [] then s else { s with killBuffer := removed }.replaceRangeRaw range []

def deleteBackwardWord : TextArea := s.killRange (s.beginningOfPreviousWord unicode, s.cursorPos)

def deleteForwardWord : TextArea :=
  let stop := s.endOfNextWord unicode
  if s.cursorPos < stop then s.killRange (s.cursorPos, stop) else s

def killToEndOfLine : TextArea :=
  let eol := s.endOfLine s.cursorPos
  if s.cursorPos = eol then
    if eol < byteLen s.text then s.killRange (s.cursorPos, eol + 1) else s
  else s.killRange (s.cursorPos, eol)

def killToBeginningOfLine : TextArea :=
  let bol := s.beginningOfLine s.cursorPos
  if s.cursorPos = bol then
    if 0 < bol then s.killRange (bol - 1, bol) else s
  else s.killRange (bol, s.cursorPos)

def yank : TextArea := if s.killBuffer = [] then s else s.insertStr s.killBuffer

/-! ## Moves -/

def moveCursorLeft : TextArea :=
  { s with cursorPos := s.prevAtomicBoundary unicode s.cursorPos, preferredCol := none }

def moveCursorRight : TextArea :=
  { s with cursorPos := s.nextAtomicBoundary unicode s.cursorPos, preferredCol := none }

def currentDisplayCol : Nat :=
  unicode.width (slice s.text (s.beginningOfLine s.cursorPos) s.cursorPos)

/-- The offset of the first grapheme that ends after a column. -/
def graphemeAfterCol (targetCol : Nat) : Nat → List (Nat × List Char) → Option Nat
  | _, [] => none
  | widthSoFar, (offset, grapheme) :: graphemes =>
    let widthSoFar := widthSoFar + unicode.width grapheme
    if targetCol < widthSoFar then some offset
    else graphemeAfterCol targetCol widthSoFar graphemes

def moveToDisplayColOnLine (lineStart lineEnd targetCol : Nat) : TextArea :=
  let graphemes := unicode.graphemeIndices (slice s.text lineStart lineEnd)
  match graphemeAfterCol unicode targetCol 0 graphemes with
  | some offset => { s with cursorPos := s.clampPosToNearestBoundary (lineStart + offset) }
  | none => { s with cursorPos := s.clampPosToNearestBoundary lineEnd }

def moveCursorUp : TextArea :=
  match rfind (sliceTo s.cursorPos s.text) (· = '\n') with
  | some (prevNl, _) =>
    let targetCol := s.preferredCol.getD (s.currentDisplayCol unicode)
    { s with preferredCol := some targetCol }.moveToDisplayColOnLine unicode
      (s.beginningOfLine prevNl) prevNl targetCol
  | none => { s with cursorPos := 0, preferredCol := none }

def moveCursorDown : TextArea :=
  let targetCol := s.preferredCol.getD (s.currentDisplayCol unicode)
  match find (sliceFrom s.cursorPos s.text) (· = '\n') with
  | some newline =>
    let nextLineStart := newline + s.cursorPos + 1
    { s with preferredCol := some targetCol }.moveToDisplayColOnLine unicode nextLineStart
      (s.endOfLine nextLineStart) targetCol
  | none => { s with cursorPos := byteLen s.text, preferredCol := none }

def moveCursorToBeginningOfLine (moveUpAtBol : Bool) : TextArea :=
  let bol := s.beginningOfLine s.cursorPos
  if moveUpAtBol && s.cursorPos = bol then s.setCursor (s.beginningOfLine (s.cursorPos - 1))
  else s.setCursor bol

def moveCursorToEndOfLine (moveDownAtEol : Bool) : TextArea :=
  let eol := s.endOfLine s.cursorPos
  if moveDownAtEol && s.cursorPos = eol then
    s.setCursor (s.endOfLine (min (s.cursorPos + 1) (byteLen s.text)))
  else s.setCursor eol

/-! ## Elements -/

def addElement (start stop : Nat) : TextArea :=
  { s with
    elements := sortByStart (s.elements ++ [{ id := s.nextElementId, start, stop }])
    nextElementId := nextId s.nextElementId }

def insertElement (text : List Char) : TextArea :=
  let start := s.clampPosForInsertion s.cursorPos
  ((s.insertStrAt start text).addElement start (start + byteLen text)).setCursor
    (start + byteLen text)

/-- Where another element is after the one from `start` to `stop` got `inserted` bytes. -/
def shiftPast (start stop inserted : Nat) (e : TextElement) : TextElement :=
  if e.stop ≤ start then e
  else if stop ≤ e.start then
    { e with
      start := e.start + inserted - (stop - start), stop := e.stop + inserted - (stop - start) }
  else
    { e with
      start := min start e.start
      stop := max (start + inserted) (e.stop + inserted - (stop - start)) }

def replaceElementPayload (old new : List Char) : TextArea :=
  match s.elements.findIdx? fun e => slice s.text e.start e.stop = old with
  | none => s
  | some idx =>
    match s.elements[idx]? with
    | none => s
    | some element =>
      let start := element.start
      let stop := element.stop
      let inserted := byteLen new
      let replaced := { s with
        text := Bytes.replaceRange s.text start stop new
        preferredCol := none
        elements := s.elements.mapIdx fun j (e : TextElement) =>
          if j = idx then ({ e with stop := start + inserted } : TextElement)
          else if inserted = stop - start then e
          else shiftPast start stop inserted e }
      { replaced with
        cursorPos := replaced.clampPosToNearestBoundary (s.cursorAfter start stop inserted)
        elements := sortByStart replaced.elements }

/-- The range that `add_element_range` marks, if it marks one. -/
def markedRange (range : Nat × Nat) : Option (Nat × Nat) :=
  let start := clampToBoundary s.text (min range.1 (byteLen s.text))
  let stop := clampToBoundary s.text (min range.2 (byteLen s.text))
  if stop ≤ start then none
  else if s.elements.any fun e => e.start = start && e.stop = stop then none
  else if s.elements.any fun e => start < e.stop && e.start < stop then none
  else some (start, stop)

def addElementRange (range : Nat × Nat) : TextArea :=
  match s.markedRange range with
  | some (start, stop) => s.addElement start stop
  | none => s

def removeElementRange (range : Nat × Nat) : TextArea :=
  let start := clampToBoundary s.text (min range.1 (byteLen s.text))
  let stop := clampToBoundary s.text (min range.2 (byteLen s.text))
  if stop ≤ start then s
  else { s with elements := s.elements.filter fun e => e.start ≠ start || e.stop ≠ stop }

end

end TextArea

end Mcodex.Tui
