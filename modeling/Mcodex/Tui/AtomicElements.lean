import Mcodex.Lib.Transition
import Mcodex.Tui.TextAreaElements

/-!
# Elements stay atomic

In a run of operations the elements stay whole, the cursor stays outside them and those that survive
keep their texts (`Holds`). One operation may break that: `add_element_range` leaves the cursor
where it is, also when it is strictly inside the marked range. `textArea_spec` says that every
operation holds in runs where that does not happen, and that it does not hold where that happens.
-/

namespace Mcodex.Tui

open Bytes Transition

/-- The operations of the text area. The keys of `input` perform them. -/
inductive TextOp
  | setText (text : List Char) (ranges : Option (List (Nat × Nat)))
  | insertStr (text : List Char)
  | insertStrAt (pos : Nat) (text : List Char)
  | replaceRange (range : Nat × Nat) (text : List Char)
  | deleteBackward (n : Nat)
  | deleteForward (n : Nat)
  | deleteBackwardWord
  | deleteForwardWord
  | killToEndOfLine
  | killToBeginningOfLine
  | yank
  | setCursor (pos : Nat)
  | moveCursorLeft
  | moveCursorRight
  | moveCursorUp
  | moveCursorDown
  | moveCursorToBeginningOfLine (moveUpAtBol : Bool)
  | moveCursorToEndOfLine (moveDownAtEol : Bool)
  | insertElement (text : List Char)
  | replaceElementPayload (old new : List Char)
  | addElementRange (range : Nat × Nat)
  | removeElementRange (range : Nat × Nat)

namespace TextOp

def apply (unicode : Segmentation) (s : TextArea) : TextOp → TextArea
  | setText text ranges => s.setTextInner text ranges
  | insertStr text => s.insertStr text
  | insertStrAt pos text => s.insertStrAt pos text
  | replaceRange range text => s.replaceRange range text
  | deleteBackward n => s.deleteBackward unicode n
  | deleteForward n => s.deleteForward unicode n
  | deleteBackwardWord => s.deleteBackwardWord unicode
  | deleteForwardWord => s.deleteForwardWord unicode
  | killToEndOfLine => s.killToEndOfLine
  | killToBeginningOfLine => s.killToBeginningOfLine
  | yank => s.yank
  | setCursor pos => s.setCursor pos
  | moveCursorLeft => s.moveCursorLeft unicode
  | moveCursorRight => s.moveCursorRight unicode
  | moveCursorUp => s.moveCursorUp unicode
  | moveCursorDown => s.moveCursorDown unicode
  | moveCursorToBeginningOfLine moveUpAtBol => s.moveCursorToBeginningOfLine moveUpAtBol
  | moveCursorToEndOfLine moveDownAtEol => s.moveCursorToEndOfLine moveDownAtEol
  | insertElement text => s.insertElement text
  | replaceElementPayload old new => s.replaceElementPayload old new
  | addElementRange range => s.addElementRange range
  | removeElementRange range => s.removeElementRange range

/-- What the callers see to: ranges of elements are disjoint, a replaced range is between
boundaries, and elements have texts. -/
def Permitted (s : TextArea) : TextOp → Prop
  | setText _ ranges => ∀ ranges' ∈ ranges, ranges'.Pairwise fun r r' =>
      r.1 < r.2 → r'.1 < r'.2 → r.2 ≤ r'.1 ∨ r'.2 ≤ r.1
  | replaceRange range _ => Range s.text range
  | insertElement text => text ≠ []
  | replaceElementPayload _ new => new ≠ []
  | _ => True

/-- A range that is marked does not have the cursor strictly inside. -/
def Clear (s : TextArea) : TextOp → Prop
  | addElementRange range => ∀ marked ∈ s.markedRange range,
      ¬ (marked.1 < s.cursorPos ∧ s.cursorPos < marked.2)
  | _ => True

/-- Elements that survive keep their texts, but for the one that is renamed. -/
def Keeps (s s' : TextArea) : TextOp → Prop
  | replaceElementPayload old new => Renames old new s s'
  | _ => Survive s s'

end TextOp

/-- What an operation is to do. -/
structure Holds (op : TextOp) (s s' : TextArea) : Prop where
  atomic : Atomic s'
  keeps : op.Keeps s s'
  insert : ∀ text, op = .insertStr text →
    s'.text = sliceTo s.cursorPos s.text ++ text ++ sliceFrom s.cursorPos s.text ∧
      s'.cursorPos = s.cursorPos + byteLen text

/-- The runs of a text area. -/
def system (unicode : Segmentation) : System TextArea TextOp where
  init s := s = TextArea.new
  step s op s' := op.Permitted s ∧ s' = op.apply unicode s

section
variable {unicode : Segmentation} {s s' : TextArea} {op : TextOp} {pos col : Nat}
  {range : Nat × Nat}

/-! ## Operations -/

theorem Survive.refl (s : TextArea) : Survive s s := .of_sublist (List.Sublist.refl _)

/-- A move to an edge. -/
theorem moved (h : Atomic s) (hpos : Edge s.text s.elements pos) (preferredCol : Option Nat) :
    Atomic { s with cursorPos := pos, preferredCol } ∧
      Survive s { s with cursorPos := pos, preferredCol } :=
  ⟨⟨h.elements, hpos⟩, .refl s⟩

theorem setCursor_holds (h : Atomic s) (pos : Nat) :
    Atomic (s.setCursor pos) ∧ Survive s (s.setCursor pos) :=
  moved h (clampOutOfElements_spec h.elements _) none

theorem moveToDisplayColOnLine_holds (h : Atomic s) (lineStart lineEnd targetCol : Nat) :
    Atomic ({ s with preferredCol := some col }.moveToDisplayColOnLine unicode lineStart lineEnd
        targetCol) ∧
      Survive s ({ s with preferredCol := some col }.moveToDisplayColOnLine unicode lineStart
        lineEnd targetCol) := by
  have hclamp := clampOutOfElements_spec (s := { s with preferredCol := some col }) h.elements
  unfold TextArea.moveToDisplayColOnLine
  simp only
  split
  · exact moved h (hclamp _) _
  · exact moved h (hclamp _) _

theorem insertStrAt_holds (h : Atomic s) (pos : Nat) (text : List Char) :
    Atomic (s.insertStrAt pos text) ∧ Survive s (s.insertStrAt pos text) := by
  obtain ⟨hatomic, hkept⟩ := insertStrAt_spec h pos text
  exact ⟨hatomic, .of_sublist hkept⟩

theorem replaceRange_holds (h : Atomic s) (hrange : Range s.text range) (text : List Char) :
    Atomic (s.replaceRange range text) ∧ Survive s (s.replaceRange range text) := by
  obtain ⟨hatomic, hkept⟩ := replaceRange_spec h hrange text
  exact ⟨hatomic, .of_sublist hkept⟩

theorem killRange_holds (h : Atomic s) (hrange : Range s.text range) :
    Atomic (s.killRange range) ∧ Survive s (s.killRange range) := by
  obtain ⟨hatomic, hkept⟩ := killRange_spec h hrange
  exact ⟨hatomic, .of_sublist hkept⟩

theorem deleteBackward_holds (h : Atomic s) (n : Nat) :
    Atomic (s.deleteBackward unicode n) ∧ Survive s (s.deleteBackward unicode n) := by
  unfold TextArea.deleteBackward
  split_ifs
  · exact ⟨h, .refl s⟩
  · obtain ⟨hedge, hle⟩ := backwardTarget_spec unicode h.elements n h.cursor
    exact replaceRange_holds h ⟨hedge.boundary, h.cursor.boundary, hle⟩ []

theorem deleteForward_holds (h : Atomic s) (n : Nat) :
    Atomic (s.deleteForward unicode n) ∧ Survive s (s.deleteForward unicode n) := by
  unfold TextArea.deleteForward
  split_ifs
  · exact ⟨h, .refl s⟩
  · obtain ⟨hedge, hle⟩ := forwardTarget_spec unicode h.elements n h.cursor
    exact replaceRange_holds h ⟨h.cursor.boundary, hedge.boundary, hle⟩ []

theorem deleteForwardWord_holds (h : Atomic s) :
    Atomic (s.deleteForwardWord unicode) ∧ Survive s (s.deleteForwardWord unicode) := by
  unfold TextArea.deleteForwardWord
  simp only
  split_ifs with hlt
  · exact killRange_holds h ⟨h.cursor.boundary, endOfNextWord_spec h, hlt.le⟩
  · exact ⟨h, .refl s⟩

theorem killToEndOfLine_holds (h : Atomic s) :
    Atomic s.killToEndOfLine ∧ Survive s s.killToEndOfLine := by
  obtain ⟨hboundary, hle, hnext⟩ := endOfLine_spec h.cursor.boundary
  unfold TextArea.killToEndOfLine
  simp only
  split_ifs with heol hlt
  · exact killRange_holds h ⟨h.cursor.boundary, hnext hlt, hle.trans (Nat.le_succ _)⟩
  · exact ⟨h, .refl s⟩
  · exact killRange_holds h ⟨h.cursor.boundary, hboundary, hle⟩

theorem killToBeginningOfLine_holds (h : Atomic s) :
    Atomic s.killToBeginningOfLine ∧ Survive s s.killToBeginningOfLine := by
  obtain ⟨hboundary, hle, hprev⟩ := beginningOfLine_spec h.cursor.boundary
  unfold TextArea.killToBeginningOfLine
  simp only
  split_ifs with hbol hlt
  · exact killRange_holds h ⟨hprev hlt, hboundary, Nat.sub_le _ _⟩
  · exact ⟨h, .refl s⟩
  · exact killRange_holds h ⟨hboundary, h.cursor.boundary, hle⟩

theorem yank_holds (h : Atomic s) : Atomic s.yank ∧ Survive s s.yank := by
  unfold TextArea.yank
  split_ifs
  · exact ⟨h, .refl s⟩
  · exact insertStrAt_holds h _ _

theorem moveCursorUp_holds (h : Atomic s) :
    Atomic (s.moveCursorUp unicode) ∧ Survive s (s.moveCursorUp unicode) := by
  unfold TextArea.moveCursorUp
  split
  · exact moveToDisplayColOnLine_holds h _ _ _
  · exact moved h h.elements.edge_zero none

theorem moveCursorDown_holds (h : Atomic s) :
    Atomic (s.moveCursorDown unicode) ∧ Survive s (s.moveCursorDown unicode) := by
  unfold TextArea.moveCursorDown
  simp only
  split
  · exact moveToDisplayColOnLine_holds h _ _ _
  · exact moved h h.elements.edge_byteLen none

theorem moveCursorToBeginningOfLine_holds (h : Atomic s) (moveUpAtBol : Bool) :
    Atomic (s.moveCursorToBeginningOfLine moveUpAtBol) ∧
      Survive s (s.moveCursorToBeginningOfLine moveUpAtBol) := by
  unfold TextArea.moveCursorToBeginningOfLine
  simp only
  split_ifs
  · exact setCursor_holds h _
  · exact setCursor_holds h _

theorem moveCursorToEndOfLine_holds (h : Atomic s) (moveDownAtEol : Bool) :
    Atomic (s.moveCursorToEndOfLine moveDownAtEol) ∧
      Survive s (s.moveCursorToEndOfLine moveDownAtEol) := by
  unfold TextArea.moveCursorToEndOfLine
  simp only
  split_ifs
  · exact setCursor_holds h _
  · exact setCursor_holds h _

/-- A range is marked where the cursor is not strictly inside. -/
theorem addElementRange_holds (h : Atomic s) (hclear : TextOp.Clear s (.addElementRange range)) :
    Atomic (s.addElementRange range) ∧ Survive s (s.addElementRange range) := by
  unfold TextArea.addElementRange
  split
  · next start stop hmarked =>
    obtain ⟨hlt, hstart, hstop, hgap⟩ := markedRange_spec hmarked
    obtain ⟨hok, hperm⟩ := addElement_spec h.elements hlt hstart hstop hgap
    refine ⟨⟨hok, h.cursor.boundary, fun e he => ?_⟩, _, _, hperm, List.Sublist.refl _, ?_⟩
    · rcases List.mem_append.1 ((perm_sortByStart _).mem_iff.1 he) with he | he
      · exact h.cursor.outside e he
      · rw [List.mem_singleton.1 he]
        exact hclear (start, stop) hmarked
    · intro label hlabel
      rw [List.mem_singleton.1 hlabel]
      exact ⟨0, rfl⟩
  · exact ⟨h, .refl s⟩

theorem removeElementRange_holds (h : Atomic s) :
    Atomic (s.removeElementRange range) ∧ Survive s (s.removeElementRange range) := by
  obtain ⟨hatomic, hkept⟩ := removeElementRange_spec h range
  exact ⟨hatomic, .of_sublist hkept⟩

/-- Text that is inserted is where the cursor was, and the cursor directly after it. -/
theorem insertStr_insert (h : Atomic s) (text : List Char) :
    (s.insertStr text).text = sliceTo s.cursorPos s.text ++ text ++ sliceFrom s.cursorPos s.text ∧
      (s.insertStr text).cursorPos = s.cursorPos + byteLen text := by
  have hclamp : s.clampPosForInsertion s.cursorPos = s.cursorPos :=
    clampOutOfElements_of_edge h.cursor
  simp only [TextArea.insertStr, TextArea.insertStrAt, hclamp, if_pos (Nat.le_refl s.cursorPos)]
  exact ⟨rfl, trivial⟩

theorem apply_holds (h : Atomic s) (hpermitted : op.Permitted s) (hclear : op.Clear s) :
    Holds op s (op.apply unicode s) := by
  suffices hkeeps : Atomic (op.apply unicode s) ∧ op.Keeps s (op.apply unicode s) by
    refine ⟨hkeeps.1, hkeeps.2, ?_⟩
    rintro text rfl
    exact insertStr_insert h text
  cases op with
  | setText text ranges => exact setTextInner_spec s text ranges hpermitted
  | insertStr text => exact insertStrAt_holds h _ text
  | insertStrAt pos text => exact insertStrAt_holds h pos text
  | replaceRange range text => exact replaceRange_holds h hpermitted text
  | deleteBackward n => exact deleteBackward_holds h n
  | deleteForward n => exact deleteForward_holds h n
  | deleteBackwardWord =>
    obtain ⟨hboundary, hle⟩ := beginningOfPreviousWord_spec unicode h
    exact killRange_holds h ⟨hboundary, h.cursor.boundary, hle⟩
  | deleteForwardWord => exact deleteForwardWord_holds h
  | killToEndOfLine => exact killToEndOfLine_holds h
  | killToBeginningOfLine => exact killToBeginningOfLine_holds h
  | yank => exact yank_holds h
  | setCursor pos => exact setCursor_holds h pos
  | moveCursorLeft =>
    exact moved h (prevAtomicBoundary_spec unicode h.elements h.cursor.boundary).1 none
  | moveCursorRight =>
    exact moved h (nextAtomicBoundary_spec unicode h.elements h.cursor.boundary).1 none
  | moveCursorUp => exact moveCursorUp_holds h
  | moveCursorDown => exact moveCursorDown_holds h
  | moveCursorToBeginningOfLine moveUpAtBol => exact moveCursorToBeginningOfLine_holds h _
  | moveCursorToEndOfLine moveDownAtEol => exact moveCursorToEndOfLine_holds h _
  | insertElement text => exact insertElement_spec h hpermitted
  | replaceElementPayload old new => exact replaceElementPayload_spec h hpermitted
  | addElementRange range => exact addElementRange_holds h hclear
  | removeElementRange range => exact removeElementRange_holds h

/-- Where the cursor is strictly inside the marked range it is inside an element. -/
theorem clear_of_atomic (h : Atomic (op.apply unicode s)) : op.Clear s := by
  cases op with
  | addElementRange range =>
    rintro ⟨start, stop⟩ hmarked hinside
    have happly : TextOp.apply unicode s (.addElementRange range) = s.addElement start stop := by
      simp only [TextOp.apply, TextArea.addElementRange]
      rw [Option.mem_def.1 hmarked]
    rw [happly] at h
    have hmem : ({ id := s.nextElementId, start, stop } : TextElement) ∈
        (s.addElement start stop).elements :=
      (perm_sortByStart _).mem_iff.2 (by simp)
    exact h.cursor.outside _ hmem hinside
  | _ => trivial

/-! ## Runs -/

/-- **Atomic elements.** In a run whose operations are clear the elements stay whole and the cursor
outside them. In the states of such a run an operation does what it is to do when it is clear, and
not otherwise. -/
theorem textArea_spec (unicode : Segmentation) :
    (∀ s, ((system unicode).restrict fun s op => op.Clear s).Reach s → Atomic s) ∧
      ∀ s op, ((system unicode).restrict fun s op => op.Clear s).Reach s → op.Permitted s →
        (Holds op s (op.apply unicode s) ↔ op.Clear s) := by
  have hatomic : ∀ s, ((system unicode).restrict fun s op => op.Clear s).Reach s → Atomic s := by
    intro s hreach
    refine hreach.invariant (fun s hs => ?_) fun s op s' h hstep => ?_
    · rw [hs]
      have hok : ElementsOk [] [] := ⟨.nil, nofun, nofun, nofun⟩
      exact ⟨hok, hok.edge_zero⟩
    · obtain ⟨hclear, hpermitted, rfl⟩ := hstep
      exact (apply_holds h hpermitted hclear).atomic
  exact ⟨hatomic, fun s op hreach hpermitted =>
    ⟨fun h => clear_of_atomic h.atomic, apply_holds (hatomic s hreach) hpermitted⟩⟩

end

/-- Segmentation into characters of one column. -/
def perChar : Segmentation where
  prevBoundary text pos := if pos = 0 then none else some (floorBoundary text (pos - 1))
  nextBoundary text pos :=
    if byteLen text ≤ pos then none
    else some (ceilBoundary text (byteLen text - (pos + 1)) (pos + 1))
  graphemeIndices text := (charIndices text).map fun entry => (entry.1, [entry.2])
  splitWordBoundIndices run := [(0, run)]
  width text := text.length
  prevBoundary_spec text pos boundary _ h := by
    split_ifs at h with hzero
    obtain rfl := Option.some.inj h
    have hle := floorBoundary_le text (pos - 1)
    exact ⟨isCharBoundary_floorBoundary text _, by omega⟩
  nextBoundary_spec text pos boundary _ h := by
    split_ifs at h with hend
    obtain rfl := Option.some.inj h
    have hceil := ceilBoundary_spec (s := text) (byteLen text - (pos + 1)) (pos + 1) (by omega)
    exact ⟨hceil.1, by omega⟩
  splitWordBoundIndices_spec run start segment h := by
    cases List.mem_singleton.1 h
    exact ⟨[], [], by simp, rfl⟩

/-- A command is marked while the cursor is inside it. -/
theorem not_atomic_marked : ¬ ∀ s, (system perChar).Reach s → Atomic s := by
  intro h
  have hpermitted : ∀ s, TextOp.Permitted s (.insertStr "/plan".toList) ∧
      TextOp.Permitted s (.setCursor 2) ∧ TextOp.Permitted s (.addElementRange (0, 5)) :=
    fun s => ⟨trivial, trivial, trivial⟩
  have hinsert := System.Reach.step (S := system perChar) (.init rfl) ⟨(hpermitted _).1, rfl⟩
  have hcursor := hinsert.step ⟨(hpermitted _).2.1, rfl⟩
  have hmark := hcursor.step ⟨(hpermitted _).2.2, rfl⟩
  refine (h _ hmark).cursor.outside { id := 1, start := 0, stop := 5 } ?_ ?_
  · decide +kernel
  · decide +kernel

end Mcodex.Tui
