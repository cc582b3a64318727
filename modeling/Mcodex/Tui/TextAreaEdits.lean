import Mathlib.Data.List.SplitBy
import Mathlib.Logic.Function.Iterate
import Mcodex.Tui.TextSpans

/-!
# Edits and moves of the text area keep its elements whole

`Atomic` says that the elements are ranges as they should be and that the cursor is a boundary
outside them. Positions are clamped to such boundaries (`clampOutOfElements_spec`), ranges are
expanded to them (`expand_spec`), and an edit between two of them replaces whole spans
(`replaceRangeRaw_spec`, `insertStrAt_spec`).
-/

namespace Mcodex.Tui

open Bytes Text

/-- A boundary of the text that is not strictly inside an element. -/
structure Edge (text : List Char) (elements : List TextElement) (pos : Nat) : Prop where
  boundary : isCharBoundary text pos
  outside : Outside elements pos

/-- The elements of the text area with their texts. -/
def TextArea.labels (s : TextArea) : List (Nat × List Char) := Tui.labels s.text s.elements

/-- The elements are whole and the cursor is outside them. -/
structure Atomic (s : TextArea) : Prop where
  elements : ElementsOk s.text s.elements
  cursor : Edge s.text s.elements s.cursorPos

section
variable {text : List Char} {elements processed : List TextElement} {e : TextElement}
  {s : TextArea} {pos start stop : Nat} {range : Nat × Nat} {unicode : Segmentation}

/-! ## Edges -/

theorem ElementsOk.edge_iff {spans : List Span} :
    Edge (spansText spans) (elementsFrom 0 spans) pos ↔ SpanBoundary spans pos := by
  refine ⟨fun h => ?_, fun h => ⟨h.isCharBoundary, h.outside⟩⟩
  have hout : Outside (elementsFrom 0 spans) (0 + pos) := by rw [Nat.zero_add]; exact h.outside
  exact spanBoundary_of_outside h.boundary hout

theorem ElementsOk.edge_start (h : ElementsOk text elements) (he : e ∈ elements) :
    Edge text elements e.start := by
  obtain ⟨spans, rfl, rfl⟩ := h.exists_spans
  exact edge_iff.2 (spanBoundary_start he)

theorem ElementsOk.edge_stop (h : ElementsOk text elements) (he : e ∈ elements) :
    Edge text elements e.stop := by
  obtain ⟨spans, rfl, rfl⟩ := h.exists_spans
  exact edge_iff.2 (spanBoundary_stop he)

theorem ElementsOk.edge_zero (h : ElementsOk text elements) : Edge text elements 0 := by
  obtain ⟨spans, rfl, rfl⟩ := h.exists_spans
  exact edge_iff.2 ⟨[], spans, rfl, rfl⟩

theorem ElementsOk.edge_byteLen (h : ElementsOk text elements) :
    Edge text elements (byteLen text) := by
  obtain ⟨spans, rfl, rfl⟩ := h.exists_spans
  exact edge_iff.2 ⟨spans, [], (List.append_nil spans).symm, rfl⟩

/-- Two edges cut the spans in three. -/
theorem ElementsOk.exists_cut (h : ElementsOk text elements) (hstart : Edge text elements start)
    (hstop : Edge text elements stop) (hle : start ≤ stop) :
    ∃ before middle after, text = spansText (before ++ middle ++ after) ∧
      elements = elementsFrom 0 (before ++ middle ++ after) ∧ start = byteLen (spansText before) ∧
      stop = byteLen (spansText before) + byteLen (spansText middle) := by
  obtain ⟨spans, rfl, rfl⟩ := h.exists_spans
  obtain ⟨before, rest, hbefore, rfl⟩ := edge_iff.1 hstart
  obtain ⟨upTo, after, hupTo, rfl⟩ := edge_iff.1 hstop
  obtain ⟨middle, rfl⟩ : before <+: upTo := by
    rcases List.prefix_or_prefix_of_prefix ⟨rest, hbefore.symm⟩ ⟨after, hupTo.symm⟩ with
      hpre | ⟨middle, rfl⟩
    · exact hpre
    · rw [spansText_append, byteLen_append] at hle
      cases middle with
      | nil => rw [List.append_nil]
      | cons span middle =>
        have hpos := span.byteLen_text_pos
        rw [spansText_cons, byteLen_append] at hle
        omega
  exact ⟨before, middle, after, by rw [hupTo], by rw [hupTo], rfl, by
    rw [spansText_append, byteLen_append]⟩

theorem findElementContaining_none (h : s.findElementContaining pos = none) :
    Outside s.elements pos := by
  intro e he hinside
  have hnot := List.find?_eq_none.1 h e he
  simp [hinside] at hnot

theorem clampOutOfElements_spec (h : ElementsOk s.text s.elements) (pos : Nat) :
    Edge s.text s.elements (s.clampOutOfElements pos) := by
  unfold TextArea.clampOutOfElements
  simp only
  split
  · next e hfind =>
    have he := List.mem_of_find?_eq_some hfind
    split
    · rw [clampToBoundary_of_boundary (h.startBoundary e he)]
      exact h.edge_start he
    · rw [clampToBoundary_of_boundary (h.stopBoundary e he)]
      exact h.edge_stop he
  · next hfind =>
    exact ⟨isCharBoundary_clampToBoundary _ _, findElementContaining_none hfind⟩

/-- An edge is not clamped. -/
theorem clampOutOfElements_of_edge (h : Edge s.text s.elements pos) :
    s.clampOutOfElements pos = pos := by
  unfold TextArea.clampOutOfElements
  simp only [clampToBoundary_of_boundary h.boundary]
  split
  · next e hfind =>
    have hinside := List.find?_some hfind
    simp only [Bool.and_eq_true, decide_eq_true_eq] at hinside
    exact absurd hinside (h.outside e (List.mem_of_find?_eq_some hfind))
  · rfl

variable (unicode) in
theorem prevAtomicBoundary_spec (h : ElementsOk s.text s.elements)
    (hpos : isCharBoundary s.text pos) :
    Edge s.text s.elements (s.prevAtomicBoundary unicode pos) ∧
      s.prevAtomicBoundary unicode pos ≤ pos := by
  unfold TextArea.prevAtomicBoundary
  split_ifs with hzero
  · exact ⟨h.edge_zero, Nat.zero_le _⟩
  split
  · next e hfind =>
    have hmeets := List.find?_some hfind
    simp only [Bool.and_eq_true, decide_eq_true_eq] at hmeets
    exact ⟨h.edge_start (List.mem_of_find?_eq_some hfind), hmeets.1.le⟩
  split
  · next boundary hprev =>
    obtain ⟨hboundary, hlt⟩ := unicode.prevBoundary_spec _ _ _ hpos hprev
    split
    · next e hfind =>
      have hinside := List.find?_some hfind
      simp only [Bool.and_eq_true, decide_eq_true_eq] at hinside
      exact ⟨h.edge_start (List.mem_of_find?_eq_some hfind), by omega⟩
    · next hfind => exact ⟨⟨hboundary, findElementContaining_none hfind⟩, hlt.le⟩
  · exact ⟨h.edge_zero, Nat.zero_le _⟩

variable (unicode) in
theorem nextAtomicBoundary_spec (h : ElementsOk s.text s.elements)
    (hpos : isCharBoundary s.text pos) :
    Edge s.text s.elements (s.nextAtomicBoundary unicode pos) ∧
      pos ≤ s.nextAtomicBoundary unicode pos := by
  have hle := le_byteLen_of_boundary hpos
  unfold TextArea.nextAtomicBoundary
  split_ifs with hend
  · exact ⟨h.edge_byteLen, hle⟩
  split
  · next e hfind =>
    have hmeets := List.find?_some hfind
    simp only [Bool.and_eq_true, decide_eq_true_eq] at hmeets
    exact ⟨h.edge_stop (List.mem_of_find?_eq_some hfind), hmeets.2.le⟩
  split
  · next boundary hnext =>
    obtain ⟨hboundary, hlt⟩ := unicode.nextBoundary_spec _ _ _ hpos hnext
    split
    · next e hfind =>
      have hinside := List.find?_some hfind
      simp only [Bool.and_eq_true, decide_eq_true_eq] at hinside
      exact ⟨h.edge_stop (List.mem_of_find?_eq_some hfind), by omega⟩
    · next hfind => exact ⟨⟨hboundary, findElementContaining_none hfind⟩, hlt.le⟩
  · exact ⟨h.edge_byteLen, hle⟩

variable (unicode) in
theorem backwardTarget_spec (h : ElementsOk s.text s.elements) (n : Nat)
    (hpos : Edge s.text s.elements pos) :
    Edge s.text s.elements (s.backwardTarget unicode n pos) ∧
      s.backwardTarget unicode n pos ≤ pos := by
  induction n generalizing pos with
  | zero => exact ⟨hpos, Nat.le_refl _⟩
  | succ n ih =>
    obtain ⟨hedge, hle⟩ := prevAtomicBoundary_spec unicode h hpos.boundary
    unfold TextArea.backwardTarget
    simp only
    split_ifs
    · exact ⟨hedge, hle⟩
    · exact ⟨(ih hedge).1, (ih hedge).2.trans hle⟩

variable (unicode) in
theorem forwardTarget_spec (h : ElementsOk s.text s.elements) (n : Nat)
    (hpos : Edge s.text s.elements pos) :
    Edge s.text s.elements (s.forwardTarget unicode n pos) ∧
      pos ≤ s.forwardTarget unicode n pos := by
  induction n generalizing pos with
  | zero => exact ⟨hpos, Nat.le_refl _⟩
  | succ n ih =>
    obtain ⟨hedge, hle⟩ := nextAtomicBoundary_spec unicode h hpos.boundary
    unfold TextArea.forwardTarget
    simp only
    split_ifs
    · exact ⟨hedge, hle⟩
    · exact ⟨(ih hedge).1, hle.trans (ih hedge).2⟩

/-! ## Ranges -/

/-- A range between boundaries. -/
structure Range (text : List Char) (range : Nat × Nat) : Prop where
  first : isCharBoundary text range.1
  last : isCharBoundary text range.2
  le : range.1 ≤ range.2

/-- A range that is expanded over an element ends outside it, and outside those before. -/
theorem expandOver_spec (h : ElementsOk text elements) (he : e ∈ elements)
    (hprocessed : processed ⊆ elements) (hrange : Range text range)
    (hfirst : Outside processed range.1) (hlast : Outside processed range.2) :
    Range text (TextArea.expandOver range e) ∧
      Outside (processed ++ [e]) (TextArea.expandOver range e).1 ∧
      Outside (processed ++ [e]) (TextArea.expandOver range e).2 := by
  have hlt := h.nonempty e he
  have hle := hrange.le
  have hall : processed ++ [e] ⊆ elements := by
    simpa [List.append_subset] using ⟨hprocessed, he⟩
  have hedge : ∀ pos, (pos = e.start ∨ pos = e.stop) → Outside (processed ++ [e]) pos := by
    rintro pos (rfl | rfl) e' he'
    · exact (h.edge_start he).outside e' (hall he')
    · exact (h.edge_stop he).outside e' (hall he')
  have hkeep : ∀ pos, Outside processed pos → ¬ (e.start < pos ∧ pos < e.stop) →
      Outside (processed ++ [e]) pos := by
    intro pos hout hnot e' he'
    rcases List.mem_append.1 he' with he' | he'
    · exact hout e' he'
    · rwa [List.mem_singleton.1 he']
  unfold TextArea.expandOver
  split_ifs with hmeets
  · simp only [Bool.and_eq_true, decide_eq_true_eq] at hmeets
    refine ⟨⟨?_, ?_, by simp only; omega⟩, ?_, ?_⟩
    · rcases Nat.le_total range.1 e.start with hcase | hcase
      · simpa only [Nat.min_eq_left hcase] using hrange.first
      · simpa only [Nat.min_eq_right hcase] using h.startBoundary e he
    · rcases Nat.le_total range.2 e.stop with hcase | hcase
      · simpa only [Nat.max_eq_right hcase] using h.stopBoundary e he
      · simpa only [Nat.max_eq_left hcase] using hrange.last
    · rcases Nat.le_total range.1 e.start with hcase | hcase
      · simp only [Nat.min_eq_left hcase]
        exact hkeep _ hfirst (by omega)
      · exact hedge _ (.inl (Nat.min_eq_right hcase))
    · rcases Nat.le_total range.2 e.stop with hcase | hcase
      · exact hedge _ (.inr (Nat.max_eq_right hcase))
      · simp only [Nat.max_eq_left hcase]
        exact hkeep _ hlast (by omega)
  · simp only [Bool.and_eq_true, decide_eq_true_eq] at hmeets
    exact ⟨hrange, hkeep _ hfirst (by omega), hkeep _ hlast (by omega)⟩

/-- A pass over elements that come after processed ones. -/
theorem expandPass_spec (h : ElementsOk text elements) {rest : List TextElement}
    (hsplit : elements = processed ++ rest) (hrange : Range text range)
    (hfirst : Outside processed range.1) (hlast : Outside processed range.2) :
    Range text (rest.foldl TextArea.expandOver range) ∧
      Outside elements (rest.foldl TextArea.expandOver range).1 ∧
      Outside elements (rest.foldl TextArea.expandOver range).2 := by
  induction rest generalizing processed range with
  | nil =>
    obtain rfl : elements = processed := by rw [hsplit, List.append_nil]
    exact ⟨hrange, hfirst, hlast⟩
  | cons e rest ih =>
    have he : e ∈ elements := by simp [hsplit]
    obtain ⟨hrange', hfirst', hlast'⟩ := expandOver_spec h he
      (hsplit ▸ List.subset_append_left processed (e :: rest)) hrange hfirst hlast
    exact ih (by rw [hsplit, List.append_assoc]; rfl) hrange' hfirst' hlast'

/-- A range is expanded to edges. -/
theorem expand_spec (h : ElementsOk s.text s.elements) (hrange : Range s.text range) :
    Edge s.text s.elements (s.expandRangeToElementBoundaries range).1 ∧
      Edge s.text s.elements (s.expandRangeToElementBoundaries range).2 ∧
      (s.expandRangeToElementBoundaries range).1 ≤ (s.expandRangeToElementBoundaries range).2 := by
  have hpass : ∀ range, Range s.text range →
      Range s.text (s.elements.foldl TextArea.expandOver range) ∧
        Outside s.elements (s.elements.foldl TextArea.expandOver range).1 ∧
        Outside s.elements (s.elements.foldl TextArea.expandOver range).2 :=
    fun range hrange => expandPass_spec h (List.nil_append s.elements).symm hrange nofun nofun
  have hpasses : ∀ n, Range s.text
      ((fun range => s.elements.foldl TextArea.expandOver range)^[n] range) := by
    intro n
    induction n with
    | zero => exact hrange
    | succ n ih =>
      rw [Function.iterate_succ_apply']
      exact (hpass _ ih).1
  obtain ⟨hlast, hfirst, hsecond⟩ := hpass _ (hpasses s.elements.length)
  rw [TextArea.expandRangeToElementBoundaries, Function.iterate_succ_apply']
  exact ⟨⟨hlast.first, hfirst⟩, ⟨hlast.last, hsecond⟩, hlast.le⟩

/-! ## Edits -/

theorem replaceRange_spans (before middle after : List Span) (new : List Char) :
    Bytes.replaceRange (spansText (before ++ middle ++ after)) (byteLen (spansText before))
        (byteLen (spansText before) + byteLen (spansText middle)) new =
      spansText (before ++ new.map .char ++ after) := by
  rw [spansText_append, spansText_append, replaceRange_append, spansText_append, spansText_append,
    spansText_char]

theorem shiftElements_replace (before middle after : List Span) (new : List Char) :
    TextArea.shiftElements (elementsFrom 0 (before ++ middle ++ after))
        (byteLen (spansText before)) (byteLen (spansText middle)) (byteLen new) =
      elementsFrom 0 (before ++ new.map .char ++ after) := by
  rw [shiftElements_spans, elementsFrom_append, elementsFrom_append, elementsFrom_char,
    List.append_nil, spansText_append, spansText_char, byteLen_append, Nat.zero_add]

theorem filterMap_label_char (new : List Char) : (new.map Span.char).filterMap Span.label = [] := by
  induction new with
  | nil => rfl
  | cons c new ih => exact ih

/-- The elements that are left after an edit between two edges are whole and keep their texts. -/
theorem replace_spec (h : ElementsOk text elements) (hstart : Edge text elements start)
    (hstop : Edge text elements stop) (hle : start ≤ stop) (new : List Char) :
    ElementsOk (Bytes.replaceRange text start stop new)
        (TextArea.shiftElements elements start (stop - start) (byteLen new)) ∧
      (labels (Bytes.replaceRange text start stop new)
        (TextArea.shiftElements elements start (stop - start) (byteLen new))).Sublist
        (labels text elements) := by
  obtain ⟨before, middle, after, rfl, rfl, rfl, rfl⟩ := h.exists_cut hstart hstop hle
  rw [Nat.add_sub_cancel_left, replaceRange_spans, shiftElements_replace, labels_spans,
    labels_spans]
  refine ⟨elementsOk_elementsFrom _, ?_⟩
  simp only [List.filterMap_append, filterMap_label_char, List.append_nil]
  exact List.Sublist.append_right (List.sublist_append_left _ _) _

/-- Where an insertion at an edge leaves another edge. -/
theorem edge_insert (h : ElementsOk text elements) (hstart : Edge text elements start)
    (hpos : Edge text elements pos) (new : List Char) :
    Edge (Bytes.replaceRange text start start new)
      (TextArea.shiftElements elements start 0 (byteLen new))
      (if start ≤ pos then pos + byteLen new else pos) := by
  split_ifs with hle
  · obtain ⟨before, middle, after, rfl, rfl, rfl, rfl⟩ := h.exists_cut hstart hpos hle
    have htext := replaceRange_spans before [] (middle ++ after) new
    have helements := shiftElements_replace before [] (middle ++ after) new
    simp only [List.append_nil, spansText_nil, byteLen_nil, Nat.add_zero, ← List.append_assoc]
      at htext helements
    rw [htext, helements]
    refine ElementsOk.edge_iff.2 ⟨before ++ new.map .char ++ middle, after, by simp, ?_⟩
    simp only [spansText_append, byteLen_append, spansText_char]
    omega
  · obtain ⟨before, middle, after, rfl, rfl, rfl, rfl⟩ :=
      h.exists_cut hpos hstart (Nat.le_of_not_le hle)
    have hlength : byteLen (spansText before) + byteLen (spansText middle) =
        byteLen (spansText (before ++ middle)) := by rw [spansText_append, byteLen_append]
    have htext := replaceRange_spans (before ++ middle) [] after new
    have helements := shiftElements_replace (before ++ middle) [] after new
    simp only [List.append_nil, spansText_nil, byteLen_nil, Nat.add_zero] at htext helements
    rw [hlength, htext, helements]
    exact ElementsOk.edge_iff.2 ⟨before, middle ++ new.map .char ++ after, by simp, rfl⟩

theorem insertStrAt_spec (h : Atomic s) (pos : Nat) (new : List Char) :
    Atomic (s.insertStrAt pos new) ∧
      (s.insertStrAt pos new).labels.Sublist s.labels := by
  have hedge : Edge s.text s.elements (s.clampPosForInsertion pos) :=
    clampOutOfElements_spec h.elements pos
  obtain ⟨hok, hlabels⟩ := replace_spec h.elements hedge hedge (Nat.le_refl _) new
  rw [Nat.sub_self] at hok hlabels
  exact ⟨⟨hok, edge_insert h.elements hedge h.cursor new⟩, hlabels⟩

theorem replaceRangeRaw_spec (h : Atomic s) (hstart : Edge s.text s.elements range.1)
    (hstop : Edge s.text s.elements range.2) (hle : range.1 ≤ range.2) (new : List Char) :
    Atomic (s.replaceRangeRaw range new) ∧
      (s.replaceRangeRaw range new).labels.Sublist s.labels := by
  obtain ⟨hok, hlabels⟩ := replace_spec h.elements hstart hstop hle new
  unfold TextArea.replaceRangeRaw
  simp only [Nat.min_eq_left (le_byteLen_of_boundary hstart.boundary),
    Nat.min_eq_left (le_byteLen_of_boundary hstop.boundary)]
  split_ifs
  · exact ⟨h, List.Sublist.refl _⟩
  · exact ⟨⟨hok, clampOutOfElements_spec (s := { s with
      text := Bytes.replaceRange s.text range.1 range.2 new
      preferredCol := none
      elements := TextArea.shiftElements s.elements range.1 (range.2 - range.1) (byteLen new) })
      hok _⟩, hlabels⟩

theorem replaceRange_spec (h : Atomic s) (hrange : Range s.text range) (new : List Char) :
    Atomic (s.replaceRange range new) ∧
      (s.replaceRange range new).labels.Sublist s.labels := by
  obtain ⟨hstart, hstop, hle⟩ := expand_spec h.elements hrange
  exact replaceRangeRaw_spec h hstart hstop hle new

theorem killRange_spec (h : Atomic s) (hrange : Range s.text range) :
    Atomic (s.killRange range) ∧
      (s.killRange range).labels.Sublist s.labels := by
  obtain ⟨hstart, hstop, hle⟩ := expand_spec h.elements hrange
  unfold TextArea.killRange
  simp only
  split_ifs
  · exact ⟨h, List.Sublist.refl _⟩
  · exact ⟨h, List.Sublist.refl _⟩
  · exact replaceRangeRaw_spec (s := { s with
      killBuffer := slice s.text (s.expandRangeToElementBoundaries range).1
        (s.expandRangeToElementBoundaries range).2 }) ⟨h.elements, h.cursor⟩ hstart hstop hle []

/-! ## Lines and words -/

theorem find_spec {p : Char → Bool} (h : find text p = some pos) :
    ∃ before c after, text = before ++ c :: after ∧ pos = byteLen before ∧ p c := by
  obtain ⟨⟨offset, c⟩, hfind, rfl⟩ := Option.map_eq_some_iff.1 h
  obtain ⟨before, after, htext, hoffset⟩ := mem_charIndices (List.mem_of_find?_eq_some hfind)
  have hc := List.find?_some hfind
  exact ⟨before, c, after, htext, hoffset, hc⟩

theorem rfind_spec {p : Char → Bool} {c : Char} (h : rfind text p = some (pos, c)) :
    ∃ before after, text = before ++ c :: after ∧ pos = byteLen before ∧ p c := by
  obtain ⟨before, after, htext, hoffset⟩ :=
    mem_charIndices (List.mem_reverse.1 (List.mem_of_find?_eq_some h))
  have hc := List.find?_some h
  exact ⟨before, after, htext, hoffset, hc⟩

/-- A line begins at a boundary, and a line after another one begins with one byte before it. -/
theorem beginningOfLine_spec (h : isCharBoundary s.text pos) :
    isCharBoundary s.text (s.beginningOfLine pos) ∧ s.beginningOfLine pos ≤ pos ∧
      (0 < s.beginningOfLine pos → isCharBoundary s.text (s.beginningOfLine pos - 1)) := by
  obtain ⟨p, t, htext, rfl⟩ := isCharBoundary_iff.1 h
  unfold TextArea.beginningOfLine
  rw [htext, sliceTo_append]
  split
  · next newline c hfind =>
    obtain ⟨before, after, rfl, rfl, hc⟩ := rfind_spec hfind
    obtain rfl : c = '\n' := of_decide_eq_true hc
    have hlast : byteLen before + 1 = byteLen (before ++ ['\n']) := by rw [byteLen_append]; rfl
    refine ⟨?_, ?_, fun _ => ?_⟩
    · rw [hlast]
      exact isCharBoundary_iff.2 ⟨before ++ ['\n'], after ++ t, by simp, rfl⟩
    · rw [byteLen_append, byteLen_cons]
      exact Nat.add_le_add_left (Nat.le_add_right _ _) _
    · rw [Nat.add_sub_cancel, List.append_assoc]
      exact isCharBoundary_append before _
  · exact ⟨isCharBoundary_zero _, Nat.zero_le _, fun hpos => absurd hpos (Nat.lt_irrefl 0)⟩

/-- A line ends at a boundary, one byte before the next line. -/
theorem endOfLine_spec (h : isCharBoundary s.text pos) :
    isCharBoundary s.text (s.endOfLine pos) ∧ pos ≤ s.endOfLine pos ∧
      (s.endOfLine pos < byteLen s.text → isCharBoundary s.text (s.endOfLine pos + 1)) := by
  obtain ⟨p, t, htext, rfl⟩ := isCharBoundary_iff.1 h
  unfold TextArea.endOfLine
  rw [htext, sliceFrom_append]
  split
  · next newline hfind =>
    obtain ⟨before, c, after, rfl, rfl, hc⟩ := find_spec hfind
    obtain rfl : c = '\n' := of_decide_eq_true hc
    refine ⟨?_, Nat.le_add_left _ _, fun _ => ?_⟩
    · exact isCharBoundary_iff.2 ⟨p ++ before, '\n' :: after, by simp, by
        rw [byteLen_append, Nat.add_comm]⟩
    · refine isCharBoundary_iff.2 ⟨p ++ before ++ ['\n'], after, by simp, ?_⟩
      rw [byteLen_append, byteLen_append, Nat.add_comm (byteLen before)]
      rfl
  · refine ⟨isCharBoundary_byteLen _, ?_, fun hlt => absurd hlt (Nat.lt_irrefl _)⟩
    rw [byteLen_append]
    exact Nat.le_add_right _ _

theorem mem_offsetsFrom {pieces : List (List Char)} {offset : Nat} {entry : Nat × List Char}
    (h : entry ∈ offsetsFrom offset pieces) :
    ∃ before after, pieces.flatten = before ++ entry.2 ++ after ∧
      entry.1 = offset + byteLen before := by
  induction pieces generalizing offset with
  | nil => cases h
  | cons piece pieces ih =>
    rcases List.mem_cons.1 h with rfl | h
    · exact ⟨[], pieces.flatten, rfl, rfl⟩
    · obtain ⟨before, after, hflatten, hoffset⟩ := ih h
      refine ⟨piece ++ before, after, ?_, ?_⟩
      · rw [List.flatten_cons, hflatten, List.append_assoc, List.append_assoc, List.append_assoc]
      · rw [hoffset, byteLen_append, Nat.add_assoc]

/-- A piece of a run is a part of it, at its offset. -/
theorem mem_splitWordPieces {run : List Char} {entry : Nat × List Char}
    (h : entry ∈ splitWordPieces unicode run) :
    ∃ before after, run = before ++ entry.2 ++ after ∧ entry.1 = byteLen before := by
  obtain ⟨⟨offset, segment⟩, hsegment, hentry⟩ := List.mem_flatMap.1 h
  obtain ⟨p, t, hrun, rfl⟩ := unicode.splitWordBoundIndices_spec _ _ _ hsegment
  obtain ⟨before, after, hflatten, hoffset⟩ := mem_offsetsFrom hentry
  rw [List.flatten_splitBy] at hflatten
  refine ⟨p ++ before, after ++ t, ?_, ?_⟩
  · rw [hrun, hflatten]
    simp only [List.append_assoc]
  · rw [hoffset, byteLen_append]

/-- A loop that keeps what it computes last. -/
theorem foldl_last {α β : Type} (f : α → β) (init : β) (xs : List α) :
    xs.foldl (fun _ x => f x) init = init ∨ ∃ x ∈ xs, xs.foldl (fun _ x => f x) init = f x := by
  induction xs generalizing init with
  | nil => exact .inl rfl
  | cons x xs ih =>
    rcases ih (f x) with h | ⟨y, hy, h⟩
    · exact .inr ⟨x, List.mem_cons_self, h⟩
    · exact .inr ⟨y, List.mem_cons_of_mem _ hy, h⟩

theorem adjustPosOutOfElements_spec (h : ElementsOk s.text s.elements)
    (hpos : isCharBoundary s.text pos) (preferStart : Bool) :
    isCharBoundary s.text (s.adjustPosOutOfElements pos preferStart) ∧
      (preferStart → s.adjustPosOutOfElements pos preferStart ≤ pos) := by
  unfold TextArea.adjustPosOutOfElements
  split
  · next e hfind =>
    have he := List.mem_of_find?_eq_some hfind
    have hinside := List.find?_some hfind
    simp only [Bool.and_eq_true, decide_eq_true_eq] at hinside
    cases preferStart with
    | true => exact ⟨h.startBoundary e he, fun _ => hinside.1.le⟩
    | false => exact ⟨h.stopBoundary e he, nofun⟩
  · exact ⟨hpos, fun _ => Nat.le_refl _⟩

variable (unicode) in
/-- The previous word begins at a boundary before the cursor. -/
theorem beginningOfPreviousWord_spec (h : Atomic s) :
    isCharBoundary s.text (s.beginningOfPreviousWord unicode) ∧
      s.beginningOfPreviousWord unicode ≤ s.cursorPos := by
  obtain ⟨p, t, htext, hcursor⟩ := isCharBoundary_iff.1 h.cursor.boundary
  have hbefore : sliceTo s.cursorPos s.text = p := by rw [htext, ← hcursor, sliceTo_append]
  unfold TextArea.beginningOfPreviousWord
  simp only [hbefore]
  split
  · exact ⟨isCharBoundary_zero _, Nat.zero_le _⟩
  · next firstNonWs c hfind =>
    obtain ⟨a, b, hp, rfl, -⟩ := rfind_spec hfind
    have ha : sliceTo (byteLen a) p = a := by rw [hp, sliceTo_append]
    obtain ⟨q, y, hq, hrunStart⟩ : ∃ q y, a = q ++ y ∧
        endOfBlank (sliceTo (byteLen a) p) = byteLen q := by
      rw [ha, endOfBlank]
      split
      · exact ⟨[], a, rfl, rfl⟩
      · next blank d hblank =>
        obtain ⟨x, y, hx, rfl, -⟩ := rfind_spec hblank
        exact ⟨x ++ [d], y, by rw [hx, List.append_assoc]; rfl, by rw [byteLen_append]; rfl⟩
    rw [hrunStart]
    have hrun : slice p (byteLen q) (byteLen a + c.utf8Size) = y ++ [c] := by
      have hcut : p = q ++ (y ++ [c]) ++ b := by rw [hp, hq]; simp
      have hstop : byteLen a + c.utf8Size = byteLen q + byteLen (y ++ [c]) := by
        rw [hq, byteLen_append, byteLen_append, Nat.add_assoc]
        rfl
      rw [hstop, hcut, slice_append]
    rw [hrun]
    -- A piece of the run starts at a boundary before the cursor.
    have hpiece : ∀ entry ∈ splitWordPieces unicode (y ++ [c]),
        isCharBoundary s.text (byteLen q + entry.1) ∧ byteLen q + entry.1 ≤ s.cursorPos := by
      intro entry hentry
      obtain ⟨u, v, huv, hu⟩ := mem_splitWordPieces hentry
      have hcut : p = q ++ u ++ (entry.2 ++ v ++ b) := by
        rw [hp, hq]
        calc q ++ y ++ c :: b = q ++ (y ++ [c]) ++ b := by simp
          _ = q ++ u ++ (entry.2 ++ v ++ b) := by rw [huv]; simp
      rw [hu, ← byteLen_append, htext, ← hcursor, hcut, byteLen_append (q ++ u)]
      refine ⟨?_, Nat.le_add_right _ _⟩
      rw [List.append_assoc]
      exact isCharBoundary_append _ _
    split
    · refine ⟨?_, ?_⟩
      · rw [htext, hp, hq]
        exact isCharBoundary_iff.2 ⟨q, y ++ c :: b ++ t, by simp, rfl⟩
      · rw [← hcursor, hp, hq, byteLen_append, byteLen_append]
        omega
    · next pieceStart piece pieces hpieces =>
      have hmem : ∀ entry ∈ (pieceStart, piece) :: pieces,
          isCharBoundary s.text (byteLen q + entry.1) ∧ byteLen q + entry.1 ≤ s.cursorPos :=
        fun entry hentry => hpiece entry (List.mem_reverse.1 (hpieces ▸ hentry))
      have hfirst := hmem _ List.mem_cons_self
      have hstart : ∀ start, isCharBoundary s.text start ∧ start ≤ s.cursorPos →
          isCharBoundary s.text (s.adjustPosOutOfElements start true) ∧
            s.adjustPosOutOfElements start true ≤ s.cursorPos := by
        intro start hstart
        obtain ⟨hboundary, hle⟩ := adjustPosOutOfElements_spec h.elements hstart.1 true
        exact ⟨hboundary, (hle rfl).trans hstart.2⟩
      split_ifs
      · refine hstart _ ?_
        rcases foldl_last (fun entry : Nat × List Char => byteLen q + entry.1)
          (byteLen q + pieceStart) (pieces.takeWhile fun entry => entry.2.all isWordSeparator) with
          hlast | ⟨entry, hentry, hlast⟩
        · rw [hlast]
          exact hfirst
        · rw [hlast]
          exact hmem entry (List.mem_cons_of_mem _ ((List.takeWhile_sublist _).subset hentry))
      · exact hstart _ hfirst

/-- The next word ends at a boundary. -/
theorem endOfNextWord_spec (h : Atomic s) : isCharBoundary s.text (s.endOfNextWord unicode) := by
  obtain ⟨p, t, htext, hcursor⟩ := isCharBoundary_iff.1 h.cursor.boundary
  have hafter : sliceFrom s.cursorPos s.text = t := by rw [htext, ← hcursor, sliceFrom_append]
  unfold TextArea.endOfNextWord
  simp only [hafter]
  split
  · exact isCharBoundary_byteLen _
  · next firstNonWs hfind =>
    obtain ⟨a, c, b, ht, rfl, -⟩ := find_spec hfind
    have hfrom : sliceFrom (byteLen a) t = c :: b := by rw [ht, sliceFrom_append]
    rw [hfrom]
    -- A piece of the run ends at a boundary.
    have hpiece : ∀ entry ∈ splitWordPieces unicode ((c :: b).takeWhile (!isWhitespace ·)),
        isCharBoundary s.text (s.cursorPos + byteLen a + entry.1 + byteLen entry.2) := by
      intro entry hentry
      obtain ⟨u, v, huv, hu⟩ := mem_splitWordPieces hentry
      have hcut : s.text =
          p ++ a ++ u ++ entry.2 ++ (v ++ (c :: b).dropWhile (!isWhitespace ·)) := by
        rw [htext, ht]
        conv_lhs => rw [← List.takeWhile_append_dropWhile (p := (!isWhitespace ·)) (l := c :: b)]
        rw [huv]
        simp only [List.append_assoc]
      rw [hu, ← hcursor, hcut, ← byteLen_append, ← byteLen_append, ← byteLen_append]
      exact isCharBoundary_append _ _
    split
    · rw [htext, ht, ← hcursor, ← byteLen_append]
      exact isCharBoundary_iff.2 ⟨p ++ a, c :: b, by simp, rfl⟩
    · next start piece pieces hpieces =>
      rw [hpieces] at hpiece
      have hfirst := hpiece _ List.mem_cons_self
      split_ifs
      · refine (adjustPosOutOfElements_spec h.elements ?_ false).1
        rcases foldl_last (fun entry : Nat × List Char =>
          s.cursorPos + byteLen a + entry.1 + byteLen entry.2)
          (s.cursorPos + byteLen a + start + byteLen piece)
          (pieces.takeWhile fun entry => entry.2.all isWordSeparator) with
          hlast | ⟨entry, hentry, hlast⟩
        · rw [hlast]
          exact hfirst
        · rw [hlast]
          exact hpiece entry (List.mem_cons_of_mem _ ((List.takeWhile_sublist _).subset hentry))
      · exact (adjustPosOutOfElements_spec h.elements hfirst false).1

end

end Mcodex.Tui
