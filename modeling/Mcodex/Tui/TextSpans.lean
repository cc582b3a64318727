import Mathlib.Data.List.Pairwise
import Mcodex.Tui.TextArea

/-!
# Texts as characters and elements

A text with elements is a list of spans: characters and whole elements. The ranges of the elements
follow from the spans (`elementsFrom`), and ranges that are in order, not empty and between
boundaries come from spans (`exists_spans`). An edit replaces whole spans, and the elements after it
are shifted by what it adds (`shiftElements_spans`).
-/

namespace Mcodex.Tui

open Bytes

inductive Span
  | char (c : Char)
  | element (id : Nat) (text : List Char) (nonempty : text ≠ [])

namespace Span

def text : Span → List Char
  | char c => [c]
  | element _ text _ => text

/-- An element with its text. -/
def label : Span → Option (Nat × List Char)
  | char _ => none
  | element id text _ => some (id, text)

end Span

def spansText (spans : List Span) : List Char := spans.flatMap Span.text

/-- The elements of spans, the first of which starts at an offset. -/
def elementsFrom : Nat → List Span → List TextElement
  | _, [] => []
  | offset, .char c :: spans => elementsFrom (offset + c.utf8Size) spans
  | offset, .element id text _ :: spans =>
    { id, start := offset, stop := offset + byteLen text } ::
      elementsFrom (offset + byteLen text) spans

/-- An offset between two spans. -/
def SpanBoundary (spans : List Span) (pos : Nat) : Prop :=
  ∃ before after, spans = before ++ after ∧ pos = byteLen (spansText before)

/-- A position is not strictly inside an element. -/
def Outside (elements : List TextElement) (pos : Nat) : Prop :=
  ∀ e ∈ elements, ¬ (e.start < pos ∧ pos < e.stop)

/-- Elements are ranges of the text between boundaries, in order, disjoint and not empty. -/
structure ElementsOk (text : List Char) (elements : List TextElement) : Prop where
  ordered : elements.Pairwise fun e e' => e.stop ≤ e'.start
  nonempty : ∀ e ∈ elements, e.start < e.stop
  startBoundary : ∀ e ∈ elements, isCharBoundary text e.start
  stopBoundary : ∀ e ∈ elements, isCharBoundary text e.stop

/-- The elements with their texts. -/
def labels (text : List Char) (elements : List TextElement) : List (Nat × List Char) :=
  elements.map fun e => (e.id, slice text e.start e.stop)

section
variable {text : List Char} {spans before middle after : List Span} {e : TextElement}
  {elements : List TextElement} {offset pos : Nat}

theorem byteLen_pos (h : text ≠ []) : 0 < byteLen text := by
  cases text with
  | nil => exact absurd rfl h
  | cons c text =>
    have hpos := c.utf8Size_pos
    rw [byteLen_cons]
    omega

theorem Span.byteLen_text_pos (span : Span) : 0 < byteLen span.text := by
  cases span with
  | char c => exact byteLen_pos (List.cons_ne_nil c [])
  | element id text nonempty => exact byteLen_pos nonempty

@[simp] theorem spansText_nil : spansText [] = [] := rfl

@[simp] theorem spansText_cons (span : Span) (spans : List Span) :
    spansText (span :: spans) = span.text ++ spansText spans := rfl

@[simp] theorem spansText_append (before after : List Span) :
    spansText (before ++ after) = spansText before ++ spansText after := List.flatMap_append

@[simp] theorem spansText_char (text : List Char) : spansText (text.map .char) = text := by
  induction text with
  | nil => rfl
  | cons c text ih => rw [List.map_cons, spansText_cons, ih, Span.text, List.singleton_append]

theorem elementsFrom_append (offset : Nat) (before after : List Span) :
    elementsFrom offset (before ++ after) =
      elementsFrom offset before ++ elementsFrom (offset + byteLen (spansText before)) after := by
  induction before generalizing offset with
  | nil => rfl
  | cons span before ih =>
    cases span with
    | char c =>
      rw [List.cons_append, elementsFrom, elementsFrom, ih, spansText_cons, byteLen_append,
        Nat.add_assoc]
      rfl
    | element id text h =>
      rw [List.cons_append, elementsFrom, elementsFrom, ih, spansText_cons, byteLen_append,
        Nat.add_assoc]
      rfl

theorem elementsFrom_char (offset : Nat) (text : List Char) :
    elementsFrom offset (text.map .char) = [] := by
  induction text generalizing offset with
  | nil => rfl
  | cons c text ih => exact ih _

/-- Spans that start later have later elements. -/
theorem elementsFrom_add (offset shift : Nat) (spans : List Span) :
    elementsFrom (offset + shift) spans =
      (elementsFrom offset spans).map fun e =>
        { e with start := e.start + shift, stop := e.stop + shift } := by
  induction spans generalizing offset with
  | nil => rfl
  | cons span spans ih =>
    cases span with
    | char c =>
      rw [elementsFrom, elementsFrom, ← ih, Nat.add_right_comm]
    | element id text h =>
      rw [elementsFrom, elementsFrom, List.map_cons, ← ih, Nat.add_right_comm]

theorem mem_elementsFrom (h : e ∈ elementsFrom offset spans) :
    ∃ before text nonempty after, spans = before ++ .element e.id text nonempty :: after ∧
      e.start = offset + byteLen (spansText before) ∧ e.stop = e.start + byteLen text := by
  induction spans generalizing offset with
  | nil => cases h
  | cons span spans ih =>
    cases span with
    | char c =>
      obtain ⟨before, text, hne, after, rfl, hstart, hstop⟩ := ih h
      refine ⟨.char c :: before, text, hne, after, rfl, ?_, hstop⟩
      rw [hstart, spansText_cons, byteLen_append, Nat.add_assoc]
      rfl
    | element id text hne =>
      rcases List.mem_cons.1 h with rfl | h
      · exact ⟨[], text, hne, spans, rfl, rfl, rfl⟩
      · obtain ⟨before, text', hne', after, rfl, hstart, hstop⟩ := ih h
        refine ⟨.element id text hne :: before, text', hne', after, rfl, ?_, hstop⟩
        rw [hstart, spansText_cons, byteLen_append, Nat.add_assoc]
        rfl

theorem SpanBoundary.isCharBoundary (h : SpanBoundary spans pos) :
    isCharBoundary (spansText spans) pos := by
  obtain ⟨before, after, rfl, rfl⟩ := h
  rw [spansText_append]
  exact isCharBoundary_append _ _

theorem spanBoundary_start (h : e ∈ elementsFrom 0 spans) : SpanBoundary spans e.start := by
  obtain ⟨before, text, hne, after, rfl, hstart, -⟩ := mem_elementsFrom h
  exact ⟨before, _, rfl, by rw [hstart, Nat.zero_add]⟩

theorem spanBoundary_stop (h : e ∈ elementsFrom 0 spans) : SpanBoundary spans e.stop := by
  obtain ⟨before, text, hne, after, rfl, hstart, hstop⟩ := mem_elementsFrom h
  refine ⟨before ++ [.element e.id text hne], after, by simp, ?_⟩
  rw [hstop, hstart, Nat.zero_add, spansText_append, byteLen_append]
  simp [spansText, Span.text]

/-- A boundary of the text outside its elements is between two spans. -/
theorem spanBoundary_of_outside (hpos : isCharBoundary (spansText spans) pos)
    (hout : Outside (elementsFrom offset spans) (offset + pos)) : SpanBoundary spans pos := by
  induction spans generalizing offset pos with
  | nil =>
    obtain rfl : pos = 0 := Nat.le_zero.1 (le_byteLen_of_boundary hpos)
    exact ⟨[], [], rfl, rfl⟩
  | cons span spans ih =>
    obtain ⟨p, t, htext, rfl⟩ := isCharBoundary_iff.1 hpos
    by_cases hzero : byteLen p = 0
    · exact ⟨[], span :: spans, rfl, hzero⟩
    -- A longer prefix takes in the first span, as it does not end inside it.
    have htake : span.text <+: p := by
      refine prefix_of_byteLen_le (s := p ++ t) ⟨_, htext⟩ ⟨t, rfl⟩ ?_
      cases span with
      | char c =>
        cases p with
        | nil => exact absurd rfl hzero
        | cons d p =>
          obtain ⟨rfl, -⟩ := List.cons.inj (htext : c :: spansText spans = d :: (p ++ t))
          simp [Span.text, byteLen_cons]
      | element id text hne =>
        have hfirst := hout _ List.mem_cons_self
        simp only at hfirst
        by_contra hinside
        refine hfirst ⟨by omega, ?_⟩
        change ¬ byteLen text ≤ byteLen p at hinside
        omega
    obtain ⟨rest, rfl⟩ := htake
    have hrest : spansText spans = rest ++ t := by
      rw [spansText_cons, List.append_assoc] at htext
      exact List.append_cancel_left htext
    have hout' : Outside (elementsFrom (offset + byteLen span.text) spans)
        (offset + byteLen span.text + byteLen rest) := by
      rw [byteLen_append, ← Nat.add_assoc] at hout
      cases span with
      | char c => exact hout
      | element id text hne => exact fun e he => hout e (List.mem_cons_of_mem _ he)
    obtain ⟨before, after, rfl, hbefore⟩ :=
      ih (hrest ▸ isCharBoundary_append rest t) hout'
    refine ⟨span :: before, after, rfl, ?_⟩
    rw [byteLen_append, hbefore, spansText_cons, byteLen_append]

theorem le_start_of_mem (h : e ∈ elementsFrom offset spans) : offset ≤ e.start := by
  obtain ⟨before, text, hne, after, rfl, hstart, -⟩ := mem_elementsFrom h
  omega

theorem stop_le_of_mem (h : e ∈ elementsFrom offset spans) :
    e.stop ≤ offset + byteLen (spansText spans) := by
  obtain ⟨before, text, hne, after, rfl, hstart, hstop⟩ := mem_elementsFrom h
  rw [spansText_append, spansText_cons, byteLen_append, byteLen_append, Span.text]
  omega

theorem start_lt_stop_of_mem (h : e ∈ elementsFrom offset spans) : e.start < e.stop := by
  obtain ⟨before, text, hne, after, -, -, hstop⟩ := mem_elementsFrom h
  have hpos := byteLen_pos hne
  omega

/-- A boundary between two spans is outside the elements. -/
theorem SpanBoundary.outside (h : SpanBoundary spans pos) : Outside (elementsFrom 0 spans) pos := by
  obtain ⟨before, after, rfl, rfl⟩ := h
  intro e he hinside
  rw [elementsFrom_append, List.mem_append] at he
  rcases he with he | he
  · have hstop := stop_le_of_mem he
    omega
  · have hstart := le_start_of_mem he
    omega

theorem pairwise_elementsFrom (offset : Nat) (spans : List Span) :
    (elementsFrom offset spans).Pairwise fun e e' => e.stop ≤ e'.start := by
  induction spans generalizing offset with
  | nil => exact .nil
  | cons span spans ih =>
    cases span with
    | char c => exact ih _
    | element id text h =>
      exact List.pairwise_cons.2 ⟨fun e he => le_start_of_mem he, ih _⟩

theorem elementsOk_elementsFrom (spans : List Span) :
    ElementsOk (spansText spans) (elementsFrom 0 spans) where
  ordered := pairwise_elementsFrom 0 spans
  nonempty _ he := start_lt_stop_of_mem he
  startBoundary _ he := (spanBoundary_start he).isCharBoundary
  stopBoundary _ he := (spanBoundary_stop he).isCharBoundary

/-- Elements that are in order come from spans: the text between them stays characters. -/
theorem exists_spans_from {p t : List Char} (h : ElementsOk (p ++ t) elements)
    (hle : ∀ e ∈ elements, byteLen p ≤ e.start) :
    ∃ spans, spansText spans = t ∧ elementsFrom (byteLen p) spans = elements := by
  induction elements generalizing p t with
  | nil => exact ⟨t.map .char, spansText_char t, elementsFrom_char _ t⟩
  | cons e elements ih =>
    obtain ⟨hfirst, hordered⟩ := List.pairwise_cons.1 h.ordered
    have hlt := h.nonempty e List.mem_cons_self
    obtain ⟨q, m, r, htext, hstart, hstop⟩ := exists_cut (h.startBoundary e List.mem_cons_self)
      (h.stopBoundary e List.mem_cons_self) hlt.le
    have hne : m ≠ [] := by
      rintro rfl
      rw [byteLen_nil] at hstop
      omega
    obtain ⟨x, rfl⟩ : p <+: q := by
      refine prefix_of_byteLen_le (s := p ++ t) ⟨t, rfl⟩ ?_ (hstart ▸ hle e List.mem_cons_self)
      exact ⟨m ++ r, by rw [htext, List.append_assoc]⟩
    have ht : t = x ++ m ++ r := by
      rw [List.append_assoc, List.append_assoc] at htext
      rw [List.append_cancel_left htext, List.append_assoc]
    have hrest : ElementsOk (p ++ x ++ m ++ r) elements := by
      rw [← htext]
      exact ⟨hordered, fun e he => h.nonempty e (List.mem_cons_of_mem _ he),
        fun e he => h.startBoundary e (List.mem_cons_of_mem _ he),
        fun e he => h.stopBoundary e (List.mem_cons_of_mem _ he)⟩
    have hafter : ∀ e ∈ elements, byteLen (p ++ x ++ m) ≤ e.start := by
      intro e' he'
      rw [byteLen_append, ← hstop]
      exact hfirst e' he'
    obtain ⟨spans, hspans, helements⟩ := ih hrest hafter
    refine ⟨x.map .char ++ .element e.id m hne :: spans, ?_, ?_⟩
    · rw [spansText_append, spansText_char, spansText_cons, hspans, ht, List.append_assoc]
      rfl
    · rw [elementsFrom_append, elementsFrom_char, List.nil_append, spansText_char, elementsFrom,
        ← byteLen_append, ← byteLen_append, helements, ← hstart, byteLen_append (p ++ x) m, ← hstop]

theorem ElementsOk.exists_spans (h : ElementsOk text elements) :
    ∃ spans, spansText spans = text ∧ elementsFrom 0 spans = elements :=
  exists_spans_from (p := []) h fun _ _ => Nat.zero_le _

theorem labels_elementsFrom (p : List Char) (spans : List Span) :
    labels (p ++ spansText spans) (elementsFrom (byteLen p) spans) =
      spans.filterMap Span.label := by
  induction spans generalizing p with
  | nil => rfl
  | cons span spans ih =>
    have hrest := ih (p ++ span.text)
    rw [List.append_assoc, byteLen_append] at hrest
    cases span with
    | char c => exact hrest
    | element id text h =>
      rw [elementsFrom, labels, List.map_cons]
      refine congrArg₂ List.cons ?_ hrest
      rw [spansText_cons, ← List.append_assoc]
      exact congrArg (Prod.mk id) (slice_append p text _)

theorem labels_spans (spans : List Span) :
    labels (spansText spans) (elementsFrom 0 spans) = spans.filterMap Span.label :=
  labels_elementsFrom [] spans

/-! ## Edits -/

theorem shiftElements_before {removed inserted : Nat}
    (h : ∀ e ∈ elements, e.start < e.stop ∧ e.stop ≤ pos) :
    TextArea.shiftElements elements pos removed inserted = elements := by
  have hfilter : elements.filter (fun e => !(pos ≤ e.start && e.stop ≤ pos + removed)) =
      elements := by
    refine List.filter_eq_self.2 fun e he => ?_
    obtain ⟨hlt, hle⟩ := h e he
    simp only [Bool.not_eq_true', Bool.and_eq_false_iff, decide_eq_false_iff_not]
    omega
  rw [TextArea.shiftElements, hfilter]
  refine (List.map_congr_left fun e he => ?_).trans (List.map_id elements)
  exact if_pos (h e he).2

theorem shiftElements_inside {removed inserted : Nat}
    (h : ∀ e ∈ elements, pos ≤ e.start ∧ e.stop ≤ pos + removed) :
    TextArea.shiftElements elements pos removed inserted = [] := by
  have hfilter : elements.filter (fun e => !(pos ≤ e.start && e.stop ≤ pos + removed)) = [] := by
    refine List.filter_eq_nil_iff.2 fun e he => ?_
    simp [h e he]
  rw [TextArea.shiftElements, hfilter]
  rfl

theorem shiftElements_after {removed inserted : Nat}
    (h : ∀ e ∈ elements, e.start < e.stop ∧ pos + removed ≤ e.start) :
    TextArea.shiftElements elements pos removed inserted = elements.map fun e =>
      { e with start := e.start + inserted - removed, stop := e.stop + inserted - removed } := by
  have hfilter : elements.filter (fun e => !(pos ≤ e.start && e.stop ≤ pos + removed)) =
      elements := by
    refine List.filter_eq_self.2 fun e he => ?_
    obtain ⟨hlt, hle⟩ := h e he
    simp only [Bool.not_eq_true', Bool.and_eq_false_iff, decide_eq_false_iff_not]
    omega
  rw [TextArea.shiftElements, hfilter]
  refine List.map_congr_left fun e he => ?_
  obtain ⟨hlt, hle⟩ := h e he
  rw [if_neg (by omega), if_pos hle]

theorem shiftElements_append (elements elements' : List TextElement)
    (start removed inserted : Nat) :
    TextArea.shiftElements (elements ++ elements') start removed inserted =
      TextArea.shiftElements elements start removed inserted ++
        TextArea.shiftElements elements' start removed inserted := by
  rw [TextArea.shiftElements, List.filter_append, List.map_append]
  rfl

/-- Elements after an edit: those before it stay, those in the replaced spans go, and those after it
are shifted. -/
theorem shiftElements_spans (before middle after : List Span) (inserted : Nat) :
    TextArea.shiftElements (elementsFrom 0 (before ++ middle ++ after))
        (byteLen (spansText before)) (byteLen (spansText middle)) inserted =
      elementsFrom 0 before ++ elementsFrom (byteLen (spansText before) + inserted) after := by
  have hbefore : ∀ e ∈ elementsFrom 0 before, e.start < e.stop ∧
      e.stop ≤ byteLen (spansText before) := by
    intro e he
    have hstop := stop_le_of_mem he
    exact ⟨start_lt_stop_of_mem he, by omega⟩
  have hmiddle : ∀ e ∈ elementsFrom (byteLen (spansText before)) middle,
      byteLen (spansText before) ≤ e.start ∧
        e.stop ≤ byteLen (spansText before) + byteLen (spansText middle) :=
    fun e he => ⟨le_start_of_mem he, stop_le_of_mem he⟩
  have hafter : ∀ e ∈ elementsFrom (byteLen (spansText before) + byteLen (spansText middle)) after,
      e.start < e.stop ∧ byteLen (spansText before) + byteLen (spansText middle) ≤ e.start :=
    fun e he => ⟨start_lt_stop_of_mem he, le_start_of_mem he⟩
  rw [elementsFrom_append, elementsFrom_append, spansText_append, byteLen_append, Nat.zero_add,
    Nat.zero_add, shiftElements_append, shiftElements_append, shiftElements_before hbefore,
    shiftElements_inside hmiddle, shiftElements_after hafter, List.append_nil]
  refine congrArg (elementsFrom 0 before ++ ·) ?_
  have hshift : ∀ shift, elementsFrom shift after = (elementsFrom 0 after).map fun e =>
      { e with start := e.start + shift, stop := e.stop + shift } := by
    intro shift
    rw [← elementsFrom_add, Nat.zero_add]
  rw [hshift (byteLen (spansText before) + byteLen (spansText middle)),
    hshift (byteLen (spansText before) + inserted), List.map_map]
  refine List.map_congr_left fun e _ => ?_
  simp only [Function.comp_apply, TextElement.mk.injEq, true_and]
  omega

/-! ## One element -/

/-- An element of a list that comes from spans is one of the spans. -/
theorem exists_span_of_split {elements' : List TextElement}
    (h : elementsFrom offset spans = elements ++ e :: elements') :
    ∃ before text nonempty after, spans = before ++ .element e.id text nonempty :: after ∧
      elements = elementsFrom offset before ∧ e.start = offset + byteLen (spansText before) ∧
      e.stop = e.start + byteLen text ∧ elements' = elementsFrom e.stop after := by
  induction spans generalizing offset elements with
  | nil => exact absurd h.symm (List.append_ne_nil_of_right_ne_nil _ (List.cons_ne_nil _ _))
  | cons span spans ih =>
    cases span with
    | char c =>
      obtain ⟨before, text, hne, after, rfl, rfl, hstart, hrest⟩ := ih h
      refine ⟨.char c :: before, text, hne, after, rfl, rfl, ?_, hrest⟩
      rw [hstart, spansText_cons, byteLen_append, Nat.add_assoc]
      rfl
    | element id text hne =>
      cases elements with
      | nil =>
        obtain ⟨rfl, rfl⟩ := List.cons.inj h
        exact ⟨[], text, hne, spans, rfl, rfl, rfl, rfl, rfl⟩
      | cons first elements =>
        obtain ⟨rfl, hrest⟩ := List.cons.inj h
        obtain ⟨before, text', hne', after, rfl, rfl, hstart, hrest⟩ := ih hrest
        refine ⟨.element id text hne :: before, text', hne', after, rfl, rfl, ?_, hrest⟩
        rw [hstart, spansText_cons, byteLen_append, Nat.add_assoc]
        rfl

end

end Mcodex.Tui
