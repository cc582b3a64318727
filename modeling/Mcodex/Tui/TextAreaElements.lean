import Mcodex.Tui.TextAreaEdits

/-!
# Marking, removing and renaming elements

Elements are kept in the order of their starts, so that a new one that is disjoint from the others
takes its place among them (`addElement_spec`). A renamed element stays where it is, with another
text (`replaceElementPayload_spec`).
-/

namespace Mcodex.Tui

open Bytes

/-- An id that some more elements after `id` was the next one gives. -/
def Drawn (next id : Nat) : Prop := ∃ n, id = nextId^[n] next

/-- Elements that survive keep their texts: what is left is old, in order, or new. -/
def Survive (s s' : TextArea) : Prop :=
  ∃ kept added, s'.labels.Perm (kept ++ added) ∧ kept.Sublist s.labels ∧
    ∀ label ∈ added, Drawn s.nextElementId label.1

/-- One element has the new text in place of the old one, if one had the old one. -/
def Renames (old new : List Char) (s s' : TextArea) : Prop :=
  (s'.labels = s.labels ∧ old ∉ s.labels.map (·.2)) ∨
    ∃ before id after, s.labels = before ++ (id, old) :: after ∧
      s'.labels = before ++ (id, new) :: after

def DisjointFrom (e e' : TextElement) : Prop := e.stop ≤ e'.start ∨ e'.stop ≤ e.start

section
variable {text old new : List Char} {elements : List TextElement} {e : TextElement}
  {s : TextArea} {start stop id : Nat} {range : Nat × Nat} {spans : List Span}

theorem Survive.of_sublist {s' : TextArea} (h : s'.labels.Sublist s.labels) : Survive s s' :=
  ⟨s'.labels, [], by rw [List.append_nil], h, nofun⟩

/-! ## The order of elements -/

theorem perm_sortByStart (elements : List TextElement) :
    (sortByStart elements).Perm elements := List.mergeSort_perm _ _

theorem pairwise_sortByStart (elements : List TextElement) :
    (sortByStart elements).Pairwise fun e e' => e.start ≤ e'.start := by
  have htrans : ∀ e e' e'' : TextElement, decide (e.start ≤ e'.start) = true →
      decide (e'.start ≤ e''.start) = true → decide (e.start ≤ e''.start) = true :=
    fun e e' e'' h h' => decide_eq_true ((of_decide_eq_true h).trans (of_decide_eq_true h'))
  have htotal : ∀ e e' : TextElement,
      (decide (e.start ≤ e'.start) || decide (e'.start ≤ e.start)) = true := by
    intro e e'
    rw [Bool.or_eq_true, decide_eq_true_eq, decide_eq_true_eq]
    exact Nat.le_total _ _
  exact (List.pairwise_mergeSort htrans htotal elements).imp of_decide_eq_true

theorem ElementsOk.sortByStart_eq (h : ElementsOk text elements) :
    sortByStart elements = elements := by
  refine List.mergeSort_of_pairwise (h.ordered.imp_of_mem fun {e e'} he _ hle => ?_)
  exact decide_eq_true ((h.nonempty e he).le.trans hle)

/-- Disjoint ranges between boundaries are whole elements once they are in order. -/
theorem elementsOk_sortByStart (hnonempty : ∀ e ∈ elements, e.start < e.stop)
    (hstart : ∀ e ∈ elements, isCharBoundary text e.start)
    (hstop : ∀ e ∈ elements, isCharBoundary text e.stop)
    (hdisjoint : elements.Pairwise DisjointFrom) : ElementsOk text (sortByStart elements) := by
  have hmem : ∀ e, e ∈ sortByStart elements ↔ e ∈ elements :=
    fun e => (perm_sortByStart elements).mem_iff
  have hdisjoint' : (sortByStart elements).Pairwise DisjointFrom :=
    ((perm_sortByStart elements).pairwise_iff fun h => Or.symm h).2 hdisjoint
  refine ⟨?_, fun e he => hnonempty e ((hmem e).1 he), fun e he => hstart e ((hmem e).1 he),
    fun e he => hstop e ((hmem e).1 he)⟩
  refine (hdisjoint'.and (pairwise_sortByStart elements)).imp_of_mem ?_
  rintro e e' he he' ⟨hle | hle, hstart⟩
  · exact hle
  · have hlt := hnonempty e' ((hmem e').1 he')
    omega

/-- A new element that is disjoint from the others takes its place among them. -/
theorem addElement_spec (h : ElementsOk s.text s.elements) (hlt : start < stop)
    (hstart : isCharBoundary s.text start) (hstop : isCharBoundary s.text stop)
    (hdisjoint : ∀ e ∈ s.elements, e.stop ≤ start ∨ stop ≤ e.start) :
    ElementsOk s.text (s.addElement start stop).elements ∧
      (s.addElement start stop).labels.Perm
        (s.labels ++ [(s.nextElementId, slice s.text start stop)]) := by
  have hall : ∀ {p : TextElement → Prop}, (∀ e ∈ s.elements, p e) →
      p { id := s.nextElementId, start, stop } →
      ∀ e ∈ s.elements ++ [{ id := s.nextElementId, start, stop }], p e := by
    intro p hp hnew e he
    rcases List.mem_append.1 he with he | he
    · exact hp e he
    · rwa [List.mem_singleton.1 he]
  refine ⟨elementsOk_sortByStart (hall h.nonempty hlt) (hall h.startBoundary hstart)
    (hall h.stopBoundary hstop) ?_, ?_⟩
  · refine List.pairwise_append.2 ⟨h.ordered.imp .inl, List.pairwise_singleton _ _, ?_⟩
    intro e he e' he'
    rw [List.mem_singleton.1 he']
    exact hdisjoint e he
  · refine ((perm_sortByStart _).map _).trans ?_
    rw [List.map_append]
    exact List.Perm.refl _

/-! ## Ranges given from outside -/

/-- The elements made of disjoint ranges are disjoint, between boundaries and not empty. -/
theorem elementsOfRanges_spec (text : List Char) (ranges : List (Nat × Nat)) (id : Nat)
    (h : ranges.Pairwise fun r r' =>
      r.1 < r.2 → r'.1 < r'.2 → r.2 ≤ r'.1 ∨ r'.2 ≤ r.1) :
    (elementsOfRanges text ranges id).1.Pairwise DisjointFrom ∧
      ∀ e ∈ (elementsOfRanges text ranges id).1, e.start < e.stop ∧ Drawn id e.id ∧
        ∃ r ∈ ranges, r.1 < r.2 ∧
          e.start = clampToBoundary text (min r.1 (byteLen text)) ∧
          e.stop = clampToBoundary text (min r.2 (byteLen text)) := by
  have hmono : ∀ {a b : Nat}, a ≤ b → clampToBoundary text (min a (byteLen text)) ≤
      clampToBoundary text (min b (byteLen text)) := by
    intro a b hab
    exact clampToBoundary_mono (by omega)
  induction ranges generalizing id with
  | nil => exact ⟨.nil, nofun⟩
  | cons r ranges ih =>
    obtain ⟨first, last⟩ := r
    obtain ⟨hfirst, hrest⟩ := List.pairwise_cons.1 h
    rw [elementsOfRanges]
    simp only
    split_ifs with hempty
    · obtain ⟨hdisjoint, hmem⟩ := ih id hrest
      refine ⟨hdisjoint, fun e he => ?_⟩
      obtain ⟨hlt, hdrawn, r, hr, hrange⟩ := hmem e he
      exact ⟨hlt, hdrawn, r, List.mem_cons_of_mem _ hr, hrange⟩
    · obtain ⟨hdisjoint, hmem⟩ := ih (nextId id) hrest
      have hlt : first < last := by
        by_contra hge
        exact hempty (hmono (Nat.le_of_not_lt hge))
      refine ⟨List.pairwise_cons.2 ⟨fun e he => ?_, hdisjoint⟩, fun e he => ?_⟩
      · obtain ⟨-, -, r, hr, hr', hstart, hstop⟩ := hmem e he
        rcases hfirst r hr hlt hr' with hle | hle
        · exact .inl (hstart ▸ hmono hle)
        · exact .inr (hstop ▸ hmono hle)
      · rcases List.mem_cons.1 he with rfl | he
        · exact ⟨Nat.lt_of_not_le hempty, ⟨0, rfl⟩, (first, last), List.mem_cons_self, hlt, rfl, rfl⟩
        · obtain ⟨hlt', ⟨n, hn⟩, r, hr, hrange⟩ := hmem e he
          exact ⟨hlt', ⟨n + 1, hn⟩, r, List.mem_cons_of_mem _ hr, hrange⟩

theorem setTextInner_spec (s : TextArea) (text : List Char) (ranges : Option (List (Nat × Nat)))
    (h : ∀ ranges' ∈ ranges, ranges'.Pairwise fun r r' =>
      r.1 < r.2 → r'.1 < r'.2 → r.2 ≤ r'.1 ∨ r'.2 ≤ r.1) :
    Atomic (s.setTextInner text ranges) ∧ Survive s (s.setTextInner text ranges) := by
  cases ranges with
  | none =>
    have hok : ElementsOk text [] := ⟨.nil, nofun, nofun, nofun⟩
    exact ⟨⟨hok, clampOutOfElements_spec (s := { s with
      text, elements := [], preferredCol := none }) hok _⟩, [], [], .refl _, List.nil_sublist _,
      nofun⟩
  | some ranges =>
    obtain ⟨hdisjoint, hmem⟩ := elementsOfRanges_spec text ranges s.nextElementId (h ranges rfl)
    have hok : ElementsOk text (sortByStart (elementsOfRanges text ranges s.nextElementId).1) := by
      refine elementsOk_sortByStart (fun e he => (hmem e he).1) (fun e he => ?_) (fun e he => ?_)
        hdisjoint
      · obtain ⟨-, -, r, -, -, hstart, -⟩ := hmem e he
        exact hstart ▸ isCharBoundary_clampToBoundary _ _
      · obtain ⟨-, -, r, -, -, -, hstop⟩ := hmem e he
        exact hstop ▸ isCharBoundary_clampToBoundary _ _
    refine ⟨⟨hok, clampOutOfElements_spec (s := { s with
      text
      elements := sortByStart (elementsOfRanges text ranges s.nextElementId).1
      nextElementId := (elementsOfRanges text ranges s.nextElementId).2
      preferredCol := none }) hok _⟩, [], _, .refl _, List.nil_sublist _, ?_⟩
    intro label hlabel
    obtain ⟨e, he, rfl⟩ := List.mem_map.1 hlabel
    exact (hmem e ((perm_sortByStart _).mem_iff.1 he)).2.1

/-- What `add_element_range` marks is a range between boundaries that meets no element. -/
theorem markedRange_spec (h : s.markedRange range = some (start, stop)) :
    start < stop ∧ isCharBoundary s.text start ∧ isCharBoundary s.text stop ∧
      ∀ e ∈ s.elements, e.stop ≤ start ∨ stop ≤ e.start := by
  unfold TextArea.markedRange at h
  simp only at h
  split_ifs at h with hempty hsame hmeets
  obtain ⟨rfl, rfl⟩ := Prod.mk.inj (Option.some.inj h)
  refine ⟨Nat.lt_of_not_le hempty, isCharBoundary_clampToBoundary _ _,
    isCharBoundary_clampToBoundary _ _, fun e he => ?_⟩
  by_contra hnot
  refine hmeets (List.any_eq_true.2 ⟨e, he, ?_⟩)
  rw [Bool.and_eq_true, decide_eq_true_eq, decide_eq_true_eq]
  omega

theorem removeElementRange_spec (h : Atomic s) (range : Nat × Nat) :
    Atomic (s.removeElementRange range) ∧
      (s.removeElementRange range).labels.Sublist s.labels := by
  unfold TextArea.removeElementRange
  simp only
  split_ifs
  · exact ⟨h, List.Sublist.refl _⟩
  · refine ⟨⟨⟨h.elements.ordered.filter _, fun e he => ?_, fun e he => ?_, fun e he => ?_⟩,
      h.cursor.boundary, fun e he => ?_⟩, (List.filter_sublist).map _⟩
    · exact h.elements.nonempty e (List.mem_filter.1 he).1
    · exact h.elements.startBoundary e (List.mem_filter.1 he).1
    · exact h.elements.stopBoundary e (List.mem_filter.1 he).1
    · exact h.cursor.outside e (List.mem_filter.1 he).1

theorem setCursor_spec (h : ElementsOk s.text s.elements) (pos : Nat) : Atomic (s.setCursor pos) :=
  ⟨h, clampOutOfElements_spec h _⟩

/-! ## Inserted elements -/

/-- The text inserted at an edge is between boundaries and meets no element. -/
theorem insert_gap {pos : Nat} (h : ElementsOk text elements) (hpos : Edge text elements pos)
    (new : List Char) :
    isCharBoundary (Bytes.replaceRange text pos pos new) pos ∧
      isCharBoundary (Bytes.replaceRange text pos pos new) (pos + byteLen new) ∧
      ∀ e ∈ TextArea.shiftElements elements pos 0 (byteLen new),
        e.stop ≤ pos ∨ pos + byteLen new ≤ e.start := by
  obtain ⟨before, middle, after, rfl, rfl, rfl, hmiddle⟩ :=
    h.exists_cut hpos hpos (Nat.le_refl _)
  obtain rfl : middle = [] := by
    cases middle with
    | nil => rfl
    | cons span middle =>
      have hspan := span.byteLen_text_pos
      rw [spansText_cons, byteLen_append] at hmiddle
      omega
  have htext := replaceRange_spans before [] after new
  have helements := shiftElements_spans before [] after (byteLen new)
  simp only [spansText_nil, byteLen_nil, Nat.add_zero] at htext helements
  rw [htext, helements]
  refine ⟨?_, ?_, fun e he => ?_⟩
  · rw [spansText_append, spansText_append, List.append_assoc]
    exact isCharBoundary_append _ _
  · rw [spansText_append, spansText_append, spansText_char, ← byteLen_append]
    exact isCharBoundary_append _ _
  · rcases List.mem_append.1 he with he | he
    · have hstop := stop_le_of_mem he
      exact .inl (by omega)
    · exact .inr (le_start_of_mem he)

theorem insertElement_spec (h : Atomic s) (hne : text ≠ []) :
    Atomic (s.insertElement text) ∧ Survive s (s.insertElement text) := by
  have hclamp : s.clampPosForInsertion s.cursorPos = s.cursorPos :=
    clampOutOfElements_of_edge h.cursor
  obtain ⟨hinserted, hkept⟩ := insertStrAt_spec h s.cursorPos text
  obtain ⟨hstart, hstop, hgap⟩ := insert_gap h.elements h.cursor text
  have htext : (s.insertStrAt s.cursorPos text).text =
      Bytes.replaceRange s.text s.cursorPos s.cursorPos text := by
    simp only [TextArea.insertStrAt, hclamp]
  have helements : (s.insertStrAt s.cursorPos text).elements =
      TextArea.shiftElements s.elements s.cursorPos 0 (byteLen text) := by
    simp only [TextArea.insertStrAt, hclamp]
  have hpos := byteLen_pos hne
  have hlt : s.cursorPos < s.cursorPos + byteLen text := by omega
  obtain ⟨hok, hperm⟩ := addElement_spec hinserted.elements hlt (htext ▸ hstart)
    (htext ▸ hstop) (helements ▸ hgap)
  unfold TextArea.insertElement
  simp only [hclamp]
  refine ⟨setCursor_spec hok _, _, _, hperm, hkept, ?_⟩
  intro label hlabel
  rw [List.mem_singleton.1 hlabel]
  exact ⟨0, rfl⟩

/-! ## Renamed elements -/

theorem mapIdx_eq_map {α β : Type} {f : Nat → α → β} {g : α → β} {xs : List α}
    (h : ∀ i x, xs[i]? = some x → f i x = g x) : xs.mapIdx f = xs.map g := by
  refine List.ext_getElem? fun i => ?_
  rw [List.getElem?_mapIdx, List.getElem?_map]
  cases hx : xs[i]? with
  | none => rfl
  | some x => exact congrArg some (h i x hx)

/-- The elements after one of them got another text. -/
theorem renamed_elements {before after : List Span} (hold : old ≠ []) (hnew : new ≠ []) :
    (elementsFrom 0 (before ++ .element id old hold :: after)).mapIdx
        (fun j (e : TextElement) =>
          if j = (elementsFrom 0 before).length then
            ({ e with stop := byteLen (spansText before) + byteLen new } : TextElement)
          else if byteLen new = byteLen (spansText before) + byteLen old -
              byteLen (spansText before) then e
          else TextArea.shiftPast (byteLen (spansText before))
            (byteLen (spansText before) + byteLen old) (byteLen new) e) =
      elementsFrom 0 (before ++ .element id new hnew :: after) := by
  have hshift : ∀ shift, elementsFrom shift after = (elementsFrom 0 after).map fun e =>
      { e with start := e.start + shift, stop := e.stop + shift } := by
    intro shift
    rw [← elementsFrom_add, Nat.zero_add]
  rw [elementsFrom_append, elementsFrom_append, elementsFrom, elementsFrom, Nat.zero_add,
    List.mapIdx_append, List.mapIdx_cons, Nat.zero_add, if_pos rfl]
  refine congrArg₂ (· ++ ·) ?_ (congrArg₂ List.cons rfl ?_)
  · refine (mapIdx_eq_map (g := fun e => e) fun j e he => ?_).trans (List.map_id' _)
    have hlt := (List.getElem?_eq_some_iff.1 he).1
    have hstop := stop_le_of_mem (List.mem_of_getElem? he)
    rw [if_neg (by omega)]
    split_ifs
    · rfl
    · exact if_pos (by omega)
  · rw [hshift (byteLen (spansText before) + byteLen new)]
    refine (mapIdx_eq_map (g := fun e : TextElement =>
      { e with
        start := e.start + byteLen new - byteLen old
        stop := e.stop + byteLen new - byteLen old }) fun j e he => ?_).trans ?_
    · have hmem := List.mem_of_getElem? he
      have hstart := le_start_of_mem hmem
      have hlt := start_lt_stop_of_mem hmem
      rw [if_neg (by omega), Nat.add_sub_cancel_left]
      split_ifs with hsame
      · rw [hsame, Nat.add_sub_cancel, Nat.add_sub_cancel]
      · have hpos := byteLen_pos hold
        rw [TextArea.shiftPast, if_neg (by omega), if_pos (by omega), Nat.add_sub_cancel_left]
    · rw [hshift (byteLen (spansText before) + byteLen old), List.map_map]
      refine List.map_congr_left fun e _ => ?_
      simp only [Function.comp_apply, TextElement.mk.injEq, true_and]
      omega

theorem replaceElementPayload_spec (h : Atomic s) (hnew : new ≠ []) :
    Atomic (s.replaceElementPayload old new) ∧
      Renames old new s (s.replaceElementPayload old new) := by
  unfold TextArea.replaceElementPayload
  split
  · next hfind =>
    refine ⟨h, .inl ⟨rfl, fun hmem => ?_⟩⟩
    obtain ⟨label, hlabel, hold⟩ := List.mem_map.1 hmem
    obtain ⟨e, he, rfl⟩ := List.mem_map.1 hlabel
    have hnot := List.findIdx?_eq_none_iff.1 hfind e he
    rw [decide_eq_false_iff_not] at hnot
    exact hnot hold
  · next idx hfind =>
    obtain ⟨hlt, htext, -⟩ := List.findIdx?_eq_some_iff_getElem.1 hfind
    rw [List.getElem?_eq_getElem hlt]
    have htext := of_decide_eq_true htext
    have hsplit : s.elements =
        s.elements.take idx ++ s.elements[idx] :: s.elements.drop (idx + 1) := by
      rw [List.getElem_cons_drop, List.take_append_drop]
    have hlength : (s.elements.take idx).length = idx := List.length_take_of_le hlt.le
    generalize s.elements[idx] = element at hsplit htext
    obtain ⟨spans, hspans, helements⟩ := h.elements.exists_spans
    obtain ⟨before, old', hold, after, rfl, hbefore, hstart, hstop, -⟩ :=
      exists_span_of_split (helements.trans hsplit)
    rw [Nat.zero_add] at hstart
    rw [hstart] at hstop
    rw [hbefore] at hlength
    have hcut : ∀ (new : List Char) (hnew : new ≠ []),
        spansText (before ++ .element element.id new hnew :: after) =
          spansText before ++ new ++ spansText after := by
      intro new hnew
      rw [spansText_append, spansText_cons, List.append_assoc]
      rfl
    obtain rfl : old' = old := by
      rw [← hspans, hcut, hstart, hstop, slice_append] at htext
      exact htext
    have hreplaced : Bytes.replaceRange s.text element.start element.stop new =
        spansText (before ++ .element element.id new hnew :: after) := by
      rw [← hspans, hcut, hcut, hstart, hstop, replaceRange_append]
    have hrenamed := @renamed_elements _ _ element.id before after hold hnew
    rw [helements, hlength, ← hstop, ← hstart] at hrenamed
    have hok := elementsOk_elementsFrom (before ++ .element element.id new hnew :: after)
    simp only [hreplaced, hrenamed, hok.sortByStart_eq]
    refine ⟨⟨hok, clampOutOfElements_spec (s := { s with
      text := spansText (before ++ .element element.id new hnew :: after)
      preferredCol := none
      elements := elementsFrom 0 (before ++ .element element.id new hnew :: after) }) hok _⟩,
      .inr ⟨before.filterMap Span.label, element.id, after.filterMap Span.label, ?_, ?_⟩⟩
    · rw [TextArea.labels, ← hspans, ← helements, labels_spans, List.filterMap_append,
        List.filterMap_cons]
      rfl
    · rw [TextArea.labels, labels_spans, List.filterMap_append, List.filterMap_cons]
      rfl

end

end Mcodex.Tui
