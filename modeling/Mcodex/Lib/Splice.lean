import Mcodex.Lib.Ranking

/-!
# Splicing lines

Regions of a list are replaced by other lines. If the regions are in order and apart, replacing them
from the last to the first one gives what stands outside the regions with the new lines between
(`replaceAll_eq_splice`), since what comes before a region keeps its place.
-/

namespace Mcodex.Splice

universe u

/-- A region of a list, and the lines that replace it. -/
structure Region (α : Type u) where
  start : Nat
  oldLen : Nat
  newLines : List α
  deriving DecidableEq

namespace Region

variable {α : Type u} (region : Region α)

/-- The end of a region. -/
def stop : Nat := region.start + region.oldLen

/-- The lines with the region replaced. -/
def replace (lines : List α) : List α :=
  lines.take region.start ++ region.newLines ++ lines.drop region.stop

end Region

section
variable {α : Type u}

/-- One region ends where the other begins, or before. -/
def Before (region region' : Region α) : Prop := region.stop ≤ region'.start

/-- Regions replaced from the last one to the first one. -/
def replaceAll (lines : List α) (regions : List (Region α)) : List α :=
  regions.foldr Region.replace lines

/-- The lines from an index on, with the regions replaced. -/
def splice (lines : List α) : Nat → List (Region α) → List α
  | i, [] => lines.drop i
  | i, region :: regions =>
    (lines.drop i).take (region.start - i) ++ region.newLines ++ splice lines region.stop regions

/-- The lines from an index on that are in no region. -/
def outside (lines : List α) : Nat → List (Region α) → List α
  | i, [] => lines.drop i
  | i, region :: regions =>
    (lines.drop i).take (region.start - i) ++ outside lines region.stop regions

variable {lines : List α} {region : Region α} {regions : List (Region α)} {i k : Nat}

theorem drop_eq_append (h : i ≤ k) :
    lines.drop i = (lines.drop i).take (k - i) ++ lines.drop k := by
  conv_lhs => rw [← List.take_append_drop (k - i) (lines.drop i)]
  rw [List.drop_drop, Nat.add_sub_cancel' h]

/-- Lines in front of the first region are copied. -/
theorem splice_eq_append (hik : i ≤ k) (h : ∀ region ∈ regions, k ≤ region.start) :
    splice lines i regions = (lines.drop i).take (k - i) ++ splice lines k regions := by
  cases regions with
  | nil => exact drop_eq_append hik
  | cons region regions =>
    have hk : k ≤ region.start := h region List.mem_cons_self
    have htake : (lines.drop i).take (region.start - i) =
        (lines.drop i).take (k - i) ++ (lines.drop k).take (region.start - k) := by
      conv_lhs => rw [drop_eq_append hik]
      rw [List.take_append, List.take_take, Nat.min_eq_right (by omega)]
      by_cases hlen : k ≤ lines.length
      · rw [List.length_take, List.length_drop, Nat.min_eq_left (by omega)]
        congr 2
        omega
      · rw [List.drop_eq_nil_of_le (by omega : lines.length ≤ k), List.take_nil, List.take_nil]
    rw [splice, splice, htake, List.append_assoc, List.append_assoc, List.append_assoc]

theorem le_length_splice (hk : k ≤ lines.length) (h : ∀ region ∈ regions, k ≤ region.start) :
    k ≤ (splice lines 0 regions).length := by
  rw [splice_eq_append (Nat.zero_le k) h, List.length_append]
  exact (List.length_take_of_le hk).ge.trans (Nat.le_add_right _ _)

/-- **Regions in order and apart** may be replaced from the last one to the first one. -/
theorem replaceAll_eq_splice (h : ∀ region ∈ regions, region.stop ≤ lines.length)
    (hbefore : regions.Pairwise Before) : replaceAll lines regions = splice lines 0 regions := by
  induction regions with
  | nil => rfl
  | cons region regions ih =>
    rw [List.pairwise_cons] at hbefore
    have hstop : region.stop ≤ lines.length := h region List.mem_cons_self
    have hstart : region.start ≤ region.stop := Nat.le_add_right _ _
    have hsplit : replaceAll lines regions =
        lines.take region.stop ++ splice lines region.stop regions := by
      rw [ih (fun region' hregion' => h region' (List.mem_cons_of_mem _ hregion')) hbefore.2,
        splice_eq_append (Nat.zero_le _) hbefore.1]
      rfl
    have hlen : (lines.take region.stop).length = region.stop := List.length_take_of_le hstop
    calc replaceAll lines (region :: regions)
      _ = (replaceAll lines regions).take region.start ++ region.newLines ++
            (replaceAll lines regions).drop region.stop := rfl
      _ = lines.take region.start ++ region.newLines ++ splice lines region.stop regions := by
        rw [hsplit, List.take_append_of_le_length (by omega), List.take_take,
          Nat.min_eq_left hstart, List.drop_append_of_le_length (by omega),
          List.drop_eq_nil_of_le (by omega : (lines.take region.stop).length ≤ region.stop),
          List.nil_append]

/-- The new lines of a region stand together in the result. -/
theorem newLines_infix_splice (h : region ∈ regions) :
    region.newLines <:+: splice lines i regions := by
  induction regions generalizing i with
  | nil => cases h
  | cons region' regions ih =>
    rw [splice]
    rcases List.mem_cons.1 h with rfl | h
    · exact List.infix_append _ _ _
    · exact (ih h).trans (List.suffix_append _ _).isInfix

/-- What is in no region survives, in order. -/
theorem outside_sublist_splice (i : Nat) (regions : List (Region α)) :
    (outside lines i regions).Sublist (splice lines i regions) := by
  induction regions generalizing i with
  | nil => exact List.Sublist.refl _
  | cons region regions ih =>
    rw [outside, splice]
    exact (List.sublist_append_left _ _).append (ih _)

end

end Mcodex.Splice
