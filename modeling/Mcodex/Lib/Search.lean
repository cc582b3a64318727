import Mathlib.Data.List.Infix

/-!
# Searching a text that arrives in pieces

`find` gives the first place where a needle stands in a text. When more text may follow, a place
where the needle only begins matters too: it begins in the longest end of the text that is a proper
beginning of the needle, and nowhere before.
-/

namespace Mcodex.Search

universe u

variable {α : Type u} [DecidableEq α] {needle s rest : List α} {i j : Nat}

/-- `str::find`. -/
def find (needle : List α) : List α → Option Nat
  | [] => if needle = [] then some 0 else none
  | x :: s => if needle <+: x :: s then some 0 else (find needle s).map (· + 1)

/-- The loop of `longest_suffix_prefix_len`, from `k` downwards. -/
def longestFrom (s needle : List α) : Nat → Nat
  | 0 => 0
  | k + 1 => if needle.take (k + 1) <:+ s then k + 1 else longestFrom s needle k

/-- The length of the longest end of the text that is a proper beginning of the needle. -/
def longestSuffixPrefixLen (s needle : List α) : Nat :=
  longestFrom s needle (min s.length (needle.length - 1))

theorem find_eq_some (h : find needle s = some i) :
    needle <+: s.drop i ∧ ∀ j < i, ¬ needle <+: s.drop j := by
  induction s generalizing i with
  | nil =>
    rw [find] at h
    split at h
    · obtain rfl := Option.some.inj h
      rename_i hnil
      simp [hnil]
    · cases h
  | cons x s ih =>
    rw [find] at h
    split at h
    · rename_i hstart
      obtain rfl := Option.some.inj h
      exact ⟨hstart, by omega⟩
    · rename_i hstart
      obtain ⟨i, hi, rfl⟩ := Option.map_eq_some_iff.1 h
      obtain ⟨hfound, hbefore⟩ := ih hi
      refine ⟨hfound, fun j hj => ?_⟩
      cases j with
      | zero => exact hstart
      | succ j => exact hbefore j (by omega)

theorem find_eq_none (h : find needle s = none) (j : Nat) : ¬ needle <+: s.drop j := by
  induction s generalizing j with
  | nil =>
    rw [find] at h
    split at h
    · cases h
    · rw [List.drop_nil, List.prefix_nil]
      assumption
  | cons x s ih =>
    rw [find] at h
    split at h
    · cases h
    · rename_i hstart
      cases j with
      | zero => exact hstart
      | succ j => exact ih (Option.map_eq_none_iff.1 h) j

theorem find_drop_eq_none (h : find needle s = none) (k : Nat) : find needle (s.drop k) = none := by
  cases hfind : find needle (s.drop k) with
  | none => rfl
  | some i =>
    have hfound := (find_eq_some hfind).1
    rw [List.drop_drop] at hfound
    exact absurd hfound (find_eq_none h _)

omit [DecidableEq α] in
theorem add_length_le (h : needle <+: s.drop i) (hne : needle ≠ []) :
    i + needle.length ≤ s.length := by
  have hlength := h.length_le
  have hpos := List.length_pos_iff.2 hne
  rw [List.length_drop] at hlength
  omega

omit [DecidableEq α] in
/-- An occurrence that ends within the text is one of the text. -/
theorem prefix_of_append (h : needle <+: (s ++ rest).drop j) (hj : j + needle.length ≤ s.length) :
    needle <+: s.drop j := by
  rw [List.drop_append_of_le_length (by omega)] at h
  refine List.prefix_of_prefix_length_le h (List.prefix_append _ _) ?_
  rw [List.length_drop]
  omega

omit [DecidableEq α] in
/-- An occurrence within the reach of another stands inside of it. -/
theorem infix_of_covered {other : List α} (h : needle <+: s.drop i) (hother : other <+: s.drop j)
    (hj : j ≤ i) (hend : i + needle.length ≤ j + other.length) : needle <:+: other := by
  obtain ⟨t, ht⟩ := hother
  have hdrop : s.drop i = other.drop (i - j) ++ t := by
    rw [← List.drop_append_of_le_length (by omega), ht, List.drop_drop]
    congr 1
    omega
  rw [hdrop] at h
  have hpre : needle <+: other.drop (i - j) := by
    refine List.prefix_of_prefix_length_le h (List.prefix_append _ _) ?_
    rw [List.length_drop]
    omega
  exact hpre.isInfix.trans (List.drop_suffix _ _).isInfix

theorem le_longestFrom {k l : Nat} (hl : l ≤ k) (h : needle.take l <:+ s) :
    l ≤ longestFrom s needle k := by
  induction k with
  | zero => omega
  | succ k ih =>
    rw [longestFrom]
    split
    · exact hl
    · rename_i hk
      refine ih (Nat.le_of_lt_succ (Nat.lt_of_le_of_ne hl ?_))
      rintro rfl
      exact hk h

/-- An occurrence that ends in what follows begins in the end that is kept. -/
theorem not_prefix_of_add_lt (hnone : find needle s = none)
    (hj : j + longestSuffixPrefixLen s needle < s.length) : ¬ needle <+: (s ++ rest).drop j := by
  intro h
  refine absurd hj (Nat.not_lt.2 (Nat.sub_le_iff_le_add'.1 ?_))
  have hj : j < s.length := by omega
  have hend : s.length < j + needle.length := by
    by_contra hle
    exact find_eq_none hnone j (prefix_of_append h (by omega))
  rw [List.drop_append_of_le_length hj.le] at h
  have hlength : (s.drop j).length = s.length - j := List.length_drop
  have hstart : needle.take (s.length - j) = s.drop j := by
    rw [← hlength]
    refine (List.prefix_iff_eq_take.1 (List.prefix_of_prefix_length_le (List.prefix_append _ _) h
      ?_)).symm
    omega
  refine le_longestFrom (by omega) ?_
  rw [hstart]
  exact List.drop_suffix j s

/-- Nothing that follows brings an occurrence before the one that is found. -/
theorem not_prefix_of_lt (h : find needle s = some i) (hne : needle ≠ []) (hj : j < i) :
    ¬ needle <+: (s ++ rest).drop j := by
  obtain ⟨hfound, hbefore⟩ := find_eq_some h
  have hend := add_length_le hfound hne
  exact fun hstart => hbefore j hj (prefix_of_append hstart (by omega))

end Mcodex.Search
