import Mathlib.Data.List.Basic

/-!
# Lowercasing a text

`char::to_lowercase` expands a character by a table. `str::to_lowercase` expands the characters of a
text in the same way, except for a capital sigma that ends a word: it becomes `ς` and not `σ`
(`toLowercase_eq`, `count_lt_toLowercase`). The tables are those of the Unicode standard and a
parameter here.
-/

namespace Mcodex.FuzzyMatch

/-- The tables of the standard library: the lowercase expansion of a character, and its properties
`Cased` and `Case_Ignorable`. -/
structure CaseTables where
  lower : Char → List Char
  cased : Char → Bool
  caseIgnorable : Char → Bool

namespace CaseTables

/-- What the Unicode data says of the sigmas. A capital one becomes a small one, and only the final
small one has a final small one in its expansion. -/
structure Standard (t : CaseTables) : Prop where
  lower_sigma : t.lower 'Σ' = ['σ']
  lower_final : ∀ c, 'ς' ∈ t.lower c → t.lower c = ['ς']

variable (t : CaseTables)

/-- The expansions of the characters of a text, one by one. -/
def expand (s : List Char) : List Char := s.flatMap t.lower

/-- `case_ignorable_then_cased`. -/
def caseIgnorableThenCased (s : List Char) : Bool :=
  match s.dropWhile t.caseIgnorable with
  | c :: _ => t.cased c
  | [] => false

/-- Whether what stands between the two texts is the end of a word. What is before is read
backwards. -/
def isWordFinal (before after : List Char) : Bool :=
  t.caseIgnorableThenCased before && !t.caseIgnorableThenCased after

/-- The characters of a text from some place on, with what is before it read backwards. -/
def lowercaseFrom (before : List Char) : List Char → List Char
  | [] => []
  | c :: after =>
    (if c = 'Σ' then [if t.isWordFinal before after then 'ς' else 'σ'] else t.lower c) ++
      lowercaseFrom (c :: before) after

/-- `str::to_lowercase`. -/
def toLowercase (s : List Char) : List Char := t.lowercaseFrom [] s

/-- A capital sigma of the text ends a word. -/
def HasFinalSigma (s : List Char) : Prop :=
  ∃ before after, s = before ++ 'Σ' :: after ∧ t.isWordFinal before.reverse after

end CaseTables

variable {t : CaseTables} {before s : List Char}

theorem expand_cons (c : Char) (s : List Char) : t.expand (c :: s) = t.lower c ++ t.expand s :=
  List.flatMap_cons

theorem lowercaseFrom_eq (ht : t.Standard)
    (h : ∀ pre after, s = pre ++ 'Σ' :: after →
      t.isWordFinal (pre.reverse ++ before) after = false) :
    t.lowercaseFrom before s = t.expand s := by
  induction s generalizing before with
  | nil => rfl
  | cons c s ih =>
    have hrest : t.lowercaseFrom (c :: before) s = t.expand s := by
      refine ih fun pre after hs => ?_
      have := h (c :: pre) after (by rw [hs, List.cons_append])
      rwa [List.reverse_cons, List.append_assoc] at this
    rw [CaseTables.lowercaseFrom, hrest, expand_cons]
    by_cases hc : c = 'Σ'
    · subst hc
      have hnot := h [] s rfl
      rw [List.reverse_nil, List.nil_append] at hnot
      rw [if_pos rfl, hnot, ht.lower_sigma]
      rfl
    · rw [if_neg hc]

/-- Without a final capital sigma the text is expanded character by character. -/
theorem toLowercase_eq (ht : t.Standard) (h : ¬ t.HasFinalSigma s) :
    t.toLowercase s = t.expand s := by
  refine lowercaseFrom_eq ht fun before after hs => ?_
  rw [List.append_nil]
  exact Bool.eq_false_iff.2 fun hfinal => h ⟨before, after, hs, hfinal⟩

/-- A character on its own has no fewer final small sigmas where it stands. -/
theorem count_le_lowered (ht : t.Standard) (c : Char) (isFinal : Bool) :
    (t.lower c).count 'ς' ≤
      (if c = 'Σ' then [if isFinal then 'ς' else 'σ'] else t.lower c).count 'ς' := by
  by_cases hc : c = 'Σ'
  · subst hc
    have hsigma : (t.lower 'Σ').count 'ς' = 0 := (congrArg _ ht.lower_sigma).trans (by decide)
    exact Nat.le_trans (Nat.le_of_eq hsigma) (Nat.zero_le _)
  · exact Nat.le_of_eq (by rw [if_neg hc])

theorem count_le_lowercaseFrom (ht : t.Standard) :
    (t.expand s).count 'ς' ≤ (t.lowercaseFrom before s).count 'ς' := by
  induction s generalizing before with
  | nil => exact Nat.le_refl _
  | cons c s ih =>
    rw [CaseTables.lowercaseFrom, expand_cons, List.count_append, List.count_append]
    exact Nat.add_le_add (count_le_lowered ht c _) ih

theorem count_lt_lowercaseFrom (ht : t.Standard) {pre after : List Char}
    (hfinal : t.isWordFinal (pre.reverse ++ before) after) :
    (t.expand (pre ++ 'Σ' :: after)).count 'ς' <
      (t.lowercaseFrom before (pre ++ 'Σ' :: after)).count 'ς' := by
  induction pre generalizing before with
  | nil =>
    rw [List.reverse_nil, List.nil_append] at hfinal
    rw [List.nil_append, CaseTables.lowercaseFrom, expand_cons, if_pos rfl, if_pos hfinal,
      ht.lower_sigma, List.count_append, List.count_append]
    exact Nat.add_lt_add_of_lt_of_le (by decide) (count_le_lowercaseFrom ht)
  | cons c pre ih =>
    rw [List.reverse_cons, List.append_assoc] at hfinal
    rw [List.cons_append, CaseTables.lowercaseFrom, expand_cons, List.count_append,
      List.count_append]
    exact Nat.add_lt_add_of_le_of_lt (count_le_lowered ht c _) (ih hfinal)

/-- With a final capital sigma there are more final small ones than in the expansions. -/
theorem count_lt_toLowercase (ht : t.Standard) (h : t.HasFinalSigma s) :
    (t.expand s).count 'ς' < (t.toLowercase s).count 'ς' := by
  obtain ⟨before, after, rfl, hfinal⟩ := h
  refine count_lt_lowercaseFrom ht ?_
  rwa [List.append_nil]

end Mcodex.FuzzyMatch
