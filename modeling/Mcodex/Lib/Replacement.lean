import Mathlib.Data.List.Infix

/-!
# Replacing patterns in a list

`substitute rules` rewrites occurrences of patterns from the left, all rules at once and none of the
occurrences overlapping the one before; `replaceAll` does so for one rule, as Rust's `str::replace`
for a pattern that is not empty.

Replacing pattern by pattern rescans what was put in. Where the patterns are delimited and what is
put in is opaque it comes to replacing them at once (`foldl_replaceAll_eq_substitute`). Where a list
stands for another, piece by piece, replacing in it stands for replacing in the other if there every
occurrence is one of pieces (`replaceAll_flatMap`).
-/

namespace Mcodex.Replacement

universe u v

/-- What is rewritten, and as what. -/
structure Rule (α : Type u) where
  pattern : List α
  replacement : List α
  deriving DecidableEq

section
variable {α : Type u} [DecidableEq α]

/-- The loop of `substitute`, within an occurrence that has `skip` more elements. -/
def substituteFrom (rules : List (Rule α)) : Nat → List α → List α
  | _, [] => []
  | skip + 1, _ :: s => substituteFrom rules skip s
  | 0, x :: s =>
    match rules.find? (·.pattern <+: x :: s) with
    | some rule => rule.replacement ++ substituteFrom rules (rule.pattern.length - 1) s
    | none => x :: substituteFrom rules 0 s

/-- Rewrite the occurrences of the patterns, the first rule that applies at each place. -/
def substitute (rules : List (Rule α)) (s : List α) : List α := substituteFrom rules 0 s

/-- `str::replace`, for a pattern that is not empty. -/
def replaceAll (pattern replacement s : List α) : List α := substitute [⟨pattern, replacement⟩] s

variable {rules : List (Rule α)} {rule : Rule α} {pattern replacement s t : List α} {x : α}

/-! ## Steps -/

theorem substituteFrom_eq (skip : Nat) (s : List α) :
    substituteFrom rules skip s = substitute rules (s.drop skip) := by
  induction s generalizing skip with
  | nil => cases skip <;> rfl
  | cons x s ih =>
    cases skip with
    | zero => rfl
    | succ skip => exact ih skip

@[simp] theorem substitute_nil : substitute rules [] = [] := rfl

/-- Where no pattern occurs, the element is kept. -/
theorem substitute_cons (h : ∀ rule ∈ rules, ¬rule.pattern <+: x :: s) :
    substitute rules (x :: s) = x :: substitute rules s := by
  have hnone : rules.find? (·.pattern <+: x :: s) = none :=
    List.find?_eq_none.2 fun rule hrule => by simpa using h rule hrule
  rw [substitute, substituteFrom, hnone]
  rfl

theorem substitute_no_rules (s : List α) : substitute [] s = s := by
  induction s with
  | nil => rfl
  | cons x s ih => rw [substitute_cons (List.forall_mem_nil _), ih]

/-- Where a pattern occurs, its replacement stands for it. -/
theorem substitute_pattern (hne : rule.pattern ≠ [])
    (h : rules.find? (·.pattern <+: rule.pattern ++ s) = some rule) :
    substitute rules (rule.pattern ++ s) = rule.replacement ++ substitute rules s := by
  obtain ⟨x, pattern, hpattern⟩ := List.exists_cons_of_ne_nil hne
  rw [hpattern, List.cons_append] at h ⊢
  rw [substitute, substituteFrom, h]
  simp only [hpattern, List.length_cons, Nat.add_sub_cancel, substituteFrom_eq, List.drop_left]

/-- **Induction along the scan.** -/
theorem substitute_induction (rules : List (Rule α)) {motive : List α → List α → Prop}
    (hne : ∀ rule ∈ rules, rule.pattern ≠ []) (nil : motive [] [])
    (cons : ∀ x s, (∀ rule ∈ rules, ¬rule.pattern <+: x :: s) → motive s (substitute rules s) →
      motive (x :: s) (x :: substitute rules s))
    (pattern : ∀ rule s, rules.find? (·.pattern <+: rule.pattern ++ s) = some rule →
      motive s (substitute rules s) →
      motive (rule.pattern ++ s) (rule.replacement ++ substitute rules s))
    (s : List α) : motive s (substitute rules s) := by
  induction hlen : s.length using Nat.strong_induction_on generalizing s with
  | _ n ih =>
    cases s with
    | nil => exact nil
    | cons x s =>
      cases hfind : rules.find? (·.pattern <+: x :: s) with
      | none =>
        have hnone : ∀ rule ∈ rules, ¬rule.pattern <+: x :: s := fun rule hrule => by
          simpa using List.find?_eq_none.1 hfind rule hrule
        rw [substitute_cons hnone]
        exact cons x s hnone (ih s.length (hlen ▸ Nat.lt_succ_self _) s rfl)
      | some rule =>
        have hrule := hne rule (List.mem_of_find?_eq_some hfind)
        obtain ⟨rest, hrest⟩ : rule.pattern <+: x :: s := by simpa using List.find?_some hfind
        rw [← hrest] at hfind hlen ⊢
        rw [substitute_pattern hrule hfind]
        refine pattern rule rest hfind (ih rest.length ?_ rest rfl)
        rw [← hlen, List.length_append]
        exact Nat.lt_add_of_pos_left (List.length_pos_of_ne_nil hrule)

/-! ## One pattern -/

@[simp] theorem replaceAll_nil : replaceAll pattern replacement [] = [] := rfl

theorem replaceAll_cons (h : ¬pattern <+: x :: s) :
    replaceAll pattern replacement (x :: s) = x :: replaceAll pattern replacement s :=
  substitute_cons fun rule hrule => by rwa [List.mem_singleton.1 hrule]

theorem replaceAll_pattern (hne : pattern ≠ []) :
    replaceAll pattern replacement (pattern ++ s) =
      replacement ++ replaceAll pattern replacement s :=
  @substitute_pattern _ _ _ ⟨pattern, replacement⟩ _ hne (by simp)

/-- A stretch in which no occurrence begins is kept. -/
theorem replaceAll_append (h : ∀ j < s.length, ¬pattern <+: (s ++ t).drop j) :
    replaceAll pattern replacement (s ++ t) = s ++ replaceAll pattern replacement t := by
  induction s with
  | nil => rfl
  | cons x s ih =>
    have hx := h 0 (Nat.zero_lt_succ _)
    rw [List.drop_zero, List.cons_append] at hx
    rw [List.cons_append, replaceAll_cons hx, ih fun j hj => h (j + 1) (Nat.succ_lt_succ hj),
      List.cons_append]

/-- A stretch without the first element of the pattern is kept. -/
theorem replaceAll_append_of_notMem (h : x ∉ s) :
    replaceAll (x :: pattern) replacement (s ++ t) =
      s ++ replaceAll (x :: pattern) replacement t := by
  induction s with
  | nil => rfl
  | cons y s ih =>
    rw [List.mem_cons, not_or] at h
    have hy : ¬x :: pattern <+: y :: (s ++ t) := fun hpre => h.1 (List.cons_prefix_cons.1 hpre).1
    rw [List.cons_append, replaceAll_cons hy, ih h.2, List.cons_append]

theorem replaceAll_singleton {a b : α} (s : List α) :
    replaceAll [a] [b] s = s.map fun x => if x = a then b else x := by
  induction s with
  | nil => rfl
  | cons x s ih =>
    by_cases hx : x = a
    · subst hx
      exact (replaceAll_pattern (List.cons_ne_nil _ _)).trans (by simp [ih])
    · rw [replaceAll_cons (by simpa [eq_comm] using hx), ih, List.map_cons, if_neg hx]

/-- A text without the first element that is put in was there before. -/
theorem prefix_of_prefix_replaceAll {mark : α} {more body : List α} (hne : pattern ≠ [])
    (hbody : mark ∉ body) (hpre : body <+: replaceAll pattern (mark :: more) s) : body <+: s := by
  induction body generalizing s with
  | nil => exact List.nil_prefix
  | cons b body ih =>
    rw [List.mem_cons, not_or] at hbody
    by_cases hocc : pattern <+: s
    · obtain ⟨rest, rfl⟩ := hocc
      rw [replaceAll_pattern hne, List.cons_append, List.cons_prefix_cons] at hpre
      exact absurd hpre.1.symm hbody.1
    · cases s with
      | nil => exact hpre
      | cons x s =>
        rw [replaceAll_cons hocc, List.cons_prefix_cons] at hpre
        exact List.cons_prefix_cons.2 ⟨hpre.1, ih hbody.2 hpre.2⟩

/-! ## Pattern by pattern -/

/-- Patterns that begin with an element found nowhere else in them, none a prefix of another, each
replaced by one element that no pattern has. -/
structure Delimited (first : α) (rules : List (Rule α)) : Prop where
  pattern : ∀ rule ∈ rules, ∃ body, rule.pattern = first :: body ∧ first ∉ body
  replacement : ∀ rule ∈ rules, ∃ mark, rule.replacement = [mark] ∧
    ∀ rule' ∈ rules, mark ∉ rule'.pattern
  eq_of_prefix : ∀ rule ∈ rules, ∀ rule' ∈ rules, rule.pattern <+: rule'.pattern → rule = rule'

namespace Delimited

variable {first : α}

omit [DecidableEq α] in
theorem of_subset {rules' : List (Rule α)} (h : Delimited first rules') (hsub : rules ⊆ rules') :
    Delimited first rules where
  pattern rule hrule := h.pattern rule (hsub hrule)
  replacement rule hrule := by
    obtain ⟨mark, hmark, hnone⟩ := h.replacement rule (hsub hrule)
    exact ⟨mark, hmark, fun rule' hrule' => hnone rule' (hsub hrule')⟩
  eq_of_prefix rule hrule rule' hrule' := h.eq_of_prefix rule (hsub hrule) rule' (hsub hrule')

omit [DecidableEq α] in
theorem ne_nil (h : Delimited first rules) (hrule : rule ∈ rules) : rule.pattern ≠ [] := by
  obtain ⟨body, hbody, -⟩ := h.pattern rule hrule
  rw [hbody]
  exact List.cons_ne_nil _ _

omit [DecidableEq α] in
/-- Only one rule applies at a place. -/
theorem eq_of_prefixes (h : Delimited first rules) {rule' : Rule α} (hrule : rule ∈ rules)
    (hrule' : rule' ∈ rules) (hpre : rule.pattern <+: s) (hpre' : rule'.pattern <+: s) :
    rule = rule' := by
  rcases List.prefix_or_prefix_of_prefix hpre hpre' with hle | hle
  · exact h.eq_of_prefix rule hrule rule' hrule' hle
  · exact (h.eq_of_prefix rule' hrule' rule hrule hle).symm

theorem substitute_pattern (h : Delimited first rules) (hrule : rule ∈ rules) :
    substitute rules (rule.pattern ++ s) = rule.replacement ++ substitute rules s := by
  refine Replacement.substitute_pattern (h.ne_nil hrule) ?_
  cases hfind : rules.find? (·.pattern <+: rule.pattern ++ s) with
  | none =>
    have hnone := List.find?_eq_none.1 hfind rule hrule
    simp at hnone
  | some rule' =>
    have hpre : rule'.pattern <+: rule.pattern ++ s := by simpa using List.find?_some hfind
    exact congrArg some (h.eq_of_prefixes (List.mem_of_find?_eq_some hfind) hrule hpre
      (List.prefix_append _ _))

/-- The order of the rules does not matter. -/
theorem substitute_perm {rules' : List (Rule α)} (h : Delimited first rules)
    (hperm : rules.Perm rules') (s : List α) : substitute rules s = substitute rules' s := by
  have h' : Delimited first rules' := h.of_subset hperm.symm.subset
  refine substitute_induction rules (motive := fun s t => t = substitute rules' s)
    (fun rule hrule => h.ne_nil hrule) rfl (fun x s hnone ih => ?_) (fun rule s hfind ih => ?_) s
  · rw [substitute_cons fun rule hrule => hnone rule (hperm.mem_iff.2 hrule), ih]
  · have hrule := hperm.mem_iff.1 (List.mem_of_find?_eq_some hfind)
    rw [h'.substitute_pattern hrule, ih]

/-- No occurrence begins inside the pattern of another rule. -/
theorem replaceAll_pattern_append (h : Delimited first (rule :: rules)) {rule' : Rule α}
    (hrule' : rule' ∈ rule :: rules) (hne : rule' ≠ rule) (s : List α) :
    replaceAll rule.pattern rule.replacement (rule'.pattern ++ s) =
      rule'.pattern ++ replaceAll rule.pattern rule.replacement s := by
  have hnone : ¬rule.pattern <+: rule'.pattern ++ s := fun hpre =>
    hne (h.eq_of_prefixes hrule' List.mem_cons_self (List.prefix_append _ _) hpre)
  obtain ⟨body, hbody, -⟩ := h.pattern rule List.mem_cons_self
  obtain ⟨body', hbody', hfirst⟩ := h.pattern rule' hrule'
  rw [hbody', List.cons_append] at hnone ⊢
  rw [replaceAll_cons hnone, hbody, replaceAll_append_of_notMem hfirst, List.cons_append]

/-- One rule first and the others then are all of them at once. -/
theorem substitute_replaceAll (h : Delimited first (rule :: rules)) (s : List α) :
    substitute rules (replaceAll rule.pattern rule.replacement s) =
      substitute (rule :: rules) s := by
  have hrules : Delimited first rules := h.of_subset (List.subset_cons_self _ _)
  have hne := h.ne_nil List.mem_cons_self
  obtain ⟨mark, hmark, hunmarked⟩ := h.replacement rule List.mem_cons_self
  refine substitute_induction (rule :: rules)
    (motive := fun s t => substitute rules (replaceAll rule.pattern rule.replacement s) = t)
    (fun rule' hrule' => h.ne_nil hrule') rfl (fun x s hnone ih => ?_)
    (fun rule' s hfind ih => ?_) s
  · rw [List.forall_mem_cons] at hnone
    rw [replaceAll_cons hnone.1, substitute_cons fun rule' hrule' hpre => ?_, ih]
    obtain ⟨body, hbody, -⟩ := h.pattern rule' (List.mem_cons_of_mem _ hrule')
    have hmarked := hunmarked rule' (List.mem_cons_of_mem _ hrule')
    rw [hbody, List.mem_cons, not_or] at hmarked
    rw [hbody, hmark, List.cons_prefix_cons] at hpre
    refine hnone.2 rule' hrule' ?_
    rw [hbody]
    exact List.cons_prefix_cons.2 ⟨hpre.1, prefix_of_prefix_replaceAll hne hmarked.2 hpre.2⟩
  · by_cases heq : rule' = rule
    · subst heq
      rw [replaceAll_pattern hne, ← ih, hmark, List.singleton_append, substitute_cons,
        List.singleton_append]
      intro rule'' hrule'' hpre
      obtain ⟨body, hbody, -⟩ := h.pattern rule'' (List.mem_cons_of_mem _ hrule'')
      refine hunmarked rule'' (List.mem_cons_of_mem _ hrule'') ?_
      rw [hbody, List.cons_prefix_cons] at hpre
      rw [hbody, ← hpre.1]
      exact List.mem_cons_self
    · have hmem := List.mem_of_find?_eq_some hfind
      rw [h.replaceAll_pattern_append hmem heq,
        hrules.substitute_pattern ((List.mem_cons.1 hmem).resolve_left heq), ih]

end Delimited

/-- **Replacing pattern by pattern** is replacing them at once. -/
theorem foldl_replaceAll_eq_substitute {first : α} (h : Delimited first rules) (s : List α) :
    rules.foldl (fun s rule => replaceAll rule.pattern rule.replacement s) s =
      substitute rules s := by
  induction rules generalizing s with
  | nil => exact (substitute_no_rules s).symm
  | cons rule rules ih =>
    rw [List.foldl_cons, ih (h.of_subset (List.subset_cons_self _ _)), h.substitute_replaceAll]

end

/-! ## Piece by piece -/

section
variable {α : Type u} {β : Type v} {text : α → List β} {pattern replacement s : List α} {x : α}

/-- Every occurrence of the pattern in the text of the pieces is one of pieces. -/
def Faithful (text : α → List β) (pattern s : List α) : Prop :=
  ∀ before after, s.flatMap text = before ++ pattern.flatMap text ++ after →
    ∃ pre post, s = pre ++ pattern ++ post ∧ pre.flatMap text = before

/-- A pattern of pieces, the first of which has a text. -/
def Visible (text : α → List β) (pattern : List α) : Prop :=
  ∃ first rest, pattern = first :: rest ∧ text first ≠ []

theorem Faithful.tail (hvisible : Visible text pattern) (h : Faithful text pattern (x :: s)) :
    Faithful text pattern s := by
  intro before after hs
  obtain ⟨first, rest, rfl, hfirst⟩ := hvisible
  obtain ⟨pre, post, hpieces, hbefore⟩ := h (text x ++ before) after (by
    rw [List.flatMap_cons, hs, List.append_assoc, List.append_assoc, List.append_assoc])
  cases pre with
  | nil =>
    obtain rfl : x = first := List.head_eq_of_cons_eq hpieces
    exact absurd (List.append_eq_nil_iff.1 hbefore.symm).1 hfirst
  | cons y pre =>
    obtain ⟨rfl, htail⟩ := List.cons_eq_cons.1 hpieces
    exact ⟨pre, post, htail, List.append_cancel_left hbefore⟩

theorem Faithful.append_right (hvisible : Visible text pattern) {t : List α}
    (h : Faithful text pattern (t ++ s)) : Faithful text pattern s := by
  induction t with
  | nil => exact h
  | cons x t ih => exact ih (h.tail hvisible)

/-- Occurrences are found place by place. -/
theorem faithful_iff : Faithful text pattern s ↔
    ∀ i ≤ (s.flatMap text).length, pattern.flatMap text <+: (s.flatMap text).drop i →
      ∃ j ≤ s.length, pattern <+: s.drop j ∧ ((s.take j).flatMap text).length = i := by
  constructor
  · rintro h i hi ⟨after, hafter⟩
    obtain ⟨pre, post, hpieces, hbefore⟩ := h ((s.flatMap text).take i) after (by
      rw [List.append_assoc, hafter, List.take_append_drop])
    rw [List.append_assoc] at hpieces
    refine ⟨pre.length, ?_, ⟨post, ?_⟩, ?_⟩
    · rw [hpieces, List.length_append]
      exact Nat.le_add_right _ _
    · rw [hpieces, List.drop_left]
    · rw [hpieces, List.take_left, hbefore, List.length_take, min_eq_left hi]
  · intro h before after hs
    rw [List.append_assoc] at hs
    obtain ⟨j, -, ⟨post, hpost⟩, hlen⟩ := h before.length
      (by rw [hs, List.length_append]; exact Nat.le_add_right _ _)
      ⟨after, by rw [hs, List.drop_left]⟩
    refine ⟨s.take j, post, by rw [List.append_assoc, hpost, List.take_append_drop], ?_⟩
    have hpre : (s.take j).flatMap text <+: before ++ (pattern.flatMap text ++ after) := by
      rw [← hs]
      exact ⟨(s.drop j).flatMap text, by rw [← List.flatMap_append, List.take_append_drop]⟩
    exact (List.prefix_of_prefix_length_le hpre (List.prefix_append _ _) hlen.le).eq_of_length hlen

variable [DecidableEq α] [DecidableEq β]

instance : Decidable (Faithful text pattern s) := decidable_of_iff' _ faithful_iff

/-- **Replacing pieces replaces their texts** where every occurrence is one of pieces. -/
theorem replaceAll_flatMap (hvisible : Visible text pattern) (h : Faithful text pattern s) :
    replaceAll (pattern.flatMap text) (replacement.flatMap text) (s.flatMap text) =
      (replaceAll pattern replacement s).flatMap text := by
  have hne : pattern ≠ [] := by
    obtain ⟨first, rest, rfl, -⟩ := hvisible
    exact List.cons_ne_nil _ _
  have htext : pattern.flatMap text ≠ [] := by
    obtain ⟨first, rest, rfl, hfirst⟩ := hvisible
    exact fun hnil => hfirst (List.append_eq_nil_iff.1 hnil).1
  refine substitute_induction [⟨pattern, replacement⟩]
    (motive := fun s t => Faithful text pattern s →
      replaceAll (pattern.flatMap text) (replacement.flatMap text) (s.flatMap text) =
        t.flatMap text)
    (fun rule hrule => (List.mem_singleton.1 hrule) ▸ hne) (fun _ => rfl)
    (fun x s hnone ih h => ?_) (fun rule s hfind ih h => ?_) s h
  · rw [List.flatMap_cons, List.flatMap_cons, replaceAll_append fun j hj hpre => ?_,
      ih (h.tail hvisible)]
    obtain ⟨after, hafter⟩ := hpre
    obtain ⟨pre, post, hpieces, hbefore⟩ := h ((text x ++ s.flatMap text).take j) after (by
      rw [List.append_assoc, hafter, List.take_append_drop, List.flatMap_cons])
    -- an occurrence that begins within the text of `x` is one of pieces from `x` on
    cases pre with
    | nil => exact hnone _ List.mem_cons_self ⟨post, hpieces.symm⟩
    | cons y pre =>
      obtain ⟨rfl, -⟩ := List.cons_eq_cons.1 hpieces
      have hlen := congrArg List.length hbefore
      rw [List.flatMap_cons, List.length_append, List.length_take, List.length_append] at hlen
      omega
  · obtain rfl := List.mem_singleton.1 (List.mem_of_find?_eq_some hfind)
    rw [List.flatMap_append, List.flatMap_append, replaceAll_pattern htext,
      ih (h.append_right hvisible)]

end

end Mcodex.Replacement
