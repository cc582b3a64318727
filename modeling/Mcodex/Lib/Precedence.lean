import Mathlib.Data.Prod.Lex
import Mcodex.Lib.Ranking

/-!
# The most specific rule

A rule has a key and a value, and applies to every list that begins with its key. The rule with the
longest key prevails, and among rules with one key the greatest value. What prevails for a list
prevails for its own key too, and for all that stands between.
-/

namespace Mcodex.Precedence

open Ranking

universe u v

/-- A value for all lists that begin with the key. -/
structure Rule (α : Type u) (ν : Type v) where
  key : List α
  value : ν

variable {α : Type u} {ν : Type v} [LinearOrder ν] {rules rules' : List (Rule α ν)}
  {rule rule' : Rule α ν} {p q : List α}

/-- The rule is among the rules, applies to the list, and no rule that applies comes before it. -/
structure Prevails (rules : List (Rule α ν)) (p : List α) (rule : Rule α ν) : Prop where
  mem : rule ∈ rules
  isPrefix : rule.key <+: p
  most : ∀ rule' ∈ rules, rule'.key <+: p →
    rule'.key.length < rule.key.length ∨ rule'.key = rule.key ∧ rule'.value ≤ rule.value

theorem Prevails.length_le (h : Prevails rules p rule) (hmem : rule' ∈ rules)
    (happlies : rule'.key <+: p) : rule'.key.length ≤ rule.key.length := by
  rcases h.most rule' hmem happlies with hlt | ⟨heq, -⟩
  · omega
  · rw [heq]

/-- No other rule applies beneath the key of the one that prevails. -/
theorem Prevails.isPrefix_key (h : Prevails rules p rule) (hmem : rule' ∈ rules)
    (happlies : rule'.key <+: p) : rule'.key <+: rule.key :=
  List.prefix_of_prefix_length_le happlies h.isPrefix (h.length_le hmem happlies)

theorem Prevails.unique (h : Prevails rules p rule) (h' : Prevails rules p rule') :
    rule = rule' := by
  have hlength := h'.length_le h.mem h.isPrefix
  rcases h.most _ h'.mem h'.isPrefix with hlt | ⟨hkey, hle⟩
  · omega
  rcases h'.most _ h.mem h.isPrefix with hlt | ⟨-, hle'⟩
  · rw [hkey] at hlt
    omega
  · cases rule
    cases rule'
    exact Rule.mk.injEq .. ▸ ⟨hkey.symm, le_antisymm hle' hle⟩

/-- What prevails for a list prevails for all that stands between its key and the list. -/
theorem Prevails.of_isPrefix (h : Prevails rules p rule) (hkey : rule.key <+: q) (hq : q <+: p) :
    Prevails rules q rule where
  mem := h.mem
  isPrefix := hkey
  most rule' hmem happlies := h.most rule' hmem (happlies.trans hq)

theorem Prevails.self (h : Prevails rules p rule) : Prevails rules rule.key rule :=
  h.of_isPrefix List.prefix_rfl h.isPrefix

/-- A rule that a greater one covers changes nothing. -/
theorem Prevails.of_covered (h : Prevails rules p rule) (hsub : ∀ rule ∈ rules, rule ∈ rules')
    (hcovered : ∀ rule' ∈ rules', ∃ rule ∈ rules, rule.key = rule'.key ∧
      rule'.value ≤ rule.value) : Prevails rules' p rule where
  mem := hsub rule h.mem
  isPrefix := h.isPrefix
  most rule' hmem' happlies := by
    obtain ⟨covering, hmem, hkey, hle⟩ := hcovered rule' hmem'
    rcases h.most covering hmem (hkey ▸ happlies) with hlt | ⟨heq, hle'⟩
    · exact .inl (hkey ▸ hlt)
    · exact .inr ⟨hkey ▸ heq, hle.trans hle'⟩

/-- A rule that comes before an added one goes on to prevail. -/
theorem Prevails.append (h : Prevails rules p rule) (hrule' : rule'.key <+: p →
    rule'.key.length < rule.key.length ∨ rule'.key = rule.key ∧ rule'.value ≤ rule.value) :
    Prevails (rules ++ [rule']) p rule where
  mem := List.mem_append_left _ h.mem
  isPrefix := h.isPrefix
  most other hmem happlies := by
    rcases List.mem_append.1 hmem with hmem | hmem
    · exact h.most other hmem happlies
    · obtain rfl := List.mem_singleton.1 hmem
      exact hrule' happlies

/-- What prevails among more rules prevails among those that hold it. -/
theorem Prevails.of_append (h : Prevails (rules ++ rules') p rule) (hmem : rule ∈ rules) :
    Prevails rules p rule :=
  ⟨hmem, h.isPrefix, fun other hother => h.most other (List.mem_append_left _ hother)⟩

/-- The length of the key, then the value. -/
def precedence (rule : Rule α ν) : Nat ×ₗ ν := toLex (rule.key.length, rule.value)

theorem precedence_le (h : precedence rule' ≤ precedence rule) (hrule : rule.key <+: p)
    (hrule' : rule'.key <+: p) :
    rule'.key.length < rule.key.length ∨ rule'.key = rule.key ∧ rule'.value ≤ rule.value := by
  rcases Prod.Lex.toLex_le_toLex.1 h with hlt | ⟨heq, hle⟩
  · exact .inl hlt
  · have hpre := List.prefix_of_prefix_length_le hrule' hrule (Nat.le_of_eq heq)
    exact .inr ⟨hpre.eq_of_length heq, hle⟩

/-- The value of the rule that prevails. -/
def resolve [DecidableEq α] (rules : List (Rule α ν)) (p : List α) : Option ν :=
  (maxByKey precedence (rules.filter (·.key <+: p))).map (·.value)

section
variable [DecidableEq α]

theorem exists_prevails (hmem : rule ∈ rules) (happlies : rule.key <+: p) :
    ∃ winner, Prevails rules p winner ∧ resolve rules p = some winner.value := by
  have hrule : rule ∈ rules.filter (·.key <+: p) :=
    List.mem_filter.2 ⟨hmem, decide_eq_true happlies⟩
  cases hmax : maxByKey precedence (rules.filter (·.key <+: p)) with
  | none => exact absurd hrule (maxByKey_eq_none.1 hmax ▸ List.not_mem_nil)
  | some winner =>
    obtain ⟨hwinner, hpre⟩ := List.mem_filter.1 (mem_of_maxByKey hmax)
    have hpre : winner.key <+: p := of_decide_eq_true hpre
    refine ⟨winner, ⟨hwinner, hpre, fun rule' hmem' happlies' => ?_⟩, by rw [resolve, hmax]; rfl⟩
    have hle := le_of_maxByKey hmax (List.mem_filter.2 ⟨hmem', decide_eq_true happlies'⟩)
    exact precedence_le hle hpre happlies'

theorem Prevails.resolve (h : Prevails rules p rule) : resolve rules p = some rule.value := by
  obtain ⟨winner, hwinner, hresolve⟩ := exists_prevails h.mem h.isPrefix
  rw [hresolve, h.unique hwinner]

theorem resolve_eq_some {value : ν} :
    resolve rules p = some value ↔ ∃ rule, Prevails rules p rule ∧ rule.value = value := by
  constructor
  · intro h
    obtain ⟨rule, hmax, rfl⟩ := Option.map_eq_some_iff.1 h
    obtain ⟨hmem, hpre⟩ := List.mem_filter.1 (mem_of_maxByKey hmax)
    obtain ⟨winner, hwinner, hresolve⟩ := exists_prevails hmem (of_decide_eq_true hpre)
    exact ⟨winner, hwinner, Option.some.inj (hresolve.symm.trans h)⟩
  · rintro ⟨rule, hrule, rfl⟩
    exact hrule.resolve

theorem resolve_eq_none : resolve rules p = none ↔ ∀ rule ∈ rules, ¬ rule.key <+: p := by
  rw [resolve, Option.map_eq_none_iff, maxByKey_eq_none, List.filter_eq_nil_iff]
  simp

/-- Rules that others cover change nothing. -/
theorem resolve_of_covered (hsub : ∀ rule ∈ rules, rule ∈ rules')
    (hcovered : ∀ rule' ∈ rules', ∃ rule ∈ rules, rule.key = rule'.key ∧
      rule'.value ≤ rule.value) (p : List α) :
    Precedence.resolve rules' p = Precedence.resolve rules p := by
  cases h : Precedence.resolve rules p with
  | none =>
    rw [resolve_eq_none] at h ⊢
    intro rule' hrule'
    obtain ⟨rule, hrule, hkey, -⟩ := hcovered rule' hrule'
    exact hkey ▸ h rule hrule
  | some value =>
    obtain ⟨rule, hrule, rfl⟩ := resolve_eq_some.1 h
    exact (hrule.of_covered hsub hcovered).resolve

/-- An added rule changes nothing, or it prevails where what prevailed at its key had prevailed. -/
theorem resolve_append_cases (rules : List (Rule α ν)) (rule : Rule α ν) (p : List α) :
    Precedence.resolve (rules ++ [rule]) p = Precedence.resolve rules p ∨
      rule.key <+: p ∧ Precedence.resolve rules p = Precedence.resolve rules rule.key ∧
        Precedence.resolve (rules ++ [rule]) p = some rule.value := by
  by_cases happlies : rule.key <+: p
  · obtain ⟨winner, hwinner, hresolve⟩ :=
      exists_prevails (List.mem_append_right rules (List.mem_singleton.2 rfl)) happlies
    rcases List.mem_append.1 hwinner.mem with hmem | hmem
    · exact .inl (hresolve.trans (hwinner.of_append hmem).resolve.symm)
    · obtain rfl := List.mem_singleton.1 hmem
      refine .inr ⟨happlies, ?_, hresolve⟩
      cases hold : Precedence.resolve rules p with
      | none =>
        rw [resolve_eq_none] at hold
        exact (resolve_eq_none.2 fun other hother hpre => hold other hother
          (hpre.trans happlies)).symm
      | some value =>
        -- what prevailed was above the added rule, and so prevailed at its key too
        obtain ⟨other, hother, rfl⟩ := resolve_eq_some.1 hold
        have hkey : other.key <+: winner.key :=
          hwinner.isPrefix_key (List.mem_append_left _ hother.mem) hother.isPrefix
        exact (hother.of_isPrefix hkey happlies).resolve.symm
  · refine .inl ?_
    cases hold : Precedence.resolve rules p with
    | none =>
      rw [resolve_eq_none] at hold ⊢
      intro other hother
      rcases List.mem_append.1 hother with hother | hother
      · exact hold other hother
      · exact List.mem_singleton.1 hother ▸ happlies
    | some value =>
      obtain ⟨other, hother, rfl⟩ := resolve_eq_some.1 hold
      exact (hother.append fun h => absurd h happlies).resolve

end

end Mcodex.Precedence
