import Mathlib

/-!
# Bounded retention

A queue keeps its newest elements: as long as it exceeds a bound on its length and on the sum of
its sizes, which a counter remembers, its oldest element goes.
-/

namespace Mcodex.Retention

universe u

section
variable {α : Type u} (size : α → Nat) (exceeds : Nat → Nat → Bool)

/-- The elements that stay, and the counter. -/
def retain : List α → Nat → List α × Nat
  | [], total => ([], total)
  | a :: as, total =>
    if exceeds (as.length + 1) total then retain as (total - size a) else (a :: as, total)

/-- The elements that go. -/
def evicted (as : List α) (total : Nat) : List α :=
  as.take (as.length - (retain size exceeds as total).1.length)

variable {size exceeds} {as : List α} {total : Nat}

theorem retain_suffix : (retain size exceeds as total).1 <:+ as := by
  induction as generalizing total with
  | nil => exact List.suffix_refl _
  | cons a as ih =>
    rw [retain]
    split
    · exact ih.trans (List.suffix_cons a as)
    · exact List.suffix_refl _

theorem evicted_append_retain :
    evicted size exceeds as total ++ (retain size exceeds as total).1 = as := by
  have hsuffix : (retain size exceeds as total).1 <:+ as := retain_suffix
  conv_rhs => rw [← List.take_append_drop (as.length -
    (retain size exceeds as total).1.length) as]
  rw [← List.suffix_iff_eq_drop.1 hsuffix]
  rfl

/-- The counter counts the elements that stay. -/
theorem retain_total (htotal : total = (as.map size).sum) :
    (retain size exceeds as total).2 = ((retain size exceeds as total).1.map size).sum := by
  induction as generalizing total with
  | nil => exact htotal
  | cons a as ih =>
    rw [List.map_cons, List.sum_cons] at htotal
    rw [retain]
    split
    · refine ih ?_
      rw [htotal, Nat.add_sub_cancel_left]
    · rw [List.map_cons, List.sum_cons]
      exact htotal

/-- What stays does not exceed the bound, unless nothing stays. -/
theorem not_exceeds_retain (hne : (retain size exceeds as total).1 ≠ []) :
    ¬ exceeds (retain size exceeds as total).1.length (retain size exceeds as total).2 := by
  induction as generalizing total with
  | nil => exact absurd rfl hne
  | cons a as ih =>
    rw [retain] at hne ⊢
    split at hne
    · rename_i hexceeds
      rw [if_pos hexceeds]
      exact ih hne
    · rename_i hexceeds
      rw [if_neg hexceeds]
      exact hexceeds

end

end Mcodex.Retention
