import Mathlib.Order.WellFounded
import Mcodex.Lib.Transition

/-!
# Infinite runs

A `Behavior` of a system is one of its runs that goes on for ever. That something happens in it comes
from what happens again and again, by three rules: what holds until an action is taken holds when it
is taken (`exists_acts`), what lowers a rank again and again comes to an end (`exists_of_rank`), and
what changes only as long as a weight falls changes no more at some time (`exists_constant`).
-/

namespace Mcodex.Transition

universe u v

structure System.Behavior {σ : Type u} {α : Type v} (S : System σ α) where
  state : Nat → σ
  action : Nat → α
  start : S.Reach (state 0)
  step : ∀ i, S.step (state i) (action i) (state (i + 1))

section
variable {σ : Type u} {α : Type v} {S : System σ α} {I : σ → Prop}

theorem System.Behavior.reach (run : S.Behavior) (i : Nat) : S.Reach (run.state i) := by
  induction i with
  | zero => exact run.start
  | succ i ih => exact .step ih (run.step i)

/-- What holds at some time and is preserved holds from then on. -/
theorem forall_ge_of_step {p : Nat → Prop} {n : Nat} (hn : p n) (hstep : ∀ i ≥ n, p i → p (i + 1)) :
    ∀ i ≥ n, p i := by
  intro i hi
  induction i, hi using Nat.le_induction with
  | base => exact hn
  | succ i hi ih => exact hstep i hi ih

/-- What holds until an action that is taken again and again holds when it is taken next. -/
theorem exists_acts {p acts : Nat → Prop} (hacts : ∀ i, ∃ j ≥ i, acts j)
    (hstay : ∀ i, p i → ¬ acts i → p (i + 1)) {i : Nat} (hi : p i) : ∃ j ≥ i, p j ∧ acts j := by
  obtain ⟨j, hj, hacts⟩ := hacts i
  obtain ⟨d, rfl⟩ := Nat.exists_eq_add_of_le hj
  induction d generalizing i with
  | zero => exact ⟨i, Nat.le_refl i, hi, hacts⟩
  | succ d ih =>
    by_cases hnow : acts i
    · exact ⟨i, Nat.le_refl i, hi, hnow⟩
    · have hend : acts (i + 1 + d) := by rwa [Nat.add_right_comm i 1 d]
      obtain ⟨j, hj, hp⟩ := ih (hstay i hi hnow) (by omega) hend
      exact ⟨j, by omega, hp⟩

theorem exists_of_rank {ρ : Type v} [Preorder ρ] [WellFoundedLT ρ] {p : Nat → Prop}
    {r : Nat → ρ} (h : ∀ i, p i ∨ ∃ j ≥ i, r j < r i) (i : Nat) : ∃ j ≥ i, p j := by
  induction hrank : r i using WellFoundedLT.induction generalizing i with
  | ind rank ih =>
    rcases h i with hi | ⟨j, hj, hlt⟩
    · exact ⟨i, Nat.le_refl i, hi⟩
    · obtain ⟨k, hk, hp⟩ := ih (r j) (hrank ▸ hlt) j rfl
      exact ⟨k, hk.trans' hj, hp⟩

theorem exists_constant {β : Type v} {f : Nat → β} {w : β → Nat} {n : Nat}
    (h : ∀ i ≥ n, f (i + 1) = f i ∨ w (f (i + 1)) < w (f i)) : ∃ m ≥ n, ∀ i ≥ m, f i = f m := by
  induction hw : w (f n) using Nat.strong_induction_on generalizing n with
  | _ weight ih =>
    by_cases hall : ∀ i ≥ n, f (i + 1) = f i
    · exact ⟨n, Nat.le_refl n, forall_ge_of_step rfl fun i hi heq => (hall i hi).trans heq⟩
    · -- The weight is lower after the first change.
      obtain ⟨i, hi⟩ : ∃ i, n ≤ i ∧ f (i + 1) ≠ f i := by
        push Not at hall
        exact hall
      have hle : ∀ j ≥ n, w (f j) ≤ w (f n) :=
        forall_ge_of_step (Nat.le_refl _) fun j hj hle => by
          rcases h j hj with heq | hlt
          · rwa [heq]
          · omega
      have hlt := (h i hi.1).resolve_left hi.2
      have hlow : w (f (i + 1)) < weight := by
        have := hle i hi.1
        omega
      obtain ⟨m, hm, hconst⟩ := ih _ hlow (fun j hj => h j (by omega)) rfl
      exact ⟨m, by omega, hconst⟩

end

end Mcodex.Transition
