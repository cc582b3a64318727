import Mathlib.Logic.Relation

/-!
# Labelled transition systems

A `System` has initial states and labelled steps; `Reach` holds of the states its runs visit and
`Run` of two states that a run connects. `restrict` keeps the steps that meet a condition, so that
a property of a system whose steps all meet the condition is a property of the restricted system.
-/

namespace Mcodex.Transition

universe u v

/-- A transition system over states `σ` whose steps carry labels `α`. -/
structure System (σ : Type u) (α : Type v) where
  init : σ → Prop
  step : σ → α → σ → Prop

namespace System

section
variable {σ : Type u} {α : Type v} {S : System σ α} {C : σ → α → Prop} {I : σ → Prop}

/-- The states that runs from an initial state visit. -/
inductive Reach (S : System σ α) : σ → Prop
  | init {s} : S.init s → Reach S s
  | step {s a t} : Reach S s → S.step s a t → Reach S t

/-- A run of any length connects two states. -/
inductive Run (S : System σ α) : σ → σ → Prop
  | refl {s} : Run S s s
  | step {s a t u} : Run S s t → S.step t a u → Run S s u

/-- The system with the steps that meet `C` only. -/
def restrict (S : System σ α) (C : σ → α → Prop) : System σ α where
  init := S.init
  step s a t := C s a ∧ S.step s a t

theorem Reach.run {s t : σ} (hs : S.Reach s) (h : S.Run s t) : S.Reach t := by
  induction h with
  | refl => exact hs
  | step _ hstep ih => exact .step ih hstep

theorem Run.trans {s t u : σ} (h : S.Run s t) (h' : S.Run t u) : S.Run s u := by
  induction h' with
  | refl => exact h
  | step _ hstep ih => exact .step ih hstep

/-- **Invariants.** What holds initially and is preserved by every step holds in every state
reached. -/
theorem Reach.invariant {s : σ} (h : S.Reach s) (hinit : ∀ s, S.init s → I s)
    (hstep : ∀ s a t, I s → S.step s a t → I t) : I s := by
  induction h with
  | init h => exact hinit _ h
  | step _ h ih => exact hstep _ _ _ ih h

/-- A step-preserved relation to the start of a run is kept by the whole run. -/
theorem Run.invariant {s t : σ} (h : S.Run s t) (hI : I s)
    (hstep : ∀ s a t, I s → S.step s a t → I t) : I t := by
  induction h with
  | refl => exact hI
  | step _ h ih => exact hstep _ _ _ ih h

theorem Reach.of_restrict {s : σ} (h : (S.restrict C).Reach s) : S.Reach s := by
  induction h with
  | init h => exact .init h
  | step _ h ih => exact .step ih h.2

/-- A restricted run goes on with a step that meets the condition. -/
theorem Reach.step_restrict {s t : σ} {a : α} (h : (S.restrict C).Reach s) (hstep : S.step s a t)
    (hC : C s a) : (S.restrict C).Reach t := .step h ⟨hC, hstep⟩

end

end System

end Mcodex.Transition
