import Mcodex.Lib.Transition

/-!
# Scripts

Where the steps of a system are computed, a list of labels is a script, and the state that it leads
to is computed too and reached.
-/

namespace Mcodex.Transition.System

universe u v

variable {σ : Type u} {α : Type v} {S : System σ α} {next : σ → α → Option σ} {s t : σ}

/-- The state after the labels of a script, when every step can be taken. -/
def script (next : σ → α → Option σ) (s : σ) (labels : List α) : Option σ :=
  labels.foldlM next s

theorem Reach.script {labels : List α} (hs : S.Reach s)
    (hnext : ∀ s a t, next s a = some t → S.step s a t)
    (h : System.script next s labels = some t) : S.Reach t := by
  induction labels generalizing s with
  | nil =>
    cases h
    exact hs
  | cons a labels ih =>
    rw [System.script, List.foldlM_cons] at h
    obtain ⟨s', hstep, h⟩ := Option.bind_eq_some_iff.1 h
    exact ih (.step hs (hnext _ _ _ hstep)) h

/-- A step that is not a bad one. -/
def avoid (bad : σ → α → Bool) (next : σ → α → Option σ) (s : σ) (a : α) : Option σ :=
  if bad s a then none else next s a

theorem step_of_avoid {bad : σ → α → Bool} {a : α}
    (hnext : ∀ s a t, next s a = some t → S.step s a t) (h : avoid bad next s a = some t) :
    (S.restrict fun s a => bad s a = false).step s a t := by
  unfold avoid at h
  split at h
  · cases h
  · next hbad => exact ⟨by simpa using hbad, hnext s a t h⟩

/-- A script without bad steps. -/
theorem Reach.script_avoid {bad : σ → α → Bool} {labels : List α}
    (hs : (S.restrict fun s a => bad s a = false).Reach s)
    (hnext : ∀ s a t, next s a = some t → S.step s a t)
    (h : System.script (avoid bad next) s labels = some t) :
    (S.restrict fun s a => bad s a = false).Reach t :=
  hs.script (fun _ _ _ => step_of_avoid hnext) h

end Mcodex.Transition.System
