import Mathlib.Data.List.Nodup
import Mathlib.Data.List.Infix

/-!
# Lists without repetition

`appendNew out xs` pushes the elements of `xs` one by one, unless they are there already. The first
of equal elements stays where it is.
-/

namespace Mcodex.Dedup

universe u

variable {α : Type u} [DecidableEq α] {out xs ys : List α} {x : α}

def appendNew (out xs : List α) : List α :=
  xs.foldl (fun out x => if x ∈ out then out else out ++ [x]) out

theorem appendNew_append (out xs ys : List α) :
    appendNew out (xs ++ ys) = appendNew (appendNew out xs) ys := List.foldl_append

theorem appendNew_concat (out xs : List α) (x : α) :
    appendNew out (xs ++ [x]) =
      if x ∈ appendNew out xs then appendNew out xs else appendNew out xs ++ [x] :=
  List.foldl_concat ..

theorem mem_appendNew : x ∈ appendNew out xs ↔ x ∈ out ∨ x ∈ xs := by
  induction xs using List.reverseRecOn with
  | nil => simp [appendNew]
  | append_singleton xs y ih =>
    rw [appendNew_concat, List.mem_append, List.mem_singleton, ← or_assoc, ← ih]
    split
    · rename_i hmem
      constructor
      · exact .inl
      · rintro (h | rfl)
        · exact h
        · exact hmem
    · rw [List.mem_append, List.mem_singleton]

/-- What is there already is not pushed again. -/
theorem appendNew_of_subset (h : ∀ x ∈ xs, x ∈ out) : appendNew out xs = out := by
  induction xs with
  | nil => rfl
  | cons x xs ih =>
    rw [List.forall_mem_cons] at h
    rw [appendNew, List.foldl_cons, if_pos h.1]
    exact ih h.2

theorem nodup_appendNew (h : out.Nodup) : (appendNew out xs).Nodup := by
  induction xs using List.reverseRecOn with
  | nil => exact h
  | append_singleton xs x ih =>
    rw [appendNew_concat]
    split
    · exact ih
    · rename_i hnew
      exact List.nodup_append.2 ⟨ih, List.nodup_singleton x, fun y hy z hz => by
        rw [List.mem_singleton.1 hz]
        exact fun heq => hnew (heq ▸ hy)⟩

/-- New elements are pushed in their order. -/
theorem appendNew_of_nodup (h : (out ++ xs).Nodup) : appendNew out xs = out ++ xs := by
  induction xs using List.reverseRecOn with
  | nil => exact (List.append_nil out).symm
  | append_singleton xs x ih =>
    rw [← List.append_assoc] at h
    have hnew : x ∉ out ++ xs := fun hmem =>
      (List.nodup_append.1 h).2.2 x hmem x (List.mem_singleton_self x) rfl
    rw [appendNew_concat, ih (List.nodup_append.1 h).1, if_neg hnew, List.append_assoc]

theorem isPrefix_appendNew (out xs : List α) : out <+: appendNew out xs := by
  induction xs using List.reverseRecOn with
  | nil => exact List.prefix_rfl
  | append_singleton xs x ih =>
    rw [appendNew_concat]
    split
    · exact ih
    · exact ih.trans (List.prefix_append _ _)

/-- Onto a list are pushed the elements that are not in it. -/
theorem appendNew_eq (out xs : List α) :
    appendNew out xs = out ++ (appendNew [] xs).filter (· ∉ out) := by
  induction xs using List.reverseRecOn with
  | nil => exact (List.append_nil out).symm
  | append_singleton xs x ih =>
    rw [appendNew_concat, appendNew_concat]
    simp only [mem_appendNew, List.not_mem_nil, false_or]
    by_cases hxs : x ∈ xs
    · rw [if_pos (.inr hxs), if_pos hxs, ih]
    by_cases hout : x ∈ out
    · rw [if_pos (.inl hout), if_neg hxs, ih, List.filter_append,
        List.filter_cons_of_neg (by simpa using hout), List.filter_nil, List.append_nil]
    · rw [if_neg (not_or.2 ⟨hout, hxs⟩), if_neg hxs, ih, List.filter_append,
        List.filter_cons_of_pos (by simpa using hout), List.filter_nil, List.append_assoc]

theorem appendNew_of_isPrefix (h : out <+: appendNew [] xs) :
    appendNew out xs = appendNew [] xs := by
  obtain ⟨rest, heq⟩ := h
  have hnodup : (out ++ rest).Nodup := heq ▸ nodup_appendNew List.nodup_nil
  have hout : out.filter (· ∉ out) = [] :=
    List.filter_eq_nil_iff.2 fun x hx => by simpa using hx
  have hrest : rest.filter (· ∉ out) = rest := List.filter_eq_self.2 fun x hx => by
    rw [decide_eq_true_iff]
    exact fun hmem => (List.nodup_append.1 hnodup).2.2 x hmem x hx rfl
  rw [appendNew_eq, ← heq, List.filter_append, hout, hrest, List.nil_append]

/-- Repetitions may be dropped before the elements are pushed. -/
theorem appendNew_appendNew (out xs : List α) :
    appendNew out (appendNew [] xs) = appendNew out xs := by
  have hnodup : ([] ++ appendNew [] xs).Nodup := nodup_appendNew List.nodup_nil
  rw [appendNew_eq, appendNew_of_nodup hnodup, List.nil_append, ← appendNew_eq]

/-- Repetitions may be dropped before or after elements are chosen and rewritten. -/
theorem appendNew_map_filter {β : Type u} [DecidableEq β] (p : α → Bool) (f : α → β)
    (xs : List α) :
    appendNew [] (((appendNew [] xs).filter p).map f) = appendNew [] ((xs.filter p).map f) := by
  induction xs using List.reverseRecOn with
  | nil => rfl
  | append_singleton xs x ih =>
    rw [appendNew_concat, List.filter_append, List.map_append]
    cases hx : p x with
    | false =>
      rw [List.filter_cons_of_neg (by simp [hx]), List.filter_nil, List.map_nil, List.append_nil,
        ← ih]
      split
      · rfl
      · rw [List.filter_append, List.filter_cons_of_neg (by simp [hx]), List.filter_nil,
          List.append_nil]
    | true =>
      rw [List.filter_cons_of_pos hx, List.filter_nil, List.map_singleton, appendNew_concat, ← ih]
      split
      · rename_i hmem
        have hmem' : f x ∈ appendNew [] (((appendNew [] xs).filter p).map f) :=
          mem_appendNew.2 (.inr (List.mem_map_of_mem (List.mem_filter.2 ⟨hmem, hx⟩)))
        rw [if_pos hmem']
      · rw [List.filter_append, List.filter_cons_of_pos hx, List.filter_nil, List.map_append,
          List.map_singleton, appendNew_concat]

end Mcodex.Dedup
