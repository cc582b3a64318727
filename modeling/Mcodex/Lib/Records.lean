import Mathlib.Data.List.Count
import Mathlib.Data.List.Infix

/-!
# Records that end with a terminator

A file of records ends each with a terminator that no record has inside. `split` reads the records
back (`split_flatten`), the terminators count them (`count_flatten`), and a file that goes on where
another one ends goes on with whole records (`isPrefix_of_flatten`).
-/

namespace Mcodex.Records

universe u

section
variable {α : Type u} [DecidableEq α]

/-- The pieces of a file, with their terminators. The last piece may have none. -/
def split (sep : α) : List α → List (List α)
  | [] => []
  | x :: s =>
    if x = sep then [x] :: split sep s
    else
      match split sep s with
      | [] => [[x]]
      | r :: rs => (x :: r) :: rs

/-- A record with its terminator. -/
def IsRecord (sep : α) (r : List α) : Prop := ∃ body, r = body ++ [sep] ∧ sep ∉ body

variable {sep : α} {r s : List α} {rs rs' : List (List α)}

theorem split_append (h : IsRecord sep r) (s : List α) : split sep (r ++ s) = r :: split sep s := by
  obtain ⟨body, rfl, hbody⟩ := h
  induction body with
  | nil => exact if_pos rfl
  | cons x body ih =>
    rw [List.mem_cons, not_or] at hbody
    rw [List.cons_append, List.cons_append, split, if_neg (Ne.symm hbody.1), ih hbody.2]

theorem split_flatten_append (h : ∀ r ∈ rs, IsRecord sep r) (s : List α) :
    split sep (rs.flatten ++ s) = rs ++ split sep s := by
  induction rs with
  | nil => rfl
  | cons r rs ih =>
    rw [List.forall_mem_cons] at h
    rw [List.flatten_cons, List.append_assoc, split_append h.1, ih h.2, List.cons_append]

/-- Records are read back. -/
theorem split_flatten (h : ∀ r ∈ rs, IsRecord sep r) : split sep rs.flatten = rs := by
  have hsplit := split_flatten_append h []
  rwa [List.append_nil, split, List.append_nil] at hsplit

/-- There is a terminator for each record. -/
theorem count_flatten (h : ∀ r ∈ rs, IsRecord sep r) : rs.flatten.count sep = rs.length := by
  induction rs with
  | nil => rfl
  | cons r rs ih =>
    rw [List.forall_mem_cons] at h
    obtain ⟨body, rfl, hbody⟩ := h.1
    rw [List.flatten_cons, List.count_append, List.count_append, List.count_eq_zero_of_not_mem hbody,
      List.count_singleton_self, ih h.2, List.length_cons, Nat.zero_add, Nat.add_comm]

/-- A file that goes on has the records of the file before. -/
theorem isPrefix_of_flatten (h : ∀ r ∈ rs, IsRecord sep r) (h' : ∀ r ∈ rs', IsRecord sep r)
    (hpre : rs.flatten <+: rs'.flatten) : rs <+: rs' := by
  obtain ⟨s, hs⟩ := hpre
  exact ⟨split sep s, by rw [← split_flatten_append h, hs, split_flatten h']⟩

omit [DecidableEq α] in
/-- What the first records take. -/
theorem drop_flatten (rs : List (List α)) (n : Nat) :
    rs.flatten.drop (rs.take n).flatten.length = (rs.drop n).flatten := by
  conv_lhs => rw [← List.take_append_drop n rs, List.flatten_append]
  rw [List.take_append_drop, List.drop_left]

end

end Mcodex.Records
