import Mathlib.Data.List.DropRight

/-!
# The two ends of a list

What is kept of a list that grows at its end when only so many elements may stay at the front and so
many at the back. The last elements of the longer list are found among those that were kept
(`rtake_append_rtake`), so that a buffer need not remember what it dropped.
-/

namespace Mcodex.Ends

variable {α : Type*} {n : Nat}

/-- The first `front` elements, and the last `back` of those after them. -/
def ends (front back : Nat) (l : List α) : List α := l.take front ++ (l.drop front).rtake back

theorem length_rtake (n : Nat) (l : List α) : (l.rtake n).length = min n l.length := by
  rw [List.rtake, List.length_drop]
  omega

theorem rtake_of_length_le {l : List α} (h : l.length ≤ n) : l.rtake n = l := by
  rw [List.rtake, Nat.sub_eq_zero_of_le h, List.drop_zero]

/-- What was cut off does not come back: the last elements of a longer list are found in the last
elements there were. -/
theorem rtake_append_rtake (n : Nat) (l c : List α) :
    (l.rtake n ++ c).rtake n = (l ++ c).rtake n := by
  rcases Nat.le_total l.length n with hle | hle
  · rw [rtake_of_length_le hle]
  · have hskip : (l ++ c).length - n = l.length - n + c.length := by
      rw [List.length_append]
      omega
    have hcut : (l.rtake n ++ c).length - n = c.length := by
      rw [List.length_append, length_rtake, Nat.min_eq_left hle, Nat.add_sub_cancel_left]
    calc (l.rtake n ++ c).rtake n = (l.rtake n ++ c).drop c.length := by rw [List.rtake, hcut]
      _ = ((l ++ c).drop (l.length - n)).drop c.length := by
        rw [List.drop_append_of_le_length (Nat.sub_le _ _), List.rtake]
      _ = (l ++ c).rtake n := by rw [List.drop_drop, ← hskip, List.rtake]

/-- A list that is as long as what is kept is the last elements of any list it ends. -/
theorem rtake_append_of_le {c : List α} (h : n ≤ c.length) (l : List α) :
    (l ++ c).rtake n = c.rtake n := by
  have hskip : (l ++ c).length - n = l.length + (c.length - n) := by
    rw [List.length_append]
    omega
  rw [List.rtake, hskip, List.drop_length_add_append, List.rtake]

theorem length_ends (front back : Nat) (l : List α) :
    (ends front back l).length = min front l.length + min back (l.length - front) := by
  rw [ends, List.length_append, List.length_take, length_rtake, List.length_drop]

end Mcodex.Ends
