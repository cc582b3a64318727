import Mathlib.Data.List.DropRight
import Mathlib.Data.List.TakeWhile

/-!
# Lists cut at marked elements

The marked elements of a list begin its segments. `beforeNth p n` is what stands before the marked
element number `n`, counted from zero, and the whole list when there are not so many. What a fold
reads in the end, where each element either passes on what was there or writes, is the last write.
Neighbours that join make runs (`mergeRuns`): two lists with the same runs may stand for each other
in a longer list, and have the same value under any map that sends joining to appending.
-/

namespace Mcodex.Segment

universe u

variable {α : Type u} (p : α → Bool)

def beforeNth : Nat → List α → List α
  | _, [] => []
  | 0, x :: xs => if p x then [] else x :: beforeNth 0 xs
  | n + 1, x :: xs => x :: beforeNth (if p x then n else n + 1) xs

variable {p} {n i : Nat} {xs ys : List α}

theorem beforeNth_zero : beforeNth p 0 xs = xs.takeWhile (!p ·) := by
  induction xs with
  | nil => rfl
  | cons x xs ih =>
    rw [beforeNth, ih, List.takeWhile_cons]
    cases p x <;> rfl

theorem beforeNth_isPrefix : beforeNth p n xs <+: xs := by
  induction xs generalizing n with
  | nil => exact List.prefix_refl []
  | cons x xs ih =>
    cases n with
    | zero =>
      rw [beforeNth]
      split
      · exact List.nil_prefix
      · exact (List.prefix_cons_inj x).2 ih
    | succ n => exact (List.prefix_cons_inj x).2 ih

theorem countP_beforeNth : (beforeNth p n xs).countP p = min n (xs.countP p) := by
  induction xs generalizing n with
  | nil => simp [beforeNth]
  | cons x xs ih =>
    cases n with
    | zero =>
      rw [Nat.zero_min, beforeNth_zero, List.countP_eq_zero]
      intro y hy
      simpa using List.mem_takeWhile_imp hy
    | succ n =>
      rw [beforeNth, List.countP_cons, ih, List.countP_cons]
      by_cases hx : p x
      · simp only [hx, if_true]
        omega
      · simp [hx]

/-- What stands before a marked element does not depend on what follows it. -/
theorem beforeNth_append (h : n < xs.countP p) : beforeNth p n (xs ++ ys) = beforeNth p n xs := by
  induction xs generalizing n with
  | nil => simp at h
  | cons x xs ih =>
    rw [List.countP_cons] at h
    by_cases hx : p x
    · cases n with
      | zero => simp [beforeNth, hx]
      | succ n =>
        simp only [hx, if_true] at h
        simp only [List.cons_append, beforeNth, hx, if_true]
        rw [ih (by omega)]
    · simp only [hx, if_false, Bool.false_eq_true, Nat.add_zero] at h
      cases n <;> simp [beforeNth, hx, ih h]

theorem beforeNth_of_isPrefix (h : xs <+: ys) (hn : n < xs.countP p) :
    beforeNth p n ys = beforeNth p n xs := by
  obtain ⟨zs, rfl⟩ := h
  exact beforeNth_append hn

/-- Behind all marked elements of a list, what stands before one of the next list is counted on. -/
theorem beforeNth_append_right : beforeNth p (xs.countP p + n) (xs ++ ys) =
    xs ++ beforeNth p n ys := by
  induction xs with
  | nil => rw [List.countP_nil, Nat.zero_add, List.nil_append, List.nil_append]
  | cons x xs ih =>
    by_cases hx : p x
    · have hcount : (x :: xs).countP p + n = xs.countP p + n + 1 := by
        rw [List.countP_cons_of_pos hx]
        omega
      rw [hcount, List.cons_append, beforeNth, if_pos hx, ih, List.cons_append]
    · rw [List.countP_cons_of_neg hx, List.cons_append, List.cons_append, ← ih]
      cases xs.countP p + n <;> simp [beforeNth, hx]

/-- A list splits at its marked element number `n`. -/
theorem exists_split_of_filter {x : α} (h : (xs.filter p)[n]? = some x) :
    ∃ pre post, xs = pre ++ x :: post ∧ p x ∧ pre.countP p = n := by
  induction xs generalizing n with
  | nil => simp at h
  | cons y xs ih =>
    by_cases hy : p y
    · rw [List.filter_cons_of_pos hy] at h
      cases n with
      | zero =>
        obtain rfl : y = x := by simpa using h
        exact ⟨[], xs, rfl, hy, rfl⟩
      | succ n =>
        obtain ⟨pre, post, rfl, hx, hcount⟩ := ih (by simpa using h)
        exact ⟨y :: pre, post, rfl, hx, by rw [List.countP_cons_of_pos hy, hcount]⟩
    · rw [List.filter_cons_of_neg hy] at h
      obtain ⟨pre, post, rfl, hx, hcount⟩ := ih h
      exact ⟨y :: pre, post, rfl, hx, by rw [List.countP_cons_of_neg hy, hcount]⟩

/-- The positions of the marked elements. -/
def positions (p : α → Bool) (xs : List α) : List Nat :=
  (List.range xs.length).filter fun i => xs[i]?.any p

theorem positions_cons (x : α) :
    positions p (x :: xs) = (if p x then [0] else []) ++ (positions p xs).map (· + 1) := by
  unfold positions
  rw [List.length_cons, List.range_succ_eq_map, List.filter_cons, List.filter_map]
  simp only [List.getElem?_cons_zero, Option.any_some, Function.comp_def,
    Nat.succ_eq_add_one, List.getElem?_cons_succ]
  cases p x <;> rfl

theorem length_positions : (positions p xs).length = xs.countP p := by
  induction xs with
  | nil => rfl
  | cons x xs ih =>
    rw [positions_cons, List.countP_cons, List.length_append, List.length_map, ih]
    cases p x <;> simp [Nat.add_comm]

theorem positions_lt {m j : Nat} (hm : (positions p xs)[m]? = some i)
    (hn : (positions p xs)[n]? = some j) (h : m < n) : i < j := by
  obtain ⟨hm', rfl⟩ := List.getElem?_eq_some_iff.1 hm
  obtain ⟨hn', rfl⟩ := List.getElem?_eq_some_iff.1 hn
  have hsorted : (positions p xs).Pairwise (· < ·) := List.pairwise_lt_range.filter _
  exact List.pairwise_iff_getElem.1 hsorted m n hm' hn' h

theorem take_positions (h : (positions p xs)[n]? = some i) : xs.take i = beforeNth p n xs := by
  induction xs generalizing n i with
  | nil => simp [positions] at h
  | cons x xs ih =>
    rw [positions_cons] at h
    cases hx : p x with
    | true =>
      cases n with
      | zero =>
        obtain rfl : 0 = i := by simpa [hx] using h
        simp [beforeNth, hx]
      | succ n =>
        obtain ⟨j, hj, rfl⟩ : ∃ j, (positions p xs)[n]? = some j ∧ j + 1 = i := by
          simpa [hx] using h
        rw [List.take_succ_cons, ih hj, beforeNth, if_pos hx]
    | false =>
      obtain ⟨j, hj, rfl⟩ : ∃ j, (positions p xs)[n]? = some j ∧ j + 1 = i := by
        simpa [hx] using h
      rw [List.take_succ_cons, ih hj]
      cases n <;> simp [beforeNth, hx]

/-! ## The last element that writes -/

section
variable {β γ : Type u} {passes : α → Bool} {write : α → Option γ} {value : γ}

/-- The value is written by an element, and all elements after it pass it on. -/
def LastWrite (passes : α → Bool) (write : α → Option γ) (xs : List α) (value : γ) : Prop :=
  ∃ before x after, xs = before ++ x :: after ∧ passes x = false ∧ write x = some value ∧
    ∀ x' ∈ after, passes x'

theorem lastWrite_concat {x : α} : LastWrite passes write (xs ++ [x]) value ↔
    if passes x then LastWrite passes write xs value else write x = some value := by
  constructor
  · rintro ⟨before, x', after, heq, hfalse, hwrite, hafter⟩
    rcases List.eq_nil_or_concat after with rfl | ⟨after, last, rfl⟩
    · obtain ⟨-, heq⟩ := List.append_inj' heq rfl
      obtain rfl := List.head_eq_of_cons_eq heq
      rw [hfalse]
      exact hwrite
    · rw [List.concat_eq_append, ← List.cons_append, ← List.append_assoc] at heq
      obtain ⟨rfl, hlast⟩ := List.append_inj' heq rfl
      obtain rfl := List.head_eq_of_cons_eq hlast
      rw [if_pos (hafter x (by simp))]
      exact ⟨before, x', after, rfl, hfalse, hwrite, fun y hy => hafter y (by simp [hy])⟩
  · intro h
    cases hpasses : passes x with
    | true =>
      rw [hpasses] at h
      obtain ⟨before, x', after, rfl, hfalse, hwrite, hafter⟩ := h
      refine ⟨before, x', after ++ [x], by simp, hfalse, hwrite, fun y hy => ?_⟩
      rcases List.mem_append.1 hy with hy | hy
      · exact hafter y hy
      · rw [List.mem_singleton.1 hy]
        exact hpasses
    | false =>
      rw [hpasses] at h
      exact ⟨xs, x, [], rfl, hpasses, h, by simp⟩

/-- Of two elements of a list, one is the other or stands after it. -/
theorem split_cases {before before' after after' : List α} {x x' : α}
    (h : before ++ x :: after = before' ++ x' :: after') :
    (x = x' ∧ after = after') ∨ x' ∈ after ∨ x ∈ after' := by
  rcases List.append_eq_append_iff.1 h with ⟨between, -, heq⟩ | ⟨between, -, heq⟩
  · cases between with
    | nil =>
      obtain ⟨rfl, rfl⟩ := List.cons.inj heq
      exact .inl ⟨rfl, rfl⟩
    | cons y between =>
      obtain ⟨-, rfl⟩ := List.cons.inj heq
      exact .inr (.inl (by simp))
  · cases between with
    | nil =>
      obtain ⟨rfl, rfl⟩ := List.cons.inj heq
      exact .inl ⟨rfl, rfl⟩
    | cons y between =>
      obtain ⟨-, rfl⟩ := List.cons.inj heq
      exact .inr (.inr (by simp))

/-- What a fold reads in the end is the last write. -/
theorem read_foldl {f : β → α → β} (read : β → Option γ) {P : β → Prop} {Q : α → Prop}
    (hP : ∀ b x, P b → Q x → P (f b x))
    (hstep : ∀ b x, P b → Q x → read (f b x) = if passes x then read b else write x) {b : β}
    (hb : P b) (hread : read b = none) (hxs : ∀ x ∈ xs, Q x) :
    P (xs.foldl f b) ∧ (read (xs.foldl f b) = some value ↔ LastWrite passes write xs value) := by
  induction xs using List.reverseRecOn with
  | nil => simp [hb, hread, LastWrite]
  | append_singleton xs x ih =>
    obtain ⟨hbefore, hx⟩ := List.forall_mem_append.1 hxs
    obtain ⟨hP', hiff⟩ := ih hbefore
    have hx := hx x List.mem_cons_self
    rw [List.foldl_concat, hstep _ _ hP' hx, lastWrite_concat]
    refine ⟨hP _ _ hP' hx, ?_⟩
    split
    · exact hiff
    · rfl

end

/-! ## Runs of neighbours that join -/

section
variable {β : Type u} {join : α → α → Option α} {x y z xy : α} {zs : List α}

/-- Neighbours join in any order, and only by what they are on their ends. -/
structure LawfulJoin (join : α → α → Option α) : Prop where
  assoc : ∀ {x y z xy yz : α}, join x y = some xy → join y z = some yz →
    ∃ xyz, join xy z = some xyz ∧ join x yz = some xyz
  none : ∀ {x y z xy : α}, join x y = some xy → join y z = Option.none → join xy z = Option.none

/-- Put an element in front, joined to the first one where they join. -/
def joinHead (join : α → α → Option α) (x : α) : List α → List α
  | [] => [x]
  | y :: ys =>
    match join x y with
    | some xy => xy :: ys
    | Option.none => x :: y :: ys

/-- All neighbours that join are joined. -/
def mergeRuns (join : α → α → Option α) (xs : List α) : List α := xs.foldr (joinHead join) []

theorem joinHead_join (h : LawfulJoin join) (hxy : join x y = some xy) (zs : List α) :
    joinHead join xy zs = joinHead join x (joinHead join y zs) := by
  cases zs with
  | nil => simp [joinHead, hxy]
  | cons z zs =>
    cases hyz : join y z with
    | none => simp [joinHead, hyz, hxy, h.none hxy hyz]
    | some yz =>
      obtain ⟨xyz, hxyz, hxyz'⟩ := h.assoc hxy hyz
      simp [joinHead, hyz, hxyz, hxyz']

theorem foldr_joinHead (h : LawfulJoin join) (x : α) (ys zs : List α) :
    (joinHead join x ys).foldr (joinHead join) zs =
      joinHead join x (ys.foldr (joinHead join) zs) := by
  cases ys with
  | nil => rfl
  | cons y ys =>
    rw [joinHead]
    cases hxy : join x y with
    | none => rfl
    | some xy => exact joinHead_join h hxy _

theorem foldr_mergeRuns (h : LawfulJoin join) (xs zs : List α) :
    (mergeRuns join xs).foldr (joinHead join) zs = xs.foldr (joinHead join) zs := by
  induction xs with
  | nil => rfl
  | cons x xs ih =>
    show (joinHead join x (mergeRuns join xs)).foldr (joinHead join) zs = _
    rw [foldr_joinHead h, ih, List.foldr_cons]

/-- Lists with the same runs may stand for each other in front of anything. -/
theorem mergeRuns_append (h : LawfulJoin join) {xs' : List α}
    (hxs : mergeRuns join xs = mergeRuns join xs') (ys : List α) :
    mergeRuns join (xs ++ ys) = mergeRuns join (xs' ++ ys) := by
  rw [mergeRuns, mergeRuns, List.foldr_append, List.foldr_append, ← foldr_mergeRuns h, hxs,
    foldr_mergeRuns h]

theorem mergeRuns_append_right {ys' : List α} (hys : mergeRuns join ys = mergeRuns join ys')
    (xs : List α) : mergeRuns join (xs ++ ys) = mergeRuns join (xs ++ ys') := by
  unfold mergeRuns at hys ⊢
  rw [List.foldr_append, List.foldr_append, hys]

theorem mergeRuns_pair (hxy : join x y = some xy) :
    mergeRuns join [x, y] = mergeRuns join [xy] := by
  simp [mergeRuns, joinHead, hxy]

theorem flatMap_joinHead {f : α → List β}
    (hf : ∀ x y xy, join x y = some xy → f xy = f x ++ f y) (x : α) (xs : List α) :
    (joinHead join x xs).flatMap f = f x ++ xs.flatMap f := by
  cases xs with
  | nil => rw [joinHead, List.flatMap_cons]
  | cons y ys =>
    rw [joinHead]
    cases hxy : join x y with
    | none => exact List.flatMap_cons
    | some xy =>
      show (xy :: ys).flatMap f = _
      rw [List.flatMap_cons, List.flatMap_cons, hf x y xy hxy, List.append_assoc]

/-- What sends joining to appending does not see where the runs are cut. -/
theorem flatMap_mergeRuns {f : α → List β}
    (hf : ∀ x y xy, join x y = some xy → f xy = f x ++ f y) (xs : List α) :
    (mergeRuns join xs).flatMap f = xs.flatMap f := by
  induction xs with
  | nil => rfl
  | cons x xs ih =>
    show (joinHead join x (mergeRuns join xs)).flatMap f = _
    rw [flatMap_joinHead hf, ih, List.flatMap_cons]

theorem map_mergeRuns {join' : β → β → Option β} {f : α → β}
    (hf : ∀ x y, join' (f x) (f y) = (join x y).map f) (xs : List α) :
    (mergeRuns join xs).map f = mergeRuns join' (xs.map f) := by
  induction xs with
  | nil => rfl
  | cons x xs ih =>
    show (joinHead join x (mergeRuns join xs)).map f = joinHead join' (f x) (mergeRuns join' _)
    rw [← ih]
    cases mergeRuns join xs with
    | nil => rfl
    | cons y ys =>
      rw [List.map_cons, joinHead, joinHead, hf]
      cases join x y <;> rfl

end

end Mcodex.Segment
