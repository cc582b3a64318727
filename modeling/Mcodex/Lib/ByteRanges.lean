import Mathlib.Tactic.SplitIfs
import Mcodex.Lib.Bytes

/-!
# Ranges of a text by the byte

An offset is a boundary of a text when it is the length of a prefix (`isCharBoundary_iff`). Between
boundaries a text is sliced and edited as a list of characters. A position is clamped to the nearest
boundary, which keeps the order of positions (`clampToBoundary_mono`).
-/

namespace Mcodex.Bytes

/-- `str::is_char_boundary`. -/
def isCharBoundary : List Char → Nat → Bool
  | _, 0 => true
  | [], _ + 1 => false
  | c :: s, offset + 1 =>
    if offset + 1 < c.utf8Size then false else isCharBoundary s (offset + 1 - c.utf8Size)

/-- The slice `s[start..stop]`. -/
def slice (s : List Char) (start stop : Nat) : List Char :=
  sliceTo (stop - start) (sliceFrom start s)

/-- `String::replace_range`. -/
def replaceRange (s : List Char) (start stop : Nat) (text : List Char) : List Char :=
  sliceTo start s ++ text ++ sliceFrom stop s

/-- The last boundary that is not after a position. -/
def floorBoundary (s : List Char) : Nat → Nat
  | 0 => 0
  | pos + 1 => if isCharBoundary s (pos + 1) then pos + 1 else floorBoundary s pos

/-- The first boundary from a position on, looked for over a number of bytes. -/
def ceilBoundary (s : List Char) : Nat → Nat → Nat
  | 0, pos => pos
  | bytes + 1, pos => if isCharBoundary s pos then pos else ceilBoundary s bytes (pos + 1)

/-- The boundary nearest to a position, the one before it if both are as near. -/
def clampToBoundary (s : List Char) (pos : Nat) : Nat :=
  let pos := min pos (byteLen s)
  if isCharBoundary s pos then pos
  else
    let prev := floorBoundary s pos
    let next := ceilBoundary s (byteLen s - pos) pos
    if pos - prev ≤ next - pos then prev else next

section
variable {s t p m : List Char} {offset pos pos' start stop : Nat}

theorem isCharBoundary_iff : isCharBoundary s offset ↔ ∃ p t, s = p ++ t ∧ byteLen p = offset := by
  induction s generalizing offset with
  | nil =>
    cases offset with
    | zero => exact iff_of_true rfl ⟨[], [], rfl, rfl⟩
    | succ offset =>
      refine iff_of_false (by simp [isCharBoundary]) ?_
      rintro ⟨p, t, hs, hp⟩
      obtain ⟨rfl, -⟩ := List.append_eq_nil_iff.1 hs.symm
      cases hp
  | cons c s ih =>
    cases offset with
    | zero => exact iff_of_true rfl ⟨[], c :: s, rfl, rfl⟩
    | succ offset =>
      rw [isCharBoundary]
      split_ifs with hlt
      · refine iff_of_false id ?_
        rintro ⟨p, t, hs, hp⟩
        cases p with
        | nil => cases hp
        | cons d p =>
          obtain ⟨rfl, -⟩ := List.cons.inj hs
          rw [byteLen_cons] at hp
          omega
      · rw [ih]
        constructor
        · rintro ⟨p, t, rfl, hp⟩
          refine ⟨c :: p, t, rfl, ?_⟩
          rw [byteLen_cons, hp]
          omega
        · rintro ⟨p, t, hs, hp⟩
          cases p with
          | nil => cases hp
          | cons d p =>
            obtain ⟨rfl, rfl⟩ := List.cons.inj hs
            rw [byteLen_cons] at hp
            exact ⟨p, t, rfl, by omega⟩

theorem isCharBoundary_append (p t : List Char) : isCharBoundary (p ++ t) (byteLen p) :=
  isCharBoundary_iff.2 ⟨p, t, rfl, rfl⟩

theorem isCharBoundary_byteLen (s : List Char) : isCharBoundary s (byteLen s) :=
  isCharBoundary_iff.2 ⟨s, [], (List.append_nil s).symm, rfl⟩

theorem isCharBoundary_zero (s : List Char) : isCharBoundary s 0 := by
  cases s <;> rfl

theorem le_byteLen_of_boundary (h : isCharBoundary s offset) : offset ≤ byteLen s := by
  obtain ⟨p, t, rfl, rfl⟩ := isCharBoundary_iff.1 h
  rw [byteLen_append]
  exact Nat.le_add_right _ _

/-- Two boundaries cut a text in three. -/
theorem exists_cut (hstart : isCharBoundary s start) (hstop : isCharBoundary s stop)
    (hle : start ≤ stop) :
    ∃ p m t, s = p ++ m ++ t ∧ start = byteLen p ∧ stop = byteLen p + byteLen m := by
  obtain ⟨p, t, hs, rfl⟩ := isCharBoundary_iff.1 hstart
  obtain ⟨p', t', hs', rfl⟩ := isCharBoundary_iff.1 hstop
  obtain ⟨m, rfl⟩ := prefix_of_byteLen_le ⟨t, hs.symm⟩ ⟨t', hs'.symm⟩ hle
  exact ⟨p, m, t', hs', rfl, byteLen_append p m⟩

theorem slice_append (p m t : List Char) :
    slice (p ++ m ++ t) (byteLen p) (byteLen p + byteLen m) = m := by
  rw [slice, List.append_assoc, sliceFrom_append, Nat.add_sub_cancel_left, sliceTo_append]

theorem replaceRange_append (p m t text : List Char) :
    replaceRange (p ++ m ++ t) (byteLen p) (byteLen p + byteLen m) text = p ++ text ++ t := by
  rw [replaceRange, ← byteLen_append, sliceFrom_append, List.append_assoc p m, sliceTo_append]

/-! ## Clamping -/

theorem isCharBoundary_floorBoundary (s : List Char) (pos : Nat) :
    isCharBoundary s (floorBoundary s pos) := by
  induction pos with
  | zero => exact isCharBoundary_zero s
  | succ pos ih =>
    unfold floorBoundary
    split_ifs with h
    · exact h
    · exact ih

theorem floorBoundary_le (s : List Char) (pos : Nat) : floorBoundary s pos ≤ pos := by
  induction pos with
  | zero => exact Nat.le_refl 0
  | succ pos ih =>
    unfold floorBoundary
    split_ifs
    · exact Nat.le_refl _
    · exact Nat.le_succ_of_le ih

theorem le_floorBoundary (h : isCharBoundary s offset) (hle : offset ≤ pos) :
    offset ≤ floorBoundary s pos := by
  induction pos with
  | zero => exact hle
  | succ pos ih =>
    unfold floorBoundary
    split_ifs with hpos
    · exact hle
    · refine ih (Nat.le_of_lt_succ (lt_of_le_of_ne hle ?_))
      rintro rfl
      exact hpos h

theorem ceilBoundary_spec (bytes pos : Nat) (h : pos + bytes = byteLen s) :
    isCharBoundary s (ceilBoundary s bytes pos) ∧ pos ≤ ceilBoundary s bytes pos ∧
      ∀ offset, isCharBoundary s offset → pos ≤ offset → ceilBoundary s bytes pos ≤ offset := by
  induction bytes generalizing pos with
  | zero =>
    refine ⟨?_, Nat.le_refl _, fun _ _ hle => hle⟩
    rw [ceilBoundary, show pos = byteLen s from h]
    exact isCharBoundary_byteLen s
  | succ bytes ih =>
    unfold ceilBoundary
    split_ifs with hpos
    · exact ⟨hpos, Nat.le_refl _, fun _ _ hle => hle⟩
    · obtain ⟨hboundary, hle, hfirst⟩ := ih (pos + 1) (by omega)
      refine ⟨hboundary, by omega, fun offset hoffset hle => hfirst offset hoffset ?_⟩
      refine Nat.succ_le_of_lt (lt_of_le_of_ne hle ?_)
      rintro rfl
      exact hpos hoffset

theorem isCharBoundary_clampToBoundary (s : List Char) (pos : Nat) :
    isCharBoundary s (clampToBoundary s pos) := by
  unfold clampToBoundary
  simp only
  split_ifs with h hnear
  · exact h
  · exact isCharBoundary_floorBoundary s _
  · exact (ceilBoundary_spec _ _ (by omega)).1

theorem clampToBoundary_of_boundary (h : isCharBoundary s pos) : clampToBoundary s pos = pos := by
  rw [clampToBoundary, Nat.min_eq_left (le_byteLen_of_boundary h)]
  exact if_pos h

/-- A position is not clamped across a boundary. -/
theorem clampToBoundary_le (h : isCharBoundary s offset) (hle : pos ≤ offset) :
    clampToBoundary s pos ≤ offset := by
  have hmin : min pos (byteLen s) ≤ offset := (Nat.min_le_left _ _).trans hle
  unfold clampToBoundary
  simp only
  split_ifs with hpos hnear
  · exact hmin
  · exact (floorBoundary_le s _).trans hmin
  · exact (ceilBoundary_spec _ _ (by omega)).2.2 offset h hmin

theorem le_clampToBoundary (h : isCharBoundary s offset) (hle : offset ≤ pos) :
    offset ≤ clampToBoundary s pos := by
  have hmin : offset ≤ min pos (byteLen s) := Nat.le_min.2 ⟨hle, le_byteLen_of_boundary h⟩
  unfold clampToBoundary
  simp only
  split_ifs with hpos hnear
  · exact hmin
  · exact le_floorBoundary h hmin
  · exact hmin.trans (ceilBoundary_spec _ _ (by omega)).2.1

/-- Inside one character both positions are between the same boundaries. -/
theorem floor_ceil_eq (hle : pos ≤ pos') (hlen : pos' ≤ byteLen s)
    (hfloor : floorBoundary s pos' < pos) :
    floorBoundary s pos = floorBoundary s pos' ∧
      ceilBoundary s (byteLen s - pos) pos = ceilBoundary s (byteLen s - pos') pos' := by
  obtain ⟨hceil, hge, hfirst⟩ := ceilBoundary_spec (byteLen s - pos) pos (s := s) (by omega)
  obtain ⟨hceil', hge', hfirst'⟩ := ceilBoundary_spec (byteLen s - pos') pos' (s := s) (by omega)
  have hafter : pos' ≤ ceilBoundary s (byteLen s - pos) pos := by
    by_contra hbefore
    have hprev := le_floorBoundary hceil (Nat.le_of_not_le hbefore)
    omega
  refine ⟨Nat.le_antisymm ?_ ?_, Nat.le_antisymm ?_ ?_⟩
  · exact le_floorBoundary (isCharBoundary_floorBoundary s pos)
      ((floorBoundary_le s pos).trans hle)
  · exact le_floorBoundary (isCharBoundary_floorBoundary s pos') hfloor.le
  · exact hfirst _ hceil' (hle.trans hge')
  · exact hfirst' _ hceil hafter

theorem clampToBoundary_mono (h : pos ≤ pos') : clampToBoundary s pos ≤ clampToBoundary s pos' := by
  by_cases hlen : byteLen s ≤ pos
  · have hlen' : clampToBoundary s pos ≤ byteLen s :=
      le_byteLen_of_boundary (isCharBoundary_clampToBoundary s pos)
    exact hlen'.trans (le_clampToBoundary (isCharBoundary_byteLen s) (hlen.trans h))
  by_cases hlen' : byteLen s ≤ pos'
  · have hle : clampToBoundary s pos ≤ byteLen s :=
      le_byteLen_of_boundary (isCharBoundary_clampToBoundary s pos)
    exact hle.trans (le_clampToBoundary (isCharBoundary_byteLen s) hlen')
  by_cases hfloor : pos ≤ floorBoundary s pos'
  · exact (clampToBoundary_le (isCharBoundary_floorBoundary s pos') hfloor).trans
      (le_clampToBoundary (isCharBoundary_floorBoundary s pos') (floorBoundary_le s pos'))
  obtain ⟨hprev, hnext⟩ := floor_ceil_eq h (Nat.le_of_not_le hlen') (Nat.lt_of_not_le hfloor)
  by_cases hpos : isCharBoundary s pos
  · rw [clampToBoundary_of_boundary hpos]
    exact le_clampToBoundary hpos h
  by_cases hpos' : isCharBoundary s pos'
  · rw [clampToBoundary_of_boundary hpos']
    exact clampToBoundary_le hpos' h
  -- Both are inside the same character, and the later one is nearer to its end.
  have hceil := (ceilBoundary_spec (byteLen s - pos') pos' (s := s) (by omega)).2.1
  have hfloor' := floorBoundary_le s pos'
  simp only [clampToBoundary, Nat.min_eq_left (Nat.le_of_not_le hlen),
    Nat.min_eq_left (Nat.le_of_not_le hlen'), if_neg hpos, if_neg hpos', hprev, hnext]
  split_ifs <;> omega

end

end Mcodex.Bytes
