import Mathlib.Data.List.Infix
import Mathlib.Data.Nat.Digits.Defs

/-!
# Texts by the byte

`str::len` and the offsets of `str::char_indices` and of slices count the bytes of UTF-8. A slice is
taken at an offset where a character begins, which is the length of a prefix.
-/

namespace Mcodex.Bytes

/-- `str::len`. -/
def byteLen (s : List Char) : Nat := (s.map Char.utf8Size).sum

/-- `str::char_indices`, from an offset on. -/
def charIndicesFrom : Nat → List Char → List (Nat × Char)
  | _, [] => []
  | index, c :: s => (index, c) :: charIndicesFrom (index + c.utf8Size) s

/-- `str::char_indices`. -/
def charIndices (s : List Char) : List (Nat × Char) := charIndicesFrom 0 s

/-- The slice `s[..offset]`. -/
def sliceTo : Nat → List Char → List Char
  | 0, _ => []
  | _ + 1, [] => []
  | offset + 1, c :: s => c :: sliceTo (offset + 1 - c.utf8Size) s

/-- The slice `s[offset..]`. -/
def sliceFrom : Nat → List Char → List Char
  | 0, s => s
  | _ + 1, [] => []
  | offset + 1, c :: s => sliceFrom (offset + 1 - c.utf8Size) s

section
variable {s t p q : List Char} {c : Char} {offset : Nat}

@[simp] theorem byteLen_nil : byteLen [] = 0 := rfl

@[simp] theorem byteLen_cons (c : Char) (s : List Char) :
    byteLen (c :: s) = c.utf8Size + byteLen s := rfl

@[simp] theorem byteLen_append (s t : List Char) : byteLen (s ++ t) = byteLen s + byteLen t := by
  rw [byteLen, List.map_append, List.sum_append]
  rfl

theorem byteLen_eq_length (h : ∀ c ∈ s, c.val ≤ 127) : byteLen s = s.length := by
  induction s with
  | nil => rfl
  | cons c s ih =>
    rw [List.forall_mem_cons] at h
    rw [byteLen_cons, Char.utf8Size_eq_one_iff.2 h.1, ih h.2, List.length_cons, Nat.add_comm]

/-- A decimal numeral has a byte for each digit. -/
theorem byteLen_toDigits_le {n digits : Nat} (hpos : 0 < digits) (h : n < 10 ^ digits) :
    byteLen (Nat.toDigits 10 n) ≤ digits := by
  rw [byteLen_eq_length fun c hc => ?_]
  · exact Nat.toDigits_length 10 n digits hpos h
  · have hdigit := Nat.isDigit_of_mem_toDigits (by decide) (by decide) hc
    rw [Char.isDigit, Bool.and_eq_true, decide_eq_true_eq, decide_eq_true_eq] at hdigit
    exact UInt32.le_trans hdigit.2 (by decide)

/-- Prefixes are ordered by the byte. -/
theorem prefix_of_byteLen_le (hp : p <+: s) (hq : q <+: s) (h : byteLen p ≤ byteLen q) :
    p <+: q := by
  rcases List.prefix_or_prefix_of_prefix hp hq with hpq | ⟨rest, rfl⟩
  · exact hpq
  · cases rest with
    | nil => rw [List.append_nil]
    | cons c rest =>
      have hpos := c.utf8Size_pos
      rw [byteLen_append, byteLen_cons] at h
      omega

/-- A slice up to the end of a prefix is the prefix. -/
theorem sliceTo_append (p t : List Char) : sliceTo (byteLen p) (p ++ t) = p := by
  induction p with
  | nil => cases t <;> rfl
  | cons c p ih =>
    obtain ⟨n, hn⟩ := Nat.exists_eq_succ_of_ne_zero c.utf8Size_pos.ne'
    have hsucc : byteLen (c :: p) = n + byteLen p + 1 := by
      rw [byteLen_cons, hn]
      omega
    rw [hsucc, List.cons_append, sliceTo, hn,
      show n + byteLen p + 1 - n.succ = byteLen p by omega, ih]

/-- A slice from the end of a prefix on is what follows it. -/
theorem sliceFrom_append (p t : List Char) : sliceFrom (byteLen p) (p ++ t) = t := by
  induction p with
  | nil => cases t <;> rfl
  | cons c p ih =>
    obtain ⟨n, hn⟩ := Nat.exists_eq_succ_of_ne_zero c.utf8Size_pos.ne'
    have hsucc : byteLen (c :: p) = n + byteLen p + 1 := by
      rw [byteLen_cons, hn]
      omega
    rw [hsucc, List.cons_append, sliceFrom, hn,
      show n + byteLen p + 1 - n.succ = byteLen p by omega, ih]

/-- The characters with their offsets, the prefix before each. -/
theorem mem_charIndicesFrom {index : Nat} {entry : Nat × Char}
    (h : entry ∈ charIndicesFrom index s) :
    ∃ before after, s = before ++ entry.2 :: after ∧ entry.1 = index + byteLen before := by
  induction s generalizing index with
  | nil => cases h
  | cons c s ih =>
    rcases List.mem_cons.1 h with rfl | h
    · exact ⟨[], s, rfl, rfl⟩
    · obtain ⟨before, after, rfl, hindex⟩ := ih h
      refine ⟨c :: before, after, rfl, ?_⟩
      rw [hindex, byteLen_cons, Nat.add_assoc]

theorem mem_charIndices {entry : Nat × Char} (h : entry ∈ charIndices s) :
    ∃ before after, s = before ++ entry.2 :: after ∧ entry.1 = byteLen before := by
  obtain ⟨before, after, hs, hindex⟩ := mem_charIndicesFrom h
  exact ⟨before, after, hs, by rw [hindex, Nat.zero_add]⟩

end

end Mcodex.Bytes
