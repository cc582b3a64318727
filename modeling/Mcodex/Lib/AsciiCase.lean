import Mathlib.Tactic.SplitIfs
import Mcodex.Lib.Text

/-!
# ASCII lowercase

`str::to_ascii_lowercase` moves the capital letters. So it keeps whitespace and punctuation, and
trimming a text before it or after it is the same.
-/

namespace Mcodex.Text

/-- `char::is_ascii_alphabetic`. -/
def isAsciiAlphabetic (c : Char) : Bool :=
  let n := c.toNat
  (65 ≤ n && n ≤ 90) || (97 ≤ n && n ≤ 122)

section
variable {s : List Char} {c d : Char}

theorem toNat_toLower (c : Char) :
    c.toLower.toNat = if 65 ≤ c.toNat ∧ c.toNat ≤ 90 then c.toNat + 32 else c.toNat := by
  unfold Char.toLower
  split
  · rename_i h
    have hge : 65 ≤ c.toNat := h.1
    have hle : c.toNat ≤ 90 := h.2
    rw [if_pos ⟨hge, hle⟩]
    show (c.val + 32).toNat = c.toNat + 32
    rw [UInt32.toNat_add]
    show (c.toNat + 32) % 2 ^ 32 = c.toNat + 32
    omega
  · rename_i h
    exact (if_neg fun hbounds => h ⟨hbounds.1, hbounds.2⟩).symm

theorem toLower_toLower (c : Char) : c.toLower.toLower = c.toLower := by
  apply Char.toNat_inj.1
  rw [toNat_toLower c.toLower, toNat_toLower c]
  split_ifs <;> omega

/-- What is no letter stands only where it stood. -/
theorem toLower_eq_iff (hd : isAsciiAlphabetic d = false) : c.toLower = d ↔ c = d := by
  have h := toNat_toLower c
  simp only [isAsciiAlphabetic, Bool.or_eq_false_iff, Bool.and_eq_false_iff,
    decide_eq_false_iff_not] at hd
  split at h
  · refine iff_of_false ?_ ?_
    · rintro rfl
      omega
    · rintro rfl
      omega
  · rw [Char.toNat_inj.1 h]

theorem isWhitespace_letter (hge : 65 ≤ c.toNat) (hle : c.toNat ≤ 122) :
    isWhitespace c = false := by
  simp only [isWhitespace, Bool.or_eq_false_iff, Bool.and_eq_false_iff, decide_eq_false_iff_not]
  omega

theorem isWhitespace_toLower (c : Char) : isWhitespace c.toLower = isWhitespace c := by
  have h := toNat_toLower c
  split at h
  · rw [isWhitespace_letter (by omega) (by omega), isWhitespace_letter (by omega) (by omega)]
  · rw [Char.toNat_inj.1 h]

theorem toAsciiLowercase_idem (s : List Char) :
    toAsciiLowercase (toAsciiLowercase s) = toAsciiLowercase s := by
  rw [toAsciiLowercase, toAsciiLowercase, List.map_map]
  exact List.map_congr_left fun c _ => toLower_toLower c

theorem mem_toAsciiLowercase (hd : isAsciiAlphabetic d = false) :
    d ∈ toAsciiLowercase s ↔ d ∈ s := by
  rw [toAsciiLowercase, List.mem_map]
  constructor
  · rintro ⟨c, hc, heq⟩
    rwa [← (toLower_eq_iff hd).1 heq]
  · exact fun h => ⟨d, h, (toLower_eq_iff hd).2 rfl⟩

theorem head_toAsciiLowercase (hd : isAsciiAlphabetic d = false) :
    (toAsciiLowercase s).head? = some d ↔ s.head? = some d := by
  cases s with
  | nil => exact Iff.rfl
  | cons c s =>
    rw [toAsciiLowercase, List.map_cons, List.head?_cons, List.head?_cons, Option.some_inj,
      Option.some_inj, toLower_eq_iff hd]

theorem getLast_toAsciiLowercase (hd : isAsciiAlphabetic d = false) :
    (toAsciiLowercase s).getLast? = some d ↔ s.getLast? = some d := by
  rw [toAsciiLowercase, List.getLast?_map, Option.map_eq_some_iff]
  constructor
  · rintro ⟨c, hc, heq⟩
    rwa [← (toLower_eq_iff hd).1 heq]
  · exact fun h => ⟨d, h, (toLower_eq_iff hd).2 rfl⟩

theorem count_toAsciiLowercase (hd : isAsciiAlphabetic d = false) :
    (toAsciiLowercase s).count d = s.count d := by
  rw [toAsciiLowercase, List.count_eq_countP, List.countP_map, List.count_eq_countP]
  refine List.countP_congr fun c _ => ?_
  rw [Function.comp_apply, beq_iff_eq, beq_iff_eq, toLower_eq_iff hd]

/-- What is dropped at the end may be dropped before. -/
theorem rdropWhile_toAsciiLowercase {p : Char → Bool} (hp : ∀ c, p c.toLower = p c)
    (s : List Char) : (toAsciiLowercase s).rdropWhile p = toAsciiLowercase (s.rdropWhile p) := by
  have hcomp : p ∘ Char.toLower = p := funext hp
  rw [toAsciiLowercase, toAsciiLowercase, List.rdropWhile, List.rdropWhile, ← List.map_reverse,
    List.dropWhile_map, hcomp, List.map_reverse]

theorem trim_toAsciiLowercase (s : List Char) :
    trim (toAsciiLowercase s) = toAsciiLowercase (trim s) := by
  have hcomp : isWhitespace ∘ Char.toLower = isWhitespace := funext isWhitespace_toLower
  have hstart : trimStart (toAsciiLowercase s) = toAsciiLowercase (trimStart s) := by
    rw [trimStart, toAsciiLowercase, List.dropWhile_map, hcomp]
    rfl
  rw [trim, hstart, trimEnd, rdropWhile_toAsciiLowercase isWhitespace_toLower]
  rfl

theorem length_toAsciiLowercase (s : List Char) : (toAsciiLowercase s).length = s.length :=
  List.length_map _

end

end Mcodex.Text
