import Mcodex.Lib.Bytes

/-!
# Truncation in the middle

`utils/string/src/truncate.rs` keeps the beginning and the end of a text and puts a marker in
between, within a budget of bytes. The two cuts are found in one pass over the characters, which
also counts what falls between them (`splitString_spec`). A text is shorter than the largest
`usize`, so its characters are counted as numbers; an amount of tokens may be any `usize`, and its
bytes saturate.
-/

namespace Mcodex.Output

open Bytes

/-- `usize::MAX`, which is also `u64::MAX`. -/
def usizeMax : Nat := 2 ^ 64 - 1

/-- `APPROX_BYTES_PER_TOKEN`. -/
def approxBytesPerToken : Nat := 4

/-- `approx_tokens_from_byte_count`. -/
def approxTokensFromByteCount (bytes : Nat) : Nat :=
  min (bytes + (approxBytesPerToken - 1)) usizeMax / approxBytesPerToken

def approxTokenCount (text : List Char) : Nat :=
  min (byteLen text + (approxBytesPerToken - 1)) usizeMax / approxBytesPerToken

def approxBytesForTokens (tokens : Nat) : Nat := min (tokens * approxBytesPerToken) usizeMax

/-- What the loop of `split_string` carries. -/
structure SplitScan where
  prefixEnd : Nat
  suffixStart : Nat
  removedChars : Nat
  suffixStarted : Bool
  deriving DecidableEq, Repr

/-- One round of that loop. -/
def SplitScan.next (beginningBytes tailStartTarget : Nat) (scan : SplitScan)
    (entry : Nat × Char) : SplitScan :=
  let charEnd := entry.1 + entry.2.utf8Size
  if charEnd ≤ beginningBytes then { scan with prefixEnd := charEnd }
  else if tailStartTarget ≤ entry.1 then
    if scan.suffixStarted then scan
    else { scan with suffixStart := entry.1, suffixStarted := true }
  else { scan with removedChars := scan.removedChars + 1 }

/-- The loop of `split_string`. -/
def scanString (s : List Char) (beginningBytes endBytes : Nat) : SplitScan :=
  (charIndices s).foldl (SplitScan.next beginningBytes (byteLen s - endBytes))
    ⟨0, byteLen s, 0, false⟩

def splitString (s : List Char) (beginningBytes endBytes : Nat) :
    Nat × List Char × List Char :=
  if s.isEmpty then (0, [], [])
  else
    let scan := scanString s beginningBytes endBytes
    let suffixStart :=
      if scan.suffixStart < scan.prefixEnd then scan.prefixEnd else scan.suffixStart
    (scan.removedChars, sliceTo scan.prefixEnd s, sliceFrom suffixStart s)

def splitBudget (budget : Nat) : Nat × Nat := (budget / 2, budget - budget / 2)

def formatTruncationMarker (useTokens : Bool) (removedCount : Nat) : List Char :=
  if useTokens then '…' :: Nat.toDigits 10 removedCount ++ " tokens truncated…".toList
  else '…' :: Nat.toDigits 10 removedCount ++ " chars truncated…".toList

def removedUnits (useTokens : Bool) (removedBytes removedChars : Nat) : Nat :=
  if useTokens then approxTokensFromByteCount removedBytes else removedChars

def assembleTruncatedOutput (pre suffix marker : List Char) : List Char := pre ++ marker ++ suffix

def truncateWithByteEstimate (s : List Char) (maxBytes : Nat) (useTokens : Bool) : List Char :=
  if s.isEmpty then []
  else if maxBytes = 0 then
    formatTruncationMarker useTokens (removedUnits useTokens (byteLen s) s.length)
  else if byteLen s ≤ maxBytes then s
  else
    let (leftBudget, rightBudget) := splitBudget maxBytes
    let (removedChars, left, right) := splitString s leftBudget rightBudget
    assembleTruncatedOutput left right (formatTruncationMarker useTokens
      (removedUnits useTokens (byteLen s - maxBytes) removedChars))

def truncateMiddleChars (s : List Char) (maxBytes : Nat) : List Char :=
  truncateWithByteEstimate s maxBytes false

def truncateMiddleWithTokenBudget (s : List Char) (maxTokens : Nat) : List Char × Option Nat :=
  if s.isEmpty then ([], none)
  else if 0 < maxTokens ∧ byteLen s ≤ approxBytesForTokens maxTokens then (s, none)
  else
    let truncated := truncateWithByteEstimate s (approxBytesForTokens maxTokens) true
    if truncated = s then (truncated, none) else (truncated, some (approxTokenCount s))

/-! ## The two cuts -/

section
variable {s seen : List Char} {beginningBytes target length : Nat} {scan : SplitScan}

/-- What the loop knows of the characters it has seen: a prefix within its bytes, those it counts as
removed, and those of the suffix once it has started. -/
structure SplitScan.Sees (beginningBytes target length : Nat) (seen : List Char)
    (scan : SplitScan) (pre middle suffix : List Char) : Prop where
  split : seen = pre ++ middle ++ suffix
  prefixEnd : scan.prefixEnd = byteLen pre
  prefixEnd_le : byteLen pre ≤ beginningBytes
  removedChars : scan.removedChars = middle.length
  past : middle ++ suffix ≠ [] → beginningBytes < byteLen seen
  started : scan.suffixStarted = true → suffix ≠ [] ∧
    scan.suffixStart = byteLen (pre ++ middle) ∧ target ≤ byteLen (pre ++ middle)
  notStarted : scan.suffixStarted = false → suffix = [] ∧ scan.suffixStart = length

theorem SplitScan.Sees.next {pre middle suffix : List Char} (c : Char)
    (h : scan.Sees beginningBytes target length seen pre middle suffix) :
    ∃ pre middle suffix, (scan.next beginningBytes target (byteLen seen, c)).Sees beginningBytes
      target length (seen ++ [c]) pre middle suffix := by
  have hlen : byteLen (seen ++ [c]) = byteLen seen + c.utf8Size := by
    rw [byteLen_append, byteLen_cons, byteLen_nil, Nat.add_zero]
  have hpos := c.utf8Size_pos
  unfold SplitScan.next
  dsimp only
  split
  · -- the character still belongs to the prefix, so nothing was passed over before
    rename_i hfits
    have hnone : middle ++ suffix = [] := by
      by_contra hne
      have hpast := h.past hne
      omega
    obtain ⟨rfl, rfl⟩ := List.append_eq_nil_iff.1 hnone
    have hseen := h.split
    rw [List.append_nil, List.append_nil] at hseen
    subst hseen
    exact ⟨seen ++ [c], [], [], by rw [List.append_nil, List.append_nil], hlen.symm,
      hlen.trans_le hfits, h.removedChars, fun hne => absurd rfl hne,
      fun hstarted => absurd rfl (h.started hstarted).1, h.notStarted⟩
  rename_i hpast
  have hpast : beginningBytes < byteLen (seen ++ [c]) := by omega
  split
  · rename_i htarget
    split
    · -- the suffix goes on
      rename_i hstarted
      refine ⟨pre, middle, suffix ++ [c], by rw [h.split, List.append_assoc], h.prefixEnd,
        h.prefixEnd_le, h.removedChars, fun _ => hpast, fun _ => ⟨?_, (h.started hstarted).2⟩, ?_⟩
      · exact List.append_ne_nil_of_right_ne_nil _ (List.cons_ne_nil _ _)
      · rw [hstarted]
        exact fun hfalse => nomatch hfalse
    · -- the suffix starts here
      rename_i hstarted
      obtain ⟨rfl, -⟩ := h.notStarted (Bool.eq_false_iff.2 hstarted)
      have hseen := h.split
      rw [List.append_nil] at hseen
      exact ⟨pre, middle, [c], by rw [hseen], h.prefixEnd, h.prefixEnd_le, h.removedChars,
        fun _ => hpast, fun _ => ⟨List.cons_ne_nil _ _, congrArg byteLen hseen, hseen ▸ htarget⟩,
        fun hfalse => nomatch hfalse⟩
  · -- the character is removed, so the suffix has not started
    rename_i htarget
    have hnot : scan.suffixStarted = false := by
      by_contra hstarted
      have hbyte := (h.started (Bool.eq_true_of_not_eq_false hstarted)).2.2
      rw [h.split, byteLen_append] at htarget
      omega
    obtain ⟨rfl, hstart⟩ := h.notStarted hnot
    have hseen := h.split
    rw [List.append_nil] at hseen
    refine ⟨pre, middle ++ [c], [], by rw [hseen, List.append_nil, List.append_assoc],
      h.prefixEnd, h.prefixEnd_le, ?_, fun _ => hpast, ?_, fun _ => ⟨rfl, hstart⟩⟩
    · rw [List.length_append, List.length_singleton, h.removedChars]
    · rw [hnot]
      exact fun hfalse => nomatch hfalse

/-- The whole loop. -/
theorem SplitScan.Sees.foldl {pre middle suffix : List Char}
    (h : scan.Sees beginningBytes target length seen pre middle suffix) (rest : List Char) :
    ∃ pre middle suffix, ((charIndicesFrom (byteLen seen) rest).foldl
      (SplitScan.next beginningBytes target) scan).Sees beginningBytes target length (seen ++ rest)
        pre middle suffix := by
  induction rest generalizing seen scan pre middle suffix with
  | nil => exact ⟨pre, middle, suffix, by rw [List.append_nil]; exact h⟩
  | cons c rest ih =>
    obtain ⟨pre', middle', suffix', hnext⟩ := h.next c
    obtain ⟨pre'', middle'', suffix'', hrest⟩ := ih hnext
    refine ⟨pre'', middle'', suffix'', ?_⟩
    rw [List.append_assoc, List.singleton_append, byteLen_append, byteLen_cons, byteLen_nil,
      Nat.add_zero] at hrest
    exact hrest

/-- The cuts that the loop finds. -/
theorem scanString_spec (s : List Char) (beginningBytes endBytes : Nat) :
    ∃ pre middle suffix, s = pre ++ middle ++ suffix ∧
      (scanString s beginningBytes endBytes).prefixEnd = byteLen pre ∧
      (scanString s beginningBytes endBytes).suffixStart = byteLen (pre ++ middle) ∧
      (scanString s beginningBytes endBytes).removedChars = middle.length ∧
      byteLen pre ≤ beginningBytes ∧ byteLen suffix ≤ endBytes := by
  have hinit : SplitScan.Sees beginningBytes (byteLen s - endBytes) (byteLen s) []
      ⟨0, byteLen s, 0, false⟩ [] [] [] :=
    ⟨rfl, rfl, Nat.zero_le _, rfl, fun hne => absurd rfl hne, (nomatch ·), fun _ => ⟨rfl, rfl⟩⟩
  obtain ⟨pre, middle, suffix, h⟩ := hinit.foldl s
  rw [byteLen_nil, ← charIndices, List.nil_append, ← scanString] at h
  have hlen : byteLen s = byteLen (pre ++ middle) + byteLen suffix := by
    rw [← byteLen_append, ← h.split]
  generalize scanString s beginningBytes endBytes = scan at h ⊢
  have hends : scan.suffixStart = byteLen (pre ++ middle) ∧ byteLen suffix ≤ endBytes := by
    cases hstarted : scan.suffixStarted with
    | true =>
      obtain ⟨-, hstart, htarget⟩ := h.started hstarted
      exact ⟨hstart, by omega⟩
    | false =>
      obtain ⟨rfl, hstart⟩ := h.notStarted hstarted
      rw [byteLen_nil] at hlen
      exact ⟨by omega, Nat.zero_le _⟩
  exact ⟨pre, middle, suffix, h.split, h.prefixEnd, hends.1, h.removedChars, h.prefixEnd_le,
    hends.2⟩

/-- The two cuts are where characters begin, the prefix and the suffix do not overlap and keep
within their bytes, and the characters in between are counted. -/
theorem splitString_spec (s : List Char) (beginningBytes endBytes : Nat) :
    ∃ pre middle suffix, s = pre ++ middle ++ suffix ∧
      (scanString s beginningBytes endBytes).prefixEnd = byteLen pre ∧
      (scanString s beginningBytes endBytes).suffixStart = byteLen (pre ++ middle) ∧
      splitString s beginningBytes endBytes = (middle.length, pre, suffix) ∧
      byteLen pre ≤ beginningBytes ∧ byteLen suffix ≤ endBytes := by
  obtain ⟨pre, middle, suffix, hs, hend, hstart, hremoved, hpre, hsuffix⟩ :=
    scanString_spec s beginningBytes endBytes
  refine ⟨pre, middle, suffix, hs, hend, hstart, ?_, hpre, hsuffix⟩
  unfold splitString
  split
  · rename_i hempty
    rw [List.isEmpty_iff] at hempty
    obtain ⟨hpm, rfl⟩ := List.append_eq_nil_iff.1 (hs.symm.trans hempty)
    obtain ⟨rfl, rfl⟩ := List.append_eq_nil_iff.1 hpm
    rfl
  · have hle : byteLen (pre ++ middle) = byteLen pre + byteLen middle := byteLen_append _ _
    dsimp only
    rw [hend, hstart, hremoved, if_neg (by omega)]
    conv_lhs => rw [hs]
    rw [sliceFrom_append, List.append_assoc, sliceTo_append]

/-- A text that fits is returned; of another one a prefix and a suffix within the budget are kept,
around a marker that tells how much is missing. -/
theorem truncateWithByteEstimate_spec (s : List Char) (maxBytes : Nat) (useTokens : Bool) :
    (byteLen s ≤ maxBytes → truncateWithByteEstimate s maxBytes useTokens = s) ∧
      (maxBytes < byteLen s → ∃ pre middle suffix, s = pre ++ middle ++ suffix ∧
        byteLen pre + byteLen suffix ≤ maxBytes ∧
        truncateWithByteEstimate s maxBytes useTokens =
          pre ++ formatTruncationMarker useTokens
            (removedUnits useTokens (byteLen s - maxBytes) middle.length) ++ suffix) := by
  unfold truncateWithByteEstimate
  constructor
  · intro hfits
    split
    · rename_i hempty
      exact (List.isEmpty_iff.1 hempty).symm
    split
    · rename_i hnonempty hzero
      cases s with
      | nil => exact absurd rfl hnonempty
      | cons c s =>
        have hpos := c.utf8Size_pos
        rw [byteLen_cons] at hfits
        omega
    · rfl
  · intro hlong
    have hnonempty : ¬s.isEmpty = true := by
      rintro hempty
      rw [List.isEmpty_iff.1 hempty, byteLen_nil] at hlong
      omega
    rw [if_neg hnonempty]
    split
    · rename_i hzero
      refine ⟨[], s, [], by rw [List.append_nil]; rfl, Nat.zero_le _, ?_⟩
      rw [hzero, Nat.sub_zero, List.append_nil]
      rfl
    · rw [if_neg (Nat.not_le.2 hlong), splitBudget]
      dsimp only
      obtain ⟨pre, middle, suffix, hs, -, -, hsplit, hpre, hsuffix⟩ :=
        splitString_spec s (maxBytes / 2) (maxBytes - maxBytes / 2)
      rw [hsplit]
      exact ⟨pre, middle, suffix, hs, by omega, rfl⟩

/-- `truncate_middle_chars` and `split_string`: what is kept is a prefix and a suffix, cut where
characters begin and within the budget, and the marker has the number of the characters between. -/
theorem truncateMiddleChars_keeps_ends (s : List Char) (maxBytes beginningBytes endBytes : Nat) :
    (byteLen s ≤ maxBytes → truncateMiddleChars s maxBytes = s) ∧
      (maxBytes < byteLen s → ∃ pre middle suffix, s = pre ++ middle ++ suffix ∧
        byteLen pre + byteLen suffix ≤ maxBytes ∧
        truncateMiddleChars s maxBytes =
          pre ++ formatTruncationMarker false middle.length ++ suffix) ∧
      ∃ pre middle suffix, s = pre ++ middle ++ suffix ∧
        (scanString s beginningBytes endBytes).prefixEnd = byteLen pre ∧
        (scanString s beginningBytes endBytes).suffixStart = byteLen (pre ++ middle) ∧
        splitString s beginningBytes endBytes = (middle.length, pre, suffix) ∧
        byteLen pre ≤ beginningBytes ∧ byteLen suffix ≤ endBytes := by
  obtain ⟨hfits, hlong⟩ := truncateWithByteEstimate_spec s maxBytes false
  exact ⟨hfits, hlong, splitString_spec s beginningBytes endBytes⟩

/-- The budget is split between the ends, and a character that does not fit an end is dropped. -/
example : truncateMiddleChars "aéb".toList 2 = "a…1 chars truncated…b".toList := by decide

end

end Mcodex.Output
