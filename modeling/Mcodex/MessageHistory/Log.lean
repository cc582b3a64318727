import Mcodex.ExecPolicy.Amend
import Mcodex.Lib.Records
import Mcodex.Lib.Utf8

/-!
# The message history file

`history.jsonl` of `core/src/message_history.rs` has one line of JSON for each prompt. An append
that takes the file over its limit drops lines from its start (`enforceHistoryLimit_spec`), and a
lookup reads the line at an offset (`lookupHistoryEntry_contents`). Reading JSON is `serde_json`'s
and a parameter; so is the soft cap, which the source computes with a float.
-/

namespace Mcodex.MessageHistory

open ExecPolicy Records Utf8

/-- `HistoryEntry`. -/
structure HistoryEntry where
  sessionId : List Char
  ts : UInt64
  text : List Char
  deriving DecidableEq

/-- `serde_json::to_string` of an entry. -/
def HistoryEntry.toJson (entry : HistoryEntry) : List Char :=
  "\x7b\"session_id\":\"".toList ++ entry.sessionId.flatMap jsonEscape ++ "\",\"ts\":".toList ++
    Nat.toDigits 10 entry.ts.toNat ++ ",\"text\":\"".toList ++ entry.text.flatMap jsonEscape ++
    "\"\x7d".toList

/-- The byte `\n`. -/
def newline : UInt8 := 10

/-- The line that `append_entry` writes. -/
def historyLine (entry : HistoryEntry) : List UInt8 := encode (entry.toJson ++ ['\n'])

/-- A file that consists of the lines of entries. -/
def contentsOf (entries : List HistoryEntry) : List UInt8 := (entries.map historyLine).flatten

/-! ## The limit -/

/-- `trim_target_bytes`. -/
def trimTargetBytes (softCap : Nat → Nat) (maxBytes newestEntryLen : Nat) : Nat :=
  max (softCap maxBytes) newestEntryLen

/-- The loop of `enforce_history_limit` over the lengths of the lines: the bytes to drop. The last
line stays. -/
def dropBytes (trimTarget : Nat) : Nat → List Nat → Nat
  | _, [] | _, [_] => 0
  | currentLen, len :: next :: rest =>
    if trimTarget < currentLen then len + dropBytes trimTarget (currentLen - len) (next :: rest)
    else 0

/-- `enforce_history_limit`: what the file is rewritten to, if it is. -/
def enforceHistoryLimit (softCap : Nat → Nat) (maxBytes : Option Nat) (content : List UInt8) :
    Option (List UInt8) :=
  match maxBytes with
  | none => none
  | some maxBytes =>
    if maxBytes = 0 then none
    else if content.length ≤ maxBytes then none
    else
      let lineLengths := (split newline content).map List.length
      match lineLengths.getLast? with
      | none => none
      | some newest =>
        let drop := dropBytes (trimTargetBytes softCap maxBytes newest) content.length lineLengths
        if drop = 0 then none else some (content.drop drop)

/-! ## Lookups -/

/-- A line of `BufRead::lines`, if it is UTF-8. -/
def lineText (line : List UInt8) : Option (List Char) :=
  match fromUtf8 line with
  | .error _ => none
  | .ok text =>
    if text.getLast? = some '\n' then
      let text := text.dropLast
      some (if text.getLast? = some '\r' then text.dropLast else text)
    else some text

/-- The loop of `lookup_history_entry`. A line before the offset that is no UTF-8 ends it. -/
def lookupLines (fromStr : List Char → Option HistoryEntry) :
    Nat → List (List UInt8) → Option HistoryEntry
  | _, [] => none
  | offset, line :: lines =>
    (lineText line).bind fun text =>
      if offset = 0 then fromStr text else lookupLines fromStr (offset - 1) lines

/-- What `lookup_history_entry` reads in the file. -/
def lookupHistoryEntry (fromStr : List Char → Option HistoryEntry) (content : List UInt8)
    (offset : Nat) : Option HistoryEntry :=
  lookupLines fromStr offset (split newline content)

/-- What `history_metadata_for_file` counts. -/
def countNewlines (bytes : List UInt8) : Nat := bytes.count newline

section
variable {entries : List HistoryEntry} {entry : HistoryEntry} {c : Char} {tail : List UInt8}

/-! ## Lines -/

theorem le_of_mem_hexDigit {n : Nat} (h : n < 16) : 0x20 ≤ (hexDigit n).toNat := by
  have hall : ((List.range 16).all fun n => decide (0x20 ≤ (hexDigit n).toNat)) = true := by decide
  exact of_decide_eq_true (List.all_eq_true.1 hall n (List.mem_range.2 h))

theorem le_of_mem_of_all {text : List Char}
    (hall : (text.all fun x => decide (0x20 ≤ x.toNat)) = true) : ∀ x ∈ text, 0x20 ≤ x.toNat :=
  fun x hx => of_decide_eq_true (List.all_eq_true.1 hall x hx)

theorem le_of_mem_jsonEscape {x : Char} (h : x ∈ jsonEscape c) : 0x20 ≤ x.toNat := by
  unfold jsonEscape at h
  split at h
  · exact le_of_mem_of_all (by decide) x h
  · exact le_of_mem_of_all (by decide) x h
  · exact le_of_mem_of_all (by decide) x h
  · exact le_of_mem_of_all (by decide) x h
  · exact le_of_mem_of_all (by decide) x h
  · split_ifs at h with hb hf hcontrol
    · exact le_of_mem_of_all (by decide) x h
    · exact le_of_mem_of_all (by decide) x h
    · simp only [List.mem_cons, List.not_mem_nil, or_false] at h
      rcases h with rfl | rfl | rfl | rfl | rfl | rfl
      · decide
      · decide
      · decide
      · decide
      · exact le_of_mem_hexDigit (by omega)
      · exact le_of_mem_hexDigit (by omega)
    · rw [List.mem_singleton.1 h]
      omega

theorem le_of_mem_digits {x : Char} {n : Nat} (h : x ∈ Nat.toDigits 10 n) : 0x20 ≤ x.toNat := by
  have hdigit := Nat.isDigit_of_mem_toDigits (by decide) (by decide) h
  rw [Char.isDigit, Bool.and_eq_true, decide_eq_true_eq] at hdigit
  have hzero : '0'.val.toNat ≤ x.val.toNat := UInt32.le_iff_toNat_le.1 hdigit.1
  exact Nat.le_trans (by decide) hzero

/-- The JSON of an entry has no control characters. -/
theorem le_of_mem_toJson (entry : HistoryEntry) : ∀ x ∈ entry.toJson, 0x20 ≤ x.toNat := by
  have hescape : ∀ text : List Char, ∀ x ∈ text.flatMap jsonEscape, 0x20 ≤ x.toNat := by
    intro text x hx
    obtain ⟨c, -, hx⟩ := List.mem_flatMap.1 hx
    exact le_of_mem_jsonEscape hx
  unfold HistoryEntry.toJson
  simp only [List.forall_mem_append]
  exact ⟨⟨⟨⟨⟨⟨le_of_mem_of_all (by decide), hescape _⟩, le_of_mem_of_all (by decide)⟩,
    fun x => le_of_mem_digits⟩, le_of_mem_of_all (by decide)⟩, hescape _⟩,
    le_of_mem_of_all (by decide)⟩

theorem isRecord_historyLine (entry : HistoryEntry) : IsRecord newline (historyLine entry) := by
  refine ⟨encode entry.toJson, encode_append _ _, fun hmem => ?_⟩
  obtain ⟨x, hx, hbyte⟩ := List.mem_flatMap.1 hmem
  have hle := le_of_mem_toJson entry x hx
  rw [toNat_of_mem_utf8EncodeChar hbyte (by decide)] at hle
  revert hle
  decide

theorem isRecord_of_mem (entries : List HistoryEntry) :
    ∀ line ∈ entries.map historyLine, IsRecord newline line := by
  intro line hline
  obtain ⟨entry, -, rfl⟩ := List.mem_map.1 hline
  exact isRecord_historyLine entry

theorem contentsOf_append (entries entries' : List HistoryEntry) :
    contentsOf (entries ++ entries') = contentsOf entries ++ contentsOf entries' := by
  rw [contentsOf, List.map_append, List.flatten_append]
  rfl

theorem contentsOf_singleton (entry : HistoryEntry) : contentsOf [entry] = historyLine entry :=
  List.append_nil _

theorem split_contentsOf (entries : List HistoryEntry) :
    split newline (contentsOf entries) = entries.map historyLine :=
  split_flatten (isRecord_of_mem entries)

theorem countNewlines_contentsOf (entries : List HistoryEntry) :
    countNewlines (contentsOf entries) = entries.length := by
  rw [countNewlines, contentsOf, count_flatten (isRecord_of_mem entries), List.length_map]

/-- The text of a line is the JSON it was written from. -/
theorem lineText_historyLine (entry : HistoryEntry) :
    lineText (historyLine entry) = some entry.toJson := by
  have hlast : entry.toJson.getLast? ≠ some '\r' := fun hcr =>
    absurd (le_of_mem_toJson entry _ (List.mem_of_getLast? hcr)) (by decide)
  rw [lineText, historyLine, fromUtf8_encode]
  dsimp only
  rw [List.getLast?_concat, if_pos rfl, List.dropLast_concat, if_neg hlast]

/-- A lookup reads the JSON of the entry at the offset. -/
theorem lookupHistoryEntry_contentsOf (fromStr : List Char → Option HistoryEntry)
    (entries : List HistoryEntry) (offset : Nat) :
    lookupHistoryEntry fromStr (contentsOf entries) offset =
      entries[offset]?.bind fun entry => fromStr entry.toJson := by
  rw [lookupHistoryEntry, split_contentsOf]
  induction entries generalizing offset with
  | nil => rw [List.map_nil, lookupLines, List.getElem?_nil]; rfl
  | cons entry entries ih =>
    rw [List.map_cons, lookupLines, lineText_historyLine, Option.bind_some]
    cases offset with
    | zero => rfl
    | succ offset =>
      rw [if_neg (Nat.succ_ne_zero _), Nat.add_sub_cancel, List.getElem?_cons_succ]
      exact ih offset

/-! ## Trims -/

/-- The loop drops whole lines and leaves the last one. -/
theorem dropBytes_spec (trimTarget currentLen : Nat) {lines : List (List UInt8)}
    (hne : lines ≠ []) :
    ∃ n < lines.length, dropBytes trimTarget currentLen (lines.map List.length) =
      (lines.take n).flatten.length := by
  induction lines generalizing currentLen with
  | nil => exact absurd rfl hne
  | cons line lines ih =>
    cases lines with
    | nil => exact ⟨0, Nat.zero_lt_one, rfl⟩
    | cons next lines =>
      rw [List.map_cons, List.map_cons, dropBytes]
      split
      · obtain ⟨n, hn, hdrop⟩ := ih (currentLen - line.length) (List.cons_ne_nil _ _)
        refine ⟨n + 1, Nat.succ_lt_succ hn, ?_⟩
        rw [List.map_cons] at hdrop
        rw [hdrop, List.take_succ_cons, List.flatten_cons, List.length_append]
      · exact ⟨0, Nat.zero_lt_succ _, rfl⟩

/-- A trim keeps the newest line and some before it. -/
theorem enforceHistoryLimit_spec {softCap : Nat → Nat} {maxBytes : Option Nat}
    (h : enforceHistoryLimit softCap maxBytes (contentsOf entries) = some tail) :
    ∃ n < entries.length, tail = contentsOf (entries.drop n) := by
  unfold enforceHistoryLimit at h
  split at h
  · cases h
  split_ifs at h
  rw [split_contentsOf] at h
  dsimp only at h
  split at h
  · cases h
  · next newest hnewest =>
    have hne : entries.map historyLine ≠ [] := by
      rintro hnil
      rw [hnil] at hnewest
      cases hnewest
    split_ifs at h
    obtain ⟨n, hn, hdrop⟩ := dropBytes_spec (trimTargetBytes softCap _ newest)
      (contentsOf entries).length hne
    rw [hdrop] at h
    cases h
    rw [List.length_map] at hn
    exact ⟨n, hn, by rw [contentsOf, drop_flatten, contentsOf, List.map_drop]⟩

/-- Nothing is dropped from a file that fits, or that has one line. -/
theorem enforceHistoryLimit_eq_none {softCap : Nat → Nat} {maxBytes : Option Nat}
    (h : ∀ max ∈ maxBytes, max = 0 ∨ (contentsOf entries).length ≤ max ∨ entries.length ≤ 1) :
    enforceHistoryLimit softCap maxBytes (contentsOf entries) = none := by
  unfold enforceHistoryLimit
  split
  · rfl
  · next max =>
    split_ifs with hzero hfits
    · rfl
    · rfl
    · have hone := ((h max rfl).resolve_left hzero).resolve_left hfits
      have hdrop : ∀ trimTarget currentLen, dropBytes trimTarget currentLen
          ((entries.map historyLine).map List.length) = 0 := by
        cases entries with
        | nil => exact fun _ _ => rfl
        | cons entry entries =>
          rw [List.eq_nil_of_length_eq_zero (Nat.le_zero.1 (Nat.le_of_succ_le_succ hone))]
          exact fun _ _ => rfl
      rw [split_contentsOf]
      dsimp only
      split
      · rfl
      · exact if_pos (hdrop _ _)

end

end Mcodex.MessageHistory
