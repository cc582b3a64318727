import Mcodex.Guardian.Transcript
import Mcodex.Lib.Bytes
import Mathlib.Algebra.Order.BigOperators.Group.Finset

/-!
# The transcript that fits the guardian's prompt

`render_guardian_transcript_entries` of `core/src/guardian/prompt.rs` cuts each entry to a size of
its own, and then picks entries: the first and the last of the user, the others of the user from the
newest on, and at most forty recent ones of other kinds. Messages and tool evidence have a budget
each. An entry is small against the budgets, so the first and the last of the user always fit
(`renderGuardianTranscriptEntries_spec`).
-/

namespace Mcodex.Guardian

open Bytes Rollout

/-! ## Texts that are cut -/

/-- `APPROX_BYTES_PER_TOKEN`. -/
def approxBytesPerToken : Nat := 4

/-- `approx_bytes_for_tokens`. -/
def approxBytesForTokens (tokens : Nat) : Nat := tokens * approxBytesPerToken

/-- `approx_tokens_from_byte_count`. -/
def approxTokensFromByteCount (bytes : Nat) : Nat :=
  (bytes + (approxBytesPerToken - 1)) / approxBytesPerToken

/-- The mark before its number. -/
def markerOpen : List Char := "<truncated omitted_approx_tokens=\"".toList

/-- The mark after its number. -/
def markerClose : List Char := "\" />".toList

/-- The mark that stands for what was cut out. -/
def truncationMarker (omittedTokens : Nat) : List Char :=
  markerOpen ++ Nat.toDigits 10 omittedTokens ++ markerClose

/-- Where the loop of `split_guardian_truncation_bounds` found the prefix to end and the suffix to
start. -/
structure TruncationBounds where
  prefixEnd : Nat
  suffixStart : Nat
  suffixStarted : Bool := false
  deriving DecidableEq, Repr

/-- One round of that loop. -/
def TruncationBounds.scan (prefixBytes suffixStartTarget : Nat) (bounds : TruncationBounds)
    (entry : Nat × Char) : TruncationBounds :=
  if entry.1 + entry.2.utf8Size ≤ prefixBytes then
    { bounds with prefixEnd := entry.1 + entry.2.utf8Size }
  else if suffixStartTarget ≤ entry.1 ∧ bounds.suffixStarted = false then
    { bounds with suffixStart := entry.1, suffixStarted := true }
  else bounds

/-- `split_guardian_truncation_bounds`. -/
def splitGuardianTruncationBounds (content : List Char) (prefixBytes suffixBytes : Nat) :
    List Char × List Char :=
  let len := byteLen content
  let bounds := (charIndices content).foldl
    (TruncationBounds.scan prefixBytes (len - suffixBytes)) ⟨0, len, false⟩
  (sliceTo bounds.prefixEnd content,
    sliceFrom (if bounds.suffixStart < bounds.prefixEnd then bounds.prefixEnd
      else bounds.suffixStart) content)

/-- `guardian_truncate_text`; whether the text was cut. -/
def guardianTruncateText (content : List Char) (tokenCap : Nat) : List Char × Bool :=
  let maxBytes := approxBytesForTokens tokenCap
  if byteLen content ≤ maxBytes then (content, false)
  else
    let marker := truncationMarker (approxTokensFromByteCount (byteLen content - maxBytes))
    if maxBytes ≤ byteLen marker then (marker, true)
    else
      let availableBytes := maxBytes - byteLen marker
      let prefixBudget := availableBytes / 2
      let (pre, suffix) :=
        splitGuardianTruncationBounds content prefixBudget (availableBytes - prefixBudget)
      (pre ++ marker ++ suffix, true)

section
variable {content : List Char} {prefixBytes suffixBytes : Nat}

/-- The bounds are ends of prefixes, the prefix is within its bytes, and so is what is left after
the start of the suffix. -/
structure TruncationBounds.Sound (content : List Char) (prefixBytes suffixStartTarget : Nat)
    (bounds : TruncationBounds) : Prop where
  prefixEnd : ∃ p, p <+: content ∧ byteLen p = bounds.prefixEnd
  suffixStart : ∃ p, p <+: content ∧ byteLen p = bounds.suffixStart
  prefixEnd_le : bounds.prefixEnd ≤ prefixBytes
  le_suffixStart : suffixStartTarget ≤ bounds.suffixStart

theorem TruncationBounds.Sound.scan {suffixStartTarget : Nat} {bounds : TruncationBounds}
    (h : bounds.Sound content prefixBytes suffixStartTarget) {entry : Nat × Char}
    (hentry : entry ∈ charIndices content) :
    (bounds.scan prefixBytes suffixStartTarget entry).Sound content prefixBytes
      suffixStartTarget := by
  obtain ⟨before, after, hcontent, hindex⟩ := mem_charIndices hentry
  unfold TruncationBounds.scan
  split
  · rename_i hfits
    refine ⟨⟨before ++ [entry.2], ⟨after, by rw [hcontent, List.append_assoc]; rfl⟩, ?_⟩,
      h.suffixStart, hfits, h.le_suffixStart⟩
    rw [byteLen_append, hindex]
    rfl
  · split
    · rename_i hstart
      exact ⟨h.prefixEnd, ⟨before, ⟨_, hcontent.symm⟩, hindex.symm⟩, h.prefixEnd_le, hstart.1⟩
    · exact h

/-- The prefix and the suffix do not overlap and keep within their bytes. -/
theorem splitGuardianTruncationBounds_spec (content : List Char) (prefixBytes suffixBytes : Nat) :
    ∃ middle, content =
        (splitGuardianTruncationBounds content prefixBytes suffixBytes).1 ++ middle ++
          (splitGuardianTruncationBounds content prefixBytes suffixBytes).2 ∧
      byteLen (splitGuardianTruncationBounds content prefixBytes suffixBytes).1 ≤ prefixBytes ∧
      byteLen (splitGuardianTruncationBounds content prefixBytes suffixBytes).2 ≤ suffixBytes := by
  have hsound : ((charIndices content).foldl
      (TruncationBounds.scan prefixBytes (byteLen content - suffixBytes))
      ⟨0, byteLen content, false⟩).Sound content prefixBytes (byteLen content - suffixBytes) := by
    refine List.foldlRecOn _ _ ⟨⟨[], List.nil_prefix, rfl⟩, ⟨content, List.prefix_rfl, rfl⟩,
      Nat.zero_le _, Nat.sub_le _ _⟩ fun bounds hbounds entry hentry => ?_
    exact TruncationBounds.Sound.scan hbounds hentry
  unfold splitGuardianTruncationBounds
  dsimp only
  generalize (charIndices content).foldl
    (TruncationBounds.scan prefixBytes (byteLen content - suffixBytes))
    ⟨0, byteLen content, false⟩ = bounds at hsound ⊢
  obtain ⟨p, ⟨t, hp⟩, hpEnd⟩ := hsound.prefixEnd
  obtain ⟨q, ⟨u, hq⟩, hqStart⟩ := hsound.suffixStart
  have hle := hsound.prefixEnd_le
  have hge := hsound.le_suffixStart
  have hlen : byteLen content = byteLen p + byteLen t := by rw [← hp, byteLen_append]
  have hlen' : byteLen content = byteLen q + byteLen u := by rw [← hq, byteLen_append]
  have hto : sliceTo bounds.prefixEnd content = p := by rw [← hpEnd, ← hp, sliceTo_append]
  rw [hto]
  split
  · refine ⟨[], ?_, hpEnd ▸ hle, ?_⟩
    · rw [← hpEnd, List.append_nil]
      conv_lhs => rw [← hp]
      conv_rhs => rw [← hp, sliceFrom_append]
    · rw [← hpEnd, ← hp, sliceFrom_append]
      omega
  · have hpre : p <+: q := prefix_of_byteLen_le ⟨t, hp⟩ ⟨u, hq⟩ (by omega)
    obtain ⟨middle, rfl⟩ := hpre
    have hfrom : sliceFrom bounds.suffixStart content = u := by
      rw [← hqStart, ← hq, sliceFrom_append]
    rw [hfrom]
    exact ⟨middle, hq.symm, hpEnd ▸ hle, by omega⟩

/-- What a text that is too long for its tokens is marked with. -/
def cutMarker (content : List Char) (tokenCap : Nat) : List Char :=
  truncationMarker (approxTokensFromByteCount (byteLen content - approxBytesForTokens tokenCap))

/-- What a text is cut to: it is whole, or just the mark where that takes all the room, or a prefix
and a suffix of it that do not overlap, around the mark. -/
inductive Truncates (content : List Char) (tokenCap : Nat) : List Char × Bool → Prop
  | whole : byteLen content ≤ approxBytesForTokens tokenCap →
      Truncates content tokenCap (content, false)
  | marker : approxBytesForTokens tokenCap < byteLen content →
      approxBytesForTokens tokenCap ≤ byteLen (cutMarker content tokenCap) →
      Truncates content tokenCap (cutMarker content tokenCap, true)
  | cut {pre middle suffix : List Char} : approxBytesForTokens tokenCap < byteLen content →
      content = pre ++ middle ++ suffix →
      byteLen (pre ++ cutMarker content tokenCap ++ suffix) ≤ approxBytesForTokens tokenCap →
      Truncates content tokenCap (pre ++ cutMarker content tokenCap ++ suffix, true)

theorem guardianTruncateText_truncates (content : List Char) (tokenCap : Nat) :
    Truncates content tokenCap (guardianTruncateText content tokenCap) := by
  have hmarker : truncationMarker (approxTokensFromByteCount
      (byteLen content - approxBytesForTokens tokenCap)) = cutMarker content tokenCap := rfl
  unfold guardianTruncateText
  simp only [hmarker]
  split
  · exact .whole ‹_›
  · rename_i hlong
    split
    · exact .marker (not_le.1 hlong) ‹_›
    · rename_i hroom
      obtain ⟨middle, hcontent, hpre, hsuffix⟩ := splitGuardianTruncationBounds_spec content
        ((approxBytesForTokens tokenCap - byteLen (cutMarker content tokenCap)) / 2)
        (approxBytesForTokens tokenCap - byteLen (cutMarker content tokenCap) -
          (approxBytesForTokens tokenCap - byteLen (cutMarker content tokenCap)) / 2)
      refine .cut (not_le.1 hlong) hcontent ?_
      rw [byteLen_append, byteLen_append]
      omega

theorem byteLen_truncationMarker_le {omittedTokens : Nat} (h : omittedTokens < 10 ^ 20) :
    byteLen (truncationMarker omittedTokens) ≤ 58 := by
  have hdigits := @byteLen_toDigits_le omittedTokens 20 (by decide) h
  have hopen : byteLen markerOpen = 34 := by decide
  have hclose : byteLen markerClose = 4 := by decide
  rw [truncationMarker, byteLen_append, byteLen_append, hopen, hclose]
  omega

/-- A text of an addressable size is cut to its tokens, if these take a mark. -/
theorem byteLen_guardianTruncateText_le {tokenCap : Nat} (hcap : 15 ≤ tokenCap)
    (hcontent : byteLen content < 2 ^ 64) :
    byteLen (guardianTruncateText content tokenCap).1 ≤ approxBytesForTokens tokenCap := by
  have h := guardianTruncateText_truncates content tokenCap
  generalize guardianTruncateText content tokenCap = result at h
  cases h with
  | whole hle => exact hle
  | cut _ _ hle => exact hle
  | marker _ _ =>
    have homitted : approxTokensFromByteCount (byteLen content - approxBytesForTokens tokenCap) <
        10 ^ 20 := by
      unfold approxTokensFromByteCount approxBytesPerToken
      omega
    refine (byteLen_truncationMarker_le homitted).trans ?_
    unfold approxBytesForTokens approxBytesPerToken
    omega

end

/-! ## Picking entries -/

namespace TranscriptEntryKind

def role : TranscriptEntryKind → List Char
  | .user => "user".toList
  | .assistant => "assistant".toList
  | .tool role => role

def isUser : TranscriptEntryKind → Bool
  | .user => true
  | .assistant | .tool _ => false

def isTool : TranscriptEntryKind → Bool
  | .tool _ => true
  | .user | .assistant => false

end TranscriptEntryKind

/-- `GUARDIAN_MAX_MESSAGE_TRANSCRIPT_TOKENS`. -/
def guardianMaxMessageTranscriptTokens : Nat := 10000

/-- `GUARDIAN_MAX_TOOL_TRANSCRIPT_TOKENS`. -/
def guardianMaxToolTranscriptTokens : Nat := 10000

/-- `GUARDIAN_MAX_MESSAGE_ENTRY_TOKENS`. -/
def guardianMaxMessageEntryTokens : Nat := 2000

/-- `GUARDIAN_MAX_TOOL_ENTRY_TOKENS`. -/
def guardianMaxToolEntryTokens : Nat := 1000

/-- `GUARDIAN_RECENT_ENTRY_LIMIT`. -/
def guardianRecentEntryLimit : Nat := 40

/-- An entry with its index. -/
abbrev IndexedEntry := TranscriptEntry × Nat

/-- An entry as it is shown, under its number. -/
def renderEntry (entryNumberOffset : Nat) (e : IndexedEntry) : List Char :=
  let tokenCap :=
    if e.1.kind.isTool then guardianMaxToolEntryTokens else guardianMaxMessageEntryTokens
  '[' :: (Nat.toDigits 10 (e.2 + entryNumberOffset + 1) ++ "] ".toList ++ e.1.kind.role ++
    ": ".toList ++ (guardianTruncateText e.1.text tokenCap).1)

/-- The tokens of an entry as it is shown. -/
def entryTokens (entryNumberOffset : Nat) (e : IndexedEntry) : Nat :=
  approxTokenCount (renderEntry entryNumberOffset e)

/-- The entries flagged as included, and what is counted. -/
structure Selection where
  included : Finset IndexedEntry := ∅
  messageTokens : Nat := 0
  toolTokens : Nat := 0
  retainedNonUserEntries : Nat := 0

namespace Selection

variable (offset : Nat) (s : Selection) (e : IndexedEntry)

/-- An entry of the user is included. -/
def includeUser : Selection :=
  { s with
    included := insert e s.included
    messageTokens := s.messageTokens + entryTokens offset e }

/-- An entry of the user is included unless it is already or does not fit. -/
def tryUser : Selection :=
  if e ∈ s.included ∨
      guardianMaxMessageTranscriptTokens < s.messageTokens + entryTokens offset e then s
  else s.includeUser offset e

/-- One round of the loop over the other entries. -/
def tryRecent : Selection :=
  if e.1.kind.isUser ∨ guardianRecentEntryLimit ≤ s.retainedNonUserEntries then s
  else if e.1.kind.isTool then
    if s.toolTokens + entryTokens offset e ≤ guardianMaxToolTranscriptTokens then
      { s with
        included := insert e s.included
        retainedNonUserEntries := s.retainedNonUserEntries + 1
        toolTokens := s.toolTokens + entryTokens offset e }
    else s
  else if s.messageTokens + entryTokens offset e ≤ guardianMaxMessageTranscriptTokens then
    { s with
      included := insert e s.included
      retainedNonUserEntries := s.retainedNonUserEntries + 1
      messageTokens := s.messageTokens + entryTokens offset e }
  else s

end Selection

/-- The entries of the user. -/
def userEntries (entries : List TranscriptEntry) : List IndexedEntry :=
  entries.zipIdx.filter (·.1.kind.isUser)

/-- The four passes over the entries. -/
def selectEntries (offset : Nat) (entries : List TranscriptEntry) : Selection :=
  let users := userEntries entries
  let s : Selection := users.head?.elim {} (({} : Selection).includeUser offset)
  let s := users.getLast?.elim s (s.tryUser offset)
  let s := users.reverse.foldl (Selection.tryUser offset) s
  entries.zipIdx.reverse.foldl (Selection.tryRecent offset) s

/-- `render_guardian_transcript_entries_with_offset`. -/
def renderGuardianTranscriptEntriesWithOffset (entries : List TranscriptEntry)
    (entryNumberOffset : Nat) (emptyPlaceholder : List Char) :
    List (List Char) × Option (List Char) :=
  if entries = [] then ([emptyPlaceholder], none)
  else
    let included := (selectEntries entryNumberOffset entries).included
    ((entries.zipIdx.filter (· ∈ included)).map (renderEntry entryNumberOffset),
      if entries.zipIdx.any (· ∉ included) then
        some "Some conversation entries were omitted.".toList
      else none)

/-- `render_guardian_transcript_entries`. -/
def renderGuardianTranscriptEntries (entries : List TranscriptEntry) :
    List (List Char) × Option (List Char) :=
  renderGuardianTranscriptEntriesWithOffset entries 0 "<no retained transcript entries>".toList

section
variable {offset : Nat} {entries : List TranscriptEntry} {s : Selection} {e : IndexedEntry}
  {users l : List IndexedEntry}

/-! ## What is counted -/

/-- The counts are those of the included entries and keep within the budgets. -/
structure Selection.Sound (offset : Nat) (s : Selection) : Prop where
  messageTokens : s.messageTokens =
    ∑ e ∈ s.included.filter (·.1.kind.isTool = false), entryTokens offset e
  toolTokens : s.toolTokens =
    ∑ e ∈ s.included.filter (·.1.kind.isTool = true), entryTokens offset e
  retained : s.retainedNonUserEntries = (s.included.filter (·.1.kind.isUser = false)).card
  messageTokens_le : s.messageTokens ≤ guardianMaxMessageTranscriptTokens
  toolTokens_le : s.toolTokens ≤ guardianMaxToolTranscriptTokens
  retained_le : s.retainedNonUserEntries ≤ guardianRecentEntryLimit

theorem TranscriptEntryKind.isTool_of_isUser {kind : TranscriptEntryKind} (h : kind.isUser = true) :
    kind.isTool = false := by
  cases kind <;> first | rfl | cases h

namespace Selection.Sound

theorem empty : ({} : Selection).Sound offset := by
  constructor <;> simp

theorem includeUser (h : s.Sound offset) (huser : e.1.kind.isUser = true) (he : e ∉ s.included)
    (hfits : s.messageTokens + entryTokens offset e ≤ guardianMaxMessageTranscriptTokens) :
    (s.includeUser offset e).Sound offset := by
  have htool := TranscriptEntryKind.isTool_of_isUser huser
  refine ⟨?_, ?_, ?_, hfits, h.toolTokens_le, h.retained_le⟩
  · show s.messageTokens + _ = _
    rw [Selection.includeUser, Finset.filter_insert, if_pos htool, Finset.sum_insert,
      h.messageTokens, Nat.add_comm]
    exact fun hmem => he (Finset.mem_filter.1 hmem).1
  · show s.toolTokens = _
    rw [Selection.includeUser, Finset.filter_insert, if_neg (by simp [htool]), h.toolTokens]
  · show s.retainedNonUserEntries = _
    rw [Selection.includeUser, Finset.filter_insert, if_neg (by simp [huser]), h.retained]

theorem tryUser (h : s.Sound offset) (huser : e.1.kind.isUser = true) :
    (s.tryUser offset e).Sound offset := by
  unfold Selection.tryUser
  split
  · exact h
  · rename_i hfits
    rw [not_or, not_lt] at hfits
    exact h.includeUser huser hfits.1 hfits.2

theorem tryRecent (h : s.Sound offset) (he : e.1.kind.isUser = false → e ∉ s.included) :
    (s.tryRecent offset e).Sound offset := by
  unfold Selection.tryRecent
  split
  · exact h
  rename_i hrecent
  rw [not_or, Bool.not_eq_true, not_le] at hrecent
  have hnew := he hrecent.1
  have hretained : s.retainedNonUserEntries + 1 =
      ((insert e s.included).filter (·.1.kind.isUser = false)).card := by
    rw [Finset.filter_insert, if_pos hrecent.1, Finset.card_insert_of_notMem, h.retained]
    exact fun hmem => hnew (Finset.mem_filter.1 hmem).1
  split
  · rename_i htool
    split
    · rename_i hfits
      refine ⟨?_, ?_, hretained, h.messageTokens_le, hfits, hrecent.2⟩
      · rw [Finset.filter_insert, if_neg (by simp [htool]), ← h.messageTokens]
      · rw [Finset.filter_insert, if_pos htool, Finset.sum_insert, ← h.toolTokens, Nat.add_comm]
        exact fun hmem => hnew (Finset.mem_filter.1 hmem).1
    · exact h
  · rename_i htool
    rw [Bool.not_eq_true] at htool
    split
    · rename_i hfits
      refine ⟨?_, ?_, hretained, hfits, h.toolTokens_le, hrecent.2⟩
      · rw [Finset.filter_insert, if_pos htool, Finset.sum_insert, ← h.messageTokens, Nat.add_comm]
        exact fun hmem => hnew (Finset.mem_filter.1 hmem).1
      · rw [Finset.filter_insert, if_neg (by simp [htool]), ← h.toolTokens]
    · exact h

end Selection.Sound

/-! ## What is included -/

namespace Selection

theorem subset_tryUser : s.included ⊆ (s.tryUser offset e).included := by
  unfold tryUser
  split
  · exact Finset.Subset.refl _
  · exact Finset.subset_insert _ _

theorem tryUser_subset : (s.tryUser offset e).included ⊆ insert e s.included := by
  unfold tryUser
  split
  · exact Finset.subset_insert _ _
  · exact Finset.Subset.refl _

theorem subset_tryRecent : s.included ⊆ (s.tryRecent offset e).included := by
  unfold tryRecent
  split_ifs <;> first | exact Finset.Subset.refl _ | exact Finset.subset_insert _ _

theorem tryRecent_subset : (s.tryRecent offset e).included ⊆ insert e s.included := by
  unfold tryRecent
  split_ifs <;> first | exact Finset.Subset.refl _ | exact Finset.subset_insert _ _

/-- Where all entries of the user fit together, none is passed over. -/
theorem mem_tryUser (h : s.Sound offset) (hsub : s.included ⊆ users.toFinset)
    (he : e ∈ users)
    (hfit : ∑ e ∈ users.toFinset, entryTokens offset e ≤ guardianMaxMessageTranscriptTokens) :
    e ∈ (s.tryUser offset e).included := by
  by_cases hmem : e ∈ s.included
  · exact subset_tryUser hmem
  have hinsert : insert e (s.included.filter (·.1.kind.isTool = false)) ⊆ users.toFinset :=
    Finset.insert_subset (List.mem_toFinset.2 he) ((Finset.filter_subset _ _).trans hsub)
  have hroom : s.messageTokens + entryTokens offset e ≤ guardianMaxMessageTranscriptTokens := by
    calc s.messageTokens + entryTokens offset e
        = ∑ e ∈ insert e (s.included.filter (·.1.kind.isTool = false)), entryTokens offset e := by
          rw [Finset.sum_insert fun hmem' => hmem (Finset.mem_filter.1 hmem').1, h.messageTokens,
            Nat.add_comm]
      _ ≤ ∑ e ∈ users.toFinset, entryTokens offset e := Finset.sum_le_sum_of_subset hinsert
      _ ≤ guardianMaxMessageTranscriptTokens := hfit
  rw [tryUser, if_neg (not_or.2 ⟨hmem, not_lt.2 hroom⟩)]
  exact Finset.mem_insert_self _ _

/-- The passes over entries of the user. -/
structure Users (offset : Nat) (users : List IndexedEntry) (s : Selection) : Prop where
  sound : s.Sound offset
  subset : s.included ⊆ users.toFinset

theorem Users.tryUser (h : s.Users offset users) (husers : ∀ e ∈ users, e.1.kind.isUser = true)
    (he : e ∈ users) : (s.tryUser offset e).Users offset users where
  sound := h.sound.tryUser (husers e he)
  subset := tryUser_subset.trans (Finset.insert_subset (List.mem_toFinset.2 he) h.subset)

theorem Users.foldl (h : s.Users offset users) (husers : ∀ e ∈ users, e.1.kind.isUser = true)
    (hl : ∀ e ∈ l, e ∈ users) :
    (l.foldl (Selection.tryUser offset) s).Users offset users ∧
      s.included ⊆ (l.foldl (Selection.tryUser offset) s).included ∧
      (∑ e ∈ users.toFinset, entryTokens offset e ≤ guardianMaxMessageTranscriptTokens →
        ∀ e ∈ l, e ∈ (l.foldl (Selection.tryUser offset) s).included) := by
  induction l generalizing s with
  | nil => exact ⟨h, Finset.Subset.refl _, fun _ _ he => nomatch he⟩
  | cons e l ih =>
    rw [List.forall_mem_cons] at hl
    obtain ⟨hall, hsub, hfit⟩ := ih (h.tryUser husers hl.1) hl.2
    refine ⟨hall, subset_tryUser.trans hsub, fun hsum e' he' => ?_⟩
    rcases List.mem_cons.1 he' with rfl | he'
    · exact hsub (mem_tryUser h.sound h.subset hl.1 hsum)
    · exact hfit hsum e' he'

/-- The pass over the other entries, each of them once. -/
theorem foldl_tryRecent (h : s.Sound offset) (hl : l.Nodup)
    (hnew : ∀ e ∈ l, e.1.kind.isUser = false → e ∉ s.included) :
    (l.foldl (tryRecent offset) s).Sound offset ∧
      s.included ⊆ (l.foldl (tryRecent offset) s).included ∧
      (l.foldl (tryRecent offset) s).included ⊆ s.included ∪ l.toFinset := by
  induction l generalizing s with
  | nil => exact ⟨h, Finset.Subset.refl _, Finset.subset_union_left⟩
  | cons e l ih =>
    rw [List.nodup_cons] at hl
    rw [List.forall_mem_cons] at hnew
    obtain ⟨hsound, hsub, hsup⟩ := ih (h.tryRecent hnew.1) hl.2 fun e' he' huser hmem => by
      rcases Finset.mem_insert.1 (tryRecent_subset hmem) with rfl | hmem
      · exact hl.1 he'
      · exact hnew.2 e' he' huser hmem
    refine ⟨hsound, subset_tryRecent.trans hsub, hsup.trans ?_⟩
    rw [List.toFinset_cons, Finset.union_insert, ← Finset.insert_union]
    exact Finset.union_subset_union_left tryRecent_subset

/-! ## The first and the last entry of the user -/

/-- Two entries of the user fit the budget for messages. -/
def AnchorsFit (offset : Nat) (users : List IndexedEntry) : Prop :=
  ∀ e ∈ users, 2 * entryTokens offset e ≤ guardianMaxMessageTranscriptTokens

/-- The passes before the loops include the first and the last entry of the user. -/
theorem anchors_included (husers : ∀ e ∈ users, e.1.kind.isUser = true)
    (hfit : AnchorsFit offset users) :
    let first := users.head?.elim {} (({} : Selection).includeUser offset)
    let anchors := users.getLast?.elim first (first.tryUser offset)
    anchors.Users offset users ∧ (∀ e ∈ users.head?, e ∈ anchors.included) ∧
      ∀ e ∈ users.getLast?, e ∈ anchors.included := by
  cases hhead : users.head? with
  | none =>
    rw [List.head?_eq_none_iff.1 hhead]
    exact ⟨⟨.empty, Finset.empty_subset _⟩, nofun, nofun⟩
  | some first =>
    have hfirst : first ∈ users := List.mem_of_mem_head? hhead
    obtain ⟨last, hlast⟩ := List.getLast?_isSome.2 (List.ne_nil_of_mem hfirst) |>
      Option.isSome_iff_exists.1
    have hlastMem : last ∈ users := List.mem_of_getLast? hlast
    have hfirstFits := hfit first hfirst
    have hlastFits := hfit last hlastMem
    have hone : (({} : Selection).includeUser offset first).Users offset users := by
      refine ⟨Sound.empty.includeUser (husers first hfirst) (Finset.notMem_empty _) ?_, ?_⟩
      · show 0 + entryTokens offset first ≤ _
        omega
      · exact Finset.insert_subset (List.mem_toFinset.2 hfirst) (Finset.empty_subset _)
    have hin : first ∈ (({} : Selection).includeUser offset first).included :=
      Finset.mem_insert_self _ _
    rw [hlast]
    refine ⟨hone.tryUser husers hlastMem, ?_, ?_⟩
    · rintro _ ⟨⟩
      exact subset_tryUser hin
    · rintro _ ⟨⟩
      by_cases hmem : last ∈ (({} : Selection).includeUser offset first).included
      · exact subset_tryUser hmem
      · have hroom : ¬guardianMaxMessageTranscriptTokens <
            (({} : Selection).includeUser offset first).messageTokens +
              entryTokens offset last := by
          show ¬_ < 0 + entryTokens offset first + entryTokens offset last
          omega
        show last ∈ ((({} : Selection).includeUser offset first).tryUser offset last).included
        rw [tryUser, if_neg (not_or.2 ⟨hmem, hroom⟩)]
        exact Finset.mem_insert_self _ _

end Selection

/-! ## What is shown -/

theorem nodup_zipIdx (entries : List TranscriptEntry) : entries.zipIdx.Nodup := by
  refine .of_map Prod.snd ?_
  rw [List.zipIdx_map_snd]
  exact List.nodup_range'

theorem isUser_of_mem_userEntries (h : e ∈ userEntries entries) : e.1.kind.isUser = true :=
  (List.mem_filter.1 h).2

/-- What the four passes include. -/
structure Selection.Final (offset : Nat) (entries : List TranscriptEntry) (s : Selection) :
    Prop where
  sound : s.Sound offset
  subset : s.included ⊆ entries.zipIdx.toFinset
  first : ∀ e ∈ (userEntries entries).head?, e ∈ s.included
  last : ∀ e ∈ (userEntries entries).getLast?, e ∈ s.included
  users : ∑ e ∈ (userEntries entries).toFinset, entryTokens offset e ≤
    guardianMaxMessageTranscriptTokens → ∀ e ∈ userEntries entries, e ∈ s.included

theorem selectEntries_final (hfit : Selection.AnchorsFit offset (userEntries entries)) :
    (selectEntries offset entries).Final offset entries := by
  have husers : ∀ e ∈ userEntries entries, e.1.kind.isUser = true :=
    fun _ => isUser_of_mem_userEntries
  have hzip : (userEntries entries).toFinset ⊆ entries.zipIdx.toFinset := fun e he =>
    List.mem_toFinset.2 (List.mem_filter.1 (List.mem_toFinset.1 he)).1
  obtain ⟨hanchors, hfirst, hlast⟩ := Selection.anchors_included husers hfit
  obtain ⟨hall, hsub, hmem⟩ :=
    hanchors.foldl husers (l := (userEntries entries).reverse) fun e => List.mem_reverse.1
  obtain ⟨hsound, hsub', hsup⟩ := Selection.foldl_tryRecent hall.sound
    (List.nodup_reverse.2 (nodup_zipIdx entries)) fun e _ hother hin => by
      rw [husers e (List.mem_toFinset.1 (hall.subset hin))] at hother
      cases hother
  refine ⟨hsound, hsup.trans (Finset.union_subset (hall.subset.trans hzip) ?_),
    fun e he => hsub' (hsub (hfirst e he)), fun e he => hsub' (hsub (hlast e he)),
    fun hsum e he => hsub' (hmem hsum e (List.mem_reverse.2 he))⟩
  rw [List.toFinset_reverse]

/-- The tokens of entries as they are shown. -/
def shownTokens (offset : Nat) (kept : List IndexedEntry) : Nat :=
  (kept.map (entryTokens offset)).sum

/-- What a transcript shows of its entries. -/
structure Selects (offset : Nat) (entries : List TranscriptEntry) (kept : List IndexedEntry) :
    Prop where
  sublist : kept.Sublist entries.zipIdx
  first : ∀ e ∈ (userEntries entries).head?, e ∈ kept
  last : ∀ e ∈ (userEntries entries).getLast?, e ∈ kept
  users : shownTokens offset (userEntries entries) ≤ guardianMaxMessageTranscriptTokens →
    ∀ e ∈ userEntries entries, e ∈ kept
  recent : (kept.filter (!·.1.kind.isUser)).length ≤ guardianRecentEntryLimit
  messages : shownTokens offset (kept.filter (!·.1.kind.isTool)) ≤
    guardianMaxMessageTranscriptTokens
  tools : shownTokens offset (kept.filter (·.1.kind.isTool)) ≤ guardianMaxToolTranscriptTokens

/-- Counting entries that are listed once. -/
theorem shownTokens_eq_sum (h : l.Nodup) :
    shownTokens offset l = ∑ e ∈ l.toFinset, entryTokens offset e :=
  (List.sum_toFinset _ h).symm

theorem Selection.Final.selects (h : s.Final offset entries) :
    Selects offset entries (entries.zipIdx.filter (· ∈ s.included)) := by
  have hnodup : (entries.zipIdx.filter (· ∈ s.included)).Nodup :=
    (nodup_zipIdx entries).filter _
  have hkept : ∀ {e}, e ∈ s.included → e ∈ entries.zipIdx.filter (· ∈ s.included) := fun he =>
    List.mem_filter.2 ⟨List.mem_toFinset.1 (h.subset he), decide_eq_true he⟩
  have hpart : ∀ p : IndexedEntry → Bool,
      ((entries.zipIdx.filter (· ∈ s.included)).filter p).toFinset =
        s.included.filter (p · = true) := fun p => by
    ext e
    rw [List.mem_toFinset, List.mem_filter, Finset.mem_filter]
    exact and_congr_left fun _ => ⟨fun he => of_decide_eq_true (List.mem_filter.1 he).2, hkept⟩
  refine ⟨List.filter_sublist, fun e he => hkept (h.first e he), fun e he => hkept (h.last e he),
    fun hsum e he => hkept (h.users ?_ e he), ?_, ?_, ?_⟩
  · have hnodup' : (userEntries entries).Nodup := (nodup_zipIdx entries).filter _
    rwa [shownTokens_eq_sum hnodup'] at hsum
  · rw [← List.toFinset_card_of_nodup (hnodup.filter _), hpart]
    refine le_trans (le_of_eq ?_) h.sound.retained_le
    rw [h.sound.retained]
    simp only [Bool.not_eq_eq_eq_not, Bool.not_true]
  · rw [shownTokens_eq_sum (hnodup.filter _), hpart]
    refine le_trans (le_of_eq ?_) h.sound.messageTokens_le
    rw [h.sound.messageTokens]
    simp only [Bool.not_eq_eq_eq_not, Bool.not_true]
  · rw [shownTokens_eq_sum (hnodup.filter _), hpart, ← h.sound.toolTokens]
    exact h.sound.toolTokens_le

/-- The entries are a list in memory, and so is the text of each. -/
def Addressable (entries : List TranscriptEntry) : Prop :=
  entries.length < 2 ^ 64 ∧ ∀ entry ∈ entries, byteLen entry.text < 2 ^ 64

theorem anchorsFit (h : Addressable entries) :
    Selection.AnchorsFit 0 (userEntries entries) := by
  rintro ⟨entry, index⟩ he
  have huser := isUser_of_mem_userEntries he
  obtain ⟨hindex, hentry⟩ := List.mem_zipIdx' (List.mem_filter.1 he).1
  have htext : byteLen (guardianTruncateText entry.text guardianMaxMessageEntryTokens).1 ≤ 8000 :=
    byteLen_guardianTruncateText_le (by decide) (h.2 entry (hentry ▸ List.getElem_mem hindex))
  have hlen := h.1
  have hdigits : byteLen (Nat.toDigits 10 (index + 0 + 1)) ≤ 20 :=
    byteLen_toDigits_le (by decide) (by omega)
  have hrender : byteLen (renderEntry 0 (entry, index)) ≤ 8029 := by
    have hrole : byteLen entry.kind.role ≤ 4 := by
      cases hkind : entry.kind with
      | user => decide
      | assistant => rw [hkind] at huser; cases huser
      | tool role => rw [hkind] at huser; cases huser
    have hbracket : byteLen "] ".toList = 2 := by decide
    have hcolon : byteLen ": ".toList = 2 := by decide
    have hopen : '['.utf8Size = 1 := by decide
    rw [renderEntry, TranscriptEntryKind.isTool_of_isUser huser]
    simp only [byteLen_cons, byteLen_append, hbracket, hcolon, hopen, Bool.false_eq_true, if_false]
    omega
  have htokens : entryTokens 0 (entry, index) = (byteLen (renderEntry 0 (entry, index)) + 3) / 4 :=
    rfl
  rw [htokens, guardianMaxMessageTranscriptTokens]
  omega

/-- What the guardian is shown of the entries: a placeholder where there are none, and else the
entries kept, under the numbers of their places, with a note where one is left out. -/
inductive Shows (entries : List TranscriptEntry) : List (List Char) × Option (List Char) → Prop
  | placeholder (hempty : entries = []) :
      Shows entries (["<no retained transcript entries>".toList], none)
  | entries {kept note} (hentries : entries ≠ []) (hkept : Selects 0 entries kept)
      (hnote : note.isSome ↔ ∃ e ∈ entries.zipIdx, e ∉ kept) :
      Shows entries (kept.map (renderEntry 0), note)

end

/-- **The transcript that fits.** What is shown of any entries is a subsequence that keeps the
anchors and the budgets, and texts are cut to their tokens around a mark. -/
theorem renderGuardianTranscriptEntries_spec (entries : List TranscriptEntry)
    (h : Addressable entries) :
    Shows entries (renderGuardianTranscriptEntries entries) ∧
      ∀ content tokenCap, Truncates content tokenCap (guardianTruncateText content tokenCap) := by
  refine ⟨?_, guardianTruncateText_truncates⟩
  unfold renderGuardianTranscriptEntries renderGuardianTranscriptEntriesWithOffset
  split
  · exact .placeholder ‹_›
  · have hfinal := selectEntries_final (anchorsFit h)
    refine .entries ‹_› hfinal.selects ?_
    have hkept : ∀ e ∈ entries.zipIdx,
        e ∉ entries.zipIdx.filter (· ∈ (selectEntries 0 entries).included) ↔
          e ∉ (selectEntries 0 entries).included := fun e he => by
      rw [List.mem_filter, decide_eq_true_eq]
      exact not_congr (and_iff_right he)
    rw [Option.isSome_ite, List.any_eq_true]
    exact exists_congr fun e => and_congr_right fun he => by
      rw [decide_eq_true_eq, hkept e he]

/-- A transcript of one message and one call. -/
def exampleEntries : List TranscriptEntry :=
  [⟨.user, "list the files".toList⟩, ⟨.tool "tool shell call".toList, "ls".toList⟩]

theorem renderGuardianTranscriptEntries_example :
    Shows exampleEntries (renderGuardianTranscriptEntries exampleEntries) ∧
      ∀ content tokenCap, Truncates content tokenCap (guardianTruncateText content tokenCap) :=
  renderGuardianTranscriptEntries_spec exampleEntries ⟨by decide, by decide⟩

/-- Without entries a line is shown that stands for none. -/
theorem not_selects_nil :
    ¬∃ kept, Selects 0 [] kept ∧
      (renderGuardianTranscriptEntries []).1 = kept.map (renderEntry 0) := by
  rintro ⟨kept, hkept, hshown⟩
  rw [List.sublist_nil.1 hkept.sublist] at hshown
  cases hshown

end Mcodex.Guardian
