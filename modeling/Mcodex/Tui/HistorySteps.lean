import Mcodex.Tui.HistoryScan

/-!
# The steps of a search

A step that is answered moves by one on the walk over the matches or stays where it is at a boundary
(`position`, `answer`). Between the steps the search is `Idle` at its position; a step that waits
for an entry leaves it `Suspended`, and what goes on from there answers that step (`Replies`).
-/

namespace Mcodex.Tui.History

open FuzzyMatch Newest ChatComposerHistory

/-! ## The walk -/

/-- The position on a walk after steps. The last step is first. -/
def position (length : Nat) : List HistorySearchDirection → Nat
  | [] => 0
  | .older :: steps =>
    if position length steps + 1 < length then position length steps + 1 else position length steps
  | .newer :: steps => position length steps - 1

/-- The answer to the last step, or to the beginning of the search. -/
def answer (walk : List UniqueHistoryMatch) : List HistorySearchDirection → HistorySearchResult
  | [] =>
    match walk.head? with
    | none => .notFound
    | some found => .found found.entry
  | direction :: steps =>
    match walk[position walk.length (direction :: steps)]? with
    | none => .notFound
    | some found =>
      if position walk.length (direction :: steps) = position walk.length steps then .atBoundary
      else .found found.entry

section
variable (tables : CaseTables) (logs : Nat → Nat → Option (List Char)) (query : List Char)
  (history₀ : ChatComposerHistory)

/-- Nothing is found from an offset on. -/
structure Unselected (search : HistorySearchState) (start : Nat) : Prop where
  knows : search.Knows tables logs query history₀ start
  uniqueMatches : search.uniqueMatches = []
  selectedMatchIndex : search.selectedMatchIndex = none
  selectedOffset : search.selectedOffset = none

/-- One of the matches from an offset on is selected. -/
structure Selected (search : HistorySearchState) (start i : Nat) : Prop where
  knows : search.Knows tables logs query history₀ start
  selectedMatchIndex : search.selectedMatchIndex = some i
  selectedOffset : ∃ found, search.uniqueMatches[i]? = some found ∧
    search.selectedOffset = some found.offset
  exhaustedOlder : search.exhaustedOlder = true →
    history₀.walk tables logs query = search.uniqueMatches
  exhaustedNewer : search.exhaustedNewer = true → i = 0

/-- The search has answered its steps. -/
structure Idle (history : ChatComposerHistory) (steps : List HistorySearchDirection) : Prop where
  state : ∃ search, history.search = some search ∧ search.awaiting = none ∧
    (history₀.walk tables logs query = [] ∧ Unselected tables logs query history₀ search 0 ∨
      ∃ start, Selected tables logs query history₀ search start
        (position (history₀.walk tables logs query).length steps))

/-- A scan for the last step has visited the offsets from `start` on, towards older ones. -/
def ScansOlder (search : HistorySearchState) (start : Nat) (boundary : Bool) :
    List HistorySearchDirection → Prop
  | [] => boundary = false ∧ Unselected tables logs query history₀ search start
  | .older :: steps =>
    boundary = true ∧
      position (history₀.walk tables logs query).length steps + 1 = search.uniqueMatches.length ∧
      Selected tables logs query history₀ search start
        (position (history₀.walk tables logs query).length steps)
  | .newer :: _ => False

/-- A scan for the last step visits the offsets from `start` on, where no match is. -/
def ScansNewer (search : HistorySearchState) (start : Nat) (boundary : Bool) :
    List HistorySearchDirection → Prop
  | .newer :: steps =>
    boundary = true ∧ position (history₀.walk tables logs query).length steps = 0 ∧
      (∃ known, Selected tables logs query history₀ search known 0) ∧
      ∀ o, start ≤ o → o < history₀.totalEntries → history₀.matchAt tables logs query o = none
  | _ => False

/-- The scan for the last step waits for an entry. -/
def Scans (search : HistorySearchState) (pending : PendingHistorySearch)
    (steps : List HistorySearchDirection) : Prop :=
  match pending.direction with
  | .older => ScansOlder tables logs query history₀ search (pending.offset + 1)
      pending.boundaryIfExhausted steps
  | .newer => ScansNewer tables logs query history₀ search pending.offset
      pending.boundaryIfExhausted steps

/-- The search has answered its steps but the last, for which it waits. -/
structure Suspended (history : ChatComposerHistory) (steps : List HistorySearchDirection)
    (pending : PendingHistorySearch) : Prop where
  lt : pending.offset < history₀.historyEntryCount
  uncached : history.fetchedHistory.lookup pending.offset = none
  state : ∃ search, history.search = some search ∧ search.awaiting = some pending ∧
    Scans tables logs query history₀ search pending steps

/-- The offsets from the awaited one on, in the direction of the scan. -/
def PendingHistorySearch.left (pending : PendingHistorySearch) (total : Nat) : Nat :=
  match pending.direction with
  | .older => pending.offset + 1
  | .newer => total - pending.offset

/-- A reply answers the last step, or waits for an entry and requests it. At most `left` offsets are
then left. -/
structure Replies (steps : List HistorySearchDirection) (left : Nat)
    (reply : Reply HistorySearchResult) : Prop where
  caches : Caches logs history₀ reply.history
  result : (reply.result = answer (history₀.walk tables logs query) steps ∧
      Idle tables logs query history₀ reply.history steps) ∨
    reply.result = .pending ∧ ∃ pending logId, pending.left history₀.totalEntries ≤ left ∧
      Suspended tables logs query history₀ reply.history steps pending ∧
      history₀.historyLogId = some logId ∧ reply.sent = some ⟨pending.offset, logId⟩

end

section
variable {tables : CaseTables} {logs : Nat → Nat → Option (List Char)} {query : List Char}
  {history₀ history : ChatComposerHistory} {search : HistorySearchState} {start offset i left : Nat}
  {steps : List HistorySearchDirection} {found : UniqueHistoryMatch} {boundary : Bool}

theorem answer_ne_pending (walk : List UniqueHistoryMatch) (steps : List HistorySearchDirection) :
    answer walk steps ≠ .pending := by
  cases steps with
  | nil =>
    rw [answer]
    split
    · exact nofun
    · exact nofun
  | cons direction steps =>
    rw [answer]
    split
    · exact nofun
    · split_ifs
      · exact nofun
      · exact nofun

theorem answer_boundary {walk : List UniqueHistoryMatch} {direction : HistorySearchDirection}
    (h : walk[position walk.length steps]? = some found)
    (hsame : position walk.length (direction :: steps) = position walk.length steps) :
    answer walk (direction :: steps) = .atBoundary := by
  rw [answer, hsame, h]
  exact if_pos rfl

theorem answer_found {walk : List UniqueHistoryMatch} {direction : HistorySearchDirection}
    (h : walk[position walk.length (direction :: steps)]? = some found)
    (hmoved : position walk.length (direction :: steps) ≠ position walk.length steps) :
    answer walk (direction :: steps) = .found found.entry := by
  rw [answer, h]
  exact if_neg hmoved

/-! ## What a search knows -/

theorem Unselected.wait (h : Unselected tables logs query history₀ search start)
    (awaiting : Option PendingHistorySearch) :
    Unselected tables logs query history₀ { search with awaiting } start :=
  ⟨{ h.knows with }, h.uniqueMatches, h.selectedMatchIndex, h.selectedOffset⟩

theorem Selected.wait (h : Selected tables logs query history₀ search start i)
    (awaiting : Option PendingHistorySearch) :
    Selected tables logs query history₀ { search with awaiting } start i :=
  ⟨{ h.knows with }, h.selectedMatchIndex, h.selectedOffset, h.exhaustedOlder, h.exhaustedNewer⟩

/-- What is known from an offset on is known from another one when there is no other match. -/
theorem HistorySearchState.Knows.of_eq (h : search.Knows tables logs query history₀ start)
    (hsame : history₀.matchesFrom tables logs query offset =
      history₀.matchesFrom tables logs query start) :
    search.Knows tables logs query history₀ offset :=
  { h with
    uniqueMatches := h.uniqueMatches.trans hsame.symm
    seenTexts := hsame ▸ h.seenTexts }

theorem Replies.mono {left' : Nat} {reply : Reply HistorySearchResult}
    (h : Replies tables logs query history₀ steps left reply) (hle : left ≤ left') :
    Replies tables logs query history₀ steps left' reply :=
  ⟨h.caches, h.result.imp_right fun ⟨hpending, pending, logId, hleft, hrest⟩ =>
    ⟨hpending, pending, logId, hleft.trans hle, hrest⟩⟩

/-! ## A match is found -/

/-- The new match is the oldest one. -/
theorem recordMatch_of_older (h : ∀ other ∈ search.uniqueMatches, offset < other.offset)
    (entry : HistoryEntry) :
    search.recordMatch offset entry =
      { search with
        seenTexts := insert entry.text search.seenTexts
        uniqueMatches := search.uniqueMatches ++ [{ offset, entry }]
        selectedOffset := some offset
        selectedMatchIndex := some search.uniqueMatches.length
        awaiting := none
        exhaustedOlder := false
        exhaustedNewer := false } := by
  have hfind : search.uniqueMatches.findIdx? (fun other => decide (other.offset = offset)) = none :=
    List.findIdx?_eq_none_iff.2 fun other hmem => decide_eq_false (h other hmem).ne'
  have hinsert : search.uniqueMatches.takeWhile (fun other => decide (offset < other.offset)) =
      search.uniqueMatches :=
    List.takeWhile_eq_self_iff.2 fun other hmem => decide_eq_true (h other hmem)
  rw [HistorySearchState.recordMatch, hfind]
  simp only [hinsert, List.insertIdx_length_self, HistorySearchState.selectMatch,
    List.getElem?_concat_length]

theorem search_searchMatch (hsearch : history.search = some search)
    (h : ∀ other ∈ search.uniqueMatches, offset < other.offset) (entry : HistoryEntry) :
    (history.searchMatch offset entry).history.search = some
      { search with
        seenTexts := insert entry.text search.seenTexts
        uniqueMatches := search.uniqueMatches ++ [{ offset, entry }]
        selectedOffset := some offset
        selectedMatchIndex := some search.uniqueMatches.length
        awaiting := none
        exhaustedOlder := false
        exhaustedNewer := false } := by
  have holder : ∀ other ∈ { search with selectedOffset := some offset }.uniqueMatches,
      offset < other.offset := h
  simp only [searchMatch, updateSearch, hsearch, Option.map_some, recordMatch_of_older holder]

theorem matchesFrom_isPrefix (start : Nat) :
    history₀.matchesFrom tables logs query start <+: history₀.walk tables logs query :=
  newest_isPrefix (Nat.zero_le start)

/-- The match that a scan to older offsets finds is selected. -/
theorem selected_searchMatch (hsearch : history.search = some search)
    (h : search.Knows tables logs query history₀ start)
    (hfound : history₀.matchesFrom tables logs query found.offset =
      history₀.matchesFrom tables logs query start ++ [found]) :
    ∃ search', (history.searchMatch found.offset found.entry).history.search = some search' ∧
      search'.awaiting = none ∧ Selected tables logs query history₀ search' found.offset
        search.uniqueMatches.length := by
  have hnewer : ∀ other ∈ search.uniqueMatches, found.offset < other.offset := by
    intro other hother
    have hpairwise : (history₀.matchesFrom tables logs query found.offset).Pairwise
        fun a b => b.offset < a.offset := pairwise_newest matchAt_offset
    rw [hfound] at hpairwise
    exact (List.pairwise_append.1 hpairwise).2.2 other (h.uniqueMatches ▸ hother) found
      (List.mem_singleton_self _)
  refine ⟨_, search_searchMatch hsearch hnewer found.entry, rfl, ?_⟩
  have hmatches : search.uniqueMatches ++ [found] =
      history₀.matchesFrom tables logs query found.offset := by
    rw [hfound, h.uniqueMatches]
  refine ⟨⟨h.sameQuery, h.queryLower, hmatches, fun text => ?_⟩, rfl,
    ⟨found, List.getElem?_concat_length, rfl⟩, nofun, nofun⟩
  rw [hfound, List.map_append, List.mem_append, ← h.seenTexts]
  simp [or_comm]

theorem searchMatch_replies (hcache : Caches logs history₀ history)
    (hsearch : history.search = some search)
    (h : ScansOlder tables logs query history₀ search start boundary steps)
    (hfound : history₀.matchesFrom tables logs query found.offset =
      history₀.matchesFrom tables logs query start ++ [found]) :
    Replies tables logs query history₀ steps left
      (history.searchMatch found.offset found.entry) := by
  refine ⟨{ hcache with }, .inl ?_⟩
  obtain ⟨rest, hrest⟩ : history₀.matchesFrom tables logs query start ++ [found] <+:
      history₀.walk tables logs query := hfound ▸ matchesFrom_isPrefix found.offset
  cases steps with
  | nil =>
    obtain ⟨-, hunselected⟩ := h
    obtain ⟨search', hsearch', hawaiting, hselected⟩ :=
      selected_searchMatch hsearch hunselected.knows hfound
    rw [← hunselected.knows.uniqueMatches, hunselected.uniqueMatches] at hrest
    rw [hunselected.uniqueMatches] at hselected
    exact ⟨by rw [answer, ← hrest]; rfl, search', hsearch', hawaiting, .inr ⟨_, hselected⟩⟩
  | cons direction steps =>
    cases direction with
    | newer => exact h.elim
    | older =>
      obtain ⟨-, hlast, hselected⟩ := h
      obtain ⟨search', hsearch', hawaiting, hselected'⟩ :=
        selected_searchMatch hsearch hselected.knows hfound
      have hwalk :
          (history₀.walk tables logs query)[search.uniqueMatches.length]? = some found := by
        rw [← hrest, ← hselected.knows.uniqueMatches, List.append_assoc]
        simp
      have hlt := (List.getElem?_eq_some_iff.1 hwalk).1
      have hposition : position (history₀.walk tables logs query).length (.older :: steps) =
          search.uniqueMatches.length := by
        rw [position, hlast, if_pos hlt]
      refine ⟨?_, search', hsearch', hawaiting, .inr ⟨_, hposition ▸ hselected'⟩⟩
      rw [answer, hposition, hwalk]
      exact (if_neg (by omega)).symm

/-! ## A scan -/

theorem search_exhausted (hsearch : history.search = some search)
    (direction : HistorySearchDirection) (boundary : Bool) :
    (history.exhaustedSearchResult direction boundary).history.search = some
      (if boundary then { search with awaiting := none }.markExhausted direction
        else { search with awaiting := none }) := by
  rw [exhaustedSearchResult, updateSearch, hsearch]
  rfl

theorem Caches.exhausted (h : Caches logs history₀ history) (direction : HistorySearchDirection)
    (boundary : Bool) :
    Caches logs history₀ (history.exhaustedSearchResult direction boundary).history :=
  { h with }

/-- All older offsets are visited. -/
theorem exhausted_older (hcache : Caches logs history₀ history)
    (hsearch : history.search = some search)
    (h : ScansOlder tables logs query history₀ search start boundary steps)
    (hwalk : history₀.walk tables logs query = search.uniqueMatches) :
    Replies tables logs query history₀ steps left
      (history.exhaustedSearchResult .older boundary) := by
  refine ⟨Caches.exhausted hcache _ _, .inl ?_⟩
  have hsearch' := search_exhausted hsearch .older boundary
  cases steps with
  | nil =>
    obtain ⟨rfl, hunselected⟩ := h
    have hnil := hwalk.trans hunselected.uniqueMatches
    have hknows := hunselected.knows.of_eq (hwalk.trans hunselected.knows.uniqueMatches)
    refine ⟨by rw [answer, hnil]; rfl, _, hsearch', rfl, .inl ⟨hnil, ?_⟩⟩
    exact Unselected.wait { hunselected with knows := hknows } none
  | cons direction steps =>
    cases direction with
    | newer => exact h.elim
    | older =>
      obtain ⟨rfl, hlast, hselected⟩ := h
      obtain ⟨found, hfound, -⟩ := hselected.selectedOffset
      rw [← hwalk] at hfound
      have hposition : position (history₀.walk tables logs query).length (.older :: steps) =
          position (history₀.walk tables logs query).length steps := by
        rw [position, if_neg (by rw [hwalk] at hlast ⊢; omega)]
      refine ⟨(answer_boundary hfound hposition).symm, _, hsearch', rfl,
        .inr ⟨start, ?_⟩⟩
      rw [hposition]
      exact { hselected.wait none with
        knows := { hselected.knows with }
        exhaustedOlder := fun _ => hwalk }

theorem ScansOlder.knows (h : ScansOlder tables logs query history₀ search start boundary steps) :
    search.Knows tables logs query history₀ start := by
  cases steps with
  | nil => exact h.2.knows
  | cons direction steps =>
    cases direction with
    | newer => exact h.elim
    | older => exact h.2.2.knows

theorem ScansOlder.wait (h : ScansOlder tables logs query history₀ search start boundary steps)
    (hsame : history₀.matchesFrom tables logs query offset =
      history₀.matchesFrom tables logs query start) (awaiting : Option PendingHistorySearch) :
    ScansOlder tables logs query history₀ { search with awaiting } offset boundary steps := by
  have hknows := h.knows.of_eq hsame
  cases steps with
  | nil => exact ⟨h.1, Unselected.wait { h.2 with knows := hknows } awaiting⟩
  | cons direction steps =>
    cases direction with
    | newer => exact h.elim
    | older => exact ⟨h.1, h.2.1, Selected.wait { h.2.2 with knows := hknows } awaiting⟩

/-- A wait replies to the step. -/
theorem Waits.replies {pending : PendingHistorySearch} {reply : Reply HistorySearchResult}
    (h : Waits history₀ history pending reply) (hcache : Caches logs history₀ history)
    (hsearch : history.search = some search)
    (hscans : Scans tables logs query history₀ { search with awaiting := some pending } pending
      steps) (hleft : pending.left history₀.totalEntries ≤ left) :
    Replies tables logs query history₀ steps left reply := by
  obtain ⟨hlt, huncached, logId, hlog, rfl⟩ := h
  refine ⟨{ hcache with }, .inr
    ⟨rfl, pending, logId, hleft, ⟨hlt, huncached, { search with awaiting := some pending }, ?_, rfl,
      hscans⟩, hlog, rfl⟩⟩
  rw [await, updateSearch, hsearch]
  rfl

/-- A scan goes on towards older offsets. -/
theorem advanceSearch_older (hcache : Caches logs history₀ history)
    (hsearch : history.search = some search)
    (h : ScansOlder tables logs query history₀ search start boundary steps)
    (hle : start ≤ history₀.totalEntries) :
    Replies tables logs query history₀ steps start
      (history.advanceSearch tables (history.nextOffset start .older) .older boundary) := by
  cases start with
  | zero => exact exhausted_older hcache hsearch h h.knows.uniqueMatches.symm
  | succ offset =>
    have hnext : history.nextOffset (offset + 1) .older = some offset := rfl
    have hscan := advanceSearchFrom_older boundary hcache hsearch h.knows hle
    rw [hnext, advanceSearch]
    rcases hscan with ⟨found, hfound, hscan⟩ | ⟨p, hp, hsame, hwaits⟩ | ⟨hwalk, hscan⟩
    · rw [hscan]
      exact searchMatch_replies hcache hsearch h hfound
    · have hresult := hwaits.result
      rw [if_neg (by rw [hresult]; exact nofun)]
      exact hwaits.replies hcache hsearch (h.wait hsame (some ⟨p, .older, boundary⟩))
        (Nat.succ_le_succ hp)
    · rw [hscan]
      exact exhausted_older hcache hsearch h (hwalk.trans h.knows.uniqueMatches.symm)

theorem ScansNewer.wait (h : ScansNewer tables logs query history₀ search start boundary steps)
    (hle : start ≤ offset) (awaiting : Option PendingHistorySearch) :
    ScansNewer tables logs query history₀ { search with awaiting } offset boundary steps := by
  cases steps with
  | nil => exact h.elim
  | cons direction steps =>
    cases direction with
    | older => exact h.elim
    | newer =>
      obtain ⟨hboundary, hposition, ⟨known, hselected⟩, hnone⟩ := h
      exact ⟨hboundary, hposition, ⟨known, hselected.wait awaiting⟩,
        fun o ho => hnone o (hle.trans ho)⟩

/-- A selected match is on the walk. -/
theorem Selected.getElem?_walk (h : Selected tables logs query history₀ search start i)
    (hfound : search.uniqueMatches[offset]? = some found) :
    (history₀.walk tables logs query)[offset]? = some found := by
  have hpre : history₀.matchesFrom tables logs query start <+: history₀.walk tables logs query :=
    matchesFrom_isPrefix start
  obtain ⟨rest, hrest⟩ := hpre
  rw [← hrest, ← h.knows.uniqueMatches,
    List.getElem?_append_left (List.getElem?_eq_some_iff.1 hfound).1, hfound]

theorem Selected.bind_selectedOffset (h : Selected tables logs query history₀ search start i)
    (hsearch : history.search = some search) :
    ∃ found, search.uniqueMatches[i]? = some found ∧
      history.search.bind (·.selectedOffset) = some found.offset := by
  rw [hsearch]
  exact h.selectedOffset

/-- All newer offsets are visited. -/
theorem exhausted_newer (hcache : Caches logs history₀ history)
    (hsearch : history.search = some search)
    (h : ScansNewer tables logs query history₀ search start boundary steps) :
    Replies tables logs query history₀ steps left
      (history.exhaustedSearchResult .newer boundary) := by
  refine ⟨Caches.exhausted hcache _ _, .inl ?_⟩
  have hsearch' := search_exhausted hsearch .newer boundary
  cases steps with
  | nil => exact h.elim
  | cons direction steps =>
    cases direction with
    | older => exact h.elim
    | newer =>
      obtain ⟨rfl, hzero, ⟨known, hselected⟩, -⟩ := h
      obtain ⟨found, hfound, -⟩ := hselected.selectedOffset
      have hposition : position (history₀.walk tables logs query).length (.newer :: steps) = 0 := by
        rw [position, hzero]
      have hwalk := hselected.getElem?_walk hfound
      refine ⟨(answer_boundary (hzero ▸ hwalk) (hposition.trans hzero.symm)).symm, _, hsearch',
        rfl, .inr ⟨known, ?_⟩⟩
      rw [hposition]
      exact { hselected.wait none with
        knows := { hselected.knows with }
        exhaustedNewer := fun _ => rfl }

theorem ScansNewer.knows (h : ScansNewer tables logs query history₀ search start boundary steps) :
    (∃ known, search.Knows tables logs query history₀ known) ∧
      ∀ o, start ≤ o → o < history₀.totalEntries →
        history₀.matchAt tables logs query o = none := by
  cases steps with
  | nil => exact h.elim
  | cons direction steps =>
    cases direction with
    | older => exact h.elim
    | newer =>
      obtain ⟨-, -, ⟨known, hselected⟩, hnone⟩ := h
      exact ⟨⟨known, hselected.knows⟩, hnone⟩

/-- A scan goes on towards newer offsets. -/
theorem advanceSearch_newer (hcache : Caches logs history₀ history)
    (hsearch : history.search = some search)
    (h : ScansNewer tables logs query history₀ search (offset + 1) boundary steps) :
    Replies tables logs query history₀ steps (history₀.totalEntries - (offset + 1))
      (history.advanceSearch tables (history.nextOffset offset .newer) .newer boundary) := by
  obtain ⟨⟨known, hknows⟩, hnone⟩ := h.knows
  have hscan := advanceSearchFrom_newer boundary hcache hsearch hknows hnone
  rw [nextOffset]
  split_ifs
  · rw [advanceSearch]
    rcases hscan with ⟨p, hle, hwaits⟩ | hscan
    · have hresult := hwaits.result
      rw [if_neg (by simp [hresult])]
      exact hwaits.replies hcache hsearch (h.wait hle (some ⟨p, .newer, boundary⟩))
        (Nat.sub_le_sub_left hle _)
    · rw [hscan]
      exact exhausted_newer hcache hsearch h
  · exact exhausted_newer hcache hsearch h

/-! ## The steps -/

theorem unselected_new (hstart : history₀.matchesFrom tables logs query start = []) :
    Unselected tables logs query history₀ (.new tables query) start where
  knows :=
    { sameQuery := rfl
      queryLower := rfl
      uniqueMatches := hstart.symm
      seenTexts := fun text => by rw [hstart]; exact iff_of_false nofun nofun }
  uniqueMatches := rfl
  selectedMatchIndex := rfl
  selectedOffset := rfl

/-- In an empty history there is nothing to find. -/
theorem replies_empty (hcache : Caches logs history₀ history) (hempty : history₀.totalEntries = 0)
    (steps : List HistorySearchDirection) :
    Replies tables logs query history₀ steps left
      ⟨{ history with search := some (.new tables query) }, none, .notFound⟩ := by
  have hwalk : history₀.walk tables logs query = [] := newest_of_le hempty.le
  refine ⟨{ hcache with }, .inl
    ⟨?_, _, rfl, rfl, .inl ⟨hwalk, unselected_new hwalk⟩⟩⟩
  rw [hwalk]
  cases steps with
  | nil => rfl
  | cons direction steps => rfl

theorem searchStep_start (hcache : Caches logs history₀ history) :
    Replies tables logs query history₀ [] history₀.totalEntries
      (history.searchStep tables query .older true) := by
  rw [searchStep]
  split_ifs with hempty
  · exact replies_empty hcache (hcache.totalEntries ▸ hempty) []
  · simp only [Bool.not_true, Bool.or_true, Bool.and_false, Bool.false_and, if_true,
      Bool.false_eq_true, if_false]
    have hnew : history₀.matchesFrom tables logs query history₀.totalEntries = [] :=
      newest_of_le (Nat.le_refl _)
    have hcache' : Caches logs history₀ { history with search := some (.new tables query) } :=
      { hcache with }
    have hscans : ScansOlder tables logs query history₀ (.new tables query) history₀.totalEntries
        false [] := ⟨rfl, unselected_new hnew⟩
    have hstart := advanceSearch_older hcache' rfl hscans (Nat.le_refl _)
    have hoffset :
        { history with search := some (.new tables query) }.searchStartOffset .older true =
          { history with search := some (.new tables query) }.nextOffset history₀.totalEntries
          .older := by
      rw [← hcache.totalEntries]
      rfl
    rw [hoffset]
    exact hstart

theorem selectMatch_eq (h : search.uniqueMatches[i]? = some found) :
    search.selectMatch i =
      { search with
        selectedOffset := some found.offset
        selectedMatchIndex := some i
        awaiting := none
        exhaustedOlder := false
        exhaustedNewer := false } := by
  rw [HistorySearchState.selectMatch, h]

/-- A cached match is selected. -/
theorem replies_cached (hcache : Caches logs history₀ history)
    (hsearch : history.search = some search) {direction : HistorySearchDirection}
    (h : Selected tables logs query history₀ search start
      (position (history₀.walk tables logs query).length steps))
    (hfound : search.uniqueMatches[i]? = some found)
    (hposition : position (history₀.walk tables logs query).length (direction :: steps) = i)
    (hmoved : i ≠ position (history₀.walk tables logs query).length steps) :
    Replies tables logs query history₀ (direction :: steps) left
      { history :=
          { history with
            historyCursor := some found.offset
            lastHistoryText := some found.entry.text }.updateSearch (·.selectMatch i)
        sent := none
        result := .found found.entry } := by
  refine ⟨{ hcache with }, .inl ?_⟩
  have hstate : ({ history with
      historyCursor := some found.offset
      lastHistoryText := some found.entry.text }.updateSearch (·.selectMatch i)).search = some
        { search with
          selectedOffset := some found.offset
          selectedMatchIndex := some i
          awaiting := none
          exhaustedOlder := false
          exhaustedNewer := false } := by
    simp only [updateSearch, hsearch, Option.map_some, selectMatch_eq hfound]
  subst hposition
  exact ⟨(answer_found (h.getElem?_walk hfound) hmoved).symm, _, hstate, rfl,
    .inr ⟨start, { h.knows with }, rfl, ⟨found, hfound, rfl⟩, nofun, nofun⟩⟩

theorem selectCachedUniqueMatch_of_none (hsearch : history.search = some search)
    (h : search.selectedMatchIndex = none) (direction : HistorySearchDirection) :
    history.selectCachedUniqueMatch direction = none := by
  simp [selectCachedUniqueMatch, HistorySearchState.nextMatchIndex, hsearch, h]

theorem selectCachedUniqueMatch_older (hsearch : history.search = some search)
    (h : search.selectedMatchIndex = some i) :
    history.selectCachedUniqueMatch .older = (search.uniqueMatches[i + 1]?).map fun found =>
      { history :=
          { history with
            historyCursor := some found.offset
            lastHistoryText := some found.entry.text }.updateSearch (·.selectMatch (i + 1))
        sent := none
        result := .found found.entry } := by
  by_cases hlt : i + 1 < search.uniqueMatches.length
  · simp [selectCachedUniqueMatch, HistorySearchState.nextMatchIndex, hsearch, h, hlt]
  · simp [selectCachedUniqueMatch, HistorySearchState.nextMatchIndex, hsearch, h, hlt]

theorem selectCachedUniqueMatch_newer (hsearch : history.search = some search)
    (h : search.selectedMatchIndex = some i) :
    history.selectCachedUniqueMatch .newer =
      if i = 0 then none
      else (search.uniqueMatches[i - 1]?).map fun found =>
        { history :=
            { history with
              historyCursor := some found.offset
              lastHistoryText := some found.entry.text }.updateSearch (·.selectMatch (i - 1))
          sent := none
          result := .found found.entry } := by
  by_cases hzero : i = 0
  · simp [selectCachedUniqueMatch, HistorySearchState.nextMatchIndex, hsearch, h, hzero]
  · cases hfound : search.uniqueMatches[i - 1]? with
    | none =>
      simp [selectCachedUniqueMatch, HistorySearchState.nextMatchIndex, hsearch, h, hzero, hfound]
    | some found =>
      simp [selectCachedUniqueMatch, HistorySearchState.nextMatchIndex, hsearch, h, hzero, hfound]

/-- The step of a search that has answered the others, once it is known to be one. -/
def stepFrom (tables : CaseTables) (history : ChatComposerHistory)
    (direction : HistorySearchDirection) : Reply HistorySearchResult :=
  let boundary := (history.search.bind (·.selectedOffset)).isSome
  match history.selectCachedUniqueMatch direction with
  | some reply => reply
  | none =>
    if boundary && history.search.any (·.isExhausted direction) then ⟨history, none, .atBoundary⟩
    else history.advanceSearch tables (history.searchStartOffset direction false) direction boundary

theorem searchStartOffset_next (direction : HistorySearchDirection) :
    history.searchStartOffset direction false =
      (history.search.bind (·.selectedOffset)).bind fun offset =>
        history.nextOffset offset direction := rfl

theorem stepFrom_unselected (hcache : Caches logs history₀ history)
    (hsearch : history.search = some search) (hwalk : history₀.walk tables logs query = [])
    (h : Unselected tables logs query history₀ search 0) (direction : HistorySearchDirection) :
    Replies tables logs query history₀ (direction :: steps) left
      (stepFrom tables history direction) := by
  have hoffset : history.search.bind (·.selectedOffset) = none := by
    rw [hsearch]
    exact h.selectedOffset
  have hstart : history.searchStartOffset direction false = none := by
    rw [searchStartOffset_next, hoffset]
    rfl
  simp only [stepFrom, selectCachedUniqueMatch_of_none hsearch h.selectedMatchIndex, hoffset,
    hstart, Option.isSome_none, Bool.false_and, Bool.false_eq_true, if_false, advanceSearch]
  refine ⟨Caches.exhausted hcache _ _, .inl ⟨by rw [hwalk]; rfl, _,
    search_exhausted hsearch direction false, rfl, .inl ⟨hwalk, h.wait none⟩⟩⟩

theorem stepFrom_older (hcache : Caches logs history₀ history)
    (hsearch : history.search = some search) (hawaiting : search.awaiting = none)
    (h : Selected tables logs query history₀ search start
      (position (history₀.walk tables logs query).length steps)) :
    Replies tables logs query history₀ (.older :: steps) history₀.totalEntries
      (stepFrom tables history .older) := by
  obtain ⟨found, hfound, hselected⟩ := h.bind_selectedOffset hsearch
  have hlt := (List.getElem?_eq_some_iff.1 hfound).1
  rw [stepFrom, selectCachedUniqueMatch_older hsearch h.selectedMatchIndex]
  cases hnext : search.uniqueMatches[position (history₀.walk tables logs query).length steps + 1]?
    with
  | some next =>
    have hwalk := (List.getElem?_eq_some_iff.1 (h.getElem?_walk hnext)).1
    exact replies_cached hcache hsearch h hnext (if_pos hwalk) (by omega)
  | none =>
    have hlast := List.getElem?_eq_none_iff.1 hnext
    simp only [Option.map_none, hselected, Option.isSome_some, Bool.true_and]
    split_ifs with hexhausted
    · rw [hsearch, Option.any_some] at hexhausted
      have hwalk := h.exhaustedOlder hexhausted
      have hposition : position (history₀.walk tables logs query).length (.older :: steps) =
          position (history₀.walk tables logs query).length steps := by
        rw [position, if_neg (by rw [hwalk] at hlast ⊢; omega)]
      exact ⟨hcache, .inl ⟨(answer_boundary (h.getElem?_walk hfound) hposition).symm, search,
        hsearch, hawaiting, .inr ⟨start, hposition ▸ h⟩⟩⟩
    · have hget : (history₀.matchesFrom tables logs query start).getLast? = some found := by
        rw [← h.knows.uniqueMatches, List.getLast?_eq_getElem?, ← hfound]
        congr 1
        omega
      have hknows := h.knows.of_eq (newest_of_getLast? matchAt_offset hget)
      have hbound := (offset_of_mem matchAt_offset (List.mem_of_getLast? hget)).2.1
      rw [searchStartOffset_next, hselected, Option.bind_some]
      have hscans : ScansOlder tables logs query history₀ search found.offset true
          (.older :: steps) := ⟨rfl, by omega, { h with knows := hknows }⟩
      exact (advanceSearch_older hcache hsearch hscans hbound.le).mono hbound.le

theorem stepFrom_newer (hcache : Caches logs history₀ history)
    (hsearch : history.search = some search) (hawaiting : search.awaiting = none)
    (h : Selected tables logs query history₀ search start
      (position (history₀.walk tables logs query).length steps)) :
    Replies tables logs query history₀ (.newer :: steps) history₀.totalEntries
      (stepFrom tables history .newer) := by
  obtain ⟨found, hfound, hselected⟩ := h.bind_selectedOffset hsearch
  have hlt := (List.getElem?_eq_some_iff.1 hfound).1
  rw [stepFrom, selectCachedUniqueMatch_newer hsearch h.selectedMatchIndex]
  by_cases hzero : position (history₀.walk tables logs query).length steps = 0
  · rw [if_pos hzero]
    simp only [hselected, Option.isSome_some, Bool.true_and]
    rw [hzero] at h hfound
    split_ifs with hexhausted
    · have hposition : position (history₀.walk tables logs query).length (.newer :: steps) = 0 := by
        rw [position, hzero]
      have hwalk := h.getElem?_walk hfound
      exact ⟨hcache, .inl ⟨(answer_boundary (hzero.symm ▸ hwalk) (hposition.trans hzero.symm)).symm,
        search, hsearch, hawaiting, .inr ⟨start, hposition.symm ▸ h⟩⟩⟩
    · have hhead : (history₀.matchesFrom tables logs query start).head? = some found := by
        rw [← h.knows.uniqueMatches, List.head?_eq_getElem?, hfound]
      rw [searchStartOffset_next, hselected, Option.bind_some]
      have hscans : ScansNewer tables logs query history₀ search (found.offset + 1) true
          (.newer :: steps) :=
        ⟨rfl, hzero, ⟨start, h⟩, fun o hle => eq_none_of_head? matchAt_offset hhead hle⟩
      exact (advanceSearch_newer hcache hsearch hscans).mono (Nat.sub_le _ _)
  · obtain ⟨next, hnext⟩ : ∃ next, search.uniqueMatches[
        position (history₀.walk tables logs query).length steps - 1]? = some next :=
      ⟨_, List.getElem?_eq_getElem (by omega)⟩
    rw [if_neg hzero, hnext]
    exact replies_cached hcache hsearch h hnext rfl (by omega)

theorem updateSearch_of_idle (hsearch : history.search = some search)
    (hawaiting : search.awaiting = none) :
    (history.updateSearch fun search => { search with awaiting := none }) = history := by
  have hsame : { search with awaiting := none } = search := by rw [← hawaiting]
  rw [updateSearch, hsearch, Option.map_some, hsame, ← hsearch]

theorem awaiting_of_idle (h : Idle tables logs query history₀ history steps) :
    history.awaiting = none := by
  obtain ⟨search, hsearch, hawaiting, -⟩ := h.state
  rw [awaiting, hsearch]
  exact hawaiting

/-- A search goes on with its query. -/
theorem all_query_ne (hsearch : history.search = some search) (hquery : search.query = query) :
    history.search.all (fun search => decide (search.query ≠ query)) = false := by
  rw [hsearch, Option.all_some, hquery]
  exact decide_eq_false (not_not.2 rfl)

/-- The next step of a search that has answered the others. -/
theorem searchStep_next (hcache : Caches logs history₀ history)
    (hidle : Idle tables logs query history₀ history steps) (direction : HistorySearchDirection) :
    Replies tables logs query history₀ (direction :: steps) history₀.totalEntries
      (history.searchStep tables query direction false) := by
  rw [searchStep]
  split_ifs with hempty
  · exact replies_empty hcache (hcache.totalEntries ▸ hempty) _
  · obtain ⟨search, hsearch, hawaiting, hstate⟩ := hidle.state
    have hquery : search.query = query := by
      rcases hstate with ⟨-, h⟩ | ⟨start, h⟩
      · exact h.knows.sameQuery
      · exact h.knows.sameQuery
    have hsame := updateSearch_of_idle hsearch hawaiting
    simp only [all_query_ne hsearch hquery, awaiting_of_idle hidle, hsame, Bool.not_false, Bool.true_and, Option.isSome_none,
      Bool.false_eq_true, if_false, Bool.or_false, if_true]
    rcases hstate with ⟨hwalk, hunselected⟩ | ⟨start, hselected⟩
    · exact stepFrom_unselected hcache hsearch hwalk hunselected direction
    · cases direction with
      | older => exact stepFrom_older hcache hsearch hawaiting hselected
      | newer => exact stepFrom_newer hcache hsearch hawaiting hselected

/-! ## The responses -/

theorem search_cacheEntry (entry : Option HistoryEntry) :
    (history.cacheEntry offset entry).search = history.search := by
  cases entry with
  | none => rfl
  | some entry => rfl

theorem cacheEntry_caches (hcache : Caches logs history₀ history) {logId : Nat}
    (hlog : history₀.historyLogId = some logId) (offset : Nat) :
    Caches logs history₀
      (history.cacheEntry offset ((logs logId offset).map HistoryEntry.new)) := by
  cases htext : logs logId offset with
  | none => exact hcache
  | some text =>
    refine ⟨hcache.logId, hcache.count, hcache.locals, hcache.log,
      fun offset' entry hlookup hlt => ?_⟩
    by_cases hsame : offset' = offset
    · subst hsame
      simp only [cacheEntry, Option.map_some, AList.lookup_insert, Option.some.injEq] at hlookup
      rw [entryAt, if_neg (Nat.not_le_of_lt hlt), hlog, Option.bind_some, htext, Option.map_some,
        hlookup]
    · simp only [cacheEntry, Option.map_some, AList.lookup_insert_ne hsame] at hlookup
      exact hcache.fetched offset' entry hlookup hlt

/-- The awaited entry goes on with the scan. -/
theorem replies_awaited {pending : PendingHistorySearch} {entry : Option HistoryEntry}
    (hcache : Caches logs history₀ history) (hsearch : history.search = some search)
    (hpending : pending.offset < history₀.historyEntryCount)
    (hscans : Scans tables logs query history₀ search pending steps)
    (hentry : history₀.entryAt logs pending.offset = entry) :
    Replies tables logs query history₀ steps (pending.left history₀.totalEntries - 1)
      (history.resumeSearch tables pending entry) := by
  have hlt : pending.offset < history₀.totalEntries :=
    Nat.lt_of_lt_of_le hpending (Nat.le_add_right _ _)
  rw [Scans] at hscans
  rw [resumeSearch]
  cases hdirection : pending.direction with
  | older =>
    rw [hdirection] at hscans
    have hleft : pending.left history₀.totalEntries - 1 = pending.offset := by
      rw [PendingHistorySearch.left, hdirection]
      rfl
    rw [hleft]
    have hon : history₀.matchesFrom tables logs query pending.offset =
          history₀.matchesFrom tables logs query (pending.offset + 1) →
        Replies tables logs query history₀ steps pending.offset
          (history.advanceSearchAfter tables pending.offset .older
            pending.boundaryIfExhausted) := fun hsame =>
      advanceSearch_older hcache hsearch (hscans.wait hsame search.awaiting) hlt.le
    cases entry with
    | none => exact hon (newest_of_none (matchAt_of_none hentry))
    | some entry =>
      have hnext := hscans.knows.next hsearch hlt hentry
      rw [Option.filter_some]
      split_ifs at hnext ⊢ with hfound
      · have hfound' : history₀.matchesFrom tables logs query
            (UniqueHistoryMatch.mk pending.offset entry).offset = _ := hnext
        exact searchMatch_replies hcache hsearch hscans hfound'
      · exact hon hnext
  | newer =>
    rw [hdirection] at hscans
    obtain ⟨⟨known, hknows⟩, hnone⟩ := hscans.knows
    have hleft : pending.left history₀.totalEntries - 1 =
        history₀.totalEntries - (pending.offset + 1) := by
      rw [PendingHistorySearch.left, hdirection]
      rfl
    have hfilter : (entry.filter fun entry =>
        history.searchMatches tables entry && history.searchResultIsUnique entry) = none := by
      cases entry with
      | none => rfl
      | some entry =>
        refine Option.filter_eq_none_iff.2 fun entry' hentry' hfound => ?_
        cases hentry'
        have hmatches := (hknows.searchMatches_iff hsearch).1 (Bool.and_eq_true_iff.1 hfound).1
        have hvalue := hnone pending.offset (Nat.le_refl _) hlt
        rw [matchAt_of_matches hentry hmatches] at hvalue
        cases hvalue
    rw [hleft, hfilter]
    exact advanceSearch_newer hcache hsearch (hscans.wait (Nat.le_succ _) search.awaiting)

theorem awaiting_of_suspended {pending : PendingHistorySearch}
    (h : Suspended tables logs query history₀ history steps pending) :
    history.awaiting = some pending := by
  obtain ⟨search, hsearch, hawaiting, -⟩ := h.state
  rw [awaiting, hsearch]
  exact hawaiting

/-- The response that a suspended step waits for goes on with the step. -/
theorem onEntryResponse_awaited {pending : PendingHistorySearch} {logId : Nat}
    (hcache : Caches logs history₀ history)
    (h : Suspended tables logs query history₀ history steps pending)
    (hlog : history₀.historyLogId = some logId) :
    ∃ reply : Reply HistorySearchResult,
      history.onEntryResponse tables logId pending.offset (logs logId pending.offset) =
        ⟨reply.history, reply.sent, .search reply.result⟩ ∧
      Replies tables logs query history₀ steps (pending.left history₀.totalEntries - 1) reply := by
  obtain ⟨search, hsearch, hawaiting, hscans⟩ := h.state
  have hentry : history₀.entryAt logs pending.offset =
      (logs logId pending.offset).map HistoryEntry.new := by
    rw [entryAt, if_neg (Nat.not_le_of_lt h.lt), hlog, Option.bind_some]
  refine ⟨_, ?_, replies_awaited (cacheEntry_caches hcache hlog pending.offset)
    ((search_cacheEntry _).trans hsearch) h.lt hscans hentry⟩
  have hwaits : (history.cacheEntry pending.offset
      ((logs logId pending.offset).map HistoryEntry.new)).awaiting = some pending := by
    rw [awaiting, search_cacheEntry]
    exact awaiting_of_suspended h
  rw [onEntryResponse, if_neg (by rw [hcache.logId]; exact not_not.2 hlog)]
  simp only [hwaits, if_true]

theorem respondNavigation_eq (history : ChatComposerHistory) (offset : Nat)
    (entry : Option HistoryEntry) :
    ∃ lastHistoryText response, history.respondNavigation offset entry =
        ⟨{ history with lastHistoryText }, none, response⟩ ∧
      ∀ result, response ≠ .search result := by
  unfold respondNavigation
  split_ifs
  · cases entry with
    | none => exact ⟨history.lastHistoryText, .ignored, rfl, nofun⟩
    | some entry => exact ⟨some entry.text, .found entry, rfl, nofun⟩
  · exact ⟨history.lastHistoryText, .ignored, rfl, nofun⟩

/-- Another response is cached or ignored. -/
theorem onEntryResponse_other (tables : CaseTables) {logId : Nat}
    (hcache : Caches logs history₀ history)
    (h : history₀.historyLogId = some logId →
      ∀ pending, history.awaiting = some pending → pending.offset ≠ offset) :
    ∃ history' response,
      history.onEntryResponse tables logId offset (logs logId offset) =
        ⟨history', none, response⟩ ∧
      (∀ result, response ≠ .search result) ∧ history'.search = history.search ∧
      Caches logs history₀ history' ∧
      ∀ offset', (history₀.historyLogId = some logId → offset' ≠ offset) →
        history'.fetchedHistory.lookup offset' = history.fetchedHistory.lookup offset' := by
  by_cases hlog : history.historyLogId = some logId
  · have hlog' : history₀.historyLogId = some logId := hcache.logId ▸ hlog
    have hcaches := cacheEntry_caches hcache hlog' offset
    generalize hentry : (logs logId offset).map HistoryEntry.new = entry at hcaches
    have hrespond : history.onEntryResponse tables logId offset (logs logId offset) =
        (history.cacheEntry offset entry).respondNavigation offset entry := by
      have hawaiting : (history.cacheEntry offset entry).awaiting = history.awaiting := by
        rw [awaiting, search_cacheEntry]
        rfl
      rw [onEntryResponse, if_neg (not_not.2 hlog)]
      simp only [hentry, hawaiting]
      cases hpending : history.awaiting with
      | none => rfl
      | some pending => exact if_neg (h hlog' pending hpending)
    obtain ⟨lastHistoryText, response, hresponse, hnot⟩ :=
      respondNavigation_eq (history.cacheEntry offset entry) offset entry
    refine ⟨_, response, hrespond.trans hresponse, hnot, search_cacheEntry _,
      { hcaches with },
      fun offset' hne => ?_⟩
    cases entry with
    | none => rfl
    | some entry => exact AList.lookup_insert_ne (hne hlog')
  · have hignored : history.onEntryResponse tables logId offset (logs logId offset) =
        ⟨history, none, .ignored⟩ := by
      rw [onEntryResponse, if_pos hlog]
    exact ⟨history, .ignored, hignored, nofun, rfl, hcache, fun _ _ => rfl⟩

end

end Mcodex.Tui.History
