import Mcodex.Lib.Newest
import Mcodex.Tui.ChatComposerHistory

/-!
# The scan for the next match

A search walks over the matches with distinct texts, the newest of each, from the newest to the
oldest (`walk`). The state of a search knows those from some offset on (`Knows`). A scan to older
offsets finds the next one, waits for an entry on the way to it, or finds that there is none
(`advanceSearchFrom_older`); a scan to newer offsets waits or finds nothing
(`advanceSearchFrom_newer`).
-/

namespace Mcodex.Tui.History

open FuzzyMatch Newest

variable (tables : CaseTables) (logs : Nat → Nat → Option (List Char)) (query : List Char)

def HistoryEntry.Matches (entry : HistoryEntry) : Prop :=
  query.isEmpty || decide (tables.toLowercase query <:+: tables.toLowercase entry.text)

instance (entry : HistoryEntry) : Decidable (entry.Matches tables query) :=
  inferInstanceAs (Decidable (_ = true))

namespace ChatComposerHistory

/-- The entry of an offset, fetched or not. -/
def entryAt (history : ChatComposerHistory) (offset : Nat) : Option HistoryEntry :=
  if history.historyEntryCount ≤ offset then
    history.localHistory[offset - history.historyEntryCount]?
  else history.historyLogId.bind fun logId => (logs logId offset).map HistoryEntry.new

def matchAt (history : ChatComposerHistory) (offset : Nat) : Option UniqueHistoryMatch :=
  ((history.entryAt logs offset).filter fun entry => entry.Matches tables query).map
    fun entry => { offset, entry }

/-- The matches from an offset on whose text no newer match has, the newest first. -/
def matchesFrom (history : ChatComposerHistory) (start : Nat) : List UniqueHistoryMatch :=
  newest (history.matchAt tables logs query) history.totalEntries (·.entry.text) (·.offset) start

/-- The matches with distinct texts, the newest first. -/
def walk (history : ChatComposerHistory) : List UniqueHistoryMatch :=
  history.matchesFrom tables logs query 0

/-- A history whose offsets have the entries of `history₀`, and which has fetched some of them. -/
structure Caches (history₀ history : ChatComposerHistory) : Prop where
  logId : history.historyLogId = history₀.historyLogId
  count : history.historyEntryCount = history₀.historyEntryCount
  locals : history.localHistory = history₀.localHistory
  log : history₀.historyLogId = none → history₀.historyEntryCount = 0
  fetched : ∀ offset entry, history.fetchedHistory.lookup offset = some entry →
    offset < history₀.historyEntryCount → history₀.entryAt logs offset = some entry

end ChatComposerHistory

open ChatComposerHistory

/-- What a search knows that has scanned the offsets from `start` on. -/
structure HistorySearchState.Knows (search : HistorySearchState) (history₀ : ChatComposerHistory)
    (start : Nat) : Prop where
  sameQuery : search.query = query
  queryLower : search.queryLower = tables.toLowercase query
  uniqueMatches : search.uniqueMatches = history₀.matchesFrom tables logs query start
  seenTexts : ∀ text, text ∈ search.seenTexts ↔
    text ∈ (history₀.matchesFrom tables logs query start).map (·.entry.text)

section
variable {tables logs query} {history history₀ : ChatComposerHistory} {search : HistorySearchState}
  {offset start : Nat} {entry : HistoryEntry} {found : UniqueHistoryMatch} {boundary : Bool}

/-! ## Entries -/

theorem matchAt_offset (o : Nat) (found : UniqueHistoryMatch)
    (h : history₀.matchAt tables logs query o = some found) : found.offset = o := by
  obtain ⟨entry, -, rfl⟩ := Option.map_eq_some_iff.1 h
  rfl

theorem matchAt_of_matches (hentry : history₀.entryAt logs offset = some entry)
    (h : entry.Matches tables query) :
    history₀.matchAt tables logs query offset = some { offset, entry } := by
  rw [matchAt, hentry, Option.filter_some, if_pos (decide_eq_true h)]
  rfl

theorem matchAt_of_not_matches (hentry : history₀.entryAt logs offset = some entry)
    (h : ¬ entry.Matches tables query) : history₀.matchAt tables logs query offset = none := by
  rw [matchAt, hentry, Option.filter_some, if_neg (by simpa using h)]
  rfl

theorem matchAt_of_none (hentry : history₀.entryAt logs offset = none) :
    history₀.matchAt tables logs query offset = none := by
  rw [matchAt, hentry]
  rfl

theorem ChatComposerHistory.Caches.totalEntries (h : Caches logs history₀ history) :
    history.totalEntries = history₀.totalEntries := by
  rw [ChatComposerHistory.totalEntries, h.count, h.locals]
  rfl

/-- A cached entry is the entry of the offset. -/
theorem ChatComposerHistory.Caches.entryAt_of_some (h : Caches logs history₀ history)
    (hcached : history.entryAtCachedOffset offset = some entry) :
    history₀.entryAt logs offset = some entry := by
  rw [entryAtCachedOffset, h.count, h.locals] at hcached
  split_ifs at hcached with hle
  · rw [entryAt, if_pos hle, hcached]
  · exact h.fetched offset entry hcached (Nat.lt_of_not_le hle)

/-- What is not cached is an entry of the persistent log. -/
theorem ChatComposerHistory.Caches.lt_of_none (h : Caches logs history₀ history)
    (hlt : offset < history₀.totalEntries)
    (hcached : history.entryAtCachedOffset offset = none) :
    offset < history₀.historyEntryCount := by
  rw [entryAtCachedOffset, h.count, h.locals] at hcached
  split_ifs at hcached with hle
  · rw [List.getElem?_eq_none_iff] at hcached
    rw [ChatComposerHistory.totalEntries] at hlt
    omega
  · exact Nat.lt_of_not_le hle

/-! ## One offset -/

theorem HistorySearchState.Knows.searchMatches_iff
    (h : search.Knows tables logs query history₀ start) (hsearch : history.search = some search) :
    history.searchMatches tables entry = true ↔ entry.Matches tables query := by
  rw [searchMatches, hsearch]
  simp only [h.sameQuery, h.queryLower]
  rfl

theorem HistorySearchState.Knows.searchResultIsUnique_iff
    (h : search.Knows tables logs query history₀ start) (hsearch : history.search = some search) :
    history.searchResultIsUnique entry = true ↔
      entry.text ∉ (history₀.matchesFrom tables logs query start).map (·.entry.text) := by
  rw [searchResultIsUnique, hsearch]
  simp only [decide_eq_true_eq, h.seenTexts]

/-- The entry of the next older offset, once it is known, is the next match or adds none. -/
theorem HistorySearchState.Knows.next (h : search.Knows tables logs query history₀ (offset + 1))
    (hsearch : history.search = some search) (hlt : offset < history₀.totalEntries)
    (hentry : history₀.entryAt logs offset = some entry) :
    if history.searchMatches tables entry && history.searchResultIsUnique entry then
      history₀.matchesFrom tables logs query offset =
        history₀.matchesFrom tables logs query (offset + 1) ++ [⟨offset, entry⟩]
    else history₀.matchesFrom tables logs query offset =
      history₀.matchesFrom tables logs query (offset + 1) := by
  by_cases hmatches : entry.Matches tables query
  · have hvalue := matchAt_of_matches hentry hmatches
    by_cases hunique :
        entry.text ∉ (history₀.matchesFrom tables logs query (offset + 1)).map (·.entry.text)
    · rw [if_pos (by rw [(h.searchMatches_iff hsearch).2 hmatches,
        (h.searchResultIsUnique_iff hsearch).2 hunique]; rfl)]
      exact newest_of_new matchAt_offset hlt hvalue hunique
    · rw [if_neg fun hboth => hunique
        ((h.searchResultIsUnique_iff hsearch).1 (Bool.and_eq_true_iff.1 hboth).2)]
      exact newest_of_old matchAt_offset hlt hvalue (not_not.1 hunique)
  · rw [if_neg fun hboth => hmatches
      ((h.searchMatches_iff hsearch).1 (Bool.and_eq_true_iff.1 hboth).1)]
    exact newest_of_none (matchAt_of_not_matches hentry hmatches)

/-- The scan waits for an entry. -/
def ChatComposerHistory.await (history : ChatComposerHistory) (pending : PendingHistorySearch) :
    ChatComposerHistory :=
  history.updateSearch fun search => { search with awaiting := some pending }

/-- A scan waits for an entry that is not fetched and that it requests. -/
def Waits (history₀ history : ChatComposerHistory) (pending : PendingHistorySearch)
    (reply : Reply HistorySearchResult) : Prop :=
  pending.offset < history₀.historyEntryCount ∧
    history.fetchedHistory.lookup pending.offset = none ∧
    ∃ logId, history₀.historyLogId = some logId ∧
      reply = ⟨history.await pending, some ⟨pending.offset, logId⟩, .pending⟩

theorem Waits.result {pending : PendingHistorySearch} {reply : Reply HistorySearchResult}
    (h : Waits history₀ history pending reply) : reply.result = .pending := by
  obtain ⟨-, -, logId, -, rfl⟩ := h
  rfl

theorem visitOffset_of_none {direction : HistorySearchDirection}
    (hcache : Caches logs history₀ history) (hlt : offset < history₀.totalEntries)
    (hcached : history.entryAtCachedOffset offset = none) :
    ∃ reply, history.visitOffset tables offset direction boundary = some reply ∧
      Waits history₀ history ⟨offset, direction, boundary⟩ reply := by
  have hcount := hcache.lt_of_none hlt hcached
  have hlookup : history.fetchedHistory.lookup offset = none := by
    rwa [entryAtCachedOffset, if_neg (by rw [hcache.count]; omega)] at hcached
  obtain ⟨logId, hlog⟩ : ∃ logId, history₀.historyLogId = some logId := by
    refine Option.ne_none_iff_exists'.1 fun hnone => ?_
    have hzero := hcache.log hnone
    omega
  rw [visitOffset, hcached]
  simp only [hcache.count, hcache.logId, hlog, if_pos hcount]
  exact ⟨_, rfl, hcount, hlookup, logId, hlog, rfl⟩

/-- A scan to older offsets visits an offset. -/
theorem visitOffset_older (hcache : Caches logs history₀ history)
    (hsearch : history.search = some search)
    (h : search.Knows tables logs query history₀ (offset + 1))
    (hlt : offset < history₀.totalEntries) :
    (∃ found, history₀.matchesFrom tables logs query found.offset =
        history₀.matchesFrom tables logs query (offset + 1) ++ [found] ∧
      history.visitOffset tables offset .older boundary =
        some (history.searchMatch found.offset found.entry)) ∨
    (∃ reply, history.visitOffset tables offset .older boundary = some reply ∧
      Waits history₀ history ⟨offset, .older, boundary⟩ reply) ∨
    (history.visitOffset tables offset .older boundary = none ∧
      history₀.matchesFrom tables logs query offset =
        history₀.matchesFrom tables logs query (offset + 1)) := by
  cases hcached : history.entryAtCachedOffset offset with
  | none => exact .inr (.inl (visitOffset_of_none hcache hlt hcached))
  | some entry =>
    have hnext := h.next hsearch hlt (hcache.entryAt_of_some hcached)
    rw [visitOffset, hcached]
    simp only
    split_ifs at hnext ⊢ with hfound
    · exact .inl ⟨⟨offset, entry⟩, hnext, rfl⟩
    · exact .inr (.inr ⟨rfl, hnext⟩)

/-! ## The scan -/

theorem advanceSearchFrom_older (boundary : Bool) (hcache : Caches logs history₀ history)
    (hsearch : history.search = some search)
    (h : search.Knows tables logs query history₀ (offset + 1))
    (hlt : offset < history₀.totalEntries) :
    (∃ found, history₀.matchesFrom tables logs query found.offset =
        history₀.matchesFrom tables logs query (offset + 1) ++ [found] ∧
      history.advanceSearchFrom tables offset .older boundary =
        history.searchMatch found.offset found.entry) ∨
    (∃ p, p ≤ offset ∧ history₀.matchesFrom tables logs query (p + 1) =
        history₀.matchesFrom tables logs query (offset + 1) ∧
      Waits history₀ history ⟨p, .older, boundary⟩
        (history.advanceSearchFrom tables offset .older boundary)) ∨
    (history₀.walk tables logs query = history₀.matchesFrom tables logs query (offset + 1) ∧
      history.advanceSearchFrom tables offset .older boundary = ⟨history, none, .notFound⟩) := by
  induction offset with
  | zero =>
    rw [advanceSearchFrom, if_pos (hcache.totalEntries ▸ hlt)]
    rcases visitOffset_older hcache hsearch h hlt with ⟨found, hknown, hvisit⟩ |
      ⟨reply, hvisit, hwaits⟩ | ⟨hvisit, hknown⟩
    · rw [hvisit]
      exact .inl ⟨found, hknown, rfl⟩
    · rw [hvisit]
      exact .inr (.inl ⟨0, Nat.le_refl _, rfl, hwaits⟩)
    · rw [hvisit]
      exact .inr (.inr ⟨hknown, rfl⟩)
  | succ offset ih =>
    rw [advanceSearchFrom, if_pos (hcache.totalEntries ▸ hlt)]
    rcases visitOffset_older hcache hsearch h hlt with ⟨found, hknown, hvisit⟩ |
      ⟨reply, hvisit, hwaits⟩ | ⟨hvisit, hknown⟩
    · rw [hvisit]
      exact .inl ⟨found, hknown, rfl⟩
    · rw [hvisit]
      exact .inr (.inl ⟨offset + 1, Nat.le_refl _, rfl, hwaits⟩)
    · rw [hvisit, ← hknown]
      have hrest := ih { h with
        uniqueMatches := h.uniqueMatches.trans hknown.symm
        seenTexts := hknown ▸ h.seenTexts } (Nat.lt_of_succ_lt hlt)
      exact hrest.imp_right (.imp_left fun ⟨p, hle, hwaits⟩ => ⟨p, Nat.le_succ_of_le hle, hwaits⟩)

/-- Beyond the newest match a scan waits or ends. -/
theorem advanceSearchFrom_newer (boundary : Bool) (hcache : Caches logs history₀ history)
    (hsearch : history.search = some search)
    (h : search.Knows tables logs query history₀ start)
    (hnone : ∀ o, offset ≤ o → o < history₀.totalEntries →
      history₀.matchAt tables logs query o = none) :
    (∃ p, offset ≤ p ∧ Waits history₀ history ⟨p, .newer, boundary⟩
      (history.advanceSearchFrom tables offset .newer boundary)) ∨
    history.advanceSearchFrom tables offset .newer boundary = ⟨history, none, .notFound⟩ := by
  induction hn : history₀.totalEntries - offset generalizing offset with
  | zero =>
    rw [advanceSearchFrom, if_neg (by rw [hcache.totalEntries]; omega)]
    exact .inr rfl
  | succ n ih =>
    have hlt : offset < history₀.totalEntries := by omega
    rw [advanceSearchFrom, if_pos (hcache.totalEntries ▸ hlt)]
    cases hcached : history.entryAtCachedOffset offset with
    | none =>
      obtain ⟨reply, hvisit, hwaits⟩ := visitOffset_of_none hcache hlt hcached
      rw [hvisit]
      exact .inl ⟨offset, Nat.le_refl _, hwaits⟩
    | some entry =>
      have hvisit : history.visitOffset tables offset .newer boundary = none := by
        rw [visitOffset, hcached]
        refine if_neg fun hfound => ?_
        have hmatches := (h.searchMatches_iff hsearch).1 (Bool.and_eq_true_iff.1 hfound).1
        have hvalue := matchAt_of_matches (hcache.entryAt_of_some hcached) hmatches
        rw [hnone offset (Nat.le_refl _) hlt] at hvalue
        cases hvalue
      rw [hvisit]
      simp only
      split
      · next next hnext =>
        rw [nextOffset] at hnext
        split_ifs at hnext
        cases hnext
        rcases ih (fun o ho => hnone o (Nat.le_of_succ_le ho)) (by omega) with
          ⟨p, hp, hwaits⟩ | hend
        · exact .inl ⟨p, Nat.le_of_succ_le hp, hwaits⟩
        · exact .inr hend
      · exact .inr rfl

end

end Mcodex.Tui.History
