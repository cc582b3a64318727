import Mathlib.Data.Finset.Insert
import Mathlib.Data.List.AList
import Mathlib.Data.List.Infix
import Mcodex.FuzzyMatch.Lowercase
import Mcodex.Tui.MentionCodec

/-!
# The history of the composer

The composer recalls what was submitted before: the entries of the persistent log, which are fetched
when they are first needed, and after them those of the session. One offset counts both. Up and down
navigate the entries one by one. The incremental search goes from match to match and waits where an
entry is not fetched yet; the response goes on with the scan.
-/

namespace Mcodex.Tui.History

open FuzzyMatch

structure TextElement where
  byteRange : Nat × Nat
  placeholder : Option (List Char)
deriving DecidableEq

structure MentionBinding where
  mention : List Char
  path : List Char
deriving DecidableEq

structure HistoryEntry where
  text : List Char
  textElements : List TextElement
  localImagePaths : List (List Char)
  remoteImageUrls : List (List Char)
  mentionBindings : List MentionBinding
  pendingPastes : List (List Char × List Char)
deriving DecidableEq

/-- An entry of the persistent log, whose text has the mentions encoded. -/
def HistoryEntry.new (text : List Char) : HistoryEntry :=
  let decoded := decodeHistoryMentions text
  { text := decoded.text
    textElements := []
    localImagePaths := []
    remoteImageUrls := []
    mentionBindings := decoded.mentions.map fun mention =>
      { mention := mention.mention, path := mention.path }
    pendingPastes := [] }

/-- Nothing was submitted. -/
def HistoryEntry.isEmpty (entry : HistoryEntry) : Bool :=
  entry.text.isEmpty && entry.textElements.isEmpty && entry.localImagePaths.isEmpty &&
    entry.remoteImageUrls.isEmpty && entry.mentionBindings.isEmpty && entry.pendingPastes.isEmpty

inductive HistorySearchDirection
  | older
  | newer
deriving DecidableEq

inductive HistorySearchResult
  | found (entry : HistoryEntry)
  | pending
  | atBoundary
  | notFound
deriving DecidableEq

inductive HistoryEntryResponse
  | found (entry : HistoryEntry)
  | search (result : HistorySearchResult)
  | ignored

/-- The lookup that a scan waits for. -/
structure PendingHistorySearch where
  offset : Nat
  direction : HistorySearchDirection
  boundaryIfExhausted : Bool

structure UniqueHistoryMatch where
  offset : Nat
  entry : HistoryEntry

/-- `Op::GetHistoryEntryRequest`. -/
structure GetHistoryEntryRequest where
  offset : Nat
  logId : Nat

structure HistorySearchState where
  query : List Char
  queryLower : List Char
  selectedOffset : Option Nat
  uniqueMatches : List UniqueHistoryMatch
  selectedMatchIndex : Option Nat
  seenTexts : Finset (List Char)
  awaiting : Option PendingHistorySearch
  exhaustedOlder : Bool
  exhaustedNewer : Bool

structure ChatComposerHistory where
  historyLogId : Option Nat
  historyEntryCount : Nat
  localHistory : List HistoryEntry
  fetchedHistory : AList fun _ : Nat => HistoryEntry
  historyCursor : Option Nat
  lastHistoryText : Option (List Char)
  search : Option HistorySearchState

/-- What a call leaves, the request that it sends and what it returns. -/
structure Reply (ρ : Type) where
  history : ChatComposerHistory
  sent : Option GetHistoryEntryRequest
  result : ρ

/-! ## The state of a search -/

namespace HistorySearchState

def new (tables : CaseTables) (query : List Char) : HistorySearchState where
  query := query
  queryLower := tables.toLowercase query
  selectedOffset := none
  uniqueMatches := []
  selectedMatchIndex := none
  seenTexts := ∅
  awaiting := none
  exhaustedOlder := false
  exhaustedNewer := false

variable (search : HistorySearchState)

def isExhausted : HistorySearchDirection → Bool
  | .older => search.exhaustedOlder
  | .newer => search.exhaustedNewer

def markExhausted : HistorySearchDirection → HistorySearchState
  | .older => { search with exhaustedOlder := true }
  | .newer => { search with exhaustedNewer := true }

def selectMatch (index : Nat) : HistorySearchState :=
  match search.uniqueMatches[index]? with
  | none => search
  | some historyMatch =>
    { search with
      selectedOffset := some historyMatch.offset
      selectedMatchIndex := some index
      awaiting := none
      exhaustedOlder := false
      exhaustedNewer := false }

/-- The next one of the matches found before. -/
def nextMatchIndex (direction : HistorySearchDirection) : Option Nat :=
  search.selectedMatchIndex.bind fun selectedIndex =>
    match direction with
    | .older =>
      if selectedIndex + 1 < search.uniqueMatches.length then some (selectedIndex + 1) else none
    | .newer => if selectedIndex = 0 then none else some (selectedIndex - 1)

/-- `partition_point` is where the newer matches end. -/
def recordMatch (offset : Nat) (entry : HistoryEntry) : HistorySearchState :=
  match search.uniqueMatches.findIdx? fun historyMatch => historyMatch.offset = offset with
  | some index => search.selectMatch index
  | none =>
    let insertIndex :=
      (search.uniqueMatches.takeWhile fun historyMatch => offset < historyMatch.offset).length
    { search with
      seenTexts := insert entry.text search.seenTexts
      uniqueMatches :=
        search.uniqueMatches.insertIdx insertIndex { offset, entry } }.selectMatch insertIndex

end HistorySearchState

/-! ## The history -/

namespace ChatComposerHistory

def new : ChatComposerHistory where
  historyLogId := none
  historyEntryCount := 0
  localHistory := []
  fetchedHistory := ∅
  historyCursor := none
  lastHistoryText := none
  search := none

variable (tables : CaseTables) (history : ChatComposerHistory)

def setMetadata (logId entryCount : Nat) : ChatComposerHistory :=
  { new with historyLogId := some logId, historyEntryCount := entryCount }

def resetNavigation : ChatComposerHistory :=
  { history with historyCursor := none, lastHistoryText := none, search := none }

def resetSearch : ChatComposerHistory := { history with search := none }

def recordLocalSubmission (entry : HistoryEntry) : ChatComposerHistory :=
  if entry.isEmpty then history
  else
    let history := history.resetNavigation
    if history.localHistory.getLast? = some entry then history
    else { history with localHistory := history.localHistory ++ [entry] }

def totalEntries : Nat := history.historyEntryCount + history.localHistory.length

def populateHistoryAtIndex (globalIdx : Nat) : Reply (Option HistoryEntry) :=
  if history.historyEntryCount ≤ globalIdx then
    match history.localHistory[globalIdx - history.historyEntryCount]? with
    | some entry => ⟨{ history with lastHistoryText := some entry.text }, none, some entry⟩
    | none => ⟨history, none, none⟩
  else
    match history.fetchedHistory.lookup globalIdx with
    | some entry => ⟨{ history with lastHistoryText := some entry.text }, none, some entry⟩
    | none => ⟨history, history.historyLogId.map fun logId => ⟨globalIdx, logId⟩, none⟩

def navigateUp : Reply (Option HistoryEntry) :=
  let history := history.resetSearch
  if history.totalEntries = 0 then ⟨history, none, none⟩
  else
    match history.historyCursor with
    | some 0 => ⟨history, none, none⟩
    | some (idx + 1) => { history with historyCursor := some idx }.populateHistoryAtIndex idx
    | none =>
      let last := history.totalEntries - 1
      { history with historyCursor := some last }.populateHistoryAtIndex last

def navigateDown : Reply (Option HistoryEntry) :=
  let history := history.resetSearch
  if history.totalEntries = 0 then ⟨history, none, none⟩
  else
    match history.historyCursor with
    | none => ⟨history, none, none⟩
    | some idx =>
      if history.totalEntries ≤ idx + 1 then
        ⟨{ history with historyCursor := none, lastHistoryText := none }, none, some (.new [])⟩
      else { history with historyCursor := some (idx + 1) }.populateHistoryAtIndex (idx + 1)

/-- A response to a lookup of the navigation. -/
def respondNavigation (offset : Nat) (entry : Option HistoryEntry) : Reply HistoryEntryResponse :=
  if history.historyCursor = some offset then
    match entry with
    | some entry => ⟨{ history with lastHistoryText := some entry.text }, none, .found entry⟩
    | none => ⟨history, none, .ignored⟩
  else ⟨history, none, .ignored⟩

/-! ## The search -/

/-- The search state that is there is changed. -/
def updateSearch (f : HistorySearchState → HistorySearchState) : ChatComposerHistory :=
  { history with search := history.search.map f }

def awaiting : Option PendingHistorySearch := history.search.bind (·.awaiting)

/-- The next offset in a direction. -/
def nextOffset (offset : Nat) : HistorySearchDirection → Option Nat
  | .older => if offset = 0 then none else some (offset - 1)
  | .newer => if offset + 1 < history.totalEntries then some (offset + 1) else none

def searchStartOffset (direction : HistorySearchDirection) (restart : Bool) : Option Nat :=
  if restart then
    match direction with
    | .older => if history.totalEntries = 0 then none else some (history.totalEntries - 1)
    | .newer => some 0
  else
    (history.search.bind (·.selectedOffset)).bind fun offset => history.nextOffset offset direction

def entryAtCachedOffset (offset : Nat) : Option HistoryEntry :=
  if history.historyEntryCount ≤ offset then
    history.localHistory[offset - history.historyEntryCount]?
  else history.fetchedHistory.lookup offset

def searchMatches (entry : HistoryEntry) : Bool :=
  match history.search with
  | none => false
  | some search =>
    search.query.isEmpty || decide (search.queryLower <:+: tables.toLowercase entry.text)

def searchResultIsUnique (entry : HistoryEntry) : Bool :=
  match history.search with
  | none => true
  | some search => entry.text ∉ search.seenTexts

def searchMatch (offset : Nat) (entry : HistoryEntry) : Reply HistorySearchResult where
  history :=
    { history with
      historyCursor := some offset
      lastHistoryText := some entry.text }.updateSearch fun search =>
        { { search with selectedOffset := some offset }.recordMatch offset entry with
          awaiting := none
          exhaustedOlder := false
          exhaustedNewer := false }
  sent := none
  result := .found entry

def selectCachedUniqueMatch (direction : HistorySearchDirection) :
    Option (Reply HistorySearchResult) := do
  let search ← history.search
  let nextIndex ← search.nextMatchIndex direction
  let historyMatch ← search.uniqueMatches[nextIndex]?
  some
    { history :=
        { history with
          historyCursor := some historyMatch.offset
          lastHistoryText := some historyMatch.entry.text }.updateSearch (·.selectMatch nextIndex)
      sent := none
      result := .found historyMatch.entry }

def exhaustedSearchResult (direction : HistorySearchDirection) (boundaryIfExhausted : Bool) :
    Reply HistorySearchResult where
  history := history.updateSearch fun search =>
    let search := { search with awaiting := none }
    if boundaryIfExhausted then search.markExhausted direction else search
  sent := none
  result := if boundaryIfExhausted then .atBoundary else .notFound

/-- The offsets that a scan has still to visit. -/
def remaining (offset : Nat) : HistorySearchDirection → Nat
  | .older => offset
  | .newer => history.totalEntries - offset

theorem remaining_lt {offset next : Nat} {direction : HistorySearchDirection}
    (h : history.nextOffset offset direction = some next) :
    history.remaining next direction < history.remaining offset direction := by
  cases direction with
  | older =>
    rw [nextOffset] at h
    split_ifs at h with hzero
    cases h
    exact Nat.sub_lt (Nat.pos_of_ne_zero hzero) Nat.one_pos
  | newer =>
    rw [nextOffset] at h
    split_ifs at h with hlt
    cases h
    rw [remaining, remaining]
    omega

/-- What ends a scan at an offset: a match, or an entry that is not fetched yet. -/
def visitOffset (offset : Nat) (direction : HistorySearchDirection) (boundaryIfExhausted : Bool) :
    Option (Reply HistorySearchResult) :=
  match history.entryAtCachedOffset offset with
  | some entry =>
    if history.searchMatches tables entry && history.searchResultIsUnique entry then
      some (history.searchMatch offset entry)
    else none
  | none =>
    if offset < history.historyEntryCount then
      history.historyLogId.map fun logId =>
        { history := history.updateSearch fun search =>
            { search with awaiting := some { offset, direction, boundaryIfExhausted } }
          sent := some { offset, logId }
          result := .pending }
    else none

def advanceSearchFrom (offset : Nat) (direction : HistorySearchDirection)
    (boundaryIfExhausted : Bool) : Reply HistorySearchResult :=
  if offset < history.totalEntries then
    match history.visitOffset tables offset direction boundaryIfExhausted with
    | some reply => reply
    | none =>
      match _ : history.nextOffset offset direction with
      | some next => advanceSearchFrom next direction boundaryIfExhausted
      | none => ⟨history, none, .notFound⟩
  else ⟨history, none, .notFound⟩
termination_by history.remaining offset direction
decreasing_by exact history.remaining_lt ‹_›

/-- A scan from an offset on, which there may not be. -/
def advanceSearch (start : Option Nat) (direction : HistorySearchDirection)
    (boundaryIfExhausted : Bool) : Reply HistorySearchResult :=
  match start with
  | none => history.exhaustedSearchResult direction boundaryIfExhausted
  | some offset =>
    let reply := history.advanceSearchFrom tables offset direction boundaryIfExhausted
    if reply.result = .notFound then
      reply.history.exhaustedSearchResult direction boundaryIfExhausted
    else reply

def advanceSearchAfter (offset : Nat) (direction : HistorySearchDirection)
    (boundaryIfExhausted : Bool) : Reply HistorySearchResult :=
  history.advanceSearch tables (history.nextOffset offset direction) direction boundaryIfExhausted

/-- `ChatComposerHistory::search`. -/
def searchStep (query : List Char) (direction : HistorySearchDirection) (restart : Bool) :
    Reply HistorySearchResult :=
  if history.totalEntries = 0 then
    ⟨{ history with search := some (.new tables query) }, none, .notFound⟩
  else
    let queryChanged := history.search.all fun search => search.query ≠ query
    if !queryChanged && !restart && history.awaiting.isSome then ⟨history, none, .pending⟩
    else
      let history :=
        if queryChanged || restart then { history with search := some (.new tables query) }
        else history.updateSearch fun search => { search with awaiting := none }
      let boundaryIfExhausted :=
        !restart && (history.search.bind (·.selectedOffset)).isSome
      match if !restart && !queryChanged then history.selectCachedUniqueMatch direction else none
        with
      | some reply => reply
      | none =>
        if boundaryIfExhausted && history.search.any (·.isExhausted direction) then
          ⟨history, none, .atBoundary⟩
        else
          history.advanceSearch tables
            (history.searchStartOffset direction (queryChanged || restart)) direction
            boundaryIfExhausted

def cacheEntry (offset : Nat) (entry : Option HistoryEntry) : ChatComposerHistory :=
  match entry with
  | some entry => { history with fetchedHistory := history.fetchedHistory.insert offset entry }
  | none => history

/-- The scan goes on from the entry that it waited for. -/
def resumeSearch (pending : PendingHistorySearch) (entry : Option HistoryEntry) :
    Reply HistorySearchResult :=
  match entry.filter fun entry =>
      history.searchMatches tables entry && history.searchResultIsUnique entry with
  | some entry => history.searchMatch pending.offset entry
  | none =>
    history.advanceSearchAfter tables pending.offset pending.direction pending.boundaryIfExhausted

def onEntryResponse (logId offset : Nat) (entry : Option (List Char)) :
    Reply HistoryEntryResponse :=
  if history.historyLogId ≠ some logId then ⟨history, none, .ignored⟩
  else
    let entry := entry.map HistoryEntry.new
    let history := history.cacheEntry offset entry
    match history.awaiting with
    | some pending =>
      if pending.offset = offset then
        let reply := history.resumeSearch tables pending entry
        ⟨reply.history, reply.sent, .search reply.result⟩
      else history.respondNavigation offset entry
    | none => history.respondNavigation offset entry

end ChatComposerHistory

end Mcodex.Tui.History
