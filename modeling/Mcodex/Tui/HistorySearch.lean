import Mcodex.Lib.Transition
import Mcodex.Tui.HistorySteps

/-!
# Incremental search

A session of steps towards older and newer entries shows what a walk over the matches with distinct
texts shows, whatever is fetched and in whatever order the responses arrive. While a step waits the
next ones change nothing, and the responses to what it has requested answer it
(`searchSession_spec`).
-/

namespace Mcodex.Tui.History

open FuzzyMatch Newest ChatComposerHistory Transition

/-! ## Histories -/

inductive HistoryOp
  | setMetadata (logId entryCount : Nat)
  | recordLocalSubmission (entry : HistoryEntry)
  | resetNavigation
  | resetSearch
  | navigateUp
  | navigateDown
  | respond (logId offset : Nat)
  | search (query : List Char) (direction : HistorySearchDirection) (restart : Bool)

section
variable (tables : CaseTables) (logs : Nat → Nat → Option (List Char))

/-- A response has the entry of its log, if there is one. -/
def HistoryOp.apply (history : ChatComposerHistory) : HistoryOp → ChatComposerHistory
  | setMetadata logId entryCount => ChatComposerHistory.setMetadata logId entryCount
  | recordLocalSubmission entry => history.recordLocalSubmission entry
  | resetNavigation => history.resetNavigation
  | resetSearch => history.resetSearch
  | navigateUp => history.navigateUp.history
  | navigateDown => history.navigateDown.history
  | respond logId offset =>
    (history.onEntryResponse tables logId offset (logs logId offset)).history
  | search query direction restart => (history.searchStep tables query direction restart).history

def histories : System ChatComposerHistory HistoryOp where
  init history := history = .new
  step history op history' := history' = op.apply tables logs history

/-! ## Sessions -/

/-- A search and what is seen of it. The last step is first, and so is the last result. -/
structure SearchSession where
  history : ChatComposerHistory
  /-- The steps that did not find another one pending. -/
  steps : List HistorySearchDirection
  /-- The results that are not `Pending`. -/
  shown : List HistorySearchResult
  pending : Bool
  requested : List GetHistoryEntryRequest

inductive SearchEvent
  | step (direction : HistorySearchDirection)
  | respond (logId offset : Nat)

namespace SearchSession

def observe (session : SearchSession) (reply : Reply HistorySearchResult) : SearchSession where
  history := reply.history
  steps := session.steps
  shown := if reply.result = .pending then session.shown else reply.result :: session.shown
  pending := decide (reply.result = .pending)
  requested := reply.sent.toList ++ session.requested

variable (query : List Char)

/-- The search begins with its newest match. -/
def start (history : ChatComposerHistory) : SearchSession :=
  { history, steps := [], shown := [], pending := false, requested := [] : SearchSession }.observe
    (history.searchStep tables query .older true)

def apply (session : SearchSession) : SearchEvent → SearchSession
  | .step direction =>
    { session with
      steps := if session.pending then session.steps else direction :: session.steps }.observe
      (session.history.searchStep tables query direction false)
  | .respond logId offset =>
    let reply := session.history.onEntryResponse tables logId offset (logs logId offset)
    match reply.result with
    | .search result => session.observe ⟨reply.history, reply.sent, result⟩
    | _ =>
      { session with
        history := reply.history
        requested := reply.sent.toList ++ session.requested }

end SearchSession

/-- The sessions of a query that begin in a history. -/
def searching (query : List Char) (history : ChatComposerHistory) :
    System SearchSession SearchEvent where
  init session := session = .start tables query history
  step session event session' := session' = session.apply tables logs query event

/-- A response to what was requested. -/
def Answers (session : SearchSession) : SearchEvent → Prop
  | .step _ => False
  | .respond logId offset => ⟨offset, logId⟩ ∈ session.requested

/-- The answers to all steps. The last one is first. -/
def answers (walk : List UniqueHistoryMatch) :
    List HistorySearchDirection → List HistorySearchResult
  | [] => [answer walk []]
  | direction :: steps => answer walk (direction :: steps) :: answers walk steps

/-- A list has every match whose text no newer match has, once, from the newest to the oldest. -/
structure IsWalk (query : List Char) (history : ChatComposerHistory)
    (walk : List UniqueHistoryMatch) : Prop where
  ordered : walk.Pairwise fun a b => b.offset < a.offset ∧ a.entry.text ≠ b.entry.text
  mem_iff : ∀ found, found ∈ walk ↔ found.offset < history.totalEntries ∧
    history.matchAt tables logs query found.offset = some found ∧
    ∀ newer, found.offset < newer.offset → newer.offset < history.totalEntries →
      history.matchAt tables logs query newer.offset = some newer →
      newer.entry.text ≠ found.entry.text

/-- What is seen of a search is a walk over the matches of `history`. -/
structure SearchSession.Follows (query : List Char) (history : ChatComposerHistory)
    (session : SearchSession) : Prop where
  /-- The steps are answered, but for one that waits. -/
  shown : session.shown =
    if session.pending then (answers (history.walk tables logs query) session.steps).tail
    else answers (history.walk tables logs query) session.steps
  /-- The selected match is where the walk is. -/
  selected : session.pending = false →
    session.history.search.bind (·.selectedOffset) =
      ((history.walk tables logs query)[
        position (history.walk tables logs query).length session.steps]?).map (·.offset)
  /-- While a step waits another one changes nothing. -/
  held : session.pending = true → ∀ direction,
    session.history.searchStep tables query direction false = ⟨session.history, none, .pending⟩
  /-- A step waits for what is not fetched. -/
  fetched : (∀ offset < history.historyEntryCount,
    (session.history.fetchedHistory.lookup offset).isSome) → session.pending = false
  /-- The responses to what is requested answer the step. -/
  answered : ∃ last, ((searching tables logs query history).restrict Answers).Run session last ∧
    last.pending = false ∧ last.steps = session.steps

end

/-! ## What is fetched -/

/-- What is fetched is of the log. -/
structure Consistent (logs : Nat → Nat → Option (List Char)) (history : ChatComposerHistory) :
    Prop where
  log : history.historyLogId = none → history.historyEntryCount = 0
  fetched : ∀ offset entry, history.fetchedHistory.lookup offset = some entry →
    (history.historyLogId.bind fun logId => (logs logId offset).map HistoryEntry.new) = some entry

/-- An operation that fetches nothing. -/
structure SameLog (history history' : ChatComposerHistory) : Prop where
  logId : history'.historyLogId = history.historyLogId
  count : history'.historyEntryCount = history.historyEntryCount
  fetched : history'.fetchedHistory = history.fetchedHistory

section
variable {tables : CaseTables} {logs : Nat → Nat → Option (List Char)} {query : List Char}
  {history history' history'' : ChatComposerHistory} {direction : HistorySearchDirection}
  {offset : Nat} {boundary : Bool}

theorem SameLog.refl (history : ChatComposerHistory) : SameLog history history := ⟨rfl, rfl, rfl⟩

theorem SameLog.trans (h : SameLog history history') (h' : SameLog history' history'') :
    SameLog history history'' :=
  ⟨h'.logId.trans h.logId, h'.count.trans h.count, h'.fetched.trans h.fetched⟩

theorem Consistent.of_sameLog (h : Consistent logs history) (hsame : SameLog history history') :
    Consistent logs history' := by
  refine ⟨?_, fun offset entry hlookup => ?_⟩
  · rw [hsame.logId, hsame.count]
    exact h.log
  · rw [hsame.fetched] at hlookup
    rw [hsame.logId]
    exact h.fetched offset entry hlookup

theorem Consistent.caches (h : Consistent logs history) : Caches logs history history where
  logId := rfl
  count := rfl
  locals := rfl
  log := h.log
  fetched offset entry hlookup hlt := by
    rw [entryAt, if_neg (Nat.not_le_of_lt hlt)]
    exact h.fetched offset entry hlookup

theorem sameLog_visitOffset {reply : Reply HistorySearchResult}
    (h : history.visitOffset tables offset direction boundary = some reply) :
    SameLog history reply.history := by
  unfold visitOffset at h
  split at h
  · split_ifs at h
    cases h
    exact ⟨rfl, rfl, rfl⟩
  · split_ifs at h
    obtain ⟨logId, -, rfl⟩ := Option.map_eq_some_iff.1 h
    exact ⟨rfl, rfl, rfl⟩

theorem sameLog_advanceSearchFrom (tables : CaseTables) (history : ChatComposerHistory)
    (offset : Nat) (direction : HistorySearchDirection) (boundary : Bool) :
    SameLog history (history.advanceSearchFrom tables offset direction boundary).history := by
  fun_induction advanceSearchFrom with
  | case1 offset _ reply hvisit => exact sameLog_visitOffset hvisit
  | case2 offset _ hvisit next hnext ih => exact ih
  | case3 offset _ hvisit hnext => exact .refl history
  | case4 offset _ => exact .refl history

theorem sameLog_advanceSearch (history : ChatComposerHistory) (start : Option Nat)
    (direction : HistorySearchDirection) (boundary : Bool) :
    SameLog history (history.advanceSearch tables start direction boundary).history := by
  cases start with
  | none => exact ⟨rfl, rfl, rfl⟩
  | some offset =>
    have hscan := sameLog_advanceSearchFrom tables history offset direction boundary
    rw [advanceSearch]
    split_ifs
    · exact ⟨hscan.logId, hscan.count, hscan.fetched⟩
    · exact hscan

theorem sameLog_selectCachedUniqueMatch {reply : Reply HistorySearchResult}
    (h : history.selectCachedUniqueMatch direction = some reply) :
    SameLog history reply.history := by
  unfold selectCachedUniqueMatch at h
  simp only [Option.bind_eq_bind, Option.bind_eq_some_iff, Option.some.injEq] at h
  obtain ⟨search, -, nextIndex, -, historyMatch, -, rfl⟩ := h
  exact ⟨rfl, rfl, rfl⟩

theorem sameLog_searchStep (history : ChatComposerHistory) (query : List Char)
    (direction : HistorySearchDirection) (restart : Bool) :
    SameLog history (history.searchStep tables query direction restart).history := by
  unfold searchStep
  split_ifs
  · exact ⟨rfl, rfl, rfl⟩
  · simp only
    have hbegin : ∀ fresh : Bool, SameLog history
        (if fresh then { history with search := some (.new tables query) }
          else history.updateSearch fun search => { search with awaiting := none }) := by
      intro fresh
      cases fresh with
      | true => exact ⟨rfl, rfl, rfl⟩
      | false => exact ⟨rfl, rfl, rfl⟩
    split
    · exact .refl history
    · have hbegin := hbegin
        (history.search.all (fun search => decide (search.query ≠ query)) || restart)
      generalize (if history.search.all (fun search => decide (search.query ≠ query)) || restart
        then { history with search := some (.new tables query) }
        else history.updateSearch fun search => { search with awaiting := none }) = begun
        at hbegin ⊢
      split
      · next reply hcached =>
        split_ifs at hcached
        exact hbegin.trans (sameLog_selectCachedUniqueMatch hcached)
      · split_ifs
        · exact hbegin
        · exact hbegin.trans (sameLog_advanceSearch begun _ _ _)

theorem SameLog.populate (h : SameLog history history') (globalIdx : Nat) :
    SameLog history (history'.populateHistoryAtIndex globalIdx).history := by
  refine h.trans ?_
  unfold populateHistoryAtIndex
  split_ifs
  · split
    · exact ⟨rfl, rfl, rfl⟩
    · exact .refl history'
  · split
    · exact ⟨rfl, rfl, rfl⟩
    · exact .refl history'

theorem sameLog_populate (cursor : Option Nat) (globalIdx : Nat) :
    SameLog history ({ history.resetSearch with historyCursor := cursor }.populateHistoryAtIndex
      globalIdx).history := by
  refine SameLog.populate ?_ globalIdx
  exact ⟨rfl, rfl, rfl⟩

theorem sameLog_navigateUp (history : ChatComposerHistory) :
    SameLog history history.navigateUp.history := by
  unfold navigateUp
  simp only
  split_ifs
  · exact ⟨rfl, rfl, rfl⟩
  · split
    · exact ⟨rfl, rfl, rfl⟩
    · exact sameLog_populate _ _
    · exact sameLog_populate _ _

theorem sameLog_navigateDown (history : ChatComposerHistory) :
    SameLog history history.navigateDown.history := by
  unfold navigateDown
  simp only
  split_ifs
  · exact ⟨rfl, rfl, rfl⟩
  · split
    · exact ⟨rfl, rfl, rfl⟩
    · split_ifs
      · exact ⟨rfl, rfl, rfl⟩
      · exact sameLog_populate _ _

theorem sameLog_recordLocalSubmission (history : ChatComposerHistory) (entry : HistoryEntry) :
    SameLog history (history.recordLocalSubmission entry) := by
  unfold recordLocalSubmission
  simp only
  split_ifs
  · exact .refl history
  · exact ⟨rfl, rfl, rfl⟩
  · exact ⟨rfl, rfl, rfl⟩

/-- A response caches what it has. -/
theorem sameLog_onEntryResponse {logId : Nat} (hlog : history.historyLogId = some logId)
    (offset : Nat) (entry : Option (List Char)) :
    SameLog (history.cacheEntry offset (entry.map HistoryEntry.new))
      (history.onEntryResponse tables logId offset entry).history := by
  have hnavigation : SameLog (history.cacheEntry offset (entry.map HistoryEntry.new))
      ((history.cacheEntry offset (entry.map HistoryEntry.new)).respondNavigation offset
        (entry.map HistoryEntry.new)).history := by
    obtain ⟨lastHistoryText, response, hrespond, -⟩ := respondNavigation_eq
      (history.cacheEntry offset (entry.map HistoryEntry.new)) offset (entry.map HistoryEntry.new)
    rw [hrespond]
    exact ⟨rfl, rfl, rfl⟩
  rw [onEntryResponse, if_neg (not_not.2 hlog)]
  simp only
  split
  · split_ifs
    · rw [resumeSearch]
      split
      · exact ⟨rfl, rfl, rfl⟩
      · exact sameLog_advanceSearch _ _ _ _
    · exact hnavigation
  · exact hnavigation

theorem Consistent.onEntryResponse (h : Consistent logs history) (logId offset : Nat) :
    Consistent logs
      (history.onEntryResponse tables logId offset (logs logId offset)).history := by
  by_cases hlog : history.historyLogId = some logId
  · refine Consistent.of_sameLog ?_ (sameLog_onEntryResponse hlog offset _)
    cases htext : logs logId offset with
    | none => exact h
    | some text =>
      refine ⟨h.log, fun offset' entry hlookup => ?_⟩
      simp only [cacheEntry, Option.map_some] at hlookup ⊢
      by_cases hsame : offset' = offset
      · subst hsame
        rw [AList.lookup_insert] at hlookup
        rw [hlog, Option.bind_some, htext, Option.map_some, hlookup]
      · rw [AList.lookup_insert_ne hsame] at hlookup
        exact h.fetched offset' entry hlookup
  · rw [ChatComposerHistory.onEntryResponse, if_pos hlog]
    exact h

/-- Every history fetches what its log has. -/
theorem consistent_of_reach (h : (histories tables logs).Reach history) :
    Consistent logs history := by
  refine h.invariant (fun history hnew => ?_) fun history op history' hI hstep => ?_
  · rw [hnew]
    exact ⟨fun _ => rfl, nofun⟩
  · rw [hstep]
    cases op with
    | setMetadata logId entryCount => exact ⟨nofun, nofun⟩
    | recordLocalSubmission entry =>
      exact hI.of_sameLog (sameLog_recordLocalSubmission history entry)
    | resetNavigation => exact hI.of_sameLog ⟨rfl, rfl, rfl⟩
    | resetSearch => exact hI.of_sameLog ⟨rfl, rfl, rfl⟩
    | navigateUp => exact hI.of_sameLog (sameLog_navigateUp history)
    | navigateDown => exact hI.of_sameLog (sameLog_navigateDown history)
    | respond logId offset => exact hI.onEntryResponse logId offset
    | search query direction restart =>
      exact hI.of_sameLog (sameLog_searchStep history query direction restart)

/-! ## The steps of a session -/

/-- What a session keeps. -/
structure SessionOk (tables : CaseTables) (logs : Nat → Nat → Option (List Char))
    (query : List Char) (history₀ : ChatComposerHistory) (session : SearchSession) : Prop where
  caches : Caches logs history₀ session.history
  state :
    (session.pending = false ∧
      session.shown = answers (history₀.walk tables logs query) session.steps ∧
      Idle tables logs query history₀ session.history session.steps) ∨
    session.pending = true ∧
      session.shown = (answers (history₀.walk tables logs query) session.steps).tail ∧
      ∃ pending logId,
        Suspended tables logs query history₀ session.history session.steps pending ∧
        history₀.historyLogId = some logId ∧ ⟨pending.offset, logId⟩ ∈ session.requested

variable {history₀ : ChatComposerHistory} {session session' : SearchSession}
  {steps : List HistorySearchDirection} {left : Nat}

theorem answers_eq (walk : List UniqueHistoryMatch) (steps : List HistorySearchDirection) :
    answer walk steps :: (answers walk steps).tail = answers walk steps := by
  cases steps with
  | nil => rfl
  | cons direction steps => rfl

/-- A reply to the last step is seen. -/
theorem sessionOk_observe {reply : Reply HistorySearchResult}
    (hreply : Replies tables logs query history₀ session.steps left reply)
    (hshown : session.shown = (answers (history₀.walk tables logs query) session.steps).tail) :
    SessionOk tables logs query history₀ (session.observe reply) := by
  refine ⟨hreply.caches, ?_⟩
  rcases hreply.result with ⟨hanswer, hidle⟩ |
    ⟨hpending, pending, logId, -, hsuspended, hlog, hsent⟩
  · have hne : reply.result ≠ .pending := hanswer ▸ answer_ne_pending _ _
    have hseen : (session.observe reply).shown = reply.result :: session.shown := if_neg hne
    refine .inl ⟨decide_eq_false hne, ?_, hidle⟩
    rw [hseen, hshown, hanswer]
    exact answers_eq _ _
  · have hseen : (session.observe reply).shown = session.shown := if_pos hpending
    refine .inr ⟨decide_eq_true hpending, hseen.trans hshown, pending, logId, hsuspended, hlog, ?_⟩
    rw [SearchSession.observe, hsent]
    exact List.mem_cons_self

theorem sessionOk_start (hcache : Caches logs history₀ history₀) :
    SessionOk tables logs query history₀ (.start tables query history₀) :=
  sessionOk_observe (searchStep_start hcache) rfl

/-- While a step waits another one changes nothing. -/
theorem searchStep_of_suspended {pending : PendingHistorySearch}
    (hcache : Caches logs history₀ history)
    (h : Suspended tables logs query history₀ history steps pending)
    (direction : HistorySearchDirection) :
    history.searchStep tables query direction false = ⟨history, none, .pending⟩ := by
  obtain ⟨search, hsearch, hawaiting, hscans⟩ := h.state
  have hquery : search.query = query := by
    rw [Scans] at hscans
    split at hscans
    · exact hscans.knows.sameQuery
    · obtain ⟨known, hknows⟩ := hscans.knows.1
      exact hknows.sameQuery
  have hempty : history.totalEntries ≠ 0 := by
    have hlt := h.lt
    rw [hcache.totalEntries, totalEntries]
    omega
  rw [searchStep, if_neg hempty]
  simp only [all_query_ne hsearch hquery, awaiting_of_suspended h]
  rfl

theorem sessionOk_step (h : SessionOk tables logs query history₀ session)
    (direction : HistorySearchDirection) :
    SessionOk tables logs query history₀ (session.apply tables logs query (.step direction)) := by
  rcases h.state with ⟨hpending, hshown, hidle⟩ |
    ⟨hpending, hshown, pending, logId, hsuspended, hrest⟩
  · have hsteps : (if session.pending then session.steps else direction :: session.steps) =
        direction :: session.steps := if_neg (by rw [hpending]; exact nofun)
    rw [SearchSession.apply, hsteps]
    exact sessionOk_observe (searchStep_next h.caches hidle direction) hshown
  · have hsteps : (if session.pending then session.steps else direction :: session.steps) =
        session.steps := if_pos hpending
    rw [SearchSession.apply, hsteps, searchStep_of_suspended h.caches hsuspended direction]
    exact ⟨h.caches, .inr ⟨rfl, hshown, pending, logId, hsuspended, hrest⟩⟩

/-- The awaited response goes on with the step. -/
theorem apply_awaited {pending : PendingHistorySearch} {logId : Nat}
    (hcache : Caches logs history₀ session.history)
    (hsuspended : Suspended tables logs query history₀ session.history session.steps pending)
    (hlog : history₀.historyLogId = some logId) :
    ∃ reply, session.apply tables logs query (.respond logId pending.offset) =
        session.observe reply ∧
      Replies tables logs query history₀ session.steps
        (pending.left history₀.totalEntries - 1) reply := by
  obtain ⟨reply, hrespond, hreplies⟩ := onEntryResponse_awaited hcache hsuspended hlog
  refine ⟨reply, ?_, hreplies⟩
  simp only [SearchSession.apply, hrespond]

/-- Another response changes neither the step nor what is seen. -/
theorem apply_other {logId : Nat} (hcache : Caches logs history₀ session.history)
    (h : history₀.historyLogId = some logId → ∀ pending,
      session.history.awaiting = some pending → pending.offset ≠ offset) :
    ∃ history', session.apply tables logs query (.respond logId offset) =
        { session with history := history' } ∧
      history'.search = session.history.search ∧ Caches logs history₀ history' ∧
      ∀ offset', (history₀.historyLogId = some logId → offset' ≠ offset) →
        history'.fetchedHistory.lookup offset' =
          session.history.fetchedHistory.lookup offset' := by
  obtain ⟨history', response, hrespond, hnot, hsearch, hcaches, hlookup⟩ :=
    onEntryResponse_other tables hcache h
  refine ⟨history', ?_, hsearch, hcaches, hlookup⟩
  simp only [SearchSession.apply, hrespond]
  cases response with
  | search result => exact absurd rfl (hnot result)
  | found entry => rfl
  | ignored => rfl

theorem Idle.of_search (h : Idle tables logs query history₀ history steps)
    (hsearch : history'.search = history.search) :
    Idle tables logs query history₀ history' steps :=
  ⟨by rw [hsearch]; exact h.state⟩

theorem Suspended.of_search {pending : PendingHistorySearch}
    (h : Suspended tables logs query history₀ history steps pending)
    (hsearch : history'.search = history.search)
    (hlookup : history'.fetchedHistory.lookup pending.offset =
      history.fetchedHistory.lookup pending.offset) :
    Suspended tables logs query history₀ history' steps pending :=
  ⟨h.lt, hlookup.trans h.uncached, by rw [hsearch]; exact h.state⟩

theorem sessionOk_other {logId : Nat} (h : SessionOk tables logs query history₀ session)
    (hother : history₀.historyLogId = some logId → ∀ pending,
      session.history.awaiting = some pending → pending.offset ≠ offset) :
    SessionOk tables logs query history₀
      (session.apply tables logs query (.respond logId offset)) := by
  obtain ⟨history', happly, hsearch, hcaches, hlookup⟩ := apply_other h.caches hother
  rw [happly]
  refine ⟨hcaches, ?_⟩
  rcases h.state with ⟨hpending, hshown, hidle⟩ |
    ⟨hpending, hshown, pending, logId', hsuspended, hrest⟩
  · exact .inl ⟨hpending, hshown, hidle.of_search hsearch⟩
  · have hkept := hlookup pending.offset fun hlog =>
      hother hlog pending (awaiting_of_suspended hsuspended)
    exact .inr ⟨hpending, hshown, pending, logId', hsuspended.of_search hsearch hkept, hrest⟩

theorem sessionOk_respond (h : SessionOk tables logs query history₀ session) (logId offset : Nat) :
    SessionOk tables logs query history₀
      (session.apply tables logs query (.respond logId offset)) := by
  rcases h.state with ⟨hpending, hshown, hidle⟩ |
    ⟨hpending, hshown, pending, logId', hsuspended, hrest⟩
  · refine sessionOk_other h fun _ pending hawaiting => ?_
    rw [awaiting_of_idle hidle] at hawaiting
    cases hawaiting
  · by_cases hawaited : history₀.historyLogId = some logId ∧ pending.offset = offset
    · obtain ⟨hlog, rfl⟩ := hawaited
      obtain ⟨reply, happly, hreplies⟩ := apply_awaited h.caches hsuspended hlog
      rw [happly]
      exact sessionOk_observe hreplies hshown
    · refine sessionOk_other h fun hlog pending' hawaiting hoffset => hawaited ⟨hlog, ?_⟩
      rw [awaiting_of_suspended hsuspended] at hawaiting
      cases hawaiting
      exact hoffset

theorem sessionOk_apply (h : SessionOk tables logs query history₀ session) (event : SearchEvent) :
    SessionOk tables logs query history₀ (session.apply tables logs query event) := by
  cases event with
  | step direction => exact sessionOk_step h direction
  | respond logId offset => exact sessionOk_respond h logId offset

theorem sessionOk_of_reach (hcache : Caches logs history₀ history₀)
    (h : (searching tables logs query history₀).Reach session) :
    SessionOk tables logs query history₀ session := by
  refine h.invariant (fun session hstart => ?_) fun session event session' hI hstep => ?_
  · rw [hstart]
    exact sessionOk_start hcache
  · rw [hstep]
    exact sessionOk_apply hI event

/-! ## What is seen -/

theorem left_pos {pending : PendingHistorySearch}
    (h : Suspended tables logs query history₀ history steps pending) :
    0 < pending.left history₀.totalEntries := by
  have hlt := h.lt
  rw [PendingHistorySearch.left, totalEntries]
  split
  · exact Nat.succ_pos _
  · omega

/-- Each response that is awaited leaves fewer offsets to wait for. -/
theorem exists_answered {pending : PendingHistorySearch} {logId : Nat}
    (h : SessionOk tables logs query history₀ session)
    (hsuspended : Suspended tables logs query history₀ session.history session.steps pending)
    (hlog : history₀.historyLogId = some logId)
    (hrequested : ⟨pending.offset, logId⟩ ∈ session.requested)
    (hshown : session.shown = (answers (history₀.walk tables logs query) session.steps).tail) :
    ∃ last, ((searching tables logs query history₀).restrict Answers).Run session last ∧
      last.pending = false ∧ last.steps = session.steps := by
  induction hn : pending.left history₀.totalEntries using Nat.strong_induction_on
    generalizing session pending with
  | h n ih =>
    obtain ⟨reply, happly, hreplies⟩ := apply_awaited h.caches hsuspended hlog
    have hanswers : Answers session (.respond logId pending.offset) := hrequested
    have hstep : ((searching tables logs query history₀).restrict Answers).Run session
        (session.observe reply) := .step .refl ⟨hanswers, happly.symm⟩
    rcases hreplies.result with ⟨hanswer, -⟩ |
      ⟨hpending, pending', logId', hleft, hsuspended', hlog', hsent⟩
    · have hne : reply.result ≠ .pending := hanswer ▸ answer_ne_pending _ _
      exact ⟨session.observe reply, hstep, decide_eq_false hne, rfl⟩
    · have hpos := left_pos hsuspended
      have hrequested' : ⟨pending'.offset, logId⟩ ∈ (session.observe reply).requested := by
        rw [hlog] at hlog'
        cases hlog'
        rw [SearchSession.observe, hsent]
        exact List.mem_cons_self
      have hseen : (session.observe reply).shown = session.shown := if_pos hpending
      obtain ⟨last, hrun, hlast⟩ := ih _ (by omega) (sessionOk_observe hreplies hshown) hsuspended'
        hrequested' (hseen.trans hshown) rfl
      exact ⟨last, hstep.trans hrun, hlast⟩

/-- Between the steps the selected match is where the walk is. -/
theorem selectedOffset_of_idle (h : Idle tables logs query history₀ history steps) :
    history.search.bind (·.selectedOffset) =
      ((history₀.walk tables logs query)[
        position (history₀.walk tables logs query).length steps]?).map (·.offset) := by
  obtain ⟨search, hsearch, -, ⟨hwalk, hunselected⟩ | ⟨start, hselected⟩⟩ := h.state
  · rw [hsearch, hwalk]
    exact hunselected.selectedOffset
  · obtain ⟨found, hfound, hoffset⟩ := hselected.selectedOffset
    rw [hsearch, hselected.getElem?_walk hfound]
    exact hoffset

theorem SessionOk.follows (h : SessionOk tables logs query history₀ session) :
    session.Follows tables logs query history₀ := by
  rcases h.state with ⟨hpending, hshown, hidle⟩ |
    ⟨hpending, hshown, pending, logId, hsuspended, hlog, hrequested⟩
  · refine ⟨?_, fun _ => selectedOffset_of_idle hidle, ?_, fun _ => hpending, session, .refl,
      hpending, rfl⟩
    · rw [hpending]
      exact hshown
    · rw [hpending]
      exact nofun
  · refine ⟨?_, ?_, fun _ => searchStep_of_suspended h.caches hsuspended, fun hfetched => ?_,
      exists_answered h hsuspended hlog hrequested hshown⟩
    · rw [hpending]
      exact hshown
    · rw [hpending]
      exact nofun
    · have hsome := hfetched pending.offset hsuspended.lt
      rw [hsuspended.uncached] at hsome
      cases hsome

theorem isWalk_walk (tables : CaseTables) (logs : Nat → Nat → Option (List Char))
    (query : List Char) (history : ChatComposerHistory) :
    IsWalk tables logs query history (history.walk tables logs query) where
  ordered := (pairwise_newest matchAt_offset).and (pairwise_key_newest matchAt_offset)
  mem_iff found := by
    rw [walk, matchesFrom, mem_newest, mem_values]
    constructor
    · rintro ⟨⟨o, -, hlt, hvalue⟩, hkey⟩
      obtain rfl := matchAt_offset o found hvalue
      refine ⟨hlt, hvalue, fun newer hnewer hbound hvalue' htext => hkey ?_⟩
      exact List.mem_map.2 ⟨newer, mem_values.2 ⟨newer.offset, hnewer, hbound, hvalue'⟩, htext⟩
    · rintro ⟨hlt, hvalue, hnewest⟩
      refine ⟨⟨found.offset, Nat.zero_le _, hlt, hvalue⟩, fun hkey => ?_⟩
      obtain ⟨newer, hmem, htext⟩ := List.mem_map.1 hkey
      obtain ⟨o, hnewer, hbound, hvalue'⟩ := mem_values.1 hmem
      obtain rfl := matchAt_offset o newer hvalue'
      exact hnewest newer hnewer hbound hvalue' htext

/-- **Incremental search.** A session shows what a walk over the matches with distinct texts shows,
whatever is fetched and in whatever order the responses arrive. -/
theorem searchSession_spec (tables : CaseTables) (logs : Nat → Nat → Option (List Char))
    (query : List Char) (h : (histories tables logs).Reach history) :
    IsWalk tables logs query history (history.walk tables logs query) ∧
      ∀ session, (searching tables logs query history).Reach session →
        session.Follows tables logs query history :=
  ⟨isWalk_walk tables logs query history, fun _ hreach =>
    (sessionOk_of_reach (consistent_of_reach h).caches hreach).follows⟩

end

/-- ASCII characters are lowercased. -/
def asciiTables : CaseTables where
  lower c := [c.toLower]
  cased := Char.isAlpha
  caseIgnorable c := c = '\''

/-- A log whose entries have one text. -/
def exampleLogs (_ _ : Nat) : Option (List Char) := some "cargo test".toList

theorem searchSession_spec_two :
    IsWalk asciiTables exampleLogs "cargo".toList (ChatComposerHistory.setMetadata 7 2)
        ((ChatComposerHistory.setMetadata 7 2).walk asciiTables exampleLogs "cargo".toList) ∧
      ∀ session, (searching asciiTables exampleLogs "cargo".toList
          (ChatComposerHistory.setMetadata 7 2)).Reach session →
        session.Follows asciiTables exampleLogs "cargo".toList
          (ChatComposerHistory.setMetadata 7 2) :=
  searchSession_spec asciiTables exampleLogs "cargo".toList
    (.step (a := HistoryOp.setMetadata 7 2) (.init rfl) rfl)

end Mcodex.Tui.History
