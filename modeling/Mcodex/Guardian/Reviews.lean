import Mcodex.Lib.Transition
import Mcodex.Guardian.Transcript

/-!
# The reviews of the guardian

A review runs on a session of the guardian, one at a time, while the parent goes on. It reads the
session's cursor, builds its prompt from the parent's history, and submits it; a review that
completes leaves the end of the transcript as the next cursor. A later review is offered what is new
since the cursor, if the history was not rewritten, else everything. A fork starts from a copy of a
session's history with the cursor that was stored beside it. Which session a review goes to, and
which reviews fail, time out or are aborted, is open.

In runs where the first item is not removed from under a cursor, a review is offered what its
session has not seen (`guardian_sees_all`). In other runs entries are skipped (`entry_skipped`).
-/

namespace Mcodex.Guardian

open Rollout Transition

structure TranscriptCursor where
  parentHistoryVersion : Nat
  transcriptEntryCount : Nat
  deriving DecidableEq, Repr

inductive PromptMode where
  | full
  | delta (cursor : TranscriptCursor)
  deriving DecidableEq, Repr

/-- What a prompt offers of the transcript, after the entries that were seen if it is a delta. -/
structure PromptItems where
  alreadySeenEntryCount : Option Nat
  transcriptEntries : List TranscriptEntry
  transcriptCursor : TranscriptCursor
  deriving DecidableEq, Repr

/-- A prompt in a session's own history, and whether its review completed. -/
structure Review where
  prompt : PromptItems
  completed : Bool
  deriving DecidableEq, Repr

structure ForkSnapshot where
  initialHistory : List Review
  priorReviewCount : Nat
  lastReviewedTranscriptCursor : Option TranscriptCursor
  deriving DecidableEq, Repr

/-- How far the review on a session is. -/
inductive Phase where
  | idle
  /-- The session's lock is held. -/
  | started
  | modeRead (mode : PromptMode)
  | built (prompt : PromptItems)
  | submitted (prompt : PromptItems)
  | completed
  /-- The session's history is loaded for the snapshot. -/
  | loaded (items : List Review)
  deriving DecidableEq, Repr

structure Session where
  history : List Review
  priorReviewCount : Nat
  lastReviewedTranscriptCursor : Option TranscriptCursor
  lastCommittedForkSnapshot : Option ForkSnapshot
  phase : Phase
  deriving DecidableEq, Repr

namespace Session

def new : Session := ⟨[], 0, none, none, .idle⟩

/-- `spawn_guardian_review_session` with a snapshot. -/
def forked (snapshot : ForkSnapshot) : Session :=
  ⟨snapshot.initialHistory, snapshot.priorReviewCount, snapshot.lastReviewedTranscriptCursor, none,
    .idle⟩

def promptMode (session : Session) : PromptMode :=
  if session.priorReviewCount = 0 then .full
  else match session.lastReviewedTranscriptCursor with
    | some cursor => .delta cursor
    | none => .full

/-- A review that completed is recorded, and moves the cursor. -/
def complete (session : Session) (prompt : PromptItems) : Session :=
  { session with
    history := session.history ++ [⟨prompt, true⟩]
    priorReviewCount := session.priorReviewCount + 1
    lastReviewedTranscriptCursor := some prompt.transcriptCursor
    phase := .completed }

/-- A review that was submitted and did not complete. -/
def stop (session : Session) (prompt : PromptItems) : Session :=
  { session with history := session.history ++ [⟨prompt, false⟩], phase := .idle }

/-- `refresh_last_committed_fork_snapshot`, once the history is loaded. -/
def refresh (session : Session) (items : List Review) : Session :=
  { session with
    lastCommittedForkSnapshot :=
      some ⟨items, session.priorReviewCount, session.lastReviewedTranscriptCursor⟩
    phase := .idle }

end Session

section
variable (lib : Libraries) (payloads : Payloads)

def buildGuardianPromptItems (parent : ParentHistory) (mode : PromptMode) : PromptItems :=
  let transcriptEntries := parent.transcript lib payloads
  let transcriptCursor : TranscriptCursor := ⟨parent.historyVersion, transcriptEntries.length⟩
  match mode with
  | .full => ⟨none, transcriptEntries, transcriptCursor⟩
  | .delta cursor =>
    if cursor.parentHistoryVersion = transcriptCursor.parentHistoryVersion &&
        cursor.transcriptEntryCount ≤ transcriptCursor.transcriptEntryCount then
      ⟨some cursor.transcriptEntryCount, transcriptEntries.drop cursor.transcriptEntryCount,
        transcriptCursor⟩
    else ⟨none, transcriptEntries, transcriptCursor⟩

/-- A step of the review on a session. -/
inductive SessionStep (parent : ParentHistory) : Session → Session → Prop
  | start {session : Session} (hphase : session.phase = .idle) :
    SessionStep parent session { session with phase := .started }
  | readMode {session : Session} (hphase : session.phase = .started) :
    SessionStep parent session { session with phase := .modeRead session.promptMode }
  | build {session : Session} {mode : PromptMode} (hphase : session.phase = .modeRead mode) :
    SessionStep parent session
      { session with phase := .built (buildGuardianPromptItems lib payloads parent mode) }
  | submit {session : Session} {prompt : PromptItems} (hphase : session.phase = .built prompt) :
    SessionStep parent session { session with phase := .submitted prompt }
  | complete {session : Session} {prompt : PromptItems}
    (hphase : session.phase = .submitted prompt) :
    SessionStep parent session (session.complete prompt)
  | stop {session : Session} {prompt : PromptItems} (hphase : session.phase = .submitted prompt) :
    SessionStep parent session (session.stop prompt)
  -- before the prompt is submitted, or with no snapshot after
  | giveUp {session : Session} (hphase : ∀ prompt, session.phase ≠ .submitted prompt) :
    SessionStep parent session { session with phase := .idle }
  | load {session : Session} (hphase : session.phase = .completed) :
    SessionStep parent session { session with phase := .loaded session.history }
  | refresh {session : Session} {items : List Review} (hphase : session.phase = .loaded items) :
    SessionStep parent session (session.refresh items)

/-- The parent, and the sessions of its guardian. -/
structure State where
  parent : ParentHistory
  sessions : List Session
  deriving DecidableEq, Repr

inductive Action where
  | parent (op : HistoryOp)
  | spawn
  | fork
  | review
  deriving DecidableEq, Repr

inductive GuardianStep : State → Action → State → Prop
  | parent {s : State} (op : HistoryOp) :
    GuardianStep s (.parent op) { s with parent := op.apply lib s.parent }
  | spawn {s : State} : GuardianStep s .spawn { s with sessions := s.sessions ++ [.new] }
  | fork {s : State} {session : Session} {snapshot : ForkSnapshot} (hsession : session ∈ s.sessions)
    (hsnapshot : session.lastCommittedForkSnapshot = some snapshot) :
    GuardianStep s .fork { s with sessions := s.sessions ++ [.forked snapshot] }
  | review {s : State} {i : Nat} {session session' : Session}
    (hsession : s.sessions[i]? = some session)
    (hstep : SessionStep lib payloads s.parent session session') :
    GuardianStep s .review { s with sessions := s.sessions.set i session' }

def guardian : System State Action where
  init s := s = ⟨⟨[], 0⟩, []⟩
  step := GuardianStep lib payloads

end

/-! ## What a session has seen -/

def seeReview (seen : List TranscriptEntry) (review : Review) : List TranscriptEntry :=
  if review.completed then
    match review.prompt.alreadySeenEntryCount with
    | none => review.prompt.transcriptEntries
    | some _ => seen ++ review.prompt.transcriptEntries
  else seen

/-- The entries offered to the reviews that completed, from the last full prompt on. -/
def seenEntries (history : List Review) : List TranscriptEntry := history.foldl seeReview []

/-! ## The cursors that are held -/

def Phase.cursors : Phase → List TranscriptCursor
  | .modeRead (.delta cursor) => [cursor]
  | .built prompt | .submitted prompt => [prompt.transcriptCursor]
  | _ => []

def Session.cursors (session : Session) : List TranscriptCursor :=
  session.lastReviewedTranscriptCursor.toList ++
    (session.lastCommittedForkSnapshot.bind (·.lastReviewedTranscriptCursor)).toList ++
    session.phase.cursors

section
variable (lib : Libraries) (payloads : Payloads)

/-- An operation leaves the entries that a cursor counts, as long as it leaves the version. -/
def Keeps (s : State) (op : HistoryOp) : Prop :=
  (op.apply lib s.parent).historyVersion = s.parent.historyVersion →
    ∀ session ∈ s.sessions, ∀ cursor ∈ session.cursors,
      cursor.parentHistoryVersion = s.parent.historyVersion →
      ((op.apply lib s.parent).transcript lib payloads).take cursor.transcriptEntryCount =
        (s.parent.transcript lib payloads).take cursor.transcriptEntryCount

/-- The first item is not removed from under a cursor, and nothing else is rewritten under one that
the version has run out of. -/
def Orderly (s : State) : Action → Prop
  | .parent op => op = .removeFirstItem ∨ s.parent.historyVersion = maxVersion →
    Keeps lib payloads s op
  | _ => True

/-- The cursor counts what was seen, and while the history is not rewritten this is what the
transcript begins with. -/
structure Trusted (parent : ParentHistory) (cursor : TranscriptCursor)
    (seen : List TranscriptEntry) : Prop where
  count : seen.length = cursor.transcriptEntryCount
  version : cursor.parentHistoryVersion ≤ parent.historyVersion
  isPrefix : cursor.parentHistoryVersion = parent.historyVersion →
    seen <+: parent.transcript lib payloads

/-- What is known of the review on a session with this history. -/
def Phase.Ok (parent : ParentHistory) (history : List Review) : Phase → Prop
  | .modeRead (.delta cursor) => Trusted lib payloads parent cursor (seenEntries history)
  | .built prompt | .submitted prompt =>
    Trusted lib payloads parent prompt.transcriptCursor (seenEntries (history ++ [⟨prompt, true⟩]))
  | .loaded items => items = history
  | _ => True

structure Session.Ok (parent : ParentHistory) (session : Session) : Prop where
  cursor : ∀ cursor ∈ session.lastReviewedTranscriptCursor,
    Trusted lib payloads parent cursor (seenEntries session.history)
  snapshot : ∀ snapshot ∈ session.lastCommittedForkSnapshot,
    ∀ cursor ∈ snapshot.lastReviewedTranscriptCursor,
      Trusted lib payloads parent cursor (seenEntries snapshot.initialHistory)
  phase : session.phase.Ok lib payloads parent session.history

structure State.Ok (s : State) : Prop where
  version : s.parent.historyVersion ≤ maxVersion
  sessions : ∀ session ∈ s.sessions, session.Ok lib payloads s.parent

variable {lib payloads} {s t : State} {a : Action} {parent : ParentHistory} {session : Session}

theorem seenEntries_concat (history : List Review) (review : Review) :
    seenEntries (history ++ [review]) = seeReview (seenEntries history) review :=
  List.foldl_concat ..

/-- A prompt that is a delta goes on after what a trusted cursor counts. -/
theorem Trusted.delta {cursor : TranscriptCursor} {seen : List TranscriptEntry}
    (h : Trusted lib payloads parent cursor seen)
    (hdelta : (buildGuardianPromptItems lib payloads parent
      (.delta cursor)).alreadySeenEntryCount.isSome) :
    seen = (parent.transcript lib payloads).take cursor.transcriptEntryCount ∧
      (buildGuardianPromptItems lib payloads parent (.delta cursor)).transcriptEntries =
        (parent.transcript lib payloads).drop cursor.transcriptEntryCount := by
  rw [buildGuardianPromptItems] at hdelta ⊢
  dsimp only at hdelta ⊢
  split at hdelta
  · rename_i hsame
    rw [if_pos hsame]
    have hversion := of_decide_eq_true (Bool.and_eq_true_iff.1 hsame).1
    refine ⟨?_, rfl⟩
    rw [← h.count]
    exact List.prefix_iff_eq_take.1 (h.isPrefix hversion)
  · cases hdelta

/-- Once its review completes, a prompt's cursor is to be trusted. -/
theorem trusted_build {mode : PromptMode} {history : List Review}
    (h : (Phase.modeRead mode).Ok lib payloads parent history) :
    Trusted lib payloads parent
      (buildGuardianPromptItems lib payloads parent mode).transcriptCursor
      (seenEntries (history ++ [⟨buildGuardianPromptItems lib payloads parent mode, true⟩])) := by
  have hfull : Trusted lib payloads parent
      ⟨parent.historyVersion, (parent.transcript lib payloads).length⟩
      (parent.transcript lib payloads) :=
    ⟨rfl, le_refl _, fun _ => List.prefix_refl _⟩
  rw [seenEntries_concat, seeReview, if_pos rfl]
  cases mode with
  | full => exact hfull
  | delta cursor =>
    by_cases hdelta : (buildGuardianPromptItems lib payloads parent
        (.delta cursor)).alreadySeenEntryCount.isSome
    · obtain ⟨hseen, hentries⟩ := h.delta hdelta
      obtain ⟨count, hcount⟩ := Option.isSome_iff_exists.1 hdelta
      have hcursor : (buildGuardianPromptItems lib payloads parent (.delta cursor)).transcriptCursor =
          ⟨parent.historyVersion, (parent.transcript lib payloads).length⟩ := by
        rw [buildGuardianPromptItems]
        dsimp only
        split <;> rfl
      rw [hcount, hcursor]
      dsimp only
      rw [hentries, hseen, List.take_append_drop]
      exact hfull
    · rw [buildGuardianPromptItems] at hdelta ⊢
      dsimp only at hdelta ⊢
      split at hdelta
      · exact absurd rfl hdelta
      · rename_i hother
        rw [if_neg hother]
        exact hfull

/-- The steps of a review keep what is known of its session. -/
theorem Session.Ok.step {session' : Session} (h : session.Ok lib payloads parent)
    (hstep : SessionStep lib payloads parent session session') :
    session'.Ok lib payloads parent := by
  have hphaseOk := h.phase
  cases hstep with
  | start hphase => exact ⟨h.cursor, h.snapshot, trivial⟩
  | readMode hphase =>
    refine ⟨h.cursor, h.snapshot, ?_⟩
    show (Phase.modeRead session.promptMode).Ok lib payloads parent session.history
    rw [promptMode]
    split
    · trivial
    · cases hcursor : session.lastReviewedTranscriptCursor with
      | none => trivial
      | some cursor => exact h.cursor cursor hcursor
  | build hphase =>
    rw [hphase] at hphaseOk
    exact ⟨h.cursor, h.snapshot, trusted_build hphaseOk⟩
  | submit hphase =>
    rw [hphase] at hphaseOk
    exact ⟨h.cursor, h.snapshot, hphaseOk⟩
  | complete hphase =>
    rw [hphase] at hphaseOk
    refine ⟨fun cursor hcursor => ?_, h.snapshot, trivial⟩
    obtain rfl := Option.some.inj hcursor
    exact hphaseOk
  | stop hphase =>
    refine ⟨fun cursor hcursor => ?_, h.snapshot, trivial⟩
    have htrusted := h.cursor cursor hcursor
    show Trusted lib payloads parent cursor (seenEntries (session.history ++ [_]))
    rw [seenEntries_concat]
    exact htrusted
  | giveUp hphase => exact ⟨h.cursor, h.snapshot, trivial⟩
  | load hphase => exact ⟨h.cursor, h.snapshot, rfl⟩
  | refresh hphase =>
    rw [hphase] at hphaseOk
    obtain rfl : _ = session.history := hphaseOk
    refine ⟨h.cursor, fun snapshot hsnapshot => ?_, trivial⟩
    obtain rfl := Option.some.inj hsnapshot
    exact h.cursor

/-- An operation on the parent keeps the cursors that are held to be trusted. -/
theorem Trusted.apply {cursor : TranscriptCursor} {seen : List TranscriptEntry} {op : HistoryOp}
    (h : Trusted lib payloads s.parent cursor seen) (hs : s.parent.historyVersion ≤ maxVersion)
    (horderly : Orderly lib payloads s (.parent op)) (hsession : session ∈ s.sessions)
    (hcursor : cursor ∈ session.cursors) :
    Trusted lib payloads (op.apply lib s.parent) cursor seen := by
  have hkept (hop : op = .removeFirstItem ∨ s.parent.historyVersion = maxVersion)
      (hversion : (op.apply lib s.parent).historyVersion = s.parent.historyVersion) :
      Trusted lib payloads (op.apply lib s.parent) cursor seen := by
    refine ⟨h.count, hversion ▸ h.version, fun hsame => ?_⟩
    have hheld := hsame.trans hversion
    have htake := horderly hop hversion session hsession cursor hcursor hheld
    rw [← h.count, ← List.prefix_iff_eq_take.1 (h.isPrefix hheld)] at htake
    rw [← htake]
    exact List.take_prefix _ _
  rcases op.apply_cases lib s.parent with
    ⟨hitems, hversion⟩ | hversion | ⟨rfl, hversion⟩
  · refine ⟨h.count, hversion ▸ h.version, fun hsame => ?_⟩
    exact (h.isPrefix (hsame.trans hversion)).trans (transcript_isPrefix hitems)
  · by_cases hmax : s.parent.historyVersion < maxVersion
    · have hbump : s.parent.bump.historyVersion = s.parent.historyVersion + 1 := if_pos hmax
      have hle := h.version
      rw [hbump] at hversion
      exact ⟨h.count, by omega, fun hsame => by omega⟩
    · have hbump : s.parent.bump.historyVersion = maxVersion := if_neg hmax
      exact hkept (Or.inr (by omega)) (by omega)
  · exact hkept (Or.inl rfl) hversion

theorem Session.Ok.apply {op : HistoryOp} (h : session.Ok lib payloads s.parent)
    (hs : s.parent.historyVersion ≤ maxVersion) (horderly : Orderly lib payloads s (.parent op))
    (hsession : session ∈ s.sessions) : session.Ok lib payloads (op.apply lib s.parent) where
  cursor cursor hcursor := by
    refine (h.cursor cursor hcursor).apply hs horderly hsession ?_
    rw [cursors, Option.mem_def.1 hcursor]
    simp
  snapshot snapshot hsnapshot cursor hcursor := by
    refine (h.snapshot snapshot hsnapshot cursor hcursor).apply hs horderly hsession ?_
    rw [cursors, Option.mem_def.1 hsnapshot, Option.bind_some, Option.mem_def.1 hcursor]
    simp
  phase := by
    have hphaseOk := h.phase
    have hheld : ∀ cursor ∈ session.phase.cursors, cursor ∈ session.cursors := fun cursor hcursor =>
      List.mem_append_right _ hcursor
    cases hphase : session.phase with
    | modeRead mode =>
      rw [hphase] at hphaseOk hheld
      cases mode with
      | full => trivial
      | delta cursor =>
        exact Trusted.apply hphaseOk hs horderly hsession (hheld cursor List.mem_cons_self)
    | built prompt | submitted prompt =>
      rw [hphase] at hphaseOk hheld
      exact Trusted.apply hphaseOk hs horderly hsession (hheld _ List.mem_cons_self)
    | loaded items =>
      rw [hphase] at hphaseOk
      exact hphaseOk
    | _ => trivial

theorem State.Ok.step (h : s.Ok lib payloads)
    (hstep : ((guardian lib payloads).restrict (Orderly lib payloads)).step s a t) :
    t.Ok lib payloads := by
  obtain ⟨horderly, hstep⟩ := hstep
  cases hstep with
  | parent op =>
    refine ⟨?_, fun session hsession =>
      (h.sessions session hsession).apply h.version horderly hsession⟩
    have hle := le_bump h.version
    rcases op.apply_cases lib s.parent with
      ⟨-, hversion⟩ | hversion | ⟨-, hversion⟩
    · exact hversion ▸ h.version
    · exact hversion ▸ hle.2
    · exact hversion ▸ h.version
  | spawn =>
    refine ⟨h.version, fun session hsession => ?_⟩
    rcases List.mem_append.1 hsession with hold | hnew
    · exact h.sessions session hold
    · rw [List.mem_singleton.1 hnew]
      exact ⟨(fun _ hcursor => by cases hcursor), (fun _ hsnapshot => by cases hsnapshot), trivial⟩
  | fork hsource hsnapshot =>
    refine ⟨h.version, fun session hsession => ?_⟩
    rcases List.mem_append.1 hsession with hold | hnew
    · exact h.sessions session hold
    · rw [List.mem_singleton.1 hnew]
      exact ⟨(h.sessions _ hsource).snapshot _ hsnapshot, (fun _ hsnapshot => by cases hsnapshot),
        trivial⟩
  | review hsession hstep =>
    refine ⟨h.version, fun session hmem => ?_⟩
    rcases List.mem_or_eq_of_mem_set hmem with hold | rfl
    · exact h.sessions session hold
    · exact (h.sessions _ (List.mem_of_getElem? hsession)).step hstep

theorem State.Ok.of_reach
    (h : ((guardian lib payloads).restrict (Orderly lib payloads)).Reach s) :
    s.Ok lib payloads := by
  refine h.invariant ?_ fun _ _ _ h hstep => h.step hstep
  rintro _ rfl
  exact ⟨Nat.zero_le _, fun _ hsession => absurd hsession List.not_mem_nil⟩

/-- **The guardian sees all.** In runs where the first item is not removed from under a cursor, a
review that builds a delta from a cursor is on a session that was offered the entries that the
cursor counts, and is offered the others. -/
theorem guardian_sees_all
    (h : ((guardian lib payloads).restrict (Orderly lib payloads)).Reach s)
    (hsession : session ∈ s.sessions) {cursor : TranscriptCursor}
    (hphase : session.phase = .modeRead (.delta cursor)) :
    let prompt := buildGuardianPromptItems lib payloads s.parent (.delta cursor)
    prompt.alreadySeenEntryCount.isSome →
      seenEntries session.history =
          (s.parent.transcript lib payloads).take cursor.transcriptEntryCount ∧
        seenEntries session.history ++ prompt.transcriptEntries =
          s.parent.transcript lib payloads := by
  intro prompt hdelta
  have hok := ((State.Ok.of_reach h).sessions session hsession).phase
  rw [hphase] at hok
  obtain ⟨hseen, hentries⟩ := Trusted.delta hok hdelta
  refine ⟨hseen, ?_⟩
  rw [hentries, hseen, List.take_append_drop]

end

/-! ## One review of two messages -/

def quietLibraries : Libraries := ⟨fun _ => false, fun _ => false, fun _ text => text, id, id⟩

def plainPayloads : Payloads := ⟨id, id, some⟩

def said (text : String) : ResponseItem := .message "user" [.inputText text.toList]

def saidEntry (text : String) : TranscriptEntry := ⟨.user, text.toList⟩

def firstReview : Review :=
  ⟨⟨none, [saidEntry "a", saidEntry "b"], ⟨0, 2⟩⟩, true⟩

/-- The first review completed. -/
def reviewed : State :=
  ⟨⟨[said "a", said "b"], 0⟩, [⟨[firstReview], 1, some ⟨0, 2⟩, none, .idle⟩]⟩

theorem orderly_recordItems {s : State} (hversion : s.parent.historyVersion < maxVersion)
    (items : List ResponseItem) :
    Orderly quietLibraries plainPayloads s (.parent (.recordItems items)) := by
  rintro (hop | hmax)
  · cases hop
  · omega

theorem reach_reviewed :
    ((guardian quietLibraries plainPayloads).restrict
      (Orderly quietLibraries plainPayloads)).Reach reviewed := by
  have h : ((guardian quietLibraries plainPayloads).restrict
      (Orderly quietLibraries plainPayloads)).Reach ⟨⟨[], 0⟩, []⟩ := .init rfl
  have h := h.step_restrict (.parent (.recordItems [said "a", said "b"]))
    (orderly_recordItems (by decide) _)
  have h := h.step_restrict .spawn trivial
  have h := h.step_restrict (.review (i := 0) rfl (.start rfl)) trivial
  have h := h.step_restrict (.review (i := 0) rfl (.readMode rfl)) trivial
  have h := h.step_restrict (.review (i := 0) rfl (.build rfl)) trivial
  have h := h.step_restrict (.review (i := 0) rfl (.submit rfl)) trivial
  have h := h.step_restrict (.review (i := 0) rfl (.complete rfl)) trivial
  exact h.step_restrict (.review (i := 0) rfl (.giveUp (fun _ hphase => by cases hphase))) trivial

theorem guardian_sees_all_third :
    (buildGuardianPromptItems quietLibraries plainPayloads ⟨[said "a", said "b", said "c"], 0⟩
      (.delta ⟨0, 2⟩)).transcriptEntries = [saidEntry "c"] := by
  have h := reach_reviewed.step_restrict (.parent (.recordItems [said "c"]))
    (orderly_recordItems (by decide) _)
  have h := h.step_restrict (.review (i := 0) rfl (.start rfl)) trivial
  have h := h.step_restrict (.review (i := 0) rfl (.readMode rfl)) trivial
  have hseen := (guardian_sees_all h List.mem_cons_self rfl (by decide)).2
  exact List.append_cancel_left (hseen.trans (by decide :
    _ = [saidEntry "a", saidEntry "b"] ++ [saidEntry "c"]))

/-- The first item is removed, a third message is recorded, and the next review is not offered it.
-/
theorem entry_skipped : ∃ s session cursor,
    (guardian quietLibraries plainPayloads).Reach s ∧ session ∈ s.sessions ∧
    session.phase = .modeRead (.delta cursor) ∧
    (buildGuardianPromptItems quietLibraries plainPayloads s.parent
      (.delta cursor)).alreadySeenEntryCount.isSome ∧
    seenEntries session.history ≠
      (s.parent.transcript quietLibraries plainPayloads).take cursor.transcriptEntryCount ∧
    saidEntry "c" ∈ s.parent.transcript quietLibraries plainPayloads ∧
    saidEntry "c" ∉ seenEntries session.history ++
      (buildGuardianPromptItems quietLibraries plainPayloads s.parent
        (.delta cursor)).transcriptEntries := by
  have h := (reach_reviewed.of_restrict).step (.parent .removeFirstItem)
  have h := h.step (.parent (.recordItems [said "c"]))
  have h := h.step (.review (i := 0) rfl (.start rfl))
  have h := h.step (.review (i := 0) rfl (.readMode rfl))
  exact ⟨_, _, ⟨0, 2⟩, h, List.mem_cons_self, rfl, by decide, by decide, by decide, by decide⟩

end Mcodex.Guardian
