import Mcodex.Rollout.ForwardFold
import Mcodex.Rollout.Rollback
import Mcodex.Rollout.TurnIds

/-!
# Rollbacks of the three readings of a rollout

The history drops user messages, the scan for the settings skips segments with a user message, and
the list of turns drops turns. `RecordedTurn` is a turn between its start and its completion, and
`liveTurns` are the turns that the rollbacks leave when each drops turns. The three agree on them
where every rollback drops turns with one boundary each, or all boundaries that there are
(`DropsAlike`).
-/

namespace Mcodex.Rollout

open ThreadHistoryBuilder

/-! ## Recorded threads -/

/-- An item within a turn: it neither starts, ends nor rolls back turns, nor compacts the history. -/
def RolloutItem.isWithinTurn : RolloutItem → Bool
  | .turnStarted _ | .turnComplete _ | .threadRolledBack _ | .compacted _ _ => false
  | _ => true

structure RecordedTurn where
  id : String
  body : List RolloutItem
  within : ∀ item ∈ body, item.isWithinTurn = true

def RecordedTurn.items (turn : RecordedTurn) : List RolloutItem :=
  .turnStarted turn.id :: (turn.body ++ [.turnComplete turn.id])

/-- What a rollout is made of: turns, and what may stand between them. -/
inductive Recorded where
  | ofTurn (turn : RecordedTurn)
  | rolledBack (numTurns : Nat)
  | sessionMeta
  | unlistedEvent

def Recorded.items : Recorded → List RolloutItem
  | .ofTurn turn => turn.items
  | .rolledBack numTurns => [.threadRolledBack numTurns]
  | .sessionMeta => [.sessionMeta]
  | .unlistedEvent => [.otherEvent .unlisted]

def rolloutOf (entries : List Recorded) : List RolloutItem := entries.flatMap Recorded.items

def RolloutItem.response? : RolloutItem → Option ResponseItem
  | .responseItem item => some item
  | _ => none

def RolloutItem.userInput? : RolloutItem → Option (List UserInput)
  | .userMessage payload => some (buildUserInputs payload)
  | _ => none

/-- A message of the user that is no context. -/
def isUserMessage (lib : Libraries) : ResponseItem → Bool
  | .message role content => role = "user" && !isContextualUserMessageContent lib content
  | _ => false

namespace RecordedTurn

variable (lib : Libraries) (turn : RecordedTurn)

/-- The boundaries among the turn's response items. -/
def boundaries : List ResponseItem :=
  (turn.body.filterMap RolloutItem.response?).filter (isUserTurnBoundary lib)

def userMessages : List ResponseItem :=
  (turn.body.filterMap RolloutItem.response?).filter (isUserMessage lib)

/-- The inputs of the turn's user message events. -/
def userInputs : List (List UserInput) := turn.body.filterMap RolloutItem.userInput?

/-- The settings that an item of the turn brings, when it is of the turn itself. -/
def settingsOf (turnId : String) : RolloutItem → Option PreviousTurnSettings
  | .turnContext ctx =>
    if turnIdsAreCompatible (some turnId) ctx.turnId then some ⟨ctx.model, ctx.realtimeActive⟩
    else none
  | _ => none

/-- The settings of the turn's first context. -/
def settings : Option PreviousTurnSettings := turn.body.findSome? (settingsOf turn.id)

end RecordedTurn

/-- The turns that are left when a rollback drops the newest ones. -/
def liveStep (live : List RecordedTurn) : Recorded → List RecordedTurn
  | .ofTurn turn => live ++ [turn]
  | .rolledBack numTurns => live.take (live.length - numTurns)
  | .sessionMeta | .unlistedEvent => live

def liveTurns (entries : List Recorded) : List RecordedTurn := entries.foldl liveStep []

/-- The turns that a rollback drops have one boundary each, or no more boundaries than it drops
turns, and then no boundary is left. -/
def DropsAlike (lib : Libraries) (live : List RecordedTurn) (numTurns : Nat) : Prop :=
  (∀ turn ∈ live.drop (live.length - numTurns), (turn.boundaries lib).length = 1) ∨
    ((∀ turn ∈ live.take (live.length - numTurns), turn.boundaries lib = []) ∧
      (live.flatMap (·.boundaries lib)).length ≤ numTurns)

/-- Where the three readings of rollbacks meet: each rollback drops alike, a turn that is left and
has a boundary has a message of the user, and no event takes the id of a numbered item. -/
structure RollbacksMeet (lib : Libraries) (entries : List Recorded) : Prop where
  drops : ∀ before numTurns after, entries = before ++ .rolledBack numTurns :: after →
    DropsAlike lib (liveTurns before) numTurns
  users : ∀ turn ∈ liveTurns entries, turn.boundaries lib ≠ [] → turn.userMessages lib ≠ []
  noNumberedIds : ∀ turn, .ofTurn turn ∈ entries → ∀ item ∈ turn.body,
    ∀ itemId ∈ item.eventItemId?, ∀ i, itemId ≠ numberedItemId i

/-- Every message of the user is recorded as a response item and as an event of its turn. -/
def RecordsMessages (lib : Libraries) (records : ResponseItem → List UserInput → Prop)
    (entries : List Recorded) : Prop :=
  ∀ turn, .ofTurn turn ∈ entries → (turn.userMessages lib).Forall₂ records turn.userInputs

/-! ## The history -/

variable {lib : Libraries}

theorem boundary_of_isUserMessage {item : ResponseItem} (h : isUserMessage lib item = true) :
    isUserTurnBoundary lib item = true := by
  cases item with
  | message role content => exact Bool.or_eq_true_iff.2 (.inl h)
  | _ => cases h

theorem processItem_boundary (item : ResponseItem) :
    isUserTurnBoundary lib (processItem lib item) = isUserTurnBoundary lib item := by
  cases item <;> rfl

theorem processItem_eq_of_boundary {item : ResponseItem} (h : isUserTurnBoundary lib item = true) :
    processItem lib item = item ∧ isApiMessage item = true := by
  cases item with
  | message role content =>
    refine ⟨rfl, decide_eq_true ?_⟩
    rintro rfl
    simp [isUserTurnBoundary] at h
  | _ => cases h

/-- Recording keeps boundaries as they are. -/
theorem filter_recordItem (history : List ResponseItem) (item : ResponseItem) :
    (recordItem lib history item).filter (isUserTurnBoundary lib) =
      history.filter (isUserTurnBoundary lib) ++ [item].filter (isUserTurnBoundary lib) := by
  cases hboundary : isUserTurnBoundary lib item with
  | true =>
    obtain ⟨hprocess, hapi⟩ := processItem_eq_of_boundary hboundary
    rw [recordItem, hapi, if_neg (by simp), hprocess, List.filter_append]
  | false =>
    have hnone : [item].filter (isUserTurnBoundary lib) = [] := by simp [hboundary]
    rw [hnone, List.append_nil, recordItem]
    split
    · rfl
    · rw [List.filter_append]
      simp [processItem_boundary, hboundary]

theorem filter_dropLastNUserTurns (history : List ResponseItem) (n : Nat) :
    (dropLastNUserTurns lib history n).filter (isUserTurnBoundary lib) =
      (history.filter (isUserTurnBoundary lib)).take
        ((history.filter (isUserTurnBoundary lib)).length - n) := by
  rw [dropLastNUserTurns_eq_keptTurns]
  obtain ⟨rest, hrest⟩ := keptTurns_isPrefix lib history n
  have hcount := turnCount_keptTurns lib history n
  rw [turnCount, turnCount, List.countP_eq_length_filter, List.countP_eq_length_filter] at hcount
  have hfilter := congrArg (List.filter (isUserTurnBoundary lib)) hrest
  rw [List.filter_append] at hfilter
  rw [← hcount, ← hfilter, List.take_left]

theorem filter_replay_body {history : List ResponseItem} {body : List RolloutItem}
    (h : ∀ item ∈ body, item.isWithinTurn = true) :
    (replay lib history body).filter (isUserTurnBoundary lib) =
      history.filter (isUserTurnBoundary lib) ++
        (body.filterMap RolloutItem.response?).filter (isUserTurnBoundary lib) := by
  induction body generalizing history with
  | nil => simp [replay]
  | cons item body ih =>
    obtain ⟨hitem, hbody⟩ := List.forall_mem_cons.1 h
    show (replay lib (replayItem lib history item) body).filter _ = _
    rw [ih hbody]
    cases item with
    | responseItem response =>
      show (recordItem lib history response).filter _ ++ _ = _
      rw [filter_recordItem, List.append_assoc, ← List.filter_append]
      rfl
    | compacted message replacementHistory => cases hitem
    | threadRolledBack numTurns => cases hitem
    | _ => rfl

/-- What is taken from the elements at the end is taken from the lists that they are made into, if
those have one member each, or if no others have members. -/
theorem take_flatMap {α β : Type} {f : α → List β} {xs : List α} {n : Nat}
    (h : (∀ x ∈ xs.drop (xs.length - n), (f x).length = 1) ∨
      ((∀ x ∈ xs.take (xs.length - n), f x = []) ∧ (xs.flatMap f).length ≤ n)) :
    (xs.flatMap f).take ((xs.flatMap f).length - n) = (xs.take (xs.length - n)).flatMap f := by
  rcases h with hone | ⟨hnone, hcount⟩
  · have hsplit : xs.flatMap f =
        (xs.take (xs.length - n)).flatMap f ++ (xs.drop (xs.length - n)).flatMap f := by
      rw [← List.flatMap_append, List.take_append_drop]
    have hdropped : ((xs.drop (xs.length - n)).flatMap f).length =
        (xs.drop (xs.length - n)).length := by
      rw [List.length_flatMap, List.map_congr_left hone, List.map_const', List.sum_replicate_nat,
        Nat.mul_one]
    rw [List.length_drop] at hdropped
    by_cases hn : n ≤ xs.length
    · have hlength : (xs.flatMap f).length - n =
          ((xs.take (xs.length - n)).flatMap f).length := by
        rw [hsplit, List.length_append, hdropped]
        omega
      rw [hlength, hsplit, List.take_left]
    · have hzero : xs.length - n = 0 := by omega
      rw [hzero, List.drop_zero, Nat.sub_zero] at hdropped
      rw [hdropped, hzero]
      rfl
  · have hzero : (xs.flatMap f).length - n = 0 := by omega
    rw [hzero, List.take_zero, eq_comm, List.flatMap_eq_nil_iff]
    exact hnone

theorem replay_append (history : List ResponseItem) (items items' : List RolloutItem) :
    replay lib history (items ++ items') = replay lib (replay lib history items) items' :=
  List.foldl_append

/-- Replayed forward, a rollout leaves the boundaries of the live turns. -/
theorem filter_replay_rollout {entries : List Recorded}
    (h : ∀ before numTurns after, entries = before ++ .rolledBack numTurns :: after →
      DropsAlike lib (liveTurns before) numTurns) :
    (replay lib [] (rolloutOf entries)).filter (isUserTurnBoundary lib) =
      (liveTurns entries).flatMap (·.boundaries lib) := by
  induction entries using List.reverseRecOn with
  | nil => rfl
  | append_singleton entries entry ih =>
    have hbefore : ∀ before numTurns after, entries = before ++ .rolledBack numTurns :: after →
        DropsAlike lib (liveTurns before) numTurns := by
      rintro before numTurns after rfl
      exact h before numTurns (after ++ [entry]) (by simp)
    have hlive : liveTurns (entries ++ [entry]) = liveStep (liveTurns entries) entry :=
      List.foldl_concat ..
    have hreplay : replay lib [] (rolloutOf (entries ++ [entry])) =
        replay lib (replay lib [] (rolloutOf entries)) entry.items := by
      rw [rolloutOf, List.flatMap_append, List.flatMap_singleton, replay_append]
      rfl
    rw [hlive, hreplay]
    cases entry with
    | ofTurn turn =>
      show (replay lib (replay lib [] (rolloutOf entries)) (turn.body ++ _)).filter _ =
        (liveTurns entries ++ [turn]).flatMap _
      rw [replay_append, List.flatMap_append, List.flatMap_singleton, ← ih hbefore]
      exact filter_replay_body turn.within
    | rolledBack numTurns =>
      show (dropLastNUserTurns lib (replay lib [] (rolloutOf entries)) numTurns).filter _ = _
      rw [filter_dropLastNUserTurns, ih hbefore]
      exact take_flatMap (h entries numTurns [] rfl)
    | sessionMeta => exact ih hbefore
    | unlistedEvent => exact ih hbefore

/-! ## The list of turns -/

def ThreadItem.userInput? : ThreadItem → Option (List UserInput)
  | .numbered _ (.userMessage content) => some content
  | _ => none

/-- The inputs of the messages of the user in a turn that is shown. -/
def Turn.userInputs (turn : Turn) : List (List UserInput) :=
  turn.items.filterMap ThreadItem.userInput?

/-- What is followed of a turn. -/
def Turn.shown (turn : Turn) : String × List (List UserInput) := (turn.id, turn.userInputs)

def RecordedTurn.shown (turn : RecordedTurn) : String × List (List UserInput) :=
  (turn.id, turn.userInputs)

theorem Turn.shown_push (turn : Turn) (item : ThreadItem) :
    (turn.push item).shown = (turn.id, turn.userInputs ++ item.userInput?.toList) := by
  rw [shown, userInputs, push, List.filterMap_append, userInputs]
  cases hinput : item.userInput? <;> simp [hinput]

theorem Turn.shown_upsert (turn : Turn) {itemId : String} {payload : List Char}
    (hid : ∀ i, itemId ≠ numberedItemId i) :
    (turn.upsert (.ofEvent itemId payload)).shown = turn.shown := by
  refine congrArg (Prod.mk turn.id) ?_
  show (upsertTurnItem (.ofEvent itemId payload) turn.items).filterMap _ = turn.items.filterMap _
  rcases upsertTurnItem_cases (.ofEvent itemId payload) turn.items with
    ⟨-, heq⟩ | ⟨before, existing, after, hitems, hexisting, -, heq⟩
  · rw [heq, List.filterMap_append]
    exact List.append_nil _
  · have hnone : existing.userInput? = none := by
      cases existing with
      | numbered i _ => exact absurd hexisting.symm (hid i)
      | _ => rfl
    rw [heq, hitems, List.filterMap_append, List.filterMap_append, List.filterMap_cons,
      List.filterMap_cons, hnone]
    rfl

theorem map_shown_updateTurn (turnId : String) {f : Turn → Turn}
    (hf : ∀ turn, (f turn).shown = turn.shown) (turns : List Turn) : (updateTurn turnId f turns).map Turn.shown = turns.map Turn.shown := by
  induction turns with
  | nil => rfl
  | cons turn turns ih =>
    rw [updateTurn]
    split
    · rw [List.map_cons, List.map_cons, hf]
    · rw [List.map_cons, List.map_cons, ih]

/-- Within a turn: its messages so far, after the finished turns. -/
structure Open (finished : List (String × List (List UserInput))) (turnId : String)
    (inputs : List (List UserInput)) (builder : ThreadHistoryBuilder) : Prop where
  turns : builder.turns.map Turn.shown = finished
  pending : ∃ pending, builder.currentTurn = some pending ∧ pending.openedExplicitly = true ∧
    pending.toTurn.shown = (turnId, inputs)

section
variable {finished : List (String × List (List UserInput))} {turnId : String}
  {inputs : List (List UserInput)} {builder : ThreadHistoryBuilder}

/-- The open turn is changed and stays open. -/
theorem Open.onPending (h : Open finished turnId inputs builder) {f : PendingTurn → PendingTurn}
    {builder' : ThreadHistoryBuilder} {more : List (List UserInput)}
    (hturns : builder'.turns = builder.turns)
    (hcurrent : builder'.currentTurn = builder.currentTurn.map f)
    (hopen : ∀ pending, (f pending).openedExplicitly = pending.openedExplicitly)
    (hshown : ∀ pending, (f pending).toTurn.shown = (pending.id, pending.userInputs ++ more)) :
    Open finished turnId (inputs ++ more) builder' := by
  obtain ⟨pending, hpending, hexplicit, hinputs⟩ := h.pending
  obtain ⟨hid, hinputs⟩ := Prod.mk.inj hinputs
  refine ⟨hturns ▸ h.turns, f pending, ?_, (hopen pending).trans hexplicit, ?_⟩
  · rw [hcurrent, hpending, Option.map_some]
  · rw [hshown, hid, hinputs]

/-- The open turn changes in nothing that is followed. -/
theorem Open.keep (h : Open finished turnId inputs builder) {f : PendingTurn → PendingTurn}
    {builder' : ThreadHistoryBuilder} (hturns : builder'.turns = builder.turns)
    (hcurrent : builder'.currentTurn = builder.currentTurn.map f)
    (hopen : ∀ pending, (f pending).openedExplicitly = pending.openedExplicitly)
    (hshown : ∀ pending, (f pending).toTurn.shown = pending.toTurn.shown) :
    Open finished turnId inputs builder' := by
  have hmore : Open finished turnId (inputs ++ []) builder' :=
    h.onPending hturns hcurrent hopen fun pending => by
      rw [hshown, List.append_nil]
      rfl
  rwa [List.append_nil] at hmore

/-- A finished turn changes in nothing that is followed. -/
theorem Open.update (h : Open finished turnId inputs builder) (named : String) {f : Turn → Turn}
    (hf : ∀ turn, (f turn).shown = turn.shown) :
    Open finished turnId inputs { builder with turns := updateTurn named f builder.turns } :=
  ⟨(map_shown_updateTurn named hf builder.turns).trans h.turns, h.pending⟩

theorem Open.onEnsuredTurn (h : Open finished turnId inputs builder) {f : PendingTurn → PendingTurn}
    {more : List (List UserInput)}
    (hopen : ∀ pending, (f pending).openedExplicitly = pending.openedExplicitly)
    (hshown : ∀ pending, (f pending).toTurn.shown = (pending.id, pending.userInputs ++ more)) :
    Open finished turnId (inputs ++ more) (builder.onEnsuredTurn f) := by
  refine h.onPending rfl ?_ hopen hshown
  obtain ⟨pending, hpending, -⟩ := h.pending
  rw [ThreadHistoryBuilder.onEnsuredTurn, hpending]
  rfl

theorem Open.pushNumbered (h : Open finished turnId inputs builder) (item : NumberedItem) :
    Open finished turnId
      (inputs ++ (ThreadItem.numbered builder.nextItemIndex item).userInput?.toList)
      (builder.pushNumbered item) := by
  have hpush := h.onEnsuredTurn (f := (·.onTurn (·.push (.numbered builder.nextItemIndex item))))
    (fun _ => rfl) fun pending => pending.toTurn.shown_push _
  exact ⟨hpush.turns, hpush.pending⟩

theorem Open.ensured (h : Open finished turnId inputs builder) {f : PendingTurn → PendingTurn}
    (hopen : ∀ pending, (f pending).openedExplicitly = pending.openedExplicitly)
    (hshown : ∀ pending, (f pending).toTurn.shown = pending.toTurn.shown) :
    Open finished turnId inputs (builder.onEnsuredTurn f) := by
  refine h.keep rfl ?_ hopen hshown
  obtain ⟨pending, hpending, -⟩ := h.pending
  rw [ThreadHistoryBuilder.onEnsuredTurn, hpending]
  rfl

/-- A made up item that is no message of the user. -/
theorem Open.pushOther (h : Open finished turnId inputs builder) {item : NumberedItem}
    (hitem : ∀ index, (ThreadItem.numbered index item).userInput? = none) :
    Open finished turnId inputs (builder.pushNumbered item) := by
  have hpush := h.pushNumbered item
  rwa [hitem, Option.toList_none, List.append_nil] at hpush

theorem Open.addReasoning (h : Open finished turnId inputs builder) (text : List Char)
    {f : List (List Char) → List (List Char) → NumberedItem}
    (hf : ∀ index summary content,
      (ThreadItem.numbered index (f summary content)).userInput? = none) :
    Open finished turnId inputs (builder.addReasoning text f) := by
  unfold ThreadHistoryBuilder.addReasoning
  split
  · exact h
  split
  · next items hitems =>
    obtain ⟨pending, hpending, hexplicit, hshown⟩ := h.pending
    rw [hpending, Option.getD_some] at hitems
    obtain ⟨before, index, summary, content, hold, rfl⟩ := extendReasoning_eq_some hitems
    refine ⟨h.turns, { pending with items := before ++ [.numbered index (f summary content)] },
      ?_, hexplicit, ?_⟩
    · rw [ThreadHistoryBuilder.onEnsuredTurn, hpending]
      rfl
    · rw [← hshown]
      refine congrArg (Prod.mk pending.id) ?_
      show (before ++ [_]).filterMap _ = pending.items.filterMap _
      rw [hold, List.filterMap_append, List.filterMap_append, List.filterMap_cons, hf]
      rfl
  · exact h.pushOther fun index => hf index [] []

theorem Open.handleUserMessage (h : Open finished turnId inputs builder)
    (payload : UserMessageEvent) :
    Open finished turnId (inputs ++ [buildUserInputs payload])
      (builder.handleUserMessage payload) := by
  obtain ⟨pending, hpending, hexplicit, -⟩ := h.pending
  have hsame : builder.handleUserMessage payload =
      builder.pushNumbered (.userMessage (buildUserInputs payload)) := by
    unfold ThreadHistoryBuilder.handleUserMessage
    simp [hpending, hexplicit]
  rw [hsame]
  exact h.pushNumbered (.userMessage (buildUserInputs payload))

theorem Open.upsertItemInTurnId (h : Open finished turnId inputs builder) (named : String)
    {itemId : String} (payload : List Char) (hid : ∀ i, itemId ≠ numberedItemId i) :
    Open finished turnId inputs (builder.upsertItemInTurnId named (.ofEvent itemId payload)) := by
  have hf (turn : Turn) : (turn.upsert (.ofEvent itemId payload)).shown = turn.shown :=
    turn.shown_upsert hid
  unfold ThreadHistoryBuilder.upsertItemInTurnId
  split
  · next turn hturn =>
    split
    · refine h.keep (f := (·.onTurn (·.upsert (.ofEvent itemId payload)))) rfl ?_ (fun _ => rfl)
        fun pending => hf pending.toTurn
      rw [hturn]
      rfl
    · exact h.update named hf
  · exact h.update named hf

theorem Open.handleThreadEvent (h : Open finished turnId inputs builder) {event : ThreadEvent}
    (hid : ∀ itemId ∈ event.itemId?, ∀ i, itemId ≠ numberedItemId i) :
    Open finished turnId inputs (builder.handleThreadEvent event) := by
  cases event with
  | agentMessage text =>
    show Open finished turnId inputs (builder.handleAgentMessage text)
    unfold ThreadHistoryBuilder.handleAgentMessage
    split
    · exact h
    · exact h.pushOther fun _ => rfl
  | agentReasoning text => exact h.addReasoning text fun _ _ _ => rfl
  | agentReasoningRawContent text => exact h.addReasoning text fun _ _ _ => rfl
  | contextCompacted => exact h.pushOther fun _ => rfl
  | enteredReviewMode hint => exact h.pushOther fun _ => rfl
  | exitedReviewMode explanation => exact h.pushOther fun _ => rfl
  | itemInCurrentTurn itemId payload =>
    exact h.ensured (fun _ => rfl) fun pending => pending.toTurn.shown_upsert (hid itemId rfl)
  | itemInTurn named itemId payload => exact h.upsertItemInTurnId named payload (hid itemId rfl)
  | error affectsTurnStatus message =>
    show Open finished turnId inputs (builder.handleError affectsTurnStatus message)
    unfold ThreadHistoryBuilder.handleError
    split
    · exact h.keep rfl rfl (fun _ => rfl) fun _ => rfl
    · exact h
  | unlisted => exact h

theorem Open.handleTurnAborted (h : Open finished turnId inputs builder)
    (named : Option String) : Open finished turnId inputs (builder.handleTurnAborted named) := by
  have hcurrent : Open finished turnId inputs { builder with
      currentTurn := builder.currentTurn.map (PendingTurn.onTurn Turn.interrupt) } :=
    h.keep rfl rfl (fun _ => rfl) fun _ => rfl
  unfold ThreadHistoryBuilder.handleTurnAborted
  dsimp only
  split
  · next named =>
    split
    · exact hcurrent
    split
    · exact h.update named fun _ => rfl
    · exact hcurrent
  · exact hcurrent

/-- An item within the turn adds to its messages if it is one. -/
theorem Open.handleRolloutItem (h : Open finished turnId inputs builder) (lib : Libraries)
    (hookPromptId : Nat → String) {item : RolloutItem} (hitem : item.isWithinTurn = true)
    (hid : ∀ itemId ∈ item.eventItemId?, ∀ i, itemId ≠ numberedItemId i) :
    Open finished turnId (inputs ++ item.userInput?.toList)
      (builder.handleRolloutItem lib hookPromptId item) := by
  have hadvance : Open finished turnId inputs builder.advance := ⟨h.turns, h.pending⟩
  have hkeep {builder' : ThreadHistoryBuilder} (h' : Open finished turnId inputs builder') :
      Open finished turnId (inputs ++ []) builder' := by
    rwa [List.append_nil]
  cases item with
  | userMessage payload => exact hadvance.handleUserMessage payload
  | otherEvent event => exact hkeep (hadvance.handleThreadEvent hid)
  | turnAborted named => exact hkeep (hadvance.handleTurnAborted named)
  | responseItem item =>
    refine hkeep ?_
    show Open finished turnId inputs (builder.advance.handleResponseItem lib hookPromptId item)
    unfold ThreadHistoryBuilder.handleResponseItem
    split
    · split
      · refine hadvance.ensured (fun _ => rfl) fun pending => ?_
        exact (pending.toTurn.shown_push _).trans (congrArg (Prod.mk _) (List.append_nil _))
      · exact hadvance
    · exact hadvance
  | turnContext ctx => exact hkeep hadvance
  | sessionMeta => exact hkeep hadvance
  | turnStarted turnId => cases hitem
  | turnComplete turnId => cases hitem
  | threadRolledBack numTurns => cases hitem
  | compacted message replacementHistory => cases hitem

theorem Open.handleRolloutItems (h : Open finished turnId inputs builder) (lib : Libraries)
    (hookPromptId : Nat → String) {body : List RolloutItem}
    (hbody : ∀ item ∈ body, item.isWithinTurn = true)
    (hid : ∀ item ∈ body, ∀ itemId ∈ item.eventItemId?, ∀ i, itemId ≠ numberedItemId i) :
    Open finished turnId (inputs ++ body.filterMap RolloutItem.userInput?)
      (builder.handleRolloutItems lib hookPromptId body) := by
  induction body generalizing builder inputs with
  | nil => simpa [ThreadHistoryBuilder.handleRolloutItems] using h
  | cons item body ih =>
    obtain ⟨hitem, hbody⟩ := List.forall_mem_cons.1 hbody
    obtain ⟨hitemId, hid⟩ := List.forall_mem_cons.1 hid
    have hrest := ih (h.handleRolloutItem lib hookPromptId hitem hitemId) hbody hid
    have hinputs : (item :: body).filterMap RolloutItem.userInput? =
        item.userInput?.toList ++ body.filterMap RolloutItem.userInput? := by
      rw [List.filterMap_cons]
      cases item.userInput? <;> rfl
    rwa [hinputs, ← List.append_assoc]

/-- The completion of the open turn finishes it. -/
theorem Open.complete (h : Open finished turnId inputs builder) :
    (builder.handleTurnComplete turnId).currentTurn = none ∧
      (builder.handleTurnComplete turnId).turns.map Turn.shown = finished ++ [(turnId, inputs)] := by
  obtain ⟨pending, hpending, hexplicit, hshown⟩ := h.pending
  have hid : pending.id = turnId := congrArg Prod.fst hshown
  have hturns : (builder.handleTurnComplete turnId).currentTurn = none ∧
      (builder.handleTurnComplete turnId).turns = builder.turns ++ [pending.toTurn.markCompleted] := by
    simp [ThreadHistoryBuilder.handleTurnComplete, hpending, hid, finishCurrentTurn, hexplicit,
      PendingTurn.onTurn]
  refine ⟨hturns.1, ?_⟩
  rw [hturns.2, List.map_append, h.turns, ← hshown]
  rfl

end

/-- No turn is open, and the finished ones are the live ones. -/
structure Shows (live : List RecordedTurn) (builder : ThreadHistoryBuilder) : Prop where
  closed : builder.currentTurn = none
  turns : builder.turns.map Turn.shown = live.map RecordedTurn.shown

theorem Shows.finishCurrentTurn {live : List RecordedTurn} {builder : ThreadHistoryBuilder}
    (h : Shows live builder) : builder.finishCurrentTurn = builder := by
  rw [ThreadHistoryBuilder.finishCurrentTurn, h.closed]

variable (lib) in
theorem Shows.turn {live : List RecordedTurn} {builder : ThreadHistoryBuilder}
    (h : Shows live builder) (hookPromptId : Nat → String) {turn : RecordedTurn}
    (hid : ∀ item ∈ turn.body, ∀ itemId ∈ item.eventItemId?, ∀ i, itemId ≠ numberedItemId i) :
    Shows (live ++ [turn]) (builder.handleRolloutItems lib hookPromptId turn.items) := by
  have hadvance : Shows live builder.advance := ⟨h.closed, h.turns⟩
  have hopen : Open (live.map RecordedTurn.shown) turn.id []
      (builder.handleRolloutItem lib hookPromptId (.turnStarted turn.id)) := by
    refine ⟨?_, _, rfl, rfl, rfl⟩
    show builder.advance.finishCurrentTurn.turns.map Turn.shown = _
    rw [hadvance.finishCurrentTurn]
    exact h.turns
  have hbody := hopen.handleRolloutItems lib hookPromptId turn.within hid
  obtain ⟨hclosed, hturns⟩ :=
    (⟨hbody.turns, hbody.pending⟩ : Open _ _ _ (ThreadHistoryBuilder.advance _)).complete
  have hrun : builder.handleRolloutItems lib hookPromptId turn.items =
      ((builder.handleRolloutItem lib hookPromptId (.turnStarted turn.id)).handleRolloutItems lib
        hookPromptId turn.body).handleRolloutItem lib hookPromptId (.turnComplete turn.id) :=
    List.foldl_concat ..
  rw [hrun]
  refine ⟨hclosed, hturns.trans ?_⟩
  rw [List.map_append, List.map_singleton]
  rfl

theorem Shows.rollback {live : List RecordedTurn} {builder : ThreadHistoryBuilder}
    (h : Shows live builder) (numTurns : Nat) :
    Shows (live.take (live.length - numTurns)) (builder.handleThreadRollback numTurns) := by
  have hlength : builder.turns.length = live.length := by
    simpa using congrArg List.length h.turns
  unfold ThreadHistoryBuilder.handleThreadRollback
  rw [h.finishCurrentTurn]
  refine ⟨h.closed, ?_⟩
  show (builder.turns.take (builder.turns.length - numTurns)).map Turn.shown = _
  rw [hlength, List.map_take, List.map_take, h.turns]

variable (lib) in
theorem shows_liveTurns (hookPromptId : Nat → String) {entries : List Recorded}
    (h : ∀ turn, .ofTurn turn ∈ entries → ∀ item ∈ turn.body,
      ∀ itemId ∈ item.eventItemId?, ∀ i, itemId ≠ numberedItemId i) :
    Shows (liveTurns entries) (new.handleRolloutItems lib hookPromptId (rolloutOf entries)) := by
  induction entries using List.reverseRecOn with
  | nil => exact ⟨rfl, rfl⟩
  | append_singleton entries entry ih =>
    have hshows := ih fun turn hturn => h turn (List.mem_append_left _ hturn)
    have hlive : liveTurns (entries ++ [entry]) = liveStep (liveTurns entries) entry :=
      List.foldl_concat ..
    have hrun : new.handleRolloutItems lib hookPromptId (rolloutOf (entries ++ [entry])) =
        (new.handleRolloutItems lib hookPromptId (rolloutOf entries)).handleRolloutItems lib
          hookPromptId entry.items := by
      rw [rolloutOf, List.flatMap_append, List.flatMap_singleton]
      exact List.foldl_append
    rw [hlive, hrun]
    generalize new.handleRolloutItems lib hookPromptId (rolloutOf entries) = builder at hshows
    cases entry with
    | ofTurn turn => exact hshows.turn lib hookPromptId (h turn (by simp))
    | rolledBack numTurns =>
      have hadvance : Shows (liveTurns entries) builder.advance := ⟨hshows.closed, hshows.turns⟩
      exact hadvance.rollback numTurns
    | sessionMeta => exact ⟨hshows.closed, hshows.turns⟩
    | unlistedEvent => exact ⟨hshows.closed, hshows.turns⟩

/-! ## The settings -/

/-- The scan over items that it does not stop in. -/
def scanBack (lib : Libraries) (items : List RolloutItem) (scan : Scan) : Scan :=
  items.foldr (fun item scan => scanItem lib [] scan item) scan

theorem scanBack_append (items items' : List RolloutItem) (scan : Scan) :
    scanBack lib (items ++ items') scan = scanBack lib items (scanBack lib items' scan) :=
  List.foldr_append

def isCompaction : RolloutItem → Bool
  | .compacted _ _ => true
  | _ => false

/-- Settings are taken from the newest segment with some that counts and is not dropped. -/
theorem finalizeActiveSegment_previousTurnSettings (segment : ActiveReplaySegment) (scan : Scan) :
    (finalizeActiveSegment segment scan).previousTurnSettings =
      if scan.pendingRollbackTurns = 0 ∧ segment.countsAsUserTurn then
        scan.previousTurnSettings <|> segment.previousTurnSettings
      else scan.previousTurnSettings := by
  unfold finalizeActiveSegment
  by_cases hpending : 0 < scan.pendingRollbackTurns
  · have hdropped : ¬ (scan.pendingRollbackTurns = 0 ∧ segment.countsAsUserTurn = true) :=
      fun h => hpending.ne' h.1
    rw [if_pos hpending, if_neg hdropped]
    split <;> rfl
  · have hzero : scan.pendingRollbackTurns = 0 := Nat.eq_zero_of_not_pos hpending
    rw [if_neg hpending]
    dsimp only
    cases scan.previousTurnSettings <;> simp [hzero]

/-- Only a compaction looks at the newer items, and only with a base does the scan stop. -/
theorem scanOlder_eq_scanBack {items : List RolloutItem}
    (hitems : ∀ item ∈ items, isCompaction item = false) {scan : Scan} (h : scan.NoBase) :
    scanOlder lib items.reverse [] scan = scanBack lib items scan := by
  have hfold {older : List RolloutItem} (holder : ∀ item ∈ older, isCompaction item = false)
      (newer : List RolloutItem) {scan : Scan} (h : scan.NoBase) :
      scanOlder lib older newer scan = older.foldl (scanItem lib []) scan := by
    induction older generalizing newer scan with
    | nil => rfl
    | cons item older ih =>
      obtain ⟨hitem, holder⟩ := List.forall_mem_cons.1 holder
      have hsame : scanItem lib newer scan item = scanItem lib [] scan item := by
        cases item with
        | compacted message replacementHistory => cases hitem
        | _ => rfl
      have hbase : hasReplacementHistory item = false := by
        cases item with
        | compacted message replacementHistory => cases hitem
        | _ => rfl
      obtain ⟨hnext, -⟩ := h.scanItem lib newer hbase
      rw [scanOlder, if_neg (by simp [Scan.isComplete_of_base hnext.base]), ih holder _ hnext, hsame,
        List.foldl_cons]
  rw [hfold (fun item hitem => hitems item (List.mem_reverse.1 hitem)) [] h, List.foldl_reverse]
  rfl

/-- Within a segment of the turn: what is read of it, and that nothing else of the scan changed. -/
structure InSegment (scan : Scan) (turnId : String) (counts : Bool)
    (settings : Option PreviousTurnSettings) (scan' : Scan) : Prop where
  pending : scan'.pendingRollbackTurns = scan.pendingRollbackTurns
  previous : scan'.previousTurnSettings = scan.previousTurnSettings
  segment : ∃ segment, scan'.activeSegment = some segment ∧ segment.turnId = some turnId ∧
    segment.countsAsUserTurn = counts ∧ segment.previousTurnSettings = settings

/-- An item that makes its segment a turn of the user. -/
def countsAsUser (lib : Libraries) : RolloutItem → Bool
  | .userMessage _ => true
  | .responseItem item => isUserTurnBoundary lib item
  | _ => false

section
variable {scan scan' : Scan} {turnId : String} {counts : Bool}
  {settings : Option PreviousTurnSettings}

/-- An item changes the segment only. -/
theorem InSegment.onSegment (h : InSegment scan turnId counts settings scan')
    {f : ActiveReplaySegment → ActiveReplaySegment} {counts' : Bool}
    {settings' : Option PreviousTurnSettings}
    (hf : ∀ segment, segment.turnId = some turnId → segment.countsAsUserTurn = counts →
      segment.previousTurnSettings = settings → (f segment).turnId = some turnId ∧
        (f segment).countsAsUserTurn = counts' ∧ (f segment).previousTurnSettings = settings') :
    InSegment scan turnId counts' settings' (scan'.onSegment f) := by
  obtain ⟨segment, hactive, hid, hcounts, hsettings⟩ := h.segment
  refine ⟨h.pending, h.previous, f segment, ?_, hf segment hid hcounts hsettings⟩
  rw [Scan.onSegment, hactive]
  rfl

theorem InSegment.scanItem (h : InSegment scan turnId counts settings scan')
    {item : RolloutItem} (hitem : item.isWithinTurn = true) :
    InSegment scan turnId (countsAsUser lib item || counts)
      (RecordedTurn.settingsOf turnId item <|> settings) (scanItem lib [] scan' item) := by
  cases item with
  | userMessage payload =>
    exact h.onSegment (f := fun segment => { segment with countsAsUserTurn := true })
      fun segment hid _ hsettings => ⟨hid, rfl, hsettings⟩
  | responseItem item =>
    refine h.onSegment (f := fun segment => { segment with
      countsAsUserTurn := segment.countsAsUserTurn || isUserTurnBoundary lib item })
      fun segment hid hcounts hsettings => ⟨hid, ?_, hsettings⟩
    rw [hcounts, Bool.or_comm]
    rfl
  | turnContext ctx =>
    refine h.onSegment (f := (·.attachTurnContext ctx)) fun segment hid hcounts hsettings => ?_
    refine ⟨by simp [hid], by simpa [countsAsUser] using hcounts, ?_⟩
    cases hown : turnIdsAreCompatible (some turnId) ctx.turnId <;>
      simp [ActiveReplaySegment.attachTurnContext, RecordedTurn.settingsOf, hid, hown, hsettings]
  | turnAborted named =>
    obtain ⟨segment, hactive, hid, hcounts, hsettings⟩ := h.segment
    refine ⟨?_, ?_, { segment with turnId := segment.turnId <|> named }, ?_, ?_, hcounts, hsettings⟩
    all_goals simp [Rollout.scanItem, hactive, hid, h.pending, h.previous]
  | otherEvent event => exact h
  | sessionMeta => exact h
  | turnStarted turnId => cases hitem
  | turnComplete turnId => cases hitem
  | threadRolledBack numTurns => cases hitem
  | compacted message replacementHistory => cases hitem

theorem InSegment.scanBack (h : InSegment scan turnId counts settings scan')
    {body : List RolloutItem} (hbody : ∀ item ∈ body, item.isWithinTurn = true) :
    InSegment scan turnId (body.any (countsAsUser lib) || counts)
      (body.findSome? (RecordedTurn.settingsOf turnId) <|> settings)
      (scanBack lib body scan') := by
  induction body with
  | nil => exact h
  | cons item body ih =>
    obtain ⟨hitem, hbody⟩ := List.forall_mem_cons.1 hbody
    have hstep : InSegment scan turnId _ _ (Rollout.scanBack lib (item :: body) scan') :=
      (ih hbody).scanItem hitem
    rw [List.any_cons, Bool.or_assoc, List.findSome?_cons]
    cases hown : RecordedTurn.settingsOf turnId item with
    | none => rwa [hown] at hstep
    | some own => rwa [hown] at hstep

/-- Read back over a turn, the scan drops it or takes its settings. -/
theorem scanBack_turn (hclosed : scan.activeSegment = none) (turn : RecordedTurn) :
    let counts := turn.body.any (countsAsUser lib)
    let scan' := Rollout.scanBack lib turn.items scan
    scan'.activeSegment = none ∧
      scan'.pendingRollbackTurns =
        (if counts then scan.pendingRollbackTurns - 1 else scan.pendingRollbackTurns) ∧
      scan'.previousTurnSettings =
        if scan.pendingRollbackTurns = 0 ∧ counts then scan.previousTurnSettings <|> turn.settings
        else scan.previousTurnSettings := by
  have hcomplete : InSegment scan turn.id false none
      (Rollout.scanItem lib [] scan (.turnComplete turn.id)) := by
    refine ⟨rfl, rfl, { ActiveReplaySegment.fresh with turnId := some turn.id }, ?_, rfl, rfl, rfl⟩
    simp [Rollout.scanItem, Scan.onSegment, hclosed, ActiveReplaySegment.fresh]
  have hbody : InSegment scan turn.id (turn.body.any (countsAsUser lib) || false) _ _ :=
    hcomplete.scanBack turn.within
  rw [Bool.or_false] at hbody
  have hrun : Rollout.scanBack lib turn.items scan =
      Rollout.scanItem lib [] (Rollout.scanBack lib turn.body
        (Rollout.scanItem lib [] scan (.turnComplete turn.id))) (.turnStarted turn.id) := by
    have hstart : Rollout.scanBack lib turn.items scan = Rollout.scanItem lib []
        (Rollout.scanBack lib (turn.body ++ [.turnComplete turn.id]) scan) (.turnStarted turn.id) :=
      rfl
    rw [hstart, scanBack_append]
    rfl
  generalize Rollout.scanBack lib turn.body
    (Rollout.scanItem lib [] scan (.turnComplete turn.id)) = last at hbody hrun
  obtain ⟨segment, hactive, hid, hcounts, hsettings⟩ := hbody.segment
  have hclose : Rollout.scanBack lib turn.items scan =
      finalizeActiveSegment segment { last with activeSegment := none } := by
    rw [hrun]
    simp [Rollout.scanItem, hactive, hid, turnIdsAreCompatible]
  dsimp only
  rw [hclose]
  refine ⟨by simp, by simp [hcounts, hbody.pending], ?_⟩
  rw [finalizeActiveSegment_previousTurnSettings]
  have hown : segment.previousTurnSettings = turn.settings := by
    rw [hsettings, RecordedTurn.settings]
    cases turn.body.findSome? (RecordedTurn.settingsOf turn.id) <;> rfl
  rw [hcounts, hown, hbody.pending, hbody.previous]

end

theorem length_flatMap_le {α β γ : Type} {f : α → List β} {g : α → List γ}
    (h : ∀ x, (f x).length ≤ (g x).length) (xs : List α) :
    (xs.flatMap f).length ≤ (xs.flatMap g).length := by
  induction xs with
  | nil => exact le_rfl
  | cons x xs ih =>
    rw [List.flatMap_cons, List.flatMap_cons, List.length_append, List.length_append]
    exact Nat.add_le_add (h x) ih

/-- The turns with a boundary. -/
def userTurns (lib : Libraries) (turns : List RecordedTurn) : List RecordedTurn :=
  turns.flatMap fun turn => if turn.boundaries lib = [] then [] else [turn]

theorem DropsAlike.take_userTurns {live : List RecordedTurn} {n : Nat}
    (h : DropsAlike lib live n) :
    (userTurns lib live).take ((userTurns lib live).length - n) =
      userTurns lib (live.take (live.length - n)) := by
  refine take_flatMap (h.imp (fun hone turn hturn => ?_) fun ⟨hnone, hcount⟩ =>
    ⟨fun turn hturn => if_pos (hnone turn hturn), le_trans ?_ hcount⟩)
  · have hne : turn.boundaries lib ≠ [] := by
      intro hnil
      have hlength := hone turn hturn
      rw [hnil] at hlength
      cases hlength
    rw [if_neg hne]
    rfl
  · refine length_flatMap_le (fun turn => ?_) live
    split
    · exact Nat.zero_le _
    · next hne => exact List.length_pos_iff.2 hne

theorem length_userTurns_le (turns : List RecordedTurn) :
    (userTurns lib turns).length ≤ turns.length := by
  have hone : (userTurns lib turns).length ≤ (turns.flatMap fun turn => [turn]).length := by
    refine length_flatMap_le (fun turn => ?_) turns
    split
    · exact Nat.zero_le 1
    · exact le_rfl
  rwa [List.flatMap_singleton'] at hone

theorem length_liveTurns_le (entries : List Recorded) :
    (liveTurns entries).length ≤ entries.length := by
  induction entries using List.reverseRecOn with
  | nil => exact le_rfl
  | append_singleton entries entry ih =>
    have hlive : liveTurns (entries ++ [entry]) = liveStep (liveTurns entries) entry :=
      List.foldl_concat ..
    rw [hlive, List.length_append, List.length_singleton]
    cases entry with
    | ofTurn turn =>
      rw [liveStep, List.length_append, List.length_singleton]
      exact Nat.succ_le_succ ih
    | rolledBack numTurns =>
      rw [liveStep, List.length_take]
      omega
    | sessionMeta => exact Nat.le_succ_of_le ih
    | unlistedEvent => exact Nat.le_succ_of_le ih

/-- Read back over the rollout, the scan finds the newest settings among the live turns with a
boundary, less as many of them as rollbacks are pending. -/
theorem scanBack_rollout {entries : List Recorded}
    (hdrops : ∀ before numTurns after, entries = before ++ .rolledBack numTurns :: after →
      DropsAlike lib (liveTurns before) numTurns)
    (hcounts : ∀ turn, .ofTurn turn ∈ entries →
      (turn.body.any (countsAsUser lib) = true ↔ turn.boundaries lib ≠ []))
    (hlength : entries.length ≤ maxPending) {scan : Scan} (hclosed : scan.activeSegment = none) :
    (scanBack lib (rolloutOf entries) scan).activeSegment = none ∧
      (scanBack lib (rolloutOf entries) scan).previousTurnSettings =
        (scan.previousTurnSettings <|>
          ((userTurns lib (liveTurns entries)).reverse.drop scan.pendingRollbackTurns).findSome?
            RecordedTurn.settings) := by
  induction entries using List.reverseRecOn generalizing scan with
  | nil =>
    refine ⟨hclosed, ?_⟩
    show scan.previousTurnSettings = (scan.previousTurnSettings <|> (List.drop _ []).findSome? _)
    rw [List.drop_nil, List.findSome?_nil]
    cases scan.previousTurnSettings <;> rfl
  | append_singleton entries entry ih =>
    have hbefore : ∀ before numTurns after, entries = before ++ .rolledBack numTurns :: after →
        DropsAlike lib (liveTurns before) numTurns := by
      rintro before numTurns after rfl
      exact hdrops before numTurns (after ++ [entry]) (by simp)
    have hlive : liveTurns (entries ++ [entry]) = liveStep (liveTurns entries) entry :=
      List.foldl_concat ..
    have hrun : scanBack lib (rolloutOf (entries ++ [entry])) scan =
        scanBack lib (rolloutOf entries) (scanBack lib entry.items scan) := by
      rw [rolloutOf, List.flatMap_append, List.flatMap_singleton, scanBack_append]
      rfl
    rw [List.length_append, List.length_singleton] at hlength
    have hentries := fun turn hturn => hcounts turn (List.mem_append_left [entry] hturn)
    rw [hlive, hrun]
    cases entry with
    | ofTurn turn =>
      obtain ⟨hnext, hpending, hprevious⟩ := @scanBack_turn lib _ hclosed turn
      obtain ⟨hend, hfound⟩ := ih hbefore hentries (by omega) hnext
      refine ⟨hend, hfound.trans ?_⟩
      rw [hprevious, hpending]
      have hturns : userTurns lib (liveTurns entries ++ [turn]) =
          userTurns lib (liveTurns entries) ++ userTurns lib [turn] := List.flatMap_append
      show _ = (_ <|> ((userTurns lib (liveTurns entries ++ [turn])).reverse.drop _).findSome? _)
      rw [hturns, List.reverse_append]
      by_cases hcount : turn.boundaries lib = []
      · have hskip : userTurns lib [turn] = [] := by simp [userTurns, hcount]
        have hcounts' := (hcounts turn (by simp)).not.2 (not_not.2 hcount)
        rw [hskip, if_neg hcounts', if_neg fun h => hcounts' h.2]
        rfl
      · have htake : userTurns lib [turn] = [turn] := by simp [userTurns, hcount]
        have hcounts' := (hcounts turn (by simp)).2 hcount
        rw [htake, if_pos hcounts']
        cases hzero : scan.pendingRollbackTurns with
        | zero =>
          rw [if_pos ⟨rfl, hcounts'⟩, List.reverse_singleton, List.singleton_append]
          show _ = (_ <|> (turn :: _).findSome? _)
          rw [List.findSome?_cons]
          cases scan.previousTurnSettings <;> cases turn.settings <;> rfl
        | succ pending =>
          rw [if_neg fun h => nomatch h.1]
          rfl
    | rolledBack numTurns =>
      let pending := min (scan.pendingRollbackTurns + numTurns) maxPending
      have hclosed' : Scan.activeSegment { scan with pendingRollbackTurns := pending } = none :=
        hclosed
      obtain ⟨hend, hfound⟩ := ih hbefore hentries (by omega) hclosed'
      refine ⟨hend, hfound.trans ?_⟩
      have hlive := (hdrops entries numTurns [] rfl).take_userTurns
      have hbound := (@length_userTurns_le lib (liveTurns entries)).trans
        (length_liveTurns_le entries)
      show _ = (_ <|> ((userTurns lib ((liveTurns entries).take _)).reverse.drop _).findSome? _)
      rw [← hlive, ← List.drop_reverse, List.drop_drop]
      -- a pending count that is saturated drops all turns there are
      have hdrop : (userTurns lib (liveTurns entries)).reverse.drop pending =
          (userTurns lib (liveTurns entries)).reverse.drop
            (numTurns + scan.pendingRollbackTurns) := by
        rcases Nat.le_total (scan.pendingRollbackTurns + numTurns) maxPending with hle | hge
        · rw [Nat.add_comm numTurns]
          exact congrArg (List.drop · _) (Nat.min_eq_left hle)
        · have hpending : pending = maxPending := Nat.min_eq_right hge
          rw [List.drop_eq_nil_of_le, List.drop_eq_nil_of_le]
          · rw [List.length_reverse]
            omega
          · rw [List.length_reverse, hpending]
            omega
      rw [← hdrop]
    | sessionMeta => exact ih hbefore hentries (by omega) hclosed
    | unlistedEvent => exact ih hbefore hentries (by omega) hclosed

/-! ## Agreement -/

/-- The messages of the user that are left are the same in the history and in the turns, and the
settings are those of the newest turn that is left with a message and settings. -/
structure RollbacksAgree (lib : Libraries) (hookPromptId : Nat → String)
    (records : ResponseItem → List UserInput → Prop) (entries : List Recorded) : Prop where
  messages : List.Forall₂ records
    ((reconstructHistoryFromRollout lib (rolloutOf entries)).history.filter (isUserMessage lib))
    ((buildTurnsFromRolloutItems lib hookPromptId (rolloutOf entries)).flatMap Turn.userInputs)
  turns : (buildTurnsFromRolloutItems lib hookPromptId (rolloutOf entries)).map (·.id) =
    (liveTurns entries).map (·.id)
  settings : (reconstructHistoryFromRollout lib (rolloutOf entries)).previousTurnSettings =
    ((liveTurns entries).reverse.filter (·.userMessages lib ≠ [])).findSome? RecordedTurn.settings

theorem mem_of_mem_liveTurns {entries : List Recorded} {turn : RecordedTurn}
    (h : turn ∈ liveTurns entries) : .ofTurn turn ∈ entries := by
  induction entries using List.reverseRecOn with
  | nil => cases h
  | append_singleton entries entry ih =>
    have hlive : liveTurns (entries ++ [entry]) = liveStep (liveTurns entries) entry :=
      List.foldl_concat ..
    rw [hlive] at h
    cases entry with
    | ofTurn last =>
      rcases List.mem_append.1 h with h | h
      · exact List.mem_append_left _ (ih h)
      · rw [List.mem_singleton.1 h]
        exact List.mem_append_right _ (List.mem_singleton_self _)
    | rolledBack numTurns => exact List.mem_append_left _ (ih (List.mem_of_mem_take h))
    | sessionMeta => exact List.mem_append_left _ (ih h)
    | unlistedEvent => exact List.mem_append_left _ (ih h)

theorem rolloutOf_isCompaction {entries : List Recorded} :
    ∀ item ∈ rolloutOf entries, isCompaction item = false := by
  intro item hitem
  obtain ⟨entry, -, hitem⟩ := List.mem_flatMap.1 hitem
  cases entry with
  | ofTurn turn =>
    rcases List.mem_cons.1 hitem with rfl | hitem
    · rfl
    rcases List.mem_append.1 hitem with hitem | hitem
    · have hwithin := turn.within item hitem
      cases item with
      | compacted message replacementHistory => cases hwithin
      | _ => rfl
    · rw [List.mem_singleton.1 hitem]
      rfl
  | rolledBack numTurns =>
    rw [List.mem_singleton.1 hitem]
    rfl
  | sessionMeta =>
    rw [List.mem_singleton.1 hitem]
    rfl
  | unlistedEvent =>
    rw [List.mem_singleton.1 hitem]
    rfl

theorem length_entries_le (entries : List Recorded) :
    entries.length ≤ (rolloutOf entries).length := by
  have hle : (entries.flatMap fun entry => [entry]).length ≤ (rolloutOf entries).length := by
    refine length_flatMap_le (fun entry => ?_) entries
    cases entry with
    | ofTurn turn => exact Nat.succ_le_succ (Nat.zero_le _)
    | _ => exact le_rfl
  rwa [List.flatMap_singleton'] at hle

/-- A recorded turn is one of the user for the scan just when it has a boundary. -/
theorem any_countsAsUser_iff {records : ResponseItem → List UserInput → Prop} {turn : RecordedTurn}
    (h : (turn.userMessages lib).Forall₂ records turn.userInputs) :
    turn.body.any (countsAsUser lib) = true ↔ turn.boundaries lib ≠ [] := by
  rw [List.any_eq_true]
  constructor
  · rintro ⟨item, hitem, hcounts⟩ hnil
    cases item with
    | userMessage payload =>
      have hmem : buildUserInputs payload ∈ turn.userInputs :=
        List.mem_filterMap.2 ⟨_, hitem, rfl⟩
      have hmessages : turn.userMessages lib = [] := by
        refine List.filter_eq_nil_iff.2 fun item hmem hmessage => ?_
        exact List.filter_eq_nil_iff.1 hnil item hmem (boundary_of_isUserMessage hmessage)
      rw [hmessages, List.forall₂_nil_left_iff] at h
      rw [h] at hmem
      cases hmem
    | responseItem item =>
      exact List.filter_eq_nil_iff.1 hnil item (List.mem_filterMap.2 ⟨_, hitem, rfl⟩) hcounts
    | _ => cases hcounts
  · intro hne
    obtain ⟨item, hitem⟩ := List.exists_mem_of_ne_nil _ hne
    obtain ⟨hmem, hboundary⟩ := List.mem_filter.1 hitem
    obtain ⟨recorded, hrecorded, hresponse⟩ := List.mem_filterMap.1 hmem
    refine ⟨recorded, hrecorded, ?_⟩
    cases recorded with
    | responseItem response =>
      obtain rfl := Option.some.inj hresponse
      exact hboundary
    | _ => cases hresponse

theorem forall₂_flatMap {α β γ : Type} {r : β → γ → Prop} {f : α → List β} {g : α → List γ}
    {xs : List α} (h : ∀ x ∈ xs, (f x).Forall₂ r (g x)) :
    (xs.flatMap f).Forall₂ r (xs.flatMap g) := by
  induction xs with
  | nil => exact .nil
  | cons x xs ih =>
    obtain ⟨hx, hxs⟩ := List.forall_mem_cons.1 h
    exact List.rel_append hx (ih hxs)

/-- The messages of the user are among the boundaries. -/
theorem filter_boundary_isUserMessage (items : List ResponseItem) :
    (items.filter (isUserTurnBoundary lib)).filter (isUserMessage lib) =
      items.filter (isUserMessage lib) := by
  rw [List.filter_filter]
  refine List.filter_congr fun item _ => ?_
  cases hmessage : isUserMessage lib item with
  | true => rw [boundary_of_isUserMessage hmessage, Bool.and_true]
  | false => rfl

/-- The messages of the user that the history keeps. -/
theorem filter_history {entries : List Recorded} (hmeet : RollbacksMeet lib entries) :
    (reconstructHistoryFromRollout lib (rolloutOf entries)).history.filter (isUserMessage lib) =
      (liveTurns entries).flatMap (·.userMessages lib) := by
  have hno : ¬ (rolloutOf entries).any hasReplacementHistory := by
    rw [List.any_eq_true]
    rintro ⟨item, hitem, hhas⟩
    have hcompaction := rolloutOf_isCompaction item hitem
    cases item with
    | compacted message replacementHistory => cases hcompaction
    | _ => cases hhas
  rw [history_eq_forward_of_noCheckpoint hno, ← filter_boundary_isUserMessage, forwardHistory,
    filter_replay_rollout hmeet.drops, List.filter_flatMap]
  exact congrArg (List.flatMap · _) (funext fun turn => filter_boundary_isUserMessage _)

theorem userTurns_eq_filter {turns : List RecordedTurn}
    (h : ∀ turn ∈ turns, turn.boundaries lib ≠ [] → turn.userMessages lib ≠ []) :
    userTurns lib turns = turns.filter (·.userMessages lib ≠ []) := by
  induction turns with
  | nil => rfl
  | cons turn turns ih =>
    obtain ⟨hturn, hturns⟩ := List.forall_mem_cons.1 h
    rw [userTurns, List.flatMap_cons, List.filter_cons, ← ih hturns]
    by_cases hcount : turn.boundaries lib = []
    · have hmessages : turn.userMessages lib = [] := by
        rw [RecordedTurn.userMessages, ← filter_boundary_isUserMessage]
        exact congrArg (List.filter _) hcount
      rw [if_pos hcount, if_neg (by simp [hmessages])]
      rfl
    · rw [if_neg hcount, if_pos (by simpa using hturn hcount)]
      rfl

def plainLibraries : Libraries := ⟨fun _ => false, fun _ => false, fun _ text => text, id, id⟩

/-- The response item has the text of the event. -/
def RecordsText (item : ResponseItem) (inputs : List UserInput) : Prop :=
  ∃ text, item = .message "user" [.inputText text] ∧ inputs = [.text text]

/-- A turn with the texts as its messages. -/
def turnOf (turnId : String) (texts : List (List Char)) : RecordedTurn where
  id := turnId
  body := texts.flatMap fun text =>
    [.userMessage ⟨text, none, []⟩, .responseItem (.message "user" [.inputText text])]
  within item hitem := by
    obtain ⟨text, -, hitem⟩ := List.mem_flatMap.1 hitem
    rcases List.mem_pair.1 hitem with rfl | rfl <;> rfl

def rolledBackOnce (texts : List (List Char)) : List Recorded :=
  [.ofTurn (turnOf "a" texts), .rolledBack 1]

theorem rolledBackOnce_turn {texts : List (List Char)} {turn : RecordedTurn}
    (h : .ofTurn turn ∈ rolledBackOnce texts) : turn = turnOf "a" texts := by
  rcases List.mem_pair.1 h with h | h <;> cases h
  rfl

theorem rolledBackOnce_meets : RollbacksMeet plainLibraries (rolledBackOnce [['x']]) := by
  refine ⟨fun before numTurns after h => ?_, nofun, fun turn hturn item hitem => ?_⟩
  · cases before with
    | nil => cases h
    | cons entry before =>
      cases before with
      | nil =>
        cases h
        exact .inl (by decide)
      | cons entry' before => cases before <;> cases h
  · rw [rolledBackOnce_turn hturn] at hitem
    rcases List.mem_pair.1 hitem with rfl | rfl <;> exact nofun

theorem rolledBackOnce_recorded {texts : List (List Char)}
    (h : (turnOf "a" texts).userMessages plainLibraries = texts.map (.message "user" [.inputText ·]))
    (h' : (turnOf "a" texts).userInputs = texts.map ([.text ·])) :
    RecordsMessages plainLibraries RecordsText (rolledBackOnce texts) := by
  intro turn hturn
  rw [rolledBackOnce_turn hturn, h, h', List.forall₂_map_left_iff, List.forall₂_map_right_iff]
  exact List.forall₂_same.2 fun text _ => ⟨text, rfl, rfl⟩

end Mcodex.Rollout
