import Mcodex.Rollout.Reconstruction

/-!
# The turns of a thread

The turns that clients are shown, built from the rollout one item at a time. An item that the
builder makes up gets the next number; an item of an event brings its own id and replaces the item
with that id. A rollback drops turns from the end and numbers anew from the count of what is left.
The id of a hook prompt is that of its message or a fresh one, and is a parameter, by the place of the
message in the rollout.
-/

namespace Mcodex.Rollout

open Text

inductive UserInput where
  | text (text : List Char)
  | image (url : List Char)
  | localImage (path : List Char)
  deriving DecidableEq, Repr

/-- What an item with a number shows. -/
inductive NumberedItem where
  | userMessage (content : List UserInput)
  | agentMessage (text : List Char)
  | reasoning (summary content : List (List Char))
  | contextCompaction
  | enteredReviewMode (review : List Char)
  | exitedReviewMode (review : List Char)
  deriving DecidableEq, Repr

inductive ThreadItem where
  | numbered (index : Nat) (item : NumberedItem)
  | hookPrompt (itemId : String) (content : List ContentItem)
  | ofEvent (itemId : String) (payload : List Char)
  deriving DecidableEq, Repr

def numberedItemId (index : Nat) : String := "item-" ++ toString index

def ThreadItem.id : ThreadItem → String
  | .numbered index _ => numberedItemId index
  | .hookPrompt itemId _ => itemId
  | .ofEvent itemId _ => itemId

inductive TurnStatus where
  | completed
  | interrupted
  | failed
  | inProgress
  deriving DecidableEq, Repr

structure Turn where
  id : String
  items : List ThreadItem
  error : Option (List Char)
  status : TurnStatus
  deriving DecidableEq, Repr

structure PendingTurn extends Turn where
  openedExplicitly : Bool
  sawCompaction : Bool
  deriving DecidableEq, Repr

structure ThreadHistoryBuilder where
  turns : List Turn
  currentTurn : Option PendingTurn
  nextItemIndex : Nat
  currentRolloutIndex : Nat
  nextRolloutIndex : Nat
  deriving DecidableEq, Repr

def rolloutTurnId (rolloutIndex : Nat) : String := "rollout-" ++ toString rolloutIndex

/-- The item with the id is replaced, or the item comes last. -/
def upsertTurnItem (item : ThreadItem) : List ThreadItem → List ThreadItem
  | [] => [item]
  | existing :: items =>
    if existing.id = item.id then item :: items else existing :: upsertTurnItem item items

/-- The first turn with the id is changed. -/
def updateTurn (turnId : String) (f : Turn → Turn) : List Turn → List Turn
  | [] => []
  | turn :: turns => if turn.id = turnId then f turn :: turns else turn :: updateTurn turnId f turns

def Turn.upsert (item : ThreadItem) (turn : Turn) : Turn :=
  { turn with items := upsertTurnItem item turn.items }

def Turn.push (item : ThreadItem) (turn : Turn) : Turn :=
  { turn with items := turn.items ++ [item] }

def Turn.interrupt (turn : Turn) : Turn := { turn with status := .interrupted }

def Turn.markCompleted (turn : Turn) : Turn :=
  { turn with
    status := if turn.status = .completed ∨ turn.status = .inProgress then .completed
      else turn.status }

def PendingTurn.onTurn (f : Turn → Turn) (turn : PendingTurn) : PendingTurn :=
  { turn with toTurn := f turn.toTurn }

def buildUserInputs (payload : UserMessageEvent) : List UserInput :=
  (if trim payload.message = [] then [] else [.text payload.message]) ++
    (payload.images.getD []).map .image ++ payload.localImages.map .localImage

def reviewFallbackMessage : List Char := "Reviewer failed to output a response.".toList

def renderReviewOutputText (overallExplanation : List Char) : List Char :=
  if trim overallExplanation = [] then reviewFallbackMessage else trim overallExplanation

namespace ThreadHistoryBuilder

/-- `ThreadHistoryBuilder::new`. -/
def new : ThreadHistoryBuilder := ⟨[], none, 1, 0, 0⟩

variable (builder : ThreadHistoryBuilder)

def finishCurrentTurn : ThreadHistoryBuilder :=
  match builder.currentTurn with
  | some turn =>
    if turn.items = [] ∧ ¬ turn.openedExplicitly ∧ ¬ turn.sawCompaction then
      { builder with currentTurn := none }
    else { builder with turns := builder.turns ++ [turn.toTurn], currentTurn := none }
  | none => builder

/-- `new_turn` with no id, while an item is handled. -/
def newTurn : PendingTurn :=
  ⟨⟨rolloutTurnId builder.currentRolloutIndex, [], none, .completed⟩, false, false⟩

/-- The open turn, or a new one, changed. -/
def onEnsuredTurn (f : PendingTurn → PendingTurn) : ThreadHistoryBuilder :=
  { builder with currentTurn := some (f (builder.currentTurn.getD builder.newTurn)) }

/-- An item with the next number is added to the open turn. -/
def pushNumbered (item : NumberedItem) : ThreadHistoryBuilder :=
  { builder.onEnsuredTurn (·.onTurn (·.push (.numbered builder.nextItemIndex item))) with
    nextItemIndex := builder.nextItemIndex + 1 }

def handleUserMessage (payload : UserMessageEvent) : ThreadHistoryBuilder :=
  let builder := match builder.currentTurn with
    | some turn =>
      if ¬ turn.openedExplicitly ∧ ¬ (turn.sawCompaction ∧ turn.items = []) then
        builder.finishCurrentTurn
      else builder
    | none => builder
  builder.pushNumbered (.userMessage (buildUserInputs payload))

def handleAgentMessage (text : List Char) : ThreadHistoryBuilder :=
  if text = [] then builder else builder.pushNumbered (.agentMessage text)

/-- The last item, when it is a reasoning item, with its texts changed. -/
def extendReasoning (f : List (List Char) → List (List Char) → NumberedItem) :
    List ThreadItem → Option (List ThreadItem)
  | [] => none
  | [.numbered index (.reasoning summary content)] => some [.numbered index (f summary content)]
  | [_] => none
  | item :: items => (extendReasoning f items).map (item :: ·)

def addReasoning (text : List Char) (f : List (List Char) → List (List Char) → NumberedItem) :
    ThreadHistoryBuilder :=
  if text = [] then builder
  else
    match extendReasoning f (builder.currentTurn.getD builder.newTurn).items with
    | some items => builder.onEnsuredTurn fun turn => { turn with items }
    | none => builder.pushNumbered (f [] [])

def handleAgentReasoning (text : List Char) : ThreadHistoryBuilder :=
  builder.addReasoning text fun summary content => .reasoning (summary ++ [text]) content

def handleAgentReasoningRawContent (text : List Char) : ThreadHistoryBuilder :=
  builder.addReasoning text fun summary content => .reasoning summary (content ++ [text])

def upsertItemInTurnId (turnId : String) (item : ThreadItem) : ThreadHistoryBuilder :=
  match builder.currentTurn with
  | some turn =>
    if turn.id = turnId then { builder with currentTurn := some (turn.onTurn (·.upsert item)) }
    else { builder with turns := updateTurn turnId (·.upsert item) builder.turns }
  | none => { builder with turns := updateTurn turnId (·.upsert item) builder.turns }

def upsertItemInCurrentTurn (item : ThreadItem) : ThreadHistoryBuilder :=
  builder.onEnsuredTurn (·.onTurn (·.upsert item))

def handleError (affectsTurnStatus : Bool) (message : List Char) : ThreadHistoryBuilder :=
  if affectsTurnStatus then { builder with
    currentTurn := builder.currentTurn.map
      fun turn => { turn with status := .failed, error := some message } }
  else builder

def hasTurn (turnId : String) : Bool := builder.turns.any (·.id = turnId)

def handleTurnAborted (turnId : Option String) : ThreadHistoryBuilder :=
  let applyToCurrent : ThreadHistoryBuilder :=
    { builder with currentTurn := builder.currentTurn.map (PendingTurn.onTurn Turn.interrupt) }
  match turnId with
  | some turnId =>
    if builder.currentTurn.any (·.id = turnId) then applyToCurrent
    else if builder.hasTurn turnId then
      { builder with turns := updateTurn turnId Turn.interrupt builder.turns }
    else applyToCurrent
  | none => applyToCurrent

def handleTurnStarted (turnId : String) : ThreadHistoryBuilder :=
  { builder.finishCurrentTurn with
    currentTurn := some ⟨⟨turnId, [], none, .inProgress⟩, true, false⟩ }

def handleTurnComplete (turnId : String) : ThreadHistoryBuilder :=
  let completeCurrent : ThreadHistoryBuilder :=
    { builder with
      currentTurn := builder.currentTurn.map (PendingTurn.onTurn Turn.markCompleted) }.finishCurrentTurn
  if builder.currentTurn.any (·.id = turnId) then completeCurrent
  else if builder.hasTurn turnId then
    { builder with turns := updateTurn turnId Turn.markCompleted builder.turns }
  else completeCurrent

def handleCompacted : ThreadHistoryBuilder :=
  builder.onEnsuredTurn fun turn => { turn with sawCompaction := true }

def itemCount (turns : List Turn) : Nat := (turns.map (·.items.length)).sum

def handleThreadRollback (numTurns : Nat) : ThreadHistoryBuilder :=
  let builder := builder.finishCurrentTurn
  let turns := builder.turns.take (builder.turns.length - numTurns)
  { builder with turns, nextItemIndex := itemCount turns + 1 }

def handleThreadEvent : ThreadEvent → ThreadHistoryBuilder
  | .agentMessage text => builder.handleAgentMessage text
  | .agentReasoning text => builder.handleAgentReasoning text
  | .agentReasoningRawContent text => builder.handleAgentReasoningRawContent text
  | .contextCompacted => builder.pushNumbered .contextCompaction
  | .enteredReviewMode hint =>
    builder.pushNumbered (.enteredReviewMode (hint.getD "Review requested.".toList))
  | .exitedReviewMode explanation =>
    builder.pushNumbered
      (.exitedReviewMode ((explanation.map renderReviewOutputText).getD reviewFallbackMessage))
  | .itemInCurrentTurn itemId payload => builder.upsertItemInCurrentTurn (.ofEvent itemId payload)
  | .itemInTurn turnId itemId payload =>
    builder.upsertItemInTurnId turnId (.ofEvent itemId payload)
  | .error affectsTurnStatus message => builder.handleError affectsTurnStatus message
  | .unlisted => builder

section
variable (lib : Libraries) (hookPromptId : Nat → String)

/-- The message of a hook: every part of it is a fragment. -/
def isHookPromptMessage (content : List ContentItem) : Bool :=
  content ≠ [] && content.all fun
    | .inputText text => lib.isHookPromptFragment text
    | _ => false

def handleResponseItem : ResponseItem → ThreadHistoryBuilder
  | .message role content =>
    if role = "user" ∧ isHookPromptMessage lib content then
      builder.onEnsuredTurn
        (·.onTurn (·.push (.hookPrompt (hookPromptId builder.currentRolloutIndex) content)))
    else builder
  | _ => builder

/-- The place in the rollout moves on. -/
def advance : ThreadHistoryBuilder :=
  { builder with
    currentRolloutIndex := builder.nextRolloutIndex
    nextRolloutIndex := builder.nextRolloutIndex + 1 }

def handleRolloutItem (item : RolloutItem) : ThreadHistoryBuilder :=
  let builder := builder.advance
  match item with
  | .userMessage payload => builder.handleUserMessage payload
  | .otherEvent event => builder.handleThreadEvent event
  | .threadRolledBack numTurns => builder.handleThreadRollback numTurns
  | .turnAborted turnId => builder.handleTurnAborted turnId
  | .turnStarted turnId => builder.handleTurnStarted turnId
  | .turnComplete turnId => builder.handleTurnComplete turnId
  | .compacted _ _ => builder.handleCompacted
  | .responseItem item => builder.handleResponseItem lib hookPromptId item
  | .turnContext _ | .sessionMeta => builder

def handleRolloutItems (items : List RolloutItem) : ThreadHistoryBuilder :=
  items.foldl (fun builder item => builder.handleRolloutItem lib hookPromptId item) builder

def finish : List Turn := builder.finishCurrentTurn.turns

end

end ThreadHistoryBuilder

def buildTurnsFromRolloutItems (lib : Libraries) (hookPromptId : Nat → String)
    (items : List RolloutItem) : List Turn :=
  (ThreadHistoryBuilder.new.handleRolloutItems lib hookPromptId items).finish

end Mcodex.Rollout
