import Mcodex.Lib.Table
import Mcodex.Lib.Transition
import Mcodex.Trace.Items

/-!
# Reduction of a trace's conversation

A replay reduces requests, responses and checkpoints to items of a conversation with identities of
their own. The items of a payload take the identities of a snapshot that they repeat, by position
first and then by content, and others get new ones. Payloads are given by their items, so that one
that `normalize_model_items` rejects ends the replay and does not occur. Left out is what links
items to tools and code cells, which changes no item apart from its producers.
-/

namespace Mcodex.Trace

open Table Transition

/-- `conversation_item:{ordinal}`, by the ordinal. -/
abbrev ConversationItemId := Nat

/-- The keys of a `BTreeMap` are in order. -/
abbrev InferenceCallId := List Char

structure InferenceCall where
  threadId : List Char
  codexTurnId : List Char
  upstreamRequestId : Option (List Char)
  requestItemIds : List ConversationItemId
  responseItemIds : List ConversationItemId
  /-- Not in the source: the items of the input that is visible to the model, which are those of
  the payload or, before them, the input and the output of the call that it continues. -/
  input : List NormalizedConversationItem
  /-- Not in the source: the items of the response. -/
  output : List NormalizedConversationItem
  deriving Repr

structure Compaction where
  threadId : List Char
  codexTurnId : List Char
  installedAtUnixMs : Int
  markerItemId : ConversationItemId
  inputItemIds : List ConversationItemId
  replacementItemIds : List ConversationItemId
  deriving Repr

/-- The part of the reducer's state that the conversation is made of. -/
structure TraceReducer where
  /-- The conversation of each thread. -/
  threads : Keyed (List Char) (List ConversationItemId)
  /-- The thread of each turn. -/
  codexTurns : Keyed (List Char) (List Char)
  conversationItems : Keyed ConversationItemId ConversationItem
  inferenceCalls : List (InferenceCallId × InferenceCall)
  compactions : Keyed (List Char) Compaction
  nextConversationItemOrdinal : Nat
  threadConversationSnapshots : Keyed (List Char) (List ConversationItemId)
  pendingCompactionReplacementItemIds : Keyed (List Char) (List ConversationItemId)

/-- `BTreeMap::insert`. -/
def insertCall (id : InferenceCallId) (call : InferenceCall) :
    List (InferenceCallId × InferenceCall) → List (InferenceCallId × InferenceCall)
  | [] => [(id, call)]
  | entry :: calls =>
    if id < entry.1 then (id, call) :: entry :: calls
    else if id = entry.1 then (id, call) :: calls
    else entry :: insertCall id call calls

inductive ReconcileMode where
  | fullSnapshot
  | appendOnly
  deriving DecidableEq, Repr

/-- What is the same for the items of one payload. -/
structure ReconcileItems where
  threadId : List Char
  codexTurnId : List Char
  wallTimeUnixMs : Int
  producedBy : List ProducerRef

/-- The item that `create_conversation_item` inserts. -/
def ReconcileItems.newItem (context : ReconcileItems) (normalized : NormalizedConversationItem) :
    ConversationItem where
  threadId := context.threadId
  codexTurnId := some context.codexTurnId
  firstSeenAtUnixMs := context.wallTimeUnixMs
  role := normalized.role
  channel := normalized.channel
  kind := normalized.kind
  body := normalized.body
  callId := normalized.callId
  producedBy := context.producedBy

/-- The body of an item after a sighting, or an error. -/
def ConversationItem.sightedBody (item : ConversationItem)
    (normalized : NormalizedConversationItem) : Option ConversationBody :=
  if item.kind = .reasoning then mergeReasoningBody item.body normalized.body else some item.body

/-- The producers after a sighting. -/
def ConversationItem.sightedProducers (item : ConversationItem) (producedBy : List ProducerRef) :
    List ProducerRef :=
  producedBy.foldl
    (fun producers producer =>
      if producers.contains producer then producers else producers ++ [producer])
    item.producedBy

namespace TraceReducer

section
variable (reducer : TraceReducer)

def itemMatches (itemId : ConversationItemId) (normalized : NormalizedConversationItem) : Bool :=
  match reducer.conversationItems.lookup itemId with
  | none => false
  | some item => conversationItemMatches item normalized

def findMatchingSnapshotItem (previousSnapshot usedItemIds : List ConversationItemId)
    (normalized : NormalizedConversationItem) : Option ConversationItemId :=
  previousSnapshot.find? fun itemId =>
    !usedItemIds.contains itemId && reducer.itemMatches itemId normalized

/-- `ensure_call_id_consistency`: it does not fail. -/
def callIdConsistent (threadId : List Char) (normalized : NormalizedConversationItem) : Bool :=
  normalized.callId.isNone || reducer.conversationItems.entries.all fun entry =>
    !(entry.2.threadId = threadId && entry.2.callId = normalized.callId &&
      entry.2.kind = normalized.kind && !conversationItemMatches entry.2 normalized)

/-- `ensure_reasoning_consistency`: it does not fail. -/
def reasoningConsistent (threadId : List Char) (normalized : NormalizedConversationItem) : Bool :=
  normalized.kind ≠ .reasoning || match reasoningEncodedPart normalized.body with
    | none => true
    | some encoded => reducer.conversationItems.entries.all fun entry =>
      !(entry.2.threadId = threadId && entry.2.kind = .reasoning &&
        entry.2.channel = normalized.channel &&
        reasoningEncodedPart entry.2.body = some encoded &&
        !reasoningBodyMatches entry.2.body normalized.body)

def createConversationItem (context : ReconcileItems) (normalized : NormalizedConversationItem) :
    TraceReducer × ConversationItemId :=
  let itemId := reducer.nextConversationItemOrdinal
  ({ reducer with
    nextConversationItemOrdinal := itemId + 1
    conversationItems := reducer.conversationItems.insert itemId (context.newItem normalized) },
    itemId)

def updateConversationItemFromSighting (itemId : ConversationItemId)
    (normalized : NormalizedConversationItem) (producedBy : List ProducerRef) :
    Option TraceReducer := do
  let item ← reducer.conversationItems.lookup itemId
  let body ← item.sightedBody normalized
  let item := { item with body, producedBy := item.sightedProducers producedBy }
  return { reducer with conversationItems := reducer.conversationItems.insert itemId item }

/-- The item of a snapshot that is found by its content, or a new one. -/
def findOrCreate (context : ReconcileItems) (snapshot usedItemIds : List ConversationItemId)
    (normalized : NormalizedConversationItem) : TraceReducer × ConversationItemId :=
  match reducer.findMatchingSnapshotItem snapshot usedItemIds normalized with
  | some itemId => (reducer, itemId)
  | none => reducer.createConversationItem context normalized

/-- The identity of one item in the loop of `reconcile_conversation_items`. -/
def reconcileIdentity (context : ReconcileItems) (mode : ReconcileMode)
    (snapshot : List ConversationItemId) (index : Nat) (itemIds : List ConversationItemId)
    (normalized : NormalizedConversationItem) : Option (TraceReducer × ConversationItemId) :=
  match snapshot[index]? with
  | some previousItemId =>
    if reducer.itemMatches previousItemId normalized then some (reducer, previousItemId)
    else if mode = .fullSnapshot then
      some (reducer.findOrCreate context snapshot itemIds normalized)
    -- The prefix that was rebuilt is wrong.
    else none
  | none =>
    if mode = .fullSnapshot then
      some (reducer.findOrCreate context snapshot itemIds normalized)
    else some (reducer.createConversationItem context normalized)

def reconcileItem (context : ReconcileItems) (mode : ReconcileMode)
    (snapshot : List ConversationItemId) (index : Nat) (itemIds : List ConversationItemId)
    (normalized : NormalizedConversationItem) : Option (TraceReducer × ConversationItemId) :=
  if reducer.callIdConsistent context.threadId normalized &&
      reducer.reasoningConsistent context.threadId normalized then do
    let (reducer, itemId) ←
      reducer.reconcileIdentity context mode snapshot index itemIds normalized
    let reducer ← reducer.updateConversationItemFromSighting itemId normalized context.producedBy
    return (reducer, itemId)
  else none

end

/-- The loop of `reconcile_conversation_items`, from an index on and with the identities so far. -/
def reconcileConversationItems (context : ReconcileItems) (mode : ReconcileMode)
    (snapshot : List ConversationItemId) :
    TraceReducer → Nat → List ConversationItemId → List NormalizedConversationItem →
      Option (TraceReducer × List ConversationItemId)
  | reducer, _, itemIds, [] => some (reducer, itemIds)
  | reducer, index, itemIds, normalized :: items => do
    let (reducer, itemId) ← reducer.reconcileItem context mode snapshot index itemIds normalized
    reconcileConversationItems context mode snapshot reducer (index + 1) (itemIds ++ [itemId]) items

/-- The loop of `reconcile_detached_conversation_items`, with the identities so far. -/
def reconcileDetachedConversationItems (context : ReconcileItems)
    (candidates : List ConversationItemId) :
    TraceReducer → List ConversationItemId → List NormalizedConversationItem →
      Option (TraceReducer × List ConversationItemId)
  | reducer, itemIds, [] => some (reducer, itemIds)
  | reducer, itemIds, normalized :: items =>
    if reducer.callIdConsistent context.threadId normalized &&
        reducer.reasoningConsistent context.threadId normalized then do
      let (reducer, itemId) := reducer.findOrCreate context candidates itemIds normalized
      let reducer ← reducer.updateConversationItemFromSighting itemId normalized context.producedBy
      reconcileDetachedConversationItems context candidates reducer (itemIds ++ [itemId]) items
    else none

section
variable (reducer : TraceReducer)

def snapshotOf (threadId : List Char) : List ConversationItemId :=
  (reducer.threadConversationSnapshots.lookup threadId).getD []

def appendThreadConversationItems (threadId : List Char) (itemIds : List ConversationItemId) :
    Option TraceReducer := do
  let conversation ← reducer.threads.lookup threadId
  let conversation := itemIds.foldl
    (fun conversation itemId =>
      if conversation.contains itemId then conversation else conversation ++ [itemId])
    conversation
  return { reducer with threads := reducer.threads.insert threadId conversation }

end

end TraceReducer

/-! ## Requests and responses -/

structure RequestPayload where
  previousResponseId : Option (List Char)
  input : List NormalizedConversationItem
  deriving Repr

namespace TraceReducer

section
variable (reducer : TraceReducer)

/-- The call that an incremental request continues. -/
def previousCall (threadId responseId : List Char) : Option InferenceCall :=
  (reducer.inferenceCalls.find? fun entry =>
    entry.2.threadId = threadId && entry.2.upstreamRequestId = some responseId).map Prod.snd

/-- What a full request is compared with: the replacement that a compaction installed, or the last
snapshot of the thread. -/
def baseline (threadId : List Char) : List ConversationItemId :=
  match reducer.pendingCompactionReplacementItemIds.lookup threadId with
  | some itemIds => itemIds
  | none => reducer.snapshotOf threadId

/-- `reduce_inference_request`, with the items of the input that is visible to the model. -/
def reduceInferenceRequest (context : ReconcileItems) (request : RequestPayload) :
    Option (TraceReducer × List ConversationItemId × List NormalizedConversationItem) :=
  match request.previousResponseId with
  | some responseId => do
    let previous ← reducer.previousCall context.threadId responseId
    let rebuilt := previous.requestItemIds ++ previous.responseItemIds
    let (reducer, delta) ← reducer.reconcileConversationItems context .appendOnly
      (reducer.snapshotOf context.threadId) rebuilt.length [] request.input
    let reducer ← reducer.appendThreadConversationItems context.threadId (rebuilt ++ delta)
    return ({ reducer with threadConversationSnapshots :=
        reducer.threadConversationSnapshots.insert context.threadId (rebuilt ++ delta) },
      rebuilt ++ delta, previous.input ++ previous.output ++ request.input)
  | none => do
    let (reducer, itemIds) ← reducer.reconcileConversationItems context .fullSnapshot
      (reducer.baseline context.threadId) 0 [] request.input
    let reducer ← reducer.appendThreadConversationItems context.threadId itemIds
    return ({ reducer with
        threadConversationSnapshots :=
          reducer.threadConversationSnapshots.insert context.threadId itemIds
        pendingCompactionReplacementItemIds :=
          reducer.pendingCompactionReplacementItemIds.erase context.threadId },
      itemIds, request.input)

/-- `start_inference_call`. -/
def startInferenceCall (wallTimeUnixMs : Int) (inferenceCallId : InferenceCallId)
    (threadId codexTurnId : List Char) (request : RequestPayload) : Option TraceReducer := do
  if reducer.inferenceCalls.any fun entry => entry.1 = inferenceCallId then none
  else if reducer.codexTurns.lookup codexTurnId ≠ some threadId then none
  else
    let (reducer, requestItemIds, input) ← reducer.reduceInferenceRequest
      { threadId, codexTurnId, wallTimeUnixMs, producedBy := [] } request
    let call := {
      threadId
      codexTurnId
      upstreamRequestId := none
      requestItemIds
      responseItemIds := []
      input
      output := [] }
    return { reducer with
      inferenceCalls := insertCall inferenceCallId call reducer.inferenceCalls }

/-- `reduce_inference_response` for a call that was started. -/
def reduceInferenceResponse (wallTimeUnixMs : Int) (inferenceCallId : InferenceCallId)
    (call : InferenceCall) (outputItems : List NormalizedConversationItem) :
    Option (TraceReducer × List ConversationItemId) := do
  let appendAt := (reducer.snapshotOf call.threadId).length
  let (reducer, responseItemIds) ← reducer.reconcileConversationItems
    { threadId := call.threadId, codexTurnId := call.codexTurnId, wallTimeUnixMs,
      producedBy := [.inference inferenceCallId] }
    .appendOnly (reducer.snapshotOf call.threadId) appendAt [] outputItems
  let reducer ← reducer.appendThreadConversationItems call.threadId responseItemIds
  let snapshot := reducer.snapshotOf call.threadId ++ responseItemIds
  return ({ reducer with
    threadConversationSnapshots :=
      reducer.threadConversationSnapshots.insert call.threadId snapshot }, responseItemIds)

/-- `complete_inference_call`. -/
def completeInferenceCall (wallTimeUnixMs : Int) (inferenceCallId : InferenceCallId)
    (responseId : Option (List Char)) (response : Option (List NormalizedConversationItem)) :
    Option TraceReducer := do
  let entry ← reducer.inferenceCalls.find? fun entry => entry.1 = inferenceCallId
  match response with
  | none =>
    let call := { entry.2 with upstreamRequestId := responseId }
    return { reducer with
      inferenceCalls := insertCall inferenceCallId call reducer.inferenceCalls }
  | some outputItems =>
    let (reducer, responseItemIds) ←
      reducer.reduceInferenceResponse wallTimeUnixMs inferenceCallId entry.2 outputItems
    let call := { entry.2 with
      upstreamRequestId := responseId, responseItemIds, output := outputItems }
    return { reducer with
      inferenceCalls := insertCall inferenceCallId call reducer.inferenceCalls }

/-! ## Checkpoints -/

/-- The item that marks a compaction, without content. -/
def compactionMarker : NormalizedConversationItem where
  role := .assistant
  channel := none
  kind := .compactionMarker
  body := []
  callId := none

/-- `reduce_compaction_installed_event`. -/
def reduceCompactionInstalledEvent (wallTimeUnixMs : Int) (threadId codexTurnId : List Char)
    (compactionId : List Char) (inputHistory replacementHistory : List NormalizedConversationItem) :
    Option TraceReducer := do
  if (reducer.compactions.lookup compactionId).isSome then none
  else if (reducer.threads.lookup threadId).isNone then none
  else if reducer.codexTurns.lookup codexTurnId ≠ some threadId then none
  else
    let context : ReconcileItems := { threadId, codexTurnId, wallTimeUnixMs, producedBy := [] }
    let installed := { context with producedBy := [.compaction compactionId] }
    let (reducer, inputItemIds) ← reducer.reconcileDetachedConversationItems context
      (reducer.snapshotOf threadId) [] inputHistory
    let (reducer, markerItemId) := reducer.createConversationItem installed compactionMarker
    let (reducer, replacementItemIds) ←
      reducer.reconcileDetachedConversationItems installed [] [] replacementHistory
    let reducer ← reducer.appendThreadConversationItems threadId inputItemIds
    let reducer ← reducer.appendThreadConversationItems threadId [markerItemId]
    let reducer ← reducer.appendThreadConversationItems threadId replacementItemIds
    return { reducer with
      pendingCompactionReplacementItemIds :=
        reducer.pendingCompactionReplacementItemIds.insert threadId replacementItemIds
      compactions := reducer.compactions.insert compactionId {
        threadId
        codexTurnId
        installedAtUnixMs := wallTimeUnixMs
        markerItemId
        inputItemIds
        replacementItemIds } }

/-! ## Replay -/

end

end TraceReducer

/-- The events that the conversation is made of. -/
inductive TraceEvent where
  | threadStarted (threadId : List Char)
  | codexTurnStarted (codexTurnId threadId : List Char)
  | inferenceStarted (inferenceCallId : InferenceCallId) (threadId codexTurnId : List Char)
      (request : RequestPayload)
  /-- A call that completed, or failed with what there is of a response. -/
  | inferenceEnded (inferenceCallId : InferenceCallId) (responseId : Option (List Char))
      (response : Option (List NormalizedConversationItem))
  | compactionInstalled (threadId codexTurnId compactionId : List Char)
      (inputHistory replacementHistory : List NormalizedConversationItem)
  deriving Repr

namespace TraceReducer

def new : TraceReducer where
  threads := ∅
  codexTurns := ∅
  conversationItems := ∅
  inferenceCalls := []
  compactions := ∅
  nextConversationItemOrdinal := 1
  threadConversationSnapshots := ∅
  pendingCompactionReplacementItemIds := ∅

/-- `apply_event` on an event at an instant. An error ends the replay. -/
def applyEvent (reducer : TraceReducer) (wallTimeUnixMs : Int) : TraceEvent → Option TraceReducer
  | .threadStarted threadId =>
    if (reducer.threads.lookup threadId).isSome then none
    else some { reducer with threads := reducer.threads.insert threadId [] }
  | .codexTurnStarted codexTurnId threadId =>
    if (reducer.codexTurns.lookup codexTurnId).isSome then none
    else if (reducer.threads.lookup threadId).isNone then none
    else some { reducer with codexTurns := reducer.codexTurns.insert codexTurnId threadId }
  | .inferenceStarted inferenceCallId threadId codexTurnId request =>
    reducer.startInferenceCall wallTimeUnixMs inferenceCallId threadId codexTurnId request
  | .inferenceEnded inferenceCallId responseId response =>
    reducer.completeInferenceCall wallTimeUnixMs inferenceCallId responseId response
  | .compactionInstalled threadId codexTurnId compactionId inputHistory replacementHistory =>
    reducer.reduceCompactionInstalledEvent wallTimeUnixMs threadId codexTurnId compactionId
      inputHistory replacementHistory

end TraceReducer

/-- Replays, event by event. -/
def replay : System TraceReducer (Int × TraceEvent) where
  init reducer := reducer = TraceReducer.new
  step reducer event next := reducer.applyEvent event.1 event.2 = some next

end Mcodex.Trace
