import Mcodex.Rollout.History

/-!
# Rebuilding the history of a thread from its rollout

The rollout is read from its newest item back. Items gather in a segment until the start of its turn
is met; a segment that a newer rollback drops is skipped. The newest replacement history of a
segment that stays is the base of the history, and the items after it are replayed forward.
-/

namespace Mcodex.Rollout

/-! ## Rollout items -/

structure TurnContextItem where
  turnId : Option String
  model : String
  realtimeActive : Option Bool
  deriving DecidableEq, Repr

structure PreviousTurnSettings where
  model : String
  realtimeActive : Option Bool
  deriving DecidableEq, Repr

structure UserMessageEvent where
  message : List Char
  images : Option (List (List Char))
  localImages : List (List Char)
  deriving DecidableEq, Repr

/-- The other events, by what the list of turns makes of them. An event with an item of its own id
names its turn or belongs to the open one; the error of a turn may affect its status. -/
inductive ThreadEvent where
  | agentMessage (text : List Char)
  | agentReasoning (text : List Char)
  | agentReasoningRawContent (text : List Char)
  | contextCompacted
  | enteredReviewMode (userFacingHint : Option (List Char))
  | exitedReviewMode (overallExplanation : Option (List Char))
  | itemInCurrentTurn (itemId : String) (payload : List Char)
  | itemInTurn (turnId itemId : String) (payload : List Char)
  | error (affectsTurnStatus : Bool) (message : List Char)
  | unlisted
  deriving DecidableEq, Repr

inductive RolloutItem where
  | sessionMeta
  | responseItem (item : ResponseItem)
  | compacted (message : List Char) (replacementHistory : Option (List ResponseItem))
  | turnContext (ctx : TurnContextItem)
  | threadRolledBack (numTurns : Nat)
  | turnStarted (turnId : String)
  | turnComplete (turnId : String)
  | turnAborted (turnId : Option String)
  | userMessage (event : UserMessageEvent)
  | otherEvent (event : ThreadEvent)
  deriving DecidableEq, Repr

/-! ## Segments -/

inductive TurnReferenceContextItem where
  | neverSet
  | cleared
  | latest (ctx : TurnContextItem)
  deriving DecidableEq, Repr

structure ActiveReplaySegment where
  turnId : Option String
  countsAsUserTurn : Bool
  previousTurnSettings : Option PreviousTurnSettings
  referenceContextItem : TurnReferenceContextItem
  baseReplacementHistory : Option (List ResponseItem)
  deriving DecidableEq, Repr

/-- `ActiveReplaySegment::default`. -/
def ActiveReplaySegment.fresh : ActiveReplaySegment := ⟨none, false, none, .neverSet, none⟩

def turnIdsAreCompatible (activeTurnId itemTurnId : Option String) : Bool :=
  activeTurnId.all fun turnId => itemTurnId.all fun itemTurnId => itemTurnId = turnId

/-- `usize::MAX`. -/
def maxPending : Nat := 18446744073709551615

namespace ActiveReplaySegment

/-- Looking back, a compaction clears any older baseline, unless a newer item of the segment set it
again. -/
def clearReferenceContextItem (segment : ActiveReplaySegment) : ActiveReplaySegment :=
  { segment with
    referenceContextItem :=
      if segment.referenceContextItem = .neverSet then .cleared
      else segment.referenceContextItem }

def attachTurnContext (ctx : TurnContextItem) (segment : ActiveReplaySegment) :
    ActiveReplaySegment :=
  let segment := { segment with turnId := segment.turnId <|> ctx.turnId }
  if turnIdsAreCompatible segment.turnId ctx.turnId then
    { segment with
      previousTurnSettings := some ⟨ctx.model, ctx.realtimeActive⟩
      referenceContextItem :=
        if segment.referenceContextItem = .neverSet then .latest ctx
        else segment.referenceContextItem }
  else segment

section
variable {segment : ActiveReplaySegment} {ctx : TurnContextItem}

@[simp]
theorem clearReferenceContextItem_base :
    segment.clearReferenceContextItem.baseReplacementHistory = segment.baseReplacementHistory :=
  rfl

@[simp]
theorem attachTurnContext_base :
    (segment.attachTurnContext ctx).baseReplacementHistory = segment.baseReplacementHistory := by
  unfold attachTurnContext
  dsimp only
  split <;> rfl

@[simp]
theorem attachTurnContext_turnId :
    (segment.attachTurnContext ctx).turnId = (segment.turnId <|> ctx.turnId) := by
  unfold attachTurnContext
  dsimp only
  split <;> rfl

@[simp]
theorem attachTurnContext_countsAsUserTurn :
    (segment.attachTurnContext ctx).countsAsUserTurn = segment.countsAsUserTurn := by
  unfold attachTurnContext
  dsimp only
  split <;> rfl

end

end ActiveReplaySegment

structure Scan where
  baseReplacementHistory : Option (List ResponseItem)
  previousTurnSettings : Option PreviousTurnSettings
  referenceContextItem : TurnReferenceContextItem
  pendingRollbackTurns : Nat
  rolloutSuffix : List RolloutItem
  activeSegment : Option ActiveReplaySegment
  deriving DecidableEq, Repr

def Scan.start (rolloutItems : List RolloutItem) : Scan :=
  ⟨none, none, .neverSet, 0, rolloutItems, none⟩

/-- `finalize_active_segment`, of a scan whose active segment was taken. -/
def finalizeActiveSegment (segment : ActiveReplaySegment) (scan : Scan) : Scan :=
  if 0 < scan.pendingRollbackTurns then
    if segment.countsAsUserTurn then
      { scan with pendingRollbackTurns := scan.pendingRollbackTurns - 1 }
    else scan
  else
    { scan with
      baseReplacementHistory := scan.baseReplacementHistory <|> segment.baseReplacementHistory
      previousTurnSettings :=
        if scan.previousTurnSettings.isNone ∧ segment.countsAsUserTurn then
          segment.previousTurnSettings
        else scan.previousTurnSettings
      referenceContextItem :=
        if scan.referenceContextItem = .neverSet ∧
            (segment.countsAsUserTurn ∨ segment.referenceContextItem = .cleared) then
          segment.referenceContextItem
        else scan.referenceContextItem }

/-- The scan with its active segment, or a fresh one, changed. -/
def Scan.onSegment (scan : Scan) (f : ActiveReplaySegment → ActiveReplaySegment) : Scan :=
  { scan with activeSegment := some (f (scan.activeSegment.getD .fresh)) }

section
variable (lib : Libraries)

/-- One step back over an item with the newer items after it. -/
def scanItem (newer : List RolloutItem) (scan : Scan) : RolloutItem → Scan
  | .compacted _ replacementHistory =>
    let segment := (scan.activeSegment.getD .fresh).clearReferenceContextItem
    if segment.baseReplacementHistory.isNone ∧ replacementHistory.isSome then { scan with
      rolloutSuffix := newer
      activeSegment := some { segment with baseReplacementHistory := replacementHistory } }
    else { scan with activeSegment := some segment }
  | .threadRolledBack numTurns => { scan with
      pendingRollbackTurns := min (scan.pendingRollbackTurns + numTurns) maxPending }
  | .turnComplete turnId =>
    scan.onSegment fun segment => { segment with turnId := segment.turnId <|> some turnId }
  | .turnAborted turnId =>
    match scan.activeSegment, turnId with
    | some segment, turnId =>
      { scan with activeSegment := some { segment with turnId := segment.turnId <|> turnId } }
    | none, some turnId =>
      { scan with activeSegment := some { ActiveReplaySegment.fresh with turnId := some turnId } }
    | none, none => scan
  | .userMessage _ => scan.onSegment fun segment => { segment with countsAsUserTurn := true }
  | .turnContext ctx => scan.onSegment (·.attachTurnContext ctx)
  | .turnStarted turnId =>
    match scan.activeSegment with
    | some segment =>
      if turnIdsAreCompatible segment.turnId (some turnId) then
        finalizeActiveSegment segment { scan with activeSegment := none }
      else scan
    | none => scan
  | .responseItem item =>
    scan.onSegment fun segment => { segment with
      countsAsUserTurn := segment.countsAsUserTurn || isUserTurnBoundary lib item }
  | .otherEvent _ => scan
  | .sessionMeta => scan

/-- Older items can no longer change what the scan gives. -/
def Scan.isComplete (scan : Scan) : Bool :=
  scan.baseReplacementHistory.isSome && scan.previousTurnSettings.isSome &&
    scan.referenceContextItem ≠ .neverSet

/-- The scan over the older items, newest first, with the items after them. -/
def scanOlder : List RolloutItem → List RolloutItem → Scan → Scan
  | [], _, scan => scan
  | item :: older, newer, scan =>
    let scan := scanItem lib newer scan item
    if scan.isComplete then scan else scanOlder older (item :: newer) scan

def Scan.finish (scan : Scan) : Scan :=
  match scan.activeSegment with
  | some segment => finalizeActiveSegment segment { scan with activeSegment := none }
  | none => scan

def scanRollout (rolloutItems : List RolloutItem) : Scan :=
  (scanOlder lib rolloutItems.reverse [] (.start rolloutItems)).finish

/-! ## Replay -/

/-- What an item makes of the history, when it is replayed forward. -/
def replayItem (history : List ResponseItem) : RolloutItem → List ResponseItem
  | .responseItem item => recordItem lib history item
  | .compacted message replacementHistory =>
    match replacementHistory with
    | some replacementHistory => replacementHistory
    | none => buildCompactedHistory lib (collectUserMessages lib history) message
  | .threadRolledBack numTurns => dropLastNUserTurns lib history numTurns
  | _ => history

def replay (history : List ResponseItem) (items : List RolloutItem) : List ResponseItem :=
  items.foldl (replayItem lib) history

/-- A compaction that leaves no replacement history. -/
def isLegacyCompaction : RolloutItem → Bool
  | .compacted _ none => true
  | _ => false

structure RolloutReconstruction where
  history : List ResponseItem
  previousTurnSettings : Option PreviousTurnSettings
  referenceContextItem : Option TurnContextItem
  deriving DecidableEq, Repr

def reconstructHistoryFromRollout (rolloutItems : List RolloutItem) : RolloutReconstruction :=
  let scan := scanRollout lib rolloutItems
  let history := replay lib (scan.baseReplacementHistory.getD []) scan.rolloutSuffix
  let referenceContextItem := match scan.referenceContextItem with
    | .latest ctx => some ctx
    | .neverSet | .cleared => none
  { history
    previousTurnSettings := scan.previousTurnSettings
    referenceContextItem :=
      if scan.rolloutSuffix.any isLegacyCompaction then none else referenceContextItem }

end

end Mcodex.Rollout
