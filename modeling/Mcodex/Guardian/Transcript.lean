import Mcodex.Rollout.Prompt
import Mcodex.Rollout.Rollback

/-!
# What the guardian is shown of its parent

The guardian reviews the actions of a parent thread. It is shown a transcript of the parent's
history, an entry for each message and each tool call or result with a text, and the transcript of a
longer history goes on where that of a shorter one ends (`transcript_isPrefix`). The history counts
the times that it was rewritten; an entry count is to be trusted only while this count stays. The
removal of the first item rewrites without counting.
-/

namespace Mcodex.Guardian

open Rollout Text

/-! ## The transcript -/

inductive TranscriptEntryKind where
  | user
  | assistant
  | tool (role : List Char)
  deriving DecidableEq, Repr

structure TranscriptEntry where
  kind : TranscriptEntryKind
  text : List Char
  deriving DecidableEq, Repr

/-- What the payloads of calls hold: the name and the input of a call, and the JSON of an action. -/
structure Payloads where
  name : List Char → List Char
  input : List Char → List Char
  actionJson : List Char → Option (List Char)

/-- `content_items_to_text`. -/
def contentItemsToText (content : List ContentItem) : Option (List Char) :=
  let pieces := content.filterMap fun
    | .inputText text | .outputText text => if text = [] then none else some text
    | .inputImage _ => none
  if pieces = [] then none else some (['\n'].intercalate pieces)

/-- `FunctionCallOutputBody::to_text`. -/
def outputToText : FunctionCallOutputBody → Option (List Char)
  | .text content => some content
  | .contentItems items =>
    let segments := items.filterMap fun
      | .inputText text => if trim text = [] then none else some text
      | .inputImage _ => none
    if segments = [] then none else some (['\n'].intercalate segments)

def nonEmptyEntry (kind : TranscriptEntryKind) (text : List Char) : Option TranscriptEntry :=
  if trim text = [] then none else some ⟨kind, text⟩

/-- The names of the calls so far, newest first. -/
abbrev ToolNames := List (List Char × List Char)

def toolResult (toolNames : ToolNames) (callId : List Char) (output : FunctionCallOutputPayload) :
    Option TranscriptEntry :=
  (outputToText output.body).bind <| nonEmptyEntry <| .tool <|
    match toolNames.lookup callId with
    | none => "tool result".toList
    | some name => "tool ".toList ++ name ++ " result".toList

section
variable (lib : Libraries) (payloads : Payloads)

def toolCall (payload : List Char) : Option TranscriptEntry :=
  nonEmptyEntry (.tool ("tool ".toList ++ payloads.name payload ++ " call".toList))
    (payloads.input payload)

/-- The entry that an item makes, after the calls that have these names. -/
def transcriptEntry (toolNames : ToolNames) : ResponseItem → Option TranscriptEntry
  | .message role content =>
    if role = "user" then
      if isContextualUserMessageContent lib content then none
      else (contentItemsToText content).bind (nonEmptyEntry .user)
    else if role = "assistant" then (contentItemsToText content).bind (nonEmptyEntry .assistant)
    else none
  | .localShellCall _ payload =>
    (payloads.actionJson payload).bind (nonEmptyEntry (.tool "tool shell call".toList))
  | .functionCall _ payload | .customToolCall _ payload => toolCall payloads payload
  | .webSearchCall payload =>
    (payloads.actionJson payload).bind (nonEmptyEntry (.tool "tool web_search call".toList))
  | .functionCallOutput callId output | .customToolCallOutput callId _ output =>
    toolResult toolNames callId output
  | _ => none

def nameCall (toolNames : ToolNames) : ResponseItem → ToolNames
  | .functionCall callId payload | .customToolCall callId payload =>
    (callId, payloads.name payload) :: toolNames
  | _ => toolNames

/-- The loop of `collect_guardian_transcript_entries`. -/
def collectFrom (toolNames : ToolNames) : List ResponseItem → List TranscriptEntry
  | [] => []
  | item :: items =>
    (transcriptEntry lib payloads toolNames item).toList ++
      collectFrom (nameCall payloads toolNames item) items

def collectGuardianTranscriptEntries (items : List ResponseItem) : List TranscriptEntry :=
  collectFrom lib payloads [] items

end

/-! ## The history of the parent -/

structure ParentHistory where
  items : List ResponseItem
  historyVersion : Nat
  deriving DecidableEq, Repr

/-- `u64::MAX`. -/
def maxVersion : Nat := 18446744073709551615

/-- `remove_first_matching`. -/
def removeFirstMatching (p : ResponseItem → Bool) (items : List ResponseItem) :
    List ResponseItem :=
  items.eraseP p

def isFunctionCall (callId : List Char) : ResponseItem → Bool
  | .functionCall existing _ => existing = callId
  | _ => false

def isLocalShellCall (callId : List Char) : ResponseItem → Bool
  | .localShellCall existing _ => existing = some callId
  | _ => false

def isToolSearchCall (callId : List Char) : ResponseItem → Bool
  | .toolSearchCall existing _ => existing = some callId
  | _ => false

def isCustomToolCall (callId : List Char) : ResponseItem → Bool
  | .customToolCall existing _ => existing = callId
  | _ => false

/-- The other half of a call with its output. -/
def removeCorrespondingFor (items : List ResponseItem) : ResponseItem → List ResponseItem
  | .functionCall callId _ | .localShellCall (some callId) _ =>
    removeFirstMatching (isFunctionCallOutput callId) items
  | .functionCallOutput callId _ =>
    if items.any (isFunctionCall callId) then removeFirstMatching (isFunctionCall callId) items
    else removeFirstMatching (isLocalShellCall callId) items
  | .toolSearchCall (some callId) _ => removeFirstMatching (isToolSearchOutput callId) items
  | .toolSearchOutput (some callId) _ _ _ => removeFirstMatching (isToolSearchCall callId) items
  | .customToolCall callId _ => removeFirstMatching (isCustomToolCallOutput callId) items
  | .customToolCallOutput callId _ _ => removeFirstMatching (isCustomToolCall callId) items
  | _ => items

def isOutputImage : FunctionCallOutputContentItem → Bool
  | .inputImage _ => true
  | .inputText _ => false

/-- An output without its images. -/
def replaceImages (placeholder : List Char) (items : List FunctionCallOutputContentItem) :
    List FunctionCallOutputContentItem :=
  items.map fun item => if isOutputImage item then .inputText placeholder else item

def isFunctionOutput : ResponseItem → Bool
  | .functionCallOutput _ _ => true
  | _ => false

namespace ParentHistory

section
variable (lib : Libraries) (history : ParentHistory)

/-- The version counts a rewrite. -/
def bump : ParentHistory :=
  { history with
    historyVersion := if history.historyVersion < maxVersion then history.historyVersion + 1
      else maxVersion }

def recordItems (items : List ResponseItem) : ParentHistory :=
  { history with items := items.foldl (recordItem lib) history.items }

def replace (items : List ResponseItem) : ParentHistory :=
  ({ history with items } : ParentHistory).bump

def removeFirstItem : ParentHistory :=
  match history.items with
  | [] => history
  | removed :: items => { history with items := removeCorrespondingFor items removed }

def removeLastItem : ParentHistory :=
  match history.items.getLast? with
  | none => history
  | some removed => ({ history with
      items := removeCorrespondingFor history.items.dropLast removed } : ParentHistory).bump

def replaceLastTurnImages (placeholder : List Char) : ParentHistory :=
  let index := history.items.findIdxs fun item =>
    isFunctionOutput item || isUserTurnBoundary lib item
  match index.getLast? with
  | none => history
  | some index =>
    match history.items[index]? with
    | some (.functionCallOutput callId ⟨.contentItems items, success⟩) =>
      if items.any isOutputImage then
        ({ history with
          items := history.items.set index (.functionCallOutput callId
            ⟨.contentItems (replaceImages placeholder items), success⟩) } : ParentHistory).bump
      else history
    | _ => history

def dropLastNUserTurns (numTurns : Nat) : ParentHistory :=
  if numTurns = 0 then history
  else history.replace (Rollout.dropLastNUserTurns lib history.items numTurns)

end

end ParentHistory

/-- The operations on the parent's history. -/
inductive HistoryOp where
  | recordItems (items : List ResponseItem)
  | replace (items : List ResponseItem)
  | removeFirstItem
  | removeLastItem
  | replaceLastTurnImages (placeholder : List Char)
  | dropLastNUserTurns (numTurns : Nat)
  deriving DecidableEq, Repr

section
variable (lib : Libraries) (payloads : Payloads) (history : ParentHistory)

def HistoryOp.apply : HistoryOp → ParentHistory
  | recordItems items => history.recordItems lib items
  | replace items => history.replace items
  | removeFirstItem => history.removeFirstItem
  | removeLastItem => history.removeLastItem
  | replaceLastTurnImages placeholder => history.replaceLastTurnImages lib placeholder
  | dropLastNUserTurns numTurns => history.dropLastNUserTurns lib numTurns

/-- The transcript of the parent. -/
def ParentHistory.transcript : List TranscriptEntry :=
  collectGuardianTranscriptEntries lib payloads history.items

variable {lib payloads history}

theorem collectFrom_append (toolNames : ToolNames) (items items' : List ResponseItem) :
    collectFrom lib payloads toolNames (items ++ items') =
      collectFrom lib payloads toolNames items ++
        collectFrom lib payloads (items.foldl (nameCall payloads) toolNames) items' := by
  induction items generalizing toolNames with
  | nil => rfl
  | cons item items ih =>
    rw [List.cons_append, collectFrom, collectFrom, ih, List.append_assoc]
    rfl

/-- The transcript of a longer history goes on. -/
theorem transcript_isPrefix {items items' : List ResponseItem} (h : items <+: items') :
    collectGuardianTranscriptEntries lib payloads items <+:
      collectGuardianTranscriptEntries lib payloads items' := by
  obtain ⟨newer, rfl⟩ := h
  rw [collectGuardianTranscriptEntries, collectGuardianTranscriptEntries, collectFrom_append]
  exact List.prefix_append _ _

theorem recordItems_isPrefix (items : List ResponseItem) :
    history.items <+: (history.recordItems lib items).items := by
  show history.items <+: items.foldl (recordItem lib) history.items
  generalize history.items = recorded
  induction items generalizing recorded with
  | nil => exact List.prefix_refl _
  | cons item items ih =>
    refine List.IsPrefix.trans ?_ (ih (recordItem lib recorded item))
    rw [recordItem]
    split
    · exact List.prefix_refl _
    · exact List.prefix_append _ _

theorem le_bump (h : history.historyVersion ≤ maxVersion) :
    history.historyVersion ≤ history.bump.historyVersion ∧
      history.bump.historyVersion ≤ maxVersion := by
  rw [ParentHistory.bump]
  dsimp only
  split <;> omega

variable (lib history) in
/-- What an operation does to the version: it leaves the history, it records, it counts a rewrite,
or it removes the first item. -/
theorem HistoryOp.apply_cases (op : HistoryOp) :
    history.items <+: (op.apply lib history).items ∧
        (op.apply lib history).historyVersion = history.historyVersion ∨
      (op.apply lib history).historyVersion = history.bump.historyVersion ∨
      op = .removeFirstItem ∧
        (op.apply lib history).historyVersion = history.historyVersion := by
  cases op with
  | recordItems items => exact Or.inl ⟨recordItems_isPrefix items, rfl⟩
  | replace items => exact Or.inr (Or.inl rfl)
  | removeFirstItem =>
    refine Or.inr (Or.inr ⟨rfl, ?_⟩)
    rw [apply, ParentHistory.removeFirstItem]
    split <;> rfl
  | removeLastItem =>
    rw [apply, ParentHistory.removeLastItem]
    split
    · exact Or.inl ⟨List.prefix_refl _, rfl⟩
    · exact Or.inr (Or.inl rfl)
  | replaceLastTurnImages placeholder =>
    rw [apply, ParentHistory.replaceLastTurnImages]
    split
    · exact Or.inl ⟨List.prefix_refl _, rfl⟩
    · split
      · split
        · exact Or.inr (Or.inl rfl)
        · exact Or.inl ⟨List.prefix_refl _, rfl⟩
      · exact Or.inl ⟨List.prefix_refl _, rfl⟩
  | dropLastNUserTurns numTurns =>
    rw [apply, ParentHistory.dropLastNUserTurns]
    split
    · exact Or.inl ⟨List.prefix_refl _, rfl⟩
    · exact Or.inr (Or.inl rfl)

end

end Mcodex.Guardian
