import Mathlib.Algebra.Ring.Nat
import Mcodex.Lib.Text

/-!
# The history of a thread

The response items that are sent to the model, oldest first: how an item is recorded, how the last
user turns are dropped again, and what a compaction without a replacement history leaves. The XML
and JSON decoders and the truncation of long texts are parameters (`Libraries`).
-/

namespace Mcodex.Rollout

open Text

inductive ContentItem where
  | inputText (text : List Char)
  | inputImage (imageUrl : List Char)
  | outputText (text : List Char)
  deriving DecidableEq, Repr

inductive FunctionCallOutputContentItem where
  | inputText (text : List Char)
  | inputImage (imageUrl : List Char)
  deriving DecidableEq, Repr

inductive FunctionCallOutputBody where
  | text (content : List Char)
  | contentItems (items : List FunctionCallOutputContentItem)
  deriving DecidableEq, Repr

structure FunctionCallOutputPayload where
  body : FunctionCallOutputBody
  success : Option Bool
  deriving DecidableEq, Repr

/-- The items of a conversation with the model. A `payload` is what the history only passes on. -/
inductive ResponseItem where
  | message (role : String) (content : List ContentItem)
  | reasoning (payload : List Char)
  | localShellCall (callId : Option (List Char)) (payload : List Char)
  | functionCall (callId : List Char) (payload : List Char)
  | toolSearchCall (callId : Option (List Char)) (payload : List Char)
  | functionCallOutput (callId : List Char) (output : FunctionCallOutputPayload)
  | customToolCall (callId : List Char) (payload : List Char)
  | customToolCallOutput (callId : List Char) (name : Option (List Char))
      (output : FunctionCallOutputPayload)
  | toolSearchOutput (callId : Option (List Char)) (status execution : String)
      (tools : List (List Char))
  | webSearchCall (payload : List Char)
  | imageGenerationCall (payload : List Char) (result : List Char)
  | compaction (payload : List Char)
  | ghostSnapshot (commit : List Char)
  | other
  deriving DecidableEq, Repr

/-- The code of other packages, and the truncation under the policy of the turn. -/
structure Libraries where
  /-- `parse_hook_prompt_fragment` gives a fragment. -/
  isHookPromptFragment : List Char → Bool
  /-- The text is JSON of an `InterAgentCommunication`. -/
  isInterAgentCommunication : List Char → Bool
  /-- `truncate_text` to a number of tokens. -/
  truncateToTokens : Nat → List Char → List Char
  truncateOutputText : List Char → List Char
  truncateOutputItems :
    List FunctionCallOutputContentItem → List FunctionCallOutputContentItem

/-! ## Contextual fragments -/

def eqIgnoreAsciiCase (s t : List Char) : Bool := toAsciiLowercase s = toAsciiLowercase t

/-- A text between the markers of a fragment, whitespace around it apart. -/
def matchesText (startMarker endMarker text : List Char) : Bool :=
  if startMarker = [] ∨ endMarker = [] then false
  else
    let trimmed := trimStart text
    let startsWithMarker := eqIgnoreAsciiCase (trimmed.take startMarker.length) startMarker
    let trimmed := trimEnd trimmed
    let endsWithMarker :=
      eqIgnoreAsciiCase (trimmed.drop (trimmed.length - endMarker.length)) endMarker
    startsWithMarker && endsWithMarker

/-- The markers of the registered fragments. -/
def contextualUserFragments : List (List Char × List Char) :=
  [("# AGENTS.md instructions for ".toList, "</INSTRUCTIONS>".toList),
    ("<environment_context>".toList, "</environment_context>".toList),
    ("<skill>".toList, "</skill>".toList),
    ("<user_shell_command>".toList, "</user_shell_command>".toList),
    ("<turn_aborted>".toList, "</turn_aborted>".toList),
    ("<subagent_notification>".toList, "</subagent_notification>".toList)]

def contextualDeveloperPrefixes : List (List Char) :=
  ["<permissions instructions>".toList, "<model_switch>".toList, "<collaboration_mode>".toList,
    "<realtime_conversation>".toList, "<personality_spec>".toList]

def isContextualDevFragment : ContentItem → Bool
  | .inputText text => contextualDeveloperPrefixes.any fun marker =>
    eqIgnoreAsciiCase ((trimStart text).take marker.length) marker
  | _ => false

def isContextualDevMessageContent (content : List ContentItem) : Bool :=
  content.any isContextualDevFragment

section
variable (lib : Libraries)

def isContextualUserFragment : ContentItem → Bool
  | .inputText text => lib.isHookPromptFragment text ||
    contextualUserFragments.any fun markers => matchesText markers.1 markers.2 text
  | _ => false

def isContextualUserMessageContent (content : List ContentItem) : Bool :=
  content.any (isContextualUserFragment lib)

def isInterAgentInstructionContent : List ContentItem → Bool
  | [.inputText text] => lib.isInterAgentCommunication text
  | [.outputText text] => lib.isInterAgentCommunication text
  | _ => false

/-- An item that begins a turn: a message of the user, or one agent's instruction to another. -/
def isUserTurnBoundary : ResponseItem → Bool
  | .message role content =>
    (role = "user" && !isContextualUserMessageContent lib content) ||
      (role = "assistant" && isInterAgentInstructionContent lib content)
  | _ => false

/-! ## Recording -/

def isApiMessage : ResponseItem → Bool
  | .message role _ => role ≠ "system"
  | .ghostSnapshot _ => false
  | .other => false
  | _ => true

def truncateFunctionOutputPayload (output : FunctionCallOutputPayload) :
    FunctionCallOutputPayload :=
  match output.body with
  | .text content => ⟨.text (lib.truncateOutputText content), output.success⟩
  | .contentItems items => ⟨.contentItems (lib.truncateOutputItems items), output.success⟩

def processItem : ResponseItem → ResponseItem
  | .functionCallOutput callId output =>
    .functionCallOutput callId (truncateFunctionOutputPayload lib output)
  | .customToolCallOutput callId name output =>
    .customToolCallOutput callId name (truncateFunctionOutputPayload lib output)
  | item => item

def isGhostSnapshot : ResponseItem → Bool
  | .ghostSnapshot _ => true
  | _ => false

/-- `record_items` of one item. -/
def recordItem (items : List ResponseItem) (item : ResponseItem) : List ResponseItem :=
  if !isApiMessage item && !isGhostSnapshot item then items else items ++ [processItem lib item]

/-! ## Dropping turns -/

def userMessagePositions (items : List ResponseItem) : List Nat :=
  (List.range items.length).filter fun i => items[i]?.any (isUserTurnBoundary lib)

/-- An item that sets the context of the turn after it. -/
def isPreTurnContextUpdate : ResponseItem → Bool
  | .message role content =>
    (role = "developer" && isContextualDevMessageContent content) ||
      (role = "user" && isContextualUserMessageContent lib content)
  | _ => false

/-- Items above the cut that set the context of the dropped turn go too, but none before the first
turn. -/
def trimPreTurnContextUpdates (snapshot : List ResponseItem) (firstInstructionTurnIdx : Nat) :
    Nat → Nat
  | 0 => 0
  | cutIdx + 1 =>
    if firstInstructionTurnIdx < cutIdx + 1 ∧
        snapshot[cutIdx]?.any (isPreTurnContextUpdate lib) then
      trimPreTurnContextUpdates snapshot firstInstructionTurnIdx cutIdx
    else cutIdx + 1

def dropLastNUserTurns (items : List ResponseItem) (numTurns : Nat) : List ResponseItem :=
  if numTurns = 0 then items
  else
    let userPositions := userMessagePositions lib items
    match userPositions with
    | [] => items
    | firstInstructionTurnIdx :: _ =>
      let cutIdx :=
        if userPositions.length ≤ numTurns then firstInstructionTurnIdx
        else userPositions.getD (userPositions.length - numTurns) 0
      items.take (trimPreTurnContextUpdates lib items firstInstructionTurnIdx cutIdx)

/-! ## Compaction without a replacement history -/

def summaryPrefix : List Char :=
  ("Another language model started to solve this problem and produced a summary of its " ++
    "thinking process. You also have access to the state of the tools that were used by that " ++
    "language model. Use this to build on the work that has already been done and avoid " ++
    "duplicating work. Here is the summary produced by the other language model, use the " ++
    "information in this summary to assist with your own analysis:").toList

def isSummaryMessage (message : List Char) : Bool := (summaryPrefix ++ ['\n']).isPrefixOf message

def isImageOpenTagText (text : List Char) : Bool := text = "<image>".toList

def isLocalImageOpenTagText (text : List Char) : Bool :=
  (stripPrefix "<image name=".toList text).any (·.getLast? = some '>')

def isImageCloseTagText (text : List Char) : Bool := text = "</image>".toList

def isInputImage : ContentItem → Bool
  | .inputImage _ => true
  | _ => false

/-- The texts of a user message, the tags around its images apart. -/
def userMessageText (before : Option ContentItem) : List ContentItem → List Char
  | [] => []
  | item :: rest =>
    let text := match item with
      | .inputText text =>
        if ((isLocalImageOpenTagText text || isImageOpenTagText text) &&
            rest.head?.any isInputImage) ||
            (isImageCloseTagText text && before.any isInputImage) then []
        else text
      | _ => []
    text ++ userMessageText (some item) rest

def collectUserMessages (items : List ResponseItem) : List (List Char) :=
  items.filterMap fun
    | .message role content =>
      if role = "user" ∧ ¬ isContextualUserMessageContent lib content ∧
          ¬ isSummaryMessage (userMessageText none content) then
        some (userMessageText none content)
      else none
    | _ => none

def compactUserMessageMaxTokens : Nat := 20000

/-- Four bytes are taken for a token. -/
def approxTokenCount (text : List Char) : Nat := ((text.map Char.utf8Size).sum + 3) / 4

/-- The newest messages that the tokens suffice for, newest first; the last may be cut. -/
def selectMessages : Nat → List (List Char) → List (List Char)
  | _, [] => []
  | remaining, message :: older =>
    if remaining = 0 then []
    else if approxTokenCount message ≤ remaining then
      message :: selectMessages (remaining - approxTokenCount message) older
    else [lib.truncateToTokens remaining message]

def userMessage (text : List Char) : ResponseItem := .message "user" [.inputText text]

/-- With no initial context. -/
def buildCompactedHistory (userMessages : List (List Char)) (summaryText : List Char) :
    List ResponseItem :=
  let selectedMessages :=
    (selectMessages lib compactUserMessageMaxTokens userMessages.reverse).reverse
  let summaryText :=
    if summaryText = [] then "(no summary available)".toList else summaryText
  selectedMessages.map userMessage ++ [userMessage summaryText]

end

end Mcodex.Rollout
