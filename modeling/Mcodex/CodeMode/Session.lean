import Mcodex.Lib.Table
import Mcodex.Lib.Transition

/-!
# Sessions of code mode

A cell runs a script in a runtime of its own. `run_session_control` takes the runtime's events, the
commands of callers that wait for the cell, and a timer, one at a time and in any order. It buffers
what the script puts out and has one slot for a caller that waits: who asks next takes it. Durations
do not matter here, and what the session hands on to the turn is left out.
-/

namespace Mcodex.CodeMode

open Table Transition

inductive ContentItem where
  | inputText (text : List Char)
  | inputImage (imageUrl : List Char)
  deriving DecidableEq, Repr

/-- The map of values that scripts store, with the values as JSON. -/
abbrev StoredValues := Keyed (List Char) (List Char)

/-- The sender of a oneshot channel, by the call that receives from it. -/
abbrev CallId := Nat

/-- `RuntimeResponse`, without the id of the cell. -/
inductive RuntimeResponse where
  | yielded (contentItems : List ContentItem)
  | terminated (contentItems : List ContentItem)
  | result (contentItems : List ContentItem) (storedValues : StoredValues)
      (errorText : Option (List Char))

/-- `RuntimeEvent`. The session hands `toolCall` and `notify` on. -/
inductive RuntimeEvent where
  | started
  | contentItem (item : ContentItem)
  | yieldRequested
  | toolCall
  | notify
  | result (storedValues : StoredValues) (errorText : Option (List Char))

/-- `SessionControlCommand`, without the time to wait for. -/
inductive SessionControlCommand where
  | poll (responseTx : CallId)
  | terminate (responseTx : CallId)
  deriving DecidableEq, Repr

structure PendingResult where
  contentItems : List ContentItem
  storedValues : StoredValues
  errorText : Option (List Char)

/-- The variables of `run_session_control`. -/
structure SessionControl where
  contentItems : List ContentItem
  pendingResult : Option PendingResult
  responseTx : Option CallId
  terminationRequested : Bool
  runtimeClosed : Bool
  yieldTimer : Bool

/-- An iteration of the loop: what it leaves, what it sends, and whether it breaks. -/
structure Iteration where
  session : SessionControl
  sent : Option (CallId × RuntimeResponse)
  ended : Bool

namespace RuntimeResponse

def contentItems : RuntimeResponse → List ContentItem
  | .yielded items | .terminated items | .result items _ _ => items

/-- The cell has ended. -/
def isFinal : RuntimeResponse → Bool
  | .yielded _ => false
  | .terminated _ | .result _ _ _ => true

end RuntimeResponse

namespace SessionControlCommand

def responseTx : SessionControlCommand → CallId
  | .poll responseTx | .terminate responseTx => responseTx

def isTerminate : SessionControlCommand → Bool
  | .poll _ => false
  | .terminate _ => true

end SessionControlCommand

/-- `pending_result_response`. -/
def PendingResult.response (result : PendingResult) : RuntimeResponse :=
  .result result.contentItems result.storedValues result.errorText

namespace SessionControl

/-- The session of a call to `execute`. -/
def start (initialResponseTx : CallId) : SessionControl where
  contentItems := []
  pendingResult := none
  responseTx := some initialResponseTx
  terminationRequested := false
  runtimeClosed := false
  yieldTimer := false

section
variable (s : SessionControl)

/-- Goes on with the loop. -/
def next : Iteration := ⟨s, none, false⟩

/-- Sends the buffered items to the caller in the slot, if there is one. -/
def respond (response : List ContentItem → RuntimeResponse) (ended : Bool) : Iteration :=
  match s.responseTx with
  | some responseTx => ⟨{ s with responseTx := none, contentItems := [] },
      some (responseTx, response s.contentItems), ended⟩
  | none => ⟨s, none, ended⟩

/-- `send_or_buffer_result`, of a result with the buffered items. -/
def sendOrBufferResult (storedValues : StoredValues) (errorText : Option (List Char)) : Iteration :=
  let result : PendingResult := ⟨s.contentItems, storedValues, errorText⟩
  match s.responseTx with
  | some responseTx => ⟨{ s with responseTx := none, contentItems := [] },
      some (responseTx, result.response), true⟩
  | none => ⟨{ s with contentItems := [], pendingResult := some result }, none, false⟩

/-- The runtime closed its channel. -/
def onClosed : Iteration :=
  let s := { s with runtimeClosed := true }
  if s.terminationRequested then s.respond .terminated true
  else if s.pendingResult.isNone then
    s.sendOrBufferResult ∅ (some "exec runtime ended unexpectedly".toList)
  else s.next

def onEvent : RuntimeEvent → Iteration
  | .started => { s with yieldTimer := true }.next
  | .contentItem item => { s with contentItems := s.contentItems ++ [item] }.next
  | .yieldRequested => { s with yieldTimer := false }.respond .yielded false
  | .toolCall | .notify => s.next
  | .result storedValues errorText =>
    let s := { s with yieldTimer := false }
    if s.terminationRequested then s.respond .terminated true
    else s.sendOrBufferResult storedValues errorText

def onCommand (command : SessionControlCommand) : Iteration :=
  match s.pendingResult with
  | some result =>
    ⟨{ s with pendingResult := none }, some (command.responseTx, result.response), true⟩
  | none =>
    match command with
    | .poll responseTx => { s with responseTx := some responseTx, yieldTimer := true }.next
    | .terminate responseTx =>
      let s := { s with
        responseTx := some responseTx, terminationRequested := true, yieldTimer := false }
      if s.runtimeClosed then s.respond .terminated true else s.next

def onTimer : Iteration := { s with yieldTimer := false }.respond .yielded false

end

end SessionControl

/-! ## What an iteration does -/

def RuntimeEvent.contentItems : RuntimeEvent → List ContentItem
  | .contentItem item => [item]
  | _ => []

def RuntimeEvent.isResult : RuntimeEvent → Bool
  | .result _ _ => true
  | _ => false

/-- What was taken and not sent. -/
def SessionControl.buffered (s : SessionControl) : List ContentItem :=
  (s.pendingResult.map (·.contentItems)).getD [] ++ s.contentItems

def Iteration.sentItems (iteration : Iteration) : List ContentItem :=
  (iteration.sent.map (·.2.contentItems)).getD []

/-- An iteration that takes these items, or a timer that expired. It answers the call in the slot
or none; the loop breaks after a final response, or without one. -/
structure Turn (s : SessionControl) (items : List ContentItem) (iteration : Iteration) : Prop where
  items : iteration.sentItems ++ iteration.session.buffered = s.buffered ++ items
  drained : iteration.sent.isSome = true → iteration.session.buffered = []
  final : ∀ entry, iteration.sent = some entry → entry.2.isFinal = iteration.ended
  slot : ∀ entry, iteration.sent = some entry → s.responseTx = some entry.1
  rest : iteration.session.responseTx =
    if iteration.sent.isSome then none else s.responseTx
  requested : iteration.session.terminationRequested = s.terminationRequested
  lost : iteration.ended = true → iteration.sent = none →
    s.terminationRequested = true ∧ s.responseTx = none

section
variable {s : SessionControl}

theorem turn_next (items : List ContentItem) (hpending : s.pendingResult = none)
    (timer : Bool) : Turn s items
      { s with contentItems := s.contentItems ++ items, yieldTimer := timer }.next := by
  constructor <;> simp [SessionControl.next, Iteration.sentItems, SessionControl.buffered, hpending]

theorem turn_respond (response : List ContentItem → RuntimeResponse) {ended : Bool}
    (hitems : ∀ items, (response items).contentItems = items)
    (hfinal : ∀ items, (response items).isFinal = ended)
    (hslot : s.pendingResult.isSome = true → s.responseTx = none)
    (hended : ended = true → s.terminationRequested = true) (timer closed : Bool) :
    Turn s [] ({ s with yieldTimer := timer, runtimeClosed := closed }.respond response ended) := by
  cases htx : s.responseTx with
  | none =>
    constructor <;>
      simp [SessionControl.respond, Iteration.sentItems, SessionControl.buffered, htx]
    exact hended
  | some call =>
    have hpending : s.pendingResult = none := by
      cases hpending : s.pendingResult with
      | none => rfl
      | some result =>
        have hnone := hslot (by rw [hpending]; rfl)
        rw [htx] at hnone
        cases hnone
    constructor <;>
      simp [SessionControl.respond, Iteration.sentItems, SessionControl.buffered, htx, hpending,
        hitems, hfinal]

theorem turn_sendOrBufferResult (storedValues : StoredValues) (errorText : Option (List Char))
    (hpending : s.pendingResult = none) (timer closed : Bool) :
    Turn s [] ({ s with yieldTimer := timer, runtimeClosed := closed }.sendOrBufferResult
      storedValues errorText) := by
  cases htx : s.responseTx <;>
    constructor <;>
      simp [SessionControl.sendOrBufferResult, Iteration.sentItems, SessionControl.buffered, htx,
        hpending, PendingResult.response, RuntimeResponse.contentItems, RuntimeResponse.isFinal]

theorem turn_onEvent (hpending : s.pendingResult = none) (event : RuntimeEvent) :
    Turn s event.contentItems (s.onEvent event) := by
  have hslot : s.pendingResult.isSome = true → s.responseTx = none := by
    intro hsome
    rw [hpending] at hsome
    cases hsome
  cases event with
  | started =>
    have h := turn_next [] hpending true
    rw [List.append_nil] at h
    exact h
  | contentItem item => exact turn_next [item] hpending s.yieldTimer
  | yieldRequested =>
    exact turn_respond .yielded (fun _ => rfl) (fun _ => rfl) hslot (fun h => by cases h) false
      s.runtimeClosed
  | toolCall | notify =>
    have h := turn_next [] hpending s.yieldTimer
    rw [List.append_nil] at h
    exact h
  | result storedValues errorText =>
    rw [SessionControl.onEvent]
    dsimp only
    split
    · rename_i hrequested
      exact turn_respond .terminated (fun _ => rfl) (fun _ => rfl) hslot (fun _ => hrequested) false
        s.runtimeClosed
    · exact turn_sendOrBufferResult storedValues errorText hpending false s.runtimeClosed

theorem turn_onClosed (hslot : s.pendingResult.isSome = true → s.responseTx = none) :
    Turn s [] s.onClosed := by
  rw [SessionControl.onClosed]
  dsimp only
  split
  · rename_i hrequested
    exact turn_respond .terminated (fun _ => rfl) (fun _ => rfl) hslot (fun _ => hrequested)
      s.yieldTimer true
  · split
    · rename_i hpending
      rw [Option.isNone_iff_eq_none] at hpending
      exact turn_sendOrBufferResult ∅ _ hpending s.yieldTimer true
    · constructor <;> simp [SessionControl.next, Iteration.sentItems, SessionControl.buffered]

theorem turn_onTimer (hslot : s.pendingResult.isSome = true → s.responseTx = none) :
    Turn s [] s.onTimer :=
  turn_respond .yielded (fun _ => rfl) (fun _ => rfl) hslot (fun h => by cases h) false
    s.runtimeClosed

/-- A result that is buffered leaves nothing else. -/
def SessionControl.Settled (s : SessionControl) : Prop :=
  s.pendingResult.isSome = true → s.contentItems = [] ∧ s.responseTx = none

theorem onEvent_runtimeClosed (event : RuntimeEvent) :
    (s.onEvent event).session.runtimeClosed = s.runtimeClosed := by
  cases event <;> cases htx : s.responseTx <;> cases hrequested : s.terminationRequested <;>
    simp [SessionControl.onEvent, SessionControl.respond, SessionControl.sendOrBufferResult,
      SessionControl.next, htx, hrequested]

/-- Only a result is buffered, and only a result ends the loop. -/
theorem onEvent_result (hpending : s.pendingResult = none) {event : RuntimeEvent}
    (h : (s.onEvent event).session.pendingResult.isSome = true ∨ (s.onEvent event).ended = true) :
    event.isResult = true := by
  cases event with
  | result => rfl
  | _ =>
    cases htx : s.responseTx <;>
      simp [SessionControl.onEvent, SessionControl.respond, SessionControl.next, htx, hpending] at h

/-- A result that is sent ends the loop. -/
theorem onEvent_result_ended {storedValues : StoredValues} {errorText : Option (List Char)}
    (h : (s.onEvent (.result storedValues errorText)).sent.isSome = true) :
    (s.onEvent (.result storedValues errorText)).ended = true := by
  revert h
  cases htx : s.responseTx <;> cases hrequested : s.terminationRequested <;>
    simp [SessionControl.onEvent, SessionControl.respond, SessionControl.sendOrBufferResult, htx,
      hrequested]

theorem onClosed_ended (h : s.onClosed.sent.isSome = true) : s.onClosed.ended = true := by
  revert h
  cases hpending : s.pendingResult <;> cases htx : s.responseTx <;>
    cases hrequested : s.terminationRequested <;>
      simp [SessionControl.onClosed, SessionControl.respond, SessionControl.sendOrBufferResult,
        SessionControl.next, htx, hrequested, hpending]

theorem settled_onEvent (hpending : s.pendingResult = none) (event : RuntimeEvent) :
    (s.onEvent event).session.Settled := by
  cases event <;> cases htx : s.responseTx <;> cases hrequested : s.terminationRequested <;>
    simp [SessionControl.Settled, SessionControl.onEvent, SessionControl.respond,
      SessionControl.sendOrBufferResult, SessionControl.next, htx, hrequested, hpending]

theorem settled_onClosed (h : s.Settled) : s.onClosed.session.Settled := by
  cases hpending : s.pendingResult with
  | none =>
    cases htx : s.responseTx <;> cases hrequested : s.terminationRequested <;>
      simp [SessionControl.Settled, SessionControl.onClosed, SessionControl.respond,
        SessionControl.sendOrBufferResult, htx, hrequested, hpending]
  | some result =>
    obtain ⟨hitems, hslot⟩ := h (by rw [hpending]; rfl)
    cases hrequested : s.terminationRequested <;>
      simp [SessionControl.Settled, SessionControl.onClosed, SessionControl.respond,
        SessionControl.next, hitems, hslot, hrequested, hpending]

/-- Unless the loop ends with its runtime, a result is buffered. -/
theorem onClosed_pending (h : s.onClosed.ended = false) :
    s.onClosed.session.pendingResult.isSome = true := by
  revert h
  cases hpending : s.pendingResult <;> cases htx : s.responseTx <;>
    cases hrequested : s.terminationRequested <;>
      simp [SessionControl.onClosed, SessionControl.respond, SessionControl.sendOrBufferResult,
        SessionControl.next, htx, hrequested, hpending]

theorem settled_onTimer (h : s.Settled) : s.onTimer.session.Settled := by
  cases htx : s.responseTx with
  | none => simpa [SessionControl.Settled, SessionControl.onTimer, SessionControl.respond, htx]
      using h
  | some call =>
    cases hpending : s.pendingResult with
    | none =>
      simp [SessionControl.Settled, SessionControl.onTimer, SessionControl.respond, htx, hpending]
    | some result =>
      have hnone := (h (by rw [hpending]; rfl)).2
      rw [htx] at hnone
      cases hnone

theorem onTimer_eq : s.onTimer.session.pendingResult = s.pendingResult ∧
    s.onTimer.session.runtimeClosed = s.runtimeClosed ∧ s.onTimer.ended = false := by
  cases htx : s.responseTx <;> simp [SessionControl.onTimer, SessionControl.respond, htx]

theorem onCommand_ended {command : SessionControlCommand}
    (h : s.pendingResult.isSome = true) : (s.onCommand command).ended = true := by
  obtain ⟨result, hresult⟩ := Option.isSome_iff_exists.1 h
  simp [SessionControl.onCommand, hresult]

/-- A command takes the result that is buffered. -/
theorem onCommand_eq (command : SessionControlCommand) :
    (s.onCommand command).session.pendingResult = none ∧
      (s.onCommand command).session.runtimeClosed = s.runtimeClosed ∧
      ((s.onCommand command).ended = true →
        s.pendingResult.isSome = true ∨ s.runtimeClosed = true) := by
  cases hpending : s.pendingResult <;> cases command <;> cases hclosed : s.runtimeClosed <;>
    simp [SessionControl.onCommand, SessionControl.respond, SessionControl.next, hpending, hclosed]

end

end Mcodex.CodeMode
