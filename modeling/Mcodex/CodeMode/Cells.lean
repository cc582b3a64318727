import Mcodex.CodeMode.Session

/-!
# Cells of code mode and their callers

A cell is a session with the queues of its runtime's events and of its callers' commands. A caller
may be cancelled, and what is sent to it then is lost. A call whose sender is dropped learns that
the cell is missing: that of a caller that another one replaces in the slot, and those of the
commands that are queued when the session ends.
-/

namespace Mcodex.CodeMode

open Transition

structure Cell where
  session : SessionControl
  /-- The session is in its loop. -/
  running : Bool
  /-- The cell is in the map of sessions. -/
  registered : Bool
  /-- The events that the runtime sent and the session did not take. -/
  events : List RuntimeEvent
  /-- The runtime sent its result. -/
  finished : Bool
  /-- The runtime dropped its sender. -/
  closed : Bool
  commands : List SessionControlCommand
  /-- All calls so far. -/
  calls : List CallId
  /-- The calls that were sent to the session in its loop, and whether they are to terminate it. -/
  reached : List (CallId × Bool)
  /-- The calls that are not answered, less those of which the caller was cancelled. -/
  waiting : List CallId
  /-- The responses that callers got, oldest first. -/
  received : List (CallId × RuntimeResponse)
  /-- The calls that learnt that the cell is missing, or ended unexpectedly. -/
  missing : List CallId
  emitted : List ContentItem
  taken : List ContentItem

inductive CellAction where
  | call (command : SessionControlCommand)
  | cancel (call : CallId)
  | emit (event : RuntimeEvent)
  | close
  | takeEvent
  | takeCommand
  | timer
  | remove

namespace Cell

/-- A cell that was just started by a call. -/
def start (call : CallId) : Cell where
  session := .start call
  running := true
  registered := true
  events := []
  finished := false
  closed := false
  commands := []
  calls := [call]
  reached := [(call, false)]
  waiting := [call]
  received := []
  missing := []
  emitted := []
  taken := []

section
variable (cell : Cell)

/-- The senders of these calls are dropped. -/
def drop (calls : List CallId) : Cell :=
  { cell with
    waiting := cell.waiting.filter (· ∉ calls)
    missing := cell.missing ++ calls.filter (· ∈ cell.waiting) }

/-- A response is sent to a call, and lost if the caller was cancelled. -/
def send (sent : Option (CallId × RuntimeResponse)) : Cell :=
  { cell with
    waiting := cell.waiting.filter fun call => sent.map Prod.fst ≠ some call
    received := cell.received ++ sent.toList.filter fun entry => entry.1 ∈ cell.waiting }

/-- What an iteration of the loop leaves. -/
def iterate (iteration : Iteration) : Cell :=
  { cell with session := iteration.session, running := !iteration.ended }.send iteration.sent

/-- The call in the slot that a command replaces, if the session goes on. -/
def replaced : List CallId :=
  if cell.session.pendingResult.isSome then [] else cell.session.responseTx.toList

end

end Cell

/-- One step of a cell, its runtime and its callers. -/
inductive CellStep : Cell → CellAction → Cell → Prop
  | call {cell : Cell} {command : SessionControlCommand}
    (hfresh : command.responseTx ∉ cell.calls) (hregistered : cell.registered = true) :
    CellStep cell (.call command) { cell with
      calls := cell.calls ++ [command.responseTx]
      waiting := cell.waiting ++ [command.responseTx]
      commands := cell.commands ++ [command]
      reached := if cell.running then
        cell.reached ++ [(command.responseTx, command.isTerminate)] else cell.reached }
  | callMissing {cell : Cell} {command : SessionControlCommand}
    (hfresh : command.responseTx ∉ cell.calls) (hregistered : cell.registered = false) :
    CellStep cell (.call command) { cell with
      calls := cell.calls ++ [command.responseTx]
      missing := cell.missing ++ [command.responseTx] }
  | cancel {cell : Cell} {call : CallId} (hwaiting : call ∈ cell.waiting) :
    CellStep cell (.cancel call) { cell with waiting := cell.waiting.filter (· ≠ call) }
  | emit {cell : Cell} {event : RuntimeEvent} (hfinished : cell.finished = false)
    (hclosed : cell.closed = false) :
    CellStep cell (.emit event) { cell with
      events := cell.events ++ [event]
      finished := event.isResult
      emitted := cell.emitted ++ event.contentItems }
  | close {cell : Cell} : CellStep cell .close { cell with closed := true }
  | takeEvent {cell : Cell} {event : RuntimeEvent} {events : List RuntimeEvent}
    (hrunning : cell.running = true) (hevents : cell.events = event :: events) :
    CellStep cell .takeEvent
      ({ cell with events, taken := cell.taken ++ event.contentItems }.iterate
        (cell.session.onEvent event))
  | takeClosed {cell : Cell} (hrunning : cell.running = true) (hevents : cell.events = [])
    (hclosed : cell.closed = true) (hopen : cell.session.runtimeClosed = false) :
    CellStep cell .takeEvent (cell.iterate cell.session.onClosed)
  | takeCommand {cell : Cell} {command : SessionControlCommand}
    {commands : List SessionControlCommand} (hrunning : cell.running = true)
    (hcommands : cell.commands = command :: commands) :
    CellStep cell .takeCommand
      (({ cell with commands }.drop cell.replaced).iterate (cell.session.onCommand command))
  | timer {cell : Cell} (hrunning : cell.running = true) (htimer : cell.session.yieldTimer = true) :
    CellStep cell .timer (cell.iterate cell.session.onTimer)
  -- The senders in the session and in its queue go with it.
  | remove {cell : Cell} (hrunning : cell.running = false) (hregistered : cell.registered = true) :
    CellStep cell .remove ({ cell with registered := false, commands := [] }.drop
      (cell.session.responseTx.toList ++ cell.commands.map SessionControlCommand.responseTx))

/-- A cell that a call started. -/
def codeCell : System Cell CellAction where
  init cell := ∃ call, cell = Cell.start call
  step := CellStep

/-! ## What the runtime sends -/

/-- A result comes last. -/
def ResultLast : List RuntimeEvent → Prop
  | [] => True
  | event :: events => (event.isResult = true → events = []) ∧ ResultLast events

/-- What holds of the runtime's events at any time. -/
structure Cell.Wf (cell : Cell) : Prop where
  last : ResultLast cell.events
  unfinished : cell.finished = false → ∀ event ∈ cell.events, event.isResult = false
  /-- A result that is buffered came last. -/
  pending : cell.session.pendingResult.isSome = true → cell.events = [] ∧
    (cell.finished = true ∨ cell.closed = true)
  settled : cell.session.Settled
  /-- What is left of a session that saw the end of its runtime is a result. -/
  closed : cell.session.runtimeClosed = true → cell.closed = true ∧ cell.events = [] ∧
    (cell.running = true → cell.session.pendingResult.isSome = true)
  registered : cell.running = true → cell.registered = true
  /-- The session ends after the runtime only. -/
  ended : cell.running = false → cell.finished = true ∨ cell.closed = true
  items : cell.taken ++ cell.events.flatMap RuntimeEvent.contentItems = cell.emitted

section
variable {cell next : Cell} {action : CellAction} {s : SessionControl}

theorem ResultLast.concat {events : List RuntimeEvent} (h : ResultLast events)
    (hresult : ∀ event ∈ events, event.isResult = false) (event : RuntimeEvent) :
    ResultLast (events ++ [event]) := by
  induction events with
  | nil => exact ⟨fun _ => rfl, trivial⟩
  | cons first events ih =>
    refine ⟨fun hfirst => ?_, ih h.2 fun other hother => hresult other (.tail _ hother)⟩
    rw [hresult first (.head _)] at hfirst
    cases hfirst

theorem ResultLast.of_cons {event : RuntimeEvent} {events : List RuntimeEvent}
    (h : ResultLast (event :: events)) (hresult : event.isResult = true) : events = [] :=
  h.1 hresult

/-- While events are to be taken, no result is buffered. -/
theorem Cell.Wf.pendingResult_eq_none (h : cell.Wf) {event : RuntimeEvent}
    {events : List RuntimeEvent} (hevents : cell.events = event :: events) :
    cell.session.pendingResult = none := by
  cases hpending : cell.session.pendingResult with
  | none => rfl
  | some result =>
    have hnone := (h.pending (by rw [hpending]; rfl)).1
    rw [hevents] at hnone
    cases hnone

theorem ended_of_running {iteration : Iteration}
    (h : (cell.iterate iteration).running = false) : iteration.ended = true := by
  simpa [Cell.iterate, Cell.send] using h

theorem running_of_iterate {iteration : Iteration}
    (h : (cell.iterate iteration).running = true) : iteration.ended = false := by
  simpa [Cell.iterate, Cell.send] using h

theorem Cell.Wf.start (call : CallId) : (Cell.start call).Wf :=
  ⟨trivial, fun _ _ h => by (cases h), fun h => by (cases h), fun h => by (cases h),
    fun h => by (cases h), fun _ => rfl, fun h => by (cases h), rfl⟩

theorem Cell.Wf.step (h : cell.Wf) (hstep : CellStep cell action next) : next.Wf := by
  cases hstep with
  | call | callMissing | cancel =>
    exact ⟨h.last, h.unfinished, h.pending, h.settled, h.closed, h.registered, h.ended, h.items⟩
  | emit hfinished hclosed =>
    rename_i event
    have hopen : ¬(cell.finished = true ∨ cell.closed = true) := by simp [hfinished, hclosed]
    refine ⟨h.last.concat (h.unfinished hfinished) event, fun hresult other hother => ?_,
      fun hpending => absurd (h.pending hpending).2 hopen, h.settled,
      fun hruntime => absurd (Or.inr (h.closed hruntime).1) hopen, h.registered,
      fun hended => absurd (h.ended hended) hopen, ?_⟩
    · rcases List.mem_append.1 hother with hother | hother
      · exact h.unfinished hfinished other hother
      · exact List.mem_singleton.1 hother ▸ hresult
    · simp [← h.items]
  | close =>
    exact ⟨h.last, h.unfinished, fun hpending => ⟨(h.pending hpending).1, Or.inr rfl⟩, h.settled,
      fun hruntime => ⟨rfl, (h.closed hruntime).2⟩, h.registered, fun _ => Or.inr rfl, h.items⟩
  | takeEvent hrunning hevents =>
    rename_i event events
    have hpending := h.pendingResult_eq_none hevents
    have hlast := h.last
    rw [hevents] at hlast
    have hfinished (hresult : event.isResult = true) : cell.finished = true := by
      cases hfinished : cell.finished with
      | true => rfl
      | false =>
        have hnot := h.unfinished hfinished event (hevents ▸ .head _)
        rw [hresult] at hnot
        cases hnot
    refine ⟨hlast.2, fun hunfinished other hother =>
      h.unfinished hunfinished other (hevents ▸ .tail _ hother), fun hsome => ?_,
      settled_onEvent hpending event, fun hclosed => ?_, fun _ => h.registered hrunning,
      fun hended => ?_, ?_⟩
    · have hresult := onEvent_result hpending (Or.inl hsome)
      exact ⟨hlast.of_cons hresult, Or.inl (hfinished hresult)⟩
    · have hnone := (h.closed (onEvent_runtimeClosed event ▸ hclosed)).2.1
      rw [hevents] at hnone
      cases hnone
    · refine Or.inl (hfinished (onEvent_result hpending (Or.inr ?_)))
      exact ended_of_running hended
    · show cell.taken ++ event.contentItems ++ events.flatMap RuntimeEvent.contentItems = _
      rw [List.append_assoc, ← List.flatMap_cons, ← hevents, h.items]
      rfl
  | takeClosed hrunning hevents hclosed hopen =>
    exact ⟨h.last, h.unfinished, fun _ => ⟨hevents, Or.inr hclosed⟩, settled_onClosed h.settled,
      fun _ => ⟨hclosed, hevents, fun hlive => onClosed_pending (running_of_iterate hlive)⟩,
      fun _ => h.registered hrunning, fun _ => Or.inr hclosed, h.items⟩
  | takeCommand hrunning hcommands =>
    rename_i command commands
    obtain ⟨hnone, hclosed, hended⟩ := onCommand_eq (s := cell.session) command
    have hpending : (cell.session.onCommand command).session.pendingResult.isSome = true → False :=
      fun hsome => by (rw [hnone] at hsome; cases hsome)
    refine ⟨h.last, h.unfinished, fun hsome => (hpending hsome).elim,
      fun hsome => (hpending hsome).elim, fun hruntime => ?_, fun _ => h.registered hrunning,
      fun hover => ?_, h.items⟩
    · obtain ⟨hcellClosed, hevents, hsome⟩ := h.closed (hclosed ▸ hruntime)
      refine ⟨hcellClosed, hevents, fun hlive => ?_⟩
      have hgoes := running_of_iterate hlive
      rw [onCommand_ended (hsome hrunning)] at hgoes
      cases hgoes
    · rcases hended (ended_of_running hover) with hsome | hruntime
      · exact (h.pending hsome).2
      · exact Or.inr (h.closed hruntime).1
  | timer hrunning htimer =>
    obtain ⟨hpending, hclosed, hended⟩ := onTimer_eq (s := cell.session)
    refine ⟨h.last, h.unfinished, fun hsome => h.pending (hpending ▸ hsome),
      settled_onTimer h.settled, fun hruntime => ?_, fun _ => h.registered hrunning,
      fun hover => ?_, h.items⟩
    · obtain ⟨hcellClosed, hevents, hsome⟩ := h.closed (hclosed ▸ hruntime)
      exact ⟨hcellClosed, hevents, fun _ => hpending ▸ hsome hrunning⟩
    · have htrue := ended_of_running hover
      rw [hended] at htrue
      cases htrue
  | remove hrunning =>
    refine ⟨h.last, h.unfinished, h.pending, h.settled, h.closed, fun hlive => ?_, h.ended, h.items⟩
    rw [show cell.running = true from hlive] at hrunning
    cases hrunning

theorem Cell.Wf.of_reach (h : codeCell.Reach cell) : cell.Wf := by
  refine h.invariant ?_ fun _ _ _ hwf hstep => hwf.step hstep
  rintro _ ⟨call, rfl⟩
  exact .start call

theorem Cell.reach_step (h : codeCell.Reach cell) (action : CellAction)
    (hstep : CellStep cell action next) : codeCell.Reach next := .step h hstep

theorem Cell.reach_restrict {C : Cell → CellAction → Prop} (h : (codeCell.restrict C).Reach cell)
    (action : CellAction) (hstep : CellStep cell action next) (hC : C cell action) :
    (codeCell.restrict C).Reach next := .step h ⟨hC, hstep⟩

end

end Mcodex.CodeMode
