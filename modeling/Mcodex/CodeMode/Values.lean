import Mcodex.CodeMode.Cells

/-!
# Stored values of code mode

A cell starts with a copy of the service's values and stores into the copy. Each result that is
handled replaces the service's values: that of a script by the copy of its cell, and one that is
made up, for a cell that is missing or a runtime that ended unexpectedly, by none. So a value
belongs to the cells that stored it only as long as what the copy was made of did not change.
-/

namespace Mcodex.CodeMode

open Table Transition

/-- A cell, and the values that its script sees. -/
structure ExecCell where
  cell : Cell
  /-- The copy that the cell was started with. -/
  startValues : StoredValues
  values : StoredValues
  /-- The keys that the script stored. -/
  storedKeys : List (List Char)
  /-- The runtime sent a result with its values. -/
  reported : Bool

/-- A response that a caller got, with the cell that it is of, or none for a missing cell. -/
structure Received where
  cellId : Option Nat
  response : RuntimeResponse

/-- `CodeModeService`, and the responses that are to be handled. -/
structure Service where
  storedValues : StoredValues
  cells : Keyed Nat ExecCell
  nextCellId : Nat
  received : List Received
  /-- The results that were handled, newest first: the keys that their cells stored, and their
  values. -/
  handled : List (List (List Char) × StoredValues)

/-- `missing_cell_response`. -/
def missingCellResponse : RuntimeResponse :=
  .result [] ∅ (some "exec cell not found".toList)

namespace ExecCell

/-- The handler of `exec` starts a cell with a copy of the values. -/
def start (storedValues : StoredValues) : ExecCell where
  cell := .start 0
  startValues := storedValues
  values := storedValues
  storedKeys := []
  reported := false

/-- The values that the cell's result is built on: the copy that it was started with, or none if
its runtime ended without a result of the script. -/
def base (exec : ExecCell) : StoredValues := if exec.reported then exec.startValues else ∅

/-- The values that the cell's result has. -/
def resultValues (exec : ExecCell) : StoredValues := if exec.reported then exec.values else ∅

end ExecCell

namespace Service

def new : Service where
  storedValues := ∅
  cells := ∅
  nextCellId := 1
  received := []
  handled := []

section
variable (service : Service)

/-- The keys that the cell of a response stored since its start. -/
def ownKeys (received : Received) : List (List Char) :=
  match received.cellId.bind service.cells.lookup with
  | some exec => exec.storedKeys
  | none => []

/-- The values that the map of a result is built on. -/
def base (received : Received) : StoredValues :=
  match received.cellId.bind service.cells.lookup with
  | some exec => exec.base
  | none => ∅

/-- What `handle_runtime_response` leaves of the values. -/
def replaceStoredValues : RuntimeResponse → StoredValues
  | .result _ storedValues _ => storedValues
  | .yielded _ | .terminated _ => service.storedValues

/-- `handle_runtime_response` on one of the responses. -/
def handle (received : Received) (rest : List Received) : Service :=
  { service with
    storedValues := service.replaceStoredValues received.response
    received := rest
    handled := match received.response with
      | .result _ storedValues _ => (service.ownKeys received, storedValues) :: service.handled
      | .yielded _ | .terminated _ => service.handled }

end

end Service

inductive ServiceAction where
  | start
  | store (cellId : Nat) (key value : List Char)
  | cell (cellId : Nat) (action : CellAction)
  | missing
  | handle (received : Received)

/-- What a cell may send as its result: the values of its script, or none if it could not start. -/
def ExecCell.Sends (exec : ExecCell) : CellAction → Prop
  | .emit (.result storedValues _) =>
    storedValues = exec.values ∨ (storedValues = ∅ ∧ exec.cell.emitted = [] ∧ exec.storedKeys = [])
  | _ => True

/-- Whether a cell has sent a result with its values. -/
def ExecCell.reports (exec : ExecCell) : CellAction → Prop
  | .emit (.result storedValues _) => storedValues = exec.values
  | _ => False

/-- One step of the service, its cells or the handlers. -/
inductive ServiceStep : Service → ServiceAction → Service → Prop
  | start {s : Service} : ServiceStep s .start { s with
      cells := s.cells.insert s.nextCellId (.start s.storedValues)
      nextCellId := s.nextCellId + 1 }
  | store {s : Service} {cellId : Nat} {exec : ExecCell} {key value : List Char}
    (hcell : s.cells.lookup cellId = some exec) (hfinished : exec.cell.finished = false)
    (hclosed : exec.cell.closed = false) :
    ServiceStep s (.store cellId key value) { s with
      cells := s.cells.insert cellId { exec with
        values := exec.values.insert key value
        storedKeys := exec.storedKeys ++ [key] } }
  | cell {s : Service} {cellId : Nat} {exec : ExecCell} {action : CellAction} {next : Cell}
    {responses : List (CallId × RuntimeResponse)} {reported : Bool}
    (hcell : s.cells.lookup cellId = some exec) (hsends : exec.Sends action)
    (hstep : CellStep exec.cell action next)
    (hreceived : next.received = exec.cell.received ++ responses)
    (hreported : reported = true ↔ exec.reported = true ∨ exec.reports action) :
    ServiceStep s (.cell cellId action) { s with
      cells := s.cells.insert cellId { exec with cell := next, reported }
      received := s.received ++ responses.map fun entry => ⟨some cellId, entry.2⟩ }
  -- A wait for a cell that is not there, or that drops the caller.
  | missing {s : Service} : ServiceStep s .missing { s with
      received := s.received ++ [⟨none, missingCellResponse⟩] }
  | handle {s : Service} {received : Received} {before after : List Received}
    (hreceived : s.received = before ++ received :: after) :
    ServiceStep s (.handle received) (s.handle received (before ++ after))

def codeModeService : System Service ServiceAction where
  init service := service = .new
  step := ServiceStep

/-! ## The values of a cell's result -/

/-- The results that a cell holds, or sent, have these values. -/
structure Cell.Holds (values : StoredValues) (cell : Cell) : Prop where
  events : ∀ storedValues errorText, RuntimeEvent.result storedValues errorText ∈ cell.events →
    storedValues = values
  pending : ∀ result, cell.session.pendingResult = some result → result.storedValues = values
  received : ∀ entry ∈ cell.received, ∀ items storedValues errorText,
    entry.2 = .result items storedValues errorText → storedValues = values
  /-- Results are received at the end. -/
  final : ∀ entry ∈ cell.received, entry.2.isFinal = true → cell.running = false

/-- A result that the runtime sent is queued or buffered until the session ends. -/
def Cell.Queued (cell : Cell) : Prop :=
  cell.finished = true → cell.running = true →
    cell.session.pendingResult.isSome = true ∨ ∃ event ∈ cell.events, event.isResult = true

section
variable {cell next : Cell} {action : CellAction} {values : StoredValues} {iteration : Iteration}
  {s : SessionControl}

theorem onEvent_storedValues (hpending : s.pendingResult = none) (event : RuntimeEvent) :
    (∀ result, (s.onEvent event).session.pendingResult = some result →
      event = .result result.storedValues result.errorText) ∧
    (∀ entry, (s.onEvent event).sent = some entry → ∀ items storedValues errorText,
      entry.2 = .result items storedValues errorText → event = .result storedValues errorText) ∧
    (event.isResult = true → (s.onEvent event).ended = false →
      (s.onEvent event).session.pendingResult.isSome = true) := by
  cases event <;> cases htx : s.responseTx <;> cases hrequested : s.terminationRequested <;>
    simp +contextual [SessionControl.onEvent, SessionControl.respond,
      SessionControl.sendOrBufferResult, SessionControl.next, PendingResult.response,
      RuntimeEvent.isResult, htx, hrequested, hpending]

theorem onClosed_storedValues :
    (∀ result, s.onClosed.session.pendingResult = some result →
      s.pendingResult = some result ∨ (s.pendingResult = none ∧ result.storedValues = ∅)) ∧
    (∀ entry, s.onClosed.sent = some entry → ∀ items storedValues errorText,
      entry.2 = .result items storedValues errorText →
        s.pendingResult = none ∧ storedValues = ∅) := by
  cases hpending : s.pendingResult <;> cases htx : s.responseTx <;>
    cases hrequested : s.terminationRequested <;>
      simp +contextual [SessionControl.onClosed, SessionControl.respond,
        SessionControl.sendOrBufferResult, SessionControl.next, PendingResult.response, htx,
        hrequested, hpending, eq_comm]

theorem Cell.Holds.iterate (h : cell.Holds values) (hrunning : cell.running = true)
    (hpending : ∀ result, iteration.session.pendingResult = some result →
      result.storedValues = values)
    (hsent : ∀ entry, iteration.sent = some entry → entry.2.isFinal = iteration.ended ∧
      ∀ items storedValues errorText, entry.2 = .result items storedValues errorText →
        storedValues = values) :
    (cell.iterate iteration).Holds values := by
  have hreceived : ∀ entry ∈ (cell.iterate iteration).received,
      entry ∈ cell.received ∨ iteration.sent = some entry := by
    intro entry hmem
    rcases List.mem_append.1 hmem with hmem | hmem
    · exact Or.inl hmem
    · exact Or.inr (Option.mem_toList.1 (List.mem_filter.1 hmem).1)
  refine ⟨h.events, hpending, fun entry hmem => ?_, fun entry hmem hfinal => ?_⟩
  · rcases hreceived entry hmem with hmem | hmem
    · exact h.received entry hmem
    · exact (hsent entry hmem).2
  · rcases hreceived entry hmem with hmem | hmem
    · rw [h.final entry hmem hfinal] at hrunning
      cases hrunning
    · rw [(hsent entry hmem).1] at hfinal
      simp [Cell.iterate, Cell.send, hfinal]

/-- What a cell holds before its runtime ends is no result. -/
theorem Cell.Holds.of_runs (h : cell.Holds values) (hwf : cell.Wf)
    (hfinished : cell.finished = false) (hclosed : cell.closed = false)
    (values' : StoredValues) : cell.Holds values' := by
  have hrunning : cell.running = true := by
    cases hrunning : cell.running with
    | true => rfl
    | false =>
      have hended := hwf.ended hrunning
      rw [hfinished, hclosed] at hended
      rcases hended with hended | hended <;> cases hended
  refine ⟨fun storedValues errorText hmem => ?_, fun result hresult => ?_,
    fun entry hmem items storedValues errorText heq => ?_, h.final⟩
  · have hnot := hwf.unfinished hfinished _ hmem
    cases hnot
  · obtain ⟨-, hended⟩ := hwf.pending (by rw [hresult]; rfl)
    rw [hfinished, hclosed] at hended
    rcases hended with hended | hended <;> cases hended
  · have hover := h.final entry hmem (by rw [heq]; rfl)
    rw [hover] at hrunning
    cases hrunning

theorem Cell.Queued.step (h : cell.Queued) (hwf : cell.Wf)
    (hstep : CellStep cell action next) : next.Queued := by
  cases hstep with
  | call | callMissing | cancel | close | remove => exact h
  | emit hfinished hclosed =>
    rename_i event
    exact fun hresult _ => Or.inr ⟨event, List.mem_append_right _ (.head _), hresult⟩
  | takeEvent hrunning hevents =>
    rename_i event events
    have hpending := hwf.pendingResult_eq_none hevents
    intro hfinished hlive
    rcases h hfinished hrunning with hsome | ⟨other, hmem, hresult⟩
    · rw [hpending] at hsome
      cases hsome
    · rw [hevents] at hmem
      rcases List.mem_cons.1 hmem with rfl | hmem
      · exact Or.inl ((onEvent_storedValues hpending other).2.2 hresult
          (running_of_iterate hlive))
      · exact Or.inr ⟨other, hmem, hresult⟩
  | takeClosed =>
    exact fun _ hlive => Or.inl (onClosed_pending (running_of_iterate hlive))
  | takeCommand hrunning =>
    rename_i command commands
    intro hfinished hlive
    rcases h hfinished hrunning with hsome | hevent
    · have hgoes := running_of_iterate hlive
      rw [onCommand_ended hsome] at hgoes
      cases hgoes
    · exact Or.inr hevent
  | timer hrunning =>
    intro hfinished hlive
    rcases h hfinished hrunning with hsome | hevent
    · exact Or.inl ((onTimer_eq (s := cell.session)).1 ▸ hsome)
    · exact Or.inr hevent

/-- A step keeps the values if a result that the runtime sends, and one that is made up when it
ends, has them. -/
theorem Cell.Holds.step (h : cell.Holds values) (hwf : cell.Wf) (hqueued : cell.Queued)
    (hstep : CellStep cell action next)
    (hemit : ∀ storedValues errorText, action = .emit (.result storedValues errorText) →
      storedValues = values)
    (hlost : cell.finished = false → cell.closed = true → values = ∅) : next.Holds values := by
  cases hstep with
  | call | callMissing | cancel | close => exact ⟨h.events, h.pending, h.received, h.final⟩
  | emit hfinished hclosed =>
    rename_i event
    refine ⟨fun storedValues errorText hmem => ?_, h.pending, h.received, h.final⟩
    rcases List.mem_append.1 hmem with hmem | hmem
    · exact h.events storedValues errorText hmem
    · exact hemit storedValues errorText (by rw [List.mem_singleton.1 hmem])
  | takeEvent hrunning hevents =>
    rename_i event events
    have hpending := hwf.pendingResult_eq_none hevents
    obtain ⟨hbuffered, hsent, -⟩ := onEvent_storedValues (s := cell.session) hpending event
    have hvalues : ∀ storedValues errorText, event = .result storedValues errorText →
        storedValues = values := fun storedValues errorText heq =>
      h.events storedValues errorText (by rw [hevents, heq]; exact .head _)
    have hcell : ({ cell with events, taken := cell.taken ++ event.contentItems } :
        Cell).Holds values :=
      ⟨fun storedValues errorText hmem => h.events storedValues errorText
        (by rw [hevents]; exact .tail _ hmem), h.pending, h.received, h.final⟩
    refine hcell.iterate hrunning (fun result hresult => hvalues _ _ (hbuffered result hresult))
      fun entry hentry => ⟨(turn_onEvent hpending event).final entry hentry,
        fun items storedValues errorText heq =>
          hvalues _ errorText (hsent entry hentry items storedValues errorText heq)⟩
  | takeClosed hrunning hevents hclosed hopen =>
    obtain ⟨hbuffered, hsent⟩ := onClosed_storedValues (s := cell.session)
    have hempty (hnone : cell.session.pendingResult = none) : values = ∅ := by
      refine hlost ?_ hclosed
      cases hfinished : cell.finished with
      | false => rfl
      | true =>
        rcases hqueued hfinished hrunning with hsome | ⟨event, hmem, -⟩
        · rw [hnone] at hsome
          cases hsome
        · rw [hevents] at hmem
          cases hmem
    have hturn := turn_onClosed (s := cell.session) fun hsome => (hwf.settled hsome).2
    refine h.iterate hrunning (fun result hresult => ?_) fun entry hentry =>
      ⟨hturn.final entry hentry, fun items storedValues errorText heq => ?_⟩
    · rcases hbuffered result hresult with hsame | ⟨hnone, hmade⟩
      · exact h.pending result hsame
      · rw [hmade, hempty hnone]
    · obtain ⟨hnone, hmade⟩ := hsent entry hentry items storedValues errorText heq
      rw [hmade, hempty hnone]
  | takeCommand hrunning hcommands =>
    rename_i command commands
    have hcell : (({ cell with commands } : Cell).drop cell.replaced).Holds values :=
      ⟨h.events, h.pending, h.received, h.final⟩
    refine hcell.iterate hrunning (fun result hresult => ?_) fun entry hentry => ?_
    · rw [(onCommand_eq (s := cell.session) command).1] at hresult
      cases hresult
    · cases hpending : cell.session.pendingResult with
      | some result =>
        have hturn : cell.session.onCommand command = ⟨{ cell.session with pendingResult := none },
            some (command.responseTx, result.response), true⟩ := by
          simp [SessionControl.onCommand, hpending]
        rw [hturn] at hentry ⊢
        obtain rfl := Option.some.inj hentry
        refine ⟨rfl, fun items storedValues errorText heq => ?_⟩
        have hvalues := h.pending result hpending
        rw [PendingResult.response] at heq
        obtain ⟨-, rfl, -⟩ := RuntimeResponse.result.inj heq
        exact hvalues
      | none =>
        cases command <;> cases hclosed : cell.session.runtimeClosed <;>
          simp [SessionControl.onCommand, SessionControl.respond, SessionControl.next, hpending,
            hclosed] at hentry ⊢
        obtain ⟨-, rfl⟩ := hentry
        simp [RuntimeResponse.isFinal]
  | timer hrunning htimer =>
    have hturn := turn_onTimer (s := cell.session) fun hsome => (hwf.settled hsome).2
    refine h.iterate hrunning (fun result hresult => h.pending result
      ((onTimer_eq (s := cell.session)).1 ▸ hresult)) fun entry hentry =>
        ⟨hturn.final entry hentry, fun items storedValues errorText heq => ?_⟩
    have hfinal := hturn.final entry hentry
    rw [heq, (onTimer_eq (s := cell.session)).2.2] at hfinal
    cases hfinal
  | remove hrunning hregistered => exact ⟨h.events, h.pending, h.received, h.final⟩

/-- A session that ended stays so. -/
theorem over_of_step (hstep : CellStep cell action next) (h : cell.running = false) :
    next.running = false := by
  cases hstep with
  | takeEvent hrunning | takeClosed hrunning | takeCommand hrunning | timer hrunning =>
    rw [h] at hrunning
    cases hrunning
  | _ => exact h

theorem finished_of_step (hstep : CellStep cell action next) (h : cell.finished = true) :
    next.finished = true := by
  cases hstep with
  | emit hfinished =>
    rw [h] at hfinished
    cases hfinished
  | _ => exact h

end

/-! ## The values of the service -/

/-- A cell of the service. -/
structure ExecCell.Wf (exec : ExecCell) : Prop where
  cell : exec.cell.Wf
  queued : exec.cell.Queued
  holds : exec.cell.Holds exec.resultValues
  reported : exec.reported = true → exec.cell.finished = true
  copy : ∀ key, key ∉ exec.storedKeys → exec.values.lookup key = exec.startValues.lookup key

section
variable {exec : ExecCell} {s t : Service} {action : ServiceAction} {received : Received}

theorem ExecCell.Wf.start (storedValues : StoredValues) : (ExecCell.start storedValues).Wf := by
  refine ⟨.start 0, fun h => by (cases h), ⟨fun _ _ h => by (cases h), fun _ h => by (cases h),
    fun _ h => by (cases h), fun _ h => by (cases h)⟩, fun h => by (cases h), fun _ _ => rfl⟩

theorem ExecCell.Wf.store (h : exec.Wf) (hfinished : exec.cell.finished = false)
    (hclosed : exec.cell.closed = false) (key value : List Char) :
    ({ exec with
      values := exec.values.insert key value
      storedKeys := exec.storedKeys ++ [key] } : ExecCell).Wf := by
  refine ⟨h.cell, h.queued, h.holds.of_runs h.cell hfinished hclosed _, h.reported,
    fun other hother => ?_⟩
  rw [List.mem_append, not_or, List.mem_singleton] at hother
  show (exec.values.insert key value).lookup other = _
  rw [lookup_insert, if_neg hother.2]
  exact h.copy other hother.1

theorem ExecCell.resultValues_of_unfinished (h : exec.Wf) (hfinished : exec.cell.finished = false) :
    exec.reported = false ∧ exec.resultValues = ∅ := by
  have hreported : exec.reported = false := by
    cases hreported : exec.reported with
    | false => rfl
    | true =>
      rw [h.reported hreported] at hfinished
      cases hfinished
  exact ⟨hreported, by rw [resultValues, hreported]; rfl⟩

theorem ExecCell.Wf.step (h : exec.Wf) {cellAction : CellAction} {next : Cell} {reported : Bool}
    (hsends : exec.Sends cellAction) (hstep : CellStep exec.cell cellAction next)
    (hreported : reported = true ↔ exec.reported = true ∨ exec.reports cellAction) :
    ({ exec with cell := next, reported } : ExecCell).Wf := by
  have hwf := h.cell.step hstep
  have hqueued := h.queued.step h.cell hstep
  by_cases hreports : exec.reports cellAction
  · -- The runtime sends the values of its script.
    have htrue : reported = true := hreported.2 (Or.inr hreports)
    subst htrue
    cases hstep with
    | emit hfinished hclosed =>
      rename_i event
      cases event with
      | result storedValues errorText =>
        have hvalues : storedValues = exec.values := hreports
        refine ⟨hwf, hqueued, ?_, fun _ => rfl, h.copy⟩
        show Cell.Holds exec.values _
        refine (h.holds.of_runs h.cell hfinished hclosed exec.values).step h.cell h.queued
          (.emit hfinished hclosed) (fun sent errorText' heq => ?_) fun _ hclosed' => ?_
        · cases heq
          exact hvalues
        · rw [hclosed'] at hclosed
          cases hclosed
      | started | contentItem | yieldRequested | toolCall | notify => exact hreports.elim
    | call | callMissing | cancel | close | takeEvent | takeClosed | takeCommand | timer |
        remove => exact hreports.elim
  · have hsame : reported = exec.reported := by
      rw [Bool.eq_iff_iff, hreported]
      exact or_iff_left hreports
    subst hsame
    refine ⟨hwf, hqueued, ?_, fun hreported => ?_, h.copy⟩
    · refine h.holds.step h.cell h.queued hstep (fun storedValues errorText heq => ?_)
        fun hfinished _ => (resultValues_of_unfinished h hfinished).2
      subst heq
      rcases hsends with hvalues | ⟨hempty, -⟩
      · exact absurd hvalues hreports
      · cases hstep with
        | emit hfinished => rw [hempty, (resultValues_of_unfinished h hfinished).2]
    · exact finished_of_step hstep (h.reported hreported)

/-- What holds of the service at any time. -/
structure Service.Wf (s : Service) : Prop where
  cells : ∀ cellId exec, s.cells.lookup cellId = some exec → exec.Wf ∧ cellId < s.nextCellId
  missing : ∀ received ∈ s.received, received.cellId = none →
    received.response = missingCellResponse
  results : ∀ received ∈ s.received, ∀ cellId, received.cellId = some cellId →
    ∃ exec, s.cells.lookup cellId = some exec ∧ ∀ items storedValues errorText,
      received.response = .result items storedValues errorText →
        storedValues = exec.resultValues ∧ exec.cell.running = false

/-- A cell whose session ended keeps what its result has. -/
theorem Service.Wf.results_insert (h : s.Wf) {cellId : Nat} {changed : ExecCell}
    (hcell : s.cells.lookup cellId = some exec)
    (hkeeps : exec.cell.running = false →
      changed.cell.running = false ∧ changed.resultValues = exec.resultValues)
    {received : Received} (hmem : received ∈ s.received) {otherId : Nat}
    (hother : received.cellId = some otherId) :
    ∃ exec, (s.cells.insert cellId changed).lookup otherId = some exec ∧
      ∀ items storedValues errorText, received.response = .result items storedValues errorText →
        storedValues = exec.resultValues ∧ exec.cell.running = false := by
  obtain ⟨found, hfound, hresult⟩ := h.results received hmem otherId hother
  rw [lookup_insert]
  split
  · rename_i heq
    subst heq
    rw [hcell] at hfound
    obtain rfl := Option.some.inj hfound
    refine ⟨changed, rfl, fun items storedValues errorText heq => ?_⟩
    obtain ⟨hvalues, hrunning⟩ := hresult items storedValues errorText heq
    exact ⟨hvalues.trans (hkeeps hrunning).2.symm, (hkeeps hrunning).1⟩
  · exact ⟨found, hfound, hresult⟩

theorem Service.Wf.cells_insert (h : s.Wf) {cellId nextCellId : Nat} {changed : ExecCell}
    (hchanged : changed.Wf) (hlt : cellId < nextCellId) (hle : s.nextCellId ≤ nextCellId) :
    ∀ otherId exec, (s.cells.insert cellId changed).lookup otherId = some exec →
      exec.Wf ∧ otherId < nextCellId := by
  intro otherId exec hlookup
  rw [lookup_insert] at hlookup
  split at hlookup
  · rename_i heq
    subst heq
    obtain rfl := Option.some.inj hlookup
    exact ⟨hchanged, hlt⟩
  · obtain ⟨hwf, hother⟩ := h.cells otherId exec hlookup
    exact ⟨hwf, hother.trans_le hle⟩

/-- After its session ended, a cell does not send a result. -/
theorem ExecCell.Wf.not_reports (h : exec.Wf) {cellAction : CellAction} {next : Cell}
    (hstep : CellStep exec.cell cellAction next) (hover : exec.cell.running = false) :
    ¬ exec.reports cellAction := by
  intro hreports
  cases hstep with
  | emit hfinished hclosed =>
    have hended := h.cell.ended hover
    rw [hfinished, hclosed] at hended
    rcases hended with hended | hended <;> cases hended
  | call | callMissing | cancel | close | takeEvent | takeClosed | takeCommand | timer | remove =>
    exact hreports.elim

theorem Service.Wf.step (h : s.Wf) (hstep : ServiceStep s action t) : t.Wf := by
  cases hstep with
  | start =>
    refine ⟨h.cells_insert (.start s.storedValues) (Nat.lt_succ_self _) (Nat.le_succ _), h.missing,
      fun received hmem cellId hcellId => ?_⟩
    obtain ⟨exec, hexec, hresult⟩ := h.results received hmem cellId hcellId
    have hne : cellId ≠ s.nextCellId := Nat.ne_of_lt (h.cells cellId exec hexec).2
    exact ⟨exec, (lookup_insert _ _).trans ((if_neg hne).trans hexec), hresult⟩
  | store hcell hfinished hclosed =>
    rename_i cellId exec key value
    obtain ⟨hexec, hlt⟩ := h.cells cellId exec hcell
    refine ⟨h.cells_insert (hexec.store hfinished hclosed key value) hlt (le_refl _), h.missing,
      fun received hmem otherId hother => h.results_insert hcell (fun hover => ?_) hmem hother⟩
    have hended := hexec.cell.ended hover
    rw [hfinished, hclosed] at hended
    rcases hended with hended | hended <;> cases hended
  | cell hcell hsends hcellStep hreceived hreported =>
    rename_i cellId exec cellAction next responses reported
    obtain ⟨hexec, hlt⟩ := h.cells cellId exec hcell
    have hnext := hexec.step hsends hcellStep hreported
    refine ⟨h.cells_insert hnext hlt (le_refl _), fun received hmem hnone => ?_,
      fun received hmem otherId hother => ?_⟩
    · rcases List.mem_append.1 hmem with hmem | hmem
      · exact h.missing received hmem hnone
      · obtain ⟨entry, -, rfl⟩ := List.mem_map.1 hmem
        cases hnone
    · rcases List.mem_append.1 hmem with hmem | hmem
      · refine h.results_insert hcell (fun hover => ⟨over_of_step hcellStep hover, ?_⟩) hmem hother
        have hsame : reported = exec.reported := by
          rw [Bool.eq_iff_iff, hreported]
          exact or_iff_left (hexec.not_reports hcellStep hover)
        rw [ExecCell.resultValues, hsame]
        rfl
      · obtain ⟨entry, hentry, rfl⟩ := List.mem_map.1 hmem
        obtain rfl := Option.some.inj hother
        refine ⟨_, (lookup_insert _ _).trans (if_pos rfl),
          fun items storedValues errorText heq => ?_⟩
        have hentry' : entry ∈ next.received := by
          rw [hreceived]
          exact List.mem_append_right _ hentry
        exact ⟨hnext.holds.received entry hentry' items storedValues errorText heq,
          hnext.holds.final entry hentry' (by rw [show entry.2 = _ from heq]; rfl)⟩
  | missing =>
    refine ⟨h.cells, fun received hmem hnone => ?_, fun received hmem cellId hcellId => ?_⟩
    · rcases List.mem_append.1 hmem with hmem | hmem
      · exact h.missing received hmem hnone
      · rw [List.mem_singleton.1 hmem]
    · rcases List.mem_append.1 hmem with hmem | hmem
      · exact h.results received hmem cellId hcellId
      · rw [List.mem_singleton.1 hmem] at hcellId
        cases hcellId
  | handle hreceived =>
    rename_i received before after
    have hsub : ∀ other ∈ before ++ after, other ∈ s.received := by
      intro other hmem
      rw [hreceived]
      rcases List.mem_append.1 hmem with hmem | hmem
      · exact List.mem_append_left _ hmem
      · exact List.mem_append_right _ (.tail _ hmem)
    exact ⟨h.cells, fun other hmem => h.missing other (hsub other hmem),
      fun other hmem => h.results other (hsub other hmem)⟩

theorem Service.Wf.of_reach (h : codeModeService.Reach s) : s.Wf := by
  refine h.invariant ?_ fun _ _ _ hwf hstep => hwf.step hstep
  rintro _ rfl
  exact ⟨fun _ _ hlookup => by (cases hlookup), fun _ hmem => by (cases hmem),
    fun _ hmem => by (cases hmem)⟩

/-! ## Values belong to the cells that stored them -/

namespace Service

/-- Handling a response changes values at keys that its cell stored only. -/
def ChangesOwnKeys (s : Service) (received : Received) : Prop :=
  ∀ key, (s.replaceStoredValues received.response).lookup key ≠ s.storedValues.lookup key →
    key ∈ s.ownKeys received

/-- At the keys that its cell did not store, what a result is built on is what the service has:
no value changed since the cell was started, and there is none if the result is of no script. -/
def BaseUnchanged (s : Service) (received : Received) : Prop :=
  match received.response with
  | .result _ _ _ => ∀ key, key ∉ s.ownKeys received →
    (s.base received).lookup key = s.storedValues.lookup key
  | .yielded _ | .terminated _ => True

/-- The condition on a step. -/
def Unchanged (s : Service) : ServiceAction → Prop
  | .handle received => s.BaseUnchanged received
  | _ => True

/-- The value that was handled last of a cell that stored the key. -/
def lastStored (s : Service) (key : List Char) : Option (List Char) :=
  (s.handled.find? fun entry => entry.1.contains key).bind fun entry => entry.2.lookup key

end Service

/-- Apart from what its cell stored, a result has what it is built on. -/
theorem Service.Wf.lookup_result (h : s.Wf) (hmem : received ∈ s.received)
    {items : List ContentItem} {storedValues : StoredValues} {errorText : Option (List Char)}
    (hresult : received.response = .result items storedValues errorText) {key : List Char}
    (hkey : key ∉ s.ownKeys received) :
    storedValues.lookup key = (s.base received).lookup key := by
  cases hcellId : received.cellId with
  | none =>
    have hmissing := h.missing received hmem hcellId
    rw [hresult, missingCellResponse] at hmissing
    obtain ⟨-, rfl, -⟩ := RuntimeResponse.result.inj hmissing
    rw [base, hcellId]
    rfl
  | some cellId =>
    obtain ⟨exec, hexec, hvalues⟩ := h.results received hmem cellId hcellId
    have hbase : s.base received = exec.base := by
      rw [base, hcellId, Option.bind_some, hexec]
    have hown : s.ownKeys received = exec.storedKeys := by
      rw [ownKeys, hcellId, Option.bind_some, hexec]
    rw [hbase, (hvalues items storedValues errorText hresult).1, ExecCell.resultValues,
      ExecCell.base]
    rw [hown] at hkey
    split
    · exact (h.cells cellId exec hexec).1.copy key hkey
    · rfl

theorem Service.Wf.changesOwnKeys_iff (h : s.Wf) (hmem : received ∈ s.received) :
    s.ChangesOwnKeys received ↔ s.BaseUnchanged received := by
  rw [ChangesOwnKeys, BaseUnchanged]
  cases hresponse : received.response with
  | yielded items | terminated items => exact iff_of_true (fun _ hne => absurd rfl hne) trivial
  | result items storedValues errorText =>
    constructor
    · intro hown key hkey
      rw [← h.lookup_result hmem hresponse hkey]
      by_contra hne
      exact hkey (hown key hne)
    · intro hbase key hne
      by_contra hkey
      exact hne ((h.lookup_result hmem hresponse hkey).trans (hbase key hkey))

/-- In a run whose results are built on what is there, values are those that were stored last. -/
theorem Service.lookup_eq_lastStored (h : (codeModeService.restrict Unchanged).Reach s)
    (key : List Char) : s.storedValues.lookup key = s.lastStored key := by
  have hboth : s.Wf ∧ ∀ key, s.storedValues.lookup key = s.lastStored key := by
    refine h.invariant (I := fun s => s.Wf ∧ ∀ key, s.storedValues.lookup key = s.lastStored key)
      ?_ ?_
    · rintro _ rfl
      exact ⟨.of_reach (.init rfl), fun _ => rfl⟩
    · rintro s action t ⟨hwf, hvalues⟩ ⟨hunchanged, hstep⟩
      refine ⟨hwf.step hstep, fun key => ?_⟩
      cases hstep with
      | start | store | cell | missing => exact hvalues key
      | handle hreceived =>
        rename_i received before after
        have hmem : received ∈ s.received := by
          rw [hreceived]
          exact List.mem_append_right _ (.head _)
        rw [Unchanged, BaseUnchanged] at hunchanged
        cases hresponse : received.response with
        | yielded items | terminated items =>
          simp only [handle, lastStored, hresponse, replaceStoredValues]
          exact hvalues key
        | result items storedValues errorText =>
          rw [hresponse] at hunchanged
          simp only [handle, lastStored, hresponse, replaceStoredValues, List.find?_cons]
          by_cases hkey : key ∈ s.ownKeys received
          · rw [show (s.ownKeys received).contains key = true by simpa using hkey]
            rfl
          · rw [show (s.ownKeys received).contains key = false by simpa using hkey]
            rw [hwf.lookup_result hmem hresponse hkey, hunchanged key hkey]
            exact hvalues key
  exact hboth.2 key

end

/-- **Values belong to the cells that stored them.** A response that is handled changes values of
its cell only, if and only if what its result is built on is unchanged elsewhere; and in a run in
which this is so each time, a value is the one that was stored last. -/
theorem stored_values_owned (s : Service) :
    (codeModeService.Reach s → ∀ received ∈ s.received,
      (s.ChangesOwnKeys received ↔ s.BaseUnchanged received)) ∧
    ((codeModeService.restrict Service.Unchanged).Reach s →
      ∀ key, s.storedValues.lookup key = s.lastStored key) :=
  ⟨fun h _ hmem => (Service.Wf.of_reach h).changesOwnKeys_iff hmem,
    fun h key => Service.lookup_eq_lastStored h key⟩

/-! ## A value that is lost -/

theorem Service.reach_step {s t : Service} {C : Service → ServiceAction → Prop}
    (h : (codeModeService.restrict C).Reach s) (action : ServiceAction)
    (hstep : ServiceStep s action t) (hC : C s action) :
    (codeModeService.restrict C).Reach t := .step h ⟨hC, hstep⟩

/-- The result of the only cell, which stored a value, is handled. -/
theorem reach_stored : ∃ s, (codeModeService.restrict Service.Unchanged).Reach s ∧
    s.received = [] ∧ s.lastStored ['k'] = some ['1'] := by
  have h : (codeModeService.restrict Service.Unchanged).Reach .new := .init rfl
  have h := Service.reach_step h .start .start trivial
  have h := Service.reach_step h (.store 1 ['k'] ['1']) (.store rfl rfl rfl) trivial
  have h := Service.reach_step h
    (.cell 1 (.emit (.result ((∅ : StoredValues).insert ['k'] ['1']) none)))
    (@ServiceStep.cell _ 1 _ _ _ [] true rfl (Or.inl rfl) (.emit rfl rfl) rfl
      (iff_of_true rfl (Or.inr rfl))) trivial
  have h := Service.reach_step h (.cell 1 .takeEvent)
    (@ServiceStep.cell _ 1 _ _ _ _ true rfl trivial (.takeEvent rfl rfl) rfl
      (iff_of_true rfl (Or.inl rfl))) trivial
  have h := Service.reach_step h (.handle _) (@ServiceStep.handle _ _ [] _ rfl) fun _ _ => rfl
  exact ⟨_, h, rfl, rfl⟩

/-- The value is there. -/
theorem stored_values_owned_value : ∃ s, codeModeService.Reach s ∧
    s.storedValues.lookup ['k'] = some ['1'] := by
  obtain ⟨s, h, -, hlast⟩ := reach_stored
  exact ⟨s, h.of_restrict, ((stored_values_owned s).2 h ['k']).trans hlast⟩

/-- A wait for a cell that is not there removes the value. -/
theorem value_lost_to_missing_cell : ∃ s received, codeModeService.Reach s ∧
    received ∈ s.received ∧ ¬ s.ChangesOwnKeys received := by
  obtain ⟨s, h, hreceived, hlast⟩ := reach_stored
  have hvalue := (Service.lookup_eq_lastStored h ['k']).trans hlast
  have hmissing : codeModeService.step s .missing _ := ServiceStep.missing
  refine ⟨_, ⟨none, missingCellResponse⟩, .step h.of_restrict hmissing,
    List.mem_append_right _ (.head _), fun hchanges => ?_⟩
  have hown := hchanges ['k'] fun heq => by
    have hnone : (none : Option (List Char)) = s.storedValues.lookup ['k'] := heq
    rw [hvalue] at hnone
    cases hnone
  cases hown

end Mcodex.CodeMode
