import Mcodex.CodeMode.Cells
import Mathlib.Data.List.Perm.Basic

/-!
# Calls are answered

Calls that reach the session of a cell are queued, then in the slot, then answered. This goes wrong
in three ways only: a command that is taken replaces the call in the slot, a request to yield or a
timer answers a call that is to terminate the cell, and the session ends with commands in its queue.
-/

namespace Mcodex.CodeMode

open Transition

namespace Cell

section
variable (cell : Cell)

/-- The calls that are queued or in the slot. -/
def openCalls : List CallId :=
  cell.session.responseTx.toList ++ cell.commands.map SessionControlCommand.responseTx

/-- How often a call was answered. -/
def answers (call : CallId) : Nat := (cell.received.map Prod.fst).count call

/-- The runtime runs its script. -/
def runtimeRuns : Prop := cell.finished = false ∧ cell.closed = false

/-- Each call that reached the session is answered once, at the latest when the session ends, and is
not told that the cell is missing; nor is any call while the runtime runs; and what is to terminate
the cell gets its last response. -/
structure Answered : Prop where
  once : ∀ call ∈ cell.reached.map Prod.fst, cell.answers call = 1 ∨
    (cell.answers call = 0 ∧ cell.running = true ∧ call ∈ cell.openCalls)
  missing : ∀ call ∈ cell.missing, call ∉ cell.reached.map Prod.fst
  alive : cell.runtimeRuns → cell.missing = []
  final : ∀ entry ∈ cell.received, (entry.1, true) ∈ cell.reached → entry.2.isFinal = true

/-- The call in the slot is not to terminate the cell. -/
def SlotYields : Prop :=
  ∀ call, cell.session.responseTx = some call → (call, true) ∉ cell.reached

/-- The condition on a step: no caller is cancelled, a command that is taken does not find a call in
the slot, a yield does not answer a call that is to terminate, and the session leaves no commands
when it ends. -/
def Undisturbed : CellAction → Prop
  | .cancel _ => False
  | .takeCommand =>
    if cell.session.pendingResult.isSome then cell.commands.tail = []
    else cell.session.responseTx = none
  | .takeEvent =>
    match cell.events with
    | .yieldRequested :: _ => cell.SlotYields
    | .result _ _ :: _ | [] => cell.session.responseTx.isSome = true → cell.commands = []
    | _ => True
  | .timer => cell.SlotYields
  | _ => True

end

section
variable {cell next : Cell} {action : CellAction} {items : List ContentItem}
  {iteration : Iteration}

/-- How the calls stand. -/
structure Answering (cell : Cell) : Prop where
  nodup : cell.calls.Nodup
  known : ∀ call ∈ cell.reached.map Prod.fst, call ∈ cell.calls
  opened : ∀ call ∈ cell.openCalls, call ∈ cell.calls
  distinct : (cell.reached.map Prod.fst).Nodup
  live : cell.running = true → (cell.received.map Prod.fst ++ cell.openCalls).Perm
    (cell.reached.map Prod.fst) ∧ (∀ call ∈ cell.openCalls, call ∈ cell.waiting) ∧
      cell.missing = []
  ended : cell.running = false → (cell.received.map Prod.fst).Perm (cell.reached.map Prod.fst) ∧
    ∀ call ∈ cell.openCalls, call ∉ cell.reached.map Prod.fst
  queued : cell.running = true → ∀ command ∈ cell.commands,
    (command.responseTx, command.isTerminate) ∈ cell.reached
  missing : ∀ call ∈ cell.missing, call ∈ cell.calls ∧ call ∉ cell.reached.map Prod.fst
  requested : cell.running = true → cell.session.terminationRequested = true →
    ∃ call, cell.session.responseTx = some call ∧ (call, true) ∈ cell.reached
  final : ∀ entry ∈ cell.received, (entry.1, true) ∈ cell.reached → entry.2.isFinal = true

theorem Answering.start (call : CallId) : (Cell.start call).Answering := by
  refine ⟨List.nodup_singleton _, fun _ h => h, fun _ h => h, List.nodup_singleton _,
    fun _ => ⟨?_, ?_, rfl⟩,
    fun h => by (cases h), fun _ _ h => by (cases h), fun _ h => by (cases h),
    fun _ h => by (cases h), fun _ h => by (cases h)⟩
  · exact List.Perm.refl _
  · exact fun _ h => h

/-- An iteration that answers the call in the slot, or none. -/
theorem Answering.iterate (h : cell.Answering) (hrunning : cell.running = true)
    (hturn : Turn cell.session items iteration)
    (hfinal : ∀ entry, iteration.sent = some entry → (entry.1, true) ∈ cell.reached →
      entry.2.isFinal = true)
    (hends : iteration.ended = true → cell.session.responseTx.isSome = true →
      cell.commands = []) :
    (cell.iterate iteration).Answering := by
  obtain ⟨hperm, hwaiting, hmissing⟩ := h.live hrunning
  cases hsent : iteration.sent with
  | none =>
    have hgoes : iteration.ended = false := by
      cases hended : iteration.ended with
      | false => rfl
      | true =>
        obtain ⟨hrequested, hslot⟩ := hturn.lost hended hsent
        obtain ⟨call, hcall, -⟩ := h.requested hrunning hrequested
        rw [hslot] at hcall
        cases hcall
    have hslot : iteration.session.responseTx = cell.session.responseTx := by
      rw [hturn.rest, hsent]
      rfl
    have hnext : cell.iterate iteration = { cell with session := iteration.session } := by
      simp [Cell.iterate, send, hsent, hgoes, hrunning]
    have hopen : (cell.iterate iteration).openCalls = cell.openCalls := by
      rw [hnext, openCalls, hslot]
      rfl
    refine ⟨h.nodup, h.known, fun call hmem => h.opened call (hopen ▸ hmem), h.distinct,
      fun _ => ?_, fun hover => ?_, fun _ => h.queued hrunning, h.missing,
      fun _ hrequested => ?_, ?_⟩
    · rw [hopen, hnext]
      exact ⟨hperm, hwaiting, hmissing⟩
    · rw [ended_of_running hover] at hgoes
      cases hgoes
    · rw [hnext] at hrequested ⊢
      rw [hslot]
      exact h.requested hrunning (hturn.requested ▸ hrequested)
    · rw [hnext]
      exact h.final
  | some entry =>
    have hslot := hturn.slot entry hsent
    have hcall : entry.1 ∈ cell.openCalls := by
      rw [openCalls, hslot]
      exact List.mem_cons_self
    have hreceived : (cell.iterate iteration).received = cell.received ++ [entry] := by
      simp [Cell.iterate, send, hsent, hwaiting entry.1 hcall]
    have hempty : iteration.session.responseTx = none := by
      rw [hturn.rest, hsent]
      rfl
    have hopen : (cell.iterate iteration).openCalls =
        cell.commands.map SessionControlCommand.responseTx := by
      simp [Cell.iterate, send, openCalls, hempty]
    have hopen' : cell.openCalls =
        entry.1 :: cell.commands.map SessionControlCommand.responseTx := by
      rw [openCalls, hslot]
      rfl
    have hperm' : ((cell.iterate iteration).received.map Prod.fst ++
        cell.commands.map SessionControlCommand.responseTx).Perm (cell.reached.map Prod.fst) := by
      rw [hreceived, List.map_append, List.append_assoc]
      rw [hopen'] at hperm
      exact hperm
    have hfresh : entry.1 ∉ cell.commands.map SessionControlCommand.responseTx := by
      have hnodup := hperm.nodup_iff.2 h.distinct
      rw [hopen'] at hnodup
      exact (List.nodup_cons.1 hnodup.of_append_right).1
    refine ⟨h.nodup, h.known, fun call hmem => ?_, h.distinct,
      fun _ => ⟨hopen ▸ hperm', fun call hmem => ?_, hmissing⟩, fun hover => ?_,
      fun _ => h.queued hrunning, h.missing, fun hlive hrequested => ?_, ?_⟩
    · rw [hopen] at hmem
      exact h.opened call (hopen' ▸ .tail _ hmem)
    · rw [hopen] at hmem
      refine List.mem_filter.2 ⟨hwaiting call (hopen' ▸ .tail _ hmem), ?_⟩
      rw [hsent]
      simp only [Option.map_some, ne_eq, Option.some.injEq, decide_eq_true_eq]
      rintro rfl
      exact hfresh hmem
    · have hnone := hends (ended_of_running hover) (by rw [hslot]; rfl)
      rw [hnone, List.map_nil, List.append_nil] at hperm'
      refine ⟨hperm', fun call hmem => ?_⟩
      rw [hopen, hnone] at hmem
      cases hmem
    · -- What is to terminate the cell gets no other answer than the last.
      have hrequested' : cell.session.terminationRequested = true := hturn.requested ▸ hrequested
      obtain ⟨call, hcall, hterminate⟩ := h.requested hrunning hrequested'
      rw [hslot] at hcall
      cases hcall
      have hended := hfinal entry hsent hterminate
      rw [hturn.final entry hsent, running_of_iterate hlive] at hended
      cases hended
    · rw [hreceived]
      intro other hother hterminate
      rcases List.mem_append.1 hother with hother | hother
      · exact h.final other hother hterminate
      · rw [List.mem_singleton] at hother
        subst hother
        exact hfinal other hsent hterminate

theorem drop_nil : cell.drop [] = cell := by
  simp [drop]

theorem Answering.call (h : cell.Answering) {command : SessionControlCommand}
    (hfresh : command.responseTx ∉ cell.calls) :
    ({ cell with
      calls := cell.calls ++ [command.responseTx]
      waiting := cell.waiting ++ [command.responseTx]
      commands := cell.commands ++ [command]
      reached := if cell.running then
        cell.reached ++ [(command.responseTx, command.isTerminate)] else cell.reached } :
          Cell).Answering := by
  have hnodup : (cell.calls ++ [command.responseTx]).Nodup :=
    h.nodup.append (List.nodup_singleton _) fun call hmem hone =>
      hfresh (List.mem_singleton.1 hone ▸ hmem)
  have hnot : command.responseTx ∉ cell.reached.map Prod.fst := fun hmem =>
    hfresh (h.known _ hmem)
  have hopen : cell.session.responseTx.toList ++
      (cell.commands ++ [command]).map SessionControlCommand.responseTx =
        cell.openCalls ++ [command.responseTx] := by
    simp [openCalls]
  have hopened : ∀ call ∈ cell.openCalls ++ [command.responseTx],
      call ∈ cell.calls ++ [command.responseTx] := by
    intro call hmem
    rcases List.mem_append.1 hmem with hmem | hmem
    · exact List.mem_append_left _ (h.opened call hmem)
    · exact List.mem_append_right _ hmem
  have hmissing : ∀ call ∈ cell.missing, call ∈ cell.calls ++ [command.responseTx] ∧
      call ≠ command.responseTx ∧ call ∉ cell.reached.map Prod.fst := by
    intro call hmem
    obtain ⟨hcall, hreached⟩ := h.missing call hmem
    exact ⟨List.mem_append_left _ hcall, fun heq => hfresh (heq ▸ hcall), hreached⟩
  cases hrunning : cell.running with
  | true =>
    obtain ⟨hperm, hwaiting, hnone⟩ := h.live hrunning
    have hreached : (cell.reached ++ [(command.responseTx, command.isTerminate)]).map Prod.fst =
        cell.reached.map Prod.fst ++ [command.responseTx] := by
      rw [List.map_append, List.map_singleton]
    have hold : ∀ entry ∈ cell.received, (entry.1, true) ∈
        cell.reached ++ [(command.responseTx, command.isTerminate)] →
          (entry.1, true) ∈ cell.reached := by
      intro entry hmem hterminate
      rcases List.mem_append.1 hterminate with hterminate | hterminate
      · exact hterminate
      · have hfirst : entry.1 = command.responseTx :=
          (Prod.mk.inj (List.mem_singleton.1 hterminate)).1
        have hreceived : entry.1 ∈ cell.reached.map Prod.fst :=
          hperm.subset (List.mem_append_left _ (List.mem_map_of_mem hmem))
        exact absurd (hfirst ▸ hreceived) hnot
    refine ⟨hnodup, fun call hmem => ?_, fun call hmem => hopened call (hopen ▸ hmem), ?_,
      fun _ => ⟨?_, fun call hmem => ?_, hnone⟩, fun hover => ?_, fun _ other hmem => ?_,
      fun call hmem => ?_, fun _ hrequested => ?_, fun entry hmem hterminate =>
        h.final entry hmem (hold entry hmem hterminate)⟩
    · rw [if_pos rfl, hreached] at hmem
      rcases List.mem_append.1 hmem with hmem | hmem
      · exact List.mem_append_left _ (h.known call hmem)
      · exact List.mem_append_right _ hmem
    · rw [if_pos rfl, hreached]
      exact h.distinct.append (List.nodup_singleton _) fun call hmem hone =>
        hnot (List.mem_singleton.1 hone ▸ hmem)
    · rw [if_pos rfl, hreached, openCalls, hopen, ← List.append_assoc]
      exact hperm.append_right _
    · rw [openCalls, hopen] at hmem
      rcases List.mem_append.1 hmem with hmem | hmem
      · exact List.mem_append_left _ (hwaiting call hmem)
      · exact List.mem_append_right _ hmem
    · cases hover
    · rw [if_pos rfl]
      rcases List.mem_append.1 hmem with hmem | hmem
      · exact List.mem_append_left _ (h.queued hrunning other hmem)
      · rw [List.mem_singleton.1 hmem]
        exact List.mem_append_right _ (.head _)
    · rw [if_pos rfl, hreached]
      obtain ⟨hcall, hne, hreached⟩ := hmissing call hmem
      refine ⟨hcall, fun hmem => ?_⟩
      rcases List.mem_append.1 hmem with hmem | hmem
      · exact hreached hmem
      · exact hne (List.mem_singleton.1 hmem)
    · obtain ⟨call, hslot, hterminate⟩ := h.requested hrunning hrequested
      rw [if_pos rfl]
      exact ⟨call, hslot, List.mem_append_left _ hterminate⟩
  | false =>
    -- The call comes too late.
    obtain ⟨hperm, hopenCalls⟩ := h.ended hrunning
    refine ⟨hnodup, fun call hmem => List.mem_append_left _ (h.known call hmem),
      fun call hmem => hopened call (hopen ▸ hmem), h.distinct, fun hlive => by (cases hlive),
      fun _ => ⟨hperm, fun call hmem => ?_⟩, fun hlive => by (cases hlive), fun call hmem =>
        ⟨(hmissing call hmem).1, (hmissing call hmem).2.2⟩, fun hlive => by (cases hlive), h.final⟩
    rw [openCalls, hopen] at hmem
    rcases List.mem_append.1 hmem with hmem | hmem
    · exact hopenCalls call hmem
    · rw [List.mem_singleton.1 hmem]
      exact hnot

theorem Answering.takeCommand (h : cell.Answering) (hwf : cell.Wf)
    (hrunning : cell.running = true) {command : SessionControlCommand}
    {commands : List SessionControlCommand} (hcommands : cell.commands = command :: commands)
    (hundisturbed : cell.Undisturbed .takeCommand) :
    (({ cell with commands }.drop cell.replaced).iterate
      (cell.session.onCommand command)).Answering := by
  obtain ⟨hperm, hwaiting, hmissing⟩ := h.live hrunning
  have hslot : cell.session.responseTx = none := by
    rw [Undisturbed] at hundisturbed
    split at hundisturbed
    · exact (hwf.settled ‹_›).2
    · exact hundisturbed
  have hreplaced : cell.replaced = [] := by
    rw [replaced, hslot]
    exact ite_self _
  have hopen : cell.openCalls =
      command.responseTx :: commands.map SessionControlCommand.responseTx := by
    rw [openCalls, hslot, hcommands]
    rfl
  have hcall : command.responseTx ∈ cell.waiting := hwaiting _ (hopen ▸ .head _)
  have hflag : (command.responseTx, command.isTerminate) ∈ cell.reached :=
    h.queued hrunning command (hcommands ▸ .head _)
  have hqueued : ∀ other ∈ commands, (other.responseTx, other.isTerminate) ∈ cell.reached :=
    fun other hmem => h.queued hrunning other (hcommands ▸ .tail _ hmem)
  rw [hreplaced, drop_nil]
  cases hpending : cell.session.pendingResult with
  | some result =>
    have hnone : commands = [] := by
      rw [Undisturbed, hpending, if_pos (by rfl), hcommands] at hundisturbed
      exact hundisturbed
    subst hnone
    have hturn : cell.session.onCommand command =
        ⟨{ cell.session with pendingResult := none }, some (command.responseTx, result.response),
          true⟩ := by simp [SessionControl.onCommand, hpending]
    have hreceived : (({ cell with commands := [] } : Cell).iterate
        (cell.session.onCommand command)).received =
          cell.received ++ [(command.responseTx, result.response)] := by
      simp [Cell.iterate, send, hturn, hcall]
    have hclosed : (({ cell with commands := [] } : Cell).iterate
        (cell.session.onCommand command)).openCalls = [] := by
      simp [Cell.iterate, send, hturn, openCalls, hslot]
    have hended : (({ cell with commands := [] } : Cell).iterate
        (cell.session.onCommand command)).running = false := by
      simp [Cell.iterate, send, hturn]
    refine ⟨h.nodup, h.known, fun call hmem => ?_, h.distinct, fun hlive => ?_,
      fun _ => ⟨?_, fun call hmem => ?_⟩, fun _ _ hmem => by (cases hmem), h.missing,
      fun hlive => ?_, ?_⟩
    · rw [hclosed] at hmem
      cases hmem
    · rw [hended] at hlive
      cases hlive
    · rw [hreceived, List.map_append]
      rw [hopen] at hperm
      exact hperm
    · rw [hclosed] at hmem
      cases hmem
    · rw [hended] at hlive
      cases hlive
    · rw [hreceived]
      intro entry hmem hterminate
      rcases List.mem_append.1 hmem with hmem | hmem
      · exact h.final entry hmem hterminate
      · rw [List.mem_singleton.1 hmem]
        rfl
  | none =>
    have hgoes : cell.session.runtimeClosed = false := by
      cases hclosed : cell.session.runtimeClosed with
      | false => rfl
      | true =>
        have hsome := (hwf.closed hclosed).2.2 hrunning
        rw [hpending] at hsome
        cases hsome
    have hturn : (cell.session.onCommand command).sent = none ∧
        (cell.session.onCommand command).ended = false ∧
        (cell.session.onCommand command).session.responseTx = some command.responseTx ∧
        ((cell.session.onCommand command).session.terminationRequested = true →
          cell.session.terminationRequested = true ∨ command.isTerminate = true) := by
      cases command <;>
        simp [SessionControl.onCommand, SessionControl.next, SessionControlCommand.responseTx,
          SessionControlCommand.isTerminate, hpending, hgoes]
    obtain ⟨hsent, hended, htx, hrequested⟩ := hturn
    have hnext : ({ cell with commands } : Cell).iterate (cell.session.onCommand command) =
        { cell with commands, session := (cell.session.onCommand command).session } := by
      simp [Cell.iterate, send, hsent, hended, hrunning]
    have hopen' : ({ cell with
        commands, session := (cell.session.onCommand command).session } : Cell).openCalls =
          cell.openCalls := by
      rw [hopen, openCalls, htx]
      rfl
    rw [hnext]
    refine ⟨h.nodup, h.known, fun call hmem => h.opened call (hopen' ▸ hmem), h.distinct,
      fun _ => ⟨hopen' ▸ hperm, fun call hmem => hwaiting call (hopen' ▸ hmem), hmissing⟩,
      fun hover => ?_, fun _ => hqueued, h.missing, fun _ htermination => ?_, h.final⟩
    · rw [show cell.running = false from hover] at hrunning
      cases hrunning
    · rcases hrequested htermination with htermination | hterminate
      · obtain ⟨call, hsome, -⟩ := h.requested hrunning htermination
        rw [hslot] at hsome
        cases hsome
      · exact ⟨command.responseTx, htx, hterminate ▸ hflag⟩

theorem Answering.step (h : cell.Answering) (hwf : cell.Wf)
    (hundisturbed : cell.Undisturbed action) (hstep : CellStep cell action next) :
    next.Answering := by
  cases hstep with
  | call hfresh => exact h.call hfresh
  | callMissing hfresh hregistered =>
    rename_i command
    have hnot : command.responseTx ∉ cell.reached.map Prod.fst := fun hmem =>
      hfresh (h.known _ hmem)
    refine ⟨h.nodup.append (List.nodup_singleton _) ?_, fun call hmem => ?_, fun call hmem => ?_,
      h.distinct, fun hlive => ?_, h.ended, h.queued, fun call hmem => ?_, h.requested, h.final⟩
    · intro call hmem hone
      exact hfresh (List.mem_singleton.1 hone ▸ hmem)
    · exact List.mem_append_left _ (h.known call hmem)
    · exact List.mem_append_left _ (h.opened call hmem)
    · rw [hwf.registered hlive] at hregistered
      cases hregistered
    · rcases List.mem_append.1 hmem with hmem | hmem
      · exact ⟨List.mem_append_left _ (h.missing call hmem).1, (h.missing call hmem).2⟩
      · rw [List.mem_singleton.1 hmem]
        exact ⟨List.mem_append_right _ (.head _), hnot⟩
  | cancel => exact hundisturbed.elim
  | emit | close =>
    exact ⟨h.nodup, h.known, h.opened, h.distinct, h.live, h.ended, h.queued, h.missing,
      h.requested, h.final⟩
  | takeEvent hrunning hevents =>
    rename_i event events
    have hpending := hwf.pendingResult_eq_none hevents
    have hturn := turn_onEvent hpending event
    have hcell : ({ cell with events, taken := cell.taken ++ event.contentItems } :
        Cell).Answering :=
      ⟨h.nodup, h.known, h.opened, h.distinct, h.live, h.ended, h.queued, h.missing,
        h.requested, h.final⟩
    rw [Undisturbed, hevents] at hundisturbed
    refine hcell.iterate hrunning hturn ?_ ?_
    · intro entry hsent hterminate
      cases event with
      | yieldRequested =>
        exact absurd hterminate (hundisturbed entry.1 (hturn.slot entry hsent))
      | result =>
        rw [hturn.final entry hsent]
        exact onEvent_result_ended (by rw [hsent]; rfl)
      | started | contentItem | toolCall | notify => cases hsent
    · intro hended hslot
      have hresult := onEvent_result hpending (Or.inr hended)
      cases event with
      | result => exact hundisturbed hslot
      | started | contentItem | yieldRequested | toolCall | notify => cases hresult
  | takeClosed hrunning hevents =>
    have hturn := turn_onClosed (s := cell.session) fun hsome => (hwf.settled hsome).2
    rw [Undisturbed, hevents] at hundisturbed
    refine h.iterate hrunning hturn (fun entry hsent _ => ?_) fun _ hslot => hundisturbed hslot
    rw [hturn.final entry hsent]
    exact onClosed_ended (by rw [hsent]; rfl)
  | takeCommand hrunning hcommands => exact h.takeCommand hwf hrunning hcommands hundisturbed
  | timer hrunning =>
    have hturn := turn_onTimer (s := cell.session) fun hsome => (hwf.settled hsome).2
    refine h.iterate hrunning hturn (fun entry hsent hterminate => ?_) fun hended => ?_
    · exact absurd hterminate (hundisturbed entry.1 (hturn.slot entry hsent))
    · rw [(onTimer_eq (s := cell.session)).2.2] at hended
      cases hended
  | remove hrunning =>
    have hover := h.ended hrunning
    refine ⟨h.nodup, h.known, fun call hmem => h.opened call ?_, h.distinct, fun hlive => ?_,
      fun _ => ⟨hover.1, fun call hmem => hover.2 call ?_⟩, fun _ _ hmem => by (cases hmem),
      fun call hmem => ?_, fun hlive => ?_, h.final⟩
    · exact List.mem_append_left _ (by simpa [openCalls, drop] using hmem)
    · rw [show cell.running = true from hlive] at hrunning
      cases hrunning
    · exact List.mem_append_left _ (by simpa [openCalls, drop] using hmem)
    · rcases List.mem_append.1 hmem with hmem | hmem
      · exact h.missing call hmem
      · have hopen := (List.mem_filter.1 hmem).1
        exact ⟨h.opened call hopen, hover.2 call hopen⟩
    · rw [show cell.running = true from hlive] at hrunning
      cases hrunning

theorem Answering.of_reach (h : (codeCell.restrict Undisturbed).Reach cell) :
    cell.Answering := by
  have hboth : cell.Wf ∧ cell.Answering := by
    refine h.invariant (I := fun cell => cell.Wf ∧ cell.Answering) ?_ ?_
    · rintro _ ⟨call, rfl⟩
      exact ⟨.start call, .start call⟩
    · rintro cell action next ⟨hwf, hanswering⟩ ⟨hundisturbed, hstep⟩
      exact ⟨hwf.step hstep, hanswering.step hwf hundisturbed hstep⟩
  exact hboth.2

theorem Answering.once (h : cell.Answering) {call : CallId}
    (hcall : call ∈ cell.reached.map Prod.fst) : cell.answers call = 1 ∨
      (cell.answers call = 0 ∧ cell.running = true ∧ call ∈ cell.openCalls) := by
  have hone : (cell.reached.map Prod.fst).count call = 1 :=
    List.count_eq_one_of_mem h.distinct hcall
  cases hrunning : cell.running with
  | true =>
    have hcount := (h.live hrunning).1.count_eq call
    rw [List.count_append, hone] at hcount
    rcases Nat.eq_zero_or_pos (cell.answers call) with hzero | hpos
    · refine Or.inr ⟨hzero, rfl, List.count_pos_iff.1 ?_⟩
      rw [answers] at hzero
      omega
    · rw [answers] at hpos ⊢
      exact Or.inl (by omega)
  | false => exact Or.inl (((h.ended hrunning).1.count_eq call).trans hone)

end

end Cell

/-- **Calls are answered truthfully** in every run without cancelled callers in which no command
replaces a call, no yield answers a call that is to terminate, and no command is left at the end. -/
theorem calls_answered {cell : Cell} (h : (codeCell.restrict Cell.Undisturbed).Reach cell) :
    cell.Answered := by
  have hanswering := Cell.Answering.of_reach h
  refine ⟨fun call hcall => hanswering.once hcall,
    fun call hcall => (hanswering.missing call hcall).2, fun hruns => ?_, hanswering.final⟩
  cases hrunning : cell.running with
  | true => exact (hanswering.live hrunning).2.2
  | false =>
    rcases (Cell.Wf.of_reach h.of_restrict).ended hrunning with hfinished | hclosed
    · rw [hruns.1] at hfinished
      cases hfinished
    · rw [hruns.2] at hclosed
      cases hclosed

/-! ## Two calls -/

/-- No caller is cancelled. -/
def Uncancelled (_ : Cell) (action : CellAction) : Prop := ∀ call, action ≠ .cancel call

/-- The call that started the cell gets its result. -/
theorem calls_answered_result :
    (({ Cell.start 0 with events := [], finished := true } : Cell).iterate
      ((SessionControl.start 0).onEvent (.result ∅ none))).Answered := by
  have h : (codeCell.restrict Cell.Undisturbed).Reach (.start 0) := .init ⟨0, rfl⟩
  have h := Cell.reach_restrict h (.emit (.result ∅ none)) (.emit rfl rfl) trivial
  have h := Cell.reach_restrict h .takeEvent (.takeEvent rfl rfl) (fun _ => rfl)
  exact calls_answered h

/-- A second call replaces the first, which learns that the cell ended unexpectedly while the script
runs; and a call that is to terminate the cell gets what a request to yield was to send. -/
theorem calls_disturbed :
    (∃ cell, (codeCell.restrict Uncancelled).Reach cell ∧ cell.runtimeRuns ∧
      0 ∈ cell.missing ∧ 0 ∈ cell.reached.map Prod.fst) ∧
    ∃ cell, (codeCell.restrict Uncancelled).Reach cell ∧ (1, true) ∈ cell.reached ∧
      (1, .yielded []) ∈ cell.received := by
  have hstart : (codeCell.restrict Uncancelled).Reach (.start 0) := .init ⟨0, rfl⟩
  constructor
  · have h := Cell.reach_restrict hstart (.call (.poll 1)) (.call (by decide) rfl)
      fun _ => CellAction.noConfusion
    have h := Cell.reach_restrict h .takeCommand (.takeCommand rfl rfl)
      fun _ => CellAction.noConfusion
    exact ⟨_, h, ⟨rfl, rfl⟩, .head _, .head _⟩
  · have h := Cell.reach_restrict hstart (.emit .yieldRequested) (.emit rfl rfl)
      fun _ => CellAction.noConfusion
    have h := Cell.reach_restrict h .takeEvent (.takeEvent rfl rfl)
      fun _ => CellAction.noConfusion
    have h := Cell.reach_restrict h (.call (.terminate 1)) (.call (by decide) rfl)
      fun _ => CellAction.noConfusion
    have h := Cell.reach_restrict h .takeCommand (.takeCommand rfl rfl)
      fun _ => CellAction.noConfusion
    have h := Cell.reach_restrict h (.emit .yieldRequested) (.emit rfl rfl)
      fun _ => CellAction.noConfusion
    have h := Cell.reach_restrict h .takeEvent (.takeEvent rfl rfl)
      fun _ => CellAction.noConfusion
    exact ⟨_, h, .tail _ (.head _), .tail _ (.head _)⟩

end Mcodex.CodeMode
