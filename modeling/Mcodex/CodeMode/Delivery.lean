import Mcodex.CodeMode.Cells

/-!
# A cell's output is delivered once

What was taken from the runtime is what callers got and what is buffered, in this order, as long as
the session answers callers that are still there, and has one to answer when it ends. The session
does not look: items that it sends to a caller that was cancelled are lost, and a cell that is asked
to terminate ends without a last response when its slot is empty.
-/

namespace Mcodex.CodeMode

open Transition

namespace Cell

section
variable (cell : Cell)

/-- The items of the responses that callers got. -/
def delivered : List ContentItem := cell.received.flatMap (·.2.contentItems)

/-- A caller got the last response. -/
def Final : Prop := ∃ entry ∈ cell.received, entry.2.isFinal = true

/-- What callers got is what the runtime put out, from its start; with the last response they have
all that was taken, and until then the cell is there for the next wait. -/
structure DeliveredOnce : Prop where
  isPrefix : cell.delivered <+: cell.emitted
  all : cell.Final → cell.delivered = cell.taken
  kept : ¬ cell.Final → cell.running = true ∧ cell.registered = true

/-- The call in the slot, if there is one, still waits. -/
def SlotWaits : Prop := ∀ call, cell.session.responseTx = some call → call ∈ cell.waiting

/-- The session may end: it has a call to answer if it was asked to terminate. -/
def MayEnd : Prop :=
  cell.SlotWaits ∧
    (cell.session.terminationRequested = true → cell.session.responseTx.isSome = true)

/-- The condition on a step. What the session answers waits, unless it yields nothing, and a session
that was asked to terminate has a call to answer when its runtime ends. -/
def Attended : CellAction → Prop
  | .takeEvent =>
    match cell.events with
    | .yieldRequested :: _ => cell.SlotWaits ∨ cell.session.contentItems = []
    | .result _ _ :: _ | [] => cell.MayEnd
    | _ => True
  | .takeCommand => cell.session.pendingResult.isSome = true →
    ∀ command ∈ cell.commands.head?, command.responseTx ∈ cell.waiting
  | .timer => cell.SlotWaits ∨ cell.session.contentItems = []
  | _ => True

end

section
variable {cell next : Cell} {action : CellAction} {items : List ContentItem}
  {iteration : Iteration}

/-- What callers got so far. -/
structure Delivering (cell : Cell) : Prop where
  live : cell.running = true → cell.registered = true ∧ ¬ cell.Final ∧
    cell.delivered ++ cell.session.buffered = cell.taken
  ended : cell.running = false → cell.Final ∧ cell.delivered = cell.taken

/-- An iteration that loses nothing: it answers a caller that waits, or yields nothing to one that
does not, and it answers with the last response when it ends. -/
theorem Delivering.iterate {taken : List ContentItem} (h : cell.Delivering)
    (hrunning : cell.running = true)
    (hitems : iteration.sentItems ++ iteration.session.buffered = cell.session.buffered ++ items)
    (hdrained : iteration.sent.isSome = true → iteration.session.buffered = [])
    (hfinal : ∀ entry, iteration.sent = some entry → entry.2.isFinal = iteration.ended)
    (hwaits : ∀ entry, iteration.sent = some entry →
      entry.1 ∈ cell.waiting ∨ (iteration.ended = false ∧ entry.2.contentItems = []))
    (hends : iteration.ended = true → iteration.sent.isSome = true)
    (htaken : taken = cell.taken ++ items) :
    ({ cell with taken }.iterate iteration).Delivering := by
  obtain ⟨hregistered, hnot, hlive⟩ := h.live hrunning
  cases hsent : iteration.sent with
  | none =>
    have hended : iteration.ended = false := by
      cases hended : iteration.ended with
      | false => rfl
      | true =>
        have hsome := hends hended
        rw [hsent] at hsome
        cases hsome
    have hreceived : ({ cell with taken }.iterate iteration).received = cell.received := by
      simp [Cell.iterate, send, hsent]
    have hbuffered : iteration.session.buffered = cell.session.buffered ++ items := by
      simpa [Iteration.sentItems, hsent] using hitems
    refine ⟨fun _ => ⟨hregistered, ?_, ?_⟩, fun hover => ?_⟩
    · rw [Final, hreceived]
      exact hnot
    · show delivered _ ++ iteration.session.buffered = taken
      rw [delivered, hreceived, hbuffered, htaken, ← hlive, List.append_assoc]
      rfl
    · have hover := ended_of_running hover
      rw [hended] at hover
      cases hover
  | some entry =>
    have hbuffered := hdrained (by rw [hsent]; rfl)
    have hsentItems : entry.2.contentItems = cell.session.buffered ++ items := by
      simpa [Iteration.sentItems, hsent, hbuffered] using hitems
    have hisFinal := hfinal entry hsent
    by_cases hwaiting : entry.1 ∈ cell.waiting
    · have hreceived : ({ cell with taken }.iterate iteration).received =
          cell.received ++ [entry] := by
        simp [Cell.iterate, send, hsent, hwaiting]
      have hdelivered : ({ cell with taken }.iterate iteration).delivered = taken := by
        rw [delivered, hreceived, List.flatMap_append, List.flatMap_singleton, hsentItems, htaken,
          ← hlive, List.append_assoc]
        rfl
      refine ⟨fun hlive' => ⟨hregistered, ?_, ?_⟩, fun hover => ⟨⟨entry, ?_, ?_⟩, hdelivered⟩⟩
      · rw [Final, hreceived]
        rintro ⟨other, hother, hotherFinal⟩
        rcases List.mem_append.1 hother with hother | hother
        · exact hnot ⟨other, hother, hotherFinal⟩
        · rw [List.mem_singleton.1 hother, hisFinal] at hotherFinal
          have hlive' : (!iteration.ended) = true := hlive'
          rw [hotherFinal] at hlive'
          cases hlive'
      · show delivered _ ++ iteration.session.buffered = taken
        rw [hbuffered, List.append_nil]
        exact hdelivered
      · rw [hreceived]
        exact List.mem_append_right _ (.head _)
      · rw [hisFinal]
        exact ended_of_running hover
    · obtain ⟨hended, hnone⟩ := (hwaits entry hsent).resolve_left hwaiting
      have hreceived : ({ cell with taken }.iterate iteration).received = cell.received := by
        simp [Cell.iterate, send, hsent, hwaiting]
      rw [hnone] at hsentItems
      refine ⟨fun _ => ⟨hregistered, ?_, ?_⟩, fun hover => ?_⟩
      · rw [Final, hreceived]
        exact hnot
      · show delivered _ ++ iteration.session.buffered = taken
        rw [delivered, hreceived, hbuffered, htaken, ← hlive, List.append_assoc, ← hsentItems]
        rfl
      · have hover := ended_of_running hover
        rw [hended] at hover
        cases hover

theorem Delivering.start (call : CallId) : (Cell.start call).Delivering :=
  ⟨fun _ => ⟨rfl, fun ⟨_, hmem, _⟩ => by (cases hmem), rfl⟩, fun h => by cases h⟩

/-- Whom a turn answers waits, and it ends with an answer. -/
theorem MayEnd.waits (h : cell.MayEnd) (hturn : Turn cell.session items iteration) :
    (∀ entry, iteration.sent = some entry → entry.1 ∈ cell.waiting ∨
      (iteration.ended = false ∧ entry.2.contentItems = [])) ∧
      (iteration.ended = true → iteration.sent.isSome = true) := by
  refine ⟨fun entry hsent => Or.inl (h.1 entry.1 (hturn.slot entry hsent)), fun hended => ?_⟩
  cases hsent : iteration.sent with
  | some entry => rfl
  | none =>
    obtain ⟨hrequested, hslot⟩ := hturn.lost hended hsent
    have hsome := h.2 hrequested
    rw [hslot] at hsome
    cases hsome

/-- What yields answers a caller that waits, or with nothing. -/
theorem waits_of_yield (hturn : Turn cell.session [] iteration) (hended : iteration.ended = false)
    (hpending : iteration.sent.isSome = true → cell.session.pendingResult = none)
    (h : cell.SlotWaits ∨ cell.session.contentItems = []) :
    ∀ entry, iteration.sent = some entry → entry.1 ∈ cell.waiting ∨
      (iteration.ended = false ∧ entry.2.contentItems = []) := by
  intro entry hsent
  rcases h with h | h
  · exact Or.inl (h entry.1 (hturn.slot entry hsent))
  · have hsome : iteration.sent.isSome = true := by rw [hsent]; rfl
    have hitems := hturn.items
    rw [hturn.drained hsome, List.append_nil, List.append_nil, SessionControl.buffered,
      hpending hsome, h] at hitems
    refine Or.inr ⟨hended, ?_⟩
    simpa [Iteration.sentItems, hsent] using hitems

theorem Delivering.takeEvent (h : cell.Delivering) (hwf : cell.Wf) (hrunning : cell.running = true)
    {event : RuntimeEvent} {events : List RuntimeEvent} (hevents : cell.events = event :: events)
    (hattended : cell.Attended .takeEvent) :
    ({ cell with events, taken := cell.taken ++ event.contentItems }.iterate
      (cell.session.onEvent event)).Delivering := by
  have hpending := hwf.pendingResult_eq_none hevents
  have hturn := turn_onEvent hpending event
  have hcell : ({ cell with events } : Cell).Delivering := ⟨h.live, h.ended⟩
  rw [Attended, hevents] at hattended
  have hends (hresult : event.isResult = false) : (cell.session.onEvent event).ended = false := by
    cases hended : (cell.session.onEvent event).ended with
    | false => rfl
    | true =>
      rw [onEvent_result hpending (Or.inr hended)] at hresult
      cases hresult
  refine hcell.iterate hrunning hturn.items hturn.drained hturn.final ?_ ?_ rfl
  · cases event with
    | yieldRequested => exact waits_of_yield hturn (hends rfl) (fun _ => hpending) hattended
    | result => exact (MayEnd.waits hattended hturn).1
    | started | contentItem | toolCall | notify => exact fun entry hsent => by cases hsent
  · cases event with
    | result => exact (MayEnd.waits hattended hturn).2
    | _ =>
      intro hended
      rw [hends rfl] at hended
      cases hended

theorem Delivering.takeCommand (h : cell.Delivering) (hwf : cell.Wf)
    (hrunning : cell.running = true) {command : SessionControlCommand}
    {commands : List SessionControlCommand} (hcommands : cell.commands = command :: commands)
    (hattended : cell.Attended .takeCommand) :
    (({ cell with commands }.drop cell.replaced).iterate
      (cell.session.onCommand command)).Delivering := by
  have hcell : (({ cell with commands } : Cell).drop cell.replaced).Delivering := ⟨h.live, h.ended⟩
  rw [Attended, hcommands] at hattended
  have htaken : cell.taken = cell.taken ++ [] := (List.append_nil _).symm
  cases hpending : cell.session.pendingResult with
  | some result =>
    have hsome : cell.session.pendingResult.isSome = true := by rw [hpending]; rfl
    obtain ⟨hitems, -⟩ := hwf.settled hsome
    have hwaits := hattended hsome command rfl
    have hreplaced : cell.replaced = [] := if_pos hsome
    have hturn : cell.session.onCommand command =
        ⟨{ cell.session with pendingResult := none }, some (command.responseTx, result.response),
          true⟩ := by simp [SessionControl.onCommand, hpending]
    refine hcell.iterate hrunning ?_ ?_ ?_ ?_ ?_ htaken
    · rw [hturn]
      show result.contentItems ++ ([] ++ cell.session.contentItems) = cell.session.buffered ++ []
      simp [SessionControl.buffered, hpending, hitems]
    · rw [hturn]
      exact fun _ => hitems
    · rw [hturn]
      rintro entry ⟨⟩
      rfl
    · rw [hturn]
      rintro entry ⟨⟩
      refine Or.inl (List.mem_filter.2 ⟨hwaits, ?_⟩)
      rw [hreplaced]
      rfl
    · rw [hturn]
      exact fun _ => rfl
  | none =>
    have hopen : cell.session.runtimeClosed = false := by
      cases hclosed : cell.session.runtimeClosed with
      | false => rfl
      | true =>
        have hsome := (hwf.closed hclosed).2.2 hrunning
        rw [hpending] at hsome
        cases hsome
    have hgoes : (cell.session.onCommand command).sent = none ∧
        (cell.session.onCommand command).ended = false ∧
        (cell.session.onCommand command).session.buffered = cell.session.buffered := by
      cases command <;>
        simp [SessionControl.onCommand, SessionControl.next, SessionControl.buffered, hpending,
          hopen]
    obtain ⟨hsent, hended, hbuffered⟩ := hgoes
    refine hcell.iterate hrunning ?_ ?_ ?_ ?_ ?_ htaken
    · rw [Iteration.sentItems, hsent, hbuffered]
      exact (List.append_nil _).symm
    all_goals simp [hsent, hended]

theorem Delivering.step (h : cell.Delivering) (hwf : cell.Wf) (hattended : cell.Attended action)
    (hstep : CellStep cell action next) : next.Delivering := by
  have htaken : cell.taken = cell.taken ++ [] := (List.append_nil _).symm
  cases hstep with
  | call | callMissing | cancel | emit | close => exact ⟨h.live, h.ended⟩
  | takeEvent hrunning hevents => exact h.takeEvent hwf hrunning hevents hattended
  | takeClosed hrunning hevents =>
    have hturn := turn_onClosed (s := cell.session) fun hsome => (hwf.settled hsome).2
    rw [Attended, hevents] at hattended
    obtain ⟨hwaits, hends⟩ := MayEnd.waits hattended hturn
    exact h.iterate hrunning hturn.items hturn.drained hturn.final hwaits hends htaken
  | takeCommand hrunning hcommands => exact h.takeCommand hwf hrunning hcommands hattended
  | timer hrunning =>
    have hturn := turn_onTimer (s := cell.session) fun hsome => (hwf.settled hsome).2
    have hended := (onTimer_eq (s := cell.session)).2.2
    refine h.iterate hrunning hturn.items hturn.drained hturn.final
      (waits_of_yield hturn hended (fun hsome => ?_) hattended) (fun htrue => ?_) htaken
    · -- An answer to the slot, which is empty while a result is buffered.
      obtain ⟨entry, hsent⟩ := Option.isSome_iff_exists.1 hsome
      have hslot := hturn.slot entry hsent
      cases hpending : cell.session.pendingResult with
      | none => rfl
      | some result =>
        rw [(hwf.settled (by rw [hpending]; rfl)).2] at hslot
        cases hslot
    · rw [hended] at htrue
      cases htrue
  | remove hrunning =>
    refine ⟨fun hlive => ?_, h.ended⟩
    rw [show cell.running = true from hlive] at hrunning
    cases hrunning

theorem Delivering.of_reach (h : (codeCell.restrict Attended).Reach cell) : cell.Delivering := by
  have hboth : cell.Wf ∧ cell.Delivering := by
    refine h.invariant (I := fun cell => cell.Wf ∧ cell.Delivering) ?_ ?_
    · rintro _ ⟨call, rfl⟩
      exact ⟨.start call, .start call⟩
    · rintro cell action next ⟨hwf, hdelivering⟩ ⟨hattended, hstep⟩
      exact ⟨hwf.step hstep, hdelivering.step hwf hattended hstep⟩
  exact hboth.2

end

end Cell

/-- **A cell's output is delivered once** in every run whose steps answer callers that are there. -/
theorem delivered_once {cell : Cell} (h : (codeCell.restrict Cell.Attended).Reach cell) :
    cell.DeliveredOnce := by
  have hdelivering := Cell.Delivering.of_reach h
  have hitems := (Cell.Wf.of_reach h.of_restrict).items
  cases hrunning : cell.running with
  | true =>
    obtain ⟨hregistered, hnot, htaken⟩ := hdelivering.live hrunning
    refine ⟨?_, fun hfinal => absurd hfinal hnot, fun _ => ⟨hrunning, hregistered⟩⟩
    rw [← hitems, ← htaken, List.append_assoc]
    exact List.prefix_append _ _
  | false =>
    obtain ⟨hfinal, htaken⟩ := hdelivering.ended hrunning
    refine ⟨?_, fun _ => htaken, fun hnot => absurd hfinal hnot⟩
    rw [← hitems, htaken]
    exact List.prefix_append _ _

/-! ## A cell that puts out one item -/

def itemA : ContentItem := .inputText ['a']

/-- The item is taken, and the call that started the cell waits for more. -/
def itemTaken : Cell :=
  { Cell.start 0 with
    session := { SessionControl.start 0 with contentItems := [itemA], yieldTimer := true }
    emitted := [itemA]
    taken := [itemA] }

theorem reach_itemTaken : (codeCell.restrict Cell.Attended).Reach itemTaken := by
  have h : (codeCell.restrict Cell.Attended).Reach (.start 0) := .init ⟨0, rfl⟩
  have h := Cell.reach_restrict h (.emit .started) (.emit rfl rfl) trivial
  have h := Cell.reach_restrict h .takeEvent (.takeEvent rfl rfl) trivial
  have h := Cell.reach_restrict h (.emit (.contentItem itemA)) (.emit rfl rfl) trivial
  have h := Cell.reach_restrict h .takeEvent (.takeEvent rfl rfl) trivial
  exact h

/-- The timer expires while the call waits. -/
theorem delivered_once_item : (itemTaken.iterate itemTaken.session.onTimer).DeliveredOnce :=
  delivered_once (Cell.reach_restrict reach_itemTaken .timer (.timer rfl rfl)
    (Or.inl fun call hcall => by
      rw [← Option.some.inj hcall]
      exact List.mem_singleton_self _))

/-- The timer expires after the call was cancelled; the next call gets the result without the item.
At no time there are two calls. -/
theorem item_lost : ∃ cell, codeCell.Reach cell ∧ ¬ cell.DeliveredOnce := by
  have h := Cell.reach_step reach_itemTaken.of_restrict (.cancel 0) (.cancel (.head _))
  have h := Cell.reach_step h .timer (.timer rfl rfl)
  have h := Cell.reach_step h (.call (.poll 1)) (.call (by decide) rfl)
  have h := Cell.reach_step h .takeCommand (.takeCommand rfl rfl)
  have h := Cell.reach_step h (.emit (.result ∅ none)) (.emit rfl rfl)
  have h := Cell.reach_step h .takeEvent (.takeEvent rfl rfl)
  refine ⟨_, h, fun hdelivered => ?_⟩
  have hall := hdelivered.all ⟨_, List.mem_cons_self, rfl⟩
  cases hall

end Mcodex.CodeMode
