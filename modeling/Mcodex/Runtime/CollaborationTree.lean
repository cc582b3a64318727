import Mathlib.Data.List.Basic
import Mcodex.Lib.Transition

/-!
# The collaboration-tree binding handle

The handle keeps the base tree and the stack of bindings under a mutex, and sends the current tree
on a watch channel after it has left the mutex. The current tree is that of the live binding pushed
last in every run (`current_eq`). The channel agrees with it when nothing is left to send, unless an
operation sends a tree that was replaced and none is left to send the current one (`Timely`). The
members that bindings may name are left out.
-/

namespace Mcodex.Runtime

open Transition

structure CollaborationTreeId where
  text : String
  deriving DecidableEq

structure BindingEntry (Uuid : Type) where
  id : Uuid
  treeId : CollaborationTreeId

structure BindingState (Uuid : Type) where
  baseTreeId : CollaborationTreeId
  bindings : List (BindingEntry Uuid)

/-- An operation of the handle, with the identifier that a push has drawn for its binding. -/
inductive BindingOp (Uuid : Type)
  | setCurrent (treeId : CollaborationTreeId)
  | pushBinding (bindingId : Uuid) (treeId : CollaborationTreeId)
  | dropBinding (bindingId : Uuid)

namespace BindingState

variable {Uuid : Type} (state : BindingState Uuid)

def current : CollaborationTreeId :=
  (state.bindings.getLast?.map (·.treeId)).getD state.baseTreeId

variable [DecidableEq Uuid]

/-- The section of an operation under the mutex. -/
def enter : BindingOp Uuid → BindingState Uuid
  | .setCurrent treeId => { state with baseTreeId := treeId }
  | .pushBinding bindingId treeId =>
    { state with bindings := state.bindings ++ [{ id := bindingId, treeId }] }
  | .dropBinding bindingId =>
    { state with bindings := state.bindings.filter (·.id ≠ bindingId) }

/-- What an operation sends after its section, if it sends. -/
def sends : BindingOp Uuid → Option CollaborationTreeId
  | .setCurrent treeId => some (state.enter (.setCurrent treeId)).current
  | .pushBinding _ treeId => some treeId
  | .dropBinding bindingId =>
    let currentTreeId := (state.enter (.dropBinding bindingId)).current
    if currentTreeId ≠ state.current then some currentTreeId else none

end BindingState

/-- An operation that has left the mutex and is yet to send. -/
structure Sending (Uuid : Type) where
  op : BindingOp Uuid
  treeId : CollaborationTreeId

/-- The handle with the operations in progress, the bindings whose owners have them (`push_binding`
has returned, the binding is not dropped), and the sections so far, the newest first. -/
structure CollaborationTreeBindingHandle (Uuid : Type) where
  state : BindingState Uuid
  watch : CollaborationTreeId
  sending : List (Sending Uuid)
  owned : List Uuid
  entered : List (BindingOp Uuid)

/-- An operation runs its section, or the operation at a position sends. -/
inductive BindingAction (Uuid : Type)
  | enter (op : BindingOp Uuid)
  | send (index : Nat)

/-- The binding that an operation creates. -/
def BindingOp.creates {Uuid : Type} : BindingOp Uuid → Option Uuid
  | .pushBinding bindingId _ => some bindingId
  | .setCurrent _ | .dropBinding _ => none

namespace CollaborationTreeBindingHandle

variable {Uuid : Type}

def new (initial : CollaborationTreeId) : CollaborationTreeBindingHandle Uuid where
  state := { baseTreeId := initial, bindings := [] }
  watch := initial
  sending := []
  owned := []
  entered := []

variable [DecidableEq Uuid] (handle : CollaborationTreeBindingHandle Uuid)

/-- A binding is created under an identifier of its own, and dropped once, by its owner. -/
def Permits : BindingOp Uuid → Prop
  | .setCurrent _ => True
  | .pushBinding bindingId _ => ∀ op ∈ handle.entered, op.creates ≠ some bindingId
  | .dropBinding bindingId => bindingId ∈ handle.owned

def enter (op : BindingOp Uuid) : CollaborationTreeBindingHandle Uuid where
  state := handle.state.enter op
  watch := handle.watch
  sending := ((handle.state.sends op).map fun treeId => { op, treeId }).toList ++ handle.sending
  owned := match op with
    | .dropBinding bindingId => handle.owned.erase bindingId
    | .setCurrent _ | .pushBinding _ _ => handle.owned
  entered := op :: handle.entered

/-- `send_replace`, and the end of the operation. -/
def send (index : Nat) (sending : Sending Uuid) : CollaborationTreeBindingHandle Uuid :=
  { handle with
    watch := sending.treeId
    sending := handle.sending.eraseIdx index
    owned := sending.op.creates.toList ++ handle.owned }

/-- A step of one of the threads. -/
inductive Step : CollaborationTreeBindingHandle Uuid → BindingAction Uuid →
    CollaborationTreeBindingHandle Uuid → Prop
  | enter {handle op} (hpermits : Permits handle op) :
      Step handle (.enter op) (enter handle op)
  | send {handle index sending} (hsending : handle.sending[index]? = some sending) :
      Step handle (.send index) (send handle index sending)

/-- The runs of a handle, with any number of threads. -/
def system (initial : CollaborationTreeId) :
    System (CollaborationTreeBindingHandle Uuid) (BindingAction Uuid) where
  init handle := handle = new initial
  step := Step

/-- Every operation has made its send. -/
def Quiet : Prop := handle.sending = []

/-- An operation sends the current tree, or another is left to send it. -/
def Timely : BindingAction Uuid → Prop
  | .enter _ => True
  | .send index => ∀ sending, handle.sending[index]? = some sending →
      sending.treeId = handle.state.current ∨
        ∃ other ∈ handle.sending.eraseIdx index, other.treeId = handle.state.current

/-- The watch channel has the current tree, or an operation is left to send it. -/
def Agrees : Prop :=
  handle.watch = handle.state.current ∨
    ∃ sending ∈ handle.sending, sending.treeId = handle.state.current

end CollaborationTreeBindingHandle

/-! ## The live binding pushed last -/

section
variable {Uuid : Type} [DecidableEq Uuid]

/-- The tree of the binding pushed last by the sections `entered` (the newest first) that is not
dropped later, neither by one of them nor in `dropped`. -/
def lastLiveTree? : List (BindingOp Uuid) → List Uuid → Option CollaborationTreeId
  | [], _ => none
  | .setCurrent _ :: entered, dropped => lastLiveTree? entered dropped
  | .pushBinding bindingId treeId :: entered, dropped =>
    if bindingId ∈ dropped then lastLiveTree? entered dropped else some treeId
  | .dropBinding bindingId :: entered, dropped => lastLiveTree? entered (bindingId :: dropped)

/-- The tree set last. -/
def lastBaseTree (initial : CollaborationTreeId) : List (BindingOp Uuid) → CollaborationTreeId
  | [] => initial
  | .setCurrent treeId :: _ => treeId
  | .pushBinding _ _ :: entered | .dropBinding _ :: entered => lastBaseTree initial entered

/-- The state after the sections `entered`, the newest first. -/
def stateAfter (initial : CollaborationTreeId) : List (BindingOp Uuid) → BindingState Uuid
  | [] => { baseTreeId := initial, bindings := [] }
  | op :: entered => (stateAfter initial entered).enter op

variable {initial : CollaborationTreeId}

theorem stateAfter_baseTreeId (entered : List (BindingOp Uuid)) :
    (stateAfter initial entered).baseTreeId = lastBaseTree initial entered := by
  induction entered with
  | nil => rfl
  | cons op entered ih =>
    cases op with
    | setCurrent treeId => rfl
    | pushBinding bindingId treeId => exact ih
    | dropBinding bindingId => exact ih

/-- The stack without the bindings that are dropped later ends with the live binding pushed last. -/
theorem lastLiveTree?_eq (initial : CollaborationTreeId)
    (entered : List (BindingOp Uuid)) (dropped : List Uuid) :
    lastLiveTree? entered dropped =
      (((stateAfter initial entered).bindings.filter (·.id ∉ dropped)).getLast?).map
        (·.treeId) := by
  induction entered generalizing dropped with
  | nil => rfl
  | cons op entered ih =>
    cases op with
    | setCurrent treeId => exact ih dropped
    | pushBinding bindingId treeId =>
      simp only [lastLiveTree?, stateAfter, BindingState.enter, List.filter_append]
      by_cases hdropped : bindingId ∈ dropped
      · simp [hdropped, ih]
      · simp [hdropped]
    | dropBinding bindingId =>
      simp only [lastLiveTree?, stateAfter, BindingState.enter, List.filter_filter, ih]
      congr 3
      funext binding
      simp [not_or, Bool.and_comm]

theorem stateAfter_current (entered : List (BindingOp Uuid)) :
    (stateAfter initial entered).current =
      (lastLiveTree? entered []).getD (lastBaseTree initial entered) := by
  rw [lastLiveTree?_eq initial, BindingState.current, stateAfter_baseTreeId]
  simp

end

/-! ## The channel -/

section
variable {Uuid : Type} [DecidableEq Uuid] {state : BindingState Uuid} {op : BindingOp Uuid}
  {treeId initial : CollaborationTreeId} {handle handle' : CollaborationTreeBindingHandle Uuid}
  {action : BindingAction Uuid}

theorem BindingState.sends_eq_some (h : state.sends op = some treeId) :
    treeId = (state.enter op).current := by
  cases op with
  | setCurrent _ => exact (Option.some.inj h).symm
  | pushBinding bindingId pushed =>
    have hcurrent : (state.enter (.pushBinding bindingId pushed)).current = pushed := by
      simp [BindingState.current, BindingState.enter]
    rw [hcurrent]
    exact (Option.some.inj h).symm
  | dropBinding bindingId =>
    simp only [BindingState.sends] at h
    split_ifs at h with hchanged
    exact (Option.some.inj h).symm

/-- Only a drop that leaves the current tree sends nothing. -/
theorem BindingState.sends_eq_none (h : state.sends op = none) :
    (state.enter op).current = state.current := by
  cases op with
  | setCurrent _ => cases h
  | pushBinding _ _ => cases h
  | dropBinding bindingId =>
    simp only [BindingState.sends] at h
    split_ifs at h with hchanged
    exact not_not.1 hchanged

namespace CollaborationTreeBindingHandle

/-- In every run the current tree is that of the live binding pushed last, or the base tree. -/
theorem current_eq (h : (system initial).Reach handle) :
    handle.state.current =
      (lastLiveTree? handle.entered []).getD (lastBaseTree initial handle.entered) := by
  have hstate : handle.state = stateAfter initial handle.entered := by
    refine h.invariant (I := fun handle => handle.state = stateAfter initial handle.entered)
      (fun s hs => by rw [hs]; rfl) fun s a t hI hstep => ?_
    cases hstep with
    | enter hpermits => exact congrArg (BindingState.enter · _) hI
    | send hsending => exact hI
  rw [hstate, stateAfter_current]

theorem agrees_enter (h : Agrees handle) (op : BindingOp Uuid) : Agrees (handle.enter op) := by
  cases hsends : handle.state.sends op with
  | some treeId =>
    refine .inr ⟨{ op, treeId }, ?_, BindingState.sends_eq_some hsends⟩
    simp [enter, hsends]
  | none =>
    have hcurrent : (handle.enter op).state.current = handle.state.current :=
      BindingState.sends_eq_none hsends
    rw [Agrees, hcurrent]
    simpa [Agrees, enter, hsends] using h

/-- A timely step leaves a channel that has the current tree, or gets it. -/
theorem agrees_step (h : Agrees handle) (htimely : Timely handle action)
    (hstep : Step handle action handle') : Agrees handle' := by
  cases hstep with
  | enter hpermits => exact agrees_enter h _
  | send hsending => exact htimely _ hsending

omit [DecidableEq Uuid] in
/-- A send leaves the stack, so the channel gets the current tree only from a send that had it. -/
theorem agrees_of_send {index : Nat} {sending : Sending Uuid}
    (hsending : handle.sending[index]? = some sending)
    (h : Agrees (handle.send index sending)) : Agrees handle := by
  rcases h with hwatch | ⟨other, hother, hcurrent⟩
  · exact .inr ⟨sending, List.mem_of_getElem? hsending, hwatch⟩
  · exact .inr ⟨other, List.mem_of_mem_eraseIdx hother, hcurrent⟩

/-- The operations in progress make their sends, and no other begins. -/
def finishing (initial : CollaborationTreeId) :
    System (CollaborationTreeBindingHandle Uuid) (BindingAction Uuid) :=
  (system initial).restrict fun _ action => ∃ index, action = .send index

theorem agrees_of_finishing (hrun : (finishing initial).Run handle handle')
    (h : Agrees handle') : Agrees handle := by
  induction hrun with
  | refl => exact h
  | step _ hstep ih =>
    obtain ⟨⟨index, rfl⟩, hsend⟩ := hstep
    cases hsend with
    | send hsending => exact ih (agrees_of_send hsending h)

theorem exists_quiet (initial : CollaborationTreeId) :
    ∀ (n : Nat) (handle : CollaborationTreeBindingHandle Uuid), handle.sending.length = n →
      ∃ handle', (finishing initial).Run handle handle' ∧ handle'.Quiet
  | 0, handle, hlength => ⟨handle, .refl, List.length_eq_zero_iff.1 hlength⟩
  | n + 1, handle, hlength => by
    obtain ⟨sending, rest, hsending⟩ := List.exists_cons_of_length_eq_add_one hlength
    have hfirst : handle.sending[0]? = some sending := by rw [hsending]; rfl
    have hrest : (handle.send 0 sending).sending.length = n := by
      simpa [send, hsending] using hlength
    obtain ⟨handle', hrun, hquiet⟩ := exists_quiet initial n _ hrest
    exact ⟨handle', .trans (.step .refl ⟨⟨0, rfl⟩, .send hfirst⟩) hrun, hquiet⟩

omit [DecidableEq Uuid] in
theorem agrees_iff_of_quiet (hquiet : handle.Quiet) :
    Agrees handle ↔ handle.watch = handle.state.current := by
  rw [Quiet] at hquiet
  simp [Agrees, hquiet]

/-- **The binding handle.** The current tree is that of the live binding pushed last, or the base
tree. In a run whose sends are timely the channel has it whenever every operation has made its
send; after a send that is not, the operations in progress leave another one there. -/
theorem handle_spec (initial : CollaborationTreeId) :
    (∀ handle : CollaborationTreeBindingHandle Uuid, (system initial).Reach handle →
      handle.state.current =
        (lastLiveTree? handle.entered []).getD (lastBaseTree initial handle.entered)) ∧
    (∀ handle : CollaborationTreeBindingHandle Uuid,
      ((system initial).restrict Timely).Reach handle → handle.Quiet →
        handle.watch = handle.state.current) ∧
    ∀ (handle handle' : CollaborationTreeBindingHandle Uuid) (action : BindingAction Uuid),
      (system initial).step handle action handle' → ¬ Timely handle action →
      (∃ last, (finishing initial).Run handle' last ∧ last.Quiet) ∧
      ∀ last, (finishing initial).Run handle' last → last.Quiet →
        last.watch ≠ last.state.current := by
  refine ⟨fun handle h => current_eq h, fun handle h hquiet => ?_,
    fun handle handle' action hstep huntimely => ⟨exists_quiet initial _ _ rfl, ?_⟩⟩
  · refine (agrees_iff_of_quiet hquiet).1 (h.invariant (I := Agrees) (fun s hs => ?_) ?_)
    · rw [hs]
      exact .inl rfl
    · exact fun s a t hI hstep => agrees_step hI hstep.1 hstep.2
  · intro last hrun hquiet hwatch
    have hagrees := agrees_of_finishing hrun ((agrees_iff_of_quiet hquiet).2 hwatch)
    cases hstep with
    | enter hpermits => exact huntimely trivial
    | send hsending =>
      refine huntimely fun sending' hsending' => ?_
      rw [hsending] at hsending'
      cases hsending'
      exact hagrees

/-- Two bindings are pushed, and the second is sent before the first. -/
theorem not_current_when_quiet :
    ¬ ∀ handle : CollaborationTreeBindingHandle Nat, (system ⟨"session:s"⟩).Reach handle →
      handle.Quiet → handle.watch = handle.state.current := by
  intro h
  let first : CollaborationTreeBindingHandle Nat :=
    (new ⟨"session:s"⟩).enter (.pushBinding 0 ⟨"turn:a"⟩)
  have hfirst : (system ⟨"session:s"⟩).Reach first := .step (.init rfl) (.enter nofun)
  have hfresh : first.Permits (.pushBinding 1 ⟨"turn:b"⟩) := by
    intro op hop
    cases List.mem_singleton.1 hop
    exact nofun
  have hsecond := hfirst.step (.enter hfresh)
  have hsend : ∀ (handle : CollaborationTreeBindingHandle Nat) sending,
      handle.sending[0]? = some sending → Step handle (.send 0) (handle.send 0 sending) :=
    fun handle sending h => .send h
  have hsent := (hsecond.step (hsend _ _ rfl)).step (hsend _ _ rfl)
  have hwatch := h _ hsent rfl
  exact absurd hwatch (by decide)

end CollaborationTreeBindingHandle

end

end Mcodex.Runtime
