import Mcodex.Lib.ReplayLog
import Mcodex.Lib.Table
import Mcodex.ExecServer.ProcessEvents

/-!
# Process events at the client

The server's notifications of a process arrive in any order, and more than once. The session keeps
those that come early until all lower numbers are published, publishes what is ready one by one,
and is routed until it has published that the process is closed.
-/

namespace Mcodex.ExecServer

open ReplayLog Table Transition

def processEventChannelCapacity : Nat := 256

def processEventRetainedBytes : Nat := 1024 * 1024

/-! ## The session -/

abbrev EventLog := Log ExecProcessEvent

/-- `ExecProcessEventLog::publish`. -/
def EventLog.publish (log : EventLog) (event : ExecProcessEvent) : EventLog :=
  Log.publish ExecProcessEvent.retainedLen
    (fun count bytes => processEventChannelCapacity < count || processEventRetainedBytes < bytes)
    log event

structure OrderedSessionEvents where
  lastPublishedSeq : Nat
  pending : Keyed Nat ExecProcessEvent

namespace OrderedSessionEvents

/-- The loop of `publish_ordered_event`, which removes at most `fuel` events. -/
def takeReady : Nat → OrderedSessionEvents → List ExecProcessEvent × OrderedSessionEvents
  | 0, ordered => ([], ordered)
  | fuel + 1, ordered =>
    match ordered.pending.lookup (ordered.lastPublishedSeq + 1) with
    | none => ([], ordered)
    | some event =>
      let (ready, ordered') := takeReady fuel
        ⟨ordered.lastPublishedSeq + 1, ordered.pending.erase (ordered.lastPublishedSeq + 1)⟩
      (event :: ready, ordered')

/-- `pending.entry(seq).or_insert(event)`. -/
def insertPending (ordered : OrderedSessionEvents) (seq : Nat) (event : ExecProcessEvent) :
    OrderedSessionEvents :=
  match ordered.pending.lookup seq with
  | some _ => ordered
  | none => { ordered with pending := ordered.pending.insert seq event }

/-- The lock section of `publish_ordered_event`: the events that are ready. -/
def accept (ordered : OrderedSessionEvents) (seq : Nat) (event : ExecProcessEvent) :
    List ExecProcessEvent × OrderedSessionEvents :=
  if seq ≤ ordered.lastPublishedSeq then ([], ordered)
  else
    let ordered' := ordered.insertPending seq event
    takeReady ordered'.pending.entries.length ordered'

end OrderedSessionEvents

/-- A call that is publishing: what is ready, and whether it has published `Closed`. -/
structure Publishing where
  ready : List ExecProcessEvent
  publishedClosed : Bool

/-- A session; `arrived` are the notifications that arrived. Calls are numbered, and `closedBy` and
`removedBy` are the calls that published `Closed` and that removed the route. -/
structure SessionState where
  ordered : OrderedSessionEvents
  log : EventLog
  publishing : Option Publishing
  routed : Bool
  arrived : List ExecProcessEvent
  call : Nat
  closedBy : Option Nat
  removedBy : Option Nat

def SessionState.new : SessionState where
  ordered := ⟨0, ∅⟩
  log := .new
  publishing := none
  routed := true
  arrived := []
  call := 0
  closedBy := none
  removedBy := none

inductive SessionStep
  | notify (event : ExecProcessEvent)
  | publish
  | finish
  | receivers

/-- The steps of a session whose server numbers the events `server`. One task handles the
notifications one after the other. -/
inductive Handles (server : List ExecProcessEvent) :
    SessionState → SessionStep → SessionState → Prop
  | notify {t event seq} (hserver : event ∈ server) (hseq : event.seq = some seq)
    (hidle : t.publishing = none) (hrouted : t.routed) :
    Handles server t (.notify event) { t with
      ordered := (t.ordered.accept seq event).2
      publishing := some ⟨(t.ordered.accept seq event).1, false⟩
      arrived := t.arrived ++ [event]
      call := t.call + 1 }
  | notRouted {t event} (hserver : event ∈ server) (hidle : t.publishing = none)
    (hrouted : ¬ t.routed) :
    Handles server t (.notify event) { t with arrived := t.arrived ++ [event], call := t.call + 1 }
  | publish {t event ready publishedClosed}
    (hpublishing : t.publishing = some ⟨event :: ready, publishedClosed⟩) :
    Handles server t .publish { t with
      publishing := some ⟨ready, publishedClosed || event.isClosed⟩
      log := EventLog.publish t.log event
      closedBy := if event.isClosed then some t.call else t.closedBy }
  | finish {t publishedClosed} (hpublishing : t.publishing = some ⟨[], publishedClosed⟩) :
    Handles server t .finish { t with
      publishing := none
      routed := t.routed && !publishedClosed
      removedBy := if publishedClosed then some t.call else t.removedBy }
  | receivers {t log} (hreads : Reads processEventChannelCapacity t.log log) :
    Handles server t .receivers { t with log }

def session (server : List ExecProcessEvent) : System SessionState SessionStep where
  init t := t = .new
  step := Handles server

/-! ## Taking what is ready -/

section
variable {server : List ExecProcessEvent} {event : ExecProcessEvent} {seq fuel : Nat}
  {ordered : OrderedSessionEvents}

/-- A server numbers its events, and closing the process is the last one. -/
structure ServerLog (server : List ExecProcessEvent) : Prop where
  numbered : server.map (·.seq) = (List.range' 1 server.length).map some
  last : ∀ before event after, server = before ++ event :: after → event.isClosed → after = []

/-- What the server of a process logs. -/
theorem ServerLog.of_reach {tty : Bool} {t : ProcessRun} (h : (processEvents tty).Reach t) :
    ServerLog t.events where
  numbered := (Logged.of_reach h).numbered
  last before event after heq hclosed := ((Logged.of_reach h).last before event after heq hclosed).1

/-- An event of the server stands at its number. -/
theorem ServerLog.getElem?_of_mem (h : ServerLog server) (hmem : event ∈ server)
    (hseq : event.seq = some seq) : 0 < seq ∧ server[seq - 1]? = some event := by
  obtain ⟨index, hindex, rfl⟩ := List.getElem_of_mem hmem
  have hat := congrArg (·[index]?) h.numbered
  simp only [List.getElem?_map, List.getElem?_eq_getElem hindex, Option.map_some,
    List.getElem?_range' hindex, hseq, Option.some.injEq] at hat
  rw [hat]
  refine ⟨by omega, ?_⟩
  rw [Nat.one_mul, Nat.add_sub_cancel_left, List.getElem?_eq_getElem hindex]

/-- The events that wait are events of the server that are not published. -/
def OrderedSessionEvents.Waits (server : List ExecProcessEvent) (ordered : OrderedSessionEvents) :
    Prop :=
  ∀ seq event, ordered.pending.lookup seq = some event →
    ordered.lastPublishedSeq < seq ∧ server[seq - 1]? = some event

/-- What `takeReady` leaves: it goes on through the numbers as far as they are there. -/
structure OrderedSessionEvents.Takes (server : List ExecProcessEvent)
    (ordered ordered' : OrderedSessionEvents) (ready : List ExecProcessEvent) : Prop where
  ready : server.take ordered.lastPublishedSeq ++ ready = server.take ordered'.lastPublishedSeq
  mono : ordered.lastPublishedSeq ≤ ordered'.lastPublishedSeq
  le : ordered.lastPublishedSeq ≤ server.length → ordered'.lastPublishedSeq ≤ server.length
  pending : ∀ seq, ordered'.pending.lookup seq =
    if ordered'.lastPublishedSeq < seq then ordered.pending.lookup seq else none
  taken : ∀ seq, ordered.lastPublishedSeq < seq → seq ≤ ordered'.lastPublishedSeq →
    seq ∈ ordered.pending
  next : ordered'.lastPublishedSeq + 1 ∉ ordered.pending

theorem OrderedSessionEvents.Takes.stop (hwaits : ordered.Waits server)
    (hnone : ordered.lastPublishedSeq + 1 ∉ ordered.pending) : Takes server ordered ordered [] where
  ready := List.append_nil _
  mono := le_refl _
  le := id
  pending seq := by
    split
    · rfl
    · rename_i hle
      cases hlookup : ordered.pending.lookup seq with
      | none => rfl
      | some event => exact absurd (hwaits seq event hlookup).1 hle
  taken seq hlt hle := absurd hlt (Nat.not_lt.2 hle)
  next := hnone

theorem OrderedSessionEvents.takeReady_spec (hwaits : ordered.Waits server)
    (hfuel : ordered.pending.entries.length ≤ fuel) :
    Takes server ordered (takeReady fuel ordered).2 (takeReady fuel ordered).1 := by
  induction fuel generalizing ordered with
  | zero =>
    refine .stop hwaits fun hmem => ?_
    have hnil := List.length_eq_zero_iff.1 (Nat.le_zero.1 hfuel)
    rw [AList.mem_keys, AList.keys, hnil] at hmem
    cases hmem
  | succ fuel ih =>
    rw [takeReady]
    split
    · rename_i hnone
      exact .stop hwaits (AList.lookup_eq_none.1 hnone)
    · rename_i event hlookup
      have hmem : ordered.lastPublishedSeq + 1 ∈ ordered.pending :=
        AList.lookup_isSome.1 (by rw [hlookup]; rfl)
      have hat : server[ordered.lastPublishedSeq]? = some event := (hwaits _ _ hlookup).2
      have hwaits' : Waits server
          ⟨ordered.lastPublishedSeq + 1, ordered.pending.erase (ordered.lastPublishedSeq + 1)⟩ := by
        intro seq event hlookup
        rw [lookup_erase] at hlookup
        split at hlookup
        · cases hlookup
        · rename_i hne
          obtain ⟨hlt, hevent⟩ := hwaits seq event hlookup
          exact ⟨by show ordered.lastPublishedSeq + 1 < seq; omega, hevent⟩
      have hsize : (ordered.pending.erase (ordered.lastPublishedSeq + 1)).entries.length ≤ fuel := by
        have hkeys := congrArg List.length
          (AList.keys_erase (ordered.lastPublishedSeq + 1) ordered.pending)
        rw [List.length_erase_of_mem (AList.mem_keys.1 hmem)] at hkeys
        simp only [AList.keys, List.keys, List.length_map] at hkeys
        omega
      have htakes := ih hwaits' hsize
      have hmono : ordered.lastPublishedSeq + 1 ≤ _ := htakes.mono
      exact {
        ready := by
          rw [← htakes.ready]
          show _ = server.take (ordered.lastPublishedSeq + 1) ++ _
          rw [List.take_add_one, hat, List.append_assoc]
          rfl
        mono := Nat.le_of_succ_le hmono
        le := fun _ => htakes.le (List.getElem?_eq_some_iff.1 hat).1
        pending := fun seq => by
          rw [htakes.pending]
          split
          · rename_i hlt
            rw [lookup_erase, if_neg]
            exact fun heq => absurd hmono (by omega)
          · rfl
        taken := fun seq hlt hle => by
          rcases Nat.lt_or_ge (ordered.lastPublishedSeq + 1) seq with hlater | hle'
          · exact (AList.mem_erase.1 (htakes.taken seq hlater hle)).2
          · rw [show seq = ordered.lastPublishedSeq + 1 by omega]
            exact hmem
        next := fun hnext => htakes.next (AList.mem_erase.2 ⟨by omega, hnext⟩) }

/-- The lock section takes over an event unless its number is published. -/
theorem OrderedSessionEvents.accept_spec (hserver : ServerLog server) (hwaits : ordered.Waits server)
    (hnext : ordered.lastPublishedSeq + 1 ∉ ordered.pending) (hmem : event ∈ server)
    (hseq : event.seq = some seq) :
    ∃ ordered', Takes server ordered' (ordered.accept seq event).2 (ordered.accept seq event).1 ∧
      ordered'.Waits server ∧ ordered'.lastPublishedSeq = ordered.lastPublishedSeq ∧
      ∀ seq', seq' ∈ ordered'.pending ↔ seq' ∈ ordered.pending ∨
        seq' = seq ∧ ordered.lastPublishedSeq < seq := by
  rw [accept]
  split
  · rename_i hle
    exact ⟨ordered, .stop hwaits hnext, hwaits, rfl, fun seq' =>
      (or_iff_left fun hlater => absurd hlater.2 (Nat.not_lt.2 hle)).symm⟩
  · rename_i hlater
    have hlater := Nat.not_le.1 hlater
    have hinsert : (ordered.insertPending seq event).Waits server ∧
        (ordered.insertPending seq event).lastPublishedSeq = ordered.lastPublishedSeq ∧
        ∀ seq', seq' ∈ (ordered.insertPending seq event).pending ↔ seq' ∈ ordered.pending ∨
          seq' = seq ∧ ordered.lastPublishedSeq < seq := by
      rw [insertPending]
      split
      · rename_i event' hlookup
        refine ⟨hwaits, rfl, fun seq' => (or_iff_left_of_imp ?_).symm⟩
        rintro ⟨rfl, -⟩
        exact AList.lookup_isSome.1 (by rw [hlookup]; rfl)
      · refine ⟨fun seq' event' hlookup => ?_, rfl, fun seq' => ?_⟩
        · rw [lookup_insert] at hlookup
          split at hlookup
          · rename_i heq
            cases hlookup
            rw [heq]
            exact ⟨hlater, (hserver.getElem?_of_mem hmem hseq).2⟩
          · exact hwaits seq' event' hlookup
        · rw [AList.mem_insert, or_comm, and_iff_left hlater]
    exact ⟨_, takeReady_spec hinsert.1 (le_refl _), hinsert.1, hinsert.2.1, hinsert.2.2⟩

/-! ## What is published -/

variable {t t' : SessionState}

/-- What a call has taken and not published. -/
def SessionState.ready (t : SessionState) : List ExecProcessEvent :=
  (t.publishing.map (·.ready)).getD []

/-- The session publishes the server's events in order, as far as they have arrived. -/
structure Publishes (server : List ExecProcessEvent) (t : SessionState) : Prop where
  waits : t.ordered.Waits server
  next : t.ordered.lastPublishedSeq + 1 ∉ t.ordered.pending
  published : t.log.published ++ t.ready = server.take t.ordered.lastPublishedSeq
  le : t.ordered.lastPublishedSeq ≤ server.length
  pending : ∀ seq ∈ t.ordered.pending, ∃ event ∈ t.arrived, event.seq = some seq
  below : ∀ seq, 0 < seq → seq ≤ t.ordered.lastPublishedSeq →
    ∃ event ∈ t.arrived, event.seq = some seq
  server : ∀ event ∈ t.arrived, event ∈ server
  arrived : t.routed → ∀ event ∈ t.arrived, ∀ seq, event.seq = some seq →
    seq ≤ t.ordered.lastPublishedSeq ∨ seq ∈ t.ordered.pending
  closed : (∃ publishing ∈ t.publishing, publishing.publishedClosed) ∨ ¬ t.routed →
    t.log.published.any (·.isClosed)
  idle : ¬ t.routed → t.publishing = none
  calls : (∀ publishing ∈ t.publishing, publishing.publishedClosed → t.closedBy = some t.call) ∧
    (¬ t.routed → ∃ call, t.removedBy = some call ∧ t.closedBy = some call)
  replays : t.log.Replays

namespace Publishes

theorem new : Publishes server .new where
  waits _ _ hlookup := nomatch hlookup
  next hmem := nomatch hmem
  published := rfl
  le := Nat.zero_le _
  pending _ hmem := nomatch hmem
  below seq hpos hle := absurd hpos (Nat.not_lt.2 hle)
  server _ hmem := nomatch hmem
  arrived _ _ hmem := nomatch hmem
  closed h := by
    rcases h with ⟨publishing, hmem, -⟩ | hnot
    · cases hmem
    · exact absurd rfl hnot
  idle hnot := absurd rfl hnot
  calls := ⟨fun _ hmem => (nomatch hmem), fun hnot => absurd rfl hnot⟩
  replays := .new

/-- Once the session has published that the process is closed, it has published everything. -/
theorem eq_length (h : Publishes server t) (hserver : ServerLog server)
    (hclosed : t.log.published.any (·.isClosed)) :
    t.ordered.lastPublishedSeq = server.length := by
  obtain ⟨event, hevent, hclosed⟩ := List.any_eq_true.1 hclosed
  have htake : event ∈ server.take t.ordered.lastPublishedSeq := by
    rw [← h.published]
    exact List.mem_append_left _ hevent
  obtain ⟨before, after, heq⟩ := List.append_of_mem htake
  have hafter := hserver.last before event (after ++ server.drop t.ordered.lastPublishedSeq) (by
    rw [← List.cons_append, ← List.append_assoc, ← heq, List.take_append_drop]) hclosed
  have hdrop := (List.append_eq_nil_iff.1 hafter).2
  exact le_antisymm h.le (List.drop_eq_nil_iff.1 hdrop)

theorem notify (h : Publishes server t) (hserver : ServerLog server) (hmem : event ∈ server)
    (hseq : event.seq = some seq) (hidle : t.publishing = none) (hrouted : t.routed) :
    Publishes server { t with
      ordered := (t.ordered.accept seq event).2
      publishing := some ⟨(t.ordered.accept seq event).1, false⟩
      arrived := t.arrived ++ [event]
      call := t.call + 1 } := by
  obtain ⟨ordered', htakes, hwaits', hlast, hpending⟩ :=
    OrderedSessionEvents.accept_spec hserver h.waits h.next hmem hseq
  have hwaiting {seq' : Nat} (hmem' : seq' ∈ ordered'.pending) :
      ∃ event' ∈ t.arrived ++ [event], event'.seq = some seq' := by
    rcases (hpending seq').1 hmem' with hmem' | ⟨rfl, -⟩
    · obtain ⟨event', harrived, hseq'⟩ := h.pending seq' hmem'
      exact ⟨event', List.mem_append_left _ harrived, hseq'⟩
    · exact ⟨event, List.mem_append_right _ (List.mem_singleton_self event), hseq⟩
  have hkept {seq' : Nat} : seq' ∈ (t.ordered.accept seq event).2.pending ↔
      (t.ordered.accept seq event).2.lastPublishedSeq < seq' ∧ seq' ∈ ordered'.pending := by
    rw [← AList.lookup_isSome, htakes.pending, ← AList.lookup_isSome]
    split
    · rename_i hlt
      exact (and_iff_right hlt).symm
    · rename_i hlt
      exact ⟨fun hnone => (nomatch hnone), fun hlater => absurd hlater.1 hlt⟩
  have hmono := htakes.mono
  rw [hlast] at hmono
  have hdone {seq' : Nat} (hmem' : seq' ≤ t.ordered.lastPublishedSeq ∨ seq' ∈ ordered'.pending) :
      seq' ≤ (t.ordered.accept seq event).2.lastPublishedSeq ∨
        seq' ∈ (t.ordered.accept seq event).2.pending := by
    rcases hmem' with hle | hmem'
    · exact .inl (hle.trans hmono)
    · rcases Nat.lt_or_ge (t.ordered.accept seq event).2.lastPublishedSeq seq' with hlt | hle
      · exact .inr (hkept.2 ⟨hlt, hmem'⟩)
      · exact .inl hle
  exact {
    waits := fun seq' event' hlookup => by
      have hlookup : (t.ordered.accept seq event).2.pending.lookup seq' = some event' := hlookup
      rw [htakes.pending] at hlookup
      split at hlookup
      · rename_i hlt
        exact ⟨hlt, (hwaits' seq' event' hlookup).2⟩
      · cases hlookup
    next := fun hnext => htakes.next (hkept.1 hnext).2
    published := by
      show t.log.published ++ (t.ordered.accept seq event).1 = _
      have hpublished := h.published
      rw [SessionState.ready, hidle, Option.map_none, Option.getD_none, List.append_nil]
        at hpublished
      rw [hpublished, ← hlast]
      exact htakes.ready
    le := htakes.le (hlast ▸ h.le)
    pending := fun seq' hmem' => hwaiting (hkept.1 hmem').2
    below := fun seq' hpos hle => by
      rcases Nat.lt_or_ge t.ordered.lastPublishedSeq seq' with hlt | hle'
      · exact hwaiting (htakes.taken seq' (hlast ▸ hlt) hle)
      · obtain ⟨event', harrived, hseq'⟩ := h.below seq' hpos hle'
        exact ⟨event', List.mem_append_left _ harrived, hseq'⟩
    server := fun event' hmem' => by
      rcases List.mem_append.1 hmem' with hmem' | hmem'
      · exact h.server event' hmem'
      · exact List.mem_singleton.1 hmem' ▸ hmem
    arrived := fun _ event' hmem' seq' hseq' => by
      refine hdone ?_
      rcases List.mem_append.1 hmem' with hmem' | hmem'
      · exact (h.arrived hrouted event' hmem' seq' hseq').imp_right
          fun hmem' => (hpending seq').2 (.inl hmem')
      · rw [List.mem_singleton.1 hmem', hseq, Option.some.injEq] at hseq'
        subst hseq'
        exact (Nat.lt_or_ge t.ordered.lastPublishedSeq seq).symm.imp_right
          fun hlt => (hpending seq).2 (.inr ⟨rfl, hlt⟩)
    closed := fun hclosed => by
      rcases hclosed with ⟨publishing, heq, hclosed⟩ | hnot
      · cases heq
        cases hclosed
      · exact absurd hrouted hnot
    idle := fun hnot => absurd hrouted hnot
    calls := by
      refine ⟨fun publishing heq hclosed => ?_, fun hnot => absurd hrouted hnot⟩
      cases heq
      cases hclosed
    replays := h.replays }

theorem step {a : SessionStep} (h : Publishes server t) (hserver : ServerLog server)
    (hstep : Handles server t a t') : Publishes server t' := by
  cases hstep with
  | notify hmem hseq hidle hrouted => exact h.notify hserver hmem hseq hidle hrouted
  | notRouted hmem hidle hrouted =>
    rename_i event
    have harrived {seq : Nat} (hevent : ∃ event ∈ t.arrived, event.seq = some seq) :
        ∃ event' ∈ t.arrived ++ [event], event'.seq = some seq :=
      hevent.imp fun _ hevent => hevent.imp_left (List.mem_append_left _)
    exact { h with
      pending := fun seq hmem => harrived (h.pending seq hmem)
      below := fun seq hpos hle => harrived (h.below seq hpos hle)
      server := fun event' hmem' => by
        rcases List.mem_append.1 hmem' with hmem' | hmem'
        · exact h.server event' hmem'
        · exact List.mem_singleton.1 hmem' ▸ hmem
      arrived := fun hnot => absurd hnot hrouted
      calls := by
        refine ⟨fun publishing heq => ?_, h.calls.2⟩
        cases hidle.symm.trans heq }
  | publish hpublishing =>
    rename_i event ready publishedClosed
    have hrouted : t.routed := by
      by_contra hnot
      cases hpublishing.symm.trans (h.idle hnot)
    have hpublished := h.published
    rw [SessionState.ready, hpublishing, Option.map_some, Option.getD_some] at hpublished
    exact { h with
      published := by
        show (t.log.published ++ [event]) ++ ready = _
        rw [List.append_assoc]
        exact hpublished
      closed := fun hclosed => by
        show (t.log.published ++ [event]).any (·.isClosed)
        rw [List.any_append, Bool.or_eq_true]
        rcases hclosed with ⟨publishing, heq, hclosed⟩ | hnot
        · cases heq
          refine (Bool.or_eq_true _ _ ▸ hclosed).imp (fun hclosed => ?_) fun hclosed => ?_
          · exact h.closed (.inl ⟨_, hpublishing, hclosed⟩)
          · rw [List.any_cons, hclosed]
            rfl
        · exact absurd hrouted hnot
      idle := fun hnot => absurd hrouted hnot
      calls := by
        refine ⟨fun publishing heq hclosed => ?_, fun hnot => absurd hrouted hnot⟩
        · cases heq
          show (if event.isClosed then some t.call else t.closedBy) = _
          split
          · rfl
          · rename_i hnot
            have hclosed : publishedClosed = true := by
              refine (Bool.or_eq_true _ _ ▸ hclosed).resolve_right hnot
            exact h.calls.1 _ hpublishing hclosed
      replays := h.replays.publish event }
  | finish hpublishing =>
    rename_i publishedClosed
    have hnotRouted (hnot : ¬ (t.routed && !publishedClosed) = true) : publishedClosed = true := by
      have hrouted : t.routed := by
        by_contra hnot
        cases hpublishing.symm.trans (h.idle hnot)
      rw [hrouted, Bool.true_and] at hnot
      simpa using hnot
    have hclosed (hclosed : publishedClosed = true) : t.log.published.any (·.isClosed) :=
      h.closed (.inl ⟨_, hpublishing, hclosed⟩)
    have hrouted : t.routed := by
      by_contra hnot
      cases hpublishing.symm.trans (h.idle hnot)
    have hpublished := h.published
    rw [SessionState.ready, hpublishing] at hpublished
    exact { h with
      published := hpublished
      arrived := fun _ => h.arrived hrouted
      closed := fun hnot => by
        rcases hnot with ⟨publishing, heq, -⟩ | hnot
        · cases heq
        · exact hclosed (hnotRouted hnot)
      idle := fun _ => rfl
      calls := by
        refine ⟨fun publishing heq => (nomatch heq), fun hnot => ?_⟩
        have hclosed : publishedClosed = true := hnotRouted hnot
        exact ⟨t.call, if_pos hclosed, h.calls.1 _ hpublishing hclosed⟩ }
  | receivers hreads =>
    exact { h with
      published := by
        show _ ++ t.ready = _
        rw [hreads.published_eq]
        exact h.published
      closed := fun hclosed => by
        show List.any _ _ = true
        rw [hreads.published_eq]
        exact h.closed hclosed
      replays := h.replays.reads hreads }

theorem of_reach (hserver : ServerLog server) (h : (session server).Reach t) :
    Publishes server t :=
  h.invariant (fun _ hinit => hinit ▸ .new) fun _ _ _ hpublishes hstep =>
    hpublishes.step hserver hstep

end Publishes

/-- A notification with the number has arrived. -/
def SessionState.HasArrived (t : SessionState) (seq : Nat) : Prop :=
  ∃ event ∈ t.arrived, event.seq = some seq

end

/-! ## A process that is closed early -/

def exampleServer : List ExecProcessEvent := [.exited 1 0, .closed 2]

theorem exampleServer_log : ServerLog exampleServer where
  numbered := rfl
  last before event after heq hclosed := by
    rcases before with _ | ⟨first, _ | ⟨second, before⟩⟩
    · cases heq
      cases hclosed
    · cases heq
      rfl
    · simp [exampleServer] at heq

/-- The process is said to be closed before it is said to have exited. -/
def exampleEarly : SessionState :=
  { SessionState.new with
    ordered := ⟨0, (∅ : Keyed Nat ExecProcessEvent).insert 2 (.closed 2)⟩
    publishing := some ⟨[], false⟩
    arrived := [.closed 2]
    call := 1 }

/-- Both events are ready. -/
def exampleReady : SessionState :=
  { SessionState.new with
    ordered := ⟨2, ∅⟩
    publishing := some ⟨[.exited 1 0, .closed 2], false⟩
    arrived := [.closed 2, .exited 1 0]
    call := 2 }

theorem exampleReady_reach : (session exampleServer).Reach exampleReady := by
  have hclosed : Handles exampleServer .new (.notify (.closed 2)) exampleEarly :=
    @Handles.notify exampleServer .new (.closed 2) 2 (by decide) rfl rfl rfl
  have hfinish : Handles exampleServer exampleEarly .finish { exampleEarly with publishing := none } :=
    @Handles.finish exampleServer exampleEarly false rfl
  have hexited : Handles exampleServer { exampleEarly with publishing := none }
      (.notify (.exited 1 0)) exampleReady :=
    @Handles.notify exampleServer { exampleEarly with publishing := none } (.exited 1 0) 1
      (by decide) rfl rfl rfl
  exact .step (.step (.step (.init rfl) hclosed) hfinish) hexited

end Mcodex.ExecServer
