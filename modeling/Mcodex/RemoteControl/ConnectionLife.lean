import Mcodex.RemoteControl.ClientTracker
import Mathlib.Data.List.Perm.Basic

/-!
# The life of a connection

A connection is opened once, receives messages, and is closed at most once, for a reason of its own.
The report of an ended outbound task names a stream that a later connection may have taken over, and
the id of a new connection is the process's counter modulo 2 ^ 64. As long as no report names a
stream that was taken over (`OwnReport`) and the counter has not wrapped, every run keeps
`Lives`, from which all of this follows.
-/

namespace Mcodex.RemoteControl

open Effect Table Transition

/-! ## The events of one connection -/

section
variable {connectionId : ConnectionId} {sent : List TransportEvent} {event : TransportEvent}

def eventsOf (connectionId : ConnectionId) (sent : List TransportEvent) : List TransportEvent :=
  sent.filter (·.connectionId = connectionId)

/-- A connection that was opened and only received messages since. -/
def Live (connectionId : ConnectionId) (events : List TransportEvent) : Prop :=
  ∃ messages, events = .connectionOpened connectionId :: messages ∧
    ∀ event ∈ messages, ∃ message seqId, event = .incomingMessage connectionId message seqId

/-- A connection's events in order: none, or one that opens it, the messages, and possibly one that
closes it. -/
def OneLife (connectionId : ConnectionId) (events : List TransportEvent) : Prop :=
  events = [] ∨ Live connectionId events ∨
    ∃ events', Live connectionId events' ∧ events = events' ++ [.connectionClosed connectionId]

/-- The sequence id of a message that was forwarded and is not an `initialize`. -/
def forwardedSeqId : TransportEvent → Option Nat
  | .incomingMessage _ message seqId =>
    if remoteControlMessageStartsConnection message then none else seqId
  | _ => none

def forwardedSeqIds (connectionId : ConnectionId) (sent : List TransportEvent) : List Nat :=
  (eventsOf connectionId sent).filterMap forwardedSeqId

theorem eventsOf_append :
    eventsOf connectionId (sent ++ [event]) =
      eventsOf connectionId sent ++ if event.connectionId = connectionId then [event] else [] := by
  unfold eventsOf
  rw [List.filter_append, List.filter_singleton]
  simp

theorem eventsOf_append_self (h : event.connectionId = connectionId) :
    eventsOf connectionId (sent ++ [event]) = eventsOf connectionId sent ++ [event] := by
  rw [eventsOf_append, if_pos h]

theorem eventsOf_append_of_ne (h : event.connectionId ≠ connectionId) :
    eventsOf connectionId (sent ++ [event]) = eventsOf connectionId sent := by
  rw [eventsOf_append, if_neg h, List.append_nil]

theorem forwardedSeqIds_append :
    forwardedSeqIds connectionId (sent ++ [event]) =
      forwardedSeqIds connectionId sent ++
        if event.connectionId = connectionId then (forwardedSeqId event).toList else [] := by
  unfold forwardedSeqIds
  rw [eventsOf_append, List.filterMap_append]
  split
  · cases h : forwardedSeqId event <;> simp [h]
  · rfl

theorem Live.append_incoming {events : List TransportEvent} (h : Live connectionId events)
    (message : JSONRPCMessage) (seqId : Option Nat) :
    Live connectionId (events ++ [.incomingMessage connectionId message seqId]) := by
  obtain ⟨messages, rfl, hm⟩ := h
  refine ⟨messages ++ [.incomingMessage connectionId message seqId], rfl, fun event he => ?_⟩
  rcases List.mem_append.1 he with he | he
  · exact hm event he
  · exact ⟨message, seqId, List.mem_singleton.1 he⟩

end

/-! ## Lives -/

/-- What the tracker keeps about its connections. -/
structure Lives (clients : Keyed ClientKey ClientState) (sent : List TransportEvent)
    (counter : Nat) : Prop where
  live : ∀ key client, clients.lookup key = some client →
    Live client.connectionId (eventsOf client.connectionId sent)
  apart : ∀ key key' client client', clients.lookup key = some client →
    clients.lookup key' = some client' → client.connectionId = client'.connectionId → key = key'
  oneLife : ∀ connectionId, OneLife connectionId (eventsOf connectionId sent)
  below : ∀ event ∈ sent, event.connectionId < counter
  increasing : ∀ connectionId, (forwardedSeqIds connectionId sent).Pairwise (· < ·)
  last : ∀ key client, clients.lookup key = some client →
    ∀ seqId ∈ forwardedSeqIds client.connectionId sent,
      ∃ last, client.lastInboundSeqId = some last ∧ seqId ≤ last

namespace Lives

section
variable {clients : Keyed ClientKey ClientState} {sent : List TransportEvent} {counter : Nat}
  {key : ClientKey} {client client' : ClientState}

theorem empty (counter : Nat) : Lives ∅ [] counter where
  live _ _ h := nomatch h
  apart _ _ _ _ h := nomatch h
  oneLife _ := .inl rfl
  below _ h := nomatch h
  increasing _ := .nil
  last _ _ h := nomatch h

theorem mono (h : Lives clients sent counter) {counter' : Nat} (hle : counter ≤ counter') :
    Lives clients sent counter' :=
  { h with below := fun event he => Nat.lt_of_lt_of_le (h.below event he) hle }

/-- A registered connection has an id that was drawn. -/
theorem id_lt (h : Lives clients sent counter) (hl : clients.lookup key = some client) :
    client.connectionId < counter := by
  obtain ⟨messages, hm, -⟩ := h.live key client hl
  have hopened : .connectionOpened client.connectionId ∈ eventsOf client.connectionId sent := by
    rw [hm]
    exact List.mem_cons_self
  exact h.below _ (List.mem_of_mem_filter hopened)

/-- Nothing was sent for an id that was not drawn. -/
theorem eventsOf_fresh (h : Lives clients sent counter) : eventsOf counter sent = [] := by
  refine List.filter_eq_nil_iff.2 fun event he => ?_
  simpa using Nat.ne_of_lt (h.below event he)

theorem erase (h : Lives clients sent counter) (key : ClientKey) :
    Lives (clients.erase key) sent counter := by
  have sub : ∀ k client, (clients.erase key).lookup k = some client →
      clients.lookup k = some client := by
    intro k client hl
    rw [lookup_erase] at hl
    split at hl
    · cases hl
    · exact hl
  exact {
    live := fun k client hl => h.live k client (sub k client hl)
    apart := fun k k' client client' hl hl' => h.apart k k' client client' (sub _ _ hl) (sub _ _ hl')
    oneLife := h.oneLife
    below := h.below
    increasing := h.increasing
    last := fun k client hl => h.last k client (sub k client hl) }

/-- The connection of a key is closed. -/
theorem close (h : Lives clients sent counter) (hl : clients.lookup key = some client) :
    Lives (clients.erase key) (sent ++ [.connectionClosed client.connectionId]) counter := by
  have other : ∀ k client', (clients.erase key).lookup k = some client' →
      clients.lookup k = some client' ∧ client.connectionId ≠ client'.connectionId := by
    intro k client' hl'
    rw [lookup_erase] at hl'
    split at hl'
    · cases hl'
    · next hk => exact ⟨hl', fun e => hk (h.apart _ _ _ _ hl' hl e.symm)⟩
  have seqIds : ∀ c, forwardedSeqIds c (sent ++ [.connectionClosed client.connectionId]) =
      forwardedSeqIds c sent := by
    intro c
    rw [forwardedSeqIds_append]
    simp [forwardedSeqId]
  exact {
    live := fun k client' hl' => by
      obtain ⟨hl', hne⟩ := other k client' hl'
      rw [eventsOf_append_of_ne (by exact hne)]
      exact h.live k client' hl'
    apart := (h.erase key).apart
    oneLife := fun c => by
      by_cases hc : client.connectionId = c
      · subst hc
        rw [eventsOf_append_self (by rfl)]
        exact .inr (.inr ⟨_, h.live key client hl, rfl⟩)
      · rw [eventsOf_append_of_ne (by exact hc)]
        exact h.oneLife c
    below := fun event he => by
      rcases List.mem_append.1 he with he | he
      · exact h.below event he
      · rw [List.mem_singleton.1 he]
        exact h.id_lt hl
    increasing := fun c => by
      rw [seqIds]
      exact h.increasing c
    last := fun k client' hl' => by
      rw [seqIds]
      exact h.last k client' (other k client' hl').1 }

/-- A connection with a new id is opened, but not registered. -/
theorem opened (h : Lives clients sent counter) :
    Lives clients (sent ++ [.connectionOpened counter]) (counter + 1) := by
  have seqIds : ∀ c, forwardedSeqIds c (sent ++ [.connectionOpened counter]) =
      forwardedSeqIds c sent := by
    intro c
    rw [forwardedSeqIds_append]
    simp [forwardedSeqId]
  exact {
    live := fun k client hl => by
      rw [eventsOf_append_of_ne (by exact (Nat.ne_of_gt (h.id_lt hl)))]
      exact h.live k client hl
    apart := h.apart
    oneLife := fun c => by
      by_cases hc : counter = c
      · subst hc
        rw [eventsOf_append_self (by rfl), h.eventsOf_fresh]
        exact .inr (.inl ⟨[], rfl, fun _ he => nomatch he⟩)
      · rw [eventsOf_append_of_ne (by exact hc)]
        exact h.oneLife c
    below := fun event he => by
      rcases List.mem_append.1 he with he | he
      · exact Nat.lt_succ_of_lt (h.below event he)
      · rw [List.mem_singleton.1 he]
        exact Nat.lt_succ_self _
    increasing := fun c => by
      rw [seqIds]
      exact h.increasing c
    last := fun k client hl => by
      rw [seqIds]
      exact h.last k client hl }

/-- The connection just opened is registered. -/
theorem register (h : Lives clients sent counter) (key : ClientKey) (now : Nat)
    (last : Option Nat) :
    Lives (clients.insert key ⟨counter, now, last⟩) (sent ++ [.connectionOpened counter])
      (counter + 1) := by
  have ho := h.opened
  have cases : ∀ k client, (clients.insert key ⟨counter, now, last⟩).lookup k = some client →
      (k = key ∧ client.connectionId = counter) ∨
        (clients.lookup k = some client ∧ client.connectionId ≠ counter) := by
    intro k client hl
    rw [lookup_insert] at hl
    split at hl
    · next hk =>
      cases hl
      exact .inl ⟨hk, rfl⟩
    · exact .inr ⟨hl, Nat.ne_of_lt (h.id_lt hl)⟩
  have new : eventsOf counter (sent ++ [.connectionOpened counter]) =
      [.connectionOpened counter] := by
    rw [eventsOf_append_self (by rfl), h.eventsOf_fresh, List.nil_append]
  exact {
    live := fun k client hl => by
      rcases cases k client hl with ⟨-, hc⟩ | ⟨hl, -⟩
      · rw [hc, new]
        exact ⟨[], rfl, fun _ he => nomatch he⟩
      · exact ho.live k client hl
    apart := fun k k' client client' hl hl' he => by
      rcases cases k client hl with ⟨hk, hc⟩ | ⟨hl, hc⟩ <;>
        rcases cases k' client' hl' with ⟨hk', hc'⟩ | ⟨hl', hc'⟩
      · exact hk.trans hk'.symm
      · exact absurd (he.symm.trans hc) hc'
      · exact absurd (he.trans hc') hc
      · exact ho.apart k k' client client' hl hl' he
    oneLife := ho.oneLife
    below := ho.below
    increasing := ho.increasing
    last := fun k client hl => by
      rcases cases k client hl with ⟨-, hc⟩ | ⟨hl, -⟩
      · rw [forwardedSeqIds, hc, new]
        exact fun _ hs => nomatch hs
      · exact ho.last k client hl }

/-- A registered connection's activity, and its last sequence id, go up. -/
theorem touch (h : Lives clients sent counter) (hl : clients.lookup key = some client)
    (hid : client'.connectionId = client.connectionId)
    (hlast : ∀ last, client.lastInboundSeqId = some last →
      ∃ last', client'.lastInboundSeqId = some last' ∧ last ≤ last') :
    Lives (clients.insert key client') sent counter := by
  have before : ∀ k c, (clients.insert key client').lookup k = some c →
      ∃ c₀, clients.lookup k = some c₀ ∧ c.connectionId = c₀.connectionId ∧
        ∀ last, c₀.lastInboundSeqId = some last → ∃ last', c.lastInboundSeqId = some last' ∧
          last ≤ last' := by
    intro k c hc
    rw [lookup_insert] at hc
    split at hc
    · next hk =>
      cases hc
      exact ⟨client, hk ▸ hl, hid, hlast⟩
    · exact ⟨c, hc, rfl, fun last hlast => ⟨last, hlast, le_rfl⟩⟩
  exact {
    live := fun k c hc => by
      obtain ⟨c₀, hc₀, hid, -⟩ := before k c hc
      rw [hid]
      exact h.live k c₀ hc₀
    apart := fun k k' c c' hc hc' he => by
      obtain ⟨c₀, hc₀, hid, -⟩ := before k c hc
      obtain ⟨c₀', hc₀', hid', -⟩ := before k' c' hc'
      exact h.apart k k' c₀ c₀' hc₀ hc₀' (hid.symm.trans (he.trans hid'))
    oneLife := h.oneLife
    below := h.below
    increasing := h.increasing
    last := fun k c hc seqId hs => by
      obtain ⟨c₀, hc₀, hid, hlast⟩ := before k c hc
      obtain ⟨last, hlast₀, hle⟩ := h.last k c₀ hc₀ seqId (hid ▸ hs)
      obtain ⟨last', hlast', hle'⟩ := hlast last hlast₀
      exact ⟨last', hlast', Nat.le_trans hle hle'⟩ }

theorem ping (h : Lives clients sent counter) (key : ClientKey) (now : Nat) :
    Lives (updateKey key (fun client => { client with lastActivityAt := now }) clients) sent
      counter := by
  unfold updateKey
  split
  · next client hl => exact h.touch hl rfl fun last hlast => ⟨last, hlast, le_rfl⟩
  · exact h

/-- A registered connection receives a message: one that starts a connection, or one whose sequence
id, if any, is newer than those before and recorded. -/
theorem forward (h : Lives clients sent counter) (hl : clients.lookup key = some client)
    (message : JSONRPCMessage) (seqId : Option Nat)
    (hnew : ∀ s, forwardedSeqId (.incomingMessage client.connectionId message seqId) = some s →
      (∀ s' ∈ forwardedSeqIds client.connectionId sent, s' < s) ∧
        client.lastInboundSeqId = some s) :
    Lives clients (sent ++ [.incomingMessage client.connectionId message seqId]) counter := by
  have ids : ∀ c, forwardedSeqIds c
      (sent ++ [.incomingMessage client.connectionId message seqId]) =
        forwardedSeqIds c sent ++ if client.connectionId = c then
          (forwardedSeqId (.incomingMessage client.connectionId message seqId)).toList else [] :=
    fun c => forwardedSeqIds_append
  exact {
    live := fun k c hc => by
      by_cases he : client.connectionId = c.connectionId
      · rw [← he, eventsOf_append_self (by rfl)]
        exact (he ▸ h.live k c hc).append_incoming message seqId
      · rw [eventsOf_append_of_ne (by exact he)]
        exact h.live k c hc
    apart := h.apart
    oneLife := fun c => by
      by_cases he : client.connectionId = c
      · subst he
        rw [eventsOf_append_self (by rfl)]
        exact .inr (.inl ((h.live key client hl).append_incoming message seqId))
      · rw [eventsOf_append_of_ne (by exact he)]
        exact h.oneLife c
    below := fun event he => by
      rcases List.mem_append.1 he with he | he
      · exact h.below event he
      · rw [List.mem_singleton.1 he]
        exact h.id_lt hl
    increasing := fun c => by
      rw [ids]
      split
      · next he =>
        subst he
        refine List.pairwise_append.2 ⟨h.increasing _, ?_, fun s' hs' s hs => ?_⟩
        · cases forwardedSeqId (.incomingMessage client.connectionId message seqId) <;> simp
        · exact (hnew s (by simpa using hs)).1 s' hs'
      · rw [List.append_nil]
        exact h.increasing c
    last := fun k c hc s hs => by
      rw [ids] at hs
      rcases List.mem_append.1 hs with hold | hsent
      · exact h.last k c hc s hold
      · split at hsent
        · next he =>
          obtain rfl := h.apart _ _ _ _ hl hc he
          obtain rfl := Option.some.inj (hl.symm.trans hc)
          exact ⟨s, (hnew s (Option.mem_toList.1 hsent)).2, le_rfl⟩
        · cases hsent }

end

end Lives

/-! ## What a program does to the connections -/

section
variable (accepts : Nat → Bool)

/-- A run from `t` to `t'` keeps `Lives` and closes connections for which `P` holds only. -/
structure Keeps (P : ConnectionId → Prop) (t t' : ClientTracker) : Prop where
  lives : Lives t'.clients t'.sent t'.connectionIdCounter
  sent : ∃ new, t'.sent = t.sent ++ new ∧ ∀ connectionId, .connectionClosed connectionId ∈ new →
    P connectionId

variable {accepts} {P : ConnectionId → Prop} {t t' : ClientTracker}

theorem Keeps.of_sent (h : Lives t'.clients t'.sent t'.connectionIdCounter)
    (hsent : t'.sent = t.sent) : Keeps P t t' :=
  ⟨h, [], by rw [hsent, List.append_nil], fun _ he => nomatch he⟩

theorem Keeps.of_append (h : Lives t'.clients t'.sent t'.connectionIdCounter)
    {event : TransportEvent} (hsent : t'.sent = t.sent ++ [event])
    (hP : ∀ connectionId, event = .connectionClosed connectionId → P connectionId) :
    Keeps P t t' :=
  ⟨h, [event], hsent, fun connectionId he => hP connectionId (List.mem_singleton.1 he).symm⟩

theorem Keeps.trans {t₁ t₂ : ClientTracker} (h : Keeps P t t₁) (h' : Keeps P t₁ t₂) :
    Keeps P t t₂ := by
  obtain ⟨new, hnew, hP⟩ := h.sent
  obtain ⟨new', hnew', hP'⟩ := h'.sent
  refine ⟨h'.lives, new ++ new', by rw [hnew', hnew, List.append_assoc], fun connectionId he => ?_⟩
  exact (List.mem_append.1 he).elim (hP connectionId) (hP' connectionId)

theorem wp_sendTransportEvent {Q : Unit → ClientTracker → Prop}
    {E : Interrupt Stopped → ClientTracker → Prop} {event : TransportEvent}
    (hQ : Q () { t with attempts := t.attempts + 1, sent := t.sent ++ [event] })
    (hE : E (.raised .stopped) { t with attempts := t.attempts + 1 }) :
    wp (sendTransportEvent accepts event) Q E t := by
  unfold sendTransportEvent
  rw [wp_bind, wp_get]
  split
  · exact hQ
  · exact hE

/-- Closing the connection of a key, whether the event arrives or not, unregisters it. -/
theorem wp_closeClient (h : Lives t.clients t.sent t.connectionIdCounter) {key : ClientKey}
    (hP : ∀ client, t.clients.lookup key = some client → P client.connectionId) :
    wp (closeClient accepts key)
      (fun _ t' => Keeps P t t' ∧ t'.clients = t.clients.erase key ∧
        t'.connectionIdCounter = t.connectionIdCounter)
      (fun _ t' => Keeps P t t' ∧ t'.clients = t.clients.erase key) t := by
  unfold closeClient
  rw [wp_bind, wp_get]
  split
  · next hnone =>
    refine ⟨.of_sent h rfl, ?_, rfl⟩
    refine (AList.ext ?_).symm
    exact List.kerase_of_notMem_keys (AList.lookup_eq_none.1 hnone)
  · next client hl =>
    rw [wp_bind, wp_set]
    refine wp_sendTransportEvent ⟨.of_append (h.close hl) rfl ?_, rfl, rfl⟩
      ⟨.of_sent (h.erase key) rfl, rfl⟩
    intro connectionId he
    cases he
    exact hP client hl

/-- Keys whose connections may be closed are closed in any order. -/
theorem wp_closeClients {keys : List ClientKey} (h : Lives t.clients t.sent t.connectionIdCounter)
    (hP : ∀ key ∈ keys, ∀ client, t.clients.lookup key = some client → P client.connectionId) :
    wp (closeClients accepts keys) (fun _ => Keeps P t) (fun _ => Keeps P t) t := by
  induction keys generalizing t with
  | nil => exact .of_sent h rfl
  | cons key rest ih =>
    rw [closeClients, wp_bind]
    refine (wp_closeClient h (hP key List.mem_cons_self)).imp ?_ fun _ _ h' => h'.1
    rintro - t₁ ⟨hk, hclients, -⟩
    refine (ih hk.lives ?_).imp (fun _ _ => hk.trans) fun _ _ => hk.trans
    intro key' hkey' client hl
    rw [hclients, lookup_erase] at hl
    split at hl
    · cases hl
    · exact hP key' (List.mem_cons_of_mem _ hkey') client hl

theorem wp_closeAllClients {keys : List ClientKey} (h : Lives t.clients t.sent t.connectionIdCounter)
    (hP : ∀ connectionId, P connectionId) :
    wp (closeAllClients accepts keys) (fun _ => Keeps P t) (fun _ => Keeps P t) t := by
  induction keys generalizing t with
  | nil => exact .of_sent h rfl
  | cons key rest ih =>
    rw [closeAllClients, wp_bind, wp_attempt]
    refine (wp_closeClient h fun client _ => hP client.connectionId).imp ?_ ?_
    · rintro - t₁ ⟨hk, -⟩
      exact (ih hk.lives).imp (fun _ _ => hk.trans) fun _ _ => hk.trans
    · rintro e t₁ ⟨hk, -⟩
      cases e with
      | raised e => exact (ih hk.lives).imp (fun _ _ => hk.trans) fun _ _ => hk.trans
      | outOfFuel => exact hk

theorem alive_of_mem_expiredClients {now : Nat} {key : ClientKey} {client : ClientState}
    (hkey : key ∈ expiredClients t now) (hl : t.clients.lookup key = some client) :
    remoteControlClientIsAlive client now = false := by
  obtain ⟨entry, he, rfl⟩ := List.mem_map.1 hkey
  obtain ⟨hentry, halive⟩ := List.mem_filter.1 he
  have hlookup : t.clients.lookup entry.1 = some entry.2 := AList.mem_lookup_iff.2 hentry
  cases hl.symm.trans hlookup
  simpa using halive

theorem wp_openConnection (h : Lives t.clients t.sent t.connectionIdCounter)
    (hcounter : t.connectionIdCounter < 2 ^ 64) (now : Nat) (isLegacyStreamId : Bool)
    (key : ClientKey) (seqId : Option Nat) {message : JSONRPCMessage}
    (hm : remoteControlMessageStartsConnection message) :
    wp (openConnection accepts now isLegacyStreamId key seqId message) (fun _ => Keeps P t)
      (fun _ => Keeps P t) t := by
  have hid : nextConnectionId t.connectionIdCounter = t.connectionIdCounter :=
    Nat.mod_eq_of_lt hcounter
  unfold openConnection
  simp only [wp_bind, wp_get, wp_set, hid]
  refine wp_sendTransportEvent ?_ (.of_sent (h.mono (Nat.le_succ _)) rfl)
  rw [wp_modify]
  have hr := h.register key now (if isLegacyStreamId then none else seqId)
  have hopened : Keeps P t { t with
      clients := t.clients.insert key
        ⟨t.connectionIdCounter, now, if isLegacyStreamId then none else seqId⟩
      sent := t.sent ++ [.connectionOpened t.connectionIdCounter]
      connectionIdCounter := t.connectionIdCounter + 1 } :=
    .of_append hr rfl (by simp)
  have hforward := hr.forward (AList.lookup_insert _) message seqId (by
    intro s hs
    simp [forwardedSeqId, hm] at hs)
  exact wp_sendTransportEvent (hopened.trans (.of_append hforward rfl (by simp)))
    ⟨hopened.lives, hopened.sent⟩

theorem forwardedSeqIds_lt {seqId : Option Nat} {key : ClientKey} {client : ClientState}
    (h : Lives t.clients t.sent t.connectionIdCounter) (hl : t.clients.lookup key = some client)
    (hnew : alreadySeen t key seqId = false) (s : Nat) (hs : seqId = some s) :
    ∀ s' ∈ forwardedSeqIds client.connectionId t.sent, s' < s := by
  intro s' hs'
  obtain ⟨last, hlast, hle⟩ := h.last key client hl s' hs'
  subst hs
  have hlt : last < s := by simpa [alreadySeen, hl, hlast] using hnew
  omega

/-- The message reaches the connection of its key, unless the app server is gone. -/
theorem wp_forward {seqId : Option Nat} {key : ClientKey} {client : ClientState}
    (h : Lives t.clients t.sent t.connectionIdCounter) (hl : t.clients.lookup key = some client)
    (hnew : alreadySeen t key seqId = false) (now : Nat) (message : JSONRPCMessage) :
    let t' := { t with clients := t.clients.insert key { client with
      lastActivityAt := now, lastInboundSeqId := seqId <|> client.lastInboundSeqId } }
    wp (sendTransportEvent accepts (.incomingMessage client.connectionId message seqId))
      (fun _ => Keeps P t) (fun _ => Keeps P t) t' := by
  intro t'
  have htouch : Lives t'.clients t.sent t.connectionIdCounter := by
    refine h.touch hl rfl fun last hlast => ?_
    cases seqId with
    | none => exact ⟨last, hlast, le_rfl⟩
    | some s =>
      have hlt : last < s := by simpa [alreadySeen, hl, hlast] using hnew
      exact ⟨s, rfl, Nat.le_of_lt hlt⟩
  have hforward : Lives t'.clients (t.sent ++ [.incomingMessage client.connectionId message seqId])
      t.connectionIdCounter := by
    refine htouch.forward (AList.lookup_insert _) message seqId fun s hs => ?_
    have hseq : seqId = some s := by
      simp only [forwardedSeqId] at hs
      split at hs
      · cases hs
      · exact hs
    exact ⟨forwardedSeqIds_lt h hl hnew s hseq, by rw [hseq]; rfl⟩
  exact wp_sendTransportEvent (.of_append hforward rfl (by simp)) (.of_sent htouch rfl)

theorem wp_handleClientMessage (h : Lives t.clients t.sent t.connectionIdCounter) (now : Nat)
    (isLegacyStreamId : Bool) {key : ClientKey} (seqId : Option Nat) {message : JSONRPCMessage}
    (hcounter : remoteControlMessageStartsConnection message → t.connectionIdCounter < 2 ^ 64)
    (hP : remoteControlMessageStartsConnection message →
      ∀ client, t.clients.lookup key = some client → P client.connectionId) :
    wp (handleClientMessage accepts now isLegacyStreamId key seqId message) (fun _ => Keeps P t)
      (fun _ => Keeps P t) t := by
  unfold handleClientMessage
  rw [wp_bind, wp_get]
  cases hi : remoteControlMessageStartsConnection message with
  | false =>
    cases hseen : alreadySeen t key seqId with
    | true => exact .of_sent h rfl
    | false =>
      simp only [Bool.not_false, Bool.and_true, Bool.false_and, Bool.false_eq_true, ↓reduceIte,
        wp_bind, wp_get]
      split
      · next client hl => exact wp_forward h hl hseen now message
      · exact .of_sent h rfl
  | true =>
    have hopen : ∀ t₁, Keeps P t t₁ → t₁.connectionIdCounter = t.connectionIdCounter →
        t₁.clients.lookup key = none →
        wp (openConnection accepts now isLegacyStreamId key seqId message) (fun _ => Keeps P t)
          (fun _ => Keeps P t) t₁ := by
      intro t₁ hk hcounter₁ hnone
      refine (wp_openConnection hk.lives ?_ now isLegacyStreamId key seqId hi).imp
        (fun _ _ => hk.trans) fun _ _ => hk.trans
      rw [hcounter₁]
      exact hcounter hi
    simp only [Bool.not_true, Bool.and_false, Bool.true_and, Bool.false_eq_true, ↓reduceIte]
    split
    · rw [wp_bind]
      refine (wp_closeClient h (hP hi)).imp ?_ fun _ _ h' => h'.1
      rintro - t₁ ⟨hk, hclients, hcounter₁⟩
      have hnone : t₁.clients.lookup key = none := by rw [hclients, AList.lookup_erase]
      simp only [wp_bind, wp_get, hnone]
      exact hopen t₁ hk hcounter₁ hnone
    · next hnone =>
      rw [Option.not_isSome_iff_eq_none] at hnone
      simp only [wp_bind, wp_get, hnone]
      exact hopen t (.of_sent h rfl) rfl hnone

end

/-! ## Streams -/

/-- The stream that an envelope's client means. -/
def streamOf (t : ClientTracker) (newRandom : StreamId) (envelope : ClientEnvelope) : StreamId :=
  envelope.streamId.getD <| (t.legacyStreamIds.lookup envelope.clientId).getD <|
    if envelope.isInitialize ∨ envelope.event = .ping then newRandom else ""

theorem wp_resolveStreamId {t : ClientTracker} {newRandom : StreamId} {envelope : ClientEnvelope}
    {Q : StreamId → ClientTracker → Prop} {E : Interrupt Stopped → ClientTracker → Prop}
    (hQ : ∀ legacy, Q (streamOf t newRandom envelope) { t with legacyStreamIds := legacy }) :
    wp (resolveStreamId newRandom envelope) Q E t := by
  unfold resolveStreamId
  unfold streamOf at hQ
  split
  · next streamId hs =>
    rw [hs] at hQ
    exact hQ t.legacyStreamIds
  · next hs =>
    simp only [hs, Option.getD_none] at hQ
    rw [wp_bind, wp_get]
    cases hi : envelope.isInitialize with
    | true =>
      simp only [hi, true_or, ↓reduceIte] at hQ
      exact hQ _
    | false =>
      simp only [hi, Bool.false_eq_true, false_or] at hQ
      exact hQ t.legacyStreamIds

/-! ## Runs -/

inductive Event where
  | handle (newRandom : StreamId) (now : Nat) (envelope : ClientEnvelope)
  | sweep (now : Nat) (order : List ClientKey)
  | taskEnds (task : OutboundTask)
  | taskPanics (task : OutboundTask)
  | bookkeep (task : OutboundTask)
  | shutdown (order : List ClientKey)
  | otherConnection

section
variable (accepts : Nat → Bool)

/-- The tracker on any envelopes and sweeps. An outbound task ends or panics at any time; a report
closes the stream that it names. The registered connections are visited in any order. -/
def tracking : System ClientTracker Event where
  init t := ∃ counter, t = .new counter
  step t event t' :=
    match event with
    | .handle newRandom now envelope => LeadsTo (handleMessage accepts newRandom now envelope) t t'
    | .sweep now order =>
      order.Perm (expiredClients t now) ∧ LeadsTo (closeClients accepts order) t t'
    | .taskEnds task => task ∈ t.running ∧
      t' = { t with running := t.running.erase task, ended := t.ended ++ [task] }
    | .taskPanics task => task ∈ t.running ∧ t' = { t with running := t.running.erase task }
    | .bookkeep task => task ∈ t.ended ∧
      LeadsTo (closeClient accepts task.key) { t with ended := t.ended.erase task } t'
    | .shutdown order => order.Perm t.clients.keys ∧ LeadsTo (shutdown accepts order) t t'
    | .otherConnection => t' = { t with connectionIdCounter := t.connectionIdCounter + 1 }

/-- What closes a connection for a reason of its own. -/
def OwnReason (t : ClientTracker) : Event → ConnectionId → Prop
  | .handle newRandom _ envelope, connectionId =>
    (envelope.event = .clientClosed ∨ envelope.isInitialize) ∧ ∃ client,
      t.clients.lookup (envelope.clientId, streamOf t newRandom envelope) = some client ∧
        client.connectionId = connectionId
  | .sweep now _, connectionId => ∃ key client, t.clients.lookup key = some client ∧
    client.connectionId = connectionId ∧ remoteControlClientIsAlive client now = false
  | .bookkeep task, connectionId => task.connectionId = connectionId
  | .shutdown _, _ => True
  | _, _ => False

/-- A report does not name a stream that another connection has taken over, and the counter of
connection ids has not wrapped when a client initializes. -/
def OwnReport (t : ClientTracker) : Event → Prop
  | .handle _ _ envelope => envelope.isInitialize → t.connectionIdCounter < 2 ^ 64
  | .bookkeep task => ∀ client, t.clients.lookup task.key = some client →
    client.connectionId = task.connectionId
  | _ => True

variable {accepts} {t t' : ClientTracker}

theorem wp_handleMessage {P : ConnectionId → Prop} {newRandom : StreamId} {now : Nat}
    {envelope : ClientEnvelope} (h : Lives t.clients t.sent t.connectionIdCounter)
    (hcounter : envelope.isInitialize → t.connectionIdCounter < 2 ^ 64)
    (hP : envelope.event = .clientClosed ∨ envelope.isInitialize →
      ∀ client, t.clients.lookup (envelope.clientId, streamOf t newRandom envelope) = some client →
        P client.connectionId) :
    wp (handleMessage accepts newRandom now envelope) (fun _ => Keeps P t) (fun _ => Keeps P t)
      t := by
  unfold handleMessage
  rw [wp_bind]
  refine wp_resolveStreamId fun legacy => ?_
  have keep : ∀ t', Keeps P { t with legacyStreamIds := legacy } t' → Keeps P t t' :=
    fun _ hk => ⟨hk.lives, hk.sent⟩
  split
  · exact .of_sent h rfl
  · dsimp only
    split
    · next message he =>
      have hi : envelope.isInitialize = remoteControlMessageStartsConnection message := by
        rw [ClientEnvelope.isInitialize, he]
      rw [hi] at hcounter hP
      exact (wp_handleClientMessage (t := { t with legacyStreamIds := legacy }) h now _ _ hcounter
        fun hs => hP (.inr hs)).imp (fun _ => keep) fun _ => keep
    · exact .of_sent h rfl
    · rw [wp_modify]
      exact .of_sent (h.ping _ now) rfl
    · next he =>
      exact (wp_closeClient (t := { t with legacyStreamIds := legacy }) h (hP (.inl he))).imp
        (fun _ t' hk => keep t' hk.1) fun _ t' hk => keep t' hk.1

/-- A step that meets the condition keeps `Lives` and closes connections for their own reasons. -/
theorem tracking_step {event : Event} (h : Lives t.clients t.sent t.connectionIdCounter)
    (hreport : OwnReport t event) (hstep : (tracking accepts).step t event t') :
    Keeps (OwnReason t event) t t' := by
  cases event with
  | handle newRandom now envelope =>
    exact hstep.of_wp (wp_handleMessage h hreport fun hr client hl => ⟨hr, client, hl, rfl⟩)
  | sweep now order =>
    obtain ⟨hperm, hstep⟩ := hstep
    refine hstep.of_wp (wp_closeClients h fun key hkey client hl => ⟨key, client, hl, rfl, ?_⟩)
    exact alive_of_mem_expiredClients (hperm.mem_iff.1 hkey) hl
  | taskEnds task | taskPanics task =>
    obtain ⟨-, rfl⟩ := hstep
    exact .of_sent h rfl
  | bookkeep task =>
    obtain ⟨-, hstep⟩ := hstep
    have hk := hstep.of_wp <| (wp_closeClient (t := { t with ended := t.ended.erase task }) h
      fun client hl => (hreport client hl).symm).imp (fun _ _ hk => hk.1) fun _ _ hk => hk.1
    exact ⟨hk.lives, hk.sent⟩
  | shutdown order =>
    obtain ⟨-, hstep⟩ := hstep
    refine hstep.of_wp ?_
    rw [shutdown, wp_bind]
    refine (wp_closeAllClients h fun _ => trivial).imp ?_ fun _ _ => id
    exact fun _ _ hk => ⟨hk.lives, hk.sent⟩
  | otherConnection =>
    subst hstep
    exact .of_sent (h.mono (Nat.le_succ _)) rfl

theorem lives_of_reach (h : ((tracking accepts).restrict OwnReport).Reach t) :
    Lives t.clients t.sent t.connectionIdCounter := by
  refine h.invariant ?_ fun t event t' hl hstep => (tracking_step hl hstep.1 hstep.2).lives
  rintro _ ⟨counter, rfl⟩
  exact .empty counter

/-- While no report names a stream that was taken over, every connection has one life, which ends
for its own reasons, and receives messages in the order of their sequence ids. -/
theorem connections_live_once (h : ((tracking accepts).restrict OwnReport).Reach t) :
    (∀ connectionId, OneLife connectionId (eventsOf connectionId t.sent)) ∧
      (∀ connectionId, (forwardedSeqIds connectionId t.sent).Pairwise (· < ·)) ∧
      ∀ event t', ((tracking accepts).restrict OwnReport).step t event t' →
        ∃ new, t'.sent = t.sent ++ new ∧ ∀ connectionId,
          .connectionClosed connectionId ∈ new → OwnReason t event connectionId := by
  have hl := lives_of_reach h
  exact ⟨hl.oneLife, hl.increasing, fun event t' hstep =>
    (tracking_step hl hstep.1 hstep.2).sent⟩

end

/-! ## A report that names a stream taken over -/

def exampleKey : ClientKey := ("client-1", "stream-1")

def exampleInitialize : ClientEnvelope where
  event := .clientMessage (.request "initialize")
  clientId := "client-1"
  streamId := some "stream-1"
  seqId := some 0

def exampleTask (connectionId : ConnectionId) : OutboundTask := ⟨exampleKey, connectionId⟩

def exampleOpening (connectionId : ConnectionId) : List TransportEvent :=
  [.connectionOpened connectionId, .incomingMessage connectionId (.request "initialize") (some 0)]

/-- A tracker whose only connection is the one whose id was drawn last. -/
def exampleTracker (connectionId : ConnectionId) (running ended : List OutboundTask)
    (sent : List TransportEvent) : ClientTracker where
  clients := (∅ : Keyed ClientKey ClientState).insert exampleKey ⟨connectionId, 0, some 0⟩
  legacyStreamIds := ∅
  running
  ended
  connectionIdCounter := connectionId + 1
  sent
  attempts := sent.length

/-- The client has initialized its stream. -/
theorem exampleTracker_reach :
    ((tracking fun _ => true).restrict OwnReport).Reach
      (exampleTracker 0 [exampleTask 0] [] (exampleOpening 0)) := by
  have hstep : (tracking fun _ => true).step (.new 0) (.handle "" 0 exampleInitialize)
      (exampleTracker 0 [exampleTask 0] [] (exampleOpening 0)) := .inl ⟨(), rfl⟩
  have hreport : OwnReport (.new 0) (.handle "" 0 exampleInitialize) := fun _ => by decide
  exact .step (.init ⟨0, rfl⟩) ⟨hreport, hstep⟩

theorem connections_live_once_example :
    let t := exampleTracker 0 [exampleTask 0] [] (exampleOpening 0)
    (∀ connectionId, OneLife connectionId (eventsOf connectionId t.sent)) ∧
      (∀ connectionId, (forwardedSeqIds connectionId t.sent).Pairwise (· < ·)) ∧
      ∀ event t', ((tracking fun _ => true).restrict OwnReport).step t event t' →
        ∃ new, t'.sent = t.sent ++ new ∧ ∀ connectionId,
          .connectionClosed connectionId ∈ new → OwnReason t event connectionId :=
  connections_live_once exampleTracker_reach

/-- The client initializes its stream again, and the first connection's task ends: its report closes
the second connection. -/
theorem takenOver_closed :
    let t := exampleTracker 1 [exampleTask 1] [exampleTask 0]
      (exampleOpening 0 ++ [.connectionClosed 0] ++ exampleOpening 1)
    (tracking fun _ => true).Reach t ∧ ∃ t',
      (tracking fun _ => true).step t (.bookkeep (exampleTask 0)) t' ∧
      t'.sent = t.sent ++ [.connectionClosed 1] ∧
      ¬ OwnReason t (.bookkeep (exampleTask 0)) 1 := by
  intro t
  have hagain : (tracking fun _ => true).step (exampleTracker 0 [exampleTask 0] [] (exampleOpening 0))
      (.handle "" 0 exampleInitialize) (exampleTracker 1 [exampleTask 0, exampleTask 1] []
        (exampleOpening 0 ++ [.connectionClosed 0] ++ exampleOpening 1)) := .inl ⟨(), rfl⟩
  have hends : (tracking fun _ => true).step (exampleTracker 1 [exampleTask 0, exampleTask 1] []
        (exampleOpening 0 ++ [.connectionClosed 0] ++ exampleOpening 1))
      (.taskEnds (exampleTask 0)) t := ⟨List.mem_cons_self, rfl⟩
  refine ⟨.step (.step exampleTracker_reach.of_restrict hagain) hends, _,
    ⟨List.mem_singleton_self _, .inl ⟨(), rfl⟩⟩, rfl, ?_⟩
  exact Nat.zero_ne_one

end Mcodex.RemoteControl
