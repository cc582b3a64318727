import Mathlib.Algebra.Ring.Nat
import Mcodex.Lib.Effect
import Mcodex.Lib.Table
import Mcodex.Lib.Transition

/-!
# Remote-control clients

A client that initializes on a stream gets a connection of its own and an outbound task. The tracker
tells the app server, through a channel, when a connection is opened, what it receives, and when it
is closed. A connection is closed because its client says so or initializes the stream again, because
it is idle for too long, because an outbound task that ended reports its stream, or at shutdown. The
reports name the client and the stream only, which a later connection may have taken over.
-/

namespace Mcodex.RemoteControl

open Effect Table Transition

abbrev ClientId := String
abbrev StreamId := String
abbrev ClientKey := ClientId × StreamId
abbrev ConnectionId := Nat

/-! ## Envelopes and events -/

inductive JSONRPCMessage where
  | request (method : String)
  | notification (method : String)
  | response
  | error
  deriving DecidableEq, Repr

inductive ClientEvent where
  | clientMessage (message : JSONRPCMessage)
  | ack
  | ping
  | clientClosed
  deriving DecidableEq, Repr

structure ClientEnvelope where
  event : ClientEvent
  clientId : ClientId
  streamId : Option StreamId
  seqId : Option Nat
  deriving DecidableEq, Repr

def remoteControlMessageStartsConnection : JSONRPCMessage → Bool
  | .request method => method = "initialize"
  | _ => false

def ClientEnvelope.isInitialize (envelope : ClientEnvelope) : Bool :=
  match envelope.event with
  | .clientMessage message => remoteControlMessageStartsConnection message
  | _ => false

/-- What the tracker tells the app server. An incoming message carries the sequence id of its
envelope, which the app server does not see. -/
inductive TransportEvent where
  | connectionOpened (connectionId : ConnectionId)
  | incomingMessage (connectionId : ConnectionId) (message : JSONRPCMessage) (seqId : Option Nat)
  | connectionClosed (connectionId : ConnectionId)
  deriving DecidableEq, Repr

def TransportEvent.connectionId : TransportEvent → ConnectionId
  | connectionOpened connectionId | incomingMessage connectionId _ _
  | connectionClosed connectionId => connectionId

/-! ## The tracker -/

structure ClientState where
  connectionId : ConnectionId
  lastActivityAt : Nat
  lastInboundSeqId : Option Nat
  deriving DecidableEq, Repr

/-- The outbound task of a connection. It returns the key alone. -/
structure OutboundTask where
  key : ClientKey
  connectionId : ConnectionId
  deriving DecidableEq, Repr

/-- The tracker, with the events it sent and the number of events it tried to send. The counter of
connection ids is the process's, which other transports draw from too. -/
structure ClientTracker where
  clients : Keyed ClientKey ClientState
  legacyStreamIds : Keyed ClientId StreamId
  running : List OutboundTask
  ended : List OutboundTask
  connectionIdCounter : Nat
  sent : List TransportEvent
  attempts : Nat

def ClientTracker.new (connectionIdCounter : Nat) : ClientTracker where
  clients := ∅
  legacyStreamIds := ∅
  running := []
  ended := []
  connectionIdCounter
  sent := []
  attempts := 0

/-- The receiver of the tracker's events is gone. -/
inductive Stopped where
  | stopped

/-- `next_connection_id` on the counter. -/
def nextConnectionId (counter : Nat) : ConnectionId := counter % 2 ^ 64

/-- The 600 s without activity after which a connection is closed, in milliseconds. -/
def remoteControlClientIdleTimeout : Nat := 10 * 60 * 1000

def remoteControlClientIsAlive (client : ClientState) (now : Nat) : Bool :=
  now - client.lastActivityAt < remoteControlClientIdleTimeout

section
/- Which attempts to send an event find the receiver. -/
variable (accepts : Nat → Bool)

def sendTransportEvent (event : TransportEvent) : Prog ClientTracker Stopped Unit := do
  let t ← get
  if accepts t.attempts then
    set { t with attempts := t.attempts + 1, sent := t.sent ++ [event] }
  else
    set { t with attempts := t.attempts + 1 }
    raise .stopped

def closeClient (clientKey : ClientKey) : Prog ClientTracker Stopped Unit := do
  let t ← get
  match t.clients.lookup clientKey with
  | none => pure ()
  | some client =>
    set { t with
      clients := t.clients.erase clientKey
      legacyStreamIds :=
        if t.legacyStreamIds.lookup clientKey.1 = some clientKey.2 then
          t.legacyStreamIds.erase clientKey.1
        else t.legacyStreamIds }
    sendTransportEvent accepts (.connectionClosed client.connectionId)

/-- The stream of an envelope. A client that does not name its stream has one that it initialized
without a name, if any; `newRandom` is the name of a new one. -/
def resolveStreamId (newRandom : StreamId) (envelope : ClientEnvelope) :
    Prog ClientTracker Stopped StreamId := do
  match envelope.streamId with
  | some streamId => pure streamId
  | none =>
    let t ← get
    let legacy := t.legacyStreamIds.lookup envelope.clientId
    if envelope.isInitialize then
      set { t with legacyStreamIds := t.legacyStreamIds.erase envelope.clientId }
      pure (legacy.getD newRandom)
    else pure (legacy.getD (if envelope.event = .ping then newRandom else ""))

/-- A connection for a client that initializes, which then receives the message. -/
def openConnection (now : Nat) (isLegacyStreamId : Bool) (clientKey : ClientKey)
    (seqId : Option Nat) (message : JSONRPCMessage) : Prog ClientTracker Stopped Unit := do
  let t ← get
  let connectionId := nextConnectionId t.connectionIdCounter
  set { t with connectionIdCounter := t.connectionIdCounter + 1 }
  sendTransportEvent accepts (.connectionOpened connectionId)
  modify fun t => { t with
    running := t.running ++ [⟨clientKey, connectionId⟩]
    clients := t.clients.insert clientKey
      ⟨connectionId, now, if isLegacyStreamId then none else seqId⟩
    legacyStreamIds :=
      if isLegacyStreamId then t.legacyStreamIds.insert clientKey.1 clientKey.2
      else t.legacyStreamIds }
  sendTransportEvent accepts (.incomingMessage connectionId message seqId)

/-- The client has seen a message with this sequence id or a later one. -/
def alreadySeen (t : ClientTracker) (clientKey : ClientKey) (seqId : Option Nat) : Bool :=
  match seqId, t.clients.lookup clientKey with
  | some seqId, some client => client.lastInboundSeqId.any (seqId ≤ ·)
  | _, _ => false

def handleClientMessage (now : Nat) (isLegacyStreamId : Bool) (clientKey : ClientKey)
    (seqId : Option Nat) (message : JSONRPCMessage) : Prog ClientTracker Stopped Unit := do
  let isInitialize := remoteControlMessageStartsConnection message
  let t ← get
  if alreadySeen t clientKey seqId && !isInitialize then return
  if isInitialize && (t.clients.lookup clientKey).isSome then closeClient accepts clientKey
  let t ← get
  match t.clients.lookup clientKey with
  | some client =>
    set { t with clients := t.clients.insert clientKey { client with
      lastActivityAt := now
      lastInboundSeqId := seqId <|> client.lastInboundSeqId } }
    sendTransportEvent accepts (.incomingMessage client.connectionId message seqId)
  | none =>
    if isInitialize then openConnection accepts now isLegacyStreamId clientKey seqId message

def handleMessage (newRandom : StreamId) (now : Nat) (envelope : ClientEnvelope) :
    Prog ClientTracker Stopped Unit := do
  let streamId ← resolveStreamId newRandom envelope
  if streamId = "" then return
  let clientKey := (envelope.clientId, streamId)
  match envelope.event with
  | .clientMessage message =>
    handleClientMessage accepts now envelope.streamId.isNone clientKey envelope.seqId message
  | .ack => pure ()
  | .ping => modify fun t => { t with
      clients := updateKey clientKey (fun client => { client with lastActivityAt := now })
        t.clients }
  | .clientClosed => closeClient accepts clientKey

/-- `close_client` for each of some keys, until one fails. -/
def closeClients : List ClientKey → Prog ClientTracker Stopped Unit
  | [] => pure ()
  | clientKey :: rest => do
    closeClient accepts clientKey
    closeClients rest

/-- `close_client` for each of some keys, whether it fails or not. -/
def closeAllClients : List ClientKey → Prog ClientTracker Stopped Unit
  | [] => pure ()
  | clientKey :: rest => do
    let _ ← attempt (ε := Stopped) (closeClient accepts clientKey)
    closeAllClients rest

/-- The keys of the connections that are idle for too long. -/
def expiredClients (t : ClientTracker) (now : Nat) : List ClientKey :=
  (t.clients.entries.filter fun entry => !remoteControlClientIsAlive entry.2 now).map (·.1)

def shutdown (order : List ClientKey) : Prog ClientTracker Stopped Unit := do
  closeAllClients accepts order
  modify fun t => { t with running := [], ended := [] }

end

end Mcodex.RemoteControl
