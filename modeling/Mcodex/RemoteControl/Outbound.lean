import Mcodex.RemoteControl.ClientTracker

/-!
# Remote-control outbound delivery

The server numbers the envelopes of each client's stream and keeps them until they are acknowledged.
A websocket connection has a writer, which first sends what is buffered and then what the queue
holds, and a reader, which takes the acknowledgements. The buffer, the counters and the queue outlive
a connection; a new one is made when both tasks of the one before have ended.
-/

namespace Mcodex.RemoteControl

open Table Transition

universe u

variable {ε : Type u}

structure ServerEnvelope (ε : Type u) where
  event : ε
  clientId : ClientId
  streamId : StreamId
  seqId : Nat
  deriving DecidableEq, Repr

def ServerEnvelope.key (envelope : ServerEnvelope ε) : ClientKey :=
  (envelope.clientId, envelope.streamId)

structure QueuedServerEnvelope (ε : Type u) where
  event : ε
  clientId : ClientId
  streamId : StreamId
  deriving DecidableEq, Repr

def channelCapacity : Nat := 128

/-- The largest sequence id, where numbering saturates. -/
def maxSeqId : Nat := 2 ^ 64 - 1

/-! ## The buffer -/

structure BoundedOutboundBuffer (ε : Type u) where
  bufferByStream : Keyed ClientKey (List (ServerEnvelope ε))
  used : Nat

namespace BoundedOutboundBuffer

def new : BoundedOutboundBuffer ε := ⟨∅, 0⟩

/-- What is buffered for a stream, oldest first. -/
def buffer (b : BoundedOutboundBuffer ε) (key : ClientKey) : List (ServerEnvelope ε) :=
  (b.bufferByStream.lookup key).getD []

def insert (b : BoundedOutboundBuffer ε) (envelope : ServerEnvelope ε) :
    BoundedOutboundBuffer ε where
  bufferByStream := b.bufferByStream.insert envelope.key (b.buffer envelope.key ++ [envelope])
  used := b.used + 1

/-- Drops the envelopes up to an acknowledged sequence id from the front. -/
def popAcked (ackedSeqId : Nat) : List (ServerEnvelope ε) → Nat → List (ServerEnvelope ε) × Nat
  | [], used => ([], used)
  | envelope :: rest, used =>
    if envelope.seqId ≤ ackedSeqId then popAcked ackedSeqId rest (used - 1)
    else (envelope :: rest, used)

def ack (b : BoundedOutboundBuffer ε) (key : ClientKey) (ackedSeqId : Nat) :
    BoundedOutboundBuffer ε :=
  match b.bufferByStream.lookup key with
  | none => b
  | some buffer =>
    let rest := popAcked ackedSeqId buffer b.used
    { bufferByStream :=
        if rest.1.isEmpty then b.bufferByStream.erase key else b.bufferByStream.insert key rest.1
      used := rest.2 }

/-- The buffered envelopes, when the streams are visited in an order. -/
def serverEnvelopes (b : BoundedOutboundBuffer ε) (order : List ClientKey) :
    List (ServerEnvelope ε) :=
  order.flatMap b.buffer

/-- How many envelopes are buffered. -/
def size (b : BoundedOutboundBuffer ε) : Nat :=
  (b.bufferByStream.entries.map fun entry => entry.2.length).sum

end BoundedOutboundBuffer

/-! ## Connections -/

structure WebsocketState (ε : Type u) where
  outboundBuffer : BoundedOutboundBuffer ε
  nextSeqIdByStream : Keyed ClientKey Nat

def WebsocketState.nextSeqId (state : WebsocketState ε) (key : ClientKey) : Nat :=
  (state.nextSeqIdByStream.lookup key).getD 1

/-- Numbers a queued envelope and buffers it. -/
def WebsocketState.assign (state : WebsocketState ε) (queued : QueuedServerEnvelope ε) :
    ServerEnvelope ε × WebsocketState ε :=
  let seqKey := (queued.clientId, queued.streamId)
  let seqId := state.nextSeqId seqKey
  let envelope := ⟨queued.event, queued.clientId, queued.streamId, seqId⟩
  (envelope, {
    nextSeqIdByStream := state.nextSeqIdByStream.insert seqKey (min (seqId + 1) maxSeqId)
    outboundBuffer := state.outboundBuffer.insert envelope })

/-- What the reader does with an envelope of a client. -/
def WebsocketState.receive (state : WebsocketState ε) (envelope : ClientEnvelope) :
    WebsocketState ε :=
  match envelope.event, envelope.seqId, envelope.streamId with
  | .ack, some ackedSeqId, some streamId => { state with
      outboundBuffer := state.outboundBuffer.ack (envelope.clientId, streamId) ackedSeqId }
  | _, _, _ => state

/-- Where the writer of the connection stands, if there is a connection. -/
inductive Writer (ε : Type u) where
  | disconnected
  | replaying (rest : List (ServerEnvelope ε))
  | serving
  | received (queued : QueuedServerEnvelope ε)
  | sending (envelope : ServerEnvelope ε)

/-- What the writer has taken from the buffer, or put there, and not sent yet. -/
def Writer.unsent : Writer ε → List (ServerEnvelope ε)
  | .replaying rest => rest
  | .sending envelope => [envelope]
  | _ => []

/-- The server's side, with its history: the envelopes numbered, the acknowledgements received, what
was buffered when the last connection began and what it sent. -/
structure Outbound (ε : Type u) where
  state : WebsocketState ε
  queue : List (QueuedServerEnvelope ε)
  writer : Writer ε
  assigned : List (ServerEnvelope ε)
  acks : List (ClientKey × Nat)
  replayed : List (ServerEnvelope ε)
  sent : List (ServerEnvelope ε)

def Outbound.new : Outbound ε where
  state := ⟨.new, ∅⟩
  queue := []
  writer := .disconnected
  assigned := []
  acks := []
  replayed := []
  sent := []

/-- The acknowledgement that an envelope of a client is. -/
def ackOf (envelope : ClientEnvelope) : List (ClientKey × Nat) :=
  match envelope.event, envelope.seqId, envelope.streamId with
  | .ack, some ackedSeqId, some streamId => [((envelope.clientId, streamId), ackedSeqId)]
  | _, _, _ => []

inductive OutboundEvent (ε : Type u) where
  | enqueue (queued : QueuedServerEnvelope ε)
  | receive (envelope : ClientEnvelope)
  | connect (order : List ClientKey)
  | replayNext
  | replayDone
  | take
  | assign
  | send
  | disconnect

/-- The writer and the reader of one connection after the other. An acknowledgement is received at
any time, and a connection ends at any time. -/
inductive Delivers : Outbound ε → OutboundEvent ε → Outbound ε → Prop
  | enqueue {t queued} : Delivers t (.enqueue queued) { t with queue := t.queue ++ [queued] }
  | receive {t envelope} : Delivers t (.receive envelope) { t with
      state := t.state.receive envelope, acks := t.acks ++ ackOf envelope }
  | connect {t order} : t.writer = .disconnected →
    order.Perm t.state.outboundBuffer.bufferByStream.keys →
    Delivers t (.connect order) { t with
      writer := .replaying (t.state.outboundBuffer.serverEnvelopes order)
      replayed := t.state.outboundBuffer.serverEnvelopes order
      sent := [] }
  | replayNext {t envelope rest} : t.writer = .replaying (envelope :: rest) →
    Delivers t .replayNext { t with writer := .replaying rest, sent := t.sent ++ [envelope] }
  | replayDone {t} : t.writer = .replaying [] → Delivers t .replayDone { t with writer := .serving }
  | take {t queued queue} : t.writer = .serving → t.state.outboundBuffer.used < channelCapacity →
    t.queue = queued :: queue →
    Delivers t .take { t with writer := .received queued, queue }
  | assign {t queued} : t.writer = .received queued →
    Delivers t .assign { t with
      writer := .sending (t.state.assign queued).1
      state := (t.state.assign queued).2
      assigned := t.assigned ++ [(t.state.assign queued).1] }
  | send {t envelope} : t.writer = .sending envelope →
    Delivers t .send { t with writer := .serving, sent := t.sent ++ [envelope] }
  | disconnect {t} : Delivers t .disconnect { t with writer := .disconnected }

def outbound : System (Outbound ε) (OutboundEvent ε) where
  init t := t = .new
  step := Delivers

/-- The envelopes of one stream. -/
def ofKey (key : ClientKey) (envelopes : List (ServerEnvelope ε)) : List (ServerEnvelope ε) :=
  envelopes.filter (·.key = key)

/-- An acknowledgement that covers the envelope has been received. -/
def Outbound.Acked (t : Outbound ε) (envelope : ServerEnvelope ε) : Prop :=
  ∃ ack ∈ t.acks, ack.1 = envelope.key ∧ envelope.seqId ≤ ack.2

end Mcodex.RemoteControl
