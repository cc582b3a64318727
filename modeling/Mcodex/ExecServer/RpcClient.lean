import Mathlib.Logic.Function.Basic
import Mcodex.Lib.Script

/-!
# The RPC client of the exec server

A call registers its request before it sends it, and waits for its answer. The reader takes what
the transport received in order, answers the pending requests, and at the end of the connection
drains those that are left. Registering a request, removing one, answering one and draining them
each hold the lock of the pending requests; between them other calls, the reader and the tasks of
the transport go on.

A call returns what the server answered to its own request (`answers_of_reach`). As long as the
reader stops on the end of the connection only, no call waits for an answer that does not come
(`answered_of_ended`); where it stops on anything else, a request that is registered after that is
never answered (`waits_of_ended`).
-/

namespace Mcodex.ExecServer

open Transition

inductive RequestId
  | string (value : String)
  | integer (value : Int)
  deriving DecidableEq

inductive RpcCallError (ServerError : Type)
  | closed
  | json
  | server (error : ServerError)

structure JSONRPCNotification (Value : Type) where
  method : String
  params : Option Value

inductive JSONRPCMessage (Value ServerError : Type)
  | request (id : RequestId) (method : String) (params : Option Value)
  | notification (notification : JSONRPCNotification Value)
  | response (id : RequestId) (result : Value)
  | error (id : RequestId) (error : ServerError)

inductive JsonRpcConnectionEvent (Value ServerError : Type)
  | message (message : JSONRPCMessage Value ServerError)
  | malformedMessage (reason : String)
  | disconnected (reason : Option String)

inductive RpcClientEvent (Value : Type)
  | notification (notification : JSONRPCNotification Value)
  | disconnected (reason : Option String)

namespace JsonRpcConnectionEvent

variable {Value ServerError : Type}

/-- What the reader passes on. -/
def forwarded : JsonRpcConnectionEvent Value ServerError → Option (RpcClientEvent Value)
  | message (.notification notification) => some (.notification notification)
  | _ => none

/-- The reader stops on the event, though the connection is not over. -/
def unexpected : JsonRpcConnectionEvent Value ServerError → Bool
  | message (.request ..) | malformedMessage _ => true
  | _ => false

end JsonRpcConnectionEvent

/-- One of the two tasks of the transport, which read and write. -/
inductive TransportTask
  | runs
  | announces (reason : Option String)
  | ended

/-- Where the reader of the client is. -/
inductive ReaderTask
  | reads
  | stops (reason : Option String)
  | drains
  | closes (ids : List Int)
  | ended

namespace ReaderTask

/-- The drained requests that have yet to be told. -/
def closing : ReaderTask → List Int
  | closes ids => ids
  | _ => []

def drained : ReaderTask → Bool
  | closes _ | ended => true
  | _ => false

/-- The reader has told that the connection is over. -/
def announced : ReaderTask → Bool
  | reads | stops _ => false
  | _ => true

end ReaderTask

/-- Where a call is. Request ids are given out in order. -/
inductive RpcCall (Value ServerError : Type)
  | idle
  | registers (id : Int)
  | encodes (id : Int)
  | sends (id : Int)
  | unregisters (id : Int) (error : RpcCallError ServerError)
  | waits (id : Int)
  | returned (id : Int) (result : Except (RpcCallError ServerError) Value)
  | dropped (id : Option Int)

/-- `answers` has what was sent to each call, and `received` what the reader has taken. -/
structure RpcClient (Value ServerError : Type) where
  nextRequestId : Int
  pending : List Int
  answers : Int → Option (Except (RpcCallError ServerError) Value)
  calls : Nat → RpcCall Value ServerError
  disconnected : Bool
  incoming : List (JsonRpcConnectionEvent Value ServerError)
  readerTask : TransportTask
  writerTask : TransportTask
  reader : ReaderTask
  events : List (RpcClientEvent Value)
  received : List (JsonRpcConnectionEvent Value ServerError)

namespace RpcCall

variable {Value ServerError : Type}

/-- The request of the call. -/
def id? : RpcCall Value ServerError → Option Int
  | idle => none
  | registers id | encodes id | sends id | unregisters id _ | waits id | returned id _ => some id
  | dropped id => id

/-- The call counts on an answer. -/
def expects : RpcCall Value ServerError → Option Int
  | encodes id | sends id | waits id => some id
  | _ => none

/-- The result that the call has in hand. -/
def holds : RpcCall Value ServerError →
    Option (Int × Except (RpcCallError ServerError) Value)
  | unregisters id error => some (id, .error error)
  | returned id result => some (id, result)
  | _ => none

end RpcCall

inductive CallAction
  | begin
  | register
  | encode (succeeds : Bool)
  | send
  | unregister
  | finish (decodes : Bool)
  | drop

inductive RpcAction (Value ServerError : Type)
  | call (i : Nat) (action : CallAction)
  | receive
  | stop
  | drain
  | close
  | deliver (message : JSONRPCMessage Value ServerError)
  | deliverMalformed (reason : String)
  | disconnectReader (reason : Option String)
  | announceReader
  | disconnectWriter (reason : Option String)
  | announceWriter

namespace RpcClient

variable {Value ServerError : Type}

/-- `RpcClient::new`. -/
def new : RpcClient Value ServerError where
  nextRequestId := 1
  pending := []
  answers _ := none
  calls _ := .idle
  disconnected := false
  incoming := []
  readerTask := .runs
  writerTask := .runs
  reader := .reads
  events := []
  received := []

variable (client : RpcClient Value ServerError)

def setCall (i : Nat) (call : RpcCall Value ServerError) : RpcClient Value ServerError :=
  { client with calls := Function.update client.calls i call }

def remove (id : Int) : RpcClient Value ServerError :=
  { client with pending := client.pending.filter (· ≠ id) }

/-- The pending request, if there is one, is removed, and its call gets the answer. -/
def answer (id : RequestId) (result : Except (RpcCallError ServerError) Value) :
    RpcClient Value ServerError :=
  match id with
  | .integer id =>
    if id ∈ client.pending then
      { client.remove id with answers := Function.update client.answers id (some result) }
    else client
  | .string _ => client

/-- Whether the reader goes on, too. -/
def handleServerMessage :
    JSONRPCMessage Value ServerError → RpcClient Value ServerError × Bool
  | .response id result => (client.answer id (.ok result), true)
  | .error id error => (client.answer id (.error (.server error)), true)
  | .notification notification =>
    ({ client with events := client.events ++ [.notification notification] }, true)
  | .request .. => (client, false)

/-- One step of a call. -/
def callStep (i : Nat) (action : CallAction) : Option (RpcClient Value ServerError) :=
  match action, client.calls i with
  | .begin, .idle =>
    some ({ client with nextRequestId := client.nextRequestId + 1 }.setCall i
      (.registers client.nextRequestId))
  | .register, .registers id =>
    if client.disconnected then some (client.setCall i (.returned id (.error .closed)))
    else some ({ client with pending := id :: client.pending }.setCall i (.encodes id))
  | .encode true, .encodes id => some (client.setCall i (.sends id))
  | .encode false, .encodes id => some (client.setCall i (.unregisters id .json))
  | .send, .sends id =>
    match client.writerTask with
    | .ended => some (client.setCall i (.unregisters id .closed))
    | .runs | .announces _ => some (client.setCall i (.waits id))
  | .unregister, .unregisters id error =>
    some ((client.remove id).setCall i (.returned id (.error error)))
  | .finish decodes, .waits id =>
    match client.answers id with
    | some (.ok value) =>
      some (client.setCall i (.returned id (if decodes then .ok value else .error .json)))
    | some (.error error) => some (client.setCall i (.returned id (.error error)))
    | none => none
  | .drop, .returned .. | .drop, .dropped _ => none
  | .drop, call => some (client.setCall i (.dropped call.id?))
  | _, _ => none

def take (event : JsonRpcConnectionEvent Value ServerError)
    (incoming : List (JsonRpcConnectionEvent Value ServerError)) :
    RpcClient Value ServerError :=
  { client with incoming, received := client.received ++ [event] }

/-- The reader takes the next event. -/
def receive : Option (RpcClient Value ServerError) :=
  match client.reader, client.incoming with
  | .reads, event :: incoming =>
    let client := client.take event incoming
    match event with
    | .message message =>
      match client.handleServerMessage message with
      | (client, true) => some client
      | (client, false) => some { client with reader := .stops none }
    | .malformedMessage _ => some { client with reader := .stops none }
    | .disconnected reason => some { client with reader := .stops reason }
  | .reads, [] =>
    -- The channel is closed when both tasks of the transport have ended.
    match client.readerTask, client.writerTask with
    | .ended, .ended => some { client with reader := .stops none }
    | _, _ => none
  | _, _ => none

/-- The receiver of the transport's events goes with the reader. -/
def push (event : JsonRpcConnectionEvent Value ServerError) : RpcClient Value ServerError :=
  match client.reader with
  | .ended => client
  | _ => { client with incoming := client.incoming ++ [event] }

def next : RpcAction Value ServerError → Option (RpcClient Value ServerError)
  | .call i action => client.callStep i action
  | .receive => client.receive
  | .stop =>
    match client.reader with
    | .stops reason =>
      some { client with reader := .drains, events := client.events ++ [.disconnected reason] }
    | _ => none
  | .drain =>
    match client.reader with
    | .drains => some { client with reader := .closes client.pending, pending := [] }
    | _ => none
  | .close =>
    match client.reader with
    | .closes (id :: ids) =>
      some { client with
        reader := .closes ids
        answers := Function.update client.answers id (some (.error .closed)) }
    | .closes [] => some { client with reader := .ended }
    | _ => none
  | .deliver message =>
    match client.readerTask, client.reader with
    | .runs, .ended => some { client with readerTask := .ended }
    | .runs, _ => some (client.push (.message message))
    | _, _ => none
  | .deliverMalformed reason =>
    match client.readerTask with
    | .runs => some (client.push (.malformedMessage reason))
    | _ => none
  | .disconnectReader reason =>
    match client.readerTask with
    | .runs => some { client with disconnected := true, readerTask := .announces reason }
    | _ => none
  | .announceReader =>
    match client.readerTask with
    | .announces reason => some { client.push (.disconnected reason) with readerTask := .ended }
    | _ => none
  | .disconnectWriter reason =>
    match client.writerTask with
    | .runs => some { client with disconnected := true, writerTask := .announces reason }
    | _ => none
  | .announceWriter =>
    match client.writerTask with
    | .announces reason => some { client.push (.disconnected reason) with writerTask := .ended }
    | _ => none

/-- The reader stops on an event that is not the end of the connection, which is open. -/
def stopsEarly (action : RpcAction Value ServerError) : Bool :=
  match action, client.incoming with
  | .receive, event :: _ => event.unexpected && !client.disconnected
  | _, _ => false

end RpcClient

/-- Any number of calls, the reader and the transport, each at its own pace. -/
def rpcClient (Value ServerError : Type) :
    System (RpcClient Value ServerError) (RpcAction Value ServerError) where
  init client := client = .new
  step client action client' := client.next action = some client'

/-! ## The requests of a client -/

/-- The result comes from the server, or is an error of the client's own. -/
inductive Given {Value ServerError : Type}
    (received : List (JsonRpcConnectionEvent Value ServerError)) (id : Int) :
    Except (RpcCallError ServerError) Value → Prop
  | response {result : Value}
      (h : .message (.response (.integer id) result) ∈ received) : Given received id (.ok result)
  | server {error : ServerError}
      (h : .message (.error (.integer id) error) ∈ received) :
      Given received id (.error (.server error))
  | closed : Given received id (.error .closed)
  | json : Given received id (.error .json)

theorem Given.mono {Value ServerError : Type} {id : Int}
    {received received' : List (JsonRpcConnectionEvent Value ServerError)}
    {result : Except (RpcCallError ServerError) Value} (h : Given received id result)
    (hreceived : received ⊆ received') : Given received' id result := by
  cases h with
  | response h => exact .response (hreceived h)
  | server h => exact .server (hreceived h)
  | closed => exact .closed
  | json => exact .json

/-- What a client knows of its requests. -/
structure Requests (Value ServerError : Type) where
  nextRequestId : Int
  pending : List Int
  closing : List Int
  answers : Int → Option (Except (RpcCallError ServerError) Value)
  calls : Nat → RpcCall Value ServerError

def RpcClient.requests {Value ServerError : Type} (client : RpcClient Value ServerError) :
    Requests Value ServerError :=
  { client with closing := client.reader.closing }

namespace Requests

variable {Value ServerError : Type}

/-- What a step does to the requests, when `received` has been taken by then. -/
inductive Step (received : List (JsonRpcConnectionEvent Value ServerError)) :
    Requests Value ServerError → Requests Value ServerError → Prop
  | same {r} : Step received r r
  | move {r i call} (hid : call.id? = (r.calls i).id?)
      (hexpects : ∀ id, call.expects = some id → (r.calls i).expects = some id)
      (hregisters : ∀ id, call ≠ .registers id)
      (hholds : ∀ id result, call.holds = some (id, result) → Given received id result ∨
        r.answers id = some result ∨ (r.calls i).holds = some (id, result)) :
      Step received r { r with calls := Function.update r.calls i call }
  | begin {r i} (hold : r.calls i = .idle) :
      Step received r { r with
        nextRequestId := r.nextRequestId + 1
        calls := Function.update r.calls i (.registers r.nextRequestId) }
  | register {r i id} (hold : r.calls i = .registers id) :
      Step received r { r with
        pending := id :: r.pending
        calls := Function.update r.calls i (.encodes id) }
  | unregister {r i id error} (hold : r.calls i = .unregisters id error) :
      Step received r { r with
        pending := r.pending.filter (· ≠ id)
        calls := Function.update r.calls i (.returned id (.error error)) }
  | answer {r id result} (hmem : id ∈ r.pending) (hgiven : Given received id result) :
      Step received r { r with
        pending := r.pending.filter (· ≠ id)
        answers := Function.update r.answers id (some result) }
  | drain {r} (hclosing : r.closing = []) :
      Step received r { r with pending := [], closing := r.pending }
  | close {r id ids} (hclosing : r.closing = id :: ids) :
      Step received r { r with
        closing := ids
        answers := Function.update r.answers id (some (.error .closed)) }

/-- Each call has a request of its own. -/
structure Owned (r : Requests Value ServerError) : Prop where
  fresh : ∀ i id, (r.calls i).id? = some id → id < r.nextRequestId
  distinct : ∀ i j id, (r.calls i).id? = some id → (r.calls j).id? = some id → i = j

/-- A request that a call counts on is pending, about to be closed, or answered, and only one of
these. -/
structure Tracked (r : Requests Value ServerError) : Prop where
  unborn : ∀ id, r.nextRequestId ≤ id → id ∉ r.pending ∧ id ∉ r.closing ∧ r.answers id = none
  unregistered : ∀ i id, r.calls i = .registers id →
    id ∉ r.pending ∧ id ∉ r.closing ∧ r.answers id = none
  pending : ∀ id ∈ r.pending, r.answers id = none ∧ id ∉ r.closing
  closing : ∀ id ∈ r.closing, r.answers id = none
  nodup : r.pending.Nodup ∧ r.closing.Nodup
  expected : ∀ i id, (r.calls i).expects = some id →
    id ∈ r.pending ∨ id ∈ r.closing ∨ r.answers id ≠ none

/-- Answers, and the results that calls have in hand, were given. -/
structure Honest (received : List (JsonRpcConnectionEvent Value ServerError))
    (r : Requests Value ServerError) : Prop where
  answered : ∀ id result, r.answers id = some result → Given received id result
  holds : ∀ i id result, (r.calls i).holds = some (id, result) → Given received id result

section
variable {received received' : List (JsonRpcConnectionEvent Value ServerError)}
  {r r' : Requests Value ServerError} {i j : Nat} {id : Int} {call : RpcCall Value ServerError}

theorem id?_of_expects (h : call.expects = some id) : call.id? = some id := by
  cases call with
  | encodes | sends | waits => exact h
  | _ => cases h

theorem update_id? (hid : call.id? = (r.calls i).id?) :
    (Function.update r.calls i call j).id? = (r.calls j).id? := by
  by_cases hj : j = i
  · rw [hj, Function.update_self, hid]
  · rw [Function.update_of_ne hj]

theorem registers_id?_iff {id' : Int} :
    (Function.update r.calls i (.registers id') j).id? = some id ↔
      j = i ∧ id = id' ∨ j ≠ i ∧ (r.calls j).id? = some id := by
  by_cases hj : j = i
  · subst hj
    simp [RpcCall.id?, eq_comm]
  · simp [hj]

/-- A call moves on with its own request. -/
theorem Owned.update (hs : r.Owned) {r' : Requests Value ServerError}
    (hid : call.id? = (r.calls i).id?) (hcalls : r'.calls = Function.update r.calls i call)
    (hnext : r'.nextRequestId = r.nextRequestId) : r'.Owned where
  fresh j id hj := by
    rw [hcalls, update_id? hid] at hj
    exact hnext ▸ hs.fresh j id hj
  distinct j k id hj hk := by
    rw [hcalls, update_id? hid] at hj hk
    exact hs.distinct j k id hj hk

theorem Owned.step (hs : r.Owned) (h : Step received r r') : r'.Owned := by
  cases h with
  | same => exact hs
  | move hid => exact hs.update hid rfl rfl
  | register hold => exact hs.update (by rw [hold]; rfl) rfl rfl
  | unregister hold => exact hs.update (by rw [hold]; rfl) rfl rfl
  | answer | drain | close => exact ⟨hs.fresh, hs.distinct⟩
  | @begin i hold =>
    have hnew j : (r.calls j).id? ≠ some r.nextRequestId := fun hj =>
      Int.lt_irrefl _ (hs.fresh j _ hj)
    constructor
    · intro j id hj
      obtain ⟨-, rfl⟩ | ⟨-, hj⟩ := registers_id?_iff.1 hj
      · exact Int.lt_succ _
      · exact Int.lt_add_one_of_le (Int.le_of_lt (hs.fresh j id hj))
    · intro j k id hj hk
      obtain ⟨rfl, rfl⟩ | ⟨-, hj'⟩ := registers_id?_iff.1 hj
      · obtain ⟨rfl, -⟩ | ⟨-, hk⟩ := registers_id?_iff.1 hk
        · rfl
        · exact (hnew k hk).elim
      · obtain ⟨rfl, rfl⟩ | ⟨-, hk⟩ := registers_id?_iff.1 hk
        · exact (hnew j hj').elim
        · exact hs.distinct j k id hj' hk

theorem Honest.step (hs : r.Honest received) (hreceived : received ⊆ received')
    (h : Step received' r r') : r'.Honest received' := by
  have hanswered id result (h : r.answers id = some result) :=
    (hs.answered id result h).mono hreceived
  have hholds i id result (h : (r.calls i).holds = some (id, result)) :=
    (hs.holds i id result h).mono hreceived
  -- Only the call that moves can have another result in hand.
  have hupdate {i} {call : RpcCall Value ServerError}
      (hcall : ∀ id result, call.holds = some (id, result) → Given received' id result) j id result
      (hj : (Function.update r.calls i call j).holds = some (id, result)) :
      Given received' id result := by
    by_cases hji : j = i
    · subst hji
      rw [Function.update_self] at hj
      exact hcall id result hj
    · rw [Function.update_of_ne hji] at hj
      exact hholds j id result hj
  have hanswer {id : Int} {result} (hgiven : Given received' id result) id' result'
      (h : Function.update r.answers id (some result) id' = some result') :
      Given received' id' result' := by
    by_cases hid : id' = id
    · subst hid
      rw [Function.update_self] at h
      cases h
      exact hgiven
    · rw [Function.update_of_ne hid] at h
      exact hanswered id' result' h
  cases h with
  | same | drain => exact ⟨hanswered, hholds⟩
  | move _ _ _ hcall =>
    refine ⟨hanswered, hupdate fun id result h => ?_⟩
    obtain hgiven | hgiven | hold := hcall id result h
    · exact hgiven
    · exact hanswered id result hgiven
    · exact hholds _ id result hold
  | begin | register => exact ⟨hanswered, hupdate fun _ _ h => by cases h⟩
  | @unregister i _ _ hold =>
    refine ⟨hanswered, hupdate fun id result h => hholds i id result ?_⟩
    rw [hold]
    exact h
  | answer _ hgiven => exact ⟨hanswer hgiven, hholds⟩
  | close => exact ⟨hanswer .closed, hholds⟩

theorem Tracked.step (hs : r.Tracked) (howned : r.Owned) (h : Step received r r') :
    r'.Tracked := by
  obtain ⟨unborn, unregistered, pending, closing, nodup, expected⟩ := hs
  obtain ⟨fresh, distinct⟩ := howned
  cases h with
  | same => exact ⟨unborn, unregistered, pending, closing, nodup, expected⟩
  | move hid hexpects hregisters =>
    constructor <;> grind [Function.update_apply]
  | begin hold =>
    constructor <;> grind [Function.update_apply, RpcCall.id?, RpcCall.expects, id?_of_expects]
  | register hold =>
    constructor <;> grind [Function.update_apply, RpcCall.id?, RpcCall.expects, id?_of_expects]
  | unregister hold =>
    constructor <;> grind [Function.update_apply, RpcCall.id?, RpcCall.expects, id?_of_expects]
  | answer hmem =>
    constructor <;> grind [Function.update_apply, RpcCall.id?, id?_of_expects]
  | drain hclosing =>
    constructor <;> grind 
  | close hclosing =>
    constructor <;> grind [Function.update_apply, RpcCall.id?, id?_of_expects]

end

end Requests

namespace RpcClient

variable {Value ServerError : Type} {client client' : RpcClient Value ServerError} {i : Nat}

/-! ## What a step can do -/

@[simp] theorem requests_calls : client.requests.calls = client.calls := rfl

theorem answer_step {id : RequestId} {result : Except (RpcCallError ServerError) Value}
    {received : List (JsonRpcConnectionEvent Value ServerError)}
    (hgiven : ∀ n, id = .integer n → Given received n result) :
    Requests.Step received client.requests (client.answer id result).requests := by
  unfold answer
  cases id with
  | integer n =>
    by_cases hmem : n ∈ client.pending
    · simp only [if_pos hmem]
      exact .answer hmem (hgiven n rfl)
    · simp only [if_neg hmem]
      exact .same
  | string => exact .same

/-- A call touches its own state, the pending requests and the next id only. -/
theorem callStep_spec {action : CallAction} (h : client.callStep i action = some client') :
    Requests.Step client.received client.requests client'.requests ∧
      ∃ nextRequestId pending calls,
        client' = { client with nextRequestId, pending, calls } ∧
        (client.disconnected → pending ⊆ client.pending) := by
  have hsame : client.disconnected → client.pending ⊆ client.pending := fun _ =>
    List.Subset.refl _
  unfold callStep at h
  split at h
  all_goals rename_i hold
  case h_1 =>
    cases h
    exact ⟨.begin hold, _, _, _, rfl, hsame⟩
  case h_2 id =>
    split at h
    · next hdisconnected =>
      cases h
      refine ⟨.move (by rw [requests_calls, hold]; rfl) nofun nofun ?_, _, _, _, rfl, hsame⟩
      rintro _ _ ⟨⟩
      exact .inl .closed
    · next hdisconnected =>
      cases h
      exact ⟨.register hold, _, _, _, rfl, fun h => absurd h hdisconnected⟩
  case h_3 id =>
    cases h
    refine ⟨.move (by rw [requests_calls, hold]; rfl) ?_ nofun nofun, _, _, _, rfl, hsame⟩
    rintro _ ⟨⟩
    rw [requests_calls, hold]
    rfl
  case h_4 id =>
    cases h
    refine ⟨.move (by rw [requests_calls, hold]; rfl) nofun nofun ?_, _, _, _, rfl, hsame⟩
    rintro _ _ ⟨⟩
    exact .inl .json
  case h_5 id =>
    split at h
    · cases h
      refine ⟨.move (by rw [requests_calls, hold]; rfl) nofun nofun ?_, _, _, _, rfl, hsame⟩
      rintro _ _ ⟨⟩
      exact .inl .closed
    all_goals
      cases h
      refine ⟨.move (by rw [requests_calls, hold]; rfl) ?_ nofun nofun, _, _, _, rfl, hsame⟩
      rintro _ ⟨⟩
      rw [requests_calls, hold]
      rfl
  case h_6 id error =>
    cases h
    exact ⟨.unregister hold, _, _, _, rfl, fun _ => List.filter_sublist.subset⟩
  case h_7 decodes id =>
    split at h
    · next value hanswer =>
      cases h
      refine ⟨.move (by rw [requests_calls, hold]; rfl) nofun nofun ?_, _, _, _, rfl, hsame⟩
      rintro _ _ ⟨⟩
      split
      · exact .inr (.inl hanswer)
      · exact .inl .json
    · next error hanswer =>
      cases h
      refine ⟨.move (by rw [requests_calls, hold]; rfl) nofun nofun ?_, _, _, _, rfl, hsame⟩
      rintro _ _ ⟨⟩
      exact .inr (.inl hanswer)
    · cases h
  case h_10 =>
    cases h
    exact ⟨.move rfl nofun nofun nofun, _, _, _, rfl, hsame⟩
  all_goals cases h

theorem answer_eq (id : RequestId) (result : Except (RpcCallError ServerError) Value) :
    ∃ pending answers, client.answer id result = { client with pending, answers } := by
  unfold answer
  cases id with
  | integer n =>
    by_cases hmem : n ∈ client.pending
    · exact ⟨_, _, if_pos hmem⟩
    · exact ⟨client.pending, client.answers, if_neg hmem⟩
  | string => exact ⟨client.pending, client.answers, rfl⟩

/-- The reader has taken an event. -/
structure Took (client : RpcClient Value ServerError)
    (event : JsonRpcConnectionEvent Value ServerError)
    (incoming : List (JsonRpcConnectionEvent Value ServerError))
    (client' : RpcClient Value ServerError) : Prop where
  eq : ∃ pending answers reader, client' = { client.take event incoming with
    pending, answers, reader, events := client.events ++ event.forwarded.toList }
  step : Requests.Step client'.received client.requests client'.requests
  reader : client'.reader = .reads ∨
    ∃ reason, client'.reader = .stops reason ∧ (event.unexpected ∨ event = .disconnected reason)

section
variable {event : JsonRpcConnectionEvent Value ServerError}
  {incoming : List (JsonRpcConnectionEvent Value ServerError)}

theorem took_answer {id : RequestId} {result : Except (RpcCallError ServerError) Value}
    (hreader : client.reader = .reads) (hforwarded : event.forwarded = none)
    (hgiven : ∀ n, id = .integer n → Given (client.received ++ [event]) n result) :
    client.Took event incoming ((client.take event incoming).answer id result) := by
  obtain ⟨pending, answers, heq⟩ : ∃ pending answers,
      (client.take event incoming).answer id result =
        { client.take event incoming with pending, answers } := answer_eq id result
  have hreceived : ((client.take event incoming).answer id result).received =
      client.received ++ [event] := by rw [heq]; rfl
  refine ⟨⟨pending, answers, .reads, ?_⟩, ?_, .inl (by rw [heq]; exact hreader)⟩
  · rw [heq, hforwarded, Option.toList_none, List.append_nil, ← hreader]
    rfl
  · rw [hreceived]
    have hstep : Requests.Step (client.received ++ [event]) (client.take event incoming).requests
        ((client.take event incoming).answer id result).requests := answer_step hgiven
    exact hstep

theorem took_reader {reader : ReaderTask} (hreader : client.reader = .reads)
    (hreader' : reader = .reads ∨
      ∃ reason, reader = .stops reason ∧ (event.unexpected ∨ event = .disconnected reason)) :
    client.Took event incoming { client.take event incoming with
      reader, events := client.events ++ event.forwarded.toList } := by
  refine ⟨⟨client.pending, client.answers, reader, rfl⟩, ?_, hreader'⟩
  have hclosing : reader.closing = [] := by
    obtain rfl | ⟨_, rfl, _⟩ := hreader' <;> rfl
  simp only [requests, take, hreader, hclosing]
  exact .same

/-- The reader takes an event, or finds that the transport has ended. -/
theorem receive_spec (h : client.receive = some client') : client.reader = .reads ∧
    ((∃ event incoming, client.incoming = event :: incoming ∧
        client.Took event incoming client') ∨
      client.readerTask = .ended ∧ client' = { client with reader := .stops none }) := by
  unfold receive at h
  split at h
  · next event incoming hreader hincoming =>
    refine ⟨hreader, .inl ⟨event, incoming, hincoming, ?_⟩⟩
    -- An event that is not passed on leaves the list of those that are as it is.
    have hstops {event : JsonRpcConnectionEvent Value ServerError} {reason}
        (hforwarded : event.forwarded = none)
        (hreason : event.unexpected ∨ event = .disconnected reason) :
        client.Took event incoming { client.take event incoming with reader := .stops reason } := by
      have htook : client.Took event incoming { client.take event incoming with
          reader := .stops reason, events := client.events ++ event.forwarded.toList } :=
        took_reader hreader (.inr ⟨reason, rfl, hreason⟩)
      rwa [hforwarded, Option.toList_none, List.append_nil] at htook
    cases event with
    | message message =>
      cases message with
      | response =>
        cases h
        exact took_answer hreader rfl (by rintro n rfl; exact .response (by simp))
      | error =>
        cases h
        exact took_answer hreader rfl (by rintro n rfl; exact .server (by simp))
      | notification notification =>
        cases h
        have htook : client.Took (.message (.notification notification)) incoming _ :=
          took_reader hreader (.inl rfl)
        rwa [← hreader] at htook
      | request =>
        cases h
        exact hstops rfl (.inl rfl)
    | malformedMessage =>
      cases h
      exact hstops rfl (.inl rfl)
    | disconnected =>
      cases h
      exact hstops rfl (.inr rfl)
  · next hreader hincoming =>
    split at h
    · next hended _ =>
      cases h
      exact ⟨hreader, .inr ⟨hended, rfl⟩⟩
    · cases h
  · cases h

end

/-- What a step can do. -/
inductive Move (client : RpcClient Value ServerError) (action : RpcAction Value ServerError) :
    RpcClient Value ServerError → Prop
  | call {nextRequestId : Int} {pending : List Int}
      {calls : Nat → RpcCall Value ServerError} {i : Nat} {callAction : CallAction}
      (hcall : client.callStep i callAction = some { client with nextRequestId, pending, calls })
      (hstep : Requests.Step client.received client.requests
        { client with nextRequestId, pending, calls }.requests)
      (hpending : client.disconnected → pending ⊆ client.pending) :
      Move client action { client with nextRequestId, pending, calls }
  | take {event incoming client'} (haction : action = .receive)
      (hreader : client.reader = .reads) (hincoming : client.incoming = event :: incoming)
      (htook : client.Took event incoming client') :
      Move client action client'
  | finish (hreader : client.reader = .reads) (hended : client.readerTask = .ended) :
      Move client action { client with reader := .stops none }
  | stop {reason} (hreader : client.reader = .stops reason) :
      Move client action { client with
        reader := .drains, events := client.events ++ [.disconnected reason] }
  | drain (hreader : client.reader = .drains) :
      Move client action { client with reader := .closes client.pending, pending := [] }
  | close {id ids} (hreader : client.reader = .closes (id :: ids)) :
      Move client action { client with
        reader := .closes ids
        answers := Function.update client.answers id (some (.error .closed)) }
  | leave (hreader : client.reader = .closes []) :
      Move client action { client with reader := .ended }
  | transport {incoming readerTask writerTask} {disconnected : Bool}
      (hdisconnected : client.disconnected → disconnected)
      (hincoming : ∀ reason, .disconnected reason ∈ incoming →
        .disconnected reason ∈ client.incoming ∨
          client.readerTask ≠ .runs ∨ client.writerTask ≠ .runs)
      (hreaderTask : readerTask ≠ .runs →
        client.readerTask ≠ .runs ∨ disconnected ∨ client.reader = .ended)
      (hwriterTask : writerTask ≠ .runs → client.writerTask ≠ .runs ∨ disconnected) :
      Move client action { client with incoming, readerTask, writerTask, disconnected }

theorem push_spec (client : RpcClient Value ServerError)
    (event : JsonRpcConnectionEvent Value ServerError) :
    ∃ incoming, client.push event = { client with incoming } ∧
      ∀ event' ∈ incoming, event' ∈ client.incoming ∨ event' = event := by
  unfold push
  split
  · exact ⟨client.incoming, rfl, fun _ => .inl⟩
  · exact ⟨_, rfl, fun _ h => (List.mem_append.1 h).imp_right List.mem_singleton.1⟩

theorem move_push {event : JsonRpcConnectionEvent Value ServerError}
    {action : RpcAction Value ServerError} (hevent : ∀ reason, event ≠ .disconnected reason) :
    Move client action (client.push event) := by
  obtain ⟨incoming, heq, hincoming⟩ := client.push_spec event
  rw [heq]
  refine .transport id (fun reason hmem => ?_) .inl .inl
  exact .inl ((hincoming _ hmem).resolve_right fun h => hevent reason h.symm)

theorem move_of_next {action : RpcAction Value ServerError}
    (h : client.next action = some client') : Move client action client' := by
  cases action with
  | call i action =>
    obtain ⟨hstep, nextRequestId, pending, calls, rfl, hpending⟩ := callStep_spec h
    exact .call h hstep hpending
  | receive =>
    obtain ⟨hreader, ⟨event, incoming, hincoming, htook⟩ | ⟨hended, rfl⟩⟩ := receive_spec h
    · exact .take rfl hreader hincoming htook
    · exact .finish hreader hended
  | stop =>
    simp only [next] at h
    split at h
    · next hreader =>
      cases h
      exact .stop hreader
    · cases h
  | drain =>
    simp only [next] at h
    split at h
    · next hreader =>
      cases h
      exact .drain hreader
    · cases h
  | close =>
    simp only [next] at h
    split at h
    · next hreader =>
      cases h
      exact .close hreader
    · next hreader =>
      cases h
      exact .leave hreader
    · cases h
  | deliver message =>
    simp only [next] at h
    split at h
    · next hreader =>
      cases h
      exact .transport id (fun _ => .inl) (fun _ => .inr (.inr hreader)) .inl
    · cases h
      exact move_push nofun
    · cases h
  | deliverMalformed reason =>
    simp only [next] at h
    split at h
    · cases h
      exact move_push nofun
    · cases h
  | disconnectReader reason =>
    simp only [next] at h
    split at h
    · cases h
      exact .transport (fun _ => rfl) (fun _ => .inl) (fun _ => .inr (.inl rfl)) .inl
    · cases h
  | disconnectWriter reason =>
    simp only [next] at h
    split at h
    · cases h
      exact .transport (fun _ => rfl) (fun _ => .inl) .inl fun _ => .inr rfl
    · cases h
  | announceReader =>
    simp only [next] at h
    split at h
    · next reason htask =>
      cases h
      have hruns : client.readerTask ≠ .runs := by simp [htask]
      obtain ⟨incoming, heq, hincoming⟩ := client.push_spec (.disconnected reason)
      rw [heq]
      exact .transport id (fun _ h => (hincoming _ h).imp_right fun _ => .inl hruns)
        (fun _ => .inl hruns) .inl
    · cases h
  | announceWriter =>
    simp only [next] at h
    split at h
    · next reason htask =>
      cases h
      have hruns : client.writerTask ≠ .runs := by simp [htask]
      obtain ⟨incoming, heq, hincoming⟩ := client.push_spec (.disconnected reason)
      rw [heq]
      exact .transport id (fun _ h => (hincoming _ h).imp_right fun _ => .inr hruns) .inl
        fun _ => .inl hruns
    · cases h

theorem Move.step {action : RpcAction Value ServerError} (h : Move client action client') :
    Requests.Step client'.received client.requests client'.requests ∧
      client.received ⊆ client'.received := by
  cases h with
  | call _ hstep => exact ⟨hstep, List.Subset.refl _⟩
  | take _ hreader hincoming htook =>
    refine ⟨htook.step, ?_⟩
    obtain ⟨pending, answers, reader, rfl⟩ := htook.eq
    exact List.subset_append_left _ _
  | drain hreader => exact ⟨.drain (by rw [requests, hreader]; rfl), List.Subset.refl _⟩
  | close hreader => exact ⟨.close (by rw [requests, hreader]; rfl), List.Subset.refl _⟩
  | transport => exact ⟨.same, List.Subset.refl _⟩
  | finish hreader | stop hreader | leave hreader =>
    refine ⟨?_, List.Subset.refl _⟩
    simp only [requests, hreader]
    exact .same

/-! ## What a call returns -/

/-- Notifications are passed on in order, and at last that the connection is over. -/
def Forwards (client : RpcClient Value ServerError) : Prop :=
  ∃ last, client.events = client.received.filterMap (·.forwarded) ++ last ∧
    if client.reader.announced then ∃ reason, last = [.disconnected reason] else last = []

theorem Forwards.move {action : RpcAction Value ServerError} (hs : client.Forwards)
    (h : Move client action client') : client'.Forwards := by
  obtain ⟨last, hevents, hlast⟩ := hs
  cases h with
  | call | transport => exact ⟨last, hevents, hlast⟩
  | take _ hreader hincoming htook =>
    rw [hreader, if_neg (by decide)] at hlast
    have hreads : client'.reader.announced = false := by
      obtain hreads | ⟨reason, hstops, -⟩ := htook.reader
      · rw [hreads]
        rfl
      · rw [hstops]
        rfl
    obtain ⟨pending, answers, reader, rfl⟩ := htook.eq
    refine ⟨[], ?_, by rw [hreads]; rfl⟩
    simp only [take, hevents, hlast, List.filterMap_append, List.append_nil,
      List.append_cancel_left_eq]
    cases htook : JsonRpcConnectionEvent.forwarded _ <;> simp [htook]
  | finish hreader =>
    rw [hreader] at hlast
    exact ⟨last, hevents, hlast⟩
  | @stop reason hreader =>
    rw [hreader, if_neg (by simp [ReaderTask.announced])] at hlast
    refine ⟨[.disconnected reason], ?_, _, rfl⟩
    simp only [hevents, hlast, List.append_nil]
  | drain hreader | close hreader | leave hreader =>
    rw [hreader] at hlast
    exact ⟨last, hevents, hlast⟩

/-- A call has the result that the server gave to its own request, or an error of the client. -/
structure Sound (client : RpcClient Value ServerError) : Prop where
  owned : client.requests.Owned
  tracked : client.requests.Tracked
  honest : client.requests.Honest client.received
  forwards : client.Forwards

theorem Sound.new : (new : RpcClient Value ServerError).Sound where
  owned := ⟨nofun, nofun⟩
  tracked := ⟨fun _ _ => ⟨List.not_mem_nil, List.not_mem_nil, rfl⟩, nofun, nofun, nofun,
    ⟨.nil, .nil⟩, nofun⟩
  honest := ⟨nofun, nofun⟩
  forwards := ⟨[], rfl, rfl⟩

theorem Sound.move {action : RpcAction Value ServerError} (hs : client.Sound)
    (h : Move client action client') : client'.Sound where
  owned := hs.owned.step h.step.1
  tracked := hs.tracked.step hs.owned h.step.1
  honest := hs.honest.step h.step.2 h.step.1
  forwards := hs.forwards.move h

theorem sound (h : (rpcClient Value ServerError).Reach client) : client.Sound :=
  h.invariant (by rintro _ rfl; exact .new) fun _ _ _ hs hstep => hs.move (move_of_next hstep)

/-- What a call returns is what the server sent for its request, whose id no other call has, or
an error of the client's own. The notifications are passed on as they came, once each, and the end
of the connection after them. -/
theorem answers_of_reach (h : (rpcClient Value ServerError).Reach client) :
    (∀ id result, client.calls i = .returned id result →
      Given client.received id result ∧ ∀ j, (client.calls j).id? = some id → j = i) ∧
    ∃ last, client.events = client.received.filterMap (·.forwarded) ++ last ∧
      if client.reader.announced then ∃ reason, last = [.disconnected reason] else last = [] := by
  obtain ⟨owned, -, honest, forwards⟩ := sound h
  refine ⟨fun id result hreturned => ⟨?_, fun j hj => ?_⟩, forwards⟩
  · exact honest.holds i id result (by rw [requests_calls, hreturned]; rfl)
  · exact owned.distinct j i id hj (by rw [requests_calls, hreturned]; rfl)

/-- The reader stops on the end of the connection only. -/
abbrev orderly (Value ServerError : Type) :
    System (RpcClient Value ServerError) (RpcAction Value ServerError) :=
  (rpcClient Value ServerError).restrict fun client action => client.stopsEarly action = false

/-- Two calls, the second of which is answered first, and then the connection ends. -/
def conversation : List (RpcAction Nat String) :=
  [.call 0 .begin, .call 1 .begin, .call 1 .register, .call 0 .register, .call 0 (.encode true),
    .call 1 (.encode true), .call 0 .send, .call 1 .send, .deliver (.response (.integer 2) 20),
    .deliver (.notification ⟨"log", none⟩), .receive, .receive, .call 1 (.finish true),
    .disconnectReader none, .announceReader, .receive, .stop, .drain, .close, .close]

def conversed : Option (RpcClient Nat String) :=
  System.script (System.avoid stopsEarly next) new conversation

theorem conversed_isSome : conversed.isSome := rfl

theorem conversed_reach : (orderly Nat String).Reach (conversed.get conversed_isSome) :=
  System.Reach.script_avoid (.init rfl) (fun _ _ _ => id) (Option.some_get conversed_isSome).symm

theorem answers_of_reach_conversed : ∃ client, conversed = some client ∧
    client.calls 1 = .returned 2 (.ok 20) ∧ Given client.received 2 (.ok 20) := by
  exact ⟨_, (Option.some_get conversed_isSome).symm, rfl,
    ((answers_of_reach conversed_reach.of_restrict (i := 1)).1 2 (.ok 20) rfl).1⟩

/-! ## Calls that wait -/

/-- Where the reader has stopped, the connection is over, and what is drained stays so. -/
structure Orderly (client : RpcClient Value ServerError) : Prop where
  incoming : ∀ reason, .disconnected reason ∈ client.incoming → client.disconnected
  readerTask : client.readerTask ≠ .runs → client.disconnected
  writerTask : client.writerTask ≠ .runs → client.disconnected
  reader : client.reader ≠ .reads → client.disconnected
  drained : client.reader.drained → client.pending = []

theorem Orderly.new : (new : RpcClient Value ServerError).Orderly where
  incoming := nofun
  readerTask h := absurd rfl h
  writerTask h := absurd rfl h
  reader h := absurd rfl h
  drained := nofun

theorem Orderly.move {action : RpcAction Value ServerError} (hs : client.Orderly)
    (h : Move client action client') (hearly : client.stopsEarly action = false) :
    client'.Orderly := by
  obtain ⟨hincoming, hreaderTask, hwriterTask, hreader, hdrained⟩ := hs
  cases h with
  | call _ _ hpending =>
    refine ⟨hincoming, hreaderTask, hwriterTask, hreader, fun hdrained' => ?_⟩
    have hdisconnected := hreader (by rintro hreads; rw [hreads] at hdrained'; cases hdrained')
    exact List.subset_nil.1 (hdrained hdrained' ▸ hpending hdisconnected)
  | @take event incoming _ haction hreads hevent htook =>
    have hended : client'.reader ≠ .reads → client.disconnected := by
      intro hstops
      obtain hreads' | ⟨reason, -, hunexpected | rfl⟩ := htook.reader
      · exact absurd hreads' hstops
      · simpa [stopsEarly, haction, hevent, hunexpected] using hearly
      · exact hincoming reason (hevent ▸ List.mem_cons_self)
    have hnot : client'.reader.drained = false := by
      obtain hreads' | ⟨reason, hstops, -⟩ := htook.reader
      · rw [hreads']
        rfl
      · rw [hstops]
        rfl
    obtain ⟨pending, answers, reader, rfl⟩ := htook.eq
    refine ⟨fun reason hmem => hincoming reason (hevent ▸ List.mem_cons_of_mem _ hmem), hreaderTask,
      hwriterTask, hended, fun hdrained' => ?_⟩
    rw [hnot] at hdrained'
    cases hdrained'
  | finish hreads hended =>
    exact ⟨hincoming, hreaderTask, hwriterTask, fun _ => hreaderTask (by simp [hended]), nofun⟩
  | stop hstops =>
    exact ⟨hincoming, hreaderTask, hwriterTask, fun _ => hreader (by simp [hstops]), nofun⟩
  | drain hdrains =>
    exact ⟨hincoming, hreaderTask, hwriterTask, fun _ => hreader (by simp [hdrains]), fun _ => rfl⟩
  | close hcloses | leave hcloses =>
    exact ⟨hincoming, hreaderTask, hwriterTask, fun _ => hreader (by simp [hcloses]),
      fun _ => hdrained (by simp [hcloses, ReaderTask.drained])⟩
  | transport hdisconnected hincoming' hreaderTask' hwriterTask' =>
    refine ⟨fun reason hmem => ?_, fun h => ?_, fun h => ?_, fun h => hdisconnected (hreader h),
      hdrained⟩
    · obtain hmem | htask | htask := hincoming' reason hmem
      · exact hdisconnected (hincoming reason hmem)
      · exact hdisconnected (hreaderTask htask)
      · exact hdisconnected (hwriterTask htask)
    · obtain htask | hdisconnected' | hended := hreaderTask' h
      · exact hdisconnected (hreaderTask htask)
      · exact hdisconnected'
      · exact hdisconnected (hreader (by simp [hended]))
    · obtain htask | hdisconnected' := hwriterTask' h
      · exact hdisconnected (hwriterTask htask)
      · exact hdisconnected'

/-- As long as the reader stops on the end of the connection only, every call that waits when the
reader has ended has its answer, and so has every call that is about to wait. -/
theorem answered_of_ended (h : (orderly Value ServerError).Reach client)
    (hended : client.reader = .ended) :
    client.pending = [] ∧ ∀ i id, (client.calls i).expects = some id →
      ∃ result, client.answers id = some result ∧ Given client.received id result := by
  have horderly : client.Orderly := h.invariant (by rintro _ rfl; exact .new)
    fun _ _ _ hs hstep => hs.move (move_of_next hstep.2) hstep.1
  have hpending : client.pending = [] := horderly.drained (by rw [hended]; rfl)
  obtain ⟨-, tracked, honest, -⟩ := sound h.of_restrict
  refine ⟨hpending, fun i id hexpects => ?_⟩
  obtain hmem | hmem | hanswer := tracked.expected i id hexpects
  · rw [show client.requests.pending = [] from hpending] at hmem
    exact absurd hmem List.not_mem_nil
  · rw [requests, hended] at hmem
    exact absurd hmem List.not_mem_nil
  · obtain ⟨result, hresult⟩ := Option.ne_none_iff_exists'.1 hanswer
    exact ⟨result, hresult, honest.answered id result hresult⟩

theorem answered_of_ended_conversed : ∃ client, conversed = some client ∧
    client.calls 0 = .waits 1 ∧ ∃ result, client.answers 1 = some result := by
  obtain ⟨result, hresult, -⟩ := (answered_of_ended conversed_reach rfl).2 0 1 rfl
  exact ⟨_, (Option.some_get conversed_isSome).symm, rfl, result, hresult⟩

theorem calls_of_callStep {j : Nat} {action : CallAction} (hij : i ≠ j)
    (h : client.callStep j action = some client') : client'.calls i = client.calls i := by
  unfold callStep at h
  split at h
  case h_2 | h_5 | h_7 =>
    split at h
    all_goals cases h
    all_goals exact Function.update_of_ne hij ..
  all_goals cases h
  all_goals exact Function.update_of_ne hij ..

/-- A call that waits without an answer can be dropped, and nothing else. -/
theorem waits_of_callStep {action : CallAction} {id : Int} (hanswer : client.answers id = none)
    (hwaits : client.calls i = .waits id ∨ client.calls i = .dropped (some id))
    (h : client.callStep i action = some client') :
    client'.calls i = .waits id ∨ client'.calls i = .dropped (some id) := by
  obtain hwaits | hdropped := hwaits
  · cases action <;> simp only [callStep, hwaits, hanswer, reduceCtorEq, Option.some.injEq] at h
    subst h
    exact .inr (Function.update_self ..)
  · cases action <;> simp only [callStep, hdropped, reduceCtorEq] at h

theorem unanswered_of_next {action : RpcAction Value ServerError} {id : Int}
    (hended : client.reader = .ended) (hanswer : client.answers id = none)
    (hwaits : client.calls i = .waits id ∨ client.calls i = .dropped (some id))
    (h : client.next action = some client') :
    client'.reader = .ended ∧ client'.answers id = none ∧
      (client'.calls i = .waits id ∨ client'.calls i = .dropped (some id)) := by
  cases move_of_next h with
  | @call _ _ _ j _ hcall =>
    refine ⟨hended, hanswer, ?_⟩
    by_cases hij : i = j
    · subst hij
      exact waits_of_callStep hanswer hwaits hcall
    · have hcalls := calls_of_callStep hij hcall
      exact hwaits.imp hcalls.trans hcalls.trans
  | transport => exact ⟨hended, hanswer, hwaits⟩
  -- The other steps are of a reader that has not ended.
  | take _ hreader | finish hreader | stop hreader | drain hreader | close hreader
  | leave hreader => cases hended.symm.trans hreader

/-- Once the reader has ended, a call that waits without an answer never gets one. -/
theorem unanswered_of_run {id : Int} (hended : client.reader = .ended)
    (hwaits : client.calls i = .waits id) (hanswer : client.answers id = none)
    (h : (rpcClient Value ServerError).Run client client') :
    client'.answers id = none ∧
      (client'.calls i = .waits id ∨ client'.calls i = .dropped (some id)) := by
  refine And.right (h.invariant (I := fun client' => client'.reader = .ended ∧
    client'.answers id = none ∧
      (client'.calls i = .waits id ∨ client'.calls i = .dropped (some id)))
    ⟨hended, hanswer, .inl hwaits⟩ ?_)
  rintro client _ client' ⟨hended, hanswer, hwaits⟩ hstep
  exact unanswered_of_next hended hanswer hwaits hstep

/-- Once the reader has ended, a call that waits has its answer, or its request is pending and it
never gets one. -/
theorem waits_of_ended (h : (rpcClient Value ServerError).Reach client)
    (hended : client.reader = .ended) {id : Int} (hwaits : client.calls i = .waits id) :
    (id ∉ client.pending ∧ ∃ result, client.answers id = some result) ∨
    id ∈ client.pending ∧ ∀ client', (rpcClient Value ServerError).Run client client' →
      client'.answers id = none ∧
        (client'.calls i = .waits id ∨ client'.calls i = .dropped (some id)) := by
  obtain ⟨-, tracked, -, -⟩ := sound h
  by_cases hmem : id ∈ client.pending
  · have hanswer : client.answers id = none := (tracked.pending id hmem).1
    exact .inr ⟨hmem, fun _ => unanswered_of_run hended hwaits hanswer⟩
  · refine .inl ⟨hmem, Option.ne_none_iff_exists'.1 ?_⟩
    obtain hmem' | hmem' | hanswer :=
      tracked.expected i id (by rw [requests_calls, hwaits]; rfl)
    · exact absurd hmem' hmem
    · rw [requests, hended] at hmem'
      exact absurd hmem' List.not_mem_nil
    · exact hanswer

/-- The reader stops on a message that it cannot read, and then a call comes. -/
def malformed : List (RpcAction Nat String) :=
  [.deliverMalformed "expected value", .receive, .stop, .drain, .close, .call 0 .begin,
    .call 0 .register, .call 0 (.encode true), .call 0 .send]

def stuck : Option (RpcClient Nat String) := System.script next new malformed

theorem stuck_isSome : stuck.isSome := rfl

theorem waits_of_ended_stuck : ∃ client, stuck = some client ∧ client.calls 0 = .waits 1 ∧
    ∀ client', (rpcClient Nat String).Run client client' → client'.answers 1 = none := by
  have hreach : (rpcClient Nat String).Reach (stuck.get stuck_isSome) :=
    System.Reach.script (.init rfl) (fun _ _ _ => id) (Option.some_get stuck_isSome).symm
  have hpending : 1 ∈ (stuck.get stuck_isSome).pending := List.mem_singleton.2 rfl
  have hwaits : (stuck.get stuck_isSome).calls 0 = .waits 1 := rfl
  obtain ⟨hmem, -⟩ | ⟨-, hrun⟩ := waits_of_ended hreach rfl hwaits
  · exact absurd hpending hmem
  · exact ⟨_, (Option.some_get stuck_isSome).symm, rfl, fun client' h => (hrun client' h).1⟩

end RpcClient

end Mcodex.ExecServer
