import Mathlib.Algebra.Ring.Nat
import Mathlib.Data.List.Basic
import Mcodex.Lib.Transition

/-!
# The readiness flag

`utils/readiness/src/lib.rs` keeps an atomic flag, a set of tokens under a lock, and a watch
channel. Any number of calls run, and each lock section and each operation on the flag or on the
channel is a step of one of them. A call that makes the flag ready sends to the channel afterwards,
and the channel stores nothing while it has no receiver. So the wake-up is lost to a waiter that has
checked the flag before and takes its receiver after (`SendIsHeard`); the flag itself is sound in
every run.
-/

namespace Mcodex.Readiness

open Transition

abbrev Token := Int32

inductive ReadinessError where
  | tokenLockFailed
  | flagAlreadyReady
  deriving DecidableEq, Repr

/-- The flag with its tokens and its channel. `version` counts what was sent. -/
structure ReadinessFlag where
  ready : Bool
  nextId : Token
  tokens : List Token
  value : Bool
  version : Nat
  deriving DecidableEq, Repr

def ReadinessFlag.new : ReadinessFlag where
  ready := false
  nextId := 1
  tokens := []
  value := false
  version := 0

/-- The loop of `subscribe` that draws the next id that is a token of nobody. After all ids it would
go on for ever. -/
def drawToken (tokens : List Token) : Nat → Token → Option (Token × Token)
  | 0, _ => none
  | rounds + 1, nextId =>
    if nextId ≠ 0 ∧ nextId ∉ tokens then some (nextId, nextId + 1)
    else drawToken tokens rounds (nextId + 1)

/-- `tx.send(true)`. -/
def ReadinessFlag.send (flag : ReadinessFlag) (hasReceiver : Bool) : ReadinessFlag :=
  if hasReceiver then { flag with value := true, version := flag.version + 1 } else flag

/-! ## Calls -/

/-- Where a call of `is_ready` stands. -/
inductive CheckPhase where
  | load
  | tryLock
  | send
  | reload
  deriving DecidableEq, Repr

/-- The next step of `is_ready`, which ends it or leads to another phase. The lock may be taken by
another call. -/
def CheckPhase.next (flag : ReadinessFlag) (hasReceiver lockFails : Bool) :
    CheckPhase → ReadinessFlag × (CheckPhase ⊕ Bool)
  | load => (flag, if flag.ready then .inr true else .inl tryLock)
  | tryLock =>
    if !lockFails && flag.tokens.isEmpty then
      ({ flag with ready := true }, if flag.ready then .inr true else .inl send)
    else (flag, .inl reload)
  | send => (flag.send hasReceiver, .inr true)
  | reload => (flag, .inr flag.ready)

/-- The calls and where they stand. A waiter has seen the channel up to a version. -/
inductive Call where
  | isReady (phase : CheckPhase)
  | isReadyDone (result : Bool)
  | subscribeLoad
  | subscribeLock
  | subscribeDone (result : Except ReadinessError Token)
  | markReadyLoad (token : Token)
  | markReadyLock (token : Token)
  | markReadySend
  | markReadyDone (result : Except ReadinessError Bool)
  | waitReadyCheck (phase : CheckPhase)
  | waitReadySubscribe
  | waitReadyBorrow (seen : Nat)
  | waitReadyChanged (seen : Nat)
  | waitReadyReborrow (seen : Nat)
  | waitReadyDone
  deriving DecidableEq, Repr

namespace Call

/-- The receiver that the call holds, by the version it has seen. -/
def receiver : Call → Option Nat
  | waitReadyBorrow seen | waitReadyChanged seen | waitReadyReborrow seen => some seen
  | _ => none

/-- The next step of a call, when it is not done and does not wait for the channel. -/
def next (flag : ReadinessFlag) (hasReceiver lockFails : Bool) :
    Call → Option (ReadinessFlag × Call)
  | isReady phase =>
    let (flag, outcome) := phase.next flag hasReceiver lockFails
    some (flag, outcome.elim isReady isReadyDone)
  | subscribeLoad =>
    some (flag, if flag.ready then subscribeDone (.error .flagAlreadyReady) else subscribeLock)
  | subscribeLock =>
    if lockFails then some (flag, subscribeDone (.error .tokenLockFailed))
    else if flag.ready then some (flag, subscribeDone (.error .flagAlreadyReady))
    else (drawToken flag.tokens (2 ^ 32) flag.nextId).map fun (token, nextId) =>
      ({ flag with tokens := token :: flag.tokens, nextId }, subscribeDone (.ok token))
  | markReadyLoad token =>
    some (flag, if flag.ready then markReadyDone (.ok false)
      else if token = 0 then markReadyDone (.ok false) else markReadyLock token)
  | markReadyLock token =>
    if lockFails then some (flag, markReadyDone (.error .tokenLockFailed))
    else if token ∈ flag.tokens then some ({ flag with ready := true, tokens := [] }, markReadySend)
    else some (flag, markReadyDone (.ok false))
  | markReadySend => some (flag.send hasReceiver, markReadyDone (.ok true))
  | waitReadyCheck phase =>
    let (flag, outcome) := phase.next flag hasReceiver lockFails
    some (flag, outcome.elim waitReadyCheck fun ready =>
      if ready then waitReadyDone else waitReadySubscribe)
  | waitReadySubscribe => some (flag, waitReadyBorrow flag.version)
  | waitReadyBorrow seen =>
    some (flag, if flag.value then waitReadyDone else waitReadyChanged seen)
  | waitReadyChanged seen =>
    if flag.version ≠ seen then some (flag, waitReadyReborrow flag.version) else none
  | waitReadyReborrow seen =>
    some (flag, if flag.value then waitReadyDone else waitReadyChanged seen)
  | isReadyDone _ | subscribeDone _ | markReadyDone _ | waitReadyDone => none

end Call

inductive Op where
  | isReady
  | subscribe
  | markReady (token : Token)
  | waitReady
  deriving DecidableEq, Repr

def Op.call : Op → Call
  | isReady => .isReady .load
  | subscribe => .subscribeLoad
  | markReady token => .markReadyLoad token
  | waitReady => .waitReadyCheck .load

/-! ## Any number of calls -/

/-- The flag and all calls so far. -/
structure World where
  flag : ReadinessFlag
  calls : List Call
  deriving DecidableEq, Repr

namespace World

def new : World := ⟨.new, []⟩

def hasReceiver (w : World) : Bool := w.calls.any fun call => call.receiver.isSome

end World

/-- A call begins, or one takes its next step. -/
inductive Action where
  | start (op : Op)
  | advance (i : Nat) (lockFails : Bool)
  deriving DecidableEq, Repr

def World.handle (w : World) : Action → Option World
  | .start op => some { w with calls := w.calls ++ [op.call] }
  | .advance i lockFails =>
    w.calls[i]?.bind fun call =>
      (call.next w.flag w.hasReceiver lockFails).map fun (flag, call) =>
        ⟨flag, w.calls.set i call⟩

def readiness : System World Action where
  init w := w = .new
  step w action w' := w.handle action = some w'

end Mcodex.Readiness
