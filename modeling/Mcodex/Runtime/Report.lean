import Mcodex.AccountPool.Reporting
import Mcodex.Runtime.Turn

/-!
# Health events of a manager

A session reports a usage limit or an unauthorized request to its manager, which records a health
event. To the managers of a shared pool that is a report (`recordHealthEvent_holder`).
-/

namespace Mcodex.Runtime

open AccountPool Effect

/-- `mark_non_replayable_turn_rotation`. -/
def Manager.markNonReplayableTurnRotation (m : Manager) : Manager :=
  { m with
    proactiveSwitchState := {}
    pendingRotation := some .hardFailure
    switchReason := some .nonReplayableTurn
    suppressionReason := none }

/-- `record_health_event`. -/
def recordHealthEvent (env : Env) (healthState : AccountHealthState) (observedAt : Int) :
    Prog Sys String Unit := do
  let m ← getManager
  match m.activeLease with
  | none => return
  | some activeLease =>
    modifyManager fun m => { m with nextHealthEventSequence := m.nextHealthEventSequence + 1 }
    onWorld fun m => transact env (·.recordAccountHealthEvent {
      accountId := activeLease.record.accountId
      poolId := activeLease.record.poolId
      healthState
      sequenceNumber := m.nextHealthEventSequence
      observedAt })
    modifyManager Manager.markNonReplayableTurnRotation

/-- The manager as the managers of a shared pool see it. -/
def Manager.holder (m : Manager) : Holder where
  activeLease := m.activeLease.map (·.record)
  nextHealthEventSequence := m.nextHealthEventSequence
  adoption := .idle

/-- A health event that goes through is a report of the shared pool. -/
theorem recordHealthEvent_holder {env : Env} {healthState : AccountHealthState} {observedAt : Int}
    {holder : HolderId} {s s' : Sys} {activeLease : ActiveAccountLease}
    (hactive : s.manager.activeLease = some activeLease)
    (h : recordHealthEvent env healthState observedAt s = .ok () s') :
    let pool : SharedPool := ⟨s.world.db, fun _ => s.manager.holder⟩
    s'.world.db = pool.reported holder activeLease.record healthState observedAt ∧
      s'.manager.holder = s.manager.holder.count := by
  intro pool
  have hwp : wp (recordHealthEvent env healthState observedAt) (fun _ s' =>
      s'.world.db = pool.reported holder activeLease.record healthState observedAt ∧
        s'.manager.holder = s.manager.holder.count) (fun _ _ => True) s := by
    have hat : env.At ⟨fun _ => True, False, True⟩ s.world.db s.world :=
      ⟨rfl, fun _ _ => trivial, False.elim, fun _ _ _ => trivial⟩
    simp only [recordHealthEvent, wp_bind, wp_getManager, hactive, wp_modifyManager, wp_onWorld,
      transact]
    refine wp_call hat (fun w' hw' => ?_) fun _ _ _ _ => trivial
    simp only [SharedPool.reported, pool, Holder.event, Manager.holder]
    have hdb := hw'.db
    revert hdb
    cases s.world.db.recordAccountHealthEvent _ with
    | error message => exact fun _ => trivial
    | ok db => exact fun hdb => ⟨hdb, by rw [hactive]; rfl⟩
  exact hwp.of_ok h

end Mcodex.Runtime
