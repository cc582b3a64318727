import Mcodex.Runtime.World

/-!
# The account-pool manager

The state of `AccountPoolManager` (`core/src/state/service.rs`) and its functions on a shared
reference: the selection plan, the quota probe, and what goes with a lease it acquires. An error of
type `String` is the message of an `anyhow` error.
-/

namespace Mcodex.Runtime

open AccountPool Effect

/-! ## State -/

/-- `LeaseAuthBinding`, the binding of a lease-scoped auth session. -/
structure LeaseAuthBinding where
  accountId : AccountId
  backendAccountHandle : String
  leaseEpoch : Nat
  deriving DecidableEq, Repr

/-- `ActiveAccountLease`; an auth session is known by its binding. -/
structure ActiveAccountLease where
  record : AccountLeaseRecord
  selectionFamily : LimitId
  authSession : LeaseAuthBinding
  deriving DecidableEq, Repr

/-- `ActiveLeaseIdentity`. -/
structure ActiveLeaseIdentity where
  leaseId : Nat
  accountId : AccountId
  leaseEpoch : Nat
  deriving DecidableEq, Repr

/-- `ActiveLeaseIdentity::from_record`. -/
def ActiveLeaseIdentity.fromRecord (lease : AccountLeaseRecord) : ActiveLeaseIdentity where
  leaseId := lease.leaseId
  accountId := lease.accountId
  leaseEpoch := lease.leaseEpoch

/-- `PendingRotation`. -/
inductive PendingRotation where
  | hardFailure
  | softProactive
  deriving DecidableEq, Repr

/-- `AccountLeaseRuntimeReason`. -/
inductive AccountLeaseRuntimeReason where
  | startupSuppressed
  | missingPool
  | preferredAccountSelected
  | automaticAccountSelected
  | preferredAccountMissing
  | preferredAccountInOtherPool
  | preferredAccountDisabled
  | preferredAccountUnhealthy
  | preferredAccountBusy
  | noEligibleAccount
  | nonReplayableTurn
  deriving DecidableEq, Repr

/-- `AccountLeaseRuntimeReason::from` an eligibility. -/
def AccountLeaseRuntimeReason.fromEligibility :
    AccountStartupEligibility → AccountLeaseRuntimeReason
  | .suppressed => startupSuppressed
  | .missingPool => missingPool
  | .preferredAccountSelected => preferredAccountSelected
  | .automaticAccountSelected => automaticAccountSelected
  | .preferredAccountMissing => preferredAccountMissing
  | .preferredAccountInOtherPool _ => preferredAccountInOtherPool
  | .preferredAccountDisabled => preferredAccountDisabled
  | .preferredAccountUnhealthy => preferredAccountUnhealthy
  | .preferredAccountBusy => preferredAccountBusy
  | .noEligibleAccount => noEligibleAccount

/-- `ProactiveSwitchState`: remembered soft pressure on the active lease. -/
structure ProactiveSwitchState where
  pendingAllowedAt : Option Int := none
  deriving DecidableEq, Repr

/-- `ProactiveSwitchObservation`. -/
structure ProactiveSwitchObservation where
  leaseAcquiredAt : Int
  observedAt : Int
  minSwitchInterval : Int
  deriving DecidableEq, Repr

/-- `ProactiveSwitchOutcome`. -/
inductive ProactiveSwitchOutcome where
  | noAction
  | suppressed (allowedAt : Int)
  | rotateOnNextTurn
  deriving DecidableEq, Repr

namespace ProactiveSwitchState

/-- `observe_soft_pressure`. -/
def observeSoftPressure (state : ProactiveSwitchState) (observation : ProactiveSwitchObservation) :
    ProactiveSwitchOutcome × ProactiveSwitchState :=
  if observation.minSwitchInterval < 0 then (.noAction, state)
  else if observation.observedAt < observation.leaseAcquiredAt then (.noAction, state)
  else
    let allowedAt := observation.leaseAcquiredAt + observation.minSwitchInterval
    if allowedAt ≤ observation.observedAt then (.rotateOnNextTurn, ⟨none⟩)
    else (.suppressed allowedAt, ⟨some allowedAt⟩)

/-- `revalidate_before_turn`. -/
def revalidateBeforeTurn (state : ProactiveSwitchState) (now : Int) : ProactiveSwitchState :=
  if state.pendingAllowedAt.any (· ≤ now) then ⟨none⟩ else state

/-- The `suppressed` flag of `snapshot`. -/
def isSuppressed (state : ProactiveSwitchState) (now : Int) : Bool :=
  state.pendingAllowedAt.any (now < ·)

end ProactiveSwitchState

/-- `AccountPoolManager`. -/
structure Manager where
  defaultPoolId : Option PoolId
  proactiveSwitchThresholdPercent : Nat
  minSwitchInterval : Int
  allowContextReuseByPoolId : PoolId → Option Bool
  leaseTtl : Int
  holderInstanceId : HolderId
  activeLease : Option ActiveAccountLease
  nextHealthEventSequence : Int
  previousTurnAccountId : Option AccountId
  proactiveSwitchState : ProactiveSwitchState
  pendingRotation : Option PendingRotation
  lastProactivelyReplacedAccountId : Option AccountId
  switchReason : Option AccountLeaseRuntimeReason
  suppressionReason : Option AccountLeaseRuntimeReason
  activeLeaseGeneration : UInt64
  activeLeaseIdentity : Option ActiveLeaseIdentity

/-- `AccountsConfigToml`, as far as a manager reads it; of a pool, its `allow_context_reuse`. -/
structure AccountsConfig where
  defaultPool : Option PoolId := none
  pools : PoolId → Option (Option Bool) := fun _ => none
  proactiveSwitchThresholdPercent : Option Nat := none
  minSwitchIntervalSecs : Option Nat := none
  leaseTtlSecs : Option Nat := none

/-- `AccountPoolManager::new`. -/
def Manager.new (accounts : AccountsConfig) (holderInstanceId : HolderId) : Manager where
  defaultPoolId := accounts.defaultPool
  proactiveSwitchThresholdPercent := accounts.proactiveSwitchThresholdPercent.getD 85
  minSwitchInterval := seconds (accounts.minSwitchIntervalSecs.getD 0)
  allowContextReuseByPoolId poolId :=
    (accounts.pools poolId).map fun allowContextReuse => allowContextReuse.getD true
  leaseTtl := seconds (accounts.leaseTtlSecs.getD 300)
  holderInstanceId
  activeLease := none
  nextHealthEventSequence := 0
  previousTurnAccountId := none
  proactiveSwitchState := {}
  pendingRotation := none
  lastProactivelyReplacedAccountId := none
  switchReason := none
  suppressionReason := none
  activeLeaseGeneration := 0
  activeLeaseIdentity := none

/-- `saturating_add(1)` of a generation. -/
def saturatingSucc (generation : UInt64) : UInt64 :=
  if generation.toNat + 1 < UInt64.size then generation + 1 else generation

/-- `ProbeReservation`. -/
structure ProbeReservation where
  limitId : LimitId
  reservedUntil : Int
  deriving DecidableEq, Repr

/-- `probe_holder_instance_id`. -/
def Manager.probeHolder (m : Manager) : HolderId := m.holderInstanceId ++ ":probe"

/-- `probe_reservation_duration`. -/
def probeReservationDuration : Int := seconds 30

/-! ## Leases -/

/-- `read_active_holder_lease`. -/
def readActiveHolderLease (env : Env) (m : Manager) :
    Prog World String (Option AccountLeaseRecord) := do
  let now ← utcNow env
  read env (·.loadActiveHolderLease m.holderInstanceId now)

/-- `create_auth_session`; the epoch marker is a file. -/
def createAuthSession (env : Env) (lease : AccountLeaseRecord) :
    Prog World String LeaseAuthBinding := do
  match ← read env (·.readRegisteredAccount lease.accountId) with
  | none => raise "registered account missing for acquired lease"
  | some registeredAccount =>
    perform env
    return {
      accountId := lease.accountId
      backendAccountHandle := registeredAccount.backendAccountHandle
      leaseEpoch := lease.leaseEpoch }

/-- `active_selection_family`. -/
def activeSelectionFamily (env : Env) (lease : AccountLeaseRecord)
    (requestedSelectionFamily : LimitId) : Prog World String LimitId := do
  let registeredAccount ← read env (·.readRegisteredAccount lease.accountId)
  let family := (registeredAccount.map fun account =>
    Db.normalizedSelectionFamily account.backendFamily).filter (· ≠ "")
  return family.getD (Db.normalizedSelectionFamily requestedSelectionFamily)

/-- `clear_auth_marker`. -/
def clearAuthMarker (env : Env) (lease : AccountLeaseRecord) : Prog World String Unit := do
  match ← read env (·.readRegisteredAccount lease.accountId) with
  | none => return
  | some _ => perform env

/-- `release_lease_record`. -/
def releaseLeaseRecord (env : Env) (lease : AccountLeaseRecord) : Prog World String Unit := do
  let now ← utcNow env
  let _ ← call env (·.releaseAccountLease lease.leaseKey now)
  clearAuthMarker env lease

/-- `acquire_preferred_account_lease`, called for the manager; the second clock reading is the one
that the store makes when the insertion meets a unique index. -/
def acquirePreferredAccountLease (env : Env) (m : Manager) (poolId : PoolId)
    (accountId : AccountId) (selectionFamily : LimitId) :
    Prog World AccountLeaseError AccountLeaseRecord := do
  let now ← utcNow env
  let retryNow ← utcNow env
  let outcome ← mapErr .storage <| call env fun db =>
    db.acquirePreferredAccountLease poolId accountId selectionFamily m.holderInstanceId m.leaseTtl
      now retryNow
  orRaise outcome

/-- `acquire_quota_probe_account_lease`, called for the manager's probes. -/
def acquireQuotaProbeAccountLease (env : Env) (m : Manager) (poolId : PoolId)
    (accountId : AccountId) (reservation : ProbeReservation) :
    Prog World AccountLeaseError AccountLeaseRecord := do
  let now ← utcNow env
  let retryNow ← utcNow env
  let outcome ← mapErr .storage <| call env fun db =>
    db.acquireQuotaProbeAccountLease poolId accountId reservation.limitId
      reservation.reservedUntil m.probeHolder m.leaseTtl now retryNow
  orRaise outcome

/-- The active lease made of a lease just acquired. -/
def activateLease (env : Env) (lease : AccountLeaseRecord) (selectionFamily : LimitId) :
    Prog World AccountLeaseError ActiveAccountLease := do
  let authSession ← mapErr .storage (createAuthSession env lease)
  let selectionFamily ← mapErr .storage (activeSelectionFamily env lease selectionFamily)
  return { record := lease, selectionFamily, authSession }

/-- Acquire a lease for the account selected and make it active; nothing where the store grants
none. -/
def acquireSelected (env : Env) (m : Manager) (poolId : PoolId) (accountId : AccountId)
    (selectionFamily : LimitId) : Prog World AccountLeaseError (Option ActiveAccountLease) := do
  match ← attempt (acquirePreferredAccountLease env m poolId accountId selectionFamily) with
  | .ok lease => return some (← activateLease env lease selectionFamily)
  | .error .noEligibleAccount => return none
  | .error (.storage message) => raise (.storage message)

/-! ## Selection -/

/-- `resolve_selection_family`. -/
def resolveSelectionFamily (m : Manager) (request : SelectionRequest) : LimitId :=
  match request.selectionFamily with
  | some selectionFamily => Db.normalizedSelectionFamily selectionFamily
  | none =>
    if request.intent = .startup then "codex"
    else
      match request.currentAccountId, m.activeLease with
      | some currentAccountId, some activeLease =>
        if activeLease.record.accountId = currentAccountId then
          Db.normalizedSelectionFamily activeLease.selectionFamily
        else "codex"
      | _, _ => "codex"

/-- One candidate of `load_runtime_selection_candidates`. -/
def loadCandidate (env : Env) (holderInstanceId : HolderId) (selectionFamily : LimitId)
    (row : Db.SelectionCandidateRow) : Prog World String AccountRecord := do
  let accountId := row.registeredAccount.accountId
  let selection ← read env (·.readAccountQuotaState accountId selectionFamily)
  if selectionFamily = "codex" ∨ selection.isSome then
    return row.candidate holderInstanceId { selection, codexFallback := none }
  else
    let codexFallback ← read env (·.readAccountQuotaState accountId "codex")
    return row.candidate holderInstanceId { selection, codexFallback }

/-- `load_runtime_selection_candidates`. -/
def loadRuntimeSelectionCandidates (env : Env) (poolId : PoolId) (holderInstanceId : HolderId)
    (selectionFamily : LimitId) : Prog World String (List AccountRecord) := do
  let now ← utcNow env
  let rows ← read env (·.readAccountLeaseSelectionCandidates poolId now)
  rows.mapM (loadCandidate env holderInstanceId selectionFamily)

/-- `request.now.unwrap_or_else(Utc::now)`. -/
def requestNow {ε : Type} (env : Env) (request : SelectionRequest) : Prog World ε Int :=
  match request.now with
  | some now => pure now
  | none => utcNow env

/-- `build_runtime_selection_plan`. -/
def buildRuntimeSelectionPlan (env : Env) (m : Manager) (request : SelectionRequest) :
    Prog World String (LimitId × SelectionPlan) := do
  match request.poolId with
  | none => raise "runtime selection requires pool id"
  | some poolId =>
    let selectionFamily := resolveSelectionFamily m request
    let candidates ← loadRuntimeSelectionCandidates env poolId m.holderInstanceId selectionFamily
    let now ← requestNow env request
    return (selectionFamily,
      evaluateSelection { request with selectionFamily := some selectionFamily } now candidates)

/-! ## Quota probes -/

/-- `reserve_quota_probe`; either outcome is logged. -/
def reserveQuotaProbe (env : Env) (accountId : AccountId) (selectionFamily : LimitId)
    (now : Int) : Prog World String (Option ProbeReservation) := do
  match ← read env (·.readSelectionQuotaState accountId selectionFamily) with
  | none => return none
  | some quotaState =>
    let reservedUntil := now + probeReservationDuration
    let reserved ← call env
      (·.reserveAccountQuotaProbe accountId quotaState.limitId now reservedUntil)
    perform env
    return if reserved then some { limitId := quotaState.limitId, reservedUntil } else none

/-- `refresh_quota_probe`: what a probe records, which is logged too. -/
def refreshQuotaProbe (env : Env) (lease : AccountLeaseRecord) (reservation : ProbeReservation) :
    Prog World String Unit := do
  let observedAt ← utcNow env
  let quotaState ← read env (·.readAccountQuotaState lease.accountId reservation.limitId)
  let _ ← createAuthSession env lease
  let observation := { observedAt, reservedUntil := reservation.reservedUntil }
  if ← ensureCurrent env then
    match quotaState with
    | none => return
    | some quotaState =>
      if quotaState.exhaustedWindows.isExhausted then
        let _ ← call env (·.recordAccountQuotaProbeStillBlocked lease.accountId quotaState.limitId
          observation {
            exhaustedWindows := quotaState.exhaustedWindows
            predictedBlockedUntil := quotaState.predictedBlockedUntil
            nextProbeAfter := observedAt + seconds 30 })
        perform env
      else
        let _ ← call env
          (·.recordAccountQuotaProbeSuccess lease.accountId quotaState.limitId observation)
        perform env
  else
    if quotaState.isSome then
      let backoffUntil := observedAt + seconds 30
      let _ ← call env (·.recordAccountQuotaProbeAmbiguous lease.accountId reservation.limitId
        observation { predictedBlockedUntil := backoffUntil, nextProbeAfter := backoffUntil })
    perform env

/-- The part of a probe after its reservation: lease the account, refresh its quota and give the
lease back. Without a lease nothing more is done. -/
def verifyProbe (env : Env) (m : Manager) (poolId : PoolId) (accountId : AccountId)
    (reservation : ProbeReservation) : Prog World AccountLeaseError Unit := do
  match ← attempt (acquireQuotaProbeAccountLease env m poolId accountId reservation) with
  | .error .noEligibleAccount => return
  | .error (.storage message) => raise (.storage message)
  | .ok verificationLease =>
    -- the lease is given back even when the refresh fails
    let probeResult ← attempt (mapErr .storage (refreshQuotaProbe env verificationLease reservation))
    let releaseResult ← attempt (mapErr .storage (releaseLeaseRecord env verificationLease))
    orRaise probeResult
    orRaise releaseResult

/-- The probe of one round of an acquisition; without a reservation the round does nothing. -/
def probeAccount (env : Env) (m : Manager) (poolId : PoolId) (accountId : AccountId)
    (selectionFamily : LimitId) (now : Int) : Prog World AccountLeaseError Unit := do
  match ← mapErr .storage (reserveQuotaProbe env accountId selectionFamily now) with
  | none => return
  | some reservation => verifyProbe env m poolId accountId reservation

/-- `acquire_selected_lease`. -/
def acquireSelectedLease (env : Env) (fuel : Nat) (m : Manager) (request : SelectionRequest) :
    Prog World AccountLeaseError ActiveAccountLease := do
  match request.poolId with
  | none => raise (.storage "runtime selection requires pool id")
  | some poolId => iterate (fun _ : Unit => do
      let (selectionFamily, plan) ← mapErr .storage (buildRuntimeSelectionPlan env m request)
      match plan.terminalAction with
      | .select accountId =>
        match ← acquireSelected env m poolId accountId selectionFamily with
        | some lease => return .inr lease
        | none => return .inl ()
      | .probe accountId =>
        probeAccount env m poolId accountId selectionFamily (← requestNow env request)
        return .inl ()
      | .stayOnCurrent | .noCandidate => raise .noEligibleAccount) fuel ()

end Mcodex.Runtime
