import Mcodex.AccountPool.Acquire
import Mcodex.AccountPool.Selection

/-!
# Startup selection and selection candidates

The reads a manager makes before it acquires a lease: the preview of the startup selection, which
predicts an account by a query of its own, and the rows of a pool turned into candidates of the
selector. Each takes the clock reading it makes as an argument.
-/

namespace Mcodex.AccountPool

namespace Db

/-! ## Startup preview -/

/-- `read_first_eligible_account_id`. -/
def readFirstEligibleAccountId (db : Db) (poolId : PoolId) (now : Int) : Option AccountId :=
  ((db.poolMembers poolId).find? fun m : Member =>
    db.AutomaticallyEligible m.accountId ∧ db.accountHasActiveLease m.accountId now = false).map
      (·.accountId)

/-- `selector_auth_eligible` of an account that may have no runtime state. -/
def selectorAuthEligible (db : Db) (accountId : AccountId) : Bool := decide (db.Authorized accountId)

/-- The eligibility of a preferred account for startup in a pool. -/
def preferredEligibility (db : Db) (poolId : PoolId) (preferred : AccountId) (now : Int) :
    AccountStartupEligibility :=
  match db.readAccountPoolMembershipRow preferred with
  | none => .preferredAccountMissing
  | some membership =>
    if membership.poolId ≠ poolId then .preferredAccountInOtherPool membership.poolId
    else if membership.enabled = false then .preferredAccountDisabled
    else
      let quotaExhausted := (db.readRegisteredAccountSelectionQuotaState preferred).any
        (·.exhaustedWindows.isExhausted)
      if db.selectorAuthEligible preferred = false ∨ quotaExhausted then .preferredAccountUnhealthy
      else if db.accountHasActiveLease preferred now then .preferredAccountBusy
      else .preferredAccountSelected

/-- `preview_account_startup_selection_with_selection`. -/
def previewWithSelection (db : Db) (selection : AccountStartupSelectionState)
    (effectivePoolId : Option PoolId) (allowSuppressedShortCircuit : Bool) (now : Int) :
    AccountStartupSelectionPreview :=
  if allowSuppressedShortCircuit && selection.suppressed then {
    effectivePoolId
    preferredAccountId := selection.preferredAccountId
    suppressed := true
    predictedAccountId := none
    eligibility := .suppressed }
  else
    match effectivePoolId with
    | none => {
        effectivePoolId := none
        preferredAccountId := selection.preferredAccountId
        suppressed := selection.suppressed
        predictedAccountId := none
        eligibility := .missingPool }
    | some poolId =>
      match selection.preferredAccountId with
      | some preferred =>
        let eligibility := db.preferredEligibility poolId preferred now
        { effectivePoolId := some poolId
          preferredAccountId := some preferred
          suppressed := selection.suppressed
          predictedAccountId :=
            if eligibility = .preferredAccountSelected then some preferred else none
          eligibility }
      | none =>
        let predicted := db.readFirstEligibleAccountId poolId now
        { effectivePoolId := some poolId
          preferredAccountId := none
          suppressed := selection.suppressed
          predictedAccountId := predicted
          eligibility :=
            if predicted.isSome then .automaticAccountSelected else .noEligibleAccount }

/-- `preview_account_startup_selection`. -/
def previewAccountStartupSelection (db : Db) (configuredDefaultPoolId : Option PoolId)
    (now : Int) : AccountStartupSelectionPreview :=
  let selection := db.readAccountStartupSelection
  db.previewWithSelection selection (configuredDefaultPoolId.or selection.defaultPoolId) true now

/-! ## Selection candidates -/

/-- The record that `read_registered_account` reads from a registry row. -/
def registeredAccountRecord (accountId : AccountId) (row : RegistryRow) :
    RegisteredAccountRecord where
  accountId := accountId
  backendId := row.backendId
  backendFamily := row.backendFamily
  workspaceId := row.workspaceId
  backendAccountHandle := row.backendAccountHandle
  accountKind := row.accountKind
  providerFingerprint := row.providerFingerprint
  displayName := row.displayName
  source := row.source
  enabled := row.enabled
  healthy := row.healthy

/-- `read_registered_account`. -/
def readRegisteredAccount (db : Db) (accountId : AccountId) : Option RegisteredAccountRecord :=
  (db.accountRegistry.lookup accountId).map (registeredAccountRecord accountId)

/-- One row of `read_account_lease_selection_candidates`. -/
structure SelectionCandidateRow where
  registeredAccount : RegisteredAccountRecord
  healthState : Option AccountHealthState
  activeLease : Option AccountLeaseRecord
  position : Int
  deriving DecidableEq, Repr

/-- The live lease that the candidates query joins: of the account, under the queried pool. -/
def liveLeaseInPool (db : Db) (accountId : AccountId) (poolId : PoolId) (now : Int) :
    Option AccountLeaseRecord :=
  (db.accountLeases.rows.find? fun r => r.accountId = accountId ∧ r.poolId = poolId ∧
    r.LiveAt (datetimeToEpochSeconds now)).map (·.record)

/-- `read_account_lease_selection_candidates`. -/
def readAccountLeaseSelectionCandidates (db : Db) (poolId : PoolId) (now : Int) :
    List SelectionCandidateRow :=
  (db.poolMembers poolId).filterMap fun m =>
    (db.readRegisteredAccount m.accountId).map fun registeredAccount => {
      registeredAccount
      healthState := (db.accountRuntimeState.lookup m.accountId).map (·.healthState)
      activeLease := db.liveLeaseInPool m.accountId poolId now
      position := m.position }

/-- The candidate that `load_runtime_selection_candidates` makes of a row and its quota. -/
def SelectionCandidateRow.candidate (row : SelectionCandidateRow) (holderInstanceId : HolderId)
    (quota : QuotaFamilyView) : AccountRecord where
  accountId := row.registeredAccount.accountId
  healthy := row.registeredAccount.healthy
  kind := if row.registeredAccount.accountKind = "chatgpt" then .chatGpt else .manualOnly
  enabled := row.registeredAccount.enabled
  selectorAuthEligible := row.healthState ≠ some .unauthorized
  poolPosition := row.position.toNat
  leasedToOtherHolder := row.activeLease.any (·.holderInstanceId ≠ holderInstanceId)
  quota := quota

/-- The quota that `load_runtime_selection_candidates` reads for an account. -/
def quotaFamilyView (db : Db) (accountId : AccountId) (selectionFamily : LimitId) :
    QuotaFamilyView :=
  let selection := db.readAccountQuotaState accountId selectionFamily
  { selection
    codexFallback :=
      if selectionFamily = "codex" ∨ selection.isSome then none
      else db.readAccountQuotaState accountId "codex" }

/-- The candidates that `load_runtime_selection_candidates` makes of an unchanging store. -/
def loadRuntimeSelectionCandidates (db : Db) (poolId : PoolId) (holderInstanceId : HolderId)
    (selectionFamily : LimitId) (now : Int) : List AccountRecord :=
  (db.readAccountLeaseSelectionCandidates poolId now).map fun row =>
    row.candidate holderInstanceId
      (db.quotaFamilyView row.registeredAccount.accountId selectionFamily)

end Db

end Mcodex.AccountPool
