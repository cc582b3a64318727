import Mcodex.AccountPool.LeaseTable

/-!
# The account-pool store

`Db` holds the tables of the account pool, and the functions below are the statements of
`state/src/runtime/account_pool_control.rs` and of the registry and health half of
`account_pool.rs`. Each public operation runs in one transaction: it returns the database it
commits, or an error and no database, which is the rollback. The pool of an account is stored three
times (registry, membership, runtime state), and most operations keep the three in step.
-/

namespace Mcodex.AccountPool

open Table

/-! ## Tables -/

/-- A row of `account_registry`; the pool is empty for an account outside every pool. -/
structure RegistryRow where
  poolId : PoolId
  position : Int
  accountKind : String
  backendFamily : String
  workspaceId : Option String
  backendId : String
  backendAccountHandle : String
  providerFingerprint : String
  displayName : Option String
  source : Option AccountSource
  enabled : Bool
  healthy : Bool
  deriving DecidableEq, Repr

/-- A row of `account_pool_membership`. -/
structure MembershipRow where
  poolId : PoolId
  position : Int
  deriving DecidableEq, Repr

/-- A row of `account_runtime_state`. -/
structure RuntimeStateRow where
  poolId : PoolId
  healthState : AccountHealthState
  lastHealthEventSequence : Int
  lastHealthEventAt : Int
  deriving DecidableEq, Repr

/-- A row of `account_quota_state`; instants in whole seconds, the observation in nanoseconds. -/
structure QuotaRow where
  primaryUsedPercent : Option ℚ
  primaryResetsAt : Option Int
  secondaryUsedPercent : Option ℚ
  secondaryResetsAt : Option Int
  observedAtNanos : Int
  exhaustedWindows : QuotaExhaustedWindows
  predictedBlockedUntil : Option Int
  nextProbeAfter : Option Int
  probeBackoffLevel : Int
  lastProbeResult : Option QuotaProbeResult
  deriving DecidableEq, Repr

/-- The tables of the account pool. -/
structure Db where
  accountRegistry : Keyed AccountId RegistryRow
  accountPoolMembership : Keyed AccountId MembershipRow
  accountRuntimeState : Keyed AccountId RuntimeStateRow
  accountQuotaState : Keyed (AccountId × LimitId) QuotaRow
  accountStartupSelection : Option AccountStartupSelectionState
  accountLeases : LeaseTable

namespace Db

/-- A new database. -/
def empty : Db where
  accountRegistry := ∅
  accountPoolMembership := ∅
  accountRuntimeState := ∅
  accountQuotaState := ∅
  accountStartupSelection := none
  accountLeases := .empty

/-- `LEGACY_DEFAULT_POOL_ID`. -/
def legacyDefaultPoolId : PoolId := "legacy-default"

/-- The error of a statement that breaks a foreign key or a unique index of the registry. -/
def constraintFailed : String := "constraint failed"

/-- `FOREIGN KEY(account_id) REFERENCES account_registry(account_id)`. -/
def checkRegistered (db : Db) (accountId : AccountId) : Except String Unit :=
  if accountId ∈ db.accountRegistry then .ok () else .error constraintFailed

/-- `release_unreleased_account_leases`. -/
def releaseUnreleasedAccountLeases (db : Db) (accountId : AccountId) (releasedAt : Int) : Db :=
  { db with accountLeases :=
      db.accountLeases.updateUnreleased (fun r => r.accountId = accountId) (.release releasedAt) }

/-! ## Membership -/

/-- `read_account_pool_membership_row`. -/
def readAccountPoolMembershipRow (db : Db) (accountId : AccountId) :
    Option AccountPoolMembershipRow :=
  match db.accountPoolMembership.lookup accountId, db.accountRegistry.lookup accountId with
  | some membership, some registered => some {
      accountId := accountId
      poolId := membership.poolId
      position := membership.position
      source := registered.source
      enabled := registered.enabled
      healthy := registered.healthy }
  | _, _ => none

/-- `read_account_pool_position`: the membership's position, else the registry's. -/
def readAccountPoolPosition (db : Db) (accountId : AccountId) : Option Int :=
  match db.accountPoolMembership.lookup accountId with
  | some membership => some membership.position
  | none => (db.accountRegistry.lookup accountId).map (·.position)

/-- `read_effective_account_pool_id`: the membership's pool, else the registry's unless empty. -/
def readEffectiveAccountPoolId (db : Db) (accountId : AccountId) : Option PoolId :=
  match db.accountPoolMembership.lookup accountId with
  | some membership => some membership.poolId
  | none => ((db.accountRegistry.lookup accountId).map (·.poolId)).filter (· ≠ "")

/-- `upsert_account_pool_membership`. -/
def upsertAccountPoolMembership (db : Db) (accountId : AccountId) (poolId : PoolId)
    (position : Int) : Except String Db := do
  db.checkRegistered accountId
  return { db with accountPoolMembership :=
    db.accountPoolMembership.insert accountId { poolId, position } }

/-- `sync_account_membership_compat`: the pool written to all three tables; whether the registry
knows the account. -/
def syncAccountMembershipCompat (db : Db) (accountId : AccountId) (poolId : PoolId)
    (position : Int) : Except String (Bool × Db) := do
  let db ← db.upsertAccountPoolMembership accountId poolId position
  return (decide (accountId ∈ db.accountRegistry), { db with
    accountRegistry := updateKey accountId (fun row => { row with poolId, position })
      db.accountRegistry
    accountRuntimeState := updateKey accountId (fun row => { row with poolId })
      db.accountRuntimeState })

/-- `assign_account_pool_membership`. -/
def assignAccountPoolMembership (db : Db) (accountId : AccountId) (poolId : PoolId) (now : Int) :
    Except String (Bool × Db) := do
  let position := (db.readAccountPoolPosition accountId).getD 0
  let (updated, db') ← db.syncAccountMembershipCompat accountId poolId position
  if !updated then
    return (false, db)
  return (true, db'.releaseUnreleasedAccountLeases accountId (datetimeToEpochSeconds now))

/-! ## Registration -/

/-- `account_registry_backend_fingerprint_idx` and `account_registry_backend_handle_idx`: another
account of the backend has the row's handle or fingerprint. -/
def registryConflict (db : Db) (accountId : AccountId) (row : RegistryRow) : Bool :=
  db.accountRegistry.entries.any fun e =>
    e.1 ≠ accountId && e.2.backendId = row.backendId &&
      (e.2.backendAccountHandle = row.backendAccountHandle ||
        e.2.providerFingerprint = row.providerFingerprint)

/-- Write a registry row under the table's unique indexes. -/
def writeRegistryRow (db : Db) (accountId : AccountId) (row : RegistryRow) : Except String Db :=
  if db.registryConflict accountId row then .error constraintFailed
  else .ok { db with accountRegistry := db.accountRegistry.insert accountId row }

/-- `DELETE FROM account_runtime_state`, where the recorded health contradicts the new one. -/
def dropContradictingHealth (db : Db) (accountId : AccountId) (healthy : Bool) : Db :=
  match db.accountRuntimeState.lookup accountId with
  | some row =>
    if healthy = (row.healthState = .healthy) then db
    else { db with accountRuntimeState := db.accountRuntimeState.erase accountId }
  | none => db

/-- `UPDATE account_runtime_state SET pool_id`. -/
def setRuntimePool (db : Db) (accountId : AccountId) (poolId : PoolId) : Db :=
  { db with accountRuntimeState :=
      updateKey accountId (fun row => { row with poolId }) db.accountRuntimeState }

/-- Accounts of the backend with the entry's handle or fingerprint, as `upsert_registered_account`
selects them. -/
def matchingAccountIds (db : Db) (entry : RegisteredAccountUpsert) : List AccountId :=
  (db.accountRegistry.entries.filter fun e =>
    e.2.backendId = entry.backendId &&
      (e.2.backendAccountHandle = entry.backendAccountHandle ||
        e.2.providerFingerprint = entry.providerFingerprint)).map (·.1)

/-- The error of two registered accounts matching one entry. -/
def conflictingAccounts (entry : RegisteredAccountUpsert) : String :=
  "conflicting registered accounts for backend_id=" ++ entry.backendId ++ " handle=" ++
    entry.backendAccountHandle ++ " fingerprint=" ++ entry.providerFingerprint

/-- The registry row that `upsert_registered_account` writes over an existing one, if any. -/
def registeredRow (entry : RegisteredAccountUpsert) (existing : Option RegistryRow) :
    RegistryRow where
  poolId := (entry.membership.map (·.poolId)).getD ""
  position := (entry.membership.map (·.position)).getD 0
  accountKind := entry.accountKind
  backendFamily := entry.backendFamily
  workspaceId := entry.workspaceId.or (existing.bind (·.workspaceId))
  backendId := entry.backendId
  backendAccountHandle := entry.backendAccountHandle
  providerFingerprint := entry.providerFingerprint
  displayName := entry.displayName
  source := entry.source.or (existing.bind (·.source))
  enabled := entry.enabled
  healthy := entry.healthy

/-- The account that `upsert_registered_account` writes: one already registered under the entry's
handle or fingerprint keeps its identifier. -/
def resolvedAccountId (db : Db) (entry : RegisteredAccountUpsert) : Except String AccountId :=
  match db.matchingAccountIds entry with
  | [] => .ok entry.accountId
  | [accountId] => .ok accountId
  | _ => .error (conflictingAccounts entry)

/-- The membership of an entry written, or the account's membership deleted. -/
def replaceMembership (db : Db) (accountId : AccountId) :
    Option RegisteredAccountMembership → Except String Db
  | some membership =>
    db.upsertAccountPoolMembership accountId membership.poolId membership.position
  | none => .ok { db with accountPoolMembership := db.accountPoolMembership.erase accountId }

/-- The pool of an entry written to the runtime state, or the runtime state deleted. -/
def replaceRuntimePool (db : Db) (accountId : AccountId) :
    Option RegisteredAccountMembership → Db
  | some membership => db.setRuntimePool accountId membership.poolId
  | none => { db with accountRuntimeState := db.accountRuntimeState.erase accountId }

/-- `upsert_registered_account`: the account's identifier. -/
def upsertRegisteredAccount (db : Db) (entry : RegisteredAccountUpsert) (now : Int) :
    Except String (AccountId × Db) := do
  let accountId ← db.resolvedAccountId entry
  let previousPoolId := db.readEffectiveAccountPoolId accountId
  let db ← db.writeRegistryRow accountId
    (registeredRow entry (db.accountRegistry.lookup accountId))
  let db ← db.replaceMembership accountId entry.membership
  let db := db.dropContradictingHealth accountId entry.healthy
  let db := db.replaceRuntimePool accountId entry.membership
  if previousPoolId ≠ entry.membership.map (·.poolId) ∨ entry.membership = none ∨
      entry.enabled = false ∨ entry.healthy = false then
    return (accountId, db.releaseUnreleasedAccountLeases accountId (datetimeToEpochSeconds now))
  return (accountId, db)

/-- `legacy_provider_fingerprint`. -/
def legacyProviderFingerprint (accountKind : String) (workspaceId : Option String)
    (accountId : AccountId) : String :=
  "legacy:" ++ accountKind ++ ":" ++ workspaceId.getD "" ++ ":" ++ accountId

/-- The registry row that `upsert_account_registry_entry` writes over an existing one, if any. -/
def registryEntryRow (entry : AccountRegistryEntryUpdate) (existing : Option RegistryRow) :
    RegistryRow where
  poolId := entry.poolId
  position := entry.position
  accountKind := entry.accountKind
  backendFamily := entry.backendFamily
  workspaceId := entry.workspaceId
  backendId := "local"
  backendAccountHandle := entry.accountId
  providerFingerprint :=
    legacyProviderFingerprint entry.accountKind entry.workspaceId entry.accountId
  displayName := existing.bind (·.displayName)
  source := existing.bind (·.source)
  enabled := entry.enabled
  healthy := entry.healthy

/-- `upsert_account_registry_entry`. -/
def upsertAccountRegistryEntry (db : Db) (entry : AccountRegistryEntryUpdate) (now : Int) :
    Except String Db := do
  let previousPoolId := db.readEffectiveAccountPoolId entry.accountId
  let db ← db.writeRegistryRow entry.accountId
    (registryEntryRow entry (db.accountRegistry.lookup entry.accountId))
  let db ← db.upsertAccountPoolMembership entry.accountId entry.poolId entry.position
  let db := db.dropContradictingHealth entry.accountId entry.healthy
  let db := db.setRuntimePool entry.accountId entry.poolId
  if previousPoolId.any (· ≠ entry.poolId) ∨ entry.enabled = false ∨ entry.healthy = false then
    return db.releaseUnreleasedAccountLeases entry.accountId (datetimeToEpochSeconds now)
  return db

/-- `set_account_enabled`: whether the registry knows the account. -/
def setAccountEnabled (db : Db) (accountId : AccountId) (enabled : Bool) (now : Int) : Bool × Db :=
  let updated := decide (accountId ∈ db.accountRegistry)
  let db := { db with
    accountRegistry := updateKey accountId (fun row => { row with enabled }) db.accountRegistry }
  if updated && !enabled then
    (updated, db.releaseUnreleasedAccountLeases accountId (datetimeToEpochSeconds now))
  else (updated, db)

/-! ## Health events -/

/-- `excluded.last_health_event_sequence > account_runtime_state.last_health_event_sequence`: the
event is newer than the state recorded for its account. -/
def NewerEvent (db : Db) (event : AccountHealthEvent) : Prop :=
  ∀ row ∈ db.accountRuntimeState.lookup event.accountId,
    row.lastHealthEventSequence < event.sequenceNumber

instance (db : Db) (event : AccountHealthEvent) : Decidable (db.NewerEvent event) :=
  inferInstanceAs (Decidable (∀ row ∈ db.accountRuntimeState.lookup event.accountId,
    row.lastHealthEventSequence < event.sequenceNumber))

/-- The runtime state after an event: the event itself when it is newer than the state recorded,
and the recorded state otherwise. -/
def runtimeStateAfter (event : AccountHealthEvent) (existing : Option RuntimeStateRow) :
    RuntimeStateRow :=
  let fresh : RuntimeStateRow := {
    poolId := event.poolId
    healthState := event.healthState
    lastHealthEventSequence := event.sequenceNumber
    lastHealthEventAt := datetimeToEpochSeconds event.observedAt }
  match existing with
  | none => fresh
  | some row => if row.lastHealthEventSequence < event.sequenceNumber then fresh else row

/-- `record_account_health_event`. -/
def recordAccountHealthEvent (db : Db) (event : AccountHealthEvent) : Except String Db := do
  let hasMembership := (db.readAccountPoolMembershipRow event.accountId).isSome
  db.checkRegistered event.accountId
  let state := runtimeStateAfter event (db.accountRuntimeState.lookup event.accountId)
  let db := { db with
    accountRuntimeState := db.accountRuntimeState.insert event.accountId state
    accountRegistry := updateKey event.accountId (fun row => { row with
      poolId := if hasMembership then state.poolId else row.poolId
      healthy := state.healthState = .healthy }) db.accountRegistry }
  if hasMembership then
    let position := (db.readAccountPoolPosition event.accountId).getD 0
    let (_, db) ← db.syncAccountMembershipCompat event.accountId state.poolId position
    return db
  return db

/-- `read_account_health_event_sequence`. -/
def readAccountHealthEventSequence (db : Db) (accountId : AccountId) : Option Int :=
  (db.accountRuntimeState.lookup accountId).map (·.lastHealthEventSequence)

/-! ## Startup selection and the legacy import -/

/-- `read_account_startup_selection`. -/
def readAccountStartupSelection (db : Db) : AccountStartupSelectionState :=
  db.accountStartupSelection.getD {}

/-- `write_account_startup_selection`; the update replaces the selection. -/
def writeAccountStartupSelection (db : Db) (update : AccountStartupSelectionState) : Db :=
  { db with accountStartupSelection := some update }

/-- The registry row that `import_legacy_default_account` writes over an existing one, if any. -/
def legacyRow (accountId : AccountId) (existing : Option RegistryRow) : RegistryRow :=
  match existing with
  | some row =>
    if row.source.isSome || row.poolId = legacyDefaultPoolId then row
    else { row with source := some .migrated }
  | none => {
      poolId := legacyDefaultPoolId
      position := 0
      accountKind := "chatgpt"
      backendFamily := "chatgpt"
      workspaceId := none
      backendId := "local"
      backendAccountHandle := accountId
      providerFingerprint := legacyProviderFingerprint "chatgpt" none accountId
      displayName := none
      source := some .migrated
      enabled := true
      healthy := true }

/-- `import_legacy_default_account`. -/
def importLegacyDefaultAccount (db : Db) (accountId : AccountId) : Except String Db := do
  let existing := db.readAccountPoolMembershipRow accountId
  let poolId := (existing.map (·.poolId)).getD legacyDefaultPoolId
  let position := (existing.map (·.position)).getD 0
  let db ← db.writeRegistryRow accountId (legacyRow accountId (db.accountRegistry.lookup accountId))
  let db ← db.upsertAccountPoolMembership accountId poolId position
  let untouched : AccountStartupSelectionState := {}
  if db.readAccountStartupSelection = untouched then
    return { db with accountStartupSelection := some {
      defaultPoolId := some poolId, preferredAccountId := some accountId, suppressed := false } }
  return db

end Db

end Mcodex.AccountPool
