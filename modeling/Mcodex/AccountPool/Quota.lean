import Mcodex.AccountPool.Store

/-!
# Quota rows of the account-pool store

The statements of `state/src/runtime/account_pool_quota.rs`. An account has one quota row for each
limit family; readers that ask for a family fall back on the `codex` row. A runtime that means to
probe an exhausted account first reserves the row by moving `next_probe_after`, and the probe's
result is recorded only while the reservation stands.
-/

namespace Mcodex.AccountPool

open Table

/-- `COMPAT_QUOTA_LIMIT_ID`. -/
def compatQuotaLimitId : LimitId := "codex"

/-- The record that `account_quota_state_record_from_row` reads. -/
def QuotaRow.record (accountId : AccountId) (limitId : LimitId) (row : QuotaRow) :
    AccountQuotaStateRecord where
  accountId := accountId
  limitId := limitId
  primaryUsedPercent := row.primaryUsedPercent
  primaryResetsAt := row.primaryResetsAt.map epochSecondsToDatetime
  secondaryUsedPercent := row.secondaryUsedPercent
  secondaryResetsAt := row.secondaryResetsAt.map epochSecondsToDatetime
  observedAt := row.observedAtNanos
  exhaustedWindows := row.exhaustedWindows
  predictedBlockedUntil := row.predictedBlockedUntil.map epochSecondsToDatetime
  nextProbeAfter := row.nextProbeAfter.map epochSecondsToDatetime
  probeBackoffLevel := row.probeBackoffLevel
  lastProbeResult := row.lastProbeResult

namespace Db

/-! ## Reads -/

/-- `read_account_quota_state`. -/
def readAccountQuotaState (db : Db) (accountId : AccountId) (limitId : LimitId) :
    Option AccountQuotaStateRecord :=
  (db.accountQuotaState.lookup (accountId, limitId)).map (·.record accountId limitId)

/-- `read_selection_quota_state`: the family's row, else the `codex` row. -/
def readSelectionQuotaState (db : Db) (accountId : AccountId) (selectionFamily : LimitId) :
    Option AccountQuotaStateRecord :=
  match db.readAccountQuotaState accountId selectionFamily with
  | some selected => some selected
  | none =>
    if selectionFamily = compatQuotaLimitId then none
    else db.readAccountQuotaState accountId compatQuotaLimitId

/-- `COALESCE(NULLIF(selection_family, ''), 'codex')`. -/
def normalizedSelectionFamily (selectionFamily : LimitId) : LimitId :=
  if selectionFamily = "" then compatQuotaLimitId else selectionFamily

/-- `read_account_selection_family`: the family of the account's backend. -/
def readAccountSelectionFamily (db : Db) (accountId : AccountId) : LimitId :=
  match db.accountRegistry.lookup accountId with
  | some row => normalizedSelectionFamily row.backendFamily
  | none => compatQuotaLimitId

/-- `read_registered_account_selection_quota_state`. -/
def readRegisteredAccountSelectionQuotaState (db : Db) (accountId : AccountId) :
    Option AccountQuotaStateRecord :=
  db.readSelectionQuotaState accountId (db.readAccountSelectionFamily accountId)

/-- The row that `selection_quota_state_joins_sql` joins to an account: the row of the normalized
family, else the `codex` row. -/
def joinedQuotaRow (db : Db) (accountId : AccountId) (selectionFamily : LimitId) :
    Option QuotaRow :=
  (db.accountQuotaState.lookup (accountId, normalizedSelectionFamily selectionFamily)).or
    (db.accountQuotaState.lookup (accountId, compatQuotaLimitId))

/-- `COALESCE(exhausted_windows, 'none') = 'none'` of the joined row. -/
def QuotaOpen (db : Db) (accountId : AccountId) (selectionFamily : LimitId) : Prop :=
  ∀ row ∈ db.joinedQuotaRow accountId selectionFamily, row.exhaustedWindows = .none

instance (db : Db) (accountId : AccountId) (selectionFamily : LimitId) :
    Decidable (db.QuotaOpen accountId selectionFamily) :=
  inferInstanceAs (Decidable (∀ row ∈ db.joinedQuotaRow accountId selectionFamily, _))

/-! ## Writes -/

/-- `upsert_account_quota_state`: the newest observation is kept. -/
def upsertAccountQuotaState (db : Db) (record : AccountQuotaStateRecord) : Except String Db := do
  let exhausted := record.exhaustedWindows.isExhausted
  let row : QuotaRow := {
    primaryUsedPercent := record.primaryUsedPercent
    primaryResetsAt := record.primaryResetsAt.map datetimeToEpochSeconds
    secondaryUsedPercent := record.secondaryUsedPercent
    secondaryResetsAt := record.secondaryResetsAt.map datetimeToEpochSeconds
    observedAtNanos := record.observedAt
    exhaustedWindows := record.exhaustedWindows
    predictedBlockedUntil :=
      if exhausted then record.predictedBlockedUntil.map datetimeToEpochSeconds else none
    nextProbeAfter :=
      if exhausted then record.nextProbeAfter.map datetimeToEpochSeconds else none
    probeBackoffLevel := 0
    lastProbeResult := none }
  db.checkRegistered record.accountId
  let key := (record.accountId, record.limitId)
  if (db.accountQuotaState.lookup key).all (·.observedAtNanos ≤ record.observedAt) then
    return { db with accountQuotaState := db.accountQuotaState.insert key row }
  return db

/-- `UPDATE account_quota_state SET f WHERE account_id, limit_id AND cond`; whether a row was
updated. -/
def updateQuotaWhere (db : Db) (accountId : AccountId) (limitId : LimitId)
    (cond : QuotaRow → Bool) (f : QuotaRow → QuotaRow) : Bool × Db :=
  match db.accountQuotaState.lookup (accountId, limitId) with
  | some row =>
    if cond row then
      (true, { db with
        accountQuotaState := db.accountQuotaState.insert (accountId, limitId) (f row) })
    else (false, db)
  | none => (false, db)

/-- `reserve_account_quota_probe`. -/
def reserveAccountQuotaProbe (db : Db) (accountId : AccountId) (limitId : LimitId)
    (now reservedUntil : Int) : Bool × Db :=
  db.updateQuotaWhere accountId limitId
    (fun row => row.exhaustedWindows ≠ .none &&
      row.nextProbeAfter.getD 0 ≤ datetimeToEpochSeconds now)
    fun row => { row with nextProbeAfter := some (datetimeToEpochSeconds reservedUntil) }

/-- The guard of the three probe results: no newer observation was recorded, and the reservation
of the probe stands. -/
def probeResultGuard (observation : AccountQuotaProbeObservation) (row : QuotaRow) : Bool :=
  row.observedAtNanos ≤ observation.observedAt &&
    row.nextProbeAfter = some (datetimeToEpochSeconds observation.reservedUntil)

/-- `record_account_quota_probe_success`. -/
def recordAccountQuotaProbeSuccess (db : Db) (accountId : AccountId) (limitId : LimitId)
    (observation : AccountQuotaProbeObservation) : Bool × Db :=
  db.updateQuotaWhere accountId limitId (probeResultGuard observation) fun row =>
    { row with
      observedAtNanos := observation.observedAt
      exhaustedWindows := .none
      predictedBlockedUntil := none
      nextProbeAfter := none
      probeBackoffLevel := 0
      lastProbeResult := some .success }

/-- `record_account_quota_probe_still_blocked`; a probe cannot report an open window here. -/
def recordAccountQuotaProbeStillBlocked (db : Db) (accountId : AccountId) (limitId : LimitId)
    (observation : AccountQuotaProbeObservation) (update : AccountQuotaProbeStillBlocked) :
    Bool × Db :=
  db.updateQuotaWhere accountId limitId (probeResultGuard observation) fun row =>
    { row with
      observedAtNanos := observation.observedAt
      exhaustedWindows :=
        if update.exhaustedWindows.isExhausted then update.exhaustedWindows else .unknown
      predictedBlockedUntil := update.predictedBlockedUntil.map datetimeToEpochSeconds
      nextProbeAfter := some (datetimeToEpochSeconds update.nextProbeAfter)
      probeBackoffLevel := 0
      lastProbeResult := some .stillBlocked }

/-- `record_account_quota_probe_ambiguous`. -/
def recordAccountQuotaProbeAmbiguous (db : Db) (accountId : AccountId) (limitId : LimitId)
    (observation : AccountQuotaProbeObservation) (backoff : AccountQuotaProbeBackoff) :
    Bool × Db :=
  db.updateQuotaWhere accountId limitId (probeResultGuard observation) fun row =>
    { row with
      observedAtNanos := observation.observedAt
      exhaustedWindows :=
        if row.exhaustedWindows = .none then .unknown else row.exhaustedWindows
      predictedBlockedUntil := some (datetimeToEpochSeconds backoff.predictedBlockedUntil)
      nextProbeAfter := some (datetimeToEpochSeconds backoff.nextProbeAfter)
      probeBackoffLevel := row.probeBackoffLevel + 1
      lastProbeResult := some .ambiguous }

end Db

end Mcodex.AccountPool
