import Mcodex.AccountPool.Quota

/-!
# Lease operations of the account-pool store

Acquiring, renewing, releasing and reading leases, as `state/src/runtime/account_pool.rs` runs
them. An operation takes the clock readings it makes as arguments and returns its result with the
database it leaves; where its transaction is dropped instead of committed, that is the database it
found.
-/

namespace Mcodex.AccountPool

open Table

/-- `RequestedLeaseQuotaCheck`. -/
inductive RequestedLeaseQuotaCheck where
  | selectionFamily (selectionFamily : LimitId)
  | reservedProbe (limitId : LimitId) (reservedUntil : Int)
  deriving DecidableEq, Repr

namespace Db

/-! ## Reads -/

/-- `load_lease`. -/
def loadLease (db : Db) (leaseId : Nat) : Option AccountLeaseRecord :=
  (db.accountLeases.rows.find? (·.leaseId = leaseId)).map (·.record)

/-- `ORDER BY acquired_at DESC, lease_id DESC`. -/
def newestFirst (r r' : LeaseRow) : Prop :=
  r'.acquiredAt < r.acquiredAt ∨ r'.acquiredAt = r.acquiredAt ∧ r'.leaseId ≤ r.leaseId

instance : DecidableRel newestFirst := fun _ _ => inferInstanceAs (Decidable (_ ∨ _))

/-- `load_active_holder_lease`. -/
def loadActiveHolderLease (db : Db) (holderInstanceId : HolderId) (now : Int) :
    Option AccountLeaseRecord :=
  let held := db.accountLeases.rows.filter fun r =>
    r.holderInstanceId = holderInstanceId ∧ r.LiveAt (datetimeToEpochSeconds now)
  ((held.insertionSort newestFirst).head?).map (·.record)

/-- `account_has_active_lease`. -/
def accountHasActiveLease (db : Db) (accountId : AccountId) (now : Int) : Bool :=
  db.accountLeases.rows.any fun r =>
    r.accountId = accountId ∧ r.LiveAt (datetimeToEpochSeconds now)

/-- `EXISTS (SELECT 1 FROM account_leases WHERE account_id = … AND released_at IS NULL)`. -/
def hasUnreleasedLease (db : Db) (accountId : AccountId) : Bool :=
  db.accountLeases.rows.any fun r => r.accountId = accountId ∧ r.Unreleased

/-- `COALESCE(account_runtime_state.health_state, '') != 'unauthorized'`. -/
def Authorized (db : Db) (accountId : AccountId) : Prop :=
  ∀ row ∈ db.accountRuntimeState.lookup accountId, row.healthState ≠ .unauthorized

instance (db : Db) (accountId : AccountId) : Decidable (db.Authorized accountId) :=
  inferInstanceAs (Decidable (∀ row ∈ db.accountRuntimeState.lookup accountId, _))

/-- `account_registry.enabled = 1` of a registered account. -/
def Enabled (db : Db) (accountId : AccountId) : Prop :=
  ∃ row ∈ db.accountRegistry.lookup accountId, row.enabled = true

instance (db : Db) (accountId : AccountId) : Decidable (db.Enabled accountId) :=
  inferInstanceAs (Decidable (∃ row ∈ db.accountRegistry.lookup accountId, _))

/-- A membership row under its key, as the pool queries enumerate them. -/
structure Member where
  accountId : AccountId
  position : Int
  deriving DecidableEq, Repr

/-- `ORDER BY membership.position ASC, membership.account_id ASC`. -/
def Member.Before (m m' : Member) : Prop :=
  m.position < m'.position ∨ m.position = m'.position ∧ m.accountId ≤ m'.accountId

instance : DecidableRel Member.Before := fun _ _ => inferInstanceAs (Decidable (_ ∨ _))

/-- `FROM account_pool_membership JOIN account_registry WHERE pool_id = …`, in the order of the
pool queries. -/
def poolMembers (db : Db) (poolId : PoolId) : List Member :=
  let members := db.accountPoolMembership.entries.filter fun e =>
    e.2.poolId = poolId ∧ e.1 ∈ db.accountRegistry
  (members.map fun e => (⟨e.1, e.2.position⟩ : Member)).insertionSort Member.Before

/-! ## Acquisition -/

/-- `release_expired_account_leases`. -/
def releaseExpiredAccountLeases (db : Db) (now : Int) : Db :=
  { db with
    accountLeases := db.accountLeases.updateUnreleased
      (fun r => r.expiresAt ≤ datetimeToEpochSeconds now)
      (.release (datetimeToEpochSeconds now)) }

/-- Columns of the lease that a holder asks for. -/
def leaseDraft (accountId : AccountId) (poolId : PoolId) (holderInstanceId : HolderId)
    (now leaseTtl : Int) : LeaseTable.Draft where
  accountId := accountId
  poolId := poolId
  holderInstanceId := holderInstanceId
  acquiredAt := datetimeToEpochSeconds now
  expiresAt := datetimeToEpochSeconds (now + leaseTtl)

/-- Outcome of an `INSERT INTO account_leases … SELECT`. -/
inductive InsertOutcome where
  | inserted (lease : AccountLeaseRecord) (db : Db)
  | noRow
  | contention

/-- Insert the lease for the account that the `SELECT` of the statement yields, if any; a violated
unique index is the contention error. -/
def insertLease (db : Db) (accountId : Option AccountId) (poolId : PoolId)
    (holderInstanceId : HolderId) (now leaseTtl : Int) : InsertOutcome :=
  match accountId with
  | none => .noRow
  | some accountId =>
    let draft := leaseDraft accountId poolId holderInstanceId now leaseTtl
    match db.accountLeases.insert draft with
    | some leases =>
      .inserted (db.accountLeases.draftRow draft).record { db with accountLeases := leases }
    | none => .contention

/-- The filters that the automatic queries share: the account is enabled, authorized, and its own
family's quota is open. -/
def AutomaticallyEligible (db : Db) (accountId : AccountId) : Prop :=
  db.Enabled accountId ∧ db.Authorized accountId ∧
    ∀ row ∈ db.accountRegistry.lookup accountId, db.QuotaOpen accountId row.backendFamily

instance (db : Db) : DecidablePred db.AutomaticallyEligible :=
  fun accountId => inferInstanceAs (Decidable (db.Enabled accountId ∧ _ ∧
    ∀ row ∈ db.accountRegistry.lookup accountId, db.QuotaOpen accountId row.backendFamily))

/-- The account that `insert_next_eligible_lease` selects. -/
def nextEligibleAccount (db : Db) (poolId : PoolId) (excluded : List AccountId) :
    Option AccountId :=
  ((db.poolMembers poolId).find? fun m : Member =>
    db.AutomaticallyEligible m.accountId ∧ db.hasUnreleasedLease m.accountId = false ∧
      m.accountId ∉ excluded).map (·.accountId)

/-- `acquire_account_lease_excluding`; `retryNow` is the second clock reading, made when the
insertion meets a unique index. -/
def acquireAccountLeaseExcluding (db : Db) (poolId : PoolId) (holderInstanceId : HolderId)
    (leaseTtl : Int) (excluded : List AccountId) (now retryNow : Int) :
    Except AccountLeaseError AccountLeaseRecord × Db :=
  let tx := db.releaseExpiredAccountLeases now
  match tx.loadActiveHolderLease holderInstanceId now with
  | some existing =>
    if existing.accountId ∈ excluded then (.error .noEligibleAccount, tx) else (.ok existing, tx)
  | none =>
    match tx.insertLease (tx.nextEligibleAccount poolId excluded) poolId holderInstanceId now
        leaseTtl with
    | .inserted lease tx => (.ok lease, tx)
    | .noRow => (.error .noEligibleAccount, db)
    | .contention =>
      match db.loadActiveHolderLease holderInstanceId retryNow with
      | some existing =>
        if existing.accountId ∈ excluded then (.error .noEligibleAccount, db)
        else (.ok existing, db)
      | none => (.error .noEligibleAccount, db)

/-- The quota filter of `insert_requested_lease`. -/
def RequestedQuotaOpen (db : Db) (accountId : AccountId) : RequestedLeaseQuotaCheck → Prop
  | .selectionFamily family => db.QuotaOpen accountId family
  | .reservedProbe limitId reservedUntil =>
    ∃ row ∈ db.accountQuotaState.lookup (accountId, limitId), row.exhaustedWindows ≠ .none ∧
      row.nextProbeAfter = some (datetimeToEpochSeconds reservedUntil)

instance (db : Db) (accountId : AccountId) (check : RequestedLeaseQuotaCheck) :
    Decidable (db.RequestedQuotaOpen accountId check) := by
  cases check
  · exact inferInstanceAs (Decidable (db.QuotaOpen accountId _))
  · exact inferInstanceAs (Decidable (∃ row ∈ db.accountQuotaState.lookup _, _))

/-- The rows of `account_pool_membership` that `insert_requested_lease` selects from: the account
itself, where it is a member of the pool that the filters let through. -/
def Requestable (db : Db) (poolId : PoolId) (accountId : AccountId)
    (check : RequestedLeaseQuotaCheck) : Prop :=
  (∃ row ∈ db.accountPoolMembership.lookup accountId, row.poolId = poolId) ∧
    db.Enabled accountId ∧ db.Authorized accountId ∧ db.RequestedQuotaOpen accountId check ∧
    db.hasUnreleasedLease accountId = false

instance (db : Db) (poolId : PoolId) (accountId : AccountId) (check : RequestedLeaseQuotaCheck) :
    Decidable (db.Requestable poolId accountId check) :=
  inferInstanceAs (Decidable ((∃ row ∈ db.accountPoolMembership.lookup accountId, _) ∧ _))

/-- The lease a holder already has, which only an ordinary acquisition looks for. -/
def existingLease (db : Db) (check : RequestedLeaseQuotaCheck) (holderInstanceId : HolderId)
    (now : Int) : Option AccountLeaseRecord :=
  match check with
  | .selectionFamily _ => db.loadActiveHolderLease holderInstanceId now
  | .reservedProbe .. => none

/-- `acquire_requested_account_lease`. -/
def acquireRequestedAccountLease (db : Db) (poolId : PoolId) (accountId : AccountId)
    (holderInstanceId : HolderId) (leaseTtl : Int) (check : RequestedLeaseQuotaCheck)
    (now retryNow : Int) : Except AccountLeaseError AccountLeaseRecord × Db :=
  let tx := db.releaseExpiredAccountLeases now
  match tx.existingLease check holderInstanceId now with
  | some existing => (.ok existing, tx)
  | none =>
    let selected := if tx.Requestable poolId accountId check then some accountId else none
    match tx.insertLease selected poolId holderInstanceId now leaseTtl with
    | .inserted lease tx => (.ok lease, tx)
    | .noRow => (.error .noEligibleAccount, db)
    | .contention =>
      match db.existingLease check holderInstanceId retryNow with
      | some existing => (.ok existing, db)
      | none => (.error .noEligibleAccount, db)

/-- `acquire_preferred_account_lease`. -/
def acquirePreferredAccountLease (db : Db) (poolId : PoolId) (accountId : AccountId)
    (selectionFamily : LimitId) (holderInstanceId : HolderId) (leaseTtl now retryNow : Int) :
    Except AccountLeaseError AccountLeaseRecord × Db :=
  db.acquireRequestedAccountLease poolId accountId holderInstanceId leaseTtl
    (.selectionFamily selectionFamily) now retryNow

/-- `acquire_quota_probe_account_lease`. -/
def acquireQuotaProbeAccountLease (db : Db) (poolId : PoolId) (accountId : AccountId)
    (limitId : LimitId) (reservedUntil : Int) (holderInstanceId : HolderId)
    (leaseTtl now retryNow : Int) : Except AccountLeaseError AccountLeaseRecord × Db :=
  db.acquireRequestedAccountLease poolId accountId holderInstanceId leaseTtl
    (.reservedProbe limitId reservedUntil) now retryNow

/-! ## Renewal and release -/

/-- The rows that a lease key names. -/
def namedBy (key : LeaseKey) (r : LeaseRow) : Bool :=
  r.leaseId = key.leaseId && r.accountId = key.accountId && r.leaseEpoch = key.leaseEpoch

/-- `renew_account_lease`. -/
def renewAccountLease (db : Db) (key : LeaseKey) (now leaseTtl : Int) : LeaseRenewal × Db :=
  let renewable := fun r : LeaseRow => namedBy key r && datetimeToEpochSeconds now < r.expiresAt
  if db.accountLeases.rowsAffected renewable = 0 then (.missing, db)
  else
    let db := { db with
      accountLeases := db.accountLeases.updateUnreleased renewable
        (.renew (datetimeToEpochSeconds now) (datetimeToEpochSeconds (now + leaseTtl))) }
    match db.loadLease key.leaseId with
    | some record => (.renewed record, db)
    | none => (.missing, db)

/-- `release_account_lease`: whether the lease was held. -/
def releaseAccountLease (db : Db) (key : LeaseKey) (now : Int) : Bool × Db :=
  if db.accountLeases.rowsAffected (namedBy key) = 0 then (false, db)
  else (true, { db with
    accountLeases := db.accountLeases.updateUnreleased (namedBy key)
      (.release (datetimeToEpochSeconds now)) })

end Db

end Mcodex.AccountPool
