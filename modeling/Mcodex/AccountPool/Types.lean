import Mathlib.Data.Rat.Defs
import Mathlib.Algebra.Order.Ring.Unbundled.Rat

/-!
# Records of the account pool

The identifiers, instants and records that the account-pool store and its callers exchange. An
instant (`DateTime<Utc>`) and a `Duration` are `Int`s, nanoseconds since the Unix epoch and
nanoseconds; the store's columns keep whole seconds, so a record read back holds its instants
rounded down. Lease ids (`Uuid::new_v4`) are numbered in the order their rows are inserted.
-/

namespace Mcodex.AccountPool

/-! ## Identifiers and instants -/

abbrev AccountId := String
abbrev PoolId := String
abbrev HolderId := String
abbrev LimitId := String

/-- `Duration::seconds`. -/
def seconds (n : Int) : Int := n * 1000000000

/-- `DateTime::timestamp`: the instant in whole seconds, rounded down. -/
def datetimeToEpochSeconds (t : Int) : Int := t / 1000000000

/-- `DateTime::from_timestamp(value, 0)`. -/
def epochSecondsToDatetime (s : Int) : Int := s * 1000000000

theorem datetimeToEpochSeconds_mono {t t' : Int} (h : t ≤ t') :
    datetimeToEpochSeconds t ≤ datetimeToEpochSeconds t' :=
  Int.ediv_le_ediv (by decide) h

theorem epochSecondsToDatetime_le_iff {t s : Int} :
    epochSecondsToDatetime s ≤ t ↔ s ≤ datetimeToEpochSeconds t := by
  simp only [datetimeToEpochSeconds, epochSecondsToDatetime]
  omega

/-! ## Leases -/

/-- `LeaseKey`: stable identity for renewing an existing lease. -/
structure LeaseKey where
  leaseId : Nat
  accountId : AccountId
  leaseEpoch : Nat
  deriving DecidableEq, Repr

/-- `AccountLeaseRecord`: persisted lease for an account in a local pool. -/
structure AccountLeaseRecord where
  leaseId : Nat
  poolId : PoolId
  accountId : AccountId
  holderInstanceId : HolderId
  leaseEpoch : Nat
  acquiredAt : Int
  renewedAt : Int
  expiresAt : Int
  releasedAt : Option Int
  deriving DecidableEq, Repr

/-- `AccountLeaseRecord::lease_key`. -/
def AccountLeaseRecord.leaseKey (lease : AccountLeaseRecord) : LeaseKey where
  leaseId := lease.leaseId
  accountId := lease.accountId
  leaseEpoch := lease.leaseEpoch

/-- `LeaseRenewal`. -/
inductive LeaseRenewal where
  | renewed (record : AccountLeaseRecord)
  | missing
  deriving DecidableEq, Repr

/-- `AccountLeaseError`. -/
inductive AccountLeaseError where
  | noEligibleAccount
  | storage (message : String)
  deriving DecidableEq, Repr

/-! ## Accounts -/

/-- `AccountHealthState`. -/
inductive AccountHealthState where
  | healthy
  | rateLimited
  | unauthorized
  deriving DecidableEq, Repr

/-- `AccountHealthEvent`: monotonic health event recorded against an account. -/
structure AccountHealthEvent where
  accountId : AccountId
  poolId : PoolId
  healthState : AccountHealthState
  sequenceNumber : Int
  observedAt : Int
  deriving DecidableEq, Repr

/-- `AccountSource`. -/
inductive AccountSource where
  | migrated
  deriving DecidableEq, Repr

/-- `AccountPoolMembershipRow`: a membership joined with its registry row. -/
structure AccountPoolMembershipRow where
  accountId : AccountId
  poolId : PoolId
  position : Int
  source : Option AccountSource
  enabled : Bool
  healthy : Bool
  deriving DecidableEq, Repr

/-- `RegisteredAccountRecord`: registry row of one pooled account. -/
structure RegisteredAccountRecord where
  accountId : AccountId
  backendId : String
  backendFamily : String
  workspaceId : Option String
  backendAccountHandle : String
  accountKind : String
  providerFingerprint : String
  displayName : Option String
  source : Option AccountSource
  enabled : Bool
  healthy : Bool
  deriving DecidableEq, Repr

/-- `RegisteredAccountMembership`. -/
structure RegisteredAccountMembership where
  poolId : PoolId
  position : Int
  deriving DecidableEq, Repr

/-- `RegisteredAccountUpsert`: full replacement update for one registered account. -/
structure RegisteredAccountUpsert where
  accountId : AccountId
  backendId : String
  backendFamily : String
  workspaceId : Option String
  backendAccountHandle : String
  accountKind : String
  providerFingerprint : String
  displayName : Option String
  source : Option AccountSource
  enabled : Bool
  healthy : Bool
  membership : Option RegisteredAccountMembership
  deriving DecidableEq, Repr

/-- `AccountRegistryEntryUpdate`: full replacement update for one registry entry. -/
structure AccountRegistryEntryUpdate where
  accountId : AccountId
  poolId : PoolId
  position : Int
  accountKind : String
  backendFamily : String
  workspaceId : Option String
  enabled : Bool
  healthy : Bool
  deriving DecidableEq, Repr

/-! ## Startup selection -/

/-- `AccountStartupSelectionState`: the startup selection kept across launches; its `Default` is
the state of a store without the row. -/
structure AccountStartupSelectionState where
  defaultPoolId : Option PoolId := none
  preferredAccountId : Option AccountId := none
  suppressed : Bool := false
  deriving DecidableEq, Repr

/-- `AccountStartupEligibility`. -/
inductive AccountStartupEligibility where
  | suppressed
  | missingPool
  | preferredAccountSelected
  | automaticAccountSelected
  | preferredAccountMissing
  | preferredAccountInOtherPool (actualPoolId : PoolId)
  | preferredAccountDisabled
  | preferredAccountUnhealthy
  | preferredAccountBusy
  | noEligibleAccount
  deriving DecidableEq, Repr

/-- `AccountStartupSelectionPreview`: what a fresh runtime would select. -/
structure AccountStartupSelectionPreview where
  effectivePoolId : Option PoolId
  preferredAccountId : Option AccountId
  suppressed : Bool
  predictedAccountId : Option AccountId
  eligibility : AccountStartupEligibility
  deriving DecidableEq, Repr

/-! ## Quota -/

/-- `QuotaExhaustedWindows`: latest known exhausted quota windows for one family. -/
inductive QuotaExhaustedWindows where
  | none
  | primary
  | secondary
  | both
  | unknown
  deriving DecidableEq, Repr

/-- `QuotaExhaustedWindows::is_exhausted`. -/
def QuotaExhaustedWindows.isExhausted : QuotaExhaustedWindows → Bool
  | .none => false
  | _ => true

/-- `QuotaProbeResult`. -/
inductive QuotaProbeResult where
  | success
  | stillBlocked
  | ambiguous
  deriving DecidableEq, Repr

/-- `AccountQuotaStateRecord`: durable quota facts for one limit family, percentages exact. -/
structure AccountQuotaStateRecord where
  accountId : AccountId
  limitId : LimitId
  primaryUsedPercent : Option ℚ
  primaryResetsAt : Option Int
  secondaryUsedPercent : Option ℚ
  secondaryResetsAt : Option Int
  observedAt : Int
  exhaustedWindows : QuotaExhaustedWindows
  predictedBlockedUntil : Option Int
  nextProbeAfter : Option Int
  probeBackoffLevel : Int
  lastProbeResult : Option QuotaProbeResult
  deriving DecidableEq, Repr

/-- `AccountQuotaProbeObservation`: ties a probe's observation to the reservation it verified. -/
structure AccountQuotaProbeObservation where
  observedAt : Int
  reservedUntil : Int
  deriving DecidableEq, Repr

/-- `AccountQuotaProbeBackoff`. -/
structure AccountQuotaProbeBackoff where
  predictedBlockedUntil : Int
  nextProbeAfter : Int
  deriving DecidableEq, Repr

/-- `AccountQuotaProbeStillBlocked`. -/
structure AccountQuotaProbeStillBlocked where
  exhaustedWindows : QuotaExhaustedWindows
  predictedBlockedUntil : Option Int
  nextProbeAfter : Int
  deriving DecidableEq, Repr

end Mcodex.AccountPool
