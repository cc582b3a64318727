import Mcodex.AccountPool.StoreSpec

/-!
# Live leases

What the lease operations do in terms of the rows that are live at an instant. Releasing the expired
rows leaves exactly the live ones unreleased, so an ordinary acquisition never meets a unique index:
it hands out the holder's live lease, inserts a lease for an account that has no live one, or finds
the account filtered out (`acquirePreferredAccountLease_cases`).
-/

namespace Mcodex.AccountPool

theorem LeaseRow.LiveAt.mono {r : LeaseRow} {now now' : Int} (h : now ≤ now')
    (hr : r.LiveAt (datetimeToEpochSeconds now')) : r.LiveAt (datetimeToEpochSeconds now) :=
  ⟨hr.1, lt_of_le_of_lt (datetimeToEpochSeconds_mono h) hr.2⟩

/-- A lease of a second at least outlives the second it is made in. -/
theorem lt_datetimeToEpochSeconds_add {t now ttl : Int} (h : t ≤ now) (httl : seconds 1 ≤ ttl) :
    datetimeToEpochSeconds t < datetimeToEpochSeconds (now + ttl) := by
  simp only [datetimeToEpochSeconds, seconds] at *
  omega

namespace Db

section
variable {db db' : Db} {poolId : PoolId} {accountId : AccountId} {family : LimitId}
  {holder : HolderId} {leaseTtl now retryNow t : Int} {lease : AccountLeaseRecord} {r : LeaseRow}

/-! ## Reads -/

theorem loadActiveHolderLease_eq_some (h : db.loadActiveHolderLease holder now = some lease) :
    ∃ r ∈ db.accountLeases.rows, r.record = lease ∧ r.holderInstanceId = holder ∧
      r.LiveAt (datetimeToEpochSeconds now) := by
  obtain ⟨r, hr, hrec⟩ := Option.map_eq_some_iff.1 h
  have hmem := List.mem_of_head? hr
  rw [List.mem_insertionSort, List.mem_filter] at hmem
  obtain ⟨hmem, hlive⟩ := hmem
  simp only [decide_eq_true_eq] at hlive
  exact ⟨r, hmem, hrec, hlive⟩

theorem loadActiveHolderLease_eq_none : db.loadActiveHolderLease holder now = none ↔
    ∀ r ∈ db.accountLeases.rows, r.holderInstanceId = holder →
      ¬r.LiveAt (datetimeToEpochSeconds now) := by
  unfold loadActiveHolderLease
  rw [Option.map_eq_none_iff, List.head?_eq_none_iff, ← List.length_eq_zero_iff,
    List.length_insertionSort, List.length_eq_zero_iff, List.filter_eq_nil_iff]
  simp

/-- The live lease of a holder is the one that is loaded. -/
theorem loadActiveHolderLease_of_live (hr : r ∈ db.accountLeases.rows)
    (hholder : r.holderInstanceId = holder) (hlive : r.LiveAt (datetimeToEpochSeconds now)) :
    db.loadActiveHolderLease holder now = some r.record := by
  cases h : db.loadActiveHolderLease holder now with
  | none => exact absurd hlive (loadActiveHolderLease_eq_none.1 h r hr hholder)
  | some lease =>
    obtain ⟨r', hr', rfl, hholder', hlive'⟩ := loadActiveHolderLease_eq_some h
    rw [db.accountLeases.activeHolder.eq_of_mem hr hr' hlive.1 hlive'.1
      (hholder.trans hholder'.symm)]

theorem accountHasActiveLease_eq_false : db.accountHasActiveLease accountId now = false ↔
    ∀ r ∈ db.accountLeases.rows, r.accountId = accountId →
      ¬r.LiveAt (datetimeToEpochSeconds now) := by
  simp [accountHasActiveLease]

/-! ## Expiry -/

/-- Releasing the expired rows leaves the live ones unreleased. -/
theorem mem_releaseExpiredAccountLeases :
    r ∈ (db.releaseExpiredAccountLeases now).accountLeases.rows ∧ r.Unreleased ↔
      r ∈ db.accountLeases.rows ∧ r.LiveAt (datetimeToEpochSeconds now) := by
  refine LeaseTable.mem_release_unreleased.trans (and_congr_right fun _ => and_congr_right fun _ => ?_)
  simp

theorem mem_releaseExpiredAccountLeases_liveAt :
    (r ∈ (db.releaseExpiredAccountLeases now).accountLeases.rows ∧
      r.LiveAt (datetimeToEpochSeconds now)) ↔
      r ∈ db.accountLeases.rows ∧ r.LiveAt (datetimeToEpochSeconds now) := by
  constructor
  · rintro ⟨hr, hlive⟩
    exact mem_releaseExpiredAccountLeases.1 ⟨hr, hlive.1⟩
  · rintro ⟨hr, hlive⟩
    exact ⟨(mem_releaseExpiredAccountLeases.2 ⟨hr, hlive⟩).1, hlive⟩

theorem loadActiveHolderLease_releaseExpired :
    (db.releaseExpiredAccountLeases now).loadActiveHolderLease holder now =
      db.loadActiveHolderLease holder now := by
  cases h : db.loadActiveHolderLease holder now with
  | none =>
    refine loadActiveHolderLease_eq_none.2 fun r hr hholder hlive => ?_
    obtain ⟨hr, hlive⟩ := mem_releaseExpiredAccountLeases_liveAt.1 ⟨hr, hlive⟩
    exact loadActiveHolderLease_eq_none.1 h r hr hholder hlive
  | some lease =>
    obtain ⟨r, hr, rfl, hholder, hlive⟩ := loadActiveHolderLease_eq_some h
    exact loadActiveHolderLease_of_live
      (mem_releaseExpiredAccountLeases_liveAt.2 ⟨hr, hlive⟩).1 hholder hlive

theorem hasUnreleasedLease_releaseExpired :
    (db.releaseExpiredAccountLeases now).hasUnreleasedLease accountId = false ↔
      db.accountHasActiveLease accountId now = false := by
  rw [accountHasActiveLease_eq_false]
  simp only [hasUnreleasedLease, List.any_eq_false, decide_eq_true_eq, not_and]
  constructor
  · intro h r hr ha hlive
    obtain ⟨hr', hu⟩ := mem_releaseExpiredAccountLeases.2 ⟨hr, hlive⟩
    exact h r hr' ha hu
  · intro h r hr ha hu
    obtain ⟨hr', hlive⟩ := mem_releaseExpiredAccountLeases.1 ⟨hr, hu⟩
    exact h r hr' ha hlive

/-! ## Acquisition -/

/-- An account that may be leased at an instant: a member of the pool that passes the filters and
has no live lease. -/
structure LeasableAt (db : Db) (poolId : PoolId) (accountId : AccountId)
    (check : RequestedLeaseQuotaCheck) (now : Int) : Prop where
  pool : db.poolOf accountId = some poolId
  enabled : db.Enabled accountId
  authorized : db.Authorized accountId
  quota : db.RequestedQuotaOpen accountId check
  unleased : db.accountHasActiveLease accountId now = false

theorem requestable_releaseExpired {check : RequestedLeaseQuotaCheck} :
    (db.releaseExpiredAccountLeases now).Requestable poolId accountId check ↔
      db.LeasableAt poolId accountId check now := by
  have hpool : (∃ row ∈ db.accountPoolMembership.lookup accountId, row.poolId = poolId) ↔
      db.poolOf accountId = some poolId := Option.map_eq_some_iff.symm
  have hquota : (db.releaseExpiredAccountLeases now).RequestedQuotaOpen accountId check ↔
      db.RequestedQuotaOpen accountId check := by cases check <;> exact Iff.rfl
  unfold Requestable
  rw [hasUnreleasedLease_releaseExpired, hquota]
  constructor
  · rintro ⟨hp, he, ha, hq, hl⟩
    exact ⟨hpool.1 hp, he, ha, hq, hl⟩
  · rintro ⟨hp, he, ha, hq, hl⟩
    exact ⟨hpool.2 hp, he, ha, hq, hl⟩

/-- The unique indexes admit the lease of an account without live leases to a holder without live
leases. -/
theorem admits_releaseExpired (hholder : db.loadActiveHolderLease holder now = none)
    (haccount : db.accountHasActiveLease accountId now = false) :
    (db.releaseExpiredAccountLeases now).accountLeases.Admits accountId holder := by
  intro r hr hu
  obtain ⟨hr', hlive⟩ := mem_releaseExpiredAccountLeases.1 ⟨hr, hu⟩
  exact ⟨fun ha => accountHasActiveLease_eq_false.1 haccount r hr' ha hlive,
    fun hh => loadActiveHolderLease_eq_none.1 hholder r hr' hh hlive⟩

/-- What an ordinary acquisition can do, its result with the database it leaves. -/
inductive PreferredOutcome (db : Db) (poolId : PoolId) (accountId : AccountId) (family : LimitId)
    (holder : HolderId) (leaseTtl now : Int) :
    Except AccountLeaseError AccountLeaseRecord × Db → Prop
  /-- The holder's live lease is handed out again. -/
  | existing {lease : AccountLeaseRecord} : db.loadActiveHolderLease holder now = some lease →
      PreferredOutcome db poolId accountId family holder leaseTtl now
        (.ok lease, db.releaseExpiredAccountLeases now)
  /-- A new lease of the account is inserted. -/
  | inserted {leases : LeaseTable} : db.loadActiveHolderLease holder now = none →
      db.LeasableAt poolId accountId (.selectionFamily family) now →
      (db.releaseExpiredAccountLeases now).accountLeases.insert
        (leaseDraft accountId poolId holder now leaseTtl) = some leases →
      PreferredOutcome db poolId accountId family holder leaseTtl now
        (.ok ((db.releaseExpiredAccountLeases now).accountLeases.draftRow
          (leaseDraft accountId poolId holder now leaseTtl)).record,
          { db.releaseExpiredAccountLeases now with accountLeases := leases })
  /-- The account may not be leased, and the transaction is dropped. -/
  | filtered : db.loadActiveHolderLease holder now = none →
      ¬db.LeasableAt poolId accountId (.selectionFamily family) now →
      PreferredOutcome db poolId accountId family holder leaseTtl now
        (.error .noEligibleAccount, db)

theorem acquirePreferredAccountLease_cases :
    PreferredOutcome db poolId accountId family holder leaseTtl now
      (db.acquirePreferredAccountLease poolId accountId family holder leaseTtl now retryNow) := by
  unfold acquirePreferredAccountLease
  have hexisting : (db.releaseExpiredAccountLeases now).existingLease (.selectionFamily family)
      holder now = db.loadActiveHolderLease holder now := loadActiveHolderLease_releaseExpired
  have hadmits (hex : db.loadActiveHolderLease holder now = none)
      (hreq : db.LeasableAt poolId accountId (.selectionFamily family) now) :=
    admits_releaseExpired hex hreq.unleased
  generalize hr : db.acquireRequestedAccountLease poolId accountId holder leaseTtl
    (.selectionFamily family) now retryNow = r
  have hcases := hr ▸ @acquireRequestedAccountLease_cases db accountId poolId now holder leaseTtl
    retryNow (.selectionFamily family)
  cases hcases with
  | existing hex => exact .existing (hexisting ▸ hex)
  | inserted hex hreq hins =>
    exact .inserted (hexisting ▸ hex) (requestable_releaseExpired.1 hreq) hins
  | filtered hex hreq =>
    exact .filtered (hexisting ▸ hex) fun h => hreq (requestable_releaseExpired.2 h)
  | raced hex hreq hadm | contended hex hreq hadm =>
    exact absurd (hadmits (hexisting ▸ hex) (requestable_releaseExpired.1 hreq)) hadm

theorem acquirePreferredAccountLease_error {e : AccountLeaseError}
    (h : db.acquirePreferredAccountLease poolId accountId family holder leaseTtl now retryNow =
      (.error e, db')) :
    e = .noEligibleAccount ∧ db' = db ∧ db.loadActiveHolderLease holder now = none ∧
      ¬db.LeasableAt poolId accountId (.selectionFamily family) now := by
  have hcases := h ▸ @acquirePreferredAccountLease_cases db poolId accountId family holder
    leaseTtl now retryNow
  cases hcases with
  | filtered hex hleasable => exact ⟨rfl, rfl, hex, hleasable⟩

/-! ## Renewal -/

theorem namedBy_iff {key : LeaseKey} : namedBy key r ↔ r.leaseKey = key := by
  cases key
  simp [namedBy, LeaseRow.leaseKey, and_assoc]

end

end Db

end Mcodex.AccountPool
