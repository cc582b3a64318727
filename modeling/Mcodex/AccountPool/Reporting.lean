import Mcodex.AccountPool.StoreOp

/-!
# Health reports by several managers

A manager reads the sequence number that the store holds for an account when it adopts a lease of
the account, and numbers its health events from there. `SharedPool` is the store with any number of
managers, and `sharedPool` the system of their steps: acquisitions, renewals and releases with any
clock readings, adoptions, and reports. A manager that has not noticed that its lease is gone still
reports, so the store can be ahead of the holder's count. A report is `Undisturbing` when its number
is within the count of every other manager with an unreleased lease of the account; where all
reports are, the store is never ahead of a holder (`Ordered`), and the holder's reports are recorded
(`recorded_of_current`). A report that is not can be followed by one of the holder that is lost
(`lost_of_disturbing`).
-/

namespace Mcodex.AccountPool

open Table Effect

/-! ## Leases and health events -/

namespace StoreOp

/-- The acquisitions, the renewal and the release of leases. -/
def IsLeaseCall : StoreOp → Prop
  | acquireAccountLeaseExcluding .. | acquirePreferredAccountLease ..
  | acquireQuotaProbeAccountLease .. | renewAccountLease .. | releaseAccountLease .. => True
  | _ => False

instance : DecidablePred IsLeaseCall := fun op => by
  cases op <;> first | exact isTrue trivial | exact isFalse id

/-- A lease call writes the lease table only, and inserts leases of members only. -/
theorem IsLeaseCall.leasesEvolve {op : StoreOp} (h : op.IsLeaseCall) (db : Db) :
    Db.LeasesEvolve db.OfMember db (op.run db) := by
  cases op with
  | acquireAccountLeaseExcluding => exact Db.acquireAccountLeaseExcluding_leasesEvolve
  | acquirePreferredAccountLease | acquireQuotaProbeAccountLease =>
    exact Db.acquireRequestedAccountLease_leasesEvolve
  | renewAccountLease => exact Db.renewAccountLease_leasesEvolve
  | releaseAccountLease => exact Db.releaseAccountLease_leasesEvolve
  | _ => exact h.elim

end StoreOp

namespace Db

section
variable {db db' : Db} {event : AccountHealthEvent} {accountId : AccountId}

/-- The foreign keys of memberships and leases. -/
structure ForeignKeys (db : Db) : Prop where
  memberships : ∀ a ∈ db.accountPoolMembership, a ∈ db.accountRegistry
  leases : ∀ r ∈ db.accountLeases.rows, r.accountId ∈ db.accountRegistry

theorem ForeignKeys.leasesEvolve (hdb : db.ForeignKeys) (h : LeasesEvolve db.OfMember db db') :
    db'.ForeignKeys := by
  refine ⟨by rw [h.frame]; exact hdb.memberships, ?_⟩
  have hregistry : db'.accountRegistry = db.accountRegistry := by rw [h.frame]
  rw [hregistry]
  refine h.evolves.invariant (I := fun t => ∀ r ∈ t.rows, r.accountId ∈ db.accountRegistry)
    hdb.leases (fun t cond e ht r hr => ?_) fun t t' d ht hmember hins r hr => ?_
  · obtain ⟨r₀, hr₀, rfl⟩ := LeaseTable.mem_updateUnreleased.1 hr
    rw [(LeaseTable.later_edit cond e r₀).accountId]
    exact ht r₀ hr₀
  · rw [(LeaseTable.insert_eq_some.1 hins).2] at hr
    rcases List.mem_append.1 hr with hr | hr
    · exact ht r hr
    · obtain rfl := List.mem_singleton.1 hr
      obtain ⟨row, hrow, -⟩ := Option.map_eq_some_iff.1 hmember.1
      exact hdb.memberships d.accountId (AList.lookup_isSome.1 (by rw [hrow]; rfl))

/-- A health event of a registered account commits: it writes the account's runtime state and no
lease, and registers and enrols nobody. -/
theorem recordAccountHealthEvent_of_registered (event : AccountHealthEvent)
    (h : event.accountId ∈ db.accountRegistry) :
    ∃ db', db.recordAccountHealthEvent event = .ok db' ∧ db'.accountLeases = db.accountLeases ∧
      (∀ a, a ∈ db'.accountRegistry ↔ a ∈ db.accountRegistry) ∧
      (∀ a, a ∈ db'.accountPoolMembership ↔ a ∈ db.accountPoolMembership) ∧
      ∀ a, db'.accountRuntimeState.lookup a = if a = event.accountId then
          some (runtimeStateAfter event (db.accountRuntimeState.lookup event.accountId))
        else db.accountRuntimeState.lookup a := by
  obtain ⟨row, hrow⟩ := Option.isSome_iff_exists.1 (AList.lookup_isSome.2 h)
  generalize hstate : runtimeStateAfter event (db.accountRuntimeState.lookup event.accountId) =
    state
  cases hmember : db.accountPoolMembership.lookup event.accountId with
  | none =>
    refine ⟨{ db with
      accountRuntimeState := db.accountRuntimeState.insert event.accountId state
      accountRegistry := updateKey event.accountId (fun row => { row with
        healthy := state.healthState = .healthy }) db.accountRegistry }, ?_, rfl,
      fun a => mem_updateKey, fun a => Iff.rfl, fun a => lookup_insert _ _⟩
    simp [recordAccountHealthEvent, readAccountPoolMembershipRow, hmember, checkRegistered, h,
      hstate, bind, Except.bind, pure, Except.pure]
  | some membership =>
    have hmem : event.accountId ∈ db.accountPoolMembership :=
      AList.lookup_isSome.1 (by rw [hmember]; rfl)
    refine ⟨({ db with
      accountRuntimeState := db.accountRuntimeState.insert event.accountId state
      accountRegistry := updateKey event.accountId (fun row => { row with
        poolId := state.poolId
        healthy := state.healthState = .healthy }) db.accountRegistry } : Db).withPool
          event.accountId state.poolId membership.position, ?_, rfl, fun a => ?_, fun a => ?_,
      fun a => ?_⟩
    · simp only [recordAccountHealthEvent, readAccountPoolMembershipRow, hmember, hrow, hstate,
        Option.isSome_some, if_true, bind_eq_ok, checkRegistered_eq_ok]
      refine ⟨(), h, _, syncAccountMembershipCompat_eq_ok.2 ⟨mem_updateKey.2 h, rfl⟩, ?_⟩
      simp [readAccountPoolPosition, hmember, pure, Except.pure]
    · simp only [withPool, withMembership, mem_updateKey]
    · simp only [withPool, withMembership, AList.mem_insert]
      exact or_iff_right_of_imp fun ha => ha ▸ hmem
    · simp only [withPool, withMembership, lookup_updateKey, lookup_insert]
      split <;> simp

/-- An event with a greater number than the state recorded replaces it. -/
theorem runtimeStateAfter_of_lt {existing : Option RuntimeStateRow}
    (h : ∀ row ∈ existing, row.lastHealthEventSequence < event.sequenceNumber) :
    runtimeStateAfter event existing = {
      poolId := event.poolId
      healthState := event.healthState
      lastHealthEventSequence := event.sequenceNumber
      lastHealthEventAt := datetimeToEpochSeconds event.observedAt } := by
  cases existing with
  | none => rfl
  | some row => exact if_pos (h row rfl)

/-- An event with no greater number leaves the state as it is. -/
theorem runtimeStateAfter_of_le {row : RuntimeStateRow}
    (h : event.sequenceNumber ≤ row.lastHealthEventSequence) :
    runtimeStateAfter event (some row) = row :=
  if_neg (Int.not_lt.2 h)

/-- What a report leaves of the database, where a failed transaction is rolled back. -/
theorem ForeignKeys.recordAccountHealthEvent (hdb : db.ForeignKeys) :
    (orElseKeep db (db.recordAccountHealthEvent event)).ForeignKeys := by
  refine orElseKeep_rel (R := fun _ db' : Db => db'.ForeignKeys) hdb fun db' hdb' => ?_
  have hreg : event.accountId ∈ db.accountRegistry := by
    simp only [Db.recordAccountHealthEvent, bind_eq_ok, checkRegistered_eq_ok] at hdb'
    obtain ⟨-, hreg, -⟩ := hdb'
    exact hreg
  obtain ⟨db₁, h₁, hleases, hregistry, hmemberships, -⟩ :=
    recordAccountHealthEvent_of_registered event hreg
  obtain rfl : db₁ = db' := Except.ok.inj (h₁.symm.trans hdb')
  refine ⟨fun a ha => (hregistry a).2 (hdb.memberships a ((hmemberships a).1 ha)), ?_⟩
  rw [hleases]
  exact fun r hr => (hregistry _).2 (hdb.leases r hr)

/-- The store's sequence number for the account is at most `n`. -/
def SequenceWithin (db : Db) (accountId : AccountId) (n : Int) : Prop :=
  ∀ sequence ∈ db.readAccountHealthEventSequence accountId, sequence ≤ n

/-- The runtime state of the account holds a report. -/
def Recorded (db : Db) (accountId : AccountId) (healthState : AccountHealthState)
    (observedAt : Int) : Prop :=
  ∃ row ∈ db.accountRuntimeState.lookup accountId, row.healthState = healthState ∧
    row.lastHealthEventAt = datetimeToEpochSeconds observedAt

end

end Db

/-! ## Managers -/

/-- How far a manager is with `adopt_active_grant`: it has a grant, then the sequence number that
the store holds for the grant's account. -/
inductive Adoption where
  | idle
  | granted (lease : AccountLeaseRecord)
  | read (lease : AccountLeaseRecord) (sequence : Int)
  deriving DecidableEq, Repr

/-- What a manager's reports depend on: the lease it caches, the number of its last health event,
and the adoption under way. -/
structure Holder where
  activeLease : Option AccountLeaseRecord
  nextHealthEventSequence : Int
  adoption : Adoption
  deriving DecidableEq, Repr

namespace Holder

/-- A new manager. -/
def new : Holder where
  activeLease := none
  nextHealthEventSequence := 0
  adoption := .idle

/-- The manager caches the lease, or is adopting it. -/
def Names (m : Holder) (lease : AccountLeaseRecord) : Prop :=
  m.activeLease = some lease ∨ m.adoption = .granted lease ∨ ∃ n, m.adoption = .read lease n

/-- The manager numbers, or is about to number, its reports under the lease from `n`. -/
def Counts (m : Holder) (lease : AccountLeaseRecord) (n : Int) : Prop :=
  m.activeLease = some lease ∧ m.nextHealthEventSequence = n ∨ m.adoption = .read lease n

theorem Counts.names {m : Holder} {lease : AccountLeaseRecord} {n : Int} (h : m.Counts lease n) :
    m.Names lease :=
  h.imp And.left fun h => .inr ⟨n, h⟩

/-- The sequence number of the grant's account read, 0 where the store has none. -/
def readSequence (m : Holder) (db : Db) : Holder :=
  match m.adoption with
  | .granted lease =>
    let sequence := (db.readAccountHealthEventSequence lease.accountId).getD 0
    { m with adoption := .read lease sequence }
  | _ => m

/-- The grant cached, with the sequence number read. -/
def adopt (m : Holder) : Holder :=
  match m.adoption with
  | .read lease sequence =>
    { activeLease := some lease, nextHealthEventSequence := sequence, adoption := .idle }
  | _ => m

/-- `next_health_event_sequence += 1`. -/
def count (m : Holder) : Holder :=
  { m with nextHealthEventSequence := m.nextHealthEventSequence + 1 }

/-- The health event of the manager's next report under a lease. -/
def event (m : Holder) (lease : AccountLeaseRecord) (healthState : AccountHealthState)
    (observedAt : Int) : AccountHealthEvent where
  accountId := lease.accountId
  poolId := lease.poolId
  healthState := healthState
  sequenceNumber := m.nextHealthEventSequence + 1
  observedAt := observedAt

end Holder

/-- The store and the managers that share it, by the identifier they hold leases under. -/
structure SharedPool where
  db : Db
  holders : HolderId → Holder

/-- A step of one manager. -/
inductive PoolAction where
  /-- A lease call, by any manager and with any clock readings. -/
  | call (op : StoreOp)
  /-- `holder` is handed one of its leases, by an acquisition or by `read_active_holder_lease`. -/
  | grant (holder : HolderId) (lease : AccountLeaseRecord)
  /-- `read_account_health_event_sequence` in `adopt_active_grant`. -/
  | readSequence (holder : HolderId)
  /-- The end of `adopt_active_grant`. -/
  | adopt (holder : HolderId)
  /-- An adoption is given up. -/
  | abandon (holder : HolderId)
  /-- `heartbeat_active_lease` caches the renewed record. -/
  | renewed (holder : HolderId) (lease : AccountLeaseRecord)
  /-- The cached lease is dropped. -/
  | forget (holder : HolderId)
  /-- `report_usage_limit_reached`, `report_unauthorized`. -/
  | report (holder : HolderId) (healthState : AccountHealthState) (observedAt : Int)

namespace SharedPool

/-- The step of a manager on its own fields. -/
def modify (s : SharedPool) (holder : HolderId) (f : Holder → Holder) : SharedPool :=
  { s with holders := Function.update s.holders holder (f (s.holders holder)) }

/-- The steps that a manager may take: a grant names a row of its own, a renewal keeps the key of
the cached lease, and it does not report in the middle of an adoption. -/
def Enabled (s : SharedPool) : PoolAction → Prop
  | .call op => op.IsLeaseCall
  | .grant holder lease => (s.holders holder).adoption = .idle ∧
      ∃ r ∈ s.db.accountLeases.rows, r.record = lease ∧ r.holderInstanceId = holder
  | .renewed holder lease =>
      ∃ cached ∈ (s.holders holder).activeLease, cached.leaseKey = lease.leaseKey
  | .report holder _ _ => (s.holders holder).adoption = .idle
  | .readSequence _ | .adopt _ | .abandon _ | .forget _ => True

instance (s : SharedPool) (a : PoolAction) : Decidable (s.Enabled a) := by
  cases a <;> unfold Enabled <;> infer_instance

/-- The database after a report under a lease. -/
def reported (s : SharedPool) (holder : HolderId) (lease : AccountLeaseRecord)
    (healthState : AccountHealthState) (observedAt : Int) : Db :=
  orElseKeep s.db (s.db.recordAccountHealthEvent
    ((s.holders holder).event lease healthState observedAt))

/-- The pool after a step. -/
def after (s : SharedPool) : PoolAction → SharedPool
  | .call op => { s with db := op.run s.db }
  | .grant holder lease => s.modify holder fun m => { m with adoption := .granted lease }
  | .readSequence holder => s.modify holder fun m => m.readSequence s.db
  | .adopt holder => s.modify holder Holder.adopt
  | .abandon holder => s.modify holder fun m => { m with adoption := .idle }
  | .renewed holder lease => s.modify holder fun m => { m with activeLease := some lease }
  | .forget holder => s.modify holder fun m =>
      { m with activeLease := none, nextHealthEventSequence := 0 }
  | .report holder healthState observedAt =>
    match (s.holders holder).activeLease with
    | none => s
    | some lease =>
      { s.modify holder Holder.count with
        db := s.reported holder lease healthState observedAt }

end SharedPool

/-- Managers without leases that start on one store, and their steps. -/
def sharedPool : Transition.System SharedPool PoolAction where
  init s := s.db.ForeignKeys ∧ ∀ holder, s.holders holder = .new
  step s a t := s.Enabled a ∧ s.after a = t

/-! ## Holders -/

namespace Db

/-- The lease is one of the holder's. -/
def LeasedTo (db : Db) (holder : HolderId) (lease : AccountLeaseRecord) : Prop :=
  ∃ r ∈ db.accountLeases.rows, r.leaseKey = lease.leaseKey ∧ r.holderInstanceId = holder

/-- The lease is unreleased. -/
def Holds (db : Db) (lease : AccountLeaseRecord) : Prop :=
  ∃ r ∈ db.accountLeases.rows, r.leaseKey = lease.leaseKey ∧ r.Unreleased

/-- The lease is unreleased, and has not expired at the instant. -/
def HoldsAt (db : Db) (lease : AccountLeaseRecord) (now : Int) : Prop :=
  ∃ r ∈ db.accountLeases.rows, r.leaseKey = lease.leaseKey ∧
    r.LiveAt (datetimeToEpochSeconds now)

section
variable {db db' : Db} {holder holder' : HolderId} {lease lease' : AccountLeaseRecord} {now : Int}

theorem HoldsAt.holds (h : db.HoldsAt lease now) : db.Holds lease :=
  h.imp fun _ hr => ⟨hr.1, hr.2.1, hr.2.2.1⟩

/-- A lease call grants nobody's key to another. -/
theorem LeasedTo.later (h : db.LeasedTo holder lease)
    (hl : db.accountLeases.Later db'.accountLeases) : db'.LeasedTo holder lease := by
  obtain ⟨r, hr, hkey, hholder⟩ := h
  obtain ⟨r', hr', hrr'⟩ := hl.of_mem hr
  exact ⟨r', hr', hrr'.leaseKey.trans hkey, hrr'.holderInstanceId.trans hholder⟩

/-- A lease that is unreleased after a lease call was so before it. -/
theorem Holds.before (h : db'.Holds lease) (hl : db.accountLeases.Later db'.accountLeases)
    (hlease : db.LeasedTo holder lease) : db.Holds lease := by
  obtain ⟨r', hr', hkey', hu⟩ := h
  obtain ⟨r, hr, hkey, -⟩ := hlease
  obtain ⟨r₁, hr₁, hrr₁⟩ := hl.of_mem hr
  have hid : r₁.leaseId = r'.leaseId :=
    congrArg LeaseKey.leaseId ((hrr₁.leaseKey.trans hkey).trans hkey'.symm)
  rw [LeaseTable.eq_of_leaseId hr₁ hr' hid] at hrr₁
  exact ⟨r, hr, hkey, hrr₁.unreleased hu⟩

/-- An account's unreleased lease is one manager's only. -/
theorem Holds.holder_eq (h : db.Holds lease) (h' : db.Holds lease')
    (hlease : db.LeasedTo holder lease) (hlease' : db.LeasedTo holder' lease')
    (ha : lease.accountId = lease'.accountId) : holder = holder' := by
  have hrow : ∀ {lease : AccountLeaseRecord} {holder : HolderId}, db.Holds lease →
      db.LeasedTo holder lease → ∃ r ∈ db.accountLeases.rows, r.accountId = lease.accountId ∧
        r.Unreleased ∧ r.holderInstanceId = holder := by
    rintro lease holder ⟨r, hr, hkey, hu⟩ ⟨r', hr', hkey', hholder⟩
    have hid : r.leaseId = r'.leaseId := congrArg LeaseKey.leaseId (hkey.trans hkey'.symm)
    exact ⟨r, hr, congrArg LeaseKey.accountId hkey, hu,
      LeaseTable.eq_of_leaseId hr hr' hid ▸ hholder⟩
  obtain ⟨r, hr, hra, hu, rfl⟩ := hrow h hlease
  obtain ⟨r', hr', hra', hu', rfl⟩ := hrow h' hlease'
  rw [db.accountLeases.activeAccount.eq_of_mem hr hr' hu hu' ((hra.trans ha).trans hra'.symm)]

end

end Db

/-! ## The condition and the invariant -/

namespace SharedPool

/-- A report whose number is within the count of every other manager with an unreleased lease of
the account. -/
def Undisturbing (s : SharedPool) : PoolAction → Prop
  | .report holder _ _ =>
    ∀ lease ∈ (s.holders holder).activeLease, ∀ other lease' n, other ≠ holder →
      (s.holders other).Counts lease' n → s.db.Holds lease' →
      lease'.accountId = lease.accountId → (s.holders holder).nextHealthEventSequence + 1 ≤ n
  | _ => True

/-- The leases that managers name are theirs, and the store is not ahead of a manager with an
unreleased lease. -/
structure Ordered (s : SharedPool) : Prop where
  foreignKeys : s.db.ForeignKeys
  leasedTo : ∀ holder lease, (s.holders holder).Names lease → s.db.LeasedTo holder lease
  counts : ∀ holder lease n, (s.holders holder).Counts lease n → s.db.Holds lease →
    s.db.SequenceWithin lease.accountId n

section
variable {s t : SharedPool} {holder : HolderId} {lease : AccountLeaseRecord}
  {healthState : AccountHealthState} {observedAt : Int} {f : Holder → Holder} {a : PoolAction}

theorem modify_holders (k : HolderId) : (s.modify holder f).holders k =
    if k = holder then f (s.holders holder) else s.holders k :=
  Function.update_apply _ _ _ _

/-- A step of a manager on its own fields keeps the order where its new fields do. -/
theorem Ordered.modify (hs : s.Ordered)
    (hnames : ∀ lease, (f (s.holders holder)).Names lease → s.db.LeasedTo holder lease)
    (hcounts : ∀ lease n, (f (s.holders holder)).Counts lease n → s.db.Holds lease →
      s.db.SequenceWithin lease.accountId n) : (s.modify holder f).Ordered := by
  refine ⟨hs.foreignKeys, fun k lease h => ?_, fun k lease n h => ?_⟩
  · rw [modify_holders] at h
    split at h
    · rename_i hk
      exact hk ▸ hnames lease h
    · exact hs.leasedTo k lease h
  · rw [modify_holders] at h
    split at h
    · exact hcounts lease n h
    · exact hs.counts k lease n h

/-- A lease call keeps the order: it writes no health, and brings no lease back. -/
theorem Ordered.call (hs : s.Ordered) {op : StoreOp} (hop : op.IsLeaseCall) :
    ({ s with db := op.run s.db } : SharedPool).Ordered := by
  have hevolve := hop.leasesEvolve s.db
  refine ⟨hs.foreignKeys.leasesEvolve hevolve,
    fun k lease h => (hs.leasedTo k lease h).later hevolve.evolves.later,
    fun k lease n h hholds => ?_⟩
  have hbefore := hholds.before hevolve.evolves.later (hs.leasedTo k lease h.names)
  have hcount := hs.counts k lease n h hbefore
  simp only [Db.SequenceWithin, Db.readAccountHealthEventSequence] at hcount ⊢
  rw [hevolve.frame]
  exact hcount

theorem Ordered.registered (hs : s.Ordered) (h : (s.holders holder).activeLease = some lease) :
    lease.accountId ∈ s.db.accountRegistry := by
  obtain ⟨r, hr, hkey, -⟩ := hs.leasedTo holder lease (.inl h)
  have ha : r.accountId = lease.accountId := congrArg LeaseKey.accountId hkey
  exact ha ▸ hs.foreignKeys.leases r hr

/-- The store's number after a report is within the bounds on the number before and on the
report's. -/
theorem sequenceWithin_reported {accountId : AccountId} {n : Int}
    (hreg : lease.accountId ∈ s.db.accountRegistry) (h : s.db.SequenceWithin accountId n)
    (hn : accountId = lease.accountId → (s.holders holder).nextHealthEventSequence + 1 ≤ n) :
    (s.reported holder lease healthState observedAt).SequenceWithin accountId n := by
  obtain ⟨db', hdb', -, -, -, hstate⟩ := Db.recordAccountHealthEvent_of_registered
    ((s.holders holder).event lease healthState observedAt) hreg
  rw [reported, hdb', orElseKeep]
  intro sequence hsequence
  obtain ⟨row, hrow, rfl⟩ := Option.map_eq_some_iff.1 hsequence
  rw [hstate] at hrow
  split at hrow
  · rename_i ha
    obtain rfl := Option.some.inj hrow
    unfold Db.runtimeStateAfter
    split
    · exact hn ha
    · rename_i old hold
      split
      · exact hn ha
      · refine h _ (Option.map_eq_some_iff.2 ⟨old, ?_, rfl⟩)
        rw [ha]
        exact hold
  · exact h _ (Option.map_eq_some_iff.2 ⟨row, hrow, rfl⟩)

/-- A report that meets the condition keeps the order. -/
theorem Ordered.report (hs : s.Ordered) (hidle : (s.holders holder).adoption = .idle)
    (hcached : (s.holders holder).activeLease = some lease)
    (hund : s.Undisturbing (.report holder healthState observedAt)) :
    ({ s.modify holder Holder.count with
      db := s.reported holder lease healthState observedAt } : SharedPool).Ordered := by
  have hreg := hs.registered hcached
  obtain ⟨db', hdb', hleases, -⟩ := Db.recordAccountHealthEvent_of_registered
    ((s.holders holder).event lease healthState observedAt) hreg
  have hrows : (s.reported holder lease healthState observedAt).accountLeases =
      s.db.accountLeases := by rw [reported, hdb', orElseKeep, hleases]
  refine ⟨hs.foreignKeys.recordAccountHealthEvent, fun k lease' h => ?_,
    fun k lease' n h hholds => ?_⟩
  · have hnames : (s.holders k).Names lease' := by
      change ((s.modify holder Holder.count).holders k).Names lease' at h
      rw [modify_holders] at h
      split at h
      · rename_i hk
        exact hk ▸ h
      · exact h
    obtain ⟨r, hr, hkey⟩ := hs.leasedTo k lease' hnames
    exact ⟨r, hrows ▸ hr, hkey⟩
  · have hbefore : s.db.Holds lease' := by
      obtain ⟨r, hr, hkey⟩ := hholds
      exact ⟨r, hrows ▸ hr, hkey⟩
    change ((s.modify holder Holder.count).holders k).Counts lease' n at h
    rw [modify_holders] at h
    split at h
    · -- the reporting manager: its own count has moved with the report
      rcases h with ⟨hcached', rfl⟩ | h
      · obtain rfl := Option.some.inj (hcached.symm.trans hcached')
        refine sequenceWithin_reported hreg (fun sequence hsequence => ?_) fun _ => le_rfl
        have := hs.counts holder lease _ (.inl ⟨hcached, rfl⟩) hbefore sequence hsequence
        show sequence ≤ _ + 1
        omega
      · rw [Holder.count, hidle] at h
        cases h
    · rename_i hk
      exact sequenceWithin_reported hreg (hs.counts k lease' n h hbefore)
        fun ha => hund lease hcached k lease' n hk h hbefore ha

/-- Every step whose reports meet the condition keeps the order. -/
theorem Ordered.after (hs : s.Ordered) (henabled : s.Enabled a) (hund : s.Undisturbing a) :
    (s.after a).Ordered := by
  cases a with
  | call op => exact hs.call henabled
  | grant holder lease =>
    obtain ⟨-, r, hr, rfl, hholder⟩ := henabled
    show (s.modify holder fun m => { m with adoption := .granted r.record }).Ordered
    refine hs.modify (fun lease h => ?_) fun lease n h hholds => ?_
    · rcases h with h | h | ⟨n, h⟩
      · exact hs.leasedTo holder lease (.inl h)
      · obtain rfl := Adoption.granted.inj h
        exact ⟨r, hr, rfl, hholder⟩
      · cases h
    · rcases h with h | h
      · exact hs.counts holder lease n (.inl h) hholds
      · cases h
  | readSequence holder =>
    show (s.modify holder fun m => m.readSequence s.db).Ordered
    cases hphase : (s.holders holder).adoption with
    | granted lease =>
      refine hs.modify (fun lease' h => ?_) fun lease' n h hholds => ?_
      · simp only [Holder.readSequence, hphase, Holder.Names] at h
        rcases h with h | h | ⟨n, h⟩
        · exact hs.leasedTo holder lease' (.inl h)
        · cases h
        · cases h
          exact hs.leasedTo holder lease (.inr (.inl hphase))
      · simp only [Holder.readSequence, hphase, Holder.Counts] at h
        rcases h with h | h
        · exact hs.counts holder lease' n (.inl h) hholds
        · cases h
          intro sequence hsequence
          rw [Option.mem_def.1 hsequence]
          exact le_rfl
    | idle | read =>
      refine hs.modify (fun lease h => hs.leasedTo holder lease ?_) fun lease n h =>
        hs.counts holder lease n ?_
      all_goals simpa only [Holder.readSequence, hphase] using h
  | adopt holder =>
    show (s.modify holder Holder.adopt).Ordered
    cases hphase : (s.holders holder).adoption with
    | read lease sequence =>
      refine hs.modify (fun lease' h => ?_) fun lease' n h hholds => ?_
      · simp only [Holder.adopt, hphase, Holder.Names] at h
        rcases h with h | h | ⟨n, h⟩ <;> cases h
        exact hs.leasedTo holder lease (.inr (.inr ⟨sequence, hphase⟩))
      · simp only [Holder.adopt, hphase, Holder.Counts] at h
        rcases h with ⟨h, rfl⟩ | h <;> cases h
        exact hs.counts holder lease sequence (.inr hphase) hholds
    | idle | granted =>
      refine hs.modify (fun lease h => hs.leasedTo holder lease ?_) fun lease n h =>
        hs.counts holder lease n ?_
      all_goals simpa only [Holder.adopt, hphase] using h
  | abandon holder =>
    show (s.modify holder fun m => { m with adoption := .idle }).Ordered
    refine hs.modify (fun lease h => ?_) fun lease n h hholds => ?_
    · rcases h with h | h | ⟨n, h⟩
      · exact hs.leasedTo holder lease (.inl h)
      · cases h
      · cases h
    · rcases h with h | h
      · exact hs.counts holder lease n (.inl h) hholds
      · cases h
  | renewed holder lease =>
    obtain ⟨cached, hcached, hkey⟩ := henabled
    show (s.modify holder fun m => { m with activeLease := some lease }).Ordered
    refine hs.modify (fun lease' h => ?_) fun lease' n h hholds => ?_
    · rcases h with h | h
      · obtain rfl := Option.some.inj h
        obtain ⟨r, hr, hr'⟩ := hs.leasedTo holder cached (.inl hcached)
        exact ⟨r, hr, hr'.1.trans hkey, hr'.2⟩
      · exact hs.leasedTo holder lease' (.inr h)
    · rcases h with ⟨h, hn⟩ | h
      · obtain rfl := Option.some.inj h
        have ha : cached.accountId = lease.accountId := congrArg LeaseKey.accountId hkey
        obtain ⟨r, hr, hr', hu⟩ := hholds
        exact ha ▸ hs.counts holder cached n (.inl ⟨hcached, hn⟩) ⟨r, hr, hr'.trans hkey.symm, hu⟩
      · exact hs.counts holder lease' n (.inr h) hholds
  | forget holder =>
    show (s.modify holder fun m =>
      { m with activeLease := none, nextHealthEventSequence := 0 }).Ordered
    refine hs.modify (fun lease h => ?_) fun lease n h hholds => ?_
    · rcases h with h | h
      · cases h
      · exact hs.leasedTo holder lease (.inr h)
    · rcases h with ⟨h, -⟩ | h
      · cases h
      · exact hs.counts holder lease n (.inr h) hholds
  | report holder healthState observedAt =>
    simp only [SharedPool.after]
    cases hcached : (s.holders holder).activeLease with
    | none => exact hs
    | some lease => exact hs.report henabled hcached hund

/-- The store is never ahead of a holder in runs whose reports meet the condition. -/
theorem ordered_of_reach (h : (sharedPool.restrict Undisturbing).Reach s) : s.Ordered := by
  refine h.invariant (fun s hinit => ?_) fun s a t hs hstep => ?_
  · obtain ⟨hkeys, hnew⟩ := hinit
    refine ⟨hkeys, fun k lease h => ?_, fun k lease n h => ?_⟩
    · rw [hnew] at h
      rcases h with h | h | ⟨n, h⟩ <;> cases h
    · rw [hnew] at h
      rcases h with ⟨h, -⟩ | h <;> cases h
  · obtain ⟨hund, henabled, rfl⟩ := hstep
    exact hs.after henabled hund

/-! ## Reports of holders -/

/-- Where the store is not ahead of a holder, its report is recorded. -/
theorem Ordered.recorded (hs : s.Ordered) (hcached : (s.holders holder).activeLease = some lease)
    (hholds : s.db.Holds lease) :
    (s.reported holder lease healthState observedAt).Recorded lease.accountId healthState
      observedAt := by
  obtain ⟨db', hdb', -, -, -, hstate⟩ := Db.recordAccountHealthEvent_of_registered
    ((s.holders holder).event lease healthState observedAt) (hs.registered hcached)
  have hcount := hs.counts holder lease _ (.inl ⟨hcached, rfl⟩) hholds
  rw [reported, hdb', orElseKeep]
  refine ⟨_, (hstate lease.accountId).trans (if_pos rfl), ?_⟩
  rw [Db.runtimeStateAfter_of_lt fun row hrow => ?_]
  · exact ⟨rfl, rfl⟩
  · have hle : row.lastHealthEventSequence ≤ (s.holders holder).nextHealthEventSequence :=
      hcount _ (Option.map_eq_some_iff.2 ⟨row, hrow, rfl⟩)
    show row.lastHealthEventSequence < _ + 1
    omega

/-- A holder's own reports meet the condition. -/
theorem Ordered.undisturbing (hs : s.Ordered)
    (hcached : (s.holders holder).activeLease = some lease) (hholds : s.db.Holds lease) :
    s.Undisturbing (.report holder healthState observedAt) := by
  intro lease₁ hlease₁ other lease' n hother hcounts hholds' ha
  obtain rfl := Option.some.inj (hcached.symm.trans hlease₁)
  exact absurd (hholds'.holder_eq hholds (hs.leasedTo other lease' hcounts.names)
    (hs.leasedTo holder lease (.inl hcached)) ha) hother

/-- An event that the store is ahead of is lost: some report of its number is not recorded. -/
theorem exists_lost (holder : HolderId) {sequence : Int}
    (hreg : lease.accountId ∈ s.db.accountRegistry)
    (hsequence : sequence ∈ s.db.readAccountHealthEventSequence lease.accountId)
    (hlt : (s.holders holder).nextHealthEventSequence < sequence) :
    ∃ healthState observedAt,
      ¬(s.reported holder lease healthState observedAt).Recorded lease.accountId healthState
        observedAt := by
  obtain ⟨row, hrow, rfl⟩ := Option.map_eq_some_iff.1 hsequence
  refine ⟨.healthy, epochSecondsToDatetime (row.lastHealthEventAt + 1), ?_⟩
  obtain ⟨db', hdb', -, -, -, hstate⟩ := Db.recordAccountHealthEvent_of_registered
    ((s.holders holder).event lease .healthy
      (epochSecondsToDatetime (row.lastHealthEventAt + 1))) hreg
  rw [reported, hdb', orElseKeep]
  rintro ⟨row', hrow', -, hat⟩
  have hkept : row = row' := by
    have hstate := (hstate lease.accountId).trans (if_pos rfl)
    rw [show s.db.accountRuntimeState.lookup (Holder.event _ lease _ _).accountId = some row
      from hrow, Db.runtimeStateAfter_of_le (Int.add_one_le_of_lt hlt)] at hstate
    exact Option.some.inj (hstate.symm.trans hrow')
  subst hkept
  simp only [datetimeToEpochSeconds, epochSecondsToDatetime] at hat
  omega

/-- The store's number after a report is at least the report's. -/
theorem exists_sequence_reported (holder : HolderId) (healthState : AccountHealthState)
    (observedAt : Int) (hreg : lease.accountId ∈ s.db.accountRegistry) :
    ∃ sequence ∈ (s.reported holder lease healthState observedAt).readAccountHealthEventSequence
      lease.accountId, (s.holders holder).nextHealthEventSequence + 1 ≤ sequence := by
  obtain ⟨db', hdb', -, -, -, hstate⟩ := Db.recordAccountHealthEvent_of_registered
    ((s.holders holder).event lease healthState observedAt) hreg
  rw [reported, hdb', orElseKeep]
  refine ⟨_, Option.map_eq_some_iff.2 ⟨_, (hstate lease.accountId).trans (if_pos rfl), rfl⟩, ?_⟩
  unfold Db.runtimeStateAfter
  split
  · exact le_rfl
  · split
    · exact le_rfl
    · rename_i hlt
      exact Int.not_lt.1 hlt

end

end SharedPool

section
variable {s t : SharedPool} {holder : HolderId} {lease : AccountLeaseRecord}
  {healthState : AccountHealthState} {observedAt now : Int}

/-- **The holder's report is recorded.** In a run whose reports are all undisturbing, a report by
the manager whose cached lease is unreleased and unexpired is in the store right after it. -/
theorem recorded_of_current (h : (sharedPool.restrict SharedPool.Undisturbing).Reach s)
    (hstep : sharedPool.step s (.report holder healthState observedAt) t)
    (hcached : (s.holders holder).activeLease = some lease) (hcurrent : s.db.HoldsAt lease now) :
    t.db.Recorded lease.accountId healthState observedAt := by
  obtain ⟨-, rfl⟩ := hstep
  simp only [SharedPool.after, hcached]
  exact (SharedPool.ordered_of_reach h).recorded hcached hcurrent.holds

/-- **The condition is needed.** After a report that is not undisturbing, a manager with an
unreleased lease of the account can make a report that is lost. -/
theorem lost_of_disturbing (h : (sharedPool.restrict SharedPool.Undisturbing).Reach s)
    (hstep : sharedPool.step s (.report holder healthState observedAt) t)
    (hund : ¬s.Undisturbing (.report holder healthState observedAt)) :
    ∃ u v other lease' now healthState' observedAt', sharedPool.Run t u ∧
      (u.holders other).activeLease = some lease' ∧ u.db.HoldsAt lease' now ∧
      sharedPool.step u (.report other healthState' observedAt') v ∧
      ¬v.db.Recorded lease'.accountId healthState' observedAt' := by
  have hs := SharedPool.ordered_of_reach h
  obtain ⟨-, rfl⟩ := hstep
  simp only [SharedPool.Undisturbing, not_forall] at hund
  obtain ⟨lease, hcached, other, lease', n, hother, hcounts, hholds, ha, hlt⟩ := hund
  have hreg := hs.registered hcached
  obtain ⟨db', hdb', hleases, hregistry, -⟩ := Db.recordAccountHealthEvent_of_registered
    ((s.holders holder).event lease healthState observedAt) hreg
  have hdb : s.reported holder lease healthState observedAt = db' := by
    rw [SharedPool.reported, hdb', orElseKeep]
  obtain ⟨sequence, hsequence, hle⟩ :=
    SharedPool.exists_sequence_reported holder healthState observedAt hreg
  generalize ht : s.after (.report holder healthState observedAt) = t
  have htdb : t.db = db' := by
    rw [← ht, ← hdb]
    simp only [SharedPool.after, Option.mem_def.1 hcached]
  have htother : t.holders other = s.holders other := by
    rw [← ht]
    simp only [SharedPool.after, Option.mem_def.1 hcached]
    exact (SharedPool.modify_holders other).trans (if_neg hother)
  -- the other manager finishes or gives up its adoption, and then counts from `n`
  obtain ⟨u, hrun, hudb, hidle, hactive, hn⟩ : ∃ u, sharedPool.Run t u ∧ u.db = db' ∧
      (u.holders other).adoption = .idle ∧ (u.holders other).activeLease = some lease' ∧
      (u.holders other).nextHealthEventSequence = n := by
    rcases hcounts with ⟨hactive, hn⟩ | hread
    · refine ⟨t.modify other fun m => { m with adoption := .idle },
        .step .refl (show sharedPool.step t (.abandon other) _ from ⟨trivial, rfl⟩), htdb,
        ?_, ?_, ?_⟩
      all_goals rw [SharedPool.modify_holders, if_pos rfl, htother]
      · exact hactive
      · exact hn
    · refine ⟨t.modify other Holder.adopt,
        .step .refl (show sharedPool.step t (.adopt other) _ from ⟨trivial, rfl⟩), htdb, ?_, ?_, ?_⟩
      all_goals rw [SharedPool.modify_holders, if_pos rfl, htother, Holder.adopt, hread]
  obtain ⟨r, hr, hkey, hu⟩ := hholds
  have hstore : sequence ∈ u.db.readAccountHealthEventSequence lease'.accountId := by
    rw [hudb, ha, ← hdb]
    exact hsequence
  have hregistered : lease'.accountId ∈ u.db.accountRegistry := by
    rw [hudb, ha]
    exact (hregistry _).2 hreg
  obtain ⟨healthState', observedAt', hlost⟩ := SharedPool.exists_lost other hregistered hstore
    (by omega)
  refine ⟨u, _, other, lease', epochSecondsToDatetime (r.expiresAt - 1), healthState', observedAt',
    hrun, hactive, ⟨r, ?_, hkey, hu, ?_⟩, ⟨hidle, rfl⟩, ?_⟩
  · rw [hudb, hleases]
    exact hr
  · simp only [datetimeToEpochSeconds, epochSecondsToDatetime]
    omega
  · simp only [SharedPool.after, hactive]
    exact hlost

end

/-! ## A holder and a former holder -/

namespace SharedPool

/-- The pool after a list of steps. -/
def afterAll (acts : List PoolAction) (s : SharedPool) : SharedPool := acts.foldl after s

/-- Every step of the list may be taken where it comes, and meets a condition there. -/
def Allows (C : SharedPool → PoolAction → Prop) : List PoolAction → SharedPool → Prop
  | [], _ => True
  | a :: acts, s => (C s a ∧ s.Enabled a) ∧ Allows C acts (s.after a)

theorem reach_afterAll {C : SharedPool → PoolAction → Prop} :
    ∀ (acts : List PoolAction) {s : SharedPool}, (sharedPool.restrict C).Reach s →
      Allows C acts s → (sharedPool.restrict C).Reach (afterAll acts s)
  | [], _, h, _ => h
  | _ :: acts, _, h, hacts =>
    reach_afterAll acts (.step h ⟨hacts.1.1, hacts.1.2, rfl⟩) hacts.2

/-- A store with one account, and managers without leases. -/
def start : SharedPool where
  db := registered
  holders _ := .new

theorem start_init : sharedPool.init start := by
  refine ⟨⟨fun a ha => ?_, fun r hr => ?_⟩, fun holder => rfl⟩
  · exact ha
  · cases hr

/-- A manager acquires a lease of the account at an instant and adopts it. -/
def leasing (holder : HolderId) (lease : AccountLeaseRecord) (now : Int) : List PoolAction :=
  [.call (.acquirePreferredAccountLease "pool-1" "acct-1" "codex" holder (seconds 300) now now),
    .grant holder lease, .readSequence holder, .adopt holder]

/-- The lease that a manager acquires at an instant, as the `n`th of the account. -/
def leaseOf (n : Nat) (holder : HolderId) (now : Int) : AccountLeaseRecord where
  leaseId := n
  poolId := "pool-1"
  accountId := "acct-1"
  holderInstanceId := holder
  leaseEpoch := n + 1
  acquiredAt := now
  renewedAt := now
  expiresAt := now + seconds 300
  releasedAt := none

end SharedPool

section
open SharedPool

/-- The only manager's report is recorded. -/
theorem recorded_of_current_only :
    ((afterAll (leasing "a" (leaseOf 0 "a" 0) 0) start).after
      (.report "a" .rateLimited (seconds 1))).db.Recorded "acct-1" .rateLimited (seconds 1) :=
  recorded_of_current
    (reach_afterAll (leasing "a" (leaseOf 0 "a" 0) 0) (.init start_init)
      ⟨⟨trivial, trivial⟩, ⟨trivial, by decide⟩, ⟨trivial, trivial⟩, ⟨trivial, trivial⟩, trivial⟩)
    (show sharedPool.step _ (.report "a" .rateLimited (seconds 1)) _ from ⟨by decide, rfl⟩)
    (show _ = some (leaseOf 0 "a" 0) by decide)
    (show Db.HoldsAt _ _ (seconds 1) from ⟨_, .head _, by decide, by decide⟩)

/-- The first manager's lease has expired and the second one holds the account, when the first
reports, and then the second. -/
def takenOver : List PoolAction :=
  leasing "a" (leaseOf 0 "a" 0) 0 ++
    leasing "b" (leaseOf 1 "b" (seconds 400)) (seconds 400) ++
      [.report "a" .rateLimited (seconds 401)]

/-- The first manager's report may make another one be lost. -/
theorem lost_of_disturbing_takenOver :
    let s := afterAll (leasing "b" (leaseOf 1 "b" (seconds 400)) (seconds 400))
      (afterAll (leasing "a" (leaseOf 0 "a" 0) 0) start)
    ∃ u v other lease now healthState observedAt,
      sharedPool.Run (s.after (.report "a" .rateLimited (seconds 401))) u ∧
        (u.holders other).activeLease = some lease ∧ u.db.HoldsAt lease now ∧
        sharedPool.step u (.report other healthState observedAt) v ∧
        ¬v.db.Recorded lease.accountId healthState observedAt := by
  intro s
  have hfirst := reach_afterAll (C := Undisturbing) (leasing "a" (leaseOf 0 "a" 0) 0)
    (.init start_init)
    ⟨⟨trivial, trivial⟩, ⟨trivial, by decide⟩, ⟨trivial, trivial⟩, ⟨trivial, trivial⟩, trivial⟩
  have hreach : (sharedPool.restrict Undisturbing).Reach s :=
    reach_afterAll (leasing "b" (leaseOf 1 "b" (seconds 400)) (seconds 400)) hfirst
      ⟨⟨trivial, trivial⟩, ⟨trivial, by decide⟩, ⟨trivial, trivial⟩, ⟨trivial, trivial⟩, trivial⟩
  have hstep : sharedPool.step s (.report "a" .rateLimited (seconds 401))
      (s.after (.report "a" .rateLimited (seconds 401))) := ⟨by decide, rfl⟩
  refine lost_of_disturbing hreach hstep fun hund => ?_
  have hle := hund (leaseOf 0 "a" 0) (by decide) "b" (leaseOf 1 "b" (seconds 400)) 0 (by decide)
    (.inl (by decide)) ⟨_, .tail _ (.head _), by decide, by decide⟩ rfl
  revert hle
  decide

/-- The report of the manager that has taken the account over is lost. -/
theorem takenOver_lost : ¬∀ (s t : SharedPool) (holder : HolderId) (lease : AccountLeaseRecord)
    (healthState : AccountHealthState) (observedAt now : Int), sharedPool.Reach s →
      sharedPool.step s (.report holder healthState observedAt) t →
      (s.holders holder).activeLease = some lease → s.db.HoldsAt lease now →
      t.db.Recorded lease.accountId healthState observedAt := by
  intro h
  have hreach : sharedPool.Reach (afterAll takenOver start) :=
    (reach_afterAll (C := fun _ _ => True) takenOver (.init start_init)
      ⟨⟨trivial, trivial⟩, ⟨trivial, by decide⟩, ⟨trivial, trivial⟩, ⟨trivial, trivial⟩,
        ⟨trivial, trivial⟩, ⟨trivial, by decide⟩, ⟨trivial, trivial⟩, ⟨trivial, trivial⟩,
        ⟨trivial, by decide⟩, trivial⟩).of_restrict
  obtain ⟨row, hrow, hstate, -⟩ := h _ _ "b" (leaseOf 1 "b" (seconds 400)) .unauthorized
    (seconds 402) (seconds 402) hreach ⟨by decide, rfl⟩ (by decide)
    ⟨_, .tail _ (.head _), by decide, by decide⟩
  have hlookup : ((afterAll takenOver start).after (.report "b" .unauthorized
      (seconds 402))).db.accountRuntimeState.lookup "acct-1" =
        some ⟨"pool-1", .rateLimited, 1, 401⟩ := by decide
  obtain rfl := Option.some.inj (hlookup.symm.trans hrow)
  cases hstate

end

end Mcodex.AccountPool
