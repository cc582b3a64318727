import Mcodex.AccountPool.Acquire
import Mcodex.Lib.Effect

/-!
# What the store's operations do to their tables

One lemma for each operation that can fail says when it succeeds and which database it then
commits. The lease table only ever evolves (`LeaseTable.Evolves`): by updates of unreleased rows
and by insertions that the indexes admit.
-/

namespace Mcodex.AccountPool

open Table Effect

/-! ## Evolution of the lease table -/

namespace LeaseTable

/-- A sequence of statements on the lease table, the insertions all meeting `P`. -/
inductive Evolves (P : LeaseTable → Draft → Prop) : LeaseTable → LeaseTable → Prop
  | refl {t} : Evolves P t t
  | update {t t'} (cond : LeaseRow → Bool) (e : LeaseEdit) :
      Evolves P t t' → Evolves P t (t'.updateUnreleased cond e)
  | insert {t t' t''} (d : Draft) :
      Evolves P t t' → P t' d → t'.insert d = some t'' → Evolves P t t''

section
variable {P : LeaseTable → Draft → Prop} {t t' : LeaseTable}

theorem Evolves.later (h : Evolves P t t') : t.Later t' := by
  induction h with
  | refl => exact .refl _
  | update cond e _ ih => exact ih.trans (later_updateUnreleased _ cond e)
  | insert d _ _ hi ih => exact ih.trans (later_insert hi)

theorem Evolves.trans {t'' : LeaseTable} (h : Evolves P t t') (h' : Evolves P t' t'') :
    Evolves P t t'' := by
  induction h' with
  | refl => exact h
  | update cond e _ ih => exact .update cond e ih
  | insert d _ hP hi ih => exact .insert d ih hP hi

theorem Evolves.mono {Q : LeaseTable → Draft → Prop} (h : Evolves P t t')
    (hPQ : ∀ t d, P t d → Q t d) : Evolves Q t t' := by
  induction h with
  | refl => exact .refl
  | update cond e _ ih => exact .update cond e ih
  | insert d _ hP hi ih => exact .insert d ih (hPQ _ _ hP) hi

/-- A property of tables that updates and insertions preserve is preserved by an evolution. -/
theorem Evolves.invariant {I : LeaseTable → Prop} (h : Evolves P t t') (ht : I t)
    (hupdate : ∀ t cond e, I t → I (t.updateUnreleased cond e))
    (hinsert : ∀ t t' d, I t → P t d → t.insert d = some t' → I t') : I t' := by
  induction h with
  | refl => exact ht
  | update cond e _ ih => exact hupdate _ cond e ih
  | insert d _ hP hi ih => exact hinsert _ _ d ih hP hi

end

end LeaseTable

namespace Db

section
variable {db db' : Db} {accountId accountId' : AccountId} {poolId : PoolId} {position now : Int}

@[simp] theorem checkRegistered_eq_ok {u : Unit} :
    db.checkRegistered accountId = .ok u ↔ accountId ∈ db.accountRegistry := by
  unfold checkRegistered
  split <;> simp_all

/-! ## The pool of an account -/

/-- The pool of the account's membership. -/
def poolOf (db : Db) (accountId : AccountId) : Option PoolId :=
  (db.accountPoolMembership.lookup accountId).map (·.poolId)

/-- The pool of the account's runtime state. -/
def runtimePoolOf (db : Db) (accountId : AccountId) : Option PoolId :=
  (db.accountRuntimeState.lookup accountId).map (·.poolId)

/-- A write that moves one account to `pool` (`none`: out of every pool): the membership and a
runtime state that is still there name the new pool, and no other account moves. -/
structure Moves (db db' : Db) (accountId : AccountId) (pool : Option PoolId) : Prop where
  membership : db'.poolOf accountId = pool
  runtimeState : ∀ p ∈ db'.runtimePoolOf accountId, pool = some p
  others : ∀ other, other ≠ accountId →
    db'.poolOf other = db.poolOf other ∧ db'.runtimePoolOf other = db.runtimePoolOf other

/-- Releasing leases moves nobody. -/
theorem Moves.release {pool : Option PoolId} (h : db.Moves db' accountId pool)
    (a : AccountId) (releasedAt : Int) :
    db.Moves (db'.releaseUnreleasedAccountLeases a releasedAt) accountId pool :=
  ⟨h.membership, h.runtimeState, h.others⟩

/-- `db` with a membership row written. -/
def withMembership (db : Db) (accountId : AccountId) (poolId : PoolId) (position : Int) : Db :=
  { db with
    accountPoolMembership := db.accountPoolMembership.insert accountId { poolId, position } }

theorem poolOf_withMembership : (db.withMembership accountId poolId position).poolOf accountId' =
    if accountId' = accountId then some poolId else db.poolOf accountId' := by
  simp only [poolOf, withMembership, lookup_insert]
  split <;> rfl

theorem upsertAccountPoolMembership_eq_ok :
    db.upsertAccountPoolMembership accountId poolId position = .ok db' ↔
      accountId ∈ db.accountRegistry ∧ db.withMembership accountId poolId position = db' := by
  simp [upsertAccountPoolMembership, bind_eq_ok, pure, Except.pure, withMembership]

/-- `db` with the account's pool and position written to its three tables. -/
def withPool (db : Db) (accountId : AccountId) (poolId : PoolId) (position : Int) : Db :=
  { db.withMembership accountId poolId position with
    accountRegistry := updateKey accountId (fun row => { row with poolId, position })
      db.accountRegistry
    accountRuntimeState := updateKey accountId (fun row => { row with poolId })
      db.accountRuntimeState }

theorem withPool_moves : db.Moves (db.withPool accountId poolId position) accountId (some poolId) where
  membership := poolOf_withMembership.trans (if_pos rfl)
  runtimeState := by
    simp only [runtimePoolOf, withPool, lookup_updateKey, if_pos, Option.map_map]
    intro p hp
    obtain ⟨_, _, rfl⟩ := Option.map_eq_some_iff.1 hp
    rfl
  others other h := by
    refine ⟨poolOf_withMembership.trans (if_neg h), ?_⟩
    simp only [runtimePoolOf, withPool, lookup_updateKey, if_neg h]

theorem syncAccountMembershipCompat_eq_ok {r : Bool × Db} :
    db.syncAccountMembershipCompat accountId poolId position = .ok r ↔
      accountId ∈ db.accountRegistry ∧ (true, db.withPool accountId poolId position) = r := by
  simp only [syncAccountMembershipCompat, bind_eq_ok, upsertAccountPoolMembership_eq_ok, pure,
    Except.pure, Except.ok.injEq]
  constructor
  · rintro ⟨_, ⟨h, rfl⟩, rfl⟩
    exact ⟨h, by simp [withPool, withMembership, h]⟩
  · rintro ⟨h, rfl⟩
    exact ⟨db.withMembership accountId poolId position, ⟨h, rfl⟩,
      by simp [withPool, withMembership, h]⟩

/-- An assignment of a registered account writes its pool everywhere and releases its lease; of
another account it fails. -/
theorem assignAccountPoolMembership_eq_ok {r : Bool × Db} :
    db.assignAccountPoolMembership accountId poolId now = .ok r ↔
      accountId ∈ db.accountRegistry ∧
        (true, (db.withPool accountId poolId
          ((db.readAccountPoolPosition accountId).getD 0)).releaseUnreleasedAccountLeases
            accountId (datetimeToEpochSeconds now)) = r := by
  simp only [assignAccountPoolMembership, bind_eq_ok, syncAccountMembershipCompat_eq_ok]
  constructor
  · rintro ⟨_, ⟨h, rfl⟩, hr⟩
    exact ⟨h, by simpa [pure, Except.pure] using hr⟩
  · rintro ⟨h, rfl⟩
    exact ⟨_, ⟨h, rfl⟩, by simp [pure, Except.pure]⟩

/-! ## Registration -/

/-- A successful registry write changes the registry only, and the account is then registered. -/
theorem writeRegistryRow_eq_ok {row : RegistryRow} (h : db.writeRegistryRow accountId row = .ok db') :
    db' = { db with accountRegistry := db.accountRegistry.insert accountId row } := by
  unfold writeRegistryRow at h
  split at h
  · cases h
  · exact (Except.ok.inj h).symm

/-- Dropping a contradicting health row touches no pool of another account. -/
theorem runtimePoolOf_dropContradictingHealth {healthy : Bool} (h : accountId' ≠ accountId) :
    (db.dropContradictingHealth accountId healthy).runtimePoolOf accountId' =
      db.runtimePoolOf accountId' := by
  unfold dropContradictingHealth
  split
  · split
    · rfl
    · simp [runtimePoolOf, h]
  · rfl

theorem dropContradictingHealth_frame {healthy : Bool} :
    ∃ states, db.dropContradictingHealth accountId healthy =
      { db with accountRuntimeState := states } := by
  unfold dropContradictingHealth
  split
  · split
    · exact ⟨_, rfl⟩
    · exact ⟨_, rfl⟩
  · exact ⟨_, rfl⟩

theorem runtimePoolOf_setRuntimePool :
    (db.setRuntimePool accountId poolId).runtimePoolOf accountId' =
      if accountId' = accountId then (db.runtimePoolOf accountId').map fun _ => poolId
      else db.runtimePoolOf accountId' := by
  simp only [runtimePoolOf, setRuntimePool, lookup_updateKey]
  split <;> simp [Function.comp_def]

/-- Writing a membership and then the runtime state's pool moves the account. -/
theorem Moves.of_setRuntimePool {mid : Db} (hm : ∀ other, mid.poolOf other =
      if other = accountId then some poolId else db.poolOf other)
    (hr : ∀ other, other ≠ accountId → mid.runtimePoolOf other = db.runtimePoolOf other) :
    db.Moves (mid.setRuntimePool accountId poolId) accountId (some poolId) where
  membership := (hm accountId).trans (if_pos rfl)
  runtimeState p hp := by
    rw [runtimePoolOf_setRuntimePool, if_pos rfl] at hp
    obtain ⟨_, _, rfl⟩ := Option.map_eq_some_iff.1 hp
    rfl
  others other h :=
    ⟨(hm other).trans (if_neg h), (runtimePoolOf_setRuntimePool.trans (if_neg h)).trans (hr other h)⟩

/-- A registered account moves to the entry's pool, and keeps a lease only where that is the pool
it was in. -/
theorem upsertRegisteredAccount_eq_ok {entry : RegisteredAccountUpsert} {r : AccountId × Db}
    (h : db.upsertRegisteredAccount entry now = .ok r) :
    db.Moves r.2 r.1 (entry.membership.map (·.poolId)) ∧
      r.2.accountQuotaState = db.accountQuotaState ∧
      (r.2.accountLeases = db.accountLeases ∧
          db.readEffectiveAccountPoolId r.1 = entry.membership.map (·.poolId) ∨
        r.2.accountLeases = (db.releaseUnreleasedAccountLeases r.1
          (datetimeToEpochSeconds now)).accountLeases) := by
  simp only [upsertRegisteredAccount, bind_eq_ok] at h
  obtain ⟨accountId, -, db₁, h₁, db₂, h₂, h⟩ := h
  obtain rfl := writeRegistryRow_eq_ok h₁
  generalize hdb₃ : db₂.dropContradictingHealth accountId entry.healthy = db₃ at h
  obtain ⟨states, hframe⟩ := @dropContradictingHealth_frame db₂ accountId entry.healthy
  have hother : ∀ other, other ≠ accountId → db₃.runtimePoolOf other = db₂.runtimePoolOf other :=
    fun other ho => hdb₃ ▸ runtimePoolOf_dropContradictingHealth ho
  rw [hdb₃] at hframe
  -- the two shapes of an entry: with a membership to write, and without
  have hmid : db.Moves (db₃.replaceRuntimePool accountId entry.membership) accountId
        (entry.membership.map (·.poolId)) ∧
      db₃.accountQuotaState = db.accountQuotaState ∧ db₃.accountLeases = db.accountLeases := by
    cases hmem : entry.membership with
    | some membership =>
      simp only [hmem, replaceMembership, upsertAccountPoolMembership_eq_ok] at h₂
      obtain ⟨-, rfl⟩ := h₂
      refine ⟨Moves.of_setRuntimePool (fun other => ?_) fun other ho => hother other ho, ?_, ?_⟩
      · rw [hframe]
        exact poolOf_withMembership
      all_goals rw [hframe]; rfl
    | none =>
      simp only [hmem, replaceMembership] at h₂
      obtain rfl := Except.ok.inj h₂
      refine ⟨⟨?_, ?_, fun other ho => ⟨?_, ?_⟩⟩, ?_, ?_⟩
      · simp [poolOf, replaceRuntimePool, hframe]
      · simp [runtimePoolOf, replaceRuntimePool]
      · simp [poolOf, replaceRuntimePool, hframe, ho]
      · have := hother other ho
        simp only [runtimePoolOf] at this
        simp [runtimePoolOf, replaceRuntimePool, ho, this]
      all_goals rw [hframe]
  have hframe₄ : (db₃.replaceRuntimePool accountId entry.membership).accountQuotaState =
        db₃.accountQuotaState ∧
      (db₃.replaceRuntimePool accountId entry.membership).accountLeases = db₃.accountLeases := by
    cases entry.membership <;> exact ⟨rfl, rfl⟩
  obtain ⟨hmoves, hquota, hleases⟩ := hmid
  split at h
  · cases h
    exact ⟨hmoves.release _ _, hframe₄.1.trans hquota,
      .inr (by simp [releaseUnreleasedAccountLeases, hframe₄.2, hleases])⟩
  · rename_i hno
    cases h
    exact ⟨hmoves, hframe₄.1.trans hquota,
      .inl ⟨hframe₄.2.trans hleases, by simpa using (not_or.1 hno).1⟩⟩

/-- A registry entry moves its account to the entry's pool, and keeps a lease only where the
account was in that pool or in none. -/
theorem upsertAccountRegistryEntry_eq_ok {entry : AccountRegistryEntryUpdate}
    (h : db.upsertAccountRegistryEntry entry now = .ok db') :
    db.Moves db' entry.accountId (some entry.poolId) ∧
      db'.accountQuotaState = db.accountQuotaState ∧
      (db'.accountLeases = db.accountLeases ∧
          (∀ p ∈ db.readEffectiveAccountPoolId entry.accountId, p = entry.poolId) ∨
        db'.accountLeases = (db.releaseUnreleasedAccountLeases entry.accountId
          (datetimeToEpochSeconds now)).accountLeases) := by
  simp only [upsertAccountRegistryEntry, bind_eq_ok, upsertAccountPoolMembership_eq_ok] at h
  obtain ⟨db₁, h₁, db₂, ⟨-, rfl⟩, h⟩ := h
  obtain rfl := writeRegistryRow_eq_ok h₁
  generalize hdb₂ : withMembership _ entry.accountId entry.poolId entry.position = db₂ at h
  generalize hdb₃ : db₂.dropContradictingHealth entry.accountId entry.healthy = db₃ at h
  obtain ⟨states, hframe⟩ := @dropContradictingHealth_frame db₂ entry.accountId entry.healthy
  rw [hdb₃] at hframe
  have hmoves : db.Moves (db₃.setRuntimePool entry.accountId entry.poolId) entry.accountId
      (some entry.poolId) := by
    refine Moves.of_setRuntimePool (fun other => ?_) fun other ho => ?_
    · rw [hframe, ← hdb₂]
      exact poolOf_withMembership
    · exact (hdb₃ ▸ runtimePoolOf_dropContradictingHealth ho).trans (hdb₂ ▸ rfl)
  have hleases : db₃.accountLeases = db.accountLeases := by rw [hframe, ← hdb₂]; rfl
  have hquota : db₃.accountQuotaState = db.accountQuotaState := by rw [hframe, ← hdb₂]; rfl
  split at h
  · cases h
    exact ⟨hmoves.release _ _, hquota,
      .inr (by simp [releaseUnreleasedAccountLeases, setRuntimePool, hleases])⟩
  · rename_i hno
    cases h
    refine ⟨hmoves, hquota, .inl ⟨hleases, fun p hp => ?_⟩⟩
    rw [Option.mem_def.1 hp] at hno
    simpa using (not_or.1 hno).1

/-! ## Health events -/

/-- An event of a registered account: a member takes the pool of the runtime state the event
leaves, and an account outside every pool stays outside. -/
theorem recordAccountHealthEvent_eq_ok {event : AccountHealthEvent}
    (h : db.recordAccountHealthEvent event = .ok db') :
    db'.accountLeases = db.accountLeases ∧ db'.accountQuotaState = db.accountQuotaState ∧
      ∀ a, db'.poolOf a = (if a = event.accountId then (db.poolOf a).map fun _ =>
            (runtimeStateAfter event (db.accountRuntimeState.lookup event.accountId)).poolId
          else db.poolOf a) ∧
        db'.runtimePoolOf a = (if a = event.accountId then
            some (runtimeStateAfter event (db.accountRuntimeState.lookup event.accountId)).poolId
          else db.runtimePoolOf a) := by
  simp only [recordAccountHealthEvent, bind_eq_ok, checkRegistered_eq_ok] at h
  obtain ⟨-, hreg, h⟩ := h
  generalize hstate : runtimeStateAfter event (db.accountRuntimeState.lookup event.accountId) =
    state at h ⊢
  obtain ⟨row, hrow⟩ := Option.isSome_iff_exists.1 (AList.lookup_isSome.2 hreg)
  cases hmem : db.accountPoolMembership.lookup event.accountId with
  | none =>
    simp only [readAccountPoolMembershipRow, hmem, hrow, Option.isSome_none, Bool.false_eq_true,
      if_false] at h
    cases h
    refine ⟨rfl, rfl, fun a => ⟨?_, ?_⟩⟩
    · split
      · subst a
        simp [poolOf, hmem]
      · rfl
    · simp only [runtimePoolOf, lookup_insert]
      split <;> rfl
  | some membership =>
    simp only [readAccountPoolMembershipRow, hmem, hrow, Option.isSome_some, if_true,
      bind_eq_ok, syncAccountMembershipCompat_eq_ok] at h
    obtain ⟨_, ⟨-, rfl⟩, h⟩ := h
    cases h
    refine ⟨rfl, rfl, fun a => ⟨?_, ?_⟩⟩
    · rw [show poolOf (withPool _ _ _ _) a = _ from poolOf_withMembership]
      split
      · subst a
        simp [poolOf, hmem]
      · rfl
    · simp only [runtimePoolOf, withPool, withMembership, lookup_updateKey, lookup_insert]
      split <;> simp [*]

/-! ## The legacy import -/

/-- An import makes its account a member of the pool it is in, or of the legacy default pool, and
touches no lease and no runtime state. -/
theorem importLegacyDefaultAccount_eq_ok (h : db.importLegacyDefaultAccount accountId = .ok db') :
    db'.accountLeases = db.accountLeases ∧ db'.accountQuotaState = db.accountQuotaState ∧
      (∀ a, db'.runtimePoolOf a = db.runtimePoolOf a) ∧
      ∀ a, db'.poolOf a = if a = accountId then
          some (((db.readAccountPoolMembershipRow accountId).map (·.poolId)).getD
            legacyDefaultPoolId)
        else db.poolOf a := by
  simp only [importLegacyDefaultAccount, bind_eq_ok, upsertAccountPoolMembership_eq_ok] at h
  obtain ⟨db₁, h₁, db₂, ⟨-, rfl⟩, h⟩ := h
  obtain rfl := writeRegistryRow_eq_ok h₁
  split at h <;> cases h <;> exact ⟨rfl, rfl, fun _ => rfl, fun _ => poolOf_withMembership⟩

/-! ## Writes to the lease table and to the quota table only -/

/-- `db'` differs from `db` in its lease table at most, and that has evolved. -/
structure LeasesEvolve (P : LeaseTable → LeaseTable.Draft → Prop) (db db' : Db) : Prop where
  frame : db' = { db with accountLeases := db'.accountLeases }
  evolves : LeaseTable.Evolves P db.accountLeases db'.accountLeases

theorem LeasesEvolve.refl {P : LeaseTable → LeaseTable.Draft → Prop} : LeasesEvolve P db db :=
  ⟨rfl, .refl⟩

theorem LeasesEvolve.poolOf {P : LeaseTable → LeaseTable.Draft → Prop} (h : LeasesEvolve P db db') :
    db'.poolOf = db.poolOf := by
  rw [h.frame]; rfl

theorem LeasesEvolve.runtimePoolOf {P : LeaseTable → LeaseTable.Draft → Prop}
    (h : LeasesEvolve P db db') : db'.runtimePoolOf = db.runtimePoolOf := by
  rw [h.frame]; rfl

theorem releaseUnreleasedAccountLeases_leasesEvolve {P : LeaseTable → LeaseTable.Draft → Prop} :
    LeasesEvolve P db (db.releaseUnreleasedAccountLeases accountId now) :=
  ⟨rfl, .update _ _ .refl⟩

theorem releaseExpiredAccountLeases_leasesEvolve {P : LeaseTable → LeaseTable.Draft → Prop} :
    LeasesEvolve P db (db.releaseExpiredAccountLeases now) :=
  ⟨rfl, .update _ _ .refl⟩

section
variable {holderInstanceId : HolderId} {leaseTtl retryNow : Int}

/-- The draft of an insertion is for an account that the statement's `SELECT` yielded. -/
theorem insertLease_eq_inserted {selected : Option AccountId} {lease : AccountLeaseRecord}
    (h : db.insertLease selected poolId holderInstanceId now leaseTtl = .inserted lease db') :
    ∃ a leases, selected = some a ∧
      db.accountLeases.insert (leaseDraft a poolId holderInstanceId now leaseTtl) = some leases ∧
      lease = (db.accountLeases.draftRow
        (leaseDraft a poolId holderInstanceId now leaseTtl)).record ∧
      db' = { db with accountLeases := leases } := by
  unfold insertLease at h
  split at h
  · cases h
  · rename_i a
    simp only at h
    split at h
    · rename_i leases hins
      cases h
      exact ⟨a, leases, rfl, hins, rfl, rfl⟩
    · cases h

theorem insertLease_eq_noRow {selected : Option AccountId}
    (h : db.insertLease selected poolId holderInstanceId now leaseTtl = .noRow) :
    selected = none := by
  unfold insertLease at h
  split at h
  · rfl
  · simp only at h
    split at h <;> cases h

theorem insertLease_eq_contention {selected : Option AccountId}
    (h : db.insertLease selected poolId holderInstanceId now leaseTtl = .contention) :
    ∃ a, selected = some a ∧ ¬db.accountLeases.Admits a holderInstanceId := by
  unfold insertLease at h
  split at h
  · cases h
  · rename_i a
    refine ⟨a, rfl, fun hadm => ?_⟩
    obtain ⟨leases, hins, -⟩ :=
      LeaseTable.insert_isSome (d := leaseDraft a poolId holderInstanceId now leaseTtl) hadm
    simp [hins] at h

/-- What a requested acquisition can do, its result with the database it leaves. -/
inductive RequestedOutcome (db : Db) (poolId : PoolId) (accountId : AccountId)
    (holderInstanceId : HolderId) (leaseTtl : Int) (check : RequestedLeaseQuotaCheck)
    (now retryNow : Int) : Except AccountLeaseError AccountLeaseRecord × Db → Prop
  /-- The holder's own live lease is handed out again. -/
  | existing {lease} :
      (db.releaseExpiredAccountLeases now).existingLease check holderInstanceId now = some lease →
      RequestedOutcome db poolId accountId holderInstanceId leaseTtl check now retryNow
        (.ok lease, db.releaseExpiredAccountLeases now)
  /-- A new lease of the requested account is inserted. -/
  | inserted {leases} :
      (db.releaseExpiredAccountLeases now).existingLease check holderInstanceId now = none →
      (db.releaseExpiredAccountLeases now).Requestable poolId accountId check →
      (db.releaseExpiredAccountLeases now).accountLeases.insert
        (leaseDraft accountId poolId holderInstanceId now leaseTtl) = some leases →
      RequestedOutcome db poolId accountId holderInstanceId leaseTtl check now retryNow
        (.ok ((db.releaseExpiredAccountLeases now).accountLeases.draftRow
          (leaseDraft accountId poolId holderInstanceId now leaseTtl)).record,
          { db.releaseExpiredAccountLeases now with accountLeases := leases })
  /-- The account is filtered out, and the transaction is dropped. -/
  | filtered :
      (db.releaseExpiredAccountLeases now).existingLease check holderInstanceId now = none →
      ¬(db.releaseExpiredAccountLeases now).Requestable poolId accountId check →
      RequestedOutcome db poolId accountId holderInstanceId leaseTtl check now retryNow
        (.error .noEligibleAccount, db)
  /-- A unique index is met, and the holder has a lease after all. -/
  | raced {lease} :
      (db.releaseExpiredAccountLeases now).existingLease check holderInstanceId now = none →
      (db.releaseExpiredAccountLeases now).Requestable poolId accountId check →
      ¬(db.releaseExpiredAccountLeases now).accountLeases.Admits accountId holderInstanceId →
      db.existingLease check holderInstanceId retryNow = some lease →
      RequestedOutcome db poolId accountId holderInstanceId leaseTtl check now retryNow
        (.ok lease, db)
  /-- A unique index is met, and the holder has no lease. -/
  | contended :
      (db.releaseExpiredAccountLeases now).existingLease check holderInstanceId now = none →
      (db.releaseExpiredAccountLeases now).Requestable poolId accountId check →
      ¬(db.releaseExpiredAccountLeases now).accountLeases.Admits accountId holderInstanceId →
      RequestedOutcome db poolId accountId holderInstanceId leaseTtl check now retryNow
        (.error .noEligibleAccount, db)

theorem acquireRequestedAccountLease_cases {check : RequestedLeaseQuotaCheck} :
    RequestedOutcome db poolId accountId holderInstanceId leaseTtl check now retryNow
      (db.acquireRequestedAccountLease poolId accountId holderInstanceId leaseTtl check now
        retryNow) := by
  unfold acquireRequestedAccountLease
  cases hex : (db.releaseExpiredAccountLeases now).existingLease check holderInstanceId now with
  | some existing =>
    simp only [hex]
    exact .existing hex
  | none =>
    simp only [hex]
    split
    · rename_i lease tx hins
      obtain ⟨a, leases, hsel, hleases, rfl, rfl⟩ := insertLease_eq_inserted hins
      split at hsel
      · cases hsel
        exact .inserted hex ‹_› hleases
      · cases hsel
    · rename_i hno
      have := insertLease_eq_noRow hno
      split at this
      · cases this
      · exact .filtered hex ‹_›
    · rename_i hcon
      obtain ⟨a, hsel, hadm⟩ := insertLease_eq_contention hcon
      split at hsel
      · cases hsel
        split
        · exact .raced hex ‹_› hadm ‹_›
        · exact .contended hex ‹_› hadm
      · cases hsel

/-- A draft whose account is a member of the draft's pool, with nothing unreleased. -/
def OfMember (db : Db) (t : LeaseTable) (d : LeaseTable.Draft) : Prop :=
  db.poolOf d.accountId = some d.poolId ∧
    ∀ r ∈ t.rows, r.Unreleased → r.accountId ≠ d.accountId

theorem acquireRequestedAccountLease_leasesEvolve {check : RequestedLeaseQuotaCheck} :
    LeasesEvolve db.OfMember db (db.acquireRequestedAccountLease poolId accountId holderInstanceId
      leaseTtl check now retryNow).2 := by
  generalize hr : db.acquireRequestedAccountLease poolId accountId holderInstanceId leaseTtl check
    now retryNow = r
  have hcases := hr ▸ @acquireRequestedAccountLease_cases db accountId poolId now
    holderInstanceId leaseTtl retryNow check
  cases hcases with
  | existing => exact releaseExpiredAccountLeases_leasesEvolve
  | inserted _ hreq hins =>
    refine ⟨rfl, .insert _ releaseExpiredAccountLeases_leasesEvolve.evolves ⟨?_, ?_⟩ hins⟩
    · obtain ⟨⟨row, hrow, hpool⟩, -⟩ := hreq
      exact Option.map_eq_some_iff.2 ⟨row, hrow, hpool⟩
    · exact fun r hr hu => ((LeaseTable.insert_eq_some.1 hins).1 r hr hu).1
  | filtered | raced | contended => exact .refl

theorem mem_poolMembers {m : Member} : m ∈ db.poolMembers poolId ↔
    db.accountPoolMembership.lookup m.accountId = some ⟨poolId, m.position⟩ ∧
      m.accountId ∈ db.accountRegistry := by
  simp only [poolMembers, List.mem_insertionSort, List.mem_map, List.mem_filter,
    decide_eq_true_eq]
  constructor
  · rintro ⟨⟨a, row⟩, ⟨hmem, hpool, hreg⟩, rfl⟩
    refine ⟨?_, hreg⟩
    rw [← hpool]
    exact AList.mem_lookup_iff.2 hmem
  · rintro ⟨hlook, hreg⟩
    exact ⟨⟨m.accountId, ⟨poolId, m.position⟩⟩, ⟨AList.mem_lookup_iff.1 hlook, rfl, hreg⟩, rfl⟩

theorem acquireAccountLeaseExcluding_leasesEvolve {excluded : List AccountId} :
    LeasesEvolve db.OfMember db (db.acquireAccountLeaseExcluding poolId holderInstanceId leaseTtl
      excluded now retryNow).2 := by
  unfold acquireAccountLeaseExcluding
  cases hex : (db.releaseExpiredAccountLeases now).loadActiveHolderLease holderInstanceId now with
  | some existing =>
    simp only [hex]
    split <;> exact releaseExpiredAccountLeases_leasesEvolve
  | none =>
    simp only [hex]
    split
    · rename_i lease tx hins
      obtain ⟨a, leases, hsel, hleases, -, rfl⟩ := insertLease_eq_inserted hins
      refine ⟨rfl, .insert _ releaseExpiredAccountLeases_leasesEvolve.evolves ⟨?_, ?_⟩ hleases⟩
      · obtain ⟨m, hfind, rfl⟩ := Option.map_eq_some_iff.1 hsel
        have hm := mem_poolMembers.1 (List.mem_of_find?_eq_some hfind)
        exact Option.map_eq_some_iff.2 ⟨_, hm.1, rfl⟩
      · exact fun r hr hu => ((LeaseTable.insert_eq_some.1 hleases).1 r hr hu).1
    · exact .refl
    · split
      · split <;> exact .refl
      · exact .refl

end

theorem renewAccountLease_leasesEvolve {P : LeaseTable → LeaseTable.Draft → Prop} {key : LeaseKey}
    {leaseTtl : Int} : LeasesEvolve P db (db.renewAccountLease key now leaseTtl).2 := by
  unfold renewAccountLease
  dsimp only
  split
  · exact .refl
  · split <;> exact ⟨rfl, .update _ _ .refl⟩

theorem releaseAccountLease_leasesEvolve {P : LeaseTable → LeaseTable.Draft → Prop}
    {key : LeaseKey} : LeasesEvolve P db (db.releaseAccountLease key now).2 := by
  unfold releaseAccountLease
  split
  · exact .refl
  · exact ⟨rfl, .update _ _ .refl⟩

theorem updateQuotaWhere_frame {limitId : LimitId} {cond : QuotaRow → Bool}
    {f : QuotaRow → QuotaRow} :
    ∃ quota, (db.updateQuotaWhere accountId limitId cond f).2 =
      { db with accountQuotaState := quota } := by
  unfold updateQuotaWhere
  split
  · split
    · exact ⟨_, rfl⟩
    · exact ⟨_, rfl⟩
  · exact ⟨_, rfl⟩

theorem updateQuotaWhere_lookup {limitId : LimitId} {cond : QuotaRow → Bool}
    {f : QuotaRow → QuotaRow} {key : AccountId × LimitId} :
    (db.updateQuotaWhere accountId limitId cond f).2.accountQuotaState.lookup key =
      if key = (accountId, limitId) then
        (db.accountQuotaState.lookup key).map fun row => if cond row then f row else row
      else db.accountQuotaState.lookup key := by
  unfold updateQuotaWhere
  split
  · rename_i row hrow
    by_cases hkey : key = (accountId, limitId)
    · subst hkey
      cases hc : cond row <;> simp [hrow, hc]
    · cases hc : cond row <;> simp [hkey]
  · rename_i hrow
    by_cases hkey : key = (accountId, limitId)
    · subst hkey
      simp [hrow]
    · simp [hkey]

theorem updateQuotaWhere_eq_true {limitId : LimitId} {cond : QuotaRow → Bool}
    {f : QuotaRow → QuotaRow} (h : (db.updateQuotaWhere accountId limitId cond f).1 = true) :
    ∃ row, db.accountQuotaState.lookup (accountId, limitId) = some row ∧ cond row = true ∧
      (db.updateQuotaWhere accountId limitId cond f).2.accountQuotaState.lookup
        (accountId, limitId) = some (f row) := by
  rw [updateQuotaWhere_lookup, if_pos rfl]
  unfold updateQuotaWhere at h
  split at h
  · rename_i row hrow
    split at h
    · exact ⟨row, hrow, ‹_›, by simp [*]⟩
    · cases h
  · cases h

/-- An update that affects no row changes nothing. -/
theorem updateQuotaWhere_eq_false {limitId : LimitId} {cond : QuotaRow → Bool}
    {f : QuotaRow → QuotaRow} (h : (db.updateQuotaWhere accountId limitId cond f).1 = false) :
    (db.updateQuotaWhere accountId limitId cond f).2 = db ∧
      ∀ row ∈ db.accountQuotaState.lookup (accountId, limitId), cond row = false := by
  unfold updateQuotaWhere at h ⊢
  split at h
  · rename_i row hrow
    split at h
    · cases h
    · rename_i hc
      refine ⟨by simp [hc], fun row' hrow' => ?_⟩
      rw [Option.mem_def, hrow] at hrow'
      exact Option.some.inj hrow' ▸ Bool.eq_false_iff.2 hc
  · rename_i hrow
    exact ⟨by simp, by simp [hrow]⟩

theorem updateQuotaWhere_accountLeases {limitId : LimitId} {cond : QuotaRow → Bool}
    {f : QuotaRow → QuotaRow} :
    (db.updateQuotaWhere accountId limitId cond f).2.accountLeases = db.accountLeases := by
  obtain ⟨_, h⟩ := @updateQuotaWhere_frame db accountId limitId cond f
  rw [h]

theorem upsertAccountQuotaState_frame {record : AccountQuotaStateRecord}
    (h : db.upsertAccountQuotaState record = .ok db') :
    ∃ quota, db' = { db with accountQuotaState := quota } := by
  simp only [upsertAccountQuotaState, bind_eq_ok] at h
  obtain ⟨-, -, h⟩ := h
  split at h <;> cases h <;> exact ⟨_, rfl⟩

end

end Db

end Mcodex.AccountPool
