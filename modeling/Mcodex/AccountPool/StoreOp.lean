import Mcodex.AccountPool.StoreSpec
import Mcodex.Lib.Transition

/-!
# Runs of the store

`StoreOp` is one call of an account operation of `StateRuntime`, by any holder and with any clock
readings, and `store` the transition system of databases under such calls. A call whose transaction
fails leaves the database as it was. Deleting an account is not among the calls.
-/

namespace Mcodex.AccountPool

open Effect

/-- One call of an account operation, its clock readings among the arguments. -/
inductive StoreOp where
  | acquireAccountLeaseExcluding (poolId : PoolId) (holderInstanceId : HolderId) (leaseTtl : Int)
      (excluded : List AccountId) (now retryNow : Int)
  | acquirePreferredAccountLease (poolId : PoolId) (accountId : AccountId)
      (selectionFamily : LimitId) (holderInstanceId : HolderId) (leaseTtl now retryNow : Int)
  | acquireQuotaProbeAccountLease (poolId : PoolId) (accountId : AccountId) (limitId : LimitId)
      (reservedUntil : Int) (holderInstanceId : HolderId) (leaseTtl now retryNow : Int)
  | renewAccountLease (key : LeaseKey) (now leaseTtl : Int)
  | releaseAccountLease (key : LeaseKey) (now : Int)
  | setAccountEnabled (accountId : AccountId) (enabled : Bool) (now : Int)
  | assignAccountPoolMembership (accountId : AccountId) (poolId : PoolId) (now : Int)
  | upsertRegisteredAccount (entry : RegisteredAccountUpsert) (now : Int)
  | upsertAccountRegistryEntry (entry : AccountRegistryEntryUpdate) (now : Int)
  | recordAccountHealthEvent (event : AccountHealthEvent)
  | importLegacyDefaultAccount (accountId : AccountId)
  | writeAccountStartupSelection (update : AccountStartupSelectionState)
  | upsertAccountQuotaState (record : AccountQuotaStateRecord)
  | reserveAccountQuotaProbe (accountId : AccountId) (limitId : LimitId) (now reservedUntil : Int)
  | recordAccountQuotaProbeSuccess (accountId : AccountId) (limitId : LimitId)
      (observation : AccountQuotaProbeObservation)
  | recordAccountQuotaProbeStillBlocked (accountId : AccountId) (limitId : LimitId)
      (observation : AccountQuotaProbeObservation) (update : AccountQuotaProbeStillBlocked)
  | recordAccountQuotaProbeAmbiguous (accountId : AccountId) (limitId : LimitId)
      (observation : AccountQuotaProbeObservation) (backoff : AccountQuotaProbeBackoff)

namespace StoreOp

/-- The database that a call leaves. -/
def run : StoreOp → Db → Db
  | acquireAccountLeaseExcluding poolId holder leaseTtl excluded now retryNow, db =>
    (db.acquireAccountLeaseExcluding poolId holder leaseTtl excluded now retryNow).2
  | acquirePreferredAccountLease poolId accountId family holder leaseTtl now retryNow, db =>
    (db.acquirePreferredAccountLease poolId accountId family holder leaseTtl now retryNow).2
  | acquireQuotaProbeAccountLease poolId accountId limitId reservedUntil holder leaseTtl now
      retryNow, db =>
    (db.acquireQuotaProbeAccountLease poolId accountId limitId reservedUntil holder leaseTtl now
      retryNow).2
  | renewAccountLease key now leaseTtl, db => (db.renewAccountLease key now leaseTtl).2
  | releaseAccountLease key now, db => (db.releaseAccountLease key now).2
  | setAccountEnabled accountId enabled now, db => (db.setAccountEnabled accountId enabled now).2
  | assignAccountPoolMembership accountId poolId now, db =>
    orElseKeep db ((db.assignAccountPoolMembership accountId poolId now).map (·.2))
  | upsertRegisteredAccount entry now, db =>
    orElseKeep db ((db.upsertRegisteredAccount entry now).map (·.2))
  | upsertAccountRegistryEntry entry now, db =>
    orElseKeep db (db.upsertAccountRegistryEntry entry now)
  | recordAccountHealthEvent event, db => orElseKeep db (db.recordAccountHealthEvent event)
  | importLegacyDefaultAccount accountId, db =>
    orElseKeep db (db.importLegacyDefaultAccount accountId)
  | writeAccountStartupSelection update, db => db.writeAccountStartupSelection update
  | upsertAccountQuotaState record, db => orElseKeep db (db.upsertAccountQuotaState record)
  | reserveAccountQuotaProbe accountId limitId now reservedUntil, db =>
    (db.reserveAccountQuotaProbe accountId limitId now reservedUntil).2
  | recordAccountQuotaProbeSuccess accountId limitId observation, db =>
    (db.recordAccountQuotaProbeSuccess accountId limitId observation).2
  | recordAccountQuotaProbeStillBlocked accountId limitId observation update, db =>
    (db.recordAccountQuotaProbeStillBlocked accountId limitId observation update).2
  | recordAccountQuotaProbeAmbiguous accountId limitId observation backoff, db =>
    (db.recordAccountQuotaProbeAmbiguous accountId limitId observation backoff).2

section
variable {db db' : Db} {accountId : AccountId}

/-- A call that succeeds commits the database it returns. -/
theorem map_snd_eq_ok {α : Type} {x : Except String (α × Db)} {s : Db}
    (h : x.map (·.2) = .ok s) : ∃ a, x = .ok (a, s) := by
  cases x with
  | error e => cases h
  | ok r => cases h; exact ⟨r.1, rfl⟩

/-! ## Leases -/

/-- The lease table evolves under every call. -/
theorem evolves (op : StoreOp) (db : Db) :
    LeaseTable.Evolves (fun _ _ => True) db.accountLeases (op.run db).accountLeases := by
  have htriv {P : LeaseTable → LeaseTable.Draft → Prop} {t t' : LeaseTable}
      (h : LeaseTable.Evolves P t t') : LeaseTable.Evolves (fun _ _ => True) t t' :=
    h.mono fun _ _ _ => trivial
  have hkeep {db' : Db} (h : db'.accountLeases = db.accountLeases) :
      LeaseTable.Evolves (fun _ _ => True) db.accountLeases db'.accountLeases := h ▸ .refl
  cases op with
  | acquireAccountLeaseExcluding => exact htriv Db.acquireAccountLeaseExcluding_leasesEvolve.evolves
  | acquirePreferredAccountLease | acquireQuotaProbeAccountLease =>
    exact htriv Db.acquireRequestedAccountLease_leasesEvolve.evolves
  | renewAccountLease => exact Db.renewAccountLease_leasesEvolve.evolves
  | releaseAccountLease => exact Db.releaseAccountLease_leasesEvolve.evolves
  | setAccountEnabled accountId enabled now =>
    simp only [run, Db.setAccountEnabled]
    split
    · exact .update _ _ .refl
    · exact .refl
  | assignAccountPoolMembership accountId poolId now =>
    refine orElseKeep_rel (R := fun s s' : Db => LeaseTable.Evolves (fun _ _ => True)
      s.accountLeases s'.accountLeases) .refl fun s hs => ?_
    obtain ⟨u, hu⟩ := map_snd_eq_ok hs
    obtain ⟨-, he⟩ := Db.assignAccountPoolMembership_eq_ok.1 hu
    cases he
    exact .update _ _ .refl
  | upsertRegisteredAccount entry now =>
    refine orElseKeep_rel (R := fun s s' : Db => LeaseTable.Evolves (fun _ _ => True)
      s.accountLeases s'.accountLeases) .refl fun s hs => ?_
    obtain ⟨u, hu⟩ := map_snd_eq_ok hs
    obtain ⟨-, -, ⟨h, -⟩ | h⟩ := Db.upsertRegisteredAccount_eq_ok hu
    · exact h ▸ .refl
    · exact h ▸ .update _ _ .refl
  | upsertAccountRegistryEntry entry now =>
    refine orElseKeep_rel (R := fun s s' : Db => LeaseTable.Evolves (fun _ _ => True)
      s.accountLeases s'.accountLeases) .refl fun s hs => ?_
    obtain ⟨-, -, ⟨h, -⟩ | h⟩ := Db.upsertAccountRegistryEntry_eq_ok hs
    · exact h ▸ .refl
    · exact h ▸ .update _ _ .refl
  | recordAccountHealthEvent event =>
    exact hkeep (orElseKeep_rel (R := fun s s' : Db => s'.accountLeases = s.accountLeases) rfl
      fun s hs => (Db.recordAccountHealthEvent_eq_ok hs).1)
  | importLegacyDefaultAccount accountId =>
    exact hkeep (orElseKeep_rel (R := fun s s' : Db => s'.accountLeases = s.accountLeases) rfl
      fun s hs => (Db.importLegacyDefaultAccount_eq_ok hs).1)
  | writeAccountStartupSelection => exact .refl
  | upsertAccountQuotaState record =>
    refine hkeep (orElseKeep_rel (R := fun s s' : Db => s'.accountLeases = s.accountLeases) rfl
      fun s hs => ?_)
    obtain ⟨_, rfl⟩ := Db.upsertAccountQuotaState_frame hs
    rfl
  | reserveAccountQuotaProbe | recordAccountQuotaProbeSuccess
  | recordAccountQuotaProbeStillBlocked | recordAccountQuotaProbeAmbiguous =>
    exact hkeep Db.updateQuotaWhere_accountLeases

/-! ## Pools -/

/-- The calls that write the pool of an account. -/
def WritesPool : StoreOp → Prop
  | assignAccountPoolMembership .. | upsertRegisteredAccount .. | upsertAccountRegistryEntry ..
  | recordAccountHealthEvent .. | importLegacyDefaultAccount .. => True
  | _ => False

/-- The other calls leave the pools of memberships and runtime states alone. -/
theorem poolOf_run {op : StoreOp} (h : ¬op.WritesPool) (db : Db) :
    (op.run db).poolOf = db.poolOf ∧ (op.run db).runtimePoolOf = db.runtimePoolOf := by
  have hleases {P : LeaseTable → LeaseTable.Draft → Prop} {db' : Db}
      (h : Db.LeasesEvolve P db db') :
      db'.poolOf = db.poolOf ∧ db'.runtimePoolOf = db.runtimePoolOf := ⟨h.poolOf, h.runtimePoolOf⟩
  have hquota {a : AccountId} {l : LimitId} {cond : QuotaRow → Bool} {f : QuotaRow → QuotaRow} :
      (db.updateQuotaWhere a l cond f).2.poolOf = db.poolOf ∧
        (db.updateQuotaWhere a l cond f).2.runtimePoolOf = db.runtimePoolOf := by
    obtain ⟨_, h⟩ := @Db.updateQuotaWhere_frame db a l cond f
    rw [h]
    exact ⟨rfl, rfl⟩
  cases op with
  | acquireAccountLeaseExcluding => exact hleases Db.acquireAccountLeaseExcluding_leasesEvolve
  | acquirePreferredAccountLease | acquireQuotaProbeAccountLease =>
    exact hleases Db.acquireRequestedAccountLease_leasesEvolve
  | renewAccountLease => exact hleases (P := fun _ _ => True) Db.renewAccountLease_leasesEvolve
  | releaseAccountLease => exact hleases (P := fun _ _ => True) Db.releaseAccountLease_leasesEvolve
  | setAccountEnabled accountId enabled now =>
    simp only [run, Db.setAccountEnabled]
    split <;> exact ⟨rfl, rfl⟩
  | writeAccountStartupSelection => exact ⟨rfl, rfl⟩
  | upsertAccountQuotaState record =>
    refine orElseKeep_rel (R := fun s s' : Db => s'.poolOf = s.poolOf ∧
      s'.runtimePoolOf = s.runtimePoolOf) ⟨rfl, rfl⟩ fun s hs => ?_
    obtain ⟨_, rfl⟩ := Db.upsertAccountQuotaState_frame hs
    exact ⟨rfl, rfl⟩
  | reserveAccountQuotaProbe | recordAccountQuotaProbeSuccess
  | recordAccountQuotaProbeStillBlocked | recordAccountQuotaProbeAmbiguous => exact hquota
  | assignAccountPoolMembership | upsertRegisteredAccount | upsertAccountRegistryEntry
  | recordAccountHealthEvent | importLegacyDefaultAccount => exact absurd trivial h

end

end StoreOp

/-- Databases under calls of account operations, from a new database. -/
def store : Transition.System Db StoreOp where
  init db := db = Db.empty
  step db op db' := op.run db = db'

/-- The registry entry of an enabled and healthy account. -/
def chatgptEntry (accountId : AccountId) (poolId : PoolId) (position : Int) :
    AccountRegistryEntryUpdate where
  accountId := accountId
  poolId := poolId
  position := position
  accountKind := "chatgpt"
  backendFamily := "chatgpt"
  workspaceId := none
  enabled := true
  healthy := true

/-- A sequence of calls. -/
def runAll (ops : List StoreOp) (db : Db) : Db := ops.foldl (fun db op => op.run db) db

theorem store_run_runAll : ∀ (ops : List StoreOp) {db db' : Db},
    store.Run db db' → store.Run db (runAll ops db')
  | [], _, _, h => h
  | op :: ops, _, db', h => store_run_runAll ops (.step h (rfl : op.run db' = op.run db'))

/-- Every sequence of calls on a new database reaches the database it leaves. -/
theorem store_reach_runAll (ops : List StoreOp) : store.Reach (runAll ops Db.empty) :=
  (Transition.System.Reach.init rfl).run (store_run_runAll ops .refl)

/-- An account is registered in `pool-1`. -/
def registered : Db := runAll [
  .upsertAccountRegistryEntry (chatgptEntry "acct-1" "pool-1" 0) 0] Db.empty

/-- The account is leased to `holder-1`. -/
def leased : Db := runAll [
  .acquirePreferredAccountLease "pool-1" "acct-1" "codex" "holder-1" (seconds 300) 0 0] registered

end Mcodex.AccountPool
