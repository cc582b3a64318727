import Mcodex.AccountPool.LiveLeases
import Mcodex.Runtime.Manager

/-!
# What the manager's functions do

One specification for each function of `Manager.lean`, for any store `db` and any environment that
meets the conditions `K`: what it returns and leaves of the store, and what it leaves where it
raises an error.
-/

namespace Mcodex.Runtime

open AccountPool Effect

section
variable {env : Env} {K : Conditions} {db : Db} {w : World} {m : Manager}

/-! ## Reads -/

theorem wp_readActiveHolderLease (h : env.At K db w) :
    wp (readActiveHolderLease env m) (fun r w' => env.At K db w' ∧
      ∃ now, K.reading now ∧ r = db.loadActiveHolderLease m.holderInstanceId now)
      (Stops (env.Failed K db)) w := by
  unfold readActiveHolderLease
  rw [wp_bind]
  refine wp_utcNow h fun now w₁ hnow h₁ => ?_
  exact wp_read h₁ (fun w₂ h₂ => ⟨h₂, now, hnow, rfl⟩) fun _ _ => id

theorem wp_loadCandidate {holder : HolderId} {family : LimitId} (row : Db.SelectionCandidateRow)
    (h : env.At K db w) :
    wp (loadCandidate env holder family row) (fun c w' =>
      c = row.candidate holder (db.quotaFamilyView row.registeredAccount.accountId family) ∧
        env.At K db w') (Stops (env.Failed K db)) w := by
  unfold loadCandidate
  rw [wp_bind]
  refine wp_read h (fun w₁ h₁ => ?_) fun _ _ => id
  unfold Db.quotaFamilyView
  split
  · rename_i hskip
    exact ⟨by dsimp only; rw [if_pos hskip], h₁⟩
  · rename_i hskip
    rw [wp_bind]
    exact wp_read h₁ (fun w₂ h₂ => ⟨by dsimp only; rw [if_neg hskip], h₂⟩) fun _ _ => id

/-- The candidates are read at the first clock reading. -/
theorem wp_loadRuntimeSelectionCandidates {poolId : PoolId} {holder : HolderId}
    {family : LimitId} (h : env.At K db w) :
    wp (loadRuntimeSelectionCandidates env poolId holder family) (fun cs w' =>
      env.At (K.since (env.clock w.ticks)) db w' ∧
        cs = db.loadRuntimeSelectionCandidates poolId holder family (env.clock w.ticks))
      (Stops (env.Failed K db)) w := by
  unfold loadRuntimeSelectionCandidates
  rw [wp_bind, wp_utcNow_iff, wp_bind]
  refine wp_read h.tick (fun w₂ h₂ => ?_) fun _ w₂ hf => ⟨hf.1, hf.2.of_since⟩
  refine (wp_mapM _ (env.At (K.since (env.clock w.ticks)) db) (fun row _ => wp_loadCandidate row)
    _ h₂).imp_stops ?_ fun _ w₃ hf => ⟨hf.1, hf.2.of_since⟩
  rintro _ w₃ ⟨rfl, h₃⟩
  exact ⟨h₃, rfl⟩

/-- The plan of a request on a store whose candidates are read at `now`. -/
def Manager.planAt (m : Manager) (db : Db) (poolId : PoolId) (request : SelectionRequest)
    (now : Int) : SelectionPlan :=
  let selectionFamily := resolveSelectionFamily m request
  evaluateSelection { request with selectionFamily := some selectionFamily }
    (request.now.getD now)
    (db.loadRuntimeSelectionCandidates poolId m.holderInstanceId selectionFamily now)

theorem wp_buildRuntimeSelectionPlan {request : SelectionRequest} {poolId : PoolId} {t : Int}
    (h : env.At K db w) (hpool : request.poolId = some poolId) (hnow : request.now = some t) :
    wp (buildRuntimeSelectionPlan env m request) (fun r w' =>
      env.At (K.since (env.clock w.ticks)) db w' ∧
        r = (resolveSelectionFamily m request, m.planAt db poolId request (env.clock w.ticks)))
      (Stops (env.Failed K db)) w := by
  unfold buildRuntimeSelectionPlan
  simp only [hpool, requestNow, hnow, wp_bind, wp_pure]
  refine (wp_loadRuntimeSelectionCandidates h).imp_ok ?_
  rintro _ w₁ ⟨h₁, rfl⟩
  exact ⟨h₁, by simp [Manager.planAt, hnow, hpool]⟩

/-! ## Leases -/

theorem wp_createAuthSession {lease : AccountLeaseRecord} (h : env.At K db w) :
    wp (createAuthSession env lease) (fun _ w' => env.At K db w')
      (Stops fun _ w' => (K.failing ∨ db.readRegisteredAccount lease.accountId = none) ∧
        env.At K db w') w := by
  have hfail : ∀ message w', env.Failed K db message w' →
      (K.failing ∨ db.readRegisteredAccount lease.accountId = none) ∧ env.At K db w' :=
    fun _ _ hf => ⟨.inl hf.1, hf.2⟩
  unfold createAuthSession
  rw [wp_bind]
  refine wp_read h (fun w₁ h₁ => ?_) hfail
  cases hreg : db.readRegisteredAccount lease.accountId with
  | none => exact ⟨.inr rfl, h₁⟩
  | some registeredAccount =>
    rw [hreg] at hfail
    rw [wp_bind]
    exact wp_perform h₁ (fun w₂ h₂ => h₂) hfail

theorem wp_activeSelectionFamily {lease : AccountLeaseRecord} {family : LimitId}
    (h : env.At K db w) :
    wp (activeSelectionFamily env lease family) (fun _ w' => env.At K db w')
      (Stops (env.Failed K db)) w := by
  unfold activeSelectionFamily
  rw [wp_bind]
  exact wp_read h (fun w₁ h₁ => h₁) fun _ _ => id

theorem wp_clearAuthMarker {lease : AccountLeaseRecord} (h : env.At K db w) :
    wp (clearAuthMarker env lease) (fun _ w' => env.At K db w') (Stops (env.Failed K db)) w := by
  unfold clearAuthMarker
  rw [wp_bind]
  refine wp_read h (fun w₁ h₁ => ?_) fun _ _ => id
  split
  · exact h₁
  · exact wp_perform h₁ (fun w₂ h₂ => h₂) fun _ _ => id

/-- A lease is released, or nothing is: an error leaves either. -/
theorem wp_releaseLeaseRecord {lease : AccountLeaseRecord} (h : env.At K db w) :
    wp (releaseLeaseRecord env lease)
      (fun _ w' => ∃ now, K.reading now ∧
        env.At K (db.releaseAccountLease lease.leaseKey now).2 w')
      (Stops fun _ w' => K.failing ∧ (env.At K db w' ∨ ∃ now, K.reading now ∧
        env.At K (db.releaseAccountLease lease.leaseKey now).2 w')) w := by
  unfold releaseLeaseRecord
  rw [wp_bind]
  refine wp_utcNow h fun now w₁ hnow h₁ => ?_
  rw [wp_bind]
  refine wp_call h₁ (fun w₂ h₂ => ?_) fun _ _ hf h₂ => ⟨hf, .inl h₂⟩
  refine (wp_clearAuthMarker h₂).imp (fun _ w₃ h₃ => ⟨now, hnow, h₃⟩) fun e w₃ he => ?_
  cases e with
  | raised message => exact ⟨he.1, .inr ⟨now, hnow, he.2⟩⟩
  | outOfFuel => exact he.elim

/-- The store grants the manager a lease when it asks for an account, at some clock reading. -/
def Grants (K : Conditions) (m : Manager) (poolId : PoolId) (accountId : AccountId)
    (family : LimitId) (db : Db) (lease : AccountLeaseRecord) (db' : Db) : Prop :=
  ∃ now retryNow, K.reading now ∧ db.acquirePreferredAccountLease poolId accountId family
    m.holderInstanceId m.leaseTtl now retryNow = (.ok lease, db')

/-- The store refuses the manager a lease of an account: the manager has no live lease, and the
account is not leasable. -/
def Denies (K : Conditions) (m : Manager) (poolId : PoolId) (accountId : AccountId)
    (family : LimitId) (db : Db) : Prop :=
  ∃ now, K.reading now ∧ db.loadActiveHolderLease m.holderInstanceId now = none ∧
    ¬db.LeasableAt poolId accountId (.selectionFamily family) now

section
variable {poolId : PoolId} {accountId : AccountId} {family : LimitId}

theorem wp_acquirePreferredAccountLease (h : env.At K db w) :
    wp (acquirePreferredAccountLease env m poolId accountId family)
      (fun lease w' => ∃ db', Grants K m poolId accountId family db lease db' ∧ env.At K db' w')
      (Stops fun e w' => env.At K db w' ∧
        match e with
        | .storage _ => K.failing
        | .noEligibleAccount => Denies K m poolId accountId family db) w := by
  unfold acquirePreferredAccountLease
  rw [wp_bind]
  refine wp_utcNow h fun now w₁ hnow h₁ => ?_
  rw [wp_bind]
  refine wp_utcNow h₁ fun retryNow w₂ hretry h₂ => ?_
  rw [wp_bind]
  refine wp_mapErr_stops (wp_call h₂ (fun w₃ h₃ => ?_) fun _ _ hf h₃ => ⟨h₃, hf⟩)
  rcases hr : db.acquirePreferredAccountLease poolId accountId family m.holderInstanceId m.leaseTtl
    now retryNow with ⟨_ | lease, db'⟩
  · obtain ⟨rfl, rfl, hdenied⟩ := Db.acquirePreferredAccountLease_error hr
    rw [hr] at h₃
    exact ⟨h₃, now, hnow, hdenied⟩
  · rw [hr] at h₃
    exact ⟨db', ⟨now, retryNow, hnow, hr⟩, h₃⟩

theorem wp_activateLease {lease : AccountLeaseRecord} (h : env.At K db w) :
    wp (activateLease env lease family) (fun active w' => active.record = lease ∧ env.At K db w')
      (Stops fun e w' => (∃ message, e = .storage message) ∧
        (K.failing ∨ db.readRegisteredAccount lease.accountId = none) ∧ env.At K db w') w := by
  unfold activateLease
  rw [wp_bind]
  refine wp_mapErr_stops ((wp_createAuthSession h).imp (fun _ w₁ h₁ => ?_) fun e w₁ he => ?_)
  · rw [wp_bind]
    refine wp_mapErr_stops ((wp_activeSelectionFamily h₁).imp (fun _ w₂ h₂ => ⟨rfl, h₂⟩)
      fun e w₂ he => ?_)
    cases e with
    | raised message => exact ⟨⟨_, rfl⟩, .inl he.1, he.2⟩
    | outOfFuel => exact he.elim
  · cases e with
    | raised message => exact ⟨⟨_, rfl⟩, he.1, he.2⟩
    | outOfFuel => exact he.elim

theorem wp_acquireSelected (h : env.At K db w) :
    wp (acquireSelected env m poolId accountId family)
      (fun r w' =>
        match r with
        | some active => ∃ db', Grants K m poolId accountId family db active.record db' ∧
          env.At K db' w'
        | none => Denies K m poolId accountId family db ∧ env.At K db w')
      (Stops fun e w' => (∃ message, e = .storage message) ∧
        ((K.failing ∧ env.At K db w') ∨
          ∃ lease db', Grants K m poolId accountId family db lease db' ∧
            (K.failing ∨ db'.readRegisteredAccount lease.accountId = none) ∧ env.At K db' w'))
      w := by
  unfold acquireSelected
  rw [wp_bind]
  refine wp_attempt_stops ((wp_acquirePreferredAccountLease h).imp ?_ fun e w₁ he => ?_)
  · rintro lease w₁ ⟨db', hgrant, h₁⟩
    rw [wp_bind]
    refine (wp_activateLease h₁).imp ?_ fun e w₂ he => ?_
    · rintro active w₂ ⟨rfl, h₂⟩
      exact ⟨db', hgrant, h₂⟩
    · cases e with
      | raised e => exact ⟨he.1, .inr ⟨lease, db', hgrant, he.2.1, he.2.2⟩⟩
      | outOfFuel => exact he.elim
  · rcases e with (_ | message) | _
    · exact ⟨he.2, he.1⟩
    · exact ⟨⟨_, rfl⟩, .inl ⟨he.2, he.1⟩⟩
    · exact he.elim

end

end

end Mcodex.Runtime
