import Mcodex.AccountPool.HealthPool

/-!
# The pool of a lease

The selector looks for leases of a candidate under the candidate's pool, the insertion of a lease
for unreleased leases of any pool. They see the same leases as long as an unreleased lease is
recorded under the pool of its account (`LeasePoolsAgree`). Every operation that moves an account
releases its leases, except a health event; so the leases agree along runs whose health events
move no leased account (`StoreOp.Settles`).
-/

namespace Mcodex.AccountPool

open Effect

/-- An unreleased lease is recorded under the pool of its account. -/
def Db.LeasePoolsAgree (db : Db) : Prop :=
  ∀ r ∈ db.accountLeases.rows, r.Unreleased → db.poolOf r.accountId = some r.poolId

section
variable {db db' : Db} {accountId : AccountId} {pool : Option PoolId} {releasedAt : Int}

/-- Writes to the lease table that insert leases of members only. -/
theorem Db.LeasePoolsAgree.evolves (h : db.LeasePoolsAgree) {t : LeaseTable}
    (he : LeaseTable.Evolves db.OfMember db.accountLeases t) :
    ∀ r ∈ t.rows, r.Unreleased → db.poolOf r.accountId = some r.poolId := by
  refine he.invariant (I := fun t => ∀ r ∈ t.rows, r.Unreleased →
    db.poolOf r.accountId = some r.poolId) h (fun t cond e ht r hr hu => ?_)
    fun t t' d ht hd hins r hr hu => ?_
  · obtain ⟨r₀, hr₀, rfl⟩ := LeaseTable.mem_updateUnreleased.1 hr
    have hlater := LeaseTable.later_edit cond e r₀
    rw [hlater.accountId, hlater.poolId]
    exact ht r₀ hr₀ (hlater.unreleased hu)
  · rw [(LeaseTable.insert_eq_some.1 hins).2] at hr
    rcases List.mem_append.1 hr with hr | hr
    · exact ht r hr hu
    · rw [List.mem_singleton.1 hr]
      exact hd.1

theorem Db.LeasesEvolve.leasePoolsAgree (he : Db.LeasesEvolve db.OfMember db db')
    (h : db.LeasePoolsAgree) : db'.LeasePoolsAgree := by
  intro r hr hu
  rw [he.poolOf]
  exact h.evolves he.evolves r hr hu

/-- A move to the pool where the account is releases nothing. -/
theorem Db.Moves.leasePoolsAgree_of_same (hm : db.Moves db' accountId pool)
    (h : db.LeasePoolsAgree) (hleases : db'.accountLeases = db.accountLeases)
    (hpool : ∀ p ∈ db.poolOf accountId, pool = some p) : db'.LeasePoolsAgree := by
  intro r hr hu
  rw [hleases] at hr
  by_cases ha : r.accountId = accountId
  · rw [ha, hm.membership]
    exact hpool _ (ha ▸ h r hr hu)
  · rw [(hm.others _ ha).1]
    exact h r hr hu

/-- A move that releases the leases of its account. -/
theorem Db.Moves.leasePoolsAgree_of_release (hm : db.Moves db' accountId pool)
    (h : db.LeasePoolsAgree) (hleases : db'.accountLeases =
      (db.releaseUnreleasedAccountLeases accountId releasedAt).accountLeases) :
    db'.LeasePoolsAgree := by
  intro r hr hu
  rw [hleases] at hr
  obtain ⟨hr, hu, ha⟩ := LeaseTable.mem_release_unreleased.1 ⟨hr, hu⟩
  rw [(hm.others _ (of_decide_eq_false ha)).1]
  exact h r hr hu

theorem Db.readEffectiveAccountPoolId_of_mem {p : PoolId} (h : p ∈ db.poolOf accountId) :
    db.readEffectiveAccountPoolId accountId = some p := by
  obtain ⟨row, hrow, rfl⟩ := Option.map_eq_some_iff.1 h
  simp [Db.readEffectiveAccountPoolId, hrow]

/-- A newer health event moves no account that has an unreleased lease. -/
def StoreOp.Settles (db : Db) : StoreOp → Prop
  | recordAccountHealthEvent event => db.NewerEvent event →
      (∀ p ∈ db.poolOf event.accountId, p = event.poolId) ∨
        db.hasUnreleasedLease event.accountId = false
  | importLegacyDefaultAccount _ => False
  | _ => True

theorem Db.LeasePoolsAgree.recordAccountHealthEvent {event : AccountHealthEvent}
    (h : db.LeasePoolsAgree) (hpools : db.PoolsAgree)
    (hsettles : (StoreOp.recordAccountHealthEvent event).Settles db)
    (hev : db.recordAccountHealthEvent event = .ok db') : db'.LeasePoolsAgree := by
  intro r hr hu
  rw [(Db.recordAccountHealthEvent_eq_ok hev).1] at hr
  rw [hpools.poolOf_recordAccountHealthEvent hev]
  have hpool := h r hr hu
  split
  · rename_i hmove
    obtain ⟨ha, -, hnew⟩ := hmove
    rcases hsettles hnew with hsame | hfree
    · rw [hsame r.poolId (ha ▸ hpool)]
    · simp only [Db.hasUnreleasedLease, List.any_eq_false, decide_eq_true_eq] at hfree
      exact absurd ⟨ha, hu⟩ (hfree r hr)
  · exact hpool

/-- **Step lemma.** A call that settles keeps leases under the pools of their accounts. -/
theorem StoreOp.leasePoolsAgree {op : StoreOp} (hsettles : op.Settles db)
    (hpools : db.PoolsAgree) (h : db.LeasePoolsAgree) : (op.run db).LeasePoolsAgree := by
  have hkeep {db' : Db} (hp : db'.poolOf = db.poolOf)
      (hl : db'.accountLeases = db.accountLeases) : db'.LeasePoolsAgree := by
    intro r hr hu
    rw [hp]
    exact h r (hl ▸ hr) hu
  cases op with
  | acquireAccountLeaseExcluding =>
    exact Db.acquireAccountLeaseExcluding_leasesEvolve.leasePoolsAgree h
  | acquirePreferredAccountLease | acquireQuotaProbeAccountLease =>
    exact Db.acquireRequestedAccountLease_leasesEvolve.leasePoolsAgree h
  | renewAccountLease => exact Db.renewAccountLease_leasesEvolve.leasePoolsAgree h
  | releaseAccountLease => exact Db.releaseAccountLease_leasesEvolve.leasePoolsAgree h
  | setAccountEnabled accountId enabled now =>
    simp only [run, Db.setAccountEnabled]
    split
    · exact (Db.releaseUnreleasedAccountLeases_leasesEvolve (P := Db.OfMember _)).leasePoolsAgree
        (hkeep rfl rfl)
    · exact hkeep rfl rfl
  | assignAccountPoolMembership accountId poolId now =>
    refine orElseKeep_rel (R := fun _ s' : Db => s'.LeasePoolsAgree) h fun s hs => ?_
    obtain ⟨u, hu⟩ := map_snd_eq_ok hs
    obtain ⟨-, he⟩ := Db.assignAccountPoolMembership_eq_ok.1 hu
    cases he
    exact (Db.withPool_moves.release _ _).leasePoolsAgree_of_release h rfl
  | upsertRegisteredAccount entry now =>
    refine orElseKeep_rel (R := fun _ s' : Db => s'.LeasePoolsAgree) h fun s hs => ?_
    obtain ⟨u, hu⟩ := map_snd_eq_ok hs
    obtain ⟨hm, -, ⟨hleases, hpool⟩ | hleases⟩ := Db.upsertRegisteredAccount_eq_ok hu
    · refine hm.leasePoolsAgree_of_same h hleases fun p hp => ?_
      rw [← hpool, Db.readEffectiveAccountPoolId_of_mem hp]
    · exact hm.leasePoolsAgree_of_release h hleases
  | upsertAccountRegistryEntry entry now =>
    refine orElseKeep_rel (R := fun _ s' : Db => s'.LeasePoolsAgree) h fun s hs => ?_
    obtain ⟨hm, -, ⟨hleases, hpool⟩ | hleases⟩ := Db.upsertAccountRegistryEntry_eq_ok hs
    · refine hm.leasePoolsAgree_of_same h hleases fun p hp => ?_
      rw [hpool p (Db.readEffectiveAccountPoolId_of_mem hp)]
    · exact hm.leasePoolsAgree_of_release h hleases
  | recordAccountHealthEvent event =>
    exact orElseKeep_rel (R := fun _ s' : Db => s'.LeasePoolsAgree) h
      fun s hs => h.recordAccountHealthEvent hpools hsettles hs
  | importLegacyDefaultAccount => exact hsettles.elim
  | writeAccountStartupSelection => exact hkeep rfl rfl
  | upsertAccountQuotaState record =>
    refine orElseKeep_rel (R := fun _ s' : Db => s'.LeasePoolsAgree) h fun s hs => ?_
    obtain ⟨_, rfl⟩ := Db.upsertAccountQuotaState_frame hs
    exact hkeep rfl rfl
  | reserveAccountQuotaProbe | recordAccountQuotaProbeSuccess
  | recordAccountQuotaProbeStillBlocked | recordAccountQuotaProbeAmbiguous =>
    exact hkeep (StoreOp.poolOf_run id db).1 Db.updateQuotaWhere_accountLeases

/-- **Run lemma.** Leases are under the pools of their accounts along runs that settle. -/
theorem leasePoolsAgree_of_reach (h : (store.restrict fun db op => op.Settles db).Reach db) :
    db.LeasePoolsAgree := by
  refine (h.invariant (I := fun db => db.PoolsAgree ∧ db.LeasePoolsAgree) (fun db hinit => ?_)
    fun s op t hs hstep => ?_).2
  · obtain rfl : db = Db.empty := hinit
    exact ⟨fun _ _ hp => (nomatch hp), fun _ hr => (nomatch hr)⟩
  · obtain ⟨hsettles, rfl⟩ := hstep
    have hop : ∀ a, op ≠ .importLegacyDefaultAccount a := by
      rintro a rfl
      exact hsettles
    exact ⟨(History.after_invariant (s := ⟨s, fun _ => none, s.poolOf⟩) hop hs.1 rfl).1,
      op.leasePoolsAgree hsettles hs.1 hs.2⟩

end

end Mcodex.AccountPool
