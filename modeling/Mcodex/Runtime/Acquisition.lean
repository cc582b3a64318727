import Mcodex.AccountPool.Candidates
import Mcodex.AccountPool.LeasePools
import Mcodex.Runtime.ProbeSpec

/-!
# The acquisition loop ends

The selector and the insertion of a lease check an account by different queries. Where leases are
recorded under the pools of their accounts the two agree: an account that the plan selects is
granted. And a probe takes its account out of the probeable ones. So `acquire_selected_lease` needs
a round for each account that may be probed, and one more.
-/

namespace Mcodex.Runtime

open AccountPool Effect

section
variable {env : Env} {K : Conditions} {db db' : Db} {w : World} {m : Manager} {t now : Int}
  {poolId : PoolId} {accountId : AccountId} {limitId family : LimitId}
  {request : SelectionRequest}

/-! ## Plans in terms of the store -/

theorem planAt_select
    (h : (m.planAt db poolId request now).terminalAction = .select accountId) :
    db.poolOf accountId = some poolId ∧ db.Enabled accountId ∧ db.Authorized accountId ∧
      (∀ lease ∈ db.liveLeaseInPool accountId poolId now,
        lease.holderInstanceId = m.holderInstanceId) ∧
      ∀ row ∈ db.readSelectionQuotaState accountId (resolveSelectionFamily m request),
        row.exhaustedWindows = .none := by
  obtain ⟨c, hc, hsel, rfl⟩ := evaluateSelection_select h
  obtain ⟨mem, hmem, hof⟩ := Ranking.exists_of_mem_right Db.candidateOf_members hc
  obtain ⟨henabled, hauth, hleased⟩ := hardRejectReason_eq_none hsel.1
  have hquota := classifyCandidate_isNotBlocked.1 hsel.2
  rw [hof.accountId]
  refine ⟨?_, hof.enabled.1 henabled, hof.authorized.1 hauth, fun lease hlease => ?_, ?_⟩
  · exact Option.map_eq_some_iff.2 ⟨_, (Db.mem_poolMembers.1 hmem).1, rfl⟩
  · rw [hof.leased, Option.any_eq_false] at hleased
    simpa using hleased lease hlease
  · have hfamily : ({ request with selectionFamily := some (resolveSelectionFamily m request) } :
        SelectionRequest).family = resolveSelectionFamily m request := rfl
    rw [hfamily, hof.quota] at hquota
    exact hquota

theorem planAt_probe (hnow : request.now = some t)
    (h : (m.planAt db poolId request now).terminalAction = .probe accountId) :
    (∃ mem ∈ db.poolMembers poolId, mem.accountId = accountId) ∧
      ∃ row, db.readSelectionQuotaState accountId (resolveSelectionFamily m request) = some row ∧
        row.exhaustedWindows ≠ .none ∧ ∀ next ∈ row.nextProbeAfter, next ≤ t := by
  obtain ⟨c, hc, hprobe, rfl⟩ := evaluateSelection_probe h
  obtain ⟨mem, hmem, hof⟩ := Ranking.exists_of_mem_right Db.candidateOf_members hc
  have hquota := classifyCandidate_eq_probeEligibleBlocked.1 hprobe.2
  have hfamily : ({ request with selectionFamily := some (resolveSelectionFamily m request) } :
      SelectionRequest).family = resolveSelectionFamily m request := rfl
  rw [hfamily, hof.quota] at hquota
  simp only [hnow, Option.getD_some] at hquota
  exact ⟨⟨mem, hmem, hof.accountId.symm⟩, hof.accountId.symm ▸ hquota⟩

/-! ## The planner and the store agree -/

theorem resolveSelectionFamily_normalized :
    Db.normalizedSelectionFamily (resolveSelectionFamily m request) =
      resolveSelectionFamily m request := by
  have hnormal : ∀ family, Db.normalizedSelectionFamily (Db.normalizedSelectionFamily family) =
      Db.normalizedSelectionFamily family := by
    intro family
    by_cases hempty : family = "" <;> simp [Db.normalizedSelectionFamily, hempty, compatQuotaLimitId]
  have hcodex : Db.normalizedSelectionFamily "codex" = "codex" := rfl
  unfold resolveSelectionFamily
  split
  · exact hnormal _
  · split
    · exact hcodex
    · split
      · split
        · exact hnormal _
        · exact hcodex
      · exact hcodex

/-- The row that the insertion joins is the one that the selector reads. -/
theorem quotaOpen_of_readSelectionQuotaState
    (hfamily : Db.normalizedSelectionFamily family = family)
    (h : ∀ row ∈ db.readSelectionQuotaState accountId family, row.exhaustedWindows = .none) :
    db.QuotaOpen accountId family := by
  intro row hrow
  rw [Option.mem_def, Db.joinedQuotaRow, hfamily] at hrow
  unfold Db.readSelectionQuotaState at h
  cases hsel : db.accountQuotaState.lookup (accountId, family) with
  | some selected =>
    rw [hsel] at hrow
    obtain rfl : selected = row := Option.some.inj hrow
    exact h (selected.record accountId family) (by simp [Db.readAccountQuotaState, hsel])
  | none =>
    rw [hsel] at hrow
    by_cases hcodex : family = compatQuotaLimitId
    · subst hcodex
      rw [hsel] at hrow
      cases hrow
    · have hrow' : db.accountQuotaState.lookup (accountId, compatQuotaLimitId) = some row := hrow
      exact h (row.record accountId compatQuotaLimitId)
        (by simp [Db.readAccountQuotaState, hsel, hcodex, hrow'])

/-- **Agreement.** The account that a plan selects may be leased at any later instant, unless the
holder has a live lease of its own then. -/
theorem leasableAt_of_select (hpools : db.LeasePoolsAgree)
    (h : (m.planAt db poolId request now).terminalAction = .select accountId) {now' : Int}
    (hle : now ≤ now') (hholder : db.loadActiveHolderLease m.holderInstanceId now' = none) :
    db.LeasableAt poolId accountId (.selectionFamily (resolveSelectionFamily m request)) now' := by
  obtain ⟨hpool, henabled, hauth, hleased, hquota⟩ := planAt_select h
  refine ⟨hpool, henabled, hauth,
    quotaOpen_of_readSelectionQuotaState resolveSelectionFamily_normalized hquota, ?_⟩
  -- a live lease of the account is in its pool, so the selector saw it and it is the holder's
  refine Db.accountHasActiveLease_eq_false.2 fun r hr ha hlive => ?_
  have hrpool : r.poolId = poolId := by
    have := hpools r hr hlive.1
    rw [ha, hpool] at this
    exact (Option.some.inj this).symm
  have hfound : db.liveLeaseInPool accountId poolId now = some r.record := by
    unfold Db.liveLeaseInPool
    cases hfind : db.accountLeases.rows.find? fun r => r.accountId = accountId ∧
        r.poolId = poolId ∧ r.LiveAt (datetimeToEpochSeconds now) with
    | none =>
      have := List.find?_eq_none.1 hfind r hr
      simp only [decide_eq_true_eq] at this
      exact absurd ⟨ha, hrpool, hlive.mono hle⟩ this
    | some r' =>
      have hr' := List.find?_some hfind
      simp only [decide_eq_true_eq] at hr'
      rw [db.accountLeases.activeAccount.eq_of_mem (List.mem_of_find?_eq_some hfind) hr
        hr'.2.2.1 hlive.1 (hr'.1.trans ha.symm)]
      rfl
  exact Db.loadActiveHolderLease_eq_none.1 hholder r hr (hleased _ hfound) hlive

/-- So the store does not deny it. -/
theorem not_denies_of_select (hpools : db.LeasePoolsAgree)
    (h : (m.planAt db poolId request now).terminalAction = .select accountId)
    (hK : ∀ now', K.reading now' → now ≤ now') :
    ¬Denies K m poolId accountId (resolveSelectionFamily m request) db := by
  rintro ⟨now', hnow', hholder, hleasable⟩
  exact hleasable (leasableAt_of_select hpools h (hK now' hnow') hholder)

/-! ## Probes -/

/-- A selection at `t` would probe the account: its quota is exhausted and no probe of it is held
back beyond `t`. -/
def ProbeEligible (db : Db) (family : LimitId) (t : Int) (accountId : AccountId) : Bool :=
  (db.readSelectionQuotaState accountId family).any fun row =>
    row.exhaustedWindows.isExhausted && row.nextProbeAfter.all (· ≤ t)

theorem probeEligible_iff : ProbeEligible db family t accountId = true ↔
    ∃ row, db.readSelectionQuotaState accountId family = some row ∧
      row.exhaustedWindows ≠ .none ∧ ∀ next ∈ row.nextProbeAfter, next ≤ t := by
  simp [ProbeEligible, Option.any_eq_true, isExhausted_iff, Option.all_eq_true]

/-- An account that is probed after 1970 has a row to reserve. -/
theorem probeDue_of_probeEligible (ht : 0 ≤ t)
    (h : ProbeEligible db family t accountId = true) : ProbeDue db accountId family t := by
  obtain ⟨row, hrow, hex, hnext⟩ := probeEligible_iff.1 h
  refine ⟨row, hrow, hex, ?_⟩
  cases hn : row.nextProbeAfter with
  | none => exact ht
  | some next => exact hnext next hn

section
variable {quotaState : AccountQuotaStateRecord}

/-- The table that a selection reads, after a probe of the row that it read. -/
theorem Probed.readSelectionQuotaState_self
    (hread : db.readSelectionQuotaState accountId family = some quotaState)
    (h : Probed K m t accountId quotaState.limitId db db') :
    ∃ row, db'.accountQuotaState.lookup (accountId, quotaState.limitId) = some row ∧
      db'.readSelectionQuotaState accountId family =
        some (row.record accountId quotaState.limitId) := by
  obtain ⟨row, hrow, -⟩ := h.row
  refine ⟨row, hrow, ?_⟩
  by_cases hfamily : quotaState.limitId = family
  · rw [hfamily] at hrow ⊢
    simp [Db.readSelectionQuotaState, Db.readAccountQuotaState, hrow]
  · -- the fallback row was read, as there was none of the family
    have hkept : db'.readAccountQuotaState accountId family =
        db.readAccountQuotaState accountId family := by
      rw [Db.readAccountQuotaState, h.quota _ (by simpa using Ne.symm hfamily)]
      rfl
    have hlimit : ∀ {limitId : LimitId} {record : AccountQuotaStateRecord},
        db.readAccountQuotaState accountId limitId = some record → record.limitId = limitId := by
      intro limitId record hrecord
      obtain ⟨row, -, rfl⟩ := Option.map_eq_some_iff.1 hrecord
      rfl
    unfold Db.readSelectionQuotaState at hread ⊢
    rw [hkept]
    cases hsel : db.readAccountQuotaState accountId family with
    | some record =>
      rw [hsel] at hread
      obtain rfl : record = quotaState := by simpa using hread
      exact absurd (hlimit hsel) hfamily
    | none =>
      rw [hsel] at hread
      by_cases hcodex : family = compatQuotaLimitId
      · simp [hcodex] at hread
      · have hfallback : db.readAccountQuotaState accountId compatQuotaLimitId =
            some quotaState := by simpa [hcodex] using hread
        rw [hlimit hfallback] at hrow ⊢
        simp [hcodex, Db.readAccountQuotaState, hrow]

theorem Probed.readSelectionQuotaState_of_ne {b : AccountId} (hb : b ≠ accountId)
    (h : Probed K m t accountId limitId db db') :
    db'.readSelectionQuotaState b family = db.readSelectionQuotaState b family := by
  have hread : ∀ limitId, db'.readAccountQuotaState b limitId = db.readAccountQuotaState b limitId :=
    fun limitId => by
      rw [Db.readAccountQuotaState, h.quota _ (by simp [hb])]
      rfl
  simp only [Db.readSelectionQuotaState, hread]

/-- A probe takes its account out of the probeable ones, and no other. -/
theorem Probed.probeEligible (hK : K.From t)
    (hread : db.readSelectionQuotaState accountId family = some quotaState)
    (h : Probed K m t accountId quotaState.limitId db db') (b : AccountId) :
    ProbeEligible db' family t b = (ProbeEligible db family t b && decide (b ≠ accountId)) := by
  by_cases hb : b = accountId
  · subst hb
    rw [decide_eq_false (by simp), Bool.and_false, Bool.eq_false_iff]
    intro hprobe
    obtain ⟨row, hrow, hselected⟩ := h.readSelectionQuotaState_self hread
    obtain ⟨row', hrow', -, hdue⟩ := h.row
    obtain ⟨next, hnext, hlt⟩ := hdue hK
    obtain rfl : row = row' := Option.some.inj (hrow.symm.trans hrow')
    obtain ⟨_, hselected', -, hdue⟩ := probeEligible_iff.1 hprobe
    obtain rfl := Option.some.inj (hselected.symm.trans hselected')
    have hnext' : epochSecondsToDatetime next ∈
        (row.record b quotaState.limitId).nextProbeAfter := by simp [QuotaRow.record, hnext]
    exact absurd (epochSecondsToDatetime_le_iff.1 (hdue _ hnext')) (not_le.2 hlt)
  · rw [decide_eq_true hb, Bool.and_true, ProbeEligible, h.readSelectionQuotaState_of_ne hb,
      ProbeEligible]

end

/-- The accounts of a pool that a selection at `t` would probe. -/
def probeEligibleMembers (db : Db) (poolId : PoolId) (family : LimitId) (t : Int) : Nat :=
  (db.poolMembers poolId).countP fun mem => ProbeEligible db family t mem.accountId

/-- There are fewer after a probe of one of them. -/
theorem Probed.probeEligibleMembers_lt {quotaState : AccountQuotaStateRecord} (hK : K.From t)
    (hread : db.readSelectionQuotaState accountId family = some quotaState)
    (h : Probed K m t accountId quotaState.limitId db db')
    (hmem : ∃ mem ∈ db.poolMembers poolId, mem.accountId = accountId)
    (hprobe : ProbeEligible db family t accountId = true) :
    probeEligibleMembers db' poolId family t < probeEligibleMembers db poolId family t := by
  obtain ⟨mem, hmem, rfl⟩ := hmem
  have hmembers : db'.poolMembers poolId = db.poolMembers poolId := by
    rw [h.frame]
    rfl
  unfold probeEligibleMembers
  simp only [hmembers, h.probeEligible hK hread, Bool.and_comm _ (decide _)]
  rw [← List.countP_filter, List.countP_eq_length_filter, List.countP_eq_length_filter]
  refine List.length_filter_lt_length_iff_exists.2 ⟨mem, ?_, by simp⟩
  exact List.mem_filter.2 ⟨hmem, hprobe⟩

/-! ## The loop -/

/-- **Termination.** Every round of the loop that goes on takes an account out of the probeable
ones; with as much fuel the loop ends in a lease or in an error. -/
theorem wp_acquireSelectedLease_ends (h : env.At K db w) (hagree : db.LeasePoolsAgree)
    (hordered : K.ordered) (hK : K.From t) (ht : 0 ≤ t)
    (hpool : request.poolId = some poolId) (hnow : request.now = some t) {fuel : Nat}
    (hfuel : probeEligibleMembers db poolId (resolveSelectionFamily m request) t < fuel) :
    wp (acquireSelectedLease env fuel m request) (fun _ _ => True) (Stops fun _ _ => True) w := by
  obtain ⟨hdb, -⟩ := id h
  unfold acquireSelectedLease
  rw [hpool]
  refine wp_iterate_terminates
    (fun _ w => ∃ db, env.At K db w ∧ db.LeasePoolsAgree)
    (fun _ w => probeEligibleMembers w.db poolId (resolveSelectionFamily m request) t)
    (fun _ w ⟨db, h, hagree⟩ => ?_) fuel ⟨db, h, hagree⟩ (hdb.symm ▸ hfuel)
  rw [wp_bind]
  refine wp_mapErr_stops ((wp_buildRuntimeSelectionPlan h hpool hnow).imp_stops ?_
    fun _ _ _ => trivial)
  rintro _ w₁ ⟨h₁, rfl⟩
  dsimp only
  split
  · rename_i accountId hplan
    rw [wp_bind]
    refine (wp_acquireSelected h₁).imp_stops (fun r w₂ hr => ?_) fun _ _ _ => trivial
    cases r with
    | some lease => trivial
    | none =>
      exact absurd hr.1 (not_denies_of_select hagree hplan fun now' hnow'' => hnow''.2 hordered)
  · rename_i accountId hplan
    obtain ⟨hmem, row, hrow, hex, hnext⟩ := planAt_probe hnow hplan
    have hprobe := probeEligible_iff.2 ⟨row, hrow, hex, hnext⟩
    simp only [requestNow, hnow, wp_bind, wp_pure]
    refine (wp_probeAccount h₁.of_since).imp_stops ?_ fun _ _ _ => trivial
    rintro _ w₂ ⟨-, hleaves⟩
    obtain ⟨quotaState, hread, db', hprobed, h₂⟩ :=
      hleaves (probeDue_of_probeEligible ht hprobe)
    refine ⟨⟨db', h₂, fun r hr hu => ?_⟩, ?_⟩
    · rw [hprobed.poolOf]
      exact hagree.evolves hprobed.evolves r hr hu
    · rw [h₂.db, h.db]
      exact hprobed.probeEligibleMembers_lt hK hread hmem hprobe
  · trivial
  · trivial

/-- **Acquisition.** On a store whose calls all settled, with a clock that does not go back from the
request's instant: an account that the plan selects is granted, an account that the plan probes is
not to be probed again, and the loop ends, within a round for each account to be probed and one
more. -/
theorem acquisition_ends (hreach : (store.restrict fun db op => op.Settles db).Reach w.db)
    (hclock : ∀ n n', w.ticks ≤ n → n ≤ n' → env.clock n ≤ env.clock n')
    (hreading : ∀ n, w.ticks ≤ n → t ≤ env.clock n) (ht : 0 ≤ t)
    (hpool : request.poolId = some poolId) (hnow : request.now = some t) :
    (∀ family plan w₁, buildRuntimeSelectionPlan env m request w = .ok (family, plan) w₁ →
      (∀ a, plan.terminalAction = .select a → ∀ w₂,
        acquirePreferredAccountLease env m poolId a family w₁ ≠
          .error (.raised .noEligibleAccount) w₂) ∧
      (∀ a, plan.terminalAction = .probe a → ∀ u w₂,
        probeAccount env m poolId a family t w₁ = .ok u w₂ → ∀ now,
          ∀ c ∈ w₂.db.loadRuntimeSelectionCandidates poolId m.holderInstanceId family now,
            c.accountId = a → classifyCandidate c family t ≠ .probeEligibleBlocked)) ∧
    ∀ fuel, probeEligibleMembers w.db poolId (resolveSelectionFamily m request) t < fuel →
      ∀ w', acquireSelectedLease env fuel m request w ≠ .error .outOfFuel w' := by
  have hagree := leasePoolsAgree_of_reach hreach
  let K : Conditions := ⟨fun now => t ≤ now, True, True⟩
  have h : env.At K w.db w := ⟨rfl, hreading, fun _ => hclock, fun _ _ _ => trivial⟩
  refine ⟨fun family plan w₁ hplan => ?_, fun fuel hfuel w' hrun => ?_⟩
  · obtain ⟨h₁, heq⟩ := (wp_buildRuntimeSelectionPlan h hpool hnow).of_ok hplan
    obtain ⟨rfl, rfl⟩ := Prod.mk.inj heq
    refine ⟨fun a hsel w₂ hrun => ?_, fun a hprobe u w₂ hrun now' c hc hca hclass => ?_⟩
    · have hdenied := ((wp_acquirePreferredAccountLease h₁).of_error hrun).2
      exact not_denies_of_select (K := K.since _) hagree hsel
        (fun now' hnow' => hnow'.2 trivial) hdenied
    · obtain ⟨hmem, row, hrow, hex, hnext⟩ := planAt_probe hnow hprobe
      have heligible := probeEligible_iff.2 ⟨row, hrow, hex, hnext⟩
      obtain ⟨-, hleaves⟩ := (wp_probeAccount h₁.of_since).of_ok hrun
      obtain ⟨quotaState, hread, db', hprobed, h₂⟩ :=
        hleaves (probeDue_of_probeEligible ht heligible)
      obtain ⟨mem, -, hof⟩ := Ranking.exists_of_mem_right Db.candidateOf_members hc
      have hagain := classifyCandidate_eq_probeEligibleBlocked.1 hclass
      rw [hof.quota, ← hof.accountId, hca, h₂.db] at hagain
      have := probeEligible_iff.2 hagain
      rw [hprobed.probeEligible (fun _ => id) hread] at this
      simp at this
  · exact (wp_acquireSelectedLease_ends h hagree trivial (fun _ => id) ht hpool hnow hfuel).of_error
      hrun

end

/-! ## An account that is never granted -/

/-- A startup request at an instant. -/
def startupRequest (now : Int) (poolId : PoolId) : SelectionRequest where
  now := some now
  poolId := some poolId
  intent := .startup

/-- The account is leased, assigned to `pool-2` and leased there. Then a report made under the first
lease takes it back to `pool-1`. -/
def stranded : Db := runAll [
  .upsertAccountRegistryEntry (chatgptEntry "acct-1" "pool-1" 0) 0,
  .acquirePreferredAccountLease "pool-1" "acct-1" "codex" "holder-1" (seconds 300) 0 0,
  .assignAccountPoolMembership "acct-1" "pool-2" (seconds 1),
  .acquirePreferredAccountLease "pool-2" "acct-1" "codex" "holder-2" (seconds 300) (seconds 1)
    (seconds 1),
  .recordAccountHealthEvent lateReport] Db.empty

theorem acquisition_ends_registered :
    (store.restrict fun db op => op.Settles db).Reach registered ∧ ∀ w',
      acquireSelectedLease (stoppedEnv (seconds 10)) 1 (Manager.new {} "holder-3")
        (startupRequest (seconds 10) "pool-1") ⟨registered, 0, 0⟩ ≠ .error .outOfFuel w' := by
  have hreach : (store.restrict fun db op => op.Settles db).Reach registered := by
    let op : StoreOp := .upsertAccountRegistryEntry (chatgptEntry "acct-1" "pool-1" 0) 0
    have hsettles : op.Settles Db.empty := trivial
    exact .step (a := op) (.init rfl) ⟨hsettles, rfl⟩
  exact ⟨hreach, (@acquisition_ends _ (⟨registered, 0, 0⟩) _ _ "pool-1" _ hreach
    (fun _ _ _ _ => le_rfl) (fun _ _ => le_rfl) (by decide) rfl rfl).2 1 (by decide)⟩

theorem stranded_not_granted {retryNow leaseTtl : Int} {family : LimitId} :
    stranded.acquirePreferredAccountLease "pool-1" "acct-1" family "holder-3" leaseTtl (seconds 10)
      retryNow = (.error .noEligibleAccount, stranded) := by
  have hcases := @Db.acquirePreferredAccountLease_cases stranded "pool-1" "acct-1" family
    "holder-3" leaseTtl (seconds 10) retryNow
  have hholder : stranded.loadActiveHolderLease "holder-3" (seconds 10) = none := by decide
  have hleased : stranded.accountHasActiveLease "acct-1" (seconds 10) = true := by decide
  generalize stranded.acquirePreferredAccountLease "pool-1" "acct-1" family "holder-3" leaseTtl
    (seconds 10) retryNow = outcome at hcases
  cases hcases with
  | existing hex =>
    rw [hholder] at hex
    cases hex
  | inserted _ hleasable =>
    rw [hleasable.unleased] at hleased
    cases hleased
  | filtered => rfl

/-- The selector picks the stranded account, the store refuses it, and so on for as long as the loop
runs. -/
theorem acquisition_spins :
    let m := Manager.new {} "holder-3"
    let request := startupRequest (seconds 10) "pool-1"
    store.Reach stranded ∧
      (m.planAt stranded "pool-1" request (seconds 10)).terminalAction = .select "acct-1" ∧
      (stranded.acquirePreferredAccountLease "pool-1" "acct-1" (resolveSelectionFamily m request)
        m.holderInstanceId m.leaseTtl (seconds 10) (seconds 10)).1 = .error .noEligibleAccount ∧
      ∀ fuel, ∃ w', acquireSelectedLease (stoppedEnv (seconds 10)) fuel m request ⟨stranded, 0, 0⟩ =
        .error .outOfFuel w' := by
  intro m request
  have hselect : (m.planAt stranded "pool-1" request (seconds 10)).terminalAction =
      .select "acct-1" := by decide +kernel
  refine ⟨store_reach_runAll _, hselect, congrArg Prod.fst stranded_not_granted, fun fuel => ?_⟩
  have hspins : wp (acquireSelectedLease (stoppedEnv (seconds 10)) fuel m request)
      (fun _ _ => False) (fun e _ => e = .outOfFuel) ⟨stranded, 0, 0⟩ := by
    refine wp_iterate (fun _ w => (stoppedEnv (seconds 10)).At ⟨(· = seconds 10), True, False⟩
      stranded w) (fun _ w h => ?_) (fun _ _ _ => rfl) fuel (stoppedEnv_at _ _ _ _)
    rw [wp_bind, wp_mapErr]
    refine (wp_buildRuntimeSelectionPlan h rfl rfl).imp ?_ fun e w₁ he => ?_
    · rintro _ w₁ ⟨h₁, rfl⟩
      have hplan : (m.planAt stranded "pool-1" request
        ((stoppedEnv (seconds 10)).clock w.ticks)).terminalAction = .select "acct-1" := hselect
      simp only [hplan, wp_bind]
      refine (wp_acquireSelected h₁.of_since).imp (fun r w₂ hr => ?_) fun e w₂ he => ?_
      · cases r with
        | none => exact hr.2
        | some lease =>
          obtain ⟨db', ⟨now, retryNow, rfl, hgrant⟩, -⟩ := hr
          cases stranded_not_granted.symm.trans hgrant
      · cases e with
        | raised e =>
          obtain ⟨-, ⟨hf, -⟩ | ⟨_, _, ⟨now, retryNow, rfl, hgrant⟩, -⟩⟩ := he
          · exact hf.elim
          · cases stranded_not_granted.symm.trans hgrant
        | outOfFuel => exact he.elim
    · cases e with
      | raised message => exact he.1.elim
      | outOfFuel => exact he.elim
  cases hrun : acquireSelectedLease (stoppedEnv (seconds 10)) fuel m request ⟨stranded, 0, 0⟩ with
  | ok lease w' => exact (hspins.of_ok hrun).elim
  | error e w' =>
    obtain rfl := hspins.of_error hrun
    exact ⟨w', rfl⟩

end Mcodex.Runtime
