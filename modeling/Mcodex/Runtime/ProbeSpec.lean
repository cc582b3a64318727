import Mcodex.Runtime.ManagerSpec

/-!
# What a quota probe does

A probe reserves the exhausted quota row of an account, leases the account under a holder of its
own, writes the row again and releases the lease. So whatever way it ends, the row is still
exhausted and not due for another probe, and nothing else that a selection reads has changed
(`Probed`).
-/

namespace Mcodex.Runtime

open AccountPool Effect

/-- `db'` is left of `db` by a probe of one quota row, begun at `t`: the row is exhausted and, if the
clock does not go back, not due at `t`; rows that are live at all clock readings, other than the
probe's own, are kept. -/
structure Probed (K : Conditions) (m : Manager) (t : Int) (accountId : AccountId)
    (limitId : LimitId) (db db' : Db) : Prop where
  frame : db' = { db with
    accountQuotaState := db'.accountQuotaState, accountLeases := db'.accountLeases }
  quota : ∀ key, key ≠ (accountId, limitId) →
    db'.accountQuotaState.lookup key = db.accountQuotaState.lookup key
  row : ∃ row, db'.accountQuotaState.lookup (accountId, limitId) = some row ∧
    row.exhaustedWindows ≠ .none ∧ (K.From t →
      ∃ next, row.nextProbeAfter = some next ∧ datetimeToEpochSeconds t < next)
  leases : ∀ r ∈ db.accountLeases.rows,
    (∀ now, K.reading now → r.LiveAt (datetimeToEpochSeconds now)) →
    r.accountId ≠ accountId ∨ r.holderInstanceId ≠ m.probeHolder → r ∈ db'.accountLeases.rows
  evolves : LeaseTable.Evolves db.OfMember db.accountLeases db'.accountLeases

section
variable {env : Env} {K : Conditions} {db db' : Db} {w : World} {m : Manager} {t now : Int}
  {poolId : PoolId} {accountId : AccountId} {limitId family : LimitId}

theorem isExhausted_iff {windows : QuotaExhaustedWindows} :
    windows.isExhausted = true ↔ windows ≠ .none := by
  cases windows <;> simp [QuotaExhaustedWindows.isExhausted]

/-! ## The steps -/

/-- A reservation begins a probe. -/
theorem Probed.reserve
    (h : (db.reserveAccountQuotaProbe accountId limitId t (t + probeReservationDuration)).1 = true) :
    Probed K m t accountId limitId db
      (db.reserveAccountQuotaProbe accountId limitId t (t + probeReservationDuration)).2 := by
  have hleases : (db.reserveAccountQuotaProbe accountId limitId t
      (t + probeReservationDuration)).2.accountLeases = db.accountLeases :=
    Db.updateQuotaWhere_accountLeases
  obtain ⟨quota, hframe⟩ := @Db.updateQuotaWhere_frame db accountId limitId
    (fun row => row.exhaustedWindows ≠ .none &&
      row.nextProbeAfter.getD 0 ≤ datetimeToEpochSeconds t)
    (fun row => { row with
      nextProbeAfter := some (datetimeToEpochSeconds (t + probeReservationDuration)) })
  refine ⟨?_, fun key hkey => ?_, ?_, fun r hr _ _ => hleases ▸ hr, hleases ▸ .refl⟩
  · unfold Db.reserveAccountQuotaProbe
    rw [hframe]
  · unfold Db.reserveAccountQuotaProbe
    rw [Db.updateQuotaWhere_lookup, if_neg hkey]
  · obtain ⟨row, -, hc, hrow⟩ := Db.updateQuotaWhere_eq_true h
    simp only [Bool.and_eq_true, decide_eq_true_eq] at hc
    exact ⟨_, hrow, hc.1, fun _ => ⟨_, rfl, lt_datetimeToEpochSeconds_add le_rfl (by decide)⟩⟩

/-- A write to the probed row that leaves it exhausted and not due. -/
theorem Probed.record (h : Probed K m t accountId limitId db db') {cond : QuotaRow → Bool}
    {f : QuotaRow → QuotaRow} (hf : ∀ row, row.exhaustedWindows ≠ .none →
      (f row).exhaustedWindows ≠ .none ∧ (K.From t →
        ∃ next, (f row).nextProbeAfter = some next ∧ datetimeToEpochSeconds t < next)) :
    Probed K m t accountId limitId db (db'.updateQuotaWhere accountId limitId cond f).2 := by
  have hleases := @Db.updateQuotaWhere_accountLeases db' accountId limitId cond f
  obtain ⟨quota, hframe⟩ := @Db.updateQuotaWhere_frame db' accountId limitId cond f
  refine ⟨?_, fun key hkey => ?_, ?_, fun r hr hlive hown => ?_, ?_⟩
  · rw [hframe, h.frame]
  · rw [Db.updateQuotaWhere_lookup, if_neg hkey, h.quota key hkey]
  · obtain ⟨row, hrow, hex, hnext⟩ := h.row
    rw [Db.updateQuotaWhere_lookup, if_pos rfl, hrow]
    refine ⟨if cond row then f row else row, rfl, ?_⟩
    split
    · exact hf row hex
    · exact ⟨hex, hnext⟩
  · rw [hleases]
    exact h.leases r hr hlive hown
  · rw [hleases]
    exact h.evolves

theorem Probed.poolOf (h : Probed K m t accountId limitId db db') : db'.poolOf = db.poolOf := by
  rw [h.frame]
  rfl

/-- The lease of a probe is taken at a clock reading. -/
theorem Probed.acquire (h : Probed K m t accountId limitId db db') {reservedUntil retryNow : Int}
    (hnow : K.reading now) :
    Probed K m t accountId limitId db (db'.acquireQuotaProbeAccountLease poolId accountId limitId
      reservedUntil m.probeHolder m.leaseTtl now retryNow).2 := by
  have hevolve := @Db.acquireRequestedAccountLease_leasesEvolve db' accountId poolId now
    m.probeHolder m.leaseTtl retryNow (.reservedProbe limitId reservedUntil)
  refine ⟨?_, fun key hkey => ?_, ?_, fun r hr hlive hown => ?_, ?_⟩
  · rw [Db.acquireQuotaProbeAccountLease, hevolve.frame, h.frame]
  · rw [Db.acquireQuotaProbeAccountLease, hevolve.frame]
    exact h.quota key hkey
  · rw [Db.acquireQuotaProbeAccountLease, hevolve.frame]
    exact h.row
  · have hmem := h.leases r hr hlive hown
    have hcases := @Db.acquireRequestedAccountLease_cases db' accountId poolId now m.probeHolder
      m.leaseTtl retryNow (.reservedProbe limitId reservedUntil)
    unfold Db.acquireQuotaProbeAccountLease
    revert hcases
    generalize db'.acquireRequestedAccountLease poolId accountId m.probeHolder m.leaseTtl
      (.reservedProbe limitId reservedUntil) now retryNow = outcome
    intro hcases
    have hreleased := (Db.mem_releaseExpiredAccountLeases.2 ⟨hmem, hlive now hnow⟩).1
    cases hcases with
    | existing => exact hreleased
    | inserted _ _ hins =>
      rw [(LeaseTable.insert_eq_some.1 hins).2]
      exact List.mem_append_left _ hreleased
    | filtered | raced | contended => exact hmem
  · refine h.evolves.trans (hevolve.evolves.mono fun t d hd => ?_)
    rw [Db.OfMember, h.poolOf] at hd
    exact hd

/-- The lease of a probe is the account's, under the probe's own holder. -/
theorem acquireQuotaProbeAccountLease_ok {reservedUntil retryNow leaseTtl : Int}
    {holder : HolderId} {lease : AccountLeaseRecord}
    (h : db.acquireQuotaProbeAccountLease poolId accountId limitId reservedUntil holder leaseTtl
      now retryNow = (.ok lease, db')) :
    ∃ r ∈ db'.accountLeases.rows, r.record = lease ∧ r.accountId = accountId ∧
      r.holderInstanceId = holder := by
  have hcases := @Db.acquireRequestedAccountLease_cases db accountId poolId now holder leaseTtl
    retryNow (.reservedProbe limitId reservedUntil)
  rw [Db.acquireQuotaProbeAccountLease] at h
  rw [h] at hcases
  cases hcases with
  | existing hex => cases hex
  | inserted _ _ hins =>
    refine ⟨_, ?_, rfl, rfl, rfl⟩
    rw [(LeaseTable.insert_eq_some.1 hins).2]
    exact List.mem_append_right _ List.mem_cons_self
  | raced _ _ _ hex => cases hex

/-- The lease of a probe is given back. -/
theorem Probed.release (h : Probed K m t accountId limitId db db') {key : LeaseKey}
    (hkey : ∃ r ∈ db'.accountLeases.rows, r.leaseKey = key ∧ r.accountId = accountId ∧
      r.holderInstanceId = m.probeHolder) :
    Probed K m t accountId limitId db (db'.releaseAccountLease key now).2 := by
  have hevolve := @Db.releaseAccountLease_leasesEvolve db' now db.OfMember key
  refine ⟨?_, fun key' hkey' => ?_, ?_, fun r hr hlive hown => ?_,
    h.evolves.trans hevolve.evolves⟩
  · rw [hevolve.frame, h.frame]
  · rw [hevolve.frame]
    exact h.quota key' hkey'
  · rw [hevolve.frame]
    exact h.row
  · have hmem := h.leases r hr hlive hown
    unfold Db.releaseAccountLease
    split
    · exact hmem
    · refine LeaseTable.mem_updateUnreleased.2 ⟨r, hmem, ?_⟩
      rw [if_neg]
      intro hsel
      simp only [LeaseTable.Selects, Bool.and_eq_true] at hsel
      obtain ⟨r', hr', hkey', haccount, hholder⟩ := hkey
      have hid : r.leaseId = r'.leaseId :=
        congrArg LeaseKey.leaseId ((Db.namedBy_iff.1 hsel.2).trans hkey'.symm)
      obtain rfl := db'.accountLeases.eq_of_leaseId hmem hr' hid
      exact hown.elim (absurd haccount) (absurd hholder)

/-! ## The programs -/

/-- A world left by a probe. -/
def ProbedAt (env : Env) (K : Conditions) (m : Manager) (t : Int) (accountId : AccountId)
    (limitId : LimitId) (db : Db) (w : World) : Prop :=
  ∃ db', Probed K m t accountId limitId db db' ∧ env.At K db' w

/-- The refresh writes the probed row, and no lease. -/
theorem wp_refreshQuotaProbe {lease : AccountLeaseRecord}
    {reservation : ProbeReservation} (haccount : lease.accountId = accountId)
    (hlimit : reservation.limitId = limitId) (hp : Probed K m t accountId limitId db db')
    (h : env.At K db' w) :
    wp (refreshQuotaProbe env lease reservation)
      (fun _ w' => ∃ db₁, Probed K m t accountId limitId db db₁ ∧
        db₁.accountLeases = db'.accountLeases ∧ env.At K db₁ w')
      (Stops fun _ w' => ∃ db₁, Probed K m t accountId limitId db db₁ ∧
        db₁.accountLeases = db'.accountLeases ∧ env.At K db₁ w') w := by
  subst haccount hlimit
  -- one write to the row, and then the log
  have hwrite : ∀ {cond f} {w : World}, (∀ row : QuotaRow, row.exhaustedWindows ≠ .none →
      (f row).exhaustedWindows ≠ .none ∧ (K.From t →
        ∃ next, (f row).nextProbeAfter = some next ∧ datetimeToEpochSeconds t < next)) →
      env.At K db' w →
      wp (do
          let _ ← call env (·.updateQuotaWhere lease.accountId reservation.limitId cond f)
          perform env)
        (fun _ w' => ∃ db₁, Probed K m t lease.accountId reservation.limitId db db₁ ∧
          db₁.accountLeases = db'.accountLeases ∧ env.At K db₁ w')
        (Stops fun _ w' => ∃ db₁, Probed K m t lease.accountId reservation.limitId db db₁ ∧
          db₁.accountLeases = db'.accountLeases ∧ env.At K db₁ w') w := by
    intro cond f w hf h
    rw [wp_bind]
    refine wp_call h (fun w₁ h₁ => ?_) fun _ w₁ _ h₁ => ⟨db', hp, rfl, h₁⟩
    exact wp_perform h₁
      (fun w₂ h₂ => ⟨_, hp.record hf, Db.updateQuotaWhere_accountLeases, h₂⟩)
      fun _ w₂ hf₂ => ⟨_, hp.record hf, Db.updateQuotaWhere_accountLeases, hf₂.2⟩
  unfold refreshQuotaProbe
  rw [wp_bind]
  refine wp_utcNow h fun observedAt w₁ hobserved h₁ => ?_
  have hlater (hK : K.From t) :
      datetimeToEpochSeconds t < datetimeToEpochSeconds (observedAt + seconds 30) :=
    lt_datetimeToEpochSeconds_add (hK _ hobserved) (by decide)
  rw [wp_bind]
  refine wp_read h₁ (fun w₂ h₂ => ?_) fun _ w₂ hf => ⟨db', hp, rfl, hf.2⟩
  rw [wp_bind]
  refine (wp_createAuthSession h₂).imp (fun _ w₃ h₃ => ?_) fun e w₃ he => ?_
  · rw [wp_bind]
    refine wp_ensureCurrent h₃ fun current w₄ h₄ => ?_
    obtain ⟨row, hrow, hex, -⟩ := hp.row
    have hquota : db'.readAccountQuotaState lease.accountId reservation.limitId =
        some (row.record lease.accountId reservation.limitId) := by
      simp [Db.readAccountQuotaState, hrow]
    have hexhausted : (row.record lease.accountId
        reservation.limitId).exhaustedWindows.isExhausted = true := isExhausted_iff.2 hex
    simp only [hquota, hexhausted, if_true, Option.isSome_some]
    split
    · refine hwrite (fun row' _ => ⟨?_, fun hK => ⟨_, rfl, hlater hK⟩⟩) h₄
      dsimp only
      rw [if_pos hexhausted]
      exact hex
    · refine hwrite (fun row' hex' => ⟨?_, fun hK => ⟨_, rfl, hlater hK⟩⟩) h₄
      simp [hex']
  · cases e with
    | raised message => exact ⟨db', hp, rfl, he.2⟩
    | outOfFuel => exact he.elim

theorem wp_acquireQuotaProbeAccountLease {reservation : ProbeReservation}
    (hlimit : reservation.limitId = limitId) (hp : Probed K m t accountId limitId db db')
    (h : env.At K db' w) :
    wp (acquireQuotaProbeAccountLease env m poolId accountId reservation)
      (fun lease w' => ∃ db₁, Probed K m t accountId limitId db db₁ ∧
        (∃ r ∈ db₁.accountLeases.rows, r.record = lease ∧ r.accountId = accountId ∧
          r.holderInstanceId = m.probeHolder) ∧ env.At K db₁ w')
      (Stops fun _ w' => ProbedAt env K m t accountId limitId db w') w := by
  subst hlimit
  unfold acquireQuotaProbeAccountLease
  rw [wp_bind]
  refine wp_utcNow h fun now w₁ hnow h₁ => ?_
  rw [wp_bind]
  refine wp_utcNow h₁ fun retryNow w₂ _ h₂ => ?_
  rw [wp_bind]
  refine wp_mapErr_stops (wp_call h₂ (fun w₃ h₃ => ?_) fun _ w₃ _ h₃ => ⟨db', hp, h₃⟩)
  have hacquired := @Probed.acquire _ _ _ _ _ _ poolId _ _ hp reservation.reservedUntil
    retryNow hnow
  rcases hr : db'.acquireQuotaProbeAccountLease poolId accountId reservation.limitId
    reservation.reservedUntil m.probeHolder m.leaseTtl now retryNow with ⟨_ | lease, db₁⟩
  · rw [hr] at h₃ hacquired
    exact ⟨db₁, hacquired, h₃⟩
  · rw [hr] at h₃ hacquired
    exact ⟨db₁, hacquired, acquireQuotaProbeAccountLease_ok hr, h₃⟩

theorem wp_verifyProbe {reservation : ProbeReservation}
    (hlimit : reservation.limitId = limitId) (hp : Probed K m t accountId limitId db db')
    (h : env.At K db' w) :
    wp (verifyProbe env m poolId accountId reservation)
      (fun _ w' => ProbedAt env K m t accountId limitId db w')
      (Stops fun e w' => (∃ message, e = .storage message) ∧
        ProbedAt env K m t accountId limitId db w') w := by
  unfold verifyProbe
  rw [wp_bind]
  refine wp_attempt_stops ((wp_acquireQuotaProbeAccountLease hlimit hp h).imp ?_ fun e w₁ he => ?_)
  · rintro lease w₁ ⟨db₁, hp₁, ⟨r, hr, rfl, haccount, hholder⟩, h₁⟩
    -- whatever the refresh returns, the lease is still the probe's
    have hrelease : ∀ {probeResult : Except AccountLeaseError Unit} {w₂ : World},
        (∀ e, probeResult = .error e → ∃ message, e = .storage message) →
        (∃ db₂, Probed K m t accountId limitId db db₂ ∧
          db₂.accountLeases = db₁.accountLeases ∧ env.At K db₂ w₂) →
        wp (do
            let releaseResult ← attempt (mapErr .storage (releaseLeaseRecord env r.record))
            orRaise probeResult
            orRaise releaseResult)
          (fun _ w' => ProbedAt env K m t accountId limitId db w')
          (Stops fun e w' => (∃ message, e = .storage message) ∧
            ProbedAt env K m t accountId limitId db w') w₂ := by
      rintro probeResult w₂ hstorage ⟨db₂, hp₂, hleases, h₂⟩
      have hkept : ∀ now, Probed K m t accountId limitId db
          (db₂.releaseAccountLease r.record.leaseKey now).2 :=
        fun now => hp₂.release ⟨r, hleases ▸ hr, rfl, haccount, hholder⟩
      rw [wp_bind]
      refine wp_attempt_stops (wp_mapErr_stops ((wp_releaseLeaseRecord h₂).imp ?_ ?_))
      · rintro _ w₃ ⟨now, -, h₃⟩
        rw [wp_bind]
        cases probeResult with
        | ok _ => exact ⟨_, hkept now, h₃⟩
        | error e => exact ⟨hstorage e rfl, _, hkept now, h₃⟩
      · rintro e w₃ he
        cases e with
        | raised message =>
          have h₃ : ProbedAt env K m t accountId limitId db w₃ := by
            rcases he.2 with h₃ | ⟨now, -, h₃⟩
            · exact ⟨db₂, hp₂, h₃⟩
            · exact ⟨_, hkept now, h₃⟩
          rw [stops_raised, wp_bind]
          cases probeResult with
          | ok _ => exact ⟨⟨_, rfl⟩, h₃⟩
          | error e => exact ⟨hstorage e rfl, h₃⟩
        | outOfFuel => exact he.elim
    rw [wp_bind]
    refine wp_attempt_stops (wp_mapErr_stops
      ((wp_refreshQuotaProbe haccount hlimit hp₁ h₁).imp ?_ ?_))
    · exact fun _ w₂ h₂ => hrelease nofun h₂
    · rintro e w₂ he
      cases e with
      | raised message => exact hrelease (fun e he => ⟨_, (Except.error.inj he).symm⟩) he
      | outOfFuel => exact he.elim
  · rcases e with (_ | message) | _
    · exact he
    · exact ⟨⟨_, rfl⟩, he⟩
    · exact he.elim

/-! ## One round's probe -/

/-- The account's quota row can be reserved: the selection reads an exhausted row that is due. -/
def ProbeDue (db : Db) (accountId : AccountId) (family : LimitId) (t : Int) : Prop :=
  ∃ quotaState, db.readSelectionQuotaState accountId family = some quotaState ∧
    quotaState.exhaustedWindows ≠ .none ∧ quotaState.nextProbeAfter.getD 0 ≤ t

/-- The row that a selection reads, in the terms of the quota table. -/
theorem readSelectionQuotaState_eq_some {quotaState : AccountQuotaStateRecord}
    (h : db.readSelectionQuotaState accountId family = some quotaState) :
    ∃ row, db.accountQuotaState.lookup (accountId, quotaState.limitId) = some row ∧
      quotaState = row.record accountId quotaState.limitId := by
  have hread : ∀ {limitId}, db.readAccountQuotaState accountId limitId = some quotaState →
      ∃ row, db.accountQuotaState.lookup (accountId, quotaState.limitId) = some row ∧
        quotaState = row.record accountId quotaState.limitId := by
    intro limitId h
    obtain ⟨row, hrow, rfl⟩ := Option.map_eq_some_iff.1 h
    exact ⟨row, hrow, rfl⟩
  unfold Db.readSelectionQuotaState at h
  split at h
  · rename_i hsel
    exact hread (hsel.trans h)
  · split at h
    · cases h
    · exact hread h

/-- Without a reservation nothing was due, and nothing is written. -/
theorem wp_reserveQuotaProbe (h : env.At K db w) :
    wp (reserveQuotaProbe env accountId family t)
      (fun r w' =>
        match r with
        | none => ¬ProbeDue db accountId family t ∧ env.At K db w'
        | some reservation => ProbedAt env K m t accountId reservation.limitId db w' ∧
          ∃ quotaState, db.readSelectionQuotaState accountId family = some quotaState ∧
            quotaState.limitId = reservation.limitId)
      (Stops fun _ w' => env.At K db w' ∨ ∃ quotaState,
        db.readSelectionQuotaState accountId family = some quotaState ∧
          ProbedAt env K m t accountId quotaState.limitId db w') w := by
  unfold reserveQuotaProbe
  rw [wp_bind]
  refine wp_read h (fun w₁ h₁ => ?_) fun _ w₁ hf => .inl hf.2
  split
  · rename_i hnone
    refine ⟨?_, h₁⟩
    rintro ⟨quotaState, hsome, -⟩
    rw [hnone] at hsome
    cases hsome
  · rename_i quotaState hsome
    obtain ⟨row, hrow, hrecord⟩ := readSelectionQuotaState_eq_some hsome
    rw [wp_bind]
    refine wp_call h₁ (fun w₂ h₂ => ?_) fun _ w₂ _ h₂ => .inl h₂
    rw [wp_bind]
    cases hres : (db.reserveAccountQuotaProbe accountId quotaState.limitId t
        (t + probeReservationDuration)).1 with
    | true =>
      have hprobed := Probed.reserve (K := K) (m := m) hres
      refine wp_perform h₂ (fun w₃ h₃ => ⟨⟨_, hprobed, h₃⟩, quotaState, hsome, rfl⟩)
        fun _ w₃ hf => .inr ⟨quotaState, hsome, _, hprobed, hf.2⟩
    | false =>
      obtain ⟨hsame, hcond⟩ := Db.updateQuotaWhere_eq_false hres
      have hsame' : (db.reserveAccountQuotaProbe accountId quotaState.limitId t
          (t + probeReservationDuration)).2 = db := hsame
      rw [hsame'] at h₂
      refine wp_perform h₂ (fun w₃ h₃ => ⟨?_, h₃⟩) fun _ w₃ hf => .inl hf.2
      rintro ⟨quotaState', hsome', hex, hdue⟩
      obtain rfl : quotaState = quotaState' := Option.some.inj (hsome.symm.trans hsome')
      have hclosed := hcond row hrow
      rw [hrecord] at hex hdue
      have hdue' : row.nextProbeAfter.getD 0 ≤ datetimeToEpochSeconds t := by
        cases hnext : row.nextProbeAfter with
        | none => simpa [QuotaRow.record, hnext, datetimeToEpochSeconds] using
            datetimeToEpochSeconds_mono (by simpa [QuotaRow.record, hnext] using hdue : 0 ≤ t)
        | some next => simpa [QuotaRow.record, hnext, epochSecondsToDatetime_le_iff] using hdue
      have hex' : row.exhaustedWindows ≠ .none := hex
      simp [hex', hdue'] at hclosed

/-- What the probe of a round leaves: the store as it was, where nothing was due, or the row of the
account probed. -/
def ProbeLeaves (env : Env) (K : Conditions) (m : Manager) (t : Int) (accountId : AccountId)
    (family : LimitId) (db : Db) (w : World) : Prop :=
  env.At K db w ∨ ∃ quotaState, db.readSelectionQuotaState accountId family = some quotaState ∧
    ProbedAt env K m t accountId quotaState.limitId db w

theorem wp_probeAccount (h : env.At K db w) :
    wp (probeAccount env m poolId accountId family t)
      (fun _ w' => ProbeLeaves env K m t accountId family db w' ∧
        (ProbeDue db accountId family t → ∃ quotaState,
          db.readSelectionQuotaState accountId family = some quotaState ∧
            ProbedAt env K m t accountId quotaState.limitId db w'))
      (Stops fun e w' => (∃ message, e = .storage message) ∧
        ProbeLeaves env K m t accountId family db w') w := by
  unfold probeAccount
  rw [wp_bind]
  refine wp_mapErr_stops ((wp_reserveQuotaProbe (m := m) h).imp ?_ ?_)
  · intro r w₁ hr
    cases r with
    | none => exact ⟨.inl hr.2, fun hdue => absurd hdue hr.1⟩
    | some reservation =>
      obtain ⟨⟨db', hp, h₁⟩, quotaState, hsome, hlimit⟩ := hr
      rw [← hlimit] at hp
      refine (wp_verifyProbe hlimit.symm hp h₁).imp (fun _ w₂ h₂ => ?_) fun e w₂ he => ?_
      · exact ⟨.inr ⟨quotaState, hsome, h₂⟩, fun _ => ⟨quotaState, hsome, h₂⟩⟩
      · cases e with
        | raised e => exact ⟨he.1, .inr ⟨quotaState, hsome, he.2⟩⟩
        | outOfFuel => exact he.elim
  · intro e w₁ he
    cases e with
    | raised message => exact ⟨⟨_, rfl⟩, he⟩
    | outOfFuel => exact he.elim

end

end Mcodex.Runtime
