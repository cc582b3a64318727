import Mcodex.AccountPool.StoreOp

/-!
# Leases are fenced

Over any run of the store, by any holders and with clock readings in any order, the rows of one
account carry increasing epochs and all but the last of them are released (`Fenced`); a released
row stays as it is; and a key of a released or superseded row neither renews nor releases anything.
-/

namespace Mcodex.AccountPool

open Table

namespace LeaseTable

section
variable {t t' : LeaseTable} {key : LeaseKey}

/-- A later row of an account has a greater epoch, and found the earlier one released. -/
def Fenced (t : LeaseTable) : Prop :=
  t.rows.Pairwise fun r r' =>
    r.accountId = r'.accountId → r.leaseEpoch < r'.leaseEpoch ∧ ¬r.Unreleased

theorem fenced_updateUnreleased (h : t.Fenced) (cond : LeaseRow → Bool) (e : LeaseEdit) :
    (t.updateUnreleased cond e).Fenced := by
  refine List.pairwise_map.2 (h.imp fun {r r'} hrr' ha => ?_)
  have hr := later_edit cond e r
  have hr' := later_edit cond e r'
  rw [hr.accountId, hr'.accountId] at ha
  rw [hr.leaseEpoch, hr'.leaseEpoch]
  exact ⟨(hrr' ha).1, fun hu => (hrr' ha).2 (hr.unreleased hu)⟩

theorem fenced_insert (h : t.Fenced) {d : Draft} (hins : t.insert d = some t') : t'.Fenced := by
  obtain ⟨hadm, hrows⟩ := insert_eq_some.1 hins
  rw [Fenced, hrows]
  refine List.pairwise_append.2 ⟨h, List.pairwise_singleton _ _, fun r hr r' hr' ha => ?_⟩
  obtain rfl := List.mem_singleton.1 hr'
  have hd : r.accountId = d.accountId := ha
  exact ⟨by simpa [draftRow, hd] using lt_nextEpoch hr, fun hu => (hadm r hr hu).1 hd⟩

theorem Evolves.fenced {P : LeaseTable → Draft → Prop} (h : Evolves P t t') (ht : t.Fenced) :
    t'.Fenced :=
  h.invariant ht (fun _ cond e hI => fenced_updateUnreleased hI cond e)
    fun _ _ _ hI _ hins => fenced_insert hI hins

/-- The key names a row that is released, or that a later row of its account supersedes. -/
def Spent (t : LeaseTable) (key : LeaseKey) : Prop :=
  ∃ (i : Nat) (r : LeaseRow), t.rows[i]? = some r ∧ r.leaseKey = key ∧
    (¬r.Unreleased ∨
      ∃ (j : Nat) (r' : LeaseRow), i < j ∧ t.rows[j]? = some r' ∧ r'.accountId = r.accountId)

/-- In a fenced table a superseded row is a released one. -/
theorem Fenced.released_of_spent (h : t.Fenced) (hs : t.Spent key) :
    ∃ r ∈ t.rows, r.leaseKey = key ∧ ¬r.Unreleased := by
  obtain ⟨i, r, hi, hkey, hr | ⟨j, r', hij, hj, ha⟩⟩ := hs
  · exact ⟨r, List.mem_of_getElem? hi, hkey, hr⟩
  · obtain ⟨hi', rfl⟩ := List.getElem?_eq_some_iff.1 hi
    obtain ⟨hj', rfl⟩ := List.getElem?_eq_some_iff.1 hj
    exact ⟨_, List.getElem_mem hi', hkey, (List.pairwise_iff_getElem.1 h i j hi' hj' hij ha.symm).2⟩

/-- No statement selects a row by a key whose row is released. -/
theorem rowsAffected_of_released {r : LeaseRow} (hr : r ∈ t.rows) (hkey : r.leaseKey = key)
    (hrel : ¬r.Unreleased) {cond : LeaseRow → Bool} (hcond : ∀ r, cond r → Db.namedBy key r) :
    t.rowsAffected cond = 0 := by
  refine List.countP_eq_zero.2 fun r' hr' hs => ?_
  simp only [Selects, Bool.and_eq_true, decide_eq_true_eq] at hs
  have hnamed := hcond r' hs.2
  simp only [Db.namedBy, Bool.and_eq_true, decide_eq_true_eq] at hnamed
  have hid : r'.leaseId = r.leaseId := hnamed.1.1.trans (by rw [← hkey]; rfl)
  exact hrel (t.eq_of_leaseId hr' hr hid ▸ hs.1)

end

end LeaseTable

section
variable {db db' : Db}

/-- Every table reached is fenced. -/
theorem store_fenced (h : store.Reach db) : db.accountLeases.Fenced := by
  refine h.invariant (I := fun db => db.accountLeases.Fenced) (fun db hinit => ?_)
    fun s op t hs hstep => ?_
  · obtain rfl : db = Db.empty := hinit
    exact .nil
  · obtain rfl : op.run s = t := hstep
    exact (op.evolves s).fenced hs

/-- Along a run every row is kept, at a later moment. -/
theorem store_later (h : store.Run db db') : db.accountLeases.Later db'.accountLeases := by
  refine h.invariant (I := fun s => db.accountLeases.Later s.accountLeases) (.refl _)
    fun s op t hs hstep => ?_
  obtain rfl : op.run s = t := hstep
  exact hs.trans (op.evolves s).later

theorem LeaseTable.Later.spent {t t' : LeaseTable} {key : LeaseKey} (h : t.Later t')
    (hs : t.Spent key) : t'.Spent key := by
  obtain ⟨i, r, hi, hkey, hr⟩ := hs
  obtain ⟨r₁, hi₁, hl⟩ := h i r hi
  refine ⟨i, r₁, hi₁, hl.leaseKey.trans hkey, ?_⟩
  rcases hr with hr | ⟨j, r', hij, hj, ha⟩
  · exact .inl fun hu => hr (hl.unreleased hu)
  · obtain ⟨r₁', hj₁, hl'⟩ := h j r' hj
    exact .inr ⟨j, r₁', hij, hj₁, by rw [hl'.accountId, hl.accountId, ha]⟩

/-- **Lease fencing.** In a database reached from a new one and later on any run from it: an
account and a holder have at most one unreleased row; epochs of an account's rows increase in
insertion order; a row released before is the same row, still released; and the key of a row that
was released or superseded before renews and releases nothing. -/
theorem lease_fencing (hreach : store.Reach db) (hrun : store.Run db db') :
    (∀ r ∈ db'.accountLeases.rows, ∀ r' ∈ db'.accountLeases.rows, r.Unreleased → r'.Unreleased →
      r.accountId = r'.accountId ∨ r.holderInstanceId = r'.holderInstanceId → r = r') ∧
    (db'.accountLeases.rows.Pairwise fun r r' =>
      r.accountId = r'.accountId → r.leaseEpoch < r'.leaseEpoch) ∧
    (∀ r ∈ db.accountLeases.rows, ¬r.Unreleased → r ∈ db'.accountLeases.rows) ∧
    ∀ key, db.accountLeases.Spent key → ∀ now leaseTtl,
      db'.renewAccountLease key now leaseTtl = (.missing, db') ∧
        db'.releaseAccountLease key now = (false, db') := by
  have hfenced := store_fenced (hreach.run hrun)
  have hlater := store_later hrun
  refine ⟨fun r hr r' hr' hu hu' h => ?_, hfenced.imp fun h ha => (h ha).1, fun r hr hrel => ?_,
    fun key hspent now leaseTtl => ?_⟩
  · rcases h with h | h
    · exact db'.accountLeases.activeAccount.eq_of_mem hr hr' hu hu' h
    · exact db'.accountLeases.activeHolder.eq_of_mem hr hr' hu hu' h
  · obtain ⟨r', hr', hl⟩ := hlater.of_mem hr
    exact hl.frozen hrel ▸ hr'
  · obtain ⟨r, hr, hkey, hrel⟩ := hfenced.released_of_spent (hlater.spent hspent)
    constructor
    · unfold Db.renewAccountLease
      refine if_pos (LeaseTable.rowsAffected_of_released hr hkey hrel fun r' h => ?_)
      simp only [Bool.and_eq_true] at h
      exact h.1
    · unfold Db.releaseAccountLease
      exact if_pos (LeaseTable.rowsAffected_of_released hr hkey hrel fun _ => id)

/-- The key of a lease that was released, after another holder leased the account. -/
theorem lease_fencing_released_key :
    let db := runAll [.upsertAccountRegistryEntry (chatgptEntry "acct-1" "pool" 0) 0,
      .acquireAccountLeaseExcluding "pool" "holder-1" (seconds 300) [] 0 0,
      .releaseAccountLease ⟨0, "acct-1", 1⟩ (seconds 1)] Db.empty
    let db' := runAll
      [.acquireAccountLeaseExcluding "pool" "holder-2" (seconds 300) [] (seconds 2) 0] db
    db'.renewAccountLease ⟨0, "acct-1", 1⟩ (seconds 3) (seconds 300) = (.missing, db') ∧
      db'.releaseAccountLease ⟨0, "acct-1", 1⟩ (seconds 3) = (false, db') :=
  (lease_fencing (store_reach_runAll _) (store_run_runAll _ .refl)).2.2.2 ⟨0, "acct-1", 1⟩
    ⟨0, _, rfl, by decide, .inl (by decide)⟩ (seconds 3) (seconds 300)

end

end Mcodex.AccountPool
