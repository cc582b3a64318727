import Mcodex.AccountPool.SelectionSpec
import Mcodex.AccountPool.Startup
import Mcodex.AccountPool.StoreSpec

/-!
# Candidates and members

`load_runtime_selection_candidates` makes one candidate of each member of a pool, in the order of
the members. `CandidateOf` says what the candidate of a member carries, in the terms of the tables.
-/

namespace Mcodex.AccountPool

namespace Db

section
variable {db : Db} {poolId : PoolId} {holder : HolderId} {family : LimitId} {now : Int}

/-- An account is a member once. -/
theorem poolMembers_pairwise :
    (db.poolMembers poolId).Pairwise fun m m' => m.accountId ≠ m'.accountId := by
  have hperm := List.perm_insertionSort Member.Before
    ((db.accountPoolMembership.entries.filter fun e =>
      e.2.poolId = poolId ∧ e.1 ∈ db.accountRegistry).map
      fun e => (⟨e.1, e.2.position⟩ : Member))
  refine (hperm.pairwise_iff fun h => Ne.symm h).2 (List.pairwise_map.2 ?_)
  exact ((List.nodupKeys_iff_pairwise.1 db.accountPoolMembership.nodupKeys).sublist
    List.filter_sublist).imp id

/-- Members come in the order of position and account. -/
theorem poolMembers_sorted : (db.poolMembers poolId).Pairwise Member.Before := by
  have : Std.Total Member.Before := ⟨fun m m' => by
    rcases lt_trichotomy m.position m'.position with h | h | h
    · exact .inl (.inl h)
    · rcases String.le_total m.accountId m'.accountId with h' | h'
      · exact .inl (.inr ⟨h, h'⟩)
      · exact .inr (.inr ⟨h.symm, h'⟩)
    · exact .inr (.inl h)⟩
  have : IsTrans Member Member.Before := ⟨fun a b c hab hbc => by
    rcases hab with h | ⟨h, h'⟩ <;> rcases hbc with k | ⟨k, k'⟩
    · exact .inl (h.trans k)
    · exact .inl (k ▸ h)
    · exact .inl (h ▸ k)
    · exact .inr ⟨h.trans k, String.le_trans h' k'⟩⟩
  exact List.pairwise_insertionSort _ _

/-- What the candidate of a member carries. -/
structure CandidateOf (db : Db) (poolId : PoolId) (holder : HolderId) (family : LimitId)
    (now : Int) (m : Member) (c : AccountRecord) : Prop where
  accountId : c.accountId = m.accountId
  poolPosition : c.poolPosition = m.position.toNat
  enabled : c.enabled = true ↔ db.Enabled m.accountId
  authorized : c.selectorAuthEligible = true ↔ db.Authorized m.accountId
  leased : c.leasedToOtherHolder =
    (db.liveLeaseInPool m.accountId poolId now).any (·.holderInstanceId ≠ holder)
  quota : c.quota.effectiveQuota family = db.readSelectionQuotaState m.accountId family

/-- The candidates of a pool are those of its members, in order. -/
theorem candidateOf_members :
    List.Forall₂ (db.CandidateOf poolId holder family now) (db.poolMembers poolId)
      (db.loadRuntimeSelectionCandidates poolId holder family now) := by
  have hall : ∀ members : List Member, (∀ m ∈ members, m.accountId ∈ db.accountRegistry) →
      List.Forall₂ (db.CandidateOf poolId holder family now) members
        ((members.filterMap fun m => (db.readRegisteredAccount m.accountId).map
          fun registeredAccount => (⟨registeredAccount,
            (db.accountRuntimeState.lookup m.accountId).map (·.healthState),
            db.liveLeaseInPool m.accountId poolId now, m.position⟩ : SelectionCandidateRow)).map
          fun row => row.candidate holder
            (db.quotaFamilyView row.registeredAccount.accountId family)) := by
    intro members hreg
    induction members with
    | nil => exact .nil
    | cons m members ih =>
      obtain ⟨row, hrow⟩ := Option.isSome_iff_exists.1
        (AList.lookup_isSome.2 (hreg m List.mem_cons_self))
      have hread : db.readRegisteredAccount m.accountId =
          some (registeredAccountRecord m.accountId row) := by simp [readRegisteredAccount, hrow]
      simp only [List.filterMap_cons, hread, Option.map_some, List.map_cons]
      refine .cons ?_ (ih fun m' hm' => hreg m' (List.mem_cons_of_mem _ hm'))
      constructor
      · rfl
      · rfl
      · simp [SelectionCandidateRow.candidate, registeredAccountRecord, Enabled, hrow]
      · simp [SelectionCandidateRow.candidate, Authorized]
      · rfl
      · simp only [SelectionCandidateRow.candidate, quotaFamilyView, registeredAccountRecord, QuotaFamilyView.effectiveQuota,
          readSelectionQuotaState]
        rcases Option.eq_none_or_eq_some (db.readAccountQuotaState m.accountId family) with
          hq | ⟨record, hq⟩
        · simp only [hq, compatQuotaLimitId, Option.filter_none, Option.none_or,
            Option.isSome_none, Bool.false_eq_true, or_false]
          split <;> simp [*]
        · have hfamily : record.limitId = family := by
            simp only [readAccountQuotaState, Option.map_eq_some_iff] at hq
            obtain ⟨_, _, rfl⟩ := hq
            rfl
          simp [hq, hfamily]
  exact hall _ fun m hm => (mem_poolMembers.1 hm).2

end

end Db

end Mcodex.AccountPool
