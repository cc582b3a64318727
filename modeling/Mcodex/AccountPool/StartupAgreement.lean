import Mcodex.AccountPool.Candidates
import Mcodex.AccountPool.StoreOp

/-!
# Startup prediction and startup selection

The startup preview predicts an account by a query of its own: the first enabled and authorized
member in the order of stored position and account. The selector ranks the same members by position
and account, but a stored position of zero stands there for the index of the member. So the two
agree unless a later member has a positive position that the index of the predicted one exceeds.
-/

namespace Mcodex.AccountPool

open Ranking

/-- The selection request of a startup without a preferred account. -/
def startupRequest (now : Int) (poolId : PoolId) (selectionFamily : LimitId)
    (proactiveThresholdPercent : Nat) : SelectionRequest where
  intent := .startup
  now := some now
  poolId := some poolId
  selectionFamily := some selectionFamily
  proactiveThresholdPercent := proactiveThresholdPercent

namespace Db

/-- No account of the pool has a quota row. -/
def NoQuota (db : Db) (poolId : PoolId) : Prop :=
  ∀ m ∈ db.poolMembers poolId, ∀ limitId, db.accountQuotaState.lookup (m.accountId, limitId) = none

/-- No account of the pool is leased. -/
def Unleased (db : Db) (poolId : PoolId) (now : Int) : Prop :=
  ∀ m ∈ db.poolMembers poolId, db.accountHasActiveLease m.accountId now = false

/-- An enabled account that is not unauthorized. -/
def Startable (db : Db) (m : Member) : Prop := db.Enabled m.accountId ∧ db.Authorized m.accountId

instance (db : Db) : DecidablePred db.Startable := fun _ => inferInstanceAs (Decidable (_ ∧ _))

/-- No startable member ranks before the first one when the zero position of the first one has
become its index. -/
def ZeroPositionsAgree (db : Db) (poolId : PoolId) : Prop :=
  ∀ pre m post, db.poolMembers poolId = pre ++ m :: post → (∀ m' ∈ pre, ¬db.Startable m') →
    db.Startable m → m.position ≤ 0 → ∀ m' ∈ post, db.Startable m' → 0 < m'.position →
      pre.length < m'.position ∨ pre.length = m'.position ∧ m.accountId < m'.accountId

/-- The candidates of a startup request that the selector ranks, best first. -/
def startupRanking (db : Db) (poolId : PoolId) (holder : HolderId) (family : LimitId)
    (now requestNow : Int) (threshold : Nat) : List AccountRecord :=
  let request := startupRequest requestNow poolId family threshold
  rankEligible request
    (admitCandidates request requestNow (db.loadRuntimeSelectionCandidates poolId holder family now))

section
variable {db : Db} {poolId : PoolId} {holder : HolderId} {family : LimitId}
  {now requestNow previewNow : Int} {threshold : Nat} {m : Member} {c : AccountRecord}

/-! ## Candidates without quota and leases -/

theorem NoQuota.readSelectionQuotaState (h : db.NoQuota poolId) (hm : m ∈ db.poolMembers poolId) :
    db.readSelectionQuotaState m.accountId family = none := by
  simp [Db.readSelectionQuotaState, readAccountQuotaState, h m hm]

theorem NoQuota.quotaOpen (h : db.NoQuota poolId) (hm : m ∈ db.poolMembers poolId) :
    db.QuotaOpen m.accountId family := by
  simp [QuotaOpen, joinedQuotaRow, h m hm]

/-- A member without a live lease has none in its pool either. -/
theorem liveLeaseInPool_eq_none {accountId : AccountId}
    (h : db.accountHasActiveLease accountId now = false) :
    db.liveLeaseInPool accountId poolId now = none := by
  simp only [accountHasActiveLease, List.any_eq_false, decide_eq_true_eq] at h
  simp only [liveLeaseInPool, Option.map_eq_none_iff, List.find?_eq_none, decide_eq_true_eq]
  exact fun r hr hlive => h r hr ⟨hlive.1, hlive.2.2⟩

/-- The startup preview predicts the first startable member. -/
theorem readFirstEligibleAccountId_eq (hquota : db.NoQuota poolId)
    (hfree : db.Unleased poolId now) :
    db.readFirstEligibleAccountId poolId now =
      ((db.poolMembers poolId).find? fun m => db.Startable m).map (·.accountId) := by
  rw [readFirstEligibleAccountId, ← List.head?_filter, ← List.head?_filter]
  refine congrArg (fun l => (List.head? l).map Member.accountId) (List.filter_congr fun m hm => ?_)
  exact decide_eq_decide.2 ⟨fun h => ⟨h.1.1, h.1.2.1⟩,
    fun h => ⟨⟨h.1, h.2, fun _ _ => hquota.quotaOpen hm⟩, hfree m hm⟩⟩

/-- The selector rejects the members that are not startable. -/
theorem hardRejectReason_startupRequest (hfree : db.accountHasActiveLease m.accountId now = false)
    (hc : db.CandidateOf poolId holder family now m c) :
    hardRejectReason (startupRequest requestNow poolId family threshold) c = none ↔ db.Startable m := by
  have hleased : c.leasedToOtherHolder = false := by
    rw [hc.leased, liveLeaseInPool_eq_none hfree]
    rfl
  rw [Startable, ← hc.enabled, ← hc.authorized]
  cases henabled : c.enabled <;> cases hauth : c.selectorAuthEligible <;>
    simp [hardRejectReason, henabled, hauth, hleased, startupRequest,
      SelectionIntent.isProbeRecovery]

/-- The candidates that the selector ranks, each with its index for a position of zero. -/
theorem mem_startupRanking (hquota : db.NoQuota poolId)
    (hfree : db.Unleased poolId now) {r : AccountRecord} :
    r ∈ db.startupRanking poolId holder family now requestNow threshold ↔
      ∃ i m c, (db.poolMembers poolId)[i]? = some m ∧ db.Startable m ∧
        (db.loadRuntimeSelectionCandidates poolId holder family now)[i]? = some c ∧
        db.CandidateOf poolId holder family now m c ∧ r = numberAt i c := by
  have hmembers := @candidateOf_members db poolId holder family now
  have hopen : ∀ c ∈ db.loadRuntimeSelectionCandidates poolId holder family now,
      (classifyCandidate c (startupRequest requestNow poolId family threshold).family
        requestNow).isNotBlocked = true := by
    intro c hc
    obtain ⟨m, hm, hmc⟩ := exists_of_mem_right hmembers hc
    have hnone : c.quota.effectiveQuota family = none :=
      hmc.quota.trans (hquota.readSelectionQuotaState hm)
    simp [classifyCandidate, startupRequest, SelectionRequest.family, hnone,
      QuotaBlockClass.isNotBlocked]
  obtain ⟨hall, hrecords⟩ := @admitCandidate_foldl_unblocked
    (startupRequest requestNow poolId family threshold) _
    (db.loadRuntimeSelectionCandidates poolId holder family now) {} hopen (by simp)
  rw [startupRanking, rankEligible, mem_sortBy, admitCandidates, List.filter_eq_self.2 hall, hrecords]
  simp only [List.map_nil, List.nil_append, List.mem_map, List.mem_filter, decide_eq_true_eq]
  constructor
  · rintro ⟨⟨c, i⟩, ⟨hmem, hrej⟩, rfl⟩
    have hc := List.mem_zipIdx_iff_getElem?.1 hmem
    obtain ⟨m, hm, hmc⟩ := exists_getElem?_right hmembers hc
    have hm' := List.mem_of_getElem? hm
    exact ⟨i, m, c, hm, (hardRejectReason_startupRequest (hfree m hm') hmc).1 hrej, hc, hmc, rfl⟩
  · rintro ⟨i, m, c, hm, hstart, hc, hmc, rfl⟩
    have hm' := List.mem_of_getElem? hm
    exact ⟨(c, i), ⟨List.mem_zipIdx_iff_getElem?.2 hc,
      (hardRejectReason_startupRequest (hfree m hm') hmc).2 hstart⟩, rfl⟩

/-! ## The two orders -/

/-- The position that the selector ranks a member by. -/
def rankPosition (i : Nat) (m : Member) : Nat := if m.position ≤ 0 then i else m.position.toNat

theorem compareOrdinary_numberAt {i j : Nat} {m' : Member} {c' : AccountRecord}
    (hquota : db.NoQuota poolId) (hm : m ∈ db.poolMembers poolId)
    (hm' : m' ∈ db.poolMembers poolId) (hc : db.CandidateOf poolId holder family now m c)
    (hc' : db.CandidateOf poolId holder family now m' c') :
    compareOrdinary (startupRequest requestNow poolId family threshold) (numberAt i c)
        (numberAt j c') =
      (compare (rankPosition i m) (rankPosition j m')).then
        (compare m.accountId m'.accountId) := by
  have hnumber : ∀ {i m c}, m ∈ db.poolMembers poolId →
      db.CandidateOf poolId holder family now m c →
      (numberAt i c).poolPosition = rankPosition i m ∧ (numberAt i c).accountId = m.accountId ∧
        (numberAt i c).quota.effectiveQuota family = none := by
    intro i m c hm hc
    have hnone := hc.quota.trans (hquota.readSelectionQuotaState hm)
    by_cases hpos : m.position ≤ 0
    · have hzero : c.poolPosition = 0 := by rw [hc.poolPosition]; omega
      simp [numberAt, rankPosition, hzero, hpos, hc.accountId, hnone]
    · simp [numberAt, rankPosition, hpos, hc.poolPosition, hc.accountId, hnone]
  obtain ⟨hp, hid, hnone⟩ := hnumber (i := i) hm hc
  obtain ⟨hp', hid', hnone'⟩ := hnumber (i := j) hm' hc'
  rw [compareOrdinary_of_noQuota hnone hnone', hp, hp', hid, hid']

theorem then_eq_lt_iff {n n' : Nat} {a a' : AccountId} :
    (compare n n').then (compare a a') = .lt ↔ n < n' ∨ n = n' ∧ a < a' := by
  rw [Ordering.then_eq_lt, compare_lt_iff_lt, compare_eq_iff_eq]
  exact or_congr Iff.rfl (and_congr Iff.rfl compareOfLessAndEq_eq_lt)

theorem isLE_then_iff {n n' : Nat} {a a' : AccountId} :
    ((compare n n').then (compare a a')).isLE ↔ n < n' ∨ n = n' ∧ a ≤ a' := by
  rw [Ordering.isLE_then_iff_or, compare_lt_iff_lt, compare_eq_iff_eq]
  refine or_congr Iff.rfl (and_congr Iff.rfl ?_)
  exact isLE_compareOfLessAndEq String.le_antisymm String.not_le String.le_total

/-- The member at an index of a split list. -/
theorem getElem?_split {pre post : List Member} {m' : Member} {j : Nat}
    (h : (pre ++ m :: post)[j]? = some m') :
    m' ∈ pre ∨ j = pre.length ∧ m' = m ∨ pre.length < j ∧ m' ∈ post := by
  rcases lt_trichotomy j pre.length with hj | hj | hj
  · rw [List.getElem?_append_left hj] at h
    exact .inl (List.mem_of_getElem? h)
  · subst hj
    exact .inr (.inl ⟨rfl, by simpa using h.symm⟩)
  · rw [List.getElem?_append_right hj.le, List.getElem?_cons, if_neg (by omega)] at h
    exact .inr (.inr ⟨hj, List.mem_of_getElem? h⟩)

/-- A later member follows in the stored order, and is another account. -/
theorem before_of_split {pre post : List Member} {m' : Member}
    (hsplit : db.poolMembers poolId = pre ++ m :: post) (hm' : m' ∈ post) :
    m.Before m' ∧ m.accountId ≠ m'.accountId := by
  have hsorted := @poolMembers_sorted db poolId
  have hdistinct := @poolMembers_pairwise db poolId
  rw [hsplit, List.pairwise_append, List.pairwise_cons] at hsorted hdistinct
  exact ⟨hsorted.2.1.1 m' hm', hdistinct.2.1.1 m' hm'⟩

section
variable {pre post : List Member}

/-- The first startable member ranks first if no later one has a positive position that precedes
its index. -/
theorem ZeroPositionsAgree.head_startupRanking (hagree : db.ZeroPositionsAgree poolId)
    (hquota : db.NoQuota poolId) (hfree : db.Unleased poolId now)
    (hsplit : db.poolMembers poolId = pre ++ m :: post) (hpre : ∀ m' ∈ pre, ¬db.Startable m')
    (hm : db.Startable m) :
    ∃ r, (db.startupRanking poolId holder family now requestNow threshold).head? = some r ∧
      r.accountId = m.accountId := by
  have hmem : m ∈ db.poolMembers poolId := by simp [hsplit]
  have hget : (db.poolMembers poolId)[pre.length]? = some m := by simp [hsplit]
  obtain ⟨c, hc, hmc⟩ := exists_getElem?_left (@candidateOf_members _ _ holder family now) hget
  refine ⟨numberAt pre.length c, head_sortBy_eq_some ?_ fun r hr hne => ?_, ?_⟩
  · exact mem_sortBy.1 ((mem_startupRanking hquota hfree).2
      ⟨pre.length, m, c, hget, hm, hc, hmc, rfl⟩)
  · obtain ⟨j, m', c', hget', hm', hc', hmc', rfl⟩ :=
      (mem_startupRanking hquota hfree).1 (mem_sortBy.2 hr)
    rw [compareOrdinary_numberAt hquota hmem (List.mem_of_getElem? hget') hmc hmc',
      then_eq_lt_iff]
    rw [hsplit] at hget'
    obtain hmpre | ⟨rfl, rfl⟩ | ⟨hj, hpost⟩ := getElem?_split hget'
    · exact absurd hm' (hpre m' hmpre)
    · rw [hc] at hc'
      exact absurd (by rw [Option.some.inj hc']) hne
    · obtain ⟨hbefore, hid⟩ := before_of_split hsplit hpost
      by_cases hp : m.position ≤ 0 <;> by_cases hp' : m'.position ≤ 0 <;>
        simp only [rankPosition, hp, hp', if_true, if_false]
      · exact .inl hj
      · exact (hagree pre m post hsplit hpre hm hp m' hpost hm' (by omega)).imp
          (by omega) (And.imp_left (by omega))
      · rcases hbefore with h | h <;> omega
      · refine hbefore.imp (by omega) (And.imp (by omega) fun h => ?_)
        exact Std.lt_of_le_of_ne h hid
  · unfold numberAt
    split <;> exact hmc.accountId

/-- If the first startable member ranks first, no later one has a positive position that precedes
its index. -/
theorem of_head_startupRanking (hquota : db.NoQuota poolId) (hfree : db.Unleased poolId now)
    (hsplit : db.poolMembers poolId = pre ++ m :: post) (hpos : m.position ≤ 0) {r : AccountRecord}
    (hr : (db.startupRanking poolId holder family now requestNow threshold).head? = some r)
    (hid : r.accountId = m.accountId) {m' : Member} (hm' : m' ∈ post) (hstart : db.Startable m')
    (hpos' : 0 < m'.position) :
    pre.length < m'.position ∨ pre.length = m'.position ∧ m.accountId < m'.accountId := by
  have hmem : ∀ {m'}, m' ∈ post → m' ∈ db.poolMembers poolId := fun h => by simp [hsplit, h]
  obtain ⟨j, hget'⟩ := List.mem_iff_getElem?.1 (hmem hm')
  obtain ⟨c', hc', hmc'⟩ := exists_getElem?_left (@candidateOf_members _ _ holder family now) hget'
  obtain ⟨i, m₁, c, hget, -, -, hmc, rfl⟩ :=
    (mem_startupRanking hquota hfree).1 (List.mem_of_head? hr)
  -- the head is the candidate of `m`: no other member has its account
  have hm₁ : m₁.accountId = m.accountId := by
    rw [← hid, ← hmc.accountId]
    unfold numberAt
    split <;> rfl
  obtain ⟨rfl, rfl⟩ : i = pre.length ∧ m₁ = m := by
    rw [hsplit] at hget
    obtain hpre | h | ⟨-, hpost⟩ := getElem?_split hget
    · have hdistinct := @poolMembers_pairwise db poolId
      rw [hsplit, List.pairwise_append] at hdistinct
      exact absurd hm₁ (hdistinct.2.2 m₁ hpre m List.mem_cons_self)
    · exact h
    · exact absurd hm₁.symm (before_of_split hsplit hpost).2
  have hle := head_sortBy_isLE hr (mem_sortBy.1 ((mem_startupRanking hquota hfree).2
    ⟨j, m', c', hget', hstart, hc', hmc', rfl⟩))
  rw [compareOrdinary_numberAt hquota (List.mem_of_getElem? hget) (hmem hm') hmc hmc',
    isLE_then_iff] at hle
  simp only [rankPosition, hpos, if_true, if_neg (not_le.2 hpos')] at hle
  exact hle.imp (by omega) (And.imp (by omega)
    fun h => Std.lt_of_le_of_ne h (before_of_split hsplit hm').2)

end

end

end Db

/-! ## Agreement -/

/-- The startup prediction of a store and the startup selection on it name the same account. -/
def StartupAgrees (db : Db) (configuredDefaultPoolId : Option PoolId) (poolId : PoolId)
    (holder : HolderId) (family : LimitId) (threshold : Nat)
    (previewNow now requestNow utcNow : Int) : Prop :=
  ∀ accountId,
    (db.previewAccountStartupSelection configuredDefaultPoolId previewNow).predictedAccountId =
        some accountId ↔
      (evaluateSelection (startupRequest requestNow poolId family threshold) utcNow
        (db.loadRuntimeSelectionCandidates poolId holder family now)).terminalAction =
          .select accountId

/-- **When the prediction is the selection.** In a pool without quota rows and leases, and for a
startup that is neither suppressed nor given a preferred account, the two agree exactly when the
rewriting of zero positions keeps the first startable member first. -/
theorem startup_prediction_agrees {db : Db} {configuredDefaultPoolId : Option PoolId}
    {poolId : PoolId} {holder : HolderId} {family : LimitId} {threshold : Nat}
    {previewNow now requestNow utcNow : Int}
    (hpool : configuredDefaultPoolId.or db.readAccountStartupSelection.defaultPoolId = some poolId)
    (hpreferred : db.readAccountStartupSelection.preferredAccountId = none)
    (hsuppressed : db.readAccountStartupSelection.suppressed = false)
    (hquota : db.NoQuota poolId) (hpreview : db.Unleased poolId previewNow)
    (hfree : db.Unleased poolId now) :
    StartupAgrees db configuredDefaultPoolId poolId holder family threshold previewNow now
      requestNow utcNow ↔ db.ZeroPositionsAgree poolId := by
  have hpredicted : (db.previewAccountStartupSelection configuredDefaultPoolId
      previewNow).predictedAccountId =
        ((db.poolMembers poolId).find? fun m => db.Startable m).map (·.accountId) := by
    rw [← Db.readFirstEligibleAccountId_eq hquota hpreview]
    simp [Db.previewAccountStartupSelection, Db.previewWithSelection, hpool, hpreferred,
      hsuppressed]
  have hselected : ∀ accountId, (evaluateSelection (startupRequest requestNow poolId family
      threshold) utcNow (db.loadRuntimeSelectionCandidates poolId holder family
        now)).terminalAction = .select accountId ↔
      ∃ r, (db.startupRanking poolId holder family now requestNow threshold).head? = some r ∧
        r.accountId = accountId :=
    fun accountId => evaluateSelection_eq_select (by simp [startupRequest]) rfl
  simp only [StartupAgrees, hpredicted, hselected]
  constructor
  · intro h pre m post hsplit hpre hm hpos m' hm' hstart hpos'
    have hfind : (db.poolMembers poolId).find? (fun m => db.Startable m) = some m :=
      List.find?_eq_some_iff_append.2 ⟨by simpa using hm, pre, post, hsplit, by simpa using hpre⟩
    obtain ⟨r, hr, hid⟩ := (h m.accountId).1 (by simp [hfind])
    exact Db.of_head_startupRanking hquota hfree hsplit hpos hr hid hm' hstart hpos'
  · intro hagree accountId
    cases hfind : (db.poolMembers poolId).find? fun m => db.Startable m with
    | none =>
      refine ⟨nofun, fun ⟨r, hr, _⟩ => ?_⟩
      obtain ⟨i, m, c, hget, hm, -⟩ :=
        (Db.mem_startupRanking hquota hfree).1 (List.mem_of_head? hr)
      exact absurd hm (by simpa using List.find?_eq_none.1 hfind m (List.mem_of_getElem? hget))
    | some m =>
      obtain ⟨hm, pre, post, hsplit, hpre⟩ := List.find?_eq_some_iff_append.1 hfind
      obtain ⟨r, hr, hid⟩ := @Db.ZeroPositionsAgree.head_startupRanking _ _ holder family _
        requestNow threshold _ _ _ hagree hquota hfree hsplit (by simpa using hpre)
        (by simpa using hm)
      simp [hr, hid]

/-- Two disabled accounts and two enabled ones, the last in position 1. -/
def zeroPositions : Db :=
  runAll [.upsertAccountRegistryEntry { chatgptEntry "acct-1" "pool" 0 with enabled := false } 0,
    .upsertAccountRegistryEntry { chatgptEntry "acct-2" "pool" 0 with enabled := false } 0,
    .upsertAccountRegistryEntry (chatgptEntry "acct-3" "pool" 0) 0,
    .upsertAccountRegistryEntry (chatgptEntry "acct-4" "pool" 1) 0] Db.empty

theorem zeroPositions_noQuota : zeroPositions.NoQuota "pool" :=
  fun m _ limitId => AList.lookup_empty (m.accountId, limitId)

theorem zeroPositions_unleased : zeroPositions.Unleased "pool" 0 := by
  unfold Db.Unleased
  decide

/-- The query predicts the third account, whose position becomes 2; the selector takes the fourth,
which keeps position 1. -/
theorem startup_prediction_disagrees : ¬∀ db, store.Reach db →
    db.readAccountStartupSelection.preferredAccountId = none →
    db.readAccountStartupSelection.suppressed = false → db.NoQuota "pool" →
    db.Unleased "pool" 0 →
      StartupAgrees db (some "pool") "pool" "holder" "codex" 85 0 0 0 0 := by
  intro h
  have hagree := h zeroPositions (store_reach_runAll _) rfl rfl zeroPositions_noQuota
    zeroPositions_unleased "acct-3"
  exact absurd (hagree.1 (by decide)) (by decide +kernel)

theorem startup_prediction_agrees_zeroPositions :
    StartupAgrees zeroPositions (some "pool") "pool" "holder" "codex" 85 0 0 0 0 ↔
      zeroPositions.ZeroPositionsAgree "pool" :=
  startup_prediction_agrees rfl rfl rfl zeroPositions_noQuota zeroPositions_unleased
    zeroPositions_unleased

end Mcodex.AccountPool
