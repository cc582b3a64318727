import Mcodex.AccountPool.SelectionSpec

/-!
# The selector and the order of its candidates

Only the replacement of zero positions looks at where a candidate stands in the list. With nonzero
positions the first loop is a filter (`admitCandidates_eq`), and both rankings compare accounts
last, so they leave no choice between candidates of distinct accounts: a plan does not depend on the
order in which its candidates came (`evaluateSelection_perm`).
-/

namespace Mcodex.AccountPool

open Ranking

section
variable {request : SelectionRequest} {now utcNow utcNow' : Int}
  {candidates candidates' : List AccountRecord} {c left right : AccountRecord}

/-! ## Admission -/

/-- What the first loop enters for a candidate among the rejected ones. -/
def rejection (request : SelectionRequest) (now : Int) (c : AccountRecord) :
    Option RejectedCandidate :=
  match hardRejectReason request c with
  | some reason => some ⟨c.accountId, reason⟩
  | none =>
    if (classifyCandidate c request.family now).isNotBlocked then none
    else some ⟨c.accountId, .predictedBlocked⟩

/-- What it enters for a candidate that no rule rejects. -/
def admission (request : SelectionRequest) (now : Int) (c : AccountRecord) : RankedCandidate :=
  ⟨c, classifyCandidate c request.family now⟩

theorem admitCandidate_eq {acc : Admission} (hpos : c.poolPosition ≠ 0) :
    admitCandidate request now acc c = {
      rejected := acc.rejected ++ (rejection request now c).toList
      admitted := acc.admitted ++
        if hardRejectReason request c = none then [admission request now c] else [] } := by
  have hnum : numberCandidate acc c = c := if_neg hpos
  cases hrej : hardRejectReason request c with
  | some reason => simp [admitCandidate, rejection, hnum, hrej]
  | none =>
    cases hopen : (classifyCandidate c request.family now).isNotBlocked <;>
      simp [admitCandidate, rejection, admission, hnum, hrej, hopen]

/-- With nonzero positions the loop enters each candidate by itself. -/
theorem admitCandidates_eq (hpos : ∀ c ∈ candidates, c.poolPosition ≠ 0) :
    admitCandidates request now candidates = {
      rejected := candidates.filterMap (rejection request now)
      admitted := (candidates.filter (hardRejectReason request · = none)).map
        (admission request now) } := by
  have hfold : ∀ acc : Admission, candidates.foldl (admitCandidate request now) acc = {
      rejected := acc.rejected ++ candidates.filterMap (rejection request now)
      admitted := acc.admitted ++ (candidates.filter (hardRejectReason request · = none)).map
        (admission request now) } := by
    induction candidates with
    | nil => simp
    | cons c candidates ih =>
      rw [List.forall_mem_cons] at hpos
      intro acc
      rw [List.foldl_cons, admitCandidate_eq hpos.1, ih hpos.2]
      cases hrej : rejection request now c <;>
        by_cases hnone : hardRejectReason request c = none <;> simp [hrej, hnone]
  exact hfold {}

/-- The admitted candidates of some class are the candidates of that class that no rule rejects. -/
theorem map_record_admitted (hpos : ∀ c ∈ candidates, c.poolPosition ≠ 0)
    (p : QuotaBlockClass → Bool) :
    (((admitCandidates request now candidates).admitted.filter (p ·.blockClass)).map (·.record)) =
      candidates.filter fun c =>
        hardRejectReason request c = none ∧ p (classifyCandidate c request.family now) := by
  rw [admitCandidates_eq hpos, List.filter_map, List.map_map, List.filter_filter]
  have hid : (fun r : RankedCandidate => r.record) ∘ admission request now = id := rfl
  rw [hid, List.map_id]
  refine List.filter_congr fun c _ => ?_
  simp [admission, Bool.and_comm]

/-! ## Ranking -/

theorem rankEligible_admitCandidates (hpos : ∀ c ∈ candidates, c.poolPosition ≠ 0) :
    rankEligible request (admitCandidates request now candidates) =
      sortBy (compareOrdinary request) (candidates.filter (Selectable request now ·)) :=
  congrArg (sortBy _) (map_record_admitted hpos QuotaBlockClass.isNotBlocked)

theorem rankProbe_admitCandidates (hpos : ∀ c ∈ candidates, c.poolPosition ≠ 0) :
    rankProbe request now (admitCandidates request now candidates) =
      maxBy (compareProbeCandidates request.family now)
        (candidates.filter (Probeable request now ·)) := by
  refine congrArg (maxBy _) ((map_record_admitted hpos (· = .probeEligibleBlocked)).trans ?_)
  exact List.filter_congr fun c _ => decide_eq_decide.2 (by rw [decide_eq_true_eq, Probeable])

/-- The ordinary ranking compares the accounts last. -/
theorem accountId_eq_of_compareOrdinary (h : compareOrdinary request left right = .eq) :
    left.accountId = right.accountId :=
  Std.LawfulEqOrd.eq_of_compare (Ordering.then_eq_eq.1 h).2

/-- The probe priority of a candidate, where it has quota. -/
def candidateProbePriority (family : LimitId) (now : Int) (c : AccountRecord) : Int × Int × Int :=
  ((c.quota.effectiveQuota family).map (probePriority · now)).getD 0

/-- `compare_probe_candidates` for candidates with quota. -/
def compareProbePriority (family : LimitId) (now : Int) :
    AccountRecord → AccountRecord → Ordering :=
  let priority := candidateProbePriority family now
  compareLex (compareLex (compareLex (compareLex (compareOn fun c => (priority c).1)
    (compareOn fun c => (priority c).2.1)) (compareOn fun c => (priority c).2.2))
    (fun l r => compare r.poolPosition l.poolPosition))
    (fun l r => compare r.accountId l.accountId)

instance (family : LimitId) (now : Int) : Std.TransCmp (compareProbePriority family now) := by
  have : Std.TransCmp fun l r : AccountRecord => compare r.poolPosition l.poolPosition :=
    @Std.TransCmp.opposite _ (compareOn AccountRecord.poolPosition) _
  have : Std.TransCmp fun l r : AccountRecord => compare r.accountId l.accountId :=
    @Std.TransCmp.opposite _ (compareOn AccountRecord.accountId) _
  unfold compareProbePriority
  infer_instance

theorem compareProbeCandidates_eq {family : LimitId}
    (hleft : (left.quota.effectiveQuota family).isSome)
    (hright : (right.quota.effectiveQuota family).isSome) :
    compareProbeCandidates family now left right = compareProbePriority family now left right := by
  obtain ⟨leftRow, hleft⟩ := Option.isSome_iff_exists.1 hleft
  obtain ⟨rightRow, hright⟩ := Option.isSome_iff_exists.1 hright
  have hswap : (compare left.poolPosition right.poolPosition).swap =
      compare right.poolPosition left.poolPosition := by
    rw [← Std.OrientedCmp.eq_swap]
  simp only [compareProbeCandidates, compareProbePriority, candidateProbePriority, compareLex,
    compareOn, hleft, hright, hswap, Option.map_some, Option.getD_some]

/-- The probe ranking compares the accounts last. -/
theorem accountId_eq_of_compareProbePriority {family : LimitId}
    (h : compareProbePriority family now left right = .eq) : left.accountId = right.accountId :=
  (Std.LawfulEqOrd.eq_of_compare (Ordering.then_eq_eq.1 h).2).symm

/-! ## Permuted candidates -/

/-- The candidates have distinct accounts, and none is left to be numbered. -/
structure Distinguished (candidates : List AccountRecord) : Prop where
  accounts : (candidates.map (·.accountId)).Nodup
  positions : ∀ c ∈ candidates, c.poolPosition ≠ 0

theorem Distinguished.perm (h : Distinguished candidates) (hperm : candidates.Perm candidates') :
    Distinguished candidates' :=
  ⟨(hperm.map _).nodup_iff.1 h.accounts, fun c hc => h.positions c (hperm.mem_iff.2 hc)⟩

theorem Distinguished.eq (h : Distinguished candidates) (hleft : left ∈ candidates)
    (hright : right ∈ candidates) (hid : left.accountId = right.accountId) : left = right :=
  List.inj_on_of_nodup_map h.accounts hleft hright hid

theorem rejected_perm (h : Distinguished candidates) (hperm : candidates.Perm candidates') :
    (admitCandidates request now candidates).rejected.Perm
      (admitCandidates request now candidates').rejected := by
  rw [admitCandidates_eq h.positions, admitCandidates_eq (h.perm hperm).positions]
  exact hperm.filterMap _

theorem rankEligible_perm (h : Distinguished candidates) (hperm : candidates.Perm candidates') :
    rankEligible request (admitCandidates request now candidates) =
      rankEligible request (admitCandidates request now candidates') := by
  rw [rankEligible_admitCandidates h.positions,
    rankEligible_admitCandidates (h.perm hperm).positions]
  refine sortBy_eq_of_perm (hperm.filter _) fun left hleft right hright heq => ?_
  exact h.eq (List.mem_filter.1 hleft).1 (List.mem_filter.1 hright).1
    (accountId_eq_of_compareOrdinary heq)

theorem Probeable.quota (h : Probeable request now c) :
    (c.quota.effectiveQuota request.family).isSome := by
  obtain ⟨row, hrow, -⟩ := classifyCandidate_eq_probeEligibleBlocked.1 h.2
  rw [hrow]
  rfl

/-- Blocked candidates have quota, so comparing their priorities ranks them. -/
theorem rankProbe_eq_priority (h : Distinguished candidates) :
    rankProbe request now (admitCandidates request now candidates) =
      maxBy (compareProbePriority request.family now)
        (candidates.filter (Probeable request now ·)) := by
  rw [rankProbe_admitCandidates h.positions]
  refine maxBy_congr fun left hleft right hright => ?_
  simp only [List.mem_filter, decide_eq_true_eq] at hleft hright
  exact compareProbeCandidates_eq hleft.2.quota hright.2.quota

theorem rankProbe_perm (h : Distinguished candidates) (hperm : candidates.Perm candidates') :
    rankProbe request now (admitCandidates request now candidates) =
      rankProbe request now (admitCandidates request now candidates') := by
  rw [rankProbe_eq_priority h, rankProbe_eq_priority (h.perm hperm)]
  refine maxBy_eq_of_perm (hperm.filter _) fun left hleft right hright heq => ?_
  exact h.eq (List.mem_filter.1 hleft).1 (List.mem_filter.1 hright).1
    (accountId_eq_of_compareProbePriority heq)

/-- A probe recovery admits its reserved target only. -/
theorem accountId_of_probeRecovery (hintent : request.intent = .probeRecovery)
    (h : hardRejectReason request c = none) :
    request.reservedProbeTargetAccountId = some c.accountId := by
  obtain ⟨henabled, hauth, hleased⟩ := hardRejectReason_eq_none h
  by_contra hne
  simp [hardRejectReason, henabled, hauth, hleased, hintent, SelectionIntent.isProbeRecovery,
    hne] at h

theorem admitted_perm (hintent : request.intent = .probeRecovery) (h : Distinguished candidates)
    (hperm : candidates.Perm candidates') :
    (admitCandidates request now candidates).admitted =
      (admitCandidates request now candidates').admitted := by
  rw [admitCandidates_eq h.positions, admitCandidates_eq (h.perm hperm).positions]
  have hfilter := hperm.filter (hardRejectReason request · = none)
  refine congrArg (List.map _)
    (@List.Perm.eq_of_pairwise _ (fun _ _ => True) _ _ ?_ ?_ ?_ hfilter)
  · intro left right hleft hright _ _
    simp only [List.mem_filter, decide_eq_true_eq] at hleft hright
    refine h.eq hleft.1 (hperm.mem_iff.2 hright.1) (Option.some.inj ?_)
    rw [← accountId_of_probeRecovery hintent hleft.2, accountId_of_probeRecovery hintent hright.2]
  all_goals exact List.pairwise_of_forall fun _ _ => trivial

/-- Plans that differ only in the order of their rejections. -/
structure SamePlan (plan plan' : SelectionPlan) : Prop where
  terminalAction : plan.terminalAction = plan'.terminalAction
  eligibleCandidates : plan.eligibleCandidates = plan'.eligibleCandidates
  probeCandidate : plan.probeCandidate = plan'.probeCandidate
  decisionReason : plan.decisionReason = plan'.decisionReason
  rejectedCandidates : plan.rejectedCandidates.Perm plan'.rejectedCandidates

/-- The rejections of a probe recovery without a target do not look at the order of those made
before. -/
theorem finalizeProbeRecovery_perm {acc acc' : Admission} (hadmitted : acc.admitted = acc'.admitted)
    (hrejected : acc.rejected.Perm acc'.rejected) :
    SamePlan (finalizeProbeRecovery acc) (finalizeProbeRecovery acc') := by
  unfold finalizeProbeRecovery
  rw [hadmitted]
  cases (acc'.admitted.find? (·.blockClass = .probeEligibleBlocked)).map (·.record.accountId) with
  | some accountId => exact ⟨rfl, rfl, rfl, rfl, hrejected⟩
  | none =>
    refine ⟨rfl, rfl, rfl, rfl, List.foldl_rel hrejected fun candidate _ rejected rejected' h => ?_⟩
    rw [h.any_eq]
    split
    · exact h
    · exact h.append_right _

theorem evaluateSelection_perm (hnow : request.now = some now) (h : Distinguished candidates)
    (hperm : candidates.Perm candidates') :
    SamePlan (evaluateSelection request utcNow candidates)
      (evaluateSelection request utcNow' candidates') := by
  have hrejected := @rejected_perm request now _ _ h hperm
  unfold evaluateSelection
  simp only [hnow, Option.getD_some]
  by_cases hintent : request.intent = .probeRecovery
  · simp only [hintent, SelectionIntent.isProbeRecovery, decide_true, if_true]
    exact finalizeProbeRecovery_perm (admitted_perm hintent h hperm) hrejected
  · have hordinary : request.intent.isProbeRecovery = false := by
      simpa [SelectionIntent.isProbeRecovery] using hintent
    simp only [hordinary, Bool.false_eq_true, if_false, rankEligible_perm h hperm,
      rankProbe_perm h hperm]
    generalize rankEligible request (admitCandidates request now candidates') = eligible
    cases request.preferredAccountId.bind fun accountId =>
        eligible.find? (·.accountId = accountId) with
    | some selected => exact ⟨rfl, rfl, rfl, rfl, hrejected⟩
    | none => cases eligible <;> exact ⟨rfl, rfl, rfl, rfl, hrejected⟩

/-! ## Selected accounts -/

/-- A candidate that may be selected is not one that the request excludes. -/
theorem hardRejectReason_eq_none_ordinary (hintent : request.intent ≠ .probeRecovery)
    (h : hardRejectReason request c = none) : request.currentAccountId ≠ some c.accountId ∧
      (request.intent ≠ .hardFailover → request.justReplacedAccountId ≠ some c.accountId) := by
  obtain ⟨henabled, hauth, hleased⟩ := hardRejectReason_eq_none h
  simp only [hardRejectReason, henabled, hauth, hleased, SelectionIntent.isProbeRecovery, hintent,
    SelectionIntent.allowsJustReplacedReuse] at h
  constructor
  · intro hcurrent
    simp [hcurrent] at h
  · intro hfailover hreplaced
    by_cases hcurrent : request.currentAccountId = some c.accountId <;>
      simp [hfailover, hreplaced, hcurrent] at h

/-- What the account of a selection is promised to be. -/
structure Choosable (request : SelectionRequest) (now : Int) (c : AccountRecord) : Prop where
  enabled : c.enabled = true
  authEligible : c.selectorAuthEligible = true
  unleased : c.leasedToOtherHolder = false
  notCurrent : request.currentAccountId ≠ some c.accountId
  notBlocked : (classifyCandidate c request.family now).isNotBlocked = true
  notReplaced : request.intent ≠ .hardFailover → request.justReplacedAccountId ≠ some c.accountId

theorem evaluateSelection_choosable {accountId : AccountId}
    (h : (evaluateSelection request utcNow candidates).terminalAction = .select accountId) :
    ∃ c ∈ candidates, c.accountId = accountId ∧
      Choosable request (request.now.getD utcNow) c := by
  obtain ⟨c, hc, hsel, hid⟩ := evaluateSelection_select h
  obtain ⟨henabled, hauth, hleased⟩ := hardRejectReason_eq_none hsel.1
  -- a probe recovery never selects
  have hintent : request.intent ≠ .probeRecovery := by
    intro hintent
    unfold evaluateSelection at h
    simp only [hintent, SelectionIntent.isProbeRecovery, decide_true, if_true,
      finalizeProbeRecovery] at h
    split at h <;> cases h
  obtain ⟨hcurrent, hreplaced⟩ := hardRejectReason_eq_none_ordinary hintent hsel.1
  exact ⟨c, hc, hid, henabled, hauth, hleased, hcurrent, hsel.2, hreplaced⟩

/-- **Account choice does not depend on candidate order**, and a selection names a candidate that
no rule excludes. -/
theorem evaluateSelection_order (hnow : request.now = some now) (h : Distinguished candidates) :
    (∀ candidates', candidates.Perm candidates' →
      SamePlan (evaluateSelection request utcNow candidates)
        (evaluateSelection request utcNow' candidates')) ∧
    ∀ accountId,
      (evaluateSelection request utcNow candidates).terminalAction = .select accountId →
        ∃ c ∈ candidates, c.accountId = accountId ∧ Choosable request now c := by
  refine ⟨fun candidates' hperm => evaluateSelection_perm hnow h hperm, fun accountId hsel => ?_⟩
  have hchoosable := evaluateSelection_choosable hsel
  rwa [hnow, Option.getD_some] at hchoosable

end

/-- Two accounts without quota, whichever comes first in the list. -/
theorem evaluateSelection_order_pair :
    let request : SelectionRequest := { now := some 0, intent := .startup }
    let account := fun (accountId : AccountId) poolPosition => AccountRecord.mk accountId true
      .chatGpt true true poolPosition false ⟨none, none⟩
    SamePlan (evaluateSelection request 0 [account "a" 1, account "b" 2])
        (evaluateSelection request 0 [account "b" 2, account "a" 1]) ∧
      (evaluateSelection request 0 [account "a" 1, account "b" 2]).terminalAction = .select "a" :=
  ⟨(evaluateSelection_order rfl ⟨by decide, by decide⟩).1 _ (.swap _ _ _), by decide +kernel⟩

end Mcodex.AccountPool
