import Mcodex.AccountPool.Types
import Mcodex.Lib.Ranking

/-!
# The account selector

`evaluate_selection` of `account-pool/src/quota_selection.rs`, the quota-aware choice of an account
among the candidates of a pool. Candidates that may not be used at all are rejected; the others are
classified by their quota. The first unblocked candidate in the ordinary ranking is selected, else
the best candidate whose quota may be probed again is probed, else nothing is chosen.
-/

namespace Mcodex.AccountPool

open Ranking

/-! ## Requests, candidates and plans -/

/-- `SelectionIntent`. -/
inductive SelectionIntent where
  | startup
  | softRotation
  | hardFailover
  | probeRecovery
  deriving DecidableEq, Repr

namespace SelectionIntent

def allowsJustReplacedReuse (intent : SelectionIntent) : Bool := intent = .hardFailover

def staysOnCurrentWhenExhausted (intent : SelectionIntent) : Bool := intent = .softRotation

def isProbeRecovery (intent : SelectionIntent) : Bool := intent = .probeRecovery

end SelectionIntent

/-- `SelectionAction`: terminal action chosen by the selector. -/
inductive SelectionAction where
  | select (accountId : AccountId)
  | probe (accountId : AccountId)
  | stayOnCurrent
  | noCandidate
  deriving DecidableEq, Repr

/-- `SelectionRejectReason`. -/
inductive SelectionRejectReason where
  | disabled
  | unhealthy
  | leasedToOtherHolder
  | currentAccount
  | justReplacedAccount
  | predictedBlocked
  | probeTargetOnly
  deriving DecidableEq, Repr

/-- `SelectionDecisionReason`. -/
inductive SelectionDecisionReason where
  | ordinaryRanking
  | hardFailoverOverride
  | probeFallback
  | softRotationCurrentRetained
  | noCandidate
  deriving DecidableEq, Repr

/-- `QuotaFamilyView`: family-scoped quota facts for one candidate. -/
structure QuotaFamilyView where
  selection : Option AccountQuotaStateRecord
  codexFallback : Option AccountQuotaStateRecord
  deriving DecidableEq, Repr

/-- `QuotaFamilyView::effective_quota`; both branches of the source filter by the family. -/
def QuotaFamilyView.effectiveQuota (view : QuotaFamilyView) (selectionFamily : LimitId) :
    Option AccountQuotaStateRecord :=
  (view.selection.filter (·.limitId = selectionFamily)).or view.codexFallback

/-- `QuotaBlockClass`: soft-block classification for a hard-filtered candidate. -/
inductive QuotaBlockClass where
  | notBlocked (lowConfidence : Bool)
  | predictedBlocked
  | probeEligibleBlocked
  deriving DecidableEq, Repr

/-- `RejectedCandidate`. -/
structure RejectedCandidate where
  accountId : AccountId
  reason : SelectionRejectReason
  deriving DecidableEq, Repr

/-- `AccountKind`. -/
inductive AccountKind where
  | chatGpt
  | manualOnly
  deriving DecidableEq, Repr

/-- `AccountRecord`: one candidate. -/
structure AccountRecord where
  accountId : AccountId
  healthy : Bool
  kind : AccountKind
  enabled : Bool
  selectorAuthEligible : Bool
  poolPosition : Nat
  leasedToOtherHolder : Bool
  quota : QuotaFamilyView
  deriving DecidableEq, Repr

/-- `SelectionPlan`: full selector output. -/
structure SelectionPlan where
  eligibleCandidates : List AccountRecord
  probeCandidate : Option AccountId
  rejectedCandidates : List RejectedCandidate
  decisionReason : SelectionDecisionReason
  terminalAction : SelectionAction
  deriving DecidableEq, Repr

/-- `SelectionRequest`, its defaults those of `SelectionRequest::for_intent`. -/
structure SelectionRequest where
  now : Option Int := none
  poolId : Option PoolId := none
  intent : SelectionIntent
  selectionFamily : Option LimitId := none
  preferredAccountId : Option AccountId := none
  currentAccountId : Option AccountId := none
  justReplacedAccountId : Option AccountId := none
  reservedProbeTargetAccountId : Option AccountId := none
  proactiveThresholdPercent : Nat := 85
  deriving DecidableEq, Repr

/-- `SelectionRequest::selection_family`. -/
def SelectionRequest.family (request : SelectionRequest) : LimitId :=
  request.selectionFamily.getD "codex"

/-! ## Classification -/

/-- `hard_reject_reason`. -/
def hardRejectReason (request : SelectionRequest) (candidate : AccountRecord) :
    Option SelectionRejectReason :=
  if candidate.enabled = false then some .disabled
  else if candidate.selectorAuthEligible = false then some .unhealthy
  else if candidate.leasedToOtherHolder then some .leasedToOtherHolder
  else if request.intent.isProbeRecovery then
    if request.reservedProbeTargetAccountId ≠ some candidate.accountId then some .probeTargetOnly
    else none
  else if request.currentAccountId = some candidate.accountId then some .currentAccount
  else if request.intent.allowsJustReplacedReuse = false ∧
      request.justReplacedAccountId = some candidate.accountId then some .justReplacedAccount
  else none

/-- `is_low_confidence`. -/
def isLowConfidence (row : AccountQuotaStateRecord) : Bool :=
  row.primaryUsedPercent.isNone || row.primaryResetsAt.isNone ||
    row.secondaryUsedPercent.isNone || row.secondaryResetsAt.isNone

/-- `classify_candidate`. -/
def classifyCandidate (candidate : AccountRecord) (selectionFamily : LimitId) (now : Int) :
    QuotaBlockClass :=
  match candidate.quota.effectiveQuota selectionFamily with
  | none => .notBlocked true
  | some row =>
    if row.exhaustedWindows.isExhausted then
      if row.nextProbeAfter.all (· ≤ now) then .probeEligibleBlocked else .predictedBlocked
    else .notBlocked (isLowConfidence row)

/-- `matches!(block_class, QuotaBlockClass::NotBlocked { .. })`. -/
def QuotaBlockClass.isNotBlocked : QuotaBlockClass → Bool
  | .notBlocked _ => true
  | _ => false

/-! ## Ranking -/

/-- `low_confidence`. -/
def lowConfidence (row : Option AccountQuotaStateRecord) : Bool := row.all isLowConfidence

/-- `primary_used_percent`. -/
def primaryUsedPercent (row : Option AccountQuotaStateRecord) : ℚ :=
  (row.bind (·.primaryUsedPercent)).getD 100

/-- `primary_safety_margin`. -/
def primarySafetyMargin (row : Option AccountQuotaStateRecord) : ℚ := 100 - primaryUsedPercent row

/-- `secondary_safety_margin`. -/
def secondarySafetyMargin (row : Option AccountQuotaStateRecord) : ℚ :=
  100 - (row.bind (·.secondaryUsedPercent)).getD 100

/-- `primary_reset`. -/
def primaryReset (row : Option AccountQuotaStateRecord) : Option Int :=
  row.bind (·.primaryResetsAt)

/-- `compare_f64_desc`. -/
def compareDesc (left right : ℚ) : Ordering := compare right left

/-- `compare_reset_ascending`: a known reset before an unknown one. -/
def compareResetAscending : Option Int → Option Int → Ordering
  | some left, some right => compare left right
  | some _, none => .lt
  | none, some _ => .gt
  | none, none => .eq

/-- `compare_ordinary`. -/
def compareOrdinary (request : SelectionRequest) (left right : AccountRecord) : Ordering :=
  let row := fun c : AccountRecord => c.quota.effectiveQuota request.family
  let belowThreshold := fun c =>
    decide (primaryUsedPercent (row c) < (request.proactiveThresholdPercent : ℚ))
  ((((((compare (belowThreshold left) (belowThreshold right)).swap.then
    (compareDesc (primarySafetyMargin (row left)) (primarySafetyMargin (row right)))).then
    (compareDesc (secondarySafetyMargin (row left)) (secondarySafetyMargin (row right)))).then
    (compareResetAscending (primaryReset (row left)) (primaryReset (row right)))).then
    (compare (lowConfidence (row left)) (lowConfidence (row right)))).then
    (compare left.poolPosition right.poolPosition)).then
    (compare left.accountId right.accountId)

/-- `i64::MAX`, the staleness of a probe that was never made. -/
def i64Max : Int := 9223372036854775807

/-- `i64::MIN`, the recovery of an account that predicts none. -/
def i64Min : Int := -9223372036854775808

/-- `TimeDelta::num_seconds`: whole seconds, rounded towards zero. -/
def numSeconds (delta : Int) : Int := delta.tdiv 1000000000

/-- `probe_priority`: which window is exhausted, how stale its probe is, how near its recovery. -/
def probePriority (row : AccountQuotaStateRecord) (now : Int) : Int × Int × Int :=
  (match row.exhaustedWindows with
    | .primary => 3
    | .both => 2
    | .secondary => 1
    | .unknown | .none => 0,
    match row.nextProbeAfter with
    | some nextProbeAfter => max (numSeconds (now - nextProbeAfter)) 0
    | none => i64Max,
    match row.predictedBlockedUntil with
    | some predictedBlockedUntil => -numSeconds (predictedBlockedUntil - now)
    | none => i64Min)

/-- `compare_probe_candidates`. -/
def compareProbeCandidates (selectionFamily : LimitId) (now : Int) (left right : AccountRecord) :
    Ordering :=
  match left.quota.effectiveQuota selectionFamily, right.quota.effectiveQuota selectionFamily with
  | some leftRow, some rightRow =>
    let (leftKind, leftStale, leftRecovery) := probePriority leftRow now
    let (rightKind, rightStale, rightRecovery) := probePriority rightRow now
    (((((compare leftKind rightKind).then (compare leftStale rightStale)).then
      (compare leftRecovery rightRecovery)).then
      (compare left.poolPosition right.poolPosition).swap).then
      (compare right.accountId left.accountId))
  | _, _ => .eq

/-! ## Selection -/

/-- `RankedCandidate`. -/
structure RankedCandidate where
  record : AccountRecord
  blockClass : QuotaBlockClass
  deriving DecidableEq, Repr

/-- The two lists that the first loop of `evaluate_selection` fills. -/
structure Admission where
  rejected : List RejectedCandidate := []
  admitted : List RankedCandidate := []
  deriving DecidableEq, Repr

/-- The candidate with a position of zero replaced by the number of entries made so far. -/
def numberCandidate (acc : Admission) (candidate : AccountRecord) : AccountRecord :=
  if candidate.poolPosition = 0 then
    { candidate with poolPosition := acc.admitted.length + acc.rejected.length }
  else candidate

/-- One round of the first loop of `evaluate_selection`. A blocked candidate is admitted, and
entered among the rejected ones too. -/
def admitCandidate (request : SelectionRequest) (now : Int) (acc : Admission)
    (candidate : AccountRecord) : Admission :=
  let candidate := numberCandidate acc candidate
  match hardRejectReason request candidate with
  | some reason => { acc with rejected := acc.rejected ++ [⟨candidate.accountId, reason⟩] }
  | none =>
    let blockClass := classifyCandidate candidate request.family now
    { rejected :=
        if blockClass.isNotBlocked then acc.rejected
        else acc.rejected ++ [⟨candidate.accountId, .predictedBlocked⟩]
      admitted := acc.admitted ++ [⟨candidate, blockClass⟩] }

/-- The first loop of `evaluate_selection`. -/
def admitCandidates (request : SelectionRequest) (now : Int) (candidates : List AccountRecord) :
    Admission :=
  candidates.foldl (admitCandidate request now) {}

/-- `finalize_probe_recovery`. -/
def finalizeProbeRecovery (acc : Admission) : SelectionPlan :=
  let probeCandidate :=
    (acc.admitted.find? (·.blockClass = .probeEligibleBlocked)).map (·.record.accountId)
  -- without a probe target, the admitted candidates not rejected yet are rejected too
  let rejected :=
    if probeCandidate.isNone then
      acc.admitted.foldl (fun rejected candidate =>
        if candidate.blockClass = .probeEligibleBlocked ∨
            rejected.any (·.accountId = candidate.record.accountId) then rejected
        else rejected ++ [⟨candidate.record.accountId,
          if candidate.blockClass = .predictedBlocked then .predictedBlocked
          else .probeTargetOnly⟩]) acc.rejected
    else acc.rejected
  match probeCandidate with
  | some accountId => ⟨[], some accountId, rejected, .probeFallback, .probe accountId⟩
  | none => ⟨[], none, rejected, .noCandidate, .noCandidate⟩

/-- The unblocked candidates, best first. -/
def rankEligible (request : SelectionRequest) (acc : Admission) : List AccountRecord :=
  sortBy (compareOrdinary request)
    ((acc.admitted.filter (·.blockClass.isNotBlocked)).map (·.record))

/-- The blocked candidate that is best probed. -/
def rankProbe (request : SelectionRequest) (now : Int) (acc : Admission) : Option AccountRecord :=
  maxBy (compareProbeCandidates request.family now)
    ((acc.admitted.filter (·.blockClass = .probeEligibleBlocked)).map (·.record))

/-- The action of a request, other than a probe recovery, with nothing to select. -/
def fallbackAction (request : SelectionRequest) (probeCandidate : Option AccountId) :
    SelectionAction × SelectionDecisionReason :=
  match probeCandidate with
  | some accountId => (.probe accountId, .probeFallback)
  | none =>
    if request.intent.staysOnCurrentWhenExhausted then
      (.stayOnCurrent, .softRotationCurrentRetained)
    else (.noCandidate, .noCandidate)

/-- `evaluate_selection`; `utcNow` is the clock reading made for a request without a time. -/
def evaluateSelection (request : SelectionRequest) (utcNow : Int)
    (candidates : List AccountRecord) : SelectionPlan :=
  let now := request.now.getD utcNow
  let acc := admitCandidates request now candidates
  if request.intent.isProbeRecovery then finalizeProbeRecovery acc
  else
    let eligible := rankEligible request acc
    let preferred := request.preferredAccountId.bind fun accountId =>
      eligible.find? (·.accountId = accountId)
    match preferred, eligible with
    | some selected, _ => {
        eligibleCandidates := selected :: eligible.erase selected
        probeCandidate := none
        rejectedCandidates := acc.rejected
        decisionReason := .ordinaryRanking
        terminalAction := .select selected.accountId }
    | none, selected :: _ => {
        eligibleCandidates := eligible
        probeCandidate := none
        rejectedCandidates := acc.rejected
        decisionReason :=
          if request.intent.allowsJustReplacedReuse ∧
              request.justReplacedAccountId = some selected.accountId then .hardFailoverOverride
          else .ordinaryRanking
        terminalAction := .select selected.accountId }
    | none, [] =>
      let probeCandidate := (rankProbe request now acc).map (·.accountId)
      let (terminalAction, decisionReason) := fallbackAction request probeCandidate
      ⟨eligible, probeCandidate, acc.rejected, decisionReason, terminalAction⟩

end Mcodex.AccountPool
