import Mcodex.AccountPool.Selection

/-!
# What the selector chooses

The first loop of the selector rewrites positions, and nothing that decides between rejection,
selection and probing reads a position. So the terminal action of a plan is determined up to the
ranking by two predicates on the candidates as they came: `Selectable` and `Probeable`
(`evaluateSelection_cases`).
-/

namespace Mcodex.AccountPool

open Ranking

section
variable {request : SelectionRequest} {now utcNow : Int} {candidates : List AccountRecord}
  {c : AccountRecord}

/-! ## Admission -/

@[simp] theorem hardRejectReason_poolPosition (p : Nat) :
    hardRejectReason request { c with poolPosition := p } = hardRejectReason request c := rfl

@[simp] theorem classifyCandidate_poolPosition (family : LimitId) (p : Nat) :
    classifyCandidate { c with poolPosition := p } family now = classifyCandidate c family now :=
  rfl

theorem numberCandidate_eq (acc : Admission) (c : AccountRecord) :
    ∃ p, numberCandidate acc c = { c with poolPosition := p } := by
  unfold numberCandidate
  split
  · exact ⟨_, rfl⟩
  · exact ⟨c.poolPosition, rfl⟩

/-- An admitted candidate is a candidate that no rule rejects, renumbered and classified. -/
structure Admitted (request : SelectionRequest) (now : Int) (c : AccountRecord)
    (ranked : RankedCandidate) : Prop where
  record : ∃ p, ranked.record = { c with poolPosition := p }
  blockClass : ranked.blockClass = classifyCandidate c request.family now

theorem Admitted.accountId {ranked : RankedCandidate} (h : Admitted request now c ranked) :
    ranked.record.accountId = c.accountId := by
  obtain ⟨p, hp⟩ := h.record
  rw [hp]

/-- The candidates that the loop admits, in order. -/
theorem admitCandidate_foldl : ∀ (candidates : List AccountRecord) (acc : Admission),
    ∃ admitted, (candidates.foldl (admitCandidate request now) acc).admitted =
        acc.admitted ++ admitted ∧
      List.Forall₂ (Admitted request now)
        (candidates.filter (hardRejectReason request · = none)) admitted
  | [], acc => ⟨[], by simp, .nil⟩
  | c :: candidates, acc => by
    obtain ⟨admitted, hadm, hall⟩ :=
      admitCandidate_foldl candidates (admitCandidate request now acc c)
    obtain ⟨p, hp⟩ := numberCandidate_eq acc c
    rw [List.foldl_cons, hadm]
    cases hrej : hardRejectReason request c with
    | some reason =>
      refine ⟨admitted, ?_, by simpa [hrej] using hall⟩
      simp [admitCandidate, hp, hrej]
    | none =>
      refine ⟨⟨{ c with poolPosition := p }, classifyCandidate c request.family now⟩ :: admitted,
        ?_, ?_⟩
      · simp [admitCandidate, hp, hrej]
      · simpa [hrej] using ⟨⟨⟨p, rfl⟩, rfl⟩, hall⟩

theorem mem_admitted {ranked : RankedCandidate}
    (h : ranked ∈ (admitCandidates request now candidates).admitted) :
    ∃ c ∈ candidates, hardRejectReason request c = none ∧ Admitted request now c ranked := by
  obtain ⟨admitted, hadm, hall⟩ :=
    @admitCandidate_foldl request now candidates {}
  rw [admitCandidates, hadm, List.nil_append] at h
  obtain ⟨c, hc, hr⟩ := exists_of_mem_right hall h
  rw [List.mem_filter] at hc
  exact ⟨c, hc.1, by simpa using hc.2, hr⟩

theorem exists_admitted (hc : c ∈ candidates) (hrej : hardRejectReason request c = none) :
    ∃ ranked ∈ (admitCandidates request now candidates).admitted,
      Admitted request now c ranked := by
  obtain ⟨admitted, hadm, hall⟩ :=
    @admitCandidate_foldl request now candidates {}
  rw [admitCandidates, hadm, List.nil_append]
  exact exists_of_mem_left hall (List.mem_filter.2 ⟨hc, by simpa using hrej⟩)

/-! ## Ranking -/

/-- The ranking is a total preorder. -/
instance (request : SelectionRequest) : Std.TransCmp (compareOrdinary request) := by
  have hdesc {β : Type} [Ord β] [Std.TransOrd β] (f : AccountRecord → β) :
      Std.TransCmp fun l r => compare (f r) (f l) := @Std.TransCmp.opposite _ (compareOn f) _
  have hreset : Std.TransCmp compareResetAscending := {
    eq_swap := by
      intro a b
      cases a <;> cases b <;> first | rfl | exact @Std.OrientedCmp.eq_swap _ compare _ _ _
    isLE_trans := by
      intro a b c
      cases a <;> cases b <;> cases c <;>
        first | exact @Std.TransCmp.isLE_trans _ compare _ _ _ _ | simp [compareResetAscending] }
  let row := fun c : AccountRecord => c.quota.effectiveQuota request.family
  let below := fun c => decide (primaryUsedPercent (row c) < (request.proactiveThresholdPercent : ℚ))
  have heq : compareOrdinary request = compareLex (compareLex (compareLex (compareLex (compareLex
      (compareLex (fun l r => compare (below r) (below l))
      (fun l r => compare (primarySafetyMargin (row r)) (primarySafetyMargin (row l))))
      (fun l r => compare (secondarySafetyMargin (row r)) (secondarySafetyMargin (row l))))
      (fun l r => compareResetAscending (primaryReset (row l)) (primaryReset (row r))))
      (compareOn fun c => lowConfidence (row c)))
      (compareOn (·.poolPosition))) (compareOn (·.accountId)) := by
    funext l r
    simp only [compareLex, @Std.OrientedCmp.eq_swap _ compare _ (below r)]
    rfl
  have := hdesc below
  have := hdesc fun c => primarySafetyMargin (row c)
  have := hdesc fun c => secondarySafetyMargin (row c)
  have : Std.TransCmp fun l r : AccountRecord =>
    compareResetAscending (primaryReset (row l)) (primaryReset (row r)) := {
      eq_swap := fun {_ _} => @Std.OrientedCmp.eq_swap _ compareResetAscending _ _ _
      isLE_trans := fun {_ _ _} => @Std.TransCmp.isLE_trans _ compareResetAscending _ _ _ _ }
  rw [heq]
  infer_instance

/-- Candidates without quota rank by position and account. -/
theorem compareOrdinary_of_noQuota {left right : AccountRecord}
    (hleft : left.quota.effectiveQuota request.family = none)
    (hright : right.quota.effectiveQuota request.family = none) :
    compareOrdinary request left right =
      (compare left.poolPosition right.poolPosition).then
        (compare left.accountId right.accountId) := by
  simp [compareOrdinary, hleft, hright, compareDesc, compareResetAscending, primaryReset]

/-- The position of a candidate after the rewriting of zero positions, at index `i` among
candidates none of which is blocked. -/
def numberAt (i : Nat) (c : AccountRecord) : AccountRecord :=
  if c.poolPosition = 0 then { c with poolPosition := i } else c

/-- Without blocked candidates the running count that replaces a zero position is the index. -/
theorem admitCandidate_foldl_unblocked : ∀ (candidates : List AccountRecord) (acc : Admission),
    (∀ c ∈ candidates, (classifyCandidate c request.family now).isNotBlocked = true) →
    (∀ r ∈ acc.admitted, r.blockClass.isNotBlocked = true) →
    let i := acc.admitted.length + acc.rejected.length
    let acc' := candidates.foldl (admitCandidate request now) acc
    (∀ r ∈ acc'.admitted, r.blockClass.isNotBlocked = true) ∧
    acc'.admitted.map (·.record) = acc.admitted.map (·.record) ++
      ((candidates.zipIdx i).filter fun e => hardRejectReason request e.1 = none).map
        fun e => numberAt e.2 e.1
  | [], acc, _, hacc => ⟨hacc, by simp⟩
  | c :: candidates, acc, hopen, hacc => by
    have hc := hopen c List.mem_cons_self
    have hnum : numberCandidate acc c = numberAt (acc.admitted.length + acc.rejected.length) c :=
      rfl
    obtain ⟨p, hp⟩ := numberCandidate_eq acc c
    have hcnum : (classifyCandidate (numberCandidate acc c) request.family now).isNotBlocked :=
      by rw [hp]; exact hc
    have hrest := admitCandidate_foldl_unblocked candidates (admitCandidate request now acc c)
      fun c' hc' => hopen c' (List.mem_cons_of_mem _ hc')
    have hrejnum : hardRejectReason request (numberCandidate acc c) =
        hardRejectReason request c := by rw [hp]; rfl
    cases hrej : hardRejectReason request c with
    | some reason =>
      have hstep : admitCandidate request now acc c =
          { acc with rejected := acc.rejected ++ [⟨(numberCandidate acc c).accountId, reason⟩] } := by
        simp [admitCandidate, hrejnum, hrej]
      rw [hstep] at hrest
      simpa [hstep, List.zipIdx_cons, hrej, Nat.add_assoc] using hrest hacc
    | none =>
      have hstep : admitCandidate request now acc c = { acc with
          admitted := acc.admitted ++ [⟨numberCandidate acc c,
            classifyCandidate (numberCandidate acc c) request.family now⟩] } := by
        simp [admitCandidate, hrejnum, hrej, hcnum]
      rw [hstep] at hrest
      have := hrest (by simpa [or_imp, forall_and, hcnum] using hacc)
      simpa [hstep, List.zipIdx_cons, hrej, hnum, Nat.add_assoc, Nat.add_comm,
        Nat.add_left_comm] using this

/-! ## Terminal actions -/

/-- A candidate that may be selected. -/
def Selectable (request : SelectionRequest) (now : Int) (c : AccountRecord) : Prop :=
  hardRejectReason request c = none ∧
    (classifyCandidate c request.family now).isNotBlocked = true

/-- A candidate that may be probed. -/
def Probeable (request : SelectionRequest) (now : Int) (c : AccountRecord) : Prop :=
  hardRejectReason request c = none ∧
    classifyCandidate c request.family now = .probeEligibleBlocked

instance (request : SelectionRequest) (now : Int) : DecidablePred (Selectable request now) :=
  fun _ => inferInstanceAs (Decidable (_ ∧ _))

instance (request : SelectionRequest) (now : Int) : DecidablePred (Probeable request now) :=
  fun _ => inferInstanceAs (Decidable (_ ∧ _))

theorem mem_rankEligible {r : AccountRecord}
    (h : r ∈ rankEligible request (admitCandidates request now candidates)) :
    ∃ c ∈ candidates, Selectable request now c ∧ r.accountId = c.accountId := by
  simp only [rankEligible, mem_sortBy, List.mem_map, List.mem_filter] at h
  obtain ⟨ranked, ⟨hmem, hopen⟩, rfl⟩ := h
  obtain ⟨c, hc, hrej, hadm⟩ := mem_admitted hmem
  exact ⟨c, hc, ⟨hrej, hadm.blockClass ▸ hopen⟩, hadm.accountId⟩

theorem exists_mem_rankEligible (hc : c ∈ candidates) (hsel : Selectable request now c) :
    ∃ r ∈ rankEligible request (admitCandidates request now candidates),
      r.accountId = c.accountId := by
  obtain ⟨ranked, hmem, hadm⟩ := @exists_admitted _ now _ _ hc hsel.1
  refine ⟨ranked.record, ?_, hadm.accountId⟩
  simp only [rankEligible, mem_sortBy, List.mem_map, List.mem_filter]
  exact ⟨ranked, ⟨hmem, hadm.blockClass ▸ hsel.2⟩, rfl⟩

theorem rankEligible_eq_nil :
    rankEligible request (admitCandidates request now candidates) = [] ↔
      ∀ c ∈ candidates, ¬Selectable request now c := by
  constructor
  · intro hnil c hc hsel
    obtain ⟨r, hr, -⟩ := exists_mem_rankEligible hc hsel
    rw [hnil] at hr
    cases hr
  · intro hnone
    refine List.eq_nil_iff_forall_not_mem.2 fun r hr => ?_
    obtain ⟨c, hc, hsel, -⟩ := mem_rankEligible hr
    exact hnone c hc hsel

theorem rankProbe_eq_some {r : AccountRecord}
    (h : rankProbe request now (admitCandidates request now candidates) = some r) :
    ∃ c ∈ candidates, Probeable request now c ∧ r.accountId = c.accountId := by
  have hmem := mem_of_maxBy h
  simp only [List.mem_map, List.mem_filter, decide_eq_true_eq] at hmem
  obtain ⟨ranked, ⟨hmem, hclass⟩, rfl⟩ := hmem
  obtain ⟨c, hc, hrej, hadm⟩ := mem_admitted hmem
  exact ⟨c, hc, ⟨hrej, hadm.blockClass ▸ hclass⟩, hadm.accountId⟩

theorem rankProbe_eq_none :
    rankProbe request now (admitCandidates request now candidates) = none ↔
      ∀ c ∈ candidates, ¬Probeable request now c := by
  rw [rankProbe, maxBy_eq_none, List.map_eq_nil_iff, List.filter_eq_nil_iff]
  constructor
  · intro hnone c hc hprobe
    obtain ⟨ranked, hmem, hadm⟩ := @exists_admitted _ now _ _ hc hprobe.1
    exact hnone ranked hmem (by simpa using hadm.blockClass.trans hprobe.2)
  · intro hnone ranked hmem hclass
    obtain ⟨c, hc, hrej, hadm⟩ := mem_admitted hmem
    exact hnone c hc ⟨hrej, hadm.blockClass ▸ by simpa using hclass⟩

/-- What a plan can do, other than for a probe recovery. -/
inductive PlanOutcome (request : SelectionRequest) (now : Int) (candidates : List AccountRecord) :
    SelectionAction → Prop
  | select {c : AccountRecord} : c ∈ candidates → Selectable request now c →
      PlanOutcome request now candidates (.select c.accountId)
  | probe {c : AccountRecord} : (∀ c ∈ candidates, ¬Selectable request now c) → c ∈ candidates →
      Probeable request now c → PlanOutcome request now candidates (.probe c.accountId)
  | stayOnCurrent : request.intent = .softRotation →
      (∀ c ∈ candidates, ¬Selectable request now c) →
      (∀ c ∈ candidates, ¬Probeable request now c) →
      PlanOutcome request now candidates .stayOnCurrent
  | noCandidate : request.intent ≠ .softRotation →
      (∀ c ∈ candidates, ¬Selectable request now c) →
      (∀ c ∈ candidates, ¬Probeable request now c) →
      PlanOutcome request now candidates .noCandidate

/-- The preferred candidate among the eligible ones. -/
theorem preferred_cases {eligible : List AccountRecord} {r : AccountRecord}
    (h : (request.preferredAccountId.bind fun accountId =>
      eligible.find? (·.accountId = accountId)) = some r) :
    r ∈ eligible ∧ request.preferredAccountId = some r.accountId := by
  obtain ⟨accountId, hpref, hfind⟩ := Option.bind_eq_some_iff.1 h
  have hid : r.accountId = accountId := by simpa using List.find?_some hfind
  exact ⟨List.mem_of_find?_eq_some hfind, hid ▸ hpref⟩

theorem evaluateSelection_cases (hintent : request.intent ≠ .probeRecovery) :
    PlanOutcome request (request.now.getD utcNow) candidates
      (evaluateSelection request utcNow candidates).terminalAction := by
  have hprobe : request.intent.isProbeRecovery = false := by
    simpa [SelectionIntent.isProbeRecovery] using hintent
  unfold evaluateSelection
  simp only [hprobe, Bool.false_eq_true, if_false]
  split
  · rename_i selected hsel
    obtain ⟨c, hc, hcsel, hid⟩ := mem_rankEligible (preferred_cases hsel).1
    exact hid ▸ .select hc hcsel
  · rename_i selected rest hnone heq
    obtain ⟨c, hc, hcsel, hid⟩ := mem_rankEligible (heq ▸ List.mem_cons_self)
    exact hid ▸ .select hc hcsel
  · rename_i hnone heq
    have hsel := rankEligible_eq_nil.1 heq
    cases hp : rankProbe request (request.now.getD utcNow)
        (admitCandidates request (request.now.getD utcNow) candidates) with
    | some r =>
      obtain ⟨c, hc, hcp, hid⟩ := rankProbe_eq_some hp
      simpa [fallbackAction, hid] using PlanOutcome.probe hsel hc hcp
    | none =>
      have hnoprobe := rankProbe_eq_none.1 hp
      by_cases hsoft : request.intent = .softRotation
      · simpa [fallbackAction, SelectionIntent.staysOnCurrentWhenExhausted, hsoft] using
          PlanOutcome.stayOnCurrent hsoft hsel hnoprobe
      · simpa [fallbackAction, SelectionIntent.staysOnCurrentWhenExhausted, hsoft] using
          PlanOutcome.noCandidate hsoft hsel hnoprobe

/-- A preferred account that may be selected is selected. -/
theorem evaluateSelection_preferred (hintent : request.intent ≠ .probeRecovery)
    (hpref : request.preferredAccountId = some c.accountId) (hc : c ∈ candidates)
    (hsel : Selectable request (request.now.getD utcNow) c) :
    (evaluateSelection request utcNow candidates).terminalAction = .select c.accountId := by
  have hprobe : request.intent.isProbeRecovery = false := by
    simpa [SelectionIntent.isProbeRecovery] using hintent
  obtain ⟨r, hr, hid⟩ := exists_mem_rankEligible hc hsel
  obtain ⟨r', hr'⟩ : ∃ r', (rankEligible request (admitCandidates request
      (request.now.getD utcNow) candidates)).find? (·.accountId = c.accountId) = some r' :=
    Option.isSome_iff_exists.1 (List.find?_isSome.2 ⟨r, hr, by simpa using hid⟩)
  have hid' : r'.accountId = c.accountId := by simpa using List.find?_some hr'
  unfold evaluateSelection
  simp [hprobe, hpref, hr', hid']

/-- Without a preferred account the first candidate in the ranking is selected. -/
theorem evaluateSelection_eq_select (hintent : request.intent ≠ .probeRecovery)
    (hpref : request.preferredAccountId = none) {accountId : AccountId} :
    (evaluateSelection request utcNow candidates).terminalAction = .select accountId ↔
      ∃ r, (rankEligible request (admitCandidates request (request.now.getD utcNow)
        candidates)).head? = some r ∧ r.accountId = accountId := by
  have hprobe : request.intent.isProbeRecovery = false := by
    simpa [SelectionIntent.isProbeRecovery] using hintent
  unfold evaluateSelection
  simp only [hprobe, hpref, Bool.false_eq_true, if_false, Option.bind_none]
  cases rankEligible request (admitCandidates request (request.now.getD utcNow) candidates) with
  | nil =>
    simp only [fallbackAction]
    cases rankProbe request (request.now.getD utcNow)
        (admitCandidates request (request.now.getD utcNow) candidates) <;>
      cases request.intent.staysOnCurrentWhenExhausted <;> simp
  | cons selected rest => simp

/-- A selected account is that of a selectable candidate, whatever the intent. -/
theorem evaluateSelection_select {accountId : AccountId}
    (h : (evaluateSelection request utcNow candidates).terminalAction = .select accountId) :
    ∃ c ∈ candidates, Selectable request (request.now.getD utcNow) c ∧
      c.accountId = accountId := by
  by_cases hintent : request.intent = .probeRecovery
  · unfold evaluateSelection at h
    simp only [hintent, SelectionIntent.isProbeRecovery, decide_true, if_true,
      finalizeProbeRecovery] at h
    split at h <;> cases h
  · have hcases := @evaluateSelection_cases _ utcNow candidates hintent
    rw [h] at hcases
    cases hcases with
    | select hc hsel => exact ⟨_, hc, hsel, rfl⟩

/-- A probed account is that of a probeable candidate, whatever the intent. -/
theorem evaluateSelection_probe {accountId : AccountId}
    (h : (evaluateSelection request utcNow candidates).terminalAction = .probe accountId) :
    ∃ c ∈ candidates, Probeable request (request.now.getD utcNow) c ∧
      c.accountId = accountId := by
  by_cases hintent : request.intent = .probeRecovery
  · unfold evaluateSelection at h
    simp only [hintent, SelectionIntent.isProbeRecovery, decide_true, if_true,
      finalizeProbeRecovery] at h
    split at h
    · rename_i accountId' hfind
      cases h
      obtain ⟨ranked, hranked, rfl⟩ := Option.map_eq_some_iff.1 hfind
      obtain ⟨c, hc, hrej, hadm⟩ := mem_admitted (List.mem_of_find?_eq_some hranked)
      have hclass : ranked.blockClass = .probeEligibleBlocked := by
        simpa using List.find?_some hranked
      exact ⟨c, hc, ⟨hrej, hadm.blockClass ▸ hclass⟩, hadm.accountId.symm⟩
    · cases h
  · have hcases := @evaluateSelection_cases _ utcNow candidates hintent
    rw [h] at hcases
    cases hcases with
    | probe _ hc hprobe => exact ⟨_, hc, hprobe, rfl⟩

/-! ## Reasons -/

theorem hardRejectReason_eq_none (h : hardRejectReason request c = none) :
    c.enabled = true ∧ c.selectorAuthEligible = true ∧ c.leasedToOtherHolder = false := by
  unfold hardRejectReason at h
  cases henabled : c.enabled <;> cases hauth : c.selectorAuthEligible <;>
    cases hleased : c.leasedToOtherHolder <;> simp_all

theorem classifyCandidate_isNotBlocked {family : LimitId} :
    (classifyCandidate c family now).isNotBlocked = true ↔
      ∀ row ∈ c.quota.effectiveQuota family, row.exhaustedWindows = .none := by
  unfold classifyCandidate
  cases c.quota.effectiveQuota family with
  | none => simp [QuotaBlockClass.isNotBlocked]
  | some row =>
    cases hex : row.exhaustedWindows <;> cases hdue : row.nextProbeAfter.all (· ≤ now) <;>
      simp [QuotaExhaustedWindows.isExhausted, QuotaBlockClass.isNotBlocked, hex, hdue]

theorem classifyCandidate_eq_probeEligibleBlocked {family : LimitId} :
    classifyCandidate c family now = .probeEligibleBlocked ↔
      ∃ row, c.quota.effectiveQuota family = some row ∧ row.exhaustedWindows ≠ .none ∧
        ∀ next ∈ row.nextProbeAfter, next ≤ now := by
  unfold classifyCandidate
  cases c.quota.effectiveQuota family with
  | none => simp
  | some row =>
    cases hex : row.exhaustedWindows <;> cases hnext : row.nextProbeAfter <;>
      simp [QuotaExhaustedWindows.isExhausted, hex, hnext]

end

end Mcodex.AccountPool
