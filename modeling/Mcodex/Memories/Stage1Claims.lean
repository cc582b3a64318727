import Mcodex.Memories.WorkersSpec
import Mathlib.Data.Finset.Card

/-!
# Claims of the first stage

An unexpired claim is that of the row of its thread. A row is claimed for a source that is newer
than the last success, so a success advances the watermark.
-/

namespace Mcodex.Memories

open Table Transition

section
variable {t t' : Workers} {db db' : Database} {threadId : ThreadId} {token : String}

theorem Stage1JobClaimOutcome.claims_of_skipped {outcome : Stage1JobClaimOutcome} {leaseUntil : Int}
    (h : ∀ token, outcome ≠ .claimed token) : outcome.claims threadId leaseUntil = ∅ := by
  cases outcome with
  | claimed token => exact absurd rfl (h token)
  | skippedUpToDate | skippedRunning | skippedRetryBackoff | skippedRetryExhausted => rfl

/-- The jobs of the first stage stay as they are, or one is claimed, or one is marked. -/
inductive Stage1Effect (t t' : Workers) : Prop
  | frame (hjobs : t'.db.stage1Jobs = t.db.stage1Jobs) (hclaims : t'.claims = t.claims)
    (hnow : t.now ≤ t'.now)
  | claimed {threadId : ThreadId} {token : String} {sourceUpdatedAt leaseSeconds : Int}
    {maxRunningJobs : Nat}
    (hclaimed : t.db.Stage1Claimed t.now token threadId sourceUpdatedAt leaseSeconds maxRunningJobs
      t'.db)
    (hclaims : t'.claims = t.claims ∪ {⟨threadId, token, leaseUntil t.now leaseSeconds⟩})
    (hnow : t'.now = t.now)
  | marked {threadId : ThreadId} {token : String}
    (hmarked : t.db.Stage1Marked threadId token t'.db)
    (hclaims : ∀ claim ∈ t'.claims, claim ∈ t.claims ∧
      ¬ (claim.threadId = threadId ∧ claim.token = token))
    (hnow : t'.now = t.now)

theorem Stage1Effect.of_mark {marked enqueued : Bool}
    (h : marked = false ∧ db = t.db ∨ marked = true ∧ t.db.Stage1Marked threadId token db) :
    Stage1Effect t ((t.commit db enqueued).mark threadId token marked) := by
  rcases h with ⟨rfl, rfl⟩ | ⟨rfl, hmarked⟩
  · refine .frame rfl (Finset.filter_true_of_mem fun claim _ hmarked => ?_) (Int.le_refl _)
    cases hmarked.1
  · refine .marked hmarked (fun claim hmem => ?_) rfl
    obtain ⟨hmem, hother⟩ := Finset.mem_filter.1 hmem
    exact ⟨hmem, fun howner => hother ⟨rfl, howner⟩⟩

theorem Works.stage1 {a : MemoryStep} (hstep : Works t a t') : Stage1Effect t t' := by
  cases hstep with
  | tick hnow => exact .frame rfl rfl hnow
  | tryClaimStage1Job _ hclaim =>
    rcases Database.tryClaimStage1Job_cases hclaim with ⟨rfl, hclaimed⟩ | ⟨hskipped, rfl⟩
    · exact .claimed hclaimed rfl rfl
    · refine .frame rfl ?_ (Int.le_refl _)
      rw [Stage1JobClaimOutcome.claims_of_skipped hskipped]
      exact Finset.union_empty _
  | markStage1JobSucceeded hmarked =>
    refine .of_mark ((Database.markStage1JobSucceeded_cases hmarked).imp_right ?_)
    exact fun ⟨hmarked, hjob, _⟩ => ⟨hmarked, hjob⟩
  | markStage1JobSucceededNoOutput hmarked =>
    refine .of_mark ((Database.markStage1JobSucceededNoOutput_cases hmarked).imp_right ?_)
    exact fun ⟨hmarked, hjob, _⟩ => ⟨hmarked, hjob⟩
  | markStage1JobFailed hmarked =>
    refine .of_mark ((Database.markStage1JobFailed_cases hmarked).imp_right ?_)
    exact fun ⟨hmarked, hjob, _⟩ => ⟨hmarked, hjob⟩
  | enqueueGlobalConsolidation | setThread | deleteThread | getPhase2InputSelection _ _
  | pruneStage1OutputsForRetention =>
    exact .frame rfl rfl (Int.le_refl _)
  | @recordStage1OutputUsage threadIds =>
    refine .frame ?_ rfl (Int.le_refl _)
    exact Database.recordStage1OutputUsage_induct
      (P := fun db => db.stage1Jobs = t.db.stage1Jobs) t.now threadIds rfl fun _ _ hjobs => hjobs
  | tryClaimGlobalPhase2Job _ hclaim =>
    refine .frame ?_ rfl (Int.le_refl _)
    rcases Database.tryClaimGlobalPhase2Job_cases hclaim with ⟨_, _, _, _, rfl, _⟩ | ⟨_, rfl⟩ <;> rfl
  | heartbeatGlobalPhase2Job hmark =>
    refine .frame ?_ rfl (Int.le_refl _)
    rcases Database.updateOwnedGlobal_cases hmark with ⟨_, rfl⟩ | ⟨_, _, _, _, rfl⟩ <;> rfl
  | markGlobalPhase2JobSucceeded hmark =>
    refine .frame ?_ rfl (Int.le_refl _)
    rcases Database.markGlobalPhase2JobSucceeded_cases hmark with ⟨_, rfl⟩ | ⟨_, _, _, _, rfl⟩ <;> rfl
  | markGlobalPhase2JobFailed hmark =>
    refine .frame ?_ rfl (Int.le_refl _)
    rcases Database.updateOwnedGlobal_cases hmark with ⟨_, rfl⟩ | ⟨_, _, _, _, rfl⟩ <;> rfl
  | markGlobalPhase2JobFailedIfUnowned hmark =>
    refine .frame ?_ rfl (Int.le_refl _)
    rcases Database.updateGlobal_cases hmark with ⟨_, rfl⟩ | ⟨_, _, _, _, _, rfl⟩ <;> rfl
  | markThreadMemoryModePolluted hmark =>
    refine .frame ?_ rfl (Int.le_refl _)
    rcases Database.markThreadMemoryModePolluted_cases hmark with ⟨_, rfl⟩ | ⟨_, hjobs, _⟩
    · rfl
    · exact hjobs

/-! ## The invariant -/

/-- An unexpired claim has the row of its thread, and a running row is ahead of its success. -/
structure Fenced (t : Workers) : Prop where
  unexpired : ∀ claim ∈ t.claims, t.now < claim.leaseUntil →
    ∃ job, t.db.stage1Jobs.lookup claim.threadId = some job ∧ job.ownedBy claim.token ∧
      job.leaseUntil = some claim.leaseUntil
  ahead : ∀ threadId job, t.db.stage1Jobs.lookup threadId = some job → job.status = .running →
    ∃ input, job.inputWatermark = some input ∧
      ∀ success, job.lastSuccessWatermark = some success → success ≤ input

namespace Fenced

theorem new : Fenced .new := ⟨fun _ hmem => (nomatch hmem), fun _ _ hlookup => nomatch hlookup⟩

/-- Other transactions leave the jobs and the claims alone, and time passes. -/
theorem frame (h : Fenced t) (hjobs : t'.db.stage1Jobs = t.db.stage1Jobs)
    (hclaims : t'.claims = t.claims) (hnow : t.now ≤ t'.now) : Fenced t' where
  unexpired claim hmem hlease := by
    rw [hjobs]
    exact h.unexpired claim (hclaims ▸ hmem) (lt_of_le_of_lt hnow hlease)
  ahead threadId job hlookup := h.ahead threadId job (hjobs ▸ hlookup)

theorem active (h : Fenced t) {claim : Stage1Claim} {job : Job} (hmem : claim ∈ t.claims)
    (hlease : t.now < claim.leaseUntil)
    (hlookup : t.db.stage1Jobs.lookup claim.threadId = some job) : job.active t.now = true := by
  obtain ⟨job', hlookup', howned, hlease'⟩ := h.unexpired claim hmem hlease
  cases hlookup.symm.trans hlookup'
  simp [Job.active, hlease', hlease, Job.running_of_ownedBy howned]

theorem claim (h : Fenced t) {sourceUpdatedAt leaseSeconds : Int} {maxRunningJobs : Nat}
    (hclaimed : t.db.Stage1Claimed t.now token threadId sourceUpdatedAt leaseSeconds maxRunningJobs
      db) :
    Fenced { t with
      db
      claims := t.claims ∪ {⟨threadId, token, leaseUntil t.now leaseSeconds⟩} } := by
  obtain ⟨job, rfl, hrunning, htoken, hlease, hinput, hlast⟩ := hclaimed.job
  refine ⟨fun claim hmem hunexpired => ?_, fun threadId' job' hlookup hrunning' => ?_⟩
  · show ∃ job', (t.db.stage1Jobs.insert threadId job).lookup claim.threadId = some job' ∧ _
    rw [lookup_insert]
    rcases Finset.mem_union.1 hmem with hmem | hmem
    · rw [if_neg]
      · exact h.unexpired claim hmem hunexpired
      · intro heq
        obtain ⟨job', hlookup, -⟩ := h.unexpired claim hmem hunexpired
        have hactive := h.active hmem hunexpired hlookup
        rw [heq] at hlookup
        exact Bool.noConfusion (hactive.symm.trans (hclaimed.inactive job' hlookup))
    · rw [Finset.mem_singleton.1 hmem, if_pos rfl]
      exact ⟨job, rfl, by simp [Job.ownedBy, hrunning, htoken], hlease⟩
  · have hlookup : (t.db.stage1Jobs.insert threadId job).lookup threadId' = some job' := hlookup
    rw [lookup_insert] at hlookup
    split at hlookup
    · cases hlookup
      refine ⟨sourceUpdatedAt, hinput, fun success hsuccess => ?_⟩
      rw [hlast] at hsuccess
      obtain ⟨job', hjob', hsuccess⟩ := Option.bind_eq_some_iff.1 hsuccess
      exact (hclaimed.success job' success hjob' hsuccess).le
    · exact h.ahead threadId' job' hlookup hrunning'

/-- The claim of the owner is dropped with its job. -/
theorem mark (h : Fenced t) (claims : Finset Stage1Claim)
    (hmarked : t.db.Stage1Marked threadId token db)
    (hclaims : ∀ claim ∈ claims, claim ∈ t.claims ∧
      ¬ (claim.threadId = threadId ∧ claim.token = token)) :
    Fenced { t with db, claims } := by
  obtain ⟨job, job', hjob, howned, hjobs, hended, -⟩ := hmarked.job
  refine ⟨fun claim hmem hunexpired => ?_, fun threadId' job'' hlookup hrunning => ?_⟩
  · obtain ⟨hmem, hother⟩ := hclaims claim hmem
    obtain ⟨job'', hlookup, howned'', hlease⟩ := h.unexpired claim hmem hunexpired
    refine ⟨job'', ?_, howned'', hlease⟩
    show db.stage1Jobs.lookup claim.threadId = some job''
    rw [hjobs, lookup_insert, if_neg]
    · exact hlookup
    · intro heq
      rw [heq] at hlookup
      cases hjob.symm.trans hlookup
      exact hother ⟨heq, Job.token_of_ownedBy howned'' howned⟩
  · have hlookup : db.stage1Jobs.lookup threadId' = some job'' := hlookup
    rw [hjobs, lookup_insert] at hlookup
    split at hlookup
    · cases hlookup
      exact absurd hrunning hended
    · exact h.ahead threadId' job'' hlookup hrunning

theorem step (h : Fenced t) (heffect : Stage1Effect t t') : Fenced t' := by
  cases heffect with
  | frame hjobs hclaims hnow => exact h.frame hjobs hclaims hnow
  | claimed hclaimed hclaims hnow => exact (h.claim hclaimed).frame rfl hclaims hnow.ge
  | marked hmarked hclaims hnow => exact (h.mark t'.claims hmarked hclaims).frame rfl rfl hnow.ge

theorem of_reach (h : workers.Reach t) : Fenced t := by
  refine h.invariant (fun t hinit => ?_) fun t a t' hfenced hstep => hfenced.step hstep.stage1
  cases hinit
  exact new

/-! ## Claims and rows -/

theorem one_claim (h : Fenced t) {claim claim' : Stage1Claim} (hmem : claim ∈ t.claims)
    (hmem' : claim' ∈ t.claims) (hthread : claim.threadId = claim'.threadId)
    (hlease : t.now < claim.leaseUntil) (hlease' : t.now < claim'.leaseUntil) : claim = claim' := by
  obtain ⟨job, hlookup, howned, hjob⟩ := h.unexpired claim hmem hlease
  obtain ⟨job', hlookup', howned', hjob'⟩ := h.unexpired claim' hmem' hlease'
  rw [hthread] at hlookup
  cases hlookup.symm.trans hlookup'
  obtain ⟨threadId, token, leaseUntil⟩ := claim
  obtain ⟨threadId', token', leaseUntil'⟩ := claim'
  cases hthread
  cases Job.token_of_ownedBy howned howned'
  cases hjob.symm.trans hjob'
  rfl

/-- The unexpired claims are at most as many as the active rows. -/
theorem card_unexpired_le (h : Fenced t) :
    (t.claims.filter (t.now < ·.leaseUntil)).card ≤ count (·.active t.now) t.db.stage1Jobs := by
  rw [← Finset.card_image_of_injOn (f := (·.threadId)) ?_]
  · refine card_le_count fun threadId hmem => ?_
    obtain ⟨claim, hclaim, rfl⟩ := Finset.mem_image.1 hmem
    obtain ⟨hclaim, hlease⟩ := Finset.mem_filter.1 hclaim
    obtain ⟨job, hlookup, -⟩ := h.unexpired claim hclaim hlease
    exact ⟨job, hlookup, h.active hclaim hlease hlookup⟩
  · intro claim hclaim claim' hclaim' hthread
    obtain ⟨hclaim, hlease⟩ := Finset.mem_filter.1 hclaim
    obtain ⟨hclaim', hlease'⟩ := Finset.mem_filter.1 hclaim'
    exact h.one_claim hclaim hclaim' hthread hlease hlease'

/-- A success advances the watermark. -/
theorem success_le (h : Fenced t) (heffect : Stage1Effect t t') {job : Job} {success : Int}
    (hjob : t.db.stage1Jobs.lookup threadId = some job)
    (hsuccess : job.lastSuccessWatermark = some success) :
    ∃ job' success', t'.db.stage1Jobs.lookup threadId = some job' ∧
      job'.lastSuccessWatermark = some success' ∧ success ≤ success' := by
  cases heffect with
  | frame hjobs _ _ => exact ⟨job, success, hjobs ▸ hjob, hsuccess, Int.le_refl _⟩
  | @claimed threadId' _ _ _ _ hclaimed _ _ =>
    obtain ⟨job', hdb, -, -, -, -, hlast⟩ := hclaimed.job
    rw [hdb]
    show ∃ job'' _, (t.db.stage1Jobs.insert threadId' job').lookup threadId = some job'' ∧ _
    rw [lookup_insert]
    split
    · rename_i heq
      rw [← heq, hjob] at hlast
      exact ⟨job', success, rfl, hlast.trans hsuccess, Int.le_refl _⟩
    · exact ⟨job, success, hjob, hsuccess, Int.le_refl _⟩
  | @marked threadId' _ hmarked _ _ =>
    obtain ⟨owned, job', howned, htoken, hjobs, -, hlast⟩ := hmarked.job
    rw [hjobs, lookup_insert]
    split
    · rename_i heq
      rw [← heq, hjob] at howned
      cases howned
      obtain ⟨input, hinput, hle⟩ := h.ahead threadId job hjob (Job.running_of_ownedBy htoken)
      rcases hlast with hlast | hlast
      · exact ⟨job', success, rfl, hlast.trans hsuccess, Int.le_refl _⟩
      · exact ⟨job', input, rfl, hlast.trans hinput, hle success hsuccess⟩
    · exact ⟨job, success, hjob, hsuccess, Int.le_refl _⟩

end Fenced

/-! ## Claims and marks -/

/-- A thread has one unexpired claim; a granted claim keeps the limit that it was given, and its
source is newer than the output and the success of the thread; a mark with another token than the
owner's is refused and changes nothing; and no step takes a success back. -/
structure Stage1Fenced (t : Workers) : Prop where
  oneClaim : ∀ claim ∈ t.claims, ∀ claim' ∈ t.claims, claim.threadId = claim'.threadId →
    t.now < claim.leaseUntil → t.now < claim'.leaseUntil → claim = claim'
  granted : ∀ token threadId sourceUpdatedAt leaseSeconds maxRunningJobs db t',
    t.db.tryClaimStage1Job t.now token threadId sourceUpdatedAt leaseSeconds maxRunningJobs =
      (db, .claimed token) →
    Works t (.tryClaimStage1Job token threadId sourceUpdatedAt leaseSeconds maxRunningJobs) t' →
    (t'.claims.filter (t'.now < ·.leaseUntil)).card ≤ maxRunningJobs ∧
      (∀ row, t.db.stage1Outputs.lookup threadId = some row →
        row.sourceUpdatedAt < sourceUpdatedAt) ∧
      ∀ job success, t.db.stage1Jobs.lookup threadId = some job →
        job.lastSuccessWatermark = some success → success < sourceUpdatedAt
  refused : ∀ threadId token, ¬ t.db.OwnsStage1 threadId token →
    (∀ sourceUpdatedAt rawMemory rolloutSummary rolloutSlug,
      t.db.markStage1JobSucceeded threadId token sourceUpdatedAt rawMemory rolloutSummary
        rolloutSlug = some (t.db, false)) ∧
    t.db.markStage1JobSucceededNoOutput threadId token = some (t.db, false) ∧
    ∀ retryDelaySeconds,
      t.db.markStage1JobFailed t.now threadId token retryDelaySeconds = (t.db, false)
  success : ∀ a t', Works t a t' → ∀ threadId job success,
    t.db.stage1Jobs.lookup threadId = some job → job.lastSuccessWatermark = some success →
    ∃ job' success', t'.db.stage1Jobs.lookup threadId = some job' ∧
      job'.lastSuccessWatermark = some success' ∧ success ≤ success'

theorem stage1_fenced (h : workers.Reach t) : Stage1Fenced t where
  oneClaim claim hmem claim' hmem' hthread := (Fenced.of_reach h).one_claim hmem hmem' hthread
  granted token threadId sourceUpdatedAt leaseSeconds maxRunningJobs db t' hclaim hstep := by
    rcases Database.tryClaimStage1Job_cases hclaim with ⟨-, hclaimed⟩ | ⟨hskipped, -⟩
    · refine ⟨?_, hclaimed.output, hclaimed.success⟩
      have hcard := (Fenced.of_reach (h.step hstep)).card_unexpired_le
      have hcount := hclaimed.running
      obtain ⟨job, rfl, -⟩ := hclaimed.job
      cases hstep with
      | tryClaimStage1Job _ hclaim' =>
        cases hclaim.symm.trans hclaim'
        have hinsert := count_insert (k := threadId) (·.active t.now) job t.db.stage1Jobs
        refine hcard.trans ?_
        show count (·.active t.now) (t.db.stage1Jobs.insert threadId job) ≤ maxRunningJobs
        rw [hinsert]
        split <;> omega
    · exact absurd rfl (hskipped token)
  refused threadId token howns := by
    refine ⟨fun _ _ _ _ => ?_, ?_, fun _ => ?_⟩
    · rw [Database.markStage1JobSucceeded, Database.updateOwnedStage1_eq_none howns]
    · rw [Database.markStage1JobSucceededNoOutput, Database.updateOwnedStage1_eq_none howns]
    · rw [Database.markStage1JobFailed, Database.updateOwnedStage1_eq_none howns]
  success _ _ hstep _ _ _ := (Fenced.of_reach h).success_le hstep.stage1

end

/-! ## A claim -/

theorem stage1_fenced_example :
    ∃ t : Workers, t.claims = {⟨"thread", "token", 3600⟩} ∧ Stage1Fenced t := by
  have hstep := @Works.tryClaimStage1Job .new "token" "thread" 100 3600 64 _ _ (by decide) rfl
  exact ⟨_, by decide, stage1_fenced (.step (.init rfl) hstep)⟩

end Mcodex.Memories
