import Mcodex.Memories.WorkersSpec

/-!
# The consolidation and its wake-ups

The job is dirty while its input is ahead of its last success. An enqueue raises the input beyond
all that was enqueued before, and so beyond the watermark of a run that selected its inputs before.
-/

namespace Mcodex.Memories

open Table Transition

section
variable {t t' : Workers} {db db' : Database} {threadId : ThreadId} {token : String} {job : Job}

/-! ## Effects of the steps -/

/-- Rows keep their source, or are deleted. -/
def KeepsSources (outputs outputs' : Keyed ThreadId Stage1Row) : Prop :=
  ∀ threadId row', outputs'.lookup threadId = some row' →
    ∃ row, outputs.lookup threadId = some row ∧ row.sourceUpdatedAt = row'.sourceUpdatedAt

namespace KeepsSources

variable {outputs outputs' : Keyed ThreadId Stage1Row}

theorem refl (outputs : Keyed ThreadId Stage1Row) : KeepsSources outputs outputs :=
  fun _ row hlookup => ⟨row, hlookup, rfl⟩

theorem trans {outputs'' : Keyed ThreadId Stage1Row} (h : KeepsSources outputs outputs')
    (h' : KeepsSources outputs' outputs'') : KeepsSources outputs outputs'' := by
  intro threadId row'' hlookup
  obtain ⟨row', hlookup, hsource'⟩ := h' threadId row'' hlookup
  obtain ⟨row, hlookup, hsource⟩ := h threadId row' hlookup
  exact ⟨row, hlookup, hsource.trans hsource'⟩

theorem eraseAll (threadIds : List ThreadId) :
    KeepsSources outputs (eraseAll threadIds outputs) := by
  intro threadId row hlookup
  rw [lookup_eraseAll] at hlookup
  split at hlookup
  · cases hlookup
  · exact ⟨row, hlookup, rfl⟩

theorem erase (threadId : ThreadId) : KeepsSources outputs (outputs.erase threadId) :=
  eraseAll [threadId]

theorem updateKey {f : Stage1Row → Stage1Row}
    (hf : ∀ row, (f row).sourceUpdatedAt = row.sourceUpdatedAt) :
    KeepsSources outputs (updateKey threadId f outputs) := by
  intro threadId' row hlookup
  rw [lookup_updateKey] at hlookup
  split at hlookup
  · obtain ⟨row, hrow, rfl⟩ := Option.map_eq_some_iff.1 hlookup
    exact ⟨row, hrow, (hf row).symm⟩
  · exact ⟨row, hlookup, rfl⟩

theorem selectSnapshots (selectedOutputs : List Stage1Output) :
    KeepsSources outputs (Database.selectSnapshots outputs selectedOutputs) := by
  intro threadId row hlookup
  rw [Database.lookup_selectSnapshots] at hlookup
  obtain ⟨row, hrow, rfl⟩ := Option.map_eq_some_iff.1 hlookup
  exact ⟨row, hrow, (Database.foldl_selectSnapshot _ row.unselect).1.symm⟩

/-- An upsert stores a new row, or leaves the row of the thread. -/
theorem upsertStage1Output {sourceUpdatedAt : Int} {rawMemory rolloutSummary : String}
    {rolloutSlug : Option String} {threadId' : ThreadId} {row' : Stage1Row}
    (hlookup : (Database.upsertStage1Output outputs threadId sourceUpdatedAt rawMemory rolloutSummary
      rolloutSlug).lookup threadId' = some row') :
    row'.sourceUpdatedAt = sourceUpdatedAt ∨ ∃ row, outputs.lookup threadId' = some row ∧
      row.sourceUpdatedAt = row'.sourceUpdatedAt := by
  have hinsert : ∀ row, row.sourceUpdatedAt = sourceUpdatedAt →
      (outputs.insert threadId row).lookup threadId' = some row' →
      row'.sourceUpdatedAt = sourceUpdatedAt ∨ ∃ row, outputs.lookup threadId' = some row ∧
        row.sourceUpdatedAt = row'.sourceUpdatedAt := by
    intro row hsource hlookup
    rw [lookup_insert] at hlookup
    split at hlookup
    · cases hlookup
      exact .inl hsource
    · exact .inr ⟨row', hlookup, rfl⟩
  rw [Database.upsertStage1Output] at hlookup
  split at hlookup
  · split at hlookup
    · exact hinsert _ rfl hlookup
    · exact .inr ⟨row', hlookup, rfl⟩
  · exact hinsert _ rfl hlookup

end KeepsSources

theorem Phase2JobClaimOutcome.runs_of_skipped {outcome : Phase2JobClaimOutcome}
    {runs : Keyed String Phase2Run} {leaseUntil : Int}
    (h : ∀ token watermark, outcome ≠ .claimed token watermark) :
    outcome.runs runs leaseUntil = runs := by
  cases outcome with
  | claimed token watermark => exact absurd rfl (h token watermark)
  | skippedNotDirty | skippedRunning => rfl

/-- What a step does to the consolidation: a run is claimed, kept alive, reads its selection or
ends, or the consolidation is enqueued. -/
inductive GlobalEffect (t t' : Workers) : Prop
  | frame (hjob : t'.db.globalJob = t.db.globalJob) (hruns : t'.runs = t.runs)
    (henqueues : t'.enqueues = t.enqueues) (hnow : t.now ≤ t'.now)
    (houtputs : KeepsSources t.db.stage1Outputs t'.db.stage1Outputs)
  | enqueued {inputWatermark : Int}
    (hjob : t'.db.globalJob = (t.db.enqueueGlobalConsolidation inputWatermark).globalJob)
    (hruns : t'.runs = t.runs) (henqueues : t'.enqueues = t.enqueues + 1) (hnow : t'.now = t.now)
    (houtputs : ∀ threadId row', t'.db.stage1Outputs.lookup threadId = some row' →
      row'.sourceUpdatedAt = inputWatermark ∨ ∃ row,
        t.db.stage1Outputs.lookup threadId = some row ∧
          row.sourceUpdatedAt = row'.sourceUpdatedAt)
  | claimed {job : Job} {token : String} {leaseSeconds : Int} (hjob : t.db.globalJob = some job)
    (hdirty : job.lastSuccess < job.input) (hinactive : job.active t.now = false)
    (hjob' : t'.db.globalJob = some (job.claimGlobal t.now token leaseSeconds))
    (hruns : t'.runs = t.runs.insert token ⟨job.input, leaseUntil t.now leaseSeconds, none⟩)
    (henqueues : t'.enqueues = t.enqueues) (hnow : t'.now = t.now)
    (houtputs : KeepsSources t.db.stage1Outputs t'.db.stage1Outputs)
  | heartbeat {job : Job} {token : String} {leaseUntil : Int} (hjob : t.db.globalJob = some job)
    (howned : job.ownedBy token = true)
    (hjob' : t'.db.globalJob = some { job with leaseUntil := some leaseUntil })
    (hruns : t'.runs = updateKey token (fun run => { run with leaseUntil }) t.runs)
    (henqueues : t'.enqueues = t.enqueues) (hnow : t'.now = t.now)
    (houtputs : KeepsSources t.db.stage1Outputs t'.db.stage1Outputs)
  | read {token : String} {run : Phase2Run} {selected : List Stage1Output}
    (hrun : t.runs.lookup token = some run)
    (hselected : ∀ output ∈ selected, ∃ row,
      t.db.stage1Outputs.lookup output.threadId = some row ∧
        row.sourceUpdatedAt = output.sourceUpdatedAt)
    (hjob : t'.db.globalJob = t.db.globalJob)
    (hruns : t'.runs = t.runs.insert token { run with read := some ⟨selected, t.enqueues⟩ })
    (henqueues : t'.enqueues = t.enqueues) (hnow : t'.now = t.now)
    (houtputs : KeepsSources t.db.stage1Outputs t'.db.stage1Outputs)
  | ended {job job' : Job} {token : String} (hjob : t.db.globalJob = some job)
    (htoken : job.ownershipToken = some token ∨ job.ownershipToken = none)
    (hjob' : t'.db.globalJob = some job') (hstopped : job'.status ≠ .running)
    (hinput : job'.input = job.input) (hruns : t'.runs = t.runs.erase token)
    (henqueues : t'.enqueues = t.enqueues) (hnow : t'.now = t.now)
    (houtputs : KeepsSources t.db.stage1Outputs t'.db.stage1Outputs)

theorem GlobalEffect.of_end (accepts : Job → Bool) (f : Job → Job) {marked : Bool}
    {outputs : Keyed ThreadId Stage1Row} {lastSelected : List Stage1Output} {kept : Finset ThreadId}
    (hmark : marked = false ∧ db = t.db ∨ marked = true ∧ ∃ job, t.db.globalJob = some job ∧
      accepts job = true ∧ db = { t.db with globalJob := some (f job), stage1Outputs := outputs })
    (haccepts : ∀ job, accepts job = true →
      job.ownershipToken = some token ∨ job.ownershipToken = none)
    (hstopped : ∀ job, (f job).status ≠ .running) (hinput : ∀ job, (f job).input = job.input)
    (houtputs : KeepsSources t.db.stage1Outputs outputs) :
    GlobalEffect t ({ t.commit db false with lastSelected, kept }.endRun token marked) := by
  rcases hmark with ⟨rfl, rfl⟩ | ⟨rfl, job, hjob, haccepted, rfl⟩
  · exact .frame rfl rfl rfl (Int.le_refl _) (.refl _)
  · exact .ended hjob (haccepts job haccepted) rfl (hstopped job) (hinput job) rfl rfl rfl houtputs

theorem Job.ownershipToken_of_ownedBy (h : job.ownedBy token = true) :
    job.ownershipToken = some token := by
  simp only [ownedBy, Bool.and_eq_true, decide_eq_true_eq] at h
  exact h.2

theorem Works.global {a : MemoryStep} (hstep : Works t a t') : GlobalEffect t t' := by
  cases hstep with
  | tick hnow => exact .frame rfl rfl rfl hnow (.refl _)
  | tryClaimStage1Job _ hclaim =>
    rcases Database.tryClaimStage1Job_cases hclaim with ⟨-, hclaimed⟩ | ⟨-, rfl⟩
    · obtain ⟨_, rfl, -⟩ := hclaimed.job
      exact .frame rfl rfl rfl (Int.le_refl _) (.refl _)
    · exact .frame rfl rfl rfl (Int.le_refl _) (.refl _)
  | markStage1JobSucceeded hmarked =>
    rcases Database.markStage1JobSucceeded_cases hmarked with ⟨rfl, rfl⟩ |
      ⟨rfl, -, hjob, houtputs, -⟩
    · exact .frame rfl rfl rfl (Int.le_refl _) (.refl _)
    · refine .enqueued hjob rfl rfl rfl fun threadId row' hlookup => ?_
      exact KeepsSources.upsertStage1Output (houtputs ▸ hlookup)
  | @markStage1JobSucceededNoOutput threadId _ _ _ hmarked =>
    rcases Database.markStage1JobSucceededNoOutput_cases hmarked with ⟨rfl, rfl⟩ |
      ⟨rfl, -, houtputs, -, hjob⟩
    · exact .frame rfl rfl rfl (Int.le_refl _) (.refl _)
    · split at hjob
      · rename_i hmem
        obtain ⟨_, hjob⟩ := hjob
        refine .enqueued hjob rfl ?_ rfl fun threadId row' hlookup => .inr ?_
        · simp [Workers.mark, Workers.commit, hmem]
        · exact KeepsSources.erase _ threadId row' (houtputs ▸ hlookup)
      · rename_i hmem
        refine .frame hjob rfl ?_ (Int.le_refl _) fun threadId row' hlookup => ?_
        · simp [Workers.mark, Workers.commit, hmem]
        · exact KeepsSources.erase _ threadId row' (houtputs ▸ hlookup)
  | markStage1JobFailed hmarked =>
    rcases Database.markStage1JobFailed_cases hmarked with
      ⟨rfl, rfl⟩ | ⟨rfl, -, hjob, houtputs, -⟩
    · exact .frame rfl rfl rfl (Int.le_refl _) (.refl _)
    · exact .frame hjob rfl rfl (Int.le_refl _) fun _ row' hlookup => ⟨row', houtputs ▸ hlookup, rfl⟩
  | enqueueGlobalConsolidation =>
    exact .enqueued rfl rfl rfl rfl fun _ row' hlookup => .inr ⟨row', hlookup, rfl⟩
  | tryClaimGlobalPhase2Job _ hclaim =>
    rcases Database.tryClaimGlobalPhase2Job_cases hclaim with
      ⟨job, hjob, hdirty, hinactive, rfl, rfl⟩ | ⟨hskipped, rfl⟩
    · exact .claimed hjob hdirty hinactive rfl rfl rfl rfl (.refl _)
    · exact .frame rfl (Phase2JobClaimOutcome.runs_of_skipped hskipped) rfl (Int.le_refl _) (.refl _)
  | heartbeatGlobalPhase2Job hmarked =>
    rcases Database.updateOwnedGlobal_cases hmarked with ⟨rfl, rfl⟩ | ⟨rfl, job, hjob, howned, rfl⟩
    · exact .frame rfl rfl rfl (Int.le_refl _) (.refl _)
    · exact .heartbeat hjob howned rfl rfl rfl rfl (.refl _)
  | getPhase2InputSelection hrun hread =>
    exact .read hrun (fun _ => Database.mem_selected) rfl rfl rfl rfl (.refl _)
  | markGlobalPhase2JobSucceeded hmarked =>
    refine .of_end _ _ (Database.markGlobalPhase2JobSucceeded_cases hmarked)
      (fun _ howned => .inl (Job.ownershipToken_of_ownedBy howned)) (fun _ => ?_) (fun _ => rfl)
      (.selectSnapshots _)
    exact JobStatus.noConfusion
  | markGlobalPhase2JobFailed hmarked =>
    refine .of_end _ _ (Database.updateOwnedGlobal_cases hmarked)
      (fun _ howned => .inl (Job.ownershipToken_of_ownedBy howned)) (fun _ => ?_) (fun _ => rfl)
      (.refl _)
    exact JobStatus.noConfusion
  | @markGlobalPhase2JobFailedIfUnowned token retryDelaySeconds _ _ hmarked =>
    refine .of_end (fun job => job.ownershipToken = some token || job.ownershipToken = none)
      (·.fail t.now retryDelaySeconds) ((Database.updateGlobal_cases hmarked).imp_right ?_)
      (fun job haccepts => ?_) (fun _ => ?_) (fun _ => rfl) (.refl _)
    · exact fun ⟨hmarked, job, hjob, _, haccepts, hdb⟩ => ⟨hmarked, job, hjob, haccepts, hdb⟩
    · simpa using haccepts
    · exact JobStatus.noConfusion
  | @markThreadMemoryModePolluted _ db _ hmarked =>
    rcases Database.markThreadMemoryModePolluted_cases hmarked with ⟨rfl, rfl⟩ |
      ⟨rfl, -, houtputs, -, hjob⟩
    · exact .frame rfl rfl rfl (Int.le_refl _) (.refl _)
    · have hkeeps : KeepsSources t.db.stage1Outputs db.stage1Outputs := by
        rw [houtputs]
        exact .refl _
      split at hjob
      · rename_i hselected
        refine .enqueued hjob rfl ?_ rfl fun threadId row' hlookup => .inr ?_
        · simp [Workers.commit, hselected]
        · exact hkeeps threadId row' hlookup
      · rename_i hselected
        refine .frame hjob rfl ?_ (Int.le_refl _) hkeeps
        simp [Workers.commit, hselected]
  | pruneStage1OutputsForRetention => exact .frame rfl rfl rfl (Int.le_refl _) (.eraseAll _)
  | @recordStage1OutputUsage threadIds =>
    have hrecorded := Database.recordStage1OutputUsage_induct (P := fun db =>
      db.globalJob = t.db.globalJob ∧ KeepsSources t.db.stage1Outputs db.stage1Outputs)
      t.now threadIds ⟨rfl, .refl _⟩ fun db threadId ⟨hjob, hkeeps⟩ =>
        ⟨hjob, hkeeps.trans (.updateKey fun _ => rfl)⟩
    exact .frame hrecorded.1 rfl rfl (Int.le_refl _) hrecorded.2
  | setThread => exact .frame rfl rfl rfl (Int.le_refl _) (.refl _)
  | deleteThread => exact .frame rfl rfl rfl (Int.le_refl _) (.erase _)

/-! ## Enqueues and watermarks -/

namespace Job

theorem input_lt_enqueue (job : Job) (inputWatermark : Int) :
    job.input < (job.enqueue inputWatermark).input := by
  show job.input < if job.input < inputWatermark then inputWatermark else job.input + 1
  split <;> omega

theorem le_input_enqueue (job : Job) (inputWatermark : Int) :
    inputWatermark ≤ (job.enqueue inputWatermark).input := by
  show inputWatermark ≤ if job.input < inputWatermark then inputWatermark else job.input + 1
  split <;> omega

theorem ownedBy_enqueue {inputWatermark : Int} :
    (job.enqueue inputWatermark).ownedBy token = job.ownedBy token := by
  by_cases hrunning : job.status = .running <;> simp [ownedBy, enqueue, hrunning]

theorem ownedBy_claimGlobal {now leaseSeconds : Int} {token' : String} :
    (job.claimGlobal now token leaseSeconds).ownedBy token' = decide (token = token') := by
  simp [ownedBy, claimGlobal]

end Job

theorem getWatermark_le {claimedWatermark watermark : Int} {outputs : List Stage1Output}
    (hclaimed : claimedWatermark ≤ watermark)
    (houtputs : ∀ output ∈ outputs, output.sourceUpdatedAt ≤ watermark) :
    getWatermark claimedWatermark outputs ≤ watermark := by
  refine max_le ?_ hclaimed
  cases hmax : (outputs.map (·.sourceUpdatedAt)).max? with
  | none => exact hclaimed
  | some source =>
    obtain ⟨output, hmem, rfl⟩ := List.mem_map.1 (List.max?_mem hmax)
    exact houtputs output hmem

/-! ## The invariant -/

/-- The run of the owner is behind the input of the job by all enqueues since it read its
selection, and so is the last success. -/
structure RunBehind (t : Workers) (job : Job) (run : Phase2Run) : Prop where
  watermark : run.watermark ≤ job.input
  dirty : job.lastSuccess < job.input
  lease : job.leaseUntil = some run.leaseUntil
  read : ∀ read, run.read = some read → read.enqueues ≤ t.enqueues ∧
    getWatermark run.watermark read.selected + (t.enqueues - read.enqueues : Nat) ≤ job.input ∧
      job.lastSuccess + (t.enqueues - read.enqueues : Nat) < job.input

/-- The input covers all outputs; the owner of the running job has a run that is behind it; and an
unexpired run is the owner's. -/
structure Awake (t : Workers) : Prop where
  covered : ∀ threadId row, t.db.stage1Outputs.lookup threadId = some row →
    ∃ job, t.db.globalJob = some job ∧ row.sourceUpdatedAt ≤ job.input
  owner : ∀ job token, t.db.globalJob = some job → job.ownedBy token = true →
    ∃ run, t.runs.lookup token = some run ∧ RunBehind t job run
  owned : ∀ job, t.db.globalJob = some job → job.status = .running → job.ownershipToken ≠ none
  unexpired : ∀ token run, t.runs.lookup token = some run → t.now < run.leaseUntil →
    t.db.OwnsGlobal token

namespace Awake

theorem new : Awake .new where
  covered _ _ hlookup := nomatch hlookup
  owner _ _ hjob := nomatch hjob
  owned _ hjob := nomatch hjob
  unexpired _ _ hlookup := nomatch hlookup

theorem covered_of_keeps (h : Awake t) {job' : Job}
    (houtputs : KeepsSources t.db.stage1Outputs t'.db.stage1Outputs)
    (hjob' : t'.db.globalJob = some job')
    (hinput : ∀ job, t.db.globalJob = some job → job.input ≤ job'.input) :
    ∀ threadId row, t'.db.stage1Outputs.lookup threadId = some row →
      ∃ job, t'.db.globalJob = some job ∧ row.sourceUpdatedAt ≤ job.input := by
  intro threadId row' hlookup
  obtain ⟨row, hlookup, hsource⟩ := houtputs threadId row' hlookup
  obtain ⟨job, hjob, hle⟩ := h.covered threadId row hlookup
  exact ⟨job', hjob', hsource ▸ hle.trans (hinput job hjob)⟩

theorem frame (h : Awake t) (hjob : t'.db.globalJob = t.db.globalJob) (hruns : t'.runs = t.runs)
    (henqueues : t'.enqueues = t.enqueues) (hnow : t.now ≤ t'.now)
    (houtputs : KeepsSources t.db.stage1Outputs t'.db.stage1Outputs) : Awake t' where
  covered threadId row' hlookup := by
    obtain ⟨row, hlookup, hsource⟩ := houtputs threadId row' hlookup
    rw [hjob, ← hsource]
    exact h.covered threadId row hlookup
  owner job token hjob' howned := by
    obtain ⟨run, hrun, hbehind⟩ := h.owner job token (hjob ▸ hjob') howned
    exact ⟨run, hruns ▸ hrun, ⟨hbehind.watermark, hbehind.dirty, hbehind.lease,
      henqueues ▸ hbehind.read⟩⟩
  owned job hjob' := h.owned job (hjob ▸ hjob')
  unexpired token run hrun hlease := by
    obtain ⟨job, hjob', howned⟩ := h.unexpired token run (hruns ▸ hrun) (hnow.trans_lt hlease)
    exact ⟨job, hjob ▸ hjob', howned⟩

/-- An enqueue raises the input of the running job. -/
theorem enqueued (h : Awake t) {inputWatermark : Int}
    (hjob : t'.db.globalJob = (t.db.enqueueGlobalConsolidation inputWatermark).globalJob)
    (hruns : t'.runs = t.runs) (henqueues : t'.enqueues = t.enqueues + 1) (hnow : t'.now = t.now)
    (houtputs : ∀ threadId row', t'.db.stage1Outputs.lookup threadId = some row' →
      row'.sourceUpdatedAt = inputWatermark ∨ ∃ row,
        t.db.stage1Outputs.lookup threadId = some row ∧
          row.sourceUpdatedAt = row'.sourceUpdatedAt) : Awake t' := by
  have hjob : t'.db.globalJob =
      some (t.db.globalJob.elim (.newGlobal inputWatermark) (·.enqueue inputWatermark)) := hjob
  refine ⟨fun threadId row' hlookup => ?_, fun job' token hjob' howned => ?_,
    fun job' hjob' hrunning => ?_, fun token run hrun hlease => ?_⟩
  · refine ⟨_, hjob, ?_⟩
    rcases houtputs threadId row' hlookup with hsource | ⟨row, hlookup, hsource⟩
    · rw [hsource]
      cases t.db.globalJob with
      | none => exact Int.le_refl _
      | some job => exact job.le_input_enqueue inputWatermark
    · obtain ⟨job, hold, hle⟩ := h.covered threadId row hlookup
      rw [hold, ← hsource]
      exact hle.trans (job.input_lt_enqueue inputWatermark).le
  · cases hold : t.db.globalJob with
    | none =>
      rw [hold] at hjob
      cases hjob.symm.trans hjob'
      cases howned
    | some job =>
      rw [hold] at hjob
      cases hjob.symm.trans hjob'
      have howned : (job.enqueue inputWatermark).ownedBy token = true := howned
      rw [Job.ownedBy_enqueue] at howned
      obtain ⟨run, hrun, hbehind⟩ := h.owner job token hold howned
      have hlt := job.input_lt_enqueue inputWatermark
      have hdirty := hbehind.dirty
      refine ⟨run, hruns ▸ hrun, hbehind.watermark.trans hlt.le, hdirty.trans hlt, hbehind.lease,
        fun read hread => ?_⟩
      obtain ⟨hle, hwatermark, hsuccess⟩ := hbehind.read read hread
      show _ ≤ t'.enqueues ∧ _ ≤ (job.enqueue inputWatermark).input ∧
        job.lastSuccess + _ < (job.enqueue inputWatermark).input
      rw [henqueues]
      omega
  · cases hold : t.db.globalJob with
    | none =>
      rw [hold] at hjob
      cases hjob.symm.trans hjob'
      cases hrunning
    | some job =>
      rw [hold] at hjob
      cases hjob.symm.trans hjob'
      refine h.owned job hold ?_
      have hrunning : (if job.status = .running then JobStatus.running else .pending) = .running :=
        hrunning
      by_contra hnot
      rw [if_neg hnot] at hrunning
      cases hrunning
  · obtain ⟨job, hold, howned⟩ := h.unexpired token run (hruns ▸ hrun) (hnow ▸ hlease)
    rw [hold] at hjob
    exact ⟨_, hjob, Job.ownedBy_enqueue.trans howned⟩

/-- A claimed job was not active, so no other run is unexpired. -/
theorem claimed (h : Awake t) {leaseSeconds : Int} (hjob : t.db.globalJob = some job)
    (hdirty : job.lastSuccess < job.input) (hinactive : job.active t.now = false)
    (hjob' : t'.db.globalJob = some (job.claimGlobal t.now token leaseSeconds))
    (hruns : t'.runs = t.runs.insert token ⟨job.input, leaseUntil t.now leaseSeconds, none⟩)
    (hnow : t'.now = t.now)
    (houtputs : KeepsSources t.db.stage1Outputs t'.db.stage1Outputs) : Awake t' := by
  refine ⟨h.covered_of_keeps houtputs hjob' fun job' hold => ?_, fun job' token' hnew howned => ?_,
    fun job' hnew _ => ?_, fun token' run hrun hlease => ?_⟩
  · cases hjob.symm.trans hold
    exact Int.le_refl _
  · cases hjob'.symm.trans hnew
    rw [Job.ownedBy_claimGlobal, decide_eq_true_eq] at howned
    refine ⟨⟨job.input, leaseUntil t.now leaseSeconds, none⟩, ?_, Int.le_refl _, hdirty, rfl,
      fun _ hread => nomatch hread⟩
    rw [hruns, ← howned]
    exact AList.lookup_insert t.runs
  · cases hjob'.symm.trans hnew
    exact Option.some_ne_none token
  · rw [hruns, lookup_insert] at hrun
    split at hrun
    · rename_i heq
      exact ⟨_, hjob', by rw [Job.ownedBy_claimGlobal, heq, decide_eq_true rfl]⟩
    · rw [hnow] at hlease
      obtain ⟨job', hold, howned⟩ := h.unexpired token' run hrun hlease
      cases hjob.symm.trans hold
      obtain ⟨run', hrun', hbehind⟩ := h.owner job token' hjob howned
      cases hrun.symm.trans hrun'
      have hactive : job.active t.now = true := by
        simp [Job.active, hbehind.lease, hlease, Job.running_of_ownedBy howned]
      exact Bool.noConfusion (hactive.symm.trans hinactive)

theorem heartbeat (h : Awake t) {leaseUntil : Int} (hjob : t.db.globalJob = some job)
    (howned : job.ownedBy token = true)
    (hjob' : t'.db.globalJob = some { job with leaseUntil := some leaseUntil })
    (hruns : t'.runs = updateKey token (fun run => { run with leaseUntil }) t.runs)
    (henqueues : t'.enqueues = t.enqueues) (hnow : t'.now = t.now)
    (houtputs : KeepsSources t.db.stage1Outputs t'.db.stage1Outputs) : Awake t' := by
  refine ⟨h.covered_of_keeps houtputs hjob' fun job' hold => ?_, fun job' token' hnew howned' => ?_,
    fun job' hnew hrunning => ?_, fun token' run hrun hlease => ?_⟩
  · cases hjob.symm.trans hold
    exact Int.le_refl _
  · cases hjob'.symm.trans hnew
    have howned' : job.ownedBy token' = true := howned'
    cases Job.token_of_ownedBy howned howned'
    obtain ⟨run, hrun, hbehind⟩ := h.owner job token hjob howned
    refine ⟨{ run with leaseUntil }, ?_, hbehind.watermark, hbehind.dirty, rfl,
      henqueues ▸ hbehind.read⟩
    rw [hruns, lookup_updateKey, if_pos rfl, hrun]
    rfl
  · cases hjob'.symm.trans hnew
    exact h.owned job hjob hrunning
  · rw [hruns, lookup_updateKey] at hrun
    split at hrun
    · rename_i heq
      exact ⟨_, hjob', heq ▸ howned⟩
    · rw [hnow] at hlease
      obtain ⟨job', hold, howned'⟩ := h.unexpired token' run hrun hlease
      cases hjob.symm.trans hold
      exact ⟨_, hjob', howned'⟩

/-- The outputs that a run selects are covered by the input. -/
theorem read (h : Awake t) {run : Phase2Run} {selected : List Stage1Output}
    (hrun : t.runs.lookup token = some run)
    (hselected : ∀ output ∈ selected, ∃ row,
      t.db.stage1Outputs.lookup output.threadId = some row ∧
        row.sourceUpdatedAt = output.sourceUpdatedAt)
    (hjob : t'.db.globalJob = t.db.globalJob)
    (hruns : t'.runs = t.runs.insert token { run with read := some ⟨selected, t.enqueues⟩ })
    (henqueues : t'.enqueues = t.enqueues) (hnow : t'.now = t.now)
    (houtputs : KeepsSources t.db.stage1Outputs t'.db.stage1Outputs) : Awake t' := by
  refine ⟨fun threadId row' hlookup => ?_, fun job token' hjob' howned => ?_,
    fun job hjob' => h.owned job (hjob ▸ hjob'), fun token' run' hrun' hlease => ?_⟩
  · obtain ⟨row, hlookup, hsource⟩ := houtputs threadId row' hlookup
    rw [hjob, ← hsource]
    exact h.covered threadId row hlookup
  · have hold : t.db.globalJob = some job := hjob ▸ hjob'
    obtain ⟨run', hrun', hbehind⟩ := h.owner job token' hold howned
    rw [hruns, lookup_insert]
    split
    · rename_i heq
      rw [heq, hrun] at hrun'
      cases hrun'
      refine ⟨_, rfl, hbehind.watermark, hbehind.dirty, hbehind.lease, fun read hread => ?_⟩
      cases hread
      have hwatermark : getWatermark run.watermark selected ≤ job.input := by
        refine getWatermark_le hbehind.watermark fun output hmem => ?_
        obtain ⟨row, hlookup, hsource⟩ := hselected output hmem
        obtain ⟨job', hold', hle⟩ := h.covered output.threadId row hlookup
        cases hold.symm.trans hold'
        exact hsource ▸ hle
      have hdirty := hbehind.dirty
      show t.enqueues ≤ t'.enqueues ∧
        getWatermark run.watermark selected + (t'.enqueues - t.enqueues : Nat) ≤ job.input ∧
          job.lastSuccess + (t'.enqueues - t.enqueues : Nat) < job.input
      rw [henqueues]
      omega
    · exact ⟨run', hrun', hbehind.watermark, hbehind.dirty, hbehind.lease, henqueues ▸ hbehind.read⟩
  · rw [hnow] at hlease
    have hown : t.db.OwnsGlobal token' := by
      rw [hruns, lookup_insert] at hrun'
      split at hrun'
      · rename_i heq
        cases hrun'
        exact h.unexpired token' run (heq ▸ hrun) hlease
      · exact h.unexpired token' run' hrun' hlease
    obtain ⟨job, hold, howned⟩ := hown
    exact ⟨job, hjob ▸ hold, howned⟩

/-- No run is unexpired once that of the owner ended. -/
theorem ended (h : Awake t) {job' : Job} (hjob : t.db.globalJob = some job)
    (htoken : job.ownershipToken = some token ∨ job.ownershipToken = none)
    (hjob' : t'.db.globalJob = some job') (hstopped : job'.status ≠ .running)
    (hinput : job'.input = job.input) (hruns : t'.runs = t.runs.erase token)
    (hnow : t'.now = t.now)
    (houtputs : KeepsSources t.db.stage1Outputs t'.db.stage1Outputs) : Awake t' := by
  refine ⟨h.covered_of_keeps houtputs hjob' fun job'' hold => ?_, fun job'' token' hnew howned => ?_,
    fun job'' hnew hrunning => ?_, fun token' run hrun hlease => ?_⟩
  · cases hjob.symm.trans hold
    exact hinput.ge
  · cases hjob'.symm.trans hnew
    exact absurd (Job.running_of_ownedBy howned) hstopped
  · cases hjob'.symm.trans hnew
    exact absurd hrunning hstopped
  · rw [hruns, lookup_erase] at hrun
    split at hrun
    · cases hrun
    · rename_i hne
      rw [hnow] at hlease
      obtain ⟨job'', hold, howned⟩ := h.unexpired token' run hrun hlease
      cases hjob.symm.trans hold
      have howner := Job.ownershipToken_of_ownedBy howned
      rcases htoken with htoken | htoken
      · cases howner.symm.trans htoken
        exact absurd rfl hne
      · cases howner.symm.trans htoken

theorem step (h : Awake t) (heffect : GlobalEffect t t') : Awake t' := by
  cases heffect with
  | frame hjob hruns henqueues hnow houtputs => exact h.frame hjob hruns henqueues hnow houtputs
  | enqueued hjob hruns henqueues hnow houtputs =>
    exact h.enqueued hjob hruns henqueues hnow houtputs
  | claimed hjob hdirty hinactive hjob' hruns _ hnow houtputs =>
    exact h.claimed hjob hdirty hinactive hjob' hruns hnow houtputs
  | heartbeat hjob howned hjob' hruns henqueues hnow houtputs =>
    exact h.heartbeat hjob howned hjob' hruns henqueues hnow houtputs
  | read hrun hselected hjob hruns henqueues hnow houtputs =>
    exact h.read hrun hselected hjob hruns henqueues hnow houtputs
  | ended hjob htoken hjob' hstopped hinput hruns _ hnow houtputs =>
    exact h.ended hjob htoken hjob' hstopped hinput hruns hnow houtputs

theorem of_reach (h : workers.Reach t) : Awake t := by
  refine h.invariant (fun t hinit => ?_) fun t a t' hawake hstep => hawake.step hstep.global
  cases hinit
  exact new

end Awake

/-! ## No wake-up is lost -/

/-- One token owns the running job, and an unexpired run is its owner's; marks and heartbeats with
another token are refused and change nothing; and an enqueue after a run read its selection leaves
the job dirty when that run succeeds. -/
structure WakeUps (t : Workers) : Prop where
  oneOwner : ∀ token token', t.db.OwnsGlobal token → t.db.OwnsGlobal token' → token = token'
  unexpired : ∀ token run, t.runs.lookup token = some run → t.now < run.leaseUntil →
    t.db.OwnsGlobal token
  refused : ∀ token, ¬ t.db.OwnsGlobal token →
    (∀ completedWatermark selectedOutputs,
      t.db.markGlobalPhase2JobSucceeded token completedWatermark selectedOutputs = (t.db, false)) ∧
    ∀ seconds, t.db.markGlobalPhase2JobFailed t.now token seconds = (t.db, false) ∧
      t.db.markGlobalPhase2JobFailedIfUnowned t.now token seconds = (t.db, false) ∧
      t.db.heartbeatGlobalPhase2Job t.now token seconds = (t.db, false)
  dirty : ∀ token run read db', t.runs.lookup token = some run → run.read = some read →
    read.enqueues < t.enqueues →
    t.db.markGlobalPhase2JobSucceeded token (getWatermark run.watermark read.selected)
      read.selected = (db', true) →
    ∃ job', db'.globalJob = some job' ∧ job'.lastSuccess < job'.input

theorem wake_ups (h : workers.Reach t) : WakeUps t where
  oneOwner token token' := by
    rintro ⟨job, hjob, howned⟩ ⟨job', hjob', howned'⟩
    cases hjob.symm.trans hjob'
    exact Job.token_of_ownedBy howned howned'
  unexpired := (Awake.of_reach h).unexpired
  refused token howns := by
    refine ⟨fun _ _ => ?_, fun _ => ⟨Database.updateOwnedGlobal_of_not howns, ?_,
      Database.updateOwnedGlobal_of_not howns⟩⟩
    · rw [Database.markGlobalPhase2JobSucceeded, Database.updateOwnedGlobal_of_not howns]
    · rw [Database.markGlobalPhase2JobFailedIfUnowned, Database.updateGlobal]
      split
      · rename_i job hjob
        refine if_neg fun haccepts => ?_
        simp only [Bool.and_eq_true, Bool.or_eq_true, decide_eq_true_eq] at haccepts
        obtain ⟨hrunning, htoken | htoken⟩ := haccepts
        · exact howns ⟨job, hjob, by simp [Job.ownedBy, hrunning, htoken]⟩
        · exact (Awake.of_reach h).owned job hjob hrunning htoken
      · rfl
  dirty token run read db' hrun hread hlate hmark := by
    rcases Database.markGlobalPhase2JobSucceeded_cases hmark with ⟨hmarked, -⟩ |
      ⟨-, job, hjob, howned, rfl⟩
    · cases hmarked
    · obtain ⟨run', hrun', hbehind⟩ := (Awake.of_reach h).owner job token hjob howned
      cases hrun.symm.trans hrun'
      obtain ⟨-, hwatermark, hsuccess⟩ := hbehind.read read hread
      refine ⟨_, rfl, ?_⟩
      show max job.lastSuccess (getWatermark run.watermark read.selected) < job.input
      omega

end

/-! ## A late enqueue -/

/-- A run reads its selection, and then the consolidation is enqueued. -/
theorem wake_ups_example : ∃ (t : Workers) (run : Phase2Run) (read : Phase2Read),
    t.runs.lookup "token" = some run ∧ run.read = some read ∧ read.enqueues < t.enqueues ∧
      WakeUps t := by
  have henqueued := System.Reach.step (S := workers) (.init rfl)
    (@Works.enqueueGlobalConsolidation .new 100)
  have hclaimed := henqueued.step
    (@Works.tryClaimGlobalPhase2Job _ "token" 3600 _ _ (by decide) rfl)
  have hread := hclaimed.step (@Works.getPhase2InputSelection _ "token" 10 30 _ rfl rfl)
  exact ⟨_, _, _, rfl, rfl, by decide,
    wake_ups (hread.step (@Works.enqueueGlobalConsolidation _ 90))⟩

end Mcodex.Memories
