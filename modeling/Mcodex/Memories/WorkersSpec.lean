import Mcodex.Memories.Workers
import Mathlib.Algebra.Order.Group.Int

/-!
# What the transactions do

One lemma for each transaction says what it changes and when it is refused.
-/

namespace Mcodex.Memories

open Table Transition

section
variable {db db' : Database} {threadId : ThreadId} {token : String} {now : Int}
  {f : Job → Job} {job : Job} {marked : Bool}

/-! ## Jobs -/

theorem Job.running_of_ownedBy (h : job.ownedBy token = true) : job.status = .running := by
  simp only [ownedBy, Bool.and_eq_true, decide_eq_true_eq] at h
  exact h.1

theorem Job.token_of_ownedBy {token' : String} (h : job.ownedBy token = true)
    (h' : job.ownedBy token' = true) : token = token' := by
  simp only [ownedBy, Bool.and_eq_true, decide_eq_true_eq] at h h'
  exact Option.some.inj (h.2.symm.trans h'.2)

theorem bmod_le (n m : Nat) : Int.bmod n m ≤ n := by
  have hle : (n : Int) % (m : Int) ≤ n := by exact_mod_cast Nat.mod_le n m
  rw [Int.bmod]
  split <;> omega

theorem asI64_le (n : Nat) : asI64 n ≤ n := bmod_le n _

namespace Database

/-! ## The first stage -/

/-- The token is that of the running job of the thread. -/
def OwnsStage1 (db : Database) (threadId : ThreadId) (token : String) : Prop :=
  ∃ job, db.stage1Jobs.lookup threadId = some job ∧ job.ownedBy token = true

/-- What a claim that is granted does, and when it is. -/
structure Stage1Claimed (db : Database) (now : Int) (token : String) (threadId : ThreadId)
    (sourceUpdatedAt leaseSeconds : Int) (maxRunningJobs : Nat) (db' : Database) : Prop where
  output : ∀ row, db.stage1Outputs.lookup threadId = some row →
    row.sourceUpdatedAt < sourceUpdatedAt
  success : ∀ job success, db.stage1Jobs.lookup threadId = some job →
    job.lastSuccessWatermark = some success → success < sourceUpdatedAt
  inactive : ∀ job, db.stage1Jobs.lookup threadId = some job → job.active now = false
  running : count (·.active now) (db.stage1Jobs.erase threadId) < maxRunningJobs
  job : ∃ job, db' = { db with stage1Jobs := db.stage1Jobs.insert threadId job } ∧
    job.status = .running ∧ job.ownershipToken = some token ∧
      job.leaseUntil = some (leaseUntil now leaseSeconds) ∧
        job.inputWatermark = some sourceUpdatedAt ∧
          job.lastSuccessWatermark =
            (db.stage1Jobs.lookup threadId).bind (·.lastSuccessWatermark)

theorem upsertStage1Job_eq_some {sourceUpdatedAt leaseSeconds : Int} {maxRunningJobs : Nat}
    (houtput : ∀ row, db.stage1Outputs.lookup threadId = some row →
      row.sourceUpdatedAt < sourceUpdatedAt)
    (hsuccess : ∀ job success, db.stage1Jobs.lookup threadId = some job →
      job.lastSuccessWatermark = some success → success < sourceUpdatedAt)
    (h : db.upsertStage1Job now token threadId sourceUpdatedAt leaseSeconds maxRunningJobs =
      some db') :
    db.Stage1Claimed now token threadId sourceUpdatedAt leaseSeconds maxRunningJobs db' := by
  have hmax := asI64_le maxRunningJobs
  rw [upsertStage1Job] at h
  split at h
  · rename_i hcount
    split at h
    · rename_i hlookup
      cases h
      refine ⟨houtput, hsuccess, fun job hjob => ?_, ?_, _, rfl, rfl, rfl, rfl, rfl, ?_⟩
      · cases hlookup.symm.trans hjob
      · rw [count_erase fun job hjob => (by cases hlookup.symm.trans hjob)]
        omega
      · rw [hlookup]
        rfl
    · rename_i job hlookup
      split at h
      · rename_i hclaimable
        cases h
        simp only [Job.stage1Claimable, Bool.and_eq_true, Bool.not_eq_true',
          decide_eq_true_eq] at hclaimable
        obtain ⟨⟨⟨hinactive, -⟩, -⟩, hothers⟩ := hclaimable
        refine ⟨houtput, hsuccess, fun job' hjob => ?_, by omega, _, rfl, rfl, rfl, rfl, rfl, ?_⟩
        · cases hlookup.symm.trans hjob
          exact hinactive
        · rw [hlookup]
          rfl
      · cases h
  · cases h

/-- A claim is granted, or it changes nothing. -/
theorem tryClaimStage1Job_cases {sourceUpdatedAt leaseSeconds : Int} {maxRunningJobs : Nat}
    {outcome : Stage1JobClaimOutcome}
    (h : db.tryClaimStage1Job now token threadId sourceUpdatedAt leaseSeconds maxRunningJobs =
      (db', outcome)) :
    outcome = .claimed token ∧
        db.Stage1Claimed now token threadId sourceUpdatedAt leaseSeconds maxRunningJobs db' ∨
      (∀ token', outcome ≠ .claimed token') ∧ db' = db := by
  rw [tryClaimStage1Job] at h
  split at h
  · cases h
    exact .inr ⟨fun _ => Stage1JobClaimOutcome.noConfusion, rfl⟩
  · rename_i houtput
    split at h
    · cases h
      exact .inr ⟨fun _ => Stage1JobClaimOutcome.noConfusion, rfl⟩
    · rename_i hsuccess
      split at h
      · rename_i db'' hupsert
        cases h
        refine .inl ⟨rfl, upsertStage1Job_eq_some (fun row hrow => ?_) (fun job success hjob hlast => ?_)
          hupsert⟩
        · simpa [hrow] using houtput
        · simpa [hjob, hlast] using hsuccess
      · cases h
        refine .inr ⟨fun token' hclaimed => ?_, rfl⟩
        rw [stage1Skipped] at hclaimed
        split at hclaimed
        · split at hclaimed
          · cases hclaimed
          · split at hclaimed <;> cases hclaimed
        · cases hclaimed

theorem updateOwnedStage1_eq_some (h : db.updateOwnedStage1 threadId token f = some db') :
    ∃ job, db.stage1Jobs.lookup threadId = some job ∧ job.ownedBy token = true ∧
      db' = { db with stage1Jobs := db.stage1Jobs.insert threadId (f job) } := by
  rw [updateOwnedStage1] at h
  split at h
  · rename_i job hlookup
    split at h
    · rename_i howned
      cases h
      exact ⟨job, hlookup, howned, rfl⟩
    · cases h
  · cases h

theorem updateOwnedStage1_eq_none (h : ¬ db.OwnsStage1 threadId token) :
    db.updateOwnedStage1 threadId token f = none := by
  rw [updateOwnedStage1]
  split
  · rename_i job hlookup
    exact if_neg fun howned => h ⟨job, hlookup, howned⟩
  · rfl

/-- An accepted mark ends the job of the owner: a success completes its input. -/
structure Stage1Marked (db : Database) (threadId : ThreadId) (token : String) (db' : Database) :
    Prop where
  job : ∃ job job', db.stage1Jobs.lookup threadId = some job ∧ job.ownedBy token = true ∧
    db'.stage1Jobs = db.stage1Jobs.insert threadId job' ∧ job'.status ≠ .running ∧
      (job'.lastSuccessWatermark = job.lastSuccessWatermark ∨
        job'.lastSuccessWatermark = job.inputWatermark)

theorem markStage1JobSucceeded_cases {sourceUpdatedAt : Int} {rawMemory rolloutSummary : String}
    {rolloutSlug : Option String}
    (h : db.markStage1JobSucceeded threadId token sourceUpdatedAt rawMemory rolloutSummary
      rolloutSlug = some (db', marked)) :
    marked = false ∧ db' = db ∨ marked = true ∧ db.Stage1Marked threadId token db' ∧
      db'.globalJob = (db.enqueueGlobalConsolidation sourceUpdatedAt).globalJob ∧
        db'.stage1Outputs = upsertStage1Output db.stage1Outputs threadId sourceUpdatedAt rawMemory
          rolloutSummary rolloutSlug ∧ threadId ∈ db.threads ∧ db'.threads = db.threads := by
  rw [markStage1JobSucceeded] at h
  split at h
  · cases h
    exact .inl ⟨rfl, rfl⟩
  · rename_i db'' hupdate
    obtain ⟨job, hlookup, howned, rfl⟩ := updateOwnedStage1_eq_some hupdate
    split at h
    · rename_i hthread
      cases h
      exact .inr ⟨rfl, ⟨job, _, hlookup, howned, rfl, JobStatus.noConfusion, .inr rfl⟩, rfl, rfl,
        hthread, rfl⟩
    · cases h

theorem markStage1JobSucceededNoOutput_cases
    (h : db.markStage1JobSucceededNoOutput threadId token = some (db', marked)) :
    marked = false ∧ db' = db ∨ marked = true ∧ db.Stage1Marked threadId token db' ∧
      db'.stage1Outputs = db.stage1Outputs.erase threadId ∧ db'.threads = db.threads ∧
        if threadId ∈ db.stage1Outputs then
          ∃ sourceUpdatedAt, db'.globalJob = (db.enqueueGlobalConsolidation sourceUpdatedAt).globalJob
        else db'.globalJob = db.globalJob := by
  rw [markStage1JobSucceededNoOutput] at h
  split at h
  · cases h
    exact .inl ⟨rfl, rfl⟩
  · rename_i db'' hupdate
    obtain ⟨job, hlookup, howned, rfl⟩ := updateOwnedStage1_eq_some hupdate
    have hmarked : ∀ db' : Database, db'.stage1Jobs =
        db.stage1Jobs.insert threadId (job.succeed job.inputWatermark) →
        db.Stage1Marked threadId token db' := fun _ hjobs =>
      ⟨job, _, hlookup, howned, hjobs, JobStatus.noConfusion, .inr rfl⟩
    split at h
    · cases h
    · rename_i sourceUpdatedAt _
      split at h
      · rename_i hmem
        cases h
        refine .inr ⟨rfl, hmarked _ rfl, rfl, rfl, ?_⟩
        rw [if_pos hmem]
        exact ⟨sourceUpdatedAt, rfl⟩
      · rename_i hmem
        cases h
        refine .inr ⟨rfl, hmarked _ rfl, (AList.ext (List.kerase_of_notMem_keys hmem)).symm, rfl, ?_⟩
        rw [if_neg hmem]

theorem markStage1JobFailed_cases {retryDelaySeconds : Int}
    (h : db.markStage1JobFailed now threadId token retryDelaySeconds = (db', marked)) :
    marked = false ∧ db' = db ∨ marked = true ∧ db.Stage1Marked threadId token db' ∧
      db'.globalJob = db.globalJob ∧ db'.stage1Outputs = db.stage1Outputs ∧
        db'.threads = db.threads := by
  rw [markStage1JobFailed] at h
  split at h
  · cases h
    exact .inl ⟨rfl, rfl⟩
  · rename_i db'' hupdate
    obtain ⟨job, hlookup, howned, rfl⟩ := updateOwnedStage1_eq_some hupdate
    cases h
    exact .inr ⟨rfl, ⟨job, _, hlookup, howned, rfl, JobStatus.noConfusion, .inl rfl⟩, rfl, rfl, rfl⟩

/-! ## The consolidation -/

/-- The token is that of the running consolidation. -/
def OwnsGlobal (db : Database) (token : String) : Prop :=
  ∃ job, db.globalJob = some job ∧ job.ownedBy token = true

theorem tryClaimGlobalPhase2Job_cases {leaseSeconds : Int} {outcome : Phase2JobClaimOutcome}
    (h : db.tryClaimGlobalPhase2Job now token leaseSeconds = (db', outcome)) :
    (∃ job, db.globalJob = some job ∧ job.lastSuccess < job.input ∧ job.active now = false ∧
        db' = { db with globalJob := some (job.claimGlobal now token leaseSeconds) } ∧
          outcome = .claimed token job.input) ∨
      (∀ token' watermark, outcome ≠ .claimed token' watermark) ∧ db' = db := by
  rw [tryClaimGlobalPhase2Job] at h
  split at h
  · cases h
    exact .inr ⟨fun _ _ => Phase2JobClaimOutcome.noConfusion, rfl⟩
  · rename_i job hjob
    split at h
    · cases h
      exact .inr ⟨fun _ _ => Phase2JobClaimOutcome.noConfusion, rfl⟩
    · rename_i hdirty
      split at h
      · cases h
        exact .inr ⟨fun _ _ => Phase2JobClaimOutcome.noConfusion, rfl⟩
      · split at h
        · cases h
          exact .inr ⟨fun _ _ => Phase2JobClaimOutcome.noConfusion, rfl⟩
        · split at h
          · cases h
            exact .inr ⟨fun _ _ => Phase2JobClaimOutcome.noConfusion, rfl⟩
          · rename_i hactive
            split at h
            · cases h
              exact .inl ⟨job, hjob, Int.not_le.1 hdirty, Bool.not_eq_true _ ▸ hactive, rfl, rfl⟩
            · cases h
              exact .inr ⟨fun _ _ => Phase2JobClaimOutcome.noConfusion, rfl⟩

theorem updateGlobal_cases {accepts : Job → Bool}
    (h : db.updateGlobal accepts f = (db', marked)) :
    marked = false ∧ db' = db ∨ marked = true ∧ ∃ job, db.globalJob = some job ∧
      job.status = .running ∧ accepts job = true ∧
        db' = { db with globalJob := some (f job) } := by
  rw [updateGlobal] at h
  split at h
  · rename_i job hjob
    split at h
    · rename_i haccepts
      rw [Bool.and_eq_true, decide_eq_true_eq] at haccepts
      cases h
      exact .inr ⟨rfl, job, hjob, haccepts.1, haccepts.2, rfl⟩
    · cases h
      exact .inl ⟨rfl, rfl⟩
  · cases h
    exact .inl ⟨rfl, rfl⟩

theorem updateOwnedGlobal_cases (h : db.updateOwnedGlobal token f = (db', marked)) :
    marked = false ∧ db' = db ∨ marked = true ∧ ∃ job, db.globalJob = some job ∧
      job.ownedBy token = true ∧ db' = { db with globalJob := some (f job) } := by
  refine (updateGlobal_cases h).imp_right fun ⟨hmarked, job, hjob, hrunning, htoken, hdb⟩ => ?_
  exact ⟨hmarked, job, hjob, by simpa [Job.ownedBy, hrunning] using htoken, hdb⟩

theorem updateOwnedGlobal_of_not (h : ¬ db.OwnsGlobal token) :
    db.updateOwnedGlobal token f = (db, false) := by
  rw [updateOwnedGlobal, updateGlobal]
  split
  · rename_i job hjob
    exact if_neg fun howned => h ⟨job, hjob, howned⟩
  · rfl

theorem markGlobalPhase2JobSucceeded_cases {completedWatermark : Int}
    {selectedOutputs : List Stage1Output}
    (h : db.markGlobalPhase2JobSucceeded token completedWatermark selectedOutputs =
      (db', marked)) :
    marked = false ∧ db' = db ∨ marked = true ∧ ∃ job, db.globalJob = some job ∧
      job.ownedBy token = true ∧ db' =
        { db with
          globalJob := some (job.succeed (some (max job.lastSuccess completedWatermark)))
          stage1Outputs := selectSnapshots db.stage1Outputs selectedOutputs } := by
  rw [markGlobalPhase2JobSucceeded] at h
  split at h
  · rename_i hupdate
    cases h
    rcases updateOwnedGlobal_cases hupdate with ⟨-, rfl⟩ | ⟨hmarked, -⟩
    · exact .inl ⟨rfl, rfl⟩
    · cases hmarked
  · rename_i hupdate
    cases h
    rcases updateOwnedGlobal_cases hupdate with ⟨hmarked, -⟩ | ⟨-, job, hjob, howned, rfl⟩
    · cases hmarked
    · exact .inr ⟨rfl, job, hjob, howned, rfl⟩

/-! ## Outputs -/

theorem mem_selected {n : Nat} {maxUnusedDays : Int} {output : Stage1Output}
    (h : output ∈ (db.getPhase2InputSelection now n maxUnusedDays).selected) :
    ∃ row, db.stage1Outputs.lookup output.threadId = some row ∧
      row.sourceUpdatedAt = output.sourceUpdatedAt := by
  rw [getPhase2InputSelection] at h
  split at h
  · cases h
  · obtain ⟨⟨threadId, row⟩, hmem, rfl⟩ := List.mem_map.1 h
    have hmem := List.mem_mergeSort.1 (List.mem_of_mem_take hmem)
    exact ⟨row, AList.mem_lookup_iff.2 (List.mem_filter.1 hmem).1, rfl⟩

/-- What is selected keeps its source, and is marked if it has one of the snapshots. -/
theorem foldl_selectSnapshot (outputs : List Stage1Output) (row : Stage1Row) :
    (outputs.foldl (fun row output => row.selectSnapshot output.sourceUpdatedAt)
        row).sourceUpdatedAt = row.sourceUpdatedAt ∧
      ((outputs.foldl (fun row output => row.selectSnapshot output.sourceUpdatedAt)
        row).selectedForPhase2 = true ↔ row.selectedForPhase2 = true ∨
          ∃ output ∈ outputs, output.sourceUpdatedAt = row.sourceUpdatedAt) := by
  induction outputs generalizing row with
  | nil => simp
  | cons output outputs ih =>
    obtain ⟨hsource, hselected⟩ := ih (row.selectSnapshot output.sourceUpdatedAt)
    rw [List.foldl_cons, hsource, hselected, Stage1Row.selectSnapshot]
    by_cases heq : row.sourceUpdatedAt = output.sourceUpdatedAt
    · simp [heq]
    · simp [heq, Ne.symm heq]

theorem lookup_selectSnapshots (outputs : Keyed ThreadId Stage1Row)
    (selectedOutputs : List Stage1Output) :
    (selectSnapshots outputs selectedOutputs).lookup threadId =
      (outputs.lookup threadId).map fun row =>
        (selectedOutputs.filter (·.threadId = threadId)).foldl
          (fun row output => row.selectSnapshot output.sourceUpdatedAt) row.unselect := by
  refine (lookup_foldl_updateKey (·.threadId)
    (fun (output : Stage1Output) (row : Stage1Row) => row.selectSnapshot output.sourceUpdatedAt)
    selectedOutputs _).trans ?_
  rw [lookup_mapRows, Option.map_map]
  rfl

theorem markThreadMemoryModePolluted_cases
    (h : db.markThreadMemoryModePolluted now threadId = (db', marked)) :
    marked = false ∧ db' = db ∨ marked = true ∧ db'.stage1Jobs = db.stage1Jobs ∧
      db'.stage1Outputs = db.stage1Outputs ∧ db'.threads = db.threads.insert threadId .polluted ∧
        db'.globalJob =
          if (db.stage1Outputs.lookup threadId).any (·.selectedForPhase2) then
            (db.enqueueGlobalConsolidation now).globalJob
          else db.globalJob := by
  rw [markThreadMemoryModePolluted] at h
  split at h
  · cases h
    exact .inl ⟨rfl, rfl⟩
  · cases h
    exact .inl ⟨rfl, rfl⟩
  · split at h
    · rename_i hselected
      cases h
      exact .inr ⟨rfl, rfl, rfl, rfl, (if_pos hselected).symm⟩
    · rename_i hselected
      cases h
      exact .inr ⟨rfl, rfl, rfl, rfl, (if_neg hselected).symm⟩

theorem recordStage1OutputUsage_induct {P : Database → Prop} (now : Int)
    (threadIds : List ThreadId) (h : P db)
    (hstep : ∀ db threadId, P db → P (db.recordUsage now threadId)) :
    P (db.recordStage1OutputUsage now threadIds).1 := by
  exact List.foldlRecOn (motive := fun result : Database × Nat => P result.1) threadIds _ h
    fun result hresult threadId _ => hstep result.1 threadId hresult

end Database

end

end Mcodex.Memories
