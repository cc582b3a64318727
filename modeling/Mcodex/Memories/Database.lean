import Mathlib
import Mcodex.Lib.Table

/-!
# The memory tables

`Database` holds the tables of the memory pipeline, and the functions below are its transactions:
each returns the database that it commits, with what it reports. The jobs of the first stage have
a row for each thread, and the consolidation has one row. Left out are the columns that no query
reads: the worker, the start, the end and the error of a job, and when an output was generated.
-/

namespace Mcodex.Memories

open Table

abbrev ThreadId := String

inductive MemoryMode
  | enabled
  | polluted
  | other (text : String)
  deriving DecidableEq

inductive JobStatus
  | pending
  | running
  | done
  | error
  deriving DecidableEq

/-- A row of `jobs`; instants and watermarks are in seconds. -/
structure Job where
  status : JobStatus
  ownershipToken : Option String
  leaseUntil : Option Int
  retryAt : Option Int
  retryRemaining : Int
  inputWatermark : Option Int
  lastSuccessWatermark : Option Int
  deriving DecidableEq

/-- A row of `stage1_outputs`. -/
structure Stage1Row where
  sourceUpdatedAt : Int
  rawMemory : String
  rolloutSummary : String
  rolloutSlug : Option String
  usageCount : Option Int
  lastUsage : Option Int
  selectedForPhase2 : Bool
  selectedForPhase2SourceUpdatedAt : Option Int
  deriving DecidableEq

structure Database where
  threads : Keyed ThreadId MemoryMode
  stage1Jobs : Keyed ThreadId Job
  globalJob : Option Job
  stage1Outputs : Keyed ThreadId Stage1Row

def Database.empty : Database := ⟨∅, ∅, none, ∅⟩

def defaultRetryRemaining : Int := 3

/-- `saturating_add` of an `i64`. -/
def saturatingAdd (a b : Int) : Int := max (-2 ^ 63) (min (a + b) (2 ^ 63 - 1))

def leaseUntil (now leaseSeconds : Int) : Int := saturatingAdd now (max leaseSeconds 0)

/-- A `usize` cast to an `i64`. -/
def asI64 (n : Nat) : Int := Int.bmod n (2 ^ 64)

namespace Job

variable (job : Job)

/-- The job is running, and its lease did not expire. -/
def active (now : Int) : Bool := job.status = .running && job.leaseUntil.any (now < ·)

/-- The job is running for the owner of the token. -/
def ownedBy (token : String) : Bool := job.status = .running && job.ownershipToken = some token

def succeed (lastSuccessWatermark : Option Int) : Job :=
  { job with status := .done, leaseUntil := none, lastSuccessWatermark }

def fail (now retryDelaySeconds : Int) : Job :=
  { job with
    status := .error
    leaseUntil := none
    retryAt := some (saturatingAdd now (max retryDelaySeconds 0))
    retryRemaining := job.retryRemaining - 1 }

/-! ## Jobs of the first stage -/

/-- The source advanced since the job was claimed. -/
def advanced (sourceUpdatedAt : Int) : Bool := job.inputWatermark.getD (-1) < sourceUpdatedAt

/-- When the upsert of `try_claim_stage1_job` updates an existing row. -/
def stage1Claimable (now sourceUpdatedAt : Int) : Bool :=
  !job.active now && (job.retryAt.all (· ≤ now) || job.advanced sourceUpdatedAt) &&
    (0 < job.retryRemaining || job.advanced sourceUpdatedAt)

def claimStage1 (now : Int) (token : String) (sourceUpdatedAt leaseSeconds : Int) : Job where
  status := .running
  ownershipToken := some token
  leaseUntil := some (Memories.leaseUntil now leaseSeconds)
  retryAt := none
  retryRemaining :=
    if job.advanced sourceUpdatedAt then defaultRetryRemaining else job.retryRemaining
  inputWatermark := some sourceUpdatedAt
  lastSuccessWatermark := job.lastSuccessWatermark

def newStage1 (now : Int) (token : String) (sourceUpdatedAt leaseSeconds : Int) : Job where
  status := .running
  ownershipToken := some token
  leaseUntil := some (Memories.leaseUntil now leaseSeconds)
  retryAt := none
  retryRemaining := defaultRetryRemaining
  inputWatermark := some sourceUpdatedAt
  lastSuccessWatermark := none

/-! ## The consolidation -/

def input : Int := job.inputWatermark.getD 0

def lastSuccess : Int := job.lastSuccessWatermark.getD 0

def newGlobal (inputWatermark : Int) : Job where
  status := .pending
  ownershipToken := none
  leaseUntil := none
  retryAt := none
  retryRemaining := defaultRetryRemaining
  inputWatermark := some inputWatermark
  lastSuccessWatermark := some 0

def enqueue (inputWatermark : Int) : Job :=
  { job with
    status := if job.status = .running then .running else .pending
    retryAt := if job.status = .running then job.retryAt else none
    retryRemaining := max job.retryRemaining defaultRetryRemaining
    inputWatermark := some (if job.input < inputWatermark then inputWatermark else job.input + 1) }

/-- The condition of the update that `try_claim_global_phase2_job` makes. -/
def globalClaimable (now : Int) : Bool :=
  job.inputWatermark.any (job.lastSuccess < ·) && !job.active now &&
    job.retryAt.all (· ≤ now) && 0 < job.retryRemaining

def claimGlobal (now : Int) (token : String) (leaseSeconds : Int) : Job :=
  { job with
    status := .running
    ownershipToken := some token
    leaseUntil := some (Memories.leaseUntil now leaseSeconds)
    retryAt := none }

end Job

inductive Stage1JobClaimOutcome
  | claimed (ownershipToken : String)
  | skippedUpToDate
  | skippedRunning
  | skippedRetryBackoff
  | skippedRetryExhausted
  deriving DecidableEq

inductive Phase2JobClaimOutcome
  | claimed (ownershipToken : String) (inputWatermark : Int)
  | skippedNotDirty
  | skippedRunning
  deriving DecidableEq

namespace Database

variable (db : Database)

/-! ## Claims and marks of the first stage -/

/-- The upsert of `try_claim_stage1_job`, if it affects a row. -/
def upsertStage1Job (now : Int) (token : String) (threadId : ThreadId)
    (sourceUpdatedAt leaseSeconds : Int) (maxRunningJobs : Nat) : Option Database :=
  if count (·.active now) db.stage1Jobs < asI64 maxRunningJobs then
    match db.stage1Jobs.lookup threadId with
    | none =>
      some { db with
        stage1Jobs :=
          db.stage1Jobs.insert threadId (.newStage1 now token sourceUpdatedAt leaseSeconds) }
    | some job =>
      if job.stage1Claimable now sourceUpdatedAt &&
          count (·.active now) (db.stage1Jobs.erase threadId) < asI64 maxRunningJobs then
        some { db with
          stage1Jobs :=
            db.stage1Jobs.insert threadId (job.claimStage1 now token sourceUpdatedAt leaseSeconds) }
      else none
  else none

/-- What a claim that affected no row reports. -/
def stage1Skipped (now : Int) (threadId : ThreadId) : Stage1JobClaimOutcome :=
  match db.stage1Jobs.lookup threadId with
  | some job =>
    if job.retryRemaining ≤ 0 then .skippedRetryExhausted
    else if job.retryAt.any (now < ·) then .skippedRetryBackoff
    else .skippedRunning
  | none => .skippedRunning

def tryClaimStage1Job (now : Int) (token : String) (threadId : ThreadId)
    (sourceUpdatedAt leaseSeconds : Int) (maxRunningJobs : Nat) :
    Database × Stage1JobClaimOutcome :=
  if (db.stage1Outputs.lookup threadId).any (sourceUpdatedAt ≤ ·.sourceUpdatedAt) then
    (db, .skippedUpToDate)
  else if (db.stage1Jobs.lookup threadId).any
      (·.lastSuccessWatermark.any (sourceUpdatedAt ≤ ·)) then
    (db, .skippedUpToDate)
  else
    match db.upsertStage1Job now token threadId sourceUpdatedAt leaseSeconds maxRunningJobs with
    | some db => (db, .claimed token)
    | none => (db, db.stage1Skipped now threadId)

/-- An update of the running job of the owner of the token, if there is one. -/
def updateOwnedStage1 (threadId : ThreadId) (token : String) (f : Job → Job) : Option Database :=
  match db.stage1Jobs.lookup threadId with
  | some job =>
    if job.ownedBy token then
      some { db with stage1Jobs := db.stage1Jobs.insert threadId (f job) }
    else none
  | none => none

def enqueueGlobalConsolidation (inputWatermark : Int) : Database :=
  { db with
    globalJob := some (db.globalJob.elim (.newGlobal inputWatermark) (·.enqueue inputWatermark)) }

/-- A new output replaces one that is not newer, and leaves its usage and selection alone. -/
def upsertStage1Output (outputs : Keyed ThreadId Stage1Row) (threadId : ThreadId)
    (sourceUpdatedAt : Int) (rawMemory rolloutSummary : String) (rolloutSlug : Option String) :
    Keyed ThreadId Stage1Row :=
  match outputs.lookup threadId with
  | some row =>
    if row.sourceUpdatedAt ≤ sourceUpdatedAt then
      outputs.insert threadId { row with sourceUpdatedAt, rawMemory, rolloutSummary, rolloutSlug }
    else outputs
  | none =>
    outputs.insert threadId
      ⟨sourceUpdatedAt, rawMemory, rolloutSummary, rolloutSlug, none, none, false, none⟩

/-- An output of a thread that was deleted fails its foreign key, and the mark is rolled back. -/
def markStage1JobSucceeded (threadId : ThreadId) (token : String) (sourceUpdatedAt : Int)
    (rawMemory rolloutSummary : String) (rolloutSlug : Option String) :
    Option (Database × Bool) :=
  match db.updateOwnedStage1 threadId token fun job => job.succeed job.inputWatermark with
  | none => some (db, false)
  | some db =>
    if threadId ∈ db.threads then
      let stage1Outputs := upsertStage1Output db.stage1Outputs threadId sourceUpdatedAt rawMemory
        rolloutSummary rolloutSlug
      some ({ db with stage1Outputs }.enqueueGlobalConsolidation sourceUpdatedAt, true)
    else none

/-- A mark that reads no watermark back fails, and is rolled back. -/
def markStage1JobSucceededNoOutput (threadId : ThreadId) (token : String) :
    Option (Database × Bool) :=
  match db.updateOwnedStage1 threadId token fun job => job.succeed job.inputWatermark with
  | none => some (db, false)
  | some db =>
    match (db.stage1Jobs.lookup threadId).bind (·.inputWatermark) with
    | none => none
    | some sourceUpdatedAt =>
      if threadId ∈ db.stage1Outputs then
        let stage1Outputs := db.stage1Outputs.erase threadId
        some ({ db with stage1Outputs }.enqueueGlobalConsolidation sourceUpdatedAt, true)
      else some (db, true)

def markStage1JobFailed (now : Int) (threadId : ThreadId) (token : String)
    (retryDelaySeconds : Int) : Database × Bool :=
  match db.updateOwnedStage1 threadId token (·.fail now retryDelaySeconds) with
  | none => (db, false)
  | some db => (db, true)

end Database

end Mcodex.Memories
