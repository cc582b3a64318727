import Mcodex.Lib.Transition
import Mcodex.Memories.Selection
import Mathlib.Data.Finset.Card

/-!
# The memory workers

Workers share the database, and each of their calls is one transaction. `claims` and `runs` are what
the workers hold: the claims of jobs of the first stage that were granted and not marked, and the
runs of the consolidation. Threads come, change and go.
-/

namespace Mcodex.Memories

open Table Transition

structure Stage1Claim where
  threadId : ThreadId
  token : String
  leaseUntil : Int
  deriving DecidableEq

/-- What a run of the consolidation selected, and how many enqueues there were before. -/
structure Phase2Read where
  selected : List Stage1Output
  enqueues : Nat

structure Phase2Run where
  watermark : Int
  leaseUntil : Int
  read : Option Phase2Read

/-- `enqueues` counts the enqueues of the consolidation. `lastSelected` are the outputs that the
last successful run marked; `kept` are the threads of those that still had the snapshot then, and
whose row was not deleted since. -/
structure Workers where
  db : Database
  now : Int
  tokens : Finset String
  claims : Finset Stage1Claim
  runs : Keyed String Phase2Run
  enqueues : Nat
  lastSelected : List Stage1Output
  kept : Finset ThreadId

namespace Workers

def new : Workers := ⟨.empty, 0, ∅, ∅, ∅, 0, [], ∅⟩

variable (t : Workers)

/-- A transaction commits, and may have enqueued the consolidation. -/
def commit (db : Database) (enqueued : Bool) : Workers :=
  { t with
    db
    enqueues := t.enqueues + enqueued.toNat
    kept := t.kept.filter (· ∈ db.stage1Outputs) }

/-- A mark with the token was accepted or not. -/
def mark (threadId : ThreadId) (token : String) (marked : Bool) : Workers :=
  { t with
    claims := t.claims.filter fun claim =>
      ¬ (marked ∧ claim.threadId = threadId ∧ claim.token = token) }

/-- The run of the token ended if the mark was accepted. -/
def endRun (token : String) (marked : Bool) : Workers :=
  { t with runs := if marked then t.runs.erase token else t.runs }

/-- The snapshots that are stored. -/
def stored (selectedOutputs : List Stage1Output) : Finset ThreadId :=
  ((selectedOutputs.filter fun output =>
    (t.db.stage1Outputs.lookup output.threadId).any
      (·.sourceUpdatedAt = output.sourceUpdatedAt)).map (·.threadId)).toFinset

end Workers

def Stage1JobClaimOutcome.claims (threadId : ThreadId) (leaseUntil : Int) :
    Stage1JobClaimOutcome → Finset Stage1Claim
  | claimed token => {⟨threadId, token, leaseUntil⟩}
  | _ => ∅

def Phase2JobClaimOutcome.runs (runs : Keyed String Phase2Run) (leaseUntil : Int) :
    Phase2JobClaimOutcome → Keyed String Phase2Run
  | claimed token watermark => runs.insert token ⟨watermark, leaseUntil, none⟩
  | _ => runs

inductive MemoryStep
  | tick (now : Int)
  | tryClaimStage1Job (token : String) (threadId : ThreadId) (sourceUpdatedAt leaseSeconds : Int)
    (maxRunningJobs : Nat)
  | markStage1JobSucceeded (threadId : ThreadId) (token : String) (sourceUpdatedAt : Int)
    (rawMemory rolloutSummary : String) (rolloutSlug : Option String)
  | markStage1JobSucceededNoOutput (threadId : ThreadId) (token : String)
  | markStage1JobFailed (threadId : ThreadId) (token : String) (retryDelaySeconds : Int)
  | enqueueGlobalConsolidation (inputWatermark : Int)
  | tryClaimGlobalPhase2Job (token : String) (leaseSeconds : Int)
  | heartbeatGlobalPhase2Job (token : String) (leaseSeconds : Int)
  | getPhase2InputSelection (token : String) (n : Nat) (maxUnusedDays : Int)
  | markGlobalPhase2JobSucceeded (token : String) (completedWatermark : Int)
    (selectedOutputs : List Stage1Output)
  | markGlobalPhase2JobFailed (token : String) (retryDelaySeconds : Int)
  | markGlobalPhase2JobFailedIfUnowned (token : String) (retryDelaySeconds : Int)
  | markThreadMemoryModePolluted (threadId : ThreadId)
  | pruneStage1OutputsForRetention (maxUnusedDays : Int) (limit : Nat)
  | recordStage1OutputUsage (threadIds : List ThreadId)
  | setThread (threadId : ThreadId) (memoryMode : MemoryMode)
  | deleteThread (threadId : ThreadId)

/-- The steps, one for each transaction. The clock does not go back, and tokens are fresh. -/
inductive Works : Workers → MemoryStep → Workers → Prop
  | tick {t now} (hnow : t.now ≤ now) : Works t (.tick now) { t with now }
  | tryClaimStage1Job {t token threadId sourceUpdatedAt leaseSeconds maxRunningJobs db outcome}
    (hnew : token ∉ t.tokens)
    (hclaim : t.db.tryClaimStage1Job t.now token threadId sourceUpdatedAt leaseSeconds
      maxRunningJobs = (db, outcome)) :
    Works t (.tryClaimStage1Job token threadId sourceUpdatedAt leaseSeconds maxRunningJobs)
      { t.commit db false with
        tokens := insert token t.tokens
        claims := t.claims ∪ outcome.claims threadId (leaseUntil t.now leaseSeconds) }
  | markStage1JobSucceeded {t threadId token sourceUpdatedAt rawMemory rolloutSummary rolloutSlug db
      marked}
    (hmark : t.db.markStage1JobSucceeded threadId token sourceUpdatedAt rawMemory rolloutSummary
      rolloutSlug = some (db, marked)) :
    Works t (.markStage1JobSucceeded threadId token sourceUpdatedAt rawMemory rolloutSummary
      rolloutSlug) ((t.commit db marked).mark threadId token marked)
  | markStage1JobSucceededNoOutput {t threadId token db marked}
    (hmark : t.db.markStage1JobSucceededNoOutput threadId token = some (db, marked)) :
    Works t (.markStage1JobSucceededNoOutput threadId token)
      ((t.commit db (marked && threadId ∈ t.db.stage1Outputs)).mark threadId token marked)
  | markStage1JobFailed {t threadId token retryDelaySeconds db marked}
    (hmark : t.db.markStage1JobFailed t.now threadId token retryDelaySeconds = (db, marked)) :
    Works t (.markStage1JobFailed threadId token retryDelaySeconds)
      ((t.commit db false).mark threadId token marked)
  | enqueueGlobalConsolidation {t inputWatermark} :
    Works t (.enqueueGlobalConsolidation inputWatermark)
      (t.commit (t.db.enqueueGlobalConsolidation inputWatermark) true)
  | tryClaimGlobalPhase2Job {t token leaseSeconds db outcome} (hnew : token ∉ t.tokens)
    (hclaim : t.db.tryClaimGlobalPhase2Job t.now token leaseSeconds = (db, outcome)) :
    Works t (.tryClaimGlobalPhase2Job token leaseSeconds)
      { t.commit db false with
        tokens := insert token t.tokens
        runs := outcome.runs t.runs (leaseUntil t.now leaseSeconds) }
  | heartbeatGlobalPhase2Job {t token leaseSeconds db marked}
    (hmark : t.db.heartbeatGlobalPhase2Job t.now token leaseSeconds = (db, marked)) :
    Works t (.heartbeatGlobalPhase2Job token leaseSeconds)
      { t.commit db false with
        runs :=
          if marked then
            updateKey token (fun run => { run with leaseUntil := leaseUntil t.now leaseSeconds })
              t.runs
          else t.runs }
  | getPhase2InputSelection {t token n maxUnusedDays run} (hrun : t.runs.lookup token = some run)
    (hread : run.read = none) :
    Works t (.getPhase2InputSelection token n maxUnusedDays)
      { t with
        runs := t.runs.insert token
          { run with
            read := some
              ⟨(t.db.getPhase2InputSelection t.now n maxUnusedDays).selected, t.enqueues⟩ } }
  | markGlobalPhase2JobSucceeded {t token completedWatermark selectedOutputs db marked}
    (hmark : t.db.markGlobalPhase2JobSucceeded token completedWatermark selectedOutputs =
      (db, marked)) :
    Works t (.markGlobalPhase2JobSucceeded token completedWatermark selectedOutputs)
      (({ t.commit db false with
        lastSelected := if marked then selectedOutputs else t.lastSelected
        kept := if marked then t.stored selectedOutputs else t.kept }).endRun token marked)
  | markGlobalPhase2JobFailed {t token retryDelaySeconds db marked}
    (hmark : t.db.markGlobalPhase2JobFailed t.now token retryDelaySeconds = (db, marked)) :
    Works t (.markGlobalPhase2JobFailed token retryDelaySeconds)
      ((t.commit db false).endRun token marked)
  | markGlobalPhase2JobFailedIfUnowned {t token retryDelaySeconds db marked}
    (hmark : t.db.markGlobalPhase2JobFailedIfUnowned t.now token retryDelaySeconds =
      (db, marked)) :
    Works t (.markGlobalPhase2JobFailedIfUnowned token retryDelaySeconds)
      ((t.commit db false).endRun token marked)
  | markThreadMemoryModePolluted {t threadId db marked}
    (hmark : t.db.markThreadMemoryModePolluted t.now threadId = (db, marked)) :
    Works t (.markThreadMemoryModePolluted threadId)
      (t.commit db
        (marked && (t.db.stage1Outputs.lookup threadId).any (·.selectedForPhase2)))
  | pruneStage1OutputsForRetention {t maxUnusedDays limit} :
    Works t (.pruneStage1OutputsForRetention maxUnusedDays limit)
      (t.commit (t.db.pruneStage1OutputsForRetention t.now maxUnusedDays limit).1 false)
  | recordStage1OutputUsage {t threadIds} :
    Works t (.recordStage1OutputUsage threadIds)
      (t.commit (t.db.recordStage1OutputUsage t.now threadIds).1 false)
  | setThread {t threadId memoryMode} :
    Works t (.setThread threadId memoryMode) (t.commit (t.db.setThread threadId memoryMode) false)
  | deleteThread {t threadId} :
    Works t (.deleteThread threadId) (t.commit (t.db.deleteThread threadId) false)

def workers : System Workers MemoryStep where
  init t := t = .new
  step := Works

end Mcodex.Memories
