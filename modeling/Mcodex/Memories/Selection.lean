import Mcodex.Memories.Database

/-!
# Selecting the inputs of the consolidation

The consolidation selects outputs, and a successful one marks those whose snapshot is still stored
as the baseline that later selections are compared with.
-/

namespace Mcodex.Memories

open Table

/-- An output as a selection returns it. -/
structure Stage1Output where
  threadId : ThreadId
  sourceUpdatedAt : Int
  rawMemory : String
  rolloutSummary : String
  rolloutSlug : Option String
  deriving DecidableEq

structure Stage1OutputRef where
  threadId : ThreadId
  sourceUpdatedAt : Int
  rolloutSlug : Option String
  deriving DecidableEq

structure Phase2InputSelection where
  selected : List Stage1Output
  previousSelected : List Stage1Output
  retainedThreadIds : List ThreadId
  removed : List Stage1OutputRef

/-- `length(trim(text)) > 0`: SQLite trims spaces, and a length ends at the first NUL. -/
def nonBlank (text : String) : Bool := (text.toList.find? (· ≠ ' ')).any (·.toNat ≠ 0)

/-- The start of the window of a number of days. -/
def cutoff (now days : Int) : Int := now - max days 0 * 86400

/-- A row with its thread. -/
abbrev Stage1Entry := Sigma fun _ : ThreadId => Stage1Row

namespace Stage1Row

variable (row : Stage1Row)

def recency : Int := row.lastUsage.getD row.sourceUpdatedAt

def nonEmpty : Bool := nonBlank row.rawMemory || nonBlank row.rolloutSummary

/-- The row has the snapshot that the baseline selected. -/
def retained : Bool :=
  row.selectedForPhase2 && row.selectedForPhase2SourceUpdatedAt = some row.sourceUpdatedAt

def unselect : Stage1Row :=
  { row with selectedForPhase2 := false, selectedForPhase2SourceUpdatedAt := none }

/-- The row is selected if it still has the snapshot. -/
def selectSnapshot (sourceUpdatedAt : Int) : Stage1Row :=
  if row.sourceUpdatedAt = sourceUpdatedAt then
    { row with
      selectedForPhase2 := true
      selectedForPhase2SourceUpdatedAt := some sourceUpdatedAt }
  else row

end Stage1Row

namespace Stage1Entry

def output (entry : Stage1Entry) : Stage1Output where
  threadId := entry.1
  sourceUpdatedAt := entry.2.sourceUpdatedAt
  rawMemory := entry.2.rawMemory
  rolloutSummary := entry.2.rolloutSummary
  rolloutSlug := entry.2.rolloutSlug

def ref (entry : Stage1Entry) : Stage1OutputRef where
  threadId := entry.1
  sourceUpdatedAt := entry.2.sourceUpdatedAt
  rolloutSlug := entry.2.rolloutSlug

variable (a b : Stage1Entry)

/-- `source_updated_at DESC, thread_id DESC`. -/
def newer : Bool :=
  if a.2.sourceUpdatedAt = b.2.sourceUpdatedAt then b.1 ≤ a.1
  else b.2.sourceUpdatedAt < a.2.sourceUpdatedAt

/-- `COALESCE(usage_count, 0) DESC, COALESCE(last_usage, source_updated_at) DESC`, and then as
`newer`. -/
def preferred : Bool :=
  if a.2.usageCount.getD 0 = b.2.usageCount.getD 0 then
    if a.2.recency = b.2.recency then newer a b else b.2.recency < a.2.recency
  else b.2.usageCount.getD 0 < a.2.usageCount.getD 0

/-- `COALESCE(last_usage, source_updated_at) ASC, source_updated_at ASC, thread_id ASC`. -/
def staler : Bool :=
  if a.2.recency = b.2.recency then newer b a else a.2.recency < b.2.recency

end Stage1Entry

namespace Database

variable (db : Database)

/-! ## The selection -/

def eligible (cutoff : Int) (entry : Stage1Entry) : Bool :=
  db.threads.lookup entry.1 = some .enabled && entry.2.nonEmpty && cutoff ≤ entry.2.recency

def currentRows (now : Int) (n : Nat) (maxUnusedDays : Int) : List Stage1Entry :=
  ((db.stage1Outputs.entries.filter (db.eligible (cutoff now maxUnusedDays))).mergeSort
    Stage1Entry.preferred).take n

def previousRows : List Stage1Entry :=
  (db.stage1Outputs.entries.filter (·.2.selectedForPhase2)).mergeSort Stage1Entry.newer

def getPhase2InputSelection (now : Int) (n : Nat) (maxUnusedDays : Int) : Phase2InputSelection :=
  if n = 0 then ⟨[], [], [], []⟩
  else
    let current := db.currentRows now n maxUnusedDays
    { selected := current.map (·.output)
      previousSelected := db.previousRows.map (·.output)
      retainedThreadIds := (current.filter (·.2.retained)).map (·.1)
      removed := (db.previousRows.filter fun entry => !(current.map (·.1)).contains entry.1).map
        (·.ref) }

/-- `UPDATE threads SET memory_mode = 'polluted'`, and the consolidation is enqueued for a thread
of the baseline. -/
def markThreadMemoryModePolluted (now : Int) (threadId : ThreadId) : Database × Bool :=
  match db.threads.lookup threadId with
  | none | some .polluted => (db, false)
  | some _ =>
    let polluted := { db with threads := db.threads.insert threadId .polluted }
    if (db.stage1Outputs.lookup threadId).any (·.selectedForPhase2) then
      (polluted.enqueueGlobalConsolidation now, true)
    else (polluted, true)

def stalestRows (now maxUnusedDays : Int) (limit : Nat) : List Stage1Entry :=
  ((db.stage1Outputs.entries.filter fun entry =>
    !entry.2.selectedForPhase2 && entry.2.recency < cutoff now maxUnusedDays).mergeSort
      Stage1Entry.staler).take limit

def pruneStage1OutputsForRetention (now maxUnusedDays : Int) (limit : Nat) : Database × Nat :=
  let stalest := db.stalestRows now maxUnusedDays limit
  ({ db with stage1Outputs := eraseAll (stalest.map (·.1)) db.stage1Outputs }, stalest.length)

def recordUsage (now : Int) (threadId : ThreadId) : Database :=
  { db with
    stage1Outputs := updateKey threadId (fun row =>
      { row with usageCount := some (row.usageCount.getD 0 + 1), lastUsage := some now })
      db.stage1Outputs }

def recordStage1OutputUsage (now : Int) (threadIds : List ThreadId) : Database × Nat :=
  threadIds.foldl (fun (db, updatedRows) threadId =>
    (db.recordUsage now threadId,
      updatedRows + if threadId ∈ db.stage1Outputs then 1 else 0)) (db, 0)

/-! ## Claims and marks of the consolidation -/

def tryClaimGlobalPhase2Job (now : Int) (token : String) (leaseSeconds : Int) :
    Database × Phase2JobClaimOutcome :=
  match db.globalJob with
  | none => (db, .skippedNotDirty)
  | some job =>
    if job.input ≤ job.lastSuccess then (db, .skippedNotDirty)
    else if job.retryRemaining ≤ 0 then (db, .skippedNotDirty)
    else if job.retryAt.any (now < ·) then (db, .skippedNotDirty)
    else if job.active now then (db, .skippedRunning)
    else if job.globalClaimable now then
      ({ db with globalJob := some (job.claimGlobal now token leaseSeconds) },
        .claimed token job.input)
    else (db, .skippedRunning)

/-- An update of the running consolidation, if its token is accepted. -/
def updateGlobal (accepts : Job → Bool) (f : Job → Job) : Database × Bool :=
  match db.globalJob with
  | some job =>
    if job.status = .running && accepts job then ({ db with globalJob := some (f job) }, true)
    else (db, false)
  | none => (db, false)

def updateOwnedGlobal (token : String) (f : Job → Job) : Database × Bool :=
  db.updateGlobal (·.ownershipToken = some token) f

def heartbeatGlobalPhase2Job (now : Int) (token : String) (leaseSeconds : Int) :
    Database × Bool :=
  db.updateOwnedGlobal token fun job =>
    { job with leaseUntil := some (Memories.leaseUntil now leaseSeconds) }

def selectSnapshots (outputs : Keyed ThreadId Stage1Row) (selectedOutputs : List Stage1Output) :
    Keyed ThreadId Stage1Row :=
  selectedOutputs.foldl (fun outputs output =>
    updateKey output.threadId (·.selectSnapshot output.sourceUpdatedAt) outputs)
    (mapRows Stage1Row.unselect outputs)

def markGlobalPhase2JobSucceeded (token : String) (completedWatermark : Int)
    (selectedOutputs : List Stage1Output) : Database × Bool :=
  match db.updateOwnedGlobal token fun job =>
      job.succeed (some (max job.lastSuccess completedWatermark)) with
  | (db, false) => (db, false)
  | (db, true) =>
    ({ db with stage1Outputs := selectSnapshots db.stage1Outputs selectedOutputs }, true)

def markGlobalPhase2JobFailed (now : Int) (token : String) (retryDelaySeconds : Int) :
    Database × Bool :=
  db.updateOwnedGlobal token (·.fail now retryDelaySeconds)

/-- A running row that no token owns is failed as well. -/
def markGlobalPhase2JobFailedIfUnowned (now : Int) (token : String) (retryDelaySeconds : Int) :
    Database × Bool :=
  db.updateGlobal (fun job => job.ownershipToken = some token || job.ownershipToken = none)
    (·.fail now retryDelaySeconds)

/-! ## Threads -/

/-- The mode is that of the creation, or the one that a later update sets. -/
def setThread (threadId : ThreadId) (memoryMode : MemoryMode) : Database :=
  { db with threads := db.threads.insert threadId memoryMode }

/-- The output of a thread is deleted with it. -/
def deleteThread (threadId : ThreadId) : Database :=
  { db with
    threads := db.threads.erase threadId
    stage1Outputs := db.stage1Outputs.erase threadId }

end Database

/-- `get_watermark`. -/
def getWatermark (claimedWatermark : Int) (latestMemories : List Stage1Output) : Int :=
  max ((latestMemories.map (·.sourceUpdatedAt)).max?.getD claimedWatermark) claimedWatermark

end Mcodex.Memories
