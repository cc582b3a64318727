import Mcodex.Lib.Transition
import Mcodex.AgentJobs.Items

/-!
# The runner of a job and its workers

The runner goes from statement to statement of `spawn_agents_on_csv` and `run_agent_job_loop`, with
a map of the workers that it watches beside the table; the reports of any threads and the stop
requests come in between. What the runner learns of a worker is whether its thread still runs its
turn; whether a worker timed out, and whether a worker can be spawned, is open. A restart goes back
to the start of the loop, which recovers the running items, with the threads that survived.
-/

namespace Mcodex.AgentJobs

open Transition

/-- A worker, and its item. -/
abbrev Worker := ThreadId × ItemId

/-- Where the runner goes on after it finalized an item. -/
inductive After where
  /-- `recover_running_items`, with the items that it listed and did not reach. -/
  | recover (rest : List AgentJobItem)
  /-- The loop over the finished threads. -/
  | finished (rest : List Worker)
  deriving DecidableEq, Repr

/-- The next statement of the runner. -/
inductive Pc where
  /-- The job is created, and its options are to be built. -/
  | created
  | listRunning
  | recover (rest : List AgentJobItem)
  /-- `finalize_finished_item`: the read of the item, and the write that it led to. -/
  | finalizeRead (worker : Worker) (after : After)
  | finalizeWrite (item : AgentJobItem) (worker : Worker) (after : After)
  | readCancelled
  | loopHead
  | listPending
  | spawn (rest : List AgentJobItem)
  | assign (item : AgentJobItem) (threadId : ThreadId) (rest : List AgentJobItem)
  | reap
  | reaping (stale : List Worker)
  | findFinished
  | finalizing (finished : List Worker)
  | readProgress
  | exporting
  | exportFailed
  | readFinalCancelled
  | completing
  /-- The progress is read once more. -/
  | completed
  | failing
  | done
  deriving DecidableEq, Repr

/-- An accepted report. -/
structure Report where
  threadId : ThreadId
  itemId : ItemId
  resultJson : List Char
  deriving DecidableEq, Repr

structure JobState where
  db : AgentJobDb
  pc : Pc
  activeItems : List Worker
  cancelRequested : Bool
  /-- The threads that run their turns. -/
  live : List ThreadId
  /-- The threads that were spawned, with their items. -/
  spawned : List Worker
  /-- Those of which the assignment was written. -/
  assigned : List Worker
  /-- The accepted reports that asked for a stop, of which the request is to come. -/
  stops : Nat
  reports : List Report
  deriving DecidableEq, Repr

namespace JobState

def create (itemIds : List ItemId) : JobState where
  db := .create itemIds
  pc := .created
  activeItems := []
  cancelRequested := false
  live := []
  spawned := []
  assigned := []
  stops := 0
  reports := []

section
variable (s : JobState)

/-- The item's thread is shut down, and watched no more. -/
def drop (worker : Worker) : JobState :=
  { s with
    live := s.live.filter (· ≠ worker.1)
    activeItems := s.activeItems.filter (·.1 ≠ worker.1) }

def goto (pc : Pc) : JobState := { s with pc }

/-- The write of `finalize_finished_item` for the item that it read. -/
def finalize (item : AgentJobItem) (worker : Worker) : JobState :=
  let db :=
    if item.status = .running then
      if item.resultJson.isSome then (s.db.markAgentJobItemCompleted worker.2).1
      else (s.db.markAgentJobItemFailed worker.2
        "worker finished without calling report_agent_job_result".toList).1
    else s.db
  { s with db }

/-- Where the loop over finished threads goes on: it removes the thread from the map. -/
def resume (worker : Worker) : After → JobState
  | .recover rest => ({ s with live := s.live.filter (· ≠ worker.1) }).goto (.recover rest)
  | .finished rest => (s.drop worker).goto (.finalizing rest)

end

end JobState

/-- The condition to leave the loop when no thread is found finished. -/
def JobState.loopDone (s : JobState) : Bool :=
  let progress := s.db.getAgentJobProgress
  if s.cancelRequested then progress.runningItems = 0 && s.activeItems.isEmpty
  else progress.pendingItems = 0 && progress.runningItems = 0 && s.activeItems.isEmpty

/-- One statement of the runner, which watches at most so many workers at a time. -/
inductive RunnerStep (maxConcurrency : Nat) : JobState → JobState → Prop
  | optionsFailed {s : JobState} (hpc : s.pc = .created) :
    RunnerStep maxConcurrency s (s.goto .failing)
  | markRunning {s : JobState} (hpc : s.pc = .created) :
    RunnerStep maxConcurrency s
      (({ s with db := s.db.markAgentJobRunning } : JobState).goto .listRunning)
  | notRunning {s : JobState} (hpc : s.pc = .created) : RunnerStep maxConcurrency s (s.goto .done)
  -- `recover_running_items`
  | listRunning {s : JobState} (hpc : s.pc = .listRunning) :
    RunnerStep maxConcurrency s
      (s.goto (.recover (s.db.listAgentJobItems (some .running) none)))
  | recoverStale {s : JobState} {item : AgentJobItem} {rest : List AgentJobItem}
    (errorMessage : List Char) (hpc : s.pc = .recover (item :: rest)) :
    RunnerStep maxConcurrency s
      (({ s with
        db := (s.db.markAgentJobItemFailed item.itemId errorMessage).1
        live := s.live.filter (some · ≠ item.assignedThreadId) } : JobState).goto (.recover rest))
  | recoverUnassigned {s : JobState} {item : AgentJobItem} {rest : List AgentJobItem}
    (hpc : s.pc = .recover (item :: rest)) (hassigned : item.assignedThreadId = none) :
    RunnerStep maxConcurrency s
      (({ s with
        db := (s.db.markAgentJobItemFailed item.itemId
          "running item is missing assigned_thread_id".toList).1 } : JobState).goto (.recover rest))
  | recoverFinal {s : JobState} {item : AgentJobItem} {rest : List AgentJobItem}
    {threadId : ThreadId} (hpc : s.pc = .recover (item :: rest))
    (hassigned : item.assignedThreadId = some threadId) (hfinal : threadId ∉ s.live) :
    RunnerStep maxConcurrency s
      (s.goto (.finalizeRead (threadId, item.itemId) (.recover rest)))
  | recoverActive {s : JobState} {item : AgentJobItem} {rest : List AgentJobItem}
    {threadId : ThreadId} (hpc : s.pc = .recover (item :: rest))
    (hassigned : item.assignedThreadId = some threadId) (hlive : threadId ∈ s.live) :
    RunnerStep maxConcurrency s
      (({ s with activeItems := s.activeItems.filter (·.1 ≠ threadId) ++
        [(threadId, item.itemId)] } : JobState).goto (.recover rest))
  | recovered {s : JobState} (hpc : s.pc = .recover []) :
    RunnerStep maxConcurrency s (s.goto .readCancelled)
  -- `finalize_finished_item`
  | finalizeRead {s : JobState} {worker : Worker} {after : After} {item : AgentJobItem}
    (hpc : s.pc = .finalizeRead worker after)
    (hitem : s.db.getAgentJobItem worker.2 = some item) :
    RunnerStep maxConcurrency s (s.goto (.finalizeWrite item worker after))
  | finalizeWrite {s : JobState} {item : AgentJobItem} {worker : Worker} {after : After}
    (hpc : s.pc = .finalizeWrite item worker after) :
    RunnerStep maxConcurrency s ((s.finalize item worker).resume worker after)
  -- the loop
  | readCancelled {s : JobState} (hpc : s.pc = .readCancelled) :
    RunnerStep maxConcurrency s
      (({ s with cancelRequested := s.db.isAgentJobCancelled } : JobState).goto .loopHead)
  | loopHead {s : JobState} (hpc : s.pc = .loopHead) :
    RunnerStep maxConcurrency s
      (({ s with cancelRequested := s.cancelRequested || s.db.isAgentJobCancelled } :
        JobState).goto .listPending)
  | listPending {s : JobState} (hpc : s.pc = .listPending) (hcancel : s.cancelRequested = false)
    (hslots : s.activeItems.length < maxConcurrency) :
    RunnerStep maxConcurrency s
      (s.goto (.spawn (s.db.listAgentJobItems (some .pending)
        (some (maxConcurrency - s.activeItems.length)))))
  | skipPending {s : JobState} (hpc : s.pc = .listPending)
    (hskip : s.cancelRequested ∨ maxConcurrency ≤ s.activeItems.length) :
    RunnerStep maxConcurrency s (s.goto .reap)
  | spawned {s : JobState} {item : AgentJobItem} {rest : List AgentJobItem} {threadId : ThreadId}
    (hpc : s.pc = .spawn (item :: rest)) (hfresh : ∀ worker ∈ s.spawned, worker.1 ≠ threadId)
    (hlive : threadId ∉ s.live) :
    RunnerStep maxConcurrency s
      (({ s with
        live := threadId :: s.live
        spawned := s.spawned ++ [(threadId, item.itemId)] } : JobState).goto
          (.assign item threadId rest))
  | agentLimitReached {s : JobState} {item : AgentJobItem} {rest : List AgentJobItem}
    (hpc : s.pc = .spawn (item :: rest)) :
    RunnerStep maxConcurrency s
      (({ s with db := (s.db.markAgentJobItemPending item.itemId none).1 } : JobState).goto .reap)
  | spawnFailed {s : JobState} {item : AgentJobItem} {rest : List AgentJobItem}
    (errorMessage : List Char) (hpc : s.pc = .spawn (item :: rest)) :
    RunnerStep maxConcurrency s
      (({ s with db := (s.db.markAgentJobItemFailed item.itemId errorMessage).1 } :
        JobState).goto (.spawn rest))
  | assigned {s : JobState} {item : AgentJobItem} {rest : List AgentJobItem} {threadId : ThreadId}
    (hpc : s.pc = .assign item threadId rest)
    (hassigned : (s.db.markAgentJobItemRunningWithThread item.itemId threadId).2 = true) :
    RunnerStep maxConcurrency s
      (({ s with
        db := (s.db.markAgentJobItemRunningWithThread item.itemId threadId).1
        assigned := s.assigned ++ [(threadId, item.itemId)]
        activeItems := s.activeItems.filter (·.1 ≠ threadId) ++ [(threadId, item.itemId)] } :
          JobState).goto (.spawn rest))
  | notAssigned {s : JobState} {item : AgentJobItem} {rest : List AgentJobItem}
    {threadId : ThreadId} (hpc : s.pc = .assign item threadId rest)
    (hassigned : (s.db.markAgentJobItemRunningWithThread item.itemId threadId).2 = false) :
    RunnerStep maxConcurrency s
      (({ s with live := s.live.filter (· ≠ threadId) } : JobState).goto (.spawn rest))
  | spawnedAll {s : JobState} (hpc : s.pc = .spawn []) :
    RunnerStep maxConcurrency s (s.goto .reap)
  -- `reap_stale_active_items`
  | reap {s : JobState} {stale : List Worker} (hpc : s.pc = .reap)
    (hstale : stale.Sublist s.activeItems) :
    RunnerStep maxConcurrency s (s.goto (.reaping stale))
  | reapItem {s : JobState} {worker : Worker} {stale : List Worker} (errorMessage : List Char)
    (hpc : s.pc = .reaping (worker :: stale)) :
    RunnerStep maxConcurrency s
      ((({ s with db := (s.db.markAgentJobItemFailed worker.2 errorMessage).1 } :
        JobState).drop worker).goto (.reaping stale))
  | reaped {s : JobState} (hpc : s.pc = .reaping []) :
    RunnerStep maxConcurrency s (s.goto .findFinished)
  -- the statuses are read one after the other, while workers finish
  | findFinished {s : JobState} {finished : List Worker} (hpc : s.pc = .findFinished)
    (hactive : finished.Sublist s.activeItems) (hfinal : ∀ worker ∈ finished, worker.1 ∉ s.live) :
    RunnerStep maxConcurrency s
      (s.goto (if finished.isEmpty then .readProgress else .finalizing finished))
  | nextFinished {s : JobState} {worker : Worker} {finished : List Worker}
    (hpc : s.pc = .finalizing (worker :: finished)) :
    RunnerStep maxConcurrency s (s.goto (.finalizeRead worker (.finished finished)))
  | finalizedAll {s : JobState} (hpc : s.pc = .finalizing []) :
    RunnerStep maxConcurrency s (s.goto .loopHead)
  | readProgress {s : JobState} (hpc : s.pc = .readProgress) :
    RunnerStep maxConcurrency s (s.goto (if s.loopDone then .exporting else .loopHead))
  -- after the loop
  | exported {s : JobState} (hpc : s.pc = .exporting) :
    RunnerStep maxConcurrency s (s.goto .readFinalCancelled)
  | notExported {s : JobState} (hpc : s.pc = .exporting) :
    RunnerStep maxConcurrency s (s.goto .exportFailed)
  | readFinalCancelled {s : JobState} (hpc : s.pc = .readFinalCancelled) :
    RunnerStep maxConcurrency s
      (s.goto (if s.cancelRequested || s.db.isAgentJobCancelled then .done else .completing))
  | finished {s : JobState} (hpc : s.pc = .completed) : RunnerStep maxConcurrency s (s.goto .done)
  -- a statement fails, and the loop with it
  | error {s : JobState} (hpc : s.pc ≠ .created) (hdone : s.pc ≠ .done) :
    RunnerStep maxConcurrency s (s.goto .failing)
  | notFailed {s : JobState} (hpc : s.pc = .failing) : RunnerStep maxConcurrency s (s.goto .done)

/-- A write of the job's last status by the runner. -/
inductive FinalWrite : JobState → JobState → Prop
  | exportFailed {s : JobState} (errorMessage : List Char) (hpc : s.pc = .exportFailed) :
    FinalWrite s (({ s with db := s.db.markAgentJobFailed errorMessage } : JobState).goto .done)
  | completed {s : JobState} (hpc : s.pc = .completing) :
    FinalWrite s (({ s with db := s.db.markAgentJobCompleted } : JobState).goto .completed)
  | failed {s : JobState} (errorMessage : List Char) (hpc : s.pc = .failing) :
    FinalWrite s (({ s with db := s.db.markAgentJobFailed errorMessage } : JobState).goto .done)

inductive Action where
  | runner
  | finalWrite
  | report (threadId : ThreadId) (itemId : ItemId) (resultJson : List Char) (stop : Bool)
  | stop
  | finish (threadId : ThreadId)
  | restart
  deriving DecidableEq, Repr

/-- `report_agent_job_result`, up to the request to stop. -/
def JobState.report (s : JobState) (threadId : ThreadId) (itemId : ItemId)
    (resultJson : List Char) (stop : Bool) : JobState :=
  let (db, accepted) := s.db.reportAgentJobItemResult itemId threadId resultJson
  { s with
    db
    reports := if accepted then s.reports ++ [⟨threadId, itemId, resultJson⟩] else s.reports
    stops := if accepted && stop then s.stops + 1 else s.stops }

inductive JobStep (maxConcurrency : Nat) : JobState → Action → JobState → Prop
  | runner {s t : JobState} (h : RunnerStep maxConcurrency s t) : JobStep maxConcurrency s .runner t
  | finalWrite {s t : JobState} (h : FinalWrite s t) : JobStep maxConcurrency s .finalWrite t
  | report {s : JobState} (threadId : ThreadId) (itemId : ItemId) (resultJson : List Char)
    (stop : Bool) :
    JobStep maxConcurrency s (.report threadId itemId resultJson stop)
      (s.report threadId itemId resultJson stop)
  | stop {s : JobState} {stops : Nat} (hstops : s.stops = stops + 1) :
    JobStep maxConcurrency s .stop { s with
      db := (s.db.markAgentJobCancelled "cancelled by worker request".toList).1
      stops }
  | finish {s : JobState} {threadId : ThreadId} (hlive : threadId ∈ s.live) :
    JobStep maxConcurrency s (.finish threadId) { s with live := s.live.filter (· ≠ threadId) }
  | restart {s : JobState} {live : List ThreadId} {stops : Nat} (hlive : live.Sublist s.live)
    (hstops : stops ≤ s.stops) :
    JobStep maxConcurrency s .restart { s with
      pc := .listRunning, activeItems := [], cancelRequested := false, live, stops }

/-- A job with these items, its runner and its workers. -/
def agentJob (maxConcurrency : Nat) : System JobState Action where
  init s := ∃ itemIds : List ItemId, itemIds.Nodup ∧ s = .create itemIds
  step := JobStep maxConcurrency

section
variable {maxConcurrency : Nat} {s t u : JobState} {a : Action}

theorem itemsStep_finalize (item : AgentJobItem) (worker : Worker) :
    ItemsStep s.db (s.finalize item worker).db := by
  rw [JobState.finalize]
  split
  · split
    · exact itemsStep_complete
    · exact itemsStep_fail _
  · exact itemsStep_refl

@[simp] theorem goto_db (pc : Pc) : (s.goto pc).db = s.db := rfl

@[simp] theorem drop_db (worker : Worker) : (s.drop worker).db = s.db := rfl

@[simp] theorem resume_db (worker : Worker) (after : After) : (s.resume worker after).db = s.db := by
  cases after <;> rfl

/-- Whatever happens is a step of each item. -/
theorem RunnerStep.itemsStep (h : RunnerStep maxConcurrency s t) : ItemsStep s.db t.db := by
  cases h with
  | recoverStale | recoverUnassigned | spawnFailed | reapItem => exact itemsStep_fail _
  | finalizeWrite =>
    rw [resume_db]
    exact itemsStep_finalize _ _
  | agentLimitReached => exact itemsStep_release _
  | assigned => exact itemsStep_assign _
  | _ => exact .of_items_eq rfl

theorem FinalWrite.itemsStep (h : FinalWrite s t) : ItemsStep s.db t.db := by
  cases h <;> exact .of_items_eq rfl

theorem markAgentJobCancelled_items (db : AgentJobDb) (reason : List Char) :
    (db.markAgentJobCancelled reason).1.items = db.items := by
  rw [AgentJobDb.markAgentJobCancelled]
  split <;> rfl

theorem JobStep.itemsStep (h : JobStep maxConcurrency s a t) : ItemsStep s.db t.db := by
  cases h with
  | runner h => exact h.itemsStep
  | finalWrite h => exact h.itemsStep
  | report threadId itemId resultJson stop => exact itemsStep_report _ _
  | stop => exact .of_items_eq (markAgentJobCancelled_items _ _)
  | finish | restart => exact itemsStep_refl

end

end Mcodex.AgentJobs
