import Mcodex.Lib.Table
import Mcodex.ExecServer.ProcessEvents
import Mathlib.Data.Finset.Basic

/-!
# Starting processes, and shutting down

A start puts a marker into the table, spawns, and then puts the process into the table, whatever is
there by then. The tasks of a process find it by its id. So a shutdown that takes the marker out
misses the process, and a task that is late meets the process of a later start. `Ordered` runs have
neither.
-/

namespace Mcodex.ExecServer

open Table Transition

abbrev ProcessId := String

/-- A process of the table is the one that the start of its number spawned. -/
inductive ProcessEntry
  | starting
  | running (number : Nat) (process : RunningProcess)
  deriving DecidableEq

/-- What a task does to the entry it finds. -/
def ProcessEntry.update (f : RunningProcess → RunningProcess) : ProcessEntry → ProcessEntry
  | starting => starting
  | running number process => running number (f process)

/-- A `start_process` call between its two lock sections. -/
structure StartCall where
  number : Nat
  processId : ProcessId
  spawned : Bool
  deriving DecidableEq

/-- The tasks of a process, and how many retention tasks they left. -/
structure ProcessTasks where
  processId : ProcessId
  stream : Pipe → ExecOutputStream
  pipes : Pipe → StreamPhase
  exit : ExitPhase
  retention : Nat

/-- No task of the process comes back to the table. -/
def ProcessTasks.Ended (tasks : ProcessTasks) : Prop :=
  (∀ pipe, tasks.pipes pipe = .ended) ∧ tasks.exit = .ended ∧ tasks.retention = 0

/-- The table, the calls and the tasks; `alive` are the spawned processes that neither exited nor
were terminated, and the starts below `covered` were made before the last shutdown returned. -/
structure LocalProcess where
  processes : Keyed ProcessId ProcessEntry
  starts : List StartCall
  next : Nat
  tasks : Keyed Nat ProcessTasks
  alive : Finset Nat
  covered : Nat

namespace LocalProcess

def new : LocalProcess where
  processes := ∅
  starts := []
  next := 0
  tasks := ∅
  alive := ∅
  covered := 0

variable (t : LocalProcess)

/-- The number of the process that is in the table under an id. -/
def runningNumber (processId : ProcessId) : Option Nat :=
  match t.processes.lookup processId with
  | some (.running number _) => some number
  | some .starting | none => none

/-- A process dropped from the table is terminated. -/
def dropped (processId : ProcessId) : Finset Nat :=
  match t.runningNumber processId with
  | some number => {number}
  | none => ∅

/-- The numbers of the processes in the table. -/
def runningNumbers : Finset Nat :=
  (t.processes.entries.filterMap fun entry =>
    match entry.2 with
    | .running number _ => some number
    | .starting => none).toFinset

def updateEntry (processId : ProcessId) (f : RunningProcess → RunningProcess) : LocalProcess :=
  { t with processes := updateKey processId (·.update f) t.processes }

def setTasks (number : Nat) (tasks : ProcessTasks) : LocalProcess :=
  { t with tasks := t.tasks.insert number tasks }

/-- A task changes the entry under the id of its process. -/
def update (number : Nat) (tasks : ProcessTasks) (f : RunningProcess → RunningProcess) :
    LocalProcess := (t.updateEntry tasks.processId f).setTasks number tasks

end LocalProcess

def ProcessTasks.setPhase (tasks : ProcessTasks) (pipe : Pipe) (phase : StreamPhase) :
    ProcessTasks :=
  { tasks with pipes := fun pipe' => if pipe' = pipe then phase else tasks.pipes pipe' }

/-- `maybe_emit_closed` closes the process under the id. -/
def RunningProcess.close (process : RunningProcess) : RunningProcess :=
  (process.maybeEmitClosed.map (·.2)).getD process

/-- `maybe_emit_closed` leaves a retention task if it closed a process. -/
def ProcessTasks.afterClose (tasks : ProcessTasks) (t : LocalProcess) : ProcessTasks :=
  match t.processes.lookup tasks.processId with
  | some (.running _ process) =>
    if process.maybeEmitClosed.isSome then { tasks with retention := tasks.retention + 1 } else tasks
  | some .starting | none => tasks

inductive LocalStep
  | start (processId : ProcessId)
  | spawn (number : Nat)
  | spawnFailed (number : Nat)
  | install (number : Nat)
  | output (number : Nat) (pipe : Pipe) (bytes : List UInt8)
  | outputEnd (number : Nat) (pipe : Pipe)
  | finish (number : Nat) (pipe : Pipe)
  | closeAfterOutput (number : Nat) (pipe : Pipe)
  | exit (number : Nat) (exitCode : Int)
  | closeAfterExit (number : Nat)
  | retention (number : Nat)
  | terminate (processId : ProcessId)
  | processExits (number : Nat)
  | shutdown

/-- The process whose task takes a step. -/
def LocalStep.task : LocalStep → Option Nat
  | output number _ _ | outputEnd number _ | finish number _ | closeAfterOutput number _
  | exit number _ | closeAfterExit number | retention number => some number
  | start _ | spawn _ | spawnFailed _ | install _ | terminate _ | processExits _ | shutdown => none

/-- The steps, one for each section that holds the lock. -/
inductive Runs : LocalProcess → LocalStep → LocalProcess → Prop
  | startKnown {t processId} (hknown : processId ∈ t.processes) : Runs t (.start processId) t
  | start {t processId} (hnew : processId ∉ t.processes) :
    Runs t (.start processId) { t with
      processes := t.processes.insert processId .starting
      starts := t.starts ++ [⟨t.next, processId, false⟩]
      next := t.next + 1 }
  | spawn {t number processId} {before after : List StartCall}
    (hcall : t.starts = before ++ ⟨number, processId, false⟩ :: after) :
    Runs t (.spawn number) { t with
      starts := before ++ ⟨number, processId, true⟩ :: after
      alive := insert number t.alive }
  | spawnFailed {t number processId} {before after : List StartCall}
    (hcall : t.starts = before ++ ⟨number, processId, false⟩ :: after) :
    Runs t (.spawnFailed number) { t with
      processes := if t.processes.lookup processId = some .starting then
        t.processes.erase processId else t.processes
      starts := before ++ after }
  | install {t number processId stream} {before after : List StartCall}
    (hcall : t.starts = before ++ ⟨number, processId, true⟩ :: after) :
    Runs t (.install number) { t with
      processes := t.processes.insert processId (.running number .new)
      starts := before ++ after
      tasks := t.tasks.insert number ⟨processId, stream, fun _ => .reading, .waiting, 0⟩
      alive := t.alive \ t.dropped processId }
  | output {t number tasks pipe bytes} (htasks : t.tasks.lookup number = some tasks)
    (hphase : tasks.pipes pipe = .reading) :
    Runs t (.output number pipe bytes)
      (t.update number
        (if (t.runningNumber tasks.processId).isSome then tasks else tasks.setPhase pipe .finishing)
        fun process => (process.pushOutput (tasks.stream pipe) bytes).2)
  | outputEnd {t number tasks pipe} (htasks : t.tasks.lookup number = some tasks)
    (hphase : tasks.pipes pipe = .reading) :
    Runs t (.outputEnd number pipe) (t.update number (tasks.setPhase pipe .finishing) id)
  | finish {t number tasks pipe} (htasks : t.tasks.lookup number = some tasks)
    (hphase : tasks.pipes pipe = .finishing) :
    Runs t (.finish number pipe)
      (t.update number (tasks.setPhase pipe
        (if (t.runningNumber tasks.processId).isSome then .closing else .ended))
        (·.finishOutputStream))
  | closeAfterOutput {t number tasks pipe} (htasks : t.tasks.lookup number = some tasks)
    (hphase : tasks.pipes pipe = .closing) :
    Runs t (.closeAfterOutput number pipe)
      (t.update number ((tasks.afterClose t).setPhase pipe .ended) (·.close))
  | exit {t number tasks exitCode} (htasks : t.tasks.lookup number = some tasks)
    (hexit : tasks.exit = .waiting) (hdead : number ∉ t.alive) :
    Runs t (.exit number exitCode)
      (t.update number { tasks with exit := .closing } fun process => (process.exit exitCode).2)
  | closeAfterExit {t number tasks} (htasks : t.tasks.lookup number = some tasks)
    (hexit : tasks.exit = .closing) :
    Runs t (.closeAfterExit number)
      (t.update number { tasks.afterClose t with exit := .ended } (·.close))
  | retentionKept {t number tasks} (htasks : t.tasks.lookup number = some tasks)
    (hretention : tasks.retention ≠ 0)
    (hnot : ∀ number' process,
      t.processes.lookup tasks.processId = some (.running number' process) → ¬ process.closed) :
    Runs t (.retention number) { t with
      tasks := t.tasks.insert number { tasks with retention := tasks.retention - 1 } }
  | retention {t number tasks number' process} (htasks : t.tasks.lookup number = some tasks)
    (hretention : tasks.retention ≠ 0)
    (hentry : t.processes.lookup tasks.processId = some (.running number' process))
    (hclosed : process.closed) :
    Runs t (.retention number) { t with
      processes := t.processes.erase tasks.processId
      tasks := t.tasks.insert number { tasks with retention := tasks.retention - 1 }
      alive := t.alive.erase number' }
  | terminate {t processId number process}
    (hentry : t.processes.lookup processId = some (.running number process))
    (hexitCode : process.exitCode = none) :
    Runs t (.terminate processId) { t with alive := t.alive.erase number }
  | processExits {t number} :
    Runs t (.processExits number) { t with alive := t.alive.erase number }
  | shutdown {t} : Runs t .shutdown { t with
      processes := ∅
      alive := t.alive \ t.runningNumbers
      covered := t.next }

def localProcess : System LocalProcess LocalStep where
  init t := t = .new
  step := Runs

/-! ## Ordered runs -/

/-- A shutdown comes while no start is between its lock sections, and a start under an id comes when
the tasks of all earlier processes of that id have ended. -/
def Ordered (t : LocalProcess) : LocalStep → Prop
  | .shutdown => t.starts = []
  | .start processId => ∀ number tasks, t.tasks.lookup number = some tasks →
    tasks.processId = processId → tasks.Ended
  | _ => True

section
variable {t t' : LocalProcess} {number : Nat} {processId : ProcessId} {tasks tasks' : ProcessTasks}
  {process : RunningProcess} {call : StartCall} {before after : List StartCall}

theorem mem_runningNumbers : number ∈ t.runningNumbers ↔
    ∃ processId process, t.processes.lookup processId = some (.running number process) := by
  rw [LocalProcess.runningNumbers, List.mem_toFinset, List.mem_filterMap]
  constructor
  · rintro ⟨⟨processId, entry⟩, hmem, hnumber⟩
    cases entry with
    | starting => cases hnumber
    | running number' process =>
      cases hnumber
      exact ⟨processId, process, AList.mem_lookup_iff.2 hmem⟩
  · rintro ⟨processId, process, hlookup⟩
    exact ⟨⟨processId, .running number process⟩, AList.mem_lookup_iff.1 hlookup, rfl⟩

/-- What ordered runs keep. A start has its own marker, under an id whose processes have ended; the
process of an entry is the only one of its id that has not ended; and a process that is alive is in
the table or about to be. -/
structure Owned (t : LocalProcess) : Prop where
  starting : ∀ call ∈ t.starts, t.processes.lookup call.processId = some .starting
  apart : (t.starts.map (·.processId)).Nodup
  numbered : (t.starts.map (·.number)).Nodup
  fresh : ∀ call ∈ t.starts, call.number < t.next ∧ call.number ∉ t.tasks
  below : ∀ number ∈ t.tasks, number < t.next
  idle : ∀ call ∈ t.starts, ∀ number tasks, t.tasks.lookup number = some tasks →
    tasks.processId = call.processId → tasks.Ended
  owner : ∀ processId number process,
    t.processes.lookup processId = some (.running number process) →
      (∃ tasks, t.tasks.lookup number = some tasks ∧ tasks.processId = processId) ∧
      ∀ number' tasks, t.tasks.lookup number' = some tasks → tasks.processId = processId →
        number' ≠ number → tasks.Ended
  alive : ∀ number ∈ t.alive, (∃ call ∈ t.starts, call.number = number ∧ call.spawned) ∨
    number ∈ t.runningNumbers
  covered : t.covered ≤ t.next ∧ (∀ call ∈ t.starts, t.covered ≤ call.number) ∧
    ∀ number ∈ t.alive, t.covered ≤ number

namespace Owned

theorem new : Owned .new where
  starting _ hmem := nomatch hmem
  apart := .nil
  numbered := .nil
  fresh _ hmem := nomatch hmem
  below _ hmem := nomatch hmem
  idle _ hmem := nomatch hmem
  owner _ _ _ hlookup := nomatch hlookup
  alive _ hmem := nomatch hmem
  covered := ⟨le_refl 0, fun _ hmem => (nomatch hmem), fun _ hmem => nomatch hmem⟩

/-- The other starts have other ids and numbers. -/
theorem other (h : Owned t) (hcall : t.starts = before ++ call :: after) {call' : StartCall}
    (hmem : call' ∈ before ++ after) : call' ∈ t.starts ∧ call'.processId ≠ call.processId ∧
      call'.number ≠ call.number := by
  have hstarts : call' ∈ t.starts := by
    rw [hcall]
    rcases List.mem_append.1 hmem with hmem | hmem
    · exact List.mem_append_left _ hmem
    · exact List.mem_append_right _ (List.mem_cons_of_mem _ hmem)
  have hapart := h.apart
  have hnumbered := h.numbered
  rw [hcall, List.map_append, List.map_cons, List.nodup_middle, ← List.map_append,
    List.nodup_cons] at hapart hnumbered
  refine ⟨hstarts, fun heq => hapart.1 ?_, fun heq => hnumbered.1 ?_⟩
  · exact heq ▸ List.mem_map_of_mem hmem
  · exact heq ▸ List.mem_map_of_mem hmem

theorem mem_call (hcall : t.starts = before ++ call :: after) : call ∈ t.starts := by
  rw [hcall]
  exact List.mem_append_right _ List.mem_cons_self

theorem apart_rest (h : Owned t) (hcall : t.starts = before ++ call :: after) :
    ((before ++ after).map (·.processId)).Nodup ∧ ((before ++ after).map (·.number)).Nodup := by
  have hapart := h.apart
  have hnumbered := h.numbered
  rw [hcall, List.map_append, List.map_cons, List.nodup_middle, ← List.map_append,
    List.nodup_cons] at hapart hnumbered
  exact ⟨hapart.2, hnumbered.2⟩

/-- A task that has not ended finds its own process, or none. -/
theorem own (h : Owned t) (htasks : t.tasks.lookup number = some tasks) (hnot : ¬ tasks.Ended)
    {number' : Nat} (hentry : t.processes.lookup tasks.processId = some (.running number' process)) :
    number' = number := by
  by_contra hne
  exact hnot ((h.owner _ _ _ hentry).2 number tasks htasks rfl (Ne.symm hne))

/-- Processes that are gone leave the others alone. -/
theorem dead (h : Owned t) {alive : Finset Nat} (hsub : alive ⊆ t.alive) :
    Owned { t with alive } :=
  { h with
    alive := fun number hmem => h.alive number (hsub hmem)
    covered := ⟨h.covered.1, h.covered.2.1, fun number hmem => h.covered.2.2 number (hsub hmem)⟩ }

theorem lookup_updateEntry {f : RunningProcess → RunningProcess} {processId' : ProcessId} :
    (t.updateEntry processId f).processes.lookup processId' =
      if processId' = processId then (t.processes.lookup processId').map (·.update f)
      else t.processes.lookup processId' := lookup_updateKey _ _

/-- What a task does to the entry keeps whose it is. -/
theorem running_updateEntry {f : RunningProcess → RunningProcess} {processId' : ProcessId} :
    (∃ process, (t.updateEntry processId f).processes.lookup processId' =
      some (.running number process)) ↔
    ∃ process, t.processes.lookup processId' = some (.running number process) := by
  rw [lookup_updateEntry]
  split
  · cases t.processes.lookup processId' with
    | none => exact ⟨fun ⟨_, hnone⟩ => (nomatch hnone), fun ⟨_, hnone⟩ => nomatch hnone⟩
    | some entry =>
      cases entry with
      | starting => exact ⟨fun ⟨_, hnone⟩ => (nomatch hnone), fun ⟨_, hnone⟩ => nomatch hnone⟩
      | running number' process =>
        constructor
        · rintro ⟨_, heq⟩
          cases heq
          exact ⟨process, rfl⟩
        · rintro ⟨_, heq⟩
          cases heq
          exact ⟨f process, rfl⟩
  · rfl

/-- A task of a process goes on. -/
theorem goOn (h : Owned t) (htasks : t.tasks.lookup number = some tasks) (hnot : ¬ tasks.Ended)
    (hid : tasks'.processId = tasks.processId) :
    Owned (t.setTasks number tasks') where
  starting := h.starting
  apart := h.apart
  numbered := h.numbered
  fresh call hmem := by
    obtain ⟨hlt, hfresh⟩ := h.fresh call hmem
    refine ⟨hlt, fun hcall => ?_⟩
    rcases (AList.mem_insert _).1 hcall with heq | hcall
    · rw [heq, ← AList.lookup_isSome, htasks] at hfresh
      exact hfresh rfl
    · exact hfresh hcall
  below number' hmem := by
    rcases (AList.mem_insert _).1 hmem with heq | hmem
    · rw [heq]
      exact h.below number (AList.lookup_isSome.1 (by rw [htasks]; rfl))
    · exact h.below number' hmem
  idle call hmem number' tasks'' hlookup heq := by
    rw [LocalProcess.setTasks, lookup_insert] at hlookup
    split at hlookup
    · cases hlookup
      exact absurd (h.idle call hmem number tasks htasks (hid.symm.trans heq)) hnot
    · exact h.idle call hmem number' tasks'' hlookup heq
  owner processId number' process hentry := by
    obtain ⟨⟨tasks'', hlookup, heq⟩, hothers⟩ := h.owner processId number' process hentry
    refine ⟨?_, fun number'' tasks''' hlookup' heq' hne => ?_⟩
    · show ∃ tasks'', (t.tasks.insert number tasks').lookup number' = _ ∧ _
      rw [lookup_insert]
      split
      · rename_i hsame
        subst hsame
        cases htasks.symm.trans hlookup
        exact ⟨tasks', rfl, hid.trans heq⟩
      · exact ⟨tasks'', hlookup, heq⟩
    · rw [LocalProcess.setTasks, lookup_insert] at hlookup'
      split at hlookup'
      · rename_i hsame
        subst hsame
        cases hlookup'
        exact absurd (hothers _ tasks htasks (hid.symm.trans heq') hne) hnot
      · exact hothers number'' tasks''' hlookup' heq' hne
  alive := h.alive
  covered := h.covered

theorem updateEntry (h : Owned t) (processId : ProcessId) (f : RunningProcess → RunningProcess) :
    Owned (t.updateEntry processId f) where
  starting call hmem := by
    rw [lookup_updateEntry, h.starting call hmem]
    split <;> rfl
  apart := h.apart
  numbered := h.numbered
  fresh := h.fresh
  below := h.below
  idle := h.idle
  owner processId' number process hentry := by
    obtain ⟨process', hentry'⟩ := running_updateEntry.1 ⟨process, hentry⟩
    exact h.owner processId' number process' hentry'
  alive number hmem := by
    refine (h.alive number hmem).imp_right fun hrunning => ?_
    obtain ⟨processId', hentry⟩ := mem_runningNumbers.1 hrunning
    exact mem_runningNumbers.2 ⟨processId', running_updateEntry.2 hentry⟩
  covered := h.covered

theorem update (h : Owned t) (htasks : t.tasks.lookup number = some tasks) (hnot : ¬ tasks.Ended)
    (hid : tasks'.processId = tasks.processId) (f : RunningProcess → RunningProcess) :
    Owned (t.update number tasks' f) :=
  (h.updateEntry tasks'.processId f).goOn (by exact htasks) hnot hid

theorem start (h : Owned t) (hnew : processId ∉ t.processes)
    (hended : ∀ number tasks, t.tasks.lookup number = some tasks → tasks.processId = processId →
      tasks.Ended) :
    Owned { t with
      processes := t.processes.insert processId .starting
      starts := t.starts ++ [⟨t.next, processId, false⟩]
      next := t.next + 1 } := by
  have hnone : t.processes.lookup processId = none := AList.lookup_eq_none.2 hnew
  have hother {call : StartCall} (hcall : call ∈ t.starts) : call.processId ≠ processId := by
    intro heq
    have hstarting := h.starting call hcall
    rw [heq, hnone] at hstarting
    cases hstarting
  have hrunning {processId' : ProcessId} {number : Nat} {process : RunningProcess} :
      (t.processes.insert processId .starting).lookup processId' = some (.running number process) ↔
        t.processes.lookup processId' = some (.running number process) := by
    rw [lookup_insert]
    split
    · rename_i heq
      rw [heq, hnone]
      exact ⟨fun heq => (nomatch heq), fun heq => nomatch heq⟩
    · rfl
  exact {
    starting := fun call hmem => by
      show (t.processes.insert processId .starting).lookup call.processId = _
      rw [lookup_insert]
      rcases List.mem_append.1 hmem with hmem | hmem
      · rw [if_neg (hother hmem)]
        exact h.starting call hmem
      · rw [List.mem_singleton.1 hmem, if_pos rfl]
    apart := by
      rw [List.map_append, List.map_singleton]
      refine List.Nodup.append h.apart (List.nodup_singleton _) ?_
      intro processId' hmem hsingle
      obtain ⟨call, hcall, rfl⟩ := List.mem_map.1 hmem
      exact hother hcall (List.mem_singleton.1 hsingle)
    numbered := by
      rw [List.map_append, List.map_singleton]
      refine List.Nodup.append h.numbered (List.nodup_singleton _) ?_
      intro number hmem hsingle
      obtain ⟨call, hcall, rfl⟩ := List.mem_map.1 hmem
      exact Nat.ne_of_lt (h.fresh call hcall).1 (List.mem_singleton.1 hsingle)
    fresh := fun call hmem => by
      rcases List.mem_append.1 hmem with hmem | hmem
      · obtain ⟨hlt, hfresh⟩ := h.fresh call hmem
        exact ⟨Nat.lt_succ_of_lt hlt, hfresh⟩
      · rw [List.mem_singleton.1 hmem]
        exact ⟨Nat.lt_succ_self _, fun hmem => lt_irrefl _ (h.below _ hmem)⟩
    below := fun number hmem => Nat.lt_succ_of_lt (h.below number hmem)
    idle := fun call hmem number tasks hlookup heq => by
      rcases List.mem_append.1 hmem with hmem | hmem
      · exact h.idle call hmem number tasks hlookup heq
      · rw [List.mem_singleton.1 hmem] at heq
        exact hended number tasks hlookup heq
    owner := fun processId' number process hentry =>
      h.owner processId' number process (hrunning.1 hentry)
    alive := fun number hmem => by
      rcases h.alive number hmem with ⟨call, hcall, hnumber⟩ | hmem
      · exact .inl ⟨call, List.mem_append_left _ hcall, hnumber⟩
      · obtain ⟨processId', process, hentry⟩ := mem_runningNumbers.1 hmem
        exact .inr (mem_runningNumbers.2 ⟨processId', process, hrunning.2 hentry⟩)
    covered := by
      obtain ⟨hnext, hstarts, halive⟩ := h.covered
      refine ⟨Nat.le_succ_of_le hnext, fun call hmem => ?_, halive⟩
      rcases List.mem_append.1 hmem with hmem | hmem
      · exact hstarts call hmem
      · rw [List.mem_singleton.1 hmem]
        exact hnext }

theorem spawn (h : Owned t) (hcall : t.starts = before ++ ⟨number, processId, false⟩ :: after) :
    Owned { t with
      starts := before ++ ⟨number, processId, true⟩ :: after
      alive := insert number t.alive } := by
  have hmem {call : StartCall} (hmem : call ∈ before ++ ⟨number, processId, true⟩ :: after) :
      ∃ call' ∈ t.starts, call'.number = call.number ∧ call'.processId = call.processId := by
    rw [hcall]
    rcases List.mem_append.1 hmem with hmem | hmem
    · exact ⟨call, List.mem_append_left _ hmem, rfl, rfl⟩
    · rcases List.mem_cons.1 hmem with rfl | hmem
      · exact ⟨⟨number, processId, false⟩, List.mem_append_right _ List.mem_cons_self, rfl, rfl⟩
      · exact ⟨call, List.mem_append_right _ (List.mem_cons_of_mem _ hmem), rfl, rfl⟩
  have hapart := h.apart
  have hnumbered := h.numbered
  rw [hcall, List.map_append, List.map_cons] at hapart hnumbered
  exact {
    starting := fun call hcall => by
      obtain ⟨call', hmem', -, heq⟩ := hmem hcall
      exact heq ▸ h.starting call' hmem'
    apart := by
      rw [List.map_append, List.map_cons]
      exact hapart
    numbered := by
      rw [List.map_append, List.map_cons]
      exact hnumbered
    fresh := fun call hcall => by
      obtain ⟨call', hmem', heq, -⟩ := hmem hcall
      exact heq ▸ h.fresh call' hmem'
    below := h.below
    idle := fun call hcall => by
      obtain ⟨call', hmem', -, heq⟩ := hmem hcall
      exact heq ▸ h.idle call' hmem'
    owner := h.owner
    alive := fun number' hmem' => by
      rcases Finset.mem_insert.1 hmem' with rfl | hmem'
      · exact .inl ⟨_, List.mem_append_right _ List.mem_cons_self, rfl, rfl⟩
      · refine (h.alive number' hmem').imp_left fun ⟨call, hstarts, hnumber, hspawned⟩ => ?_
        rw [hcall] at hstarts
        refine ⟨call, ?_, hnumber, hspawned⟩
        rcases List.mem_append.1 hstarts with hstarts | hstarts
        · exact List.mem_append_left _ hstarts
        · rcases List.mem_cons.1 hstarts with rfl | hstarts
          · cases hspawned
          · exact List.mem_append_right _ (List.mem_cons_of_mem _ hstarts)
    covered := by
      obtain ⟨hnext, hstarts, halive⟩ := h.covered
      refine ⟨hnext, fun call hcall => ?_, fun number' hmem' => ?_⟩
      · obtain ⟨call', hmem', heq, -⟩ := hmem hcall
        exact heq ▸ hstarts call' hmem'
      · rcases Finset.mem_insert.1 hmem' with rfl | hmem'
        · exact hstarts _ (mem_call hcall)
        · exact halive number' hmem' }

/-- A start that fails takes its own marker out. -/
theorem spawnFailed (h : Owned t)
    (hcall : t.starts = before ++ ⟨number, processId, false⟩ :: after) :
    Owned { t with
      processes := if t.processes.lookup processId = some .starting then
        t.processes.erase processId else t.processes
      starts := before ++ after } := by
  have hstarting := h.starting _ (mem_call hcall)
  have hlookup {processId' : ProcessId} : (if t.processes.lookup processId = some .starting then
      t.processes.erase processId else t.processes).lookup processId' =
        if processId' = processId then none else t.processes.lookup processId' := by
    rw [if_pos hstarting, lookup_erase]
  have hrunning {processId' : ProcessId} {number' : Nat} {process : RunningProcess} :
      (if t.processes.lookup processId = some .starting then t.processes.erase processId
        else t.processes).lookup processId' = some (.running number' process) ↔
          t.processes.lookup processId' = some (.running number' process) := by
    rw [hlookup]
    split
    · rename_i heq
      rw [heq, hstarting]
      exact ⟨fun heq => (nomatch heq), fun heq => nomatch heq⟩
    · rfl
  exact {
    starting := fun call hmem => by
      obtain ⟨hmem', hne, -⟩ := h.other hcall hmem
      exact hlookup.trans ((if_neg hne).trans (h.starting call hmem'))
    apart := (h.apart_rest hcall).1
    numbered := (h.apart_rest hcall).2
    fresh := fun call hmem => h.fresh call (h.other hcall hmem).1
    below := h.below
    idle := fun call hmem => h.idle call (h.other hcall hmem).1
    owner := fun processId' number' process hentry =>
      h.owner processId' number' process (hrunning.1 hentry)
    alive := fun number' hmem => by
      rcases h.alive number' hmem with ⟨call, hstarts, hnumber, hspawned⟩ | hmem
      · left
        rw [hcall] at hstarts
        refine ⟨call, ?_, hnumber, hspawned⟩
        rcases List.mem_append.1 hstarts with hstarts | hstarts
        · exact List.mem_append_left _ hstarts
        · rcases List.mem_cons.1 hstarts with rfl | hstarts
          · cases hspawned
          · exact List.mem_append_right _ hstarts
      · obtain ⟨processId', process, hentry⟩ := mem_runningNumbers.1 hmem
        exact .inr (mem_runningNumbers.2 ⟨processId', process, hrunning.2 hentry⟩)
    covered := ⟨h.covered.1, fun call hmem => h.covered.2.1 call (h.other hcall hmem).1,
      h.covered.2.2⟩ }

/-- A start replaces its own marker. -/
theorem install (h : Owned t) {stream : Pipe → ExecOutputStream}
    (hcall : t.starts = before ++ ⟨number, processId, true⟩ :: after) :
    Owned { t with
      processes := t.processes.insert processId (.running number .new)
      starts := before ++ after
      tasks := t.tasks.insert number ⟨processId, stream, fun _ => .reading, .waiting, 0⟩
      alive := t.alive \ t.dropped processId } := by
  have hstarting := h.starting _ (mem_call hcall)
  obtain ⟨hlt, hfresh⟩ := h.fresh _ (mem_call hcall)
  have hfresh : number ∉ t.tasks := hfresh
  exact {
    starting := fun call hmem => by
      obtain ⟨hmem', hne, -⟩ := h.other hcall hmem
      show (t.processes.insert processId _).lookup call.processId = _
      rw [lookup_insert, if_neg hne]
      exact h.starting call hmem'
    apart := (h.apart_rest hcall).1
    numbered := (h.apart_rest hcall).2
    fresh := fun call hmem => by
      obtain ⟨hmem', -, hne⟩ := h.other hcall hmem
      refine ⟨(h.fresh call hmem').1, fun hmem => ?_⟩
      rcases (AList.mem_insert _).1 hmem with heq | hmem
      · exact hne heq
      · exact (h.fresh call hmem').2 hmem
    below := fun number' hmem => by
      rcases (AList.mem_insert _).1 hmem with rfl | hmem
      · exact hlt
      · exact h.below number' hmem
    idle := fun call hmem number' tasks hlookup heq => by
      obtain ⟨hmem', hne, -⟩ := h.other hcall hmem
      rw [lookup_insert] at hlookup
      split at hlookup
      · cases hlookup
        exact absurd heq.symm hne
      · exact h.idle call hmem' number' tasks hlookup heq
    owner := fun processId' number' process hentry => by
      change (t.processes.insert processId (.running number .new)).lookup processId' =
        some (.running number' process) at hentry
      rw [lookup_insert] at hentry
      split at hentry
      · rename_i heq
        subst heq
        cases hentry
        refine ⟨⟨_, AList.lookup_insert _, rfl⟩, fun number'' tasks hlookup heq hne => ?_⟩
        rw [lookup_insert, if_neg hne] at hlookup
        exact h.idle _ (mem_call hcall) number'' tasks hlookup heq
      · rename_i hid
        obtain ⟨⟨tasks, hlookup, heq⟩, hothers⟩ := h.owner processId' number' process hentry
        refine ⟨⟨tasks, ?_, heq⟩, fun number'' tasks' hlookup' heq' hne => ?_⟩
        · rw [lookup_insert, if_neg]
          · exact hlookup
          · rintro rfl
            exact hfresh (AList.lookup_isSome.1 (by rw [hlookup]; rfl))
        · rw [lookup_insert] at hlookup'
          split at hlookup'
          · cases hlookup'
            exact absurd heq'.symm hid
          · exact hothers number'' tasks' hlookup' heq' hne
    alive := fun number' hmem => by
      rcases h.alive number' (Finset.mem_sdiff.1 hmem).1 with ⟨call, hstarts, hnumber⟩ | hrunning
      · rw [hcall] at hstarts
        rcases List.mem_append.1 hstarts with hstarts | hstarts
        · exact .inl ⟨call, List.mem_append_left _ hstarts, hnumber⟩
        · rcases List.mem_cons.1 hstarts with rfl | hstarts
          · exact .inr (mem_runningNumbers.2 ⟨processId, .new, by
              rw [← hnumber.1]
              exact AList.lookup_insert _⟩)
          · exact .inl ⟨call, List.mem_append_right _ hstarts, hnumber⟩
      · obtain ⟨processId', process, hentry⟩ := mem_runningNumbers.1 hrunning
        refine .inr (mem_runningNumbers.2 ⟨processId', process, ?_⟩)
        show (t.processes.insert processId _).lookup processId' = _
        rw [lookup_insert, if_neg]
        · exact hentry
        · rintro rfl
          cases hstarting.symm.trans hentry
    covered := ⟨h.covered.1, fun call hmem => h.covered.2.1 call (h.other hcall hmem).1,
      fun number' hmem => h.covered.2.2 number' (Finset.mem_sdiff.1 hmem).1⟩ }

/-- A process is removed by its own retention task. -/
theorem remove (h : Owned t)
    (hentry : t.processes.lookup processId = some (.running number process)) :
    Owned { t with
      processes := t.processes.erase processId
      alive := t.alive.erase number } := by
  have hrunning {processId' : ProcessId} {number' : Nat} {process' : RunningProcess}
      (hentry' : (t.processes.erase processId).lookup processId' =
        some (.running number' process')) :
      t.processes.lookup processId' = some (.running number' process') := by
    rw [lookup_erase] at hentry'
    split at hentry'
    · cases hentry'
    · exact hentry'
  exact {
    starting := fun call hmem => by
      have hstarting := h.starting call hmem
      show (t.processes.erase processId).lookup call.processId = _
      rw [lookup_erase, if_neg]
      · exact hstarting
      · intro heq
        rw [heq, hentry] at hstarting
        cases hstarting
    apart := h.apart
    numbered := h.numbered
    fresh := h.fresh
    below := h.below
    idle := h.idle
    owner := fun processId' number' process' hentry' =>
      h.owner processId' number' process' (hrunning hentry')
    alive := fun number' hmem => by
      obtain ⟨hne, hmem⟩ := Finset.mem_erase.1 hmem
      refine (h.alive number' hmem).imp_right fun hmem => ?_
      obtain ⟨processId', process', hentry'⟩ := mem_runningNumbers.1 hmem
      refine mem_runningNumbers.2 ⟨processId', process', ?_⟩
      show (t.processes.erase processId).lookup processId' = _
      rw [lookup_erase, if_neg]
      · exact hentry'
      · rintro rfl
        cases hentry.symm.trans hentry'
        exact hne rfl
    covered := ⟨h.covered.1, h.covered.2.1,
      fun number' hmem => h.covered.2.2 number' (Finset.mem_of_mem_erase hmem)⟩ }

/-- A shutdown without starts under way leaves no process alive. -/
theorem shutdown (h : Owned t) (hstarts : t.starts = []) :
    Owned { t with
      processes := ∅
      alive := t.alive \ t.runningNumbers
      covered := t.next } := by
  have hcall {call : StartCall} : call ∉ t.starts := by
    rw [hstarts]
    exact List.not_mem_nil
  have hdead {number : Nat} : number ∉ t.alive \ t.runningNumbers := by
    intro hmem
    obtain ⟨halive, hnot⟩ := Finset.mem_sdiff.1 hmem
    rcases h.alive number halive with ⟨call, hmem, -⟩ | hrunning
    · exact hcall hmem
    · exact hnot hrunning
  exact {
    starting := fun call hmem => absurd hmem hcall
    apart := h.apart
    numbered := h.numbered
    fresh := h.fresh
    below := h.below
    idle := h.idle
    owner := fun _ _ _ hentry => nomatch hentry
    alive := fun number hmem => absurd hmem hdead
    covered := ⟨le_refl _, fun call hmem => absurd hmem hcall,
      fun number hmem => absurd hmem hdead⟩ }

theorem processId_afterClose : (tasks.afterClose t).processId = tasks.processId := by
  rw [ProcessTasks.afterClose]
  split
  · split <;> rfl
  · rfl
  · rfl

theorem not_ended_of_pipe {pipe : Pipe} {phase : StreamPhase} (hphase : tasks.pipes pipe = phase)
    (hne : phase ≠ .ended) : ¬ tasks.Ended :=
  fun hended => hne (hphase.symm.trans (hended.1 pipe))

/-- One step of an ordered run. -/
theorem step {a : LocalStep} (h : Owned t) (hordered : Ordered t a) (hstep : Runs t a t') :
    Owned t' := by
  cases hstep with
  | startKnown _ => exact h
  | start hnew => exact h.start hnew hordered
  | spawn hcall => exact h.spawn hcall
  | spawnFailed hcall => exact h.spawnFailed hcall
  | install hcall => exact h.install hcall
  | output htasks hphase =>
    refine h.update htasks (not_ended_of_pipe hphase StreamPhase.noConfusion) ?_ _
    split <;> rfl
  | outputEnd htasks hphase =>
    refine h.update htasks (not_ended_of_pipe hphase StreamPhase.noConfusion) ?_ _
    rfl
  | finish htasks hphase =>
    refine h.update htasks (not_ended_of_pipe hphase StreamPhase.noConfusion) ?_ _
    rfl
  | closeAfterOutput htasks hphase =>
    refine h.update htasks (not_ended_of_pipe hphase StreamPhase.noConfusion) ?_ _
    exact processId_afterClose
  | exit htasks hexit hdead =>
    refine h.update htasks (fun hended => ?_) ?_ _
    · cases hexit.symm.trans hended.2.1
    · rfl
  | closeAfterExit htasks hexit =>
    refine h.update htasks (fun hended => ?_) ?_ _
    · cases hexit.symm.trans hended.2.1
    · exact processId_afterClose
  | retentionKept htasks hretention _ =>
    exact h.goOn htasks (fun hended => hretention hended.2.2) rfl
  | retention htasks hretention hentry _ =>
    have hnot : ¬ ProcessTasks.Ended _ := fun hended => hretention hended.2.2
    cases h.own htasks hnot hentry
    exact (h.remove hentry).goOn (by exact htasks) hnot rfl
  | terminate _ _ => exact h.dead (Finset.erase_subset _ _)
  | processExits => exact h.dead (Finset.erase_subset _ _)
  | shutdown => exact h.shutdown hordered

theorem of_reach (h : (localProcess.restrict Ordered).Reach t) : Owned t :=
  h.invariant (fun _ hinit => hinit ▸ .new) fun _ _ _ howned hstep => howned.step hstep.1 hstep.2

/-- A task leaves the entries of other processes alone. -/
theorem update_other (h : Owned t) (htasks : t.tasks.lookup number = some tasks)
    (hnot : ¬ tasks.Ended) (hid : tasks'.processId = tasks.processId)
    (f : RunningProcess → RunningProcess) {number' : Nat} (hne : number' ≠ number)
    (hentry : t.processes.lookup processId = some (.running number' process)) :
    (t.update number tasks' f).processes.lookup processId = some (.running number' process) := by
  refine lookup_updateEntry.trans ?_
  split
  · rename_i heq
    rw [heq, hid] at hentry
    exact absurd (h.own htasks hnot hentry) hne
  · exact hentry

theorem step_other {a : LocalStep} (h : Owned t) (hstep : Runs t a t') (htask : a.task = some number)
    {number' : Nat} (hne : number' ≠ number)
    (hentry : t.processes.lookup processId = some (.running number' process)) :
    t'.processes.lookup processId = some (.running number' process) := by
  cases hstep with
  | startKnown _ | start _ | spawn _ | spawnFailed _ | install _ | terminate _ _ | processExits
  | shutdown => cases htask
  | output htasks hphase =>
    cases htask
    refine h.update_other htasks (not_ended_of_pipe hphase StreamPhase.noConfusion) ?_ _ hne hentry
    split <;> rfl
  | outputEnd htasks hphase =>
    cases htask
    refine h.update_other htasks (not_ended_of_pipe hphase StreamPhase.noConfusion) ?_ _ hne hentry
    rfl
  | finish htasks hphase =>
    cases htask
    refine h.update_other htasks (not_ended_of_pipe hphase StreamPhase.noConfusion) ?_ _ hne hentry
    rfl
  | closeAfterOutput htasks hphase =>
    cases htask
    refine h.update_other htasks (not_ended_of_pipe hphase StreamPhase.noConfusion) ?_ _ hne hentry
    exact processId_afterClose
  | exit htasks hexit _ =>
    cases htask
    refine h.update_other htasks (fun hended => ?_) ?_ _ hne hentry
    · cases hexit.symm.trans hended.2.1
    · rfl
  | closeAfterExit htasks hexit =>
    cases htask
    refine h.update_other htasks (fun hended => ?_) ?_ _ hne hentry
    · cases hexit.symm.trans hended.2.1
    · exact processId_afterClose
  | retentionKept _ _ _ => exact hentry
  | retention htasks hretention hentry' _ =>
    cases htask
    refine (lookup_erase _).trans ?_
    split
    · rename_i heq
      have hsame := h.own htasks (fun hended => hretention hended.2.2) (heq ▸ hentry)
      exact absurd hsame hne
    · exact hentry

end Owned

/-! ## No orphans -/

/-- Once the starts that a shutdown met have completed, none of their processes is alive; a start
does not put its process over another one; and a task changes no entry but that of its process. -/
structure NoOrphans (t : LocalProcess) : Prop where
  stopped : (∀ call ∈ t.starts, t.covered ≤ call.number) → ∀ number ∈ t.alive, t.covered ≤ number
  apart : ∀ call ∈ t.starts, call.spawned → ∀ number process,
    t.processes.lookup call.processId ≠ some (.running number process)
  own : ∀ a number t', a.task = some number → Runs t a t' → ∀ processId number' process,
    number' ≠ number → t.processes.lookup processId = some (.running number' process) →
      t'.processes.lookup processId = some (.running number' process)

end

/-! ## A start overtaken by a shutdown -/

/-- A start has put its marker into the table. -/
def exampleStarted : LocalProcess :=
  { LocalProcess.new with
    processes := (∅ : Keyed ProcessId ProcessEntry).insert "x" .starting
    starts := [⟨0, "x", false⟩]
    next := 1 }

theorem exampleStarted_step : Runs .new (.start "x") exampleStarted :=
  @Runs.start .new "x" (by decide)

/-- The start failed, and then came a shutdown. -/
def exampleShutdown : LocalProcess :=
  { exampleStarted with
    processes := ∅
    starts := []
    covered := 1 }

theorem exampleShutdown_reach : (localProcess.restrict Ordered).Reach exampleShutdown := by
  have hfailed : Runs exampleStarted (.spawnFailed 0)
      { exampleStarted with processes := ∅, starts := [] } :=
    @Runs.spawnFailed exampleStarted 0 "x" [] [] rfl
  have hshutdown : Runs { exampleStarted with processes := ∅, starts := [] } .shutdown
      exampleShutdown := .shutdown
  have hstarted : (localProcess.restrict Ordered).Reach exampleStarted :=
    .step_restrict (.init rfl) exampleStarted_step fun _ _ hnone => nomatch hnone
  exact (hstarted.step_restrict hfailed trivial).step_restrict hshutdown rfl

end Mcodex.ExecServer
