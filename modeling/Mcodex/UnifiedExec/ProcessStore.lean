import Mcodex.Lib.Table
import Mcodex.Lib.Transition
import Mathlib.Data.Finset.Basic

/-!
# The process store

A call reserves an id before its process exists, stores the process under it unless that exited
early, and refreshes or releases the id in the end; calls that write to a process release it by its
id as well. Beyond a number of processes the least recently used one is pruned.
-/

namespace Mcodex.UnifiedExec

open Table Transition

def maxUnifiedExecProcesses : Nat := 64

/-- A process has the number of the call that opened it. -/
structure ProcessEntry where
  process : Nat
  lastUsed : Nat
  deriving DecidableEq

structure ProcessStore where
  processes : Keyed Nat ProcessEntry
  reservedProcessIds : Finset Nat

namespace ProcessStore

def empty : ProcessStore := ⟨∅, ∅⟩

def remove (store : ProcessStore) (processId : Nat) : ProcessStore where
  processes := store.processes.erase processId
  reservedProcessIds := store.reservedProcessIds.erase processId

end ProcessStore

/-- The ids with their last use, and whether the process exited. -/
abbrev PruneMeta := List (Nat × Nat × Bool)

/-- The eight ids used last are protected; of the others goes the one used least recently that
exited, or else the one used least recently. -/
def processIdToPruneFromMeta (entries : PruneMeta) : Option Nat :=
  let protectedIds := ((entries.mergeSort fun a b => b.2.1 ≤ a.2.1).take 8).map (·.1)
  let lru := entries.mergeSort fun a b => a.2.1 ≤ b.2.1
  match lru.find? fun entry => !protectedIds.contains entry.1 && entry.2.2 with
  | some entry => some entry.1
  | none => (lru.find? fun entry => !protectedIds.contains entry.1).map (·.1)

theorem mem_of_processIdToPruneFromMeta {entries : PruneMeta} {processId : Nat}
    (h : processIdToPruneFromMeta entries = some processId) :
    ∃ entry ∈ entries, entry.1 = processId := by
  rw [processIdToPruneFromMeta] at h
  split at h
  · rename_i entry hfind
    cases h
    exact ⟨entry, List.mem_mergeSort.1 (List.mem_of_find?_eq_some hfind), rfl⟩
  · obtain ⟨entry, hfind, rfl⟩ := Option.map_eq_some_iff.1 h
    exact ⟨entry, List.mem_mergeSort.1 (List.mem_of_find?_eq_some hfind), rfl⟩

/-! ## Calls -/

/-- How far an `exec_command` call is. A `short` one found its process exited and does not store
it. -/
inductive CallPhase
  | allocated
  | opened
  | starting
  | stored
  | short
  deriving DecidableEq

structure ExecCall where
  processId : Nat
  phase : CallPhase
  deriving DecidableEq

/-- The call holds an id, whose process it has not stored. -/
def ExecCall.Holds (call : ExecCall) : Prop := call.phase ≠ .stored

/-- A `write_stdin` call, which holds the process it found under the id. -/
structure WriteCall where
  process : Nat
  processId : Nat
  deriving DecidableEq

/-- The store and the calls. `terminating` are removed processes that the caller is about to
terminate, and `allocatedBy` tells which call an id was handed out to last. -/
structure Manager where
  store : ProcessStore
  calls : Keyed Nat ExecCall
  writes : List WriteCall
  next : Nat
  exited : Finset Nat
  terminated : Finset Nat
  terminating : List Nat
  stored : Finset Nat
  allocatedBy : Keyed Nat Nat

namespace Manager

def new : Manager where
  store := .empty
  calls := ∅
  writes := []
  next := 0
  exited := ∅
  terminated := ∅
  terminating := []
  stored := ∅
  allocatedBy := ∅

variable (t : Manager)

/-- What `prune_processes_if_needed` collects, in the order of the map. -/
def IsMeta (entries : PruneMeta) : Prop :=
  entries.Perm (t.store.processes.entries.map fun entry =>
    (entry.1, entry.2.lastUsed, decide (entry.2.process ∈ t.exited)))

def pruneProcessesIfNeeded (entries : PruneMeta) : Option Nat :=
  if t.store.processes.entries.length < maxUnifiedExecProcesses then none
  else processIdToPruneFromMeta entries

/-- The process under an id. -/
def process (processId : Nat) : Option Nat := (t.store.processes.lookup processId).map (·.process)

/-- The lock section of `store_process`. -/
def storeProcess (number processId now : Nat) (pruned : Option Nat) : Manager :=
  let store := pruned.elim t.store t.store.remove
  { t with
    store := { store with processes := store.processes.insert processId ⟨number, now⟩ }
    terminating := t.terminating ++ (pruned.bind t.process).toList
    stored := insert number t.stored }

def refreshProcessState (processId : Nat) : Manager :=
  match t.process processId with
  | some process =>
    if process ∈ t.exited then { t with store := t.store.remove processId } else t
  | none => t

def releaseProcessId (processId : Nat) : Manager := { t with store := t.store.remove processId }

end Manager

inductive ManagerStep
  | allocate (processId : Nat)
  | openSession (number : Nat)
  | check (number : Nat)
  | store (number : Nat)
  | refresh (number : Nat)
  | release (number : Nat)
  | prepare (processId : Nat)
  | writeRefresh (call : WriteCall)
  | writeFailed (call : WriteCall)
  | writeRelease (call : WriteCall)
  | writeEnd (call : WriteCall)
  | exits (process : Nat)
  | terminateAll
  | terminate (process : Nat)

/-- The steps, one for each section that holds the lock of the store. -/
inductive Manages : Manager → ManagerStep → Manager → Prop
  | allocate {t processId} (hrange : 1000 ≤ processId)
    (hnew : processId ∉ t.store.reservedProcessIds) :
    Manages t (.allocate processId) { t with
      store :=
        { t.store with reservedProcessIds := insert processId t.store.reservedProcessIds }
      calls := t.calls.insert t.next ⟨processId, .allocated⟩
      next := t.next + 1
      allocatedBy := t.allocatedBy.insert processId t.next }
  | openSession {t number processId} (hcall : t.calls.lookup number = some ⟨processId, .allocated⟩) :
    Manages t (.openSession number) { t with calls := t.calls.insert number ⟨processId, .opened⟩ }
  | check {t number processId} (hcall : t.calls.lookup number = some ⟨processId, .opened⟩) :
    Manages t (.check number) { t with
      calls := t.calls.insert number
        ⟨processId, if number ∈ t.exited then .short else .starting⟩ }
  | store {t number processId now entries}
    (hcall : t.calls.lookup number = some ⟨processId, .starting⟩) (hentries : t.IsMeta entries) :
    Manages t (.store number)
      { t.storeProcess number processId now (t.pruneProcessesIfNeeded entries) with
        calls := t.calls.insert number ⟨processId, .stored⟩ }
  | refresh {t number processId} (hcall : t.calls.lookup number = some ⟨processId, .stored⟩) :
    Manages t (.refresh number)
      { t.refreshProcessState processId with calls := t.calls.erase number }
  | release {t number call} (hcall : t.calls.lookup number = some call)
    (hphase : call.phase = .allocated ∨ call.phase = .short ∨
      call.phase = .stored ∧ number ∈ t.exited) :
    Manages t (.release number)
      { t.releaseProcessId call.processId with calls := t.calls.erase number }
  | prepare {t processId entry now} (hentry : t.store.processes.lookup processId = some entry) :
    Manages t (.prepare processId) { t with
      store :=
        { t.store with
          processes := t.store.processes.insert processId { entry with lastUsed := now } }
      writes := t.writes ++ [⟨entry.process, processId⟩] }
  | writeRefresh {t call} (hcall : call ∈ t.writes) :
    Manages t (.writeRefresh call) (t.refreshProcessState call.processId)
  | writeFailed {t call} (hcall : call ∈ t.writes) :
    Manages t (.writeFailed call) { t with terminated := insert call.process t.terminated }
  | writeRelease {t call} (hcall : call ∈ t.writes)
    (hgone : call.process ∈ t.exited ∨ call.process ∈ t.terminated) :
    Manages t (.writeRelease call)
      { t.releaseProcessId call.processId with writes := t.writes.erase call }
  | writeEnd {t call} (hcall : call ∈ t.writes) :
    Manages t (.writeEnd call) { t with writes := t.writes.erase call }
  | exits {t process} : Manages t (.exits process) { t with exited := insert process t.exited }
  | terminateAll {t} :
    Manages t .terminateAll { t with
      store := .empty
      terminating := t.terminating ++ t.store.processes.entries.map (·.2.process) }
  | terminate {t process} (hprocess : process ∈ t.terminating) :
    Manages t (.terminate process) { t with
      terminated := insert process t.terminated
      terminating := t.terminating.erase process }

def manager : System Manager ManagerStep where
  init t := t = .new
  step := Manages

end Mcodex.UnifiedExec
