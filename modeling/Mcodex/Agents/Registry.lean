import Mathlib
import Mcodex.Lib.Table
import Mcodex.Lib.Transition

/-!
# The agent registry

A spawn or a resume reserves a slot, may reserve the path of its agent, and commits the slot with
the metadata of the thread; a slot that is not committed is dropped. The counter of slots is an
atomic apart from the tree of agents and its lock. Nicknames are left out.
-/

namespace Mcodex.Agents

open Table Transition

abbrev ThreadId := String

abbrev AgentPath := String

namespace AgentPath

def root : AgentPath := "/root"

def isRoot (path : AgentPath) : Bool := path = root

end AgentPath

structure AgentMetadata where
  agentId : Option ThreadId := none
  agentPath : Option AgentPath := none
  rootThreadId : Option ThreadId := none
  deriving DecidableEq

namespace AgentMetadata

variable (metadata : AgentMetadata)

def isRoot : Bool := metadata.agentPath.any AgentPath.isRoot

/-- The entry takes a slot. -/
def counted : Bool := metadata.agentId.isSome && !metadata.isRoot

/-- The key that `register_spawned_thread` inserts the metadata of a thread under. -/
def key (threadId : ThreadId) : String := metadata.agentPath.getD ("thread:" ++ threadId)

end AgentMetadata

inductive CodexErr
  | agentLimitReached (maxThreads : Nat)
  | unsupportedOperation (message : String)

/-- `fetch_sub` of a `usize`. -/
def fetchSub (total amount : Nat) : Nat :=
  if amount ≤ total then total - amount else total + 2 ^ 64 - amount

structure AgentRegistry where
  agentTree : Keyed String AgentMetadata
  totalCount : Nat

namespace AgentRegistry

def new : AgentRegistry := ⟨∅, 0⟩

variable (registry : AgentRegistry)

/-- The compare-and-exchange loop either meets the limit or increments. -/
def tryIncrementSpawned (maxThreads : Nat) : Option AgentRegistry :=
  if maxThreads ≤ registry.totalCount then none
  else some { registry with totalCount := registry.totalCount + 1 }

def reserveSpawnSlot : Option Nat → Except CodexErr AgentRegistry
  | some maxThreads =>
    match registry.tryIncrementSpawned maxThreads with
    | some registry => .ok registry
    | none => .error (.agentLimitReached maxThreads)
  | none => .ok { registry with totalCount := registry.totalCount + 1 }

def reserveAgentPath (agentPath : AgentPath) : Except CodexErr AgentRegistry :=
  if agentPath ∈ registry.agentTree then
    .error (.unsupportedOperation ("agent path `" ++ agentPath ++ "` already exists"))
  else
    .ok { registry with
      agentTree := registry.agentTree.insert agentPath { agentPath := some agentPath } }

def registerSpawnedThread (metadata : AgentMetadata) : AgentRegistry :=
  match metadata.agentId with
  | some threadId =>
    { registry with agentTree := registry.agentTree.insert (metadata.key threadId) metadata }
  | none => registry

def registerRootThread (threadId : ThreadId) : AgentRegistry :=
  if AgentPath.root ∈ registry.agentTree then registry
  else
    { registry with
      agentTree := registry.agentTree.insert AgentPath.root
        ⟨some threadId, some AgentPath.root, some threadId⟩ }

def releaseReservedAgentPath (agentPath : AgentPath) : AgentRegistry :=
  if (registry.agentTree.lookup agentPath).any (·.agentId.isNone) then
    { registry with agentTree := registry.agentTree.erase agentPath }
  else registry

/-- The entries that `release_spawned_thread` removes. -/
def shouldRemove (threadId : ThreadId) (metadata : AgentMetadata) : Bool :=
  metadata.agentId = some threadId && !metadata.isRoot

/-- The lock section of `release_spawned_thread`, with the number of agents removed. -/
def removeSpawnedThread (threadId : ThreadId) : AgentRegistry × Nat :=
  ({ registry with
      agentTree := retain (fun metadata => !shouldRemove threadId metadata) registry.agentTree },
    count (shouldRemove threadId) registry.agentTree)

/-- The non-root entries that have an agent id. -/
def registered : Nat := count AgentMetadata.counted registry.agentTree

end AgentRegistry

/-- An uncommitted reservation. -/
structure SpawnReservation where
  reservedAgentPath : Option AgentPath
  deriving DecidableEq

/-! ## Operations in progress -/

/-- The registry with the reservations that are live, those that are dropped but for their slot,
the numbers of removed agents that are to be subtracted, and the limits that slots were reserved
under. -/
structure AgentControl where
  registry : AgentRegistry
  live : List SpawnReservation
  dropping : Nat
  releasing : List Nat
  limits : List (Option Nat)

def AgentControl.new : AgentControl := ⟨.new, [], 0, [], []⟩

inductive AgentStep
  | reserveSpawnSlot (maxThreads : Option Nat)
  | reserveAgentPath (reservation : SpawnReservation) (agentPath : AgentPath)
  | commit (reservation : SpawnReservation) (metadata : AgentMetadata)
  | drop (reservation : SpawnReservation)
  | dropSlot
  | releaseSpawnedThread (threadId : ThreadId)
  | releaseSlots (amount : Nat)
  | registerRootThread (threadId : ThreadId)

/-- The steps, one for each section that holds the lock and for each update of the counter. -/
inductive Advances : AgentControl → AgentStep → AgentControl → Prop
  | reserveSpawnSlot {t maxThreads registry}
    (hreserved : t.registry.reserveSpawnSlot maxThreads = .ok registry) :
    Advances t (.reserveSpawnSlot maxThreads) { t with
      registry, live := ⟨none⟩ :: t.live, limits := maxThreads :: t.limits }
  | reserveAgentPath {t reservation agentPath registry} (hlive : reservation ∈ t.live)
    (hreserved : t.registry.reserveAgentPath agentPath = .ok registry) :
    Advances t (.reserveAgentPath reservation agentPath) { t with
      registry, live := ⟨some agentPath⟩ :: t.live.erase reservation }
  | commit {t reservation metadata} (hlive : reservation ∈ t.live) :
    Advances t (.commit reservation metadata) { t with
      registry := t.registry.registerSpawnedThread metadata
      live := t.live.erase reservation }
  | drop {t reservation} (hlive : reservation ∈ t.live) :
    Advances t (.drop reservation) { t with
      registry := reservation.reservedAgentPath.elim t.registry t.registry.releaseReservedAgentPath
      live := t.live.erase reservation
      dropping := t.dropping + 1 }
  | dropSlot {t dropping} (hdropping : t.dropping = dropping + 1) :
    Advances t .dropSlot { t with
      registry := { t.registry with totalCount := fetchSub t.registry.totalCount 1 }
      dropping }
  | releaseSpawnedThread {t threadId} :
    Advances t (.releaseSpawnedThread threadId) { t with
      registry := (t.registry.removeSpawnedThread threadId).1
      releasing := (t.registry.removeSpawnedThread threadId).2 :: t.releasing }
  | releaseSlots {t amount} (hreleasing : amount ∈ t.releasing) :
    Advances t (.releaseSlots amount) { t with
      registry := { t.registry with totalCount := fetchSub t.registry.totalCount amount }
      releasing := t.releasing.erase amount }
  | registerRootThread {t threadId} :
    Advances t (.registerRootThread threadId) { t with
      registry := t.registry.registerRootThread threadId }

def agentControl : System AgentControl AgentStep where
  init t := t = .new
  step := Advances

end Mcodex.Agents
