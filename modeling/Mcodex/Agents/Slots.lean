import Mcodex.Agents.Registry

/-!
# Slots and agents

Each slot belongs to a reservation or to an entry of the tree, as long as no commit overwrites the
entry of an agent: its slot would stay taken. `Separate` runs have no such commit.
-/

namespace Mcodex.Agents

open Table Transition

/-- A commit names a thread, not the root, and its key has no agent yet. -/
def Separate (t : AgentControl) : AgentStep → Prop
  | .commit _ metadata => metadata.isRoot = false ∧ ∃ threadId, metadata.agentId = some threadId ∧
    ∀ entry ∈ t.registry.agentTree.lookup (metadata.key threadId), entry.agentId = none
  | _ => True

section
variable {registry registry' : AgentRegistry} {t t' : AgentControl} {agentPath : AgentPath}
  {metadata : AgentMetadata} {threadId : ThreadId}

/-! ## The tree -/

namespace AgentRegistry

theorem counted_of_agentId (h : metadata.agentId = none) : metadata.counted = false := by
  simp [AgentMetadata.counted, h]

theorem registered_insert (hentry : ∀ entry, registry.agentTree.lookup agentPath = some entry →
      entry.counted = false) :
    count AgentMetadata.counted (registry.agentTree.insert agentPath metadata) =
      registry.registered + if metadata.counted then 1 else 0 := by
  rw [count_insert, count_erase hentry, registered]

theorem registered_insert_new (hnew : agentPath ∉ registry.agentTree) :
    count AgentMetadata.counted (registry.agentTree.insert agentPath metadata) =
      registry.registered + if metadata.counted then 1 else 0 := by
  refine registered_insert fun entry hlookup => absurd ?_ hnew
  exact AList.lookup_isSome.1 (by rw [hlookup]; rfl)

theorem registered_reserveAgentPath (h : registry.reserveAgentPath agentPath = .ok registry') :
    registry'.registered = registry.registered ∧ registry'.totalCount = registry.totalCount := by
  rw [reserveAgentPath] at h
  split at h
  · cases h
  · rename_i hnew
    cases h
    exact ⟨registered_insert_new hnew, rfl⟩

theorem registered_registerSpawnedThread (hroot : metadata.isRoot = false)
    (hagent : metadata.agentId = some threadId)
    (hkey : ∀ entry ∈ registry.agentTree.lookup (metadata.key threadId), entry.agentId = none) :
    (registry.registerSpawnedThread metadata).registered = registry.registered + 1 := by
  have hcounted : metadata.counted = true := by simp [AgentMetadata.counted, hagent, hroot]
  rw [registerSpawnedThread, hagent]
  show count AgentMetadata.counted _ = _
  rw [registered_insert fun entry hlookup => counted_of_agentId (hkey entry hlookup), hcounted]
  rfl

theorem totalCount_registerSpawnedThread (registry : AgentRegistry) (metadata : AgentMetadata) :
    (registry.registerSpawnedThread metadata).totalCount = registry.totalCount := by
  rw [registerSpawnedThread]
  split <;> rfl

theorem registered_registerRootThread :
    (registry.registerRootThread threadId).registered = registry.registered ∧
      (registry.registerRootThread threadId).totalCount = registry.totalCount := by
  rw [registerRootThread]
  split
  · exact ⟨rfl, rfl⟩
  · rename_i hnew
    exact ⟨registered_insert_new hnew, rfl⟩

theorem registered_releaseReservedAgentPath :
    (registry.releaseReservedAgentPath agentPath).registered = registry.registered ∧
      (registry.releaseReservedAgentPath agentPath).totalCount = registry.totalCount := by
  rw [releaseReservedAgentPath]
  split
  · rename_i hany
    refine ⟨count_erase fun entry hlookup => counted_of_agentId ?_, rfl⟩
    rw [hlookup] at hany
    exact Option.isNone_iff_eq_none.1 hany
  · exact ⟨rfl, rfl⟩

/-- The removed entries are counted. -/
theorem registered_removeSpawnedThread (registry : AgentRegistry) (threadId : ThreadId) :
    (registry.removeSpawnedThread threadId).1.registered +
      (registry.removeSpawnedThread threadId).2 = registry.registered := by
  have hremoved : (fun metadata => AgentMetadata.counted metadata &&
      !!shouldRemove threadId metadata) = shouldRemove threadId := by
    funext metadata
    cases hagent : metadata.agentId <;> cases hroot : metadata.isRoot <;>
      simp [AgentMetadata.counted, shouldRemove, hagent, hroot]
  have hcount := count_retain AgentMetadata.counted
    (fun metadata => !shouldRemove threadId metadata) registry.agentTree
  rw [hremoved] at hcount
  exact hcount

end AgentRegistry

/-! ## The counter -/

theorem fetchSub_of_le {total amount : Nat} (h : amount ≤ total) :
    fetchSub total amount = total - amount := if_pos h

/-- The counter counts the reservations, the slots that are still to be subtracted and the agents;
and it respects a limit that all slots were reserved under. -/
structure Accounted (t : AgentControl) : Prop where
  total : t.registry.totalCount =
    t.live.length + t.dropping + t.releasing.sum + t.registry.registered
  bound : ∀ maxThreads, (∀ limit ∈ t.limits, limit = some maxThreads) →
    t.registry.totalCount ≤ maxThreads

namespace Accounted

theorem new : Accounted .new := ⟨rfl, fun _ _ => Nat.zero_le _⟩

theorem reserveSpawnSlot {maxThreads : Option Nat} (h : Accounted t)
    (hreserved : t.registry.reserveSpawnSlot maxThreads = .ok registry) :
    Accounted { t with
      registry, live := ⟨none⟩ :: t.live, limits := maxThreads :: t.limits } := by
  have htotal := h.total
  cases maxThreads with
  | none =>
    cases hreserved
    refine ⟨?_, fun maxThreads hlimits => nomatch hlimits none List.mem_cons_self⟩
    show t.registry.totalCount + 1 =
      (t.live.length + 1) + t.dropping + t.releasing.sum + t.registry.registered
    omega
  | some maxThreads =>
    rw [AgentRegistry.reserveSpawnSlot, AgentRegistry.tryIncrementSpawned] at hreserved
    split at hreserved
    · rename_i hincrement
      split at hincrement
      · cases hincrement
      · rename_i hlimit
        cases hincrement
        cases hreserved
        refine ⟨?_, fun maxThreads' hlimits => ?_⟩
        · show t.registry.totalCount + 1 =
            (t.live.length + 1) + t.dropping + t.releasing.sum + t.registry.registered
          omega
        · cases hlimits (some maxThreads) List.mem_cons_self
          exact Nat.lt_of_not_le hlimit
    · cases hreserved

theorem length_erase {reservation : SpawnReservation} (hlive : reservation ∈ t.live) :
    (t.live.erase reservation).length + 1 = t.live.length := by
  have hlength := List.length_erase_of_mem hlive
  have hpos := List.length_pos_of_mem hlive
  omega

/-- A pending subtraction is made. -/
theorem subtract (h : Accounted t) {amount dropping : Nat} {releasing : List Nat}
    (hle : amount ≤ t.registry.totalCount)
    (htotal : t.registry.totalCount =
      t.live.length + dropping + releasing.sum + t.registry.registered + amount) :
    Accounted { t with
      registry := { t.registry with totalCount := fetchSub t.registry.totalCount amount }
      dropping, releasing } := by
  refine ⟨?_, fun maxThreads hlimits => ?_⟩
  · show fetchSub t.registry.totalCount amount =
      t.live.length + dropping + releasing.sum + t.registry.registered
    rw [fetchSub_of_le hle]
    omega
  · show fetchSub t.registry.totalCount amount ≤ maxThreads
    rw [fetchSub_of_le hle]
    exact (Nat.sub_le _ _).trans (h.bound maxThreads hlimits)

theorem step {a : AgentStep} (h : Accounted t) (hseparate : Separate t a)
    (hstep : Advances t a t') : Accounted t' := by
  have htotal := h.total
  cases hstep with
  | reserveSpawnSlot hreserved => exact h.reserveSpawnSlot hreserved
  | @reserveAgentPath reservation agentPath registry hlive hreserved =>
    obtain ⟨hregistered, hcount⟩ := AgentRegistry.registered_reserveAgentPath hreserved
    have hlength := length_erase hlive
    refine ⟨?_, fun maxThreads hlimits => hcount ▸ h.bound maxThreads hlimits⟩
    show registry.totalCount =
      ((t.live.erase reservation).length + 1) + t.dropping + t.releasing.sum + registry.registered
    omega
  | @commit reservation metadata hlive =>
    obtain ⟨hroot, threadId, hagent, hkey⟩ := hseparate
    have hregistered := AgentRegistry.registered_registerSpawnedThread hroot hagent hkey
    have hcount := AgentRegistry.totalCount_registerSpawnedThread t.registry metadata
    have hlength := length_erase hlive
    refine ⟨?_, fun maxThreads hlimits => hcount ▸ h.bound maxThreads hlimits⟩
    show (t.registry.registerSpawnedThread metadata).totalCount =
      (t.live.erase reservation).length + t.dropping + t.releasing.sum +
        (t.registry.registerSpawnedThread metadata).registered
    omega
  | @drop reservation hlive =>
    have hreleased : (reservation.reservedAgentPath.elim t.registry
          t.registry.releaseReservedAgentPath).registered = t.registry.registered ∧
        (reservation.reservedAgentPath.elim t.registry
          t.registry.releaseReservedAgentPath).totalCount = t.registry.totalCount := by
      cases reservation.reservedAgentPath with
      | none => exact ⟨rfl, rfl⟩
      | some _ => exact AgentRegistry.registered_releaseReservedAgentPath
    obtain ⟨hregistered, hcount⟩ := hreleased
    have hlength := length_erase hlive
    refine ⟨?_, fun maxThreads hlimits => (Nat.le_of_eq hcount).trans (h.bound maxThreads hlimits)⟩
    rw [hcount, hregistered]
    show t.registry.totalCount =
      (t.live.erase reservation).length + (t.dropping + 1) + t.releasing.sum +
        t.registry.registered
    omega
  | @dropSlot dropping hdropping =>
    have hle : 1 ≤ t.registry.totalCount := by omega
    refine h.subtract hle ?_
    show t.registry.totalCount =
      t.live.length + dropping + t.releasing.sum + t.registry.registered + 1
    omega
  | @releaseSpawnedThread threadId =>
    have hregistered := AgentRegistry.registered_removeSpawnedThread t.registry threadId
    refine ⟨?_, h.bound⟩
    show t.registry.totalCount =
      t.live.length + t.dropping + ((t.registry.removeSpawnedThread threadId).2 :: t.releasing).sum +
        (t.registry.removeSpawnedThread threadId).1.registered
    rw [List.sum_cons]
    omega
  | @releaseSlots amount hreleasing =>
    have hsum := List.sum_erase hreleasing
    refine h.subtract (by omega) ?_
    show t.registry.totalCount =
      t.live.length + t.dropping + (t.releasing.erase amount).sum + t.registry.registered + amount
    omega
  | registerRootThread =>
    obtain ⟨hregistered, hcount⟩ := AgentRegistry.registered_registerRootThread
    exact ⟨hcount.trans (hregistered ▸ htotal), fun maxThreads hlimits =>
      (Nat.le_of_eq hcount).trans (h.bound maxThreads hlimits)⟩

theorem of_reach (h : (agentControl.restrict Separate).Reach t) : Accounted t := by
  refine h.invariant (fun t hinit => ?_) fun t a t' haccounted hstep =>
    haccounted.step hstep.1 hstep.2
  cases hinit
  exact new

end Accounted

/-! ## No slot is leaked or overdrawn -/

/-- With no operation in progress, the counter counts the live reservations and the registered
agents; no pending subtraction makes it underflow; and a limit that all slots were reserved under
bounds the registered agents. -/
structure SlotsBalance (t : AgentControl) : Prop where
  total : t.dropping = 0 → t.releasing = [] →
    t.registry.totalCount = t.live.length + t.registry.registered
  enough : t.dropping + t.releasing.sum ≤ t.registry.totalCount
  bound : ∀ maxThreads, (∀ limit ∈ t.limits, limit = some maxThreads) →
    t.registry.registered ≤ maxThreads

theorem slots_balance (h : (agentControl.restrict Separate).Reach t) : SlotsBalance t := by
  have haccounted := Accounted.of_reach h
  have htotal := haccounted.total
  refine ⟨fun hdropping hreleasing => ?_, by omega, fun maxThreads hlimits => ?_⟩
  · rw [htotal, hdropping, hreleasing]
    simp
  · have hbound := haccounted.bound maxThreads hlimits
    omega

end

/-! ## An agent that is resumed twice -/

/-- A thread without a path. -/
def exampleMetadata : AgentMetadata := { agentId := some "7", rootThreadId := some "1" }

/-- The thread was committed. -/
def exampleCommitted : AgentControl where
  registry := ⟨(∅ : Keyed String AgentMetadata).insert "thread:7" exampleMetadata, 1⟩
  live := []
  dropping := 0
  releasing := []
  limits := [some 2]

theorem exampleCommitted_reach : (agentControl.restrict Separate).Reach exampleCommitted := by
  have hreserved : (agentControl.restrict Separate).Reach
      ⟨⟨∅, 1⟩, [⟨none⟩], 0, [], [some 2]⟩ :=
    .step_restrict (.init rfl) (@Advances.reserveSpawnSlot .new (some 2) _ rfl) trivial
  exact hreserved.step_restrict
    (@Advances.commit _ ⟨none⟩ exampleMetadata (List.mem_singleton_self _))
    ⟨rfl, "7", rfl, fun _ hlookup => nomatch hlookup⟩

theorem slots_balance_example : SlotsBalance exampleCommitted := slots_balance exampleCommitted_reach

/-- The second commit of the thread overwrites the entry of the first. -/
theorem slot_leaked : ¬ ∀ t, agentControl.Reach t → SlotsBalance t := by
  intro h
  have hreserved := exampleCommitted_reach.of_restrict.step
    (@Advances.reserveSpawnSlot exampleCommitted (some 2) _ rfl)
  have hcommitted := hreserved.step
    (@Advances.commit _ ⟨none⟩ exampleMetadata (List.mem_singleton_self _))
  exact absurd ((h _ hcommitted).total rfl rfl) (by decide)

end Mcodex.Agents
