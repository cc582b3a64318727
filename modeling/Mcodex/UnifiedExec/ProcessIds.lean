import Mcodex.UnifiedExec.ProcessStore

/-!
# Who owns a process id

A call owns its id until it has stored its process or released the id, and from then on the process
does, while it is in the store. `terminate_all_processes` takes the ids of all calls, and a release
takes an id by its number, whoever owns it by then; `InTurn` runs have neither.
-/

namespace Mcodex.UnifiedExec

open Table Transition

/-- `terminate_all_processes` comes while no call holds an id, and a reserved id is released by the
call that it was handed out to last, or on behalf of its process. -/
def InTurn (t : Manager) : ManagerStep → Prop
  | .terminateAll => ∀ number call, t.calls.lookup number = some call → ¬ call.Holds
  | .release number => ∀ call ∈ t.calls.lookup number,
    call.processId ∈ t.store.reservedProcessIds →
      t.allocatedBy.lookup call.processId = some number
  | .writeRelease call => call.processId ∈ t.store.reservedProcessIds →
    t.allocatedBy.lookup call.processId = some call.process
  | _ => True

section
variable {t t' : Manager} {number processId : Nat} {entry : ProcessEntry} {call : ExecCall}

/-- What runs in turn keep. -/
structure Owned (t : Manager) : Prop where
  reserved : ∀ processId ∈ t.store.processes, processId ∈ t.store.reservedProcessIds
  holds : ∀ number call, t.calls.lookup number = some call → call.Holds →
    call.processId ∈ t.store.reservedProcessIds ∧ call.processId ∉ t.store.processes ∧
      t.allocatedBy.lookup call.processId = some number ∧ number ∉ t.stored
  entries : ∀ processId entry, t.store.processes.lookup processId = some entry →
    t.allocatedBy.lookup processId = some entry.process ∧ entry.process ∈ t.stored
  writes : ∀ call ∈ t.writes, call.process ∈ t.stored
  below : (∀ number ∈ t.calls, number < t.next) ∧ ∀ number ∈ t.stored, number < t.next
  gone : ∀ process ∈ t.stored, (∃ processId, t.process processId = some process) ∨
    process ∈ t.exited ∨ process ∈ t.terminated ∨ process ∈ t.terminating

namespace Owned

theorem new : Owned .new where
  reserved _ hmem := nomatch hmem
  holds _ _ hlookup := nomatch hlookup
  entries _ _ hlookup := nomatch hlookup
  writes _ hmem := nomatch hmem
  below := ⟨fun _ hmem => (nomatch hmem), fun _ hmem => nomatch hmem⟩
  gone _ hmem := nomatch hmem

/-- Processes exit and are terminated. -/
theorem processes (h : Owned t) {exited terminated : Finset Nat} {terminating : List Nat}
    (hgone : ∀ process, process ∈ t.exited ∨ process ∈ t.terminated ∨ process ∈ t.terminating →
      process ∈ exited ∨ process ∈ terminated ∨ process ∈ terminating) :
    Owned { t with exited, terminated, terminating } where
  reserved := h.reserved
  holds := h.holds
  entries := h.entries
  writes := h.writes
  below := h.below
  gone process hmem := (h.gone process hmem).imp_right (hgone process)

/-- A call goes on without taking hold of an id. -/
theorem setCall (h : Owned t) {call' : ExecCall} (hcall : t.calls.lookup number = some call)
    (hid : call'.processId = call.processId) (hholds : call'.Holds → call.Holds) :
    Owned { t with calls := t.calls.insert number call' } where
  reserved := h.reserved
  holds number' call'' hlookup hholds' := by
    rw [lookup_insert] at hlookup
    split at hlookup
    · rename_i heq
      cases hlookup
      rw [heq, hid]
      exact h.holds number call hcall (hholds hholds')
    · exact h.holds number' call'' hlookup hholds'
  entries := h.entries
  writes := h.writes
  below := by
    refine ⟨fun number' hmem => ?_, h.below.2⟩
    rcases (AList.mem_insert _).1 hmem with rfl | hmem
    · exact h.below.1 _ (AList.lookup_isSome.1 (by rw [hcall]; rfl))
    · exact h.below.1 number' hmem
  gone := h.gone

theorem eraseCall (h : Owned t) (number : Nat) : Owned { t with calls := t.calls.erase number } where
  reserved := h.reserved
  holds number' call' hlookup := by
    rw [lookup_erase] at hlookup
    split at hlookup
    · cases hlookup
    · exact h.holds number' call' hlookup
  entries := h.entries
  writes := h.writes
  below := ⟨fun number' hmem => h.below.1 number' (AList.mem_erase.1 hmem).2, h.below.2⟩
  gone := h.gone

theorem setWrites (h : Owned t) {writes : List WriteCall}
    (hwrites : ∀ call ∈ writes, call ∈ t.writes) : Owned { t with writes } :=
  { h with writes := fun call hmem => h.writes call (hwrites call hmem) }

theorem lookup_remove {store : ProcessStore} {processId' : Nat} :
    (store.remove processId).processes.lookup processId' =
      if processId' = processId then none else store.processes.lookup processId' := lookup_erase _

/-- An id is released whose process is gone, and which no call holds. -/
theorem remove (h : Owned t)
    (hfree : ∀ number call, t.calls.lookup number = some call → call.Holds →
      call.processId ≠ processId)
    (hgone : ∀ process, t.process processId = some process →
      process ∈ t.exited ∨ process ∈ t.terminated ∨ process ∈ t.terminating) :
    Owned (t.releaseProcessId processId) where
  reserved processId' hmem := by
    obtain ⟨hne, hmem⟩ := AList.mem_erase.1 hmem
    exact Finset.mem_erase.2 ⟨hne, h.reserved processId' hmem⟩
  holds number call hlookup hholds := by
    obtain ⟨hreserved, hnot, hallocated⟩ := h.holds number call hlookup hholds
    exact ⟨Finset.mem_erase.2 ⟨hfree number call hlookup hholds, hreserved⟩,
      fun hmem => hnot (AList.mem_erase.1 hmem).2, hallocated⟩
  entries processId' entry hlookup := by
    have hlookup : (t.store.remove processId).processes.lookup processId' = some entry := hlookup
    rw [lookup_remove] at hlookup
    split at hlookup
    · cases hlookup
    · exact h.entries processId' entry hlookup
  writes := h.writes
  below := h.below
  gone process hmem := by
    rcases h.gone process hmem with ⟨processId', hprocess⟩ | hgone'
    · by_cases heq : processId' = processId
      · exact .inr (hgone process (heq ▸ hprocess))
      · refine .inl ⟨processId', ?_⟩
        show ((t.store.remove processId).processes.lookup processId').map _ = _
        rw [lookup_remove, if_neg heq]
        exact hprocess
    · exact .inr hgone'

theorem process_eq (hprocess : t.process processId = some number) :
    ∃ entry, t.store.processes.lookup processId = some entry ∧ entry.process = number :=
  Option.map_eq_some_iff.1 hprocess

/-- An id that is a key of the store is held by no call. -/
theorem free_of_process (h : Owned t) (hprocess : t.process processId = some number) :
    ∀ number call, t.calls.lookup number = some call → call.Holds →
      call.processId ≠ processId := by
  intro number' call hlookup hholds heq
  obtain ⟨entry, hentry, -⟩ := process_eq hprocess
  refine (h.holds number' call hlookup hholds).2.1 (heq ▸ AList.lookup_isSome.1 ?_)
  rw [hentry]
  rfl

theorem calls_refreshProcessState : (t.refreshProcessState processId).calls = t.calls := by
  rw [Manager.refreshProcessState]
  split
  · split <;> rfl
  · rfl

theorem refreshProcessState (h : Owned t) (processId : Nat) :
    Owned (t.refreshProcessState processId) := by
  rw [Manager.refreshProcessState]
  split
  · rename_i process hprocess
    split
    · rename_i hexited
      refine h.remove (h.free_of_process hprocess) fun process' hprocess' => ?_
      cases hprocess.symm.trans hprocess'
      exact .inl hexited
    · exact h
  · exact h

/-- A reserved id is released by who was given it last, once the process is gone. -/
theorem releaseProcessId (h : Owned t) (hgone : number ∈ t.stored →
      number ∈ t.exited ∨ number ∈ t.terminated)
    (hturn : processId ∈ t.store.reservedProcessIds →
      t.allocatedBy.lookup processId = some number)
    (hfree : ∀ call, t.calls.lookup number = some call → call.Holds →
      call.processId ≠ processId) : Owned (t.releaseProcessId processId) := by
  refine h.remove (fun number' call hlookup hholds heq => ?_) fun process hprocess => ?_
  · obtain ⟨hreserved, -, hallocated, -⟩ := h.holds number' call hlookup hholds
    rw [heq] at hreserved hallocated
    cases hallocated.symm.trans (hturn hreserved)
    exact hfree call hlookup hholds heq
  · obtain ⟨entry, hentry, rfl⟩ := process_eq hprocess
    obtain ⟨hallocated, hstored⟩ := h.entries processId entry hentry
    have hreserved := h.reserved processId (AList.lookup_isSome.1 (by rw [hentry]; rfl))
    cases hallocated.symm.trans (hturn hreserved)
    exact (hgone hstored).imp_right .inl

/-- A fresh id is handed out to a new call. -/
theorem allocate (h : Owned t) (hnew : processId ∉ t.store.reservedProcessIds) :
    Owned { t with
      store := { t.store with reservedProcessIds := insert processId t.store.reservedProcessIds }
      calls := t.calls.insert t.next ⟨processId, .allocated⟩
      next := t.next + 1
      allocatedBy := t.allocatedBy.insert processId t.next } where
  reserved processId' hmem := Finset.mem_insert_of_mem (h.reserved processId' hmem)
  holds number call hlookup hholds := by
    rw [lookup_insert] at hlookup
    split at hlookup
    · rename_i heq
      cases hlookup
      refine ⟨Finset.mem_insert_self _ _, fun hmem => hnew (h.reserved _ hmem), ?_, ?_⟩
      · rw [lookup_insert, if_pos rfl, heq]
      · rw [heq]
        exact fun hmem => Nat.lt_irrefl _ (h.below.2 _ hmem)
    · obtain ⟨hreserved, hnot, hallocated, hstored⟩ := h.holds number call hlookup hholds
      refine ⟨Finset.mem_insert_of_mem hreserved, hnot, ?_, hstored⟩
      rw [lookup_insert, if_neg (ne_of_mem_of_not_mem hreserved hnew)]
      exact hallocated
  entries processId' entry hlookup := by
    have hreserved := h.reserved processId' (AList.lookup_isSome.1 (by rw [hlookup]; rfl))
    rw [lookup_insert, if_neg (ne_of_mem_of_not_mem hreserved hnew)]
    exact h.entries processId' entry hlookup
  writes := h.writes
  below := by
    refine ⟨fun number hmem => ?_, fun number hmem => Nat.lt_succ_of_lt (h.below.2 number hmem)⟩
    rcases (AList.mem_insert _).1 hmem with rfl | hmem
    · exact Nat.lt_succ_self _
    · exact Nat.lt_succ_of_lt (h.below.1 number hmem)
  gone := h.gone

/-- The pruned process is about to be terminated. -/
theorem prune (h : Owned t) (hprocess : t.process processId = some number) :
    Owned { t with
      store := t.store.remove processId
      terminating := t.terminating ++ [number] } := by
  have hterminating : Owned { t with terminating := t.terminating ++ [number] } :=
    h.processes fun process hgone =>
      hgone.imp_right fun hgone => hgone.imp_right (List.mem_append_left _)
  refine hterminating.remove (h.free_of_process hprocess) fun process hprocess' => ?_
  cases hprocess.symm.trans hprocess'
  exact .inr (.inr (List.mem_append_right _ (List.mem_singleton_self _)))

/-- A call puts its process under the id that it holds. -/
theorem insertEntry (h : Owned t) (lastUsed : Nat)
    (hcall : t.calls.lookup number = some ⟨processId, .starting⟩) :
    Owned { t with
      store := { t.store with processes := t.store.processes.insert processId ⟨number, lastUsed⟩ }
      stored := insert number t.stored
      calls := t.calls.insert number ⟨processId, .stored⟩ } := by
  obtain ⟨hreserved, hnot, hallocated, -⟩ := h.holds number _ hcall CallPhase.noConfusion
  refine ⟨fun processId' hmem => ?_, fun number' call hlookup hholds => ?_,
    fun processId' entry hlookup => ?_, fun call hmem => Finset.mem_insert_of_mem (h.writes call hmem),
    ⟨fun number' hmem => ?_, fun number' hmem => ?_⟩, fun process hmem => ?_⟩
  · rcases (AList.mem_insert _).1 hmem with rfl | hmem
    · exact hreserved
    · exact h.reserved processId' hmem
  · rw [lookup_insert] at hlookup
    split at hlookup
    · cases hlookup
      exact absurd rfl hholds
    · rename_i hne
      obtain ⟨hreserved', hnot', hallocated', hstored'⟩ := h.holds number' call hlookup hholds
      refine ⟨hreserved', fun hmem => ?_, hallocated', fun hmem => ?_⟩
      · rcases (AList.mem_insert _).1 hmem with heq | hmem
        · rw [heq] at hallocated'
          cases hallocated.symm.trans hallocated'
          exact hne rfl
        · exact hnot' hmem
      · exact (Finset.mem_insert.1 hmem).elim hne hstored'
  · rw [lookup_insert] at hlookup
    split at hlookup
    · rename_i heq
      cases hlookup
      rw [heq]
      exact ⟨hallocated, Finset.mem_insert_self _ _⟩
    · exact (h.entries processId' entry hlookup).imp_right Finset.mem_insert_of_mem
  · rcases (AList.mem_insert _).1 hmem with rfl | hmem
    · exact h.below.1 _ (AList.lookup_isSome.1 (by rw [hcall]; rfl))
    · exact h.below.1 number' hmem
  · rcases Finset.mem_insert.1 hmem with rfl | hmem
    · exact h.below.1 _ (AList.lookup_isSome.1 (by rw [hcall]; rfl))
    · exact h.below.2 number' hmem
  · rcases Finset.mem_insert.1 hmem with rfl | hmem
    · refine .inl ⟨processId, ?_⟩
      show ((t.store.processes.insert processId _).lookup processId).map _ = _
      rw [lookup_insert, if_pos rfl]
      rfl
    · refine (h.gone process hmem).imp_left fun ⟨processId', hprocess⟩ => ⟨processId', ?_⟩
      show ((t.store.processes.insert processId _).lookup processId').map _ = _
      rw [lookup_insert, if_neg]
      · exact hprocess
      · rintro rfl
        obtain ⟨entry, hentry, -⟩ := process_eq hprocess
        exact hnot (AList.lookup_isSome.1 (by rw [hentry]; rfl))

theorem process_of_pruned {entries : PruneMeta} (hentries : t.IsMeta entries)
    (h : t.pruneProcessesIfNeeded entries = some processId) :
    ∃ process, t.process processId = some process := by
  rw [Manager.pruneProcessesIfNeeded] at h
  split at h
  · cases h
  · obtain ⟨entry, hmem, rfl⟩ := mem_of_processIdToPruneFromMeta h
    obtain ⟨⟨processId, entry⟩, hentry, rfl⟩ := List.mem_map.1 (hentries.subset hmem)
    refine ⟨entry.process, ?_⟩
    rw [Manager.process, AList.mem_lookup_iff.2 hentry]
    rfl

theorem store (h : Owned t) {entries : PruneMeta} {now : Nat}
    (hcall : t.calls.lookup number = some ⟨processId, .starting⟩) (hentries : t.IsMeta entries) :
    Owned { t.storeProcess number processId now (t.pruneProcessesIfNeeded entries) with
      calls := t.calls.insert number ⟨processId, .stored⟩ } := by
  cases hpruned : t.pruneProcessesIfNeeded entries with
  | none =>
    show Owned { t with
      store := _, terminating := t.terminating ++ [], stored := _, calls := _ }
    rw [List.append_nil]
    exact h.insertEntry now hcall
  | some pruned =>
    obtain ⟨process, hprocess⟩ := process_of_pruned hentries hpruned
    have hstored := (h.prune hprocess).insertEntry now hcall
    show Owned { t with
      store := _, terminating := t.terminating ++ (t.process pruned).toList, stored := _
      calls := _ }
    rw [hprocess]
    exact hstored

/-- The use of a process is noted. -/
theorem prepare (h : Owned t) {now : Nat} (hentry : t.store.processes.lookup processId = some entry) :
    Owned { t with
      store :=
        { t.store with
          processes := t.store.processes.insert processId { entry with lastUsed := now } }
      writes := t.writes ++ [⟨entry.process, processId⟩] } := by
  have hkey : processId ∈ t.store.processes := AList.lookup_isSome.1 (by rw [hentry]; rfl)
  have hmem : ∀ processId', processId' ∈ t.store.processes.insert processId
      { entry with lastUsed := now } → processId' ∈ t.store.processes := by
    intro processId' hmem
    rcases (AList.mem_insert _).1 hmem with rfl | hmem
    · exact hkey
    · exact hmem
  refine ⟨fun processId' h' => h.reserved processId' (hmem processId' h'),
    fun number call hlookup hholds => ?_, fun processId' entry' hlookup => ?_,
    fun call hcall => ?_, h.below, fun process hstored => ?_⟩
  · obtain ⟨hreserved, hnot, hallocated⟩ := h.holds number call hlookup hholds
    exact ⟨hreserved, fun h' => hnot (hmem _ h'), hallocated⟩
  · rw [lookup_insert] at hlookup
    split at hlookup
    · rename_i heq
      cases hlookup
      rw [heq]
      exact h.entries processId entry hentry
    · exact h.entries processId' entry' hlookup
  · rcases List.mem_append.1 hcall with hcall | hcall
    · exact h.writes call hcall
    · rw [List.mem_singleton.1 hcall]
      exact (h.entries processId entry hentry).2
  · refine (h.gone process hstored).imp_left fun ⟨processId', hprocess⟩ => ⟨processId', ?_⟩
    show ((t.store.processes.insert processId _).lookup processId').map _ = _
    rw [lookup_insert]
    split
    · rename_i heq
      obtain ⟨entry', hentry', rfl⟩ := process_eq hprocess
      rw [heq] at hentry'
      cases hentry.symm.trans hentry'
      rfl
    · exact hprocess

/-- All processes are about to be terminated, and no call holds an id. -/
theorem terminateAll (h : Owned t)
    (hstored : ∀ number call, t.calls.lookup number = some call → ¬ call.Holds) :
    Owned { t with
      store := .empty
      terminating := t.terminating ++ t.store.processes.entries.map (·.2.process) } where
  reserved _ hmem := nomatch hmem
  holds number call hlookup hholds := absurd hholds (hstored number call hlookup)
  entries _ _ hlookup := nomatch hlookup
  writes := h.writes
  below := h.below
  gone process hmem := by
    rcases h.gone process hmem with ⟨processId, hprocess⟩ | hexited | hterminated | hterminating
    · obtain ⟨entry, hentry, rfl⟩ := process_eq hprocess
      have hmem := List.mem_map_of_mem (f := (·.2.process)) (AList.mem_lookup_iff.1 hentry)
      exact .inr (.inr (.inr (List.mem_append_right _ hmem)))
    · exact .inr (.inl hexited)
    · exact .inr (.inr (.inl hterminated))
    · exact .inr (.inr (.inr (List.mem_append_left _ hterminating)))

theorem step {a : ManagerStep} (h : Owned t) (hturn : InTurn t a) (hstep : Manages t a t') :
    Owned t' := by
  cases hstep with
  | allocate _ hnew => exact h.allocate hnew
  | openSession hcall => exact h.setCall hcall rfl fun _ => CallPhase.noConfusion
  | check hcall => exact h.setCall hcall rfl fun _ => CallPhase.noConfusion
  | store hcall hentries => exact h.store hcall hentries
  | @refresh number processId hcall =>
    have hrefreshed := (h.refreshProcessState processId).eraseCall number
    rw [calls_refreshProcessState] at hrefreshed
    exact hrefreshed
  | @release number call hcall hphase =>
    refine (h.eraseCall number).releaseProcessId (fun hstored => ?_) (hturn call hcall)
      fun call' hcall' => ?_
    · rcases hphase with hphase | hphase | hphase
      · exact absurd hstored (h.holds number call hcall fun heq => (nomatch hphase ▸ heq)).2.2.2
      · exact absurd hstored (h.holds number call hcall fun heq => (nomatch hphase ▸ heq)).2.2.2
      · exact .inl hphase.2
    · rw [lookup_erase, if_pos rfl] at hcall'
      cases hcall'
  | prepare hentry => exact h.prepare hentry
  | writeRefresh _ => exact h.refreshProcessState _
  | writeFailed _ =>
    refine h.processes fun process hgone => hgone.imp_right fun hgone => hgone.imp_left ?_
    exact Finset.mem_insert_of_mem
  | @writeRelease call hcall hgone =>
    refine (h.setWrites fun _ hmem => List.mem_of_mem_erase hmem).releaseProcessId
      (fun _ => hgone) hturn fun call' hcall' hholds => ?_
    exact absurd (h.writes call hcall) (h.holds call.process call' hcall' hholds).2.2.2
  | writeEnd _ => exact h.setWrites fun call hmem => List.mem_of_mem_erase hmem
  | exits => exact h.processes fun process hgone => hgone.imp_left Finset.mem_insert_of_mem
  | terminateAll => exact h.terminateAll hturn
  | @terminate process hprocess =>
    refine h.processes fun process' hgone => hgone.imp_right ?_
    rintro (hterminated | hterminating)
    · exact .inl (Finset.mem_insert_of_mem hterminated)
    · by_cases heq : process' = process
      · exact .inl (heq ▸ Finset.mem_insert_self _ _)
      · exact .inr ((List.mem_erase_of_ne heq).2 hterminating)

theorem of_reach (h : (manager.restrict InTurn).Reach t) : Owned t := by
  refine h.invariant (fun t hinit => ?_) fun t a t' howned hstep => howned.step hstep.1 hstep.2
  cases hinit
  exact new

end Owned

/-! ## Ids, reservations and processes -/

/-- Every key of the store is reserved; an id is not handed out while a call holds it or a process
has it; a call stores its process under an id that no other process has; and a process that left
the store exited or was terminated, or its caller is about to terminate it. -/
structure IdsOwned (t : Manager) : Prop where
  reserved : ∀ processId ∈ t.store.processes, processId ∈ t.store.reservedProcessIds
  fresh : ∀ processId t', Manages t (.allocate processId) t' →
    processId ∉ t.store.processes ∧
      ∀ number call, t.calls.lookup number = some call → call.Holds → call.processId ≠ processId
  storing : ∀ number processId, t.calls.lookup number = some ⟨processId, .starting⟩ →
    processId ∉ t.store.processes
  gone : ∀ process ∈ t.stored, (∃ processId, t.process processId = some process) ∨
    process ∈ t.exited ∨ process ∈ t.terminated ∨ process ∈ t.terminating

/-- In turn, no id has two owners. -/
theorem ids_owned (h : (manager.restrict InTurn).Reach t) : IdsOwned t := by
  have howned := Owned.of_reach h
  refine ⟨howned.reserved, fun processId t' hstep => ?_, fun number processId hcall => ?_,
    howned.gone⟩
  · cases hstep with
    | allocate _ hnew =>
      refine ⟨fun hmem => hnew (howned.reserved _ hmem), fun number call hcall hholds heq => ?_⟩
      exact hnew (heq ▸ (howned.holds number call hcall hholds).1)
  · exact (howned.holds number _ hcall CallPhase.noConfusion).2.1

end

/-! ## Terminating all processes while a call starts one -/

/-- A call was given an id. -/
def exampleAllocated : Manager :=
  { Manager.new with
    store := ⟨∅, {1000}⟩
    calls := (∅ : Keyed Nat ExecCall).insert 0 ⟨1000, .allocated⟩
    next := 1
    allocatedBy := (∅ : Keyed Nat Nat).insert 1000 0 }

theorem exampleAllocated_step : Manages .new (.allocate 1000) exampleAllocated :=
  @Manages.allocate .new 1000 (by decide) (by decide)

/-- All processes are terminated once the call has stored its own. -/
theorem ids_owned_example : ∃ t : Manager, t.terminating = [0] ∧ IdsOwned t := by
  have hallocated : (manager.restrict InTurn).Reach exampleAllocated :=
    .step_restrict (.init rfl) exampleAllocated_step trivial
  have hopened := hallocated.step_restrict (@Manages.openSession _ 0 1000 rfl) trivial
  have hchecked := hopened.step_restrict (@Manages.check _ 0 1000 rfl) trivial
  have hstored := hchecked.step_restrict (@Manages.store _ 0 1000 0 [] rfl (.refl [])) trivial
  refine ⟨_, rfl, ids_owned (hstored.step_restrict .terminateAll fun number call hcall => ?_)⟩
  obtain ⟨rfl, hcall⟩ := List.mem_singleton.1 (AList.mem_lookup_iff.1 hcall)
  exact fun hholds => hholds rfl

/-- `terminate_all_processes` clears the id of a call whose process is being started, and the call
stores the process under it. -/
theorem not_owned : ¬ ∀ t, manager.Reach t → IdsOwned t := by
  intro h
  have hallocated : manager.Reach exampleAllocated := .step (.init rfl) exampleAllocated_step
  have hopened := (hallocated.step .terminateAll).step
    (@Manages.openSession _ 0 1000 rfl)
  have hchecked := hopened.step (@Manages.check _ 0 1000 rfl)
  have hstored := hchecked.step (@Manages.store _ 0 1000 0 [] rfl (.refl []))
  exact absurd ((h _ hstored).reserved 1000 (by decide)) (by decide)

end Mcodex.UnifiedExec
