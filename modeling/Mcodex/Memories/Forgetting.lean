import Mcodex.Memories.WorkersSpec

/-!
# Forgetting what is no longer selected

A selection compares with the rows that the last successful run marked. Rows whose snapshot was
stored at that time are marked, and stay marked while they exist: neither a new output nor the
retention takes them out.
-/

namespace Mcodex.Memories

open Table Transition

section
variable {t t' : Workers} {db : Database} {threadId : ThreadId}

/-! ## Marked rows -/

/-- The row of the thread is marked. -/
def Selected (outputs : Keyed ThreadId Stage1Row) (threadId : ThreadId) : Prop :=
  ∃ row, outputs.lookup threadId = some row ∧ row.selectedForPhase2 = true

/-- Marked rows that exist are still marked. -/
def KeepsSelected (outputs outputs' : Keyed ThreadId Stage1Row) : Prop :=
  ∀ threadId ∈ outputs', Selected outputs threadId → Selected outputs' threadId

namespace KeepsSelected

variable {outputs outputs' : Keyed ThreadId Stage1Row}

theorem refl (outputs : Keyed ThreadId Stage1Row) : KeepsSelected outputs outputs :=
  fun _ _ hselected => hselected

theorem eraseAll (threadIds : List ThreadId) :
    KeepsSelected outputs (eraseAll threadIds outputs) := by
  rintro threadId hmem ⟨row, hlookup, hselected⟩
  refine ⟨row, ?_, hselected⟩
  have hisSome := AList.lookup_isSome.2 hmem
  rw [lookup_eraseAll] at hisSome ⊢
  split at hisSome
  · cases hisSome
  · rename_i hnot
    rw [if_neg hnot]
    exact hlookup

theorem erase (threadId : ThreadId) : KeepsSelected outputs (outputs.erase threadId) :=
  eraseAll [threadId]

theorem updateKey {f : Stage1Row → Stage1Row}
    (hf : ∀ row, (f row).selectedForPhase2 = row.selectedForPhase2) :
    Selected outputs threadId → ∀ threadId', Selected (updateKey threadId' f outputs) threadId := by
  rintro ⟨row, hlookup, hselected⟩ threadId'
  rw [Selected, lookup_updateKey, hlookup]
  split
  · exact ⟨f row, rfl, (hf row).trans hselected⟩
  · exact ⟨row, rfl, hselected⟩

/-- A new output of a thread leaves the mark of its row. -/
theorem upsertStage1Output {threadId' : ThreadId} {sourceUpdatedAt : Int}
    {rawMemory rolloutSummary : String} {rolloutSlug : Option String}
    (h : Selected outputs threadId) :
    Selected (Database.upsertStage1Output outputs threadId' sourceUpdatedAt rawMemory rolloutSummary
      rolloutSlug) threadId := by
  obtain ⟨row, hlookup, hselected⟩ := h
  rw [Database.upsertStage1Output]
  split
  · rename_i row' hlookup'
    split
    · rw [Selected, lookup_insert]
      split
      · rename_i heq
        rw [← heq, hlookup] at hlookup'
        cases hlookup'
        exact ⟨_, rfl, hselected⟩
      · exact ⟨row, hlookup, hselected⟩
    · exact ⟨row, hlookup, hselected⟩
  · rename_i hnone
    rw [Selected, lookup_insert]
    split
    · rename_i heq
      rw [← heq, hlookup] at hnone
      cases hnone
    · exact ⟨row, hlookup, hselected⟩

end KeepsSelected

/-- The mark of a run marks the snapshots that are stored. -/
theorem selected_of_stored {selectedOutputs : List Stage1Output}
    (h : threadId ∈ t.stored selectedOutputs) :
    Selected (Database.selectSnapshots t.db.stage1Outputs selectedOutputs) threadId := by
  obtain ⟨output, hmem, rfl⟩ := List.mem_map.1 (List.mem_toFinset.1 h)
  obtain ⟨hmem, hstored⟩ := List.mem_filter.1 hmem
  obtain ⟨row, hlookup, hsource⟩ := (Option.any_eq_true _ _).1 hstored
  have hsource : row.sourceUpdatedAt = output.sourceUpdatedAt := of_decide_eq_true hsource
  refine ⟨_, (Database.lookup_selectSnapshots _ _).trans (congrArg _ hlookup), ?_⟩
  refine (Database.foldl_selectSnapshot _ row.unselect).2.2 (.inr ⟨output, ?_, hsource.symm⟩)
  exact List.mem_filter.2 ⟨hmem, decide_eq_true rfl⟩

/-! ## The invariant -/

/-- The baseline shrinks with the rows, whose marks stay, or it is marked anew. -/
inductive BaselineEffect (t t' : Workers) : Prop
  | frame (hkept : t'.kept = t.kept) (houtputs : t'.db.stage1Outputs = t.db.stage1Outputs)
  | committed (hkept : t'.kept = t.kept.filter (· ∈ t'.db.stage1Outputs))
    (houtputs : KeepsSelected t.db.stage1Outputs t'.db.stage1Outputs)
  | marked {selectedOutputs : List Stage1Output} (hkept : t'.kept = t.stored selectedOutputs)
    (houtputs : t'.db.stage1Outputs =
      Database.selectSnapshots t.db.stage1Outputs selectedOutputs)

/-- Outputs that are equal keep their marks. -/
theorem BaselineEffect.of_eq (hkept : t'.kept = t.kept.filter (· ∈ t'.db.stage1Outputs))
    (houtputs : t'.db.stage1Outputs = t.db.stage1Outputs) : BaselineEffect t t' :=
  .committed hkept (houtputs ▸ .refl _)

theorem Works.baseline {a : MemoryStep} (hstep : Works t a t') : BaselineEffect t t' := by
  cases hstep with
  | tick | getPhase2InputSelection => exact .frame rfl rfl
  | tryClaimStage1Job _ hclaim =>
    refine .of_eq rfl ?_
    rcases Database.tryClaimStage1Job_cases hclaim with ⟨-, hclaimed⟩ | ⟨-, rfl⟩
    · obtain ⟨_, rfl, -⟩ := hclaimed.job
      rfl
    · rfl
  | markStage1JobSucceeded hmarked =>
    refine .committed rfl ?_
    rcases Database.markStage1JobSucceeded_cases hmarked with
      ⟨-, rfl⟩ | ⟨-, -, -, houtputs, -⟩
    · exact .refl _
    · intro threadId _ hselected
      exact houtputs ▸ KeepsSelected.upsertStage1Output hselected
  | markStage1JobSucceededNoOutput hmarked =>
    refine .committed rfl ?_
    rcases Database.markStage1JobSucceededNoOutput_cases hmarked with
      ⟨-, rfl⟩ | ⟨-, -, houtputs, -, -⟩
    · exact .refl _
    · exact houtputs ▸ KeepsSelected.erase _
  | markStage1JobFailed hmarked =>
    refine .of_eq rfl ?_
    rcases Database.markStage1JobFailed_cases hmarked with
      ⟨-, rfl⟩ | ⟨-, -, -, houtputs, -⟩
    · rfl
    · exact houtputs
  | tryClaimGlobalPhase2Job _ hclaim =>
    refine .of_eq rfl ?_
    rcases Database.tryClaimGlobalPhase2Job_cases hclaim with ⟨_, _, _, _, rfl, _⟩ | ⟨_, rfl⟩ <;> rfl
  | heartbeatGlobalPhase2Job hmarked =>
    refine .of_eq rfl ?_
    rcases Database.updateOwnedGlobal_cases hmarked with ⟨_, rfl⟩ | ⟨_, _, _, _, rfl⟩ <;> rfl
  | markGlobalPhase2JobSucceeded hmarked =>
    rcases Database.markGlobalPhase2JobSucceeded_cases hmarked with ⟨rfl, rfl⟩ |
      ⟨rfl, _, _, _, rfl⟩
    · exact .frame rfl rfl
    · exact .marked rfl rfl
  | markGlobalPhase2JobFailed hmarked =>
    refine .of_eq rfl ?_
    rcases Database.updateOwnedGlobal_cases hmarked with ⟨_, rfl⟩ | ⟨_, _, _, _, rfl⟩ <;> rfl
  | markGlobalPhase2JobFailedIfUnowned hmarked =>
    refine .of_eq rfl ?_
    rcases Database.updateGlobal_cases hmarked with ⟨_, rfl⟩ | ⟨_, _, _, _, _, rfl⟩ <;> rfl
  | markThreadMemoryModePolluted hmarked =>
    refine .of_eq rfl ?_
    rcases Database.markThreadMemoryModePolluted_cases hmarked with ⟨_, rfl⟩ | ⟨_, _, houtputs, _⟩
    · rfl
    · exact houtputs
  | pruneStage1OutputsForRetention => exact .committed rfl (.eraseAll _)
  | @recordStage1OutputUsage threadIds =>
    refine .committed rfl fun threadId _ hselected => ?_
    refine Database.recordStage1OutputUsage_induct
      (P := fun db => Selected db.stage1Outputs threadId) t.now threadIds hselected
      fun _ threadId' hselected => KeepsSelected.updateKey ?_ hselected threadId'
    exact fun _ => rfl
  | enqueueGlobalConsolidation | setThread => exact .of_eq rfl rfl
  | deleteThread => exact .committed rfl (.erase _)

/-- The rows of the baseline are marked. -/
theorem selected_of_reach (h : workers.Reach t) :
    ∀ threadId ∈ t.kept, Selected t.db.stage1Outputs threadId := by
  refine h.invariant (I := fun t => ∀ threadId ∈ t.kept, Selected t.db.stage1Outputs threadId)
    (fun t hinit => ?_) fun t a t' hselected hstep threadId hmem => ?_
  · cases hinit
    exact fun _ hmem => nomatch hmem
  · cases hstep.baseline with
    | frame hkept houtputs => exact houtputs ▸ hselected threadId (hkept ▸ hmem)
    | committed hkept houtputs =>
      rw [hkept, Finset.mem_filter] at hmem
      exact houtputs threadId hmem.2 (hselected threadId hmem.1)
    | marked hkept houtputs =>
      rw [hkept] at hmem
      exact houtputs ▸ selected_of_stored hmem

/-! ## Outputs and threads -/

/-- An output has a thread. -/
def Threaded (db : Database) : Prop := ∀ threadId ∈ db.stage1Outputs, threadId ∈ db.threads

namespace Threaded

variable {db' : Database}

theorem of_subset (h : Threaded db) (houtputs : ∀ id ∈ db'.stage1Outputs, id ∈ db.stage1Outputs)
    (hthreads : ∀ id ∈ db.threads, id ∈ db'.threads) : Threaded db' :=
  fun id hmem => hthreads id (h id (houtputs id hmem))

theorem mem_eraseAll {outputs : Keyed ThreadId Stage1Row} {threadIds : List ThreadId}
    (h : threadId ∈ eraseAll threadIds outputs) : threadId ∈ outputs := by
  rw [← AList.lookup_isSome, lookup_eraseAll] at h
  split at h
  · cases h
  · exact AList.lookup_isSome.1 h

theorem mem_upsertStage1Output {outputs : Keyed ThreadId Stage1Row} {threadId' : ThreadId}
    {sourceUpdatedAt : Int} {rawMemory rolloutSummary : String} {rolloutSlug : Option String}
    (h : threadId ∈ Database.upsertStage1Output outputs threadId' sourceUpdatedAt rawMemory
      rolloutSummary rolloutSlug) : threadId = threadId' ∨ threadId ∈ outputs := by
  rw [Database.upsertStage1Output] at h
  split at h
  · split at h
    · exact (AList.mem_insert _).1 h
    · exact .inr h
  · exact (AList.mem_insert _).1 h

theorem mem_selectSnapshots {outputs : Keyed ThreadId Stage1Row}
    {selectedOutputs : List Stage1Output}
    (h : threadId ∈ Database.selectSnapshots outputs selectedOutputs) : threadId ∈ outputs := by
  rw [← AList.lookup_isSome, Database.lookup_selectSnapshots, Option.isSome_map] at h
  exact AList.lookup_isSome.1 h

theorem step {a : MemoryStep} (h : Threaded t.db) (hstep : Works t a t') : Threaded t'.db := by
  cases hstep with
  | tick | getPhase2InputSelection | enqueueGlobalConsolidation => exact h
  | tryClaimStage1Job _ hclaim =>
    rcases Database.tryClaimStage1Job_cases hclaim with ⟨-, hclaimed⟩ | ⟨-, rfl⟩
    · obtain ⟨_, rfl, -⟩ := hclaimed.job
      exact h
    · exact h
  | @markStage1JobSucceeded _ _ _ _ _ _ db _ hmarked =>
    rcases Database.markStage1JobSucceeded_cases hmarked with
      ⟨-, rfl⟩ | ⟨-, -, -, houtputs, hthread, hthreads⟩
    · exact h
    · intro id hmem
      show id ∈ db.threads
      rw [hthreads]
      rcases mem_upsertStage1Output (houtputs ▸ hmem) with rfl | hmem
      · exact hthread
      · exact h id hmem
  | markStage1JobSucceededNoOutput hmarked =>
    rcases Database.markStage1JobSucceededNoOutput_cases hmarked with
      ⟨-, rfl⟩ | ⟨-, -, houtputs, hthreads, -⟩
    · exact h
    · exact h.of_subset (fun id hmem => (AList.mem_erase.1 (houtputs ▸ hmem)).2)
        fun id hmem => hthreads ▸ hmem
  | markStage1JobFailed hmarked =>
    rcases Database.markStage1JobFailed_cases hmarked with
      ⟨-, rfl⟩ | ⟨-, -, -, houtputs, hthreads⟩
    · exact h
    · exact h.of_subset (fun id hmem => houtputs ▸ hmem) fun id hmem => hthreads ▸ hmem
  | tryClaimGlobalPhase2Job _ hclaim =>
    rcases Database.tryClaimGlobalPhase2Job_cases hclaim with ⟨_, _, _, _, rfl, _⟩ | ⟨_, rfl⟩ <;>
      exact h
  | heartbeatGlobalPhase2Job hmarked =>
    rcases Database.updateOwnedGlobal_cases hmarked with ⟨_, rfl⟩ | ⟨_, _, _, _, rfl⟩ <;> exact h
  | markGlobalPhase2JobSucceeded hmarked =>
    rcases Database.markGlobalPhase2JobSucceeded_cases hmarked with ⟨_, rfl⟩ | ⟨_, _, _, _, rfl⟩
    · exact h
    · exact h.of_subset (fun _ => mem_selectSnapshots) fun _ hmem => hmem
  | markGlobalPhase2JobFailed hmarked =>
    rcases Database.updateOwnedGlobal_cases hmarked with ⟨_, rfl⟩ | ⟨_, _, _, _, rfl⟩ <;> exact h
  | markGlobalPhase2JobFailedIfUnowned hmarked =>
    rcases Database.updateGlobal_cases hmarked with ⟨_, rfl⟩ | ⟨_, _, _, _, _, rfl⟩ <;> exact h
  | @markThreadMemoryModePolluted _ db _ hmarked =>
    rcases Database.markThreadMemoryModePolluted_cases hmarked with
      ⟨_, rfl⟩ | ⟨_, _, houtputs, hthreads, _⟩
    · exact h
    · refine h.of_subset (fun id hmem => houtputs ▸ hmem) fun id hmem => ?_
      show id ∈ db.threads
      rw [hthreads]
      exact (AList.mem_insert _).2 (.inr hmem)
  | pruneStage1OutputsForRetention =>
    exact h.of_subset (fun _ => mem_eraseAll) fun _ hmem => hmem
  | @recordStage1OutputUsage threadIds =>
    refine Database.recordStage1OutputUsage_induct (P := Threaded) t.now threadIds h
      fun db threadId hthreaded => hthreaded.of_subset (fun id hmem => ?_) fun _ hmem => hmem
    exact mem_updateKey.1 hmem
  | setThread =>
    exact h.of_subset (fun _ hmem => hmem) fun _ hmem => (AList.mem_insert _).2 (.inr hmem)
  | deleteThread =>
    intro id hmem
    obtain ⟨hne, hmem⟩ := AList.mem_erase.1 hmem
    exact AList.mem_erase.2 ⟨hne, h id hmem⟩

theorem of_reach (h : workers.Reach t) : Threaded t.db := by
  refine h.invariant (I := fun t => Threaded t.db) (fun t hinit => ?_) fun t a t' h hstep =>
    h.step hstep
  cases hinit
  exact fun _ hmem => nomatch hmem

end Threaded

/-! ## Forgetting -/

/-- The selection reports the thread as selected before, and as removed unless it is selected. -/
def Phase2InputSelection.Reports (selection : Phase2InputSelection) (threadId : ThreadId) : Prop :=
  (∃ output ∈ selection.previousSelected, output.threadId = threadId) ∧
    ((∀ output ∈ selection.selected, output.threadId ≠ threadId) →
      ∃ ref ∈ selection.removed, ref.threadId = threadId)

/-- Marking the thread polluted enqueues the consolidation. -/
def Database.EnqueuesForgetting (db : Database) (now : Int) (threadId : ThreadId) : Prop :=
  ∃ db', db.markThreadMemoryModePolluted now threadId = (db', true) ∧
    db'.globalJob = (db.enqueueGlobalConsolidation now).globalJob

theorem mem_previousRows {entry : Stage1Entry} :
    entry ∈ db.previousRows ↔
      entry ∈ db.stage1Outputs.entries ∧ entry.2.selectedForPhase2 = true := by
  rw [Database.previousRows, List.mem_mergeSort, List.mem_filter]

theorem reports_of_selected {now maxUnusedDays : Int} {n : Nat} (hn : n ≠ 0)
    (h : Selected db.stage1Outputs threadId) :
    (db.getPhase2InputSelection now n maxUnusedDays).Reports threadId := by
  obtain ⟨row, hlookup, hselected⟩ := h
  have hmem : (⟨threadId, row⟩ : Stage1Entry) ∈ db.previousRows :=
    mem_previousRows.2 ⟨AList.mem_lookup_iff.1 hlookup, hselected⟩
  rw [Database.getPhase2InputSelection, if_neg hn]
  refine ⟨⟨_, List.mem_map_of_mem hmem, rfl⟩, fun hnot => ?_⟩
  refine ⟨_, List.mem_map_of_mem (List.mem_filter.2 ⟨hmem, ?_⟩), rfl⟩
  refine (congrArg _ (Bool.eq_false_iff.2 fun hcontains => ?_)).trans Bool.not_false
  obtain ⟨entry, hentry, heq⟩ := List.mem_map.1 (List.contains_iff_mem.1 hcontains)
  exact hnot entry.output (List.mem_map_of_mem hentry) heq

theorem enqueuesForgetting_of_selected {now : Int} (h : Selected db.stage1Outputs threadId)
    (hthreaded : Threaded db) (hmode : db.threads.lookup threadId ≠ some .polluted) :
    db.EnqueuesForgetting now threadId := by
  obtain ⟨row, hlookup, hselected⟩ := h
  have hany : (db.stage1Outputs.lookup threadId).any (·.selectedForPhase2) = true := by
    rw [hlookup]
    exact hselected
  have hthread := hthreaded threadId (AList.lookup_isSome.1 (by rw [hlookup]; rfl))
  obtain ⟨mode, hthread⟩ := Option.isSome_iff_exists.1 (AList.lookup_isSome.2 hthread)
  rw [Database.EnqueuesForgetting, Database.markThreadMemoryModePolluted, hthread]
  cases mode with
  | polluted => exact absurd hthread hmode
  | enabled | other =>
    rw [if_pos hany]
    exact ⟨_, rfl, rfl⟩

/-- The retention deletes no row that is marked. -/
theorem mem_prune_of_selected {now maxUnusedDays : Int} {limit : Nat}
    (h : Selected db.stage1Outputs threadId) :
    threadId ∈ (db.pruneStage1OutputsForRetention now maxUnusedDays limit).1.stage1Outputs := by
  obtain ⟨row, hlookup, hselected⟩ := h
  refine AList.lookup_isSome.1 ?_
  show ((eraseAll _ db.stage1Outputs).lookup threadId).isSome
  rw [lookup_eraseAll, if_neg, hlookup]
  · rfl
  · intro hmem
    obtain ⟨⟨threadId', row'⟩, hentry, rfl⟩ := List.mem_map.1 hmem
    obtain ⟨hentry, hstale⟩ := List.mem_filter.1 (List.mem_mergeSort.1 (List.mem_of_mem_take hentry))
    cases hlookup.symm.trans (AList.mem_lookup_iff.2 hentry)
    simp [hselected] at hstale

/-- For the threads of the last successful run whose snapshot was stored then, while their row
exists: a selection that selects any outputs reports them, marking one polluted that is not yet
enqueues the consolidation, and the retention leaves their rows. -/
structure Remembered (t : Workers) : Prop where
  reported : ∀ threadId ∈ t.kept, ∀ now n maxUnusedDays, n ≠ 0 →
    (t.db.getPhase2InputSelection now n maxUnusedDays).Reports threadId
  enqueues : ∀ threadId ∈ t.kept, t.db.threads.lookup threadId ≠ some .polluted →
    ∀ now, t.db.EnqueuesForgetting now threadId
  pruned : ∀ threadId ∈ t.kept, ∀ now maxUnusedDays limit,
    threadId ∈ (t.db.pruneStage1OutputsForRetention now maxUnusedDays limit).1.stage1Outputs

theorem remembered (h : workers.Reach t) : Remembered t where
  reported threadId hmem _ _ _ hn := reports_of_selected hn (selected_of_reach h threadId hmem)
  enqueues threadId hmem hmode _ :=
    enqueuesForgetting_of_selected (selected_of_reach h threadId hmem) (Threaded.of_reach h) hmode
  pruned threadId hmem _ _ _ := mem_prune_of_selected (selected_of_reach h threadId hmem)

theorem not_reports_of_unselected {now maxUnusedDays : Int} {n : Nat}
    (h : ∀ entry ∈ db.stage1Outputs.entries, entry.2.selectedForPhase2 = false) :
    ¬ (db.getPhase2InputSelection now n maxUnusedDays).Reports threadId := by
  rintro ⟨⟨output, hmem, -⟩, -⟩
  rw [Database.getPhase2InputSelection] at hmem
  split at hmem
  · cases hmem
  · obtain ⟨entry, hentry, -⟩ := List.mem_map.1 hmem
    obtain ⟨hentry, hselected⟩ := mem_previousRows.1 hentry
    exact Bool.noConfusion (hselected.symm.trans (h entry hentry))

end

/-! ## Refreshed outputs, empty selections and polluted threads -/

def exampleOutput : Stage1Output := ⟨"thread", 100, "memory", "summary", none⟩

/-- A run selects the output of a thread. Then the output is refreshed before the run succeeds; or
the run succeeds, and the thread is polluted afterwards. -/
theorem exampleRuns :
    (∃ t, workers.Reach t ∧ exampleOutput ∈ t.lastSelected ∧ "thread" ∈ t.db.stage1Outputs ∧
      ∀ entry ∈ t.db.stage1Outputs.entries, entry.2.selectedForPhase2 = false) ∧
    ∃ t, workers.Reach t ∧ "thread" ∈ t.kept ∧ t.db.threads.lookup "thread" = some .polluted := by
  have hthread := System.Reach.step (S := workers) (.init rfl)
    (@Works.setThread .new "thread" .enabled)
  have hclaimed := hthread.step
    (@Works.tryClaimStage1Job _ "a" "thread" 100 3600 64 _ _ (by decide) rfl)
  have hstored := hclaimed.step
    (@Works.markStage1JobSucceeded _ "thread" "a" 100 "memory" "summary" none _ _ rfl)
  have hglobal := hstored.step (@Works.tryClaimGlobalPhase2Job _ "b" 3600 _ _ (by decide) rfl)
  have hread := hglobal.step (@Works.getPhase2InputSelection _ "b" 10 30 _ rfl rfl)
  refine ⟨?_, ?_⟩
  · have hclaimed := hread.step
      (@Works.tryClaimStage1Job _ "c" "thread" 101 3600 64 _ _ (by decide) rfl)
    have hstored := hclaimed.step
      (@Works.markStage1JobSucceeded _ "thread" "c" 101 "memory" "summary" none _ _ rfl)
    exact ⟨_, hstored.step (@Works.markGlobalPhase2JobSucceeded _ "b" 100 [exampleOutput] _ _ rfl),
      List.mem_singleton_self _, by decide, by decide⟩
  · have hmarked := hread.step
      (@Works.markGlobalPhase2JobSucceeded _ "b" 100 [exampleOutput] _ _ rfl)
    exact ⟨_, hmarked.step (@Works.markThreadMemoryModePolluted _ "thread" _ _ rfl), by decide, rfl⟩

theorem remembered_example : ∃ t : Workers, "thread" ∈ t.kept ∧ Remembered t := by
  obtain ⟨-, t, hreach, hkept, -⟩ := exampleRuns
  exact ⟨t, hkept, remembered hreach⟩

/-- A refreshed output is not reported, a selection of no outputs reports nothing, and marking a
polluted thread enqueues nothing. -/
theorem not_remembered :
    (¬ ∀ t, workers.Reach t → ∀ output ∈ t.lastSelected, output.threadId ∈ t.db.stage1Outputs →
      ∀ now n maxUnusedDays, n ≠ 0 →
        (t.db.getPhase2InputSelection now n maxUnusedDays).Reports output.threadId) ∧
    (¬ ∀ t, workers.Reach t → ∀ threadId ∈ t.kept, ∀ now n maxUnusedDays,
      (t.db.getPhase2InputSelection now n maxUnusedDays).Reports threadId) ∧
    ¬ ∀ t, workers.Reach t → ∀ threadId ∈ t.kept, ∀ now, t.db.EnqueuesForgetting now threadId := by
  obtain ⟨⟨t, hreach, hlast, hmem, hunselected⟩, t', hreach', hkept, hpolluted⟩ := exampleRuns
  refine ⟨fun h => ?_, fun h => ?_, fun h => ?_⟩
  · exact not_reports_of_unselected hunselected
      (h t hreach exampleOutput hlast hmem 0 1 30 Nat.one_ne_zero)
  · obtain ⟨⟨output, hmem, -⟩, -⟩ := h t' hreach' "thread" hkept 0 0 30
    cases hmem
  · obtain ⟨db', hmarked, -⟩ := h t' hreach' "thread" hkept 0
    rw [Database.markThreadMemoryModePolluted, hpolluted] at hmarked
    cases hmarked

end Mcodex.Memories
