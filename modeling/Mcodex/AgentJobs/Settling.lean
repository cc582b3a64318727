import Mcodex.AgentJobs.Runner

/-!
# Items settle

Every statement that changes an item guards itself with the item's status, so whatever comes in
between, an item that is completed or failed stays as it is: one report of an item is accepted and
its result stays, and a job that is marked completed has final items only (`items_settle`).
-/

namespace Mcodex.AgentJobs

open Transition Table

/-- The moves of an item's status. -/
def AgentJobItemStatus.MovesTo (status status' : AgentJobItemStatus) : Prop :=
  status' = status ∨ (status = .pending ∧ status' = .running) ∨
    (status = .running ∧ (status' = .pending ∨ status' = .completed ∨ status' = .failed))

/-- The item of a report has its result. -/
def Stores (db : AgentJobDb) (report : Report) : Prop :=
  ∃ item ∈ db.items, item.itemId = report.itemId ∧ item.status = .completed ∧
    item.resultJson = some report.resultJson

def AllFinal (s : JobState) : Prop := ∀ item ∈ s.db.items, item.isFinal

/-- What a step keeps, and what it leaves for ever. -/
structure Settles (maxConcurrency : Nat) (s t : JobState) : Prop where
  moves : List.Forall₂ (fun item item' => item'.itemId = item.itemId ∧
    item.status.MovesTo item'.status) s.db.items t.db.items
  ids : (t.db.items.map (·.itemId)).Nodup
  reports : t.reports = s.reports ∨ ∃ report, t.reports = s.reports ++ [report] ∧
    ∃ item ∈ s.db.items, item.itemId = report.itemId ∧ item.status = .running ∧
      item.assignedThreadId = some report.threadId
  once : (t.reports.map (·.itemId)).Nodup
  stored : ∀ report ∈ t.reports, ∀ u, (agentJob maxConcurrency).Run t u → Stores u.db report
  completed : t.db.job.status = .completed → AllFinal t

section
variable {maxConcurrency : Nat} {s t u : JobState} {a : Action} {db : AgentJobDb}

theorem ItemStep.movesTo {item item' : AgentJobItem} (h : ItemStep item item') :
    item.status.MovesTo item'.status := by
  cases h with
  | stay => exact Or.inl rfl
  | assign _ h => exact Or.inr (Or.inl ⟨h, rfl⟩)
  | release _ h => exact Or.inr (Or.inr ⟨h, Or.inl rfl⟩)
  | report _ h _ | complete h _ => exact Or.inr (Or.inr ⟨h, Or.inr (Or.inl rfl)⟩)
  | fail _ h => exact Or.inr (Or.inr ⟨h, Or.inr (Or.inr rfl)⟩)

/-! ## Reports -/

/-- An accepted report finds the item running, and assigned to the thread that reports. -/
theorem exists_of_reported {itemId : ItemId} {threadId : ThreadId} {resultJson : List Char}
    (h : (db.reportAgentJobItemResult itemId threadId resultJson).2 = true) :
    ∃ item ∈ db.items, item.itemId = itemId ∧ item.status = .running ∧
      item.assignedThreadId = some threadId := by
  obtain ⟨item, hitem, hselected⟩ := List.any_eq_true.1 h
  simp only [Bool.and_eq_true, decide_eq_true_eq] at hselected
  exact ⟨item, hitem, hselected⟩

theorem stores_of_reported {itemId : ItemId} {threadId : ThreadId} {resultJson : List Char}
    (h : (db.reportAgentJobItemResult itemId threadId resultJson).2 = true) :
    Stores (db.reportAgentJobItemResult itemId threadId resultJson).1
      ⟨threadId, itemId, resultJson⟩ := by
  obtain ⟨item, hitem, hselected⟩ := List.any_eq_true.1 h
  refine ⟨_, mem_updateWhere.2 ⟨item, hitem, rfl⟩, ?_⟩
  rw [if_pos hselected]
  exact ⟨of_decide_eq_true (Bool.and_eq_true_iff.1 hselected).1, rfl, rfl⟩

theorem Stores.itemsStep {db' : AgentJobDb} {report : Report} (h : Stores db report)
    (hstep : ItemsStep db db') : Stores db' report := by
  obtain ⟨item, hitem, hid, hstatus, hresult⟩ := h
  refine ⟨item, hstep.mem_of_isFinal hitem ?_, hid, hstatus, hresult⟩
  simp [AgentJobItem.isFinal, hstatus]

theorem Stores.run {report : Report} (h : Stores s.db report)
    (hrun : (agentJob maxConcurrency).Run s u) : Stores u.db report :=
  hrun.invariant (I := fun s => Stores s.db report) h fun _ _ _ hstores hstep =>
    Stores.itemsStep hstores (JobStep.itemsStep hstep)

/-- Only a report adds to the accepted ones. -/
theorem RunnerStep.reports (h : RunnerStep maxConcurrency s t) : t.reports = s.reports := by
  cases h with
  | finalizeWrite =>
    rename_i after _
    cases after <;> rfl
  | _ => rfl

/-! ## The invariant -/

/-- What holds between any two statements. -/
structure Consistent (s : JobState) : Prop where
  ids : (s.db.items.map (·.itemId)).Nodup
  stored : ∀ report ∈ s.reports, Stores s.db report
  once : (s.reports.map (·.itemId)).Nodup
  /-- Unless it saw a request to stop, the runner leaves the loop when all items are final. -/
  left : s.pc = .exporting ∨ s.pc = .readFinalCancelled → s.cancelRequested = false → AllFinal s
  completing : s.pc = .completing → AllFinal s
  completed : s.db.job.status = .completed → AllFinal s

theorem allFinal_of_loopDone (hcancel : s.cancelRequested = false) (h : s.loopDone) :
    AllFinal s := by
  rw [JobState.loopDone, hcancel, if_neg Bool.false_ne_true] at h
  simp only [Bool.and_eq_true, decide_eq_true_eq, AgentJobDb.getAgentJobProgress,
    List.countP_eq_zero] at h
  intro item hitem
  have hpending := h.1.1 item hitem
  have hrunning := h.1.2 item hitem
  rw [AgentJobItem.isFinal]
  cases hstatus : item.status with
  | pending => exact absurd hstatus hpending
  | running => exact absurd hstatus hrunning
  | completed | failed => rfl

theorem AllFinal.itemsStep (h : AllFinal s) (hstep : ItemsStep s.db t.db) : AllFinal t :=
  hstep.all_isFinal h

/-- The statements that leave the status of the job, and lead nowhere behind the loop. -/
theorem Consistent.runner_of_pc (h : Consistent s) (hstep : RunnerStep maxConcurrency s t)
    (hjob : t.db.job.status = .completed → s.db.job.status = .completed)
    (hexporting : t.pc ≠ .exporting) (hfinal : t.pc ≠ .readFinalCancelled)
    (hcompleting : t.pc ≠ .completing) : Consistent t where
  ids := hstep.itemsStep.ids ▸ h.ids
  stored := hstep.reports ▸ fun report hreport => (h.stored report hreport).itemsStep
    hstep.itemsStep
  once := hstep.reports ▸ h.once
  left hpc := (hpc.elim hexporting hfinal).elim
  completing hpc := (hcompleting hpc).elim
  completed hstatus := (h.completed (hjob hstatus)).itemsStep hstep.itemsStep

theorem finalize_job (item : AgentJobItem) (worker : Worker) :
    (s.finalize item worker).db.job = s.db.job := by
  rw [JobState.finalize]
  split
  · split <;> rfl
  · rfl

theorem Consistent.runner (h : Consistent s) (hstep : RunnerStep maxConcurrency s t) :
    Consistent t := by
  have hsame := hstep
  cases hstep with
  | readProgress hpc =>
    refine ⟨h.ids, h.stored, h.once, fun hnext hcancel => ?_, fun hnext => ?_, h.completed⟩
    · rw [JobState.goto] at hnext
      dsimp only at hnext
      split at hnext
      · rename_i hloop
        exact allFinal_of_loopDone hcancel hloop
      · rcases hnext with hnext | hnext <;> cases hnext
    · rw [JobState.goto] at hnext
      dsimp only at hnext
      split at hnext <;> cases hnext
  | exported hpc =>
    exact ⟨h.ids, h.stored, h.once, fun _ hcancel => h.left (Or.inl hpc) hcancel,
      fun hnext => by (cases hnext), h.completed⟩
  | readFinalCancelled hpc =>
    refine ⟨h.ids, h.stored, h.once, fun hnext => ?_, fun hnext => ?_, h.completed⟩
    · rw [JobState.goto] at hnext
      dsimp only at hnext
      split at hnext <;> rcases hnext with hnext | hnext <;> cases hnext
    · rw [JobState.goto] at hnext
      dsimp only at hnext
      split at hnext
      · cases hnext
      · rename_i hcancel
        refine h.left (Or.inr hpc) ?_
        rw [Bool.or_eq_true, not_or, Bool.not_eq_true] at hcancel
        exact hcancel.1
  | findFinished =>
    refine h.runner_of_pc hsame id ?_ ?_ ?_ <;>
    · rw [JobState.goto]
      dsimp only
      split <;> exact fun hnext => by cases hnext
  | finalizeWrite =>
    rename_i after _
    refine h.runner_of_pc hsame ?_ ?_ ?_ ?_
    · rw [resume_db, finalize_job]
      exact id
    all_goals cases after <;> exact fun hnext => by cases hnext
  | markRunning =>
    refine h.runner_of_pc hsame ?_ ?_ ?_ ?_ <;> exact fun hnext => by cases hnext
  | _ =>
    refine h.runner_of_pc hsame id ?_ ?_ ?_ <;> exact fun hnext => by cases hnext

theorem Consistent.finalWrite (h : Consistent s) (hwrite : FinalWrite s t) : Consistent t := by
  cases hwrite with
  | completed hpc =>
    refine ⟨h.ids, h.stored, h.once, fun hnext => ?_, fun hnext => ?_, fun _ => h.completing hpc⟩
    · rcases hnext with hnext | hnext <;> cases hnext
    · cases hnext
  | exportFailed | failed =>
    refine ⟨h.ids, h.stored, h.once, fun hnext => ?_, fun hnext => ?_, fun hstatus => ?_⟩
    · rcases hnext with hnext | hnext <;> cases hnext
    · cases hnext
    · cases hstatus

theorem Consistent.report (h : Consistent s) (threadId : ThreadId) (itemId : ItemId)
    (resultJson : List Char) (stop : Bool) :
    Consistent (s.report threadId itemId resultJson stop) := by
  have hstep : ItemsStep s.db (s.report threadId itemId resultJson stop).db :=
    itemsStep_report threadId resultJson
  constructor
  · exact hstep.ids ▸ h.ids
  · intro report hreport
    rw [JobState.report] at hreport
    dsimp only at hreport
    split at hreport
    · rename_i haccepted
      rcases List.mem_append.1 hreport with hold | hnew
      · exact (h.stored report hold).itemsStep hstep
      · rw [List.mem_singleton.1 hnew]
        exact stores_of_reported haccepted
    · exact (h.stored report hreport).itemsStep hstep
  · rw [JobState.report]
    dsimp only
    split
    · -- A second report of an item would find it completed.
      rename_i haccepted
      obtain ⟨item, hitem, hid, hrunning, -⟩ := exists_of_reported haccepted
      rw [List.map_append, List.map_singleton, List.nodup_append]
      refine ⟨h.once, List.nodup_singleton _, fun id hid' id' hnew heq => ?_⟩
      rw [List.mem_singleton.1 hnew] at heq
      obtain ⟨report, hreport, hreportId⟩ := List.mem_map.1 hid'
      obtain ⟨item', hitem', hid'', hstatus, -⟩ := h.stored report hreport
      have hsame : item' = item := List.inj_on_of_nodup_map h.ids hitem' hitem
        (by rw [hid'', hreportId, heq, hid])
      rw [hsame, hrunning] at hstatus
      cases hstatus
    · exact h.once
  · exact fun hpc hcancel => (h.left hpc hcancel).itemsStep hstep
  · exact fun hpc => (h.completing hpc).itemsStep hstep
  · exact fun hstatus => (h.completed hstatus).itemsStep hstep

theorem Consistent.step (h : Consistent s) (hstep : JobStep maxConcurrency s a t) :
    Consistent t := by
  cases hstep with
  | runner hrunner => exact h.runner hrunner
  | finalWrite hwrite => exact h.finalWrite hwrite
  | report threadId itemId resultJson stop => exact h.report threadId itemId resultJson stop
  | stop =>
    have hitems := markAgentJobCancelled_items s.db "cancelled by worker request".toList
    have hstep : ItemsStep s.db (s.db.markAgentJobCancelled _).1 := .of_items_eq hitems
    refine ⟨hstep.ids ▸ h.ids, fun report hreport => (h.stored report hreport).itemsStep hstep,
      h.once, fun hpc hcancel => (h.left hpc hcancel).itemsStep hstep,
      fun hpc => (h.completing hpc).itemsStep hstep, fun hstatus => ?_⟩
    refine AllFinal.itemsStep (h.completed ?_) hstep
    rw [AgentJobDb.markAgentJobCancelled] at hstatus
    dsimp only at hstatus
    split at hstatus
    · cases hstatus
    · exact hstatus
  | finish => exact ⟨h.ids, h.stored, h.once, h.left, h.completing, h.completed⟩
  | restart =>
    refine ⟨h.ids, h.stored, h.once, fun hnext => ?_, fun hnext => ?_, h.completed⟩
    · rcases hnext with hnext | hnext <;> cases hnext
    · cases hnext

theorem Consistent.of_reach (h : (agentJob maxConcurrency).Reach s) : Consistent s := by
  refine h.invariant ?_ fun _ _ _ hs hstep => hs.step hstep
  rintro _ ⟨itemIds, hnodup, rfl⟩
  constructor
  · rw [JobState.create, AgentJobDb.create]
    dsimp only
    rw [List.map_map, show (AgentJobItem.itemId ∘ AgentJobItem.create) = id from rfl, List.map_id]
    exact hnodup
  · exact fun _ hreport => absurd hreport List.not_mem_nil
  · exact List.nodup_nil
  · intro hpc
    rcases hpc with hpc | hpc <;> cases hpc
  · intro hpc
    cases hpc
  · intro hstatus
    cases hstatus

/-- **Items settle.** After whatever came before, a step moves the status of an item only as it
may; it accepts at most one report, from the thread assigned to a running item, and one report for
each item ever; the result of an accepted report is stored in every later state; and when the job is
marked completed, every item is completed or failed. -/
theorem items_settle (h : (agentJob maxConcurrency).Reach s)
    (hstep : (agentJob maxConcurrency).step s a t) : Settles maxConcurrency s t := by
  have hconsistent := (Consistent.of_reach h).step hstep
  have hitems := JobStep.itemsStep hstep
  refine ⟨hitems.imp fun _ _ hitem => ⟨hitem.itemId_eq, hitem.movesTo⟩, hconsistent.ids, ?_,
    hconsistent.once, fun report hreport u hrun => (hconsistent.stored report hreport).run hrun,
    hconsistent.completed⟩
  cases hstep with
  | runner hrunner => exact Or.inl hrunner.reports
  | report threadId itemId resultJson stop =>
    cases haccepted : (s.db.reportAgentJobItemResult itemId threadId resultJson).2 with
    | false =>
      refine Or.inl ?_
      rw [JobState.report]
      dsimp only
      rw [haccepted, if_neg Bool.false_ne_true]
    | true =>
      refine Or.inr ⟨⟨threadId, itemId, resultJson⟩, ?_, exists_of_reported haccepted⟩
      rw [JobState.report]
      dsimp only
      rw [haccepted, if_pos rfl]
  | finalWrite hwrite => cases hwrite <;> exact Or.inl rfl
  | stop | finish | restart => exact Or.inl rfl

end

/-! ## A job of one row -/

def row : AgentJobItem := .create "row-1".toList

/-- The worker of the only row is spawned. -/
def rowSpawned : JobState where
  db := ⟨⟨.running, none⟩, [row]⟩
  pc := .assign row 1 []
  activeItems := []
  cancelRequested := false
  live := [1]
  spawned := [(1, row.itemId)]
  assigned := []
  stops := 0
  reports := []

/-- The worker is assigned to the row. -/
def rowAssigned : JobState where
  db := ⟨⟨.running, none⟩, [{ row with status := .running, assignedThreadId := some 1 }]⟩
  pc := .spawn []
  activeItems := [(1, row.itemId)]
  cancelRequested := false
  live := [1]
  spawned := [(1, row.itemId)]
  assigned := [(1, row.itemId)]
  stops := 0
  reports := []

theorem reach_rowSpawned : (agentJob 1).Reach rowSpawned := by
  have h : (agentJob 1).Reach (.create [row.itemId]) := .init ⟨_, List.nodup_singleton _, rfl⟩
  have h := h.step (.runner (.markRunning rfl))
  have h := h.step (.runner (.listRunning rfl))
  have h := h.step (.runner (.recovered rfl))
  have h := h.step (.runner (.readCancelled rfl))
  have h := h.step (.runner (.loopHead rfl))
  have h := h.step (.runner (.listPending rfl rfl Nat.one_pos))
  exact h.step (.runner (.spawned rfl (fun _ hworker => absurd hworker List.not_mem_nil)
    List.not_mem_nil))

theorem reach_rowAssigned : (agentJob 1).Reach rowAssigned := by
  have h := reach_rowSpawned.step (.runner (.assigned rfl rfl))
  exact h

theorem items_settle_row : Settles 1 rowAssigned
    (rowAssigned.report 1 row.itemId "done".toList false) :=
  items_settle reach_rowAssigned (.report 1 row.itemId "done".toList false)

end Mcodex.AgentJobs
