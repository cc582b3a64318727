import Mcodex.Lib.Table

/-!
# The tables of agent jobs

A job has an item for each row of its input, in the order of the rows. Each function below is one
SQL statement: it returns the tables that it leaves, and whether it affected a row. Left out are
the columns that no statement of a run reads: the inputs of an item, its attempts and its times.
-/

namespace Mcodex.AgentJobs

open Table

abbrev ThreadId := Nat
abbrev ItemId := List Char

inductive AgentJobStatus where
  | pending
  | running
  | completed
  | failed
  | cancelled
  deriving DecidableEq, Repr

inductive AgentJobItemStatus where
  | pending
  | running
  | completed
  | failed
  deriving DecidableEq, Repr

structure AgentJobItem where
  itemId : ItemId
  status : AgentJobItemStatus
  assignedThreadId : Option ThreadId
  resultJson : Option (List Char)
  lastError : Option (List Char)
  deriving DecidableEq, Repr

structure AgentJob where
  status : AgentJobStatus
  lastError : Option (List Char)
  deriving DecidableEq, Repr

structure AgentJobProgress where
  totalItems : Nat
  pendingItems : Nat
  runningItems : Nat
  completedItems : Nat
  failedItems : Nat
  deriving DecidableEq, Repr

structure AgentJobDb where
  job : AgentJob
  items : List AgentJobItem
  deriving DecidableEq, Repr

namespace AgentJobItem

/-- What `create_agent_job` inserts. -/
def create (itemId : ItemId) : AgentJobItem := ⟨itemId, .pending, none, none, none⟩

/-- The item is completed or failed. -/
def isFinal (item : AgentJobItem) : Bool := item.status = .completed || item.status = .failed

end AgentJobItem

namespace AgentJobDb

/-- `create_agent_job`. -/
def create (itemIds : List ItemId) : AgentJobDb := ⟨⟨.pending, none⟩, itemIds.map .create⟩

section
variable (db : AgentJobDb)

/-! ## The job -/

def markAgentJobRunning : AgentJobDb := { db with job := ⟨.running, none⟩ }

def markAgentJobCompleted : AgentJobDb := { db with job := ⟨.completed, none⟩ }

def markAgentJobFailed (errorMessage : List Char) : AgentJobDb :=
  { db with job := ⟨.failed, some errorMessage⟩ }

def markAgentJobCancelled (reason : List Char) : AgentJobDb × Bool :=
  if db.job.status = .pending ∨ db.job.status = .running then
    ({ db with job := ⟨.cancelled, some reason⟩ }, true)
  else (db, false)

def isAgentJobCancelled : Bool := db.job.status = .cancelled

/-! ## The items -/

def listAgentJobItems (status : Option AgentJobItemStatus) (limit : Option Nat) :
    List AgentJobItem :=
  let items := db.items.filter fun item => status.all (item.status = ·)
  match limit with
  | some limit => items.take limit
  | none => items

def getAgentJobItem (itemId : ItemId) : Option AgentJobItem :=
  db.items.find? (·.itemId = itemId)

/-- `UPDATE agent_job_items SET … WHERE job_id = ? AND item_id = ? AND …`. -/
def updateItem (itemId : ItemId) (guard : AgentJobItem → Bool)
    (set : AgentJobItem → AgentJobItem) : AgentJobDb × Bool :=
  let selected (item : AgentJobItem) : Bool := item.itemId = itemId && guard item
  ({ db with items := updateWhere selected set db.items }, db.items.any selected)

def markAgentJobItemRunningWithThread (itemId : ItemId) (threadId : ThreadId) :
    AgentJobDb × Bool :=
  db.updateItem itemId (·.status = .pending) fun item =>
    { item with status := .running, assignedThreadId := some threadId, lastError := none }

def markAgentJobItemPending (itemId : ItemId) (errorMessage : Option (List Char)) :
    AgentJobDb × Bool :=
  db.updateItem itemId (·.status = .running) fun item =>
    { item with status := .pending, assignedThreadId := none, lastError := errorMessage }

def reportAgentJobItemResult (itemId : ItemId) (reportingThreadId : ThreadId)
    (resultJson : List Char) : AgentJobDb × Bool :=
  db.updateItem itemId
    (fun item => item.status = .running && item.assignedThreadId = some reportingThreadId)
    fun item => { item with
      status := .completed, resultJson := some resultJson, lastError := none,
      assignedThreadId := none }

def markAgentJobItemCompleted (itemId : ItemId) : AgentJobDb × Bool :=
  db.updateItem itemId (fun item => item.status = .running && item.resultJson.isSome) fun item =>
    { item with status := .completed, assignedThreadId := none }

def markAgentJobItemFailed (itemId : ItemId) (errorMessage : List Char) : AgentJobDb × Bool :=
  db.updateItem itemId (·.status = .running) fun item =>
    { item with status := .failed, lastError := some errorMessage, assignedThreadId := none }

def getAgentJobProgress : AgentJobProgress where
  totalItems := db.items.length
  pendingItems := db.items.countP (·.status = .pending)
  runningItems := db.items.countP (·.status = .running)
  completedItems := db.items.countP (·.status = .completed)
  failedItems := db.items.countP (·.status = .failed)

end

end AgentJobDb

/-! ## What a statement does to an item -/

/-- The changes of an item. -/
inductive ItemStep : AgentJobItem → AgentJobItem → Prop
  | stay {item : AgentJobItem} : ItemStep item item
  | assign {item : AgentJobItem} (threadId : ThreadId) (hpending : item.status = .pending) :
    ItemStep item
      { item with status := .running, assignedThreadId := some threadId, lastError := none }
  | release {item : AgentJobItem} (errorMessage : Option (List Char))
    (hrunning : item.status = .running) :
    ItemStep item
      { item with status := .pending, assignedThreadId := none, lastError := errorMessage }
  | report {item : AgentJobItem} {threadId : ThreadId} (resultJson : List Char)
    (hrunning : item.status = .running) (hassigned : item.assignedThreadId = some threadId) :
    ItemStep item { item with
      status := .completed, resultJson := some resultJson, lastError := none,
      assignedThreadId := none }
  | complete {item : AgentJobItem} (hrunning : item.status = .running)
    (hresult : item.resultJson.isSome) :
    ItemStep item { item with status := .completed, assignedThreadId := none }
  | fail {item : AgentJobItem} (errorMessage : List Char) (hrunning : item.status = .running) :
    ItemStep item
      { item with status := .failed, lastError := some errorMessage, assignedThreadId := none }

/-- Each item of the table makes a step. -/
def ItemsStep (db db' : AgentJobDb) : Prop := List.Forall₂ ItemStep db.items db'.items

section
variable {db db' : AgentJobDb} {item item' : AgentJobItem} {itemId : ItemId}

theorem ItemStep.itemId_eq (h : ItemStep item item') : item'.itemId = item.itemId := by
  cases h <;> rfl

/-- A final item stays as it is. -/
theorem ItemStep.eq_of_isFinal (h : ItemStep item item') (hfinal : item.isFinal) :
    item' = item := by
  have hrunning : item.status ≠ .running := by
    rintro hrunning
    simp [AgentJobItem.isFinal, hrunning] at hfinal
  cases h with
  | stay => rfl
  | assign _ hpending => simp [AgentJobItem.isFinal, hpending] at hfinal
  | release _ h | report _ h _ | complete h _ | fail _ h => exact absurd h hrunning

theorem itemsStep_refl : ItemsStep db db := List.forall₂_same.2 fun _ _ => .stay

theorem ItemsStep.of_items_eq (h : db'.items = db.items) : ItemsStep db db' := by
  rw [ItemsStep, h]
  exact itemsStep_refl

/-- A statement that steps the items it selects steps the table. -/
theorem itemsStep_updateItem {guard : AgentJobItem → Bool} {set : AgentJobItem → AgentJobItem}
    (h : ∀ item, guard item → ItemStep item (set item)) :
    ItemsStep db (db.updateItem itemId guard set).1 := by
  refine List.forall₂_map_right_iff.2 (List.forall₂_same.2 fun item _ => ?_)
  split
  · rename_i hselected
    exact h item (Bool.and_eq_true_iff.1 hselected).2
  · exact .stay

theorem itemsStep_assign (threadId : ThreadId) :
    ItemsStep db (db.markAgentJobItemRunningWithThread itemId threadId).1 :=
  itemsStep_updateItem fun _ h => .assign threadId (of_decide_eq_true h)

theorem itemsStep_release (errorMessage : Option (List Char)) :
    ItemsStep db (db.markAgentJobItemPending itemId errorMessage).1 :=
  itemsStep_updateItem fun _ h => .release errorMessage (of_decide_eq_true h)

theorem itemsStep_report (threadId : ThreadId) (resultJson : List Char) :
    ItemsStep db (db.reportAgentJobItemResult itemId threadId resultJson).1 :=
  itemsStep_updateItem fun _ h => .report resultJson
    (of_decide_eq_true (Bool.and_eq_true_iff.1 h).1)
    (of_decide_eq_true (Bool.and_eq_true_iff.1 h).2)

theorem itemsStep_complete : ItemsStep db (db.markAgentJobItemCompleted itemId).1 :=
  itemsStep_updateItem fun _ h => .complete
    (of_decide_eq_true (Bool.and_eq_true_iff.1 h).1) (Bool.and_eq_true_iff.1 h).2

theorem itemsStep_fail (errorMessage : List Char) :
    ItemsStep db (db.markAgentJobItemFailed itemId errorMessage).1 :=
  itemsStep_updateItem fun _ h => .fail errorMessage (of_decide_eq_true h)

theorem ItemsStep.ids (h : ItemsStep db db') :
    db'.items.map (·.itemId) = db.items.map (·.itemId) := by
  have hids : List.Forall₂ (fun id id' : ItemId => id' = id) (db.items.map (·.itemId))
      (db'.items.map (·.itemId)) :=
    List.forall₂_map_left_iff.2 (List.forall₂_map_right_iff.2 (h.imp fun _ _ => ItemStep.itemId_eq))
  exact (List.forall₂_eq_eq_eq ▸ hids.flip :)

/-- A final item of the table stays in it. -/
theorem ItemsStep.mem_of_isFinal (h : ItemsStep db db') (hmem : item ∈ db.items)
    (hfinal : item.isFinal) : item ∈ db'.items := by
  obtain ⟨i, hi, rfl⟩ := List.getElem_of_mem hmem
  have hlength := h.length_eq
  have hstep := List.forall₂_iff_get.1 h |>.2 i hi (hlength ▸ hi)
  simp only [List.get_eq_getElem] at hstep
  rw [← hstep.eq_of_isFinal hfinal]
  exact List.getElem_mem _

theorem ItemsStep.exists_of_mem (h : ItemsStep db db') (hmem : item' ∈ db'.items) :
    ∃ item ∈ db.items, ItemStep item item' := by
  obtain ⟨i, hi, rfl⟩ := List.getElem_of_mem hmem
  have hlength := h.length_eq
  exact ⟨db.items[i], List.getElem_mem _, List.forall₂_iff_get.1 h |>.2 i (hlength ▸ hi) hi⟩

/-- Once all items are final, they stay. -/
theorem ItemsStep.all_isFinal (h : ItemsStep db db') (hall : ∀ item ∈ db.items, item.isFinal) :
    ∀ item ∈ db'.items, item.isFinal := by
  intro item' hmem
  obtain ⟨item, hitem, hstep⟩ := h.exists_of_mem hmem
  rw [hstep.eq_of_isFinal (hall item hitem)]
  exact hall item hitem

end

end Mcodex.AgentJobs
