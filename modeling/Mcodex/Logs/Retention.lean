import Mathlib.Data.List.Dedup
import Mathlib.Data.Prod.Lex
import Mcodex.Lib.Effect
import Mcodex.Lib.Window

/-!
# Retention of logs

A batch of log entries is inserted and pruned in one transaction. Each row belongs to a thread, to a
process where it has no thread, or to neither, and each of these partitions has a budget of its own.
The statements that prune run only where a cheaper query found a partition over its budget.
-/

namespace Mcodex.Logs

open Effect Window

def logPartitionSizeLimitBytes : Nat := 10 * 1024 * 1024

def logPartitionRowLimit : Nat := 1000

structure LogEntry where
  ts : Int
  tsNanos : Int
  level : String
  target : String
  message : Option String
  feedbackLogBody : Option String
  threadId : Option String
  processUuid : Option String
  modulePath : Option String
  file : Option String
  line : Option Int

/-- A row of the table `logs`. -/
structure LogsRow where
  id : Nat
  ts : Int
  tsNanos : Int
  level : String
  target : String
  feedbackLogBody : Option String
  threadId : Option String
  processUuid : Option String
  modulePath : Option String
  file : Option String
  line : Option Int
  estimatedBytes : Nat

/-- The table, with the greatest id that was ever given out (`AUTOINCREMENT`). -/
structure LogTable where
  rows : List LogsRow
  lastId : Nat
  nodup : (rows.map LogsRow.id).Nodup
  le_lastId : ∀ row ∈ rows, row.id ≤ lastId

/-- What the budgets are for. -/
inductive LogPartition
  | thread (threadId : String)
  | process (processUuid : String)
  | neither
  deriving DecidableEq

def LogPartition.of : Option String → Option String → LogPartition
  | some threadId, _ => .thread threadId
  | none, some processUuid => .process processUuid
  | none, none => .neither

def LogEntry.partition (entry : LogEntry) : LogPartition := .of entry.threadId entry.processUuid

namespace LogsRow

variable (row : LogsRow)

def partition : LogPartition := .of row.threadId row.processUuid

/-- `ORDER BY ts DESC, ts_nanos DESC, id DESC`: the greatest comes first. -/
def order : Int ×ₗ Int ×ₗ Nat := toLex (row.ts, toLex (row.tsNanos, row.id))

end LogsRow

/-- The statements of the transaction. -/
inductive Statement
  | begin
  | insert
  | overLimitThreads
  | pruneThreads
  | overLimitProcesses
  | pruneThreadlessProcesses
  | nullProcessUsage
  | pruneThreadlessNullProcess
  | commit
  deriving DecidableEq

/-- A statement has its effect, or fails and ends the transaction. -/
def execute {α : Type} (fails : Statement → Bool) (statement : Statement) (value : α) :
    Except Statement α :=
  if fails statement then .error statement else .ok value

/-- More bytes or rows than a partition may hold. -/
def overLimit (rows : List LogsRow) : Bool :=
  logPartitionSizeLimitBytes < totalSize LogsRow.estimatedBytes rows ||
    logPartitionRowLimit < rows.length

namespace LogEntry

variable (entry : LogEntry)

def body : Option String := entry.feedbackLogBody.or entry.message

def estimatedBytes : Nat :=
  entry.body.elim 0 String.utf8ByteSize + entry.level.utf8ByteSize + entry.target.utf8ByteSize +
    entry.modulePath.elim 0 String.utf8ByteSize + entry.file.elim 0 String.utf8ByteSize

def toRow (id : Nat) : LogsRow where
  id := id
  ts := entry.ts
  tsNanos := entry.tsNanos
  level := entry.level
  target := entry.target
  feedbackLogBody := entry.body
  threadId := entry.threadId
  processUuid := entry.processUuid
  modulePath := entry.modulePath
  file := entry.file
  line := entry.line
  estimatedBytes := entry.estimatedBytes

end LogEntry

namespace LogTable

variable (table : LogTable)

def insert (entry : LogEntry) : LogTable where
  rows := table.rows ++ [entry.toRow (table.lastId + 1)]
  lastId := table.lastId + 1
  nodup := by
    rw [List.map_append, List.nodup_append]
    refine ⟨table.nodup, List.nodup_singleton _, fun id hid id' hid' => ?_⟩
    obtain ⟨row, hrow, rfl⟩ := List.mem_map.1 hid
    obtain rfl : id' = table.lastId + 1 := List.mem_singleton.1 hid'
    exact Nat.ne_of_lt (Nat.lt_succ_of_le (table.le_lastId row hrow))
  le_lastId row hrow := by
    rcases List.mem_append.1 hrow with hrow | hrow
    · exact (table.le_lastId row hrow).trans (Nat.le_succ _)
    · exact List.mem_singleton.1 hrow ▸ Nat.le_refl (table.lastId + 1)

/-- The rows of one `INSERT`, in the order of the entries. -/
def insertValues (entries : List LogEntry) : LogTable := entries.foldl insert table

/-- `DELETE FROM logs WHERE id IN (ids)`. -/
def delete (ids : List Nat) : LogTable where
  rows := table.rows.filter (·.id ∉ ids)
  lastId := table.lastId
  nodup := table.nodup.sublist (List.filter_sublist.map _)
  le_lastId row hrow := table.le_lastId row (List.mem_of_mem_filter hrow)

/-- The ids of the selected rows with a cumulative size or a row number over the limit, in the
window of the selected rows with the same `PARTITION BY` key. -/
def overLimitIds (selected : LogsRow → Bool) (partitionBy : LogsRow → Option String) : List Nat :=
  ((table.rows.filter selected).filter fun row => overLimit (upTo LogsRow.order
    ((table.rows.filter selected).filter (partitionBy · = partitionBy row)) row)).map LogsRow.id

def prune (selected : LogsRow → Bool) (partitionBy : LogsRow → Option String) : LogTable :=
  table.delete (table.overLimitIds selected partitionBy)

end LogTable

section
variable (fails : Statement → Bool) (entries : List LogEntry) (table : LogTable)

/-- The keys with more in a base than a partition may hold. -/
def overLimitKeys (base : LogsRow → Bool) (partitionBy : LogsRow → Option String)
    (keys : List String) : List String :=
  keys.filter fun key =>
    overLimit (table.rows.filter fun row => base row && partitionBy row = some key)

/-- Among the rows of a base, those of the keys that are over the limit are pruned. -/
def pruneKeys (usage pruning : Statement) (base : LogsRow → Bool)
    (partitionBy : LogsRow → Option String) (keys : List String) : Except Statement LogTable :=
  if keys = [] then .ok table
  else do
    let overLimitKeys ← execute fails usage (overLimitKeys table base partitionBy keys)
    if overLimitKeys = [] then .ok table
    else execute fails pruning (table.prune
      (fun row => base row && (partitionBy row).any (· ∈ overLimitKeys)) partitionBy)

def pruneThreads : Except Statement LogTable :=
  pruneKeys fails table .overLimitThreads .pruneThreads (fun _ => true) LogsRow.threadId
    (entries.filterMap LogEntry.threadId).dedup

def pruneThreadlessProcesses : Except Statement LogTable :=
  pruneKeys fails table .overLimitProcesses .pruneThreadlessProcesses (·.threadId.isNone)
    LogsRow.processUuid
    ((entries.filter (·.threadId.isNone)).filterMap LogEntry.processUuid).dedup

def pruneThreadlessNullProcess : Except Statement LogTable :=
  if entries.any fun entry => entry.threadId.isNone && entry.processUuid.isNone then do
    let isOverLimit ← execute fails .nullProcessUsage (overLimit (table.rows.filter fun row =>
      row.threadId.isNone && row.processUuid.isNone))
    if isOverLimit then
      execute fails .pruneThreadlessNullProcess (table.prune
        (fun row => row.threadId.isNone && row.processUuid.isNone) LogsRow.processUuid)
    else .ok table
  else .ok table

def pruneLogsAfterInsert : Except Statement LogTable := do
  let table ← pruneThreads fails entries table
  let table ← pruneThreadlessProcesses fails entries table
  pruneThreadlessNullProcess fails entries table

/-- The statements of the transaction, in order. -/
def insertLogsTx : Except Statement LogTable := do
  let table ← execute fails .begin table
  let table ← execute fails .insert (table.insertValues entries)
  let table ← pruneLogsAfterInsert fails entries table
  execute fails .commit table

/-- The result, and the table after it: a transaction that does not commit is rolled back. -/
def insertLogs : Except Statement Unit × LogTable :=
  if entries = [] then (.ok (), table)
  else
    match insertLogsTx fails entries table with
    | .ok table => (.ok (), table)
    | .error statement => (.error statement, table)

end

def logBudget : Budget := ⟨logPartitionSizeLimitBytes, logPartitionRowLimit⟩

section
variable {fails : Statement → Bool} {entries : List LogEntry} {table table' table'' : LogTable}
  {p selected base : LogsRow → Bool} {partitionBy : LogsRow → Option String} {rows : List LogsRow}
  {row row' : LogsRow} {key : String} {keys : List String}

/-! ## One statement that prunes -/

theorem overLimit_eq_false :
    overLimit rows = false ↔ Within LogsRow.estimatedBytes logBudget rows := by
  simp [overLimit, Within, logBudget]

/-- Rows that satisfy `p` keep within the budget. -/
def Pruned (p : LogsRow → Bool) (table table' : LogTable) : Prop :=
  table'.rows.filter p =
    kept LogsRow.order LogsRow.estimatedBytes logBudget (table.rows.filter p)

/-- Rows that satisfy `p` stay. -/
def Untouched (p : LogsRow → Bool) (table table' : LogTable) : Prop :=
  table'.rows.filter p = table.rows.filter p

theorem Untouched.trans (h : Untouched p table table') (h' : Untouched p table' table'') :
    Untouched p table table'' :=
  Eq.trans h' h

theorem Pruned.trans (h : Pruned p table table') (h' : Untouched p table' table'') :
    Pruned p table table'' :=
  Eq.trans h' h

theorem Untouched.pruned (h : Untouched p table table') (h' : Pruned p table' table'') :
    Pruned p table table'' := by
  rw [Pruned, h', h]

theorem execute_eq_ok {α : Type} {statement : Statement} {value value' : α}
    (h : execute fails statement value = .ok value') : value = value' := by
  rw [execute] at h
  split at h
  · cases h
  · exact Except.ok.inj h

namespace LogTable

theorem eq_of_id (hrow : row ∈ table.rows) (hrow' : row' ∈ table.rows) (h : row.id = row'.id) :
    row = row' :=
  List.inj_on_of_nodup_map table.nodup hrow hrow' h

theorem nodup_order (table : LogTable) : (table.rows.map LogsRow.order).Nodup := by
  refine List.Nodup.map_on (fun row hrow row' hrow' h => ?_) (List.Nodup.of_map _ table.nodup)
  have hid : row.id = row'.id := congrArg (fun k : Int ×ₗ Int ×ₗ Nat => (ofLex (ofLex k).2).2) h
  exact eq_of_id hrow hrow' hid

theorem mem_overLimitIds (hrow : row ∈ table.rows) :
    row.id ∈ table.overLimitIds selected partitionBy ↔
      selected row ∧ ¬ Within LogsRow.estimatedBytes logBudget (upTo LogsRow.order
        ((table.rows.filter selected).filter (partitionBy · = partitionBy row)) row) := by
  rw [overLimitIds, List.mem_map, ← overLimit_eq_false]
  constructor
  · rintro ⟨row', hrow', hid⟩
    rw [List.mem_filter, List.mem_filter] at hrow'
    obtain rfl := eq_of_id hrow'.1.1 hrow hid
    exact ⟨hrow'.1.2, Bool.not_eq_false _ ▸ hrow'.2⟩
  · rintro ⟨hselected, hover⟩
    refine ⟨row, ?_, rfl⟩
    rw [List.mem_filter, List.mem_filter]
    exact ⟨⟨hrow, hselected⟩, Bool.not_eq_false _ ▸ hover⟩

theorem filter_prune : (table.prune selected partitionBy).rows.filter p =
    (table.rows.filter p).filter fun row =>
      row.id ∉ table.overLimitIds selected partitionBy := by
  rw [prune, delete, List.filter_filter, List.filter_filter]
  exact List.filter_congr fun row _ => Bool.and_comm _ _

/-- Rows that were not selected stay. -/
theorem untouched_prune (h : ∀ row, p row → selected row = false) :
    Untouched p table (table.prune selected partitionBy) := by
  rw [Untouched, filter_prune, List.filter_eq_self]
  intro row hrow
  rw [List.mem_filter] at hrow
  rw [decide_eq_true_eq, mem_overLimitIds hrow.1, h row hrow.2]
  exact fun h => Bool.false_ne_true h.1

/-- Rows that are all selected and make up a window of their own keep within the budget. -/
theorem pruned_prune (h : ∀ row, p row → selected row)
    (hkey : ∀ row row', p row → selected row' → (partitionBy row' = partitionBy row ↔ p row')) :
    Pruned p table (table.prune selected partitionBy) := by
  rw [Pruned, filter_prune, kept]
  refine List.filter_congr fun row hrow => ?_
  rw [List.mem_filter] at hrow
  have hwindow : (table.rows.filter selected).filter (partitionBy · = partitionBy row) =
      table.rows.filter p := by
    rw [List.filter_filter]
    refine List.filter_congr fun row' _ => ?_
    rw [Bool.eq_iff_iff, Bool.and_eq_true, decide_eq_true_eq]
    exact ⟨fun h' => (hkey row row' hrow.2 h'.2).1 h'.1,
      fun h' => ⟨(hkey row row' hrow.2 (h row' h')).2 h', h row' h'⟩⟩
  rw [decide_eq_decide, mem_overLimitIds hrow.1, hwindow, and_iff_right (h row hrow.2), not_not]

end LogTable

theorem pruned_of_within (h : overLimit (table.rows.filter p) = false) : Pruned p table table :=
  (kept_of_within (overLimit_eq_false.1 h)).symm

/-! ## The three prunes -/

theorem pruneKeys_eq_ok {usage pruning : Statement}
    (h : pruneKeys fails table usage pruning base partitionBy keys = .ok table') :
    table' = table ∧ overLimitKeys table base partitionBy keys = [] ∨
      table' = table.prune (fun row => base row &&
        (partitionBy row).any (· ∈ overLimitKeys table base partitionBy keys)) partitionBy := by
  rw [pruneKeys] at h
  split at h
  · rename_i hkeys
    exact .inl ⟨(Except.ok.inj h).symm, by rw [hkeys, overLimitKeys, List.filter_nil]⟩
  · obtain ⟨exceeding, hexceeding, h⟩ := bind_eq_ok.1 h
    obtain rfl := execute_eq_ok hexceeding
    split at h
    · exact .inl ⟨(Except.ok.inj h).symm, ‹_›⟩
    · exact .inr (execute_eq_ok h).symm

/-- The rows of one of the keys keep within the budget. -/
theorem pruneKeys_pruned {usage pruning : Statement}
    (h : pruneKeys fails table usage pruning base partitionBy keys = .ok table')
    (hkey : key ∈ keys) :
    Pruned (fun row => base row && partitionBy row = some key) table table' := by
  by_cases hover : overLimit (table.rows.filter fun row => base row && partitionBy row = some key)
  · have hmem : key ∈ overLimitKeys table base partitionBy keys := List.mem_filter.2 ⟨hkey, hover⟩
    obtain ⟨-, hnil⟩ | rfl := pruneKeys_eq_ok h
    · rw [hnil] at hmem
      cases hmem
    · refine LogTable.pruned_prune (fun row hrow => ?_) fun row row' hrow hrow' => ?_
      · simp only [Bool.and_eq_true, decide_eq_true_eq] at hrow ⊢
        exact ⟨hrow.1, by rw [hrow.2]; exact decide_eq_true hmem⟩
      · simp only [Bool.and_eq_true, decide_eq_true_eq] at hrow hrow' ⊢
        rw [hrow.2]
        exact (and_iff_right hrow'.1).symm
  · have hwithin := pruned_of_within (Bool.eq_false_iff.2 hover)
    obtain ⟨rfl, -⟩ | rfl := pruneKeys_eq_ok h
    · exact hwithin
    · refine Pruned.trans hwithin (LogTable.untouched_prune fun row hrow => ?_)
      simp only [Bool.and_eq_true, decide_eq_true_eq] at hrow
      rw [hrow.2, Bool.and_eq_false_iff]
      refine .inr (decide_eq_false fun hmem => hover (List.mem_filter.1 hmem).2)

/-- Rows outside the base, or of other keys, stay. -/
theorem pruneKeys_untouched {usage pruning : Statement}
    (h : pruneKeys fails table usage pruning base partitionBy keys = .ok table')
    (hp : ∀ row, p row → base row → ∀ key ∈ keys, partitionBy row ≠ some key) :
    Untouched p table table' := by
  obtain ⟨rfl, -⟩ | rfl := pruneKeys_eq_ok h
  · rfl
  · refine LogTable.untouched_prune fun row hrow => ?_
    rw [Bool.eq_false_iff]
    intro hselected
    simp only [Bool.and_eq_true, Option.any_eq_true, decide_eq_true_eq] at hselected
    obtain ⟨hbase, key, hkey, hmem⟩ := hselected
    exact hp row hrow hbase key (List.mem_filter.1 hmem).1 hkey

/-! ## Partitions -/

@[simp] theorem partition_eq_thread {threadId processUuid : Option String} {id : String} :
    LogPartition.of threadId processUuid = .thread id ↔ threadId = some id := by
  cases threadId <;> cases processUuid <;> simp [LogPartition.of]

@[simp] theorem partition_eq_process {threadId processUuid : Option String} {uuid : String} :
    LogPartition.of threadId processUuid = .process uuid ↔
      threadId = none ∧ processUuid = some uuid := by
  cases threadId <;> cases processUuid <;> simp [LogPartition.of]

@[simp] theorem partition_eq_neither {threadId processUuid : Option String} :
    LogPartition.of threadId processUuid = .neither ↔ threadId = none ∧ processUuid = none := by
  cases threadId <;> cases processUuid <;> simp [LogPartition.of]

/-- The row belongs to the partition. -/
def LogsRow.isIn (partition : LogPartition) (row : LogsRow) : Bool := row.partition = partition

theorem partition_of_isIn {partition : LogPartition} (h : LogsRow.isIn partition row) :
    row.partition = partition :=
  of_decide_eq_true h

/-- A partition of one of the entries keeps within the budget, and another one stays. -/
structure Retained (entries : List LogEntry) (partition : LogPartition)
    (table table' : LogTable) : Prop where
  touched : partition ∈ entries.map LogEntry.partition →
    Pruned (LogsRow.isIn partition) table table'
  untouched : partition ∉ entries.map LogEntry.partition →
    Untouched (LogsRow.isIn partition) table table'

variable {partition : LogPartition}

theorem Retained.trans (h : Retained entries partition table table')
    (h' : Untouched (LogsRow.isIn partition) table' table'') :
    Retained entries partition table table'' :=
  ⟨fun hmem => (h.touched hmem).trans h', fun hmem => (h.untouched hmem).trans h'⟩

theorem Untouched.retained (h : Untouched (LogsRow.isIn partition) table table')
    (h' : Retained entries partition table' table'') :
    Retained entries partition table table'' :=
  ⟨fun hmem => h.pruned (h'.touched hmem), fun hmem => h.trans (h'.untouched hmem)⟩

theorem pruneThreads_retained {threadId : String}
    (h : pruneThreads fails entries table = .ok table') :
    Retained entries (.thread threadId) table table' := by
  have hrows : LogsRow.isIn (.thread threadId) =
      fun row => true && decide (row.threadId = some threadId) := by
    funext row
    simp [LogsRow.isIn, LogsRow.partition]
  have hmem : .thread threadId ∈ entries.map LogEntry.partition ↔
      threadId ∈ (entries.filterMap LogEntry.threadId).dedup := by
    simp only [List.mem_map, LogEntry.partition, partition_eq_thread, List.mem_dedup,
      List.mem_filterMap]
  refine ⟨fun hthread => ?_, fun hnew => ?_⟩
  · rw [hrows]
    exact pruneKeys_pruned h (hmem.1 hthread)
  · refine pruneKeys_untouched h fun row hrow _ key hkey hthread => hnew (hmem.2 ?_)
    have hrow := partition_eq_thread.1 (partition_of_isIn hrow)
    exact Option.some.inj (hrow.symm.trans hthread) ▸ hkey

theorem pruneThreads_untouched (hp : ∀ row, p row → row.threadId = none)
    (h : pruneThreads fails entries table = .ok table') : Untouched p table table' :=
  pruneKeys_untouched h fun row hrow _ key _ => by
    rw [hp row hrow]
    exact nofun

theorem pruneThreadlessProcesses_retained {processUuid : String}
    (h : pruneThreadlessProcesses fails entries table = .ok table') :
    Retained entries (.process processUuid) table table' := by
  have hrows : LogsRow.isIn (.process processUuid) =
      fun row => row.threadId.isNone && decide (row.processUuid = some processUuid) := by
    funext row
    rw [Bool.eq_iff_iff]
    simp [LogsRow.isIn, LogsRow.partition]
  have hmem : .process processUuid ∈ entries.map LogEntry.partition ↔
      processUuid ∈
        ((entries.filter (·.threadId.isNone)).filterMap LogEntry.processUuid).dedup := by
    simp only [List.mem_map, LogEntry.partition, partition_eq_process, List.mem_dedup,
      List.mem_filterMap, List.mem_filter, Option.isNone_iff_eq_none, and_assoc]
  refine ⟨fun hprocess => ?_, fun hnew => ?_⟩
  · rw [hrows]
    exact pruneKeys_pruned h (hmem.1 hprocess)
  · refine pruneKeys_untouched h fun row hrow _ key hkey hprocess => hnew (hmem.2 ?_)
    have hrow := partition_eq_process.1 (partition_of_isIn hrow)
    exact Option.some.inj (hrow.2.symm.trans hprocess) ▸ hkey

theorem pruneThreadlessProcesses_untouched
    (hp : ∀ row, p row → row.threadId = none → row.processUuid = none)
    (h : pruneThreadlessProcesses fails entries table = .ok table') :
    Untouched p table table' :=
  pruneKeys_untouched h fun row hrow hbase key _ => by
    rw [hp row hrow (Option.isNone_iff_eq_none.1 hbase)]
    exact nofun

theorem pruneThreadlessNullProcess_retained
    (h : pruneThreadlessNullProcess fails entries table = .ok table') :
    Retained entries .neither table table' := by
  have hrows : LogsRow.isIn .neither =
      fun row => row.threadId.isNone && row.processUuid.isNone := by
    funext row
    rw [Bool.eq_iff_iff]
    simp [LogsRow.isIn, LogsRow.partition]
  have hmem : .neither ∈ entries.map LogEntry.partition ↔
      (entries.any fun entry => entry.threadId.isNone && entry.processUuid.isNone) := by
    simp only [List.mem_map, LogEntry.partition, partition_eq_neither, List.any_eq_true,
      Bool.and_eq_true, Option.isNone_iff_eq_none]
  rw [pruneThreadlessNullProcess] at h
  refine ⟨fun htouched => ?_, fun hnew => ?_⟩
  · rw [if_pos (hmem.1 htouched)] at h
    obtain ⟨isOverLimit, hover, h⟩ := bind_eq_ok.1 h
    obtain rfl := execute_eq_ok hover
    rw [hrows]
    split at h
    · obtain rfl := execute_eq_ok h
      refine LogTable.pruned_prune (fun _ => id) fun row row' hrow hrow' => ?_
      rw [Bool.and_eq_true, Option.isNone_iff_eq_none, Option.isNone_iff_eq_none] at hrow hrow'
      simp [hrow, hrow']
    · obtain rfl := Except.ok.inj h
      exact pruned_of_within (Bool.eq_false_iff.2 ‹_›)
  · rw [if_neg fun hany => hnew (hmem.2 hany)] at h
    obtain rfl := Except.ok.inj h
    rfl

theorem pruneThreadlessNullProcess_untouched
    (hp : ∀ row, p row → row.threadId = none → row.processUuid ≠ none)
    (h : pruneThreadlessNullProcess fails entries table = .ok table') :
    Untouched p table table' := by
  rw [pruneThreadlessNullProcess] at h
  split at h
  · obtain ⟨isOverLimit, -, h⟩ := bind_eq_ok.1 h
    split at h
    · obtain rfl := execute_eq_ok h
      refine LogTable.untouched_prune fun row hrow => ?_
      rw [Bool.and_eq_false_imp, Option.isNone_iff_eq_none]
      intro hthread
      exact Option.isNone_eq_false_iff.2 (Option.ne_none_iff_isSome.1 (hp row hrow hthread))
    · obtain rfl := Except.ok.inj h
      rfl
  · obtain rfl := Except.ok.inj h
    rfl

/-- All partitions are retained as the entries touch them. -/
theorem pruneLogsAfterInsert_retained
    (h : pruneLogsAfterInsert fails entries table = .ok table') (partition : LogPartition) :
    Retained entries partition table table' := by
  obtain ⟨table₁, h₁, h⟩ := bind_eq_ok.1 h
  obtain ⟨table₂, h₂, h₃⟩ := bind_eq_ok.1 h
  cases partition with
  | thread threadId =>
    have hthread : ∀ row, LogsRow.isIn (.thread threadId) row → row.threadId = some threadId :=
      fun row hrow => partition_eq_thread.1 (partition_of_isIn hrow)
    refine ((pruneThreads_retained h₁).trans (pruneThreadlessProcesses_untouched ?_ h₂)).trans
      (pruneThreadlessNullProcess_untouched ?_ h₃)
    · intro row hrow hnone
      exact nomatch (hthread row hrow).symm.trans hnone
    · intro row hrow hnone
      exact nomatch (hthread row hrow).symm.trans hnone
  | process processUuid =>
    have hprocess : ∀ row, LogsRow.isIn (.process processUuid) row →
        row.threadId = none ∧ row.processUuid = some processUuid :=
      fun row hrow => partition_eq_process.1 (partition_of_isIn hrow)
    refine (pruneThreads_untouched (fun row hrow => (hprocess row hrow).1) h₁).retained
      ((pruneThreadlessProcesses_retained h₂).trans
        (pruneThreadlessNullProcess_untouched ?_ h₃))
    intro row hrow _
    rw [(hprocess row hrow).2]
    exact nofun
  | neither =>
    have hneither : ∀ row, LogsRow.isIn .neither row →
        row.threadId = none ∧ row.processUuid = none :=
      fun row hrow => partition_eq_neither.1 (partition_of_isIn hrow)
    exact ((pruneThreads_untouched (fun row hrow => (hneither row hrow).1) h₁).trans
      (pruneThreadlessProcesses_untouched (fun row hrow _ => (hneither row hrow).2) h₂)).retained
      (pruneThreadlessNullProcess_retained h₃)

/-! ## The transaction -/

/-- Inserted rows belong to the partitions of their entries. -/
theorem untouched_insertValues (hnew : partition ∉ entries.map LogEntry.partition) :
    Untouched (LogsRow.isIn partition) table (table.insertValues entries) := by
  induction entries generalizing table with
  | nil => rfl
  | cons entry entries ih =>
    rw [List.map_cons, List.mem_cons, not_or] at hnew
    have hentry : Untouched (LogsRow.isIn partition) table (table.insert entry) := by
      rw [Untouched, LogTable.insert, List.filter_append, List.filter_cons_of_neg, List.filter_nil,
        List.append_nil]
      exact fun hrow => hnew.1 (partition_of_isIn hrow).symm
    exact hentry.trans (ih hnew.2)

theorem Pruned.isLongestRun (h : Pruned p table table') :
    IsLongestRun LogsRow.estimatedBytes logBudget
      (newestFirst LogsRow.order (table.rows.filter p))
      (newestFirst LogsRow.order (table'.rows.filter p)) := by
  rw [h]
  exact isLongestRun_newestFirst (table.nodup_order.sublist (List.filter_sublist.map _))

theorem insertLogsTx_eq_ok (h : insertLogsTx fails entries table = .ok table') :
    pruneLogsAfterInsert fails entries (table.insertValues entries) = .ok table' := by
  obtain ⟨table₁, h₁, h⟩ := bind_eq_ok.1 h
  obtain ⟨table₂, h₂, h⟩ := bind_eq_ok.1 h
  obtain ⟨table₃, h₃, h₄⟩ := bind_eq_ok.1 h
  obtain rfl := execute_eq_ok h₁
  obtain rfl := execute_eq_ok h₂
  obtain rfl := execute_eq_ok h₄
  exact h₃

end

end Mcodex.Logs
