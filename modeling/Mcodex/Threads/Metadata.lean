import Mcodex.Lib.Table

/-!
# The threads table

A row of the table and the metadata that is read from it. Instants are nanoseconds since the
epoch. A column of milliseconds below the start of 2020 is read as seconds, as older rows had them.
Left out are the columns of whole seconds, which no query reads, and the edges between threads.
-/

namespace Mcodex.Threads

open Table

abbrev ThreadId := Nat

/-- What is relied on of the instants of `chrono`: those given in milliseconds hold these, and not
all milliseconds are instants. -/
structure Chrono where
  /-- `DateTime::from_timestamp_millis`. -/
  fromTimestampMillis : Int → Option Int
  fromTimestampMillis_eq : ∀ {value t}, fromTimestampMillis value = some t → t = value * 1000000

def utc : Chrono where
  fromTimestampMillis value :=
    if -8334601228800000 ≤ value ∧ value ≤ 8210266876799999 then some (value * 1000000) else none
  fromTimestampMillis_eq h := by
    split at h
    · exact (Option.some.inj h).symm
    · cases h

def datetimeToEpochMillis (t : Int) : Int := t / 1000000

def datetimeToEpochSeconds (t : Int) : Int := t / 1000000000

/-- Columns of seconds hold those of instants. -/
def epochSecondsToDatetime (value : Int) : Int := value * 1000000000

def minEpochMillis : Int := 1577836800000

/-- `i64::saturating_mul` and `i64::saturating_add`. -/
def saturate (value : Int) : Int :=
  if value < -9223372036854775808 then -9223372036854775808
  else if 9223372036854775807 < value then 9223372036854775807
  else value

/-- The milliseconds that a column stands for. -/
def columnMillis (value : Int) : Int :=
  if value < minEpochMillis then saturate (value * 1000) else value

section
variable (chrono : Chrono)

def epochMillisToDatetime (value : Int) : Option Int :=
  chrono.fromTimestampMillis (columnMillis value)

def canonicalizeDatetime (t : Int) : Int :=
  (epochMillisToDatetime chrono (datetimeToEpochMillis t)).getD t

variable {chrono}

theorem datetimeToEpochMillis_of_epochMillisToDatetime {value t : Int}
    (h : epochMillisToDatetime chrono value = some t) :
    datetimeToEpochMillis t = columnMillis value := by
  rw [chrono.fromTimestampMillis_eq h, datetimeToEpochMillis]
  omega

end

/-! ## Metadata -/

inductive ReasoningEffort where
  | none
  | minimal
  | low
  | medium
  | high
  | xhigh
  deriving DecidableEq, Repr

structure ThreadMetadata where
  id : ThreadId
  rolloutPath : List Char
  createdAt : Int
  updatedAt : Int
  source : List Char
  agentNickname : Option (List Char)
  agentRole : Option (List Char)
  agentPath : Option (List Char)
  modelProvider : List Char
  model : Option (List Char)
  reasoningEffort : Option ReasoningEffort
  cwd : List Char
  cliVersion : List Char
  title : List Char
  sandboxPolicy : List Char
  approvalMode : List Char
  tokensUsed : Int
  firstUserMessage : Option (List Char)
  archivedAt : Option Int
  gitSha : Option (List Char)
  gitBranch : Option (List Char)
  gitOriginUrl : Option (List Char)
  deriving DecidableEq, Repr

/-- A row of the table, less its key. -/
structure ThreadRow where
  rolloutPath : List Char
  createdAtMs : Int
  updatedAtMs : Int
  source : List Char
  agentNickname : Option (List Char)
  agentRole : Option (List Char)
  agentPath : Option (List Char)
  modelProvider : List Char
  model : Option (List Char)
  reasoningEffort : Option ReasoningEffort
  cwd : List Char
  cliVersion : List Char
  title : List Char
  sandboxPolicy : List Char
  approvalMode : List Char
  tokensUsed : Int
  firstUserMessage : List Char
  archived : Bool
  archivedAt : Option Int
  gitSha : Option (List Char)
  gitBranch : Option (List Char)
  gitOriginUrl : Option (List Char)
  memoryMode : List Char
  deriving DecidableEq, Repr

/-- The values that an `INSERT INTO threads` binds. -/
def ThreadMetadata.row (metadata : ThreadMetadata) (updatedAt : Int) (memoryMode : List Char) :
    ThreadRow where
  rolloutPath := metadata.rolloutPath
  createdAtMs := datetimeToEpochMillis metadata.createdAt
  updatedAtMs := datetimeToEpochMillis updatedAt
  source := metadata.source
  agentNickname := metadata.agentNickname
  agentRole := metadata.agentRole
  agentPath := metadata.agentPath
  modelProvider := metadata.modelProvider
  model := metadata.model
  reasoningEffort := metadata.reasoningEffort
  cwd := metadata.cwd
  cliVersion := metadata.cliVersion
  title := metadata.title
  sandboxPolicy := metadata.sandboxPolicy
  approvalMode := metadata.approvalMode
  tokensUsed := metadata.tokensUsed
  firstUserMessage := metadata.firstUserMessage.getD []
  archived := metadata.archivedAt.isSome
  archivedAt := metadata.archivedAt.map datetimeToEpochSeconds
  gitSha := metadata.gitSha
  gitBranch := metadata.gitBranch
  gitOriginUrl := metadata.gitOriginUrl
  memoryMode := memoryMode

/-- `ThreadMetadata::try_from`. -/
def ThreadRow.metadata (chrono : Chrono) (id : ThreadId) (row : ThreadRow) :
    Option ThreadMetadata := do
  let createdAt ← epochMillisToDatetime chrono row.createdAtMs
  let updatedAt ← epochMillisToDatetime chrono row.updatedAtMs
  return {
    id, rolloutPath := row.rolloutPath, createdAt, updatedAt, source := row.source
    agentNickname := row.agentNickname, agentRole := row.agentRole, agentPath := row.agentPath
    modelProvider := row.modelProvider, model := row.model
    reasoningEffort := row.reasoningEffort, cwd := row.cwd, cliVersion := row.cliVersion
    title := row.title, sandboxPolicy := row.sandboxPolicy, approvalMode := row.approvalMode
    tokensUsed := row.tokensUsed
    firstUserMessage := if row.firstUserMessage ≠ [] then some row.firstUserMessage else none
    archivedAt := row.archivedAt.map epochSecondsToDatetime, gitSha := row.gitSha
    gitBranch := row.gitBranch, gitOriginUrl := row.gitOriginUrl }

/-! ## Statements -/

/-- The table, and the largest `updated_at` that the process allocated. -/
structure ThreadStore where
  threads : Keyed ThreadId ThreadRow
  updatedAtMillis : Int

namespace ThreadStore

def new : ThreadStore := ⟨∅, 0⟩

variable (chrono : Chrono) (store : ThreadStore)

/-- The allocated milliseconds, and the next high-water mark. -/
def allocateMillis (current candidate : Int) : Int × Int :=
  if current < candidate then (candidate, candidate)
  else if saturate (candidate + 1000) ≤ current then (candidate, current)
  else (saturate (current + 1), saturate (current + 1))

/-- `allocate_thread_updated_at`, in one step: its loop ends when no other call intervened. -/
def allocateThreadUpdatedAt (updatedAt : Int) : ThreadStore × Option Int :=
  let (allocated, mark) := allocateMillis store.updatedAtMillis (datetimeToEpochMillis updatedAt)
  ({ store with updatedAtMillis := mark }, epochMillisToDatetime chrono allocated)

def getThread (id : ThreadId) : Option (Option ThreadMetadata) :=
  match store.threads.lookup id with
  | none => some none
  | some row => (row.metadata chrono id).map some

/-- `upsert_thread_with_creation_memory_mode`, and whether it succeeds: an error leaves the table
as it is. -/
def upsertThreadWithCreationMemoryMode (metadata : ThreadMetadata)
    (creationMemoryMode : Option (List Char)) : ThreadStore × Bool :=
  match store.allocateThreadUpdatedAt chrono metadata.updatedAt with
  | (store, none) => (store, false)
  | (store, some updatedAt) =>
    let memoryMode := match store.threads.lookup metadata.id with
      | some row => row.memoryMode
      | none => creationMemoryMode.getD "enabled".toList
    ({ store with
      threads := store.threads.insert metadata.id (metadata.row updatedAt memoryMode) }, true)

def upsertThread (metadata : ThreadMetadata) : ThreadStore × Bool :=
  store.upsertThreadWithCreationMemoryMode chrono metadata none

/-- A conflict does nothing. -/
def insertThreadIfAbsent (metadata : ThreadMetadata) : ThreadStore × Bool :=
  match store.allocateThreadUpdatedAt chrono metadata.updatedAt with
  | (store, none) => (store, false)
  | (store, some updatedAt) =>
    match store.threads.lookup metadata.id with
    | some _ => (store, true)
    | none => ({ store with threads :=
        store.threads.insert metadata.id (metadata.row updatedAt "enabled".toList) }, true)

def touchThreadUpdatedAt (id : ThreadId) (updatedAt : Int) : ThreadStore × Bool :=
  match store.allocateThreadUpdatedAt chrono updatedAt with
  | (store, none) => (store, false)
  | (store, some updatedAt) =>
    let touch (row : ThreadRow) := { row with updatedAtMs := datetimeToEpochMillis updatedAt }
    ({ store with threads := updateKey id touch store.threads }, true)

end ThreadStore

end Mcodex.Threads
