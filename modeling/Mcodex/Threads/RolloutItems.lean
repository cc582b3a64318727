import Mcodex.Lib.Search
import Mcodex.Lib.Text
import Mcodex.Threads.Metadata

/-!
# The metadata that rollout items give a thread

`applyRolloutItem` folds one item of a rollout into the metadata of a thread, and
`applyRolloutItems` folds a batch of them into the row that is stored. Enumerations and the schemas
of tools stand here as the text that is stored of them, paths as their text. The baselines of the
configuration are in a table that no function here reads.
-/

namespace Mcodex.Threads

open Table

/-! ## Items -/

/-- `SessionSource`: what `enum_to_string` makes of it, and its `get_agent_path`. -/
structure SessionSource where
  text : List Char
  agentPath : Option (List Char)
  deriving DecidableEq, Repr

structure GitInfo where
  commitHash : Option (List Char)
  branch : Option (List Char)
  repositoryUrl : Option (List Char)
  deriving DecidableEq, Repr

structure DynamicToolSpec where
  toolNamespace : Option (List Char)
  name : List Char
  description : List Char
  inputSchema : List Char
  deferLoading : Bool
  deriving DecidableEq, Repr

structure SessionMeta where
  id : ThreadId
  source : List Char
  agentNickname : Option (List Char)
  agentRole : Option (List Char)
  agentPath : Option (List Char)
  modelProvider : Option (List Char)
  cliVersion : List Char
  cwd : List Char
  dynamicTools : Option (List DynamicToolSpec)
  memoryMode : Option (List Char)
  deriving DecidableEq, Repr

structure SessionMetaLine where
  sessionMeta : SessionMeta
  git : Option GitInfo
  deriving DecidableEq, Repr

structure TurnContextItem where
  cwd : List Char
  model : List Char
  effort : Option ReasoningEffort
  sandboxPolicy : List Char
  approvalPolicy : List Char
  deriving DecidableEq, Repr

structure UserMessageEvent where
  message : List Char
  images : Option (List (List Char))
  localImages : List (List Char)
  deriving DecidableEq, Repr

inductive EventMsg where
  /-- The total of the event's `info`, when it has one. -/
  | tokenCount (totalTokens : Option Int)
  | userMessage (user : UserMessageEvent)
  | threadNameUpdated (threadName : Option (List Char))
  | other
  deriving DecidableEq, Repr

inductive RolloutItem where
  | sessionMeta (metaLine : SessionMetaLine)
  | turnContext (turnCtx : TurnContextItem)
  | eventMsg (event : EventMsg)
  | responseItem
  | compacted
  deriving DecidableEq, Repr

/-! ## One item -/

def userMessageBegin : List Char := "## My request for Codex:".toList

def imageOnlyUserMessagePlaceholder : List Char := "[Image]".toList

def stripUserMessagePrefix (text : List Char) : List Char :=
  match Search.find userMessageBegin text with
  | some idx => Text.trim (text.drop (idx + userMessageBegin.length))
  | none => Text.trim text

def userMessagePreview (user : UserMessageEvent) : Option (List Char) :=
  let message := stripUserMessagePrefix user.message
  if message ≠ [] then some message
  else if user.images.any (· ≠ []) ∨ user.localImages ≠ [] then
    some imageOnlyUserMessagePlaceholder
  else none

section
variable (metadata : ThreadMetadata)

def applySessionMetaFromItem (metaLine : SessionMetaLine) : ThreadMetadata :=
  -- Forked rollouts embed the session metadata of the thread they come from.
  if metadata.id ≠ metaLine.sessionMeta.id then metadata
  else
    let found := metaLine.sessionMeta
    let metadata := { metadata with
      source := found.source
      agentNickname := found.agentNickname
      agentRole := found.agentRole
      agentPath := found.agentPath
      modelProvider := found.modelProvider.getD metadata.modelProvider
      cliVersion := if found.cliVersion ≠ [] then found.cliVersion else metadata.cliVersion
      cwd := if found.cwd ≠ [] then found.cwd else metadata.cwd }
    match metaLine.git with
    | some git => { metadata with
        gitSha := git.commitHash, gitBranch := git.branch, gitOriginUrl := git.repositoryUrl }
    | none => metadata

def applyTurnContext (turnCtx : TurnContextItem) : ThreadMetadata :=
  { metadata with
    cwd := if metadata.cwd = [] then turnCtx.cwd else metadata.cwd
    model := some turnCtx.model
    reasoningEffort := turnCtx.effort
    sandboxPolicy := turnCtx.sandboxPolicy
    approvalMode := turnCtx.approvalPolicy }

/-- The title after a message of the user, which only a thread without one takes from it. -/
def titleAfterMessage (title message : List Char) : List Char :=
  if title = [] then stripUserMessagePrefix message else title

/-- The title after a rename. -/
def titleAfterRename (title : List Char) (threadName : Option (List Char)) : List Char :=
  match threadName with
  | some name => if Text.trim name ≠ [] then Text.trim name else title
  | none => title

def applyEventMsg (event : EventMsg) : ThreadMetadata :=
  match event with
  | .tokenCount (some totalTokens) => { metadata with tokensUsed := max totalTokens 0 }
  | .tokenCount none => metadata
  | .userMessage user => { metadata with
      firstUserMessage := metadata.firstUserMessage <|> userMessagePreview user
      title := titleAfterMessage metadata.title user.message }
  | .threadNameUpdated threadName =>
    { metadata with title := titleAfterRename metadata.title threadName }
  | .other => metadata

def applyRolloutItem (defaultProvider : List Char) (metadata : ThreadMetadata)
    (item : RolloutItem) : ThreadMetadata :=
  let metadata := match item with
    | .sessionMeta metaLine => applySessionMetaFromItem metadata metaLine
    | .turnContext turnCtx => applyTurnContext metadata turnCtx
    | .eventMsg event => applyEventMsg metadata event
    | .responseItem | .compacted => metadata
  { metadata with modelProvider :=
      if metadata.modelProvider = [] then defaultProvider else metadata.modelProvider }

/-- The git information that an item records of the thread. -/
def itemGit (id : ThreadId) : RolloutItem → Option GitInfo
  | .sessionMeta metaLine => if metaLine.sessionMeta.id = id then metaLine.git else none
  | _ => none

/-- Git fields that are not null are kept. -/
def ThreadMetadata.preferExistingGitInfo (existing : ThreadMetadata) : ThreadMetadata :=
  { metadata with
    gitSha := existing.gitSha <|> metadata.gitSha
    gitBranch := existing.gitBranch <|> metadata.gitBranch
    gitOriginUrl := existing.gitOriginUrl <|> metadata.gitOriginUrl }

end

/-! ## A batch of items -/

structure ThreadMetadataBuilder where
  id : ThreadId
  rolloutPath : List Char
  createdAt : Int
  updatedAt : Option Int
  source : SessionSource
  agentNickname : Option (List Char)
  agentRole : Option (List Char)
  agentPath : Option (List Char)
  modelProvider : Option (List Char)
  cwd : List Char
  cliVersion : Option (List Char)
  sandboxPolicy : List Char
  approvalMode : List Char
  archivedAt : Option Int
  gitSha : Option (List Char)
  gitBranch : Option (List Char)
  gitOriginUrl : Option (List Char)
  deriving DecidableEq, Repr

def ThreadMetadataBuilder.build (builder : ThreadMetadataBuilder) (chrono : Chrono)
    (defaultProvider : List Char) : ThreadMetadata where
  id := builder.id
  rolloutPath := builder.rolloutPath
  createdAt := canonicalizeDatetime chrono builder.createdAt
  updatedAt := (builder.updatedAt.map (canonicalizeDatetime chrono)).getD
    (canonicalizeDatetime chrono builder.createdAt)
  source := builder.source.text
  agentNickname := builder.agentNickname
  agentRole := builder.agentRole
  agentPath := builder.agentPath <|> builder.source.agentPath
  modelProvider := builder.modelProvider.getD defaultProvider
  model := none
  reasoningEffort := none
  cwd := builder.cwd
  cliVersion := builder.cliVersion.getD []
  title := []
  sandboxPolicy := builder.sandboxPolicy
  approvalMode := builder.approvalMode
  tokensUsed := 0
  firstUserMessage := none
  archivedAt := builder.archivedAt.map (canonicalizeDatetime chrono)
  gitSha := builder.gitSha
  gitBranch := builder.gitBranch
  gitOriginUrl := builder.gitOriginUrl

def extractDynamicTools (items : List RolloutItem) : Option (Option (List DynamicToolSpec)) :=
  items.findSome? fun
    | .sessionMeta metaLine => some metaLine.sessionMeta.dynamicTools
    | _ => none

def extractMemoryMode (items : List RolloutItem) : Option (List Char) :=
  items.reverse.findSome? fun
    | .sessionMeta metaLine => metaLine.sessionMeta.memoryMode
    | _ => none

/-- The metadata that `apply_rollout_items` writes, for the metadata that it read. The instant is
the override or, without one, the modification time of the rollout file. -/
def rolloutMetadata (chrono : Chrono) (defaultProvider : List Char)
    (builder : ThreadMetadataBuilder) (items : List RolloutItem) (updatedAt : Option Int)
    (existing : Option ThreadMetadata) : ThreadMetadata :=
  let base := existing.getD (builder.build chrono defaultProvider)
  let applied := items.foldl (applyRolloutItem defaultProvider)
    { base with rolloutPath := builder.rolloutPath }
  let preferred := match existing with
    | some existing => applied.preferExistingGitInfo existing
    | none => applied
  { preferred with updatedAt := updatedAt.getD preferred.updatedAt }

namespace ThreadStore

section
variable (store : ThreadStore) (id : ThreadId)

/-- `UPDATE threads SET … WHERE id = ?`, and whether a row was affected. -/
def updateRow (f : ThreadRow → ThreadRow) : ThreadStore × Bool :=
  ({ store with threads := updateKey id f store.threads }, (store.threads.lookup id).isSome)

def setThreadMemoryMode (memoryMode : List Char) : ThreadStore × Bool :=
  store.updateRow id fun row => { row with memoryMode }

def updateThreadTitle (title : List Char) : ThreadStore × Bool :=
  store.updateRow id fun row => { row with title }

def updateThreadGitInfo (gitSha gitBranch gitOriginUrl : Option (Option (List Char))) :
    ThreadStore × Bool :=
  store.updateRow id fun row => { row with
    gitSha := gitSha.getD row.gitSha
    gitBranch := gitBranch.getD row.gitBranch
    gitOriginUrl := gitOriginUrl.getD row.gitOriginUrl }

end

/-- The row that `apply_rollout_items` writes: the memory mode is given to new rows only. -/
def writeRollout (chrono : Chrono) (store : ThreadStore) (existing : Option ThreadMetadata)
    (metadata : ThreadMetadata) (newThreadMemoryMode : Option (List Char)) : ThreadStore × Bool :=
  if existing.isNone then
    store.upsertThreadWithCreationMemoryMode chrono metadata newThreadMemoryMode
  else store.upsertThread chrono metadata

section
variable (chrono : Chrono) (store : ThreadStore) (metadata : ThreadMetadata)
  (memoryMode : Option (List Char)) (existing : Option ThreadMetadata)

/-- The memory mode of a row that is written: rows keep theirs. -/
def memoryModeOf (id : ThreadId) (creationMemoryMode : Option (List Char)) :
    List Char :=
  match store.threads.lookup id with
  | some row => row.memoryMode
  | none => creationMemoryMode.getD "enabled".toList

/-- A write fails and leaves the table alone, or it writes the row of the metadata. -/
theorem upsertThreadWithCreationMemoryMode_cases :
    (∃ store', store.upsertThreadWithCreationMemoryMode chrono metadata memoryMode =
      (store', false) ∧ store'.threads = store.threads) ∨
    ∃ store' updatedAt, store.upsertThreadWithCreationMemoryMode chrono metadata memoryMode =
      (store', true) ∧ store'.threads = store.threads.insert metadata.id
        (metadata.row updatedAt (store.memoryModeOf metadata.id memoryMode)) := by
  have hthreads : (store.allocateThreadUpdatedAt chrono metadata.updatedAt).1.threads =
      store.threads := rfl
  rw [upsertThreadWithCreationMemoryMode]
  revert hthreads
  obtain ⟨store', allocated⟩ := store.allocateThreadUpdatedAt chrono metadata.updatedAt
  intro hthreads
  cases allocated with
  | none => exact Or.inl ⟨store', rfl, hthreads⟩
  | some updatedAt =>
    refine Or.inr ⟨_, updatedAt, rfl, ?_⟩
    dsimp only at hthreads ⊢
    rw [hthreads]
    rfl

/-- The mode for new rows does not matter where there is a row. -/
theorem writeRollout_cases :
    (∃ store', store.writeRollout chrono existing metadata memoryMode = (store', false) ∧
      store'.threads = store.threads) ∨
    ∃ store' updatedAt, store.writeRollout chrono existing metadata memoryMode = (store', true) ∧
      store'.threads = store.threads.insert metadata.id (metadata.row updatedAt
        (store.memoryModeOf metadata.id (if existing.isNone then memoryMode else none))) := by
  rw [writeRollout]
  split
  · exact upsertThreadWithCreationMemoryMode_cases _ _ _ _
  · exact upsertThreadWithCreationMemoryMode_cases _ _ _ _

end

end ThreadStore

/-! ## Archiving -/

/-- The metadata that `mark_archived` and, without an instant, `mark_unarchived` write. -/
def ThreadMetadata.archive (metadata : ThreadMetadata) (rolloutPath : List Char)
    (archivedAt updatedAt : Option Int) : ThreadMetadata :=
  { metadata with rolloutPath, archivedAt, updatedAt := updatedAt.getD metadata.updatedAt }

/-- `mark_archived` and `mark_unarchived`. The second instant is the modification time of the
rollout file. -/
def ThreadStore.markArchived (chrono : Chrono) (store : ThreadStore) (id : ThreadId)
    (rolloutPath : List Char) (archivedAt updatedAt : Option Int) : ThreadStore × Bool :=
  match store.getThread chrono id with
  | none => (store, false)
  | some none => (store, true)
  | some (some metadata) =>
    store.upsertThread chrono (metadata.archive rolloutPath archivedAt updatedAt)

/-! ## The database -/

/-- The rows of `thread_dynamic_tools`, by thread and position. -/
abbrev DynamicTools := Keyed (ThreadId × Nat) DynamicToolSpec

structure StateDb where
  store : ThreadStore
  dynamicTools : DynamicTools

/-- `INSERT INTO thread_dynamic_tools … ON CONFLICT(thread_id, position) DO NOTHING`. -/
def insertTool (id : ThreadId) (stored : DynamicTools) (position : Nat) (tool : DynamicToolSpec) :
    DynamicTools :=
  match stored.lookup (id, position) with
  | some _ => stored
  | none => stored.insert (id, position) tool

/-- The loop of `persist_dynamic_tools`, from a position on. -/
def persistToolsFrom (id : ThreadId) (stored : DynamicTools) :
    Nat → List DynamicToolSpec → DynamicTools
  | _, [] => stored
  | position, tool :: tools =>
    persistToolsFrom id (insertTool id stored position tool) (position + 1) tools

def persistDynamicTools (id : ThreadId) (stored : DynamicTools)
    (tools : Option (List DynamicToolSpec)) : DynamicTools :=
  match tools with
  | none => stored
  | some tools => persistToolsFrom id stored 0 tools

/-- `apply_rollout_items`, and whether it succeeds. -/
def applyRolloutItems (chrono : Chrono) (defaultProvider : List Char)
    (builder : ThreadMetadataBuilder) (newThreadMemoryMode : Option (List Char)) (db : StateDb)
    (items : List RolloutItem) (updatedAt : Option Int) : StateDb × Bool :=
  if items = [] then (db, true)
  else match db.store.getThread chrono builder.id with
    | none => (db, false)
    | some existing =>
      let metadata := rolloutMetadata chrono defaultProvider builder items updatedAt existing
      match db.store.writeRollout chrono existing metadata newThreadMemoryMode with
      | (store, false) => ({ db with store }, false)
      | (store, true) =>
        let store := match extractMemoryMode items with
          | some memoryMode => (store.setThreadMemoryMode builder.id memoryMode).1
          | none => store
        let dynamicTools := match extractDynamicTools items with
          | some tools => persistDynamicTools builder.id db.dynamicTools tools
          | none => db.dynamicTools
        ({ store, dynamicTools }, true)

/-! ## What a batch leaves -/

section
variable {chrono : Chrono} {provider : List Char} {builder : ThreadMetadataBuilder}
  {memoryMode : Option (List Char)} {db db' : StateDb} {items : List RolloutItem}
  {updatedAt : Option Int} {metadata : ThreadMetadata} {item : RolloutItem}

theorem applyRolloutItem_id : (applyRolloutItem provider metadata item).id = metadata.id := by
  cases item with
  | sessionMeta metaLine =>
    rw [applyRolloutItem]
    dsimp only
    rw [applySessionMetaFromItem]
    split
    · rfl
    · cases metaLine.git <;> rfl
  | eventMsg event =>
    cases event with
    | tokenCount totalTokens => cases totalTokens <;> rfl
    | _ => rfl
  | _ => rfl

theorem foldl_applyRolloutItem_id :
    (items.foldl (applyRolloutItem provider) metadata).id = metadata.id := by
  induction items generalizing metadata with
  | nil => rfl
  | cons item items ih => rw [List.foldl_cons, ih, applyRolloutItem_id]

theorem rolloutMetadata_id {existing : Option ThreadMetadata}
    (h : ∀ metadata, existing = some metadata → metadata.id = builder.id) :
    (rolloutMetadata chrono provider builder items updatedAt existing).id = builder.id := by
  cases existing with
  | none => exact foldl_applyRolloutItem_id
  | some metadata => exact foldl_applyRolloutItem_id.trans (h metadata rfl)

theorem id_of_metadata {row : ThreadRow} {id : ThreadId}
    (h : row.metadata chrono id = some metadata) : metadata.id = id := by
  simp only [ThreadRow.metadata, Option.bind_eq_bind, Option.bind_eq_some_iff] at h
  obtain ⟨created, -, updated, -, hread⟩ := h
  obtain rfl := Option.some.inj hread
  rfl

/-- The read of a row that is there or not. -/
theorem getThread_cases {store : ThreadStore} {id : ThreadId} {existing : Option ThreadMetadata}
    (h : store.getThread chrono id = some existing) :
    store.threads.lookup id = none ∧ existing = none ∨
      ∃ row metadata, store.threads.lookup id = some row ∧ row.metadata chrono id = some metadata ∧
        existing = some metadata := by
  rw [ThreadStore.getThread] at h
  cases hrow : store.threads.lookup id with
  | none =>
    rw [hrow] at h
    exact Or.inl ⟨rfl, (Option.some.inj h).symm⟩
  | some row =>
    rw [hrow] at h
    obtain ⟨metadata, hread, rfl⟩ := Option.map_eq_some_iff.1 h
    exact Or.inr ⟨row, metadata, rfl, hread, rfl⟩

theorem existing_id {store : ThreadStore} {id : ThreadId} {existing : Option ThreadMetadata}
    (h : store.getThread chrono id = some existing) (hmetadata : existing = some metadata) :
    metadata.id = id := by
  obtain ⟨-, rfl⟩ | ⟨row, read, -, hread, rfl⟩ := getThread_cases h
  · cases hmetadata
  · cases hmetadata
    exact id_of_metadata hread

/-- **A batch that is applied** writes the row of its metadata, with the memory mode that it
records, and the tools. -/
theorem applyRolloutItems_ok (hne : items ≠ [])
    (h : applyRolloutItems chrono provider builder memoryMode db items updatedAt = (db', true)) :
    ∃ existing updated, db.store.getThread chrono builder.id = some existing ∧
      db'.store.threads.lookup builder.id =
        some ((rolloutMetadata chrono provider builder items updatedAt existing).row updated
          ((extractMemoryMode items).getD (db.store.memoryModeOf builder.id memoryMode))) ∧
      db'.dynamicTools = persistDynamicTools builder.id db.dynamicTools
        ((extractDynamicTools items).getD none) := by
  rw [applyRolloutItems, if_neg hne] at h
  cases hread : db.store.getThread chrono builder.id with
  | none =>
    rw [hread] at h
    cases h
  | some existing =>
    rw [hread] at h
    dsimp only at h
    have hid : (rolloutMetadata chrono provider builder items updatedAt existing).id =
        builder.id := rolloutMetadata_id fun metadata hmetadata => existing_id hread hmetadata
    have hmode : db.store.memoryModeOf builder.id (if existing.isNone then memoryMode else none) =
        db.store.memoryModeOf builder.id memoryMode := by
      obtain ⟨-, rfl⟩ | ⟨row, metadata, hrow, -, rfl⟩ := getThread_cases hread
      · rfl
      · simp only [ThreadStore.memoryModeOf, hrow]
    rcases db.store.writeRollout_cases chrono
        (rolloutMetadata chrono provider builder items updatedAt existing) memoryMode existing with
      ⟨store, hwrite, -⟩ | ⟨store, updated, hwrite, hthreads⟩
    · rw [hwrite] at h
      cases h
    · rw [hwrite] at h
      obtain ⟨rfl, -⟩ := Prod.mk.inj h
      rw [hid, hmode] at hthreads
      refine ⟨existing, updated, rfl, ?_, ?_⟩
      · cases extractMemoryMode items with
        | none =>
          show store.threads.lookup builder.id = _
          rw [hthreads, lookup_insert, if_pos rfl]
          rfl
        | some mode =>
          show (updateKey builder.id _ store.threads).lookup builder.id = _
          rw [lookup_updateKey, if_pos rfl, hthreads, lookup_insert, if_pos rfl]
          rfl
      · cases extractDynamicTools items with
        | none => rfl
        | some tools => rfl

end

end Mcodex.Threads
