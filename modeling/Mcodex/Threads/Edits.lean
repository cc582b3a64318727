import Mathlib.Data.List.Basic
import Mcodex.Lib.Transition
import Mcodex.Threads.RolloutItems

/-!
# Edits of the metadata of a thread

Titles, git fields and memory modes are edited by updates of their columns. The items of a rollout
and the archived flag are written by operations that read the whole row, change it, and write it
back, in separate steps. An edit of a column that completes between the two is overwritten, unless
the operation sets the column itself or holds the same value.
-/

namespace Mcodex.Threads

open Table Transition

/-! ## Fields -/

/-- The fields that are edited and that a row is written with. -/
inductive RowField where
  | title
  | gitSha
  | gitBranch
  | gitOriginUrl
  | archived
  deriving DecidableEq, Repr

abbrev RowField.Value : RowField → Type
  | .title => List Char
  | .archived => Bool
  | _ => Option (List Char)

def ThreadRow.get (row : ThreadRow) : (field : RowField) → field.Value
  | .title => row.title
  | .gitSha => row.gitSha
  | .gitBranch => row.gitBranch
  | .gitOriginUrl => row.gitOriginUrl
  | .archived => row.archived

def ThreadMetadata.get (metadata : ThreadMetadata) : (field : RowField) → field.Value
  | .title => metadata.title
  | .gitSha => metadata.gitSha
  | .gitBranch => metadata.gitBranch
  | .gitOriginUrl => metadata.gitOriginUrl
  | .archived => metadata.archivedAt.isSome

/-- What a read of the row gives of a field: it does not read the flag. -/
def ThreadRow.readBack (row : ThreadRow) : (field : RowField) → field.Value
  | .archived => row.archivedAt.isSome
  | field => row.get field

/-- An item of a rollout sets a field. -/
def itemSets (metadata : ThreadMetadata) (item : RolloutItem) : RowField → Bool
  | .title => match item with
    | .eventMsg (.userMessage user) =>
      metadata.title = [] ∧ stripUserMessagePrefix user.message ≠ []
    | .eventMsg (.threadNameUpdated (some name)) => Text.trim name ≠ []
    | _ => false
  | .archived => false
  | _ => (itemGit metadata.id item).isSome

/-- Some item sets a field, as they are folded. -/
def itemsSet (provider : List Char) (field : RowField) :
    ThreadMetadata → List RolloutItem → Bool
  | _, [] => false
  | metadata, item :: items =>
    itemSets metadata item field ||
      itemsSet provider field (applyRolloutItem provider metadata item) items

/-- The git fields that are kept. -/
def ThreadMetadata.prefers (existing : ThreadMetadata) : RowField → Bool
  | .gitSha => existing.gitSha.isSome
  | .gitBranch => existing.gitBranch.isSome
  | .gitOriginUrl => existing.gitOriginUrl.isSome
  | _ => false

/-- A batch of items sets a field of the row that it read. -/
def rolloutSets (provider : List Char) (builder : ThreadMetadataBuilder) (base : ThreadMetadata)
    (existing : Option ThreadMetadata) (items : List RolloutItem) (field : RowField) : Bool :=
  !(existing.any fun existing => existing.prefers field) &&
    itemsSet provider field { base with rolloutPath := builder.rolloutPath } items

section
variable {chrono : Chrono} {provider : List Char} {builder : ThreadMetadataBuilder}
  {metadata existing : ThreadMetadata} {item : RolloutItem} {items : List RolloutItem}
  {field : RowField} {updatedAt : Option Int} {id : ThreadId} {row : ThreadRow}

@[simp] theorem row_get (updated : Int) (memoryMode : List Char) :
    (metadata.row updated memoryMode).get field = metadata.get field := by
  cases field <;> rfl

@[simp] theorem row_readBack (updated : Int) (memoryMode : List Char) :
    (metadata.row updated memoryMode).readBack field = metadata.get field := by
  cases field with
  | archived => exact Option.isSome_map
  | _ => rfl

theorem get_of_read (h : row.metadata chrono id = some metadata) :
    metadata.get field = row.readBack field := by
  simp only [ThreadRow.metadata, Option.bind_eq_bind, Option.bind_eq_some_iff] at h
  obtain ⟨created, -, updated, -, hread⟩ := h
  obtain rfl := Option.some.inj hread
  cases field with
  | archived => exact Option.isSome_map
  | _ => rfl

theorem applySessionMetaFromItem_get {metaLine : SessionMetaLine}
    (h : itemSets metadata (.sessionMeta metaLine) field = false) :
    (applySessionMetaFromItem metadata metaLine).get field = metadata.get field := by
  rw [applySessionMetaFromItem]
  split
  · rfl
  · rename_i hid
    rw [not_not] at hid
    cases hgit : metaLine.git with
    | none => cases field <;> rfl
    | some git =>
      have hrecorded : itemGit metadata.id (.sessionMeta metaLine) = some git := by
        rw [itemGit, if_pos hid.symm, hgit]
      cases field with
      | title => rfl
      | archived => rfl
      | _ =>
        simp only [itemSets, hrecorded] at h
        cases h

/-- An item that does not set a field leaves it. -/
theorem applyRolloutItem_get (h : itemSets metadata item field = false) :
    (applyRolloutItem provider metadata item).get field = metadata.get field := by
  have hprovider : ∀ applied : ThreadMetadata, ({ applied with modelProvider :=
      if applied.modelProvider = [] then provider else applied.modelProvider }).get field =
        applied.get field := by
    intro applied
    cases field <;> rfl
  cases item with
  | sessionMeta metaLine => exact (hprovider _).trans (applySessionMetaFromItem_get h)
  | eventMsg event =>
    refine (hprovider _).trans ?_
    cases event with
    | tokenCount totalTokens => cases totalTokens <;> cases field <;> rfl
    | userMessage user =>
      cases field with
      | title =>
        show titleAfterMessage metadata.title user.message = metadata.title
        rw [titleAfterMessage]
        split
        · rename_i hempty
          simp only [itemSets, hempty, true_and, decide_eq_false_iff_not, not_not] at h
          rw [h, hempty]
        · rfl
      | _ => rfl
    | threadNameUpdated threadName =>
      cases field with
      | title =>
        show titleAfterRename metadata.title threadName = metadata.title
        cases threadName with
        | none => rfl
        | some name => exact if_neg (of_decide_eq_false h)
      | _ => rfl
    | other => rfl
  | turnContext turnCtx => cases field <;> rfl
  | _ => exact hprovider _

theorem foldl_applyRolloutItem_get (h : itemsSet provider field metadata items = false) :
    (items.foldl (applyRolloutItem provider) metadata).get field = metadata.get field := by
  induction items generalizing metadata with
  | nil => rfl
  | cons item items ih =>
    rw [itemsSet, Bool.or_eq_false_iff] at h
    rw [List.foldl_cons, ih h.2, applyRolloutItem_get h.1]

/-- **A batch writes back** what it read of the fields that it does not set. -/
theorem rolloutMetadata_get
    (h : rolloutSets provider builder existing (some existing) items field = false) :
    (rolloutMetadata chrono provider builder items updatedAt (some existing)).get field =
      existing.get field := by
  rw [rolloutSets, Bool.and_eq_false_iff, Bool.not_eq_false', Option.any_some] at h
  have horElse (x : Option (List Char)) : (x <|> x) = x := by cases x <;> rfl
  rcases h with hprefers | hset
  · cases field with
    | title => cases hprefers
    | archived => cases hprefers
    | gitSha =>
      obtain ⟨sha, hsha⟩ := Option.isSome_iff_exists.1 hprefers
      show (existing.gitSha <|> _) = existing.gitSha
      rw [hsha]
      rfl
    | gitBranch =>
      obtain ⟨branch, hbranch⟩ := Option.isSome_iff_exists.1 hprefers
      show (existing.gitBranch <|> _) = existing.gitBranch
      rw [hbranch]
      rfl
    | gitOriginUrl =>
      obtain ⟨url, hurl⟩ := Option.isSome_iff_exists.1 hprefers
      show (existing.gitOriginUrl <|> _) = existing.gitOriginUrl
      rw [hurl]
      rfl
  · have hfold := foldl_applyRolloutItem_get hset
    cases field with
    | title => exact hfold
    | archived => exact hfold
    | gitSha => exact (congrArg (existing.gitSha <|> ·) hfold).trans (horElse _)
    | gitBranch => exact (congrArg (existing.gitBranch <|> ·) hfold).trans (horElse _)
    | gitOriginUrl => exact (congrArg (existing.gitOriginUrl <|> ·) hfold).trans (horElse _)

end

/-! ## Operations -/

/-- Who writes a row: `apply_rollout_items`, with the fields that its items set and the memory mode
that they record, or `mark_archived` and `mark_unarchived`. -/
inductive Writer where
  | rollout (sets : RowField → Bool) (memoryMode : Option (List Char))
  | archiver

def Writer.sets : Writer → RowField → Bool
  | .rollout sets _, field => sets field
  | .archiver, field => field = .archived

/-- A row that was read, or found missing, and is not written yet. -/
structure RowWrite where
  existing : Option ThreadMetadata
  metadata : ThreadMetadata
  newThreadMemoryMode : Option (List Char)
  writer : Writer

/-- What an operation in progress does next. -/
inductive Running where
  | row (write : RowWrite)
  /-- The `set_thread_memory_mode` after the row. -/
  | memoryMode (memoryMode : List Char)

/-- What is left of an operation that wrote its row. -/
def Writer.next : Writer → List Running
  | .rollout _ (some memoryMode) => [.memoryMode memoryMode]
  | _ => []

/-- The rows, the operations in progress and, of each field, the value of the latest completed edit
since which no item of a rollout set it. -/
structure EditState where
  store : ThreadStore
  running : List Running
  latest : (field : RowField) → Option field.Value
  latestMemoryMode : Option (List Char)

inductive EditAct where
  | updateThreadTitle (title : List Char)
  | updateThreadGitInfo (gitSha gitBranch gitOriginUrl : Option (Option (List Char)))
  | setThreadMemoryMode (memoryMode : List Char)
  /-- The read of `apply_rollout_items`. -/
  | readRollout (builder : ThreadMetadataBuilder) (items : List RolloutItem)
      (newThreadMemoryMode : Option (List Char)) (updatedAt : Option Int)
  /-- The read of `mark_archived` or, without an instant, `mark_unarchived`. -/
  | readArchive (rolloutPath : List Char) (archivedAt updatedAt : Option Int)
  | writeRow (i : Nat)
  | writeMemoryMode (i : Nat)
  /-- An operation ends early. -/
  | abandon (i : Nat)

namespace EditState

section
variable (chrono : Chrono) (provider : List Char) (id : ThreadId) (s : EditState)

/-- Whether there is a row to edit. -/
def hasRow : Bool := (s.store.threads.lookup id).isSome

/-- The edits that a step completes: those of columns, and the archived flag of a row that
`mark_archived` or `mark_unarchived` writes. -/
def completes : EditAct → (field : RowField) → Option field.Value
  | .updateThreadTitle title, .title => if s.hasRow id then some title else none
  | .updateThreadGitInfo gitSha _ _, .gitSha => if s.hasRow id then gitSha else none
  | .updateThreadGitInfo _ gitBranch _, .gitBranch => if s.hasRow id then gitBranch else none
  | .updateThreadGitInfo _ _ gitOriginUrl, .gitOriginUrl =>
    if s.hasRow id then gitOriginUrl else none
  | .writeRow i, .archived => match s.running[i]? with
    | some (.row ⟨existing, metadata, newThreadMemoryMode, .archiver⟩) =>
      if (s.store.writeRollout chrono existing metadata newThreadMemoryMode).2 then
        some metadata.archivedAt.isSome
      else none
    | _ => none
  | _, _ => none

/-- The fields that the items of a rollout set in a step. -/
def rolledOut : EditAct → RowField → Bool
  | .writeRow i, field => match s.running[i]? with
    | some (.row ⟨existing, metadata, newThreadMemoryMode, .rollout sets _⟩) =>
      (s.store.writeRollout chrono existing metadata newThreadMemoryMode).2 && sets field
    | _ => false
  | _, _ => false

/-- The latest edits after a step. -/
def latestAfter (a : EditAct) (field : RowField) : Option field.Value :=
  match s.completes chrono id a field with
  | some value => some value
  | none => if s.rolledOut chrono a field then none else s.latest field

def act (a : EditAct) : Option EditState :=
  let latest := s.latestAfter chrono id a
  match a with
  | .updateThreadTitle title =>
    some { s with store := (s.store.updateThreadTitle id title).1, latest }
  | .updateThreadGitInfo gitSha gitBranch gitOriginUrl =>
    some { s with
      store := (s.store.updateThreadGitInfo id gitSha gitBranch gitOriginUrl).1, latest }
  | .setThreadMemoryMode memoryMode => some { s with
      store := (s.store.setThreadMemoryMode id memoryMode).1
      latestMemoryMode := if s.hasRow id then some memoryMode else s.latestMemoryMode }
  | .readRollout builder items newThreadMemoryMode updatedAt =>
    if items = [] ∨ builder.id ≠ id then none
    else (s.store.getThread chrono id).map fun existing =>
      let base := existing.getD (builder.build chrono provider)
      { s with running := s.running ++ [.row {
          existing
          metadata := rolloutMetadata chrono provider builder items updatedAt existing
          newThreadMemoryMode
          writer := .rollout (rolloutSets provider builder base existing items)
            (extractMemoryMode items) }] }
  | .readArchive rolloutPath archivedAt updatedAt =>
    match s.store.getThread chrono id with
    | some (some metadata) => some { s with running := s.running ++ [.row {
        existing := some metadata
        metadata := metadata.archive rolloutPath archivedAt updatedAt
        newThreadMemoryMode := none
        writer := .archiver }] }
    | _ => none
  | .writeRow i =>
    match s.running[i]? with
    | some (.row write) =>
      match s.store.writeRollout chrono write.existing write.metadata
        write.newThreadMemoryMode with
      | (store, true) =>
        some { s with store, running := s.running.eraseIdx i ++ write.writer.next, latest }
      | (store, false) => some { s with store, running := s.running.eraseIdx i }
    | _ => none
  | .writeMemoryMode i =>
    match s.running[i]? with
    | some (.memoryMode memoryMode) => some { s with
        store := (s.store.setThreadMemoryMode id memoryMode).1
        running := s.running.eraseIdx i
        latestMemoryMode := none }
    | _ => none
  | .abandon i => some { s with running := s.running.eraseIdx i }

/-- The other operations in progress. -/
def others : EditAct → List Running
  | .writeRow i => s.running.eraseIdx i
  | _ => s.running

/-- **When edits complete in order.** No operation that has read the row and not written it holds
another value of a field that is edited, unless it sets the field itself. -/
def Orderly (a : EditAct) : Prop :=
  ∀ field value, s.completes chrono id a field = some value →
    ∀ write, .row write ∈ s.others a → write.writer.sets field = false →
      write.metadata.get field = value

/-- The row of the thread holds the latest edits whenever no operation is in progress. -/
def EditsKept : Prop :=
  s.running = [] →
    (∀ field value, s.latest field = some value →
      ∃ row, s.store.threads.lookup id = some row ∧ row.get field = value) ∧
    ∀ memoryMode, s.latestMemoryMode = some memoryMode →
      ∃ row, s.store.threads.lookup id = some row ∧ row.memoryMode = memoryMode

end

end EditState

/-- The operations on one row, from any table on. -/
def edits (chrono : Chrono) (provider : List Char) (id : ThreadId) : System EditState EditAct where
  init s := s.running = [] ∧ (∀ field, s.latest field = none) ∧ s.latestMemoryMode = none
  step s a t := s.act chrono provider id a = some t

/-! ## The invariant -/

namespace EditState

section
variable {chrono : Chrono} {provider : List Char} {id : ThreadId} {s t : EditState} {a : EditAct}

/-- What is known of a state whose edits completed in order. -/
structure Ok (id : ThreadId) (s : EditState) : Prop where
  latest : ∀ field value, s.latest field = some value →
    ∃ row, s.store.threads.lookup id = some row ∧ row.get field = value ∧
      row.readBack field = value
  latestMemoryMode : ∀ memoryMode, s.latestMemoryMode = some memoryMode →
    ∃ row, s.store.threads.lookup id = some row ∧ row.memoryMode = memoryMode
  metadata_id : ∀ write, .row write ∈ s.running → write.metadata.id = id
  held : ∀ write, .row write ∈ s.running → ∀ field value, s.latest field = some value →
    write.writer.sets field = false → write.metadata.get field = value

/-- Operations may end early. -/
theorem Ok.subset (h : s.Ok id) (running : List Running) (hsub : running ⊆ s.running) :
    ({ s with running } : EditState).Ok id where
  latest := h.latest
  latestMemoryMode := h.latestMemoryMode
  metadata_id write hmem := h.metadata_id write (hsub hmem)
  held write hmem := h.held write (hsub hmem)

/-- A row that is read is held by the operation that read it. -/
theorem Ok.read (h : s.Ok id) {write : RowWrite} (hid : write.metadata.id = id)
    (hheld : ∀ row, s.store.threads.lookup id = some row → ∀ field,
      write.writer.sets field = false → write.metadata.get field = row.readBack field) :
    ({ s with running := s.running ++ [.row write] } : EditState).Ok id where
  latest := h.latest
  latestMemoryMode := h.latestMemoryMode
  metadata_id other hmem := by
    rcases List.mem_append.1 hmem with hmem | hmem
    · exact h.metadata_id other hmem
    · cases List.mem_singleton.1 hmem
      exact hid
  held other hmem field value hlatest hsets := by
    rcases List.mem_append.1 hmem with hmem | hmem
    · exact h.held other hmem field value hlatest hsets
    · cases List.mem_singleton.1 hmem
      obtain ⟨row, hrow, -, hread⟩ := h.latest field value hlatest
      rw [hheld row hrow field hsets, hread]

/-- An update of columns. -/
theorem Ok.update (h : s.Ok id) {f : ThreadRow → ThreadRow}
    {latest : (field : RowField) → Option field.Value}
    (hmode : ∀ row, (f row).memoryMode = row.memoryMode)
    (hlatest : ∀ row, s.store.threads.lookup id = some row → ∀ field value,
      latest field = some value → s.latest field = some value ∧ (f row).get field = row.get field ∧
          (f row).readBack field = row.readBack field ∨
        (f row).get field = value ∧ (f row).readBack field = value)
    (hnone : s.store.threads.lookup id = none → ∀ field, latest field = s.latest field)
    (hheld : ∀ write, .row write ∈ s.running → ∀ field value, latest field = some value →
      write.writer.sets field = false → write.metadata.get field = value) :
    ({ s with store := (s.store.updateRow id f).1, latest } : EditState).Ok id where
  latest field value hvalue := by
    show ∃ row, (updateKey id f s.store.threads).lookup id = _ ∧ _
    rw [lookup_updateKey, if_pos rfl]
    cases hrow : s.store.threads.lookup id with
    | none =>
      obtain ⟨row, hsome, -⟩ := h.latest field value ((hnone hrow field).symm.trans hvalue)
      rw [hrow] at hsome
      cases hsome
    | some row =>
      refine ⟨f row, rfl, ?_⟩
      rcases hlatest row hrow field value hvalue with ⟨hold, hget, hread⟩ | hnew
      · obtain ⟨row', hrow', hvalue, hreadback⟩ := h.latest field value hold
        rw [hrow] at hrow'
        cases hrow'
        exact ⟨hget.trans hvalue, hread.trans hreadback⟩
      · exact hnew
  latestMemoryMode memoryMode hlast := by
    obtain ⟨row, hrow, hvalue⟩ := h.latestMemoryMode memoryMode hlast
    refine ⟨f row, ?_, (hmode row).trans hvalue⟩
    show (updateKey id f s.store.threads).lookup id = _
    rw [lookup_updateKey, if_pos rfl, hrow]
    rfl
  metadata_id := h.metadata_id
  held := hheld

/-- A memory mode is set by a rollout, or by an edit. -/
theorem Ok.setMemoryMode (h : s.Ok id) {memoryMode : List Char} {latest : Option (List Char)}
    (hlatest : ∀ mode, latest = some mode → mode = memoryMode ∧ s.hasRow id) :
    ({ s with store := (s.store.setThreadMemoryMode id memoryMode).1,
              latestMemoryMode := latest } : EditState).Ok id where
  latest field value hvalue := by
    obtain ⟨row, hrow, hget, hread⟩ := h.latest field value hvalue
    refine ⟨{ row with memoryMode }, ?_, ?_, ?_⟩
    · show (updateKey id _ s.store.threads).lookup id = _
      rw [lookup_updateKey, if_pos rfl, hrow]
      rfl
    · rw [← hget]
      cases field <;> rfl
    · rw [← hread]
      cases field <;> rfl
  latestMemoryMode mode hmode := by
    obtain ⟨rfl, hrow⟩ := hlatest mode hmode
    obtain ⟨row, hrow⟩ := Option.isSome_iff_exists.1 hrow
    refine ⟨{ row with memoryMode := mode }, ?_, rfl⟩
    show (updateKey id _ s.store.threads).lookup id = _
    rw [lookup_updateKey, if_pos rfl, hrow]
    rfl
  metadata_id := h.metadata_id
  held := h.held

theorem others_subset : s.others a ⊆ s.running := by
  cases a with
  | writeRow i => exact List.eraseIdx_subset
  | _ => exact List.Subset.refl _

/-- The operations that are not at the step hold the latest edits after it. -/
theorem Ok.held_latestAfter (h : s.Ok id) (horderly : s.Orderly chrono id a) {write : RowWrite}
    (hmem : .row write ∈ s.others a) {field : RowField} {value : field.Value}
    (hlatest : s.latestAfter chrono id a field = some value)
    (hsets : write.writer.sets field = false) : write.metadata.get field = value := by
  rw [latestAfter] at hlatest
  cases hcompletes : s.completes chrono id a field with
  | some value' =>
    rw [hcompletes] at hlatest
    cases hlatest
    exact horderly field value hcompletes write hmem hsets
  | none =>
    rw [hcompletes] at hlatest
    dsimp only at hlatest
    split at hlatest
    · cases hlatest
    · exact h.held write (others_subset hmem) field value hlatest hsets

theorem Ok.updateThreadTitle (h : s.Ok id) {title : List Char}
    (horderly : s.Orderly chrono id (.updateThreadTitle title)) :
    ({ s with
      store := (s.store.updateThreadTitle id title).1
      latest := s.latestAfter chrono id (.updateThreadTitle title) } : EditState).Ok id := by
  refine h.update (fun _ => rfl) ?_ ?_ fun write hmem field value =>
    h.held_latestAfter horderly hmem
  · intro row hrow field value hvalue
    cases field with
    | title =>
      simp only [latestAfter, completes, hasRow, hrow, Option.isSome_some, if_true] at hvalue
      cases hvalue
      exact Or.inr ⟨rfl, rfl⟩
    | _ => exact Or.inl ⟨hvalue, rfl, rfl⟩
  · intro hrow field
    cases field with
    | title => simp [latestAfter, completes, hasRow, hrow, rolledOut]
    | _ => rfl

theorem Ok.updateThreadGitInfo (h : s.Ok id)
    {gitSha gitBranch gitOriginUrl : Option (Option (List Char))}
    (horderly : s.Orderly chrono id (.updateThreadGitInfo gitSha gitBranch gitOriginUrl)) :
    ({ s with
      store := (s.store.updateThreadGitInfo id gitSha gitBranch gitOriginUrl).1
      latest := s.latestAfter chrono id (.updateThreadGitInfo gitSha gitBranch gitOriginUrl) } :
        EditState).Ok id := by
  refine h.update (fun _ => rfl) ?_ ?_ fun write hmem field value =>
    h.held_latestAfter horderly hmem
  · intro row hrow field value hvalue
    simp only [latestAfter, completes, hasRow, hrow, Option.isSome_some, if_true,
      rolledOut] at hvalue
    cases field with
    | gitSha =>
      cases gitSha with
      | none => exact Or.inl ⟨hvalue, rfl, rfl⟩
      | some sha =>
        cases hvalue
        exact Or.inr ⟨rfl, rfl⟩
    | gitBranch =>
      cases gitBranch with
      | none => exact Or.inl ⟨hvalue, rfl, rfl⟩
      | some branch =>
        cases hvalue
        exact Or.inr ⟨rfl, rfl⟩
    | gitOriginUrl =>
      cases gitOriginUrl with
      | none => exact Or.inl ⟨hvalue, rfl, rfl⟩
      | some url =>
        cases hvalue
        exact Or.inr ⟨rfl, rfl⟩
    | _ => exact Or.inl ⟨hvalue, rfl, rfl⟩
  · intro hrow field
    cases field <;> simp [latestAfter, completes, hasRow, hrow, rolledOut]

theorem mem_of_mem_next {running : List Running} {writer : Writer} {write : RowWrite}
    (h : .row write ∈ running ++ writer.next) : .row write ∈ running := by
  rcases List.mem_append.1 h with h | h
  · exact h
  · cases writer with
    | rollout sets memoryMode =>
      cases memoryMode with
      | none => cases h
      | some memoryMode => cases List.mem_singleton.1 h
    | archiver => cases h

/-- The latest edits after a row is written are those that the operation held or completes. -/
theorem Ok.get_of_latestAfter (h : s.Ok id) {i : Nat} {write : RowWrite}
    (hwrite : s.running[i]? = some (.row write))
    (hok : (s.store.writeRollout chrono write.existing write.metadata
      write.newThreadMemoryMode).2 = true) {field : RowField} {value : field.Value}
    (hlatest : s.latestAfter chrono id (.writeRow i) field = some value) :
    write.metadata.get field = value := by
  obtain ⟨existing, metadata, newThreadMemoryMode, writer⟩ := write
  have hheld := h.held _ (List.mem_of_getElem? hwrite) field value
  cases writer with
  | rollout sets memoryMode =>
    have hnone : s.completes chrono id (.writeRow i) field = none := by
      cases field with
      | archived => simp only [completes, hwrite]
      | _ => rfl
    rw [latestAfter, hnone] at hlatest
    simp only [rolledOut, hwrite, hok, Bool.true_and] at hlatest
    split at hlatest
    · cases hlatest
    · rename_i hsets
      exact hheld hlatest (Bool.eq_false_iff.2 hsets)
  | archiver =>
    cases field with
    | archived =>
      simp only [latestAfter, completes, hwrite, hok, if_true] at hlatest
      exact Option.some.inj hlatest
    | _ =>
      simp only [latestAfter, completes, rolledOut, hwrite] at hlatest
      exact hheld hlatest rfl

/-- **A row is written.** The operation holds the latest edits of the fields that it does not set,
and the row keeps its memory mode. -/
theorem Ok.writeRow (h : s.Ok id) {i : Nat} (horderly : s.Orderly chrono id (.writeRow i))
    (hstep : s.act chrono provider id (.writeRow i) = some t) : t.Ok id := by
  rw [act] at hstep
  cases hwrite : s.running[i]? with
  | none =>
    rw [hwrite] at hstep
    cases hstep
  | some running =>
    cases running with
    | memoryMode memoryMode =>
      rw [hwrite] at hstep
      cases hstep
    | row write =>
      rw [hwrite] at hstep
      dsimp only at hstep
      have hmem : .row write ∈ s.running := List.mem_of_getElem? hwrite
      rcases s.store.writeRollout_cases chrono write.metadata write.newThreadMemoryMode
          write.existing with ⟨store, hfail, hthreads⟩ | ⟨store, updated, hok, hthreads⟩
      · rw [hfail] at hstep
        obtain rfl := Option.some.inj hstep
        have hrest := h.subset (s.running.eraseIdx i) List.eraseIdx_subset
        refine ⟨fun field value hvalue => ?_, fun memoryMode hmode => ?_, hrest.metadata_id,
          hrest.held⟩
        · rw [hthreads]
          exact h.latest field value hvalue
        · rw [hthreads]
          exact h.latestMemoryMode memoryMode hmode
      · rw [hok] at hstep
        obtain rfl := Option.some.inj hstep
        rw [h.metadata_id write hmem] at hthreads
        have hrow : store.threads.lookup id = some (write.metadata.row updated
            (s.store.memoryModeOf id
              (if write.existing.isNone then write.newThreadMemoryMode else none))) := by
          rw [hthreads, lookup_insert, if_pos rfl]
        refine ⟨fun field value hvalue => ⟨_, hrow, ?_, ?_⟩, fun memoryMode hmode => ⟨_, hrow, ?_⟩,
          fun other hother => ?_, fun other hother field value hvalue hsets => ?_⟩
        · rw [row_get]
          exact h.get_of_latestAfter hwrite (by rw [hok]) hvalue
        · rw [row_readBack]
          exact h.get_of_latestAfter hwrite (by rw [hok]) hvalue
        · obtain ⟨row, hrow, hvalue⟩ := h.latestMemoryMode memoryMode hmode
          show s.store.memoryModeOf id _ = memoryMode
          rw [ThreadStore.memoryModeOf, hrow]
          exact hvalue
        · exact h.metadata_id other (List.eraseIdx_subset (mem_of_mem_next hother))
        · exact h.held_latestAfter horderly (mem_of_mem_next hother) hvalue hsets

/-- **One step** of operations whose edits complete in order. -/
theorem Ok.step (h : s.Ok id) (horderly : s.Orderly chrono id a)
    (hstep : s.act chrono provider id a = some t) : t.Ok id := by
  cases a with
  | updateThreadTitle title =>
    obtain rfl := Option.some.inj hstep
    exact h.updateThreadTitle horderly
  | updateThreadGitInfo gitSha gitBranch gitOriginUrl =>
    obtain rfl := Option.some.inj hstep
    exact h.updateThreadGitInfo horderly
  | setThreadMemoryMode memoryMode =>
    obtain rfl := Option.some.inj hstep
    refine h.setMemoryMode fun mode hmode => ?_
    split at hmode
    · rename_i hrow
      exact ⟨(Option.some.inj hmode).symm, hrow⟩
    · rename_i hrow
      obtain ⟨row, hsome, -⟩ := h.latestMemoryMode mode hmode
      exact absurd (by rw [hasRow, hsome]; rfl) hrow
  | readRollout builder items newThreadMemoryMode updatedAt =>
    rw [act] at hstep
    split at hstep
    · cases hstep
    · rename_i hrollout
      rw [not_or, not_not] at hrollout
      obtain ⟨existing, hread, rfl⟩ := Option.map_eq_some_iff.1 hstep
      refine h.read ?_ fun row hrow field hsets => ?_
      · rw [← hrollout.2] at hread ⊢
        exact rolloutMetadata_id fun metadata hmetadata => existing_id hread hmetadata
      · obtain ⟨hnone, -⟩ | ⟨row', metadata, hrow', hmetadata, rfl⟩ := getThread_cases hread
        · rw [hrow] at hnone
          cases hnone
        · rw [hrow] at hrow'
          cases hrow'
          exact (rolloutMetadata_get hsets).trans (get_of_read hmetadata)
  | readArchive rolloutPath archivedAt updatedAt =>
    rw [act] at hstep
    cases hread : s.store.getThread chrono id with
    | none =>
      rw [hread] at hstep
      cases hstep
    | some existing =>
      cases existing with
      | none =>
        rw [hread] at hstep
        cases hstep
      | some metadata =>
        rw [hread] at hstep
        obtain rfl := Option.some.inj hstep
        have hid : metadata.id = id := existing_id hread rfl
        refine h.read hid fun row hrow field hsets => ?_
        obtain ⟨hnone, -⟩ | ⟨row', metadata', hrow', hmetadata, heq⟩ := getThread_cases hread
        · rw [hrow] at hnone
          cases hnone
        · cases heq
          rw [hrow] at hrow'
          cases hrow'
          rw [← get_of_read hmetadata]
          cases field with
          | archived => cases hsets
          | _ => rfl
  | writeRow i => exact h.writeRow horderly hstep
  | writeMemoryMode i =>
    rw [act] at hstep
    split at hstep
    · obtain rfl := Option.some.inj hstep
      exact (h.subset _ List.eraseIdx_subset).setMemoryMode fun mode hmode => by cases hmode
    · cases hstep
  | abandon i =>
    obtain rfl := Option.some.inj hstep
    exact h.subset _ List.eraseIdx_subset

theorem Ok.of_reach
    (h : ((edits chrono provider id).restrict fun s a => s.Orderly chrono id a).Reach s) :
    s.Ok id := by
  refine h.invariant ?_ fun s a t hs hstep => hs.step hstep.1 hstep.2
  rintro s ⟨hrunning, hlatest, hmode⟩
  refine ⟨fun field value hvalue => ?_, fun mode hvalue => ?_, ?_, ?_⟩
  · rw [hlatest] at hvalue
    cases hvalue
  · rw [hmode] at hvalue
    cases hvalue
  · rw [hrunning]
    exact fun write hmem => by cases hmem
  · rw [hrunning]
    exact fun write hmem => by cases hmem

end

/-! ## Operations that run alone -/

section
variable {chrono : Chrono} {provider : List Char} {id : ThreadId} {s : EditState}

/-- `apply_rollout_items` is its steps, when nothing comes between them. -/
theorem run_applyRolloutItems {builder : ThreadMetadataBuilder} {items : List RolloutItem}
    {newThreadMemoryMode : Option (List Char)} {updatedAt : Option Int} {db db' : StateDb}
    (hitems : items ≠ []) (hid : builder.id = id) (hstore : s.store = db.store)
    (hrunning : s.running = [])
    (h : applyRolloutItems chrono provider builder newThreadMemoryMode db items updatedAt =
      (db', true)) :
    ∃ t, (edits chrono provider id).Run s t ∧ t.store = db'.store ∧ t.running = [] := by
  rw [applyRolloutItems, if_neg hitems, ← hstore] at h
  cases hread : s.store.getThread chrono builder.id with
  | none =>
    rw [hread] at h
    cases h
  | some existing =>
    rw [hread] at h
    dsimp only at h
    have hfirst : ∃ t₁, s.act chrono provider id
        (.readRollout builder items newThreadMemoryMode updatedAt) = some t₁ ∧
        t₁.store = s.store ∧ t₁.running = [.row {
          existing
          metadata := rolloutMetadata chrono provider builder items updatedAt existing
          newThreadMemoryMode
          writer := .rollout (rolloutSets provider builder
            (existing.getD (builder.build chrono provider)) existing items)
            (extractMemoryMode items) }] := by
      rw [act, if_neg (by simp [hitems, hid]), ← hid, hread, hrunning]
      exact ⟨_, rfl, rfl, rfl⟩
    obtain ⟨t₁, hact₁, hstore₁, hrunning₁⟩ := hfirst
    cases hwrite : s.store.writeRollout chrono existing
        (rolloutMetadata chrono provider builder items updatedAt existing) newThreadMemoryMode with
    | mk store ok =>
      rw [hwrite] at h
      cases ok with
      | false => cases h
      | true =>
        obtain ⟨rfl, -⟩ := Prod.mk.inj h
        have hsecond : ∃ t₂, t₁.act chrono provider id (.writeRow 0) = some t₂ ∧
            t₂.store = store ∧
            t₂.running = ((extractMemoryMode items).map Running.memoryMode).toList := by
          simp only [act, hrunning₁, List.getElem?_cons_zero, hstore₁, hwrite]
          refine ⟨_, rfl, rfl, ?_⟩
          cases extractMemoryMode items <;> rfl
        obtain ⟨t₂, hact₂, hstore₂, hrunning₂⟩ := hsecond
        have hrun : (edits chrono provider id).Run s t₂ := .step (.step .refl hact₁) hact₂
        cases hmode : extractMemoryMode items with
        | none =>
          rw [hmode] at hrunning₂
          exact ⟨t₂, hrun, hstore₂, hrunning₂⟩
        | some memoryMode =>
          rw [hmode] at hrunning₂
          have hthird : t₂.act chrono provider id (.writeMemoryMode 0) = some { t₂ with
              store := (t₂.store.setThreadMemoryMode id memoryMode).1
              running := t₂.running.eraseIdx 0
              latestMemoryMode := none } := by
            simp [act, hrunning₂]
          refine ⟨_, .step hrun hthird, ?_, ?_⟩
          · show (t₂.store.setThreadMemoryMode id memoryMode).1 = _
            rw [hstore₂, hid]
          · show t₂.running.eraseIdx 0 = []
            rw [hrunning₂]
            rfl

/-- So are `mark_archived` and `mark_unarchived` of a row that is there. -/
theorem run_markArchived {rolloutPath : List Char} {archivedAt updatedAt : Option Int}
    {store : ThreadStore} {metadata : ThreadMetadata}
    (hread : s.store.getThread chrono id = some (some metadata)) (hrunning : s.running = [])
    (h : s.store.markArchived chrono id rolloutPath archivedAt updatedAt = (store, true)) :
    ∃ t, (edits chrono provider id).Run s t ∧ t.store = store ∧ t.running = [] := by
  rw [ThreadStore.markArchived, hread] at h
  have hfirst : ∃ t₁, s.act chrono provider id (.readArchive rolloutPath archivedAt updatedAt) =
      some t₁ ∧ t₁.store = s.store ∧ t₁.running = [.row {
        existing := some metadata
        metadata := metadata.archive rolloutPath archivedAt updatedAt
        newThreadMemoryMode := none
        writer := .archiver }] := by
    rw [act, hread, hrunning]
    exact ⟨_, rfl, rfl, rfl⟩
  obtain ⟨t₁, hact₁, hstore₁, hrunning₁⟩ := hfirst
  have hwrite : s.store.writeRollout chrono (some metadata)
      (metadata.archive rolloutPath archivedAt updatedAt) none = (store, true) := h
  have hsecond : ∃ t₂, t₁.act chrono provider id (.writeRow 0) = some t₂ ∧ t₂.store = store ∧
      t₂.running = [] := by
    simp only [act, hrunning₁, List.getElem?_cons_zero, hstore₁, hwrite]
    exact ⟨_, rfl, rfl, rfl⟩
  obtain ⟨t₂, hact₂, hstore₂, hrunning₂⟩ := hsecond
  exact ⟨t₂, .step (.step .refl hact₁) hact₂, hstore₂, hrunning₂⟩

end

/-! ## An edit that is lost -/

section

def storedThread : ThreadMetadata where
  id := 1
  rolloutPath := "/sessions/rollout.jsonl".toList
  createdAt := 1756720800000000000
  updatedAt := 1756720800000000000
  source := "cli".toList
  agentNickname := none
  agentRole := none
  agentPath := none
  modelProvider := "openai".toList
  model := none
  reasoningEffort := none
  cwd := "/work".toList
  cliVersion := "1".toList
  title := "old".toList
  sandboxPolicy := "read-only".toList
  approvalMode := "on-request".toList
  tokensUsed := 0
  firstUserMessage := some "old".toList
  archivedAt := none
  gitSha := none
  gitBranch := none
  gitOriginUrl := none

def storedState : EditState where
  store := (ThreadStore.new.upsertThread utc storedThread).1
  running := []
  latest _ := none
  latestMemoryMode := none

def editBuilder : ThreadMetadataBuilder where
  id := 1
  rolloutPath := "/sessions/rollout.jsonl".toList
  createdAt := 1756720800000000000
  updatedAt := none
  source := ⟨"cli".toList, none⟩
  agentNickname := none
  agentRole := none
  agentPath := none
  modelProvider := none
  cwd := "/work".toList
  cliVersion := none
  sandboxPolicy := "read-only".toList
  approvalMode := "on-request".toList
  archivedAt := none
  gitSha := none
  gitBranch := none
  gitOriginUrl := none

/-- The title that is edited between the read and the write of a count of tokens. -/
def tokensAcrossTitle : List EditAct :=
  [.readRollout editBuilder [.eventMsg (.tokenCount (some 10))] none none,
    .updateThreadTitle "new".toList, .writeRow 0]

theorem reach_of_acts {acts : List EditAct} {s t : EditState} {chrono : Chrono}
    {provider : List Char} {id : ThreadId} (hs : (edits chrono provider id).Reach s)
    (h : acts.foldlM (fun s a => s.act chrono provider id a) s = some t) :
    (edits chrono provider id).Reach t := by
  induction acts generalizing s with
  | nil =>
    obtain rfl := Option.some.inj h
    exact hs
  | cons a acts ih =>
    rw [List.foldlM_cons] at h
    obtain ⟨next, hnext, hrest⟩ := Option.bind_eq_some_iff.1 h
    exact ih (.step hs hnext) hrest

end

end EditState

end Mcodex.Threads
