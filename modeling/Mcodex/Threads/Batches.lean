import Mathlib.Data.List.Infix
import Mathlib.Logic.Function.Iterate
import Mcodex.Threads.RolloutItems

/-!
# Rollout items in batches

The items of a rollout reach the database in batches. A batch after the first starts from the row
that was stored, so a batch at a time leaves what one call leaves as far as every column can be read
back and folded on. Git fields that are not null stay as the first batch with one left them, and
the tools of a thread are those of the first session metadata in a batch, at the positions that have
none.
-/

namespace Mcodex.Threads

open Table

/-! ## What a row keeps apart -/

/-- What is folded apart from the rest of the metadata. -/
structure Stamp where
  rolloutPath : List Char
  createdAt : Int
  updatedAt : Int
  archivedAt : Option Int
  git : GitInfo

namespace ThreadMetadata

def stamp (metadata : ThreadMetadata) (s : Stamp) : ThreadMetadata :=
  { metadata with
    rolloutPath := s.rolloutPath
    createdAt := s.createdAt
    updatedAt := s.updatedAt
    archivedAt := s.archivedAt
    gitSha := s.git.commitHash
    gitBranch := s.git.branch
    gitOriginUrl := s.git.repositoryUrl }

def git (metadata : ThreadMetadata) : GitInfo :=
  ⟨metadata.gitSha, metadata.gitBranch, metadata.gitOriginUrl⟩

def ownStamp (metadata : ThreadMetadata) : Stamp :=
  ⟨metadata.rolloutPath, metadata.createdAt, metadata.updatedAt, metadata.archivedAt, metadata.git⟩

variable {metadata : ThreadMetadata} {s s' : Stamp}

@[simp] theorem stamp_stamp : (metadata.stamp s).stamp s' = metadata.stamp s' := rfl

@[simp] theorem stamp_ownStamp : metadata.stamp metadata.ownStamp = metadata := rfl

@[simp] theorem stamp_id : (metadata.stamp s).id = metadata.id := rfl

@[simp] theorem stamp_firstUserMessage :
    (metadata.stamp s).firstUserMessage = metadata.firstUserMessage := rfl

end ThreadMetadata

/-- The git information after some items: what the last of them recorded. -/
def gitAfter (id : ThreadId) (git : GitInfo) (items : List RolloutItem) : GitInfo :=
  items.foldl (fun git item => (itemGit id item).getD git) git

section
variable {provider : List Char} {metadata : ThreadMetadata} {item : RolloutItem}
  {items : List RolloutItem} {s : Stamp} {id : ThreadId}

theorem applySessionMetaFromItem_stamp (metaLine : SessionMetaLine) :
    applySessionMetaFromItem (metadata.stamp s) metaLine =
      (applySessionMetaFromItem metadata metaLine).stamp
        { s with git := (itemGit metadata.id (.sessionMeta metaLine)).getD s.git } := by
  by_cases hid : metadata.id = metaLine.sessionMeta.id
  · simp only [applySessionMetaFromItem, ThreadMetadata.stamp_id, hid, ne_eq, not_true, if_false,
      itemGit, if_true]
    cases metaLine.git <;> rfl
  · simp only [applySessionMetaFromItem, ThreadMetadata.stamp_id, ne_eq, hid, not_false_iff,
      if_true, itemGit, Ne.symm hid, if_false]
    rfl

/-- An item gives the stamp its git information, and nothing of the stamp to the rest. -/
theorem applyRolloutItem_stamp : applyRolloutItem provider (metadata.stamp s) item =
    (applyRolloutItem provider metadata item).stamp
      { s with git := (itemGit metadata.id item).getD s.git } := by
  cases item with
  | sessionMeta metaLine =>
    rw [applyRolloutItem, applyRolloutItem, applySessionMetaFromItem_stamp]
    rfl
  | eventMsg event =>
    cases event with
    | tokenCount totalTokens => cases totalTokens <;> rfl
    | _ => rfl
  | _ => rfl

variable (provider metadata items s) in
theorem foldl_applyRolloutItem_stamp :
    items.foldl (applyRolloutItem provider) (metadata.stamp s) =
      (items.foldl (applyRolloutItem provider) metadata).stamp
        { s with git := gitAfter metadata.id s.git items } := by
  induction items generalizing metadata s with
  | nil => rfl
  | cons item items ih =>
    rw [List.foldl_cons, List.foldl_cons, applyRolloutItem_stamp, ih, applyRolloutItem_id]
    rfl

theorem gitAfter_append {git : GitInfo} {items' : List RolloutItem} :
    gitAfter id git (items ++ items') = gitAfter id (gitAfter id git items) items' :=
  List.foldl_append

/-- The previews of messages are texts. -/
theorem userMessagePreview_ne (user : UserMessageEvent) : userMessagePreview user ≠ some [] := by
  rw [userMessagePreview]
  split
  · rename_i hne
    exact fun h => hne (Option.some.inj h)
  · split
    · exact fun h => by cases h
    · exact fun h => by cases h

theorem applyRolloutItem_firstUserMessage (h : metadata.firstUserMessage ≠ some []) :
    (applyRolloutItem provider metadata item).firstUserMessage ≠ some [] := by
  cases item with
  | sessionMeta metaLine =>
    simp only [applyRolloutItem, applySessionMetaFromItem]
    split
    · exact h
    · cases metaLine.git <;> exact h
  | eventMsg event =>
    cases event with
    | tokenCount totalTokens => cases totalTokens <;> exact h
    | userMessage user =>
      show (metadata.firstUserMessage <|> userMessagePreview user) ≠ some []
      cases hfirst : metadata.firstUserMessage with
      | none => exact userMessagePreview_ne user
      | some message =>
        rw [hfirst] at h
        exact h
    | _ => exact h
  | _ => exact h

theorem foldl_applyRolloutItem_firstUserMessage (h : metadata.firstUserMessage ≠ some []) :
    (items.foldl (applyRolloutItem provider) metadata).firstUserMessage ≠ some [] := by
  induction items generalizing metadata with
  | nil => exact h
  | cons item items ih => exact ih (applyRolloutItem_firstUserMessage h)

end

/-! ## A row read back -/

section
variable {chrono : Chrono} {metadata read : ThreadMetadata} {updatedAt : Int}
  {memoryMode : List Char} {id : ThreadId} {row : ThreadRow}

/-- What is read of a row is what was written of it, apart from the instants. -/
theorem metadata_eq_stamp (hid : metadata.id = id) (hfirst : metadata.firstUserMessage ≠ some [])
    {createdAtMs updatedAtMs : Int}
    (h : ({ metadata.row 0 memoryMode with createdAtMs, updatedAtMs }).metadata chrono id =
      some read) :
    datetimeToEpochMillis read.createdAt = columnMillis createdAtMs ∧
      read.archivedAt.map datetimeToEpochSeconds = metadata.archivedAt.map datetimeToEpochSeconds ∧
      read.git = metadata.git ∧ read = metadata.stamp read.ownStamp := by
  simp only [ThreadRow.metadata, Option.bind_eq_bind, Option.bind_eq_some_iff] at h
  obtain ⟨created, hcreated, updated, hupdated, hread⟩ := h
  obtain rfl := Option.some.inj hread
  refine ⟨datetimeToEpochMillis_of_epochMillisToDatetime hcreated, ?_, rfl, ?_⟩
  · show (((metadata.archivedAt.map _).map _).map _) = _
    rw [Option.map_map, Option.map_map]
    congr 1
    funext t
    simp only [Function.comp_apply, datetimeToEpochSeconds, epochSecondsToDatetime]
    omega
  · obtain ⟨mid⟩ := metadata
    simp only [ThreadMetadata.stamp, ThreadMetadata.ownStamp, ThreadMetadata.row,
      ThreadMetadata.git, ThreadMetadata.mk.injEq, true_and, and_true]
    refine ⟨hid.symm, ?_⟩
    rename_i first _ _ _ _
    cases first with
    | none => rfl
    | some message =>
      have hne : message ≠ [] := fun h => hfirst (h ▸ rfl)
      exact if_pos hne

/-- Rows of one fold differ by their stamps. -/
theorem row_stamp {s : Stamp} (s' : Stamp) (hpath : s.rolloutPath = s'.rolloutPath)
    (harchived : s.archivedAt.map datetimeToEpochSeconds = s'.archivedAt.map datetimeToEpochSeconds)
    (hgit : s.git = s'.git) :
    (metadata.stamp s).row updatedAt memoryMode =
      { (metadata.stamp s').row updatedAt memoryMode with
        createdAtMs := datetimeToEpochMillis s.createdAt } := by
  have hsome : s.archivedAt.isSome = s'.archivedAt.isSome := by
    rw [← Option.isSome_map (f := datetimeToEpochSeconds), harchived, Option.isSome_map]
  simp only [ThreadMetadata.row, ThreadMetadata.stamp, hpath, harchived, hgit, hsome]

end

/-! ## Tools -/

section
variable {id : ThreadId} {stored : DynamicTools} {tools : List DynamicToolSpec} {position : Nat}

/-- The tools of the first session metadata. -/
def toolsOf (items : List RolloutItem) : List DynamicToolSpec :=
  ((extractDynamicTools items).getD none).getD []

/-- A tool is stored where there is none. -/
theorem lookup_insertTool (first : Nat) (tool : DynamicToolSpec) :
    (insertTool id stored first tool).lookup (id, position) =
      (stored.lookup (id, position) <|> if position = first then some tool else none) := by
  rw [insertTool]
  by_cases hfirst : position = first
  · subst hfirst
    rw [if_pos rfl]
    cases hstored : stored.lookup (id, position) with
    | some _ => exact hstored
    | none => exact AList.lookup_insert stored
  · have hne : (id, position) ≠ (id, first) := fun h => hfirst (congrArg Prod.snd h)
    rw [if_neg hfirst]
    cases stored.lookup (id, first) with
    | some _ => cases stored.lookup (id, position) <;> rfl
    | none =>
      show (stored.insert (id, first) tool).lookup (id, position) = _
      rw [AList.lookup_insert_ne hne]
      cases stored.lookup (id, position) <;> rfl

theorem lookup_persistToolsFrom (first : Nat) :
    (persistToolsFrom id stored first tools).lookup (id, position) =
      (stored.lookup (id, position) <|>
        if first ≤ position then tools[position - first]? else none) := by
  induction tools generalizing stored first with
  | nil =>
    rw [persistToolsFrom]
    cases stored.lookup (id, position) <;> simp
  | cons tool tools ih =>
    rw [persistToolsFrom, ih, lookup_insertTool]
    cases stored.lookup (id, position) with
    | some _ => rfl
    | none =>
      rcases Nat.lt_trichotomy position first with hlt | rfl | hlt
      · simp [Nat.ne_of_lt hlt, show ¬ first + 1 ≤ position by omega, Nat.not_le.2 hlt]
      · simp
      · obtain ⟨offset, rfl⟩ := Nat.exists_eq_add_of_lt hlt
        simp [show ¬ first + offset + 1 = first by omega, show first ≤ first + offset + 1 by omega,
          show first + 1 ≤ first + offset + 1 by omega,
          show first + offset + 1 - (first + 1) = offset by omega,
          show first + offset + 1 - first = offset + 1 by omega]

theorem lookup_persistDynamicTools (found : Option (Option (List DynamicToolSpec))) :
    (persistDynamicTools id stored (found.getD none)).lookup (id, position) =
      (stored.lookup (id, position) <|> ((found.getD none).getD [])[position]?) := by
  cases found.getD none with
  | none =>
    rw [persistDynamicTools]
    cases stored.lookup (id, position) <;> rfl
  | some tools =>
    rw [persistDynamicTools, lookup_persistToolsFrom, if_pos (Nat.zero_le _)]
    rfl

end

/-! ## Git information -/

/-- What is kept of the git information of a row and that of a batch. -/
def preferGit (existing git : GitInfo) : GitInfo where
  commitHash := existing.commitHash <|> git.commitHash
  branch := existing.branch <|> git.branch
  repositoryUrl := existing.repositoryUrl <|> git.repositoryUrl

/-- The git information that batches leave. -/
def keptGit (id : ThreadId) (git : GitInfo) : List (List RolloutItem) → GitInfo
  | [] => git
  | items :: batches =>
    batches.foldl (fun git items => preferGit git (gitAfter id git items)) (gitAfter id git items)

/-- A field of the git information. -/
structure GitField where
  get : GitInfo → Option (List Char)
  get_prefer : ∀ existing git, get (preferGit existing git) = (get existing <|> get git)

def commitHashField : GitField := ⟨GitInfo.commitHash, fun _ _ => rfl⟩

def branchField : GitField := ⟨GitInfo.branch, fun _ _ => rfl⟩

def repositoryUrlField : GitField := ⟨GitInfo.repositoryUrl, fun _ _ => rfl⟩

section
variable {id : ThreadId} {git git' : GitInfo} (field : GitField) {items : List RolloutItem}
  {batches : List (List RolloutItem)}

/-- The first value that the field has at the end of a batch. -/
def firstRecorded (id : ThreadId) (git : GitInfo) (batches : List (List RolloutItem)) :
    Option (List Char) :=
  batches.inits.tail.findSome? fun ended => field.get (gitAfter id git ended.flatten)

variable {field}

theorem gitAfter_congr (h : field.get git = field.get git') :
    field.get (gitAfter id git items) = field.get (gitAfter id git' items) := by
  induction items generalizing git git' with
  | nil => exact h
  | cons item items ih =>
    refine ih ?_
    show field.get ((itemGit id item).getD git) = field.get ((itemGit id item).getD git')
    cases itemGit id item with
    | none => exact h
    | some _ => rfl

theorem inits_tail_concat {α : Type} {l : List α} {a : α} :
    (l ++ [a]).inits.tail = l.inits.tail ++ [l ++ [a]] := by
  rw [List.inits_append]
  cases l <;> simp

theorem keptGit_concat (h : batches ≠ []) : keptGit id git (batches ++ [items]) =
    preferGit (keptGit id git batches) (gitAfter id (keptGit id git batches) items) := by
  cases batches with
  | nil => exact absurd rfl h
  | cons first batches =>
    rw [List.cons_append, keptGit, List.foldl_append]
    rfl

/-- The field keeps its first recorded value. -/
theorem keptGit_field : field.get (keptGit id git (items :: batches)) =
    firstRecorded field id git (items :: batches) := by
  induction batches using List.reverseRecOn with
  | nil =>
    have hends : [items].inits.tail = [[items]] := rfl
    rw [firstRecorded, hends, List.findSome?_cons, List.findSome?_nil, List.flatten_cons,
      List.flatten_nil, List.append_nil]
    show field.get (gitAfter id git items) = _
    cases field.get (gitAfter id git items) <;> rfl
  | append_singleton batches last ih =>
    rw [← List.cons_append, keptGit_concat (List.cons_ne_nil _ _), field.get_prefer, firstRecorded,
      inits_tail_concat, List.findSome?_append, ih, firstRecorded]
    cases hbefore : (items :: batches).inits.tail.findSome? fun ended =>
        field.get (gitAfter id git ended.flatten) with
    | some value => rfl
    | none =>
      -- No value was recorded so far, in particular none at the last end.
      have hlast : field.get (gitAfter id git (items :: batches).flatten) = none :=
        List.findSome?_eq_none_iff.1 hbefore _ (by simp)
      rw [firstRecorded, hbefore] at ih
      rw [gitAfter_congr (ih.trans hlast.symm), ← gitAfter_append]
      simp

end

/-! ## Runs of batches -/

/-- The items of a call, and the instant it is given or reads. -/
abbrev Call := List RolloutItem × Option Int

section
variable (chrono : Chrono) (provider : List Char) (builder : ThreadMetadataBuilder)
  (newThreadMemoryMode : Option (List Char))

/-- Calls of `apply_rollout_items` one after another, when all of them succeed. -/
def applyBatches (db : StateDb) (calls : List Call) : Option StateDb :=
  calls.foldlM (fun db call =>
    match applyRolloutItems chrono provider builder newThreadMemoryMode db call.1 call.2 with
    | (db, true) => some db
    | (_, false) => none) db

/-- Neither the thread nor a tool of it is stored. -/
structure Fresh (db : StateDb) (id : ThreadId) : Prop where
  row : db.store.threads.lookup id = none
  tools : ∀ position, db.dynamicTools.lookup (id, position) = none

def foldedMetadata (items : List RolloutItem) : ThreadMetadata :=
  items.foldl (applyRolloutItem provider) (builder.build chrono provider)

/-- The milliseconds that the first row of the thread holds of its creation. -/
def createdMillis : Int :=
  datetimeToEpochMillis (canonicalizeDatetime chrono builder.createdAt)

/-- The metadata that batches leave, apart from its instants. -/
def storedMetadata (batches : List (List RolloutItem)) : ThreadMetadata :=
  let build := builder.build chrono provider
  (foldedMetadata chrono provider builder batches.flatten).stamp
    { build.ownStamp with git := keptGit builder.id build.git batches }

/-- The row that batches leave, apart from its last update. -/
def storedRow (batches : List (List RolloutItem)) : ThreadRow :=
  { (storedMetadata chrono provider builder batches).row 0
      ((extractMemoryMode batches.flatten).getD (newThreadMemoryMode.getD "enabled".toList)) with
    createdAtMs := columnMillis^[batches.length - 1] (createdMillis chrono builder) }

/-- What batches leave of the thread in the database. -/
structure Stored (db : StateDb) (batches : List (List RolloutItem)) : Prop where
  row : ∃ updatedAtMs, db.store.threads.lookup builder.id =
    some { storedRow chrono provider builder newThreadMemoryMode batches with updatedAtMs }
  tools : ∀ position, db.dynamicTools.lookup (builder.id, position) =
    batches.findSome? fun items => (toolsOf items)[position]?

variable {chrono provider builder newThreadMemoryMode} {db db' : StateDb} {items : List RolloutItem}
  {updatedAt : Option Int} {batches : List (List RolloutItem)}

theorem extractMemoryMode_append (items items' : List RolloutItem) :
    extractMemoryMode (items ++ items') =
      (extractMemoryMode items' <|> extractMemoryMode items) := by
  rw [extractMemoryMode, List.reverse_append, List.findSome?_append]
  show Option.or (extractMemoryMode items') (extractMemoryMode items) = _
  cases extractMemoryMode items' <;> rfl

theorem foldedMetadata_firstUserMessage :
    (foldedMetadata chrono provider builder items).firstUserMessage ≠ some [] :=
  foldl_applyRolloutItem_firstUserMessage fun h => by cases h

theorem foldedMetadata_stamp : foldedMetadata chrono provider builder items =
    (foldedMetadata chrono provider builder items).stamp
      { (builder.build chrono provider).ownStamp with
        git := gitAfter builder.id (builder.build chrono provider).git items } :=
  foldl_applyRolloutItem_stamp provider (builder.build chrono provider) items
    (builder.build chrono provider).ownStamp

theorem storedMetadata_id : (storedMetadata chrono provider builder batches).id = builder.id := by
  show (batches.flatten.foldl _ (builder.build chrono provider)).id =
    (builder.build chrono provider).id
  exact foldl_applyRolloutItem_id

theorem storedMetadata_firstUserMessage :
    (storedMetadata chrono provider builder batches).firstUserMessage ≠ some [] :=
  foldedMetadata_firstUserMessage

/-- A batch after others, when what it read is what they left. -/
theorem rolloutMetadata_some {read : ThreadMetadata}
    (hread : read = (storedMetadata chrono provider builder batches).stamp read.ownStamp) :
    rolloutMetadata chrono provider builder items updatedAt (some read) =
      (foldedMetadata chrono provider builder (batches.flatten ++ items)).stamp {
        rolloutPath := builder.rolloutPath
        createdAt := read.createdAt
        updatedAt := updatedAt.getD read.updatedAt
        archivedAt := read.archivedAt
        git := preferGit read.git (gitAfter builder.id read.git items) } := by
  have hpath : { read with rolloutPath := builder.rolloutPath } =
      (foldedMetadata chrono provider builder batches.flatten).stamp
        { read.ownStamp with rolloutPath := builder.rolloutPath } := by
    conv_lhs => rw [hread]
    rfl
  have hfold := foldl_applyRolloutItem_stamp provider
    (foldedMetadata chrono provider builder batches.flatten) items
    { read.ownStamp with rolloutPath := builder.rolloutPath }
  rw [← hpath, foldedMetadata, ← List.foldl_append, foldl_applyRolloutItem_id] at hfold
  rw [rolloutMetadata]
  dsimp only [Option.getD_some]
  rw [hfold]
  rfl

/-- The first batch is stored as it is folded. -/
theorem Fresh.apply (hfresh : Fresh db builder.id) (hne : items ≠ [])
    (h : applyRolloutItems chrono provider builder newThreadMemoryMode db items updatedAt =
      (db', true)) : Stored chrono provider builder newThreadMemoryMode db' [items] := by
  obtain ⟨existing, updated, hread, hrow, htools⟩ := applyRolloutItems_ok hne h
  have hexisting : existing = none := by
    rw [ThreadStore.getThread, hfresh.row] at hread
    exact (Option.some.inj hread).symm
  subst hexisting
  refine ⟨⟨datetimeToEpochMillis updated, ?_⟩, fun position => ?_⟩
  · rw [hrow]
    have hmode : db.store.memoryModeOf builder.id newThreadMemoryMode =
        newThreadMemoryMode.getD "enabled".toList := by
      rw [ThreadStore.memoryModeOf, hfresh.row]
    have hflatten : [items].flatten = items := by simp
    rw [hmode, storedRow, storedMetadata, hflatten]
    show some ((foldedMetadata chrono provider builder items).row updated _) = _
    rw [foldedMetadata_stamp]
    rfl
  · rw [htools, lookup_persistDynamicTools, hfresh.tools, List.findSome?_cons, List.findSome?_nil]
    show (toolsOf items)[position]? = _
    cases (toolsOf items)[position]? <;> rfl

/-- A later batch is folded on what was stored. -/
theorem Stored.apply (hstored : Stored chrono provider builder newThreadMemoryMode db batches)
    (hbatches : batches ≠ []) (hne : items ≠ [])
    (h : applyRolloutItems chrono provider builder newThreadMemoryMode db items updatedAt =
      (db', true)) :
    Stored chrono provider builder newThreadMemoryMode db' (batches ++ [items]) := by
  obtain ⟨existing, updated, hread, hrow, htools⟩ := applyRolloutItems_ok hne h
  obtain ⟨updatedAtMs, hlookup⟩ := hstored.row
  have hflatten : (batches ++ [items]).flatten = batches.flatten ++ items := by simp
  refine ⟨⟨datetimeToEpochMillis updated, ?_⟩, fun position => ?_⟩
  · obtain ⟨hnone, -⟩ | ⟨row, read, hsome, hreadrow, rfl⟩ := getThread_cases hread
    · rw [hlookup] at hnone
      cases hnone
    rw [hlookup] at hsome
    obtain rfl := Option.some.inj hsome
    obtain ⟨hcreated, harchived, hgit, hread⟩ :=
      metadata_eq_stamp storedMetadata_id storedMetadata_firstUserMessage hreadrow
    have hmode : db.store.memoryModeOf builder.id newThreadMemoryMode =
        (extractMemoryMode batches.flatten).getD (newThreadMemoryMode.getD "enabled".toList) := by
      rw [ThreadStore.memoryModeOf, hlookup]
      rfl
    have hlength : (batches ++ [items]).length - 1 = (batches.length - 1).succ := by
      have := List.length_pos_iff.2 hbatches
      simp
      omega
    change _ = columnMillis (columnMillis^[batches.length - 1] (createdMillis chrono builder))
      at hcreated
    rw [← Function.iterate_succ_apply' columnMillis] at hcreated
    have hkept : preferGit read.git (gitAfter builder.id read.git items) =
        keptGit builder.id (builder.build chrono provider).git (batches ++ [items]) := by
      rw [keptGit_concat hbatches, hgit]
      rfl
    rw [hrow, hmode, rolloutMetadata_some hread, row_stamp
      { (builder.build chrono provider).ownStamp with
        git := keptGit builder.id (builder.build chrono provider).git (batches ++ [items]) }]
    · rw [hcreated, ← hlength, storedRow, storedMetadata, hflatten, extractMemoryMode_append]
      cases extractMemoryMode items <;> rfl
    · rfl
    · exact harchived
    · exact hkept
  · rw [htools, lookup_persistDynamicTools, hstored.tools, List.findSome?_append,
      List.findSome?_cons, List.findSome?_nil]
    show (_ <|> (toolsOf items)[position]?) = _
    cases (batches.findSome? fun items => (toolsOf items)[position]?) <;>
      cases (toolsOf items)[position]? <;> rfl

theorem applyBatches_cons {call : Call} {calls : List Call}
    (h : applyBatches chrono provider builder newThreadMemoryMode db (call :: calls) = some db') :
    ∃ next, applyRolloutItems chrono provider builder newThreadMemoryMode db call.1 call.2 =
        (next, true) ∧
      applyBatches chrono provider builder newThreadMemoryMode next calls = some db' := by
  rw [applyBatches, List.foldlM_cons] at h
  obtain ⟨next, hnext, hrest⟩ := Option.bind_eq_some_iff.1 h
  split at hnext
  · rename_i hcall
    obtain rfl := Option.some.inj hnext
    exact ⟨_, hcall, hrest⟩
  · cases hnext

theorem Stored.run {calls : List Call}
    (hstored : Stored chrono provider builder newThreadMemoryMode db batches)
    (hbatches : batches ≠ []) (hne : ∀ call ∈ calls, call.1 ≠ [])
    (h : applyBatches chrono provider builder newThreadMemoryMode db calls = some db') :
    Stored chrono provider builder newThreadMemoryMode db' (batches ++ calls.map Prod.fst) := by
  induction calls generalizing db batches with
  | nil =>
    obtain rfl := Option.some.inj h
    rwa [List.map_nil, List.append_nil]
  | cons call calls ih =>
    obtain ⟨next, hcall, hrest⟩ := applyBatches_cons h
    have hnext := hstored.apply hbatches (hne call List.mem_cons_self) hcall
    have := ih hnext (by simp) (fun call hmem => hne call (List.mem_cons_of_mem _ hmem)) hrest
    rwa [List.append_assoc] at this

/-- **What batches leave** is one fold of all of their items, apart from the git information, the
creation and the tools. -/
theorem stored_of_applyBatches {calls : List Call} (hfresh : Fresh db builder.id)
    (hcalls : calls ≠ []) (hne : ∀ call ∈ calls, call.1 ≠ [])
    (h : applyBatches chrono provider builder newThreadMemoryMode db calls = some db') :
    Stored chrono provider builder newThreadMemoryMode db' (calls.map Prod.fst) := by
  cases calls with
  | nil => exact absurd rfl hcalls
  | cons call calls =>
    obtain ⟨next, hcall, hrest⟩ := applyBatches_cons h
    exact (hfresh.apply (hne call List.mem_cons_self) hcall).run (List.cons_ne_nil _ _)
      (fun call hmem => hne call (List.mem_cons_of_mem _ hmem)) hrest

end

/-! ## The instant of creation -/

theorem columnMillis_of_nonneg {value : Int} (h : 0 ≤ value) : value ≤ columnMillis value := by
  rw [columnMillis, minEpochMillis]
  split
  · rw [saturate]
    split_ifs <;> omega
  · exact le_refl _

theorem columnMillis_of_neg {value : Int} (h : value < 0) :
    -9223372036854775808 ≤ columnMillis value ∧
      (-9223372036854775808 ≤ value → columnMillis value ≤ value) ∧ columnMillis value < 0 := by
  rw [columnMillis, if_pos (by rw [minEpochMillis]; omega), saturate]
  split_ifs <;> omega

/-- Milliseconds that are not read back as they are never become so again. -/
theorem columnMillis_iterate {value : Int} (n : Nat) :
    columnMillis^[n + 1] value = value ↔ columnMillis value = value := by
  refine ⟨fun h => ?_, fun h => Function.iterate_fixed h _⟩
  rw [Function.iterate_succ_apply] at h
  rcases lt_or_ge value 0 with hneg | hnonneg
  · have hfirst := columnMillis_of_neg hneg
    have hrest : ∀ k, -9223372036854775808 ≤ columnMillis^[k] (columnMillis value) ∧
        columnMillis^[k] (columnMillis value) ≤ columnMillis value ∧
        columnMillis^[k] (columnMillis value) < 0 := by
      intro k
      induction k with
      | zero => exact ⟨hfirst.1, le_refl _, hfirst.2.2⟩
      | succ k ih =>
        rw [Function.iterate_succ_apply']
        have hstep := columnMillis_of_neg ih.2.2
        have hle := hstep.2.1 ih.1
        omega
    have hn := hrest n
    have hle := hfirst.2.1 (by omega)
    omega
  · have hrest : ∀ k, columnMillis value ≤ columnMillis^[k] (columnMillis value) := by
      intro k
      induction k with
      | zero => exact le_refl _
      | succ k ih =>
        rw [Function.iterate_succ_apply']
        have hfirst := columnMillis_of_nonneg hnonneg
        exact ih.trans (columnMillis_of_nonneg (by omega))
    have hn := hrest n
    have hfirst := columnMillis_of_nonneg hnonneg
    omega

/-! ## Batches agree -/

section
variable (chrono : Chrono) (builder : ThreadMetadataBuilder)

/-- The rows of a thread agree apart from their last update, and so do its tools. -/
structure SameThread (id : ThreadId) (db db' : StateDb) : Prop where
  row : (db.store.threads.lookup id).map (fun row => { row with updatedAtMs := 0 }) =
    (db'.store.threads.lookup id).map fun row => { row with updatedAtMs := 0 }
  tools : ∀ position,
    db.dynamicTools.lookup (id, position) = db'.dynamicTools.lookup (id, position)

def ThreadMetadataBuilder.git (builder : ThreadMetadataBuilder) : GitInfo :=
  ⟨builder.gitSha, builder.gitBranch, builder.gitOriginUrl⟩

/-- The first value that a git field has at the end of a batch is the one that it has in the end. -/
def KeepsGit (batches : List (List RolloutItem)) (field : GitField) : Prop :=
  firstRecorded field builder.id builder.git batches =
    field.get (gitAfter builder.id builder.git batches.flatten)

/-- What batches leave, next to what one call leaves: the creation is read again by each batch after
the first, the git fields keep the first value that a batch leaves, and the tools are the same where
no batch has more of them than the list. -/
structure BatchesLeave (calls : List Call) (split whole : StateDb) : Prop where
  row : (split.store.threads.lookup builder.id).map (fun row => { row with updatedAtMs := 0 }) =
    (whole.store.threads.lookup builder.id).map fun row => { row with
      updatedAtMs := 0
      createdAtMs := columnMillis^[calls.length - 1] row.createdAtMs
      gitSha := firstRecorded commitHashField builder.id builder.git (calls.map Prod.fst)
      gitBranch := firstRecorded branchField builder.id builder.git (calls.map Prod.fst)
      gitOriginUrl :=
        firstRecorded repositoryUrlField builder.id builder.git (calls.map Prod.fst) }
  git : ∀ row ∈ whole.store.threads.lookup builder.id,
    (⟨row.gitSha, row.gitBranch, row.gitOriginUrl⟩ : GitInfo) =
      gitAfter builder.id builder.git (calls.map Prod.fst).flatten
  tools : (∀ items ∈ calls.map Prod.fst,
      (toolsOf items).length ≤ (toolsOf (calls.map Prod.fst).flatten).length) →
    ∀ position, split.dynamicTools.lookup (builder.id, position) =
      whole.dynamicTools.lookup (builder.id, position)

/-- What batches have to be like for it not to matter that they are not one. -/
structure Splits (batches : List (List RolloutItem)) : Prop where
  created : columnMillis (createdMillis chrono builder) = createdMillis chrono builder
  commitHash : KeepsGit builder batches commitHashField
  branch : KeepsGit builder batches branchField
  repositoryUrl : KeepsGit builder batches repositoryUrlField
  tools : ∀ items ∈ batches, (toolsOf items).length ≤ (toolsOf batches.flatten).length

variable {chrono builder} {provider : List Char} {newThreadMemoryMode : Option (List Char)}
  {db split whole : StateDb} {items : List RolloutItem} {batches : List (List RolloutItem)}

theorem firstRecorded_eq (hbatches : batches ≠ []) {field : GitField} :
    field.get (keptGit builder.id builder.git batches) =
      firstRecorded field builder.id builder.git batches := by
  cases batches with
  | nil => exact absurd rfl hbatches
  | cons items batches => exact keptGit_field

theorem keepsGit_iff (hbatches : batches ≠ []) {field : GitField} :
    KeepsGit builder batches field ↔ field.get (keptGit builder.id builder.git batches) =
      field.get (gitAfter builder.id builder.git batches.flatten) := by
  rw [KeepsGit, firstRecorded_eq hbatches]

theorem toolsOf_append (items' : List RolloutItem) : toolsOf (items ++ items') =
    if (extractDynamicTools items).isSome then toolsOf items else toolsOf items' := by
  have happend : extractDynamicTools (items ++ items') =
      (extractDynamicTools items).or (extractDynamicTools items') := List.findSome?_append
  rw [toolsOf, happend, toolsOf, toolsOf]
  cases extractDynamicTools items <;> rfl

/-- The tools that batches store are those of the whole list when no batch has more. -/
theorem tools_agree_iff :
    (∀ position : Nat, (batches.findSome? fun items => (toolsOf items)[position]?) =
      (toolsOf batches.flatten)[position]?) ↔
      ∀ items ∈ batches, (toolsOf items).length ≤ (toolsOf batches.flatten).length := by
  constructor
  · intro h items hmem
    have hlast := h (toolsOf batches.flatten).length
    rw [List.getElem?_eq_none_iff.2 (le_refl _), List.findSome?_eq_none_iff] at hlast
    exact List.getElem?_eq_none_iff.1 (hlast items hmem)
  · intro h position
    induction batches with
    | nil => rfl
    | cons items batches ih =>
      rw [List.flatten_cons, toolsOf_append] at h ⊢
      rw [List.findSome?_cons]
      cases hfirst : extractDynamicTools items with
      | some found =>
        -- The first session metadata of all is in this batch.
        rw [hfirst, if_pos Option.isSome_some] at h
        rw [if_pos Option.isSome_some]
        cases hposition : (toolsOf items)[position]? with
        | some tool => rfl
        | none =>
          rw [List.getElem?_eq_none_iff] at hposition
          refine List.findSome?_eq_none_iff.2 fun later hmem => List.getElem?_eq_none_iff.2 ?_
          exact (h later (List.mem_cons_of_mem _ hmem)).trans hposition
      | none =>
        have hnone : toolsOf items = [] := by
          rw [toolsOf, hfirst]
          rfl
        rw [hfirst, if_neg (by simp)] at h
        rw [if_neg (by simp), hnone]
        exact ih fun later hmem => h later (List.mem_cons_of_mem _ hmem)

theorem storedRow_eq_iff (hbatches : batches ≠ []) :
    { storedRow chrono provider builder newThreadMemoryMode batches with updatedAtMs := 0 } =
        { storedRow chrono provider builder newThreadMemoryMode [batches.flatten] with
          updatedAtMs := 0 } ↔
      columnMillis^[batches.length - 1] (createdMillis chrono builder) =
          createdMillis chrono builder ∧
        KeepsGit builder batches commitHashField ∧ KeepsGit builder batches branchField ∧
        KeepsGit builder batches repositoryUrlField := by
  have hflatten : [batches.flatten].flatten = batches.flatten := by simp
  rw [keepsGit_iff hbatches, keepsGit_iff hbatches, keepsGit_iff hbatches]
  constructor
  · intro h
    exact ⟨congrArg ThreadRow.createdAtMs h, congrArg ThreadRow.gitSha h,
      congrArg ThreadRow.gitBranch h, congrArg ThreadRow.gitOriginUrl h⟩
  · rintro ⟨hcreated, hsha, hbranch, hurl⟩
    have hgit : keptGit builder.id builder.git batches =
        keptGit builder.id builder.git [batches.flatten] := by
      cases hkept : keptGit builder.id builder.git batches
      rw [hkept] at hsha hbranch hurl
      exact congr (congr (congrArg GitInfo.mk hsha) hbranch) hurl
    rw [storedRow, storedRow, storedMetadata, storedMetadata, hflatten, hcreated]
    exact congrArg (fun git => { (((foldedMetadata chrono provider builder batches.flatten).stamp
      { (builder.build chrono provider).ownStamp with git }).row 0 _) with
        createdAtMs := createdMillis chrono builder }) hgit

/-- What batches leave is what one call leaves. -/
theorem sameThread_iff (hbatches : batches ≠ [])
    (hsplit : Stored chrono provider builder newThreadMemoryMode split batches)
    (hwhole : Stored chrono provider builder newThreadMemoryMode whole [batches.flatten]) :
    SameThread builder.id split whole ↔
      columnMillis^[batches.length - 1] (createdMillis chrono builder) =
          createdMillis chrono builder ∧
        KeepsGit builder batches commitHashField ∧ KeepsGit builder batches branchField ∧
        KeepsGit builder batches repositoryUrlField ∧
        ∀ items ∈ batches, (toolsOf items).length ≤ (toolsOf batches.flatten).length := by
  obtain ⟨updated, hrow⟩ := hsplit.row
  obtain ⟨updated', hrow'⟩ := hwhole.row
  have hone : ∀ position : Nat, ([batches.flatten].findSome? fun items =>
      (toolsOf items)[position]?) = (toolsOf batches.flatten)[position]? := by
    intro position
    rw [List.findSome?_cons, List.findSome?_nil]
    cases (toolsOf batches.flatten)[position]? <;> rfl
  rw [← tools_agree_iff]
  constructor
  · rintro ⟨hsame, htools⟩
    rw [hrow, hrow', Option.map_some, Option.map_some, Option.some.injEq] at hsame
    obtain ⟨hcreated, hsha, hbranch, hurl⟩ := (storedRow_eq_iff hbatches).1 hsame
    refine ⟨hcreated, hsha, hbranch, hurl, fun position => ?_⟩
    rw [← hsplit.tools, ← hone, ← hwhole.tools]
    exact htools position
  · rintro ⟨hcreated, hsha, hbranch, hurl, htools⟩
    refine ⟨?_, fun position => ?_⟩
    · rw [hrow, hrow', Option.map_some, Option.map_some, Option.some.injEq]
      exact (storedRow_eq_iff hbatches).2 ⟨hcreated, hsha, hbranch, hurl⟩
    · rw [hsplit.tools, hwhole.tools, hone]
      exact htools position

/-- One batch is one call. -/
theorem sameThread_single (items : List RolloutItem) :
    columnMillis^[[items].length - 1] (createdMillis chrono builder) =
        createdMillis chrono builder ∧
      KeepsGit builder [items] commitHashField ∧ KeepsGit builder [items] branchField ∧
      KeepsGit builder [items] repositoryUrlField ∧
      ∀ batch ∈ [items], (toolsOf batch).length ≤ (toolsOf [items].flatten).length := by
  have hflatten : [items].flatten = items := by simp
  have hgit (field : GitField) : KeepsGit builder [items] field := by
    rw [keepsGit_iff (List.cons_ne_nil _ _), hflatten]
    rfl
  refine ⟨rfl, hgit _, hgit _, hgit _, fun batch hmem => ?_⟩
  rw [List.mem_singleton.1 hmem, hflatten]

theorem applyBatches_nil_items {updatedAt : Option Int}
    (h : applyBatches chrono provider builder newThreadMemoryMode db [([], updatedAt)] =
      some whole) : whole = db := by
  obtain ⟨next, hcall, hrest⟩ := applyBatches_cons h
  obtain rfl := Option.some.inj hrest
  have hnothing : (db, true) = (next, true) := hcall
  exact (Prod.mk.inj hnothing).1.symm

/-- Batches and one call with all of their items are stored as they are folded. -/
theorem stored_split_whole {calls : List Call} {updatedAt : Option Int}
    (hfresh : Fresh db builder.id) (hcalls : calls ≠ []) (hne : ∀ call ∈ calls, call.1 ≠ [])
    (hsplit : applyBatches chrono provider builder newThreadMemoryMode db calls = some split)
    (hwhole : applyBatches chrono provider builder newThreadMemoryMode db
      [((calls.map Prod.fst).flatten, updatedAt)] = some whole) :
    Stored chrono provider builder newThreadMemoryMode split (calls.map Prod.fst) ∧
      Stored chrono provider builder newThreadMemoryMode whole
        [(calls.map Prod.fst).flatten] := by
  have hflatten : (calls.map Prod.fst).flatten ≠ [] := by
    cases calls with
    | nil => exact absurd rfl hcalls
    | cons call calls =>
      rw [List.map_cons, List.flatten_cons]
      exact List.append_ne_nil_of_left_ne_nil (hne call List.mem_cons_self) _
  exact ⟨stored_of_applyBatches hfresh hcalls hne hsplit,
    stored_of_applyBatches hfresh (List.cons_ne_nil _ _)
      (fun call hmem => List.mem_singleton.1 hmem ▸ hflatten) hwhole⟩

/-- **Batches and one call.** What batches leave is what one call leaves with all of their items,
apart from the git fields, which keep the first value that a batch leaves. -/
theorem batches_leave {calls : List Call} {updatedAt : Option Int} (hfresh : Fresh db builder.id)
    (hne : ∀ call ∈ calls, call.1 ≠ [])
    (hsplit : applyBatches chrono provider builder newThreadMemoryMode db calls = some split)
    (hwhole : applyBatches chrono provider builder newThreadMemoryMode db
      [((calls.map Prod.fst).flatten, updatedAt)] = some whole) :
    BatchesLeave builder calls split whole := by
  by_cases hcalls : calls = []
  · subst hcalls
    obtain rfl := Option.some.inj hsplit
    obtain rfl := applyBatches_nil_items hwhole
    refine ⟨?_, ?_, fun _ _ => rfl⟩
    · rw [hfresh.row]
      rfl
    · rw [hfresh.row]
      exact fun row hrow => by cases hrow
  · obtain ⟨hpieces, hone⟩ := stored_split_whole hfresh hcalls hne hsplit hwhole
    have hbatches : calls.map Prod.fst ≠ [] := fun h => hcalls (List.map_eq_nil_iff.1 h)
    have hflatten : [(calls.map Prod.fst).flatten].flatten = (calls.map Prod.fst).flatten := by simp
    obtain ⟨updated, hrow⟩ := hpieces.row
    obtain ⟨updated', hrow'⟩ := hone.row
    refine ⟨?_, fun row hmem => ?_, fun htools position => ?_⟩
    · rw [hrow, hrow', Option.map_some, Option.map_some, ← firstRecorded_eq hbatches,
        ← firstRecorded_eq hbatches, ← firstRecorded_eq hbatches]
      rw [storedRow, storedRow, storedMetadata, storedMetadata, hflatten, List.length_map]
      rfl
    · rw [hrow'] at hmem
      obtain rfl := Option.some.inj hmem
      rw [storedRow, storedMetadata, hflatten]
      rfl
    · rw [hpieces.tools, hone.tools, List.findSome?_cons, List.findSome?_nil,
        tools_agree_iff.2 htools]
      cases (toolsOf (calls.map Prod.fst).flatten)[position]? <;> rfl

/-- Batches leave exactly what one call leaves when there is at most one, or the creation is read
as it is written, each git field has its last value at the first end of a batch where it has any,
and no batch has more tools than the list. -/
theorem batches_agree {calls : List Call} {updatedAt : Option Int} (hfresh : Fresh db builder.id)
    (hne : ∀ call ∈ calls, call.1 ≠ [])
    (hsplit : applyBatches chrono provider builder newThreadMemoryMode db calls = some split)
    (hwhole : applyBatches chrono provider builder newThreadMemoryMode db
      [((calls.map Prod.fst).flatten, updatedAt)] = some whole) :
    SameThread builder.id split whole ↔
      calls.length ≤ 1 ∨ Splits chrono builder (calls.map Prod.fst) := by
  cases calls with
  | nil =>
    obtain rfl := Option.some.inj hsplit
    obtain rfl := applyBatches_nil_items hwhole
    exact iff_of_true ⟨rfl, fun _ => rfl⟩ (Or.inl (Nat.zero_le _))
  | cons call calls =>
    obtain ⟨hpieces, hone⟩ := stored_split_whole hfresh (List.cons_ne_nil _ _) hne hsplit hwhole
    rw [sameThread_iff (List.cons_ne_nil _ _) hpieces hone]
    cases calls with
    | nil => exact iff_of_true (sameThread_single _) (Or.inl (le_refl _))
    | cons next calls =>
      have hlength : (call.1 :: (next :: calls).map Prod.fst).length - 1 = calls.length + 1 := by
        simp
      rw [hlength, columnMillis_iterate, or_iff_right (by simp)]
      exact ⟨fun ⟨hcreated, hsha, hbranch, hurl, htools⟩ => ⟨hcreated, hsha, hbranch, hurl, htools⟩,
        fun h => ⟨h.created, h.commitHash, h.branch, h.repositoryUrl, h.tools⟩⟩

end

/-! ## A forked rollout -/

section

def instant : Int := 1756720800000000000

def forkBuilder : ThreadMetadataBuilder where
  id := 1
  rolloutPath := "/sessions/rollout.jsonl".toList
  createdAt := instant
  updatedAt := none
  source := ⟨"cli".toList, none⟩
  agentNickname := none
  agentRole := none
  agentPath := none
  modelProvider := none
  cwd := "/work".toList
  cliVersion := none
  sandboxPolicy := "read-only".toList
  approvalMode := "on-request".toList
  archivedAt := none
  gitSha := none
  gitBranch := none
  gitOriginUrl := none

def metaLine (id : ThreadId) (dynamicTools : Option (List DynamicToolSpec))
    (git : Option GitInfo) : RolloutItem :=
  .sessionMeta {
    sessionMeta := {
      id
      source := "cli".toList
      agentNickname := none
      agentRole := none
      agentPath := none
      modelProvider := some "openai".toList
      cliVersion := "1".toList
      cwd := "/work".toList
      dynamicTools
      memoryMode := none }
    git }

def lookupTool : DynamicToolSpec := ⟨none, "lookup".toList, [], "{}".toList, false⟩

def hello : RolloutItem := .eventMsg (.userMessage ⟨"hello".toList, none, []⟩)

def emptyDb : StateDb := ⟨ThreadStore.new, ∅⟩

/-- Two lines of the thread in two batches, with the commits that were checked out. -/
def committedLines : List Call :=
  [([metaLine 1 none (some ⟨some "c1".toList, none, none⟩), hello], some instant),
    ([metaLine 1 none (some ⟨some "c2".toList, none, none⟩)], some instant)]

/-- The own line of a forked thread and then the line of the thread that it comes from. -/
def forkedLines : List Call :=
  [([metaLine 1 none none], some instant), ([metaLine 2 (some [lookupTool]) none], some instant)]

theorem fresh_emptyDb (id : ThreadId) : Fresh emptyDb id := ⟨rfl, fun _ => rfl⟩

theorem batches_leave_committedLines : ∃ split whole,
    applyBatches utc [] forkBuilder none emptyDb committedLines = some split ∧
      applyBatches utc [] forkBuilder none emptyDb
        [((committedLines.map Prod.fst).flatten, some instant)] = some whole ∧
      BatchesLeave forkBuilder committedLines split whole := by
  obtain ⟨split, hsplit⟩ : ∃ split, applyBatches utc [] forkBuilder none emptyDb committedLines =
      some split := Option.isSome_iff_exists.1 (by decide +kernel)
  obtain ⟨whole, hwhole⟩ : ∃ whole, applyBatches utc [] forkBuilder none emptyDb
      [((committedLines.map Prod.fst).flatten, some instant)] = some whole :=
    Option.isSome_iff_exists.1 (by decide +kernel)
  exact ⟨split, whole, hsplit, hwhole,
    batches_leave (fresh_emptyDb 1) (by decide) hsplit hwhole⟩

theorem batches_agree_committedLines : ∃ split whole,
    applyBatches utc [] forkBuilder none emptyDb committedLines = some split ∧
      applyBatches utc [] forkBuilder none emptyDb
        [((committedLines.map Prod.fst).flatten, some instant)] = some whole ∧
      (SameThread 1 split whole ↔
        committedLines.length ≤ 1 ∨ Splits utc forkBuilder (committedLines.map Prod.fst)) := by
  obtain ⟨split, hsplit⟩ : ∃ split, applyBatches utc [] forkBuilder none emptyDb committedLines =
      some split := Option.isSome_iff_exists.1 (by decide +kernel)
  obtain ⟨whole, hwhole⟩ : ∃ whole, applyBatches utc [] forkBuilder none emptyDb
      [((committedLines.map Prod.fst).flatten, some instant)] = some whole :=
    Option.isSome_iff_exists.1 (by decide +kernel)
  exact ⟨split, whole, hsplit, hwhole,
    batches_agree (fresh_emptyDb 1) (by decide) hsplit hwhole⟩

/-- The first batch leaves the first commit, and one call the last. -/
theorem committedLines_disagree : ∃ split whole,
    applyBatches utc [] forkBuilder none emptyDb committedLines = some split ∧
      applyBatches utc [] forkBuilder none emptyDb
        [((committedLines.map Prod.fst).flatten, some instant)] = some whole ∧
      ¬ SameThread 1 split whole := by
  have hpieces : (applyBatches utc [] forkBuilder none emptyDb committedLines).map
      (fun db => (db.store.threads.lookup 1).map ThreadRow.gitSha) =
        some (some (some "c1".toList)) := by decide +kernel
  have hone : (applyBatches utc [] forkBuilder none emptyDb
      [((committedLines.map Prod.fst).flatten, some instant)]).map
      (fun db => (db.store.threads.lookup 1).map ThreadRow.gitSha) =
        some (some (some "c2".toList)) := by decide +kernel
  obtain ⟨split, hsplit, hfirst⟩ := Option.map_eq_some_iff.1 hpieces
  obtain ⟨whole, hwhole, hlast⟩ := Option.map_eq_some_iff.1 hone
  refine ⟨split, whole, hsplit, hwhole, fun hsame => ?_⟩
  have hrows := congrArg (Option.map ThreadRow.gitSha) hsame.row
  rw [Option.map_map, Option.map_map] at hrows
  have hcommits := hfirst.symm.trans (hrows.trans hlast)
  exact absurd hcommits (by decide)

/-- The tools of the thread that was forked become those of the fork, where the lines come in two
batches. -/
example :
    (applyBatches utc [] forkBuilder none emptyDb forkedLines).map
        (fun db => db.dynamicTools.lookup (1, 0)) = some (some lookupTool) ∧
      (applyBatches utc [] forkBuilder none emptyDb
        [((forkedLines.map Prod.fst).flatten, some instant)]).map
        (fun db => db.dynamicTools.lookup (1, 0)) = some none := by
  constructor <;> decide +kernel

end

end Mcodex.Threads
