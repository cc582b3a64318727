import Mcodex.Lib.Text
import Mathlib.Data.List.Sort

/-!
# Listing the threads of the sessions directory

The rollout files lie in `sessions/YYYY/MM/DD`. A listing by creation walks the directories newest
first and stops at a full page; a listing by update collects all files and sorts them by their
modification times. Both skip the files up to a cursor, read the head of each later file, and leave
the time of the page's last thread as the next cursor. An instant is its nanoseconds since the
epoch. Left out are the fields of a thread that nothing reads: its preview, its agent, its commit
and its version.
-/

namespace Mcodex.Rollout.Listing

open Text

/-- The code of other packages: the formats of times and ids, and the comparison of paths on
disk. -/
structure Formats where
  /-- `Uuid::parse_str`. -/
  parseUuid : List Char → Option Nat
  /-- `PrimitiveDateTime::parse` with the format of the file names. -/
  parseTimestamp : List Char → Option Int
  /-- Year, month and day of an instant. -/
  date : Int → Nat × Nat × Nat
  formatRfc3339 : Int → Option (List Char)
  parseRfc3339 : List Char → Option Int
  pathsMatchAfterNormalization : List Char → List Char → Bool
  /-- Days do not run backwards. -/
  date_le : ∀ {t t'}, t ≤ t' → (date t).1 < (date t').1 ∨ (date t).1 = (date t').1 ∧
    ((date t).2.1 < (date t').2.1 ∨ (date t).2.1 = (date t').2.1 ∧ (date t).2.2 ≤ (date t').2.2)

/-! ## The files -/

structure SessionMeta where
  id : List Char
  timestamp : List Char
  cwd : List Char
  source : List Char
  modelProvider : Option (List Char)
  deriving DecidableEq, Repr

inductive RolloutItem where
  | sessionMeta (sessionMeta : SessionMeta)
  | responseItem
  | turnContext
  | compacted
  | userMessage
  | event
  deriving DecidableEq, Repr

structure RolloutLine where
  timestamp : List Char
  item : RolloutItem
  deriving DecidableEq, Repr

/-- A line of a rollout file as the listing finds it. -/
inductive Line where
  | blank
  | malformed
  | unreadable
  | parsed (line : RolloutLine)
  deriving DecidableEq, Repr

structure RolloutFile where
  name : List Char
  lines : List Line
  /-- The modification time, if the file system tells one. -/
  modified : Option Int
  deriving DecidableEq, Repr

/-- The directories of years, of months and of days, in the order in which they are read. -/
abbrev Day := List Char × List RolloutFile
abbrev Month := List Char × List Day
abbrev Year := List Char × List Month

/-! ## The head of a file -/

structure HeadTailSummary where
  sawSessionMeta : Bool
  sawUserEvent : Bool
  threadId : Option (List Char)
  cwd : Option (List Char)
  source : Option (List Char)
  modelProvider : Option (List Char)
  createdAt : Option (List Char)
  updatedAt : Option (List Char)
  deriving DecidableEq, Repr

namespace HeadTailSummary

def default : HeadTailSummary := ⟨false, false, none, none, none, none, none, none⟩

def read (summary : HeadTailSummary) (line : RolloutLine) : HeadTailSummary :=
  match line.item with
  | .sessionMeta sessionMeta =>
    if summary.sawSessionMeta then summary
    else { summary with
      source := some sessionMeta.source, modelProvider := sessionMeta.modelProvider,
      threadId := some sessionMeta.id, cwd := some sessionMeta.cwd,
      createdAt := some sessionMeta.timestamp, sawSessionMeta := true }
  | .responseItem => { summary with createdAt := summary.createdAt.or (some line.timestamp) }
  | .turnContext | .compacted | .event => summary
  | .userMessage => { summary with sawUserEvent := true }

end HeadTailSummary

def headRecordLimit : Nat := 10

def userEventScanLimit : Nat := 200

/-- The loop of `read_head_summary`. -/
def readHeadLines (headLimit : Nat) :
    List Line → Nat → HeadTailSummary → Option HeadTailSummary
  | [], _, summary => some summary
  | line :: lines, linesScanned, summary =>
    if linesScanned < headLimit || (summary.sawSessionMeta && !summary.sawUserEvent &&
        linesScanned < headLimit + userEventScanLimit) then
      match line with
      | .unreadable => none
      | .blank => readHeadLines headLimit lines linesScanned summary
      | .malformed => readHeadLines headLimit lines (linesScanned + 1) summary
      | .parsed line =>
        let summary := summary.read line
        if summary.sawSessionMeta && summary.sawUserEvent then some summary
        else readHeadLines headLimit lines (linesScanned + 1) summary
    else some summary

def readHeadSummary (file : RolloutFile) (headLimit : Nat) : Option HeadTailSummary :=
  readHeadLines headLimit file.lines 0 .default

/-! ## Filters -/

structure ThreadListConfig where
  allowedSources : List (List Char)
  modelProviders : Option (List (List Char))
  cwdFilters : Option (List (List Char))
  defaultProvider : List Char
  deriving DecidableEq, Repr

structure ProviderMatcher where
  filters : List (List Char)
  matchesDefaultProvider : Bool
  deriving DecidableEq, Repr

namespace ProviderMatcher

def new (filters : List (List Char)) (defaultProvider : List Char) : Option ProviderMatcher :=
  if filters.isEmpty then none else some ⟨filters, filters.contains defaultProvider⟩

def accepts (matcher : ProviderMatcher) : Option (List Char) → Bool
  | some provider => matcher.filters.contains provider
  | none => matcher.matchesDefaultProvider

end ProviderMatcher

structure ThreadItem where
  path : List (List Char)
  threadId : Option (List Char)
  cwd : Option (List Char)
  source : Option (List Char)
  modelProvider : Option (List Char)
  createdAt : Option (List Char)
  updatedAt : Option (List Char)
  deriving DecidableEq, Repr

def buildThreadItem (formats : Formats) (path : List (List Char)) (file : RolloutFile)
    (allowedSources : List (List Char)) (providerMatcher : Option ProviderMatcher)
    (cwdFilters : Option (List (List Char))) (updatedAt : Option (List Char)) :
    Option ThreadItem :=
  let summary := (readHeadSummary file headRecordLimit).getD .default
  if !allowedSources.isEmpty && !summary.source.any allowedSources.contains then none
  else if providerMatcher.any fun matcher => !matcher.accepts summary.modelProvider then none
  else if cwdFilters.any fun filters => !summary.cwd.any fun cwd =>
      filters.any (formats.pathsMatchAfterNormalization cwd) then none
  else if summary.sawSessionMeta && summary.sawUserEvent then
    some {
      path, threadId := summary.threadId, cwd := summary.cwd, source := summary.source,
      modelProvider := summary.modelProvider, createdAt := summary.createdAt,
      updatedAt := summary.updatedAt.or (updatedAt.or summary.createdAt) }
  else none

def truncateToMillis (t : Int) : Int := t / 1000000 * 1000000

def fileModifiedTime (file : RolloutFile) : Option Int := file.modified.map truncateToMillis

/-! ## File names and directories -/

/-- `str::strip_suffix`. -/
def stripSuffix (suffix s : List Char) : Option (List Char) :=
  if suffix.isSuffixOf s then some (s.take (s.length - suffix.length)) else none

/-- The text before the last dash that an id follows, and the id. -/
def findUuid (parseUuid : List Char → Option Nat) (core : List Char) :
    Option (List Char × Nat) :=
  (((List.range core.length).filter fun i => core[i]? = some '-').reverse).findSome? fun i =>
    (parseUuid (core.drop (i + 1))).map fun uuid => (core.take i, uuid)

def parseTimestampUuidFromFilename (formats : Formats) (name : List Char) : Option (Int × Nat) := do
  let core ← stripPrefix "rollout-".toList name
  let core ← stripSuffix ".jsonl".toList core
  let (tsStr, uuid) ← findUuid formats.parseUuid core
  let ts ← formats.parseTimestamp tsStr
  return (ts, uuid)

/-- `str::parse` of an unsigned number with a largest value. -/
def parseUnsigned (max : Nat) (s : List Char) : Option Nat :=
  let digits := if s.head? = some '+' then s.tail else s
  let value := digits.foldl (fun n c => 10 * n + (c.toNat - '0'.toNat)) 0
  if digits ≠ [] && digits.all isAsciiDigit && value ≤ max then some value else none

def u16 : List Char → Option Nat := parseUnsigned 65535

def u8 : List Char → Option Nat := parseUnsigned 255

/-- The directories whose names are numbers, the largest first. -/
def collectDirsDesc {α : Type} (parse : List Char → Option Nat) (dirs : List (List Char × α)) :
    List (Nat × List Char × α) :=
  (dirs.filterMap fun dir => (parse dir.1).map fun n => (n, dir)).insertionSort
    fun dir dir' => dir'.1 ≤ dir.1

/-- A file that a walk visits. -/
structure Visited where
  ts : Int
  id : Nat
  path : List (List Char)
  file : RolloutFile
  deriving DecidableEq, Repr

/-- `(Reverse(ts), Reverse(id))` in order. -/
def newestFirst (a b : Int × Nat) : Prop := b.1 < a.1 ∨ b.1 = a.1 ∧ b.2 ≤ a.2

instance : DecidableRel newestFirst := fun a b =>
  inferInstanceAs (Decidable (b.1 < a.1 ∨ b.1 = a.1 ∧ b.2 ≤ a.2))

def collectRolloutDayFiles (formats : Formats) (dayPath : List (List Char))
    (files : List RolloutFile) : List Visited :=
  (files.filterMap fun file =>
    if !("rollout-".toList.isPrefixOf file.name) || !(".jsonl".toList.isSuffixOf file.name) then
      none
    else (parseTimestampUuidFromFilename formats file.name).map fun (ts, id) =>
      ⟨ts, id, dayPath ++ [file.name], file⟩).insertionSort
    fun a b => newestFirst (a.ts, a.id) (b.ts, b.id)

/-! ## The walk -/

def maxScanFiles : Nat := 10000

/-- What a walk leaves: the visitor, the files scanned, and whether it broke off. -/
structure Walk (σ : Type) where
  visitor : σ
  scanned : Nat
  stopped : Bool

section
variable {σ α : Type}

/-- The files of a day. The visitor is told how many were scanned, and may break off. -/
def walkFiles (visit : σ → Visited → Nat → σ × Bool) : List Visited → Nat → σ → Walk σ
  | [], scanned, visitor => ⟨visitor, scanned, false⟩
  | file :: files, scanned, visitor =>
    if maxScanFiles < scanned + 1 then ⟨visitor, scanned + 1, true⟩
    else
      match visit visitor file (scanned + 1) with
      | (visitor, true) => ⟨visitor, scanned + 1, true⟩
      | (visitor, false) => walkFiles visit files (scanned + 1) visitor

/-- The directories of a level. -/
def walkDirs (walk : α → Nat → σ → Walk σ) : List α → Nat → σ → Walk σ
  | [], scanned, visitor => ⟨visitor, scanned, false⟩
  | dir :: dirs, scanned, visitor =>
    if maxScanFiles ≤ scanned then ⟨visitor, scanned, true⟩
    else
      let walked := walk dir scanned visitor
      if walked.stopped then walked else walkDirs walk dirs walked.scanned walked.visitor

def walkRolloutFiles (formats : Formats) (visit : σ → Visited → Nat → σ × Bool)
    (root : List Year) (visitor : σ) : Walk σ :=
  walkDirs (fun (_, yearName, months) =>
    walkDirs (fun (_, monthName, days) =>
      walkDirs (fun (_, dayName, files) =>
        walkFiles visit (collectRolloutDayFiles formats [yearName, monthName, dayName] files))
        (collectDirsDesc u8 days))
      (collectDirsDesc u8 months))
    (collectDirsDesc u16 root) 0 visitor

end

/-! ## Pages -/

inductive ThreadSortKey where
  | createdAt
  | updatedAt
  deriving DecidableEq, Repr

/-- The time up to which files are skipped, and whether the listing passed it. -/
structure AnchorState where
  ts : Int
  passed : Bool
  deriving DecidableEq, Repr

namespace AnchorState

def new : Option Int → AnchorState
  | some cursor => ⟨cursor, false⟩
  | none => ⟨0, true⟩

def shouldSkip (state : AnchorState) (ts : Int) : AnchorState × Bool :=
  if state.passed then (state, false)
  else if ts < state.ts then ({ state with passed := true }, false)
  else (state, true)

end AnchorState

structure ThreadsPage where
  items : List ThreadItem
  nextCursor : Option Int
  numScannedFiles : Nat
  reachedScanCap : Bool
  deriving DecidableEq, Repr

/-- The threads found, the anchor, and whether more would match. -/
structure PageState where
  items : List ThreadItem
  anchor : AnchorState
  moreMatchesAvailable : Bool
  deriving DecidableEq, Repr

section
variable (formats : Formats) (pageSize : Nat) (config : ThreadListConfig)

def ThreadListConfig.providerMatcher : Option ProviderMatcher :=
  config.modelProviders.bind fun filters => ProviderMatcher.new filters config.defaultProvider

/-- The thread of a file, as the loops ask for it. -/
def threadItem (visited : Visited) : Option ThreadItem :=
  buildThreadItem formats visited.path visited.file config.allowedSources config.providerMatcher
    config.cwdFilters ((fileModifiedTime visited.file).bind formats.formatRfc3339)

/-- What both loops do with a file: skip it, stop at a full page, or take its thread. -/
def consider (ts : Int) (state : PageState) (visited : Visited) : PageState × Bool :=
  let (anchor, skip) := state.anchor.shouldSkip ts
  let state := { state with anchor }
  if skip then (state, false)
  else if state.items.length = pageSize then ({ state with moreMatchesAvailable := true }, true)
  else ({ state with items := state.items ++ (threadItem formats config visited).toList }, false)

/-- `FilesByCreatedAtVisitor::visit`. -/
def visitByCreatedAt (state : PageState) (visited : Visited) (scanned : Nat) : PageState × Bool :=
  if maxScanFiles ≤ scanned && pageSize ≤ state.items.length then
    ({ state with moreMatchesAvailable := true }, true)
  else consider formats pageSize config visited.ts state visited

/-- `FilesByUpdatedAtVisitor::visit`. -/
def visitByUpdatedAt (candidates : List Visited) (visited : Visited) (_ : Nat) :
    List Visited × Bool :=
  (candidates ++ [visited], false)

def updatedAtOrEpoch (visited : Visited) : Int := (fileModifiedTime visited.file).getD 0

/-- The loop over the candidates, which stops at a full page. -/
def pageCandidates : List Visited → PageState → PageState
  | [], state => state
  | candidate :: candidates, state =>
    match consider formats pageSize config (updatedAtOrEpoch candidate) state candidate with
    | (state, true) => state
    | (state, false) => pageCandidates candidates state

def buildNextCursor (items : List ThreadItem) (sortKey : ThreadSortKey) : Option Int := do
  let last ← items.getLast?
  let fileName ← last.path.getLast?
  let (createdTs, _) ← parseTimestampUuidFromFilename formats fileName
  match sortKey with
  | .createdAt => return createdTs
  | .updatedAt => do
    let updatedAt ← last.updatedAt
    formats.parseRfc3339 updatedAt

/-- What both listings return for the threads that they found. -/
def threadsPage (state : PageState) (scannedFiles : Nat) (sortKey : ThreadSortKey) :
    ThreadsPage :=
  let reachedScanCap := decide (maxScanFiles ≤ scannedFiles)
  let more := state.moreMatchesAvailable || (reachedScanCap && !state.items.isEmpty)
  { items := state.items
    nextCursor := if more then buildNextCursor formats state.items sortKey else none
    numScannedFiles := scannedFiles
    reachedScanCap }

def traverseDirectoriesForPathsCreated (root : List Year) (anchor : Option Int) : ThreadsPage :=
  let walked := walkRolloutFiles formats (visitByCreatedAt formats pageSize config) root
    ⟨[], .new anchor, false⟩
  threadsPage formats walked.visitor walked.scanned .createdAt

def traverseDirectoriesForPathsUpdated (root : List Year) (anchor : Option Int) : ThreadsPage :=
  let walked := walkRolloutFiles formats visitByUpdatedAt root []
  let candidates := walked.visitor.insertionSort fun a b =>
    newestFirst (updatedAtOrEpoch a, a.id) (updatedAtOrEpoch b, b.id)
  threadsPage formats (pageCandidates formats pageSize config candidates ⟨[], .new anchor, false⟩)
    walked.scanned .updatedAt

/-- `get_threads`. The sessions directory need not exist. -/
def getThreads (root : Option (List Year)) (cursor : Option Int) (sortKey : ThreadSortKey) :
    ThreadsPage :=
  match root with
  | none => ⟨[], none, 0, false⟩
  | some root =>
    match sortKey with
    | .createdAt => traverseDirectoriesForPathsCreated formats pageSize config root cursor
    | .updatedAt => traverseDirectoriesForPathsUpdated formats pageSize config root cursor

end

end Mcodex.Rollout.Listing
