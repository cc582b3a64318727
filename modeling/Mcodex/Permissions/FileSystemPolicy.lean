import Mcodex.Lib.Dedup
import Mcodex.Lib.Precedence
import Mcodex.Lib.Text
import Mcodex.Permissions.Path

/-!
# Filesystem sandbox policies

The entries of a restricted policy give an access to a path, a glob pattern or a special path. What
access a path has is decided by the most specific entry; a sandbox is given lists of roots with
carve-outs instead. Both are computed here as the source computes them.
-/

namespace Mcodex.Permissions

open Dedup Ranking

inductive NetworkSandboxPolicy
  | restricted
  | enabled
  deriving DecidableEq

def NetworkSandboxPolicy.isEnabled (policy : NetworkSandboxPolicy) : Bool := policy = .enabled

inductive FileSystemAccessMode
  | read
  | write
  | none
  deriving DecidableEq

namespace FileSystemAccessMode

/-- The conflict precedence: `none` beats `write`, and `write` beats `read`. -/
def rank : FileSystemAccessMode → Nat
  | read => 0
  | write => 1
  | none => 2

theorem rank_injective : Function.Injective rank := by
  intro access access' h
  cases access <;> cases access' <;> first | rfl | cases h

instance : LinearOrder FileSystemAccessMode := LinearOrder.lift' rank rank_injective

def canRead (access : FileSystemAccessMode) : Bool := access ≠ none

def canWrite (access : FileSystemAccessMode) : Bool := access = write

theorem canRead_iff {access : FileSystemAccessMode} : access.canRead ↔ access ≠ none :=
  decide_eq_true_iff

theorem canWrite_iff {access : FileSystemAccessMode} : access.canWrite ↔ access = write :=
  decide_eq_true_iff

theorem le_none (access : FileSystemAccessMode) : access ≤ none := by
  cases access <;> decide

theorem read_le (access : FileSystemAccessMode) : read ≤ access := by
  cases access <;> decide

theorem eq_none_of_le {access : FileSystemAccessMode} (h : none ≤ access) : access = none :=
  le_antisymm access.le_none h

end FileSystemAccessMode

inductive FileSystemSpecialPath
  | root
  | minimal
  | currentWorkingDirectory
  | projectRoots (subpath : Option PathBuf)
  | tmpdir
  | slashTmp
  | unknown (path : List Char) (subpath : Option PathBuf)
  deriving DecidableEq

inductive FileSystemPath
  | path (path : AbsolutePathBuf)
  | globPattern (pattern : List Char)
  | special (value : FileSystemSpecialPath)
  deriving DecidableEq

structure FileSystemSandboxEntry where
  path : FileSystemPath
  access : FileSystemAccessMode
  deriving DecidableEq

inductive FileSystemSandboxKind
  | restricted
  | unrestricted
  | externalSandbox
  deriving DecidableEq

structure FileSystemSandboxPolicy where
  kind : FileSystemSandboxKind
  globScanMaxDepth : Option Nat
  entries : List FileSystemSandboxEntry
  deriving DecidableEq

structure ResolvedFileSystemEntry where
  path : AbsolutePathBuf
  access : FileSystemAccessMode
  deriving DecidableEq

/-- A writable root with the subpaths that stay read-only. -/
structure WritableRoot where
  root : AbsolutePathBuf
  readOnlySubpaths : List AbsolutePathBuf
  deriving DecidableEq

def WritableRoot.isPathWritable (root : WritableRoot) (path : AbsolutePathBuf) : Bool :=
  if !path.startsWith root.root then false
  else !root.readOnlySubpaths.any path.startsWith

theorem WritableRoot.isPathWritable_iff {root : WritableRoot} {path : AbsolutePathBuf} :
    root.isPathWritable path ↔ path.startsWith root.root ∧
      ∀ subpath ∈ root.readOnlySubpaths, ¬ path.startsWith subpath := by
  rw [isPathWritable]
  cases path.startsWith root.root <;> simp

/-! ## Targets of entries -/

def absoluteRootPathForCwd (_cwd : AbsolutePathBuf) : AbsolutePathBuf := .root

namespace Host

variable (host : Host)

def resolveFileSystemSpecialPath (cwd : AbsolutePathBuf) :
    FileSystemSpecialPath → Option AbsolutePathBuf
  | .root | .minimal | .unknown _ _ => none
  | .currentWorkingDirectory => some cwd
  | .projectRoots (some subpath) => some (host.resolvePathAgainstBase subpath cwd)
  | .projectRoots none => some cwd
  | .tmpdir => host.tmpdir
  | .slashTmp => if host.isDir .slashTmp then some .slashTmp else none

def resolveFileSystemPath (cwd : AbsolutePathBuf) : FileSystemPath → Option AbsolutePathBuf
  | .path path => some path
  | .globPattern _ => none
  | .special value => host.resolveFileSystemSpecialPath cwd value

def resolveEntryPath (cwd : AbsolutePathBuf) : FileSystemPath → Option AbsolutePathBuf
  | .special .root => some (absoluteRootPathForCwd cwd)
  | path => host.resolveFileSystemPath cwd path

end Host

def specialPathsShareTarget : FileSystemSpecialPath → FileSystemSpecialPath → Bool
  | .root, .root => true
  | .minimal, .minimal => true
  | .currentWorkingDirectory, .currentWorkingDirectory => true
  | .tmpdir, .tmpdir => true
  | .slashTmp, .slashTmp => true
  | .currentWorkingDirectory, .projectRoots none => true
  | .projectRoots none, .currentWorkingDirectory => true
  | .projectRoots left, .projectRoots right => left = right
  | .unknown left leftSubpath, .unknown right rightSubpath =>
    left = right ∧ leftSubpath = rightSubpath
  | _, _ => false

/-- Only special paths whose meaning is stable without a cwd are folded. -/
def specialPathMatchesAbsolutePath (value : FileSystemSpecialPath) (path : AbsolutePathBuf) :
    Bool :=
  match value with
  | .root => path.parent.isNone
  | .slashTmp => path = .slashTmp
  | _ => false

def fileSystemPathsShareTarget : FileSystemPath → FileSystemPath → Bool
  | .path left, .path right => left = right
  | .special left, .special right => specialPathsShareTarget left right
  | .path path, .special value => specialPathMatchesAbsolutePath value path
  | .special value, .path path => specialPathMatchesAbsolutePath value path
  | .globPattern left, .globPattern right => left = right
  | .globPattern _, _ => false
  | _, .globPattern _ => false

/-- The first of equal paths stays. -/
def dedupAbsolutePaths (paths : List AbsolutePathBuf) : List AbsolutePathBuf := appendNew [] paths

theorem mem_dedupAbsolutePaths {paths : List AbsolutePathBuf} {path : AbsolutePathBuf} :
    path ∈ dedupAbsolutePaths paths ↔ path ∈ paths := by
  rw [dedupAbsolutePaths, mem_appendNew]
  simp

/-! ## The protected subpaths of a writable root -/

namespace Host

variable (host : Host)

def resolveGitdirFromFile (dotGit : AbsolutePathBuf) : Option AbsolutePathBuf := do
  let contents ← host.readToString dotGit
  let trimmed := Text.trim contents
  let gitdirRaw := Text.trim ((trimmed.dropWhile (· ≠ ':')).drop 1)
  -- Without a colon there is no pointer, and nothing is left of the text either.
  if gitdirRaw = [] then none
  else
    let base ← dotGit.parent
    let gitdirPath := host.resolvePathAgainstBase (.ofText gitdirRaw) base
    if host.fileExists gitdirPath then some gitdirPath else none

def isGitPointerFile (path : AbsolutePathBuf) : Bool :=
  host.isFile path ∧ path.names.getLast? = some ".git".toList

def defaultReadOnlySubpathsForWritableRoot (writableRoot : AbsolutePathBuf)
    (protectMissingDotCodex : Bool) : List AbsolutePathBuf :=
  let topLevelGit := host.join writableRoot ".git".toList
  let git :=
    if host.isDir topLevelGit ∨ host.isFile topLevelGit then
      (if host.isFile topLevelGit ∧ host.isGitPointerFile topLevelGit then
        (host.resolveGitdirFromFile topLevelGit).toList else []) ++ [topLevelGit]
    else []
  let topLevelAgents := host.join writableRoot ".agents".toList
  let agents := if host.isDir topLevelAgents then [topLevelAgents] else []
  let topLevelCodex := host.join writableRoot ".codex".toList
  let codex :=
    if protectMissingDotCodex ∨ host.isDir topLevelCodex then [topLevelCodex] else []
  dedupAbsolutePaths (git ++ agents ++ codex)

end Host

def hasExplicitResolvedPathEntry (entries : List ResolvedFileSystemEntry)
    (path : AbsolutePathBuf) : Bool := entries.any (·.path = path)

/-- Orders resolved entries so the most specific path wins first. -/
def resolvedEntryPrecedence (entry : ResolvedFileSystemEntry) : Nat ×ₗ FileSystemAccessMode :=
  toLex (entry.path.componentsCount, entry.access)

/-! ## The policy -/

namespace FileSystemSandboxPolicy

def unrestricted : FileSystemSandboxPolicy := ⟨.unrestricted, none, []⟩

def externalSandbox : FileSystemSandboxPolicy := ⟨.externalSandbox, none, []⟩

def restricted (entries : List FileSystemSandboxEntry) : FileSystemSandboxPolicy :=
  ⟨.restricted, none, entries⟩

def hasRootAccess (policy : FileSystemSandboxPolicy)
    (predicate : FileSystemAccessMode → Bool) : Bool :=
  policy.kind = .restricted ∧
    policy.entries.any fun entry => entry.path = .special .root ∧ predicate entry.access

def hasDeniedReadRestrictions (policy : FileSystemSandboxPolicy) : Bool :=
  policy.kind = .restricted ∧ policy.entries.any (·.access = .none)

def hasSameTargetWriteOverride (policy : FileSystemSandboxPolicy)
    (entry : FileSystemSandboxEntry) : Bool :=
  policy.entries.any fun candidate =>
    candidate.access.canWrite ∧ entry.access < candidate.access ∧
      fileSystemPathsShareTarget candidate.path entry.path

/-- The entry reduces a broader write grant to the whole disk. -/
def narrowsWrite (policy : FileSystemSandboxPolicy) (entry : FileSystemSandboxEntry) : Bool :=
  if entry.access.canWrite then false
  else
    match entry.path with
    | .path _ => !policy.hasSameTargetWriteOverride entry
    | .globPattern _ => true
    | .special .root => entry.access = .none
    | .special .minimal => false
    | .special (.unknown _ _) => false
    | .special _ => !policy.hasSameTargetWriteOverride entry

def hasWriteNarrowingEntries (policy : FileSystemSandboxPolicy) : Bool :=
  policy.kind = .restricted ∧ policy.entries.any policy.narrowsWrite

def hasFullDiskReadAccess (policy : FileSystemSandboxPolicy) : Bool :=
  match policy.kind with
  | .unrestricted | .externalSandbox => true
  | .restricted =>
    policy.hasRootAccess FileSystemAccessMode.canRead && !policy.hasDeniedReadRestrictions

def hasFullDiskWriteAccess (policy : FileSystemSandboxPolicy) : Bool :=
  match policy.kind with
  | .unrestricted | .externalSandbox => true
  | .restricted =>
    policy.hasRootAccess FileSystemAccessMode.canWrite && !policy.hasWriteNarrowingEntries

def includePlatformDefaults (policy : FileSystemSandboxPolicy) : Bool :=
  !policy.hasFullDiskReadAccess && policy.kind = .restricted &&
    policy.entries.any fun entry => entry.path = .special .minimal ∧ entry.access.canRead

variable (host : Host) (policy : FileSystemSandboxPolicy) (cwd : AbsolutePathBuf)

def resolvedEntriesWithCwd : List ResolvedFileSystemEntry :=
  policy.entries.filterMap fun entry =>
    (host.resolveEntryPath cwd entry.path).map (⟨·, entry.access⟩)

def resolveAccessWithCwd (path : AbsolutePathBuf) : FileSystemAccessMode :=
  match policy.kind with
  | .unrestricted | .externalSandbox => .write
  | .restricted =>
    ((maxByKey resolvedEntryPrecedence
      ((policy.resolvedEntriesWithCwd host cwd).filter (path.startsWith ·.path))).map
        (·.access)).getD .none

def canReadPathWithCwd (path : AbsolutePathBuf) : Bool :=
  (policy.resolveAccessWithCwd host cwd path).canRead

def canWritePathWithCwd (path : AbsolutePathBuf) : Bool :=
  (policy.resolveAccessWithCwd host cwd path).canWrite

def getReadableRootsWithCwd : List AbsolutePathBuf :=
  if policy.hasFullDiskReadAccess then []
  else
    dedupAbsolutePaths <|
      (((policy.resolvedEntriesWithCwd host cwd).filter (·.access.canRead)).filter fun entry =>
        policy.canReadPathWithCwd host cwd entry.path).map (·.path)

/-- The path by which an entry that is not writable is carved out of a writable root. -/
def carveoutPath (root : AbsolutePathBuf) (entry : ResolvedFileSystemEntry) :
    Option AbsolutePathBuf :=
  let effectivePath := normalizeEffectiveAbsolutePath entry.path
  -- Nested paths keep the way they are written. With no symbolic links the raw writable roots are
  -- the root itself, so a path outside of it has no suffix to take over.
  let rawCarveoutPath :=
    if root.parent.isSome ∧ entry.path ≠ root ∧ entry.path.startsWith root then some entry.path
    else none
  match rawCarveoutPath with
  | some path => some path
  | none =>
    if effectivePath = root ∨ !effectivePath.startsWith root then none else some effectivePath

def readOnlySubpaths (root : AbsolutePathBuf) : List AbsolutePathBuf :=
  let resolvedEntries := policy.resolvedEntriesWithCwd host cwd
  let protectMissingDotCodex : Bool := normalizeEffectiveAbsolutePath cwd = root
  let defaults :=
    (host.defaultReadOnlySubpathsForWritableRoot root protectMissingDotCodex).filter
      (!hasExplicitResolvedPathEntry resolvedEntries ·)
  let carveouts :=
    ((resolvedEntries.filter (!·.access.canWrite)).filter
      (!policy.canWritePathWithCwd host cwd ·.path)).filterMap (carveoutPath root)
  dedupAbsolutePaths (defaults ++ carveouts)

def getWritableRootsWithCwd : List WritableRoot :=
  if policy.hasFullDiskWriteAccess then []
  else
    (dedupAbsolutePaths <|
      (((policy.resolvedEntriesWithCwd host cwd).filter (·.access.canWrite)).filter
        (policy.canWritePathWithCwd host cwd ·.path)).map (·.path)).map fun root =>
      ⟨root, policy.readOnlySubpaths host cwd root⟩

def getUnreadableRootsWithCwd : List AbsolutePathBuf :=
  if policy.kind ≠ .restricted then []
  else
    dedupAbsolutePaths <|
      ((((policy.resolvedEntriesWithCwd host cwd).filter (·.access = .none)).filter
        (!policy.canReadPathWithCwd host cwd ·.path)).filter
          (absoluteRootPathForCwd cwd ≠ ·.path)).map (·.path)

def globPatternOf : FileSystemPath → Option (List Char)
  | .globPattern pattern => some pattern
  | .path _ | .special _ => none

/-- The patterns, sorted and without repetition. -/
def getUnreadableGlobsWithCwd : List (List Char) :=
  if policy.kind ≠ .restricted then []
  else
    let patterns := (policy.entries.filter (·.access = .none)).filterMap (globPatternOf ·.path)
    let resolved := patterns.map fun pattern =>
      (host.resolvePathAgainstBase (.ofText pattern) cwd).text
    -- Equal patterns are neighbours once they are sorted.
    appendNew [] <| resolved.insertionSort fun left right =>
      !right.lex left fun c c' => c.toNat.blt c'.toNat

end FileSystemSandboxPolicy

end Mcodex.Permissions
