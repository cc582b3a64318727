import Mcodex.Permissions.FileSystemPolicy

/-!
# Additional permission profiles

A profile asks for permissions beyond the sandbox policy, or grants them. A grant is cut down to
what was requested, entry by entry; deny entries stay that may constrain what is accepted. Requests
that stored grants already cover are preapproved. Compiling a glob pattern is left to the host's
library, here a parameter that gives a matcher for a pattern that is well formed.
-/

namespace Mcodex.Permissions

open Dedup

/-- `NonZeroUsize`. -/
abbrev NonZero : Type := { depth : Nat // depth ≠ 0 }

def NonZero.new (depth : Nat) : Option NonZero := if h : depth ≠ 0 then some ⟨depth, h⟩ else none

theorem NonZero.new_eq_some {depth : Nat} {nonZero : NonZero} (h : NonZero.new depth = some nonZero) :
    nonZero.val = depth := by
  rw [NonZero.new] at h
  split at h
  · cases h
    rfl
  · cases h

structure NetworkPermissions where
  enabled : Option Bool
  deriving DecidableEq

structure FileSystemPermissions where
  entries : List FileSystemSandboxEntry
  globScanMaxDepth : Option NonZero
  deriving DecidableEq

structure AdditionalPermissionProfile where
  network : Option NetworkPermissions
  fileSystem : Option FileSystemPermissions
  deriving DecidableEq

def FileSystemPermissions.default : FileSystemPermissions := ⟨[], none⟩

def FileSystemPermissions.isEmpty (permissions : FileSystemPermissions) : Bool :=
  permissions.entries = []

def AdditionalPermissionProfile.isEmpty (profile : AdditionalPermissionProfile) : Bool :=
  profile.network.isNone && profile.fileSystem.isNone

/-- The host, and `build_glob_matcher`. -/
structure Machine extends Host where
  buildGlobMatcher : List Char → Option (AbsolutePathBuf → Bool)

variable (machine : Machine) (cwd : AbsolutePathBuf)

/-! ## Denied reads -/

/-- Runtime matcher for read-deny entries. Without symbolic links a path is the only candidate of
its own. -/
structure ReadDenyMatcher where
  deniedCandidates : List AbsolutePathBuf
  denyReadMatchers : List (AbsolutePathBuf → Bool)
  invalidPattern : Bool

def ReadDenyMatcher.new (policy : FileSystemSandboxPolicy) : Option ReadDenyMatcher :=
  if !policy.hasDeniedReadRestrictions then none
  else
    let patterns := policy.getUnreadableGlobsWithCwd machine.toHost cwd
    some
      { deniedCandidates := policy.getUnreadableRootsWithCwd machine.toHost cwd
        denyReadMatchers := patterns.filterMap machine.buildGlobMatcher
        invalidPattern := patterns.any (machine.buildGlobMatcher · |>.isNone) }

def ReadDenyMatcher.isReadDenied (matcher : ReadDenyMatcher) (path : AbsolutePathBuf) : Bool :=
  if matcher.invalidPattern then true
  else if matcher.deniedCandidates.any fun denied => path = denied ∨ path.startsWith denied then
    true
  else matcher.denyReadMatchers.any (· path)

/-! ## Merging -/

def mergePermissionEntries (base permissions : List FileSystemSandboxEntry) :
    List FileSystemSandboxEntry := appendNew [] (base ++ permissions)

inductive GlobScanDepth
  | bounded (depth : Nat)
  | unbounded
  deriving DecidableEq

def isDenyGlob (entry : FileSystemSandboxEntry) : Bool :=
  entry.access = .none && (FileSystemSandboxPolicy.globPatternOf entry.path).isSome

def effectiveGlobScanDepth (entries : List FileSystemSandboxEntry) (depth : Option Nat) :
    Option GlobScanDepth :=
  if entries.any isDenyGlob then
    some (match depth with
      | some depth => .bounded depth
      | none => .unbounded)
  else none

def mergeGlobScanMaxDepth (leftEntries : List FileSystemSandboxEntry) (leftDepth : Option Nat)
    (rightEntries : List FileSystemSandboxEntry) (rightDepth : Option Nat) : Option Nat :=
  match effectiveGlobScanDepth leftEntries leftDepth,
    effectiveGlobScanDepth rightEntries rightDepth with
  | some .unbounded, _ => none
  | _, some .unbounded => none
  | some (.bounded left), some (.bounded right) => some (max left right)
  | some (.bounded depth), none => some depth
  | none, some (.bounded depth) => some depth
  | none, none => none

def mergeNetwork : Option NetworkPermissions → Option NetworkPermissions →
    Option NetworkPermissions
  | some ⟨some true⟩, _ => some ⟨some true⟩
  | _, some ⟨some true⟩ => some ⟨some true⟩
  | _, _ => none

def mergeFileSystem : Option FileSystemPermissions → Option FileSystemPermissions →
    Option FileSystemPermissions
  | some base, some permissions =>
    (some
      { entries := mergePermissionEntries base.entries permissions.entries
        globScanMaxDepth := (mergeGlobScanMaxDepth base.entries
          (base.globScanMaxDepth.map (·.val)) permissions.entries
          (permissions.globScanMaxDepth.map (·.val))).bind NonZero.new }).filter
      fun fileSystem : FileSystemPermissions => !fileSystem.isEmpty
  | some base, none => some base
  | none, some permissions => some permissions
  | none, none => none

def mergePermissionProfiles (base permissions : Option AdditionalPermissionProfile) :
    Option AdditionalPermissionProfile :=
  match permissions with
  | none => base
  | some permissions =>
    match base with
    | some base =>
      (some (AdditionalPermissionProfile.mk (mergeNetwork base.network permissions.network)
        (mergeFileSystem base.fileSystem permissions.fileSystem))).filter (!·.isEmpty)
    | none => (some permissions).filter (!·.isEmpty)

theorem mergeFileSystem_some (base permissions : FileSystemPermissions) :
    mergeFileSystem (some base) (some permissions) =
      (some (FileSystemPermissions.mk (mergePermissionEntries base.entries permissions.entries)
        ((mergeGlobScanMaxDepth base.entries (base.globScanMaxDepth.map (·.val))
          permissions.entries (permissions.globScanMaxDepth.map (·.val))).bind
            NonZero.new))).filter fun fileSystem : FileSystemPermissions => !fileSystem.isEmpty :=
  rfl

theorem mergePermissionProfiles_some (base permissions : AdditionalPermissionProfile) :
    mergePermissionProfiles (some base) (some permissions) =
      (some (AdditionalPermissionProfile.mk (mergeNetwork base.network permissions.network)
        (mergeFileSystem base.fileSystem permissions.fileSystem))).filter (!·.isEmpty) := rfl

/-! ## Cutting a grant down to the request -/

def resolvePermissionPath : FileSystemPath → Option AbsolutePathBuf
  | .path path => some path
  | .globPattern _ => none
  | .special .root => some .root
  | .special .currentWorkingDirectory => some cwd
  | .special (.projectRoots (some subpath)) => some (machine.resolvePathAgainstBase subpath cwd)
  | .special (.projectRoots none) => some cwd
  | .special .tmpdir => machine.tmpdir
  | .special .slashTmp => if machine.isDir .slashTmp then some .slashTmp else none
  | .special .minimal => none
  | .special (.unknown _ _) => none

def accessCovers (requested granted : FileSystemAccessMode) : Bool :=
  match granted with
  | .read => requested.canRead
  | .write => requested.canWrite
  | .none => false

def grantedFileSystemEntryWithinRequest (requested : List FileSystemSandboxEntry)
    (requestedPolicy : FileSystemSandboxPolicy)
    (requestedReadDenyMatcher : Option ReadDenyMatcher) (grantedEntry : FileSystemSandboxEntry) :
    Bool :=
  if !grantedEntry.access.canRead then false
  else
    match resolvePermissionPath machine cwd grantedEntry.path with
    | some path =>
      if requestedReadDenyMatcher.any (·.isReadDenied path) then false
      else accessCovers (requestedPolicy.resolveAccessWithCwd machine.toHost cwd path)
        grantedEntry.access
    | none => requested.any fun requestedEntry =>
        accessCovers requestedEntry.access grantedEntry.access &&
          requestedEntry.path = grantedEntry.path

def materializeCwdDependentEntry (entry : FileSystemSandboxEntry) : FileSystemSandboxEntry :=
  match entry.path with
  | .special .currentWorkingDirectory | .special (.projectRoots _) =>
    match resolvePermissionPath machine cwd entry.path with
    | some path => { entry with path := .path path }
    | none => entry
  | .globPattern pattern =>
    { entry with
      path := .globPattern (machine.resolvePathAgainstBase (.ofText pattern) cwd).text }
  | .path _ | .special _ => entry

def pathsOverlap (left right : AbsolutePathBuf) : Bool :=
  left.startsWith right || right.startsWith left

/-- The wildcard characters that end a static prefix. -/
def isWildcard (c : Char) : Bool := c = '*' || c = '?' || c = '[' || c = ']'

/-- The directory part of what stands before the first wildcard. The text of the resolved pattern
is taken apart at its separators: the name that holds the wildcard is left out, unless the text
before the wildcard ends in a backslash, which counts as a separator too. -/
def globStaticPrefixPath (pattern : List Char) : Option AbsolutePathBuf :=
  let names := (machine.resolvePathAgainstBase (.ofText pattern) cwd).names
  let before := names.takeWhile (!·.any isWildcard)
  let literal := (names.drop before.length).head?.elim [] fun name =>
    name.takeWhile (!isWildcard ·)
  let parts := if literal.getLast? = some '\\' then before ++ [literal] else before
  some (parts.foldl AbsolutePathBuf.pushComponent .root)

def denyEntryConstrainsAcceptedGrant (denyEntry : FileSystemSandboxEntry)
    (acceptedEntries : List FileSystemSandboxEntry) : Bool :=
  (acceptedEntries.filter (·.access.canRead)).any fun entry =>
    (resolvePermissionPath machine cwd entry.path).any fun grantPath =>
      match denyEntry.path with
      | .globPattern pattern =>
        (globStaticPrefixPath machine cwd pattern).any (pathsOverlap · grantPath)
      | .path _ | .special _ =>
        (resolvePermissionPath machine cwd denyEntry.path).any (pathsOverlap · grantPath)

/-- The deny entries that are retained; the caller pushes those that are new. -/
def retainConstrainingDenyEntries (sourceEntries acceptedEntries : List FileSystemSandboxEntry) :
    List FileSystemSandboxEntry :=
  ((sourceEntries.filter (·.access = .none)).filter
    (denyEntryConstrainsAcceptedGrant machine cwd · acceptedEntries)).map
      (materializeCwdDependentEntry machine cwd)

def acceptedEntries (requested granted : List FileSystemSandboxEntry) :
    List FileSystemSandboxEntry :=
  let requestedPolicy := FileSystemSandboxPolicy.restricted requested
  let requestedReadDenyMatcher := ReadDenyMatcher.new machine cwd requestedPolicy
  appendNew [] <|
    (granted.filter (grantedFileSystemEntryWithinRequest machine cwd requested requestedPolicy
      requestedReadDenyMatcher)).map (materializeCwdDependentEntry machine cwd)

def intersectFileSystem (requested granted : FileSystemPermissions) : FileSystemPermissions :=
  let accepted := acceptedEntries machine cwd requested.entries granted.entries
  let requestedRetained := retainConstrainingDenyEntries machine cwd requested.entries accepted
  let grantedRetained := retainConstrainingDenyEntries machine cwd granted.entries accepted
  { entries := appendNew (appendNew accepted requestedRetained) grantedRetained
    globScanMaxDepth := (mergeGlobScanMaxDepth requestedRetained
      (requested.globScanMaxDepth.map (·.val)) grantedRetained
      (granted.globScanMaxDepth.map (·.val))).bind NonZero.new }

def intersectNetwork : Option NetworkPermissions → Option NetworkPermissions →
    Option NetworkPermissions
  | some ⟨some true⟩, some ⟨some true⟩ => some ⟨some true⟩
  | _, _ => none

def intersectPermissionProfiles (requested granted : AdditionalPermissionProfile) :
    AdditionalPermissionProfile where
  network := intersectNetwork requested.network granted.network
  fileSystem := (requested.fileSystem.map fun requestedFileSystem =>
    intersectFileSystem machine cwd requestedFileSystem
      (granted.fileSystem.getD .default)).filter (!·.isEmpty)

/-! ## Preapproval -/

def permissionsArePreapproved (effectivePermissions grantedPermissions :
    AdditionalPermissionProfile) : Bool :=
  intersectPermissionProfiles machine cwd effectivePermissions grantedPermissions =
    intersectPermissionProfiles machine cwd effectivePermissions effectivePermissions

end Mcodex.Permissions
