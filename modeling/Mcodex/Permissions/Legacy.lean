import Mcodex.Permissions.FileSystemPolicy

/-!
# Legacy sandbox policies

The older policies, what they permit to write, and the bridge between them and the filesystem
policies in both directions. A filesystem policy needs its own enforcement when the bridge changes
what is derived from it.
-/

namespace Mcodex.Permissions

inductive NetworkAccess
  | restricted
  | enabled
  deriving DecidableEq

inductive ReadOnlyAccess
  | restricted (includePlatformDefaults : Bool) (readableRoots : List AbsolutePathBuf)
  | fullAccess
  deriving DecidableEq

/-- The fields of `SandboxPolicy::WorkspaceWrite`. -/
structure WorkspaceWrite where
  writableRoots : List AbsolutePathBuf
  readOnlyAccess : ReadOnlyAccess
  networkAccess : Bool
  excludeTmpdirEnvVar : Bool
  excludeSlashTmp : Bool
  deriving DecidableEq

inductive SandboxPolicy
  | dangerFullAccess
  | readOnly (access : ReadOnlyAccess) (networkAccess : Bool)
  | externalSandbox (networkAccess : NetworkAccess)
  | workspaceWrite (policy : WorkspaceWrite)
  deriving DecidableEq

variable (host : Host) (cwd : AbsolutePathBuf)

/-- The writable roots of a workspace policy: the listed ones, the cwd, `/tmp` if present and
`TMPDIR` if set, unless they are excluded. -/
def WorkspaceWrite.roots (policy : WorkspaceWrite) : List AbsolutePathBuf :=
  policy.writableRoots ++ [cwd] ++
    (if !policy.excludeSlashTmp ∧ host.isDir .slashTmp then [.slashTmp] else []) ++
    (if policy.excludeTmpdirEnvVar then [] else host.tmpdir.toList)

def SandboxPolicy.getWritableRootsWithCwd : SandboxPolicy → List WritableRoot
  | .dangerFullAccess | .externalSandbox _ | .readOnly _ _ => []
  | .workspaceWrite policy => (policy.roots host cwd).map fun root =>
      ⟨root, host.defaultReadOnlySubpathsForWritableRoot root (cwd = root)⟩

/-! ## From a legacy policy -/

namespace FileSystemSandboxPolicy

def readEntry (path : FileSystemPath) : FileSystemSandboxEntry := ⟨path, .read⟩

def writeEntry (path : FileSystemPath) : FileSystemSandboxEntry := ⟨path, .write⟩

/-- The entries of `ReadOnlyAccess::Restricted`. -/
def restrictedReadEntries (includePlatformDefaults : Bool) (readableRoots : List AbsolutePathBuf) :
    List FileSystemSandboxEntry :=
  (if includePlatformDefaults then [readEntry (.special .minimal)] else []) ++
    readableRoots.map (readEntry <| .path ·)

def workspaceReadEntries : ReadOnlyAccess → List FileSystemSandboxEntry
  | .fullAccess => [readEntry (.special .root)]
  | .restricted includePlatformDefaults readableRoots =>
    restrictedReadEntries includePlatformDefaults readableRoots

def workspaceWriteEntries (policy : WorkspaceWrite) : List FileSystemSandboxEntry :=
  [writeEntry (.special .currentWorkingDirectory)] ++
    (if policy.excludeSlashTmp then [] else [writeEntry (.special .slashTmp)]) ++
    (if policy.excludeTmpdirEnvVar then [] else [writeEntry (.special .tmpdir)]) ++
    policy.writableRoots.map (writeEntry <| .path ·)

/-- `From<&SandboxPolicy>`. -/
def ofSandboxPolicy : SandboxPolicy → FileSystemSandboxPolicy
  | .dangerFullAccess => unrestricted
  | .externalSandbox _ => externalSandbox
  | .readOnly .fullAccess _ => restricted [readEntry (.special .root)]
  | .readOnly (.restricted includePlatformDefaults readableRoots) _ =>
    restricted (readEntry (.special .currentWorkingDirectory) ::
      restrictedReadEntries includePlatformDefaults readableRoots)
  | .workspaceWrite policy =>
    restricted (workspaceReadEntries policy.readOnlyAccess ++ workspaceWriteEntries policy)

def appendPathEntryIfMissing (entries : List FileSystemSandboxEntry) (path : AbsolutePathBuf)
    (access : FileSystemAccessMode) : List FileSystemSandboxEntry :=
  if entries.any fun entry => entry.access = access ∧ entry.path = .path path then entries
  else entries ++ [⟨.path path, access⟩]

def appendDefaultReadOnlyPathIfNoExplicitRule (entries : List FileSystemSandboxEntry)
    (path : AbsolutePathBuf) : List FileSystemSandboxEntry :=
  if entries.any (·.path = .path path) then entries
  else appendPathEntryIfMissing entries path .read

/-- The entries stay that are not made redundant by a legacy root that may be written. -/
def retained (legacyWritableRoots : List WritableRoot) (entry : FileSystemSandboxEntry) : Bool :=
  if entry.access ≠ .read then true
  else
    match entry.path with
    | .path path => !legacyWritableRoots.any (·.isPathWritable path)
    | .globPattern _ | .special _ => true

/-- The default read-only paths that a workspace policy protects. -/
def protectedPaths (policy : WorkspaceWrite) : List AbsolutePathBuf :=
  host.defaultReadOnlySubpathsForWritableRoot cwd true ++
    policy.writableRoots.flatMap (host.defaultReadOnlySubpathsForWritableRoot · false)

def fromLegacySandboxPolicy (sandboxPolicy : SandboxPolicy) : FileSystemSandboxPolicy :=
  let fileSystemPolicy := ofSandboxPolicy sandboxPolicy
  match sandboxPolicy with
  | .workspaceWrite policy =>
    let entries := fileSystemPolicy.entries.filter
      (retained (sandboxPolicy.getWritableRootsWithCwd host cwd))
    { fileSystemPolicy with
      entries := (protectedPaths host cwd policy).foldl
        appendDefaultReadOnlyPathIfNoExplicitRule entries }
  | _ => fileSystemPolicy

/-! ## To a legacy policy -/

/-- What the loop over the entries has found. -/
structure Legacy where
  includePlatformDefaults : Bool
  workspaceRootWritable : Bool
  writableRoots : List AbsolutePathBuf
  readableRoots : List AbsolutePathBuf
  tmpdirWritable : Bool
  slashTmpWritable : Bool
  unbridgeableRootWrite : Bool

namespace Legacy

def empty : Legacy := ⟨false, false, [], [], false, false, false⟩

def pushReadable (legacy : Legacy) (path : Option AbsolutePathBuf) : Legacy :=
  { legacy with readableRoots := legacy.readableRoots ++ path.toList }

def pushWritable (legacy : Legacy) (path : Option AbsolutePathBuf) : Legacy :=
  { legacy with writableRoots := legacy.writableRoots ++ path.toList }

/-- The body of the loop for a special path. -/
def addSpecial (hasFullDiskReadAccess : Bool) (legacy : Legacy) (value : FileSystemSpecialPath)
    (access : FileSystemAccessMode) : Legacy :=
  let path := host.resolveFileSystemSpecialPath cwd value
  match value with
  | .root =>
    match access with
    | .none => legacy
    | .read =>
      if !hasFullDiskReadAccess then legacy.pushReadable (absoluteRootPathForCwd cwd) else legacy
    | .write => { legacy with unbridgeableRootWrite := true }
  | .minimal => if access.canRead then { legacy with includePlatformDefaults := true } else legacy
  | .currentWorkingDirectory =>
    if access.canWrite then { legacy with workspaceRootWritable := true }
    else if access.canRead then legacy.pushReadable path
    else legacy
  | .projectRoots subpath =>
    if subpath.isNone ∧ access.canWrite then { legacy with workspaceRootWritable := true }
    else if access.canWrite then legacy.pushWritable path
    else if access.canRead then legacy.pushReadable path
    else legacy
  | .tmpdir =>
    if access.canWrite then { legacy with tmpdirWritable := true }
    else if access.canRead then legacy.pushReadable path
    else legacy
  | .slashTmp =>
    if access.canWrite then { legacy with slashTmpWritable := true }
    else if access.canRead then legacy.pushReadable path
    else legacy
  | .unknown _ _ => legacy

/-- The body of the loop. -/
def addEntry (hasFullDiskReadAccess : Bool) (legacy : Legacy) (entry : FileSystemSandboxEntry) :
    Legacy :=
  match entry.path with
  | .globPattern _ => legacy
  | .path path =>
    if entry.access.canWrite then
      if cwd = path then { legacy with workspaceRootWritable := true }
      else legacy.pushWritable path
    else if entry.access.canRead then legacy.pushReadable path
    else legacy
  | .special value => addSpecial host cwd hasFullDiskReadAccess legacy value entry.access

end Legacy

def unbridgeable : String :=
  "permissions profile requests filesystem writes outside the workspace root, which is not " ++
    "supported until the runtime enforces FileSystemSandboxPolicy directly"

/-- What stands for full write access. -/
def fullWriteSandboxPolicy (networkPolicy : NetworkSandboxPolicy) : SandboxPolicy :=
  if networkPolicy.isEnabled then .dangerFullAccess else .externalSandbox .restricted

def toLegacySandboxPolicy (policy : FileSystemSandboxPolicy)
    (networkPolicy : NetworkSandboxPolicy) : Except String SandboxPolicy :=
  match policy.kind with
  | .externalSandbox =>
    .ok (.externalSandbox (if networkPolicy.isEnabled then .enabled else .restricted))
  | .unrestricted => .ok (fullWriteSandboxPolicy networkPolicy)
  | .restricted =>
    let legacy :=
      policy.entries.foldl (Legacy.addEntry host cwd policy.hasFullDiskReadAccess) .empty
    if policy.hasFullDiskWriteAccess then .ok (fullWriteSandboxPolicy networkPolicy)
    else
      let readOnlyAccess :=
        if policy.hasFullDiskReadAccess then .fullAccess
        else .restricted legacy.includePlatformDefaults (dedupAbsolutePaths legacy.readableRoots)
      if legacy.workspaceRootWritable then
        .ok (.workspaceWrite
          { writableRoots := dedupAbsolutePaths legacy.writableRoots
            readOnlyAccess
            networkAccess := networkPolicy.isEnabled
            excludeTmpdirEnvVar := !legacy.tmpdirWritable
            excludeSlashTmp := !legacy.slashTmpWritable })
      else if legacy.unbridgeableRootWrite ∨ legacy.writableRoots ≠ [] ∨ legacy.tmpdirWritable ∨
          legacy.slashTmpWritable then
        .error unbridgeable
      else .ok (.readOnly readOnlyAccess networkPolicy.isEnabled)

/-! ## What the bridge has to keep -/

structure SemanticSignature where
  hasFullDiskReadAccess : Bool
  hasFullDiskWriteAccess : Bool
  includePlatformDefaults : Bool
  readableRoots : List AbsolutePathBuf
  writableRoots : List WritableRoot
  unreadableRoots : List AbsolutePathBuf
  unreadableGlobs : List (List Char)
  deriving DecidableEq

def semanticSignature (policy : FileSystemSandboxPolicy) : SemanticSignature where
  hasFullDiskReadAccess := policy.hasFullDiskReadAccess
  hasFullDiskWriteAccess := policy.hasFullDiskWriteAccess
  includePlatformDefaults := policy.includePlatformDefaults
  readableRoots := policy.getReadableRootsWithCwd host cwd
  writableRoots := policy.getWritableRootsWithCwd host cwd
  unreadableRoots := policy.getUnreadableRootsWithCwd host cwd
  unreadableGlobs := policy.getUnreadableGlobsWithCwd host cwd

def needsDirectRuntimeEnforcement (policy : FileSystemSandboxPolicy)
    (networkPolicy : NetworkSandboxPolicy) : Bool :=
  if policy.kind ≠ .restricted then false
  else
    match policy.toLegacySandboxPolicy host cwd networkPolicy with
    | .error _ => true
    | .ok legacyPolicy =>
      policy.semanticSignature host cwd ≠
        (fromLegacySandboxPolicy host cwd legacyPolicy).semanticSignature host cwd

end FileSystemSandboxPolicy

end Mcodex.Permissions
