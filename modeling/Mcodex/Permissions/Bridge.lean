import Mcodex.Permissions.Legacy
import Mcodex.Permissions.Roots

/-!
# The legacy bridge

Where what is derived from a policy and from its bridged form agrees, both give the same access:
without full read access a path is readable just when it lies under a readable root, since nothing
but the filesystem root is denied. Bridging twice gives the entries of the first bridging, up to
read entries that a write entry covers.
-/

namespace Mcodex.Permissions

open Precedence

namespace FileSystemSandboxPolicy

variable {host : Host} {policy bridged : FileSystemSandboxPolicy} {cwd path root : AbsolutePathBuf}
  {entry : ResolvedFileSystemEntry} {networkPolicy : NetworkSandboxPolicy}

/-- Writes are not restricted, or some writable root permits the path. -/
def PermitsWrite (host : Host) (policy : FileSystemSandboxPolicy) (cwd path : AbsolutePathBuf) :
    Prop :=
  policy.hasFullDiskWriteAccess ∨
    ∃ writableRoot ∈ policy.getWritableRootsWithCwd host cwd, writableRoot.isPathWritable path

/-! ## Equal signatures -/

theorem mem_getReadableRoots :
    root ∈ policy.getReadableRootsWithCwd host cwd ↔ policy.hasFullDiskReadAccess = false ∧
      ∃ entry ∈ policy.resolvedEntriesWithCwd host cwd, entry.access ≠ .none ∧
        policy.canReadPathWithCwd host cwd entry.path ∧ entry.path = root := by
  rw [getReadableRootsWithCwd]
  cases policy.hasFullDiskReadAccess with
  | true => simp
  | false =>
    rw [if_neg (by decide), mem_dedupAbsolutePaths, List.mem_map]
    simp only [List.mem_filter, FileSystemAccessMode.canRead_iff]
    constructor
    · rintro ⟨entry, ⟨⟨hmem, hne⟩, hread⟩, hpath⟩
      exact ⟨trivial, entry, hmem, hne, hread, hpath⟩
    · rintro ⟨-, entry, hmem, hne, hread, hpath⟩
      exact ⟨entry, ⟨⟨hmem, hne⟩, hread⟩, hpath⟩

/-- Where only the filesystem root is denied, the readable paths are those under readable roots. -/
theorem canRead_iff_readableRoot (hkind : policy.kind = .restricted)
    (hfull : policy.hasFullDiskReadAccess = false)
    (hdenied : policy.getUnreadableRootsWithCwd host cwd = []) :
    policy.canReadPathWithCwd host cwd path ↔
      ∃ root ∈ policy.getReadableRootsWithCwd host cwd, path.startsWith root := by
  constructor
  · intro hread
    obtain ⟨winner, hwinner, hne⟩ := (canRead_iff hkind).1 hread
    exact ⟨winner.path, mem_getReadableRoots.2 ⟨hfull, winner, hwinner.mem, hne,
      (canRead_iff hkind).2 ⟨winner, hwinner.self, hne⟩, rfl⟩, hwinner.startsWith⟩
  · rintro ⟨root, hroot, happlies⟩
    obtain ⟨-, entry, hmem, hne, hread, rfl⟩ := mem_getReadableRoots.1 hroot
    obtain ⟨winner, hwinner⟩ := exists_decides hmem happlies
    refine (canRead_iff hkind).2 ⟨winner, hwinner, fun hnone => ?_⟩
    have hdeny := not_canRead_of_none hkind hwinner.mem hnone
    have hatRoot : winner.path = .root := by
      by_contra hne
      have hmem := (mem_getUnreadableRoots hkind).2 ⟨winner, hwinner.mem, hnone, hdeny, hne, rfl⟩
      rw [hdenied] at hmem
      exact List.not_mem_nil hmem
    -- What is denied at the filesystem root leaves the root of the entry readable.
    have habove := AbsolutePathBuf.startsWith_iff.1 (hwinner.above hmem happlies)
    rw [hatRoot] at habove
    have hsame : entry.path = winner.path := by
      rw [hatRoot]
      exact AbsolutePathBuf.ext_names (List.prefix_nil.1 habove)
    exact hdeny (hsame ▸ hread)

/-! ## The entries of a bridged policy -/

/-- Protecting paths adds a read entry for each path that has none of its own. -/
theorem mem_foldl_append {paths : List AbsolutePathBuf} {entries : List FileSystemSandboxEntry}
    {source : FileSystemSandboxEntry} :
    source ∈ paths.foldl appendDefaultReadOnlyPathIfNoExplicitRule entries ↔
      source ∈ entries ∨ ∃ path ∈ paths, source = readEntry (.path path) ∧
        ∀ source' ∈ entries, source'.path ≠ .path path := by
  induction paths generalizing entries with
  | nil => simp
  | cons path paths ih =>
    rw [List.foldl_cons, ih]
    cases hany : entries.any (·.path = .path path) with
    | true =>
      obtain ⟨existing, hexisting, hpath⟩ := List.any_eq_true.1 hany
      have hpath : existing.path = .path path := of_decide_eq_true hpath
      rw [appendDefaultReadOnlyPathIfNoExplicitRule, hany, if_pos rfl]
      refine or_congr_right ⟨?_, ?_⟩
      · rintro ⟨path', hmem, h⟩
        exact ⟨path', List.mem_cons_of_mem _ hmem, h⟩
      · rintro ⟨path', hmem, hsource, hnone⟩
        rcases List.mem_cons.1 hmem with rfl | hmem
        · exact absurd hpath (hnone existing hexisting)
        · exact ⟨path', hmem, hsource, hnone⟩
    | false =>
      have hnone : ∀ source' ∈ entries, source'.path ≠ .path path := by
        simpa using hany
      have hmissing : entries.any
          (fun entry => entry.access = .read ∧ entry.path = .path path) = false := by
        simpa using fun source' hsource' _ => hnone source' hsource'
      rw [appendDefaultReadOnlyPathIfNoExplicitRule, hany, if_neg (by decide),
        appendPathEntryIfMissing, hmissing, if_neg (by decide), List.mem_append,
        List.mem_singleton]
      constructor
      · rintro ((hmem | rfl) | ⟨path', hmem, hsource, hnone'⟩)
        · exact .inl hmem
        · exact .inr ⟨path, List.mem_cons_self, rfl, hnone⟩
        · exact .inr ⟨path', List.mem_cons_of_mem _ hmem, hsource, fun source' hsource' =>
            hnone' source' (List.mem_append_left _ hsource')⟩
      · rintro (hmem | ⟨path', hmem, hsource, hnone'⟩)
        · exact .inl (.inl hmem)
        rcases List.mem_cons.1 hmem with rfl | hmem
        · exact .inl (.inr hsource)
        by_cases hsame : path' = path
        · exact .inl (.inr (hsame ▸ hsource))
        · refine .inr ⟨path', hmem, hsource, fun source' hsource' => ?_⟩
          rcases List.mem_append.1 hsource' with hsource' | hsource'
          · exact hnone' source' hsource'
          · rw [List.mem_singleton.1 hsource']
            exact fun heq => hsame (FileSystemPath.path.inj heq).symm

theorem mem_restrictedReadEntries {includePlatformDefaults : Bool}
    {readableRoots : List AbsolutePathBuf} {source : FileSystemSandboxEntry} :
    source ∈ restrictedReadEntries includePlatformDefaults readableRoots ↔
      includePlatformDefaults ∧ source = readEntry (.special .minimal) ∨
        ∃ path ∈ readableRoots, source = readEntry (.path path) := by
  rw [restrictedReadEntries, List.mem_append, List.mem_map]
  cases includePlatformDefaults <;> simp [eq_comm]

theorem mem_workspaceWriteEntries {workspace : WorkspaceWrite} {source : FileSystemSandboxEntry} :
    source ∈ workspaceWriteEntries workspace ↔
      source = writeEntry (.special .currentWorkingDirectory) ∨
      workspace.excludeSlashTmp = false ∧ source = writeEntry (.special .slashTmp) ∨
      workspace.excludeTmpdirEnvVar = false ∧ source = writeEntry (.special .tmpdir) ∨
      ∃ path ∈ workspace.writableRoots, source = writeEntry (.path path) := by
  rw [workspaceWriteEntries]
  cases workspace.excludeSlashTmp <;> cases workspace.excludeTmpdirEnvVar <;>
    simp [eq_comm]

theorem workspaceReadEntries_access {access : ReadOnlyAccess} {source : FileSystemSandboxEntry}
    (h : source ∈ workspaceReadEntries access) : source.access = .read := by
  cases access with
  | fullAccess => rw [List.mem_singleton.1 h]; rfl
  | restricted includePlatformDefaults readableRoots =>
    rcases mem_restrictedReadEntries.1 h with ⟨-, rfl⟩ | ⟨path, -, rfl⟩ <;> rfl

theorem workspaceWriteEntries_access {workspace : WorkspaceWrite}
    {source : FileSystemSandboxEntry} (h : source ∈ workspaceWriteEntries workspace) :
    source.access = .write := by
  rcases mem_workspaceWriteEntries.1 h with rfl | ⟨-, rfl⟩ | ⟨-, rfl⟩ | ⟨path, -, rfl⟩ <;> rfl

/-- The entries of a workspace policy that bridging keeps. -/
def keptEntries (host : Host) (cwd : AbsolutePathBuf) (workspace : WorkspaceWrite) :
    List FileSystemSandboxEntry :=
  (workspaceReadEntries workspace.readOnlyAccess ++ workspaceWriteEntries workspace).filter
    (retained ((SandboxPolicy.workspaceWrite workspace).getWritableRootsWithCwd host cwd))

theorem retained_of_write {roots : List WritableRoot} {source : FileSystemSandboxEntry}
    (h : source.access = .write) : retained roots source := by
  rw [retained, if_pos (by rw [h]; decide)]

theorem mem_keptEntries {workspace : WorkspaceWrite} {source : FileSystemSandboxEntry} :
    source ∈ keptEntries host cwd workspace ↔
      (source ∈ workspaceReadEntries workspace.readOnlyAccess ∧ retained
        ((SandboxPolicy.workspaceWrite workspace).getWritableRootsWithCwd host cwd) source) ∨
      source ∈ workspaceWriteEntries workspace := by
  rw [keptEntries, List.mem_filter, List.mem_append, or_and_right]
  refine or_congr_right ⟨And.left, fun h => ⟨h, ?_⟩⟩
  exact retained_of_write (workspaceWriteEntries_access h)

theorem mem_fromLegacy_workspaceWrite {workspace : WorkspaceWrite}
    {source : FileSystemSandboxEntry} :
    source ∈ (fromLegacySandboxPolicy host cwd (.workspaceWrite workspace)).entries ↔
      source ∈ keptEntries host cwd workspace ∨
        ∃ path ∈ protectedPaths host cwd workspace, source = readEntry (.path path) ∧
          ∀ source' ∈ keptEntries host cwd workspace, source'.path ≠ .path path :=
  mem_foldl_append

/-- No entry of a bridged policy denies anything. -/
theorem fromLegacy_access {sandboxPolicy : SandboxPolicy} {source : FileSystemSandboxEntry}
    (h : source ∈ (fromLegacySandboxPolicy host cwd sandboxPolicy).entries) :
    source.access ≠ .none := by
  cases sandboxPolicy with
  | dangerFullAccess | externalSandbox _ => cases h
  | readOnly access networkAccess =>
    have hread : source.access = .read := by
      cases access with
      | fullAccess => rw [List.mem_singleton.1 h]; rfl
      | restricted includePlatformDefaults readableRoots =>
        rcases List.mem_cons.1 h with rfl | h
        · rfl
        rcases mem_restrictedReadEntries.1 h with ⟨-, rfl⟩ | ⟨path, -, rfl⟩ <;> rfl
    rw [hread]
    decide
  | workspaceWrite workspace =>
    have haccess : source.access = .read ∨ source.access = .write := by
      rcases mem_fromLegacy_workspaceWrite.1 h with hkept | ⟨path, -, rfl, -⟩
      · rcases mem_keptEntries.1 hkept with ⟨hread, -⟩ | hwrite
        · exact .inl (workspaceReadEntries_access hread)
        · exact .inr (workspaceWriteEntries_access hwrite)
      · exact .inl rfl
    rcases haccess with h | h <;> rw [h] <;> decide

theorem fromLegacy_unreadableRoots (sandboxPolicy : SandboxPolicy) :
    (fromLegacySandboxPolicy host cwd sandboxPolicy).getUnreadableRootsWithCwd host cwd = [] := by
  by_cases hkind : (fromLegacySandboxPolicy host cwd sandboxPolicy).kind = .restricted
  · refine List.eq_nil_iff_forall_not_mem.2 fun root hroot => ?_
    obtain ⟨entry, hmem, hnone, -⟩ := (mem_getUnreadableRoots hkind).1 hroot
    obtain ⟨source, hsource, -, haccess⟩ := mem_resolvedEntries.1 hmem
    exact fromLegacy_access hsource (haccess.trans hnone)
  · rw [getUnreadableRootsWithCwd, if_pos hkind]

/-- The same signature is the same access. -/
theorem canRead_of_semanticSignature (hkind : policy.kind = .restricted)
    (hsame : policy.semanticSignature host cwd = bridged.semanticSignature host cwd)
    (hdenied : bridged.getUnreadableRootsWithCwd host cwd = []) (path : AbsolutePathBuf) :
    policy.canReadPathWithCwd host cwd path = bridged.canReadPathWithCwd host cwd path := by
  have hfull : policy.hasFullDiskReadAccess = bridged.hasFullDiskReadAccess :=
    congrArg SemanticSignature.hasFullDiskReadAccess hsame
  have hroots : policy.getReadableRootsWithCwd host cwd =
      bridged.getReadableRootsWithCwd host cwd :=
    congrArg SemanticSignature.readableRoots hsame
  have hdenied' : policy.getUnreadableRootsWithCwd host cwd =
      bridged.getUnreadableRootsWithCwd host cwd :=
    congrArg SemanticSignature.unreadableRoots hsame
  rw [Bool.eq_iff_iff]
  by_cases hkind' : bridged.kind = .restricted
  · cases hread : bridged.hasFullDiskReadAccess with
    | true =>
      rw [hread] at hfull
      exact iff_of_true (canRead_of_fullDiskRead hkind hfull path)
        (canRead_of_fullDiskRead hkind' hread path)
    | false =>
      rw [canRead_iff_readableRoot hkind (hfull.trans hread) (hdenied'.trans hdenied),
        canRead_iff_readableRoot hkind' hread hdenied, hroots]
  · have hread : bridged.hasFullDiskReadAccess ∧ bridged.canReadPathWithCwd host cwd path := by
      rw [hasFullDiskReadAccess, canReadPathWithCwd, resolveAccessWithCwd]
      cases hb : bridged.kind with
      | restricted => exact absurd hb hkind'
      | unrestricted | externalSandbox => exact ⟨rfl, rfl⟩
    exact iff_of_true (canRead_of_fullDiskRead hkind (hfull.trans hread.1) path) hread.2

/-! ## Bridging again -/

/-- Both policies deny nothing and neither writes everywhere; the second has all entries of the
first, and each other entry is covered by one of the first at the same path. -/
structure CoveredBy (host : Host) (cwd : AbsolutePathBuf)
    (policy bridged : FileSystemSandboxPolicy) : Prop where
  kind : policy.kind = .restricted
  kind' : bridged.kind = .restricted
  fullWrite : policy.hasFullDiskWriteAccess = false
  fullWrite' : bridged.hasFullDiskWriteAccess = false
  access : ∀ source ∈ policy.entries, source.access ≠ .none
  sub : ∀ entry ∈ policy.resolvedEntriesWithCwd host cwd,
    entry ∈ bridged.resolvedEntriesWithCwd host cwd
  covered : ∀ entry ∈ bridged.resolvedEntriesWithCwd host cwd,
    ∃ covering ∈ policy.resolvedEntriesWithCwd host cwd, covering.path = entry.path ∧
      entry.access ≤ covering.access

section
variable (h : CoveredBy host cwd policy bridged)

include h

theorem CoveredBy.resolveAccess (path : AbsolutePathBuf) :
    bridged.resolveAccessWithCwd host cwd path = policy.resolveAccessWithCwd host cwd path := by
  rw [resolveAccess_eq h.kind, resolveAccess_eq h.kind']
  refine congrArg (Option.getD · _) (resolve_of_covered ?_ ?_ path.names)
  · intro rule hrule
    obtain ⟨entry, hentry, rfl⟩ := List.mem_map.1 hrule
    exact List.mem_map_of_mem (h.sub entry hentry)
  · intro rule hrule
    obtain ⟨entry, hentry, rfl⟩ := List.mem_map.1 hrule
    obtain ⟨covering, hcovering, hpath, hle⟩ := h.covered entry hentry
    exact ⟨covering.rule, List.mem_map_of_mem hcovering, congrArg AbsolutePathBuf.names hpath, hle⟩

theorem CoveredBy.canWrite (path : AbsolutePathBuf) :
    bridged.canWritePathWithCwd host cwd path = policy.canWritePathWithCwd host cwd path :=
  congrArg FileSystemAccessMode.canWrite (h.resolveAccess path)

/-- An entry that no write entry of the first policy covers is covered by one that reads. -/
theorem CoveredBy.covering_of_canWrite (hmem : entry ∈ bridged.resolvedEntriesWithCwd host cwd) :
    ∃ covering ∈ policy.resolvedEntriesWithCwd host cwd, covering.path = entry.path ∧
      (entry.access = .write → covering.access = .write) ∧
        (¬ policy.canWritePathWithCwd host cwd entry.path → covering.access ≠ .write) := by
  obtain ⟨covering, hcovering, hpath, hle⟩ := h.covered entry hmem
  obtain ⟨source, hsource, -, haccess⟩ := mem_resolvedEntries.1 hcovering
  have hne : covering.access ≠ .none := haccess ▸ h.access source hsource
  refine ⟨covering, hcovering, hpath, fun hwrite => ?_, fun hnot hwrite => hnot ?_⟩
  · rw [hwrite] at hle
    cases hcase : covering.access with
    | write => rfl
    | none => exact absurd hcase hne
    | read => exact absurd (hcase ▸ hle) (by decide)
  · obtain ⟨winner, hwinner, -, hle'⟩ := exists_decides_self hcovering
    rw [← hpath]
    refine (canWrite_iff h.kind).2 ⟨winner, hwinner, ?_⟩
    obtain ⟨source', hsource', -, haccess'⟩ := mem_resolvedEntries.1 hwinner.mem
    rw [hwrite] at hle'
    cases hcase : winner.access with
    | write => rfl
    | none => exact absurd (haccess'.trans hcase) (h.access source' hsource')
    | read => exact absurd (hcase ▸ hle') (by decide)

theorem CoveredBy.mem_readOnlySubpaths {subpath : AbsolutePathBuf} :
    subpath ∈ bridged.readOnlySubpaths host cwd root ↔
      subpath ∈ policy.readOnlySubpaths host cwd root := by
  have hexplicit : hasExplicitResolvedPathEntry (bridged.resolvedEntriesWithCwd host cwd) subpath ↔
      hasExplicitResolvedPathEntry (policy.resolvedEntriesWithCwd host cwd) subpath := by
    simp only [hasExplicitResolvedPathEntry, List.any_eq_true, decide_eq_true_iff]
    constructor
    · rintro ⟨entry, hmem, rfl⟩
      obtain ⟨covering, hcovering, hpath, -⟩ := h.covered entry hmem
      exact ⟨covering, hcovering, hpath⟩
    · rintro ⟨entry, hmem, rfl⟩
      exact ⟨entry, h.sub entry hmem, rfl⟩
  rw [FileSystemSandboxPolicy.mem_readOnlySubpaths, FileSystemSandboxPolicy.mem_readOnlySubpaths,
    hexplicit]
  refine or_congr_right ⟨?_, ?_⟩
  · rintro ⟨entry, hmem, -, hwrite, hne, hin, rfl⟩
    rw [h.canWrite] at hwrite
    obtain ⟨covering, hcovering, hpath, -, haccess⟩ := h.covering_of_canWrite hmem
    exact ⟨covering, hcovering, haccess hwrite, hpath ▸ hwrite, hpath ▸ hne, hpath ▸ hin, hpath⟩
  · rintro ⟨entry, hmem, haccess, hwrite, hne, hin, rfl⟩
    exact ⟨entry, h.sub entry hmem, haccess, by rwa [h.canWrite], hne, hin, rfl⟩

theorem CoveredBy.permitsWrite (path : AbsolutePathBuf) :
    bridged.PermitsWrite host cwd path ↔ policy.PermitsWrite host cwd path := by
  have hroot (root : AbsolutePathBuf) :
      WritableRoot.isPathWritable ⟨root, bridged.readOnlySubpaths host cwd root⟩ path ↔
        WritableRoot.isPathWritable ⟨root, policy.readOnlySubpaths host cwd root⟩ path := by
    rw [WritableRoot.isPathWritable_iff, WritableRoot.isPathWritable_iff]
    refine and_congr_right' (forall_congr' fun subpath => ?_)
    rw [h.mem_readOnlySubpaths]
  rw [PermitsWrite, PermitsWrite, h.fullWrite, h.fullWrite']
  refine or_congr_right ⟨?_, ?_⟩
  · rintro ⟨writableRoot, hmem, hpath⟩
    obtain ⟨-, entry, hentry, haccess, hwrite, rfl⟩ := mem_getWritableRoots.1 hmem
    obtain ⟨covering, hcovering, hsame, hcovers, -⟩ := h.covering_of_canWrite hentry
    rw [h.canWrite, ← hsame] at hwrite
    refine ⟨_, mem_getWritableRoots.2
      ⟨h.fullWrite, covering, hcovering, hcovers haccess, hwrite, rfl⟩, ?_⟩
    rw [hsame]
    exact (hroot entry.path).1 hpath
  · rintro ⟨writableRoot, hmem, hpath⟩
    obtain ⟨-, entry, hentry, haccess, hwrite, rfl⟩ := mem_getWritableRoots.1 hmem
    rw [← h.canWrite] at hwrite
    exact ⟨_, mem_getWritableRoots.2
      ⟨h.fullWrite', entry, h.sub entry hentry, haccess, hwrite, rfl⟩, (hroot entry.path).2 hpath⟩

end

namespace Legacy

variable {full : Bool} {legacy : Legacy}

/-- What one entry adds to the legacy policy. -/
def ofEntry (host : Host) (cwd : AbsolutePathBuf) (full : Bool) (source : FileSystemSandboxEntry) :
    Legacy := addEntry host cwd full .empty source

def append (legacy legacy' : Legacy) : Legacy where
  includePlatformDefaults := legacy.includePlatformDefaults || legacy'.includePlatformDefaults
  workspaceRootWritable := legacy.workspaceRootWritable || legacy'.workspaceRootWritable
  writableRoots := legacy.writableRoots ++ legacy'.writableRoots
  readableRoots := legacy.readableRoots ++ legacy'.readableRoots
  tmpdirWritable := legacy.tmpdirWritable || legacy'.tmpdirWritable
  slashTmpWritable := legacy.slashTmpWritable || legacy'.slashTmpWritable
  unbridgeableRootWrite := legacy.unbridgeableRootWrite || legacy'.unbridgeableRootWrite

theorem append_empty (legacy : Legacy) : legacy.append empty = legacy := by
  simp [append, empty]

theorem addEntry_eq (legacy : Legacy) (source : FileSystemSandboxEntry) :
    addEntry host cwd full legacy source = legacy.append (ofEntry host cwd full source) := by
  obtain ⟨target, access⟩ := source
  cases target with
  | globPattern _ => exact (append_empty legacy).symm
  | path path =>
    by_cases hcwd : cwd = path <;> cases access <;>
      simp [ofEntry, addEntry, append, empty, pushReadable, pushWritable, hcwd,
        FileSystemAccessMode.canWrite, FileSystemAccessMode.canRead]
  | special value =>
    cases value with
    | root =>
      cases full <;> cases access <;>
        simp [ofEntry, addEntry, addSpecial, append, empty, pushReadable]
    | projectRoots subpath =>
      cases subpath <;> cases access <;>
        simp [ofEntry, addEntry, addSpecial, append, empty, pushReadable, pushWritable,
          FileSystemAccessMode.canWrite, FileSystemAccessMode.canRead]
    | unknown _ _ => exact (append_empty legacy).symm
    | minimal | currentWorkingDirectory | tmpdir | slashTmp =>
      cases access <;>
        simp [ofEntry, addEntry, addSpecial, append, empty, pushReadable,
          FileSystemAccessMode.canWrite, FileSystemAccessMode.canRead]

/-- What all entries add together. -/
def collect (host : Host) (cwd : AbsolutePathBuf) (full : Bool)
    (entries : List FileSystemSandboxEntry) : Legacy where
  includePlatformDefaults := entries.any (ofEntry host cwd full · |>.includePlatformDefaults)
  workspaceRootWritable := entries.any (ofEntry host cwd full · |>.workspaceRootWritable)
  writableRoots := entries.flatMap (ofEntry host cwd full · |>.writableRoots)
  readableRoots := entries.flatMap (ofEntry host cwd full · |>.readableRoots)
  tmpdirWritable := entries.any (ofEntry host cwd full · |>.tmpdirWritable)
  slashTmpWritable := entries.any (ofEntry host cwd full · |>.slashTmpWritable)
  unbridgeableRootWrite := entries.any (ofEntry host cwd full · |>.unbridgeableRootWrite)

theorem foldl_addEntry (entries : List FileSystemSandboxEntry) (legacy : Legacy) :
    entries.foldl (addEntry host cwd full) legacy =
      legacy.append (collect host cwd full entries) := by
  induction entries generalizing legacy with
  | nil => simp [append, collect]
  | cons source entries ih =>
    rw [List.foldl_cons, ih, addEntry_eq]
    simp [append, collect, Bool.or_assoc]

/-- An entry that reads asks for no write of any kind. -/
theorem ofEntry_readEntry (target : FileSystemPath) :
    (ofEntry host cwd full (readEntry target)).workspaceRootWritable = false ∧
      (ofEntry host cwd full (readEntry target)).writableRoots = [] ∧
      (ofEntry host cwd full (readEntry target)).tmpdirWritable = false ∧
      (ofEntry host cwd full (readEntry target)).slashTmpWritable = false ∧
      (ofEntry host cwd full (readEntry target)).unbridgeableRootWrite = false := by
  cases target with
  | path _ | globPattern _ => exact ⟨rfl, rfl, rfl, rfl, rfl⟩
  | special value =>
    cases value with
    | root => cases full <;> exact ⟨rfl, rfl, rfl, rfl, rfl⟩
    | projectRoots subpath => cases subpath <;> exact ⟨rfl, rfl, rfl, rfl, rfl⟩
    | _ => exact ⟨rfl, rfl, rfl, rfl, rfl⟩

/-- A write entry for a path makes the workspace root writable where it names the cwd. -/
theorem ofEntry_write_path (path : AbsolutePathBuf) :
    ofEntry host cwd full (writeEntry (.path path)) =
      if cwd = path then { empty with workspaceRootWritable := true }
      else empty.pushWritable path := rfl

end Legacy

theorem toLegacy_restricted (hkind : policy.kind = .restricted)
    (hfull : policy.hasFullDiskWriteAccess = false) :
    policy.toLegacySandboxPolicy host cwd networkPolicy =
      let legacy := Legacy.collect host cwd policy.hasFullDiskReadAccess policy.entries
      let readOnlyAccess :=
        if policy.hasFullDiskReadAccess then .fullAccess
        else .restricted legacy.includePlatformDefaults (dedupAbsolutePaths legacy.readableRoots)
      if legacy.workspaceRootWritable then
        .ok (.workspaceWrite ⟨dedupAbsolutePaths legacy.writableRoots, readOnlyAccess,
          networkPolicy.isEnabled, !legacy.tmpdirWritable, !legacy.slashTmpWritable⟩)
      else if legacy.unbridgeableRootWrite ∨ legacy.writableRoots ≠ [] ∨ legacy.tmpdirWritable ∨
          legacy.slashTmpWritable then
        .error unbridgeable
      else .ok (.readOnly readOnlyAccess networkPolicy.isEnabled) := by
  have hfold : policy.entries.foldl (Legacy.addEntry host cwd policy.hasFullDiskReadAccess) .empty =
      Legacy.collect host cwd policy.hasFullDiskReadAccess policy.entries :=
    Legacy.foldl_addEntry policy.entries .empty
  rw [toLegacySandboxPolicy, hkind]
  simp only [hfold, hfull, Bool.false_eq_true, if_false]

/-- A read entry that bridging keeps names a path, or the filesystem root, or nothing. -/
theorem kept_read_cases {workspace : WorkspaceWrite} {source : FileSystemSandboxEntry}
    (h : source ∈ workspaceReadEntries workspace.readOnlyAccess) :
    (source = readEntry (.special .root) ∧ workspace.readOnlyAccess = .fullAccess) ∨
      source = readEntry (.special .minimal) ∨ ∃ path, source = readEntry (.path path) := by
  cases haccess : workspace.readOnlyAccess with
  | fullAccess =>
    rw [haccess] at h
    exact .inl ⟨List.mem_singleton.1 h, rfl⟩
  | restricted includePlatformDefaults readableRoots =>
    rw [haccess] at h
    rcases mem_restrictedReadEntries.1 h with ⟨-, rfl⟩ | ⟨path, -, rfl⟩
    · exact .inr (.inl rfl)
    · exact .inr (.inr ⟨path, rfl⟩)

/-- The kinds of entries a bridged workspace policy has. -/
theorem fromLegacy_workspaceWrite_cases {workspace : WorkspaceWrite}
    {source : FileSystemSandboxEntry}
    (h : source ∈ (fromLegacySandboxPolicy host cwd (.workspaceWrite workspace)).entries) :
    (source = readEntry (.special .root) ∧ workspace.readOnlyAccess = .fullAccess) ∨
      source = readEntry (.special .minimal) ∨ (∃ path, source = readEntry (.path path)) ∨
        source ∈ workspaceWriteEntries workspace := by
  rcases mem_fromLegacy_workspaceWrite.1 h with hkept | ⟨path, -, rfl, -⟩
  · rcases mem_keptEntries.1 hkept with ⟨hread, -⟩ | hwrite
    · rcases kept_read_cases hread with hroot | hminimal | hpath
      · exact .inl hroot
      · exact .inr (.inl hminimal)
      · exact .inr (.inr (.inl hpath))
    · exact .inr (.inr (.inr hwrite))
  · exact .inr (.inr (.inl ⟨path, rfl⟩))

theorem mem_fromLegacy_of_write {workspace : WorkspaceWrite} {source : FileSystemSandboxEntry}
    (h : source ∈ workspaceWriteEntries workspace) :
    source ∈ (fromLegacySandboxPolicy host cwd (.workspaceWrite workspace)).entries :=
  mem_fromLegacy_workspaceWrite.2 (.inl (mem_keptEntries.2 (.inr h)))

theorem fromLegacy_fullRead (workspace : WorkspaceWrite) :
    (fromLegacySandboxPolicy host cwd (.workspaceWrite workspace)).hasFullDiskReadAccess ↔
      workspace.readOnlyAccess = .fullAccess := by
  rw [fullDiskRead_iff rfl]
  constructor
  · rintro ⟨⟨source, hsource, hpath, -⟩, -⟩
    rcases fromLegacy_workspaceWrite_cases hsource with ⟨-, hfull⟩ | rfl | ⟨path, rfl⟩ | hwrite
    · exact hfull
    · cases hpath
    · cases hpath
    · rcases mem_workspaceWriteEntries.1 hwrite with rfl | ⟨-, rfl⟩ | ⟨-, rfl⟩ | ⟨path, -, rfl⟩ <;>
        cases hpath
  · intro hfull
    refine ⟨⟨readEntry (.special .root), ?_, rfl, by decide⟩, fun source => fromLegacy_access⟩
    refine mem_fromLegacy_workspaceWrite.2 (.inl (mem_keptEntries.2 (.inl ⟨?_, rfl⟩)))
    rw [hfull]
    exact List.mem_singleton_self _

/-- A bridged policy that is restricted never writes everywhere. -/
theorem fromLegacy_fullWrite {sandboxPolicy : SandboxPolicy}
    (hkind : (fromLegacySandboxPolicy host cwd sandboxPolicy).kind = .restricted) :
    (fromLegacySandboxPolicy host cwd sandboxPolicy).hasFullDiskWriteAccess = false := by
  by_contra hfull
  obtain ⟨hroot, -⟩ := (fullDiskWrite_iff hkind).1 (Bool.not_eq_false _ ▸ hfull)
  obtain ⟨source, hsource, hpath, hwrite⟩ := (hasRootAccess_iff hkind).1 hroot
  cases sandboxPolicy with
  | dangerFullAccess | externalSandbox _ => cases hkind
  | readOnly access networkAccess =>
    cases access with
    | fullAccess =>
      rw [List.mem_singleton.1 hsource] at hwrite
      exact absurd hwrite (by decide)
    | restricted includePlatformDefaults readableRoots =>
      rcases List.mem_cons.1 hsource with rfl | hsource
      · cases hpath
      rcases mem_restrictedReadEntries.1 hsource with ⟨-, rfl⟩ | ⟨path, -, rfl⟩ <;> cases hpath
  | workspaceWrite workspace =>
    rcases fromLegacy_workspaceWrite_cases hsource with ⟨rfl, -⟩ | rfl | ⟨path, rfl⟩ | hwrites
    · exact absurd hwrite (by decide)
    · cases hpath
    · cases hpath
    · rcases mem_workspaceWriteEntries.1 hwrites with rfl | ⟨-, rfl⟩ | ⟨-, rfl⟩ | ⟨path, -, rfl⟩ <;>
        cases hpath

/-! ### A workspace policy -/

/-- What the way back gives of a bridged workspace policy: what is excluded stays, the cwd is no
listed root any more, and the read entries for paths are listed. -/
structure Rebuilt (host : Host) (cwd : AbsolutePathBuf) (workspace rebuilt : WorkspaceWrite) :
    Prop where
  excludeTmpdirEnvVar : rebuilt.excludeTmpdirEnvVar = workspace.excludeTmpdirEnvVar
  excludeSlashTmp : rebuilt.excludeSlashTmp = workspace.excludeSlashTmp
  mem_writableRoots : ∀ path,
    path ∈ rebuilt.writableRoots ↔ path ∈ workspace.writableRoots ∧ path ≠ cwd
  fullAccess : workspace.readOnlyAccess = .fullAccess → rebuilt.readOnlyAccess = .fullAccess
  restricted : workspace.readOnlyAccess ≠ .fullAccess →
    ∃ includePlatformDefaults readableRoots,
      rebuilt.readOnlyAccess = .restricted includePlatformDefaults readableRoots ∧
        ∀ path, path ∈ readableRoots ↔ readEntry (.path path) ∈
          (fromLegacySandboxPolicy host cwd (.workspaceWrite workspace)).entries

theorem fromLegacy_workspaceWrite_read_or_write {workspace : WorkspaceWrite}
    {source : FileSystemSandboxEntry}
    (h : source ∈ (fromLegacySandboxPolicy host cwd (.workspaceWrite workspace)).entries) :
    (∃ target, source = readEntry target) ∨ source ∈ workspaceWriteEntries workspace := by
  rcases fromLegacy_workspaceWrite_cases h with ⟨rfl, -⟩ | rfl | ⟨path, rfl⟩ | hwrite
  · exact .inl ⟨_, rfl⟩
  · exact .inl ⟨_, rfl⟩
  · exact .inl ⟨_, rfl⟩
  · exact .inr hwrite

section
variable {workspace : WorkspaceWrite} {full : Bool}

theorem collect_tmpdirWritable :
    (Legacy.collect host cwd full
      (fromLegacySandboxPolicy host cwd (.workspaceWrite workspace)).entries).tmpdirWritable =
        !workspace.excludeTmpdirEnvVar := by
  rw [Bool.eq_iff_iff, Bool.not_eq_true']
  constructor
  · intro h
    obtain ⟨source, hsource, hadds⟩ := List.any_eq_true.1 h
    rcases fromLegacy_workspaceWrite_read_or_write hsource with ⟨target, rfl⟩ | hwrite
    · rw [(Legacy.ofEntry_readEntry target).2.2.1] at hadds
      cases hadds
    rcases mem_workspaceWriteEntries.1 hwrite with
      rfl | ⟨-, rfl⟩ | ⟨hexclude, rfl⟩ | ⟨path, -, rfl⟩
    · cases hadds
    · cases hadds
    · exact hexclude
    · rw [Legacy.ofEntry_write_path] at hadds
      split at hadds <;> cases hadds
  · intro hexclude
    exact List.any_eq_true.2 ⟨_, mem_fromLegacy_of_write
      (mem_workspaceWriteEntries.2 (.inr (.inr (.inl ⟨hexclude, rfl⟩)))), rfl⟩

theorem collect_slashTmpWritable :
    (Legacy.collect host cwd full
      (fromLegacySandboxPolicy host cwd (.workspaceWrite workspace)).entries).slashTmpWritable =
        !workspace.excludeSlashTmp := by
  rw [Bool.eq_iff_iff, Bool.not_eq_true']
  constructor
  · intro h
    obtain ⟨source, hsource, hadds⟩ := List.any_eq_true.1 h
    rcases fromLegacy_workspaceWrite_read_or_write hsource with ⟨target, rfl⟩ | hwrite
    · rw [(Legacy.ofEntry_readEntry target).2.2.2.1] at hadds
      cases hadds
    rcases mem_workspaceWriteEntries.1 hwrite with
      rfl | ⟨hexclude, rfl⟩ | ⟨-, rfl⟩ | ⟨path, -, rfl⟩
    · cases hadds
    · exact hexclude
    · cases hadds
    · rw [Legacy.ofEntry_write_path] at hadds
      split at hadds <;> cases hadds
  · intro hexclude
    exact List.any_eq_true.2 ⟨_, mem_fromLegacy_of_write
      (mem_workspaceWriteEntries.2 (.inr (.inl ⟨hexclude, rfl⟩))), rfl⟩

theorem mem_collect_writableRoots :
    path ∈ (Legacy.collect host cwd full
      (fromLegacySandboxPolicy host cwd (.workspaceWrite workspace)).entries).writableRoots ↔
        path ∈ workspace.writableRoots ∧ path ≠ cwd := by
  show path ∈ List.flatMap _ _ ↔ _
  rw [List.mem_flatMap]
  constructor
  · rintro ⟨source, hsource, hadds⟩
    rcases fromLegacy_workspaceWrite_read_or_write hsource with ⟨target, rfl⟩ | hwrite
    · rw [(Legacy.ofEntry_readEntry target).2.1] at hadds
      cases hadds
    rcases mem_workspaceWriteEntries.1 hwrite with rfl | ⟨-, rfl⟩ | ⟨-, rfl⟩ | ⟨root, hroot, rfl⟩
    · cases hadds
    · cases hadds
    · cases hadds
    · rw [Legacy.ofEntry_write_path] at hadds
      split at hadds
      · cases hadds
      · rename_i hne
        obtain rfl : path = root := List.mem_singleton.1 hadds
        exact ⟨hroot, fun heq => hne heq.symm⟩
  · rintro ⟨hmem, hne⟩
    refine ⟨writeEntry (.path path), mem_fromLegacy_of_write
      (mem_workspaceWriteEntries.2 (.inr (.inr (.inr ⟨path, hmem, rfl⟩)))), ?_⟩
    rw [Legacy.ofEntry_write_path, if_neg hne.symm]
    exact List.mem_singleton_self path

theorem mem_collect_readableRoots (hfull : workspace.readOnlyAccess ≠ .fullAccess) :
    path ∈ (Legacy.collect host cwd full
      (fromLegacySandboxPolicy host cwd (.workspaceWrite workspace)).entries).readableRoots ↔
        readEntry (.path path) ∈
          (fromLegacySandboxPolicy host cwd (.workspaceWrite workspace)).entries := by
  show path ∈ List.flatMap _ _ ↔ _
  rw [List.mem_flatMap]
  constructor
  · rintro ⟨source, hsource, hadds⟩
    rcases fromLegacy_workspaceWrite_cases hsource with
      ⟨-, haccess⟩ | rfl | ⟨root, rfl⟩ | hwrite
    · exact absurd haccess hfull
    · cases hadds
    · obtain rfl : path = root := List.mem_singleton.1 hadds
      exact hsource
    rcases mem_workspaceWriteEntries.1 hwrite with rfl | ⟨-, rfl⟩ | ⟨-, rfl⟩ | ⟨root, -, rfl⟩
    · cases hadds
    · cases hadds
    · cases hadds
    · rw [Legacy.ofEntry_write_path] at hadds
      split at hadds <;> cases hadds
  · intro hmem
    exact ⟨_, hmem, List.mem_singleton_self path⟩

end

theorem toLegacy_workspaceWrite (workspace : WorkspaceWrite) :
    ∃ rebuilt, (fromLegacySandboxPolicy host cwd (.workspaceWrite workspace)).toLegacySandboxPolicy
        host cwd networkPolicy = .ok (.workspaceWrite rebuilt) ∧
      Rebuilt host cwd workspace rebuilt := by
  have hwritable (full : Bool) : (Legacy.collect host cwd full (fromLegacySandboxPolicy host cwd
      (.workspaceWrite workspace)).entries).workspaceRootWritable :=
    List.any_eq_true.2 ⟨writeEntry (.special .currentWorkingDirectory),
      mem_fromLegacy_of_write (mem_workspaceWriteEntries.2 (.inl rfl)), rfl⟩
  refine ⟨_, (toLegacy_restricted rfl (fromLegacy_fullWrite rfl)).trans (if_pos (hwritable _)),
    ?_, ?_, fun path => ?_, fun haccess => ?_, fun haccess => ?_⟩
  · show (!Legacy.tmpdirWritable _) = _
    rw [collect_tmpdirWritable, Bool.not_not]
  · show (!Legacy.slashTmpWritable _) = _
    rw [collect_slashTmpWritable, Bool.not_not]
  · exact mem_dedupAbsolutePaths.trans mem_collect_writableRoots
  · exact if_pos ((fromLegacy_fullRead workspace).2 haccess)
  · exact ⟨_, _, if_neg fun h => haccess ((fromLegacy_fullRead workspace).1 h), fun path =>
      mem_dedupAbsolutePaths.trans (mem_collect_readableRoots haccess)⟩

theorem mem_keptEntries_path {workspace : WorkspaceWrite} {source : FileSystemSandboxEntry}
    (hkept : source ∈ keptEntries host cwd workspace) (hpath : source.path = .path path) :
    source = readEntry (.path path) ∨
      source = writeEntry (.path path) ∧ path ∈ workspace.writableRoots := by
  rcases mem_keptEntries.1 hkept with ⟨hread, -⟩ | hwrite
  · obtain ⟨target, access⟩ := source
    exact .inl (by rw [← show target = .path path from hpath,
      show access = .read from workspaceReadEntries_access hread]; rfl)
  · rcases FileSystemSandboxPolicy.mem_workspaceWriteEntries.1 hwrite with
      rfl | ⟨-, rfl⟩ | ⟨-, rfl⟩ | ⟨root, hroot, rfl⟩
    · cases hpath
    · cases hpath
    · cases hpath
    · cases hpath
      exact .inr ⟨rfl, hroot⟩

theorem mem_keptEntries_root {workspace : WorkspaceWrite}
    (hfull : workspace.readOnlyAccess = .fullAccess) :
    readEntry (.special .root) ∈ keptEntries host cwd workspace :=
  mem_keptEntries.2 (.inl ⟨by rw [hfull]; exact List.mem_singleton_self _, rfl⟩)

theorem defaultReadOnlySubpaths_sub {subpath : AbsolutePathBuf}
    (h : subpath ∈ host.defaultReadOnlySubpathsForWritableRoot root false) :
    subpath ∈ host.defaultReadOnlySubpathsForWritableRoot root true := by
  rw [Host.defaultReadOnlySubpathsForWritableRoot, mem_dedupAbsolutePaths, List.mem_append] at h ⊢
  refine h.imp_right fun hcodex => ?_
  rw [if_pos (.inl rfl)]
  split at hcodex
  · exact hcodex
  · cases hcodex

section
variable {workspace rebuilt : WorkspaceWrite} (h : Rebuilt host cwd workspace rebuilt)

include h

theorem Rebuilt.mem_roots : root ∈ rebuilt.roots host cwd ↔ root ∈ workspace.roots host cwd := by
  simp only [WorkspaceWrite.roots, h.excludeSlashTmp, h.excludeTmpdirEnvVar, List.mem_append,
    h.mem_writableRoots, List.mem_singleton]
  by_cases hroot : root = cwd <;> simp [hroot]

theorem Rebuilt.retained_iff (source : FileSystemSandboxEntry) :
    retained ((SandboxPolicy.workspaceWrite rebuilt).getWritableRootsWithCwd host cwd) source ↔
      retained ((SandboxPolicy.workspaceWrite workspace).getWritableRootsWithCwd host cwd)
        source := by
  have hany (path : AbsolutePathBuf) :
      ((SandboxPolicy.workspaceWrite rebuilt).getWritableRootsWithCwd host cwd).any
          (·.isPathWritable path) =
        ((SandboxPolicy.workspaceWrite workspace).getWritableRootsWithCwd host cwd).any
          (·.isPathWritable path) := by
    rw [Bool.eq_iff_iff, SandboxPolicy.getWritableRootsWithCwd,
      SandboxPolicy.getWritableRootsWithCwd, List.any_map, List.any_map, List.any_eq_true,
      List.any_eq_true]
    simp only [h.mem_roots]
  rw [retained, retained]
  split
  · rfl
  · split
    · rw [hany]
    · rfl
    · rfl

theorem Rebuilt.mem_protectedPaths :
    path ∈ protectedPaths host cwd rebuilt ↔ path ∈ protectedPaths host cwd workspace := by
  rw [protectedPaths, protectedPaths, List.mem_append, List.mem_append, List.mem_flatMap,
    List.mem_flatMap]
  constructor
  · rintro (hcwd | ⟨root, hroot, hpath⟩)
    · exact .inl hcwd
    · exact .inr ⟨root, ((h.mem_writableRoots root).1 hroot).1, hpath⟩
  · rintro (hcwd | ⟨root, hroot, hpath⟩)
    · exact .inl hcwd
    · by_cases hroot' : root = cwd
      · exact .inl (defaultReadOnlySubpaths_sub (hroot' ▸ hpath))
      · exact .inr ⟨root, (h.mem_writableRoots root).2 ⟨hroot, hroot'⟩, hpath⟩

/-- A write entry stays a write entry, or names the cwd. -/
theorem Rebuilt.mem_workspaceWriteEntries {source : FileSystemSandboxEntry} :
    source ∈ workspaceWriteEntries workspace ↔
      source ∈ workspaceWriteEntries rebuilt ∨
        source = writeEntry (.path cwd) ∧ cwd ∈ workspace.writableRoots := by
  rw [FileSystemSandboxPolicy.mem_workspaceWriteEntries,
    FileSystemSandboxPolicy.mem_workspaceWriteEntries, h.excludeSlashTmp, h.excludeTmpdirEnvVar]
  constructor
  · rintro (hsource | hsource | hsource | ⟨path, hpath, rfl⟩)
    · exact .inl (.inl hsource)
    · exact .inl (.inr (.inl hsource))
    · exact .inl (.inr (.inr (.inl hsource)))
    · by_cases hcwd : path = cwd
      · exact .inr ⟨hcwd ▸ rfl, hcwd ▸ hpath⟩
      · exact .inl (.inr (.inr (.inr ⟨path, (h.mem_writableRoots path).2 ⟨hpath, hcwd⟩, rfl⟩)))
  · rintro ((hsource | hsource | hsource | ⟨path, hpath, rfl⟩) | ⟨rfl, hcwd⟩)
    · exact .inl hsource
    · exact .inr (.inl hsource)
    · exact .inr (.inr (.inl hsource))
    · exact .inr (.inr (.inr ⟨path, ((h.mem_writableRoots path).1 hpath).1, rfl⟩))
    · exact .inr (.inr (.inr ⟨cwd, hcwd, rfl⟩))

/-- The read entries for paths that bridging keeps again are entries already. -/
theorem Rebuilt.read_path_of_kept
    (hkept : readEntry (.path path) ∈ keptEntries host cwd rebuilt) :
    readEntry (.path path) ∈
      (fromLegacySandboxPolicy host cwd (.workspaceWrite workspace)).entries := by
  rcases mem_keptEntries.1 hkept with ⟨hread, -⟩ | hwrite
  · by_cases hfull : workspace.readOnlyAccess = .fullAccess
    · rw [h.fullAccess hfull] at hread
      cases List.mem_singleton.1 hread
    · obtain ⟨includePlatformDefaults, readableRoots, haccess, hroots⟩ := h.restricted hfull
      rw [haccess] at hread
      rcases mem_restrictedReadEntries.1 hread with ⟨-, heq⟩ | ⟨root, hroot, heq⟩
      · cases heq
      · cases heq
        exact (hroots path).1 hroot
  · cases workspaceWriteEntries_access hwrite

/-- A read entry for a path that is kept at first is kept again. -/
theorem Rebuilt.kept_of_kept (hkept : readEntry (.path path) ∈ keptEntries host cwd workspace) :
    readEntry (.path path) ∈ keptEntries host cwd rebuilt := by
  rcases mem_keptEntries.1 hkept with ⟨hread, hretained⟩ | hwrite
  · refine mem_keptEntries.2 (.inl ⟨?_, (h.retained_iff _).2 hretained⟩)
    have hfull : workspace.readOnlyAccess ≠ .fullAccess := by
      intro hfull
      rw [hfull] at hread
      cases List.mem_singleton.1 hread
    obtain ⟨includePlatformDefaults, readableRoots, haccess, hroots⟩ := h.restricted hfull
    rw [haccess]
    exact mem_restrictedReadEntries.2 (.inr ⟨path, (hroots path).2
      (mem_fromLegacy_workspaceWrite.2 (.inl hkept)), rfl⟩)
  · cases workspaceWriteEntries_access hwrite

/-- A protected path keeps its read entry. -/
theorem Rebuilt.read_path_of_protected (hprotected : path ∈ protectedPaths host cwd workspace)
    (hnone : ∀ source ∈ keptEntries host cwd workspace, source.path ≠ .path path) :
    readEntry (.path path) ∈
      (fromLegacySandboxPolicy host cwd (.workspaceWrite rebuilt)).entries := by
  by_cases hkept : readEntry (.path path) ∈ keptEntries host cwd rebuilt
  · exact mem_fromLegacy_workspaceWrite.2 (.inl hkept)
  · refine mem_fromLegacy_workspaceWrite.2 (.inr ⟨path, h.mem_protectedPaths.2 hprotected, rfl,
      fun source hsource hpath => ?_⟩)
    rcases mem_keptEntries_path hsource hpath with rfl | ⟨rfl, hroot⟩
    · exact hkept hsource
    · refine hnone (writeEntry (.path path)) (mem_keptEntries.2 (.inr ?_)) rfl
      exact FileSystemSandboxPolicy.mem_workspaceWriteEntries.2
        (.inr (.inr (.inr ⟨path, ((h.mem_writableRoots path).1 hroot).1, rfl⟩)))

/-- Bridging again gives the entries of the first bridging, and at most a read entry for the cwd,
which the write entry for the cwd covers. -/
theorem Rebuilt.coveredBy : CoveredBy host cwd
    (fromLegacySandboxPolicy host cwd (.workspaceWrite workspace))
    (fromLegacySandboxPolicy host cwd (.workspaceWrite rebuilt)) where
  kind := rfl
  kind' := rfl
  fullWrite := fromLegacy_fullWrite rfl
  fullWrite' := fromLegacy_fullWrite rfl
  access _ := fromLegacy_access
  sub entry hentry := by
    obtain ⟨source, hsource, hresolved, haccess⟩ := mem_resolvedEntries.1 hentry
    have hresolves (hmem : source ∈
        (fromLegacySandboxPolicy host cwd (.workspaceWrite rebuilt)).entries) :=
      mem_resolvedEntries.2 ⟨source, hmem, hresolved, haccess⟩
    rcases mem_fromLegacy_workspaceWrite.1 hsource with hkept | ⟨path, hpath, rfl, hnone⟩
    · rcases mem_keptEntries.1 hkept with ⟨hread, hretained⟩ | hwrite
      · rcases kept_read_cases hread with ⟨rfl, hfull⟩ | rfl | ⟨path, rfl⟩
        · exact hresolves (mem_fromLegacy_workspaceWrite.2
            (.inl (mem_keptEntries_root (h.fullAccess hfull))))
        · cases hresolved
        · exact hresolves (mem_fromLegacy_workspaceWrite.2 (.inl (h.kept_of_kept hkept)))
      · rcases h.mem_workspaceWriteEntries.1 hwrite with hwrite' | ⟨rfl, -⟩
        · exact hresolves (mem_fromLegacy_of_write hwrite')
        · -- The entry for the cwd by its path is left, the special one for it stays.
          refine mem_resolvedEntries.2 ⟨writeEntry (.special .currentWorkingDirectory),
            mem_fromLegacy_of_write (FileSystemSandboxPolicy.mem_workspaceWriteEntries.2
              (.inl rfl)), hresolved, haccess⟩
    · exact hresolves (h.read_path_of_protected hpath hnone)
  covered entry hentry := by
    obtain ⟨source, hsource, hresolved, haccess⟩ := mem_resolvedEntries.1 hentry
    have hsame (hmem : source ∈
        (fromLegacySandboxPolicy host cwd (.workspaceWrite workspace)).entries) :
        ∃ covering ∈ (fromLegacySandboxPolicy host cwd
          (.workspaceWrite workspace)).resolvedEntriesWithCwd host cwd,
          covering.path = entry.path ∧ entry.access ≤ covering.access :=
      ⟨entry, mem_resolvedEntries.2 ⟨source, hmem, hresolved, haccess⟩, rfl, le_refl _⟩
    rcases mem_fromLegacy_workspaceWrite.1 hsource with hkept | ⟨path, hpath, rfl, hnone⟩
    · rcases mem_keptEntries.1 hkept with ⟨hread, -⟩ | hwrite
      · rcases kept_read_cases hread with ⟨rfl, hfull⟩ | rfl | ⟨path, rfl⟩
        · refine hsame (mem_fromLegacy_workspaceWrite.2 (.inl (mem_keptEntries_root ?_)))
          by_contra hne
          obtain ⟨_, _, haccess', -⟩ := h.restricted hne
          cases haccess'.symm.trans hfull
        · cases hresolved
        · exact hsame (h.read_path_of_kept hkept)
      · exact hsame (mem_fromLegacy_of_write (h.mem_workspaceWriteEntries.2 (.inl hwrite)))
    · by_cases hmem : readEntry (.path path) ∈
          (fromLegacySandboxPolicy host cwd (.workspaceWrite workspace)).entries
      · exact hsame hmem
      -- The path had an entry of its own at first, which is left: it is the cwd.
      obtain ⟨source, hkept, hsource⟩ : ∃ source ∈ keptEntries host cwd workspace,
          source.path = .path path := by
        by_contra hnone'
        exact hmem (mem_fromLegacy_workspaceWrite.2 (.inr ⟨path, h.mem_protectedPaths.1 hpath,
          rfl, fun source hkept hsource => hnone' ⟨source, hkept, hsource⟩⟩))
      rcases mem_keptEntries_path hkept hsource with rfl | ⟨rfl, hroot⟩
      · exact absurd (mem_fromLegacy_workspaceWrite.2 (.inl hkept)) hmem
      have hcwd : path = cwd := by
        by_contra hne
        exact hnone (writeEntry (.path path)) (mem_keptEntries.2 (.inr
          (FileSystemSandboxPolicy.mem_workspaceWriteEntries.2 (.inr (.inr (.inr
            ⟨path, (h.mem_writableRoots path).2 ⟨hroot, hne⟩, rfl⟩)))))) rfl
      refine ⟨⟨cwd, .write⟩, mem_resolvedEntries.2 ⟨writeEntry (.special .currentWorkingDirectory),
        mem_fromLegacy_of_write (FileSystemSandboxPolicy.mem_workspaceWriteEntries.2 (.inl rfl)),
        rfl, rfl⟩, ?_, ?_⟩
      · exact hcwd.symm.trans (Option.some.inj hresolved)
      · exact haccess ▸ FileSystemAccessMode.read_le _

end

/-! ### A read-only policy -/

/-- A policy that only reads becomes a read-only policy. -/
theorem toLegacy_of_reads (hkind : policy.kind = .restricted)
    (hfull : policy.hasFullDiskWriteAccess = false)
    (hreads : ∀ source ∈ policy.entries, ∃ target, source = readEntry target) :
    policy.toLegacySandboxPolicy host cwd networkPolicy = .ok (.readOnly
      (if policy.hasFullDiskReadAccess then .fullAccess
        else
          let legacy := Legacy.collect host cwd policy.hasFullDiskReadAccess policy.entries
          .restricted legacy.includePlatformDefaults (dedupAbsolutePaths legacy.readableRoots))
      networkPolicy.isEnabled) := by
  have hany (adds : Legacy → Bool) (hadds : ∀ target,
      adds (Legacy.ofEntry host cwd policy.hasFullDiskReadAccess (readEntry target)) = false) :
      policy.entries.any (fun source =>
        adds (Legacy.ofEntry host cwd policy.hasFullDiskReadAccess source)) = false := by
    refine List.any_eq_false.2 fun source hsource => ?_
    obtain ⟨target, rfl⟩ := hreads source hsource
    rw [hadds target]
    decide
  have hwritable : (Legacy.collect host cwd policy.hasFullDiskReadAccess
      policy.entries).workspaceRootWritable = false :=
    hany _ fun target => (Legacy.ofEntry_readEntry target).1
  have htmpdir : (Legacy.collect host cwd policy.hasFullDiskReadAccess
      policy.entries).tmpdirWritable = false :=
    hany _ fun target => (Legacy.ofEntry_readEntry target).2.2.1
  have hslashTmp : (Legacy.collect host cwd policy.hasFullDiskReadAccess
      policy.entries).slashTmpWritable = false :=
    hany _ fun target => (Legacy.ofEntry_readEntry target).2.2.2.1
  have hroot : (Legacy.collect host cwd policy.hasFullDiskReadAccess
      policy.entries).unbridgeableRootWrite = false :=
    hany _ fun target => (Legacy.ofEntry_readEntry target).2.2.2.2
  have hroots : (Legacy.collect host cwd policy.hasFullDiskReadAccess
      policy.entries).writableRoots = [] := by
    refine List.flatMap_eq_nil_iff.2 fun source hsource => ?_
    obtain ⟨target, rfl⟩ := hreads source hsource
    exact (Legacy.ofEntry_readEntry target).2.1
  rw [toLegacy_restricted hkind hfull]
  simp only [hwritable, htmpdir, hslashTmp, hroot, hroots]
  rfl

theorem CoveredBy.refl (hkind : policy.kind = .restricted)
    (hfull : policy.hasFullDiskWriteAccess = false)
    (haccess : ∀ source ∈ policy.entries, source.access ≠ .none) :
    CoveredBy host cwd policy policy :=
  ⟨hkind, hkind, hfull, hfull, haccess, fun _ h => h, fun entry h => ⟨entry, h, rfl, le_refl _⟩⟩

theorem fromLegacy_readOnly_reads {access : ReadOnlyAccess} {networkAccess : Bool}
    {source : FileSystemSandboxEntry}
    (h : source ∈ (fromLegacySandboxPolicy host cwd (.readOnly access networkAccess)).entries) :
    ∃ target, source = readEntry target := by
  cases access with
  | fullAccess => exact ⟨_, List.mem_singleton.1 h⟩
  | restricted includePlatformDefaults readableRoots =>
    rcases List.mem_cons.1 h with rfl | h
    · exact ⟨_, rfl⟩
    rcases mem_restrictedReadEntries.1 h with ⟨-, rfl⟩ | ⟨path, -, rfl⟩
    · exact ⟨_, rfl⟩
    · exact ⟨_, rfl⟩

theorem mem_resolved_readOnly {includePlatformDefaults networkAccess : Bool}
    {readableRoots : List AbsolutePathBuf} :
    entry ∈ (fromLegacySandboxPolicy host cwd
        (.readOnly (.restricted includePlatformDefaults readableRoots)
          networkAccess)).resolvedEntriesWithCwd host cwd ↔
      entry.access = .read ∧ (entry.path = cwd ∨ entry.path ∈ readableRoots) := by
  rw [mem_resolvedEntries]
  constructor
  · rintro ⟨source, hsource, hresolved, haccess⟩
    rcases List.mem_cons.1 hsource with rfl | hsource
    · exact ⟨haccess.symm, .inl (Option.some.inj hresolved).symm⟩
    rcases mem_restrictedReadEntries.1 hsource with ⟨-, rfl⟩ | ⟨path, hpath, rfl⟩
    · cases hresolved
    · exact ⟨haccess.symm, .inr (Option.some.inj hresolved ▸ hpath)⟩
  · rintro ⟨haccess, hcwd | hroot⟩
    · exact ⟨_, List.mem_cons_self, by rw [hcwd]; rfl, haccess.symm⟩
    · exact ⟨readEntry (.path entry.path), List.mem_cons_of_mem _
        (mem_restrictedReadEntries.2 (.inr ⟨_, hroot, rfl⟩)), rfl, haccess.symm⟩

theorem toLegacy_readOnly (access : ReadOnlyAccess) (networkAccess : Bool) :
    ∃ rebuilt, (fromLegacySandboxPolicy host cwd
        (.readOnly access networkAccess)).toLegacySandboxPolicy host cwd networkPolicy =
          .ok (.readOnly rebuilt networkPolicy.isEnabled) ∧
      CoveredBy host cwd (fromLegacySandboxPolicy host cwd (.readOnly access networkAccess))
        (fromLegacySandboxPolicy host cwd (.readOnly rebuilt networkPolicy.isEnabled)) := by
  have hkind : (fromLegacySandboxPolicy host cwd (.readOnly access networkAccess)).kind =
      .restricted := by
    cases access <;> rfl
  refine ⟨_, toLegacy_of_reads hkind (fromLegacy_fullWrite hkind)
    (fun source => fromLegacy_readOnly_reads), ?_⟩
  cases access with
  | fullAccess => exact .refl rfl (fromLegacy_fullWrite rfl) (fun _ => fromLegacy_access)
  | restricted includePlatformDefaults readableRoots =>
    have hfull : (fromLegacySandboxPolicy host cwd (.readOnly
        (.restricted includePlatformDefaults readableRoots)
          networkAccess)).hasFullDiskReadAccess = false := by
      by_contra hread
      obtain ⟨⟨source, hsource, hpath, -⟩, -⟩ :=
        (fullDiskRead_iff rfl).1 (Bool.not_eq_false _ ▸ hread)
      rcases List.mem_cons.1 hsource with rfl | hsource
      · cases hpath
      rcases mem_restrictedReadEntries.1 hsource with ⟨-, rfl⟩ | ⟨path, -, rfl⟩ <;> cases hpath
    rw [hfull, if_neg (by decide)]
    have hroots (path : AbsolutePathBuf) : path ∈ dedupAbsolutePaths (Legacy.collect host cwd false
        (fromLegacySandboxPolicy host cwd (.readOnly (.restricted includePlatformDefaults
          readableRoots) networkAccess)).entries).readableRoots ↔ path = cwd ∨ path ∈ readableRoots := by
      rw [mem_dedupAbsolutePaths]
      show path ∈ List.flatMap _ _ ↔ _
      rw [List.mem_flatMap]
      constructor
      · rintro ⟨source, hsource, hadds⟩
        rcases List.mem_cons.1 hsource with rfl | hsource
        · exact .inl (List.mem_singleton.1 hadds)
        rcases mem_restrictedReadEntries.1 hsource with ⟨-, rfl⟩ | ⟨root, hroot, rfl⟩
        · cases hadds
        · exact .inr (List.mem_singleton.1 hadds ▸ hroot)
      · rintro (rfl | hroot)
        · exact ⟨_, List.mem_cons_self, List.mem_singleton_self _⟩
        · exact ⟨_, List.mem_cons_of_mem _
            (mem_restrictedReadEntries.2 (.inr ⟨path, hroot, rfl⟩)), List.mem_singleton_self _⟩
    refine ⟨rfl, rfl, fromLegacy_fullWrite rfl, fromLegacy_fullWrite rfl,
      fun _ => fromLegacy_access, fun entry hentry => ?_, fun entry hentry => ⟨entry, ?_, rfl,
        le_refl _⟩⟩
    · obtain ⟨haccess, hpath⟩ := mem_resolved_readOnly.1 hentry
      exact mem_resolved_readOnly.2 ⟨haccess, .inr ((hroots _).2 hpath)⟩
    · obtain ⟨haccess, hpath | hpath⟩ := mem_resolved_readOnly.1 hentry
      · exact mem_resolved_readOnly.2 ⟨haccess, .inl hpath⟩
      · exact mem_resolved_readOnly.2 ⟨haccess, (hroots _).1 hpath⟩

/-! ## The bridge -/

/-- The two policies read and write the same paths. -/
def SameAccess (host : Host) (cwd : AbsolutePathBuf) (policy policy' : FileSystemSandboxPolicy) :
    Prop :=
  ∀ path, policy.canReadPathWithCwd host cwd path = policy'.canReadPathWithCwd host cwd path ∧
    (policy.PermitsWrite host cwd path ↔ policy'.PermitsWrite host cwd path)

theorem CoveredBy.sameAccess (h : CoveredBy host cwd policy bridged) :
    SameAccess host cwd policy bridged := fun path =>
  ⟨(congrArg FileSystemAccessMode.canRead (h.resolveAccess path)).symm, (h.permitsWrite path).symm⟩

/-- Policies that restrict nothing have the same access. -/
theorem sameAccess_of_unrestricted {policy' : FileSystemSandboxPolicy}
    (hkind : policy.kind ≠ .restricted) (hkind' : policy'.kind ≠ .restricted) :
    SameAccess host cwd policy policy' := by
  have hfull {policy : FileSystemSandboxPolicy} (hkind : policy.kind ≠ .restricted)
      (path : AbsolutePathBuf) : policy.canReadPathWithCwd host cwd path ∧
        policy.PermitsWrite host cwd path := by
    rw [canReadPathWithCwd, resolveAccessWithCwd, PermitsWrite, hasFullDiskWriteAccess]
    cases hcase : policy.kind with
    | restricted => exact absurd hcase hkind
    | unrestricted | externalSandbox => exact ⟨rfl, .inl rfl⟩
  intro path
  exact ⟨(hfull hkind path).1.trans (hfull hkind' path).1.symm,
    iff_of_true (hfull hkind path).2 (hfull hkind' path).2⟩

/-- Bridging to a legacy policy and back again changes nothing more. -/
theorem sameAccess_bridged_again (sandboxPolicy : SandboxPolicy) :
    ∃ rebuilt, (fromLegacySandboxPolicy host cwd sandboxPolicy).toLegacySandboxPolicy host cwd
        networkPolicy = .ok rebuilt ∧
      SameAccess host cwd (fromLegacySandboxPolicy host cwd sandboxPolicy)
        (fromLegacySandboxPolicy host cwd rebuilt) := by
  cases sandboxPolicy with
  | dangerFullAccess =>
    refine ⟨_, rfl, sameAccess_of_unrestricted ?_ ?_⟩
    · show FileSystemSandboxKind.unrestricted ≠ .restricted
      decide
    · rw [fullWriteSandboxPolicy]
      split
      · show FileSystemSandboxKind.unrestricted ≠ .restricted
        decide
      · show FileSystemSandboxKind.externalSandbox ≠ .restricted
        decide
  | externalSandbox networkAccess =>
    refine ⟨_, rfl, sameAccess_of_unrestricted ?_ ?_⟩ <;>
    · show FileSystemSandboxKind.externalSandbox ≠ .restricted
      decide
  | readOnly access networkAccess =>
    obtain ⟨rebuilt, hto, hcovered⟩ : ∃ rebuilt, (fromLegacySandboxPolicy host cwd
        (.readOnly access networkAccess)).toLegacySandboxPolicy host cwd networkPolicy =
          .ok (.readOnly rebuilt networkPolicy.isEnabled) ∧
        CoveredBy host cwd (fromLegacySandboxPolicy host cwd (.readOnly access networkAccess))
          (fromLegacySandboxPolicy host cwd (.readOnly rebuilt networkPolicy.isEnabled)) :=
      toLegacy_readOnly access networkAccess
    exact ⟨_, hto, hcovered.sameAccess⟩
  | workspaceWrite workspace =>
    obtain ⟨rebuilt, hto, hrebuilt⟩ : ∃ rebuilt, (fromLegacySandboxPolicy host cwd
        (.workspaceWrite workspace)).toLegacySandboxPolicy host cwd networkPolicy =
          .ok (.workspaceWrite rebuilt) ∧ Rebuilt host cwd workspace rebuilt :=
      toLegacy_workspaceWrite workspace
    exact ⟨_, hto, hrebuilt.coveredBy.sameAccess⟩

/-- What the bridge keeps of a policy that needs no enforcement of its own, and of a policy that
came over it. -/
theorem bridge_keeps_access (host : Host) (cwd : AbsolutePathBuf)
    (networkPolicy : NetworkSandboxPolicy) :
    (∀ policy : FileSystemSandboxPolicy, policy.kind = .restricted →
      policy.needsDirectRuntimeEnforcement host cwd networkPolicy = false →
      ∃ legacyPolicy, policy.toLegacySandboxPolicy host cwd networkPolicy = .ok legacyPolicy ∧
        SameAccess host cwd policy (fromLegacySandboxPolicy host cwd legacyPolicy) ∧
        policy.getUnreadableGlobsWithCwd host cwd =
          (fromLegacySandboxPolicy host cwd legacyPolicy).getUnreadableGlobsWithCwd host cwd) ∧
    ∀ sandboxPolicy, ∃ rebuilt, (fromLegacySandboxPolicy host cwd
        sandboxPolicy).toLegacySandboxPolicy host cwd networkPolicy = .ok rebuilt ∧
      SameAccess host cwd (fromLegacySandboxPolicy host cwd sandboxPolicy)
        (fromLegacySandboxPolicy host cwd rebuilt) := by
  refine ⟨fun policy hkind hneeds => ?_, sameAccess_bridged_again⟩
  rw [needsDirectRuntimeEnforcement, if_neg (not_not.2 hkind)] at hneeds
  split at hneeds
  · cases hneeds
  · rename_i legacyPolicy hto
    have hsame := not_not.1 (of_decide_eq_false hneeds)
    refine ⟨legacyPolicy, hto, fun path => ⟨?_, ?_⟩, ?_⟩
    · exact canRead_of_semanticSignature hkind hsame (fromLegacy_unreadableRoots legacyPolicy) path
    · have hfull : policy.hasFullDiskWriteAccess = _ :=
        congrArg SemanticSignature.hasFullDiskWriteAccess hsame
      have hroots : policy.getWritableRootsWithCwd host cwd = _ :=
        congrArg SemanticSignature.writableRoots hsame
      rw [PermitsWrite, hfull, hroots]
      rfl
    · exact congrArg SemanticSignature.unreadableGlobs hsame

theorem bridge_keeps_access_read_root :
    let policy := restricted [⟨.special .root, .read⟩]
    ∃ legacyPolicy, policy.toLegacySandboxPolicy bareHost .root .restricted = .ok legacyPolicy ∧
      SameAccess bareHost .root policy (fromLegacySandboxPolicy bareHost .root legacyPolicy) ∧
      policy.getUnreadableGlobsWithCwd bareHost .root =
        (fromLegacySandboxPolicy bareHost .root legacyPolicy).getUnreadableGlobsWithCwd bareHost
          .root :=
  (bridge_keeps_access bareHost .root .restricted).1 (restricted [⟨.special .root, .read⟩]) rfl
    (by decide)

end FileSystemSandboxPolicy

end Mcodex.Permissions
