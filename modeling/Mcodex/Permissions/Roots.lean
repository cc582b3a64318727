import Mcodex.Permissions.Access

/-!
# The roots of a sandbox and the policy they come from

A sandbox is given writable roots, each with the subpaths that stay read-only. They permit what the
policy permits, apart from the default read-only subpaths. Full write access is decided by the
entries without the host: an entry for `/tmp` that is only read is passed over where a special
entry writes to `/tmp`, also when there is no directory `/tmp` and the special entry gives nothing.
-/

namespace Mcodex.Permissions

namespace FileSystemSandboxPolicy

variable {host : Host} {policy : FileSystemSandboxPolicy} {cwd path root : AbsolutePathBuf}
  {entry : ResolvedFileSystemEntry}

/-! ## The roots and their carve-outs -/

theorem carveoutPath_eq (root : AbsolutePathBuf) (entry : ResolvedFileSystemEntry) :
    carveoutPath root entry =
      if entry.path ≠ root ∧ entry.path.startsWith root then some entry.path else none := by
  rw [carveoutPath, normalizeEffectiveAbsolutePath]
  by_cases hin : entry.path ≠ root ∧ entry.path.startsWith root
  · rw [if_pos hin]
    split
    · rename_i heq
      split at heq
      · exact heq.symm
      · cases heq
    · rw [if_neg (by simp [hin.1, hin.2])]
  · rw [if_neg fun h => hin h.2, if_neg hin]
    simp only [ite_eq_left_iff, reduceCtorEq, imp_false, not_not]
    by_cases hroot : entry.path = root
    · exact .inl hroot
    · exact .inr (by simpa using fun h => hin ⟨hroot, h⟩)

theorem mem_readOnlySubpaths {subpath : AbsolutePathBuf} :
    subpath ∈ policy.readOnlySubpaths host cwd root ↔
      (subpath ∈ host.defaultReadOnlySubpathsForWritableRoot root (cwd = root) ∧
        ¬ hasExplicitResolvedPathEntry (policy.resolvedEntriesWithCwd host cwd) subpath) ∨
      ∃ entry ∈ policy.resolvedEntriesWithCwd host cwd, entry.access ≠ .write ∧
        ¬ policy.canWritePathWithCwd host cwd entry.path ∧ entry.path ≠ root ∧
          entry.path.startsWith root ∧ entry.path = subpath := by
  rw [readOnlySubpaths, mem_dedupAbsolutePaths, List.mem_append, List.mem_filter,
    List.mem_filterMap]
  refine or_congr (and_congr_right' (by rw [Bool.not_eq_true', Bool.not_eq_true])) ?_
  constructor
  · rintro ⟨entry, hmem, hpath⟩
    obtain ⟨hmem, hwrite⟩ := List.mem_filter.1 hmem
    obtain ⟨hmem, haccess⟩ := List.mem_filter.1 hmem
    rw [carveoutPath_eq] at hpath
    split at hpath
    · rename_i hin
      exact ⟨entry, hmem, by simpa [FileSystemAccessMode.canWrite] using haccess,
        by simpa using hwrite, hin.1, hin.2, Option.some.inj hpath⟩
    · cases hpath
  · rintro ⟨entry, hmem, haccess, hwrite, hne, hin, rfl⟩
    refine ⟨entry, List.mem_filter.2 ⟨List.mem_filter.2 ⟨hmem, ?_⟩, by simpa using hwrite⟩, ?_⟩
    · simpa [FileSystemAccessMode.canWrite] using haccess
    · rw [carveoutPath_eq, if_pos ⟨hne, hin⟩]

/-- The writable roots are the paths of the write entries that are not shadowed there. -/
theorem mem_getWritableRoots {writableRoot : WritableRoot} :
    writableRoot ∈ policy.getWritableRootsWithCwd host cwd ↔
      policy.hasFullDiskWriteAccess = false ∧
        ∃ entry ∈ policy.resolvedEntriesWithCwd host cwd, entry.access = .write ∧
          policy.canWritePathWithCwd host cwd entry.path ∧
            writableRoot = ⟨entry.path, policy.readOnlySubpaths host cwd entry.path⟩ := by
  rw [getWritableRootsWithCwd]
  cases policy.hasFullDiskWriteAccess with
  | true => simp
  | false =>
    rw [if_neg (by decide), List.mem_map]
    constructor
    · rintro ⟨path, hpath, rfl⟩
      obtain ⟨entry, hmem, rfl⟩ := List.mem_map.1 (mem_dedupAbsolutePaths.1 hpath)
      obtain ⟨hmem, hwrite⟩ := List.mem_filter.1 hmem
      obtain ⟨hmem, haccess⟩ := List.mem_filter.1 hmem
      exact ⟨rfl, entry, hmem, FileSystemAccessMode.canWrite_iff.1 haccess, hwrite, rfl⟩
    · rintro ⟨-, entry, hmem, haccess, hwrite, rfl⟩
      refine ⟨entry.path, mem_dedupAbsolutePaths.2 (List.mem_map_of_mem ?_), rfl⟩
      exact List.mem_filter.2
        ⟨List.mem_filter.2 ⟨hmem, FileSystemAccessMode.canWrite_iff.2 haccess⟩, hwrite⟩

/-- What a writable root permits, the policy permits. -/
theorem canWrite_of_isPathWritable (hkind : policy.kind = .restricted)
    {writableRoot : WritableRoot}
    (hroot : writableRoot ∈ policy.getWritableRootsWithCwd host cwd)
    (hpath : writableRoot.isPathWritable path) : policy.canWritePathWithCwd host cwd path := by
  obtain ⟨-, entry, hmem, haccess, hwrite, rfl⟩ := mem_getWritableRoots.1 hroot
  obtain ⟨hin, hsubpaths⟩ := WritableRoot.isPathWritable_iff.1 hpath
  obtain ⟨winner, hwinner⟩ := exists_decides hmem hin
  rw [canWrite_iff hkind]
  refine ⟨winner, hwinner, ?_⟩
  by_contra hne
  have hwinnerWrite : ¬ policy.canWritePathWithCwd host cwd winner.path := by
    rw [canWrite_iff hkind]
    rintro ⟨entry', hentry', haccess'⟩
    exact hne ((rule_injective (hwinner.self.unique hentry')) ▸ haccess')
  -- The entry that decides is a carve-out, unless it stands at the root and shadows it.
  have hne' : winner.path ≠ entry.path := fun heq => hwinnerWrite (heq ▸ hwrite)
  exact hsubpaths winner.path
    (mem_readOnlySubpaths.2 (.inr ⟨winner, hwinner.mem, hne, hwinnerWrite, hne',
      hwinner.above hmem hin, rfl⟩)) hwinner.startsWith

/-- A default read-only subpath of a writable root that has no entry of its own lies above the
path. -/
def UnderDefault (host : Host) (policy : FileSystemSandboxPolicy) (cwd path : AbsolutePathBuf) :
    Prop :=
  ∃ writableRoot ∈ policy.getWritableRootsWithCwd host cwd,
    ∃ subpath ∈ host.defaultReadOnlySubpathsForWritableRoot writableRoot.root
        (cwd = writableRoot.root),
      ¬ hasExplicitResolvedPathEntry (policy.resolvedEntriesWithCwd host cwd) subpath ∧
        path.startsWith subpath

/-- What the policy permits to write, some writable root permits. -/
theorem exists_isPathWritable (hkind : policy.kind = .restricted)
    (hpath : policy.canWritePathWithCwd host cwd path)
    (hdefault : ¬ policy.UnderDefault host cwd path) :
    policy.hasFullDiskWriteAccess ∨
      ∃ writableRoot ∈ policy.getWritableRootsWithCwd host cwd,
        writableRoot.isPathWritable path := by
  cases hfull : policy.hasFullDiskWriteAccess with
  | true => exact .inl rfl
  | false =>
    obtain ⟨winner, hwinner, haccess⟩ := (canWrite_iff hkind).1 hpath
    have hroot := mem_getWritableRoots.2 ⟨hfull, winner, hwinner.mem, haccess,
      (canWrite_iff hkind).2 ⟨winner, hwinner.self, haccess⟩, rfl⟩
    refine .inr ⟨_, hroot, WritableRoot.isPathWritable_iff.2 ⟨hwinner.startsWith, ?_⟩⟩
    intro subpath hsubpath happlies
    rcases mem_readOnlySubpaths.1 hsubpath with
      ⟨hmem, hexplicit⟩ | ⟨entry, hmem, hne, -, hpath', hin, rfl⟩
    · exact hdefault ⟨_, hroot, subpath, hmem, hexplicit, happlies⟩
    · -- A carve-out above the path would be more specific than the entry that decides.
      rcases hwinner.most hmem happlies with hlt | ⟨heq, -⟩
      · have := (AbsolutePathBuf.startsWith_iff.1 hin).length_le
        omega
      · exact hpath' heq

/-! ## Full access -/

theorem fullDiskWrite_iff (hkind : policy.kind = .restricted) :
    policy.hasFullDiskWriteAccess ↔
      policy.hasRootAccess FileSystemAccessMode.canWrite ∧ ¬ policy.hasWriteNarrowingEntries := by
  have hfull : policy.hasFullDiskWriteAccess =
      (policy.hasRootAccess FileSystemAccessMode.canWrite && !policy.hasWriteNarrowingEntries) := by
    rw [hasFullDiskWriteAccess, hkind]
  rw [hfull, Bool.and_eq_true, Bool.not_eq_true', Bool.not_eq_true]

theorem hasWriteNarrowingEntries_iff (hkind : policy.kind = .restricted) :
    policy.hasWriteNarrowingEntries ↔ ∃ source ∈ policy.entries, policy.narrowsWrite source := by
  simp [hasWriteNarrowingEntries, hkind]

theorem fullDiskRead_iff (hkind : policy.kind = .restricted) :
    policy.hasFullDiskReadAccess ↔
      (∃ source ∈ policy.entries, source.path = .special .root ∧ source.access ≠ .none) ∧
        ∀ source ∈ policy.entries, source.access ≠ .none := by
  have hfull : policy.hasFullDiskReadAccess =
      (policy.hasRootAccess FileSystemAccessMode.canRead && !policy.hasDeniedReadRestrictions) := by
    rw [hasFullDiskReadAccess, hkind]
  rw [hfull, Bool.and_eq_true, hasRootAccess_iff hkind]
  simp [hasDeniedReadRestrictions, hkind, FileSystemAccessMode.canRead]

/-- Full read access makes every path readable. -/
theorem canRead_of_fullDiskRead (hkind : policy.kind = .restricted)
    (h : policy.hasFullDiskReadAccess) (path : AbsolutePathBuf) :
    policy.canReadPathWithCwd host cwd path := by
  obtain ⟨⟨source, hsource, hpath, -⟩, hnone⟩ := (fullDiskRead_iff hkind).1 h
  obtain ⟨winner, hwinner⟩ :=
    exists_decides (mem_resolvedEntries_root hsource hpath) (startsWith_root path)
  obtain ⟨source', hsource', -, haccess⟩ := mem_resolvedEntries.1 hwinner.mem
  exact (canRead_iff hkind).2 ⟨winner, hwinner, haccess ▸ hnone source' hsource'⟩

theorem specialPathsShareTarget_cases {left right : FileSystemSpecialPath}
    (h : specialPathsShareTarget left right) :
    left = right ∨ left = .currentWorkingDirectory ∧ right = .projectRoots none ∨
      left = .projectRoots none ∧ right = .currentWorkingDirectory := by
  unfold specialPathsShareTarget at h
  split at h <;> simp_all

/-- Entries that share a target resolve to one path, except for `/tmp` where it is no directory. -/
theorem resolve_of_shareTarget {left right : FileSystemPath}
    (h : fileSystemPathsShareTarget left right)
    (hright : host.resolveEntryPath cwd right = some path) :
    host.resolveEntryPath cwd left = some path ∨
      left = .special .slashTmp ∧ right = .path .slashTmp := by
  cases left with
  | path left =>
    cases right with
    | path right =>
      obtain rfl : left = right := of_decide_eq_true h
      exact .inl hright
    | globPattern _ => cases h
    | special value =>
      refine .inl ?_
      cases value with
      | root =>
        rw [← hright]
        refine congrArg some (AbsolutePathBuf.ext_names ?_)
        by_contra hne
        simp [fileSystemPathsShareTarget, specialPathMatchesAbsolutePath, AbsolutePathBuf.parent,
          show left.names ≠ [] from hne] at h
      | slashTmp =>
        obtain rfl : left = .slashTmp := of_decide_eq_true h
        have hslashTmp : (if host.isDir .slashTmp then some .slashTmp else none) = some path :=
          hright
        split at hslashTmp
        · exact hslashTmp
        · cases hslashTmp
      | _ => cases h
  | globPattern _ =>
    cases right with
    | globPattern _ => cases hright
    | path _ | special _ => cases h
  | special value =>
    cases right with
    | path right =>
      cases value with
      | root =>
        refine .inl (hright ▸ congrArg some (AbsolutePathBuf.ext_names ?_))
        by_contra hne
        simp [fileSystemPathsShareTarget, specialPathMatchesAbsolutePath, AbsolutePathBuf.parent,
          show right.names ≠ [] from fun heq => hne heq.symm] at h
      | slashTmp =>
        obtain rfl : right = .slashTmp := of_decide_eq_true h
        exact .inr ⟨rfl, rfl⟩
      | _ => cases h
    | globPattern _ => cases h
    | special value' =>
      refine .inl (Eq.trans ?_ hright)
      rcases specialPathsShareTarget_cases h with rfl | ⟨rfl, rfl⟩ | ⟨rfl, rfl⟩ <;> rfl

/-- Full write access is decided as if `/tmp` were a directory: an entry only reads `/tmp`, and what
is taken to write to it gives nothing. -/
def ReadsMissingTmp (host : Host) (policy : FileSystemSandboxPolicy) (cwd : AbsolutePathBuf) :
    Prop :=
  policy.hasRootAccess FileSystemAccessMode.canWrite ∧ ¬ policy.hasWriteNarrowingEntries ∧
    ⟨.path .slashTmp, .read⟩ ∈ policy.entries ∧
      ∀ entry ∈ policy.resolvedEntriesWithCwd host cwd,
        entry.path = .slashTmp → entry.access ≠ .write

/-- An entry that resolves and does not narrow writes, or only reads what another entry writes. -/
theorem not_narrowsWrite {source : FileSystemSandboxEntry} (h : ¬ policy.narrowsWrite source)
    (hresolved : host.resolveEntryPath cwd source.path = some path) :
    source.access = .write ∨ source.access = .read ∧
      (source.path = .special .root ∨ policy.hasSameTargetWriteOverride source) := by
  have hoverride (hover : policy.hasSameTargetWriteOverride source) : source.access ≠ .none := by
    obtain ⟨candidate, -, hcandidate⟩ := List.any_eq_true.1 hover
    intro hnone
    have hlt : source.access < candidate.access := (of_decide_eq_true hcandidate).2.1
    exact absurd (hnone ▸ hlt) (not_lt.2 candidate.access.le_none)
  obtain ⟨target, access⟩ := source
  cases access with
  | write => exact .inl rfl
  | none =>
    refine absurd ?_ h
    have hno : policy.hasSameTargetWriteOverride ⟨target, .none⟩ = false := by
      cases hover : policy.hasSameTargetWriteOverride ⟨target, .none⟩ with
      | false => rfl
      | true => exact absurd rfl (hoverride hover)
    cases target with
    | path _ => simp [narrowsWrite, FileSystemAccessMode.canWrite, hno]
    | globPattern _ => rfl
    | special value =>
      cases value with
      | root => rfl
      | minimal | unknown _ _ => cases hresolved
      | _ => simp [narrowsWrite, FileSystemAccessMode.canWrite, hno]
  | read =>
    refine .inr ⟨rfl, ?_⟩
    cases target with
    | path _ => exact .inr (by simpa [narrowsWrite, FileSystemAccessMode.canWrite] using h)
    | globPattern _ => exact absurd rfl h
    | special value =>
      cases value with
      | root => exact .inl rfl
      | minimal | unknown _ _ => cases hresolved
      | _ => exact .inr (by simpa [narrowsWrite, FileSystemAccessMode.canWrite] using h)

/-- Full write access makes every path writable, unless it rests on a missing `/tmp`. -/
theorem resolveAccess_of_fullDiskWrite (hkind : policy.kind = .restricted)
    (hfull : policy.hasFullDiskWriteAccess) (htmp : ¬ policy.ReadsMissingTmp host cwd)
    (path : AbsolutePathBuf) : policy.resolveAccessWithCwd host cwd path = .write := by
  obtain ⟨hrootAccess, hnarrow⟩ := (fullDiskWrite_iff hkind).1 hfull
  obtain ⟨source, hsource, hpath, hwrite⟩ := (hasRootAccess_iff hkind).1 hrootAccess
  have hroot : ⟨.root, .write⟩ ∈ policy.resolvedEntriesWithCwd host cwd :=
    FileSystemAccessMode.canWrite_iff.1 hwrite ▸ mem_resolvedEntries_root hsource hpath
  obtain ⟨winner, hwinner⟩ := exists_decides hroot (startsWith_root path)
  rw [hwinner.resolveAccess hkind]
  obtain ⟨source', hsource', hresolved, haccess⟩ := mem_resolvedEntries.1 hwinner.mem
  -- A write entry at the path of the winner is not beaten by an entry that reads.
  have hbeaten (hread : source'.access = .read)
      (hmem : ⟨winner.path, .write⟩ ∈ policy.resolvedEntriesWithCwd host cwd) : False := by
    rcases hwinner.most hmem hwinner.startsWith with hlt | ⟨-, hle⟩
    · exact lt_irrefl _ hlt
    · have hle : FileSystemAccessMode.write ≤ winner.access := hle
      rw [← haccess, hread] at hle
      exact absurd hle (by decide)
  rcases not_narrowsWrite
    (fun h => hnarrow ((hasWriteNarrowingEntries_iff hkind).2 ⟨source', hsource', h⟩)) hresolved
    with hwrite' | ⟨hread, hroot' | hover⟩
  · exact haccess.symm.trans hwrite'
  · rw [hroot'] at hresolved
    exact (hbeaten hread (Option.some.inj hresolved ▸ hroot)).elim
  · obtain ⟨candidate, hcandidate, hover⟩ := List.any_eq_true.1 hover
    obtain ⟨hwrites, -, hshare⟩ := of_decide_eq_true hover
    have hwrites := FileSystemAccessMode.canWrite_iff.1 hwrites
    rcases resolve_of_shareTarget hshare hresolved with htarget | ⟨-, htarget⟩
    · exact (hbeaten hread (mem_resolvedEntries.2 ⟨candidate, hcandidate, htarget, hwrites⟩)).elim
    · rw [htarget] at hresolved
      have hslashTmp : winner.path = .slashTmp := (Option.some.inj hresolved).symm
      refine (htmp ⟨hrootAccess, hnarrow, ?_, fun entry hentry hpath' haccess' => ?_⟩).elim
      · rw [← htarget, ← hread]
        exact hsource'
      · rw [hslashTmp, ← hpath', ← haccess'] at hbeaten
        exact hbeaten hread hentry

theorem ReadsMissingTmp.resolveAccess (h : policy.ReadsMissingTmp host cwd)
    (hkind : policy.kind = .restricted) :
    policy.resolveAccessWithCwd host cwd .slashTmp ≠ .write := by
  obtain ⟨-, -, hread, hwrite⟩ := h
  have hmem : ⟨.slashTmp, .read⟩ ∈ policy.resolvedEntriesWithCwd host cwd :=
    mem_resolvedEntries.2 ⟨_, hread, rfl, rfl⟩
  obtain ⟨winner, hwinner, hpath, -⟩ := exists_decides_self hmem
  rw [hwinner.resolveAccess hkind]
  exact hwrite winner hwinner.mem hpath

/-- The roots and the flags that a sandbox is given say what the policy says of each path. -/
structure RootsImplement (host : Host) (policy : FileSystemSandboxPolicy) (cwd : AbsolutePathBuf) :
    Prop where
  permitted : ∀ path, ∀ writableRoot ∈ policy.getWritableRootsWithCwd host cwd,
    writableRoot.isPathWritable path → policy.canWritePathWithCwd host cwd path
  covered : ∀ path, policy.canWritePathWithCwd host cwd path →
    ¬ policy.UnderDefault host cwd path → policy.hasFullDiskWriteAccess ∨
      ∃ writableRoot ∈ policy.getWritableRootsWithCwd host cwd, writableRoot.isPathWritable path
  fullWrite : policy.hasFullDiskWriteAccess →
    ∀ path, policy.resolveAccessWithCwd host cwd path = .write
  fullRead : policy.hasFullDiskReadAccess → ∀ path, policy.canReadPathWithCwd host cwd path

/-- The roots implement the policy unless full write access rests on a missing `/tmp`. -/
theorem rootsImplement_iff (host : Host) (policy : FileSystemSandboxPolicy)
    (cwd : AbsolutePathBuf) (hkind : policy.kind = .restricted) :
    policy.RootsImplement host cwd ↔ ¬ policy.ReadsMissingTmp host cwd := by
  constructor
  · intro h htmp
    have hfull := (fullDiskWrite_iff hkind).2 ⟨htmp.1, htmp.2.1⟩
    exact htmp.resolveAccess hkind (h.fullWrite hfull .slashTmp)
  · intro htmp
    exact {
      permitted := fun _ _ hroot hpath => canWrite_of_isPathWritable hkind hroot hpath
      covered := fun _ hpath hdefault => exists_isPathWritable hkind hpath hdefault
      fullWrite := fun hfull path => resolveAccess_of_fullDiskWrite hkind hfull htmp path
      fullRead := fun hfull path => canRead_of_fullDiskRead hkind hfull path }

/-- A host without files, without a home and without `TMPDIR`. -/
def bareHost : Host where
  home := none
  tmpdir := none
  isDir _ := false
  isFile _ := false
  fileExists _ := false
  readToString _ := none

theorem rootsImplement_root_write :
    (restricted [⟨.special .root, .write⟩]).RootsImplement bareHost .root :=
  (rootsImplement_iff bareHost (restricted [⟨.special .root, .write⟩]) .root rfl).2
    fun h => absurd h.2.2.1 (by decide)

/-- An entry reads `/tmp`, a special entry is taken to write to it, and there is no `/tmp`. -/
theorem not_rootsImplement_missing_tmp :
    ¬ (restricted [⟨.special .root, .write⟩, ⟨.path .slashTmp, .read⟩,
      ⟨.special .slashTmp, .write⟩]).RootsImplement bareHost .root := by
  intro h
  exact absurd (h.fullWrite (by decide) .slashTmp) (by decide)

end FileSystemSandboxPolicy

end Mcodex.Permissions
