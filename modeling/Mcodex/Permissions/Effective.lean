import Mcodex.Permissions.ProfileAccess
import Mcodex.Permissions.Roots

/-!
# Policies with additional permissions

The entries of a profile join those of a restricted policy, and the most specific entry decides. An
entry that only reads, below what the policy may write, thereby takes access away; all other
entries of a profile without deny entries add access, at their own paths and beneath them.
-/

namespace Mcodex.Permissions

open Dedup FileSystemSandboxPolicy

/-! ## The effective policies -/

def mergeFileSystemPolicyWithAdditionalPermissions (fileSystemPolicy : FileSystemSandboxPolicy)
    (additionalPermissions : FileSystemPermissions) : FileSystemSandboxPolicy :=
  match fileSystemPolicy.kind with
  | .restricted =>
    { fileSystemPolicy with
      entries := appendNew fileSystemPolicy.entries additionalPermissions.entries
      globScanMaxDepth := mergeGlobScanMaxDepth fileSystemPolicy.entries
        fileSystemPolicy.globScanMaxDepth additionalPermissions.entries
        (additionalPermissions.globScanMaxDepth.map (·.val)) }
  | .unrestricted | .externalSandbox => fileSystemPolicy

def effectiveFileSystemSandboxPolicy (fileSystemPolicy : FileSystemSandboxPolicy)
    (additionalPermissions : Option AdditionalPermissionProfile) : FileSystemSandboxPolicy :=
  match additionalPermissions with
  | none => fileSystemPolicy
  | some additionalPermissions =>
    match additionalPermissions.fileSystem with
    | none => fileSystemPolicy
    | some fileSystemPermissions =>
      if fileSystemPermissions.isEmpty then fileSystemPolicy
      else mergeFileSystemPolicyWithAdditionalPermissions fileSystemPolicy fileSystemPermissions

def mergeNetworkAccess (baseNetworkAccess : Bool)
    (additionalPermissions : AdditionalPermissionProfile) : Bool :=
  baseNetworkAccess || ((additionalPermissions.network.bind (·.enabled)).getD false)

def effectiveNetworkSandboxPolicy (networkPolicy : NetworkSandboxPolicy)
    (additionalPermissions : Option AdditionalPermissionProfile) : NetworkSandboxPolicy :=
  if additionalPermissions.any (mergeNetworkAccess networkPolicy.isEnabled) then .enabled
  else if additionalPermissions.isSome then .restricted
  else networkPolicy

/-! ## Scan depths -/

/-- The deeper scan; without deny globs there is none. -/
def GlobScanDepth.join : Option GlobScanDepth → Option GlobScanDepth → Option GlobScanDepth
  | none, depth => depth
  | depth, none => depth
  | some .unbounded, some _ => some .unbounded
  | some _, some .unbounded => some .unbounded
  | some (.bounded left), some (.bounded right) => some (.bounded (max left right))

/-- The bound on the scan, if any. -/
def GlobScanDepth.bound : Option GlobScanDepth → Option Nat
  | some (.bounded depth) => some depth
  | some .unbounded | none => none

theorem GlobScanDepth.join_assoc (left middle right : Option GlobScanDepth) :
    join (join left middle) right = join left (join middle right) := by
  rcases left with _ | left | _ <;> rcases middle with _ | middle | _ <;>
    rcases right with _ | right | _ <;> simp [join, max_assoc]

theorem GlobScanDepth.isSome_join (left right : Option GlobScanDepth) :
    (join left right).isSome = (left.isSome || right.isSome) := by
  rcases left with _ | left | _ <;> rcases right with _ | right | _ <;> rfl

theorem mergeGlobScanMaxDepth_eq (left right : List FileSystemSandboxEntry)
    (leftDepth rightDepth : Option Nat) :
    mergeGlobScanMaxDepth left leftDepth right rightDepth =
      GlobScanDepth.bound (GlobScanDepth.join (effectiveGlobScanDepth left leftDepth)
        (effectiveGlobScanDepth right rightDepth)) := by
  rw [mergeGlobScanMaxDepth]
  cases effectiveGlobScanDepth left leftDepth with
  | none =>
    cases effectiveGlobScanDepth right rightDepth with
    | none => rfl
    | some right => cases right <;> rfl
  | some left =>
    cases effectiveGlobScanDepth right rightDepth with
    | none => cases left <;> rfl
    | some right => cases left <;> cases right <;> rfl

theorem isSome_effectiveGlobScanDepth (entries : List FileSystemSandboxEntry)
    (depth : Option Nat) :
    (effectiveGlobScanDepth entries depth).isSome = entries.any isDenyGlob := by
  rw [effectiveGlobScanDepth.eq_def]
  cases entries.any isDenyGlob <;> rfl

/-- A bound says with the entries how deep the scan is. -/
theorem effectiveGlobScanDepth_bound {entries : List FileSystemSandboxEntry}
    {depth : Option GlobScanDepth} (h : depth.isSome = entries.any isDenyGlob) :
    effectiveGlobScanDepth entries (GlobScanDepth.bound depth) = depth := by
  rw [effectiveGlobScanDepth.eq_def, ← h]
  rcases depth with _ | depth | _ <;> rfl

/-- The merged scan is at least as deep as that of the left side, if it has deny globs. -/
theorem mergeGlobScanMaxDepth_of_left {left right : List FileSystemSandboxEntry}
    {leftDepth rightDepth : Option Nat} {depth : Nat} (hglob : left.any isDenyGlob)
    (h : mergeGlobScanMaxDepth left leftDepth right rightDepth = some depth) :
    ∃ depth', leftDepth = some depth' ∧ depth' ≤ depth := by
  cases hright : right.any isDenyGlob <;> cases leftDepth <;> cases rightDepth <;>
    simp only [mergeGlobScanMaxDepth, effectiveGlobScanDepth, hright, hglob, if_true, if_false,
      Bool.false_eq_true, Option.some.injEq, reduceCtorEq] at h
  all_goals exact ⟨_, rfl, by omega⟩

/-! ## Adding the entries of a profile -/

section
variable {policy : FileSystemSandboxPolicy}

/-- The permissions of a profile for files, if any, are added to the policy. -/
def addPermissions (policy : FileSystemSandboxPolicy) (permissions : Option FileSystemPermissions) :
    FileSystemSandboxPolicy := effectiveFileSystemSandboxPolicy policy (some ⟨none, permissions⟩)

theorem effective_some (policy : FileSystemSandboxPolicy)
    (additional : AdditionalPermissionProfile) :
    effectiveFileSystemSandboxPolicy policy (some additional) =
      addPermissions policy additional.fileSystem := rfl

theorem addPermissions_of_ne_nil (hkind : policy.kind = .restricted)
    {permissions : FileSystemPermissions} (hne : permissions.entries ≠ []) :
    addPermissions policy (some permissions) =
      { policy with
        entries := appendNew policy.entries permissions.entries
        globScanMaxDepth := mergeGlobScanMaxDepth policy.entries policy.globScanMaxDepth
          permissions.entries (permissions.globScanMaxDepth.map (·.val)) } := by
  have hempty : permissions.isEmpty = false := decide_eq_false hne
  show (if permissions.isEmpty then policy
    else mergeFileSystemPolicyWithAdditionalPermissions policy permissions) = _
  rw [hempty, if_neg Bool.false_ne_true, mergeFileSystemPolicyWithAdditionalPermissions, hkind]

theorem addPermissions_of_nil (policy : FileSystemSandboxPolicy)
    {permissions : FileSystemPermissions} (hnil : permissions.entries = []) :
    addPermissions policy (some permissions) = policy := if_pos (decide_eq_true hnil)

/-- A policy that is not restricted stays as it is. -/
theorem addPermissions_of_ne_restricted (hkind : policy.kind ≠ .restricted)
    (permissions : Option FileSystemPermissions) : addPermissions policy permissions = policy := by
  cases permissions with
  | none => rfl
  | some permissions =>
    show (if permissions.isEmpty then policy
      else mergeFileSystemPolicyWithAdditionalPermissions policy permissions) = _
    split
    · rfl
    · rw [mergeFileSystemPolicyWithAdditionalPermissions]
      split
      · contradiction
      · rfl
      · rfl

theorem kind_effective (policy : FileSystemSandboxPolicy)
    (additional : AdditionalPermissionProfile) :
    (effectiveFileSystemSandboxPolicy policy (some additional)).kind = policy.kind := by
  rw [effective_some]
  by_cases hkind : policy.kind = .restricted
  · cases additional.fileSystem with
    | none => rfl
    | some permissions =>
      by_cases hnil : permissions.entries = []
      · rw [addPermissions_of_nil policy hnil]
      · rw [addPermissions_of_ne_nil hkind hnil]
  · rw [addPermissions_of_ne_restricted hkind]

theorem entries_effective (hkind : policy.kind = .restricted)
    (additional : AdditionalPermissionProfile) :
    (effectiveFileSystemSandboxPolicy policy (some additional)).entries =
      appendNew policy.entries additional.entries := by
  rw [effective_some, AdditionalPermissionProfile.entries]
  cases additional.fileSystem with
  | none => rfl
  | some permissions =>
    by_cases hnil : permissions.entries = []
    · rw [addPermissions_of_nil policy hnil, Option.map_some, hnil]
      rfl
    · rw [addPermissions_of_ne_nil hkind hnil]
      rfl

/-! ### One profile after the other -/

/-- Merged depths of profiles are not zero. -/
theorem bind_new_merge (left right : FileSystemPermissions) :
    ((mergeGlobScanMaxDepth left.entries (left.globScanMaxDepth.map (·.val)) right.entries
        (right.globScanMaxDepth.map (·.val))).bind NonZero.new).map (·.val) =
      mergeGlobScanMaxDepth left.entries (left.globScanMaxDepth.map (·.val)) right.entries
        (right.globScanMaxDepth.map (·.val)) := by
  have hnew {depth : Nat} (h : depth ≠ 0) :
      ((some depth).bind NonZero.new).map (·.val) = some depth := by
    rw [Option.bind_some, NonZero.new, dif_pos h]
    rfl
  rw [mergeGlobScanMaxDepth, effectiveGlobScanDepth.eq_def, effectiveGlobScanDepth.eq_def]
  rcases left.globScanMaxDepth with _ | ⟨leftDepth, hleft⟩ <;>
    rcases right.globScanMaxDepth with _ | ⟨rightDepth, hright⟩ <;>
      cases left.entries.any isDenyGlob <;> cases right.entries.any isDenyGlob
  all_goals first
    | rfl
    | exact hnew hleft
    | exact hnew hright
    | exact hnew (Nat.ne_of_gt
        (Nat.lt_of_lt_of_le (Nat.pos_of_ne_zero hleft) (Nat.le_max_left _ _)))

theorem any_isDenyGlob_appendNew (out entries : List FileSystemSandboxEntry) :
    (appendNew out entries).any isDenyGlob = (out.any isDenyGlob || entries.any isDenyGlob) := by
  rw [← List.any_append, Bool.eq_iff_iff, List.any_eq_true, List.any_eq_true]
  simp only [mem_appendNew, List.mem_append]

theorem addPermissions_merge_some (hkind : policy.kind = .restricted)
    (base permissions : FileSystemPermissions) :
    addPermissions policy (mergeFileSystem (some base) (some permissions)) =
      addPermissions (addPermissions policy (some base)) (some permissions) := by
  let merged : FileSystemPermissions :=
    ⟨mergePermissionEntries base.entries permissions.entries,
      (mergeGlobScanMaxDepth base.entries (base.globScanMaxDepth.map (·.val)) permissions.entries
        (permissions.globScanMaxDepth.map (·.val))).bind NonZero.new⟩
  have hmerged : addPermissions policy (mergeFileSystem (some base) (some permissions)) =
      addPermissions policy (some merged) := by
    rw [mergeFileSystem_some, Option.filter_some]
    split
    · rfl
    · rename_i hempty
      have hnil : merged.entries = [] := by simpa [FileSystemPermissions.isEmpty] using hempty
      exact (addPermissions_of_nil policy hnil).symm
  have hmem {entry : FileSystemSandboxEntry} : entry ∈ merged.entries ↔
      entry ∈ base.entries ∨ entry ∈ permissions.entries := by
    show entry ∈ appendNew [] (base.entries ++ permissions.entries) ↔ _
    rw [mem_appendNew, List.mem_append]
    simp
  have hentries : appendNew policy.entries merged.entries =
      appendNew (appendNew policy.entries base.entries) permissions.entries := by
    show appendNew policy.entries (appendNew [] (base.entries ++ permissions.entries)) = _
    rw [appendNew_appendNew, appendNew_append]
  have hdepth : effectiveGlobScanDepth merged.entries (merged.globScanMaxDepth.map (·.val)) =
      GlobScanDepth.join
        (effectiveGlobScanDepth base.entries (base.globScanMaxDepth.map (·.val)))
        (effectiveGlobScanDepth permissions.entries (permissions.globScanMaxDepth.map (·.val))) := by
    show effectiveGlobScanDepth merged.entries (((mergeGlobScanMaxDepth base.entries _
      permissions.entries _).bind NonZero.new).map (·.val)) = _
    rw [bind_new_merge, mergeGlobScanMaxDepth_eq]
    refine effectiveGlobScanDepth_bound ?_
    show _ = (appendNew [] (base.entries ++ permissions.entries)).any isDenyGlob
    rw [GlobScanDepth.isSome_join, isSome_effectiveGlobScanDepth, isSome_effectiveGlobScanDepth,
      any_isDenyGlob_appendNew, List.any_append]
    rfl
  rw [hmerged]
  by_cases hnil : merged.entries = []
  · have hbase : base.entries = [] := List.eq_nil_iff_forall_not_mem.2 fun entry hentry =>
      absurd (hmem.2 (.inl hentry)) (hnil ▸ List.not_mem_nil)
    have hpermissions : permissions.entries = [] :=
      List.eq_nil_iff_forall_not_mem.2 fun entry hentry =>
        absurd (hmem.2 (.inr hentry)) (hnil ▸ List.not_mem_nil)
    rw [addPermissions_of_nil policy hnil, addPermissions_of_nil policy hbase,
      addPermissions_of_nil policy hpermissions]
  rw [addPermissions_of_ne_nil hkind hnil, hentries, mergeGlobScanMaxDepth_eq, hdepth]
  by_cases hbase : base.entries = []
  · have hpermissions : permissions.entries ≠ [] := by
      rintro hpermissions
      refine hnil (List.eq_nil_iff_forall_not_mem.2 fun entry hentry => ?_)
      rw [hmem, hbase, hpermissions] at hentry
      simp at hentry
    rw [addPermissions_of_nil policy hbase, addPermissions_of_ne_nil hkind hpermissions, hbase,
      mergeGlobScanMaxDepth_eq]
    rfl
  · rw [addPermissions_of_ne_nil hkind hbase]
    by_cases hpermissions : permissions.entries = []
    · rw [addPermissions_of_nil _ hpermissions, hpermissions, mergeGlobScanMaxDepth_eq]
      refine congrArg₂ (FileSystemSandboxPolicy.mk policy.kind) (congrArg _ (congrArg _ ?_)) rfl
      show GlobScanDepth.join (effectiveGlobScanDepth base.entries _) none = _
      cases effectiveGlobScanDepth base.entries (base.globScanMaxDepth.map (·.val)) <;> rfl
    · refine Eq.trans ?_ (addPermissions_of_ne_nil (by exact hkind) hpermissions).symm
      simp only [mergeGlobScanMaxDepth_eq]
      rw [effectiveGlobScanDepth_bound, GlobScanDepth.join_assoc]
      rw [GlobScanDepth.isSome_join, isSome_effectiveGlobScanDepth, isSome_effectiveGlobScanDepth,
        any_isDenyGlob_appendNew]

/-- Adding merged permissions adds one after the other. -/
theorem addPermissions_merge (policy : FileSystemSandboxPolicy)
    (base permissions : Option FileSystemPermissions) :
    addPermissions policy (mergeFileSystem base permissions) =
      addPermissions (addPermissions policy base) permissions := by
  by_cases hkind : policy.kind = .restricted
  · cases base with
    | none => cases permissions <;> rfl
    | some base =>
      cases permissions with
      | none => rfl
      | some permissions => exact addPermissions_merge_some hkind base permissions
  · rw [addPermissions_of_ne_restricted hkind, addPermissions_of_ne_restricted hkind,
      addPermissions_of_ne_restricted hkind]

end

/-! ## Access -/

section
variable {host : Host} {cwd path : AbsolutePathBuf} {policy policy' : FileSystemSandboxPolicy}
  {additional : AdditionalPermissionProfile} {entry : ResolvedFileSystemEntry}

/-- What decides under more entries decides under fewer, if it is among them. -/
theorem FileSystemSandboxPolicy.Decides.of_subset (h : policy'.Decides host cwd path entry)
    (hmem : entry ∈ policy.resolvedEntriesWithCwd host cwd)
    (hsub : ∀ entry ∈ policy.resolvedEntriesWithCwd host cwd,
      entry ∈ policy'.resolvedEntriesWithCwd host cwd) : policy.Decides host cwd path entry where
  mem := List.mem_map_of_mem hmem
  isPrefix := h.isPrefix
  most rule hrule happlies := by
    obtain ⟨source, hsource, rfl⟩ := List.mem_map.1 hrule
    exact Precedence.Prevails.most h _ (List.mem_map_of_mem (hsub source hsource)) happlies

/-- An entry of a profile applies at a path, and beneath it. -/
def Targets (host : Host) (cwd : AbsolutePathBuf) (entries : List FileSystemSandboxEntry)
    (target : AbsolutePathBuf) (access : FileSystemAccessMode) : Prop :=
  ∃ entry ∈ entries, host.resolveEntryPath cwd entry.path = some target ∧ entry.access = access

theorem mem_resolvedEntries_effective (hkind : policy.kind = .restricted) :
    entry ∈ (effectiveFileSystemSandboxPolicy policy (some additional)).resolvedEntriesWithCwd
        host cwd ↔
      entry ∈ policy.resolvedEntriesWithCwd host cwd ∨
        Targets host cwd additional.entries entry.path entry.access := by
  rw [mem_resolvedEntries, mem_resolvedEntries, entries_effective hkind, Targets]
  simp only [mem_appendNew, or_and_right, exists_or]

theorem resolvedEntries_subset_effective (hkind : policy.kind = .restricted)
    (additional : AdditionalPermissionProfile) :
    ∀ entry ∈ policy.resolvedEntriesWithCwd host cwd,
      entry ∈ (effectiveFileSystemSandboxPolicy policy (some additional)).resolvedEntriesWithCwd
        host cwd :=
  fun _ hentry => (mem_resolvedEntries_effective hkind).2 (.inl hentry)

/-- Where an entry of the profile that reads applies and the policy may write, an entry of one of
them that writes applies at the same path. -/
def ReadsKeepWrites (host : Host) (cwd : AbsolutePathBuf) (policy : FileSystemSandboxPolicy)
    (additional : AdditionalPermissionProfile) : Prop :=
  ∀ target, Targets host cwd additional.entries target .read →
    policy.resolveAccessWithCwd host cwd target = .write →
      Targets host cwd policy.entries target .write ∨
        Targets host cwd additional.entries target .write

/-- Where an entry of the policy decides under the effective policy, the access is as before. -/
theorem resolveAccess_of_mem (hkind : policy.kind = .restricted)
    (hentry : (effectiveFileSystemSandboxPolicy policy (some additional)).Decides host cwd path
      entry) (hmem : entry ∈ policy.resolvedEntriesWithCwd host cwd) :
    policy.resolveAccessWithCwd host cwd path = entry.access :=
  (hentry.of_subset hmem (resolvedEntries_subset_effective hkind _)).resolveAccess hkind

/-- Access is taken away only by an entry that reads and decides where the policy may write. -/
theorem access_le_effective (hkind : policy.kind = .restricted)
    (hadds : ∀ entry ∈ additional.entries, entry.access ≠ .none)
    (hkeep : ReadsKeepWrites host cwd policy additional) (path : AbsolutePathBuf) :
    (policy.resolveAccessWithCwd host cwd path).capability ≤
      ((effectiveFileSystemSandboxPolicy policy (some additional)).resolveAccessWithCwd host cwd
        path).capability := by
  have hkind' : (effectiveFileSystemSandboxPolicy policy (some additional)).kind = .restricted :=
    (kind_effective policy additional).trans hkind
  by_cases hnone : policy.resolveAccessWithCwd host cwd path = .none
  · rw [hnone]
    exact Nat.zero_le _
  obtain ⟨winner, hwinner, haccess⟩ := exists_decides_of_access hkind hnone
  have hwinnerMem := resolvedEntries_subset_effective hkind additional winner
    hwinner.mem
  obtain ⟨entry, hentry⟩ := exists_decides hwinnerMem hwinner.startsWith
  rw [hentry.resolveAccess hkind']
  rcases (mem_resolvedEntries_effective hkind).1 hentry.mem with hmem | htargets
  · rw [resolveAccess_of_mem hkind hentry hmem]
  have hadded : entry.access ≠ .none := by
    obtain ⟨source, hsource, -, hsourceAccess⟩ := htargets
    exact hsourceAccess ▸ hadds source hsource
  cases hcase : entry.access with
  | none => exact absurd hcase hadded
  | write => cases policy.resolveAccessWithCwd host cwd path <;> decide
  | read =>
    rw [hcase] at htargets
    have hnotWrite : winner.access ≠ .write := by
      intro hwrite
      -- The entry of the policy lies above the one that reads, so it decides there too.
      have hshorter : winner.path.names.length < entry.path.names.length := by
        rcases hentry.most hwinnerMem hwinner.startsWith with hlt | ⟨-, hle⟩
        · exact hlt
        · rw [hwrite, hcase] at hle
          exact absurd hle (by decide)
      have hdecides : policy.Decides host cwd entry.path winner :=
        hwinner.of_isPrefix
          (List.prefix_of_prefix_length_le (AbsolutePathBuf.startsWith_iff.1 hwinner.startsWith)
            (AbsolutePathBuf.startsWith_iff.1 hentry.startsWith) hshorter.le)
          (AbsolutePathBuf.startsWith_iff.1 hentry.startsWith)
      have hwrites : ⟨entry.path, .write⟩ ∈ (effectiveFileSystemSandboxPolicy policy
          (some additional)).resolvedEntriesWithCwd host cwd := by
        refine (mem_resolvedEntries_effective hkind).2 ?_
        exact (hkeep entry.path htargets ((hdecides.resolveAccess hkind).trans hwrite)).imp_left
          mem_resolvedEntries.2
      rcases hentry.most hwrites hentry.startsWith with hlt | ⟨-, hle⟩
      · exact absurd hlt (lt_irrefl _)
      · have hle : FileSystemAccessMode.write ≤ .read := hcase ▸ hle
        exact absurd hle (by decide)
    rw [haccess] at hnone ⊢
    revert hnone hnotWrite
    cases winner.access <;> decide

theorem readsKeepWrites_of_le (hkind : policy.kind = .restricted)
    (h : ∀ path, (policy.resolveAccessWithCwd host cwd path).capability ≤
      ((effectiveFileSystemSandboxPolicy policy (some additional)).resolveAccessWithCwd host cwd
        path).capability) : ReadsKeepWrites host cwd policy additional := by
  intro target htargets hwrite
  have hkind' : (effectiveFileSystemSandboxPolicy policy (some additional)).kind = .restricted :=
    (kind_effective policy additional).trans hkind
  have hmem : ⟨target, .read⟩ ∈ (effectiveFileSystemSandboxPolicy policy
      (some additional)).resolvedEntriesWithCwd host cwd :=
    (mem_resolvedEntries_effective hkind).2 (.inr htargets)
  obtain ⟨winner, hwinner, hpath, -⟩ := exists_decides_self hmem
  have hpath : winner.path = target := hpath
  have hle := h target
  rw [hwrite, show (effectiveFileSystemSandboxPolicy policy (some additional)).resolveAccessWithCwd
    host cwd target = winner.access from hwinner.resolveAccess hkind'] at hle
  have haccess : winner.access = .write := by
    revert hle
    cases winner.access <;> decide
  rcases (mem_resolvedEntries_effective hkind).1 hwinner.mem with hmem | htargets
  · left
    rw [mem_resolvedEntries, hpath, haccess] at hmem
    exact hmem
  · right
    rw [hpath, haccess] at htargets
    exact htargets

/-- Where no entry of the profile applies, the access is as before. -/
theorem resolveAccess_effective (hkind : policy.kind = .restricted)
    (h : ∀ target access, Targets host cwd additional.entries target access →
      ¬ path.startsWith target) :
    (effectiveFileSystemSandboxPolicy policy (some additional)).resolveAccessWithCwd host cwd
      path = policy.resolveAccessWithCwd host cwd path := by
  have hkind' : (effectiveFileSystemSandboxPolicy policy (some additional)).kind = .restricted :=
    (kind_effective policy additional).trans hkind
  have hmem {entry : ResolvedFileSystemEntry} (hentry : (effectiveFileSystemSandboxPolicy policy
      (some additional)).Decides host cwd path entry) :
      entry ∈ policy.resolvedEntriesWithCwd host cwd := by
    rcases (mem_resolvedEntries_effective hkind).1 hentry.mem with hmem | htargets
    · exact hmem
    · exact absurd hentry.startsWith (h _ _ htargets)
  by_cases hnone : (effectiveFileSystemSandboxPolicy policy (some additional)).resolveAccessWithCwd
      host cwd path = .none
  · by_contra hne
    obtain ⟨winner, hwinner, -⟩ := exists_decides_of_access hkind
      fun heq => hne (hnone.trans heq.symm)
    obtain ⟨entry, hentry⟩ := exists_decides
      (resolvedEntries_subset_effective hkind additional winner hwinner.mem)
      hwinner.startsWith
    exact hne ((hentry.resolveAccess hkind').trans
      (resolveAccess_of_mem hkind hentry (hmem hentry)).symm)
  · obtain ⟨entry, hentry, haccess⟩ := exists_decides_of_access hkind' hnone
    rw [haccess, resolveAccess_of_mem hkind hentry (hmem hentry)]

end

/-! ## What additional permissions may do -/

/-- A policy with deny globs is scanned for them at least as deep as before. -/
theorem depth_effective {policy : FileSystemSandboxPolicy} (hkind : policy.kind = .restricted)
    (hglob : policy.entries.any isDenyGlob) (additional : AdditionalPermissionProfile)
    {depth : Nat}
    (h : (effectiveFileSystemSandboxPolicy policy (some additional)).globScanMaxDepth =
      some depth) :
    ∃ depth', policy.globScanMaxDepth = some depth' ∧ depth' ≤ depth := by
  rw [effective_some] at h
  cases hfileSystem : additional.fileSystem with
  | none =>
    rw [hfileSystem] at h
    exact ⟨depth, h, le_refl _⟩
  | some permissions =>
    rw [hfileSystem] at h
    by_cases hnil : permissions.entries = []
    · rw [addPermissions_of_nil policy hnil] at h
      exact ⟨depth, h, le_refl _⟩
    · rw [addPermissions_of_ne_nil hkind hnil] at h
      exact mergeGlobScanMaxDepth_of_left hglob h

theorem isEnabled_effectiveNetwork (networkPolicy : NetworkSandboxPolicy)
    (additional : AdditionalPermissionProfile) :
    (effectiveNetworkSandboxPolicy networkPolicy (some additional)).isEnabled =
      (networkPolicy.isEnabled || additional.enablesNetwork) := by
  have haccess : mergeNetworkAccess networkPolicy.isEnabled additional =
      (networkPolicy.isEnabled || additional.enablesNetwork) := by
    obtain ⟨network, fileSystem⟩ := additional
    rcases network with _ | ⟨_ | _ | _⟩ <;> rfl
  rw [effectiveNetworkSandboxPolicy, Option.any_some, haccess]
  cases networkPolicy.isEnabled || additional.enablesNetwork <;> rfl

theorem NetworkSandboxPolicy.ext_isEnabled {left right : NetworkSandboxPolicy}
    (h : left.isEnabled = right.isEnabled) : left = right := by
  cases left <;> cases right <;> first | rfl | cases h

theorem isNone_of_isEmpty {profile : AdditionalPermissionProfile}
    (h : ¬ (!profile.isEmpty) = true) : profile.network = none ∧ profile.fileSystem = none := by
  simpa [AdditionalPermissionProfile.isEmpty] using h

theorem enablesNetwork_mergeProfiles (base permissions : AdditionalPermissionProfile) :
    (mergePermissionProfiles (some base) (some permissions)).any (·.enablesNetwork) =
      (base.enablesNetwork || permissions.enablesNetwork) := by
  have hmerge : (decide (mergeNetwork base.network permissions.network = some ⟨some true⟩)) =
      (base.enablesNetwork || permissions.enablesNetwork) :=
    enablesNetwork_mergeNetwork base.network permissions.network
  rw [mergePermissionProfiles_some, Option.filter_some]
  split
  · exact hmerge
  · rename_i hempty
    have hnone : mergeNetwork base.network permissions.network = none := (isNone_of_isEmpty hempty).1
    rw [hnone] at hmerge
    exact hmerge

/-- Additional permissions give no path less, change the access only where one of their entries
applies, keep deny globs and how deep they are scanned for, may be merged first, and turn no
network off. -/
structure OnlyAdds (host : Host) (cwd : AbsolutePathBuf) (policy : FileSystemSandboxPolicy)
    (additional : AdditionalPermissionProfile) : Prop where
  access : ∀ path, (policy.resolveAccessWithCwd host cwd path).capability ≤
    ((effectiveFileSystemSandboxPolicy policy (some additional)).resolveAccessWithCwd host cwd
      path).capability
  beneath : ∀ path, (effectiveFileSystemSandboxPolicy policy
      (some additional)).resolveAccessWithCwd host cwd path ≠
        policy.resolveAccessWithCwd host cwd path →
    ∃ target access, Targets host cwd additional.entries target access ∧ path.startsWith target
  globs : ∀ raw, HasDenyGlob policy.entries raw →
    HasDenyGlob (effectiveFileSystemSandboxPolicy policy (some additional)).entries raw
  depth : policy.entries.any isDenyGlob → ∀ depth,
    (effectiveFileSystemSandboxPolicy policy (some additional)).globScanMaxDepth = some depth →
      ∃ depth', policy.globScanMaxDepth = some depth' ∧ depth' ≤ depth
  merged : ∀ other, effectiveFileSystemSandboxPolicy policy
      (mergePermissionProfiles (some additional) (some other)) =
    effectiveFileSystemSandboxPolicy (effectiveFileSystemSandboxPolicy policy (some additional))
      (some other)
  networkMerged : ∀ networkPolicy other, effectiveNetworkSandboxPolicy networkPolicy
      (mergePermissionProfiles (some additional) (some other)) =
    effectiveNetworkSandboxPolicy (effectiveNetworkSandboxPolicy networkPolicy (some additional))
      (some other)
  network : ∀ networkPolicy : NetworkSandboxPolicy, networkPolicy.isEnabled →
    (effectiveNetworkSandboxPolicy networkPolicy (some additional)).isEnabled

theorem effective_merge (policy : FileSystemSandboxPolicy)
    (base permissions : AdditionalPermissionProfile) :
    effectiveFileSystemSandboxPolicy policy
        (mergePermissionProfiles (some base) (some permissions)) =
      addPermissions policy (mergeFileSystem base.fileSystem permissions.fileSystem) := by
  rw [mergePermissionProfiles_some, Option.filter_some]
  split
  · rfl
  · rename_i hempty
    have hnone : mergeFileSystem base.fileSystem permissions.fileSystem = none :=
      (isNone_of_isEmpty hempty).2
    rw [hnone]
    rfl

theorem effectiveNetwork_merge (networkPolicy : NetworkSandboxPolicy)
    (base permissions : AdditionalPermissionProfile) :
    effectiveNetworkSandboxPolicy networkPolicy
        (mergePermissionProfiles (some base) (some permissions)) =
      effectiveNetworkSandboxPolicy (effectiveNetworkSandboxPolicy networkPolicy (some base))
        (some permissions) := by
  refine NetworkSandboxPolicy.ext_isEnabled ?_
  rw [isEnabled_effectiveNetwork, isEnabled_effectiveNetwork, Bool.or_assoc,
    ← enablesNetwork_mergeProfiles]
  cases mergePermissionProfiles (some base) (some permissions) with
  | none => exact (Bool.or_false _).symm
  | some merged => exact isEnabled_effectiveNetwork networkPolicy merged

/-- Permissions without deny entries only add access exactly if no entry of theirs that reads takes
away what the policy may write. -/
theorem onlyAdds_iff (host : Host) (cwd : AbsolutePathBuf) (policy : FileSystemSandboxPolicy)
    (additional : AdditionalPermissionProfile) (hkind : policy.kind = .restricted)
    (hadds : ∀ entry ∈ additional.entries, entry.access ≠ .none) :
    OnlyAdds host cwd policy additional ↔ ReadsKeepWrites host cwd policy additional := by
  constructor
  · exact fun h => readsKeepWrites_of_le hkind h.access
  · intro hkeep
    exact {
      access := access_le_effective hkind hadds hkeep
      beneath := fun path hne => by
        by_contra hnot
        exact hne (resolveAccess_effective hkind fun target access htargets happlies =>
          hnot ⟨target, access, htargets, happlies⟩)
      globs := fun raw hraw => by
        rw [HasDenyGlob, entries_effective hkind, mem_appendNew]
        exact .inl hraw
      depth := fun hglob _ hdepth => depth_effective hkind hglob additional hdepth
      merged := fun other => by
        rw [effective_merge, addPermissions_merge]
        rfl
      networkMerged := fun networkPolicy other =>
        effectiveNetwork_merge networkPolicy additional other
      network := fun networkPolicy henabled => by
        rw [isEnabled_effectiveNetwork, henabled]
        rfl }

theorem onlyAdds_read_elsewhere :
    OnlyAdds bareHost .root (restricted [⟨.path .slashTmp, .write⟩])
      ⟨none, some ⟨[⟨.path (AbsolutePathBuf.root.pushComponent "usr".toList), .read⟩], none⟩⟩ := by
  refine (onlyAdds_iff bareHost .root (restricted [⟨.path .slashTmp, .write⟩])
    ⟨none, some ⟨[⟨.path (AbsolutePathBuf.root.pushComponent "usr".toList), .read⟩], none⟩⟩ rfl
    (by decide)).2 ?_
  rintro target ⟨entry, hentry, htarget, -⟩ hwrite
  obtain rfl := List.mem_singleton.1 hentry
  cases htarget
  exact absurd hwrite (by decide)

/-- A grant to read below a writable root takes the write access away. -/
theorem not_onlyAdds_read_below_write :
    ¬ OnlyAdds bareHost .root (restricted [⟨.path .slashTmp, .write⟩])
      ⟨none, some ⟨[⟨.path (AbsolutePathBuf.slashTmp.pushComponent "keys".toList), .read⟩],
        none⟩⟩ := fun h =>
  absurd (h.access (AbsolutePathBuf.slashTmp.pushComponent "keys".toList)) (by decide)

end Mcodex.Permissions
