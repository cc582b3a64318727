import Mcodex.Permissions.Access
import Mcodex.Permissions.Profiles

/-!
# The access that a profile gives

A profile gives what the restricted policy of its entries gives, and nothing where one of its deny
globs matches. An accepted grant stands at a path that the request gives at least the same access;
the deny entries of both profiles that lie on the way to a path beneath it are kept.
-/

namespace Mcodex.Permissions

open Dedup

/-- None is below read, and read is below write. -/
def FileSystemAccessMode.capability : FileSystemAccessMode → Nat
  | .none => 0
  | .read => 1
  | .write => 2

namespace AdditionalPermissionProfile

def entries (profile : AdditionalPermissionProfile) : List FileSystemSandboxEntry :=
  (profile.fileSystem.map (·.entries)).getD []

def enablesNetwork (profile : AdditionalPermissionProfile) : Bool :=
  profile.network = some ⟨some true⟩

end AdditionalPermissionProfile

/-- Merged permissions turn the network on if one of them does. -/
theorem enablesNetwork_mergeNetwork (base permissions : Option NetworkPermissions) :
    decide (mergeNetwork base permissions = some ⟨some true⟩) =
      (decide (base = some ⟨some true⟩) || decide (permissions = some ⟨some true⟩)) := by
  rw [← Bool.decide_or]
  refine decide_eq_decide.2 ?_
  rw [mergeNetwork.eq_def]
  split
  · exact iff_of_true rfl (.inl rfl)
  · exact iff_of_true rfl (.inr rfl)
  · rename_i hbase hpermissions
    exact iff_of_false (by simp) (not_or.2 ⟨fun heq => hbase heq, fun heq => hpermissions heq⟩)

section
variable (machine : Machine) (cwd : AbsolutePathBuf)

/-- A deny glob of the entries matches the path. -/
def deniedByGlob (entries : List FileSystemSandboxEntry) (path : AbsolutePathBuf) : Bool :=
  ((FileSystemSandboxPolicy.restricted entries).getUnreadableGlobsWithCwd machine.toHost cwd).any
    fun pattern => (machine.buildGlobMatcher pattern).any (· path)

def accessOf (entries : List FileSystemSandboxEntry) (path : AbsolutePathBuf) :
    FileSystemAccessMode :=
  if deniedByGlob machine cwd entries path then .none
  else (FileSystemSandboxPolicy.restricted entries).resolveAccessWithCwd machine.toHost cwd path

def AdditionalPermissionProfile.access (profile : AdditionalPermissionProfile) :
    AbsolutePathBuf → FileSystemAccessMode := accessOf machine cwd profile.entries

/-- No deny glob of the entries is malformed. -/
def WellFormed (entries : List FileSystemSandboxEntry) : Prop :=
  ∀ pattern ∈ (FileSystemSandboxPolicy.restricted entries).getUnreadableGlobsWithCwd
    machine.toHost cwd, (machine.buildGlobMatcher pattern).isSome

end

variable {machine : Machine} {cwd path : AbsolutePathBuf}
  {entries requested granted accepted : List FileSystemSandboxEntry}
  {entry : FileSystemSandboxEntry}

theorem resolvePermissionPath_eq (target : FileSystemPath) :
    resolvePermissionPath machine cwd target = machine.resolveEntryPath cwd target := by
  cases target with
  | path _ | globPattern _ => rfl
  | special value =>
    cases value with
    | projectRoots subpath => cases subpath <;> rfl
    | _ => rfl

/-- What an entry resolves to, with its access. -/
def Resolves (machine : Machine) (cwd : AbsolutePathBuf) (entries : List FileSystemSandboxEntry)
    (path : AbsolutePathBuf) (access : FileSystemAccessMode) : Prop :=
  ∃ entry ∈ entries, resolvePermissionPath machine cwd entry.path = some path ∧
    entry.access = access

theorem mem_resolved_iff {access : FileSystemAccessMode} :
    ⟨path, access⟩ ∈ (FileSystemSandboxPolicy.restricted entries).resolvedEntriesWithCwd
      machine.toHost cwd ↔ Resolves machine cwd entries path access := by
  rw [FileSystemSandboxPolicy.mem_resolvedEntries]
  simp only [Resolves, resolvePermissionPath_eq]
  rfl

/-- The resolved text of a pattern. -/
def globText (machine : Machine) (cwd : AbsolutePathBuf) (raw : List Char) : List Char :=
  (machine.resolvePathAgainstBase (.ofText raw) cwd).text

/-- The raw pattern is that of a deny glob. -/
def HasDenyGlob (entries : List FileSystemSandboxEntry) (raw : List Char) : Prop :=
  ⟨.globPattern raw, .none⟩ ∈ entries

theorem mem_getUnreadableGlobs {pattern : List Char} :
    pattern ∈ (FileSystemSandboxPolicy.restricted entries).getUnreadableGlobsWithCwd
        machine.toHost cwd ↔
      ∃ raw, HasDenyGlob entries raw ∧ globText machine cwd raw = pattern := by
  have hkind : ¬ (FileSystemSandboxPolicy.restricted entries).kind ≠ .restricted := not_not.2 rfl
  rw [FileSystemSandboxPolicy.getUnreadableGlobsWithCwd, if_neg hkind, mem_appendNew,
    List.mem_insertionSort, List.mem_map]
  simp only [List.not_mem_nil, false_or, List.mem_filterMap, List.mem_filter]
  constructor
  · rintro ⟨raw, ⟨entry, ⟨hmem, hnone⟩, hraw⟩, htext⟩
    obtain ⟨target, access⟩ := entry
    obtain rfl : access = .none := of_decide_eq_true hnone
    cases target with
    | globPattern pattern => exact ⟨raw, Option.some.inj hraw ▸ hmem, htext⟩
    | path _ | special _ => cases hraw
  · rintro ⟨raw, hraw, htext⟩
    exact ⟨raw, ⟨_, ⟨hraw, decide_eq_true rfl⟩, rfl⟩, htext⟩

theorem deniedByGlob_iff : deniedByGlob machine cwd entries path ↔
    ∃ raw, HasDenyGlob entries raw ∧
      (machine.buildGlobMatcher (globText machine cwd raw)).any (· path) := by
  rw [deniedByGlob, List.any_eq_true]
  constructor
  · rintro ⟨pattern, hpattern, hmatch⟩
    obtain ⟨raw, hraw, rfl⟩ := mem_getUnreadableGlobs.1 hpattern
    exact ⟨raw, hraw, hmatch⟩
  · rintro ⟨raw, hraw, hmatch⟩
    exact ⟨_, mem_getUnreadableGlobs.2 ⟨raw, hraw, rfl⟩, hmatch⟩

theorem wellFormed_iff : WellFormed machine cwd entries ↔
    ∀ raw, HasDenyGlob entries raw →
      (machine.buildGlobMatcher (globText machine cwd raw)).isSome := by
  constructor
  · intro h raw hraw
    exact h _ (mem_getUnreadableGlobs.2 ⟨raw, hraw, rfl⟩)
  · intro h pattern hpattern
    obtain ⟨raw, hraw, rfl⟩ := mem_getUnreadableGlobs.1 hpattern
    exact h raw hraw

/-! ## What the matcher denies -/

def readDenied (machine : Machine) (cwd : AbsolutePathBuf) (entries : List FileSystemSandboxEntry)
    (path : AbsolutePathBuf) : Bool :=
  (ReadDenyMatcher.new machine cwd (.restricted entries)).any (·.isReadDenied path)

theorem mem_unreadableRoots {root : AbsolutePathBuf} :
    root ∈ (FileSystemSandboxPolicy.restricted entries).getUnreadableRootsWithCwd
        machine.toHost cwd ↔ Resolves machine cwd entries root .none ∧ root ≠ .root := by
  rw [FileSystemSandboxPolicy.mem_getUnreadableRoots rfl]
  constructor
  · rintro ⟨⟨path, access⟩, hmem, rfl, -, hne, rfl⟩
    exact ⟨mem_resolved_iff.1 hmem, hne⟩
  · rintro ⟨hresolves, hne⟩
    have hmem := mem_resolved_iff.2 hresolves
    exact ⟨_, hmem, rfl, FileSystemSandboxPolicy.not_canRead_of_none rfl hmem rfl, hne, rfl⟩

/-- The matcher denies what stands under a denied path other than the filesystem root, and what a
deny glob matches. -/
theorem readDenied_iff (h : WellFormed machine cwd entries) :
    readDenied machine cwd entries path ↔
      (∃ denied, Resolves machine cwd entries denied .none ∧ denied ≠ .root ∧
        path.startsWith denied) ∨ deniedByGlob machine cwd entries path := by
  rw [readDenied, ReadDenyMatcher.new]
  cases hrestrictions :
      (FileSystemSandboxPolicy.restricted entries).hasDeniedReadRestrictions with
  | false =>
    have hnone : ∀ entry ∈ entries, entry.access ≠ .none := by
      simpa [FileSystemSandboxPolicy.hasDeniedReadRestrictions,
        FileSystemSandboxPolicy.restricted] using hrestrictions
    refine iff_of_false (by simp) ?_
    rintro (⟨denied, ⟨entry, hentry, -, haccess⟩, -⟩ | hglob)
    · exact hnone entry hentry haccess
    · obtain ⟨raw, hraw, -⟩ := deniedByGlob_iff.1 hglob
      exact hnone _ hraw rfl
  | true =>
    have hvalid : ((FileSystemSandboxPolicy.restricted entries).getUnreadableGlobsWithCwd
        machine.toHost cwd).any (machine.buildGlobMatcher · |>.isNone) = false := by
      refine List.any_eq_false.2 fun pattern hpattern => ?_
      have hsome := h pattern hpattern
      rw [Option.isNone_iff_eq_none]
      intro hnone
      rw [hnone] at hsome
      cases hsome
    rw [if_neg (by simp), Option.any_some, ReadDenyMatcher.isReadDenied]
    simp only [hvalid, Bool.false_eq_true, if_false]
    have hroots : ((FileSystemSandboxPolicy.restricted entries).getUnreadableRootsWithCwd
          machine.toHost cwd).any (fun denied => path = denied ∨ path.startsWith denied) ↔
        ∃ denied, Resolves machine cwd entries denied .none ∧ denied ≠ .root ∧
          path.startsWith denied := by
      rw [List.any_eq_true]
      constructor
      · rintro ⟨denied, hdenied, hpath⟩
        obtain ⟨hresolves, hne⟩ := mem_unreadableRoots.1 hdenied
        refine ⟨denied, hresolves, hne, ?_⟩
        rcases of_decide_eq_true hpath with rfl | hpath
        · exact FileSystemSandboxPolicy.startsWith_self path
        · exact hpath
      · rintro ⟨denied, hresolves, hne, hpath⟩
        exact ⟨denied, mem_unreadableRoots.2 ⟨hresolves, hne⟩, decide_eq_true (.inr hpath)⟩
    rw [← hroots]
    cases List.any _ _ with
    | true => simp
    | false =>
      simp only [Bool.false_eq_true, if_false, false_or]
      rw [deniedByGlob, List.any_eq_true, List.any_eq_true]
      constructor
      · rintro ⟨matcher, hmatcher, hpath⟩
        obtain ⟨pattern, hpattern, hbuild⟩ := List.mem_filterMap.1 hmatcher
        exact ⟨pattern, hpattern, by rw [hbuild]; exact hpath⟩
      · rintro ⟨pattern, hpattern, hpath⟩
        cases hbuild : machine.buildGlobMatcher pattern with
        | none =>
          rw [hbuild] at hpath
          cases hpath
        | some matcher =>
          rw [hbuild] at hpath
          exact ⟨matcher, List.mem_filterMap.2 ⟨pattern, hpattern, hbuild⟩, hpath⟩

/-! ## What is accepted and what is kept -/

/-- A granted entry that resolves is within the request. -/
def Accepted (machine : Machine) (cwd : AbsolutePathBuf)
    (requested granted : List FileSystemSandboxEntry) (path : AbsolutePathBuf)
    (access : FileSystemAccessMode) : Prop :=
  ∃ entry ∈ granted, grantedFileSystemEntryWithinRequest machine cwd requested
      (.restricted requested) (ReadDenyMatcher.new machine cwd (.restricted requested)) entry ∧
    resolvePermissionPath machine cwd entry.path = some path ∧ entry.access = access

theorem accessCovers_iff {access access' : FileSystemAccessMode} (h : access' ≠ .none) :
    accessCovers access access' ↔ access'.capability ≤ access.capability := by
  cases access <;> cases access' <;> first | exact absurd rfl h | decide

theorem accepted_iff {access : FileSystemAccessMode} :
    Accepted machine cwd requested granted path access ↔
      access ≠ .none ∧ Resolves machine cwd granted path access ∧
        readDenied machine cwd requested path = false ∧
          access.capability ≤ ((FileSystemSandboxPolicy.restricted
            requested).resolveAccessWithCwd machine.toHost cwd path).capability := by
  have hwithin {entry : FileSystemSandboxEntry}
      (hpath : resolvePermissionPath machine cwd entry.path = some path) :
      grantedFileSystemEntryWithinRequest machine cwd requested (.restricted requested)
          (ReadDenyMatcher.new machine cwd (.restricted requested)) entry ↔
        entry.access ≠ .none ∧ readDenied machine cwd requested path = false ∧
          entry.access.capability ≤ ((FileSystemSandboxPolicy.restricted
            requested).resolveAccessWithCwd machine.toHost cwd path).capability := by
    rw [grantedFileSystemEntryWithinRequest, hpath]
    show (if !entry.access.canRead then false
      else if readDenied machine cwd requested path then false
      else accessCovers ((FileSystemSandboxPolicy.restricted
        requested).resolveAccessWithCwd machine.toHost cwd path) entry.access) = true ↔ _
    by_cases hnone : entry.access = .none
    · simp [hnone, FileSystemAccessMode.canRead]
    · have hread : entry.access.canRead := FileSystemAccessMode.canRead_iff.2 hnone
      rw [hread, if_neg (by decide)]
      cases hdenied : readDenied machine cwd requested path with
      | true => simp
      | false => simpa [hdenied, hnone] using accessCovers_iff hnone
  constructor
  · rintro ⟨entry, hentry, hin, hpath, rfl⟩
    obtain ⟨hnone, hdenied, hcovers⟩ := (hwithin hpath).1 hin
    exact ⟨hnone, ⟨entry, hentry, hpath, rfl⟩, hdenied, hcovers⟩
  · rintro ⟨hnone, ⟨entry, hentry, hpath, rfl⟩, hdenied, hcovers⟩
    exact ⟨entry, hentry, (hwithin hpath).2 ⟨hnone, hdenied, hcovers⟩, hpath, rfl⟩

/-! ### Materialised entries -/

theorem materialize_access (entry : FileSystemSandboxEntry) :
    (materializeCwdDependentEntry machine cwd entry).access = entry.access := by
  rw [materializeCwdDependentEntry]
  split
  · split <;> rfl
  · split <;> rfl
  · rfl
  · rfl
  · rfl

/-- Only entries that name the cwd are written out, and a glob pattern is resolved. -/
theorem materialize_cases (entry : FileSystemSandboxEntry) :
    (∃ path, resolvePermissionPath machine cwd entry.path = some path ∧
      materializeCwdDependentEntry machine cwd entry = ⟨.path path, entry.access⟩) ∨
    (∃ raw, entry.path = .globPattern raw ∧ materializeCwdDependentEntry machine cwd entry =
      ⟨.globPattern (globText machine cwd raw), entry.access⟩) ∨
    materializeCwdDependentEntry machine cwd entry = entry := by
  obtain ⟨target, access⟩ := entry
  cases target with
  | path path => exact .inr (.inr rfl)
  | globPattern raw => exact .inr (.inl ⟨raw, rfl, rfl⟩)
  | special value =>
    cases value with
    | currentWorkingDirectory => exact .inl ⟨cwd, rfl, rfl⟩
    | projectRoots subpath => cases subpath <;> exact .inl ⟨_, rfl, rfl⟩
    | _ => exact .inr (.inr rfl)

theorem resolve_materialize (entry : FileSystemSandboxEntry) :
    resolvePermissionPath machine cwd (materializeCwdDependentEntry machine cwd entry).path =
      resolvePermissionPath machine cwd entry.path := by
  rcases materialize_cases entry with ⟨path, hpath, heq⟩ | ⟨raw, hraw, heq⟩ | heq
  · rw [heq, hpath]
    rfl
  · rw [heq, hraw]
    rfl
  · rw [heq]

theorem globText_globText (raw : List Char) :
    globText machine cwd (globText machine cwd raw) = globText machine cwd raw :=
  congrArg AbsolutePathBuf.text (machine.resolve_text _ cwd)

theorem materialize_materialize (entry : FileSystemSandboxEntry) :
    materializeCwdDependentEntry machine cwd (materializeCwdDependentEntry machine cwd entry) =
      materializeCwdDependentEntry machine cwd entry := by
  rcases materialize_cases entry with ⟨path, -, heq⟩ | ⟨raw, -, heq⟩ | heq
  · rw [heq]
    rfl
  · rw [heq]
    show FileSystemSandboxEntry.mk (.globPattern (globText machine cwd _)) _ = _
    rw [globText_globText]
  · rw [heq, heq]

/-- A deny glob that is written out is that of its pattern. -/
theorem denyGlob_materialize {raw : List Char}
    (h : materializeCwdDependentEntry machine cwd entry = ⟨.globPattern raw, .none⟩) :
    ∃ source, entry = ⟨.globPattern source, .none⟩ ∧ globText machine cwd source = raw := by
  obtain ⟨target, access⟩ := entry
  have hcases := @materialize_cases machine cwd ⟨target, access⟩
  rcases hcases with ⟨path, -, heq⟩ | ⟨source, rfl, heq⟩ | heq
  · cases heq.symm.trans h
  · cases heq.symm.trans h
    exact ⟨source, rfl, rfl⟩
  · cases heq.symm.trans h
    exact ⟨raw, rfl, FileSystemPath.globPattern.inj (congrArg FileSystemSandboxEntry.path heq)⟩

end Mcodex.Permissions
