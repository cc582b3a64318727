import Mcodex.Permissions.Reintersect

/-!
# Denied reads and the most specific entry

What access a path has is decided by the most specific entry, while the matcher for denied reads
holds the roots of the entries that deny, and denies all that stands under one of them. So an entry
that gives a part of a denied subtree back decides the access there, and does not lift the denial.
-/

namespace Mcodex.Permissions

open FileSystemSandboxPolicy

section
variable {machine : Machine} {policy : FileSystemSandboxPolicy} {cwd path : AbsolutePathBuf}

/-- The matcher of the policy, where it has one, denies the path. -/
def isReadDeniedWithCwd (machine : Machine) (policy : FileSystemSandboxPolicy)
    (cwd path : AbsolutePathBuf) : Bool :=
  (ReadDenyMatcher.new machine cwd policy).any (·.isReadDenied path)

/-- The matcher does not read the depth to which globs are scanned. -/
theorem isReadDeniedWithCwd_eq (hkind : policy.kind = .restricted) :
    isReadDeniedWithCwd machine policy cwd path = readDenied machine cwd policy.entries path := by
  obtain ⟨kind, depth, entries⟩ := policy
  obtain rfl : kind = .restricted := hkind
  rfl

theorem mem_resolvedEntries_iff {entry : ResolvedFileSystemEntry} :
    entry ∈ policy.resolvedEntriesWithCwd machine.toHost cwd ↔
      Resolves machine cwd policy.entries entry.path entry.access :=
  @mem_resolved_iff _ _ _ policy.entries _

/-- **Denied reads.** The matcher of a restricted policy without malformed globs denies what stands
at or under the path of an entry that denies, other than the filesystem root, and what a deny glob
matches. -/
theorem isReadDeniedWithCwd_iff (hkind : policy.kind = .restricted)
    (h : WellFormed machine cwd policy.entries) :
    isReadDeniedWithCwd machine policy cwd path ↔
      (∃ entry ∈ policy.resolvedEntriesWithCwd machine.toHost cwd, path.startsWith entry.path ∧
        entry.access = .none ∧ entry.path ≠ .root) ∨
      deniedByGlob machine cwd policy.entries path := by
  rw [isReadDeniedWithCwd_eq hkind, readDenied_iff h]
  refine or_congr_left ⟨?_, ?_⟩
  · rintro ⟨denied, hresolves, hne, hpath⟩
    exact ⟨⟨denied, .none⟩, mem_resolvedEntries_iff.2 hresolves, hpath, rfl, hne⟩
  · rintro ⟨⟨denied, access⟩, hmem, hpath, rfl, hne⟩
    exact ⟨denied, mem_resolvedEntries_iff.1 hmem, hne, hpath⟩

end

def slashTmpShared : AbsolutePathBuf := AbsolutePathBuf.slashTmp.pushComponent "shared".toList

/-- Reads of `/tmp` are denied, and those of `/tmp/shared` are allowed again. -/
def sharedTmp : FileSystemSandboxPolicy :=
  .restricted [⟨.path .slashTmp, .none⟩, ⟨.path slashTmpShared, .read⟩]

theorem isReadDeniedWithCwd_iff_sharedTmp :
    isReadDeniedWithCwd literalMachine sharedTmp .root .slashTmp ↔
      (∃ entry ∈ sharedTmp.resolvedEntriesWithCwd literalMachine.toHost .root,
        AbsolutePathBuf.slashTmp.startsWith entry.path ∧ entry.access = .none ∧
          entry.path ≠ .root) ∨
      deniedByGlob literalMachine .root sharedTmp.entries .slashTmp :=
  isReadDeniedWithCwd_iff rfl wellFormed_literalMachine

/-- The entry that gives `/tmp/shared` back decides there, and the matcher denies it. -/
theorem isReadDeniedWithCwd_givenBack :
    ¬∀ (machine : Machine) (policy : FileSystemSandboxPolicy) (cwd path : AbsolutePathBuf),
      policy.kind = .restricted → WellFormed machine cwd policy.entries →
      (isReadDeniedWithCwd machine policy cwd path ↔
        (∃ entry, policy.Decides machine.toHost cwd path entry ∧ entry.access = .none ∧
          entry.path ≠ .root) ∨ deniedByGlob machine cwd policy.entries path) := by
  intro h
  have hdenied : isReadDeniedWithCwd literalMachine sharedTmp .root slashTmpShared := by decide
  have haccess : sharedTmp.resolveAccessWithCwd literalMachine.toHost .root slashTmpShared =
    .read := by decide
  have hglob : deniedByGlob literalMachine .root sharedTmp.entries slashTmpShared = false := by
    decide
  rcases (h literalMachine sharedTmp .root slashTmpShared rfl wellFormed_literalMachine).1 hdenied
    with ⟨entry, hentry, hnone, -⟩ | hmatch
  · rw [hentry.resolveAccess rfl, hnone] at haccess
    cases haccess
  · rw [hglob] at hmatch
    cases hmatch

end Mcodex.Permissions
