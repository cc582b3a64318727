import Mcodex.Permissions.ReadDeny

/-!
# Additional readable and writable roots

A policy is given additional roots by entries added at its end, one for each root that it does not
give the access yet. Entries are resolved by the most specific one and not by their order, so it is
to be shown that an added entry narrows nothing (`Widens`): it prevails only at paths where what
prevailed at the root did, and that was less than the access asked for.
-/

namespace Mcodex.Permissions

open Ranking Precedence

namespace FileSystemSandboxPolicy

variable (host : Host) (cwd : AbsolutePathBuf)

/-- The entries with one for a root added. -/
def push (policy : FileSystemSandboxPolicy) (path : AbsolutePathBuf)
    (access : FileSystemAccessMode) : FileSystemSandboxPolicy :=
  { policy with entries := policy.entries ++ [⟨.path path, access⟩] }

def withAdditionalReadableRoots (policy : FileSystemSandboxPolicy)
    (additionalReadableRoots : List AbsolutePathBuf) : FileSystemSandboxPolicy :=
  if policy.hasFullDiskReadAccess then policy
  else additionalReadableRoots.foldl (fun policy path =>
    if policy.canReadPathWithCwd host cwd path then policy else policy.push path .read) policy

def withAdditionalWritableRoots (policy : FileSystemSandboxPolicy)
    (additionalWritableRoots : List AbsolutePathBuf) : FileSystemSandboxPolicy :=
  additionalWritableRoots.foldl (fun policy path =>
    if policy.canWritePathWithCwd host cwd path then policy else policy.push path .write) policy

/-! ## One root -/

/-- A root added, where the policy does not give it the access. -/
def withRoot (access : FileSystemAccessMode) (policy : FileSystemSandboxPolicy)
    (path : AbsolutePathBuf) : FileSystemSandboxPolicy :=
  if access.capability ≤ (policy.resolveAccessWithCwd host cwd path).capability then policy
  else policy.push path access

/-- Roots added one after the other. -/
def withRoots (access : FileSystemAccessMode) (policy : FileSystemSandboxPolicy)
    (roots : List AbsolutePathBuf) : FileSystemSandboxPolicy :=
  roots.foldl (withRoot host cwd access) policy

theorem canRead_iff_capability {access : FileSystemAccessMode} :
    access.canRead ↔ FileSystemAccessMode.read.capability ≤ access.capability := by
  cases access <;> decide

theorem canWrite_iff_capability {access : FileSystemAccessMode} :
    access.canWrite ↔ FileSystemAccessMode.write.capability ≤ access.capability := by
  cases access <;> decide

theorem withAdditionalReadableRoots_eq (policy : FileSystemSandboxPolicy)
    (roots : List AbsolutePathBuf) : policy.withAdditionalReadableRoots host cwd roots =
      if policy.hasFullDiskReadAccess then policy else withRoots host cwd .read policy roots := by
  have hstep : (fun (policy : FileSystemSandboxPolicy) path =>
      if policy.canReadPathWithCwd host cwd path then policy else policy.push path .read) =
        withRoot host cwd .read := by
    funext policy path
    simp only [withRoot, canReadPathWithCwd, canRead_iff_capability]
  rw [withAdditionalReadableRoots, hstep, withRoots]

theorem withAdditionalWritableRoots_eq (policy : FileSystemSandboxPolicy)
    (roots : List AbsolutePathBuf) : policy.withAdditionalWritableRoots host cwd roots =
      withRoots host cwd .write policy roots := by
  have hstep : (fun (policy : FileSystemSandboxPolicy) path =>
      if policy.canWritePathWithCwd host cwd path then policy else policy.push path .write) =
        withRoot host cwd .write := by
    funext policy path
    simp only [withRoot, canWritePathWithCwd, canWrite_iff_capability]
  rw [withAdditionalWritableRoots, hstep, withRoots]

section
variable {host : Host} {cwd path root : AbsolutePathBuf} {access : FileSystemAccessMode}
  {policy policy' policy'' : FileSystemSandboxPolicy} {roots roots' : List AbsolutePathBuf}

theorem resolvedEntries_push : (policy.push root access).resolvedEntriesWithCwd host cwd =
    policy.resolvedEntriesWithCwd host cwd ++ [⟨root, access⟩] := by
  simp only [resolvedEntriesWithCwd, push, List.filterMap_append]
  rfl

/-- The rules of the policy with a root added. -/
theorem rules_push : ((policy.push root access).resolvedEntriesWithCwd host cwd).map (·.rule) =
    (policy.resolvedEntriesWithCwd host cwd).map (·.rule) ++ [⟨root.names, access⟩] := by
  rw [resolvedEntries_push, List.map_append]
  rfl

/-- An added root changes nothing at a path, or it decides there, and the access there was that of
the root. -/
theorem resolveAccess_push_cases (hkind : policy.kind = .restricted) :
    (policy.push root access).resolveAccessWithCwd host cwd path =
        policy.resolveAccessWithCwd host cwd path ∨
      path.startsWith root ∧ policy.resolveAccessWithCwd host cwd path =
        policy.resolveAccessWithCwd host cwd root ∧
          (policy.push root access).resolveAccessWithCwd host cwd path = access := by
  have hpush : (policy.push root access).kind = .restricted := hkind
  rw [resolveAccess_eq hkind, resolveAccess_eq hkind, resolveAccess_eq hpush, rules_push]
  rcases resolve_append_cases ((policy.resolvedEntriesWithCwd host cwd).map (·.rule))
    ⟨root.names, access⟩ path.names with heq | ⟨hpre, hold, hnew⟩
  · exact .inl (by rw [heq])
  · exact .inr ⟨AbsolutePathBuf.startsWith_iff.2 hpre, by rw [hold], by rw [hnew]; rfl⟩

/-- An entry that denies goes on to decide where it is at or below an added root. -/
theorem Decides.push {entry : ResolvedFileSystemEntry} (h : policy.Decides host cwd path entry)
    (hnone : entry.access = .none) (hroot : path.startsWith root → entry.path.startsWith root) :
    (policy.push root access).Decides host cwd path entry := by
  rw [Decides, rules_push]
  refine Prevails.append h fun hpre => ?_
  have hbelow := AbsolutePathBuf.startsWith_iff.1 (hroot (AbsolutePathBuf.startsWith_iff.2 hpre))
  rcases hbelow.length_le.lt_or_eq with hlt | heq
  · exact .inl hlt
  · refine .inr ⟨hbelow.eq_of_length heq, ?_⟩
    show access ≤ entry.access
    rw [hnone]
    exact access.le_none

/-- An entry that is there already may be added. -/
theorem resolveAccess_push_of_mem (hmem : ⟨.path root, access⟩ ∈ policy.entries) :
    (policy.push root access).resolveAccessWithCwd host cwd path =
      policy.resolveAccessWithCwd host cwd path := by
  cases hkind : policy.kind with
  | restricted =>
    have hpush : (policy.push root access).kind = .restricted := hkind
    rw [resolveAccess_eq hkind, resolveAccess_eq hpush, rules_push]
    have hrule : ⟨root.names, access⟩ ∈
        (policy.resolvedEntriesWithCwd host cwd).map ResolvedFileSystemEntry.rule :=
      List.mem_map.2 ⟨⟨root, access⟩, mem_resolvedEntries.2 ⟨_, hmem, rfl, rfl⟩, rfl⟩
    rw [resolve_of_covered (fun rule => List.mem_append_left _) fun rule' hrule' => ?_]
    rcases List.mem_append.1 hrule' with hrule' | hrule'
    · exact ⟨rule', hrule', rfl, le_rfl⟩
    · exact ⟨_, hrule, by rw [List.mem_singleton.1 hrule'], by rw [List.mem_singleton.1 hrule']⟩
  | unrestricted | externalSandbox =>
    simp [resolveAccessWithCwd, FileSystemSandboxPolicy.push, hkind]

/-! ## Lists of roots -/

/-- `policy'` is `policy` with wider access under the roots only, and what an entry denies stays
denied where the entry is at or below every root that the path is under. -/
structure Widens (host : Host) (cwd : AbsolutePathBuf) (roots : List AbsolutePathBuf)
    (policy policy' : FileSystemSandboxPolicy) : Prop where
  kind : policy'.kind = policy.kind
  entries : ∀ entry ∈ policy.entries, entry ∈ policy'.entries
  le : ∀ path, (policy.resolveAccessWithCwd host cwd path).capability ≤
    (policy'.resolveAccessWithCwd host cwd path).capability
  under : ∀ path, policy'.resolveAccessWithCwd host cwd path ≠
    policy.resolveAccessWithCwd host cwd path → ∃ root ∈ roots, path.startsWith root
  denied : ∀ path entry, policy.Decides host cwd path entry → entry.access = .none →
    (∀ root ∈ roots, path.startsWith root → entry.path.startsWith root) →
    policy'.Decides host cwd path entry

theorem Widens.refl : Widens host cwd roots policy policy :=
  ⟨rfl, fun _ => id, fun _ => le_rfl, fun _ h => absurd rfl h, fun _ _ h _ _ => h⟩

theorem Widens.trans (h : Widens host cwd roots policy policy')
    (h' : Widens host cwd roots' policy' policy'') :
    Widens host cwd (roots ++ roots') policy policy'' where
  kind := h'.kind.trans h.kind
  entries entry hentry := h'.entries entry (h.entries entry hentry)
  le path := (h.le path).trans (h'.le path)
  under path hne := by
    by_cases heq : policy'.resolveAccessWithCwd host cwd path =
      policy.resolveAccessWithCwd host cwd path
    · obtain ⟨root, hroot, hpath⟩ := h'.under path (heq ▸ hne)
      exact ⟨root, List.mem_append_right _ hroot, hpath⟩
    · obtain ⟨root, hroot, hpath⟩ := h.under path heq
      exact ⟨root, List.mem_append_left _ hroot, hpath⟩
  denied path entry hentry hnone hroots :=
    h'.denied path entry
      (h.denied path entry hentry hnone fun root hroot =>
        hroots root (List.mem_append_left _ hroot))
      hnone fun root hroot => hroots root (List.mem_append_right _ hroot)

/-- A policy that is not restricted gives every path all access. -/
theorem resolveAccess_of_ne (hkind : policy.kind ≠ .restricted) :
    policy.resolveAccessWithCwd host cwd path = .write := by
  rw [resolveAccessWithCwd]
  split
  · rfl
  · rfl
  · exact absurd ‹_› hkind

theorem capability_le_write (access : FileSystemAccessMode) :
    access.capability ≤ FileSystemAccessMode.write.capability := by
  cases access <;> decide

theorem widens_withRoot : Widens host cwd [root] policy (withRoot host cwd access policy root) := by
  rw [withRoot]
  split
  · exact .refl
  · rename_i hless
    have hkind : policy.kind = .restricted := by
      by_contra hne
      exact hless (resolveAccess_of_ne hne ▸ capability_le_write access)
    have hcases := fun path => @resolveAccess_push_cases host cwd path root access policy hkind
    refine ⟨rfl, fun entry => List.mem_append_left _, fun path => ?_, fun path hne => ?_,
      fun path entry h hnone hroots => h.push hnone (hroots root List.mem_cons_self)⟩
    · rcases hcases path with heq | ⟨-, hold, hnew⟩
      · rw [heq]
      · rw [hold, hnew]
        omega
    · rcases hcases path with heq | ⟨hpath, -⟩
      · exact absurd heq hne
      · exact ⟨root, List.mem_cons_self, hpath⟩

theorem widens_withRoots : ∀ (roots : List AbsolutePathBuf) (policy : FileSystemSandboxPolicy),
    Widens host cwd roots policy (withRoots host cwd access policy roots)
  | [], _ => .refl
  | _ :: roots, _ => widens_withRoot.trans (widens_withRoots roots _)

/-- The policy gives the root the access, or has an entry that asks for it. -/
def Served (host : Host) (cwd : AbsolutePathBuf) (access : FileSystemAccessMode)
    (policy : FileSystemSandboxPolicy) (root : AbsolutePathBuf) : Prop :=
  access.capability ≤ (policy.resolveAccessWithCwd host cwd root).capability ∨
    ⟨.path root, access⟩ ∈ policy.entries

theorem Served.mono (h : Served host cwd access policy root)
    (hwidens : Widens host cwd roots policy policy') : Served host cwd access policy' root :=
  h.imp (fun hle => hle.trans (hwidens.le root)) fun hmem => hwidens.entries _ hmem

theorem served_withRoot : Served host cwd access (withRoot host cwd access policy root) root := by
  rw [withRoot]
  split
  · exact .inl ‹_›
  · exact .inr (List.mem_append_right _ List.mem_cons_self)

theorem served_withRoots : ∀ (roots : List AbsolutePathBuf) (policy : FileSystemSandboxPolicy),
    ∀ root ∈ roots, Served host cwd access (withRoots host cwd access policy roots) root
  | root :: roots, policy, other, hother => by
    rcases List.mem_cons.1 hother with rfl | hother
    · exact served_withRoot.mono (widens_withRoots roots _)
    · exact served_withRoots roots _ other hother

/-- Where every root is served, adding them changes no access. -/
theorem resolveAccess_withRoots_of_served : ∀ (roots : List AbsolutePathBuf)
    (policy : FileSystemSandboxPolicy), (∀ root ∈ roots, Served host cwd access policy root) →
    ∀ path, (withRoots host cwd access policy roots).resolveAccessWithCwd host cwd path =
      policy.resolveAccessWithCwd host cwd path
  | [], _, _, _ => rfl
  | root :: roots, policy, h, path => by
    rw [List.forall_mem_cons] at h
    have hsame : (withRoot host cwd access policy root).resolveAccessWithCwd host cwd path =
        policy.resolveAccessWithCwd host cwd path := by
      rw [withRoot]
      split
      · rfl
      · exact resolveAccess_push_of_mem (h.1.resolve_left ‹_›)
    refine Eq.trans (resolveAccess_withRoots_of_served roots _ (fun other hother => ?_) path) hsame
    exact (h.2 other hother).mono widens_withRoot

/-- No path has less access in `policy'`, one that is not under a root has the same, and one that an
entry denies stays denied where the entry is at or below every root that the path is under. -/
def WidensAccess (host : Host) (cwd : AbsolutePathBuf) (roots : List AbsolutePathBuf)
    (policy policy' : FileSystemSandboxPolicy) : Prop :=
  (∀ path, (policy.resolveAccessWithCwd host cwd path).capability ≤
    (policy'.resolveAccessWithCwd host cwd path).capability) ∧
  (∀ path, policy'.resolveAccessWithCwd host cwd path ≠
    policy.resolveAccessWithCwd host cwd path → ∃ root ∈ roots, path.startsWith root) ∧
  (policy.kind = .restricted → ∀ path entry, policy.Decides host cwd path entry →
    entry.access = .none → (∀ root ∈ roots, path.startsWith root → entry.path.startsWith root) →
      policy'.resolveAccessWithCwd host cwd path = .none)

theorem Widens.widensAccess (h : Widens host cwd roots policy policy') :
    WidensAccess host cwd roots policy policy' :=
  ⟨h.le, h.under, fun hkind path entry hentry hnone hroots =>
    ((h.denied path entry hentry hnone hroots).resolveAccess (h.kind.trans hkind)).trans hnone⟩

/-- Roots added once more. -/
theorem resolveAccess_withRoots_withRoots (roots : List AbsolutePathBuf)
    (policy : FileSystemSandboxPolicy) (path : AbsolutePathBuf) :
    (withRoots host cwd access (withRoots host cwd access policy roots)
      roots).resolveAccessWithCwd host cwd path =
        (withRoots host cwd access policy roots).resolveAccessWithCwd host cwd path :=
  resolveAccess_withRoots_of_served roots _ (served_withRoots roots policy) path

/-- **Additional roots only widen.** With additional readable roots, and with additional writable
roots, access is widened under the roots only, and the same roots once more change nothing. -/
theorem withAdditionalRoots_widen (host : Host) (cwd : AbsolutePathBuf)
    (policy : FileSystemSandboxPolicy) (roots : List AbsolutePathBuf) :
    (WidensAccess host cwd roots policy (policy.withAdditionalReadableRoots host cwd roots) ∧
      ∀ path, ((policy.withAdditionalReadableRoots host cwd roots).withAdditionalReadableRoots host
        cwd roots).resolveAccessWithCwd host cwd path =
          (policy.withAdditionalReadableRoots host cwd roots).resolveAccessWithCwd host cwd path) ∧
    (WidensAccess host cwd roots policy (policy.withAdditionalWritableRoots host cwd roots) ∧
      ∀ path, ((policy.withAdditionalWritableRoots host cwd roots).withAdditionalWritableRoots host
        cwd roots).resolveAccessWithCwd host cwd path =
          (policy.withAdditionalWritableRoots host cwd roots).resolveAccessWithCwd host cwd
            path) := by
  refine ⟨⟨?_, fun path => ?_⟩, ?_, fun path => ?_⟩
  · rw [withAdditionalReadableRoots_eq]
    split
    · exact Widens.refl.widensAccess
    · exact (widens_withRoots roots policy).widensAccess
  · by_cases hfull : policy.hasFullDiskReadAccess
    · have hsame : policy.withAdditionalReadableRoots host cwd roots = policy := by
        rw [withAdditionalReadableRoots_eq, if_pos hfull]
      rw [hsame, hsame]
    · rw [withAdditionalReadableRoots_eq host cwd policy, if_neg hfull,
        withAdditionalReadableRoots_eq]
      split
      · rfl
      · exact resolveAccess_withRoots_withRoots roots policy path
  · rw [withAdditionalWritableRoots_eq]
    exact (widens_withRoots roots policy).widensAccess
  · rw [withAdditionalWritableRoots_eq, withAdditionalWritableRoots_eq]
    exact resolveAccess_withRoots_withRoots roots policy path

end

/-- An entry that denies `/tmp` is below the filesystem root, and `/tmp/shared` is given back by a
root of its own. -/
theorem withAdditionalReadableRoots_givenBack :
    ¬∀ (host : Host) (cwd : AbsolutePathBuf) (policy : FileSystemSandboxPolicy)
      (roots : List AbsolutePathBuf), policy.kind = .restricted → ∀ root ∈ roots, ∀ path entry,
        policy.Decides host cwd path entry → entry.access = .none → entry.path.startsWith root →
          (policy.withAdditionalReadableRoots host cwd roots).resolveAccessWithCwd host cwd path =
            .none := by
  intro h
  have hdenied := h bareHost .root (.restricted [⟨.path .slashTmp, .none⟩])
    [.root, slashTmpShared] rfl .root List.mem_cons_self slashTmpShared ⟨.slashTmp, .none⟩
    ⟨List.mem_cons_self, by decide, by decide⟩ rfl (by decide)
  have hgiven : ((FileSystemSandboxPolicy.restricted
      [⟨.path .slashTmp, .none⟩]).withAdditionalReadableRoots bareHost .root
        [.root, slashTmpShared]).resolveAccessWithCwd bareHost .root slashTmpShared = .read := by
    decide
  rw [hgiven] at hdenied
  cases hdenied

end FileSystemSandboxPolicy

end Mcodex.Permissions
