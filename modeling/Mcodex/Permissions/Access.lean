import Mcodex.Permissions.FileSystemPolicy

/-!
# What access a path has

The resolved entries of a policy are rules on names, so the access to a path is that of the most
specific rule. What prevails for a path prevails for the path of its entry too: a root is a path
where an entry prevails.
-/

namespace Mcodex.Permissions

open Ranking Precedence

/-- The entry as a rule on the names of paths. -/
def ResolvedFileSystemEntry.rule (entry : ResolvedFileSystemEntry) :
    Rule (List Char) FileSystemAccessMode :=
  ⟨entry.path.names, entry.access⟩

namespace FileSystemSandboxPolicy

variable {host : Host} {policy policy' : FileSystemSandboxPolicy} {cwd path : AbsolutePathBuf}
  {entry : ResolvedFileSystemEntry}

/-- An entry of the policy applies to the path, and none comes before it. -/
def Decides (host : Host) (policy : FileSystemSandboxPolicy) (cwd path : AbsolutePathBuf)
    (entry : ResolvedFileSystemEntry) : Prop :=
  Prevails ((policy.resolvedEntriesWithCwd host cwd).map (·.rule)) path.names entry.rule

theorem rule_injective : Function.Injective ResolvedFileSystemEntry.rule := by
  rintro ⟨path, access⟩ ⟨path', access'⟩ h
  obtain ⟨hnames, haccess⟩ := Rule.mk.inj h
  rw [show path = path' from AbsolutePathBuf.ext_names hnames, show access = access' from haccess]

theorem Decides.mem (h : policy.Decides host cwd path entry) :
    entry ∈ policy.resolvedEntriesWithCwd host cwd :=
  (List.mem_map_of_injective rule_injective).1 (Prevails.mem h)

theorem Decides.startsWith (h : policy.Decides host cwd path entry) : path.startsWith entry.path :=
  AbsolutePathBuf.startsWith_iff.2 h.isPrefix

theorem Decides.self (h : policy.Decides host cwd path entry) :
    policy.Decides host cwd entry.path entry := Prevails.self h

/-- What else applies to the path is above the entry that decides, or beaten at its path. -/
theorem Decides.most (h : policy.Decides host cwd path entry) {entry' : ResolvedFileSystemEntry}
    (hmem : entry' ∈ policy.resolvedEntriesWithCwd host cwd)
    (happlies : path.startsWith entry'.path) :
    entry'.path.names.length < entry.path.names.length ∨
      entry'.path = entry.path ∧ entry'.access ≤ entry.access := by
  rcases Prevails.most h entry'.rule (List.mem_map_of_mem hmem)
    (AbsolutePathBuf.startsWith_iff.1 happlies) with hlt | ⟨hkey, hle⟩
  · exact .inl hlt
  · exact .inr ⟨AbsolutePathBuf.ext_names hkey, hle⟩

theorem Decides.above (h : policy.Decides host cwd path entry) {entry' : ResolvedFileSystemEntry}
    (hmem : entry' ∈ policy.resolvedEntriesWithCwd host cwd)
    (happlies : path.startsWith entry'.path) : entry.path.startsWith entry'.path :=
  AbsolutePathBuf.startsWith_iff.2 <| Prevails.isPrefix_key h (List.mem_map_of_mem hmem)
    (AbsolutePathBuf.startsWith_iff.1 happlies)

theorem resolveAccess_eq (h : policy.kind = .restricted) :
    policy.resolveAccessWithCwd host cwd path =
      (resolve ((policy.resolvedEntriesWithCwd host cwd).map (·.rule)) path.names).getD .none := by
  have hresolve : policy.resolveAccessWithCwd host cwd path = ((maxByKey resolvedEntryPrecedence
      ((policy.resolvedEntriesWithCwd host cwd).filter (path.startsWith ·.path))).map
        (·.access)).getD .none := by
    rw [resolveAccessWithCwd, h]
  rw [hresolve]
  cases hmax : maxByKey resolvedEntryPrecedence
    ((policy.resolvedEntriesWithCwd host cwd).filter (path.startsWith ·.path)) with
  | none =>
    have hnone : ∀ rule ∈ (policy.resolvedEntriesWithCwd host cwd).map (·.rule),
        ¬ rule.key <+: path.names := by
      intro rule hrule happlies
      obtain ⟨entry, hentry, rfl⟩ := List.mem_map.1 hrule
      have happlies : path.startsWith entry.path := AbsolutePathBuf.startsWith_iff.2 happlies
      exact List.filter_eq_nil_iff.1 (maxByKey_eq_none.1 hmax) entry hentry happlies
    rw [resolve_eq_none.2 hnone]
    rfl
  | some entry =>
    obtain ⟨hentry, happlies⟩ := List.mem_filter.1 (mem_of_maxByKey hmax)
    have hdecides : policy.Decides host cwd path entry := by
      refine ⟨List.mem_map_of_mem hentry, AbsolutePathBuf.startsWith_iff.1 happlies, ?_⟩
      intro rule hrule happlies'
      obtain ⟨entry', hentry', rfl⟩ := List.mem_map.1 hrule
      have hle := le_of_maxByKey hmax
        (List.mem_filter.2 ⟨hentry', AbsolutePathBuf.startsWith_iff.2 happlies'⟩)
      rw [resolvedEntryPrecedence, resolvedEntryPrecedence, Prod.Lex.toLex_le_toLex] at hle
      have hle' : precedence entry'.rule ≤ precedence entry.rule :=
        Prod.Lex.toLex_le_toLex.2 <| hle.imp Nat.lt_of_succ_lt_succ
          (And.imp_left Nat.succ.inj)
      exact precedence_le hle' (AbsolutePathBuf.startsWith_iff.1 happlies) happlies'
    rw [Prevails.resolve hdecides]
    rfl

theorem Decides.resolveAccess (h : policy.Decides host cwd path entry)
    (hkind : policy.kind = .restricted) :
    policy.resolveAccessWithCwd host cwd path = entry.access := by
  rw [resolveAccess_eq hkind, Prevails.resolve h]
  rfl

/-- Where an entry applies, one decides. -/
theorem exists_decides (hmem : entry ∈ policy.resolvedEntriesWithCwd host cwd)
    (happlies : path.startsWith entry.path) : ∃ entry, policy.Decides host cwd path entry := by
  have hrule : entry.rule ∈ (policy.resolvedEntriesWithCwd host cwd).map (·.rule) :=
    List.mem_map_of_mem hmem
  obtain ⟨rule, hrule, -⟩ := exists_prevails hrule (AbsolutePathBuf.startsWith_iff.1 happlies)
  obtain ⟨entry, -, rfl⟩ := List.mem_map.1 hrule.mem
  exact ⟨entry, hrule⟩

theorem startsWith_self (path : AbsolutePathBuf) : path.startsWith path :=
  AbsolutePathBuf.startsWith_iff.2 List.prefix_rfl

theorem startsWith_trans {path path' path'' : AbsolutePathBuf} (h : path.startsWith path')
    (h' : path'.startsWith path'') : path.startsWith path'' :=
  AbsolutePathBuf.startsWith_iff.2 <|
    (AbsolutePathBuf.startsWith_iff.1 h').trans (AbsolutePathBuf.startsWith_iff.1 h)

/-- At the path of an entry an entry of that path decides, and no less access precedes it. -/
theorem exists_decides_self (hmem : entry ∈ policy.resolvedEntriesWithCwd host cwd) :
    ∃ winner, policy.Decides host cwd entry.path winner ∧ winner.path = entry.path ∧
      entry.access ≤ winner.access := by
  obtain ⟨winner, hwinner⟩ := exists_decides hmem (startsWith_self entry.path)
  have habove := AbsolutePathBuf.startsWith_iff.1 hwinner.startsWith
  rcases hwinner.most hmem (startsWith_self entry.path) with hlt | ⟨heq, hle⟩
  · have := habove.length_le
    omega
  · exact ⟨winner, hwinner, heq.symm, hle⟩

/-- An access other than none is that of the entry that decides. -/
theorem exists_decides_of_access (hkind : policy.kind = .restricted)
    (h : policy.resolveAccessWithCwd host cwd path ≠ .none) :
    ∃ entry, policy.Decides host cwd path entry ∧
      policy.resolveAccessWithCwd host cwd path = entry.access := by
  rw [resolveAccess_eq hkind] at h ⊢
  cases hresolve : resolve ((policy.resolvedEntriesWithCwd host cwd).map (·.rule)) path.names with
  | none => exact absurd (by rw [hresolve]; rfl) h
  | some access =>
    obtain ⟨rule, hrule, rfl⟩ := resolve_eq_some.1 hresolve
    obtain ⟨entry, -, rfl⟩ := List.mem_map.1 hrule.mem
    exact ⟨entry, hrule, rfl⟩

theorem canWrite_iff (hkind : policy.kind = .restricted) :
    policy.canWritePathWithCwd host cwd path ↔
      ∃ entry, policy.Decides host cwd path entry ∧ entry.access = .write := by
  rw [canWritePathWithCwd, FileSystemAccessMode.canWrite_iff]
  constructor
  · intro h
    have hne : policy.resolveAccessWithCwd host cwd path ≠ .none := by
      rw [h]
      decide
    obtain ⟨entry, hdecides, haccess⟩ := exists_decides_of_access hkind hne
    exact ⟨entry, hdecides, haccess.symm.trans h⟩
  · rintro ⟨entry, hdecides, haccess⟩
    rw [hdecides.resolveAccess hkind, haccess]

theorem canRead_iff (hkind : policy.kind = .restricted) :
    policy.canReadPathWithCwd host cwd path ↔
      ∃ entry, policy.Decides host cwd path entry ∧ entry.access ≠ .none := by
  rw [canReadPathWithCwd, FileSystemAccessMode.canRead_iff]
  constructor
  · intro h
    obtain ⟨entry, hdecides, haccess⟩ := exists_decides_of_access hkind h
    exact ⟨entry, hdecides, haccess ▸ h⟩
  · rintro ⟨entry, hdecides, haccess⟩
    rw [hdecides.resolveAccess hkind]
    exact haccess

theorem mem_getUnreadableRoots (hkind : policy.kind = .restricted) :
    path ∈ policy.getUnreadableRootsWithCwd host cwd ↔
      ∃ entry ∈ policy.resolvedEntriesWithCwd host cwd, entry.access = .none ∧
        ¬ policy.canReadPathWithCwd host cwd entry.path ∧ entry.path ≠ .root ∧
          entry.path = path := by
  rw [getUnreadableRootsWithCwd, if_neg (not_not.2 hkind), mem_dedupAbsolutePaths, List.mem_map]
  simp only [List.mem_filter, decide_eq_true_iff, absoluteRootPathForCwd, Bool.not_eq_true',
    Bool.not_eq_true]
  constructor
  · rintro ⟨entry, ⟨⟨⟨hmem, hnone⟩, hread⟩, hne⟩, hpath⟩
    exact ⟨entry, hmem, hnone, hread, (of_decide_eq_true hne).symm, hpath⟩
  · rintro ⟨entry, hmem, hnone, hread, hne, hpath⟩
    exact ⟨entry, ⟨⟨⟨hmem, hnone⟩, hread⟩, decide_eq_true hne.symm⟩, hpath⟩

/-- An entry that denies a path denies it at least there. -/
theorem not_canRead_of_none (hkind : policy.kind = .restricted)
    (hmem : entry ∈ policy.resolvedEntriesWithCwd host cwd) (haccess : entry.access = .none) :
    ¬ policy.canReadPathWithCwd host cwd entry.path := by
  obtain ⟨winner, hwinner, -, hle⟩ := exists_decides_self hmem
  rw [canRead_iff hkind]
  rintro ⟨entry', hentry', hne⟩
  rw [haccess] at hle
  exact hne (rule_injective (hentry'.unique hwinner) ▸ FileSystemAccessMode.eq_none_of_le hle)

theorem mem_resolvedEntries : entry ∈ policy.resolvedEntriesWithCwd host cwd ↔
    ∃ source ∈ policy.entries, host.resolveEntryPath cwd source.path = some entry.path ∧
      source.access = entry.access := by
  rw [resolvedEntriesWithCwd, List.mem_filterMap]
  constructor
  · rintro ⟨source, hsource, hresolved⟩
    obtain ⟨path, hpath, rfl⟩ := Option.map_eq_some_iff.1 hresolved
    exact ⟨source, hsource, hpath, rfl⟩
  · rintro ⟨source, hsource, hpath, haccess⟩
    exact ⟨source, hsource, by rw [hpath, haccess]; rfl⟩

/-- An entry for the root of the filesystem applies to every path. -/
theorem hasRootAccess_iff {predicate : FileSystemAccessMode → Bool}
    (hkind : policy.kind = .restricted) :
    policy.hasRootAccess predicate ↔
      ∃ source ∈ policy.entries, source.path = .special .root ∧ predicate source.access := by
  simp [hasRootAccess, hkind]

theorem startsWith_root (path : AbsolutePathBuf) : path.startsWith .root :=
  AbsolutePathBuf.startsWith_iff.2 List.nil_prefix

theorem mem_resolvedEntries_root {source : FileSystemSandboxEntry} (h : source ∈ policy.entries)
    (hpath : source.path = .special .root) :
    ⟨.root, source.access⟩ ∈ policy.resolvedEntriesWithCwd host cwd :=
  mem_resolvedEntries.2 ⟨source, h, by rw [hpath]; rfl, rfl⟩

end FileSystemSandboxPolicy

end Mcodex.Permissions
