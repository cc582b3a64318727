import Mcodex.Permissions.ProfileAccess

/-!
# Grants within the request

What an accepted grant gives a path is decided by the accepted entries and by the deny entries that
are kept. A deny entry on the way from an accepted grant to a path is always kept, and a deny glob
when its static prefix is one. A read entry below a write grant is kept only when it is granted
itself. The intersection stays within both profiles exactly if nothing is lost that way.
-/

namespace Mcodex.Permissions

open Dedup FileSystemSandboxPolicy

variable {machine : Machine} {cwd path : AbsolutePathBuf}
  {requested granted entries : List FileSystemSandboxEntry} {access : FileSystemAccessMode}

/-- The entries of the intersection. -/
def intersectEntries (machine : Machine) (cwd : AbsolutePathBuf)
    (requested granted : List FileSystemSandboxEntry) : List FileSystemSandboxEntry :=
  let accepted := acceptedEntries machine cwd requested granted
  appendNew (appendNew accepted (retainConstrainingDenyEntries machine cwd requested accepted))
    (retainConstrainingDenyEntries machine cwd granted accepted)

/-! ## The entries of the intersection -/

theorem mem_acceptedEntries {entry : FileSystemSandboxEntry} :
    entry ∈ acceptedEntries machine cwd requested granted ↔
      ∃ source ∈ granted, grantedFileSystemEntryWithinRequest machine cwd requested
          (.restricted requested) (ReadDenyMatcher.new machine cwd (.restricted requested)) source ∧
        materializeCwdDependentEntry machine cwd source = entry := by
  rw [acceptedEntries, mem_appendNew, List.mem_map]
  simp only [List.not_mem_nil, false_or, List.mem_filter, and_assoc]

theorem access_of_within {entry : FileSystemSandboxEntry} {policy : FileSystemSandboxPolicy}
    {matcher : Option ReadDenyMatcher}
    (h : grantedFileSystemEntryWithinRequest machine cwd requested policy matcher entry) :
    entry.access ≠ .none := by
  rw [grantedFileSystemEntryWithinRequest] at h
  split at h
  · cases h
  · rename_i hread
    exact FileSystemAccessMode.canRead_iff.1 (by simpa using hread)

theorem access_of_accepted {entry : FileSystemSandboxEntry}
    (h : entry ∈ acceptedEntries machine cwd requested granted) : entry.access ≠ .none := by
  obtain ⟨source, -, hwithin, rfl⟩ := mem_acceptedEntries.1 h
  rw [materialize_access]
  exact access_of_within hwithin

theorem resolves_accepted : Resolves machine cwd (acceptedEntries machine cwd requested granted)
    path access ↔ Accepted machine cwd requested granted path access := by
  constructor
  · rintro ⟨entry, hentry, hpath, haccess⟩
    obtain ⟨source, hsource, hwithin, rfl⟩ := mem_acceptedEntries.1 hentry
    rw [resolve_materialize] at hpath
    rw [materialize_access] at haccess
    exact ⟨source, hsource, hwithin, hpath, haccess⟩
  · rintro ⟨source, hsource, hwithin, hpath, haccess⟩
    exact ⟨_, mem_acceptedEntries.2 ⟨source, hsource, hwithin, rfl⟩,
      by rwa [resolve_materialize], by rwa [materialize_access]⟩

/-- What a deny entry denies, or the static prefix of its pattern. -/
def denyScope (machine : Machine) (cwd : AbsolutePathBuf) :
    FileSystemPath → Option AbsolutePathBuf
  | .globPattern pattern => globStaticPrefixPath machine cwd pattern
  | target => resolvePermissionPath machine cwd target

theorem denyScope_of_resolves {target : FileSystemPath}
    (h : resolvePermissionPath machine cwd target = some path) :
    denyScope machine cwd target = some path := by
  cases target with
  | globPattern _ => cases h
  | path _ | special _ => exact h

/-- A deny entry constrains the accepted grants: one of them lies above or beneath its scope. -/
def Constrains (machine : Machine) (cwd : AbsolutePathBuf)
    (requested granted : List FileSystemSandboxEntry) (target : FileSystemPath) : Prop :=
  ∃ path access, Accepted machine cwd requested granted path access ∧
    (denyScope machine cwd target).any (pathsOverlap · path)

theorem constrains_iff {entry : FileSystemSandboxEntry} :
    denyEntryConstrainsAcceptedGrant machine cwd entry
        (acceptedEntries machine cwd requested granted) ↔
      Constrains machine cwd requested granted entry.path := by
  rw [denyEntryConstrainsAcceptedGrant, List.any_eq_true]
  constructor
  · rintro ⟨accepted, haccepted, hoverlap⟩
    obtain ⟨haccepted, -⟩ := List.mem_filter.1 haccepted
    cases hpath : resolvePermissionPath machine cwd accepted.path with
    | none =>
      rw [hpath] at hoverlap
      cases hoverlap
    | some path =>
      rw [hpath] at hoverlap
      refine ⟨path, accepted.access, resolves_accepted.1 ⟨accepted, haccepted, hpath, rfl⟩, ?_⟩
      cases htarget : entry.path <;> rw [htarget] at hoverlap <;> exact hoverlap
  · rintro ⟨path, access, haccepted, hoverlap⟩
    obtain ⟨accepted, hmem, hpath, -⟩ := resolves_accepted.2 haccepted
    refine ⟨accepted, List.mem_filter.2 ⟨hmem,
      FileSystemAccessMode.canRead_iff.2 (access_of_accepted hmem)⟩, ?_⟩
    rw [hpath, Option.any_some]
    cases htarget : entry.path <;> rw [htarget] at hoverlap <;> exact hoverlap

theorem mem_retain {entry : FileSystemSandboxEntry} :
    entry ∈ retainConstrainingDenyEntries machine cwd entries
        (acceptedEntries machine cwd requested granted) ↔
      ∃ source ∈ entries, source.access = .none ∧
        Constrains machine cwd requested granted source.path ∧
          materializeCwdDependentEntry machine cwd source = entry := by
  rw [retainConstrainingDenyEntries, List.mem_map]
  constructor
  · rintro ⟨source, hsource, heq⟩
    obtain ⟨hsource, hconstrains⟩ := List.mem_filter.1 hsource
    obtain ⟨hsource, hnone⟩ := List.mem_filter.1 hsource
    exact ⟨source, hsource, of_decide_eq_true hnone, constrains_iff.1 hconstrains, heq⟩
  · rintro ⟨source, hsource, hnone, hconstrains, heq⟩
    exact ⟨source, List.mem_filter.2 ⟨List.mem_filter.2 ⟨hsource, decide_eq_true hnone⟩,
      constrains_iff.2 hconstrains⟩, heq⟩

theorem mem_intersectEntries {entry : FileSystemSandboxEntry} :
    entry ∈ intersectEntries machine cwd requested granted ↔
      entry ∈ acceptedEntries machine cwd requested granted ∨
        ∃ source, (source ∈ requested ∨ source ∈ granted) ∧ source.access = .none ∧
          Constrains machine cwd requested granted source.path ∧
            materializeCwdDependentEntry machine cwd source = entry := by
  rw [intersectEntries, mem_appendNew, mem_appendNew, mem_retain, mem_retain, or_assoc]
  refine or_congr_right ⟨?_, ?_⟩
  · rintro (⟨source, hsource, h⟩ | ⟨source, hsource, h⟩)
    · exact ⟨source, .inl hsource, h⟩
    · exact ⟨source, .inr hsource, h⟩
  · rintro ⟨source, hsource | hsource, h⟩
    · exact .inl ⟨source, hsource, h⟩
    · exact .inr ⟨source, hsource, h⟩

/-- The intersection gives a path access of its own only by an accepted grant. -/
theorem resolves_intersect (h : access ≠ .none) :
    Resolves machine cwd (intersectEntries machine cwd requested granted) path access ↔
      Accepted machine cwd requested granted path access := by
  rw [← resolves_accepted]
  constructor
  · rintro ⟨entry, hentry, hpath, haccess⟩
    rcases mem_intersectEntries.1 hentry with haccepted | ⟨source, -, hnone, -, rfl⟩
    · exact ⟨entry, haccepted, hpath, haccess⟩
    · rw [materialize_access, hnone] at haccess
      exact absurd haccess.symm h
  · rintro ⟨entry, hentry, hpath, haccess⟩
    exact ⟨entry, mem_intersectEntries.2 (.inl hentry), hpath, haccess⟩

/-- The intersection denies a path that one of the profiles denies, if an accepted grant lies above
or beneath it. -/
theorem resolves_intersect_none :
    Resolves machine cwd (intersectEntries machine cwd requested granted) path .none ↔
      (Resolves machine cwd requested path .none ∨ Resolves machine cwd granted path .none) ∧
        ∃ grant access, Accepted machine cwd requested granted grant access ∧
          pathsOverlap path grant := by
  constructor
  · rintro ⟨entry, hentry, hpath, haccess⟩
    rcases mem_intersectEntries.1 hentry with haccepted | ⟨source, hsource, hnone, hconstrains, rfl⟩
    · exact absurd haccess (access_of_accepted haccepted)
    · rw [resolve_materialize] at hpath
      refine ⟨?_, ?_⟩
      · rcases hsource with hsource | hsource
        · exact .inl ⟨source, hsource, hpath, hnone⟩
        · exact .inr ⟨source, hsource, hpath, hnone⟩
      · obtain ⟨grant, access, haccepted, hoverlap⟩ := hconstrains
        refine ⟨grant, access, haccepted, ?_⟩
        rwa [denyScope_of_resolves hpath] at hoverlap
  · rintro ⟨hresolves, grant, access, haccepted, hoverlap⟩
    obtain ⟨source, hsource, hpath, hnone⟩ : ∃ source, (source ∈ requested ∨ source ∈ granted) ∧
        resolvePermissionPath machine cwd source.path = some path ∧ source.access = .none := by
      rcases hresolves with ⟨source, hsource, h⟩ | ⟨source, hsource, h⟩
      · exact ⟨source, .inl hsource, h⟩
      · exact ⟨source, .inr hsource, h⟩
    refine ⟨_, mem_intersectEntries.2 (.inr ⟨source, hsource, hnone, ?_, rfl⟩),
      by rwa [resolve_materialize], by rwa [materialize_access]⟩
    exact ⟨grant, access, haccepted, by rwa [denyScope_of_resolves hpath]⟩

/-- A deny glob of the intersection is one of the profiles, with its pattern resolved. -/
theorem denyGlob_intersect {raw : List Char} :
    HasDenyGlob (intersectEntries machine cwd requested granted) raw ↔
      ∃ source, (HasDenyGlob requested source ∨ HasDenyGlob granted source) ∧
        Constrains machine cwd requested granted (.globPattern source) ∧
          globText machine cwd source = raw := by
  rw [HasDenyGlob, mem_intersectEntries]
  constructor
  · rintro (haccepted | ⟨entry, hentry, -, hconstrains, heq⟩)
    · exact absurd rfl (access_of_accepted haccepted)
    · obtain ⟨source, rfl, hsource⟩ := denyGlob_materialize heq
      exact ⟨source, hentry, hconstrains, hsource⟩
  · rintro ⟨source, hentry, hconstrains, rfl⟩
    exact .inr ⟨⟨.globPattern source, .none⟩, hentry, rfl, hconstrains, rfl⟩

/-! ## Access within both profiles -/

/-- Two paths that a path starts with lie one above the other. -/
theorem pathsOverlap_of_startsWith {left right : AbsolutePathBuf} (hleft : path.startsWith left)
    (hright : path.startsWith right) : pathsOverlap left right := by
  rw [pathsOverlap, Bool.or_eq_true, AbsolutePathBuf.startsWith_iff,
    AbsolutePathBuf.startsWith_iff]
  exact (List.prefix_or_prefix_of_prefix (AbsolutePathBuf.startsWith_iff.1 hleft)
    (AbsolutePathBuf.startsWith_iff.1 hright)).symm

/-- A deny entry of one of the profiles stands at a grant, or between it and a path beneath it. -/
def DeniedBetween (machine : Machine) (cwd : AbsolutePathBuf)
    (requested granted : List FileSystemSandboxEntry) (grant path : AbsolutePathBuf) : Prop :=
  ∃ denied, (Resolves machine cwd requested denied .none ∨
      Resolves machine cwd granted denied .none) ∧
    denied.startsWith grant ∧ path.startsWith denied

/-- Where one of the profiles gives no more than reading beneath an accepted grant to write, a deny
entry of one of them stands in between, or an accepted grant to read. -/
def NarrowingKept (machine : Machine) (cwd : AbsolutePathBuf)
    (requested granted : List FileSystemSandboxEntry) : Prop :=
  ∀ path, deniedByGlob machine cwd requested path = false →
    deniedByGlob machine cwd granted path = false →
    ((restricted requested).resolveAccessWithCwd machine.toHost cwd path = .read ∨
      (restricted granted).resolveAccessWithCwd machine.toHost cwd path = .read) →
    ∀ grant, Accepted machine cwd requested granted grant .write → path.startsWith grant →
      DeniedBetween machine cwd requested granted grant path ∨
        ∃ read, Accepted machine cwd requested granted read .read ∧ read.startsWith grant ∧
          read ≠ grant ∧ path.startsWith read

/-- A path that a deny glob of one of the profiles matches is matched by one whose static prefix
overlaps an accepted grant, or denied beneath all accepted grants above it. -/
def GlobsKept (machine : Machine) (cwd : AbsolutePathBuf)
    (requested granted : List FileSystemSandboxEntry) : Prop :=
  ∀ path, deniedByGlob machine cwd requested path ∨ deniedByGlob machine cwd granted path →
    (∃ raw, (HasDenyGlob requested raw ∨ HasDenyGlob granted raw) ∧
      Constrains machine cwd requested granted (.globPattern raw) ∧
        (machine.buildGlobMatcher (globText machine cwd raw)).any (· path)) ∨
    ∀ grant access, Accepted machine cwd requested granted grant access → path.startsWith grant →
      DeniedBetween machine cwd requested granted grant path

theorem deniedByGlob_intersect :
    deniedByGlob machine cwd (intersectEntries machine cwd requested granted) path ↔
      ∃ raw, (HasDenyGlob requested raw ∨ HasDenyGlob granted raw) ∧
        Constrains machine cwd requested granted (.globPattern raw) ∧
          (machine.buildGlobMatcher (globText machine cwd raw)).any (· path) := by
  rw [deniedByGlob_iff]
  constructor
  · rintro ⟨raw, hraw, hmatch⟩
    obtain ⟨source, hsource, hconstrains, rfl⟩ := denyGlob_intersect.1 hraw
    rw [globText_globText] at hmatch
    exact ⟨source, hsource, hconstrains, hmatch⟩
  · rintro ⟨source, hsource, hconstrains, hmatch⟩
    exact ⟨_, denyGlob_intersect.2 ⟨source, hsource, hconstrains, rfl⟩,
      by rwa [globText_globText]⟩

theorem deniedByGlob_of_intersect
    (h : deniedByGlob machine cwd (intersectEntries machine cwd requested granted) path) :
    deniedByGlob machine cwd requested path ∨ deniedByGlob machine cwd granted path := by
  obtain ⟨raw, hraw | hraw, -, hmatch⟩ := deniedByGlob_intersect.1 h
  · exact .inl (deniedByGlob_iff.2 ⟨raw, hraw, hmatch⟩)
  · exact .inr (deniedByGlob_iff.2 ⟨raw, hraw, hmatch⟩)

section
variable {winner : ResolvedFileSystemEntry}
  (hwinner : (restricted (intersectEntries machine cwd requested granted)).Decides machine.toHost
    cwd path winner)
  (haccepted : Accepted machine cwd requested granted winner.path winner.access)

include hwinner haccepted

/-- What one of the profiles denies on the way to the path lies above the grant that decides. -/
theorem denied_above {denied : AbsolutePathBuf}
    (hdenied : Resolves machine cwd requested denied .none ∨
      Resolves machine cwd granted denied .none) (hpath : path.startsWith denied) :
    denied.names.length < winner.path.names.length := by
  have hkept : Resolves machine cwd (intersectEntries machine cwd requested granted) denied
      .none := resolves_intersect_none.2 ⟨hdenied, winner.path, winner.access, haccepted,
    pathsOverlap_of_startsWith hpath hwinner.startsWith⟩
  rcases hwinner.most (mem_resolved_iff.2 hkept) hpath with hlt | ⟨-, hle⟩
  · exact hlt
  · exact absurd (FileSystemAccessMode.eq_none_of_le hle) (accepted_iff.1 haccepted).1

theorem not_deniedBetween : ¬ DeniedBetween machine cwd requested granted winner.path path := by
  rintro ⟨denied, hdenied, habove, hpath⟩
  have hlt := denied_above hwinner haccepted hdenied hpath
  have := (AbsolutePathBuf.startsWith_iff.1 habove).length_le
  omega

omit haccepted in
/-- No accepted grant to read stands beneath the grant that decides. -/
theorem eq_of_read {read : AbsolutePathBuf} (hread : Accepted machine cwd requested granted read
    .read) (habove : read.startsWith winner.path) (hpath : path.startsWith read) :
    read = winner.path := by
  have hresolves := (resolves_intersect (by decide)).2 hread
  have := (AbsolutePathBuf.startsWith_iff.1 habove).length_le
  rcases hwinner.most (mem_resolved_iff.2 hresolves) hpath with hlt | ⟨heq, -⟩
  · have hlt : read.names.length < winner.path.names.length := hlt
    omega
  · exact heq

/-- Where a deny glob of one of the profiles matches the path, one that is kept does. -/
theorem deniedByGlob_of_kept (hkept : GlobsKept machine cwd requested granted)
    (hdenied : deniedByGlob machine cwd requested path ∨ deniedByGlob machine cwd granted path) :
    deniedByGlob machine cwd (intersectEntries machine cwd requested granted) path := by
  rcases hkept path hdenied with hglob | hbetween
  · exact deniedByGlob_intersect.2 hglob
  · exact absurd (hbetween winner.path winner.access haccepted hwinner.startsWith)
      (not_deniedBetween hwinner haccepted)

/-- The grant that decides gives no more than the entry that decides in one of the profiles, if this
is so where the entry lies above the grant. -/
theorem access_le_of_decides (hentries : entries = requested ∨ entries = granted)
    {entry : ResolvedFileSystemEntry}
    (hentry : (restricted entries).Decides machine.toHost cwd path entry)
    (hnarrow : entry.access = .read → winner.access ≠ .write)
    (habove : winner.path.startsWith entry.path → entry.access ≠ .none) :
    winner.access.capability ≤ entry.access.capability := by
  cases haccess : entry.access with
  | write => cases winner.access <;> decide
  | read =>
    have hwrite := hnarrow haccess
    revert hwrite
    cases winner.access <;> decide
  | none =>
    have hresolves : Resolves machine cwd entries entry.path .none :=
      haccess ▸ mem_resolved_iff.1 hentry.mem
    have hdenied : Resolves machine cwd requested entry.path .none ∨
        Resolves machine cwd granted entry.path .none := by
      rcases hentries with rfl | rfl
      · exact .inl hresolves
      · exact .inr hresolves
    have hlt := denied_above hwinner haccepted hdenied hentry.startsWith
    have hin : winner.path.startsWith entry.path :=
      AbsolutePathBuf.startsWith_iff.2 <| List.prefix_of_prefix_length_le
        (AbsolutePathBuf.startsWith_iff.1 hentry.startsWith)
        (AbsolutePathBuf.startsWith_iff.1 hwinner.startsWith) hlt.le
    exact absurd haccess (habove hin)

theorem access_le_requested
    (hnarrow : (restricted requested).resolveAccessWithCwd machine.toHost cwd path = .read →
      winner.access ≠ .write) :
    winner.access.capability ≤ ((restricted requested).resolveAccessWithCwd machine.toHost cwd
      path).capability := by
  obtain ⟨hnone, -, -, hcovers⟩ := accepted_iff.1 haccepted
  have hcapability : 0 < winner.access.capability := by
    cases hcase : winner.access with
    | none => exact absurd hcase hnone
    | read | write => decide
  have hopen : (restricted requested).resolveAccessWithCwd machine.toHost cwd winner.path ≠
      .none := by
    intro heq
    rw [heq] at hcovers
    exact absurd hcovers (Nat.not_le.2 hcapability)
  obtain ⟨grantEntry, hgrantEntry, -⟩ := exists_decides_of_access rfl hopen
  obtain ⟨entry, hentry⟩ := exists_decides hgrantEntry.mem
    (startsWith_trans hwinner.startsWith hgrantEntry.startsWith)
  rw [hentry.resolveAccess rfl] at hnarrow ⊢
  refine access_le_of_decides hwinner haccepted (.inl rfl) hentry hnarrow fun hin heq => ?_
  -- The entry decides at the path of the grant too, where the request covers the grant.
  have hentry' : (restricted requested).Decides machine.toHost cwd winner.path entry :=
    hentry.of_isPrefix (AbsolutePathBuf.startsWith_iff.1 hin)
      (AbsolutePathBuf.startsWith_iff.1 hwinner.startsWith)
  exact hopen ((hentry'.resolveAccess rfl).trans heq)

theorem access_le_granted
    (hnarrow : (restricted granted).resolveAccessWithCwd machine.toHost cwd path = .read →
      winner.access ≠ .write) :
    winner.access.capability ≤ ((restricted granted).resolveAccessWithCwd machine.toHost cwd
      path).capability := by
  obtain ⟨-, hresolves, -⟩ := accepted_iff.1 haccepted
  obtain ⟨entry, hentry⟩ := exists_decides (mem_resolved_iff.2 hresolves) hwinner.startsWith
  rw [hentry.resolveAccess rfl] at hnarrow ⊢
  refine access_le_of_decides hwinner haccepted (.inr rfl) hentry hnarrow fun hin hnone => ?_
  -- A deny entry lies above the grant, which then decides itself.
  have hdenied : Resolves machine cwd granted entry.path .none :=
    hnone ▸ mem_resolved_iff.1 hentry.mem
  have hlt := denied_above hwinner haccepted (.inr hdenied) hentry.startsWith
  rcases hentry.most (mem_resolved_iff.2 hresolves) hwinner.startsWith with hlt' | ⟨heq, -⟩
  · have hlt' : winner.path.names.length < entry.path.names.length := hlt'
    omega
  · have heq : winner.path = entry.path := heq
    rw [heq] at hlt
    exact lt_irrefl _ hlt

end

/-- The intersection gives no more than the profiles. -/
def WithinBoth (machine : Machine) (cwd : AbsolutePathBuf)
    (requested granted : List FileSystemSandboxEntry) : Prop :=
  ∀ path,
    (accessOf machine cwd (intersectEntries machine cwd requested granted) path).capability ≤
      (accessOf machine cwd requested path).capability ∧
    (accessOf machine cwd (intersectEntries machine cwd requested granted) path).capability ≤
      (accessOf machine cwd granted path).capability

theorem accessOf_of_open (h : deniedByGlob machine cwd entries path = false) :
    accessOf machine cwd entries path =
      (restricted entries).resolveAccessWithCwd machine.toHost cwd path := by
  rw [accessOf, h, if_neg (by decide)]

theorem withinBoth_of_kept (hglobs : GlobsKept machine cwd requested granted)
    (hnarrowing : NarrowingKept machine cwd requested granted) :
    WithinBoth machine cwd requested granted := by
  intro path
  cases hglob : deniedByGlob machine cwd (intersectEntries machine cwd requested granted) path with
  | true =>
    rw [accessOf, if_pos hglob]
    exact ⟨Nat.zero_le _, Nat.zero_le _⟩
  | false =>
    rw [accessOf_of_open hglob]
    by_cases hnone : (restricted (intersectEntries machine cwd requested
        granted)).resolveAccessWithCwd machine.toHost cwd path = .none
    · rw [hnone]
      exact ⟨Nat.zero_le _, Nat.zero_le _⟩
    obtain ⟨winner, hwinner, haccess⟩ := exists_decides_of_access rfl hnone
    rw [haccess] at hnone ⊢
    have haccepted := (resolves_intersect hnone).1 (mem_resolved_iff.1 hwinner.mem)
    have hopen : ¬ (deniedByGlob machine cwd requested path ∨
        deniedByGlob machine cwd granted path) := by
      intro hdenied
      have := deniedByGlob_of_kept hwinner haccepted hglobs hdenied
      rw [hglob] at this
      cases this
    rw [not_or, Bool.not_eq_true, Bool.not_eq_true] at hopen
    have hnarrow (hread : (restricted requested).resolveAccessWithCwd machine.toHost cwd path =
          .read ∨ (restricted granted).resolveAccessWithCwd machine.toHost cwd path = .read) :
        winner.access ≠ .write := by
      intro hwrite
      rw [hwrite] at haccepted
      rcases hnarrowing path hopen.1 hopen.2 hread winner.path haccepted hwinner.startsWith with
        hbetween | ⟨read, hreads, habove, hne, hpath⟩
      · exact not_deniedBetween hwinner (hwrite ▸ haccepted) hbetween
      · exact hne (eq_of_read hwinner hreads habove hpath)
    rw [accessOf_of_open hopen.1, accessOf_of_open hopen.2]
    exact ⟨access_le_requested hwinner haccepted fun hread => hnarrow (.inl hread),
      access_le_granted hwinner haccepted fun hread => hnarrow (.inr hread)⟩

/-! ## Nothing less is enough -/

/-- What decides beneath an accepted grant lies at the grant or beneath it, and is a deny entry of
one of the profiles or an accepted grant. -/
theorem exists_decides_beneath {grant : AbsolutePathBuf}
    (haccepted : Accepted machine cwd requested granted grant access)
    (hpath : path.startsWith grant) :
    ∃ winner, (restricted (intersectEntries machine cwd requested granted)).Decides machine.toHost
        cwd path winner ∧ winner.path.startsWith grant ∧
      (winner.path = grant → access ≤ winner.access) ∧
      (winner.access = .none → DeniedBetween machine cwd requested granted grant path) := by
  have hresolves := (resolves_intersect (accepted_iff.1 haccepted).1).2 haccepted
  obtain ⟨winner, hwinner⟩ := exists_decides (mem_resolved_iff.2 hresolves) hpath
  have habove : winner.path.startsWith grant := hwinner.above (mem_resolved_iff.2 hresolves) hpath
  refine ⟨winner, hwinner, habove, fun heq => ?_, fun hnone => ?_⟩
  · rcases hwinner.most (mem_resolved_iff.2 hresolves) hpath with hlt | ⟨-, hle⟩
    · have hlt : grant.names.length < winner.path.names.length := hlt
      rw [heq] at hlt
      exact absurd hlt (lt_irrefl _)
    · exact hle
  · have hdenied : Resolves machine cwd (intersectEntries machine cwd requested granted)
        winner.path .none := hnone ▸ mem_resolved_iff.1 hwinner.mem
    exact ⟨winner.path, (resolves_intersect_none.1 hdenied).1, habove, hwinner.startsWith⟩

theorem globsKept_of_withinBoth (h : WithinBoth machine cwd requested granted) :
    GlobsKept machine cwd requested granted := by
  intro path hdenied
  rw [← deniedByGlob_intersect]
  cases hglob : deniedByGlob machine cwd (intersectEntries machine cwd requested granted) path with
  | true => exact .inl rfl
  | false =>
    refine .inr fun grant access haccepted hpath => ?_
    obtain ⟨winner, hwinner, -, -, hbetween⟩ := exists_decides_beneath haccepted hpath
    have hwithin := h path
    rw [accessOf_of_open hglob, hwinner.resolveAccess rfl] at hwithin
    refine hbetween ?_
    have hzero : winner.access.capability ≤ 0 := by
      rcases hdenied with hdenied | hdenied
      · have hle := hwithin.1
        rwa [accessOf, if_pos hdenied] at hle
      · have hle := hwithin.2
        rwa [accessOf, if_pos hdenied] at hle
    revert hzero
    cases winner.access <;> decide

theorem narrowingKept_of_withinBoth (h : WithinBoth machine cwd requested granted) :
    NarrowingKept machine cwd requested granted := by
  intro path hrequested hgranted hread grant haccepted hpath
  have hglob : deniedByGlob machine cwd (intersectEntries machine cwd requested granted) path =
      false := by
    rw [← Bool.not_eq_true]
    intro hdenied
    rcases deniedByGlob_of_intersect hdenied with hdenied | hdenied
    · exact absurd (hrequested.symm.trans hdenied) (by decide)
    · exact absurd (hgranted.symm.trans hdenied) (by decide)
  obtain ⟨winner, hwinner, habove, hle, hbetween⟩ := exists_decides_beneath haccepted hpath
  have hwithin := h path
  rw [accessOf_of_open hglob, hwinner.resolveAccess rfl, accessOf_of_open hrequested,
    accessOf_of_open hgranted] at hwithin
  have hone : winner.access.capability ≤ 1 := by
    rcases hread with hread | hread
    · have hle := hwithin.1
      rwa [hread] at hle
    · have hle := hwithin.2
      rwa [hread] at hle
  cases hcase : winner.access with
  | none => exact .inl (hbetween hcase)
  | write =>
    rw [hcase] at hone
    exact absurd hone (by decide)
  | read =>
    refine .inr ⟨winner.path, ?_, habove, fun heq => ?_, hwinner.startsWith⟩
    · exact (resolves_intersect (by decide)).1 (hcase ▸ mem_resolved_iff.1 hwinner.mem)
    · have hle := hle heq
      rw [hcase] at hle
      exact absurd hle (by decide)

theorem withinBoth_iff : WithinBoth machine cwd requested granted ↔
    GlobsKept machine cwd requested granted ∧ NarrowingKept machine cwd requested granted :=
  ⟨fun h => ⟨globsKept_of_withinBoth h, narrowingKept_of_withinBoth h⟩,
    fun h => withinBoth_of_kept h.1 h.2⟩

end Mcodex.Permissions
