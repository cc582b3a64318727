import Mcodex.Permissions.Intersect
import Mcodex.Permissions.Roots

/-!
# Intersecting a result with itself

The entries of an intersection are the accepted grants, then the deny entries that are kept.
Intersecting them with themselves accepts the grants again unless a deny entry that was kept shuts
one of them, and keeps the deny entries again, since the same grants are accepted.
-/

namespace Mcodex.Permissions

open Dedup FileSystemSandboxPolicy

variable {machine : Machine} {cwd path : AbsolutePathBuf}
  {requested granted entries : List FileSystemSandboxEntry} {access : FileSystemAccessMode}

/-- No deny entry of the granted profile shuts the path of an accepted grant. One at the filesystem
root leaves the grants beneath it. -/
def GrantsOpen (machine : Machine) (cwd : AbsolutePathBuf)
    (requested granted : List FileSystemSandboxEntry) : Prop :=
  ∀ path access, Accepted machine cwd requested granted path access →
    (∀ denied, Resolves machine cwd granted denied .none → path.startsWith denied →
      denied = .root ∧ path ≠ .root) ∧
    ¬ deniedByGlob machine cwd granted path

/-! ## The grants are accepted again -/

theorem wellFormed_intersect (hrequested : WellFormed machine cwd requested)
    (hgranted : WellFormed machine cwd granted) :
    WellFormed machine cwd (intersectEntries machine cwd requested granted) := by
  refine wellFormed_iff.2 fun raw hraw => ?_
  obtain ⟨source, hsource, -, rfl⟩ := denyGlob_intersect.1 hraw
  rw [globText_globText]
  rcases hsource with hsource | hsource
  · exact wellFormed_iff.1 hrequested source hsource
  · exact wellFormed_iff.1 hgranted source hsource

/-- What the request denies shuts no accepted grant, save that the filesystem root may be denied
above it. -/
theorem denied_of_accepted (hrequested : WellFormed machine cwd requested)
    (haccepted : Accepted machine cwd requested granted path access) {denied : AbsolutePathBuf}
    (hdenied : Resolves machine cwd requested denied .none) (habove : path.startsWith denied) :
    denied = .root ∧ path ≠ .root := by
  obtain ⟨hnone, -, hread, hcovers⟩ := accepted_iff.1 haccepted
  have hroot : denied = .root := by
    by_contra hne
    have hread' := (readDenied_iff hrequested).2 (.inl ⟨denied, hdenied, hne, habove⟩)
    rw [hread] at hread'
    cases hread'
  refine ⟨hroot, ?_⟩
  rintro rfl
  subst hroot
  obtain ⟨winner, hwinner, -, hle⟩ := exists_decides_self (mem_resolved_iff.2 hdenied)
  rw [hwinner.resolveAccess rfl, FileSystemAccessMode.eq_none_of_le hle] at hcovers
  exact hnone (by revert hcovers; cases access <;> decide)

section
variable (hrequested : WellFormed machine cwd requested) (hgranted : WellFormed machine cwd granted)
  (hopen : GrantsOpen machine cwd requested granted)

include hrequested hopen in
theorem denied_of_intersect (haccepted : Accepted machine cwd requested granted path access)
    {denied : AbsolutePathBuf} (hdenied : Resolves machine cwd
      (intersectEntries machine cwd requested granted) denied .none)
    (habove : path.startsWith denied) : denied = .root ∧ path ≠ .root := by
  obtain ⟨hdenied | hdenied, -⟩ := resolves_intersect_none.1 hdenied
  · exact denied_of_accepted hrequested haccepted hdenied habove
  · exact (hopen path access haccepted).1 denied hdenied habove

include hrequested hgranted hopen

theorem readDenied_intersect (haccepted : Accepted machine cwd requested granted path access) :
    readDenied machine cwd (intersectEntries machine cwd requested granted) path = false := by
  rw [← Bool.not_eq_true, readDenied_iff (wellFormed_intersect hrequested hgranted)]
  rintro (⟨denied, hdenied, hne, habove⟩ | hglob)
  · exact hne (denied_of_intersect hrequested hopen haccepted hdenied habove).1
  · obtain ⟨raw, hraw, hmatch⟩ := deniedByGlob_iff.1 hglob
    obtain ⟨source, hsource, -, rfl⟩ := denyGlob_intersect.1 hraw
    rw [globText_globText] at hmatch
    rcases hsource with hsource | hsource
    · have hread := (readDenied_iff hrequested).2 (.inr (deniedByGlob_iff.2 ⟨source, hsource,
        hmatch⟩))
      rw [(accepted_iff.1 haccepted).2.2.1] at hread
      cases hread
    · exact (hopen path access haccepted).2 (deniedByGlob_iff.2 ⟨source, hsource, hmatch⟩)

theorem accepted_intersect (haccepted : Accepted machine cwd requested granted path access) :
    Accepted machine cwd (intersectEntries machine cwd requested granted)
      (intersectEntries machine cwd requested granted) path access := by
  have hnone : access ≠ .none := (accepted_iff.1 haccepted).1
  have hresolves := (resolves_intersect hnone).2 haccepted
  refine accepted_iff.2 ⟨hnone, hresolves,
    readDenied_intersect hrequested hgranted hopen haccepted, ?_⟩
  obtain ⟨winner, hwinner, hpath, hle⟩ := exists_decides_self (mem_resolved_iff.2 hresolves)
  have hpath : winner.path = path := hpath
  have hwinner : (restricted (intersectEntries machine cwd requested granted)).Decides
      machine.toHost cwd path winner := hwinner
  rw [hwinner.resolveAccess rfl]
  have hopenWinner : winner.access ≠ .none := by
    intro heq
    have hdenied : Resolves machine cwd (intersectEntries machine cwd requested granted)
        winner.path .none := heq ▸ mem_resolved_iff.1 hwinner.mem
    obtain ⟨hroot, hne⟩ :=
      denied_of_intersect hrequested hopen haccepted hdenied hwinner.startsWith
    exact hne (hpath.symm.trans hroot)
  have hle : access ≤ winner.access := hle
  revert hle hopenWinner
  cases access <;> cases winner.access <;> decide

/-- An accepted grant is within the intersection, by what decides at its path or, where it resolves
to none, by itself. -/
theorem within_intersect {entry : FileSystemSandboxEntry}
    (hentry : entry ∈ acceptedEntries machine cwd requested granted) :
    grantedFileSystemEntryWithinRequest machine cwd
      (intersectEntries machine cwd requested granted)
      (.restricted (intersectEntries machine cwd requested granted))
      (ReadDenyMatcher.new machine cwd
        (.restricted (intersectEntries machine cwd requested granted))) entry := by
  have hnone := access_of_accepted hentry
  cases hpath : resolvePermissionPath machine cwd entry.path with
  | some path =>
    have haccepted := resolves_accepted.1 ⟨entry, hentry, hpath, rfl⟩
    obtain ⟨-, -, hread, hcovers⟩ :=
      accepted_iff.1 (accepted_intersect hrequested hgranted hopen haccepted)
    rw [grantedFileSystemEntryWithinRequest, FileSystemAccessMode.canRead_iff.2 hnone,
      if_neg (by decide), hpath]
    show (if readDenied machine cwd _ path then false else _) = true
    rw [hread, if_neg (by decide)]
    exact (accessCovers_iff hnone).2 hcovers
  | none =>
    rw [grantedFileSystemEntryWithinRequest, FileSystemAccessMode.canRead_iff.2 hnone,
      if_neg (by decide), hpath]
    refine List.any_eq_true.2 ⟨entry, mem_intersectEntries.2 (.inl hentry), ?_⟩
    rw [(accessCovers_iff hnone).2 (le_refl _)]
    exact decide_eq_true rfl

end

/-! ## The deny entries are kept again -/

theorem denyEntryConstrains_eq (entry : FileSystemSandboxEntry)
    (accepted : List FileSystemSandboxEntry) :
    denyEntryConstrainsAcceptedGrant machine cwd entry accepted =
      (accepted.filter (·.access.canRead)).any fun grant =>
        (resolvePermissionPath machine cwd grant.path).any fun path =>
          (denyScope machine cwd entry.path).any (pathsOverlap · path) := by
  obtain ⟨target, access⟩ := entry
  cases target <;> rfl

theorem denyScope_globText (raw : List Char) :
    globStaticPrefixPath machine cwd (globText machine cwd raw) =
      globStaticPrefixPath machine cwd raw := by
  rw [globStaticPrefixPath, globText, machine.resolve_text]
  rfl

theorem denyScope_materialize (entry : FileSystemSandboxEntry) :
    denyScope machine cwd (materializeCwdDependentEntry machine cwd entry).path =
      denyScope machine cwd entry.path := by
  rcases materialize_cases entry with ⟨path, hpath, heq⟩ | ⟨raw, hraw, heq⟩ | heq
  · rw [heq, denyScope_of_resolves hpath]
    rfl
  · rw [heq, hraw]
    exact denyScope_globText raw
  · rw [heq]

theorem retain_eq_self {accepted denied : List FileSystemSandboxEntry}
    (haccepted : ∀ entry ∈ accepted, entry.access ≠ .none)
    (hdenied : ∀ entry ∈ denied, ∃ source : FileSystemSandboxEntry, source.access = .none ∧
      denyEntryConstrainsAcceptedGrant machine cwd source accepted ∧
        materializeCwdDependentEntry machine cwd source = entry) :
    retainConstrainingDenyEntries machine cwd (accepted ++ denied) accepted = denied := by
  have hgrants : accepted.filter (·.access = .none) = [] :=
    List.filter_eq_nil_iff.2 fun entry hentry => by simpa using haccepted entry hentry
  have hdenies : denied.filter (·.access = .none) = denied :=
    List.filter_eq_self.2 fun entry hentry => by
      obtain ⟨source, hnone, -, rfl⟩ := hdenied entry hentry
      simpa [materialize_access] using hnone
  have hkept : denied.filter (denyEntryConstrainsAcceptedGrant machine cwd · accepted) = denied :=
    List.filter_eq_self.2 fun entry hentry => by
      obtain ⟨source, -, hconstrains, rfl⟩ := hdenied entry hentry
      rw [denyEntryConstrains_eq] at hconstrains ⊢
      rwa [denyScope_materialize]
  rw [retainConstrainingDenyEntries, List.filter_append, hgrants, List.nil_append, hdenies, hkept]
  refine (List.map_congr_left fun entry hentry => ?_).trans (List.map_id denied)
  obtain ⟨source, -, -, rfl⟩ := hdenied entry hentry
  exact materialize_materialize source

/-- A grant that is accepted again is written out already. -/
theorem acceptedEntries_eq_self {accepted denied : List FileSystemSandboxEntry}
    (hnodup : accepted.Nodup) (hdenied : ∀ entry ∈ denied, entry.access = .none)
    (haccepted : ∀ entry ∈ accepted, materializeCwdDependentEntry machine cwd entry = entry ∧
      grantedFileSystemEntryWithinRequest machine cwd (accepted ++ denied)
        (.restricted (accepted ++ denied))
        (ReadDenyMatcher.new machine cwd (.restricted (accepted ++ denied))) entry) :
    acceptedEntries machine cwd (accepted ++ denied) (accepted ++ denied) = accepted := by
  have hgrants : accepted.filter (grantedFileSystemEntryWithinRequest machine cwd
      (accepted ++ denied) (.restricted (accepted ++ denied))
      (ReadDenyMatcher.new machine cwd (.restricted (accepted ++ denied)))) = accepted :=
    List.filter_eq_self.2 fun entry hentry => (haccepted entry hentry).2
  have hdenies : denied.filter (grantedFileSystemEntryWithinRequest machine cwd
      (accepted ++ denied) (.restricted (accepted ++ denied))
      (ReadDenyMatcher.new machine cwd (.restricted (accepted ++ denied)))) = [] :=
    List.filter_eq_nil_iff.2 fun entry hentry hwithin =>
      access_of_within hwithin (hdenied entry hentry)
  have hwritten : accepted.map (materializeCwdDependentEntry machine cwd) = accepted :=
    (List.map_congr_left fun entry hentry => (haccepted entry hentry).1).trans
      (List.map_id accepted)
  show appendNew [] _ = accepted
  rw [List.filter_append, hgrants, hdenies, List.append_nil, hwritten]
  exact appendNew_of_nodup hnodup

/-- The entries of an intersection are the accepted grants and what follows them. -/
theorem exists_intersectEntries_eq (machine : Machine) (cwd : AbsolutePathBuf)
    (requested granted : List FileSystemSandboxEntry) :
    ∃ denied, intersectEntries machine cwd requested granted =
        acceptedEntries machine cwd requested granted ++ denied ∧
      (acceptedEntries machine cwd requested granted ++ denied).Nodup ∧
      ∀ entry ∈ denied, ∃ source : FileSystemSandboxEntry, source.access = .none ∧
        denyEntryConstrainsAcceptedGrant machine cwd source
          (acceptedEntries machine cwd requested granted) ∧
          materializeCwdDependentEntry machine cwd source = entry := by
  let accepted := acceptedEntries machine cwd requested granted
  have hnodup : (intersectEntries machine cwd requested granted).Nodup :=
    nodup_appendNew (nodup_appendNew (nodup_appendNew List.nodup_nil))
  obtain ⟨denied, hdenied⟩ : accepted <+: intersectEntries machine cwd requested granted :=
    (isPrefix_appendNew _ _).trans (isPrefix_appendNew _ _)
  rw [← hdenied] at hnodup
  refine ⟨denied, hdenied.symm, hnodup, fun entry hentry => ?_⟩
  have hmem : entry ∈ intersectEntries machine cwd requested granted :=
    hdenied ▸ List.mem_append_right _ hentry
  rcases mem_intersectEntries.1 hmem with haccepted | ⟨source, -, hnone, hconstrains, heq⟩
  · exact absurd rfl ((List.nodup_append.1 hnodup).2.2 entry haccepted entry hentry)
  · exact ⟨source, hnone, constrains_iff.2 hconstrains, heq⟩

theorem intersectEntries_self (hrequested : WellFormed machine cwd requested)
    (hgranted : WellFormed machine cwd granted)
    (hopen : GrantsOpen machine cwd requested granted) :
    intersectEntries machine cwd (intersectEntries machine cwd requested granted)
        (intersectEntries machine cwd requested granted) =
      intersectEntries machine cwd requested granted := by
  obtain ⟨denied, heq, hnodup, hdenied⟩ :=
    exists_intersectEntries_eq machine cwd requested granted
  have hwithin : ∀ entry ∈ acceptedEntries machine cwd requested granted, _ := fun entry hentry =>
    within_intersect hrequested hgranted hopen hentry
  rw [heq] at hwithin ⊢
  have hnone : ∀ entry ∈ denied, entry.access = .none := by
    intro entry hentry
    obtain ⟨source, hnone, -, rfl⟩ := hdenied entry hentry
    rw [materialize_access, hnone]
  have haccepted := acceptedEntries_eq_self (List.nodup_append.1 hnodup).1 hnone
    fun entry hentry => by
      refine ⟨?_, hwithin entry hentry⟩
      obtain ⟨source, -, -, rfl⟩ := mem_acceptedEntries.1 hentry
      exact materialize_materialize source
  have hretain := retain_eq_self (fun entry hentry => access_of_accepted hentry) hdenied
  rw [intersectEntries]
  simp only [haccepted, hretain]
  rw [appendNew_of_nodup hnodup]
  exact appendNew_of_subset fun entry hentry => List.mem_append_right _ hentry

/-- Where the intersection is its own intersection, no deny entry of the grant shuts an accepted
grant. -/
theorem grantsOpen_of_self (hrequested : WellFormed machine cwd requested)
    (hgranted : WellFormed machine cwd granted) (hglobs : GlobsKept machine cwd requested granted)
    (hself : intersectEntries machine cwd (intersectEntries machine cwd requested granted)
      (intersectEntries machine cwd requested granted) =
        intersectEntries machine cwd requested granted) :
    GrantsOpen machine cwd requested granted := by
  intro path access haccepted
  have hwellFormed := wellFormed_intersect hrequested hgranted
  have hagain : Accepted machine cwd (intersectEntries machine cwd requested granted)
      (intersectEntries machine cwd requested granted) path access := by
    have hnone := (accepted_iff.1 haccepted).1
    rw [← resolves_intersect hnone, hself]
    exact (resolves_intersect hnone).2 haccepted
  have hdenied (denied : AbsolutePathBuf) (hdenied : Resolves machine cwd requested denied .none ∨
      Resolves machine cwd granted denied .none) (habove : path.startsWith denied) :
      denied = .root ∧ path ≠ .root :=
    denied_of_accepted hwellFormed hagain (resolves_intersect_none.2 ⟨hdenied, path, access,
      haccepted, pathsOverlap_of_startsWith habove (startsWith_self path)⟩) habove
  refine ⟨fun denied hgrant => hdenied denied (.inr hgrant), fun hglob => ?_⟩
  rcases hglobs path (.inr hglob) with hkept | hbetween
  · have hread := (readDenied_iff hwellFormed).2 (.inr (deniedByGlob_intersect.2 hkept))
    rw [(accepted_iff.1 hagain).2.2.1] at hread
    cases hread
  · obtain ⟨denied, hnone, hbelow, habove⟩ :=
      hbetween path access haccepted (startsWith_self path)
    obtain ⟨rfl, hne⟩ := hdenied denied hnone habove
    refine hne (AbsolutePathBuf.ext_names ?_)
    exact List.prefix_nil.1 (AbsolutePathBuf.startsWith_iff.1 hbelow)

/-! ## Profiles -/

theorem not_within_nil {matcher : Option ReadDenyMatcher} (entry : FileSystemSandboxEntry) :
    grantedFileSystemEntryWithinRequest machine cwd [] (.restricted []) matcher entry = false := by
  rw [← Bool.not_eq_true]
  intro hwithin
  have hnone := access_of_within hwithin
  rw [grantedFileSystemEntryWithinRequest, FileSystemAccessMode.canRead_iff.2 hnone,
    if_neg (by decide)] at hwithin
  split at hwithin
  · split at hwithin
    · cases hwithin
    · have hcovers : accessCovers .none entry.access := hwithin
      revert hcovers
      cases entry.access <;> decide
  · cases hwithin

/-- Nothing is accepted where nothing is requested. -/
theorem intersectEntries_nil (machine : Machine) (cwd : AbsolutePathBuf)
    (granted : List FileSystemSandboxEntry) : intersectEntries machine cwd [] granted = [] := by
  refine List.eq_nil_iff_forall_not_mem.2 fun entry hentry => ?_
  have hnot {source : FileSystemSandboxEntry} {matcher : Option ReadDenyMatcher}
      (hwithin : grantedFileSystemEntryWithinRequest machine cwd [] (.restricted []) matcher
        source) : False := by
    rw [not_within_nil] at hwithin
    cases hwithin
  rcases mem_intersectEntries.1 hentry with haccepted | ⟨source, -, -, hconstrains, -⟩
  · obtain ⟨source, -, hwithin, -⟩ := mem_acceptedEntries.1 haccepted
    exact hnot hwithin
  · obtain ⟨path, access, ⟨source, -, hwithin, -⟩, -⟩ := hconstrains
    exact hnot hwithin

theorem entries_getD (profile : AdditionalPermissionProfile) :
    (profile.fileSystem.getD .default).entries = profile.entries := by
  obtain ⟨network, fileSystem⟩ := profile
  cases fileSystem <;> rfl

theorem entries_intersect (requested granted : AdditionalPermissionProfile) :
    (intersectPermissionProfiles machine cwd requested granted).entries =
      intersectEntries machine cwd requested.entries granted.entries := by
  obtain ⟨network, fileSystem⟩ := requested
  cases fileSystem with
  | none => exact (intersectEntries_nil machine cwd granted.entries).symm
  | some requested =>
    show Option.getD (Option.map (·.entries) (Option.filter (!·.isEmpty)
      (some (intersectFileSystem machine cwd requested _)))) [] = _
    have hentries : (intersectFileSystem machine cwd requested
        (granted.fileSystem.getD .default)).entries =
          intersectEntries machine cwd requested.entries granted.entries := by
      rw [← entries_getD granted]
      rfl
    rw [Option.filter_some]
    split
    · exact hentries
    · rename_i hempty
      rw [← show intersectEntries machine cwd requested.entries granted.entries = [] from
        hentries ▸ by simpa [FileSystemPermissions.isEmpty] using hempty]
      rfl

theorem enablesNetwork_intersect (requested granted : AdditionalPermissionProfile) :
    (intersectPermissionProfiles machine cwd requested granted).enablesNetwork =
      (requested.enablesNetwork && granted.enablesNetwork) := by
  show decide (intersectNetwork requested.network granted.network = some ⟨some true⟩) =
    (decide (requested.network = some ⟨some true⟩) && decide (granted.network = some ⟨some true⟩))
  rw [intersectNetwork.eq_def]
  split
  · rename_i hrequested hgranted
    rw [hrequested, hgranted]
    rfl
  · rename_i hnot
    rw [← Bool.decide_and]
    exact decide_eq_decide.2 (iff_of_false (by simp) fun h => hnot h.1 h.2)

/-- A grant that is cut down to a request gives no path more than the request and the grant do,
enables the network only if both do, and is cut down by itself to the same entries. -/
structure StaysWithin (machine : Machine) (cwd : AbsolutePathBuf)
    (requested granted : AdditionalPermissionProfile) : Prop where
  request : ∀ path, ((intersectPermissionProfiles machine cwd requested granted).access machine cwd
    path).capability ≤ (requested.access machine cwd path).capability
  grant : ∀ path, ((intersectPermissionProfiles machine cwd requested granted).access machine cwd
    path).capability ≤ (granted.access machine cwd path).capability
  network : (intersectPermissionProfiles machine cwd requested granted).enablesNetwork →
    requested.enablesNetwork ∧ granted.enablesNetwork
  again : (intersectPermissionProfiles machine cwd
      (intersectPermissionProfiles machine cwd requested granted)
      (intersectPermissionProfiles machine cwd requested granted)).entries =
    (intersectPermissionProfiles machine cwd requested granted).entries

/-- A grant stays within exactly if deny globs and narrowing are kept, and no deny entry of the
grant shuts an accepted grant. -/
theorem staysWithin_iff (machine : Machine) (cwd : AbsolutePathBuf)
    (requested granted : AdditionalPermissionProfile)
    (hrequested : WellFormed machine cwd requested.entries)
    (hgranted : WellFormed machine cwd granted.entries) :
    StaysWithin machine cwd requested granted ↔
      GlobsKept machine cwd requested.entries granted.entries ∧
        NarrowingKept machine cwd requested.entries granted.entries ∧
          GrantsOpen machine cwd requested.entries granted.entries := by
  have hwithin (profile : AdditionalPermissionProfile) (path : AbsolutePathBuf) :
      ((intersectPermissionProfiles machine cwd requested granted).access machine cwd
          path).capability ≤ (profile.access machine cwd path).capability ↔
        (accessOf machine cwd (intersectEntries machine cwd requested.entries granted.entries)
          path).capability ≤ (accessOf machine cwd profile.entries path).capability := by
    rw [AdditionalPermissionProfile.access, entries_intersect]
    rfl
  constructor
  · intro h
    have hself := h.again
    rw [entries_intersect, entries_intersect] at hself
    obtain ⟨hglobs, hnarrowing⟩ := withinBoth_iff.1 fun path =>
      ⟨(hwithin requested path).1 (h.request path), (hwithin granted path).1 (h.grant path)⟩
    exact ⟨hglobs, hnarrowing, grantsOpen_of_self hrequested hgranted hglobs hself⟩
  · rintro ⟨hglobs, hnarrowing, hopen⟩
    have hboth := withinBoth_iff.2 ⟨hglobs, hnarrowing⟩
    refine ⟨fun path => (hwithin requested path).2 (hboth path).1,
      fun path => (hwithin granted path).2 (hboth path).2, ?_, ?_⟩
    · rw [enablesNetwork_intersect, Bool.and_eq_true]
      exact id
    · rw [entries_intersect, entries_intersect]
      exact intersectEntries_self hrequested hgranted hopen

/-- A host without files whose patterns are taken literally. -/
def literalMachine : Machine where
  toHost := bareHost
  buildGlobMatcher pattern := some fun path => path.text = pattern

def fileSystemProfile (entries : List FileSystemSandboxEntry) : AdditionalPermissionProfile :=
  ⟨none, some ⟨entries, none⟩⟩

theorem wellFormed_literalMachine : WellFormed literalMachine cwd entries := fun _ _ => rfl

theorem staysWithin_read_only :
    StaysWithin literalMachine .root (fileSystemProfile [⟨.path .slashTmp, .read⟩])
      (fileSystemProfile [⟨.path .slashTmp, .read⟩]) := by
  have hread : ∀ entry ∈ [FileSystemSandboxEntry.mk (.path .slashTmp) .read],
      entry.access = .read := by decide
  refine (staysWithin_iff literalMachine .root (fileSystemProfile [⟨.path .slashTmp, .read⟩])
    (fileSystemProfile [⟨.path .slashTmp, .read⟩]) wellFormed_literalMachine
    wellFormed_literalMachine).2 ⟨?_, ?_, ?_⟩
  · intro path hdenied
    rw [or_self] at hdenied
    obtain ⟨raw, hraw, -⟩ := deniedByGlob_iff.1 hdenied
    cases hread _ hraw
  · intro path _ _ _ grant haccepted
    obtain ⟨entry, hentry, -, -, haccess⟩ := haccepted
    cases (hread entry hentry).symm.trans haccess
  · intro path access _
    refine ⟨fun denied hdenied _ => ?_, fun hdenied => ?_⟩
    · obtain ⟨entry, hentry, -, haccess⟩ := hdenied
      cases (hread entry hentry).symm.trans haccess
    · obtain ⟨raw, hraw, -⟩ := deniedByGlob_iff.1 hdenied
      cases hread _ hraw

/-- The request narrows its write access below `/tmp`, the grant does not. -/
theorem not_staysWithin_narrowed :
    ¬ StaysWithin literalMachine .root
      (fileSystemProfile [⟨.path .slashTmp, .write⟩,
        ⟨.path (AbsolutePathBuf.slashTmp.pushComponent "keys".toList), .read⟩])
      (fileSystemProfile [⟨.path .slashTmp, .write⟩]) := fun h =>
  absurd (h.request (AbsolutePathBuf.slashTmp.pushComponent "keys".toList)) (by decide)

end Mcodex.Permissions
