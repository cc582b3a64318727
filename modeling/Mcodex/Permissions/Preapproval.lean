import Mcodex.Permissions.Reintersect

/-!
# Preapproval

A request is merged with what was granted already, and the merged permissions are preapproved if
the granted ones cut them down to the same profile as they do themselves. What their own deny
entries shut falls away on both sides: then the comparison says nothing of it, though it stays in
the merged permissions and may decide for a path beneath.
-/

namespace Mcodex.Permissions

open Dedup FileSystemSandboxPolicy

variable {machine : Machine} {cwd path : AbsolutePathBuf}
  {requested granted entries : List FileSystemSandboxEntry} {access : FileSystemAccessMode}

/-! ## The entries of a merged profile -/

theorem entries_mergeFileSystem (base permissions : Option FileSystemPermissions) :
    let left := (base.map (·.entries)).getD []
    let right := (permissions.map (·.entries)).getD []
    ((mergeFileSystem base permissions).map (·.entries)).getD [] = left ++ right ∨
      ((mergeFileSystem base permissions).map (·.entries)).getD [] =
        appendNew [] (left ++ right) := by
  cases base with
  | none => cases permissions <;> exact .inl rfl
  | some base =>
    cases permissions with
    | none => exact .inl (List.append_nil _).symm
    | some permissions =>
      refine .inr ?_
      show ((mergeFileSystem (some base) (some permissions)).map (·.entries)).getD [] =
        mergePermissionEntries base.entries permissions.entries
      rw [mergeFileSystem_some, Option.filter_some]
      split
      · rfl
      · rename_i hempty
        have hempty : mergePermissionEntries base.entries permissions.entries = [] := by
          simpa [FileSystemPermissions.isEmpty] using hempty
        rw [hempty]
        rfl

section
variable {request grant effective : AdditionalPermissionProfile}
  (hmerge : mergePermissionProfiles (some request) (some grant) = some effective)

include hmerge

theorem merge_eq : effective = ⟨mergeNetwork request.network grant.network,
    mergeFileSystem request.fileSystem grant.fileSystem⟩ := by
  rw [mergePermissionProfiles_some, Option.filter_some] at hmerge
  split at hmerge
  · exact (Option.some.inj hmerge).symm
  · cases hmerge

theorem enablesNetwork_merge :
    effective.enablesNetwork = (request.enablesNetwork || grant.enablesNetwork) := by
  rw [merge_eq hmerge]
  exact enablesNetwork_mergeNetwork request.network grant.network

theorem entries_merge : effective.entries = request.entries ++ grant.entries ∨
    effective.entries = appendNew [] (request.entries ++ grant.entries) := by
  rw [merge_eq hmerge]
  exact entries_mergeFileSystem request.fileSystem grant.fileSystem

theorem mem_entries_merge {entry : FileSystemSandboxEntry} :
    entry ∈ effective.entries ↔ entry ∈ request.entries ∨ entry ∈ grant.entries := by
  rcases entries_merge hmerge with heq | heq
  · rw [heq, List.mem_append]
  · rw [heq, mem_appendNew, List.mem_append]
    simp

theorem resolves_merge : Resolves machine cwd effective.entries path access ↔
    Resolves machine cwd request.entries path access ∨
      Resolves machine cwd grant.entries path access := by
  simp only [Resolves, mem_entries_merge hmerge, or_and_right, exists_or]

end

/-! ## What is accepted -/

/-- The entries that are within the effective permissions, written out. -/
def acceptedFrom (machine : Machine) (cwd : AbsolutePathBuf)
    (effective source : List FileSystemSandboxEntry) : List FileSystemSandboxEntry :=
  (source.filter (grantedFileSystemEntryWithinRequest machine cwd effective
    (.restricted effective) (ReadDenyMatcher.new machine cwd (.restricted effective)))).map
      (materializeCwdDependentEntry machine cwd)

/-- What is accepted of the request stands first in what is accepted of the grant. -/
def AcceptedFirst (machine : Machine) (cwd : AbsolutePathBuf)
    (effective request grant : List FileSystemSandboxEntry) : Prop :=
  appendNew [] (acceptedFrom machine cwd effective request) <+:
    appendNew [] (acceptedFrom machine cwd effective grant)

theorem filter_intersectEntries (machine : Machine) (cwd : AbsolutePathBuf)
    (requested granted : List FileSystemSandboxEntry) :
    (intersectEntries machine cwd requested granted).filter (·.access ≠ .none) =
      acceptedEntries machine cwd requested granted := by
  obtain ⟨denied, heq, -, hdenied⟩ := exists_intersectEntries_eq machine cwd requested granted
  have haccepted : (acceptedEntries machine cwd requested granted).filter (·.access ≠ .none) =
      acceptedEntries machine cwd requested granted :=
    List.filter_eq_self.2 fun entry hentry => decide_eq_true (access_of_accepted hentry)
  have hnone : denied.filter (·.access ≠ .none) = [] :=
    List.filter_eq_nil_iff.2 fun entry hentry => by
      obtain ⟨source, hsource, -, rfl⟩ := hdenied entry hentry
      simpa [materialize_access] using hsource
  rw [heq, List.filter_append, haccepted, hnone, List.append_nil]

theorem mem_retain_of_subset {source source' accepted : List FileSystemSandboxEntry}
    (hsubset : ∀ entry ∈ source, entry ∈ source') {entry : FileSystemSandboxEntry}
    (hentry : entry ∈ retainConstrainingDenyEntries machine cwd source accepted) :
    entry ∈ retainConstrainingDenyEntries machine cwd source' accepted := by
  rw [retainConstrainingDenyEntries, List.mem_map] at hentry ⊢
  obtain ⟨denied, hdenied, heq⟩ := hentry
  obtain ⟨hdenied, hconstrains⟩ := List.mem_filter.1 hdenied
  obtain ⟨hdenied, hnone⟩ := List.mem_filter.1 hdenied
  exact ⟨denied, List.mem_filter.2 ⟨List.mem_filter.2 ⟨hsubset denied hdenied, hnone⟩,
    hconstrains⟩, heq⟩

/-- What is kept of a part of the entries is kept of all of them. -/
theorem appendNew_retain {source source' : List FileSystemSandboxEntry}
    (hsubset : ∀ entry ∈ source, entry ∈ source') (out accepted : List FileSystemSandboxEntry) :
    appendNew (appendNew out (retainConstrainingDenyEntries machine cwd source' accepted))
        (retainConstrainingDenyEntries machine cwd source accepted) =
      appendNew out (retainConstrainingDenyEntries machine cwd source' accepted) :=
  appendNew_of_subset fun _ hentry =>
    mem_appendNew.2 (.inr (mem_retain_of_subset hsubset hentry))

/-- The intersections with a part of the entries and with all of them are the same if they accept
the same. -/
theorem intersectEntries_eq_iff (hsubset : ∀ entry ∈ granted, entry ∈ requested) :
    intersectEntries machine cwd requested granted =
        intersectEntries machine cwd requested requested ↔
      acceptedEntries machine cwd requested granted =
        acceptedEntries machine cwd requested requested := by
  constructor
  · intro h
    rw [← filter_intersectEntries, h, filter_intersectEntries]
  · intro h
    rw [intersectEntries, intersectEntries]
    simp only [h]
    rw [appendNew_retain hsubset, appendNew_retain fun _ hentry => hentry]

section
variable {request grant effective : AdditionalPermissionProfile}
  (hmerge : mergePermissionProfiles (some request) (some grant) = some effective)

include hmerge

theorem acceptedEntries_merge :
    acceptedEntries machine cwd effective.entries effective.entries =
      appendNew (appendNew [] (acceptedFrom machine cwd effective.entries request.entries))
        (acceptedFrom machine cwd effective.entries grant.entries) := by
  have happend : acceptedFrom machine cwd effective.entries (request.entries ++ grant.entries) =
      acceptedFrom machine cwd effective.entries request.entries ++
        acceptedFrom machine cwd effective.entries grant.entries := by
    rw [acceptedFrom, List.filter_append, List.map_append]
    rfl
  rw [← appendNew_append, ← happend]
  show appendNew [] (acceptedFrom machine cwd effective.entries effective.entries) = _
  rcases entries_merge hmerge with heq | heq
  · exact congrArg (fun source => appendNew [] (acceptedFrom machine cwd effective.entries source))
      heq
  · refine (congrArg (fun source =>
      appendNew [] (acceptedFrom machine cwd effective.entries source)) heq).trans ?_
    exact appendNew_map_filter _ _ _

/-- The intersections with the grant and with the merged profile itself accept the same if what is
accepted of the request stands first in what is accepted of the grant. -/
theorem acceptedEntries_eq_iff :
    acceptedEntries machine cwd effective.entries grant.entries =
        acceptedEntries machine cwd effective.entries effective.entries ↔
      AcceptedFirst machine cwd effective.entries request.entries grant.entries := by
  rw [acceptedEntries_merge hmerge]
  show appendNew [] (acceptedFrom machine cwd effective.entries grant.entries) = _ ↔ _
  constructor
  · intro h
    rw [AcceptedFirst, h]
    exact isPrefix_appendNew _ _
  · intro h
    exact (appendNew_of_isPrefix h).symm

end

/-! ## Scan depths -/

/-- The merged scan depth is at least that of a side which has deny globs. -/
theorem mergeGlobScanMaxDepth_of_right {left right : List FileSystemSandboxEntry}
    {leftDepth rightDepth : Option Nat} {depth : Nat} (hglob : right.any isDenyGlob)
    (h : mergeGlobScanMaxDepth left leftDepth right rightDepth = some depth) :
    ∃ depth', rightDepth = some depth' ∧ depth' ≤ depth := by
  cases hleft : left.any isDenyGlob <;> cases leftDepth <;> cases rightDepth <;>
    simp only [mergeGlobScanMaxDepth, effectiveGlobScanDepth, hleft, hglob, if_true, if_false,
      Bool.false_eq_true, Option.some.injEq, reduceCtorEq] at h
  all_goals exact ⟨_, rfl, by omega⟩

/-- A merged profile scans at least as deep for the deny globs of the grant as the grant does. -/
theorem depth_merge {base permissions : Option FileSystemPermissions}
    {merged : FileSystemPermissions} (hmerge : mergeFileSystem base permissions = some merged)
    (hglob : (permissions.getD .default).entries.any isDenyGlob) {depth : NonZero}
    (hdepth : merged.globScanMaxDepth = some depth) :
    ∃ depth', (permissions.getD .default).globScanMaxDepth = some depth' ∧
      depth'.val ≤ depth.val := by
  cases permissions with
  | none => cases hglob
  | some permissions =>
    cases base with
    | none =>
      cases hmerge
      exact ⟨depth, hdepth, le_refl _⟩
    | some base =>
      rw [mergeFileSystem_some, Option.filter_some] at hmerge
      split at hmerge
      · cases hmerge
        obtain ⟨scanned, hscanned, hnew⟩ := Option.bind_eq_some_iff.1 hdepth
        obtain ⟨depth', hdepth', hle⟩ := mergeGlobScanMaxDepth_of_right hglob hscanned
        obtain ⟨nonZero, hnonZero, rfl⟩ := Option.map_eq_some_iff.1 hdepth'
        exact ⟨nonZero, hnonZero, (NonZero.new_eq_some hnew).symm ▸ hle⟩
      · cases hmerge

theorem isDenyGlob_materialize (entry : FileSystemSandboxEntry) :
    isDenyGlob (materializeCwdDependentEntry machine cwd entry) = isDenyGlob entry := by
  rw [isDenyGlob, isDenyGlob, materialize_access]
  rcases materialize_cases entry with ⟨path, hpath, heq⟩ | ⟨raw, hraw, heq⟩ | heq
  · have hglob : FileSystemSandboxPolicy.globPatternOf entry.path = none := by
      cases htarget : entry.path with
      | globPattern raw =>
        rw [htarget] at hpath
        cases hpath
      | path _ | special _ => rfl
    rw [heq, hglob]
    rfl
  · rw [heq, hraw]
    rfl
  · rw [heq]

/-- What is kept of the entries has a deny glob only if the entries have one. -/
theorem any_isDenyGlob_retain {source accepted : List FileSystemSandboxEntry}
    (h : (retainConstrainingDenyEntries machine cwd source accepted).any isDenyGlob) :
    source.any isDenyGlob := by
  obtain ⟨entry, hentry, hglob⟩ := List.any_eq_true.1 h
  obtain ⟨denied, hdenied, rfl⟩ := List.mem_map.1 hentry
  rw [isDenyGlob_materialize] at hglob
  exact List.any_eq_true.2
    ⟨denied, List.mem_of_mem_filter (List.mem_of_mem_filter hdenied), hglob⟩

/-- The scan depths of two sides are that of the left side, if the right side has deny globs only
where the left side has, and does not scan deeper. -/
theorem mergeGlobScanMaxDepth_eq_left {left right : List FileSystemSandboxEntry}
    {leftDepth rightDepth : Option Nat}
    (hsubset : right.any isDenyGlob → left.any isDenyGlob)
    (hdeep : right.any isDenyGlob → ∀ depth, leftDepth = some depth →
      ∃ depth', rightDepth = some depth' ∧ depth' ≤ depth) :
    mergeGlobScanMaxDepth left leftDepth right rightDepth =
      if left.any isDenyGlob then leftDepth else none := by
  cases hright : right.any isDenyGlob with
  | false =>
    cases hleft : left.any isDenyGlob <;> cases leftDepth <;>
      simp [mergeGlobScanMaxDepth, effectiveGlobScanDepth, hleft, hright]
  | true =>
    have hleft := hsubset hright
    cases leftDepth with
    | none => cases rightDepth <;>
      simp [mergeGlobScanMaxDepth, effectiveGlobScanDepth, hleft, hright]
    | some depth =>
      obtain ⟨depth', rfl, hle⟩ := hdeep hright depth rfl
      simp [mergeGlobScanMaxDepth, effectiveGlobScanDepth, hleft, hright, hle]

/-! ## What is preapproved -/

theorem intersectFileSystem_eq {effective grant : FileSystemPermissions}
    (hsubset : ∀ entry ∈ grant.entries, entry ∈ effective.entries)
    (hdeep : grant.entries.any isDenyGlob → ∀ depth, effective.globScanMaxDepth = some depth →
      ∃ depth', grant.globScanMaxDepth = some depth' ∧ depth'.val ≤ depth.val)
    (haccepted : acceptedEntries machine cwd effective.entries grant.entries =
      acceptedEntries machine cwd effective.entries effective.entries) :
    intersectFileSystem machine cwd effective grant =
      intersectFileSystem machine cwd effective effective := by
  have hentries := (intersectEntries_eq_iff hsubset).2 haccepted
  rw [intersectFileSystem, intersectFileSystem]
  refine congrArg₂ FileSystemPermissions.mk hentries ?_
  simp only [haccepted]
  rw [mergeGlobScanMaxDepth_eq_left, mergeGlobScanMaxDepth_eq_left]
  · exact id
  · exact fun _ depth hdepth => ⟨depth, hdepth, le_refl _⟩
  · intro hglob
    obtain ⟨entry, hentry, hdeny⟩ := List.any_eq_true.1 hglob
    exact List.any_eq_true.2 ⟨entry, mem_retain_of_subset hsubset hentry, hdeny⟩
  · intro hglob depth hdepth
    obtain ⟨nonZero, hnonZero, rfl⟩ := Option.map_eq_some_iff.1 hdepth
    obtain ⟨depth', hdepth', hle⟩ := hdeep (any_isDenyGlob_retain hglob) nonZero hnonZero
    exact ⟨depth'.val, by rw [hdepth']; rfl, hle⟩

theorem mergeNetwork_cases (base permissions : Option NetworkPermissions) :
    mergeNetwork base permissions = some ⟨some true⟩ ∨ mergeNetwork base permissions = none := by
  rw [mergeNetwork.eq_def]
  split
  · exact .inl rfl
  · exact .inl rfl
  · exact .inr rfl

section
variable {request grant effective : AdditionalPermissionProfile}
  (hmerge : mergePermissionProfiles (some request) (some grant) = some effective)

include hmerge

/-- The merged permissions are preapproved if the grant accepts, before all else, what they accept
of the request, and enables the network if the request does. -/
theorem permissionsArePreapproved_iff :
    permissionsArePreapproved machine cwd effective grant ↔
      AcceptedFirst machine cwd effective.entries request.entries grant.entries ∧
        (request.enablesNetwork → grant.enablesNetwork) := by
  rw [permissionsArePreapproved, decide_eq_true_iff, ← acceptedEntries_eq_iff hmerge]
  have hsubset : ∀ entry ∈ grant.entries, entry ∈ effective.entries :=
    fun entry hentry => (mem_entries_merge hmerge).2 (.inr hentry)
  constructor
  · intro h
    have hentries := congrArg AdditionalPermissionProfile.entries h
    rw [entries_intersect, entries_intersect] at hentries
    refine ⟨(intersectEntries_eq_iff hsubset).1 hentries, fun hrequest => ?_⟩
    have hnetwork := congrArg AdditionalPermissionProfile.enablesNetwork h
    rw [enablesNetwork_intersect, enablesNetwork_intersect, enablesNetwork_merge hmerge,
      hrequest] at hnetwork
    exact hnetwork
  · rintro ⟨haccepted, hnetwork⟩
    refine congrArg₂ AdditionalPermissionProfile.mk ?_ ?_
    · rcases mergeNetwork_cases request.network grant.network with heq | heq
      · have henables := enablesNetwork_merge hmerge
        rw [AdditionalPermissionProfile.enablesNetwork, merge_eq hmerge, heq,
          decide_eq_true rfl] at henables
        have hgrant : grant.enablesNetwork := by
          rcases Bool.or_eq_true _ _ ▸ henables.symm with hrequest | hgrant
          · exact hnetwork hrequest
          · exact hgrant
        rw [merge_eq hmerge, heq, of_decide_eq_true hgrant]
      · rw [merge_eq hmerge, heq]
        rfl
    · cases hfileSystem : effective.fileSystem with
      | none => rfl
      | some fileSystem =>
        have hentries : effective.entries = fileSystem.entries := by
          rw [AdditionalPermissionProfile.entries, hfileSystem]
          rfl
        rw [← entries_getD grant, hentries] at hsubset haccepted
        refine congrArg (fun fileSystem => (some fileSystem).filter (!·.isEmpty))
          (intersectFileSystem_eq hsubset (fun hglob depth hdepth => ?_) haccepted)
        rw [merge_eq hmerge] at hfileSystem
        exact depth_merge hfileSystem hglob hdepth

theorem deniedByGlob_merge (h : deniedByGlob machine cwd effective.entries path = false) :
    deniedByGlob machine cwd grant.entries path = false := by
  rw [← Bool.not_eq_true] at h ⊢
  intro hdenied
  obtain ⟨raw, hraw, hmatch⟩ := deniedByGlob_iff.1 hdenied
  exact h (deniedByGlob_iff.2 ⟨raw, (mem_entries_merge hmerge).2 (.inr hraw), hmatch⟩)

/-- Where a path is decided by an entry that the merged permissions do not shut, a grant that
preapproves them decides the same. -/
theorem resolveAccess_of_accepted (hfirst : AcceptedFirst machine cwd effective.entries
      request.entries grant.entries) {winner : ResolvedFileSystemEntry}
    (hwinner : (restricted effective.entries).Decides machine.toHost cwd path winner)
    (hnone : winner.access ≠ .none)
    (hread : readDenied machine cwd effective.entries winner.path = false) :
    (restricted grant.entries).resolveAccessWithCwd machine.toHost cwd path = winner.access := by
  have haccepted : Accepted machine cwd effective.entries effective.entries winner.path
      winner.access := by
    refine accepted_iff.2 ⟨hnone, mem_resolved_iff.1 hwinner.mem, hread, ?_⟩
    rw [hwinner.self.resolveAccess rfl]
  have hgrant : Accepted machine cwd effective.entries grant.entries winner.path winner.access := by
    rw [← resolves_accepted, (acceptedEntries_eq_iff hmerge).2 hfirst, resolves_accepted]
    exact haccepted
  obtain ⟨-, hresolves, -⟩ := accepted_iff.1 hgrant
  obtain ⟨winner', hwinner'⟩ := exists_decides (mem_resolved_iff.2 hresolves) hwinner.startsWith
  rw [hwinner'.resolveAccess rfl]
  have hresolves' : Resolves machine cwd effective.entries winner'.path winner'.access :=
    (resolves_merge hmerge).2 (.inr (mem_resolved_iff.1 hwinner'.mem))
  rcases hwinner.most (mem_resolved_iff.2 hresolves') hwinner'.startsWith with hlt | ⟨heq, hle⟩
  · have hlt : winner'.path.names.length < winner.path.names.length := hlt
    rcases hwinner'.most (mem_resolved_iff.2 hresolves) hwinner.startsWith with hlt' | ⟨heq, -⟩
    · have hlt' : winner.path.names.length < winner'.path.names.length := hlt'
      omega
    · have heq : winner.path = winner'.path := heq
      rw [heq] at hlt
      exact absurd hlt (lt_irrefl _)
  · rcases hwinner'.most (mem_resolved_iff.2 hresolves) hwinner.startsWith with hlt' | ⟨-, hle'⟩
    · have hlt' : winner.path.names.length < winner'.path.names.length := hlt'
      have heq : winner'.path = winner.path := heq
      rw [heq] at hlt'
      exact absurd hlt' (lt_irrefl _)
    · exact le_antisymm hle hle'

end

/-- Where a path is decided by an entry whose own path the merged permissions shut, the grant gives
the path at least as much. -/
def ShutGranted (machine : Machine) (cwd : AbsolutePathBuf)
    (effective grant : List FileSystemSandboxEntry) : Prop :=
  ∀ path winner, deniedByGlob machine cwd effective path = false →
    (restricted effective).Decides machine.toHost cwd path winner →
    readDenied machine cwd effective winner.path →
    winner.access.capability ≤ ((restricted grant).resolveAccessWithCwd machine.toHost cwd
      path).capability

/-- The request is made of entries and network flags of the grant. -/
def MadeOf (request grant : AdditionalPermissionProfile) : Prop :=
  (∀ entry ∈ request.entries, entry ∈ grant.entries) ∧
    (request.enablesNetwork → grant.enablesNetwork)

/-- Preapproved permissions give no more than was granted, and a request made of what was granted
is preapproved. -/
structure PreapprovesGranted (machine : Machine) (cwd : AbsolutePathBuf)
    (request grant effective : AdditionalPermissionProfile) : Prop where
  access : permissionsArePreapproved machine cwd effective grant → ∀ path,
    (effective.access machine cwd path).capability ≤ (grant.access machine cwd path).capability
  network : permissionsArePreapproved machine cwd effective grant →
    effective.enablesNetwork → grant.enablesNetwork
  complete : MadeOf request grant → permissionsArePreapproved machine cwd effective grant

/-- The permissions that a session or a turn stores: results of intersections, merged. -/
inductive Stored (machine : Machine) : Option AdditionalPermissionProfile → Prop
  | none : Stored machine none
  | record {stored : Option AdditionalPermissionProfile} (cwd : AbsolutePathBuf)
      (requested granted : AdditionalPermissionProfile) (h : Stored machine stored) :
      Stored machine (mergePermissionProfiles stored
        (some (intersectPermissionProfiles machine cwd requested granted)))
  | merge {session turn : Option AdditionalPermissionProfile} (hsession : Stored machine session)
      (hturn : Stored machine turn) : Stored machine (mergePermissionProfiles session turn)

/-- What a profile mentions, it grants or denies. -/
structure Substantial (profile : AdditionalPermissionProfile) : Prop where
  network : profile.network = none ∨ profile.network = some ⟨some true⟩
  fileSystem : ∀ fileSystem, profile.fileSystem = some fileSystem → fileSystem.entries ≠ []

theorem substantial_intersect (requested granted : AdditionalPermissionProfile) :
    Substantial (intersectPermissionProfiles machine cwd requested granted) := by
  refine ⟨?_, fun fileSystem h => ?_⟩
  · show intersectNetwork requested.network granted.network = none ∨ _
    rw [intersectPermissionProfiles, intersectNetwork.eq_def]
    split
    · exact .inr rfl
    · exact .inl rfl
  · have hsome := (Option.filter_eq_some_iff.1 h).2
    simpa [FileSystemPermissions.isEmpty] using hsome

theorem mergeFileSystem_ne_nil {base permissions : Option FileSystemPermissions}
    (hbase : ∀ fileSystem, base = some fileSystem → fileSystem.entries ≠ [])
    (hpermissions : ∀ fileSystem, permissions = some fileSystem → fileSystem.entries ≠ []) :
    ∀ fileSystem, mergeFileSystem base permissions = some fileSystem →
      fileSystem.entries ≠ [] := by
  intro fileSystem h
  cases base with
  | none =>
    cases permissions with
    | none => cases h
    | some permissions => exact hpermissions fileSystem h
  | some base =>
    cases permissions with
    | none => exact hbase fileSystem h
    | some permissions =>
      rw [mergeFileSystem_some, Option.filter_eq_some_iff] at h
      simpa [FileSystemPermissions.isEmpty] using h.2

theorem substantial_merge {base permissions : Option AdditionalPermissionProfile}
    {merged : AdditionalPermissionProfile}
    (hbase : ∀ profile, base = some profile → Substantial profile ∧ profile.isEmpty = false)
    (hpermissions : ∀ profile, permissions = some profile → Substantial profile)
    (h : mergePermissionProfiles base permissions = some merged) :
    Substantial merged ∧ merged.isEmpty = false := by
  cases permissions with
  | none => exact hbase merged h
  | some permissions =>
    cases base with
    | none =>
      have hfilter : (some permissions).filter (!·.isEmpty) = some merged := h
      obtain ⟨heq, hempty⟩ := Option.filter_eq_some_iff.1 hfilter
      exact ⟨hpermissions merged heq, by simpa using hempty⟩
    | some base =>
      have hempty := h
      rw [mergePermissionProfiles_some, Option.filter_eq_some_iff] at hempty
      refine ⟨?_, by simpa using hempty.2⟩
      rw [merge_eq h]
      exact {
        network := (mergeNetwork_cases base.network permissions.network).symm
        fileSystem := mergeFileSystem_ne_nil (hbase base rfl).1.fileSystem
          (hpermissions permissions rfl).fileSystem }

theorem Stored.substantial {stored : Option AdditionalPermissionProfile}
    (h : Stored machine stored) {profile : AdditionalPermissionProfile}
    (heq : stored = some profile) : Substantial profile ∧ profile.isEmpty = false := by
  induction h generalizing profile with
  | none => cases heq
  | record cwd requested granted h ih =>
    refine substantial_merge (fun _ => ih) (fun _ heq => ?_) heq
    rw [← Option.some.inj heq]
    exact substantial_intersect requested granted
  | merge hsession hturn ihsession ihturn =>
    exact substantial_merge (fun _ => ihsession) (fun _ heq => (ihturn heq).1) heq

theorem isSome_mergeFileSystem (base : Option FileSystemPermissions)
    {permissions : FileSystemPermissions} (h : permissions.entries ≠ []) :
    (mergeFileSystem base (some permissions)).isSome := by
  cases base with
  | none => rfl
  | some base =>
    obtain ⟨entry, hentry⟩ := List.exists_mem_of_ne_nil _ h
    have hmem : entry ∈ mergePermissionEntries base.entries permissions.entries :=
      mem_appendNew.2 (.inr (List.mem_append_right _ hentry))
    rw [mergeFileSystem_some, Option.filter_some, if_pos]
    · rfl
    · simpa [FileSystemPermissions.isEmpty] using List.ne_nil_of_mem hmem

/-- A request that is merged with stored permissions asks for something. -/
theorem exists_merge {grant : AdditionalPermissionProfile} (hstored : Stored machine (some grant))
    (request : AdditionalPermissionProfile) :
    ∃ effective, mergePermissionProfiles (some request) (some grant) = some effective := by
  obtain ⟨hsubstantial, hempty⟩ := hstored.substantial rfl
  have hkept : (AdditionalPermissionProfile.mk (mergeNetwork request.network grant.network)
      (mergeFileSystem request.fileSystem grant.fileSystem)).isEmpty = false := by
    cases hfileSystem : grant.fileSystem with
    | some fileSystem =>
      have hsome := isSome_mergeFileSystem request.fileSystem
        (hsubstantial.fileSystem fileSystem hfileSystem)
      simp [AdditionalPermissionProfile.isEmpty, hsome]
    | none =>
      rcases hsubstantial.network with hnetwork | hnetwork
      · rw [AdditionalPermissionProfile.isEmpty, hnetwork, hfileSystem] at hempty
        cases hempty
      · have hmerged : mergeNetwork request.network (some ⟨some true⟩) = some ⟨some true⟩ := by
          rw [mergeNetwork.eq_def]
          split
          · rfl
          · rfl
          · rename_i hnot
            exact absurd rfl hnot
        rw [hnetwork, hmerged]
        rfl
  exact ⟨_, by rw [mergePermissionProfiles_some, Option.filter_some, hkept]; rfl⟩

/-- Preapproval gives no more than was granted exactly if the grant gives what the merged
permissions shut whenever it accepts the rest of the request before all else; and it reports a
request made of what was granted exactly if the grant accepts it before all else. -/
theorem preapprovesGranted_iff (machine : Machine) (cwd : AbsolutePathBuf)
    (request grant : AdditionalPermissionProfile) (hstored : Stored machine (some grant)) :
    ∃ effective, mergePermissionProfiles (some request) (some grant) = some effective ∧
      (PreapprovesGranted machine cwd request grant effective ↔
        (AcceptedFirst machine cwd effective.entries request.entries grant.entries →
          (request.enablesNetwork → grant.enablesNetwork) →
            ShutGranted machine cwd effective.entries grant.entries) ∧
        (MadeOf request grant →
          AcceptedFirst machine cwd effective.entries request.entries grant.entries)) := by
  obtain ⟨effective, hmerge⟩ := exists_merge hstored request
  refine ⟨effective, hmerge, ?_⟩
  constructor
  · intro h
    refine ⟨fun hfirst hnetwork path winner hopen hwinner _ => ?_, fun hmade => ?_⟩
    · have hle := h.access ((permissionsArePreapproved_iff hmerge).2 ⟨hfirst, hnetwork⟩) path
      rw [AdditionalPermissionProfile.access, AdditionalPermissionProfile.access,
        accessOf_of_open hopen, accessOf_of_open (deniedByGlob_merge hmerge hopen),
        hwinner.resolveAccess rfl] at hle
      exact hle
    · exact ((permissionsArePreapproved_iff hmerge).1 (h.complete hmade)).1
  · rintro ⟨hshut, hfirst⟩
    refine ⟨fun hpreapproved path => ?_, fun hpreapproved hnetwork => ?_, fun hmade => ?_⟩
    · obtain ⟨haccepted, hnetwork⟩ := (permissionsArePreapproved_iff hmerge).1 hpreapproved
      rw [AdditionalPermissionProfile.access, AdditionalPermissionProfile.access]
      cases hopen : deniedByGlob machine cwd effective.entries path with
      | true =>
        rw [accessOf, if_pos hopen]
        exact Nat.zero_le _
      | false =>
        rw [accessOf_of_open hopen, accessOf_of_open (deniedByGlob_merge hmerge hopen)]
        by_cases hnone : (restricted effective.entries).resolveAccessWithCwd machine.toHost cwd
            path = .none
        · rw [hnone]
          exact Nat.zero_le _
        obtain ⟨winner, hwinner, haccess⟩ := exists_decides_of_access rfl hnone
        rw [haccess] at hnone ⊢
        cases hread : readDenied machine cwd effective.entries winner.path with
        | true => exact hshut haccepted hnetwork path winner hopen hwinner hread
        | false => rw [resolveAccess_of_accepted hmerge haccepted hwinner hnone hread]
    · rw [enablesNetwork_merge hmerge, Bool.or_eq_true] at hnetwork
      rcases hnetwork with hrequest | hgrant
      · exact ((permissionsArePreapproved_iff hmerge).1 hpreapproved).2 hrequest
      · exact hgrant
    · exact (permissionsArePreapproved_iff hmerge).2 ⟨hfirst hmade, hmade.2⟩

/-- What a session may have stored: reading one directory. -/
def readUsr : AdditionalPermissionProfile :=
  fileSystemProfile [⟨.path (AbsolutePathBuf.root.pushComponent "usr".toList), .read⟩]

theorem stored_readUsr : Stored literalMachine (some readUsr) :=
  .record .root readUsr readUsr .none

theorem preapprovesGranted_readUsr :
    ∃ effective, mergePermissionProfiles (some readUsr) (some readUsr) = some effective ∧
      PreapprovesGranted literalMachine .root readUsr readUsr effective := by
  obtain ⟨effective, hmerge, hiff⟩ :=
    preapprovesGranted_iff literalMachine .root readUsr readUsr stored_readUsr
  refine ⟨effective, hmerge, hiff.2 ⟨fun _ _ path winner _ _ hread => ?_, fun _ => ?_⟩⟩
  · have heq : effective = readUsr := Option.some.inj (hmerge.symm.trans rfl)
    rw [heq] at hread
    cases hread
  · exact List.prefix_rfl

/-- A request that denies a directory and writes to one in it, whose path it thereby shuts. -/
def writeBelowDenied : AdditionalPermissionProfile :=
  fileSystemProfile [⟨.path .slashTmp, .none⟩,
    ⟨.path (AbsolutePathBuf.slashTmp.pushComponent "keys".toList), .write⟩]

theorem not_preapprovesGranted_shut :
    Stored literalMachine (some readUsr) ∧
      mergePermissionProfiles (some writeBelowDenied) (some readUsr) =
        some (fileSystemProfile (writeBelowDenied.entries ++ readUsr.entries)) ∧
      ¬ PreapprovesGranted literalMachine .root writeBelowDenied readUsr
        (fileSystemProfile (writeBelowDenied.entries ++ readUsr.entries)) := by
  refine ⟨stored_readUsr, rfl, fun h => ?_⟩
  have hle := h.access (by decide) (AbsolutePathBuf.slashTmp.pushComponent "keys".toList)
  exact absurd hle (by decide)

end Mcodex.Permissions
