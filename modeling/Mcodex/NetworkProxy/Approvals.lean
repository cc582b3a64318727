import Mcodex.NetworkProxy.Allowlist
import Mcodex.NetworkProxy.HostNames
import Mcodex.NetworkProxy.Runtime

/-!
# Approving a host

`add_allowed_domain` puts the host that it parses among the patterns of the configuration and
compiles them again. A text without the special characters of globs is the glob of itself only
(`LiteralLaws`). If the parsed host is such a text and stays as it is when it is normalised again,
the approval lets through that host and no other, and denies no less (`approves_only`). A host that
is normalised again into another one is not approved by itself, and one with a special character is
approved as a pattern.
-/

namespace Mcodex.NetworkProxy

open Text

section
variable {Glob GlobSet Mitm : Type}

/-- `add_allowed_domain`, when no other update writes between its lock sections. -/
def addAllowedDomain (ext : External Glob GlobSet Mitm) (host : List Char)
    (state : ConfigState GlobSet Mitm) :
    Except (String ⊕ StateError) (ConfigState GlobSet Mitm) :=
  match Host.parse host with
  | .error e => .error (.inl e)
  | .ok normalizedHost =>
    match updatedState ext .allow normalizedHost state with
    | .error e => .error (.inr e)
    | .ok none => .ok state
    | .ok (some newState) =>
      .ok ((InFlight.setDomains state.config state.constraints newState).write state)

/-- The text has no character that means something of its own in a glob. -/
def Plain (text : List Char) : Prop := ∀ c ∈ ['?', '*', '[', '{', '}', '\\'], c ∉ text

instance (text : List Char) : Decidable (Plain text) :=
  List.decidableBAll (fun c => c ∉ text) ['?', '*', '[', '{', '}', '\\']

/-- What is relied on of the glob compiler here. A set matches what one of its globs does, and the
glob of a plain text matches that text, in capital letters too. -/
structure LiteralLaws (ext : External Glob GlobSet Mitm) (isMatch : Glob → List Char → Prop)
    (setMatch : GlobSet → List Char → Prop) : Prop where
  set {globs : List Glob} {set : GlobSet} {host : List Char} (h : ext.globSet globs = .ok set) :
    setMatch set host ↔ ∃ glob ∈ globs, isMatch glob host
  literal {text host : List Char} {glob : Glob} (htext : Plain text)
    (h : ext.glob text = .ok glob) :
    isMatch glob host ↔ toAsciiLowercase host = toAsciiLowercase text

/-- A host as the proxy compares it. -/
def IsNormalized (host : List Char) : Prop := ∃ raw, normalizeHost raw = host

/-- Of the hosts as the proxy compares them, the approved one is the only one that is allowed anew
and that may be denied no more, and it is allowed. -/
structure ApprovesOnly (setMatch : GlobSet → List Char → Prop) (approved : List Char)
    (before after : ConfigState GlobSet Mitm) : Prop where
  allow : ∀ host, IsNormalized host → setMatch after.allowSet host →
    setMatch before.allowSet host ∨ host = approved
  deny : ∀ host, IsNormalized host → setMatch before.denySet host →
    setMatch after.denySet host ∨ host = approved
  allowed : setMatch after.allowSet approved

/-! ## Patterns of plain hosts -/

variable {host text entry : List Char}

theorem IsNormalized.lower (h : IsNormalized host) : toAsciiLowercase host = host := by
  obtain ⟨raw, rfl⟩ := h
  rw [normalizeHost_eq, toAsciiLowercase_idem]

theorem normalizeHost_trim (raw : List Char) : normalizeHost (trim raw) = normalizeHost raw := by
  rw [normalizeHost_eq, normalizeHost_eq, hostPart, hostPart, trim_trim]

/-- What begins with a star still has it when it is normalised as a host. -/
theorem star_mem_normalizeHost (h : (trim entry).head? = some '*') : '*' ∈ normalizeHost entry := by
  obtain ⟨rest, hrest⟩ := List.head?_eq_some_iff.1 h
  have hpart : ∃ rest', hostPart entry = '*' :: rest' := by
    unfold hostPart
    dsimp only
    rw [hrest]
    split
    · rename_i hbracket
      cases hbracket.1
    split
    · exact ⟨_, rfl⟩
    · exact ⟨_, rfl⟩
  obtain ⟨rest', hrest'⟩ := hpart
  rw [normalizeHost_eq, mem_toAsciiLowercase (by decide), hrest']
  have hne : trimEndDots ('*' :: rest') ≠ [] := by
    rw [trimEndDots, Ne, List.rdropWhile_eq_nil_iff]
    exact fun hall => absurd (hall '*' List.mem_cons_self) (by decide)
  obtain ⟨c, kept, hkept⟩ := List.exists_cons_of_ne_nil hne
  have hprefix : c :: kept <+: '*' :: rest' := hkept ▸ List.rdropWhile_prefix _ _
  rw [hkept, (List.cons_prefix_cons.1 hprefix).1]
  exact List.mem_cons_self

/-- What does not begin with a star is a pattern of no other kind. -/
theorem stripPrefix_of_no_star {s : List Char} (h : s.head? ≠ some '*') :
    stripPrefix "**.".toList s = none ∧ stripPrefix "*.".toList s = none := by
  have hnone : ∀ {pre : List Char}, pre.head? = some '*' → stripPrefix pre s = none := by
    refine fun hpre => if_neg fun hprefix => h ?_
    obtain ⟨rest, rfl⟩ := List.isPrefixOf_iff_prefix.1 hprefix
    rw [List.head?_append, hpre]
    rfl
  exact ⟨hnone rfl, hnone rfl⟩

/-- An entry without stars is compiled as the text that it is normalised to. -/
theorem compiledTexts_eq (h : '*' ∉ normalizeHost entry) :
    compiledTexts entry = [trim (normalizeHost entry)] := by
  have hstar : (trim entry).head? ≠ some '*' := fun hhead => h (star_mem_normalizeHost hhead)
  have hpattern : normalizePattern entry = normalizeHost entry := by
    unfold normalizePattern
    dsimp only
    rw [if_neg, (stripPrefix_of_no_star hstar).1, (stripPrefix_of_no_star hstar).2]
    · exact normalizeHost_trim entry
    · rintro heq
      rw [heq] at hstar
      exact hstar rfl
  have hstar' : (trim (normalizeHost entry)).head? ≠ some '*' := fun hhead =>
    h ((trimStart_suffix _).subset ((trimEnd_prefixOf _).subset (List.mem_of_mem_head? hhead)))
  rw [compiledTexts, hpattern, expandDomainPattern_eq]
  unfold DomainPattern.parse
  dsimp only
  split
  · rename_i hempty
    rw [List.isEmpty_iff.1 hempty]
    rfl
  · rw [(stripPrefix_of_no_star hstar').1, (stripPrefix_of_no_star hstar').2]
    rfl

/-! ## The patterns of a configuration -/

section
variable {entries : List NetworkDomainPermissionEntry} {entry : NetworkDomainPermissionEntry}
  {keep : List Char → Bool}

theorem any_filter_pattern {pattern : List Char} (h : keep pattern = true) :
    (entries.filter fun e => keep e.pattern).any (·.pattern = pattern) =
      entries.any (·.pattern = pattern) := by
  rw [List.any_filter]
  refine congrArg _ (funext fun e => ?_)
  by_cases heq : e.pattern = pattern
  · rw [heq, h]
    rfl
  · rw [decide_eq_false heq, Bool.and_false]

/-- One more entry among those whose patterns are kept. -/
theorem addEffective_filter :
    (addEffective entries entry).filter (fun e => keep e.pattern) =
      if keep entry.pattern then addEffective (entries.filter fun e => keep e.pattern) entry
      else entries.filter fun e => keep e.pattern := by
  have hmap : ∀ f : NetworkDomainPermissionEntry → NetworkDomainPermissionEntry,
      (∀ e, (f e).pattern = e.pattern) → (entries.map f).filter (fun e => keep e.pattern) =
        (entries.filter fun e => keep e.pattern).map f := by
    intro f hf
    rw [List.filter_map]
    refine congrArg _ (List.filter_congr fun e _ => ?_)
    rw [Function.comp_apply, hf]
  have hpattern : ∀ e : NetworkDomainPermissionEntry,
      (if e.pattern = entry.pattern ∧ e.permission.rank < entry.permission.rank then
        { e with permission := entry.permission } else e).pattern = e.pattern := by
    intro e
    split <;> rfl
  cases hkeep : keep entry.pattern with
  | true =>
    rw [if_pos rfl, addEffective, addEffective, any_filter_pattern hkeep]
    split
    · exact hmap _ hpattern
    · rw [List.filter_append, List.filter_singleton, hkeep]
      rfl
  | false =>
    rw [if_neg Bool.false_ne_true, addEffective]
    split
    · -- an entry that is kept has another pattern
      rw [hmap _ hpattern]
      refine (List.map_congr_left fun e he => if_neg fun hand => ?_).trans (List.map_id _)
      have hkept := (List.mem_filter.1 he).2
      rw [hand.1, hkeep] at hkept
      cases hkept
    · rw [List.filter_append, List.filter_singleton, hkeep]
      exact List.append_nil _

/-- To keep some patterns of the entries is to keep them of the effective ones. -/
theorem effectiveEntries_filter (entries : List NetworkDomainPermissionEntry)
    (keep : List Char → Bool) :
    effectiveEntries (entries.filter fun e => keep e.pattern) =
      (effectiveEntries entries).filter fun e => keep e.pattern := by
  induction entries using List.reverseRecOn with
  | nil => rfl
  | append_singleton entries entry ih =>
    have hlast : effectiveEntries (entries ++ [entry]) =
        addEffective (effectiveEntries entries) entry := List.foldl_concat ..
    rw [hlast, addEffective_filter, List.filter_append, ← ih, List.filter_singleton]
    cases keep entry.pattern with
    | true => exact List.foldl_concat ..
    | false => exact congrArg _ (List.append_nil _)

theorem mem_domainEntries {s : NetworkProxySettings} {permission : NetworkDomainPermission}
    {pattern : List Char} :
    pattern ∈ (s.domainEntries permission).getD [] ↔
      ∃ e ∈ effectiveEntries (s.domains.getD []), e.permission = permission ∧
        e.pattern = pattern := by
  have hfilter : ∀ l : List (List Char), ((some l).filter (· ≠ [])).getD [] = l := fun l => by
    cases l <;> rfl
  unfold NetworkProxySettings.domainEntries
  cases s.domains with
  | none => exact iff_of_false List.not_mem_nil fun ⟨_, he, _⟩ => nomatch he
  | some domains =>
    rw [Option.map_some, hfilter, List.mem_map]
    simp only [List.mem_filter, decide_eq_true_eq, Option.getD_some, and_assoc]

/-- After an update a list has what it had of other hosts, and the host if it is meant. -/
theorem mem_domainEntries_upsert (s : NetworkProxySettings) {host pattern : List Char}
    {permission permission' : NetworkDomainPermission} :
    pattern ∈ ((s.upsertDomainPermission host permission normalizeHost).domainEntries
        permission').getD [] ↔
      (pattern ∈ (s.domainEntries permission').getD [] ∧
        normalizeHost pattern ≠ normalizeHost host) ∨
      (pattern = host ∧ permission' = permission) := by
  have hdomains : (s.upsertDomainPermission host permission normalizeHost).domains.getD [] =
      ((s.domains.getD []).filter fun entry =>
        decide (normalizeHost entry.pattern ≠ normalizeHost host)) ++ [⟨host, permission⟩] := by
    unfold NetworkProxySettings.upsertDomainPermission
    dsimp only
    rw [if_neg (List.append_ne_nil_of_right_ne_nil _ (List.cons_ne_nil _ _)), Option.getD_some]
  have heffective := effectiveEntries_filter (s.domains.getD [])
    fun pattern => decide (normalizeHost pattern ≠ normalizeHost host)
  have hnew : (((effectiveEntries (s.domains.getD [])).filter fun entry =>
      decide (normalizeHost entry.pattern ≠ normalizeHost host)).any (·.pattern = host)) =
        false := by
    refine List.any_eq_false.2 fun e he heq => ?_
    have hne := of_decide_eq_true (List.mem_filter.1 he).2
    exact hne (congrArg _ (of_decide_eq_true heq))
  have hlast : ∀ entries : List NetworkDomainPermissionEntry, effectiveEntries
      (entries ++ [⟨host, permission⟩]) = addEffective (effectiveEntries entries)
        ⟨host, permission⟩ := fun _ => List.foldl_concat ..
  rw [mem_domainEntries, mem_domainEntries, hdomains, hlast, heffective, addEffective, hnew,
    if_neg Bool.false_ne_true]
  constructor
  · rintro ⟨e, he, rfl, rfl⟩
    rcases List.mem_append.1 he with he | he
    · obtain ⟨he, hne⟩ := List.mem_filter.1 he
      exact .inl ⟨⟨e, he, rfl, rfl⟩, of_decide_eq_true hne⟩
    · rw [List.mem_singleton.1 he]
      exact .inr ⟨rfl, rfl⟩
  · rintro (⟨⟨e, he, rfl, rfl⟩, hne⟩ | ⟨rfl, rfl⟩)
    · exact ⟨e, List.mem_append_left _ (List.mem_filter.2 ⟨he, decide_eq_true hne⟩), rfl, rfl⟩
    · exact ⟨_, List.mem_append_right _ (List.mem_singleton_self _), rfl, rfl⟩

end

/-! ## The approval -/

variable {ext : External Glob GlobSet Mitm} {isMatch : Glob → List Char → Prop}
  {setMatch : GlobSet → List Char → Prop} {state after : ConfigState GlobSet Mitm}
  {approved : List Char}

/-- An update leaves the state alone when the list has the host and the other has it not, and else
compiles the updated configuration. -/
theorem addAllowedDomain_ok (hparse : Host.parse host = .ok approved)
    (h : addAllowedDomain ext host state = .ok after) :
    (after = state ∧ ∃ entry ∈ state.config.allowedDomains.getD [],
      normalizeHost entry = approved) ∨
    (after.config = state.config.upsertDomainPermission approved .allow normalizeHost ∧
      after.Compiled ext) := by
  unfold addAllowedDomain at h
  rw [hparse] at h
  dsimp only at h
  unfold updatedState at h
  dsimp only at h
  split at h
  · cases h
  · rename_i hupdate
    cases h
    split at hupdate
    · rename_i hcontains
      rw [Bool.and_eq_true, List.any_eq_true] at hcontains
      obtain ⟨⟨entry, hentry, heq⟩, -⟩ := hcontains
      exact .inl ⟨rfl, entry, hentry, of_decide_eq_true heq⟩
    · simp only [Effect.bind_eq_ok] at hupdate
      obtain ⟨⟨⟩, -, built, -, hnew⟩ := hupdate
      cases hnew
  · rename_i newState hupdate
    cases h
    rw [InFlight.write, if_pos ⟨rfl, rfl⟩]
    split at hupdate
    · cases hupdate
    · simp only [Effect.bind_eq_ok] at hupdate
      obtain ⟨⟨⟩, -, built, hbuild, hnew⟩ := hupdate
      obtain ⟨hconfig, -, hcompiled, -, -⟩ := buildConfigState_spec ext hbuild
      cases hnew
      exact .inr ⟨hconfig, hcompiled⟩

theorem parse_ok (h : Host.parse host = .ok approved) :
    normalizeHost host = approved ∧ approved ≠ [] := by
  unfold Host.parse at h
  dsimp only at h
  split at h
  · cases h
  · rename_i hempty
    cases h
    exact ⟨rfl, fun hnil => hempty (List.isEmpty_iff.2 hnil)⟩

/-- The entries that are the host are compiled as its text, and match it only. -/
theorem matches_iff (laws : LiteralLaws ext isMatch setMatch) (hplain : Plain approved)
    (hstable : normalizeHost approved = approved) {entry text other : List Char} {glob : Glob}
    (hentry : normalizeHost entry = approved) (hother : IsNormalized other)
    (htext : text ∈ compiledTexts entry) (hglob : ext.glob text = .ok glob) :
    isMatch glob other ↔ other = approved := by
  have hstar : '*' ∉ normalizeHost entry := hentry ▸ hplain '*' (by decide)
  obtain ⟨htrim, hlower, -⟩ := (normalizeHost_eq_self_iff approved).1 hstable
  rw [compiledTexts_eq hstar, hentry, htrim, List.mem_singleton] at htext
  subst htext
  rw [laws.literal hplain hglob, hother.lower, hlower]

theorem approvesOnly_of_stable (laws : LiteralLaws ext isMatch setMatch)
    (hparse : Host.parse host = .ok approved) (hplain : Plain approved)
    (hstable : normalizeHost approved = approved) (hstate : state.Compiled ext)
    (h : addAllowedDomain ext host state = .ok after) :
    ApprovesOnly setMatch approved state after := by
  have happroved : IsNormalized approved := ⟨approved, hstable⟩
  obtain ⟨hallow, hdeny⟩ := hstate
  rcases addAllowedDomain_ok hparse h with ⟨rfl, entry, hentry, heq⟩ | ⟨hconfig, hallow', hdeny'⟩
  · refine ⟨fun _ _ hmatch => .inl hmatch, fun _ _ hmatch => .inl hmatch, ?_⟩
    have htext : trim (normalizeHost entry) ∈ compiledTexts entry := by
      rw [compiledTexts_eq (heq ▸ hplain '*' (by decide))]
      exact List.mem_singleton_self _
    obtain ⟨glob, hglob⟩ := text_compiles hallow hentry htext
    exact (setMatch_compiled laws.set hallow).2 ⟨entry, hentry, _, htext, glob, hglob,
      (matches_iff laws hplain hstable heq happroved htext hglob).2 rfl⟩
  · rw [hconfig] at hallow' hdeny'
    refine ⟨fun other hother hmatch => ?_, fun other hother hmatch => ?_, ?_⟩
    · -- what is matched anew is matched by the new pattern
      obtain ⟨entry, hentry, text, htext, glob, hglob, hmatch⟩ :=
        (setMatch_compiled laws.set hallow').1 hmatch
      rcases (mem_domainEntries_upsert _).1 hentry with ⟨hold, -⟩ | ⟨rfl, -⟩
      · exact .inl ((setMatch_compiled laws.set hallow).2
          ⟨entry, hold, text, htext, glob, hglob, hmatch⟩)
      · exact .inr ((matches_iff laws hplain hstable hstable hother htext hglob).1 hmatch)
    · -- an entry that is gone matched the host only
      obtain ⟨entry, hentry, text, htext, glob, hglob, hmatch⟩ :=
        (setMatch_compiled laws.set hdeny).1 hmatch
      by_cases hsame : normalizeHost entry = normalizeHost approved
      · rw [hstable] at hsame
        exact .inr ((matches_iff laws hplain hstable hsame hother htext hglob).1 hmatch)
      · exact .inl ((setMatch_compiled laws.set hdeny').2
          ⟨entry, (mem_domainEntries_upsert _).2 (.inl ⟨hentry, hsame⟩), text, htext, glob, hglob,
            hmatch⟩)
    · have hmem := (mem_domainEntries_upsert state.config).2
        (.inr ⟨rfl, rfl⟩ : _ ∨ (approved = approved ∧ NetworkDomainPermission.allow = .allow))
      have htext : trim (normalizeHost approved) ∈ compiledTexts approved := by
        rw [compiledTexts_eq (hstable.symm ▸ hplain '*' (by decide))]
        exact List.mem_singleton_self _
      obtain ⟨glob, hglob⟩ := text_compiles hallow' hmem htext
      exact (setMatch_compiled laws.set hallow').2 ⟨approved, hmem, _, htext, glob, hglob,
        (matches_iff laws hplain hstable hstable happroved htext hglob).2 rfl⟩

theorem mem_of_mem_hostPart {c : Char} (h : c ∈ hostPart host) : c ∈ host := by
  have htrim : ∀ {c}, c ∈ trim host → c ∈ host := fun hc =>
    (trimStart_suffix _).subset ((trimEnd_prefixOf _).subset hc)
  unfold hostPart at h
  dsimp only at h
  split at h
  · exact htrim (List.mem_of_mem_tail ((List.takeWhile_prefix _).subset h))
  split at h
  · exact htrim ((List.takeWhile_prefix _).subset h)
  · exact htrim h

theorem Plain.normalizeHost (h : Plain host) : Plain (trim (normalizeHost host)) := by
  intro c hc hmem
  have hletter : isAsciiAlphabetic c = false := by
    simp only [List.mem_cons, List.not_mem_nil, or_false] at hc
    rcases hc with rfl | rfl | rfl | rfl | rfl | rfl <;> rfl
  have hhost := (trimStart_suffix _).subset ((trimEnd_prefixOf _).subset hmem)
  rw [normalizeHost_eq, mem_toAsciiLowercase hletter] at hhost
  exact h c hc (mem_of_mem_hostPart ((List.rdropWhile_prefix _ _).subset hhost))

/-- A host that is normalised again into another one is not matched by what is compiled of it. -/
theorem not_approvesOnly_of_unstable (laws : LiteralLaws ext isMatch setMatch)
    (hparse : Host.parse host = .ok approved) (hplain : Plain approved)
    (hunstable : normalizeHost approved ≠ approved) (hdomains : state.config.domains = none)
    (h : addAllowedDomain ext host state = .ok after) :
    ¬ ApprovesOnly setMatch approved state after := by
  intro honly
  obtain ⟨hhost, -⟩ := parse_ok hparse
  have hlower : toAsciiLowercase approved = approved := IsNormalized.lower ⟨host, hhost⟩
  have hnone : state.config.allowedDomains.getD [] = [] := by
    rw [NetworkProxySettings.allowedDomains, NetworkProxySettings.domainEntries, hdomains]
    rfl
  rcases addAllowedDomain_ok hparse h with ⟨-, entry, hentry, -⟩ | ⟨hconfig, hallow, -⟩
  · rw [hnone] at hentry
    cases hentry
  · rw [hconfig] at hallow
    obtain ⟨entry, hentry, text, htext, glob, hglob, hmatch⟩ :=
      (setMatch_compiled laws.set hallow).1 honly.allowed
    rcases (mem_domainEntries_upsert _).1 hentry with ⟨hold, -⟩ | ⟨rfl, -⟩
    · exact absurd (hnone ▸ hold : entry ∈ []) List.not_mem_nil
    · have hplain' := hplain.normalizeHost
      have hstar : '*' ∉ normalizeHost entry := by
        rw [normalizeHost_eq, mem_toAsciiLowercase (by decide)]
        exact fun hmem => hplain '*' (by decide)
          (mem_of_mem_hostPart ((List.rdropWhile_prefix _ _).subset hmem))
      rw [compiledTexts_eq hstar, List.mem_singleton] at htext
      subst htext
      rw [laws.literal hplain' hglob] at hmatch
      have hlength := congrArg List.length hmatch
      rw [length_toAsciiLowercase, length_toAsciiLowercase] at hlength
      obtain ⟨htrim, hdots, hbracket, hcount⟩ :=
        normalizeHost_of_length (hlength.trans_le (length_trim_le _))
      exact hunstable ((normalizeHost_eq_self_iff _).2 ⟨htrim, hlower, hdots, hbracket, hcount⟩)

end

/-! ## Hosts and wildcards -/

/-- Without wildcards a glob matches its own text. -/
theorem wildcardMatch_iff {glob host : List Char} (hany : '?' ∉ glob) (hstar : '*' ∉ glob) :
    wildcardMatch glob host = true ↔ host = glob := by
  induction glob generalizing host with
  | nil => exact List.isEmpty_iff
  | cons c glob ih =>
    rw [List.mem_cons, not_or] at hany hstar
    have hfits : ∀ part, wildcardFits c part = true ↔ part = [c] := by
      intro part
      rw [wildcardFits, decide_eq_false (Ne.symm hstar.1), decide_eq_false (Ne.symm hany.1),
        Bool.false_or, Bool.false_or, Bool.and_eq_true, decide_eq_true_iff, decide_eq_true_iff]
      exact ⟨And.right, fun heq => ⟨heq ▸ rfl, heq⟩⟩
    rw [wildcardMatch_cons]
    constructor
    · rintro ⟨x, y, rfl, hx, hy⟩
      rw [(hfits x).1 hx, (ih hany.2 hstar.2).1 hy]
      rfl
    · rintro rfl
      exact ⟨[c], glob, rfl, (hfits _).2 rfl, (ih hany.2 hstar.2).2 rfl⟩

/-- What a glob of wildcards matches, in capital letters too. -/
def wildcardMatchAnyCase (glob host : List Char) : Bool :=
  wildcardMatch (toAsciiLowercase glob) (toAsciiLowercase host)

theorem literalLaws : LiteralLaws wildcardExternal (wildcardMatchAnyCase · · = true)
    fun set host => set.any (wildcardMatchAnyCase · host) = true where
  set h := by
    cases h
    rw [List.any_eq_true]
  literal htext h := by
    obtain ⟨-, rfl⟩ := wildcardExternal_glob.1 h
    refine wildcardMatch_iff ?_ ?_
    · rw [mem_toAsciiLowercase (by decide)]
      exact htext '?' (by decide)
    · rw [mem_toAsciiLowercase (by decide)]
      exact htext '*' (by decide)

/-- A state without any domains, and what it allows when a pattern is approved. -/
def fresh (domains : Option (List NetworkDomainPermissionEntry)) (allowSet : List (List Char)) :
    ConfigState (List (List Char)) Unit where
  config := { NetworkProxySettings.default with domains }
  allowSet := allowSet
  denySet := []
  mitm := none
  constraints := .default
  blocked := []
  blockedTotal := 0

end Mcodex.NetworkProxy
