import Mcodex.NetworkProxy.Constraints

/-!
# Managed allowlists and the hosts that they bound

The check of the allowed domains compares patterns, the proxy compares hosts with globs. What the
glob compiler promises of its language is `GlobLaws`. The two readings of a pattern agree on what
`ReadAsCompiled` says; where every entry of a configuration meets its managed entries so
(`WithinReading`), the hosts that the configuration allows are among the managed ones
(`allowlist_bounded`). They need not be: a name that `url` rejects is the empty name for the check
(`allowlist_escapes`).
-/

namespace Mcodex.NetworkProxy

open Effect Text

section
variable {Glob GlobSet Mitm : Type}

/-- What is relied on of the glob compiler. A set matches what one of its globs does; texts that
compile on both sides of a dot match the two parts of a host, unless a class or a path component
reaches over the dot; and `?*.` stands for a part that is not empty. -/
structure GlobLaws (ext : External Glob GlobSet Mitm) (isMatch : Glob → List Char → Prop)
    (setMatch : GlobSet → List Char → Prop) : Prop where
  set {globs : List Glob} {set : GlobSet} {host : List Char} (h : ext.globSet globs = .ok set) :
    setMatch set host ↔ ∃ glob ∈ globs, isMatch glob host
  dot {front domain host : List Char} {whole frontGlob domainGlob : Glob}
    (hwhole : ext.glob (front ++ '.' :: domain) = .ok whole)
    (hfront : ext.glob front = .ok frontGlob) (hdomain : ext.glob domain = .ok domainGlob)
    (hclass : ']' ∉ domain) (hpath : '/' ∉ domain) (h : isMatch whole host) :
    ∃ x d, host = x ++ '.' :: d ∧ isMatch frontGlob x ∧ isMatch domainGlob d
  subdomain {domain : List Char} {whole : Glob}
    (h : ext.glob ("?*.".toList ++ domain) = .ok whole) (hpath : '/' ∉ domain) :
    ∃ domainGlob, ext.glob domain = .ok domainGlob ∧
      ∀ x d, x ≠ [] → isMatch domainGlob d → isMatch whole (x ++ '.' :: d)

/-! ## The texts of a pattern -/

namespace DomainPattern

def domain : DomainPattern → List Char
  | apexAndSubdomains domain | subdomainsOnly domain | exact domain => domain

/-- The pattern as comparisons of domains see it. -/
def normalized : DomainPattern → DomainPattern
  | apexAndSubdomains domain => .apexAndSubdomains (normalizeDomain domain)
  | subdomainsOnly domain => .subdomainsOnly (normalizeDomain domain)
  | exact domain => .exact (normalizeDomain domain)

def texts : DomainPattern → List (List Char)
  | exact domain => [domain]
  | subdomainsOnly domain => ["?*.".toList ++ domain]
  | apexAndSubdomains domain => [domain, "?*.".toList ++ domain]

end DomainPattern

theorem expandDomainPattern_eq (pattern : List Char) :
    expandDomainPattern pattern = (DomainPattern.parse pattern).texts := by
  unfold expandDomainPattern
  cases DomainPattern.parse pattern <;> rfl

/-- The texts that the proxy compiles for an entry. -/
def compiledTexts (entry : List Char) : List (List Char) :=
  expandDomainPattern (normalizePattern entry)

/-- A domain is its parent or goes on in front of it. -/
theorem isSubdomainOrEqual_iff {child parent : List Char} :
    isSubdomainOrEqual child parent = true ↔ normalizeDomain child = normalizeDomain parent ∨
      ∃ x, normalizeDomain child = x ++ '.' :: normalizeDomain parent := by
  rw [isSubdomainOrEqual, Bool.or_eq_true, decide_eq_true_iff, List.isSuffixOf_iff_suffix]
  exact or_congr_right (exists_congr fun x => eq_comm)

theorem isStrictSubdomain_iff {child parent : List Char} :
    isStrictSubdomain child parent = true ↔ normalizeDomain child ≠ normalizeDomain parent ∧
      ∃ x, normalizeDomain child = x ++ '.' :: normalizeDomain parent := by
  rw [isStrictSubdomain, Bool.and_eq_true, decide_eq_true_iff, List.isSuffixOf_iff_suffix]
  exact and_congr_right' (exists_congr fun x => eq_comm)

/-- Where a domain goes on in front of its parent, so do all texts of its pattern. -/
theorem DomainPattern.text_goes_on {pattern : DomainPattern} {text x parent : List Char}
    (htext : text ∈ pattern.texts) (hdomain : pattern.domain = x ++ '.' :: parent) :
    ∃ front, text = front ++ '.' :: parent := by
  have hwild : "?*.".toList ++ pattern.domain = ("?*.".toList ++ x) ++ '.' :: parent := by
    rw [hdomain, List.append_assoc]
  cases pattern with
  | exact domain =>
    rw [List.mem_singleton.1 htext]
    exact ⟨x, hdomain⟩
  | subdomainsOnly domain =>
    rw [List.mem_singleton.1 htext]
    exact ⟨_, hwild⟩
  | apexAndSubdomains domain =>
    rcases List.mem_pair.1 htext with rfl | rfl
    · exact ⟨x, hdomain⟩
    · exact ⟨_, hwild⟩

/-- A text of an allowed pattern is a text of the managed one, or goes on in front of its domain
where subdomains are managed. -/
theorem texts_of_allows {managed candidate : DomainPattern} (h : managed.allows candidate = true)
    {text : List Char} (htext : text ∈ candidate.normalized.texts) :
    text ∈ managed.normalized.texts ∨
      (∃ front, text = front ++ '.' :: managed.normalized.domain) ∧
        "?*.".toList ++ managed.normalized.domain ∈ managed.normalized.texts := by
  cases managed with
  | exact domain =>
    cases candidate with
    | exact child =>
      have heq : normalizeDomain child = normalizeDomain domain := of_decide_eq_true h
      refine .inl ?_
      rwa [DomainPattern.normalized, ← heq]
    | subdomainsOnly child => cases h
    | apexAndSubdomains child => cases h
  | subdomainsOnly domain =>
    refine or_iff_not_imp_left.2 fun hnew => ⟨?_, List.mem_singleton_self _⟩
    cases candidate with
    | exact child =>
      obtain ⟨-, x, hx⟩ := isStrictSubdomain_iff.1 h
      exact DomainPattern.text_goes_on htext hx
    | subdomainsOnly child =>
      rcases isSubdomainOrEqual_iff.1 h with heq | ⟨x, hx⟩
      · rw [DomainPattern.normalized, heq] at htext
        exact absurd htext hnew
      · exact DomainPattern.text_goes_on htext hx
    | apexAndSubdomains child =>
      obtain ⟨-, x, hx⟩ := isStrictSubdomain_iff.1 h
      exact DomainPattern.text_goes_on htext hx
  | apexAndSubdomains domain =>
    refine or_iff_not_imp_left.2 fun hnew => ⟨?_, List.mem_cons_of_mem _ List.mem_cons_self⟩
    have hbelow : isSubdomainOrEqual candidate.domain domain = true := by cases candidate <;> exact h
    rcases isSubdomainOrEqual_iff.1 hbelow with heq | ⟨x, hx⟩
    · refine absurd ?_ hnew
      rw [DomainPattern.normalized, ← heq]
      cases candidate with
      | exact child => exact List.mem_cons.2 (.inl (List.mem_singleton.1 htext))
      | subdomainsOnly child => exact List.mem_cons_of_mem _ htext
      | apexAndSubdomains child => exact htext
    · refine DomainPattern.text_goes_on (x := x) htext ?_
      cases candidate <;> exact hx

/-! ## Compiled lists -/

section
variable {ext : External Glob GlobSet Mitm}

/-- The globs are those of the texts. -/
structure Compiles (ext : External Glob GlobSet Mitm) (seen : List (List Char) × List Glob) :
    Prop where
  glob : ∀ text ∈ seen.1, ∃ glob ∈ seen.2, ext.glob text = .ok glob
  text : ∀ glob ∈ seen.2, ∃ text ∈ seen.1, ext.glob text = .ok glob

/-- A loop collects the texts that its steps collect. -/
theorem Compiles.foldlM {α : Type} {as : List α} {seen seen' : List (List Char) × List Glob}
    {f : List (List Char) × List Glob → α → Except String (List (List Char) × List Glob)}
    (h : as.foldlM f seen = .ok seen') (hseen : Compiles ext seen) (out : α → List (List Char))
    (hstep : ∀ {seen a seen'}, f seen a = .ok seen' → Compiles ext seen →
      Compiles ext seen' ∧ ∀ text, text ∈ seen'.1 ↔ text ∈ seen.1 ∨ text ∈ out a) :
    Compiles ext seen' ∧ ∀ text, text ∈ seen'.1 ↔ text ∈ seen.1 ∨ ∃ a ∈ as, text ∈ out a := by
  induction as generalizing seen with
  | nil =>
    cases h
    exact ⟨hseen, fun text => by simp⟩
  | cons a as ih =>
    rw [List.foldlM_cons, Effect.bind_eq_ok] at h
    obtain ⟨next, hnext, hrest⟩ := h
    obtain ⟨hcompiles, hmem⟩ := hstep hnext hseen
    obtain ⟨hcompiles', hmem'⟩ := ih hrest hcompiles
    refine ⟨hcompiles', fun text => ?_⟩
    rw [hmem', hmem, or_assoc, List.exists_mem_cons_iff]

theorem addCandidate_spec {seen seen' : List (List Char) × List Glob} {candidate : List Char}
    (h : addCandidate ext seen candidate = .ok seen') (hseen : Compiles ext seen) :
    Compiles ext seen' ∧ ∀ text, text ∈ seen'.1 ↔ text ∈ seen.1 ∨ text ∈ [candidate] := by
  unfold addCandidate at h
  split at h
  · next hold =>
    cases h
    refine ⟨hseen, fun text => (or_iff_left_of_imp fun htext => ?_).symm⟩
    rwa [List.mem_singleton.1 htext]
  · split at h
    · next glob hglob =>
      cases h
      refine ⟨⟨fun text htext => ?_, fun g hg => ?_⟩, fun text => List.mem_append⟩
      · rcases List.mem_append.1 htext with htext | htext
        · obtain ⟨g, hg, hcompile⟩ := hseen.glob text htext
          exact ⟨g, List.mem_append_left _ hg, hcompile⟩
        · rw [List.mem_singleton.1 htext]
          exact ⟨glob, List.mem_append_right _ (List.mem_singleton_self _), hglob⟩
      · rcases List.mem_append.1 hg with hg | hg
        · obtain ⟨text, htext, hcompile⟩ := hseen.text g hg
          exact ⟨text, List.mem_append_left _ htext, hcompile⟩
        · rw [List.mem_singleton.1 hg]
          exact ⟨candidate, List.mem_append_right _ (List.mem_singleton_self _), hglob⟩
    · cases h

theorem addPattern_spec {globalWildcard : GlobalWildcard} {seen seen' : List (List Char) × List Glob}
    {pattern : List Char} (h : addPattern ext globalWildcard seen pattern = .ok seen')
    (hseen : Compiles ext seen) :
    Compiles ext seen' ∧ ∀ text, text ∈ seen'.1 ↔ text ∈ seen.1 ∨ text ∈ compiledTexts pattern := by
  unfold addPattern at h
  split at h
  · cases h
  · obtain ⟨hcompiles, hmem⟩ := Compiles.foldlM h hseen (fun text => [text]) addCandidate_spec
    refine ⟨hcompiles, fun text => ?_⟩
    rw [hmem, compiledTexts]
    simp only [List.mem_singleton, exists_eq_right']

/-- A compiled list is the set of the globs of its texts. -/
theorem compileGlobsetWithPolicy_spec {patterns : List (List Char)} {set : GlobSet}
    {globalWildcard : GlobalWildcard}
    (h : compileGlobsetWithPolicy ext patterns globalWildcard = .ok set) :
    ∃ seen, Compiles ext seen ∧ ext.globSet seen.2 = .ok set ∧
      ∀ text, text ∈ seen.1 ↔ ∃ pattern ∈ patterns, text ∈ compiledTexts pattern := by
  rw [compileGlobsetWithPolicy, Effect.bind_eq_ok] at h
  obtain ⟨seen, hseen, hset⟩ := h
  have hnil : Compiles ext ([], []) := ⟨fun _ h => (nomatch h), fun _ h => nomatch h⟩
  obtain ⟨hcompiles, hmem⟩ := Compiles.foldlM hseen hnil compiledTexts addPattern_spec
  refine ⟨seen, hcompiles, hset, fun text => ?_⟩
  rw [hmem, or_iff_right List.not_mem_nil]

variable {isMatch : Glob → List Char → Prop} {setMatch : GlobSet → List Char → Prop}

/-- A compiled list matches what one of its texts does, as a set of globs does. -/
theorem setMatch_compiled {patterns : List (List Char)} {set : GlobSet}
    {globalWildcard : GlobalWildcard} {host : List Char}
    (hunion : ∀ {globs : List Glob}, ext.globSet globs = .ok set →
      (setMatch set host ↔ ∃ glob ∈ globs, isMatch glob host))
    (h : compileGlobsetWithPolicy ext patterns globalWildcard = .ok set) :
    setMatch set host ↔ ∃ pattern ∈ patterns, ∃ text ∈ compiledTexts pattern, ∃ glob,
      ext.glob text = .ok glob ∧ isMatch glob host := by
  obtain ⟨seen, hcompiles, hset, hmem⟩ := compileGlobsetWithPolicy_spec h
  rw [hunion hset]
  constructor
  · rintro ⟨glob, hglob, hmatch⟩
    obtain ⟨text, htext, hcompile⟩ := hcompiles.text glob hglob
    obtain ⟨pattern, hpattern, hin⟩ := (hmem text).1 htext
    exact ⟨pattern, hpattern, text, hin, glob, hcompile, hmatch⟩
  · rintro ⟨pattern, hpattern, text, hin, glob, hcompile, hmatch⟩
    obtain ⟨glob', hglob, hcompile'⟩ := hcompiles.glob text ((hmem text).2 ⟨pattern, hpattern, hin⟩)
    cases hcompile.symm.trans hcompile'
    exact ⟨glob, hglob, hmatch⟩

theorem GlobLaws.compiled (laws : GlobLaws ext isMatch setMatch) {patterns : List (List Char)}
    {set : GlobSet} (h : compileAllowlistGlobset ext patterns = .ok set) (host : List Char) :
    setMatch set host ↔ ∃ pattern ∈ patterns, ∃ text ∈ compiledTexts pattern, ∃ glob,
      ext.glob text = .ok glob ∧ isMatch glob host := setMatch_compiled laws.set h

/-- Every text of a compiled list compiles. -/
theorem text_compiles {patterns : List (List Char)} {set : GlobSet}
    {globalWildcard : GlobalWildcard}
    (h : compileGlobsetWithPolicy ext patterns globalWildcard = .ok set) {pattern text : List Char}
    (hpattern : pattern ∈ patterns) (htext : text ∈ compiledTexts pattern) :
    ∃ glob, ext.glob text = .ok glob := by
  obtain ⟨seen, hcompiles, -, hmem⟩ := compileGlobsetWithPolicy_spec h
  obtain ⟨glob, -, hglob⟩ := hcompiles.glob text ((hmem text).2 ⟨pattern, hpattern, htext⟩)
  exact ⟨glob, hglob⟩

/-! ## Where the check reads a pattern as the proxy does -/

variable (ext)

/-- The domain that is compared is the one that is compiled. -/
def ReadAsCompiled (entry : List Char) : Prop :=
  (DomainPattern.parseForConstraints ext entry).normalized =
    DomainPattern.parse (normalizePattern entry)

instance (entry : List Char) : Decidable (ReadAsCompiled ext entry) :=
  inferInstanceAs (Decidable (_ = _))

/-- Globs see the entry below the managed one as the check does: no class or path component of the
managed domain reaches in front of it, and what the entry has in front of it is not empty. -/
structure Below (isMatch : Glob → List Char → Prop) (managed entry : List Char) : Prop where
  entryRead : ReadAsCompiled ext entry
  managedRead : ReadAsCompiled ext managed
  noClass : ']' ∉ (DomainPattern.parse (normalizePattern managed)).domain
  noPath : '/' ∉ (DomainPattern.parse (normalizePattern managed)).domain
  front : ∀ front, front ++ '.' :: (DomainPattern.parse (normalizePattern managed)).domain ∈
    compiledTexts entry → ∃ glob, ext.glob front = .ok glob ∧ ¬ isMatch glob []

/-- Each entry is compiled as a managed one is, or is below the managed ones that allow it. -/
def WithinReading (isMatch : Glob → List Char → Prop) (managed entries : List (List Char)) :
    Prop :=
  ∀ entry ∈ entries, (∃ m ∈ managed, normalizePattern m = normalizePattern entry) ∨
    ∀ m ∈ managed, (DomainPattern.parseForConstraints ext m).allows
      (DomainPattern.parseForConstraints ext entry) = true → Below ext isMatch m entry

variable {ext}

theorem validate_eq_ok {valid : Bool} {fieldName : String} {candidate allowed : Shown}
    (h : validate valid fieldName candidate allowed = .ok ()) : valid = true := by
  cases valid with
  | true => rfl
  | false => cases h

/-- Without a word on expansion, a managed entry allows each entry of a valid configuration. -/
theorem managed_allows {config : NetworkProxyConfig} {constraints : NetworkProxyConstraints}
    {managed : List (List Char)}
    (hvalid : validatePolicyAgainstConstraints ext config constraints = .ok ())
    (hmanaged : constraints.allowedDomains = some managed)
    (hexpansion : constraints.allowlistExpansionEnabled = none) :
    ∀ entry ∈ config.allowedDomains.getD [], ∃ m ∈ managed,
      (DomainPattern.parseForConstraints ext m).allows
        (DomainPattern.parseForConstraints ext entry) = true := by
  unfold validatePolicyAgainstConstraints at hvalid
  simp only [Effect.bind_eq_ok] at hvalid
  obtain ⟨⟨⟩, -, ⟨⟩, -, ⟨⟩, -, ⟨⟩, -, ⟨⟩, -, ⟨⟩, -, ⟨⟩, -, ⟨⟩, hallowed, -⟩ := hvalid
  unfold validateAllowedDomains at hallowed
  rw [hmanaged, hexpansion] at hallowed
  simp only [Effect.bind_eq_ok] at hallowed
  obtain ⟨⟨⟩, -, hcheck⟩ := hallowed
  intro entry hentry
  have hvalidEntry := List.filter_eq_nil_iff.1 (List.isEmpty_iff.1 (validate_eq_ok hcheck)) entry
    hentry
  rw [Bool.not_eq_true', Bool.not_eq_false, List.any_map, List.any_eq_true] at hvalidEntry
  exact hvalidEntry

/-- What an entry below a managed one allows, the managed one allows. -/
theorem Below.matches {isMatch : Glob → List Char → Prop} {setMatch : GlobSet → List Char → Prop}
    (laws : GlobLaws ext isMatch setMatch) {managed entry text host : List Char} {glob : Glob}
    (hallows : (DomainPattern.parseForConstraints ext managed).allows
      (DomainPattern.parseForConstraints ext entry) = true)
    (h : Below ext isMatch managed entry) (htext : text ∈ compiledTexts entry)
    (hglob : ext.glob text = .ok glob) (hmatch : isMatch glob host)
    (hcompile : ∀ text ∈ compiledTexts managed, ∃ glob, ext.glob text = .ok glob) :
    ∃ text ∈ compiledTexts managed, ∃ glob, ext.glob text = .ok glob ∧ isMatch glob host := by
  have htexts := htext
  rw [compiledTexts, expandDomainPattern_eq, ← h.entryRead] at htexts
  have hor := texts_of_allows hallows htexts
  rw [h.managedRead, ← expandDomainPattern_eq] at hor
  rcases hor with hsame | ⟨⟨front, rfl⟩, hwild⟩
  · exact ⟨text, hsame, glob, hglob, hmatch⟩
  · obtain ⟨whole, hwhole⟩ := hcompile _ hwild
    obtain ⟨domainGlob, hdomain, hsub⟩ := laws.subdomain hwhole h.noPath
    obtain ⟨frontGlob, hfront, hempty⟩ := h.front front htext
    obtain ⟨x, d, rfl, hx, hd⟩ := laws.dot hglob hfront hdomain h.noClass h.noPath hmatch
    refine ⟨_, hwild, whole, hwhole, hsub x d ?_ hd⟩
    rintro rfl
    exact hempty hx

/-- A managed allowlist bounds the hosts of a valid configuration whose entries the check reads as
the proxy compiles them. -/
theorem allowlist_bounded {isMatch : Glob → List Char → Prop} {setMatch : GlobSet → List Char → Prop}
    (laws : GlobLaws ext isMatch setMatch) {config : NetworkProxyConfig}
    {constraints : NetworkProxyConstraints} {managed : List (List Char)} {managedSet : GlobSet}
    {state : ConfigState GlobSet Mitm} (hmanaged : constraints.allowedDomains = some managed)
    (hexpansion : constraints.allowlistExpansionEnabled = none)
    (hvalid : validatePolicyAgainstConstraints ext config constraints = .ok ())
    (hstate : buildConfigState ext config constraints = .ok state)
    (hset : compileAllowlistGlobset ext managed = .ok managedSet)
    (hreading : WithinReading ext isMatch managed (config.allowedDomains.getD []))
    (host : List Char) (hhost : setMatch state.allowSet host) : setMatch managedSet host := by
  obtain ⟨rfl, -, ⟨hallowSet, -⟩, -, -⟩ := buildConfigState_spec ext hstate
  obtain ⟨entry, hentry, text, htext, glob, hglob, hmatch⟩ := (laws.compiled hallowSet host).1 hhost
  refine (laws.compiled hset host).2 ?_
  rcases hreading entry hentry with ⟨m, hm, hpattern⟩ | hbelow
  · refine ⟨m, hm, text, ?_, glob, hglob, hmatch⟩
    rwa [compiledTexts, hpattern]
  · obtain ⟨m, hm, hallows⟩ := managed_allows hvalid hmanaged hexpansion entry hentry
    exact ⟨m, hm, (hbelow m hm hallows).matches laws hallows htext hglob hmatch fun _ =>
      text_compiles hset hm⟩

end

end

/-! ## Globs of wildcards -/

/-- The part of a host that a character of a glob stands for. -/
def wildcardFits (c : Char) (part : List Char) : Bool :=
  c = '*' || part.length = 1 && (c = '?' || part = [c])

/-- Globs in which only `?` and `*` are special. -/
def wildcardMatch : List Char → List Char → Bool
  | [], host => host.isEmpty
  | c :: glob, host => (List.range (host.length + 1)).any fun i =>
    wildcardFits c (host.take i) && wildcardMatch glob (host.drop i)

theorem wildcardMatch_cons {c : Char} {glob host : List Char} :
    wildcardMatch (c :: glob) host = true ↔
      ∃ x y, host = x ++ y ∧ wildcardFits c x = true ∧ wildcardMatch glob y = true := by
  rw [wildcardMatch, List.any_eq_true]
  constructor
  · rintro ⟨i, -, hi⟩
    exact ⟨host.take i, host.drop i, (List.take_append_drop i host).symm, Bool.and_eq_true_iff.1 hi⟩
  · rintro ⟨x, y, rfl, h⟩
    refine ⟨x.length, List.mem_range.2 ?_, Bool.and_eq_true_iff.2 ?_⟩
    · rw [List.length_append]
      omega
    · rwa [List.take_left, List.drop_left]

theorem wildcardMatch_append {front glob host : List Char} :
    wildcardMatch (front ++ glob) host = true ↔
      ∃ x y, host = x ++ y ∧ wildcardMatch front x = true ∧ wildcardMatch glob y = true := by
  induction front generalizing host with
  | nil => simp [wildcardMatch]
  | cons c front ih =>
    rw [List.cons_append, wildcardMatch_cons]
    simp only [ih, wildcardMatch_cons]
    constructor
    · rintro ⟨x, _, rfl, hx, y, z, rfl, hy, hz⟩
      exact ⟨x ++ y, z, (List.append_assoc x y z).symm, ⟨x, y, rfl, hx, hy⟩, hz⟩
    · rintro ⟨_, z, rfl, ⟨x, y, rfl, hx, hy⟩, hz⟩
      exact ⟨x, y ++ z, List.append_assoc x y z, hx, y, z, rfl, hy, hz⟩

/-- The text has more than wildcards that means something in a glob. -/
def hasGlobSyntax (text : List Char) : Bool :=
  text.any ['[', ']', '\x7b', '\x7d', '\\', '/'].contains

/-- `url` and a glob compiler on texts without a special meaning but that of wildcards. -/
def wildcardExternal : External (List Char) (List (List Char)) Unit where
  urlHost host := if '[' ∈ host ∨ ']' ∈ host then none else some (toAsciiLowercase host)
  glob text := if hasGlobSyntax text then .error "more than wildcards" else .ok text
  globSet globs := .ok globs
  mitmState _ := .ok ()

theorem wildcardExternal_glob {text glob : List Char} :
    wildcardExternal.glob text = .ok glob ↔ hasGlobSyntax text = false ∧ text = glob := by
  dsimp only [wildcardExternal]
  cases hasGlobSyntax text with
  | true => exact ⟨fun heq => (nomatch heq), fun heq => nomatch heq.1⟩
  | false => exact ⟨fun heq => ⟨rfl, Except.ok.inj heq⟩, fun heq => congrArg Except.ok heq.2⟩

theorem wildcardLaws : GlobLaws wildcardExternal (wildcardMatch · · = true)
    fun set host => set.any (wildcardMatch · host) = true where
  set h := by
    cases h
    rw [List.any_eq_true]
  dot hwhole hfront hdomain _ _ h := by
    obtain ⟨-, rfl⟩ := wildcardExternal_glob.1 hwhole
    obtain ⟨-, rfl⟩ := wildcardExternal_glob.1 hfront
    obtain ⟨-, rfl⟩ := wildcardExternal_glob.1 hdomain
    obtain ⟨x, r, rfl, hx, hr⟩ := wildcardMatch_append.1 h
    obtain ⟨y, d, rfl, hy, hd⟩ := wildcardMatch_cons.1 hr
    have hdot : y.length = 1 ∧ y = ['.'] := by simpa [wildcardFits] using hy
    rw [hdot.2]
    exact ⟨x, d, rfl, hx, hd⟩
  subdomain h _ := by
    obtain ⟨hplain, rfl⟩ := wildcardExternal_glob.1 h
    rw [hasGlobSyntax, List.any_append, Bool.or_eq_false_iff] at hplain
    refine ⟨_, wildcardExternal_glob.2 ⟨hplain.2, rfl⟩, fun x d hx hd => ?_⟩
    obtain ⟨c, x, rfl⟩ := List.exists_cons_of_ne_nil hx
    have hdot : wildcardMatch ('.' :: _) ('.' :: d) = true :=
      wildcardMatch_cons.2 ⟨['.'], d, rfl, rfl, hd⟩
    have hstar := wildcardMatch_cons.2 ⟨x, '.' :: d, rfl, (rfl : wildcardFits '*' x = true), hdot⟩
    exact wildcardMatch_cons.2 ⟨[c], x ++ '.' :: d, rfl, rfl, hstar⟩

/-- A configuration that allows one pattern. -/
def allowing (pattern : String) : NetworkProxyConfig :=
  { NetworkProxySettings.default with domains := some [⟨pattern.toList, .allow⟩] }

def managing (pattern : String) : NetworkProxyConstraints :=
  { NetworkProxyConstraints.default with allowedDomains := some [pattern.toList] }

theorem allowing_api_within : WithinReading wildcardExternal (wildcardMatch · · = true)
    ["*.example.com".toList] ((allowing "api.example.com").allowedDomains.getD []) := by
  intro entry hentry
  have hentry : entry ∈ ["api.example.com".toList] := hentry
  rw [List.mem_singleton.1 hentry]
  refine .inr fun m hm _ => ?_
  rw [List.mem_singleton.1 hm]
  refine ⟨by decide, by decide, by decide, by decide, fun front hfront => ?_⟩
  have happ : front ++ ".example.com".toList = "api".toList ++ ".example.com".toList :=
    List.mem_singleton.1 hfront
  rw [List.append_cancel_right happ]
  exact ⟨_, rfl, by decide⟩

theorem allowlist_bounded_subdomain :
    ["?*.example.com".toList].any (wildcardMatch · "api.example.com".toList) = true := by
  have hmanaged : (managing "*.example.com").allowedDomains = some ["*.example.com".toList] := rfl
  exact allowlist_bounded wildcardLaws hmanaged rfl rfl rfl rfl allowing_api_within
    "api.example.com".toList (by decide)

/-- `url` rejects both entries, and the check takes them for one. -/
theorem allowlist_escapes : ¬ ∀ (config : NetworkProxyConfig)
    (constraints : NetworkProxyConstraints) (managed managedSet : List (List Char))
    (state : ConfigState (List (List Char)) Unit), constraints.allowedDomains = some managed →
    constraints.allowlistExpansionEnabled = none →
    validatePolicyAgainstConstraints wildcardExternal config constraints = .ok () →
    buildConfigState wildcardExternal config constraints = .ok state →
    compileAllowlistGlobset wildcardExternal managed = .ok managedSet →
    ∀ host, state.allowSet.any (wildcardMatch · host) = true →
      managedSet.any (wildcardMatch · host) = true := by
  intro h
  have hmatch := h (allowing "[::2]:80") (managing "[::1]:80") _ ["::1".toList]
    ⟨allowing "[::2]:80", ["::2".toList], [], none, managing "[::1]:80", [], 0⟩ rfl rfl rfl rfl rfl
    "::2".toList (by decide)
  exact absurd hmatch (by decide)

end Mcodex.NetworkProxy
