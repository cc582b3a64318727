import Mcodex.ExecPolicy.Policy
import Mathlib.Order.MinMax

/-!
# What added rules can loosen

Matching is in two stages: the rules of a command's own first token hide those of its program's
base name, and an overlay replaces the `host_executable` entries of the names it lists only. So the
rules that an overlay adds are as strict as alone, except where the base policy hides them from the
command (`Hides`); and an allow rule loosens the commands that it matches by their own first token
while only rules of the base name matched them before.
-/

namespace Mcodex.ExecPolicy

open Table

namespace Policy

section
variable {p overlay : Policy} {host : Host} {cmd : List String} {m : RuleMatch}

/-! ## Both stages, match by match -/

theorem mem_exactMatches : m ∈ p.exactMatches cmd ↔ ∃ first, cmd.head? = some first ∧
    ∃ rule ∈ p.rulesByProgram.getVec first, rule.matches cmd = some m := by
  cases cmd with
  | nil => simp [exactMatches, matchExactRules]
  | cons first rest => simp [exactMatches_cons]

theorem matchHostExecutableRules_none (h : resolveProgram host cmd = none) :
    p.matchHostExecutableRules host cmd = [] := by
  cases cmd with
  | nil => rfl
  | cons first rest =>
    unfold matchHostExecutableRules
    unfold resolveProgram at h
    cases hprogram : AbsolutePathBuf.tryFrom host first with
    | none => simp [hprogram]
    | some program =>
      cases hbasename : executablePathLookupKey program with
      | none => simp [hprogram, hbasename]
      | some basename => simp [hprogram, hbasename] at h

theorem matchHostExecutableRules_some {program : AbsolutePathBuf} {basename : String}
    (h : resolveProgram host cmd = some (program, basename)) :
    p.matchHostExecutableRules host cmd =
      if (p.hostExecutablesByName.lookup basename).any fun paths =>
          !paths.any (· == program) then []
      else ((p.rulesByProgram.getVec basename).filterMap (·.matches (basename :: cmd.tail))).map
        (RuleMatch.withResolvedProgram program) := by
  cases cmd with
  | nil => cases h
  | cons first rest =>
    unfold resolveProgram at h
    cases hprogram : AbsolutePathBuf.tryFrom host first with
    | none => simp [hprogram] at h
    | some program' =>
      cases hbasename : executablePathLookupKey program' with
      | none => simp [hprogram, hbasename] at h
      | some basename' =>
        simp only [List.head?_cons, Option.bind_eq_bind, Option.bind_some, hprogram, hbasename,
          Option.pure_def, Option.some.injEq, Prod.mk.injEq] at h
        obtain ⟨rfl, rfl⟩ := h
        unfold matchHostExecutableRules MultiMap.getVec
        simp only [hprogram, hbasename]
        cases p.rulesByProgram.lookup basename' with
        | none => simp
        | some rules => rfl

theorem mem_matchHostExecutableRules : m ∈ p.matchHostExecutableRules host cmd ↔
    ∃ program basename, resolveProgram host cmd = some (program, basename) ∧
      p.Admits program basename ∧ ∃ rule ∈ p.rulesByProgram.getVec basename,
        ∃ m₀, rule.matches (basename :: cmd.tail) = some m₀ ∧
          m = m₀.withResolvedProgram program := by
  cases hresolve : resolveProgram host cmd with
  | none => simp [matchHostExecutableRules_none hresolve]
  | some target =>
    rcases target with ⟨program, basename⟩
    rw [matchHostExecutableRules_some hresolve]
    have hadmits : (p.hostExecutablesByName.lookup basename).any
        (fun paths => !paths.any (· == program)) = true ↔ ¬ p.Admits program basename := by
      unfold Admits
      cases p.hostExecutablesByName.lookup basename with
      | none => simp
      | some paths =>
        simp only [Option.any_some, Bool.not_eq_true', List.any_eq_false, beq_iff_eq,
          Option.some.injEq, forall_eq']
        exact ⟨fun h hmem => h _ hmem rfl, fun h x hx heq => h (heq ▸ hx)⟩
    constructor
    · intro hm
      split at hm
      · cases hm
      · obtain ⟨m₀, hm₀, rfl⟩ := List.mem_map.1 hm
        obtain ⟨rule, hrule, hmatch⟩ := List.mem_filterMap.1 hm₀
        exact ⟨program, basename, rfl, not_not.1 fun h => ‹¬ _› (hadmits.2 h), rule, hrule, m₀,
          hmatch, rfl⟩
    · rintro ⟨_, _, heq, hadmit, rule, hrule, m₀, hmatch, rfl⟩
      cases heq
      rw [if_neg fun h => hadmits.1 h hadmit]
      exact List.mem_map.2 ⟨m₀, List.mem_filterMap.2 ⟨rule, hrule, hmatch⟩, rfl⟩

theorem matches_of_exact {fallback : Option (List String → Decision)} {options : MatchOptions}
    (h : p.exactMatches cmd ≠ []) :
    p.matchesForCommandWithOptions host cmd fallback options = p.exactMatches cmd := by
  unfold exactMatches at h ⊢
  unfold matchesForCommandWithOptions
  cases hexact : p.matchExactRules cmd with
  | none => simp [hexact] at h
  | some ms =>
    rw [hexact] at h
    cases ms with
    | nil => exact absurd rfl h
    | cons m ms => rfl

theorem filter_matchExactRules (h : p.exactMatches cmd = []) :
    (p.matchExactRules cmd).filter (!·.isEmpty) = none := by
  unfold exactMatches at h
  cases hexact : p.matchExactRules cmd with
  | none => rfl
  | some ms =>
    rw [hexact] at h
    obtain rfl : ms = [] := h
    rfl

theorem matches_of_host {fallback : Option (List String → Decision)}
    (h : p.exactMatches cmd = []) (h' : p.matchHostExecutableRules host cmd ≠ []) :
    p.matchesForCommandWithOptions host cmd fallback ⟨true⟩ =
      p.matchHostExecutableRules host cmd := by
  unfold matchesForCommandWithOptions
  rw [filter_matchExactRules h]
  cases hhost : p.matchHostExecutableRules host cmd with
  | nil => exact absurd hhost h'
  | cons m ms => rfl

theorem mem_host_of_ruleMatches (h : p.exactMatches cmd = []) (hm : m ∈ p.ruleMatches host cmd) :
    m ∈ p.matchHostExecutableRules host cmd := by
  unfold ruleMatches at hm
  by_cases hne : p.matchHostExecutableRules host cmd = []
  · unfold matchesForCommandWithOptions at hm
    rw [filter_matchExactRules h, hne] at hm
    cases hm
  · rwa [matches_of_host h hne] at hm

theorem matches_of_none {fallback : List String → Decision}
    (h : p.exactMatches cmd = []) (h' : p.matchHostExecutableRules host cmd = []) :
    p.matchesForCommandWithOptions host cmd (some fallback) ⟨true⟩ =
      [.heuristicsRuleMatch cmd (fallback cmd)] := by
  unfold matchesForCommandWithOptions
  rw [filter_matchExactRules h, h']
  rfl

/-! ## The strictest match -/

/-- The strictest decision among the prefix rules that match a command, when host executables are
resolved. -/
def strictest (p : Policy) (host : Host) (cmd : List String) : Option Decision :=
  ((p.ruleMatches host cmd).map RuleMatch.decision).max?

theorem strictest_eq_some {d : Decision} : p.strictest host cmd = some d ↔
    (∃ m ∈ p.ruleMatches host cmd, m.decision = d) ∧
      ∀ m ∈ p.ruleMatches host cmd, m.decision ≤ d := by
  unfold strictest
  rw [List.max?_eq_some_iff, List.mem_map, List.forall_mem_map]

/-- A command is evaluated to its strictest match, a rule's or the heuristics'. -/
theorem exists_checkWithOptions (p : Policy) (host : Host) (cmd : List String)
    (fallback : List String → Decision) (options : MatchOptions) :
    ∃ e, p.checkWithOptions host cmd fallback options = some e ∧ ∀ d, d ≤ e.decision ↔
      ∃ m ∈ p.matchesForCommandWithOptions host cmd (some fallback) options, d ≤ m.decision := by
  unfold checkWithOptions Evaluation.fromMatches
  generalize hms : p.matchesForCommandWithOptions host cmd (some fallback) options = ms
  have hne : ms ≠ [] := by
    rintro rfl
    unfold matchesForCommandWithOptions at hms
    dsimp only at hms
    generalize Option.getD _ [] = matchedRules at hms
    cases matchedRules <;> cases hms
  cases hmax : (ms.map RuleMatch.decision).max? with
  | none => exact absurd (List.map_eq_nil_iff.1 (List.max?_eq_none_iff.1 hmax)) hne
  | some d =>
    obtain ⟨hmem, hle⟩ := List.max?_eq_some_iff.1 hmax
    obtain ⟨m, hm, rfl⟩ := List.mem_map.1 hmem
    refine ⟨_, rfl, fun d => ⟨fun hd => ⟨m, hm, hd⟩, ?_⟩⟩
    rintro ⟨m', hm', hd⟩
    exact hd.trans (hle _ (List.mem_map_of_mem hm'))

/-! ## Overlays -/

theorem exactMatches_mergeOverlay : (p.mergeOverlay overlay).exactMatches cmd =
    p.exactMatches cmd ++ overlay.exactMatches cmd := by
  cases cmd with
  | nil => rfl
  | cons first rest =>
    simp only [exactMatches_cons, mergeOverlay, MultiMap.getVec_insertAll, List.filterMap_append]

theorem lookup_mergeOverlay (basename : String) :
    (p.mergeOverlay overlay).hostExecutablesByName.lookup basename =
      (overlay.hostExecutablesByName.lookup basename <|>
        p.hostExecutablesByName.lookup basename) := by
  have key : ∀ (entries : List (Sigma fun _ : String => List AbsolutePathBuf)),
      entries.NodupKeys → ∀ table : Keyed String (List AbsolutePathBuf),
        (entries.foldl (fun table entry => table.insert entry.1 entry.2) table).lookup basename =
          (entries.dlookup basename <|> table.lookup basename) := by
    intro entries
    induction entries with
    | nil => intro _ table; rfl
    | cons entry entries ih =>
      intro hnodup table
      rcases entry with ⟨name, paths⟩
      rw [List.nodupKeys_cons] at hnodup
      rw [List.foldl_cons, ih hnodup.2, lookup_insert]
      by_cases hname : basename = name
      · subst name
        rw [List.dlookup_eq_none.2 hnodup.1, List.dlookup_cons_eq]
        simp
      · rw [List.dlookup_cons_ne _ _ hname, if_neg hname]
  exact key _ overlay.hostExecutablesByName.nodupKeys p.hostExecutablesByName

/-- The base policy hides the overlay's rules from a command: its own rules of the command's first
token are milder, or its `host_executable` entry for the base name, which the overlay lacks, rules
the program out and the heuristics are milder. -/
def Hides (p overlay : Policy) (host : Host) (cmd : List String)
    (fallback : List String → Decision) (d : Decision) : Prop :=
  overlay.exactMatches cmd = [] ∧
    ((p.exactMatches cmd ≠ [] ∧ ∀ m ∈ p.exactMatches cmd, m.decision < d) ∨
      (p.exactMatches cmd = [] ∧ fallback cmd < d ∧
        ∃ program basename, resolveProgram host cmd = some (program, basename) ∧
          overlay.hostExecutablesByName.lookup basename = none ∧ ¬ p.Admits program basename))

/-- The rules of an overlay are as strict over a base policy as alone exactly where the base policy
does not hide them. -/
theorem le_decision_mergeOverlay {fallback : List String → Decision} {d : Decision}
    (h : overlay.strictest host cmd = some d) :
    ∃ e, (p.mergeOverlay overlay).checkWithOptions host cmd fallback ⟨true⟩ = some e ∧
      (d ≤ e.decision ↔ ¬ p.Hides overlay host cmd fallback d) := by
  obtain ⟨e, he, hle⟩ := exists_checkWithOptions (p.mergeOverlay overlay) host cmd fallback ⟨true⟩
  refine ⟨e, he, (hle d).trans ?_⟩
  obtain ⟨⟨m, hm, hmd⟩, -⟩ := strictest_eq_some.1 h
  have hmerged := @exactMatches_mergeOverlay p overlay cmd
  by_cases hover : overlay.exactMatches cmd = []
  · by_cases hexact : p.exactMatches cmd = []
    · -- both stages fall through to the rules of the base name
      rw [hexact, hover, List.append_nil] at hmerged
      obtain ⟨program, basename, hresolve, hadmits, rule, hrule, m₀, hmatch, rfl⟩ :=
        mem_matchHostExecutableRules.1 (mem_host_of_ruleMatches hover hm)
      by_cases hall : (p.mergeOverlay overlay).Admits program basename
      · have hmem : m₀.withResolvedProgram program ∈
            (p.mergeOverlay overlay).matchHostExecutableRules host cmd := by
          refine mem_matchHostExecutableRules.2 ⟨program, basename, hresolve, hall, rule, ?_, m₀,
            hmatch, rfl⟩
          rw [mergeOverlay, MultiMap.getVec_insertAll]
          exact List.mem_append_right _ hrule
        rw [matches_of_host hmerged (List.ne_nil_of_mem hmem)]
        refine iff_of_true ⟨_, hmem, hmd.ge⟩ ?_
        rintro ⟨-, ⟨hne, -⟩ | ⟨-, -, _, _, hresolve', hnone, hnot⟩⟩
        · exact hne hexact
        · cases hresolve.symm.trans hresolve'
          refine hnot fun paths hpaths => hall paths ?_
          rw [lookup_mergeOverlay, hnone]
          exact hpaths
      · have hnone : overlay.hostExecutablesByName.lookup basename = none := by
          cases htable : overlay.hostExecutablesByName.lookup basename with
          | none => rfl
          | some paths =>
            refine absurd (fun paths' hpaths' => ?_) hall
            rw [lookup_mergeOverlay, htable] at hpaths'
            cases hpaths'
            exact hadmits _ htable
        have hnot : ¬ p.Admits program basename := fun hp => hall fun paths hpaths => by
          rw [lookup_mergeOverlay, hnone] at hpaths
          exact hp paths hpaths
        have hempty : (p.mergeOverlay overlay).matchHostExecutableRules host cmd = [] := by
          refine List.eq_nil_iff_forall_not_mem.2 fun m' hm' => ?_
          obtain ⟨_, _, hresolve', hadmits', -⟩ := mem_matchHostExecutableRules.1 hm'
          cases hresolve.symm.trans hresolve'
          exact hall hadmits'
        rw [matches_of_none hmerged hempty]
        constructor
        · rintro ⟨m', hm', hd⟩ ⟨-, ⟨hne, -⟩ | ⟨-, hlt, -⟩⟩
          · exact hne hexact
          · rw [List.mem_singleton.1 hm'] at hd
            exact absurd hd (not_le.2 hlt)
        · intro hhides
          refine ⟨_, List.mem_singleton_self _, not_lt.1 fun hlt => hhides ⟨hover, .inr ⟨hexact, hlt,
            program, basename, hresolve, hnone, hnot⟩⟩⟩
    · rw [hover, List.append_nil] at hmerged
      rw [matches_of_exact (hmerged ▸ hexact), hmerged]
      constructor
      · rintro ⟨m', hm', hd⟩ ⟨-, ⟨-, hlt⟩ | ⟨hnil, -⟩⟩
        · exact absurd hd (not_le.2 (hlt m' hm'))
        · exact hexact hnil
      · intro hhides
        by_contra hnone
        exact hhides ⟨hover, .inl ⟨hexact, fun m' hm' => not_le.1 fun hd => hnone ⟨m', hm', hd⟩⟩⟩
  · rw [ruleMatches, matches_of_exact hover] at hm
    have hmem : m ∈ (p.mergeOverlay overlay).exactMatches cmd := by
      rw [hmerged]
      exact List.mem_append_right _ hm
    rw [matches_of_exact (List.ne_nil_of_mem hmem)]
    exact iff_of_true ⟨m, hmem, hmd.ge⟩ fun hhides => hover hhides.1

/-! ## Allow rules -/

theorem isSome_matchesPrefix_single {first : String} {rest : List String} :
    (PrefixPattern.matchesPrefix ⟨first, rest.map .single⟩ cmd).isSome = true ↔
      first :: rest <+: cmd := by
  have key : ∀ (rest tail : List String), rest.length ≤ tail.length →
      ((((rest.map PatternToken.single).zip tail).all fun tokens => tokens.1.matches tokens.2) =
        true ↔ rest <+: tail) := by
    intro rest
    induction rest with
    | nil => simp
    | cons token rest ih =>
      intro tail hlen
      cases tail with
      | nil => simp at hlen
      | cons token' tail =>
        rw [List.map_cons, List.zip_cons_cons, List.all_cons, Bool.and_eq_true,
          ih tail (by simpa using hlen), List.cons_prefix_cons]
        simp [PatternToken.matches]
  rw [PrefixPattern.isSome_matchesPrefix]
  cases cmd with
  | nil => simp
  | cons token tail =>
    simp only [List.length_map, List.length_cons, List.head?_cons, Option.some.injEq,
      List.tail_cons, List.cons_prefix_cons, Nat.add_le_add_iff_right]
    constructor
    · rintro ⟨hlen, rfl, hall⟩
      exact ⟨rfl, (key rest tail hlen).1 hall⟩
    · rintro ⟨rfl, hpre⟩
      exact ⟨hpre.length_le, rfl, (key rest tail hpre.length_le).2 hpre⟩

/-- The rule that allows the commands beginning with some tokens. -/
def allowRule (first : String) (rest : List String) : PrefixRule :=
  ⟨⟨first, rest.map .single⟩, .allow, none⟩

theorem isSome_matches_allowRule {first : String} {rest : List String} :
    ((allowRule first rest).matches cmd).isSome = true ↔ first :: rest <+: cmd := by
  rw [PrefixRule.matches, Option.isSome_map]
  exact isSome_matchesPrefix_single

/-- An added allow rule matches what it matches, next to the rules already there. -/
theorem mem_exactMatches_allowRule {first : String} {rest : List String} (m : RuleMatch) :
    m ∈ exactMatches { p with
        rulesByProgram := p.rulesByProgram.insertVal first (allowRule first rest) } cmd ↔
      m ∈ p.exactMatches cmd ∨ (allowRule first rest).matches cmd = some m := by
  rw [mem_exactMatches, mem_exactMatches]
  constructor
  · rintro ⟨first', hfirst, r, hr, hm⟩
    rw [MultiMap.getVec_insertVal, List.mem_append] at hr
    rcases hr with hr | hr
    · exact .inl ⟨first', hfirst, r, hr, hm⟩
    · split at hr
      · rw [List.mem_singleton.1 hr] at hm
        exact .inr hm
      · cases hr
  · rintro (⟨first', hfirst, r, hr, hm⟩ | hm)
    · refine ⟨first', hfirst, r, ?_, hm⟩
      rw [MultiMap.getVec_insertVal]
      exact List.mem_append_left _ hr
    · obtain ⟨tail, rfl⟩ := isSome_matches_allowRule.1 (by rw [hm]; rfl)
      refine ⟨first, rfl, _, ?_, hm⟩
      rw [MultiMap.getVec_insertVal, if_pos rfl]
      exact List.mem_append_right _ (List.mem_singleton_self _)

/-- Adding an allow rule lowers the decision on a command exactly where it matches the command's own
first token while no rule did. -/
theorem le_decision_addPrefixRule {p' : Policy} {pre : List String}
    {fallback : List String → Decision} {d : Decision} (h : p.strictest host cmd = some d)
    (hd : d ≠ .allow) (hadd : p.addPrefixRule pre .allow = .ok p') :
    ∃ e, p'.checkWithOptions host cmd fallback ⟨true⟩ = some e ∧
      (d ≤ e.decision ↔ ¬ (p.exactMatches cmd = [] ∧ pre <+: cmd)) := by
  obtain ⟨e, he, hle⟩ := exists_checkWithOptions p' host cmd fallback ⟨true⟩
  refine ⟨e, he, (hle d).trans ?_⟩
  obtain ⟨⟨m, hm, hmd⟩, -⟩ := strictest_eq_some.1 h
  cases pre with
  | nil => cases hadd
  | cons firstToken rest =>
    cases hadd
    change (∃ m ∈ matchesForCommandWithOptions { p with
      rulesByProgram := p.rulesByProgram.insertVal firstToken (allowRule firstToken rest) }
        host cmd (some fallback) ⟨true⟩, d ≤ m.decision) ↔ _
    have hmatches := @isSome_matches_allowRule cmd firstToken rest
    have hexactMem : ∀ m', _ ↔ _ := fun m' => @mem_exactMatches_allowRule p cmd firstToken rest m'
    set rule := allowRule firstToken rest
    by_cases hexact : p.exactMatches cmd = []
    · rw [hexact] at hexactMem
      by_cases hpre : firstToken :: rest <+: cmd
      · -- the new rule is the only one of the command's own first token
        obtain ⟨m₁, hm₁⟩ := Option.isSome_iff_exists.1 (hmatches.2 hpre)
        have hmem := (hexactMem m₁).2 (.inr hm₁)
        rw [matches_of_exact (List.ne_nil_of_mem hmem)]
        refine iff_of_false ?_ fun hnot => hnot ⟨hexact, hpre⟩
        rintro ⟨m', hm', hle'⟩
        rcases (hexactMem m').1 hm' with hm' | hm'
        · cases hm'
        · obtain ⟨_, -, rfl⟩ := Option.map_eq_some_iff.1 hm'
          exact hd (le_antisymm hle' (Decision.allow_le d))
      · have hnone : rule.matches cmd = none := by
          cases hcase : rule.matches cmd with
          | none => rfl
          | some m₁ => exact absurd (hmatches.1 (by rw [hcase]; rfl)) hpre
        have hempty : exactMatches { p with
            rulesByProgram := p.rulesByProgram.insertVal firstToken rule } cmd = [] := by
          refine List.eq_nil_iff_forall_not_mem.2 fun m' hm' => ?_
          rcases (hexactMem m').1 hm' with hm' | hm'
          · cases hm'
          · cases hnone.symm.trans hm'
        have hhost := mem_host_of_ruleMatches hexact hm
        have hmem : m ∈ matchHostExecutableRules { p with
            rulesByProgram := p.rulesByProgram.insertVal firstToken rule } host cmd := by
          obtain ⟨program, basename, hresolve, hadmits, r, hr, hrest⟩ :=
            mem_matchHostExecutableRules.1 hhost
          refine mem_matchHostExecutableRules.2 ⟨program, basename, hresolve, hadmits, r, ?_, hrest⟩
          rw [MultiMap.getVec_insertVal]
          exact List.mem_append_left _ hr
        rw [matches_of_host hempty (List.ne_nil_of_mem hmem)]
        exact iff_of_true ⟨m, hmem, hmd.ge⟩ fun hhides => hpre hhides.2
    · rw [ruleMatches, matches_of_exact hexact] at hm
      have hmem := (hexactMem m).2 (.inl hm)
      rw [matches_of_exact (List.ne_nil_of_mem hmem)]
      exact iff_of_true ⟨m, hmem, hmd.ge⟩ fun hhides => hexact hhides.1

end

end Policy

/-! ## Rules of a path over rules of a base name -/

/-- A policy with one rule, for the commands of one program. -/
def singleRule (program : String) (decision : Decision) : Policy :=
  { Policy.empty with
    rulesByProgram := Policy.empty.rulesByProgram.insertVal program
      ⟨⟨program, []⟩, decision, none⟩ }

/-- Overlays and allow rules loosen exactly the commands that exact rules, or `host_executable`
entries, take from the rules of a base name. -/
theorem added_rules_loosen (host : Host) (cmd : List String)
    (fallback : List String → Decision) :
    (∀ (base overlay : Policy) (d : Decision), overlay.strictest host cmd = some d →
      ∃ e, (base.mergeOverlay overlay).checkWithOptions host cmd fallback ⟨true⟩ = some e ∧
        (d ≤ e.decision ↔ ¬ base.Hides overlay host cmd fallback d)) ∧
    (∀ (p p' : Policy) (pre : List String) (d : Decision), p.strictest host cmd = some d →
      d ≠ .allow → p.addPrefixRule pre .allow = .ok p' →
      ∃ e, p'.checkWithOptions host cmd fallback ⟨true⟩ = some e ∧
        (d ≤ e.decision ↔ ¬ (p.exactMatches cmd = [] ∧ pre <+: cmd))) :=
  ⟨fun _ _ _ h => Policy.le_decision_mergeOverlay h,
    fun _ _ _ _ h hd hadd => Policy.le_decision_addPrefixRule h hd hadd⟩

/-- The overlay alone forbids `/usr/bin/git push`; over a base policy that allows the path it is
allowed. -/
theorem overlay_loosened :
    let host : Host := ⟨some "/work", none⟩
    let cmd := ["/usr/bin/git", "push"]
    let base := singleRule "/usr/bin/git" .allow
    let overlay := singleRule "git" .forbidden
    overlay.strictest host cmd = some .forbidden ∧
      ((base.mergeOverlay overlay).checkWithOptions host cmd (fun _ => .prompt) ⟨true⟩).map
        Evaluation.decision = some .allow := by
  decide +kernel

theorem added_rules_loosen_gitPush :
    let host : Host := ⟨some "/work", none⟩
    let cmd := ["/usr/bin/git", "push"]
    let base := singleRule "git" .prompt
    let overlay := singleRule "git" .forbidden
    ∃ e, (base.mergeOverlay overlay).checkWithOptions host cmd (fun _ => .allow) ⟨true⟩ = some e ∧
      (.forbidden ≤ e.decision ↔ ¬ base.Hides overlay host cmd (fun _ => .allow) .forbidden) :=
  (added_rules_loosen ⟨some "/work", none⟩ ["/usr/bin/git", "push"] fun _ => .allow).1
    (singleRule "git" .prompt) (singleRule "git" .forbidden) .forbidden (by decide +kernel)

end Mcodex.ExecPolicy
