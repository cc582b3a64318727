import Mcodex.ExecPolicy.Amend
import Mcodex.ExecPolicy.Overlay
import Mcodex.Lib.Effect
import Mcodex.Lib.Transition

/-!
# Amendments and restarts

The policy in memory and the one that a restart loads from the rules file take an amendment in
different ways. The file skips a line it has; the memory skips a command that is allowed already,
be it by rules of a base name. The file's network rules stand before those of the requirements; the
memory's new ones stand after them. `Survives` says of a call that none of these differences shows;
while every call meets it, the two policies agree on every decision.
-/

namespace Mcodex.ExecPolicy

open Text Transition

/-! ## Policies that decide alike -/

/-- Two lists of matches have the same strictest decision, if any. -/
def AsStrict (ms ms' : List RuleMatch) : Prop :=
  ∀ d, (∃ m ∈ ms, d ≤ m.decision) ↔ ∃ m ∈ ms', d ≤ m.decision

theorem AsStrict.refl {ms : List RuleMatch} : AsStrict ms ms := fun _ => .rfl

theorem AsStrict.nil_iff {ms ms' : List RuleMatch} (h : AsStrict ms ms') : ms = [] ↔ ms' = [] := by
  have key : ∀ ms : List RuleMatch, (∃ m ∈ ms, .allow ≤ m.decision) ↔ ms ≠ [] := by
    intro ms
    cases ms with
    | nil => simp
    | cons m ms => exact iff_of_true ⟨m, List.mem_cons_self, Decision.allow_le _⟩ (by simp)
  have := h .allow
  rw [key, key] at this
  exact not_iff_not.1 this

/-- Rules added on both sides, wherever they stand. -/
theorem AsStrict.insert {ms xs ys zs : List RuleMatch} (h : AsStrict ms (xs ++ ys)) :
    AsStrict (ms ++ zs) (xs ++ zs ++ ys) := by
  intro d
  have := h d
  simp only [List.mem_append, or_and_right, exists_or] at this ⊢
  rw [this]
  exact or_right_comm

/-- Matches that do not raise the strictest decision of the one side. -/
theorem AsStrict.insert_left {ms ms' zs : List RuleMatch} (h : AsStrict ms ms')
    (hzs : ∀ z ∈ zs, ∃ m ∈ ms', z.decision ≤ m.decision) : AsStrict (ms ++ zs) ms' := by
  intro d
  rw [← h d]
  simp only [List.mem_append, or_and_right, exists_or]
  refine ⟨fun hd => hd.elim id fun ⟨z, hz, hle⟩ => ?_, .inl⟩
  obtain ⟨m, hm, hle'⟩ := hzs z hz
  exact (h d).2 ⟨m, hm, hle.trans hle'⟩

theorem AsStrict.insert_right {ms xs ys zs : List RuleMatch} (h : AsStrict ms (xs ++ ys))
    (hzs : ∀ z ∈ zs, ∃ m ∈ ms, z.decision ≤ m.decision) : AsStrict ms (xs ++ zs ++ ys) := by
  intro d
  have hall := h d
  simp only [List.mem_append, or_and_right, exists_or] at hall ⊢
  constructor
  · exact fun hd => (hall.1 hd).elim (.inl ∘ .inl) .inr
  · rintro ((hd | ⟨z, hz, hle⟩) | hd)
    · exact hall.2 (.inl hd)
    · obtain ⟨m, hm, hle'⟩ := hzs z hz
      exact ⟨m, hm, hle.trans hle'⟩
    · exact hall.2 (.inr hd)

/-- What the last rule of a host that allows or forbids it decides. -/
def lastDecision (rules : List NetworkRule) (host : String) : Option Decision :=
  (rules.filter fun r => r.host = host ∧ r.decision ≠ .prompt).getLast?.map NetworkRule.decision

theorem lastDecision_append (rules rules' : List NetworkRule) (host : String) :
    lastDecision (rules ++ rules') host =
      (lastDecision rules' host).or (lastDecision rules host) := by
  unfold lastDecision
  rw [List.filter_append, List.getLast?_append, Option.map_or]

theorem lastDecision_singleton (rule : NetworkRule) (host : String) :
    lastDecision [rule] host =
      if rule.host = host ∧ rule.decision ≠ .prompt then some rule.decision else none := by
  unfold lastDecision
  rw [List.filter_singleton]
  by_cases h : rule.host = host ∧ rule.decision ≠ .prompt <;> simp [h]

/-- The compiled domains are the hosts that the last rule allows, and those that it forbids. -/
theorem mem_compiledNetworkDomains (p : Policy) (host : String) :
    (host ∈ p.compiledNetworkDomains.1 ↔ lastDecision p.networkRules host = some .allow) ∧
      (host ∈ p.compiledNetworkDomains.2 ↔ lastDecision p.networkRules host = some .forbidden) := by
  unfold Policy.compiledNetworkDomains
  generalize p.networkRules = rules
  induction rules using List.reverseRecOn with
  | nil => exact ⟨by simp [lastDecision], by simp [lastDecision]⟩
  | append_singleton rules rule ih =>
    rw [List.foldl_append, lastDecision_append, lastDecision_singleton]
    generalize rules.foldl compileNetworkRule ([], []) = domains at ih ⊢
    obtain ⟨hallow, hdeny⟩ := ih
    rw [List.foldl_cons, List.foldl_nil, compileNetworkRule]
    by_cases hhost : rule.host = host
    · subst host
      cases hd : rule.decision <;> simp [upsertDomain, hallow, hdeny]
    · have hne : host ≠ rule.host := fun h => hhost h.symm
      cases hd : rule.decision <;> simp [upsertDomain, hallow, hdeny, hhost, hne]

/-- The rules of a name that match a command. -/
def Policy.matchesUnder (p : Policy) (name : String) (cmd : List String) : List RuleMatch :=
  (p.rulesByProgram.getVec name).filterMap (·.matches cmd)

/-- Two policies decide alike: their rules of each name are as strict, their `host_executable`
tables are the same, and so are the hosts that their network rules allow and forbid. -/
structure Policy.Agree (p p' : Policy) : Prop where
  rules : ∀ name cmd, AsStrict (p.matchesUnder name cmd) (p'.matchesUnder name cmd)
  hostExecutables : p.hostExecutablesByName = p'.hostExecutablesByName
  network : ∀ host, lastDecision p.networkRules host = lastDecision p'.networkRules host

section
variable {p p' : Policy} {host : Host} {cmd : List String}

theorem Policy.Agree.exactMatches (h : p.Agree p') :
    AsStrict (p.exactMatches cmd) (p'.exactMatches cmd) := by
  cases cmd with
  | nil => exact .refl
  | cons first rest => exact h.rules first (first :: rest)

theorem Policy.Agree.matchHostExecutableRules (h : p.Agree p') :
    AsStrict (p.matchHostExecutableRules host cmd) (p'.matchHostExecutableRules host cmd) := by
  cases hresolve : resolveProgram host cmd with
  | none =>
    rw [matchHostExecutableRules_none hresolve, matchHostExecutableRules_none hresolve]
    exact .refl
  | some target =>
    rcases target with ⟨program, basename⟩
    rw [matchHostExecutableRules_some hresolve, matchHostExecutableRules_some hresolve,
      h.hostExecutables]
    split
    · exact .refl
    · intro d
      have hdecision : ∀ m : RuleMatch, (m.withResolvedProgram program).decision = m.decision := by
        intro m
        cases m <;> rfl
      have hiff := h.rules basename (basename :: cmd.tail) d
      simp only [List.mem_map, exists_exists_and_eq_and, hdecision]
      exact hiff

theorem Policy.Agree.matchesForCommandWithOptions (h : p.Agree p')
    (fallback : List String → Decision) (options : MatchOptions) :
    AsStrict (p.matchesForCommandWithOptions host cmd (some fallback) options)
      (p'.matchesForCommandWithOptions host cmd (some fallback) options) := by
  have hexact : AsStrict (p.exactMatches cmd) (p'.exactMatches cmd) := h.exactMatches
  by_cases hnil : p.exactMatches cmd = []
  · have hnil' := hexact.nil_iff.1 hnil
    rcases options with ⟨_ | _⟩
    · unfold Policy.matchesForCommandWithOptions
      rw [filter_matchExactRules hnil, filter_matchExactRules hnil']
      exact .refl
    · have hhost : AsStrict (p.matchHostExecutableRules host cmd)
          (p'.matchHostExecutableRules host cmd) := h.matchHostExecutableRules
      by_cases hempty : p.matchHostExecutableRules host cmd = []
      · rw [matches_of_none hnil hempty, matches_of_none hnil' (hhost.nil_iff.1 hempty)]
        exact .refl
      · rw [matches_of_host hnil hempty, matches_of_host hnil' (mt hhost.nil_iff.2 hempty)]
        exact hhost
  · rw [matches_of_exact hnil, matches_of_exact (mt hexact.nil_iff.2 hnil)]
    exact hexact

/-- Policies that agree decide every command alike, whatever the heuristics and the options. -/
theorem Policy.Agree.decision (h : p.Agree p') (host : Host) (cmd : List String)
    (fallback : List String → Decision) (options : MatchOptions) :
    (p.checkWithOptions host cmd fallback options).map Evaluation.decision =
      (p'.checkWithOptions host cmd fallback options).map Evaluation.decision := by
  obtain ⟨e, he, hle⟩ := exists_checkWithOptions p host cmd fallback options
  obtain ⟨e', he', hle'⟩ := exists_checkWithOptions p' host cmd fallback options
  rw [he, he', Option.map_some, Option.map_some, Option.some.injEq]
  have hiff : ∀ d, d ≤ e.decision ↔ d ≤ e'.decision := fun d =>
    (hle d).trans ((h.matchesForCommandWithOptions fallback options d).trans (hle' d).symm)
  exact le_antisymm ((hiff _).1 le_rfl) ((hiff _).2 le_rfl)

end

/-! ## Calls -/

/-- The calls that save an approval. -/
inductive Call where
  | amendment (host : Host) (command : List String)
  | networkRule (host : String) (protocol : NetworkRuleProtocol) (decision : Decision)
    (justification : Option String)

namespace Call

def run : Call → ExecPolicyManager → Except ExecPolicyUpdateError ExecPolicyManager
  | amendment host command => appendAmendmentAndUpdate host command
  | networkRule host protocol decision justification =>
    appendNetworkRuleAndUpdate host protocol decision justification

/-- The line that a call prints. -/
def line : Call → List Char
  | amendment _ command => allowPrefixRuleLine command
  | networkRule host protocol decision justification =>
    match normalizeNetworkRuleHost host with
    | .ok normalized => networkRuleLine ⟨normalized, protocol, decision, justification⟩
    | .error _ => []

/-- A policy with the rule that a call prints. -/
def addRule (p : Policy) : Call → Except Error Policy
  | amendment _ command => p.addPrefixRule command .allow
  | networkRule host protocol decision justification =>
    p.addNetworkRule host protocol decision justification

/-- The parser reads an appended line back as the rule it prints. -/
def ReadsBack (parse : PolicyParser) (m : ExecPolicyManager) (c : Call) : Prop :=
  ∀ p p', parseFile parse m.file = .ok p → c.addRule p = .ok p' → ¬ HasLine m.file c.line →
    parseFile parse (appendLockedLine m.file c.line) = .ok p'

/-- A call leaves no difference between the memory and the file.

An amendment whose line is new is not one that rules of a base name alone allow already; if its line
is there, then so is its rule. A network rule that allows or forbids a host is not at odds with the
rules of the requirements for that host, nor, if its line is there, with later rules of the file. -/
def Survives (parse : PolicyParser) (requirements : Option Policy) (m : ExecPolicyManager) :
    Call → Prop
  | amendment host command =>
    if HasLine m.file (allowPrefixRuleLine command) then
      ∀ p first rest, parseFile parse m.file = .ok p → command = first :: rest →
        Policy.allowRule first rest ∈ p.rulesByProgram.getVec first
    else alreadyAllowed m.policy host command = true → m.policy.exactMatches command ≠ []
  | networkRule host protocol decision justification =>
    ∀ p normalized, parseFile parse m.file = .ok p → normalizeNetworkRuleHost host = .ok normalized →
      decision ≠ .prompt →
        (∀ r, requirements = some r → ∀ d, lastDecision r.networkRules normalized = some d →
          d = decision) ∧
        (HasLine m.file (networkRuleLine ⟨normalized, protocol, decision, justification⟩) →
          lastDecision p.networkRules normalized = some decision)

end Call

/-- Calls that return `Ok`, from a policy that was loaded. -/
def saved (parse : PolicyParser) (requirements : Option Policy) :
    System ExecPolicyManager Call where
  init m := loadExecPolicy parse requirements m.file = .ok m.policy
  step m c m' := c.run m = .ok m'

/-! ## What one call preserves -/

section
variable {p p' : Policy} {m m' : ExecPolicyManager} {requirements : Option Policy}
  {parse : PolicyParser} {c : Call}

theorem appendLockedLine_of_hasLine {file : RulesFile} {line : List Char}
    (h : HasLine file line) : appendLockedLine file line = file := by
  cases file with
  | none => cases h
  | some contents => exact if_pos h

theorem matchesUnder_withRequirements (p : Policy) (requirements : Option Policy) (name : String)
    (cmd : List String) : (p.withRequirements requirements).matchesUnder name cmd =
      p.matchesUnder name cmd ++ (requirements.getD Policy.empty).matchesUnder name cmd := by
  unfold Policy.matchesUnder
  cases requirements with
  | none => exact (List.append_nil _).symm
  | some requirements =>
    rw [Policy.withRequirements, Policy.mergeOverlay, MultiMap.getVec_insertAll,
      List.filterMap_append]
    rfl

theorem networkRules_withRequirements (p : Policy) (requirements : Option Policy) :
    (p.withRequirements requirements).networkRules =
      p.networkRules ++ (requirements.getD Policy.empty).networkRules := by
  cases requirements with
  | none => exact (List.append_nil _).symm
  | some requirements => rfl

theorem matchesUnder_insertVal (p : Policy) (first name : String) (rule : PrefixRule)
    (cmd : List String) :
    Policy.matchesUnder { p with rulesByProgram := p.rulesByProgram.insertVal first rule } name
        cmd =
      p.matchesUnder name cmd ++ if name = first then (rule.matches cmd).toList else [] := by
  unfold Policy.matchesUnder
  rw [MultiMap.getVec_insertVal, List.filterMap_append]
  split <;> simp [List.filterMap_cons]
  cases rule.matches cmd <;> rfl

theorem zip_append_of_length_le {α β : Type} {xs : List α} {ys : List β} (zs : List β)
    (h : xs.length ≤ ys.length) : xs.zip (ys ++ zs) = xs.zip ys := by
  induction xs generalizing ys with
  | nil => rfl
  | cons x xs ih =>
    cases ys with
    | nil => cases h
    | cons y ys => rw [List.cons_append, List.zip_cons_cons, List.zip_cons_cons,
        ih (Nat.le_of_succ_le_succ h)]

/-- A rule that matches a command matches the commands that begin with it. -/
theorem isSome_matches_of_isPrefix {rule : PrefixRule} {pre cmd : List String} (hpre : pre <+: cmd)
    (h : (rule.matches pre).isSome = true) : (rule.matches cmd).isSome = true := by
  rw [PrefixRule.matches, Option.isSome_map, PrefixPattern.isSome_matchesPrefix] at h ⊢
  rcases hpre with ⟨suffix, rfl⟩
  obtain ⟨hlen, hhead, hall⟩ := h
  cases pre with
  | nil => cases hhead
  | cons token tail =>
    have hrest : rule.pattern.rest.length ≤ tail.length := by simpa using hlen
    refine ⟨?_, hhead, ?_⟩
    · rw [List.length_append]
      omega
    · rw [List.cons_append, List.tail_cons, zip_append_of_length_le suffix hrest]
      exact hall

/-- What the memory and the file hold alike. -/
def Restarts (parse : PolicyParser) (requirements : Option Policy) (m : ExecPolicyManager) : Prop :=
  ∃ p, parseFile parse m.file = .ok p ∧ m.policy.Agree (p.withRequirements requirements)

theorem run_amendment_eq_ok {host : Host} {command : List String}
    (h : (Call.amendment host command).run m = .ok m') :
    ∃ first rest, command = first :: rest ∧
      m'.file = appendLockedLine m.file (allowPrefixRuleLine command) ∧
      ((alreadyAllowed m.policy host command = true ∧ m'.policy = m.policy) ∨
        m'.policy = { m.policy with rulesByProgram :=
          m.policy.rulesByProgram.insertVal first (Policy.allowRule first rest) }) := by
  cases command with
  | nil => cases h
  | cons first rest =>
    refine ⟨first, rest, rfl, ?_⟩
    rw [Call.run, appendAmendmentAndUpdate, blockingAppendAllowPrefixRule, if_neg (by simp)] at h
    simp only [Except.mapError, bind, Except.bind] at h
    split at h
    · cases h
      exact ⟨rfl, .inl ⟨‹_›, rfl⟩⟩
    · cases h
      exact ⟨rfl, .inr rfl⟩

theorem run_networkRule_eq_ok {host : String} {protocol : NetworkRuleProtocol}
    {decision : Decision} {justification : Option String}
    (h : (Call.networkRule host protocol decision justification).run m = .ok m') :
    ∃ normalized, normalizeNetworkRuleHost host = .ok normalized ∧
      m'.file = appendLockedLine m.file
        (networkRuleLine ⟨normalized, protocol, decision, justification⟩) ∧
      (∀ p : Policy, p.addNetworkRule host protocol decision justification = .ok { p with
        networkRules := p.networkRules ++ [⟨normalized, protocol, decision, justification⟩] }) ∧
      m'.policy = { m.policy with
        networkRules := m.policy.networkRules ++
          [⟨normalized, protocol, decision, justification⟩] } := by
  have hcase : ∀ normalized, normalizeNetworkRuleHost host = .ok normalized →
      (justification.any fun raw => (trim raw.toList).isEmpty) = false →
      ∀ p : Policy, p.addNetworkRule host protocol decision justification = .ok { p with
        networkRules := p.networkRules ++ [⟨normalized, protocol, decision, justification⟩] } := by
    intro normalized hnormalized hjustified p
    simp [Policy.addNetworkRule, hnormalized, hjustified, bind, Except.bind, pure, Except.pure]
  rw [Call.run, appendNetworkRuleAndUpdate, blockingAppendNetworkRule] at h
  cases hnormalized : normalizeNetworkRuleHost host with
  | error e => simp [hnormalized, Except.mapError, bind, Except.bind] at h
  | ok normalized =>
    cases hjustified : justification.any fun raw => (trim raw.toList).isEmpty with
    | true => simp [hnormalized, hjustified, Except.mapError, bind, Except.bind, throw,
        throwThe, MonadExceptOf.throw] at h
    | false =>
      have hadd := hcase normalized hnormalized hjustified
      refine ⟨normalized, rfl, ?_⟩
      simp only [hnormalized, hjustified, hadd, Except.mapError, bind, Except.bind, pure,
        Except.pure, Bool.false_eq_true, if_false, Except.ok.injEq] at h
      subst h
      exact ⟨rfl, hadd, rfl⟩

theorem Restarts.amendment {host : Host} {command : List String}
    (h : Restarts parse requirements m)
    (hreads : (Call.amendment host command).ReadsBack parse m)
    (hsurvives : (Call.amendment host command).Survives parse requirements m)
    (hrun : (Call.amendment host command).run m = .ok m') : Restarts parse requirements m' := by
  obtain ⟨p, hp, hagree⟩ := h
  obtain ⟨first, rest, rfl, hfile, hpolicy⟩ := run_amendment_eq_ok hrun
  rw [Restarts, hfile]
  by_cases hline : HasLine m.file (allowPrefixRuleLine (first :: rest))
  · -- the file stays, and holds the rule already
    rw [Call.Survives, if_pos hline] at hsurvives
    have hmem := hsurvives p first rest hp rfl
    rw [appendLockedLine_of_hasLine hline]
    refine ⟨p, hp, ?_⟩
    rcases hpolicy with ⟨-, heq⟩ | heq
    · rw [heq]
      exact hagree
    · rw [heq]
      refine ⟨fun name cmd => ?_, hagree.hostExecutables, hagree.network⟩
      rw [matchesUnder_insertVal]
      refine (hagree.rules name cmd).insert_left fun z hz => ?_
      split at hz
      · subst name
        refine ⟨z, ?_, le_rfl⟩
        rw [matchesUnder_withRequirements]
        exact List.mem_append_left _ (List.mem_filterMap.2 ⟨_, hmem, Option.mem_toList.1 hz⟩)
      · cases hz
  · rw [Call.Survives, if_neg hline] at hsurvives
    refine ⟨_, hreads p _ hp rfl hline, ?_⟩
    have hnetwork := hagree.network
    simp only [networkRules_withRequirements] at hnetwork
    rcases hpolicy with ⟨hallowed, heq⟩ | heq
    · -- a rule of the command's own first token matches it already, and whatever begins with it
      rw [heq]
      obtain ⟨m₀, hm₀⟩ := List.exists_mem_of_ne_nil _ (hsurvives hallowed)
      obtain ⟨_, hfirst, rule, hrule, hmatch⟩ := Policy.mem_exactMatches.1 hm₀
      cases hfirst
      refine ⟨fun name cmd => ?_, ?_, ?_⟩
      · rw [matchesUnder_withRequirements, matchesUnder_insertVal]
        have hrules := hagree.rules name cmd
        rw [matchesUnder_withRequirements] at hrules
        refine hrules.insert_right fun z hz => ?_
        split at hz
        · subst name
          have hz' : (Policy.allowRule first rest).matches cmd = some z := Option.mem_toList.1 hz
          have hpre : first :: rest <+: cmd := Policy.isSome_matches_allowRule.1 (by rw [hz']; rfl)
          have hsome : (rule.matches cmd).isSome = true :=
            isSome_matches_of_isPrefix hpre (by rw [hmatch]; rfl)
          obtain ⟨m₁, hm₁⟩ := Option.isSome_iff_exists.1 hsome
          refine ⟨m₁, List.mem_filterMap.2 ⟨rule, hrule, hm₁⟩, ?_⟩
          obtain ⟨_, -, rfl⟩ := Option.map_eq_some_iff.1 hz'
          exact Decision.allow_le _
        · cases hz
      · rw [hagree.hostExecutables]
        cases requirements <;> rfl
      · simpa only [networkRules_withRequirements] using hnetwork
    · rw [heq]
      refine ⟨fun name cmd => ?_, ?_, ?_⟩
      · rw [matchesUnder_withRequirements, matchesUnder_insertVal, matchesUnder_insertVal]
        have hrules := hagree.rules name cmd
        rw [matchesUnder_withRequirements] at hrules
        exact hrules.insert
      · rw [hagree.hostExecutables]
        cases requirements <;> rfl
      · simpa only [networkRules_withRequirements] using hnetwork

theorem Restarts.networkRule {host : String} {protocol : NetworkRuleProtocol}
    {decision : Decision} {justification : Option String}
    (h : Restarts parse requirements m)
    (hreads : (Call.networkRule host protocol decision justification).ReadsBack parse m)
    (hsurvives :
      (Call.networkRule host protocol decision justification).Survives parse requirements m)
    (hrun : (Call.networkRule host protocol decision justification).run m = .ok m') :
    Restarts parse requirements m' := by
  obtain ⟨p, hp, hagree⟩ := h
  obtain ⟨normalized, hnormalized, hfile, hadd, hpolicy⟩ := run_networkRule_eq_ok hrun
  have hnetwork := hagree.network
  simp only [networkRules_withRequirements] at hnetwork
  set rule : NetworkRule := ⟨normalized, protocol, decision, justification⟩
  rw [Restarts, hfile, hpolicy]
  -- what the requirements decide about the rule's host is what the rule decides
  have hrequirements : decision ≠ .prompt → ∀ d,
      lastDecision (requirements.getD Policy.empty).networkRules normalized = some d →
        d = decision := by
    intro hprompt d hd
    cases requirements with
    | none => cases hd
    | some r => exact (hsurvives p normalized hp hnormalized hprompt).1 r rfl d hd
  by_cases hline : HasLine m.file (networkRuleLine rule)
  · rw [appendLockedLine_of_hasLine hline]
    refine ⟨p, hp, hagree.rules, hagree.hostExecutables, fun host' => ?_⟩
    rw [networkRules_withRequirements, lastDecision_append, lastDecision_singleton]
    split
    · rename_i hrule
      obtain ⟨rfl, hprompt⟩ := hrule
      rw [lastDecision_append, (hsurvives p normalized hp hnormalized hprompt).2 hline]
      cases hd : lastDecision (requirements.getD Policy.empty).networkRules normalized with
      | none => rfl
      | some d =>
        rw [hrequirements hprompt d hd]
        rfl
    · exact hnetwork host'
  · have hcallLine : (Call.networkRule host protocol decision justification).line =
        networkRuleLine rule := by
      rw [Call.line, hnormalized]
    refine ⟨_, hcallLine ▸ hreads p _ hp (hadd p) (hcallLine ▸ hline), ?_⟩
    refine ⟨fun name cmd => ?_, ?_, fun host' => ?_⟩
    · have hrules := hagree.rules name cmd
      rw [matchesUnder_withRequirements] at hrules ⊢
      exact hrules
    · rw [hagree.hostExecutables]
      cases requirements <;> rfl
    · have hhost := hnetwork host'
      rw [networkRules_withRequirements, lastDecision_append, lastDecision_append,
        lastDecision_append, lastDecision_singleton]
      rw [lastDecision_append] at hhost
      split
      · rename_i hrule
        obtain ⟨rfl, hprompt⟩ := hrule
        cases hd : lastDecision (requirements.getD Policy.empty).networkRules normalized with
        | none => rfl
        | some d =>
          rw [hrequirements hprompt d hd]
          rfl
      · exact hhost

/-- **Approvals survive a restart.** While every call leaves no difference between the memory and
the file, a restart loads a policy that decides every command as the one in memory does, and allows
and denies the same hosts. -/
theorem saved_approvals_survive
    (h : ((saved parse requirements).restrict fun m c =>
      c.ReadsBack parse m ∧ c.Survives parse requirements m).Reach m) :
    ∃ loaded, loadExecPolicy parse requirements m.file = .ok loaded ∧
      (∀ host cmd fallback options,
        (m.policy.checkWithOptions host cmd fallback options).map Evaluation.decision =
          (loaded.checkWithOptions host cmd fallback options).map Evaluation.decision) ∧
      (∀ domain, (domain ∈ m.policy.compiledNetworkDomains.1 ↔
          domain ∈ loaded.compiledNetworkDomains.1) ∧
        (domain ∈ m.policy.compiledNetworkDomains.2 ↔
          domain ∈ loaded.compiledNetworkDomains.2)) := by
  have hrestarts : Restarts parse requirements m := by
    refine h.invariant (fun m hinit => ?_) fun m c m' hm hstep => ?_
    · obtain ⟨p, hp, heq⟩ := Effect.bind_eq_ok.1 hinit
      refine ⟨p, hp, ?_⟩
      rw [← Except.ok.inj heq]
      exact ⟨fun _ _ => .refl, rfl, fun _ => rfl⟩
    · obtain ⟨⟨hreads, hsurvives⟩, hrun⟩ := hstep
      cases c with
      | amendment host command => exact hm.amendment hreads hsurvives hrun
      | networkRule host protocol decision justification =>
        exact hm.networkRule hreads hsurvives hrun
  obtain ⟨p, hp, hagree⟩ := hrestarts
  refine ⟨p.withRequirements requirements, Effect.bind_eq_ok.2 ⟨p, hp, rfl⟩, hagree.decision,
    fun domain => ?_⟩
  rw [(mem_compiledNetworkDomains _ _).1, (mem_compiledNetworkDomains _ _).2,
    (mem_compiledNetworkDomains _ _).1, (mem_compiledNetworkDomains _ _).2, hagree.network]
  exact ⟨.rfl, .rfl⟩

theorem Call.readsBack_of_eq (hp : parseFile parse m.file = .ok p) (hadd : c.addRule p = .ok p')
    (hafter : parseFile parse (appendLockedLine m.file c.line) = .ok p') :
    c.ReadsBack parse m := by
  intro q q' hq hq' _
  cases hp.symm.trans hq
  cases hadd.symm.trans hq'
  exact hafter

end

/-! ## A host that is allowed, denied and allowed again -/

/-- A rule for `example.com`. -/
def exampleRule (decision : Decision) : NetworkRule := ⟨"example.com", .https, decision, none⟩

/-- The call that saves it. -/
def exampleCall (decision : Decision) : Call := .networkRule "example.com" .https decision none

/-- A policy with some rules for `example.com`. -/
def examplePolicy (decisions : List Decision) : Policy :=
  { Policy.empty with networkRules := decisions.map exampleRule }

/-- A file with some rules for `example.com`. -/
def exampleFile (decisions : List Decision) : List Char :=
  decisions.flatMap fun decision => networkRuleLine (exampleRule decision) ++ ['\n']

/-- The parser on the files that the calls below leave. -/
def exampleParser : PolicyParser := fun contents =>
  match [[], [.allow], [.allow, .forbidden]].find? fun decisions =>
      contents = exampleFile decisions with
  | some decisions => .ok (examplePolicy decisions)
  | none => .error "not read"

theorem exampleCall_run (decision : Decision) (m : ExecPolicyManager) :
    (exampleCall decision).run m = .ok
      ⟨{ m.policy with networkRules := m.policy.networkRules ++ [exampleRule decision] },
        appendLockedLine m.file (networkRuleLine (exampleRule decision))⟩ := by
  have hnormalized : normalizeNetworkRuleHost "example.com" = .ok "example.com" := by decide
  simp [exampleCall, Call.run, appendNetworkRuleAndUpdate, blockingAppendNetworkRule,
    Policy.addNetworkRule, hnormalized, bind, Except.bind, pure, Except.pure, Except.mapError,
    exampleRule]

theorem exampleCall_line (decision : Decision) :
    (exampleCall decision).line = networkRuleLine (exampleRule decision) := by
  have hnormalized : normalizeNetworkRuleHost "example.com" = .ok "example.com" := by decide
  rw [exampleCall, Call.line, hnormalized]
  rfl

theorem exampleCall_addRule (decision : Decision) (p : Policy) :
    (exampleCall decision).addRule p =
      .ok { p with networkRules := p.networkRules ++ [exampleRule decision] } := by
  have hnormalized : normalizeNetworkRuleHost "example.com" = .ok "example.com" := by decide
  simp [exampleCall, Call.addRule, Policy.addNetworkRule, hnormalized, bind, Except.bind, pure,
    Except.pure, exampleRule]

/-- A state that the calls below reach. -/
def exampleManager (memory file : List Decision) : ExecPolicyManager :=
  ⟨examplePolicy memory, some (exampleFile file)⟩

theorem exampleParser_eq {decisions : List Decision}
    (h : decisions = [] ∨ decisions = [.allow] ∨ decisions = [.allow, .forbidden]) :
    exampleParser (exampleFile decisions) = .ok (examplePolicy decisions) := by
  have hfind : [[], [Decision.allow], [.allow, .forbidden]].find?
      (fun decisions' => exampleFile decisions = exampleFile decisions') = some decisions := by
    rcases h with rfl | rfl | rfl <;> decide +kernel
  rw [exampleParser, hfind]

theorem exampleFile_append {file : List Decision} {decision : Decision}
    (h : file = [] ∧ decision = .allow ∨ file = [.allow] ∧ decision = .forbidden) :
    appendLockedLine (some (exampleFile file)) (networkRuleLine (exampleRule decision)) =
      some (exampleFile (file ++ [decision])) := by
  rcases h with ⟨rfl, rfl⟩ | ⟨rfl, rfl⟩ <;> decide +kernel

/-- The first two calls are appended and read back. -/
theorem exampleManager_step {file : List Decision} {decision : Decision}
    (h : file = [] ∧ decision = .allow ∨ file = [.allow] ∧ decision = .forbidden) :
    ((saved exampleParser none).restrict fun m c => c.ReadsBack exampleParser m).step
      (exampleManager file file) (exampleCall decision)
      (exampleManager (file ++ [decision]) (file ++ [decision])) := by
  have hread : ∀ decisions, decisions = [] ∨ decisions = [.allow] ∨
      decisions = [.allow, .forbidden] →
      exampleParser (exampleFile decisions) = .ok (examplePolicy decisions) :=
    fun _ => exampleParser_eq
  have hbefore := hread file (by rcases h with ⟨rfl, -⟩ | ⟨rfl, -⟩ <;> simp)
  have hafter := hread (file ++ [decision]) (by rcases h with ⟨rfl, rfl⟩ | ⟨rfl, rfl⟩ <;> simp)
  have hpolicy : examplePolicy (file ++ [decision]) = { examplePolicy file with
      networkRules := (examplePolicy file).networkRules ++ [exampleRule decision] } := by
    simp [examplePolicy]
  refine ⟨Call.readsBack_of_eq hbefore (exampleCall_addRule _ _) ?_, ?_⟩
  · rw [exampleCall_line, exampleManager, exampleFile_append h, ← hpolicy]
    exact hafter
  · refine (exampleCall_run _ _).trans ?_
    rw [exampleManager, exampleFile_append h, ← hpolicy]
    rfl

/-- Allowing the host again finds its line in the file. -/
theorem exampleManager_again :
    ((saved exampleParser none).restrict fun m c => c.ReadsBack exampleParser m).step
      (exampleManager [.allow, .forbidden] [.allow, .forbidden]) (exampleCall .allow)
      (exampleManager [.allow, .forbidden, .allow] [.allow, .forbidden]) := by
  have hline : HasLine (some (exampleFile [.allow, .forbidden]))
      (networkRuleLine (exampleRule .allow)) := by decide +kernel
  refine ⟨fun _ _ _ _ hnew => ?_, (exampleCall_run _ _).trans ?_⟩
  · rw [exampleCall_line] at hnew
    exact absurd hline hnew
  · rw [exampleManager, appendLockedLine_of_hasLine hline]
    rfl

theorem exampleManager_init : (saved exampleParser none).init (exampleManager [] []) := by
  change loadExecPolicy exampleParser none (some (exampleFile [])) = .ok (examplePolicy [])
  rw [loadExecPolicy, parseFile, exampleParser_eq (.inl rfl)]
  rfl

/-- After the three calls the memory allows the host, and a restart denies it. -/
theorem saved_approvals_forgotten :
    let m := exampleManager [.allow, .forbidden, .allow] [.allow, .forbidden]
    ((saved exampleParser none).restrict fun m c => c.ReadsBack exampleParser m).Reach m ∧
      ∃ loaded, loadExecPolicy exampleParser none m.file = .ok loaded ∧
        "example.com" ∈ m.policy.compiledNetworkDomains.1 ∧
        "example.com" ∈ loaded.compiledNetworkDomains.2 := by
  have hloaded : loadExecPolicy exampleParser none (some (exampleFile [.allow, .forbidden])) =
      .ok (examplePolicy [.allow, .forbidden]) := by
    rw [loadExecPolicy, parseFile, exampleParser_eq (.inr (.inr rfl))]
    rfl
  exact ⟨.step (.step (.step (.init exampleManager_init)
    (exampleManager_step (.inl ⟨rfl, rfl⟩))) (exampleManager_step (.inr ⟨rfl, rfl⟩)))
    exampleManager_again, _, hloaded, by decide, by decide⟩

theorem saved_approvals_survive_allow :
    ∃ loaded, loadExecPolicy exampleParser none (exampleManager [.allow] [.allow]).file =
        .ok loaded ∧
      (∀ host cmd fallback options,
        ((exampleManager [.allow] [.allow]).policy.checkWithOptions host cmd fallback options).map
            Evaluation.decision =
          (loaded.checkWithOptions host cmd fallback options).map Evaluation.decision) ∧
      (∀ domain, (domain ∈ (exampleManager [.allow] [.allow]).policy.compiledNetworkDomains.1 ↔
          domain ∈ loaded.compiledNetworkDomains.1) ∧
        (domain ∈ (exampleManager [.allow] [.allow]).policy.compiledNetworkDomains.2 ↔
          domain ∈ loaded.compiledNetworkDomains.2)) := by
  obtain ⟨hreads, hstep⟩ := exampleManager_step (.inl ⟨rfl, rfl⟩)
  have hnew : ¬ HasLine (some (exampleFile []))
      (networkRuleLine ⟨"example.com", .https, .allow, none⟩) := by decide +kernel
  have hsurvives : (exampleCall .allow).Survives exampleParser none (exampleManager [] []) := by
    intro p normalized _ hnormalized _
    have hexample : normalizeNetworkRuleHost "example.com" = .ok "example.com" := by decide
    cases hexample.symm.trans hnormalized
    exact ⟨nofun, fun hline => absurd hline hnew⟩
  exact saved_approvals_survive
    (.step (.init exampleManager_init) ⟨⟨hreads, hsurvives⟩, hstep⟩)

end Mcodex.ExecPolicy
