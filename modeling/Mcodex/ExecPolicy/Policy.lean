import Mcodex.Lib.Table
import Mcodex.Lib.Text
import Mathlib.Order.Lattice

/-!
# Exec policies

A policy maps the first token of a command to prefix rules. A command is matched against the rules
of its own first token; only when none of them matches, and host executables are resolved, is it
matched against the rules of its program's base name, as far as the `host_executable` table of that
name admits the program's path. The strictest matching rule decides.
-/

namespace Mcodex.ExecPolicy

open Table

/-- What a rule decides, from the mildest to the strictest. -/
inductive Decision where
  | allow
  | prompt
  | forbidden
  deriving DecidableEq, Repr

namespace Decision

def rank : Decision → Nat
  | allow => 0
  | prompt => 1
  | forbidden => 2

theorem rank_injective : Function.Injective rank := by
  intro d d' h
  cases d <;> cases d' <;> first | rfl | cases h

instance : LinearOrder Decision := LinearOrder.lift' rank rank_injective

theorem allow_le (d : Decision) : allow ≤ d := Nat.zero_le d.rank

end Decision

/-- The errors of building a policy. -/
inductive Error where
  | invalidPattern (message : String)
  | invalidRule (message : String)
  deriving DecidableEq, Repr

/-- The error as it is displayed. -/
def Error.text : Error → String
  | .invalidPattern message => "invalid pattern element: " ++ message
  | .invalidRule message => "invalid rule: " ++ message

/-! ## Rules -/

inductive PatternToken where
  | single (expected : String)
  | alts (alternatives : List String)
  deriving DecidableEq, Repr

def PatternToken.matches : PatternToken → String → Bool
  | .single expected, token => expected == token
  | .alts alternatives, token => alternatives.any (· == token)

/-- The first token is fixed, since rules are keyed by it. -/
structure PrefixPattern where
  first : String
  rest : List PatternToken
  deriving DecidableEq, Repr

def PrefixPattern.matchesPrefix (pattern : PrefixPattern) (cmd : List String) :
    Option (List String) :=
  let patternLength := pattern.rest.length + 1
  if cmd.length < patternLength || cmd.head? != some pattern.first then none
  else if (pattern.rest.zip cmd.tail).all fun (patternToken, cmdToken) =>
      patternToken.matches cmdToken then
    some (cmd.take patternLength)
  else none

theorem PrefixPattern.isSome_matchesPrefix {pattern : PrefixPattern} {cmd : List String} :
    (pattern.matchesPrefix cmd).isSome = true ↔
      pattern.rest.length + 1 ≤ cmd.length ∧ cmd.head? = some pattern.first ∧
        ((pattern.rest.zip cmd.tail).all fun (patternToken, cmdToken) =>
          patternToken.matches cmdToken) = true := by
  unfold matchesPrefix
  dsimp only
  by_cases hlen : pattern.rest.length + 1 ≤ cmd.length
  · by_cases hhead : cmd.head? = some pattern.first
    · have hneither : ¬ (decide (cmd.length < pattern.rest.length + 1) ||
          cmd.head? != some pattern.first) = true := by
        rw [Bool.or_eq_true, not_or, decide_eq_true_eq, Nat.not_lt]
        exact ⟨hlen, by simp [hhead]⟩
      rw [if_neg hneither]
      split <;> simp_all
    · rw [if_pos (by simp [hhead])]
      simp [hhead]
  · rw [if_pos (by simp [not_le.1 hlen])]
    simp [hlen]

/-- The path of a program: its components below the root, none of them `.` or `..`. -/
abbrev AbsolutePathBuf := List String

inductive RuleMatch where
  | prefixRuleMatch (matchedPrefix : List String) (decision : Decision)
      (resolvedProgram : Option AbsolutePathBuf) (justification : Option String)
  | heuristicsRuleMatch (command : List String) (decision : Decision)
  deriving DecidableEq, Repr

def RuleMatch.decision : RuleMatch → Decision
  | .prefixRuleMatch _ decision _ _ => decision
  | .heuristicsRuleMatch _ decision => decision

def RuleMatch.withResolvedProgram (resolvedProgram : AbsolutePathBuf) : RuleMatch → RuleMatch
  | .prefixRuleMatch matchedPrefix decision _ justification =>
    .prefixRuleMatch matchedPrefix decision (some resolvedProgram) justification
  | other => other

structure PrefixRule where
  pattern : PrefixPattern
  decision : Decision
  justification : Option String
  deriving DecidableEq, Repr

def PrefixRule.matches (rule : PrefixRule) (cmd : List String) : Option RuleMatch :=
  (rule.pattern.matchesPrefix cmd).map fun matchedPrefix =>
    .prefixRuleMatch matchedPrefix rule.decision none rule.justification

/-! ## Paths of programs -/

/-- The process a policy is evaluated in: its working directory, and its user's home directory. -/
structure Host where
  currentDir : Option String
  homeDir : Option String

/-- `normalize_path` on the components of an absolute path. -/
def normalizePath (path : String) : AbsolutePathBuf :=
  (path.toList.splitOn '/').foldl (fun normalized component =>
    if component = [] ∨ component = ['.'] then normalized
    else if component = ['.', '.'] then normalized.dropLast
    else normalized ++ [String.ofList component]) []

/-- `Path::join` of a relative path. -/
def joinPath (base path : String) : String :=
  if base.toList = [] ∨ base.toList.getLast? = some '/' then base ++ path else base ++ "/" ++ path

def maybeExpandHomeDirectory (host : Host) (path : String) : String :=
  match host.homeDir, path.toList with
  | some home, ['~'] => home
  | some home, '~' :: '/' :: rest => joinPath home (String.ofList (rest.dropWhile (· == '/')))
  | _, _ => path

/-- `AbsolutePathBuf::try_from`: a relative path is resolved against the working directory. -/
def AbsolutePathBuf.tryFrom (host : Host) (path : String) : Option AbsolutePathBuf :=
  let expanded := maybeExpandHomeDirectory host path
  if expanded.toList.head? = some '/' then some (normalizePath expanded)
  else host.currentDir.map fun base => normalizePath (joinPath base expanded)

/-- The base name under which the rules of a program are looked up. -/
def executablePathLookupKey (path : AbsolutePathBuf) : Option String :=
  path.getLast?

/-! ## Multimaps -/

/-- Values in the order in which they were inserted under their key. -/
abbrev MultiMap (κ : Type) (α : Type) := Keyed κ (List α)

section
variable {κ α : Type} [DecidableEq κ]

def MultiMap.getVec (m : MultiMap κ α) (k : κ) : List α :=
  (m.lookup k).getD []

def MultiMap.insertVal (m : MultiMap κ α) (k : κ) (v : α) : MultiMap κ α :=
  AList.insert k (m.getVec k ++ [v]) m

/-- Every value of `entries` inserted under its key. -/
def MultiMap.insertAll (m : MultiMap κ α) (entries : List (Sigma fun _ : κ => List α)) :
    MultiMap κ α :=
  entries.foldl (fun m entry => entry.2.foldl (fun m v => m.insertVal entry.1 v) m) m

theorem MultiMap.getVec_insertVal (m : MultiMap κ α) (k k' : κ) (v : α) :
    (m.insertVal k v).getVec k' = m.getVec k' ++ if k' = k then [v] else [] := by
  unfold getVec insertVal
  rw [lookup_insert]
  split
  · subst k'
    rfl
  · simp

theorem MultiMap.getVec_foldl_insertVal (k k' : κ) : ∀ (vs : List α) (m : MultiMap κ α),
    (vs.foldl (fun m v => m.insertVal k v) m).getVec k' =
      m.getVec k' ++ if k' = k then vs else []
  | [], m => by simp
  | v :: vs, m => by
    rw [List.foldl_cons, getVec_foldl_insertVal k k' vs, getVec_insertVal]
    split <;> simp

/-- Inserting the values of one multimap into another appends them key by key. -/
theorem MultiMap.getVec_insertAll (m m' : MultiMap κ α) (k : κ) :
    (m.insertAll m'.entries).getVec k = m.getVec k ++ m'.getVec k := by
  have key : ∀ (entries : List (Sigma fun _ : κ => List α)), entries.NodupKeys →
      ∀ m : MultiMap κ α, (m.insertAll entries).getVec k =
        m.getVec k ++ (entries.dlookup k).getD [] := by
    intro entries
    induction entries with
    | nil => simp [insertAll]
    | cons entry entries ih =>
      intro hnodup m
      rcases entry with ⟨k₀, vs⟩
      rw [List.nodupKeys_cons] at hnodup
      unfold insertAll at ih ⊢
      rw [List.foldl_cons, ih hnodup.2, getVec_foldl_insertVal]
      by_cases hk : k = k₀
      · subst k₀
        rw [List.dlookup_eq_none.2 hnodup.1, List.dlookup_cons_eq]
        simp
      · rw [List.dlookup_cons_ne _ _ hk]
        simp [hk]
  exact key m'.entries m'.nodupKeys m

end

/-! ## Network rules -/

inductive NetworkRuleProtocol where
  | http
  | https
  | socks5Tcp
  | socks5Udp
  deriving DecidableEq, Repr

structure NetworkRule where
  host : String
  protocol : NetworkRuleProtocol
  decision : Decision
  justification : Option String
  deriving DecidableEq, Repr

/-! ## Policies -/

structure Policy where
  rulesByProgram : MultiMap String PrefixRule
  networkRules : List NetworkRule
  hostExecutablesByName : Keyed String (List AbsolutePathBuf)

structure MatchOptions where
  resolveHostExecutables : Bool

/-- What a non-empty list of matches amounts to. -/
structure Evaluation where
  decision : Decision
  matchedRules : List RuleMatch
  deriving DecidableEq, Repr

/-- The strictest match decides; there is none to decide when nothing matched, which the code
takes as a broken invariant. -/
def Evaluation.fromMatches (matchedRules : List RuleMatch) : Option Evaluation :=
  (matchedRules.map RuleMatch.decision).max?.map fun decision => { decision, matchedRules }

namespace Policy

def empty : Policy := ⟨∅, [], ∅⟩

/-- Add a rule for the commands that begin with `pre`. -/
def addPrefixRule (p : Policy) (pre : List String) (decision : Decision) : Except Error Policy :=
  match pre with
  | [] => .error (.invalidPattern "prefix cannot be empty")
  | firstToken :: rest => .ok { p with
      rulesByProgram := p.rulesByProgram.insertVal firstToken
        { pattern := { first := firstToken, rest := rest.map .single }, decision
          justification := none } }

/-- The rules of both policies; the overlay's `host_executable` entries replace those of the same
name. -/
def mergeOverlay (p overlay : Policy) : Policy where
  rulesByProgram := p.rulesByProgram.insertAll overlay.rulesByProgram.entries
  networkRules := p.networkRules ++ overlay.networkRules
  hostExecutablesByName := overlay.hostExecutablesByName.entries.foldl
    (fun table entry => table.insert entry.1 entry.2) p.hostExecutablesByName

def matchExactRules (p : Policy) (cmd : List String) : Option (List RuleMatch) :=
  cmd.head?.map fun first => (p.rulesByProgram.getVec first).filterMap (·.matches cmd)

def matchHostExecutableRules (p : Policy) (host : Host) (cmd : List String) : List RuleMatch :=
  match cmd with
  | [] => []
  | first :: rest =>
    match AbsolutePathBuf.tryFrom host first with
    | none => []
    | some program =>
      match executablePathLookupKey program with
      | none => []
      | some basename =>
        match p.rulesByProgram.lookup basename with
        | none => []
        | some rules =>
          if (p.hostExecutablesByName.lookup basename).any fun paths =>
              !paths.any (· == program) then []
          else
            (rules.filterMap (·.matches (basename :: rest))).map
              (RuleMatch.withResolvedProgram program)

def matchesForCommandWithOptions (p : Policy) (host : Host) (cmd : List String)
    (heuristicsFallback : Option (List String → Decision)) (options : MatchOptions) :
    List RuleMatch :=
  let matchedRules :=
    ((p.matchExactRules cmd).filter (!·.isEmpty) <|>
      (if options.resolveHostExecutables then some (p.matchHostExecutableRules host cmd)
        else none).filter (!·.isEmpty)).getD []
  match matchedRules, heuristicsFallback with
  | [], some fallback => [.heuristicsRuleMatch cmd (fallback cmd)]
  | matchedRules, _ => matchedRules

def checkWithOptions (p : Policy) (host : Host) (cmd : List String)
    (heuristicsFallback : List String → Decision) (options : MatchOptions) : Option Evaluation :=
  Evaluation.fromMatches (p.matchesForCommandWithOptions host cmd (some heuristicsFallback) options)

end Policy

/-! ## What matches -/

namespace Policy

section
variable (p overlay : Policy) (host : Host) (cmd : List String)

/-- The rules of the command's own first token that match it. -/
def exactMatches : List RuleMatch := (p.matchExactRules cmd).getD []

/-- The prefix rules that match a command when host executables are resolved. -/
def ruleMatches : List RuleMatch :=
  p.matchesForCommandWithOptions host cmd none ⟨true⟩

/-- The path and the base name of the program of a command. -/
def resolveProgram (host : Host) (cmd : List String) : Option (AbsolutePathBuf × String) := do
  let program ← AbsolutePathBuf.tryFrom host (← cmd.head?)
  return (program, ← executablePathLookupKey program)

/-- The `host_executable` table lets the rules of a base name apply to a program. -/
def Admits (program : AbsolutePathBuf) (basename : String) : Prop :=
  ∀ paths, p.hostExecutablesByName.lookup basename = some paths → program ∈ paths

theorem exactMatches_cons (first : String) (rest : List String) :
    p.exactMatches (first :: rest) =
      (p.rulesByProgram.getVec first).filterMap (·.matches (first :: rest)) := rfl

end

end Policy

end Mcodex.ExecPolicy
