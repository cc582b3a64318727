import Mcodex.ExecPolicy.Policy

/-!
# Amending a policy and its rules file

An amendment is appended to the rules file as a line, unless the file has that line already, and
added to the policy in memory. `load` is what a restart makes of the file: the rules that the
Starlark parser reads from it, under the overlay of the requirements. The parser itself is a
parameter.
-/

namespace Mcodex.ExecPolicy

open Text

/-! ## Network rules -/

/-- The first and the last part of a text around the first `c` in it. -/
def splitOnce (c : Char) (s : List Char) : Option (List Char × List Char) :=
  if c ∈ s then some (s.takeWhile (· ≠ c), (s.dropWhile (· ≠ c)).drop 1) else none

/-- The text inside the brackets of an IPv6 literal, which a port may follow. -/
def stripBrackets (raw : String) (stripped : List Char) : Except Error (List Char) :=
  match splitOnce ']' stripped with
  | none => .error (.invalidRule "network_rule host has an invalid bracketed IPv6 literal")
  | some (inside, rest) =>
    let portOk := match rest with
      | ':' :: port => !port.isEmpty && port.all isAsciiDigit
      | _ => false
    if !rest.isEmpty && !portOk then
      .error (.invalidRule ("network_rule host contains an unsupported suffix: " ++ raw))
    else .ok inside

/-- A host without the port that follows its only colon. -/
def stripPort (host : List Char) : List Char :=
  match splitOnce ':' host with
  | some (candidate, port) =>
    if host.count ':' = 1 ∧ candidate ≠ [] ∧ port ≠ [] ∧ port.all isAsciiDigit then candidate
    else host
  | none => host

def normalizeNetworkRuleHost (raw : String) : Except Error String := do
  let host := trim raw.toList
  if host.isEmpty then throw (.invalidRule "network_rule host cannot be empty")
  if host.tails.any "://".toList.isPrefixOf || '/' ∈ host || '?' ∈ host || '#' ∈ host then
    throw (.invalidRule
      "network_rule host must be a hostname or IP literal (without scheme or path)")
  let host ← match host with
    | '[' :: stripped => stripBrackets raw stripped
    | host => pure (stripPort host)
  let normalized := toAsciiLowercase (trim (host.rdropWhile (· = '.')))
  if normalized.isEmpty then throw (.invalidRule "network_rule host cannot be empty")
  if '*' ∈ normalized then
    throw (.invalidRule "network_rule host must be a specific host; wildcards are not allowed")
  if normalized.any isWhitespace then
    throw (.invalidRule "network_rule host cannot contain whitespace")
  return String.ofList normalized

def Policy.addNetworkRule (p : Policy) (host : String) (protocol : NetworkRuleProtocol)
    (decision : Decision) (justification : Option String) : Except Error Policy := do
  let host ← normalizeNetworkRuleHost host
  if justification.any fun raw => (trim raw.toList).isEmpty then
    throw (.invalidRule "justification cannot be empty")
  return { p with networkRules := p.networkRules ++ [⟨host, protocol, decision, justification⟩] }

/-- An entry moves to the end of the list. -/
def upsertDomain (entries : List String) (host : String) : List String :=
  entries.filter (· ≠ host) ++ [host]

/-- The allowed and the denied hosts after one more rule. -/
def compileNetworkRule (domains : List String × List String) (rule : NetworkRule) :
    List String × List String :=
  match rule.decision with
  | .allow => (upsertDomain domains.1 rule.host, domains.2.filter (· ≠ rule.host))
  | .forbidden => (domains.1.filter (· ≠ rule.host), upsertDomain domains.2 rule.host)
  | .prompt => domains

def Policy.compiledNetworkDomains (p : Policy) : List String × List String :=
  p.networkRules.foldl compileNetworkRule ([], [])

/-! ## Lines of a rules file -/

/-- The digits of `serde_json`'s escapes. -/
def hexDigit (n : Nat) : Char :=
  if n < 10 then Char.ofNat ('0'.toNat + n) else Char.ofNat ('a'.toNat + (n - 10))

/-- A character inside a JSON string. -/
def jsonEscape (c : Char) : List Char :=
  match c with
  | '"' => ['\\', '"']
  | '\\' => ['\\', '\\']
  | '\n' => ['\\', 'n']
  | '\r' => ['\\', 'r']
  | '\t' => ['\\', 't']
  | c =>
    if c.toNat = 8 then ['\\', 'b']
    else if c.toNat = 12 then ['\\', 'f']
    else if c.toNat < 32 then
      ['\\', 'u', '0', '0', hexDigit (c.toNat / 16), hexDigit (c.toNat % 16)]
    else [c]

/-- `serde_json::to_string` of a string. -/
def jsonString (s : String) : List Char := '"' :: s.toList.flatMap jsonEscape ++ ['"']

/-- `join(", ")`. -/
def joinComma (parts : List (List Char)) : List Char := List.intercalate [',', ' '] parts

def allowPrefixRuleLine (pre : List String) : List Char :=
  "prefix_rule(pattern=[".toList ++ joinComma (pre.map jsonString) ++
    "], decision=\"allow\")".toList

def NetworkRuleProtocol.asPolicyString : NetworkRuleProtocol → String
  | .http => "http"
  | .https => "https"
  | .socks5Tcp => "socks5_tcp"
  | .socks5Udp => "socks5_udp"

/-- A decision as a network rule spells it. -/
def networkRuleDecision : Decision → String
  | .allow => "allow"
  | .prompt => "prompt"
  | .forbidden => "deny"

def networkRuleLine (rule : NetworkRule) : List Char :=
  let args := ["host=".toList ++ jsonString rule.host,
    "protocol=".toList ++ jsonString rule.protocol.asPolicyString,
    "decision=".toList ++ jsonString (networkRuleDecision rule.decision)] ++
    (rule.justification.map fun raw => "justification=".toList ++ jsonString raw).toList
  "network_rule(".toList ++ joinComma args ++ [')']

/-- The contents of a rules file, when there is one. -/
abbrev RulesFile := Option (List Char)

/-- The file has the line already. -/
def HasLine (file : RulesFile) (line : List Char) : Prop := line ∈ lines (file.getD [])

instance (file : RulesFile) (line : List Char) : Decidable (HasLine file line) :=
  inferInstanceAs (Decidable (_ ∈ _))

def appendLockedLine (file : RulesFile) (line : List Char) : RulesFile :=
  let contents := file.getD []
  if HasLine file line then some contents
  else if contents ≠ [] ∧ contents.getLast? ≠ some '\n' then
    some (contents ++ ['\n'] ++ line ++ ['\n'])
  else some (contents ++ line ++ ['\n'])

/-! ## The manager -/

inductive AmendError where
  | emptyPrefix
  | invalidNetworkRule (message : String)
  deriving DecidableEq

inductive ExecPolicyUpdateError where
  | appendRule (source : AmendError)
  | addRule (source : Error)
  deriving DecidableEq

/-- The policy in memory and the rules file. -/
structure ExecPolicyManager where
  policy : Policy
  file : RulesFile

/-- The rules that allow the amendment's own command allow it already. -/
def alreadyAllowed (p : Policy) (host : Host) (command : List String) : Bool :=
  match p.checkWithOptions host command (fun _ => .forbidden) ⟨true⟩ with
  | some e => e.decision = .allow && e.matchedRules.any fun
      | .prefixRuleMatch _ decision _ _ => decision = .allow
      | .heuristicsRuleMatch .. => false
  | none => false

def blockingAppendAllowPrefixRule (pre : List String) (file : RulesFile) :
    Except AmendError RulesFile :=
  if pre = [] then .error .emptyPrefix
  else .ok (appendLockedLine file (allowPrefixRuleLine pre))

def blockingAppendNetworkRule (host : String) (protocol : NetworkRuleProtocol)
    (decision : Decision) (justification : Option String) (file : RulesFile) :
    Except AmendError RulesFile := do
  let host ← (normalizeNetworkRuleHost host).mapError fun e => .invalidNetworkRule e.text
  if justification.any fun raw => (trim raw.toList).isEmpty then
    throw (.invalidNetworkRule "justification cannot be empty")
  return appendLockedLine file (networkRuleLine ⟨host, protocol, decision, justification⟩)

def appendAmendmentAndUpdate (host : Host) (command : List String) (m : ExecPolicyManager) :
    Except ExecPolicyUpdateError ExecPolicyManager := do
  let file ← (blockingAppendAllowPrefixRule command m.file).mapError .appendRule
  if alreadyAllowed m.policy host command then return { m with file }
  let policy ← (m.policy.addPrefixRule command .allow).mapError .addRule
  return { policy, file }

def appendNetworkRuleAndUpdate (host : String) (protocol : NetworkRuleProtocol)
    (decision : Decision) (justification : Option String) (m : ExecPolicyManager) :
    Except ExecPolicyUpdateError ExecPolicyManager := do
  let file ← (blockingAppendNetworkRule host protocol decision justification m.file).mapError
    .appendRule
  let policy ← (m.policy.addNetworkRule host protocol decision justification).mapError .addRule
  return { policy, file }

/-! ## Loading -/

/-- What the Starlark parser builds from the contents of a rules file. -/
abbrev PolicyParser := List Char → Except String Policy

def parseFile (parse : PolicyParser) : RulesFile → Except String Policy
  | some contents => parse contents
  | none => .ok Policy.empty

/-- A policy under the overlay of the requirements, when there is one. -/
def Policy.withRequirements (p : Policy) : Option Policy → Policy
  | some requirements => p.mergeOverlay requirements
  | none => p

/-- `load_exec_policy` with `default.rules` as the only rules file. -/
def loadExecPolicy (parse : PolicyParser) (requirements : Option Policy) (file : RulesFile) :
    Except String Policy := do
  let policy ← parseFile parse file
  return policy.withRequirements requirements

end Mcodex.ExecPolicy
