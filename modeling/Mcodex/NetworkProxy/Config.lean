import Mathlib.Algebra.Ring.Nat
import Mcodex.Lib.Text
import Mathlib.Data.List.Defs

/-!
# The configuration of the network proxy

The settings with their domain and unix socket permissions, the patterns of domains, and the sets
that the proxy compiles from them. Texts that are looked into are lists of characters. Parsing a
host with `url`, compiling globs and creating the MITM state are parameters.
-/

namespace Mcodex.NetworkProxy

open Text

/-! ## Settings -/

inductive NetworkMode where
  | limited
  | full
  deriving DecidableEq, Repr

def networkModeRank : NetworkMode → Nat
  | .limited => 0
  | .full => 1

inductive NetworkDomainPermission where
  | none
  | allow
  | deny
  deriving DecidableEq, Repr

/-- Deny wins over allow when entries conflict. -/
def NetworkDomainPermission.rank : NetworkDomainPermission → Nat
  | .none => 0
  | .allow => 1
  | .deny => 2

structure NetworkDomainPermissionEntry where
  pattern : List Char
  permission : NetworkDomainPermission
  deriving DecidableEq, Repr

inductive NetworkUnixSocketPermission where
  | allow
  | none
  deriving DecidableEq, Repr

structure NetworkProxySettings where
  enabled : Bool
  proxyUrl : String
  enableSocks5 : Bool
  socksUrl : String
  enableSocks5Udp : Bool
  allowUpstreamProxy : Bool
  dangerouslyAllowNonLoopbackProxy : Bool
  dangerouslyAllowAllUnixSockets : Bool
  mode : NetworkMode
  domains : Option (List NetworkDomainPermissionEntry)
  unixSockets : Option (List (List Char × NetworkUnixSocketPermission))
  allowLocalBinding : Bool
  mitm : Bool
  deriving DecidableEq, Repr

def NetworkProxySettings.default : NetworkProxySettings where
  enabled := false
  proxyUrl := "http://127.0.0.1:3128"
  enableSocks5 := true
  socksUrl := "http://127.0.0.1:8081"
  enableSocks5Udp := true
  allowUpstreamProxy := true
  dangerouslyAllowNonLoopbackProxy := false
  dangerouslyAllowAllUnixSockets := false
  mode := .full
  domains := none
  unixSockets := none
  allowLocalBinding := false
  mitm := false

/-- `config.network` is all there is in a `NetworkProxyConfig`. -/
abbrev NetworkProxyConfig := NetworkProxySettings

/-- One more entry among the effective ones: a pattern keeps its first place and its strongest
permission. -/
def addEffective (entries : List NetworkDomainPermissionEntry)
    (entry : NetworkDomainPermissionEntry) : List NetworkDomainPermissionEntry :=
  if entries.any (·.pattern = entry.pattern) then
    entries.map fun e =>
      if e.pattern = entry.pattern ∧ e.permission.rank < entry.permission.rank then
        { e with permission := entry.permission }
      else e
  else entries ++ [entry]

def effectiveEntries (entries : List NetworkDomainPermissionEntry) :
    List NetworkDomainPermissionEntry :=
  entries.foldl addEffective []

namespace NetworkProxySettings

def domainEntries (s : NetworkProxySettings) (permission : NetworkDomainPermission) :
    Option (List (List Char)) :=
  (s.domains.map fun domains =>
    ((effectiveEntries domains).filter (·.permission = permission)).map
      NetworkDomainPermissionEntry.pattern).filter (· ≠ [])

def allowedDomains (s : NetworkProxySettings) : Option (List (List Char)) := s.domainEntries .allow

def deniedDomains (s : NetworkProxySettings) : Option (List (List Char)) := s.domainEntries .deny

def allowUnixSockets (s : NetworkProxySettings) : List (List Char) :=
  ((s.unixSockets.getD []).filter (·.2 = .allow)).map Prod.fst

def upsertDomainPermission (s : NetworkProxySettings) (host : List Char)
    (permission : NetworkDomainPermission) (normalize : List Char → List Char) :
    NetworkProxySettings :=
  let entries := ((s.domains.getD []).filter fun entry =>
    normalize entry.pattern ≠ normalize host) ++ [⟨host, permission⟩]
  { s with domains := if entries = [] then none else some entries }

end NetworkProxySettings

/-! ## Hosts and patterns -/

/-- `str::trim_end_matches('.')`. -/
def trimEndDots (s : List Char) : List Char := s.rdropWhile (· = '.')

def normalizeDnsHost (host : List Char) : List Char := trimEndDots (toAsciiLowercase host)

def normalizeHost (host : List Char) : List Char :=
  let host := trim host
  if host.head? = some '[' ∧ ']' ∈ host then normalizeDnsHost (host.tail.takeWhile (· ≠ ']'))
  else if host.count ':' = 1 then normalizeDnsHost (host.takeWhile (· ≠ ':'))
  else normalizeDnsHost host

/-- `Host::parse`. -/
def Host.parse (input : List Char) : Except String (List Char) :=
  let normalized := normalizeHost input
  if normalized.isEmpty then .error "host is empty" else .ok normalized

def normalizePattern (pattern : List Char) : List Char :=
  let pattern := trim pattern
  if pattern = "*".toList then pattern
  else
    match stripPrefix "**.".toList pattern, stripPrefix "*.".toList pattern with
    | some domain, _ => "**.".toList ++ normalizeHost domain
    | none, some domain => "*.".toList ++ normalizeHost domain
    | none, none => normalizeHost pattern

inductive DomainPattern where
  | apexAndSubdomains (domain : List Char)
  | subdomainsOnly (domain : List Char)
  | exact (domain : List Char)
  deriving DecidableEq, Repr

def DomainPattern.parseDomain (domain : List Char) (build : List Char → DomainPattern) :
    DomainPattern :=
  let domain := trim domain
  if domain.isEmpty then .exact [] else build domain

def DomainPattern.parse (input : List Char) : DomainPattern :=
  let input := trim input
  if input.isEmpty then .exact []
  else
    match stripPrefix "**.".toList input, stripPrefix "*.".toList input with
    | some domain, _ => parseDomain domain .apexAndSubdomains
    | none, some domain => parseDomain domain .subdomainsOnly
    | none, none => .exact input

def expandDomainPattern (pattern : List Char) : List (List Char) :=
  match DomainPattern.parse pattern with
  | .exact domain => [domain]
  | .subdomainsOnly domain => ["?*.".toList ++ domain]
  | .apexAndSubdomains domain => [domain, "?*.".toList ++ domain]

def isGlobalWildcardDomainPattern (pattern : List Char) : Bool :=
  (expandDomainPattern (normalizePattern pattern)).any (· = "*".toList)

def normalizeDomain (domain : List Char) : List Char := toAsciiLowercase (trimEndDots domain)

def domainEq (left right : List Char) : Bool := normalizeDomain left = normalizeDomain right

def isSubdomainOrEqual (child parent : List Char) : Bool :=
  normalizeDomain child = normalizeDomain parent ||
    ('.' :: normalizeDomain parent).isSuffixOf (normalizeDomain child)

def isStrictSubdomain (child parent : List Char) : Bool :=
  normalizeDomain child ≠ normalizeDomain parent &&
    ('.' :: normalizeDomain parent).isSuffixOf (normalizeDomain child)

def DomainPattern.allows : DomainPattern → DomainPattern → Bool
  | .exact domain, .exact candidate => domainEq candidate domain
  | .exact _, _ => false
  | .subdomainsOnly domain, .exact candidate => isStrictSubdomain candidate domain
  | .subdomainsOnly domain, .subdomainsOnly candidate => isSubdomainOrEqual candidate domain
  | .subdomainsOnly domain, .apexAndSubdomains candidate => isStrictSubdomain candidate domain
  | .apexAndSubdomains domain, .exact candidate
  | .apexAndSubdomains domain, .subdomainsOnly candidate
  | .apexAndSubdomains domain, .apexAndSubdomains candidate => isSubdomainOrEqual candidate domain

/-! ## What the proxy calls outside -/

/-- `url`'s host parser, the glob compiler and the constructor of the MITM state. -/
structure External (Glob GlobSet Mitm : Type) where
  urlHost : List Char → Option (List Char)
  glob : List Char → Except String Glob
  globSet : List Glob → Except String GlobSet
  mitmState : Bool → Except String Mitm

section
variable {Glob GlobSet Mitm : Type} (ext : External Glob GlobSet Mitm)

def parseDomainForConstraints (domain : List Char) : List Char :=
  let domain := trimEndDots (trim domain)
  if domain.isEmpty then []
  else
    let host := if domain.head? = some '[' ∧ domain.getLast? = some ']' then domain.tail.dropLast
      else domain
    if '*' ∈ host ∨ '?' ∈ host ∨ '%' ∈ host then domain else (ext.urlHost host).getD []

def DomainPattern.parseForConstraints (input : List Char) : DomainPattern :=
  let input := trim input
  if input.isEmpty then .exact []
  else
    match stripPrefix "**.".toList input, stripPrefix "*.".toList input with
    | some domain, _ => .apexAndSubdomains (parseDomainForConstraints ext domain)
    | none, some domain => .subdomainsOnly (parseDomainForConstraints ext domain)
    | none, none => .exact (parseDomainForConstraints ext input)

inductive GlobalWildcard where
  | allow
  | reject
  deriving DecidableEq, Repr

/-- A candidate is compiled once. -/
def addCandidate (seen : List (List Char) × List Glob) (candidate : List Char) :
    Except String (List (List Char) × List Glob) :=
  if candidate ∈ seen.1 then .ok seen
  else
    match ext.glob candidate with
    | .ok glob => .ok (seen.1 ++ [candidate], seen.2 ++ [glob])
    | .error _ => .error ("invalid glob pattern: " ++ String.ofList candidate)

def addPattern (globalWildcard : GlobalWildcard) (seen : List (List Char) × List Glob)
    (pattern : List Char) : Except String (List (List Char) × List Glob) :=
  if globalWildcard = .reject ∧ isGlobalWildcardDomainPattern pattern then
    .error ("unsupported global wildcard domain pattern \"*\"; use exact hosts or scoped " ++
      "wildcards like *.example.com or **.example.com")
  else (expandDomainPattern (normalizePattern pattern)).foldlM (addCandidate ext) seen

def compileGlobsetWithPolicy (patterns : List (List Char)) (globalWildcard : GlobalWildcard) :
    Except String GlobSet := do
  let seen ← patterns.foldlM (addPattern ext globalWildcard) ([], [])
  ext.globSet seen.2

def compileAllowlistGlobset (patterns : List (List Char)) : Except String GlobSet :=
  compileGlobsetWithPolicy ext patterns .allow

def compileDenylistGlobset (patterns : List (List Char)) : Except String GlobSet :=
  compileGlobsetWithPolicy ext patterns .reject

end

end Mcodex.NetworkProxy
