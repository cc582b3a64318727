import Mcodex.Lib.Effect
import Mcodex.NetworkProxy.Config

/-!
# Managed constraints and the state built from a configuration

A managed configuration bounds what the user's may say. `validatePolicyAgainstConstraints` checks
one setting after the other; only the check of the mode looks at the mode
(`validatePolicy_withMode`).
-/

namespace Mcodex.NetworkProxy

open Text Effect

structure NetworkProxyConstraints where
  enabled : Option Bool
  mode : Option NetworkMode
  allowUpstreamProxy : Option Bool
  dangerouslyAllowNonLoopbackProxy : Option Bool
  dangerouslyAllowAllUnixSockets : Option Bool
  allowedDomains : Option (List (List Char))
  allowlistExpansionEnabled : Option Bool
  deniedDomains : Option (List (List Char))
  denylistExpansionEnabled : Option Bool
  allowUnixSockets : Option (List (List Char))
  allowLocalBinding : Option Bool
  deriving DecidableEq, Repr

def NetworkProxyConstraints.default : NetworkProxyConstraints :=
  ⟨none, none, none, none, none, none, none, none, none, none, none⟩

/-- A value in an error: a text, or a list as `{:?}` prints it. -/
inductive Shown where
  | text (text : String)
  | debug (entries : List (List Char))
  deriving DecidableEq, Repr

/-- `InvalidValue`. -/
structure NetworkProxyConstraintError where
  fieldName : String
  candidate : Shown
  allowed : Shown
  deriving DecidableEq, Repr

/-! ## Checks -/

abbrev Check := Except NetworkProxyConstraintError Unit

def validate (valid : Bool) (fieldName : String) (candidate allowed : Shown) : Check :=
  if valid then .ok () else .error ⟨fieldName, candidate, allowed⟩

def validateNonGlobalWildcardDomainPatterns (fieldName : String) (patterns : List (List Char)) :
    Check :=
  match patterns.find? isGlobalWildcardDomainPattern with
  | some pattern => .error ⟨fieldName, .text (String.ofList (trim pattern)),
      .text "exact hosts or scoped wildcards like *.example.com or **.example.com"⟩
  | none => .ok ()

/-- A flag that only an unmanaged or a permitting configuration may set. -/
def validateFlag (fieldName : String) (candidate permitted : Bool) : Check :=
  validate (!candidate || permitted) fieldName (.text "true")
    (.text "false (disabled by managed config)")

def NetworkMode.debug : NetworkMode → String
  | .limited => "Limited"
  | .full => "Full"

def validateMode (candidate : NetworkMode) : Option NetworkMode → Check
  | some maxMode => validate (networkModeRank candidate ≤ networkModeRank maxMode) "network.mode"
      (.text candidate.debug) (.text (maxMode.debug ++ " or more restrictive"))
  | none => .ok ()

/-- The lower-case entries of a set, in the order of the list it is made from. -/
def lowerSet (entries : List (List Char)) : List (List Char) :=
  (entries.map toAsciiLowercase).eraseDups

/-- Two lists have the same members. -/
def sameSet (xs ys : List (List Char)) : Bool := xs.all (· ∈ ys) && ys.all (· ∈ xs)

section
variable {Glob GlobSet Mitm : Type} (ext : External Glob GlobSet Mitm)

def validateAllowedDomains (candidate denied : List (List Char))
    (constraints : NetworkProxyConstraints) : Check :=
  match constraints.allowedDomains with
  | none => .ok ()
  | some allowedDomains => do
    validateNonGlobalWildcardDomainPatterns "network.allowed_domains" allowedDomains
    match constraints.allowlistExpansionEnabled with
    | some true =>
      let missing := (lowerSet allowedDomains).filter fun entry =>
        entry ∉ lowerSet candidate ∧ entry ∉ lowerSet denied
      validate missing.isEmpty "network.allowed_domains"
        (.text "missing managed allowed_domains entries") (.debug missing)
    | some false =>
      let expected := (lowerSet allowedDomains).filter (· ∉ lowerSet denied)
      validate (sameSet (lowerSet candidate) expected) "network.allowed_domains" (.debug candidate)
        (.text "must match managed allowed_domains")
    | none =>
      let managedPatterns := allowedDomains.map (DomainPattern.parseForConstraints ext)
      let invalid := candidate.filter fun entry => !managedPatterns.any fun managed =>
        managed.allows (DomainPattern.parseForConstraints ext entry)
      validate invalid.isEmpty "network.allowed_domains" (.debug invalid)
        (.text "subset of managed allowed_domains")

def validateDeniedDomains (candidate : List (List Char)) (constraints : NetworkProxyConstraints) :
    Check :=
  match constraints.deniedDomains with
  | none => .ok ()
  | some deniedDomains => do
    validateNonGlobalWildcardDomainPatterns "network.denied_domains" deniedDomains
    let required := lowerSet deniedDomains
    match constraints.denylistExpansionEnabled with
    | some false =>
      validate (sameSet (lowerSet candidate) required) "network.denied_domains" (.debug candidate)
        (.text "must match managed denied_domains")
    | some true | none =>
      let missing := required.filter (· ∉ lowerSet candidate)
      validate missing.isEmpty "network.denied_domains"
        (.text "missing managed denied_domains entries") (.debug missing)

def validateUnixSockets (candidate : List (List Char)) (constraints : NetworkProxyConstraints) :
    Check :=
  match constraints.allowUnixSockets with
  | none => .ok ()
  | some allowUnixSockets =>
    let invalid := candidate.filter fun entry =>
      toAsciiLowercase entry ∉ allowUnixSockets.map toAsciiLowercase
    validate invalid.isEmpty "network.allow_unix_sockets" (.debug invalid)
      (.text "subset of managed allow_unix_sockets")

def validatePolicyAgainstConstraints (config : NetworkProxyConfig)
    (constraints : NetworkProxyConstraints) : Check := do
  let allowedDomains := config.allowedDomains.getD []
  let deniedDomains := config.deniedDomains.getD []
  validateNonGlobalWildcardDomainPatterns "network.denied_domains" deniedDomains
  validateFlag "network.enabled" config.enabled (constraints.enabled.getD true)
  validateMode config.mode constraints.mode
  validateFlag "network.allow_upstream_proxy" config.allowUpstreamProxy
    (constraints.allowUpstreamProxy.getD true)
  validateFlag "network.dangerously_allow_non_loopback_proxy"
    config.dangerouslyAllowNonLoopbackProxy
    (constraints.dangerouslyAllowNonLoopbackProxy.getD true)
  validateFlag "network.dangerously_allow_all_unix_sockets" config.dangerouslyAllowAllUnixSockets
    (constraints.dangerouslyAllowAllUnixSockets.getD constraints.allowUnixSockets.isNone)
  validateFlag "network.allow_local_binding" config.allowLocalBinding
    (constraints.allowLocalBinding.getD true)
  validateAllowedDomains ext allowedDomains deniedDomains constraints
  validateDeniedDomains deniedDomains constraints
  validateUnixSockets config.allowUnixSockets constraints

/-- A valid configuration stays valid under a mode with which some other one is valid. -/
theorem validatePolicy_withMode {config other : NetworkProxyConfig}
    {constraints : NetworkProxyConstraints} {mode : NetworkMode}
    (h : validatePolicyAgainstConstraints ext config constraints = .ok ())
    (hmode : validatePolicyAgainstConstraints ext { other with mode } constraints = .ok ()) :
    validatePolicyAgainstConstraints ext { config with mode } constraints = .ok () := by
  unfold validatePolicyAgainstConstraints at h hmode ⊢
  simp only [Effect.bind_eq_ok] at h hmode ⊢
  obtain ⟨⟨⟩, hwildcard, ⟨⟩, henabled, ⟨⟩, -, hrest⟩ := h
  obtain ⟨⟨⟩, -, ⟨⟩, -, ⟨⟩, hmode, -⟩ := hmode
  exact ⟨(), hwildcard, (), henabled, (), hmode, hrest⟩

/-! ## The state -/

inductive StateError where
  | constraint (error : NetworkProxyConstraintError)
  | unixSocket (index : Nat) (path : List Char)
  | other (text : String)

structure BlockedRequest where
  host : String
  reason : String
  client : Option String
  method : Option String
  mode : Option NetworkMode
  protocol : String
  decision : Option String
  source : Option String
  port : Option Nat
  timestamp : Int
  deriving DecidableEq, Repr

structure ConfigState (GlobSet Mitm : Type) where
  config : NetworkProxyConfig
  allowSet : GlobSet
  denySet : GlobSet
  mitm : Option Mitm
  constraints : NetworkProxyConstraints
  blocked : List BlockedRequest
  blockedTotal : Nat

/-- The first unix socket that is no absolute path. -/
def validateUnixSocketAllowlistPaths (config : NetworkProxyConfig) : Except StateError Unit :=
  match config.allowUnixSockets.zipIdx.find? (·.1.head? ≠ some '/') with
  | some (path, index) => .error (.unixSocket index path)
  | none => .ok ()

/-- The MITM state of a configuration that asks for one. -/
def buildMitm (config : NetworkProxyConfig) : Except StateError (Option Mitm) :=
  if config.mitm then ((ext.mitmState config.allowUpstreamProxy).map some).mapError .other
  else .ok none

def buildConfigState (config : NetworkProxyConfig) (constraints : NetworkProxyConstraints) :
    Except StateError (ConfigState GlobSet Mitm) := do
  validateUnixSocketAllowlistPaths config
  let allowedDomains := config.allowedDomains.getD []
  let deniedDomains := config.deniedDomains.getD []
  (validateNonGlobalWildcardDomainPatterns "network.denied_domains" deniedDomains).mapError
    .constraint
  let denySet ← (compileDenylistGlobset ext deniedDomains).mapError .other
  let allowSet ← (compileAllowlistGlobset ext allowedDomains).mapError .other
  let mitm ← buildMitm ext config
  return ⟨config, allowSet, denySet, mitm, constraints, [], 0⟩

/-- The sets of a state are those compiled from its configuration. -/
def ConfigState.Compiled (state : ConfigState GlobSet Mitm) : Prop :=
  compileAllowlistGlobset ext (state.config.allowedDomains.getD []) = .ok state.allowSet ∧
    compileDenylistGlobset ext (state.config.deniedDomains.getD []) = .ok state.denySet

theorem mapError_eq_ok {ε ε' α : Type} {x : Except ε α} {f : ε → ε'} {a : α} :
    x.mapError f = .ok a ↔ x = .ok a := by
  cases x <;> simp [Except.mapError]

/-- What a built state is made of. -/
theorem buildConfigState_spec {config : NetworkProxyConfig} {constraints : NetworkProxyConstraints}
    {state : ConfigState GlobSet Mitm} (h : buildConfigState ext config constraints = .ok state) :
    state.config = config ∧ state.constraints = constraints ∧ state.Compiled ext ∧
      state.blocked = [] ∧ state.blockedTotal = 0 := by
  unfold buildConfigState at h
  simp only [Effect.bind_eq_ok] at h
  obtain ⟨⟨⟩, -, ⟨⟩, -, denySet, hdeny, allowSet, hallow, mitm, -, hstate⟩ := h
  rw [mapError_eq_ok] at hdeny hallow
  cases hstate
  exact ⟨rfl, rfl, ⟨hallow, hdeny⟩, rfl, rfl⟩

end

end Mcodex.NetworkProxy
