import Mcodex.Lib.Transition
import Mcodex.NetworkProxy.Constraints

/-!
# The state of the network proxy under concurrent updates

An update reads the state in one lock section, works outside, and writes a whole state back in
another. `InFlight` is what an update holds between the two. The policy stays valid in every run
(`policy_valid`). The record of blocked requests does so as long as what a write brings back is still
current (`KeepsRecords`): the write of a domain update compares the configuration and the
constraints only, that of a reload on demand compares nothing, and a forced reload keeps the buffer
but not the total.
-/

namespace Mcodex.NetworkProxy

open Transition

def maxBlockedEvents : Nat := 200

/-- The largest total, where counting saturates. -/
def maxTotal : Nat := 2 ^ 64 - 1

/-- What the buffer keeps of a list of records. -/
def latest (records : List BlockedRequest) : List BlockedRequest :=
  records.drop (records.length - maxBlockedEvents)

inductive DomainListKind where
  | allow
  | deny
  deriving DecidableEq, Repr

namespace DomainListKind

def permission : DomainListKind → NetworkDomainPermission
  | .allow => .allow
  | .deny => .deny

def entries (kind : DomainListKind) (network : NetworkProxySettings) : List (List Char) :=
  match kind with
  | .allow => network.allowedDomains.getD []
  | .deny => network.deniedDomains.getD []

def oppositeEntries (kind : DomainListKind) (network : NetworkProxySettings) :
    List (List Char) :=
  match kind with
  | .allow => network.deniedDomains.getD []
  | .deny => network.allowedDomains.getD []

end DomainListKind

section
variable {Glob GlobSet Mitm : Type}

/-- What an update holds between its two lock sections. -/
inductive InFlight (GlobSet Mitm : Type) where
  | reload (newState : ConfigState GlobSet Mitm)
  | setMode (mode : NetworkMode) (constraints : NetworkProxyConstraints)
  | setDomains (previousCfg : NetworkProxyConfig) (constraints : NetworkProxyConstraints)
      (newState : ConfigState GlobSet Mitm)

/-- The second lock section. An update that finds another policy changes nothing and starts again. -/
def InFlight.write (state : ConfigState GlobSet Mitm) :
    InFlight GlobSet Mitm → ConfigState GlobSet Mitm
  | .reload newState => newState
  | .setMode mode constraints =>
    if state.constraints = constraints then { state with config := { state.config with mode } }
    else state
  | .setDomains previousCfg constraints newState =>
    if state.constraints = constraints ∧ state.config = previousCfg then newState else state

/-- The proxy's state, the updates under way, and its history: how many requests were recorded, and
which since the buffer was drained. -/
structure Proxy (GlobSet Mitm : Type) where
  state : ConfigState GlobSet Mitm
  inFlight : List (InFlight GlobSet Mitm)
  recorded : Nat
  sinceDrain : List BlockedRequest

variable (ext : External Glob GlobSet Mitm)

/-- A state as the reloader and the callers supply it. -/
def Supplied (newState : ConfigState GlobSet Mitm) : Prop :=
  ∃ config constraints, buildConfigState ext config constraints = .ok newState ∧
    validatePolicyAgainstConstraints ext config constraints = .ok ()

/-- What `update_domain_list` makes of the state it read, unless the list has the host already. -/
def updatedState (target : DomainListKind) (normalizedHost : List Char)
    (state : ConfigState GlobSet Mitm) : Except StateError (Option (ConfigState GlobSet Mitm)) := do
  let contains := fun entries : List (List Char) =>
    entries.any fun entry => normalizeHost entry = normalizedHost
  if contains (target.entries state.config) && !contains (target.oppositeEntries state.config) then
    return none
  else
    let candidate := state.config.upsertDomainPermission normalizedHost target.permission
      normalizeHost
    (validatePolicyAgainstConstraints ext candidate state.constraints).mapError .constraint
    let newState ← buildConfigState ext candidate state.constraints
    return some { newState with blocked := state.blocked, blockedTotal := state.blockedTotal }

inductive Event (GlobSet Mitm : Type) where
  | maybeReload (newState : ConfigState GlobSet Mitm)
  | setNetworkMode (mode : NetworkMode)
  | updateDomainList (target : DomainListKind) (host : List Char)
  | write (i : Nat)
  | forceReload (newState : ConfigState GlobSet Mitm)
  | replaceConfigState (newState : ConfigState GlobSet Mitm)
  | recordBlocked (entry : BlockedRequest)
  | drainBlocked

/-- One lock section after the other. The first three events are the first sections of updates,
`write` is the second section of one of them. -/
def proxy : System (Proxy GlobSet Mitm) (Event GlobSet Mitm) where
  init p := Supplied ext p.state ∧ p.inFlight = [] ∧ p.recorded = 0 ∧ p.sinceDrain = []
  step p event p' :=
    match event with
    | .maybeReload newState => Supplied ext newState ∧ p' = { p with
        inFlight := p.inFlight ++ [.reload { newState with
          blocked := p.state.blocked, blockedTotal := p.state.blockedTotal }] }
    | .setNetworkMode mode =>
      validatePolicyAgainstConstraints ext { p.state.config with mode } p.state.constraints =
        .ok () ∧
      p' = { p with inFlight := p.inFlight ++ [.setMode mode p.state.constraints] }
    | .updateDomainList target host => ∃ normalizedHost newState,
      Host.parse host = .ok normalizedHost ∧
      updatedState ext target normalizedHost p.state = .ok (some newState) ∧
      p' = { p with
        inFlight := p.inFlight ++ [.setDomains p.state.config p.state.constraints newState] }
    | .write i => ∃ update, p.inFlight[i]? = some update ∧
      p' = { p with state := update.write p.state, inFlight := p.inFlight.eraseIdx i }
    | .forceReload newState => Supplied ext newState ∧
      p' = { p with state := { newState with blocked := p.state.blocked } }
    | .replaceConfigState newState => Supplied ext newState ∧ p' = { p with
        state := { newState with
          blocked := p.state.blocked, blockedTotal := p.state.blockedTotal } }
    | .recordBlocked entry => p' = { p with
        state := { p.state with
          blocked := latest (p.state.blocked ++ [entry])
          blockedTotal := min (p.state.blockedTotal + 1) maxTotal }
        recorded := p.recorded + 1
        sinceDrain := p.sinceDrain ++ [entry] }
    | .drainBlocked => p' = { p with state := { p.state with blocked := [] }, sinceDrain := [] }

/-! ## The policy -/

/-- The policy keeps its constraints, and the sets are compiled from it. -/
def ConfigState.Valid (state : ConfigState GlobSet Mitm) : Prop :=
  validatePolicyAgainstConstraints ext state.config state.constraints = .ok () ∧ state.Compiled ext

/-- What an update is about to write keeps the policy valid. -/
def InFlight.Valid : InFlight GlobSet Mitm → Prop
  | .reload newState => newState.Valid ext
  | .setMode mode constraints => ∃ config : NetworkProxyConfig,
    validatePolicyAgainstConstraints ext { config with mode } constraints = .ok ()
  | .setDomains _ _ newState => newState.Valid ext

/-- The policy is valid, and stays so whatever update is written next. -/
def Proxy.Valid (p : Proxy GlobSet Mitm) : Prop :=
  p.state.Valid ext ∧ ∀ update ∈ p.inFlight, update.Valid ext

variable {ext}

theorem Supplied.valid {newState : ConfigState GlobSet Mitm} (h : Supplied ext newState) :
    newState.Valid ext := by
  obtain ⟨config, constraints, hbuild, hvalid⟩ := h
  obtain ⟨rfl, rfl, hcompiled, -, -⟩ := buildConfigState_spec ext hbuild
  exact ⟨hvalid, hcompiled⟩

theorem updatedState_valid {target : DomainListKind} {normalizedHost : List Char}
    {state newState : ConfigState GlobSet Mitm}
    (h : updatedState ext target normalizedHost state = .ok (some newState)) :
    newState.Valid ext := by
  unfold updatedState at h
  dsimp only at h
  split at h
  · cases h
  · simp only [Effect.bind_eq_ok] at h
    obtain ⟨⟨⟩, hvalid, built, hbuild, hnew⟩ := h
    rw [mapError_eq_ok] at hvalid
    obtain ⟨hconfig, hconstraints, hcompiled, -, -⟩ := buildConfigState_spec ext hbuild
    cases hnew
    refine ⟨?_, hcompiled⟩
    dsimp only
    rw [hconfig, hconstraints]
    exact hvalid

theorem InFlight.write_valid {update : InFlight GlobSet Mitm} {state : ConfigState GlobSet Mitm}
    (h : update.Valid ext) (hstate : state.Valid ext) : (update.write state).Valid ext := by
  cases update with
  | reload newState => exact h
  | setMode mode constraints =>
    rw [InFlight.write]
    split
    · next hconstraints =>
      obtain ⟨config, hmode⟩ := h
      rw [← hconstraints] at hmode
      exact ⟨validatePolicy_withMode ext hstate.1 hmode, hstate.2⟩
    · exact hstate
  | setDomains previousCfg constraints newState =>
    rw [InFlight.write]
    split
    · exact h
    · exact hstate

/-- Whatever the interleaving, the policy is valid and compiled. -/
theorem policy_valid {p : Proxy GlobSet Mitm} (h : (proxy ext).Reach p) : p.Valid ext := by
  refine h.invariant ?_ ?_
  · rintro p ⟨hsupplied, hinFlight, -, -⟩
    refine ⟨hsupplied.valid, ?_⟩
    rw [hinFlight]
    exact fun _ hu => nomatch hu
  · rintro p event p' ⟨hstate, hinFlight⟩ hstep
    have append : ∀ update : InFlight GlobSet Mitm, update.Valid ext →
        ∀ u ∈ p.inFlight ++ [update], u.Valid ext := by
      intro update hupdate u hu
      rcases List.mem_append.1 hu with hu | hu
      · exact hinFlight u hu
      · rwa [List.mem_singleton.1 hu]
    cases event with
    | maybeReload newState =>
      obtain ⟨hsupplied, rfl⟩ := hstep
      exact ⟨hstate, append _ hsupplied.valid⟩
    | setNetworkMode mode =>
      obtain ⟨hmode, rfl⟩ := hstep
      exact ⟨hstate, append _ ⟨_, hmode⟩⟩
    | updateDomainList target host =>
      obtain ⟨normalizedHost, newState, -, hnew, rfl⟩ := hstep
      exact ⟨hstate, append _ (updatedState_valid hnew)⟩
    | write i =>
      obtain ⟨update, hi, rfl⟩ := hstep
      have hupdate := hinFlight update (List.mem_of_getElem? hi)
      exact ⟨InFlight.write_valid hupdate hstate, fun u hu => hinFlight u (List.mem_of_mem_eraseIdx hu)⟩
    | forceReload newState | replaceConfigState newState =>
      obtain ⟨hsupplied, rfl⟩ := hstep
      exact ⟨hsupplied.valid, hinFlight⟩
    | recordBlocked entry | drainBlocked =>
      subst hstep
      obtain ⟨hvalid, hallow, hdeny⟩ := hstate
      exact ⟨⟨hvalid, hallow, hdeny⟩, hinFlight⟩

/-! ## The record of blocked requests -/

theorem latest_append (records : List BlockedRequest) (entry : BlockedRequest) :
    latest (latest records ++ [entry]) = latest (records ++ [entry]) := by
  unfold latest
  have hdrop : records.length - maxBlockedEvents ≤ records.length := Nat.sub_le _ _
  have happend : records.drop (records.length - maxBlockedEvents) ++ [entry] =
      (records ++ [entry]).drop (records.length - maxBlockedEvents) :=
    (List.drop_append_of_le_length hdrop).symm
  rw [happend, List.drop_drop]
  refine congrArg (fun n => (records ++ [entry]).drop n) ?_
  rw [List.length_drop, List.length_append, List.length_singleton]
  omega

/-- No record is lost: the total counts the records, and the buffer holds the latest of those made
since it was drained. -/
structure Proxy.Counted (p : Proxy GlobSet Mitm) : Prop where
  total : p.state.blockedTotal = p.recorded
  blocked : p.state.blocked = latest p.sinceDrain

/-- The buffer and the total that an update brings back are those of the state it replaces. -/
def InFlight.Current (state : ConfigState GlobSet Mitm) : InFlight GlobSet Mitm → Prop
  | .reload newState =>
    newState.blocked = state.blocked ∧ newState.blockedTotal = state.blockedTotal
  | .setMode _ _ => True
  | .setDomains previousCfg constraints newState =>
    state.constraints = constraints ∧ state.config = previousCfg →
      newState.blocked = state.blocked ∧ newState.blockedTotal = state.blockedTotal

/-- The steps that lose no record. -/
def KeepsRecords (p : Proxy GlobSet Mitm) : Event GlobSet Mitm → Prop
  | .write i => ∀ update, p.inFlight[i]? = some update → update.Current p.state
  | .forceReload newState => newState.blockedTotal = p.state.blockedTotal
  | .recordBlocked _ => p.state.blockedTotal < maxTotal
  | _ => True

theorem InFlight.write_blocked {update : InFlight GlobSet Mitm} {state : ConfigState GlobSet Mitm}
    (h : update.Current state) : (update.write state).blocked = state.blocked ∧
      (update.write state).blockedTotal = state.blockedTotal := by
  cases update with
  | reload newState => exact h
  | setMode mode constraints =>
    rw [InFlight.write]
    split
    · exact ⟨rfl, rfl⟩
    · exact ⟨rfl, rfl⟩
  | setDomains previousCfg constraints newState =>
    rw [InFlight.write]
    split
    · next hsame => exact h hsame
    · exact ⟨rfl, rfl⟩

theorem counted_of_reach {p : Proxy GlobSet Mitm} (h : ((proxy ext).restrict KeepsRecords).Reach p) :
    p.Counted := by
  refine h.invariant ?_ ?_
  · rintro p ⟨⟨config, constraints, hbuild, -⟩, -, hrecorded, hsinceDrain⟩
    obtain ⟨-, -, -, hblocked, htotal⟩ := buildConfigState_spec ext hbuild
    refine ⟨by rw [htotal, hrecorded], ?_⟩
    rw [hblocked, hsinceDrain]
    rfl
  · rintro p event p' hcounted ⟨hkeeps, hstep⟩
    cases event with
    | maybeReload newState | setNetworkMode mode =>
      obtain ⟨-, rfl⟩ := hstep
      exact ⟨hcounted.total, hcounted.blocked⟩
    | updateDomainList target host =>
      obtain ⟨-, -, -, -, rfl⟩ := hstep
      exact ⟨hcounted.total, hcounted.blocked⟩
    | write i =>
      obtain ⟨update, hi, rfl⟩ := hstep
      obtain ⟨hblocked, htotal⟩ := InFlight.write_blocked (hkeeps update hi)
      exact ⟨htotal.trans hcounted.total, hblocked.trans hcounted.blocked⟩
    | forceReload newState =>
      obtain ⟨-, rfl⟩ := hstep
      exact ⟨hkeeps.trans hcounted.total, hcounted.blocked⟩
    | replaceConfigState newState =>
      obtain ⟨-, rfl⟩ := hstep
      exact ⟨hcounted.total, hcounted.blocked⟩
    | recordBlocked entry =>
      subst hstep
      have hlt : p.state.blockedTotal < maxTotal := hkeeps
      refine ⟨?_, ?_⟩
      · exact (Nat.min_eq_left hlt).trans (congrArg (· + 1) hcounted.total)
      · dsimp only
        rw [hcounted.blocked, latest_append]
    | drainBlocked =>
      subst hstep
      exact ⟨hcounted.total, List.drop_nil.symm⟩

/-- While every write brings current records back, the policy is valid and no record is lost. -/
theorem proxy_consistent {p : Proxy GlobSet Mitm}
    (h : ((proxy ext).restrict KeepsRecords).Reach p) :
    validatePolicyAgainstConstraints ext p.state.config p.state.constraints = .ok () ∧
      compileAllowlistGlobset ext (p.state.config.allowedDomains.getD []) = .ok p.state.allowSet ∧
      compileDenylistGlobset ext (p.state.config.deniedDomains.getD []) = .ok p.state.denySet ∧
      p.state.blockedTotal = p.recorded ∧ p.state.blocked = latest p.sinceDrain := by
  obtain ⟨⟨hvalid, hallow, hdeny⟩, -⟩ := policy_valid h.of_restrict
  have hcounted := counted_of_reach h
  exact ⟨hvalid, hallow, hdeny, hcounted.total, hcounted.blocked⟩

end

/-! ## A forced reload -/

/-- Globs that are compiled to themselves. -/
def exampleExternal : External (List Char) (List (List Char)) Unit where
  urlHost := some
  glob := .ok
  globSet := .ok
  mitmState _ := .ok ()

def exampleState (blocked : List BlockedRequest) (blockedTotal : Nat) :
    ConfigState (List (List Char)) Unit :=
  ⟨.default, [], [], none, .default, blocked, blockedTotal⟩

def exampleRequest : BlockedRequest :=
  ⟨"example.com", "not_allowed", none, none, none, "http", none, none, none, 0⟩

/-- A proxy after one record since it was drained last. -/
def exampleProxy (blockedTotal : Nat) : Proxy (List (List Char)) Unit :=
  ⟨exampleState [exampleRequest] blockedTotal, [], 1, [exampleRequest]⟩

theorem exampleState_supplied : Supplied exampleExternal (exampleState [] 0) :=
  ⟨.default, .default, rfl, rfl⟩

theorem exampleProxy_reach :
    ((proxy exampleExternal).restrict KeepsRecords).Reach (exampleProxy 1) := by
  have hinit : (proxy exampleExternal).init ⟨exampleState [] 0, [], 0, []⟩ :=
    ⟨exampleState_supplied, rfl, rfl, rfl⟩
  have hkeeps : KeepsRecords (⟨exampleState [] 0, [], 0, []⟩ : Proxy (List (List Char)) Unit)
      (.recordBlocked exampleRequest) := by
    show 0 < maxTotal
    decide
  exact .step (.init hinit) ⟨hkeeps, rfl⟩

theorem proxy_consistent_example :
    validatePolicyAgainstConstraints exampleExternal (exampleProxy 1).state.config
        (exampleProxy 1).state.constraints = .ok () ∧
      compileAllowlistGlobset exampleExternal
        ((exampleProxy 1).state.config.allowedDomains.getD []) =
          .ok (exampleProxy 1).state.allowSet ∧
      compileDenylistGlobset exampleExternal
        ((exampleProxy 1).state.config.deniedDomains.getD []) =
          .ok (exampleProxy 1).state.denySet ∧
      (exampleProxy 1).state.blockedTotal = (exampleProxy 1).recorded ∧
      (exampleProxy 1).state.blocked = latest (exampleProxy 1).sinceDrain :=
  proxy_consistent exampleProxy_reach

/-- A forced reload forgets how many requests were recorded. -/
theorem forceReload_forgets : ∃ p : Proxy (List (List Char)) Unit,
    (proxy exampleExternal).Reach p ∧ p.state.blockedTotal ≠ p.recorded := by
  have hstep : (proxy exampleExternal).step (exampleProxy 1) (.forceReload (exampleState [] 0))
      (exampleProxy 0) := ⟨exampleState_supplied, rfl⟩
  exact ⟨exampleProxy 0, exampleProxy_reach.of_restrict.step hstep, Nat.zero_ne_one⟩

end Mcodex.NetworkProxy
