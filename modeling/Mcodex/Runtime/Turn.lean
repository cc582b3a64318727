import Mcodex.Runtime.Manager

/-!
# Preparing and previewing a turn

`prepare_turn` of `AccountPoolManager` gives the next turn an account: it rotates away from the
active lease when a rotation is pending, else renews it, and acquires a lease when it holds none.
`preview_next_bridged_turn` predicts what it will do from a shared reference to the manager. The
loops of the acquisitions take fuel.
-/

namespace Mcodex.Runtime

open AccountPool Effect

/-- A manager with the world it runs in. -/
structure Sys where
  world : World
  manager : Manager

/-- A function on a shared reference to the manager. -/
def onWorld {ε α : Type} (f : Manager → Prog World ε α) : Prog Sys ε α := fun s =>
  onPart (·.world) (fun w s => { s with world := w }) (f s.manager) s

/-- An assignment to fields of the manager. -/
def modifyManager {ε : Type} (f : Manager → Manager) : Prog Sys ε Unit :=
  modify fun s => { s with manager := f s.manager }

/-- The manager as it stands. -/
def getManager {ε : Type} : Prog Sys ε Manager := onWorld pure

section
variable {ε α : Type} {f : Manager → Prog World ε α} {g : Manager → Manager} {Q : α → Sys → Prop}
  {E : Interrupt ε → Sys → Prop} {s : Sys}

@[simp] theorem wp_onWorld : wp (onWorld f) Q E s ↔
    wp (f s.manager) (fun a w => Q a { s with world := w }) (fun e w => E e { s with world := w })
      s.world := wp_onPart _ _ _

@[simp] theorem wp_modifyManager {Q : Unit → Sys → Prop} :
    wp (modifyManager g) Q E s ↔ Q () { s with manager := g s.manager } := Iff.rfl

@[simp] theorem wp_getManager {Q : Manager → Sys → Prop} :
    wp getManager Q E s ↔ Q s.manager s := Iff.rfl

end

/-! ## The active lease -/

/-- The fields that go with the active lease, when it is given up. -/
def Manager.dropActiveLease (m : Manager) : Manager :=
  { m with
    activeLease := none
    activeLeaseIdentity := none
    nextHealthEventSequence := 0
    proactiveSwitchState := {} }

/-- `release_active_lease`. -/
def releaseActiveLease (env : Env) : Prog Sys String Unit := do
  onWorld fun m =>
    match m.activeLease with
    | some lease => releaseLeaseRecord env lease.record
    | none => pure ()
  modifyManager Manager.dropActiveLease

/-- `renew_active_lease`. -/
def renewActiveLease (env : Env) : Prog Sys String Unit := do
  let m ← getManager
  match m.activeLease with
  | none => return
  | some activeLease =>
    let now ← onWorld fun _ => utcNow env
    match ← onWorld fun m => call env (·.renewAccountLease activeLease.record.leaseKey now m.leaseTtl) with
    | .renewed record => modifyManager fun m => { m with
        activeLease := some { activeLease with record } }
    | .missing =>
      onWorld fun _ => clearAuthMarker env activeLease.record
      modifyManager fun m => { m.dropActiveLease with
        pendingRotation := none
        lastProactivelyReplacedAccountId := none }

/-- `adopt_active_lease`. -/
def adoptActiveLease (env : Env) (lease : ActiveAccountLease) : Prog Sys String Unit := do
  let sequence ← onWorld fun _ => read env (·.readAccountHealthEventSequence lease.record.accountId)
  modifyManager fun m => { m with
    nextHealthEventSequence := sequence.getD 0
    suppressionReason := none
    switchReason :=
      if m.previousTurnAccountId.any (· ≠ lease.record.accountId) ∧ m.switchReason = none then
        some .automaticAccountSelected
      else m.switchReason
    activeLease := some lease }

/-- `observe_active_lease_generation`. -/
def Manager.observeActiveLeaseGeneration (m : Manager) (lease : AccountLeaseRecord) : Manager :=
  let identity := ActiveLeaseIdentity.fromRecord lease
  if m.activeLeaseIdentity = some identity then m
  else { m with
    activeLeaseGeneration := saturatingSucc m.activeLeaseGeneration
    activeLeaseIdentity := some identity }

/-! ## Rotation -/

/-- The request of a selection that leaves the active lease. -/
def Manager.rotationRequest (m : Manager) (intent : SelectionIntent) (now : Int)
    (activeLease : ActiveAccountLease) : SelectionRequest where
  now := some now
  poolId := some activeLease.record.poolId
  intent := intent
  selectionFamily := some activeLease.selectionFamily
  currentAccountId := some activeLease.record.accountId
  justReplacedAccountId := m.lastProactivelyReplacedAccountId
  proactiveThresholdPercent := m.proactiveSwitchThresholdPercent

/-- The locals that the loop of `acquire_selected_rotation_lease` changes. -/
structure Rotation where
  request : SelectionRequest
  currentReleased : Bool := false
  currentReacquireExhausted : Bool := false

/-- Acquire the account of a round; where the store grants none, the loop goes on. -/
def acquireForRotation (env : Env) (poolId : PoolId) (accountId : AccountId)
    (selectionFamily : LimitId) (rotation : Rotation) :
    Prog Sys AccountLeaseError (Rotation ⊕ ActiveAccountLease) := do
  match ← onWorld fun m => acquireSelected env m poolId accountId selectionFamily with
  | some lease => return .inr lease
  | none => return .inl rotation

/-- One round of the loop of `acquire_selected_rotation_lease`. -/
def rotationRound (env : Env) (poolId : PoolId) (activeLease : ActiveAccountLease)
    (rotation : Rotation) : Prog Sys AccountLeaseError (Rotation ⊕ ActiveAccountLease) := do
  let (selectionFamily, plan) ← mapErr .storage <| onWorld fun m =>
    buildRuntimeSelectionPlan env m rotation.request
  match plan.terminalAction with
  | .select accountId =>
    if rotation.currentReleased then pure () else mapErr .storage (releaseActiveLease env)
    acquireForRotation env poolId accountId selectionFamily
      { rotation with currentReleased := true }
  | .probe accountId =>
    let now ← onWorld fun _ => requestNow env rotation.request
    onWorld fun m => probeAccount env m poolId accountId selectionFamily now
    return .inl rotation
  | .stayOnCurrent | .noCandidate =>
    if rotation.request.intent = .softRotation then
      if rotation.currentReleased = false then return .inr activeLease
      else if rotation.currentReacquireExhausted then raise .noEligibleAccount
      else
        acquireForRotation env poolId activeLease.record.accountId selectionFamily {
          rotation with
          request := { rotation.request with currentAccountId := none }
          currentReacquireExhausted := true }
    else
      if rotation.currentReleased then pure () else mapErr .storage (releaseActiveLease env)
      raise .noEligibleAccount

/-- `acquire_selected_rotation_lease`. -/
def acquireSelectedRotationLease (env : Env) (fuel : Nat) (request : SelectionRequest)
    (activeLease : ActiveAccountLease) : Prog Sys AccountLeaseError ActiveAccountLease :=
  match request.poolId with
  | none => raise (.storage "runtime selection requires pool id")
  | some poolId => iterate (rotationRound env poolId activeLease) fuel { request }

/-- The intent of a rotation. -/
def PendingRotation.intent : PendingRotation → SelectionIntent
  | hardFailure => .hardFailover
  | softProactive => .softRotation

/-- What `prepare_turn` notes after a rotation from one account to another, and logs. -/
def noteRotation (env : Env) (pendingRotation : PendingRotation)
    (currentAccountId nextAccountId : AccountId) : Prog Sys String Unit := do
  match pendingRotation with
  | .hardFailure => modifyManager fun m => { m with lastProactivelyReplacedAccountId := none }
  | .softProactive =>
    if nextAccountId ≠ currentAccountId then
      modifyManager fun m => { m with lastProactivelyReplacedAccountId := some currentAccountId }
    else pure ()
  onWorld fun _ => perform env

/-- The rotation arm of `prepare_turn`; whether the turn goes on. -/
def rotateActiveLease (env : Env) (fuel : Nat) (now : Int) (activeLease : ActiveAccountLease)
    (pendingRotation : PendingRotation) : Prog Sys String Bool := do
  let m ← getManager
  match ← attempt (acquireSelectedRotationLease env fuel
    (m.rotationRequest pendingRotation.intent now activeLease) activeLease) with
  | .ok nextLease =>
    noteRotation env pendingRotation activeLease.record.accountId nextLease.record.accountId
    adoptActiveLease env nextLease
    return true
  | .error .noEligibleAccount =>
    if pendingRotation = .hardFailure then
      modifyManager fun m => { m with lastProactivelyReplacedAccountId := none }
      onWorld fun _ => perform env
    else pure ()
    modifyManager fun m => { m with suppressionReason := some .noEligibleAccount }
    return false
  | .error (.storage message) => raise message

/-- The first half of `prepare_turn`: rotate if a rotation is pending, else renew. -/
def refreshActiveLease (env : Env) (fuel : Nat) (now : Int) : Prog Sys String Bool := do
  let m ← getManager
  match m.activeLease, m.pendingRotation with
  | some activeLease, some pendingRotation =>
    modifyManager fun m => { m with pendingRotation := none }
    rotateActiveLease env fuel now activeLease pendingRotation
  | _, _ =>
    renewActiveLease env
    return true

/-! ## Startup -/

/-- `preview_account_startup_selection`, called for the manager. -/
def previewStartupSelection (env : Env) (m : Manager) :
    Prog World String AccountStartupSelectionPreview := do
  let now ← utcNow env
  read env (·.previewAccountStartupSelection m.defaultPoolId now)

/-- The request of a selection without an active lease. -/
def Manager.startupTurnRequest (m : Manager) (now : Int) (poolId : PoolId)
    (startupPreview : AccountStartupSelectionPreview) : SelectionRequest where
  now := some now
  poolId := some poolId
  intent := .startup
  preferredAccountId :=
    if startupPreview.eligibility = .preferredAccountSelected then
      startupPreview.predictedAccountId
    else none
  proactiveThresholdPercent := m.proactiveSwitchThresholdPercent

/-- The suppression reason of a startup that no account was eligible for. -/
def startupFailureReason : AccountStartupEligibility → AccountLeaseRuntimeReason
  | .suppressed => .startupSuppressed
  | .missingPool | .preferredAccountSelected | .automaticAccountSelected => .noEligibleAccount
  | eligibility => .fromEligibility eligibility

/-- The startup arm of `prepare_turn`; whether the turn goes on. -/
def acquireStartupLease (env : Env) (fuel : Nat) (now : Int) : Prog Sys String Bool := do
  let startupPreview ← onWorld (previewStartupSelection env)
  match startupPreview.effectivePoolId with
  | none =>
    modifyManager fun m => { m with suppressionReason := some .missingPool }
    return false
  | some poolId =>
    if startupPreview.eligibility = .suppressed then
      modifyManager fun m => { m with
        suppressionReason := some (.fromEligibility startupPreview.eligibility) }
      return false
    else
      match ← attempt (onWorld fun m =>
        acquireSelectedLease env fuel m (m.startupTurnRequest now poolId startupPreview)) with
      | .ok lease =>
        modifyManager fun m => { m with suppressionReason := none }
        adoptActiveLease env lease
        return true
      | .error .noEligibleAccount =>
        modifyManager fun m => { m with
          suppressionReason := some (startupFailureReason startupPreview.eligibility) }
        return false
      | .error (.storage message) => raise message

/-! ## The turn -/

/-- `TurnAccountSelection`. -/
structure TurnAccountSelection where
  poolId : PoolId
  accountId : AccountId
  selectionFamily : LimitId
  generation : UInt64
  allowContextReuse : Bool
  resetRemoteContext : Bool
  authSession : LeaseAuthBinding
  deriving DecidableEq, Repr

/-- The selection that `prepare_turn` makes of the active lease. -/
def Manager.turnSelection (m : Manager) (activeLease : ActiveAccountLease) :
    TurnAccountSelection :=
  let record := activeLease.record
  let allowContextReuse := (m.allowContextReuseByPoolId record.poolId).getD true
  { poolId := record.poolId
    accountId := record.accountId
    selectionFamily := activeLease.selectionFamily
    generation := (m.observeActiveLeaseGeneration record).activeLeaseGeneration
    allowContextReuse
    resetRemoteContext :=
      m.previousTurnAccountId.any (· ≠ record.accountId) && !allowContextReuse
    authSession := activeLease.authSession }

/-- The end of `prepare_turn`: the selection of the active lease. -/
def selectTurn : Prog Sys String (Option TurnAccountSelection) := do
  let m ← getManager
  match m.activeLease with
  | none => raise "active lease missing after account pool acquisition"
  | some activeLease =>
    modifyManager fun m => { m.observeActiveLeaseGeneration activeLease.record with
      previousTurnAccountId := some activeLease.record.accountId }
    return some (m.turnSelection activeLease)

/-- The second half of `prepare_turn`: a turn without an active lease acquires one. -/
def completeTurn (env : Env) (fuel : Nat) (now : Int) :
    Prog Sys String (Option TurnAccountSelection) := do
  let m ← getManager
  if m.activeLease.isSome then
    modifyManager fun m => { m with suppressionReason := none }
    selectTurn
  else if ← acquireStartupLease env fuel now then selectTurn
  else return none

/-- `prepare_turn`. -/
def prepareTurn (env : Env) (fuel : Nat) : Prog Sys String (Option TurnAccountSelection) := do
  let now ← onWorld fun _ => utcNow env
  modifyManager fun m => { m with
    proactiveSwitchState := m.proactiveSwitchState.revalidateBeforeTurn now
    switchReason := none }
  if ← refreshActiveLease env fuel now then completeTurn env fuel now
  else return none

/-! ## Preview -/

/-- `BridgedTurnSelectionPreview`. -/
structure BridgedTurnSelectionPreview where
  poolId : PoolId
  accountId : Option AccountId
  generation : UInt64
  deriving DecidableEq, Repr

/-- `BridgedTurnPreview`. -/
inductive BridgedTurnPreview where
  | reuseCurrent (preview : BridgedTurnSelectionPreview)
  | rotate (preview : BridgedTurnSelectionPreview)
  deriving DecidableEq, Repr

/-- The first arm of `preview_next_bridged_turn`: without a pending rotation, the cached lease if
the store still has it. -/
def previewCachedLease (env : Env) (m : Manager) :
    Prog World String (Option BridgedTurnPreview) := do
  match m.pendingRotation, m.activeLease with
  | none, some activeLease =>
    match ← readActiveHolderLease env m with
    | none => return none
    | some currentHolderLease =>
      let currentIdentity := ActiveLeaseIdentity.fromRecord currentHolderLease
      if currentIdentity = ActiveLeaseIdentity.fromRecord activeLease.record then
        let preview := fun generation : UInt64 => ({
          poolId := currentHolderLease.poolId
          accountId := some currentHolderLease.accountId
          generation } : BridgedTurnSelectionPreview)
        return some <|
          if m.activeLeaseIdentity = some currentIdentity then
            .reuseCurrent (preview m.activeLeaseGeneration)
          else .rotate (preview (saturatingSucc m.activeLeaseGeneration))
      else return none
  | _, _ => return none

/-- The arm of `preview_next_bridged_turn` for a manager with an active lease. -/
def previewRotation (env : Env) (m : Manager) (now : Int) (activeLease : ActiveAccountLease) :
    Prog World String (Option BridgedTurnPreview) := do
  let intent := (m.pendingRotation.map PendingRotation.intent).getD .startup
  let (_, plan) ← buildRuntimeSelectionPlan env m (m.rotationRequest intent now activeLease)
  return match plan.terminalAction with
    | .select accountId | .probe accountId => some <| .rotate {
        poolId := activeLease.record.poolId
        accountId := some accountId
        generation := saturatingSucc m.activeLeaseGeneration }
    | .stayOnCurrent => some <| .reuseCurrent {
        poolId := activeLease.record.poolId
        accountId := some activeLease.record.accountId
        generation := m.activeLeaseGeneration }
    | .noCandidate => none

/-- The eligibilities that make `preview_next_bridged_turn` expect no account. -/
def refusesStartup : AccountStartupEligibility → Bool
  | .suppressed | .missingPool | .preferredAccountMissing | .preferredAccountInOtherPool _
  | .preferredAccountDisabled | .preferredAccountUnhealthy | .noEligibleAccount => true
  | .preferredAccountSelected | .automaticAccountSelected | .preferredAccountBusy => false

/-- The arm of `preview_next_bridged_turn` for a manager without an active lease. -/
def previewStartup (env : Env) (m : Manager) (now : Int) :
    Prog World String (Option BridgedTurnPreview) := do
  let startupPreview ← previewStartupSelection env m
  match startupPreview.effectivePoolId with
  | none => return none
  | some poolId =>
    if refusesStartup startupPreview.eligibility then return none
    else
      let (_, plan) ←
        buildRuntimeSelectionPlan env m (m.startupTurnRequest now poolId startupPreview)
      return match plan.terminalAction with
        | .select accountId | .probe accountId => some <| .rotate {
            poolId
            accountId := some accountId
            generation := saturatingSucc m.activeLeaseGeneration }
        | .stayOnCurrent | .noCandidate => none

/-- `preview_next_bridged_turn`. -/
def previewNextBridgedTurn (env : Env) (m : Manager) :
    Prog World String (Option BridgedTurnPreview) := do
  match ← previewCachedLease env m with
  | some preview => return some preview
  | none =>
    let now ← utcNow env
    match m.activeLease with
    | some activeLease => previewRotation env m now activeLease
    | none => previewStartup env m now

end Mcodex.Runtime
