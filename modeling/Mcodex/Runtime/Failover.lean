import Mcodex.AccountPool.StoreOp
import Mcodex.Runtime.Turn

/-!
# Hard failovers that fail

`prepare_turn` takes the pending rotation before the calls that carry it out, and never puts it
back. Until the current lease has been released an error leaves the manager with that lease and
without the rotation; after that the lease is gone. So a hard failover is remembered exactly where
the calls up to the release of the lease succeed (`failoverPrelude`).
-/

namespace Mcodex.Runtime

open AccountPool Effect

/-- What the planning part of a round decides: the account to be leased, if any. -/
abbrev FailoverChoice := Option (AccountId × LimitId)

/-- The part of a round of a hard failover up to the release of the current lease; a probe asks for
another round. -/
def failoverRound (env : Env) (poolId : PoolId) (request : SelectionRequest) :
    Prog Sys AccountLeaseError (Unit ⊕ FailoverChoice) := do
  let (selectionFamily, plan) ← mapErr .storage <| onWorld fun m =>
    buildRuntimeSelectionPlan env m request
  match plan.terminalAction with
  | .select accountId =>
    mapErr .storage (releaseActiveLease env)
    return .inr (some (accountId, selectionFamily))
  | .probe accountId =>
    let now ← onWorld fun _ => requestNow env request
    onWorld fun m => probeAccount env m poolId accountId selectionFamily now
    return .inl ()
  | .stayOnCurrent | .noCandidate =>
    mapErr .storage (releaseActiveLease env)
    return .inr none

/-- The calls that a turn makes, with a hard failover pending, until it has released the current
lease. -/
def failoverPrelude (env : Env) (fuel : Nat) (activeLease : ActiveAccountLease) :
    Prog Sys AccountLeaseError FailoverChoice := do
  let now ← onWorld fun _ => utcNow env
  modifyManager fun m => { m with
    proactiveSwitchState := m.proactiveSwitchState.revalidateBeforeTurn now
    switchReason := none
    pendingRotation := none }
  let m ← getManager
  iterate (fun _ => failoverRound env activeLease.record.poolId
    (m.rotationRequest .hardFailover now activeLease)) fuel ()

section
variable {env : Env} {poolId : PoolId} {request : SelectionRequest}
  {activeLease : ActiveAccountLease} {m : Manager} {s : Sys} {fuel : Nat}

/-- The rest of a round, after the release. -/
def failoverAcquire (env : Env) (poolId : PoolId) (rotation : Rotation) :
    FailoverChoice → Prog Sys AccountLeaseError (Rotation ⊕ ActiveAccountLease)
  | none => raise .noEligibleAccount
  | some (accountId, selectionFamily) =>
    acquireForRotation env poolId accountId selectionFamily
      { rotation with currentReleased := true }

theorem rotationRound_failover (hintent : request.intent = .hardFailover) :
    rotationRound env poolId activeLease { request } =
      failoverRound env poolId request >>=
        Sum.elim (fun _ => pure (.inl { request })) (failoverAcquire env poolId { request }) := by
  unfold rotationRound failoverRound
  simp only [bind_assoc]
  congr 1
  funext choice
  rcases choice with ⟨selectionFamily, plan⟩
  cases plan.terminalAction with
  | select accountId =>
    simp only [bind_assoc, pure_bind, Sum.elim_inr]
    rfl
  | probe accountId => simp
  | stayOnCurrent | noCandidate => simp [hintent, failoverAcquire]

/-! ## Errors -/

/-- A raised error is a storage error. -/
def IsStorage : Interrupt AccountLeaseError → Prop
  | .raised e => ∃ message, e = .storage message
  | .outOfFuel => True

theorem wp_mapErr_storage {σ α : Type} {x : Prog σ String α} {s : σ} :
    wp (mapErr .storage x) (fun _ _ => True) (fun e _ => IsStorage e) s := by
  rw [wp_mapErr]
  refine wp_true.imp (fun _ _ => id) fun e s' _ => ?_
  cases e with
  | raised message => exact ⟨message, rfl⟩
  | outOfFuel => trivial

/-- A probe raises storage errors only. -/
theorem wp_probeAccount_storage {accountId : AccountId} {family : LimitId} {now : Int}
    {w : World} :
    wp (probeAccount env m poolId accountId family now) (fun _ _ => True)
      (fun e _ => IsStorage e) w := by
  unfold probeAccount
  rw [wp_bind]
  refine wp_mapErr_storage.imp_ok fun reservation w₁ _ => ?_
  cases reservation with
  | none => trivial
  | some reservation =>
    unfold verifyProbe
    rw [wp_bind, wp_attempt]
    refine wp_true.imp (fun lease w₂ _ => ?_) fun e w₂ _ => ?_
    · -- both outcomes handed over are those of converted errors
      rw [wp_bind, wp_attempt]
      refine wp_mapErr_storage.imp (fun _ w₃ _ => ?_) fun e w₃ he => ?_
      · rw [wp_bind, wp_attempt]
        refine wp_mapErr_storage.imp (fun _ _ _ => trivial) fun e w₄ he => ?_
        cases e with
        | raised e => exact he
        | outOfFuel => trivial
      · cases e with
        | raised e =>
          dsimp only
          rw [wp_bind, wp_attempt]
          refine wp_mapErr_storage.imp (fun _ _ _ => he) fun e' w₄ he' => ?_
          cases e' with
          | raised e' => exact he
          | outOfFuel => trivial
        | outOfFuel => trivial
    · rcases e with (_ | message) | _
      · trivial
      · exact ⟨message, rfl⟩
      · trivial

theorem wp_requestNow {ε : Type} {Q : Int → World → Prop} {E : Interrupt ε → World → Prop}
    {w : World} (h : ∀ now w', Q now w') : wp (requestNow env request) Q E w := by
  unfold requestNow
  split <;> exact h _ _

/-! ## The current lease -/

theorem wp_releaseActiveLease_manager : wp (releaseActiveLease env)
    (fun _ s' => s'.manager = s.manager.dropActiveLease) (fun _ s' => s'.manager = s.manager)
    s := by
  unfold releaseActiveLease
  rw [wp_bind, wp_onWorld]
  exact wp_true.imp (fun _ _ _ => rfl) fun _ _ _ => rfl

/-- A round keeps the manager as it is until the lease is released. -/
theorem wp_failoverRound : wp (failoverRound env poolId request)
    (fun r s' =>
      match r with
      | .inl _ => s'.manager = s.manager
      | .inr _ => s'.manager = s.manager.dropActiveLease)
    (fun e s' => IsStorage e ∧ s'.manager = s.manager) s := by
  have hrelease {s : Sys} : wp (mapErr .storage (releaseActiveLease env))
      (fun _ s' => s'.manager = s.manager.dropActiveLease)
      (fun e s' => IsStorage e ∧ s'.manager = s.manager) s := by
    refine (wp_mapErr_storage.and ?_).imp (fun _ _ h => h.2) fun _ _ => id
    rw [wp_mapErr]
    refine wp_releaseActiveLease_manager.imp (fun _ _ => id) fun e _ h => ?_
    cases e <;> exact h
  unfold failoverRound
  rw [wp_bind]
  have hplan : wp (mapErr .storage (onWorld fun m => buildRuntimeSelectionPlan env m request))
      (fun _ s' => s'.manager = s.manager) (fun e s' => IsStorage e ∧ s'.manager = s.manager)
      s := by
    refine (wp_mapErr_storage.and ?_).imp (fun _ _ h => h.2) fun _ _ => id
    rw [wp_mapErr, wp_onWorld]
    refine wp_true.imp (fun _ _ _ => rfl) fun e _ _ => ?_
    cases e <;> rfl
  refine hplan.imp_ok fun ⟨family, plan⟩ s₁ h₁ => ?_
  rw [← h₁]
  dsimp only
  split
  · rw [wp_bind]
    exact hrelease.imp_ok fun _ _ h => h
  · rw [wp_bind, wp_onWorld]
    refine wp_requestNow fun now w₂ => ?_
    rw [wp_bind, wp_onWorld]
    exact wp_probeAccount_storage.imp (fun _ _ _ => rfl) fun e _ he => ⟨he, rfl⟩
  · rw [wp_bind]
    exact hrelease.imp_ok fun _ _ h => h
  · rw [wp_bind]
    exact hrelease.imp_ok fun _ _ h => h

/-- The loop of these rounds ends with the lease released, or with the manager as it was. -/
theorem wp_iterate_failoverRound : wp (iterate (fun _ => failoverRound env poolId request) fuel ())
    (fun _ s' => s'.manager = s.manager.dropActiveLease)
    (fun e s' => IsStorage e ∧ s'.manager = s.manager) s := by
  refine wp_iterate (fun _ s' => s'.manager = s.manager) (fun _ s' h => ?_) (fun _ s' h => ?_)
    fuel rfl
  · rw [← h]
    exact wp_failoverRound.imp_ok fun r s'' hr => by cases r <;> exact hr
  · exact ⟨trivial, h⟩

/-! ## After the release -/

/-- Without an active lease, an error leaves none. -/
def LeavesNone {ε : Type} : Interrupt ε → Sys → Prop
  | .raised _, s => s.manager.activeLease = none
  | .outOfFuel, _ => True

/-- A program on a shared reference keeps the manager. -/
theorem wp_onWorld_none {ε α : Type} {f : Manager → Prog World ε α}
    (h : s.manager.activeLease = none) :
    wp (onWorld f) (fun _ s' => s'.manager.activeLease = none) LeavesNone s := by
  rw [wp_onWorld]
  refine wp_true.imp (fun _ _ _ => h) fun e _ _ => ?_
  cases e with
  | raised e => exact h
  | outOfFuel => trivial

theorem wp_mapErr_none {ε ε' α : Type} {f : ε → ε'} {x : Prog Sys ε α} {Q : α → Sys → Prop}
    (h : wp x Q LeavesNone s) : wp (mapErr f x) Q LeavesNone s := by
  rw [wp_mapErr]
  refine h.imp (fun _ _ => id) fun e s' he => ?_
  cases e <;> exact he

theorem wp_acquireForRotation_none {accountId : AccountId} {family : LimitId}
    {rotation : Rotation} (hreleased : rotation.currentReleased = true)
    (h : s.manager.activeLease = none) :
    wp (acquireForRotation env poolId accountId family rotation)
      (fun r s' => s'.manager.activeLease = none ∧
        ∀ rotation', r = .inl rotation' → rotation'.currentReleased = true) LeavesNone s := by
  unfold acquireForRotation
  rw [wp_bind]
  refine (wp_onWorld_none h).imp_ok fun r s' h' => ?_
  cases r with
  | some lease => exact ⟨h', fun _ heq => Sum.inr_ne_inl heq |>.elim⟩
  | none => exact ⟨h', fun _ heq => Sum.inl.inj heq ▸ hreleased⟩

theorem wp_rotationRound_none {rotation : Rotation} (hreleased : rotation.currentReleased = true)
    (h : s.manager.activeLease = none) :
    wp (rotationRound env poolId activeLease rotation)
      (fun r s' => s'.manager.activeLease = none ∧
        ∀ rotation', r = .inl rotation' → rotation'.currentReleased = true) LeavesNone s := by
  unfold rotationRound
  rw [wp_bind]
  refine (wp_mapErr_none (wp_onWorld_none h)).imp_ok fun ⟨family, plan⟩ s₁ h₁ => ?_
  simp only [hreleased, if_true, Bool.true_eq_false, if_false]
  split
  · exact wp_acquireForRotation_none rfl h₁
  · rw [wp_bind]
    refine (wp_onWorld_none h₁).imp_ok fun now s₂ h₂ => ?_
    rw [wp_bind]
    refine (wp_onWorld_none h₂).imp_ok fun _ s₃ h₃ => ?_
    exact ⟨h₃, fun _ heq => Sum.inl.inj heq ▸ hreleased⟩
  all_goals
    split
    · split
      · exact h₁
      · exact wp_acquireForRotation_none rfl h₁
    · exact h₁

/-- The rotation raises the error that the calls up to the release raise, and else goes on without
an active lease. -/
theorem acquireSelectedRotationLease_failover (hpool : request.poolId = some poolId)
    (hintent : request.intent = .hardFailover) :
    match iterate (fun _ => failoverRound env poolId request) fuel () s with
    | .error e s' => acquireSelectedRotationLease env fuel request activeLease s = .error e s'
    | .ok _ _ => wp (acquireSelectedRotationLease env fuel request activeLease)
        (fun _ s' => s'.manager.activeLease = none) LeavesNone s := by
  have hstages := iterate_stages
    (@rotationRound_failover env poolId _ activeLease hintent)
    fuel s
  have hreleased := @wp_iterate_failoverRound env poolId request s fuel
  unfold acquireSelectedRotationLease
  rw [hpool]
  cases hfirst : iterate (fun _ => failoverRound env poolId request) fuel () s with
  | error e s' =>
    rw [hfirst] at hstages
    exact hstages
  | ok choice s' =>
    rw [hfirst] at hstages
    obtain ⟨fuel', hrest⟩ := hstages
    have hnone : s'.manager.activeLease = none := by
      rw [hreleased.of_ok hfirst]
      rfl
    dsimp only
    unfold wp
    rw [hrest]
    refine wp.imp_ok (Q := fun _ s' => s'.manager.activeLease = none) ?_ fun _ _ => id
    rw [wp_bind]
    have hacquire : wp (failoverAcquire env poolId { request } choice)
        (fun r s' => s'.manager.activeLease = none ∧
          ∀ rotation', r = .inl rotation' → rotation'.currentReleased = true) LeavesNone s' := by
      cases choice with
      | none => exact hnone
      | some choice => exact wp_acquireForRotation_none rfl hnone
    refine hacquire.imp_ok fun r s'' ⟨h'', hinl⟩ => ?_
    cases r with
    | inr lease => exact h''
    | inl rotation' =>
      refine wp_iterate (fun rotation s => rotation.currentReleased = true ∧
        s.manager.activeLease = none) (fun rotation s ⟨hrel, h⟩ => ?_) (fun _ _ _ => trivial)
        fuel' ⟨hinl _ rfl, h''⟩
      refine (wp_rotationRound_none hrel h).imp_ok fun r s ⟨h, hinl⟩ => ?_
      cases r with
      | inl rotation' => exact ⟨hinl _ rfl, h⟩
      | inr lease => exact h

/-! ## The turn -/

theorem wp_adoptActiveLease_none {lease : ActiveAccountLease} (h : s.manager.activeLease = none) :
    wp (adoptActiveLease env lease) (fun _ s' => s'.manager.activeLease = some lease) LeavesNone
      s := by
  unfold adoptActiveLease
  rw [wp_bind]
  exact (wp_onWorld_none h).imp_ok fun _ _ _ => rfl

theorem wp_noteRotation_none {accountId accountId' : AccountId} {pendingRotation : PendingRotation}
    (h : s.manager.activeLease = none) :
    wp (noteRotation env pendingRotation accountId accountId')
      (fun _ s' => s'.manager.activeLease = none) LeavesNone s := by
  unfold noteRotation
  cases pendingRotation with
  | hardFailure =>
    dsimp only
    rw [wp_bind, wp_modifyManager]
    exact wp_onWorld_none h
  | softProactive =>
    dsimp only
    split
    · rw [wp_bind, wp_modifyManager]
      exact wp_onWorld_none h
    · exact wp_onWorld_none h

/-- A turn that has an active lease raises no error. -/
theorem wp_completeTurn_some {now : Int} (h : s.manager.activeLease = some activeLease) :
    wp (completeTurn env fuel now) (fun _ _ => True) (fun _ _ => False) s := by
  unfold completeTurn selectTurn
  simp [h]

/-- What a turn makes of the outcome of its rotation. -/
def finishRotation (env : Env) (fuel : Nat) (now : Int) (currentAccountId : AccountId) :
    Except AccountLeaseError ActiveAccountLease → Prog Sys String (Option TurnAccountSelection)
  | .ok nextLease => do
    noteRotation env .hardFailure currentAccountId nextLease.record.accountId
    adoptActiveLease env nextLease
    completeTurn env fuel now
  | .error .noEligibleAccount => do
    modifyManager fun m => { m with lastProactivelyReplacedAccountId := none }
    onWorld fun _ => perform env
    modifyManager fun m => { m with suppressionReason := some .noEligibleAccount }
    return none
  | .error (.storage message) => raise message

theorem wp_finishRotation_none {now : Int} {accountId : AccountId}
    {outcome : Except AccountLeaseError ActiveAccountLease} (h : s.manager.activeLease = none) :
    wp (finishRotation env fuel now accountId outcome) (fun _ _ => True) LeavesNone s := by
  rcases outcome with (_ | message) | nextLease
  · unfold finishRotation
    rw [wp_bind, wp_modifyManager, wp_bind]
    refine wp.imp_ok (wp_onWorld_none ?_) fun _ _ _ => trivial
    exact h
  · exact h
  · simp only [finishRotation, wp_bind]
    refine (wp_noteRotation_none h).imp_ok fun _ s₁ h₁ => ?_
    refine (wp_adoptActiveLease_none h₁).imp_ok fun _ s₂ h₂ => ?_
    exact (wp_completeTurn_some h₂).imp (fun _ _ => id) fun _ _ hf => hf.elim

/-- The state in which a turn with a hard failover pending starts its rotation. -/
def rotationStart (env : Env) (s : Sys) : Sys where
  world := { s.world with ticks := s.world.ticks + 1 }
  manager := { s.manager with
    proactiveSwitchState :=
      s.manager.proactiveSwitchState.revalidateBeforeTurn (env.clock s.world.ticks)
    switchReason := none
    pendingRotation := none }

theorem wp_prepareTurn_hardFailure (hlease : s.manager.activeLease = some activeLease)
    (hpending : s.manager.pendingRotation = some .hardFailure)
    {Q : Option TurnAccountSelection → Sys → Prop} {E : Interrupt String → Sys → Prop}
    (h : wp (attempt (acquireSelectedRotationLease env fuel
        ((rotationStart env s).manager.rotationRequest .hardFailover (env.clock s.world.ticks)
          activeLease) activeLease))
      (fun outcome s' => wp (finishRotation env fuel (env.clock s.world.ticks)
        activeLease.record.accountId outcome) Q E s') E (rotationStart env s)) :
    wp (prepareTurn env fuel) Q E s := by
  obtain ⟨world, manager⟩ := s
  cases manager
  cases hlease
  cases hpending
  unfold prepareTurn refreshActiveLease rotateActiveLease
  simp only [wp_bind, wp_onWorld, wp_utcNow_iff, wp_modifyManager, wp_getManager]
  refine wp.imp_ok h fun outcome s' ho => ?_
  unfold finishRotation at ho
  rcases outcome with (_ | message) | nextLease
  · simpa using ho
  · exact ho
  · simpa using ho

/-- **Hard failovers.** An error of a turn that leaves the manager with the same active lease leaves
it with the hard failover pending exactly if every call succeeds until the lease is released. -/
theorem hardFailure_kept (hlease : s.manager.activeLease = some activeLease)
    (hpending : s.manager.pendingRotation = some .hardFailure) :
    (∀ e s', prepareTurn env fuel s = .error (.raised e) s' →
      s'.manager.activeLease = some activeLease →
        s'.manager.pendingRotation = some .hardFailure) ↔
      ∀ e s', failoverPrelude env fuel activeLease s ≠ .error (.raised e) s' := by
  have hprelude : failoverPrelude env fuel activeLease s =
      iterate (fun _ => failoverRound env activeLease.record.poolId
        ((rotationStart env s).manager.rotationRequest .hardFailover (env.clock s.world.ticks)
          activeLease)) fuel () (rotationStart env s) := rfl
  have hrotation := @acquireSelectedRotationLease_failover env activeLease.record.poolId
    ((rotationStart env s).manager.rotationRequest .hardFailover
      (env.clock s.world.ticks) activeLease)
    activeLease (rotationStart env s) fuel rfl rfl
  rw [← hprelude] at hrotation
  constructor
  · intro hkept e s' hraised
    rw [hraised] at hrotation
    obtain ⟨⟨message, rfl⟩, hmanager⟩ := wp_iterate_failoverRound.of_error (hprelude ▸ hraised)
    have hturn : wp (prepareTurn env fuel) (fun _ _ => False)
        (fun e s' => e = .raised message ∧ s'.manager = (rotationStart env s).manager) s := by
      refine wp_prepareTurn_hardFailure hlease hpending ?_
      rw [wp_attempt]
      unfold wp
      rw [hrotation]
      exact ⟨rfl, hmanager⟩
    cases hrun : prepareTurn env fuel s with
    | ok selection s'' => exact hturn.of_ok hrun
    | error e s'' =>
      obtain ⟨rfl, hmanager'⟩ := hturn.of_error hrun
      have := hkept _ _ hrun (by rw [hmanager']; exact hlease)
      rw [hmanager'] at this
      cases this
  · intro hcalls e s' hrun hsame
    have hturn : wp (prepareTurn env fuel) (fun _ _ => True) LeavesNone s := by
      refine wp_prepareTurn_hardFailure hlease hpending ?_
      rw [wp_attempt]
      cases hfirst : failoverPrelude env fuel activeLease s with
      | ok choice s₁ =>
        rw [hfirst] at hrotation
        refine hrotation.imp (fun _ _ h => wp_finishRotation_none h) fun e s₂ he => ?_
        cases e with
        | raised e => exact wp_finishRotation_none he
        | outOfFuel => trivial
      | error e s₁ =>
        rw [hfirst] at hrotation
        cases e with
        | raised e => exact absurd hfirst (hcalls e s₁)
        | outOfFuel =>
          unfold wp
          rw [hrotation]
          trivial
    have hnone : s'.manager.activeLease = none := hturn.of_error hrun
    rw [hnone] at hsame
    cases hsame

end

/-! ## A rotation that is forgotten -/

/-- The lease of `leased`, made active. -/
def leasedActive : ActiveAccountLease where
  record := {
    leaseId := 0
    poolId := "pool-1"
    accountId := "acct-1"
    holderInstanceId := "holder-1"
    leaseEpoch := 1
    acquiredAt := 0
    renewedAt := 0
    expiresAt := seconds 300
    releasedAt := none }
  selectionFamily := "chatgpt"
  authSession := { accountId := "acct-1", backendAccountHandle := "acct-1", leaseEpoch := 1 }

/-- The holder of the lease, after a turn on it that failed and cannot be replayed. -/
def failedTurn : Sys where
  world := { db := leased, ticks := 0, calls := 0 }
  manager := { Manager.new {} "holder-1" with
    activeLease := some leasedActive
    previousTurnAccountId := some "acct-1"
    pendingRotation := some .hardFailure
    activeLeaseGeneration := 1
    activeLeaseIdentity := some (.fromRecord leasedActive.record) }

/-- An environment in which the first call fails. -/
def failingEnv (now : Int) : Env :=
  { stoppedEnv now with fails := fun n => if n = 0 then some "database is locked" else none }

theorem hardFailure_kept_failedTurn :
    (∀ e s', prepareTurn (failingEnv (seconds 10)) 1 failedTurn = .error (.raised e) s' →
      s'.manager.activeLease = some leasedActive →
        s'.manager.pendingRotation = some .hardFailure) ↔
      ∀ e s', failoverPrelude (failingEnv (seconds 10)) 1 leasedActive failedTurn ≠
        .error (.raised e) s' := hardFailure_kept rfl rfl

/-- The account of a selection. -/
def selectedAccount : EStateM.Result (Interrupt String) Sys (Option TurnAccountSelection) →
    Option AccountId
  | .ok selection _ => selection.map (·.accountId)
  | .error _ _ => none

/-- When the first read of the failover fails, the rotation is forgotten, and the next turn is given
the account that failed. -/
theorem hardFailure_forgotten : ∃ s',
    prepareTurn (failingEnv (seconds 10)) 1 failedTurn =
        .error (.raised "database is locked") s' ∧
      failedTurn.manager.pendingRotation = some .hardFailure ∧
      s'.manager.activeLease = failedTurn.manager.activeLease ∧
      s'.manager.pendingRotation = none ∧
      selectedAccount (prepareTurn (failingEnv (seconds 10)) 1 s') = some "acct-1" := by
  refine ⟨_, rfl, rfl, rfl, rfl, ?_⟩
  decide +kernel

end Mcodex.Runtime
