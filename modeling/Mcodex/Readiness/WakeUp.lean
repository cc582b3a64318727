import Mcodex.Readiness.Flag

/-!
# What the readiness flag promises

A step of a call reads, raises the flag, sends, or subscribes (`Effect`). In every run the flag is
raised once, by a call that has the right to, and it stays (`Sound`). A waiter hears of it as long
as each send is heard: there is a receiver, or no waiter is between its check and its receiver
(`not_lostWakeUp`).
-/

namespace Mcodex.Readiness

open Transition

namespace Call

/-- The call has raised the flag and has not sent yet. -/
def sends : Call → Bool
  | isReady .send | waitReadyCheck .send | markReadySend => true
  | _ => false

/-- The call is a `mark_ready` that removed its token. -/
def marked : Call → Bool
  | markReadySend | markReadyDone (.ok true) => true
  | _ => false

/-- The call is a `wait_ready` that found the flag down and does not return before it is woken. -/
def waits (call : Call) : Bool := call = waitReadySubscribe || call.receiver.isSome

/-- The call does not send, has no token and does not wait. -/
def idle : Call → Bool
  | isReady phase | waitReadyCheck phase => phase ≠ .send
  | subscribeDone result => match result with
    | .ok _ => false
    | .error _ => true
  | markReadyDone result => match result with
    | .ok marked => !marked
    | .error _ => true
  | isReadyDone _ | subscribeLoad | subscribeLock | markReadyLoad _ | markReadyLock _
  | waitReadyDone => true
  | markReadySend | waitReadySubscribe | waitReadyBorrow _ | waitReadyChanged _
  | waitReadyReborrow _ => false

/-- The call is an `is_ready` that tries the lock. -/
def triesLock : Call → Bool
  | isReady .tryLock | waitReadyCheck .tryLock => true
  | _ => false

end Call

/-- What a step of a call can do. -/
inductive Effect (flag : ReadinessFlag) (hasReceiver : Bool) (call : Call) :
    ReadinessFlag → Call → Prop
  | read {call'} (hsends : call'.sends = false) (hsent : call.sends = false)
      (hmarked : call'.marked → call.marked)
      (hwaits : call'.waits → call.waits ∨ flag.ready = false)
      (hsubscribed : ∀ token, call' ≠ .subscribeDone (.ok token))
      (hseen : ∀ seen, call'.receiver = some seen →
        seen = flag.version ∨ call.receiver = some seen)
      (hchanged : ∀ seen, call' = .waitReadyChanged seen → flag.value = false) :
      Effect flag hasReceiver call flag call'
  | mark {token} (hcall : call = .markReadyLock token) (htoken : token ∈ flag.tokens) :
      Effect flag hasReceiver call { flag with ready := true, tokens := [] } .markReadySend
  | raise {call'} (hcall : call.triesLock) (hready : flag.ready = false)
      (htokens : flag.tokens = []) (hsends : call'.sends) (hmarked : call'.marked = false)
      (hwaits : call'.waits = false)
      (hsubscribed : ∀ token, call' ≠ .subscribeDone (.ok token)) :
      Effect flag hasReceiver call { flag with ready := true } call'
  | send {call'} (hsent : call.sends) (hsends : call'.sends = false)
      (hmarked : call'.marked → call.marked) (hwaits : call'.waits = false)
      (hsubscribed : ∀ token, call' ≠ .subscribeDone (.ok token)) :
      Effect flag hasReceiver call (flag.send hasReceiver) call'
  | subscribe {token nextId} (hcall : call = .subscribeLock) (hready : flag.ready = false) :
      Effect flag hasReceiver call { flag with tokens := token :: flag.tokens, nextId }
        (.subscribeDone (.ok token))

section
variable {flag flag' : ReadinessFlag} {hasReceiver lockFails : Bool} {call call' : Call}
  {w w' : World} {action : Action} {i j : Nat}

/-- What an idle call is not. -/
theorem Call.idle_spec (h : call.idle) : call.sends = false ∧ call.marked = false ∧
    call.waits = false ∧ ∀ token, call ≠ .subscribeDone (.ok token) := by
  cases call with
  | isReady phase | waitReadyCheck phase =>
    cases phase <;> first | exact ⟨rfl, rfl, rfl, fun _ => nofun⟩ | cases h
  | subscribeDone result =>
    cases result with
    | ok token => cases h
    | error error => exact ⟨rfl, rfl, rfl, fun _ => nofun⟩
  | markReadyDone result =>
    cases result with
    | ok marked =>
      cases marked with
      | true => cases h
      | false => exact ⟨rfl, rfl, rfl, fun _ => nofun⟩
    | error error => exact ⟨rfl, rfl, rfl, fun _ => nofun⟩
  | _ => first | exact ⟨rfl, rfl, rfl, fun _ => nofun⟩ | cases h

theorem Effect.to_idle (hsent : call.sends = false) (hidle : call'.idle) :
    Effect flag hasReceiver call flag call' := by
  obtain ⟨hsends, hmarked, hwaits, hsubscribed⟩ := Call.idle_spec hidle
  obtain ⟨-, hreceiver⟩ := Bool.or_eq_false_iff.1 hwaits
  refine .read hsends hsent (fun h => ?_) (fun h => ?_) hsubscribed (fun seen hseen => ?_)
    fun seen hchanged => ?_
  · rw [hmarked] at h
    cases h
  · rw [hwaits] at h
    cases h
  · rw [hseen] at hreceiver
    cases hreceiver
  · rw [hchanged] at hreceiver
    cases hreceiver

theorem Effect.to_idle_send (hsent : call.sends) (hidle : call'.idle) :
    Effect flag hasReceiver call (flag.send hasReceiver) call' := by
  obtain ⟨hsends, hmarked, hwaits, hsubscribed⟩ := Call.idle_spec hidle
  refine .send hsent hsends (fun h => ?_) hwaits hsubscribed
  rw [hmarked] at h
  cases h

/-- A step of `is_ready` reads, raises a flag that has no tokens, or sends. It finds the flag down
only when it is. -/
theorem checkPhase_next_cases (flag : ReadinessFlag) (hasReceiver lockFails : Bool)
    (phase : CheckPhase) :
    (∃ outcome, phase.next flag hasReceiver lockFails = (flag, outcome) ∧ phase ≠ .send ∧
      outcome ≠ .inl .send ∧ (outcome = .inr false → flag.ready = false)) ∨
    (phase = .tryLock ∧ flag.ready = false ∧ flag.tokens = [] ∧
      phase.next flag hasReceiver lockFails = ({ flag with ready := true }, .inl .send)) ∨
    (phase = .send ∧
      phase.next flag hasReceiver lockFails = (flag.send hasReceiver, .inr true)) := by
  cases phase with
  | load =>
    refine .inl ⟨_, rfl, nofun, ?_⟩
    split
    · exact ⟨nofun, nofun⟩
    · exact ⟨nofun, nofun⟩
  | tryLock =>
    simp only [CheckPhase.next]
    split
    · rename_i htokens
      rw [Bool.and_eq_true, List.isEmpty_iff] at htokens
      by_cases hready : flag.ready = true
      · have hsame : { flag with ready := true } = flag := by rw [← hready]
        rw [if_pos hready, hsame]
        exact .inl ⟨_, rfl, nofun, nofun, nofun⟩
      · rw [if_neg hready]
        exact .inr (.inl ⟨trivial, Bool.eq_false_iff.2 hready, htokens.2, rfl⟩)
    · exact .inl ⟨_, rfl, nofun, nofun, nofun⟩
  | send => exact .inr (.inr ⟨rfl, rfl⟩)
  | reload => exact .inl ⟨_, rfl, nofun, nofun, Sum.inr.inj⟩

theorem effect_of_next (h : call.next flag hasReceiver lockFails = some (flag', call')) :
    Effect flag hasReceiver call flag' call' := by
  cases call with
  | isReady phase =>
    rcases checkPhase_next_cases flag hasReceiver lockFails phase with
      ⟨outcome, hnext, hphase, houtcome, -⟩ | ⟨rfl, hready, htokens, hnext⟩ | ⟨rfl, hnext⟩ <;>
      rw [Call.next, hnext] at h <;>
      obtain ⟨rfl, rfl⟩ := Prod.mk.inj (Option.some.inj h)
    · refine .to_idle (by cases phase <;> first | rfl | exact absurd rfl hphase) ?_
      rcases outcome with phase' | result
      · exact decide_eq_true fun h => houtcome (congrArg Sum.inl h)
      · rfl
    · exact .raise rfl hready htokens rfl rfl rfl fun _ => nofun
    · exact .to_idle_send rfl rfl
  | waitReadyCheck phase =>
    rcases checkPhase_next_cases flag hasReceiver lockFails phase with
      ⟨outcome, hnext, hphase, houtcome, hdown⟩ | ⟨rfl, hready, htokens, hnext⟩ | ⟨rfl, hnext⟩ <;>
      rw [Call.next, hnext] at h <;>
      obtain ⟨rfl, rfl⟩ := Prod.mk.inj (Option.some.inj h)
    · have hsent : (Call.waitReadyCheck phase).sends = false := by
        cases phase <;> first | rfl | exact absurd rfl hphase
      rcases outcome with phase' | result
      · exact .to_idle hsent (decide_eq_true fun h => houtcome (congrArg Sum.inl h))
      · cases result with
        | true => exact .to_idle hsent rfl
        | false =>
          exact .read rfl hsent nofun (fun _ => .inr (hdown rfl)) (fun _ => nofun)
            (fun _ => nofun) fun _ => nofun
    · exact .raise rfl hready htokens rfl rfl rfl fun _ => nofun
    · exact .to_idle_send rfl rfl
  | subscribeLoad =>
    obtain ⟨rfl, rfl⟩ := Prod.mk.inj (Option.some.inj h)
    split <;> exact .to_idle rfl rfl
  | subscribeLock =>
    rw [Call.next] at h
    split_ifs at h with hlock hready
    · obtain ⟨rfl, rfl⟩ := Prod.mk.inj (Option.some.inj h)
      exact .to_idle rfl rfl
    · obtain ⟨rfl, rfl⟩ := Prod.mk.inj (Option.some.inj h)
      exact .to_idle rfl rfl
    · obtain ⟨⟨token, nextId⟩, -, hnext⟩ := Option.map_eq_some_iff.1 h
      obtain ⟨rfl, rfl⟩ := Prod.mk.inj hnext
      exact .subscribe rfl (Bool.eq_false_iff.2 hready)
  | markReadyLoad token =>
    obtain ⟨rfl, rfl⟩ := Prod.mk.inj (Option.some.inj h)
    split_ifs <;> exact .to_idle rfl rfl
  | markReadyLock token =>
    rw [Call.next] at h
    split_ifs at h with hlock htoken
    · obtain ⟨rfl, rfl⟩ := Prod.mk.inj (Option.some.inj h)
      exact .to_idle rfl rfl
    · obtain ⟨rfl, rfl⟩ := Prod.mk.inj (Option.some.inj h)
      exact .mark rfl htoken
    · obtain ⟨rfl, rfl⟩ := Prod.mk.inj (Option.some.inj h)
      exact .to_idle rfl rfl
  | markReadySend =>
    obtain ⟨rfl, rfl⟩ := Prod.mk.inj (Option.some.inj h)
    exact .send rfl rfl (fun _ => rfl) rfl fun _ => nofun
  | waitReadySubscribe =>
    obtain ⟨rfl, rfl⟩ := Prod.mk.inj (Option.some.inj h)
    exact .read rfl rfl nofun (fun _ => .inl rfl) (fun _ => nofun)
      (fun _ hseen => .inl (Option.some.inj hseen).symm) fun _ => nofun
  | waitReadyBorrow seen | waitReadyReborrow seen =>
    obtain ⟨rfl, rfl⟩ := Prod.mk.inj (Option.some.inj h)
    split_ifs with hvalue
    · exact .to_idle rfl rfl
    · exact .read rfl rfl nofun (fun _ => .inl rfl) (fun _ => nofun)
        (fun _ hseen => .inr hseen) fun _ _ => Bool.eq_false_iff.2 hvalue
  | waitReadyChanged seen =>
    rw [Call.next] at h
    split_ifs at h with hversion
    obtain ⟨rfl, rfl⟩ := Prod.mk.inj (Option.some.inj h)
    exact .read rfl rfl nofun (fun _ => .inl rfl) (fun _ => nofun)
      (fun _ hseen => .inl (Option.some.inj hseen).symm) fun _ => nofun
  | _ => cases h

/-- A step starts a call or has the effect of a step of one. -/
theorem handle_cases (h : w.handle action = some w') :
    (∃ op : Op, action = .start op ∧ w' = { w with calls := w.calls ++ [op.call] }) ∨
    ∃ i lockFails call flag' call', action = .advance i lockFails ∧ w.calls[i]? = some call ∧
      Effect w.flag w.hasReceiver call flag' call' ∧ w' = ⟨flag', w.calls.set i call'⟩ := by
  cases action with
  | start op => exact .inl ⟨op, rfl, (Option.some.inj h).symm⟩
  | advance i lockFails =>
    obtain ⟨call, hcall, hnext⟩ := Option.bind_eq_some_iff.1 h
    obtain ⟨⟨flag', call'⟩, hnext, hw⟩ := Option.map_eq_some_iff.1 hnext
    exact .inr ⟨i, lockFails, call, flag', call', rfl, hcall, effect_of_next hnext, hw.symm⟩

/-- The calls after a step of one of them. -/
theorem getElem?_set_iff {calls : List Call} (hcall : calls[i]? = some call) {other : Call} :
    (calls.set i call')[j]? = some other ↔
      (j = i ∧ other = call') ∨ (j ≠ i ∧ calls[j]? = some other) := by
  have hi : i < calls.length := (List.getElem?_eq_some_iff.1 hcall).1
  rw [List.getElem?_set]
  by_cases hij : i = j
  · subst hij
    rw [if_pos rfl, if_pos hi, Option.some_inj]
    exact ⟨fun h => .inl ⟨rfl, h.symm⟩, fun h => h.elim (·.2.symm) fun h => absurd rfl h.1⟩
  · rw [if_neg hij]
    exact ⟨fun h => .inr ⟨Ne.symm hij, h⟩, fun h => h.elim (fun h => absurd h.1.symm hij) (·.2)⟩

/-- The calls after a new one has begun. -/
theorem getElem?_append_iff {calls : List Call} {other : Call} :
    (calls ++ [call'])[j]? = some other ↔
      (j = calls.length ∧ other = call') ∨ (j ≠ calls.length ∧ calls[j]? = some other) := by
  rcases Nat.lt_trichotomy j calls.length with hj | rfl | hj
  · rw [List.getElem?_append_left hj]
    have hne := Nat.ne_of_lt hj
    exact ⟨fun h => .inr ⟨hne, h⟩, fun h => h.elim (fun h => absurd h.1 hne) (·.2)⟩
  · rw [List.getElem?_concat_length, Option.some_inj]
    exact ⟨fun h => .inl ⟨rfl, h.symm⟩, fun h => h.elim (·.2.symm) fun h => absurd rfl h.1⟩
  · rw [List.getElem?_eq_none (by rw [List.length_append, List.length_singleton]; exact hj),
      List.getElem?_eq_none (Nat.le_of_lt hj)]
    exact ⟨nofun, fun h => h.elim (fun h => absurd h.1 (Nat.ne_of_gt hj)) fun h => nomatch h.2⟩

theorem Call.receiver_of_waits_eq_false (h : call.waits = false) : call.receiver = none :=
  Option.not_isSome_iff_eq_none.1 (Bool.eq_false_iff.1 (Bool.or_eq_false_iff.1 h).2)

/-! ## The flag -/

/-- What holds of the flag and its calls in every run: the tokens are gone once it is raised, it was
raised by at most one `mark_ready`, and no waiter is ahead of the channel. -/
structure Sound (w : World) : Prop where
  tokens : w.flag.ready = true → w.flag.tokens = []
  marked : ∀ {i : Nat} {call : Call}, w.calls[i]? = some call → call.marked → w.flag.ready = true
  unique : ∀ {i j : Nat} {call call' : Call}, w.calls[i]? = some call → w.calls[j]? = some call' →
    call.marked → call'.marked → i = j
  seen : ∀ {i seen : Nat} {call : Call}, w.calls[i]? = some call → call.receiver = some seen →
    seen ≤ w.flag.version
  changed : ∀ {i seen : Nat}, w.calls[i]? = some (.waitReadyChanged seen) →
    w.flag.value = true → seen < w.flag.version

theorem Op.idle_call (op : Op) : op.call.idle := by
  cases op <;> rfl

theorem Sound.start (h : Sound w) (op : Op) : Sound { w with calls := w.calls ++ [op.call] } := by
  obtain ⟨-, hmarked, hwaits, -⟩ := Call.idle_spec op.idle_call
  have hreceiver := Call.receiver_of_waits_eq_false hwaits
  have hold {j : Nat} {other : Call} (hother : (w.calls ++ [op.call])[j]? = some other)
      (hmark : other.marked) : w.calls[j]? = some other := by
    rcases getElem?_append_iff.1 hother with ⟨-, rfl⟩ | ⟨-, hother⟩
    · rw [hmarked] at hmark
      cases hmark
    · exact hother
  refine ⟨h.tokens, fun hother hmark => h.marked (hold hother hmark) hmark,
    fun hother hother' hmark hmark' => h.unique (hold hother hmark) (hold hother' hmark') hmark
      hmark', fun hother hseen => ?_, fun hother => ?_⟩
  · rcases getElem?_append_iff.1 hother with ⟨-, rfl⟩ | ⟨-, hother⟩
    · rw [hreceiver] at hseen
      cases hseen
    · exact h.seen hother hseen
  · rcases getElem?_append_iff.1 hother with ⟨-, hnew⟩ | ⟨-, hother⟩
    · rw [← hnew] at hreceiver
      cases hreceiver
    · exact h.changed hother

/-- One call has gone on: what is needed of it and of the flag, the other calls being as before. -/
theorem Sound.update (h : Sound w) (hcall : w.calls[i]? = some call)
    (htokens : flag'.ready = true → flag'.tokens = [])
    (hready : w.flag.ready = true → flag'.ready = true)
    (hmarked : call'.marked → call.marked ∨ flag'.ready = true ∧
      ∀ {j : Nat} {other : Call}, w.calls[j]? = some other → ¬other.marked = true)
    (hversion : w.flag.version ≤ flag'.version)
    (hvalue : flag'.value = true → w.flag.value = true ∨ w.flag.version < flag'.version)
    (hseen : ∀ seen, call'.receiver = some seen → seen ≤ flag'.version)
    (hchanged : ∀ seen, call' = .waitReadyChanged seen → flag'.value = true →
      seen < flag'.version) : Sound ⟨flag', w.calls.set i call'⟩ := by
  -- a marked call was marked before, or none was
  have hold {j : Nat} {other : Call} (hother : (w.calls.set i call')[j]? = some other)
      (hmark : other.marked) : (∃ old, w.calls[j]? = some old ∧ old.marked) ∨
      j = i ∧ flag'.ready = true ∧
        ∀ {j : Nat} {other : Call}, w.calls[j]? = some other → ¬other.marked = true := by
    rcases (getElem?_set_iff hcall).1 hother with ⟨rfl, rfl⟩ | ⟨-, hother⟩
    · exact (hmarked hmark).imp (fun hmark => ⟨call, hcall, hmark⟩) fun hnew => ⟨rfl, hnew⟩
    · exact .inl ⟨other, hother, hmark⟩
  refine ⟨htokens, fun hother hmark => ?_, fun hother hother' hmark hmark' => ?_,
    fun hother hreceiver => ?_, fun hother hset => ?_⟩
  · rcases hold hother hmark with ⟨old, hold, hmark⟩ | ⟨-, hraised, -⟩
    · exact hready (h.marked hold hmark)
    · exact hraised
  · rcases hold hother hmark with ⟨old, hold₁, hmark₁⟩ | ⟨rfl, -, hnone⟩ <;>
      rcases hold hother' hmark' with ⟨old', hold₂, hmark₂⟩ | ⟨rfl, -, hnone'⟩
    · exact h.unique hold₁ hold₂ hmark₁ hmark₂
    · exact absurd hmark₁ (hnone' hold₁)
    · exact absurd hmark₂ (hnone hold₂)
    · rfl
  · rcases (getElem?_set_iff hcall).1 hother with ⟨-, rfl⟩ | ⟨-, hother⟩
    · exact hseen _ hreceiver
    · exact Nat.le_trans (h.seen hother hreceiver) hversion
  · rcases (getElem?_set_iff hcall).1 hother with ⟨-, hnew⟩ | ⟨-, hother⟩
    · exact hchanged _ hnew.symm hset
    · rcases hvalue hset with hvalue | hlater
      · exact Nat.lt_of_lt_of_le (h.changed hother hvalue) hversion
      · exact Nat.lt_of_le_of_lt (h.seen hother rfl) hlater

/-- A call that does not wait has no receiver. -/
theorem Call.not_receiver (hwaits : call.waits = false) :
    (∀ seen, call.receiver ≠ some seen) ∧ ∀ seen, call ≠ .waitReadyChanged seen := by
  have hreceiver := Call.receiver_of_waits_eq_false hwaits
  refine ⟨fun seen h => ?_, fun seen h => ?_⟩
  · rw [hreceiver] at h
    cases h
  · rw [h] at hreceiver
    cases hreceiver

theorem Sound.advance (h : Sound w) (hcall : w.calls[i]? = some call)
    (heffect : Effect w.flag w.hasReceiver call flag' call') :
    Sound ⟨flag', w.calls.set i call'⟩ := by
  cases heffect with
  | read hsends hsent hmarked hwaits hsubscribed hseen hchanged =>
    refine h.update hcall h.tokens id (fun hmark => .inl (hmarked hmark)) (Nat.le_refl _) .inl
      (fun seen hreceiver => ?_) fun seen hnew hvalue => ?_
    · rcases hseen seen hreceiver with rfl | hreceiver
      · exact Nat.le_refl _
      · exact h.seen hcall hreceiver
    · exact absurd hvalue (Bool.eq_false_iff.1 (hchanged seen hnew))
  | mark hmark htoken =>
    -- as there is a token, the flag was not raised before
    refine h.update hcall (fun _ => rfl) (fun _ => rfl)
      (fun _ => .inr ⟨rfl, fun hother hmarked => ?_⟩) (Nat.le_refl _) .inl (fun _ => nofun)
      fun _ => nofun
    rw [h.tokens (h.marked hother hmarked)] at htoken
    cases htoken
  | raise htries hready htokens hsends hmarked hwaits hsubscribed =>
    obtain ⟨hreceiver, hchanged⟩ := Call.not_receiver hwaits
    refine h.update hcall (fun _ => htokens) (fun _ => rfl) (fun hmark => ?_) (Nat.le_refl _) .inl
      (fun seen hnew => absurd hnew (hreceiver seen)) fun seen hnew => absurd hnew (hchanged seen)
    rw [hmarked] at hmark
    cases hmark
  | send hsent hsends hmarked hwaits hsubscribed =>
    obtain ⟨hreceiver, hchanged⟩ := Call.not_receiver hwaits
    have hflag : (w.flag.send w.hasReceiver).ready = w.flag.ready ∧
        (w.flag.send w.hasReceiver).tokens = w.flag.tokens ∧
        w.flag.version ≤ (w.flag.send w.hasReceiver).version ∧
        ((w.flag.send w.hasReceiver).value = true → w.flag.value = true ∨
          w.flag.version < (w.flag.send w.hasReceiver).version) := by
      unfold ReadinessFlag.send
      split
      · exact ⟨rfl, rfl, Nat.le_succ _, fun _ => .inr (Nat.lt_succ_self _)⟩
      · exact ⟨rfl, rfl, Nat.le_refl _, .inl⟩
    obtain ⟨hready, htokens, hversion, hvalue⟩ := hflag
    exact h.update hcall (fun hraised => htokens.trans (h.tokens (hready ▸ hraised)))
      (fun hraised => hready.trans hraised) (fun hmark => .inl (hmarked hmark)) hversion hvalue
      (fun seen hnew => absurd hnew (hreceiver seen)) fun seen hnew => absurd hnew (hchanged seen)
  | subscribe hsubscribe hready =>
    refine h.update hcall (fun hraised => ?_) id (fun hmark => nomatch hmark) (Nat.le_refl _) .inl
      (fun _ => nofun) fun _ => nofun
    exact absurd hraised (Bool.eq_false_iff.1 hready)

theorem Sound.step (h : Sound w) (hstep : readiness.step w action w') : Sound w' := by
  rcases handle_cases hstep with ⟨op, -, rfl⟩ | ⟨i, _, call, flag', call', -, hcall, heffect, rfl⟩
  · exact h.start op
  · exact h.advance hcall heffect

theorem sound (h : readiness.Reach w) : Sound w := by
  refine h.invariant (fun w hinit => ?_) fun _ _ _ => Sound.step
  subst hinit
  exact ⟨nofun, nofun, nofun, nofun, nofun⟩

/-- The step is one of a call that may raise the flag: a `mark_ready` that removes its token, or an
`is_ready` that finds no token. -/
def MayRaise (w : World) (action : Action) : Prop :=
  ∃ i lockFails call, action = .advance i lockFails ∧ w.calls[i]? = some call ∧
    ((∃ token, call = .markReadyLock token ∧ token ∈ w.flag.tokens) ∨
      call.triesLock ∧ w.flag.tokens = [])

/-- What one step does to the flag. -/
theorem step_flag (h : readiness.step w action w') :
    (w.flag.ready = true → w'.flag.ready = true) ∧
      (w.flag.ready = false → w'.flag.ready = true → MayRaise w action) := by
  rcases handle_cases h with
    ⟨op, -, rfl⟩ | ⟨i, lockFails, call, flag', call', rfl, hcall, heffect, rfl⟩
  · exact ⟨id, fun hdown hup => absurd hup (Bool.eq_false_iff.1 hdown)⟩
  · cases heffect with
    | read | subscribe => exact ⟨id, fun hdown hup => absurd hup (Bool.eq_false_iff.1 hdown)⟩
    | mark hmark htoken =>
      exact ⟨fun _ => rfl, fun _ _ => ⟨i, lockFails, call, rfl, hcall, .inl ⟨_, hmark, htoken⟩⟩⟩
    | raise htries hready htokens =>
      exact ⟨fun _ => rfl, fun _ _ => ⟨i, lockFails, call, rfl, hcall, .inr ⟨htries, htokens⟩⟩⟩
    | send =>
      have hready : (w.flag.send w.hasReceiver).ready = w.flag.ready := by
        unfold ReadinessFlag.send
        split <;> rfl
      exact ⟨hready.trans, fun hdown hup =>
        absurd (hready.symm.trans hup) (Bool.eq_false_iff.1 hdown)⟩

/-- Once the flag is raised, no step gives out a token. -/
theorem step_subscribed {k : Nat} {token : Token} (h : readiness.step w action w')
    (hready : w.flag.ready = true)
    (hdone : w'.calls[k]? = some (.subscribeDone (.ok token))) :
    w.calls[k]? = some (.subscribeDone (.ok token)) := by
  rcases handle_cases h with
    ⟨op, -, rfl⟩ | ⟨i, lockFails, call, flag', call', rfl, hcall, heffect, rfl⟩
  · rcases getElem?_append_iff.1 hdone with ⟨-, hnew⟩ | ⟨-, hold⟩
    · exact absurd hnew.symm ((Call.idle_spec op.idle_call).2.2.2 token)
    · exact hold
  · rcases (getElem?_set_iff hcall).1 hdone with ⟨-, hnew⟩ | ⟨-, hold⟩
    · cases heffect with
      | read _ _ _ _ hsubscribed => exact absurd hnew.symm (hsubscribed token)
      | mark => cases hnew
      | raise _ _ _ _ _ _ hsubscribed => exact absurd hnew.symm (hsubscribed token)
      | send _ _ _ _ hsubscribed => exact absurd hnew.symm (hsubscribed token)
      | subscribe _ hdown => exact absurd hready (Bool.eq_false_iff.1 hdown)
    · exact hold

/-- The flag stays up, and no call subscribes any more. -/
theorem run_ready (h : readiness.Run w w') (hready : w.flag.ready = true) :
    w'.flag.ready = true ∧ ∀ {k : Nat} {token : Token},
      w'.calls[k]? = some (.subscribeDone (.ok token)) →
      w.calls[k]? = some (.subscribeDone (.ok token)) := by
  induction h with
  | refl => exact ⟨hready, id⟩
  | step _ hstep ih =>
    exact ⟨(step_flag hstep).1 ih.1, fun hdone => ih.2 (step_subscribed hstep ih.1 hdone)⟩

/-! ## The wake-up -/

/-- A waiter has its receiver and sees the flag down in the channel, or waits for a change of it,
while the flag is up and nobody is going to send. -/
def LostWakeUp (w : World) : Prop :=
  w.flag.ready = true ∧ (∀ call ∈ w.calls, call.sends = false) ∧
    ((w.flag.value = false ∧ ∃ call ∈ w.calls, call.receiver.isSome) ∨
      .waitReadyChanged w.flag.version ∈ w.calls)

/-- When a call sends, there is a receiver, or no waiter has checked the flag without taking its
receiver yet. -/
def SendIsHeard (w : World) (action : Action) : Prop :=
  ∀ i lockFails call, action = .advance i lockFails → w.calls[i]? = some call → call.sends →
    w.hasReceiver = true ∨ .waitReadySubscribe ∉ w.calls

/-- Once the flag is up, a call is going to send, or the channel has the news, or nobody waits. -/
def Announced (w : World) : Prop :=
  w.flag.ready = true → (∃ call ∈ w.calls, call.sends) ∨ w.flag.value = true ∨
    ∀ call ∈ w.calls, call.waits = false

theorem Announced.step (h : Announced w) (hheard : SendIsHeard w action)
    (hstep : readiness.step w action w') : Announced w' := by
  intro hready
  rcases handle_cases hstep with
    ⟨op, -, rfl⟩ | ⟨i, lockFails, call, flag', call', rfl, hcall, heffect, rfl⟩
  · rcases h hready with ⟨other, hother, hsends⟩ | hvalue | hnone
    · exact .inl ⟨other, List.mem_append_left _ hother, hsends⟩
    · exact .inr (.inl hvalue)
    · refine .inr (.inr fun other hother => ?_)
      rcases List.mem_append.1 hother with hother | hother
      · exact hnone other hother
      · rw [List.mem_singleton.1 hother]
        exact (Call.idle_spec op.idle_call).2.2.1
  have hnew : call' ∈ w.calls.set i call' :=
    List.mem_of_getElem? ((getElem?_set_iff hcall).2 (.inl ⟨rfl, rfl⟩))
  cases heffect with
  | read hsends hsent hmarked hwaits =>
    rcases h hready with ⟨other, hother, hpending⟩ | hvalue | hnone
    · -- the call that is going to send is another one
      obtain ⟨k, hk⟩ := List.mem_iff_getElem?.1 hother
      have hne : k ≠ i := by
        rintro rfl
        obtain rfl := Option.some.inj (hcall.symm.trans hk)
        rw [hsent] at hpending
        cases hpending
      exact .inl ⟨other, List.mem_of_getElem? ((getElem?_set_iff hcall).2 (.inr ⟨hne, hk⟩)),
        hpending⟩
    · exact .inr (.inl hvalue)
    · refine .inr (.inr fun other hother => ?_)
      rcases List.mem_or_eq_of_mem_set hother with hother | rfl
      · exact hnone other hother
      · refine Bool.eq_false_iff.2 fun hwait => ?_
        rcases hwaits hwait with hwait | hdown
        · exact Bool.eq_false_iff.1 (hnone call (List.mem_of_getElem? hcall)) hwait
        · exact Bool.eq_false_iff.1 hdown hready
  | mark => exact .inl ⟨_, hnew, rfl⟩
  | raise _ _ _ hsends => exact .inl ⟨_, hnew, hsends⟩
  | send hsent _ _ hwaits =>
    cases hreceiver : w.hasReceiver with
    | true => exact .inr (.inl rfl)
    | false =>
      -- nobody hears it, but then nobody waits
      have hsubscribe := (hheard i lockFails call rfl hcall hsent).resolve_left
        (Bool.eq_false_iff.1 hreceiver)
      refine .inr (.inr fun other hother => ?_)
      rcases List.mem_or_eq_of_mem_set hother with hother | rfl
      · exact Bool.or_eq_false_iff.2
          ⟨decide_eq_false fun h => hsubscribe (h ▸ hother),
            Bool.eq_false_iff.2 fun h => List.any_eq_false.1 hreceiver other hother h⟩
      · exact hwaits
  | subscribe _ hdown => exact absurd hready (Bool.eq_false_iff.1 hdown)

/-- As long as every send is heard, no wake-up is lost. -/
theorem not_lostWakeUp (h : (readiness.restrict SendIsHeard).Reach w) : ¬LostWakeUp w := by
  have hannounced : Announced w := by
    refine h.invariant (fun w hinit => ?_) fun w action w' hw hstep => hw.step hstep.1 hstep.2
    subst hinit
    exact nofun
  rintro ⟨hready, hsent, hlost⟩
  rcases hannounced hready with ⟨call, hcall, hsends⟩ | hvalue | hnone
  · exact Bool.eq_false_iff.1 (hsent call hcall) hsends
  · rcases hlost with ⟨hvalue', -⟩ | hchanged
    · exact Bool.eq_false_iff.1 hvalue' hvalue
    · obtain ⟨i, hi⟩ := List.mem_iff_getElem?.1 hchanged
      exact Nat.lt_irrefl _ ((sound h.of_restrict).changed hi hvalue)
  · rcases hlost with ⟨-, call, hcall, hreceiver⟩ | hchanged
    · refine Bool.eq_false_iff.1 (hnone call hcall) ?_
      rw [Call.waits, hreceiver, Bool.or_true]
    · exact nomatch hnone _ hchanged

/-- In every run the flag is raised by a call that may raise it, and stays up; one `mark_ready` at
most returns true, and after it none subscribes. In every run whose sends are heard no wake-up is
lost. -/
theorem readiness_run (w : World) :
    (readiness.Reach w →
      (∀ action w', readiness.step w action w' → w.flag.ready = false → w'.flag.ready = true →
        MayRaise w action) ∧
      (∀ w', readiness.Run w w' → w.flag.ready = true → w'.flag.ready = true) ∧
      (∀ i j : Nat, w.calls[i]? = some (Call.markReadyDone (.ok true)) →
        w.calls[j]? = some (Call.markReadyDone (.ok true)) → i = j) ∧
      ∀ i : Nat, w.calls[i]? = some (Call.markReadyDone (.ok true)) →
        ∀ w', readiness.Run w w' → ∀ (k : Nat) (token : Token),
          w'.calls[k]? = some (Call.subscribeDone (.ok token)) →
          w.calls[k]? = some (Call.subscribeDone (.ok token))) ∧
    ((readiness.restrict SendIsHeard).Reach w → ¬LostWakeUp w) := by
  refine ⟨fun h => ⟨fun action w' hstep => (step_flag hstep).2,
    fun w' hrun hready => (run_ready hrun hready).1, fun i j hi hj => ?_,
    fun i hi w' hrun k token hdone => ?_⟩, not_lostWakeUp⟩
  · exact (sound h).unique hi hj rfl rfl
  · exact (run_ready hrun ((sound h).marked hi rfl)).2 hdone

end

/-! ## A lost wake-up -/

/-- A run of steps, one after the other. -/
theorem reach_of_foldlM {w w' : World} (actions : List Action) (hw : readiness.Reach w)
    (h : actions.foldlM World.handle w = some w') : readiness.Reach w' := by
  induction actions generalizing w with
  | nil =>
    cases h
    exact hw
  | cons action actions ih =>
    obtain ⟨w₁, hstep, hrest⟩ := Option.bind_eq_some_iff.1 h
    exact ih (hw.step hstep) hrest

/-- A token is out, a waiter finds the flag down, the token marks it ready, and then the waiter
takes its receiver. -/
def lateReceiver : List Action :=
  [.start .subscribe, .advance 0 false, .advance 0 false,
    .start .waitReady, .advance 1 false, .advance 1 false, .advance 1 false,
    .start (.markReady 1), .advance 2 false, .advance 2 false, .advance 2 false,
    .advance 1 false, .advance 1 false]

/-- The waiter waits for ever: the flag is up, the `mark_ready` has returned, and the channel has
nothing. -/
theorem lostWakeUp_lateReceiver : ∃ w, readiness.Reach w ∧ LostWakeUp w := by
  refine ⟨⟨⟨true, 2, [], false, 0⟩,
    [.subscribeDone (.ok 1), .waitReadyChanged 0, .markReadyDone (.ok true)]⟩,
    reach_of_foldlM lateReceiver (.init rfl) (by decide), rfl, by decide,
    .inr (by decide)⟩

end Mcodex.Readiness
