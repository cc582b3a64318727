import Mathlib.Logic.Function.Basic
import Mcodex.AccountPool.StoreOp

/-!
# Health events and the pool of an account

A health event carries the pool of the lease it was reported under. The event's transaction writes
that pool to the runtime state when the event is newer than the state recorded, and then writes the
runtime state's pool to the membership. So an event that is not newer leaves the membership as the
last assignment (or the last newer event) wrote it, and a newer one moves a member to the event's
pool. `History` records these writes beside the database.
-/

namespace Mcodex.AccountPool

open Effect

/-- The memberships and runtime states name the same pools. -/
def Db.PoolsAgree (db : Db) : Prop :=
  ∀ a, ∀ p ∈ db.poolOf a, ∀ q ∈ db.runtimePoolOf a, q = p

section
variable {db db' : Db} {accountId : AccountId} {pool : Option PoolId} {event : AccountHealthEvent}

theorem Db.Moves.poolsAgree (h : db.Moves db' accountId pool) (hdb : db.PoolsAgree) :
    db'.PoolsAgree := by
  intro a p hp q hq
  by_cases ha : a = accountId
  · subst ha
    have hpool := h.runtimeState q hq
    rw [h.membership, hpool] at hp
    exact Option.some.inj hp
  · rw [(h.others a ha).1] at hp
    rw [(h.others a ha).2] at hq
    exact hdb a p hp q hq

/-- The pool of the runtime state that an event leaves. -/
theorem Db.PoolsAgree.runtimeStateAfter (hdb : db.PoolsAgree) {p : PoolId}
    (hp : db.poolOf event.accountId = some p) :
    (Db.runtimeStateAfter event (db.accountRuntimeState.lookup event.accountId)).poolId =
      if db.NewerEvent event then event.poolId else p := by
  cases hrow : db.accountRuntimeState.lookup event.accountId with
  | none =>
    have hnew : db.NewerEvent event := by simp [Db.NewerEvent, hrow]
    simp [Db.runtimeStateAfter, hnew]
  | some row =>
    have hq : row.poolId = p := hdb event.accountId p hp row.poolId (by simp [Db.runtimePoolOf, hrow])
    have hnew : db.NewerEvent event ↔ row.lastHealthEventSequence < event.sequenceNumber := by
      simp [Db.NewerEvent, hrow]
    simp only [Db.runtimeStateAfter, hnew]
    split <;> simp [*]

/-- **The pool after an event.** A member takes the event's pool if the event is newer than the
state recorded; nothing else moves. -/
theorem Db.PoolsAgree.poolOf_recordAccountHealthEvent (hdb : db.PoolsAgree)
    (h : db.recordAccountHealthEvent event = .ok db') (a : AccountId) :
    db'.poolOf a = if a = event.accountId ∧ (db.poolOf a).isSome ∧ db.NewerEvent event then
      some event.poolId else db.poolOf a := by
  rw [((Db.recordAccountHealthEvent_eq_ok h).2.2 a).1]
  by_cases ha : a = event.accountId
  · subst ha
    cases hp : db.poolOf event.accountId with
    | none => simp
    | some p =>
      simp only [if_true, Option.map_some, hdb.runtimeStateAfter hp, Option.isSome_some, true_and]
      split <;> rfl
  · simp [ha]

theorem Db.PoolsAgree.recordAccountHealthEvent (hdb : db.PoolsAgree)
    (h : db.recordAccountHealthEvent event = .ok db') : db'.PoolsAgree := by
  intro a p hp q hq
  obtain ⟨hpool, hruntime⟩ := (Db.recordAccountHealthEvent_eq_ok h).2.2 a
  rw [hpool] at hp
  rw [hruntime] at hq
  by_cases ha : a = event.accountId
  · simp only [ha, if_true, Option.mem_def, Option.map_eq_some_iff, Option.some.injEq] at hp hq
    obtain ⟨_, _, rfl⟩ := hp
    exact hq.symm
  · simp only [ha, if_false] at hp hq
    exact hdb a p hp q hq

end

/-! ## Histories -/

/-- The account and the pool that an explicit assignment sets, where the call succeeds. -/
def StoreOp.assigns (db : Db) : StoreOp → Option (AccountId × Option PoolId)
  | assignAccountPoolMembership accountId poolId now =>
    (db.assignAccountPoolMembership accountId poolId now).toOption.map
      fun _ => (accountId, some poolId)
  | upsertRegisteredAccount entry now =>
    (db.upsertRegisteredAccount entry now).toOption.map
      fun r => (r.1, entry.membership.map (·.poolId))
  | upsertAccountRegistryEntry entry now =>
    (db.upsertAccountRegistryEntry entry now).toOption.map
      fun _ => (entry.accountId, some entry.poolId)
  | _ => none

/-- The account and the pool that a newer health event of a member writes. -/
def StoreOp.reports (db : Db) : StoreOp → Option (AccountId × Option PoolId)
  | recordAccountHealthEvent event =>
    if (db.recordAccountHealthEvent event).toOption.isSome ∧
        (db.poolOf event.accountId).isSome ∧ db.NewerEvent event then
      some (event.accountId, some event.poolId)
    else none
  | _ => none

/-- A database with the pools that its accounts were last written to: `assigned` by explicit
assignments, `written` by explicit assignments and newer health events. -/
structure History where
  db : Db
  assigned : AccountId → Option PoolId
  written : AccountId → Option PoolId

/-- The map with one write applied. -/
def applyWrite (write : Option (AccountId × Option PoolId)) (pools : AccountId → Option PoolId) :
    AccountId → Option PoolId :=
  match write with
  | some (accountId, pool) => Function.update pools accountId pool
  | none => pools

def History.after (s : History) (op : StoreOp) : History where
  db := op.run s.db
  assigned := applyWrite (op.assigns s.db) s.assigned
  written := applyWrite ((op.assigns s.db).or (op.reports s.db)) s.written

/-- Histories of explicit assignments, health events and every call that writes no pool. -/
def poolHistory : Transition.System History StoreOp where
  init s := s = ⟨Db.empty, fun _ => none, fun _ => none⟩
  step s op s' := (∀ a, op ≠ .importLegacyDefaultAccount a) ∧ s.after op = s'

section
variable {s s' : History} {op : StoreOp}

/-- A write that moves one account keeps `written` the map of memberships. -/
theorem Db.Moves.poolOf_eq {db db' : Db} {a : AccountId} {pool : Option PoolId}
    (h : db.Moves db' a pool) {written : AccountId → Option PoolId} (hw : db.poolOf = written) :
    db'.poolOf = Function.update written a pool := by
  funext b
  by_cases hb : b = a
  · subst hb
    rw [h.membership, Function.update_self]
  · rw [(h.others b hb).1, Function.update_of_ne hb, hw]

theorem History.after_invariant (hop : ∀ a, op ≠ .importLegacyDefaultAccount a)
    (hpools : s.db.PoolsAgree) (hwritten : s.db.poolOf = s.written) :
    (s.after op).db.PoolsAgree ∧ (s.after op).db.poolOf = (s.after op).written := by
  -- a successful assignment moves its account; a failed one changes nothing
  have hmoves {α : Type} {x : Except String (α × Db)} {f : α × Db → AccountId × Option PoolId}
      (hx : ∀ r, x = .ok r → s.db.Moves r.2 (f r).1 (f r).2) :
      (orElseKeep s.db (x.map (·.2))).PoolsAgree ∧ (orElseKeep s.db (x.map (·.2))).poolOf =
        applyWrite ((x.toOption.map f).or none) s.written := by
    cases hxe : x with
    | error e => exact ⟨hpools, hwritten⟩
    | ok r => exact ⟨(hx r hxe).poolsAgree hpools, (hx r hxe).poolOf_eq hwritten⟩
  have hframe : ¬op.WritesPool → (op.run s.db).poolOf = s.db.poolOf ∧
      (op.run s.db).runtimePoolOf = s.db.runtimePoolOf := fun h => StoreOp.poolOf_run h s.db
  cases op with
  | assignAccountPoolMembership accountId poolId now =>
    refine hmoves fun r hr => ?_
    obtain ⟨-, rfl⟩ := Db.assignAccountPoolMembership_eq_ok.1 hr
    exact Db.withPool_moves.release _ _
  | upsertRegisteredAccount entry now =>
    exact hmoves fun r hr => (Db.upsertRegisteredAccount_eq_ok hr).1
  | upsertAccountRegistryEntry entry now =>
    simp only [History.after, StoreOp.run, StoreOp.assigns, StoreOp.reports]
    cases hxe : s.db.upsertAccountRegistryEntry entry now with
    | error e => exact ⟨hpools, hwritten⟩
    | ok db' =>
      have hm := (Db.upsertAccountRegistryEntry_eq_ok hxe).1
      exact ⟨hm.poolsAgree hpools, hm.poolOf_eq hwritten⟩
  | recordAccountHealthEvent event =>
    simp only [History.after, StoreOp.run, StoreOp.assigns, StoreOp.reports, Option.none_or]
    cases hxe : s.db.recordAccountHealthEvent event with
    | error e => exact ⟨hpools, by simpa [Except.toOption, orElseKeep, applyWrite] using hwritten⟩
    | ok db' =>
      refine ⟨hpools.recordAccountHealthEvent hxe, funext fun a => ?_⟩
      rw [orElseKeep, hpools.poolOf_recordAccountHealthEvent hxe a, hwritten]
      by_cases hnew : (s.written event.accountId).isSome ∧ s.db.NewerEvent event
      · by_cases ha : a = event.accountId
        · subst ha
          simp [Except.toOption, hnew, applyWrite]
        · simp [Except.toOption, hnew, applyWrite, ha, Function.update_of_ne]
      · have : ¬(a = event.accountId ∧ (s.written a).isSome ∧ s.db.NewerEvent event) := by
          rintro ⟨rfl, h⟩
          exact hnew h
        simp [Except.toOption, hnew, applyWrite, this]
  | importLegacyDefaultAccount accountId => exact absurd rfl (hop accountId)
  | _ =>
    obtain ⟨hp, hr⟩ := hframe id
    refine ⟨fun a p hpa q hqa => ?_, hp.trans hwritten⟩
    simp only [History.after] at hpa hqa
    rw [hp] at hpa
    rw [hr] at hqa
    exact hpools a p hpa q hqa

theorem poolHistory_invariant (h : poolHistory.Reach s) :
    s.db.PoolsAgree ∧ s.db.poolOf = s.written := by
  refine h.invariant (I := fun s => s.db.PoolsAgree ∧ s.db.poolOf = s.written) (fun s hinit => ?_)
    fun s op t hs hstep => ?_
  · obtain rfl : s = ⟨Db.empty, fun _ => none, fun _ => none⟩ := hinit
    exact ⟨fun _ _ hp => (nomatch hp), rfl⟩
  · obtain ⟨hop, rfl⟩ := hstep
    exact History.after_invariant hop hs.1 hs.2

end

/-! ## A late report -/

/-- An account registered in `pool-1` and then assigned to `pool-2`. -/
def reassigned : History :=
  ((⟨Db.empty, fun _ => none, fun _ => none⟩ : History).after
    (.upsertAccountRegistryEntry (chatgptEntry "acct-1" "pool-1" 0) 0)).after
    (.assignAccountPoolMembership "acct-1" "pool-2" (seconds 1))

theorem reassigned_reach : poolHistory.Reach reassigned :=
  .step (a := .assignAccountPoolMembership "acct-1" "pool-2" (seconds 1))
    (.step (a := .upsertAccountRegistryEntry (chatgptEntry "acct-1" "pool-1" 0) 0) (.init rfl)
      ⟨nofun, rfl⟩) ⟨nofun, rfl⟩

/-- The first event recorded for the account, reported under its lease in `pool-1`. -/
def lateReport : AccountHealthEvent where
  accountId := "acct-1"
  poolId := "pool-1"
  healthState := .rateLimited
  sequenceNumber := 1
  observedAt := seconds 2

/-- The late report takes the account back to the pool it was assigned out of. -/
theorem health_event_undoes_assignment : ¬∀ s, poolHistory.Reach s → ∀ event db',
    s.db.recordAccountHealthEvent event = .ok db' →
      db'.poolOf event.accountId = s.assigned event.accountId := by
  intro h
  exact absurd (h reassigned reassigned_reach lateReport _ rfl) (by decide)

/-- **Only newer events move a member.** After a health event the membership of its account is in
the event's pool if the account is a member and the event is newer than the runtime state recorded
for it, and otherwise where the last assignment or newer event before put it; no other account
moves. -/
theorem health_event_pool {s : History} {event : AccountHealthEvent} {db' : Db}
    (h : poolHistory.Reach s) (hev : s.db.recordAccountHealthEvent event = .ok db')
    (a : AccountId) :
    db'.poolOf a = if a = event.accountId ∧ (s.db.poolOf a).isSome ∧ s.db.NewerEvent event then
      some event.poolId else s.written a := by
  obtain ⟨hpools, hwritten⟩ := poolHistory_invariant h
  rw [hpools.poolOf_recordAccountHealthEvent hev a, hwritten]

theorem health_event_pool_lateReport : ∃ db',
    reassigned.db.recordAccountHealthEvent lateReport = .ok db' ∧
      db'.poolOf "acct-1" = some "pool-1" := by
  refine ⟨_, rfl, ?_⟩
  rw [@health_event_pool _ lateReport _ reassigned_reach rfl "acct-1"]
  decide

end Mcodex.AccountPool
