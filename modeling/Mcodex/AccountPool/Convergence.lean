import Mcodex.AccountPool.Quota
import Mcodex.AccountPool.Reporting
import Mcodex.Lib.Ranking

/-!
# Quota and health rows in any order

Quota observations and health events reach the store in any order. A row keeps the observation that
was made last, by the nanosecond, and the event with the greatest number: both are cells that only
a later value replaces (`Ranking.foldl_replace_eq`). The column `updated_at` is left out.
-/

namespace Mcodex.AccountPool

open Effect Ranking Table

/-- The row that a record is written as. -/
def QuotaRow.of (record : AccountQuotaStateRecord) : QuotaRow where
  primaryUsedPercent := record.primaryUsedPercent
  primaryResetsAt := record.primaryResetsAt.map datetimeToEpochSeconds
  secondaryUsedPercent := record.secondaryUsedPercent
  secondaryResetsAt := record.secondaryResetsAt.map datetimeToEpochSeconds
  observedAtNanos := record.observedAt
  exhaustedWindows := record.exhaustedWindows
  predictedBlockedUntil :=
    if record.exhaustedWindows.isExhausted then
      record.predictedBlockedUntil.map datetimeToEpochSeconds
    else none
  nextProbeAfter :=
    if record.exhaustedWindows.isExhausted then record.nextProbeAfter.map datetimeToEpochSeconds
    else none
  probeBackoffLevel := 0
  lastProbeResult := none

/-- The state that an event is written as. -/
def RuntimeStateRow.of (event : AccountHealthEvent) : RuntimeStateRow where
  poolId := event.poolId
  healthState := event.healthState
  lastHealthEventSequence := event.sequenceNumber
  lastHealthEventAt := datetimeToEpochSeconds event.observedAt

/-- A row is replaced by one that was observed at the same time or later. -/
def QuotaRow.after (row row' : QuotaRow) : Bool := row.observedAtNanos ≤ row'.observedAtNanos

/-- A state is replaced by one with a greater number. -/
def RuntimeStateRow.after (row row' : RuntimeStateRow) : Bool :=
  row.lastHealthEventSequence < row'.lastHealthEventSequence

section
variable {db db' : Db} {accountId : AccountId} {limitId : LimitId}

namespace Db

theorem upsertAccountQuotaState_of_registered (record : AccountQuotaStateRecord)
    (h : record.accountId ∈ db.accountRegistry) :
    ∃ db', db.upsertAccountQuotaState record = .ok db' ∧
      db'.accountRegistry = db.accountRegistry ∧
      db'.accountQuotaState.lookup (record.accountId, record.limitId) =
        replace QuotaRow.after (db.accountQuotaState.lookup (record.accountId, record.limitId))
          (.of record) := by
  by_cases hnew : (db.accountQuotaState.lookup (record.accountId, record.limitId)).all
      (QuotaRow.after · (.of record))
  · refine ⟨{ db with
      accountQuotaState := db.accountQuotaState.insert (record.accountId, record.limitId)
        (.of record) }, ?_, rfl, ?_⟩
    · simp only [upsertAccountQuotaState, checkRegistered, h]
      exact if_pos hnew
    · rw [replace, if_pos hnew]
      exact AList.lookup_insert _
  · refine ⟨db, ?_, rfl, ?_⟩
    · simp only [upsertAccountQuotaState, checkRegistered, h]
      exact if_neg hnew
    · rw [replace, if_neg hnew]

/-- The observations of one row of a registered account. -/
theorem upsertAccountQuotaStates (records : List AccountQuotaStateRecord)
    (hreg : accountId ∈ db.accountRegistry)
    (hkey : ∀ record ∈ records, record.accountId = accountId ∧ record.limitId = limitId) :
    ∃ db', records.foldlM upsertAccountQuotaState db = .ok db' ∧
      db'.accountQuotaState.lookup (accountId, limitId) =
        (records.map QuotaRow.of).foldl (replace QuotaRow.after)
          (db.accountQuotaState.lookup (accountId, limitId)) := by
  induction records generalizing db with
  | nil => exact ⟨db, rfl, rfl⟩
  | cons record records ih =>
    rw [List.forall_mem_cons] at hkey
    obtain ⟨⟨rfl, rfl⟩, hkey⟩ := hkey
    obtain ⟨db₁, h₁, hregistry, hlookup⟩ := upsertAccountQuotaState_of_registered record hreg
    obtain ⟨db', h', hlookup'⟩ := ih (hregistry ▸ hreg) hkey
    refine ⟨db', ?_, ?_⟩
    · rw [List.foldlM_cons, h₁]
      exact h'
    · rw [hlookup', hlookup]
      rfl

theorem some_runtimeStateAfter (event : AccountHealthEvent) (existing : Option RuntimeStateRow) :
    some (runtimeStateAfter event existing) =
      replace RuntimeStateRow.after existing (.of event) := by
  cases existing with
  | none => rfl
  | some row =>
    rw [replace, Option.all_some, runtimeStateAfter]
    by_cases hlt : row.lastHealthEventSequence < event.sequenceNumber
    · exact (congrArg some (if_pos hlt)).trans (if_pos (decide_eq_true hlt)).symm
    · exact (congrArg some (if_neg hlt)).trans
        (if_neg fun h => hlt (of_decide_eq_true h)).symm

/-- The health events of one registered account. -/
theorem recordAccountHealthEvents (events : List AccountHealthEvent)
    (hreg : accountId ∈ db.accountRegistry)
    (hkey : ∀ event ∈ events, event.accountId = accountId) :
    ∃ db', events.foldlM recordAccountHealthEvent db = .ok db' ∧
      db'.accountRuntimeState.lookup accountId =
        (events.map RuntimeStateRow.of).foldl (replace RuntimeStateRow.after)
          (db.accountRuntimeState.lookup accountId) := by
  induction events generalizing db with
  | nil => exact ⟨db, rfl, rfl⟩
  | cons event events ih =>
    rw [List.forall_mem_cons] at hkey
    obtain ⟨rfl, hkey⟩ := hkey
    obtain ⟨db₁, h₁, -, hregistry, -, hlookup⟩ := recordAccountHealthEvent_of_registered event hreg
    obtain ⟨db', h', hlookup'⟩ := ih ((hregistry _).2 hreg) hkey
    refine ⟨db', ?_, ?_⟩
    · rw [List.foldlM_cons, h₁]
      exact h'
    · rw [hlookup', hlookup, if_pos rfl, some_runtimeStateAfter]
      rfl

/-- The observation made last stays. -/
theorem upsertAccountQuotaStates_latest {records : List AccountQuotaStateRecord}
    {latest : AccountQuotaStateRecord} (hmem : latest ∈ records)
    (hdistinct : (records.map (·.observedAt)).Nodup)
    (hlatest : ∀ record ∈ records, record.observedAt ≤ latest.observedAt)
    (hheld : ∀ row ∈ db.accountQuotaState.lookup (accountId, limitId),
      row.observedAtNanos ≤ latest.observedAt) :
    (records.map QuotaRow.of).foldl (replace QuotaRow.after)
      (db.accountQuotaState.lookup (accountId, limitId)) = some (.of latest) := by
  refine foldl_replace_eq (List.mem_map_of_mem hmem) ?_ ?_ fun row hrow =>
    decide_eq_true (hheld row hrow)
  · intro row hrow _
    obtain ⟨record, hrecord, rfl⟩ := List.mem_map.1 hrow
    exact decide_eq_true (hlatest record hrecord)
  · intro row hrow hne
    obtain ⟨record, hrecord, rfl⟩ := List.mem_map.1 hrow
    refine decide_eq_false fun hle => hne ?_
    have hsame : record.observedAt = latest.observedAt :=
      Int.le_antisymm (hlatest record hrecord) hle
    rw [List.inj_on_of_nodup_map hdistinct hrecord hmem hsame]

/-- The event with the greatest number stays. -/
theorem recordAccountHealthEvents_highest {events : List AccountHealthEvent}
    {highest : AccountHealthEvent} (hmem : highest ∈ events)
    (hdistinct : (events.map (·.sequenceNumber)).Nodup)
    (hhighest : ∀ event ∈ events, event.sequenceNumber ≤ highest.sequenceNumber)
    (hheld : ∀ row ∈ db.accountRuntimeState.lookup accountId,
      row.lastHealthEventSequence < highest.sequenceNumber) :
    (events.map RuntimeStateRow.of).foldl (replace RuntimeStateRow.after)
      (db.accountRuntimeState.lookup accountId) = some (.of highest) := by
  have hless : ∀ event ∈ events, RuntimeStateRow.of event ≠ .of highest →
      event.sequenceNumber < highest.sequenceNumber := by
    intro event hevent hne
    refine lt_of_le_of_ne (hhighest event hevent) fun hsame => hne ?_
    rw [List.inj_on_of_nodup_map hdistinct hevent hmem hsame]
  refine foldl_replace_eq (List.mem_map_of_mem hmem) ?_ ?_ fun row hrow =>
    decide_eq_true (hheld row hrow)
  · intro row hrow hne
    obtain ⟨event, hevent, rfl⟩ := List.mem_map.1 hrow
    exact decide_eq_true (hless event hevent hne)
  · intro row hrow hne
    obtain ⟨event, hevent, rfl⟩ := List.mem_map.1 hrow
    exact decide_eq_false (hless event hevent hne).asymm

end Db

end

/-- **Quota and health rows converge.** The observations of one quota row of a registered account,
made at different instants and applied in any order, leave the row of the latest one; and the
health events of one account, with different numbers and in any order, the state of the one with
the greatest number. What the row held before is older. -/
theorem quota_and_health_converge (db : Db) (accountId : AccountId) (limitId : LimitId)
    (hreg : accountId ∈ db.accountRegistry) :
    (∀ (records : List AccountQuotaStateRecord) (latest : AccountQuotaStateRecord),
      (∀ record ∈ records, record.accountId = accountId ∧ record.limitId = limitId) →
      (records.map (·.observedAt)).Nodup → latest ∈ records →
      (∀ record ∈ records, record.observedAt ≤ latest.observedAt) →
      (∀ row ∈ db.accountQuotaState.lookup (accountId, limitId),
        row.observedAtNanos ≤ latest.observedAt) →
      ∃ db', records.foldlM Db.upsertAccountQuotaState db = .ok db' ∧
        db'.accountQuotaState.lookup (accountId, limitId) = some (.of latest)) ∧
    ∀ (events : List AccountHealthEvent) (highest : AccountHealthEvent),
      (∀ event ∈ events, event.accountId = accountId) →
      (events.map (·.sequenceNumber)).Nodup → highest ∈ events →
      (∀ event ∈ events, event.sequenceNumber ≤ highest.sequenceNumber) →
      (∀ row ∈ db.accountRuntimeState.lookup accountId,
        row.lastHealthEventSequence < highest.sequenceNumber) →
      ∃ db', events.foldlM Db.recordAccountHealthEvent db = .ok db' ∧
        db'.accountRuntimeState.lookup accountId = some (.of highest) := by
  constructor
  · intro records latest hkey hdistinct hmem hlatest hheld
    obtain ⟨db', hdb', hlookup⟩ := Db.upsertAccountQuotaStates records hreg hkey
    exact ⟨db', hdb', hlookup.trans
      (Db.upsertAccountQuotaStates_latest hmem hdistinct hlatest hheld)⟩
  · intro events highest hkey hdistinct hmem hhighest hheld
    obtain ⟨db', hdb', hlookup⟩ := Db.recordAccountHealthEvents events hreg hkey
    exact ⟨db', hdb', hlookup.trans
      (Db.recordAccountHealthEvents_highest hmem hdistinct hhighest hheld)⟩

/-- The second event arrives after the third one. -/
theorem quota_and_health_converge_late :
    ∃ db', [⟨"acct-1", "pool-1", .healthy, 3, seconds 30⟩,
        ⟨"acct-1", "pool-1", .rateLimited, 2, seconds 20⟩].foldlM Db.recordAccountHealthEvent
          registered = .ok db' ∧
      db'.accountRuntimeState.lookup "acct-1" = some ⟨"pool-1", .healthy, 3, 30⟩ :=
  (quota_and_health_converge registered "acct-1" "codex" (by decide)).2 _
    ⟨"acct-1", "pool-1", .healthy, 3, seconds 30⟩ (by decide) (by decide) (.head _) (by decide)
    (by decide)

end Mcodex.AccountPool
