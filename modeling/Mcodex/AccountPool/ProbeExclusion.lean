import Mcodex.AccountPool.Convergence
import Mcodex.Lib.Transition

/-!
# Probe reservations of one quota row

A reservation moves `next_probe_after` of its row and is remembered by nothing else: the next
reservation compares its time with the column, and the record of a probe finds the column as its
reservation left it. The column holds whole seconds, so a reservation is taken over within the last
second of it, and a write that puts the same second back revives a reservation that was used.
Without such calls reservations are exclusive and used once (`reservations_exclusive`).
-/

namespace Mcodex.AccountPool

open Effect Ranking Transition

/-! ## Calls -/

/-- The three results that a probe is recorded with. -/
inductive ProbeReport where
  | success
  | stillBlocked (update : AccountQuotaProbeStillBlocked)
  | ambiguous (backoff : AccountQuotaProbeBackoff)
  deriving DecidableEq, Repr

/-- The `record_account_quota_probe_*` call of a result. -/
def ProbeReport.record (report : ProbeReport) (db : Db) (accountId : AccountId) (limitId : LimitId)
    (observation : AccountQuotaProbeObservation) : Bool × Db :=
  match report with
  | .success => db.recordAccountQuotaProbeSuccess accountId limitId observation
  | .stillBlocked update =>
    db.recordAccountQuotaProbeStillBlocked accountId limitId observation update
  | .ambiguous backoff => db.recordAccountQuotaProbeAmbiguous accountId limitId observation backoff

/-- When the next probe is due after a result. -/
def ProbeReport.nextProbeAfter : ProbeReport → Option Int
  | .success => none
  | .stillBlocked update => some update.nextProbeAfter
  | .ambiguous backoff => some backoff.nextProbeAfter

/-- A call on a quota row. A record names the reservation that it is made for, by its number, if it
is made for any. -/
inductive QuotaCall where
  | reserve (now reservedUntil : Int)
  | record (reservation : Option Nat) (report : ProbeReport)
      (observation : AccountQuotaProbeObservation)
  | upsert (state : AccountQuotaStateRecord)
  deriving DecidableEq, Repr

/-- A successful reservation, with the number of times that the row was rewritten before it. -/
structure HeldReservation where
  now : Int
  reservedUntil : Int
  rewritten : Nat
  deriving DecidableEq, Repr

/-- The database and what was done to the row: how often an upsert or a probe record rewrote it,
the successful reservations in order, and those for which a probe record was applied, once for
each. -/
structure ProbeWorld where
  db : Db
  rewritten : Nat := 0
  reservations : List HeldReservation := []
  recorded : List Nat := []

section
variable (accountId : AccountId) (limitId : LimitId)

/-- The guard with which an observation replaces the row. -/
def Db.takesObservation (db : Db) (record : AccountQuotaStateRecord) : Bool :=
  (db.accountQuotaState.lookup (record.accountId, record.limitId)).all
    (·.observedAtNanos ≤ record.observedAt)

/-- What a call does. -/
def ProbeWorld.after (w : ProbeWorld) : QuotaCall → ProbeWorld
  | .reserve now reservedUntil =>
    match w.db.reserveAccountQuotaProbe accountId limitId now reservedUntil with
    | (true, db) =>
      { w with db, reservations := w.reservations ++ [⟨now, reservedUntil, w.rewritten⟩] }
    | (false, db) => { w with db }
  | .record reservation report observation =>
    match report.record w.db accountId limitId observation with
    | (true, db) =>
      { w with
        db
        rewritten := w.rewritten + 1
        recorded := w.recorded ++ reservation.toList }
    | (false, db) => { w with db }
  | .upsert state =>
    match w.db.upsertAccountQuotaState state with
    | .ok db =>
      { w with
        db
        rewritten := if w.db.takesObservation state then w.rewritten + 1 else w.rewritten }
    | .error _ => w

/-- A record for a reservation carries the end of that reservation, and an upsert is one of the
row. -/
def QuotaCall.Valid (w : ProbeWorld) : QuotaCall → Prop
  | .reserve _ _ => True
  | .record reservation _ observation => ∀ i ∈ reservation,
    (w.reservations[i]?).map (·.reservedUntil) = some observation.reservedUntil
  | .upsert state => state.accountId = accountId ∧ state.limitId = limitId

/-- The runs of calls on one row by any number of runtimes, from any database. -/
def probing : System ProbeWorld QuotaCall where
  init w := w.rewritten = 0 ∧ w.reservations = [] ∧ w.recorded = []
  step w call w' := call.Valid accountId limitId w ∧ w.after accountId limitId call = w'

end

namespace ProbeWorld

/-- **Exclusion.** A later reservation that is not at an earlier time was made at or after the end
of the earlier one, or the row was rewritten in between. -/
def Exclusive (w : ProbeWorld) : Prop :=
  w.reservations.Pairwise fun r r' =>
    r.now ≤ r'.now → r.reservedUntil ≤ r'.now ∨ r.rewritten < r'.rewritten

/-- **Single use.** No reservation has two records applied. -/
def SingleUse (w : ProbeWorld) : Prop := w.recorded.Nodup

instance (w : ProbeWorld) : Decidable w.Exclusive := inferInstanceAs (Decidable (List.Pairwise _ _))

instance (w : ProbeWorld) : Decidable w.SingleUse := inferInstanceAs (Decidable (List.Nodup _))

end ProbeWorld

/-! ## What calls do to the column -/

section
variable {accountId : AccountId} {limitId : LimitId} {w w' : ProbeWorld} {call : QuotaCall}

namespace Db

/-- The column that reservations move. -/
def nextProbeAfter (db : Db) (accountId : AccountId) (limitId : LimitId) : Option Int :=
  (db.accountQuotaState.lookup (accountId, limitId)).bind (·.nextProbeAfter)

theorem updateQuotaWhere_cases (db : Db) (cond : QuotaRow → Bool) (f : QuotaRow → QuotaRow) :
    (∃ row db', db.accountQuotaState.lookup (accountId, limitId) = some row ∧ cond row ∧
      db.updateQuotaWhere accountId limitId cond f = (true, db') ∧
      db'.nextProbeAfter accountId limitId = (f row).nextProbeAfter) ∨
    db.updateQuotaWhere accountId limitId cond f = (false, db) := by
  unfold updateQuotaWhere
  cases hrow : db.accountQuotaState.lookup (accountId, limitId) with
  | none => exact .inr rfl
  | some row =>
    cases hcond : cond row with
    | false => exact .inr (if_neg (Bool.eq_false_iff.1 hcond))
    | true =>
      refine .inl ⟨row, _, rfl, hcond, if_pos hcond, ?_⟩
      rw [nextProbeAfter, AList.lookup_insert]
      rfl

/-- A reservation finds the column at an earlier second or the same. -/
theorem reserveAccountQuotaProbe_cases (db : Db) (accountId : AccountId) (limitId : LimitId)
    (now reservedUntil : Int) :
    (∃ db', db.reserveAccountQuotaProbe accountId limitId now reservedUntil = (true, db') ∧
      (db.nextProbeAfter accountId limitId).getD 0 ≤ datetimeToEpochSeconds now ∧
      db'.nextProbeAfter accountId limitId = some (datetimeToEpochSeconds reservedUntil)) ∨
    db.reserveAccountQuotaProbe accountId limitId now reservedUntil = (false, db) := by
  refine (db.updateQuotaWhere_cases _ _).imp_left ?_
  rintro ⟨row, db', hrow, hcond, hupdate, hnext⟩
  refine ⟨db', hupdate, ?_, hnext⟩
  rw [nextProbeAfter, hrow, Option.bind_some]
  exact of_decide_eq_true (Bool.and_eq_true_iff.1 hcond).2

/-- An observation replaces the row or leaves it. -/
theorem upsertAccountQuotaState_cases (db : Db) (state : AccountQuotaStateRecord) :
    (∃ db', db.upsertAccountQuotaState state = .ok db' ∧
      db'.nextProbeAfter state.accountId state.limitId =
        if db.takesObservation state then (QuotaRow.of state).nextProbeAfter
        else db.nextProbeAfter state.accountId state.limitId) ∨
    db.upsertAccountQuotaState state = .error constraintFailed := by
  by_cases hreg : state.accountId ∈ db.accountRegistry
  · obtain ⟨db', hupsert, -, hlookup⟩ := upsertAccountQuotaState_of_registered state hreg
    refine .inl ⟨db', hupsert, ?_⟩
    rw [nextProbeAfter, hlookup, replace]
    split
    · rename_i htakes
      exact (if_pos htakes).symm
    · rename_i hleaves
      exact (if_neg hleaves).symm
  · refine .inr ?_
    simp only [upsertAccountQuotaState, checkRegistered, if_neg hreg]
    rfl

end Db

/-- A record finds the column as its reservation left it. -/
theorem ProbeReport.record_cases (report : ProbeReport) (db : Db) (accountId : AccountId)
    (limitId : LimitId) (observation : AccountQuotaProbeObservation) :
    (∃ db', report.record db accountId limitId observation = (true, db') ∧
      db.nextProbeAfter accountId limitId =
        some (datetimeToEpochSeconds observation.reservedUntil) ∧
      db'.nextProbeAfter accountId limitId =
        report.nextProbeAfter.map datetimeToEpochSeconds) ∨
    report.record db accountId limitId observation = (false, db) := by
  have hguard : ∀ row, db.accountQuotaState.lookup (accountId, limitId) = some row →
      Db.probeResultGuard observation row → db.nextProbeAfter accountId limitId =
        some (datetimeToEpochSeconds observation.reservedUntil) := by
    intro row hrow hguard
    rw [Db.nextProbeAfter, hrow, Option.bind_some]
    exact of_decide_eq_true (Bool.and_eq_true_iff.1 hguard).2
  cases report <;> (
    refine (Db.updateQuotaWhere_cases db _ _).imp_left ?_
    rintro ⟨row, db', hrow, hcond, hupdate, hnext⟩
    exact ⟨db', hupdate, hguard row hrow hcond, hnext⟩)

/-- What a call does to the column `next_probe_after`. -/
inductive CallEffect (accountId : AccountId) (limitId : LimitId) (w : ProbeWorld) :
    QuotaCall → ProbeWorld → Prop
  | reserve {db : Db} {now reservedUntil : Int} :
      (w.db.nextProbeAfter accountId limitId).getD 0 ≤ datetimeToEpochSeconds now →
      db.nextProbeAfter accountId limitId = some (datetimeToEpochSeconds reservedUntil) →
      CallEffect accountId limitId w (.reserve now reservedUntil)
        { w with db, reservations := w.reservations ++ [⟨now, reservedUntil, w.rewritten⟩] }
  | record {db : Db} {reservation : Option Nat} {report : ProbeReport}
      {observation : AccountQuotaProbeObservation} :
      (QuotaCall.record reservation report observation).Valid accountId limitId w →
      w.db.nextProbeAfter accountId limitId =
        some (datetimeToEpochSeconds observation.reservedUntil) →
      db.nextProbeAfter accountId limitId = report.nextProbeAfter.map datetimeToEpochSeconds →
      CallEffect accountId limitId w (.record reservation report observation)
        { w with
          db
          rewritten := w.rewritten + 1
          recorded := w.recorded ++ reservation.toList }
  | upsert {db : Db} {state : AccountQuotaStateRecord} :
      db.nextProbeAfter accountId limitId = (QuotaRow.of state).nextProbeAfter →
      CallEffect accountId limitId w (.upsert state) { w with db, rewritten := w.rewritten + 1 }
  | none {db : Db} {call : QuotaCall} :
      db.nextProbeAfter accountId limitId = w.db.nextProbeAfter accountId limitId →
      CallEffect accountId limitId w call { w with db }

theorem callEffect (hvalid : call.Valid accountId limitId w) :
    CallEffect accountId limitId w call (w.after accountId limitId call) := by
  cases call with
  | reserve now reservedUntil =>
    rcases w.db.reserveAccountQuotaProbe_cases accountId limitId now reservedUntil with
      ⟨db, hreserve, hfree, hnext⟩ | hreserve
    · simp only [ProbeWorld.after, hreserve]
      exact .reserve hfree hnext
    · simp only [ProbeWorld.after, hreserve]
      exact .none rfl
  | record reservation report observation =>
    rcases report.record_cases w.db accountId limitId observation with
      ⟨db, hrecord, hstands, hnext⟩ | hrecord
    · simp only [ProbeWorld.after, hrecord]
      exact .record hvalid hstands hnext
    · simp only [ProbeWorld.after, hrecord]
      exact .none rfl
  | upsert state =>
    obtain ⟨rfl, rfl⟩ := hvalid
    rcases w.db.upsertAccountQuotaState_cases state with ⟨db, hupsert, hnext⟩ | hupsert
    · simp only [ProbeWorld.after, hupsert]
      split at hnext <;> rename_i htakes
      · rw [if_pos htakes]
        exact .upsert hnext
      · rw [if_neg htakes]
        exact .none hnext
    · simp only [ProbeWorld.after, hupsert]
      exact .none rfl

/-! ## Runs -/

/-- The second that a call means to write to the column. -/
def QuotaCall.writes : QuotaCall → Option Int
  | .reserve _ reservedUntil => some (datetimeToEpochSeconds reservedUntil)
  | .record _ report _ => report.nextProbeAfter.map datetimeToEpochSeconds
  | .upsert state => (QuotaRow.of state).nextProbeAfter

/-- The reservation that a call is a record for. -/
def QuotaCall.uses : QuotaCall → Option Nat
  | .record reservation _ _ => reservation
  | _ => none

/-- A reservation is not made before the end of an earlier one but in its second, and does not end
in an earlier second. -/
def QuotaCall.Follows (r : HeldReservation) : QuotaCall → Prop
  | .reserve now reservedUntil =>
    (datetimeToEpochSeconds r.reservedUntil = datetimeToEpochSeconds now →
      r.reservedUntil ≤ now) ∧
    datetimeToEpochSeconds r.reservedUntil ≤ datetimeToEpochSeconds reservedUntil
  | _ => True

/-- A call that the seconds of the column do not mislead: it does not write the second of a
reservation that was used or that it uses, and as a reservation it follows those made since the row
was rewritten last. -/
structure QuotaCall.Distinct (w : ProbeWorld) (call : QuotaCall) : Prop where
  fresh : ∀ i ∈ w.recorded ++ call.uses.toList, ∀ r ∈ w.reservations[i]?,
    call.writes ≠ some (datetimeToEpochSeconds r.reservedUntil)
  ordered : ∀ r ∈ w.reservations, r.rewritten = w.rewritten → call.Follows r

instance (r : HeldReservation) (call : QuotaCall) : Decidable (call.Follows r) :=
  match call with
  | .reserve _ _ => inferInstanceAs (Decidable (_ ∧ _))
  | .record .. => .isTrue trivial
  | .upsert _ => .isTrue trivial

instance (w : ProbeWorld) (call : QuotaCall) : Decidable (call.Distinct w) :=
  decidable_of_iff ((∀ i ∈ w.recorded ++ call.uses.toList, ∀ r ∈ w.reservations[i]?,
      call.writes ≠ some (datetimeToEpochSeconds r.reservedUntil)) ∧
    ∀ r ∈ w.reservations, r.rewritten = w.rewritten → call.Follows r)
    ⟨fun h => ⟨h.1, h.2⟩, fun h => ⟨h.fresh, h.ordered⟩⟩

/-- While the row is not rewritten, the column is not before the end of a reservation; and it is
not the end of a reservation that was used. -/
structure ProbeWorld.Inv (accountId : AccountId) (limitId : LimitId) (w : ProbeWorld) : Prop where
  exclusive : w.Exclusive
  singleUse : w.SingleUse
  rewritten_le : ∀ r ∈ w.reservations, r.rewritten ≤ w.rewritten
  standing : ∀ r ∈ w.reservations, r.rewritten = w.rewritten →
    ∃ next, w.db.nextProbeAfter accountId limitId = some next ∧
      datetimeToEpochSeconds r.reservedUntil ≤ next
  made : ∀ i ∈ w.recorded, i < w.reservations.length
  spent : ∀ i ∈ w.recorded, ∀ r, w.reservations[i]? = some r →
    w.db.nextProbeAfter accountId limitId ≠ some (datetimeToEpochSeconds r.reservedUntil)

namespace ProbeWorld.Inv

variable {db : Db}

theorem reserve (h : w.Inv accountId limitId) {now reservedUntil : Int}
    (hdistinct : (QuotaCall.reserve now reservedUntil).Distinct w)
    (hfree : (w.db.nextProbeAfter accountId limitId).getD 0 ≤ datetimeToEpochSeconds now)
    (hnext : db.nextProbeAfter accountId limitId = some (datetimeToEpochSeconds reservedUntil)) :
    ProbeWorld.Inv accountId limitId { w with
      db, reservations := w.reservations ++ [⟨now, reservedUntil, w.rewritten⟩] } := by
  have hordered : ∀ r ∈ w.reservations, r.rewritten = w.rewritten →
      (QuotaCall.reserve now reservedUntil).Follows r := hdistinct.ordered
  refine ⟨?_, h.singleUse, ?_, ?_, ?_, ?_⟩
  · refine List.pairwise_append.2 ⟨h.exclusive, List.pairwise_singleton _ _, ?_⟩
    intro r hr r' hr' _
    obtain rfl := List.mem_singleton.1 hr'
    rcases (h.rewritten_le r hr).lt_or_eq with hlt | heq
    · exact .inr hlt
    -- the reservation before stands, so its end is not after the second of this one
    obtain ⟨next, hcolumn, hle⟩ := h.standing r hr heq
    rw [hcolumn, Option.getD_some] at hfree
    rcases (hle.trans hfree).lt_or_eq with hsec | hsec
    · exact .inl (le_of_lt (not_le.1 fun hge =>
        absurd (datetimeToEpochSeconds_mono hge) (not_le.2 hsec)))
    · exact .inl ((hordered r hr heq).1 hsec)
  · intro r hr
    rcases List.mem_append.1 hr with hr | hr
    · exact h.rewritten_le r hr
    · exact (congrArg HeldReservation.rewritten (List.mem_singleton.1 hr)).le
  · intro r hr hcurrent
    refine ⟨_, hnext, ?_⟩
    rcases List.mem_append.1 hr with hr | hr
    · exact (hordered r hr hcurrent).2
    · exact (List.mem_singleton.1 hr) ▸ le_refl _
  · intro i hi
    rw [List.length_append]
    exact Nat.lt_add_right _ (h.made i hi)
  · intro i hi r hr
    rw [List.getElem?_append_left (h.made i hi)] at hr
    show db.nextProbeAfter accountId limitId ≠ _
    rw [hnext]
    exact hdistinct.fresh i (List.mem_append_left _ hi) r hr

/-- A rewriting ends every reservation that stood. -/
theorem rewrite (h : w.Inv accountId limitId) {uses : Option Nat}
    (hunused : ∀ i ∈ uses, i ∉ w.recorded ∧ i < w.reservations.length)
    (hspent : ∀ i ∈ w.recorded ++ uses.toList, ∀ r ∈ w.reservations[i]?,
      db.nextProbeAfter accountId limitId ≠ some (datetimeToEpochSeconds r.reservedUntil)) :
    ProbeWorld.Inv accountId limitId { w with
      db, rewritten := w.rewritten + 1, recorded := w.recorded ++ uses.toList } := by
  refine ⟨h.exclusive, ?_, ?_, ?_, ?_, ?_⟩
  · refine List.nodup_append.2 ⟨h.singleUse, by cases uses <;> simp, ?_⟩
    intro i hi j hj heq
    exact (hunused j (Option.mem_toList.1 hj)).1 (heq ▸ hi)
  · intro r hr
    exact Nat.le_succ_of_le (h.rewritten_le r hr)
  · intro r hr hcurrent
    exact absurd hcurrent (Nat.ne_of_lt (Nat.lt_succ_of_le (h.rewritten_le r hr)))
  · intro i hi
    rcases List.mem_append.1 hi with hi | hi
    · exact h.made i hi
    · exact (hunused i (Option.mem_toList.1 hi)).2
  · exact hspent

theorem step (h : w.Inv accountId limitId) (hdistinct : call.Distinct w)
    (heffect : CallEffect accountId limitId w call w') : w'.Inv accountId limitId := by
  cases heffect with
  | reserve hfree hnext => exact h.reserve hdistinct hfree hnext
  | record hvalid hstands hnext =>
    refine h.rewrite (fun i hi => ?_) fun i hi r hr => ?_
    · obtain ⟨r, hr, hends⟩ := Option.map_eq_some_iff.1 (hvalid i hi)
      refine ⟨fun hused => h.spent i hused r hr ?_, (List.getElem?_eq_some_iff.1 hr).1⟩
      rw [hstands, hends]
    · rw [hnext]
      exact hdistinct.fresh i hi r hr
  | @upsert db state hnext =>
    have hrewrite : ProbeWorld.Inv accountId limitId { w with
        db
        rewritten := w.rewritten + 1
        recorded := w.recorded ++ (none : Option Nat).toList } := by
      refine h.rewrite (fun _ hi => nomatch hi) fun i hi r hr => ?_
      rw [hnext]
      exact hdistinct.fresh i hi r hr
    simpa using hrewrite
  | none hnext =>
    exact ⟨h.exclusive, h.singleUse, h.rewritten_le, hnext ▸ h.standing, h.made, hnext ▸ h.spent⟩

end ProbeWorld.Inv

/-- **Quota probe reservations are exclusive and used once** in every run, by any number of
runtimes, that the whole seconds of the column do not mislead. -/
theorem reservations_exclusive
    (h : ((probing accountId limitId).restrict QuotaCall.Distinct).Reach w) :
    w.Exclusive ∧ w.SingleUse := by
  have hinv := h.invariant (I := ProbeWorld.Inv accountId limitId) (fun w hinit => ?_)
    fun w call w' hw hstep => ?_
  · exact ⟨hinv.exclusive, hinv.singleUse⟩
  · obtain ⟨hrewritten, hreservations, hrecorded⟩ := hinit
    constructor <;> simp [ProbeWorld.Exclusive, ProbeWorld.SingleUse, hreservations, hrecorded]
  · obtain ⟨hdistinct, hvalid, rfl⟩ := hstep
    exact hw.step hdistinct (callEffect hvalid)

end

/-- An account that may be probed. -/
def exhaustedState : AccountQuotaStateRecord :=
  ⟨"acct-1", "codex", some 100, none, none, none, 0, .primary, none, none, 0, none⟩

/-- A reservation that ends in second 30 is taken over when the second begins, and one whose record
puts its own second back is recorded for again. -/
theorem reservations_not_exclusive :
    ∃ w, (probing "acct-1" "codex").Reach w ∧ ¬w.Exclusive ∧ ¬w.SingleUse := by
  have h₀ : (probing "acct-1" "codex").Reach { db := registered } := .init ⟨rfl, rfl, rfl⟩
  have h₁ := h₀.step (a := QuotaCall.upsert exhaustedState) ⟨⟨rfl, rfl⟩, rfl⟩
  have h₂ := h₁.step (a := QuotaCall.reserve 900000000 30900000000) ⟨trivial, rfl⟩
  have h₃ := h₂.step (a := QuotaCall.reserve 30100000000 60100000000) ⟨trivial, rfl⟩
  have h₄ := h₃.step (a := QuotaCall.record (some 1) (.stillBlocked ⟨.primary, none, 60500000000⟩)
    ⟨30500000000, 60100000000⟩) ⟨by rintro i ⟨⟩; rfl, rfl⟩
  have h₅ := h₄.step (a := QuotaCall.record (some 1) .success ⟨30600000000, 60100000000⟩)
    ⟨by rintro i ⟨⟩; rfl, rfl⟩
  exact ⟨_, h₅, by decide, by decide⟩

/-- Two reservations, the second at the end of the first, and the record of the second. -/
theorem reservations_exclusive_takeover :
    let w := [.upsert exhaustedState, .reserve (seconds 0) (seconds 30),
      .reserve (seconds 30) (seconds 60), .record (some 1) .success ⟨seconds 31, seconds 60⟩].foldl
        (ProbeWorld.after "acct-1" "codex") { db := registered }
    w.reservations.length = 2 ∧ w.recorded = [1] ∧ w.Exclusive ∧ w.SingleUse := by
  refine ⟨by decide, by decide, ?_⟩
  have h₀ : ((probing "acct-1" "codex").restrict QuotaCall.Distinct).Reach { db := registered } :=
    .init ⟨rfl, rfl, rfl⟩
  have h₁ := h₀.step (a := QuotaCall.upsert exhaustedState) ⟨by decide, ⟨rfl, rfl⟩, rfl⟩
  have h₂ := h₁.step (a := QuotaCall.reserve (seconds 0) (seconds 30)) ⟨by decide, trivial, rfl⟩
  have h₃ := h₂.step (a := QuotaCall.reserve (seconds 30) (seconds 60)) ⟨by decide, trivial, rfl⟩
  have h₄ := h₃.step (a := QuotaCall.record (some 1) .success ⟨seconds 31, seconds 60⟩)
    ⟨by decide, by rintro i ⟨⟩; rfl, rfl⟩
  exact reservations_exclusive h₄

end Mcodex.AccountPool
