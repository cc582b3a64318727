import Mathlib.Data.Finset.Erase
import Mathlib.Data.Finset.Insert
import Mathlib.Logic.Function.Basic
import Mcodex.Lib.Script

/-!
# Admissions of a runtime lease authority

A call of `acquire_request_lease` locks the manager, asks it for the generation of the next turn,
waits where admissions of another generation are out, prepares the turn, and is admitted. A check
of the tracker and the insertion of an admission each hold the tracker's lock, and so does a
release; between them other calls go on. No call waits that a release has not still to wake
(`no_lostWakeUp`), and the admissions that are out are of one generation as long as no insertion is
overtaken (`oneGeneration_of_inTime`).
-/

namespace Mcodex.Runtime

open Transition

inductive LeaseAdmissionError
  | cancelled
  | noEligibleAccount
  | nonPooled
  | runtimeShutdown
  | unsupportedPooledPath
  deriving DecidableEq

inductive AdmissionPreview
  | compatible
  | draining
  deriving DecidableEq

/-- The ids of the admissions that are out. -/
structure AdmissionTrackerState where
  activeGeneration : Option Nat
  admissions : Finset Nat
  deriving DecidableEq

namespace AdmissionTrackerState

variable (tracker : AdmissionTrackerState)

def hasActiveAdmissions : Bool := tracker.admissions ≠ ∅

def previewAdmission (generation : Nat) : AdmissionPreview :=
  match tracker.activeGeneration with
  | some activeGeneration => if activeGeneration ≠ generation then .draining else .compatible
  | none => .compatible

/-- The section of `try_admit` that inserts an admission. -/
def insertAdmission (admissionId generation : Nat) : AdmissionTrackerState where
  activeGeneration := some (tracker.activeGeneration.getD generation)
  admissions := insert admissionId tracker.admissions

/-- The section of `release_admission`, and whether the last admission is gone. -/
def release (admissionId : Nat) : AdmissionTrackerState × Bool :=
  if admissionId ∉ tracker.admissions then (tracker, false)
  else
    let admissions := tracker.admissions.erase admissionId
    if admissions = ∅ then (⟨none, admissions⟩, true)
    else ({ tracker with admissions }, false)

end AdmissionTrackerState

/-- Where a call is. `woken` says whether the notification that it registered for has come. -/
inductive Acquirer
  | begins
  | locks (woken : Bool)
  | previews (woken : Bool)
  | findsNone (woken : Bool)
  | previewed (woken : Bool) (generation : Nat)
  | prepares (woken : Bool)
  | prepared (woken : Bool) (generation : Nat)
  | checks (woken : Bool) (generation : Nat)
  | inserts (woken : Bool) (generation : Nat)
  | drops (woken : Bool)
  | waits (woken : Bool)
  | admitted (admissionId generation : Nat)
  | notifies
  | released
  | failed (error : LeaseAdmissionError)
  deriving DecidableEq

namespace Acquirer

/-- `notify_waiters` reaches those that are registered. -/
def wake : Acquirer → Acquirer
  | locks _ => locks true
  | previews _ => previews true
  | findsNone _ => findsNone true
  | previewed _ generation => previewed true generation
  | prepares _ => prepares true
  | prepared _ generation => prepared true generation
  | checks _ generation => checks true generation
  | inserts _ generation => inserts true generation
  | drops _ => drops true
  | waits _ => waits true
  | acquirer => acquirer

/-- The call waits, or is about to, and no notification has come. -/
def unwoken : Acquirer → Bool
  | drops woken | waits woken => !woken
  | _ => false

/-- The call neither has an admission nor owes a notification. -/
def quiet : Acquirer → Bool
  | admitted .. | notifies => false
  | _ => true

end Acquirer

/-- The guard of the manager is held by one of the calls. -/
structure LeaseAuthority where
  tracker : AdmissionTrackerState
  guard : Option Nat
  acquirers : Nat → Acquirer
  nextAdmissionId : Nat

/-- What the manager answers: an error, no account, or a generation. -/
abbrev ManagerAnswer := Except Unit (Option Nat)

inductive AcquirerAction
  | register
  | lock
  | preview (answer : ManagerAnswer)
  | check
  | prepare (answer : ManagerAnswer)
  | unlock
  | insert
  | resume
  | cancel
  | release
  | notify

namespace LeaseAuthority

def set (s : LeaseAuthority) (i : Nat) (acquirer : Acquirer) : LeaseAuthority :=
  { s with acquirers := Function.update s.acquirers i acquirer }

/-- The guard is dropped. -/
def setUnlocked (s : LeaseAuthority) (i : Nat) (acquirer : Acquirer) : LeaseAuthority :=
  { s with guard := none }.set i acquirer

/-- One step of a call, when it can take it. -/
def next (s : LeaseAuthority) (i : Nat) (action : AcquirerAction) : Option LeaseAuthority :=
  match action, s.acquirers i with
  | .register, .begins => some (s.set i (.locks false))
  | .lock, .locks woken =>
    if s.guard.isNone then some ({ s with guard := some i }.set i (.previews woken)) else none
  | .preview (.error _), .previews _ => some (s.setUnlocked i (.failed .runtimeShutdown))
  | .preview (.ok none), .previews woken => some (s.set i (.findsNone woken))
  | .preview (.ok (some generation)), .previews woken =>
    some (s.set i (.previewed woken generation))
  | .check, .findsNone woken =>
    if s.tracker.hasActiveAdmissions then some (s.set i (.drops woken))
    else some (s.setUnlocked i (.failed .noEligibleAccount))
  | .check, .previewed woken generation =>
    match s.tracker.previewAdmission generation with
    | .draining => some (s.set i (.drops woken))
    | .compatible => some (s.set i (.prepares woken))
  | .prepare (.error _), .prepares _ => some (s.setUnlocked i (.failed .runtimeShutdown))
  | .prepare (.ok none), .prepares _ => some (s.setUnlocked i (.failed .noEligibleAccount))
  | .prepare (.ok (some generation)), .prepares woken =>
    some (s.set i (.prepared woken generation))
  | .unlock, .prepared woken generation => some (s.setUnlocked i (.checks woken generation))
  | .unlock, .drops woken => some (s.setUnlocked i (.waits woken))
  -- The check of `try_admit`: the manager's guard is dropped already.
  | .check, .checks woken generation =>
    match s.tracker.previewAdmission generation with
    | .draining => some (s.set i (.waits woken))
    | .compatible => some (s.set i (.inserts woken generation))
  | .insert, .inserts _ generation =>
    some ({ s with
      tracker := s.tracker.insertAdmission s.nextAdmissionId generation
      nextAdmissionId := s.nextAdmissionId + 1 }.set i (.admitted s.nextAdmissionId generation))
  | .resume, .waits true => some (s.set i .begins)
  | .cancel, .begins | .cancel, .locks _ | .cancel, .checks .. | .cancel, .waits _ =>
    some (s.set i (.failed .cancelled))
  | .cancel, .previews _ | .cancel, .previewed .. | .cancel, .prepared .. =>
    some (s.setUnlocked i (.failed .cancelled))
  | .release, .admitted admissionId _ =>
    let (tracker, drained) := s.tracker.release admissionId
    some ({ s with tracker }.set i (if drained then .notifies else .released))
  | .notify, .notifies =>
    some ({ s with acquirers := fun j => (s.acquirers j).wake }.set i .released)
  | _, _ => none

def start : LeaseAuthority := ⟨⟨none, ∅⟩, none, fun _ => .begins, 0⟩

end LeaseAuthority

/-- Any number of calls, each at its own pace. -/
def leaseAuthority : System LeaseAuthority (Nat × AcquirerAction) where
  init s := s = .start
  step s action s' := s.next action.1 action.2 = some s'

namespace LeaseAuthority

/-- All admissions that are out are of the tracker's generation. -/
def OneGeneration (s : LeaseAuthority) : Prop :=
  ∀ i admissionId generation, s.acquirers i = .admitted admissionId generation →
    s.tracker.activeGeneration = some generation

/-- The call is about to insert an admission, and by then admissions of another generation are
out. -/
def overtaken (s : LeaseAuthority) (i : Nat) : Bool :=
  match s.acquirers i, s.tracker.activeGeneration with
  | .inserts _ generation, some activeGeneration => activeGeneration ≠ generation
  | _, _ => false

/-- No insertion is overtaken on the way. -/
abbrev inTime : System LeaseAuthority (Nat × AcquirerAction) :=
  leaseAuthority.restrict fun s action => s.overtaken action.1 = false

/-- The state after steps one after another, with no insertion overtaken on the way. -/
def scriptInTime (actions : List (Nat × AcquirerAction)) : Option LeaseAuthority :=
  System.script (System.avoid (fun s action => s.overtaken action.1)
    fun s action => s.next action.1 action.2) start actions

/-- A call that is admitted at a generation, up to its insertion. -/
def untilInsertion (i generation : Nat) : List (Nat × AcquirerAction) :=
  [.register, .lock, .preview (.ok (some generation)), .check, .prepare (.ok (some generation)),
    .unlock, .check].map (i, ·)

/-! ## What a step can do -/

/-- Where a call is changes, an admission comes or goes, or the waiting calls are woken. -/
inductive Effect (s : LeaseAuthority) (i : Nat) : LeaseAuthority → Prop
  | quiet {guard : Option Nat} {acquirer : Acquirer} (hold : (s.acquirers i).quiet)
      (hquiet : acquirer.quiet)
      (hwaits : acquirer.unwoken → s.tracker.admissions.Nonempty ∨
        s.tracker.activeGeneration.isSome ∨ (s.acquirers i).unwoken) :
      Effect s i ({ s with guard }.set i acquirer)
  | insert {woken : Bool} {generation : Nat} (hold : s.acquirers i = .inserts woken generation) :
      Effect s i ({ s with
        tracker := s.tracker.insertAdmission s.nextAdmissionId generation
        nextAdmissionId := s.nextAdmissionId + 1 }.set i (.admitted s.nextAdmissionId generation))
  | release {admissionId generation : Nat}
      (hold : s.acquirers i = .admitted admissionId generation) :
      Effect s i ({ s with tracker := (s.tracker.release admissionId).1 }.set i
        (if (s.tracker.release admissionId).2 then .notifies else .released))
  | notify (hold : s.acquirers i = .notifies) :
      Effect s i ({ s with acquirers := fun j => (s.acquirers j).wake }.set i .released)

section
variable {s s' : LeaseAuthority} {i j admissionId generation : Nat} {action : AcquirerAction}
  {acquirer : Acquirer} {tracker : AdmissionTrackerState}

theorem isSome_of_draining (h : tracker.previewAdmission generation = .draining) :
    tracker.activeGeneration.isSome := by
  unfold AdmissionTrackerState.previewAdmission at h
  split at h
  · next hactive => rw [hactive]; rfl
  · cases h

/-- A step to where the call does not wait. -/
theorem Effect.set (hold : (s.acquirers i).quiet) (hquiet : acquirer.quiet)
    (hwaits : acquirer.unwoken = false) : Effect s i (s.set i acquirer) :=
  show Effect s i ({ s with guard := s.guard }.set i acquirer) from
    .quiet hold hquiet (by simp [hwaits])

theorem Effect.setUnlocked (hold : (s.acquirers i).quiet) (hquiet : acquirer.quiet)
    (hwaits : acquirer.unwoken = false) : Effect s i (s.setUnlocked i acquirer) :=
  show Effect s i ({ s with guard := none }.set i acquirer) from
    .quiet hold hquiet (by simp [hwaits])

theorem effect_of_next (h : s.next i action = some s') : Effect s i s' := by
  unfold next at h
  split at h
  all_goals rename_i hold
  case h_2 woken =>
    split_ifs at h
    cases h
    exact .quiet (by rw [hold]; rfl) rfl (by simp [Acquirer.unwoken])
  case h_6 woken =>
    split_ifs at h with hactive
    · cases h
      have hnonempty := Finset.nonempty_iff_ne_empty.2 (of_decide_eq_true hactive)
      exact .quiet (by rw [hold]; rfl) rfl fun _ => .inl hnonempty
    · cases h
      exact .setUnlocked (by rw [hold]; rfl) rfl rfl
  case h_7 woken generation =>
    split at h
    · next hdraining =>
      cases h
      exact .quiet (by rw [hold]; rfl) rfl fun _ => .inr (.inl (isSome_of_draining hdraining))
    · cases h
      exact .set (by rw [hold]; rfl) rfl rfl
  case h_12 woken =>
    cases h
    exact .quiet (by rw [hold]; rfl) rfl fun hwaits => .inr (.inr (by rw [hold]; exact hwaits))
  case h_13 woken generation =>
    split at h
    · next hdraining =>
      cases h
      exact .quiet (by rw [hold]; rfl) rfl fun _ => .inr (.inl (isSome_of_draining hdraining))
    · cases h
      exact .set (by rw [hold]; rfl) rfl rfl
  case h_14 woken generation =>
    cases h
    exact .insert hold
  case h_23 admissionId generation =>
    cases h
    exact .release hold
  case h_24 =>
    cases h
    exact .notify hold
  case h_25 => cases h
  -- Steps to where a call neither waits nor has an admission.
  all_goals
    cases h
    first
    | exact .set (by rw [hold]; rfl) rfl rfl
    | exact .setUnlocked (by rw [hold]; rfl) rfl rfl

/-! ## No wake-up is lost -/

/-- Each admission that is out is held by one call, and a call that waits has a wake-up coming. -/
structure Accounted (s : LeaseAuthority) : Prop where
  fresh : ∀ admissionId ∈ s.tracker.admissions, admissionId < s.nextAdmissionId
  held : ∀ admissionId, admissionId ∈ s.tracker.admissions ↔
    ∃ i generation, s.acquirers i = .admitted admissionId generation
  distinct : ∀ i j admissionId generation generation',
    s.acquirers i = .admitted admissionId generation →
    s.acquirers j = .admitted admissionId generation' → i = j
  active : s.tracker.activeGeneration.isSome ↔ s.tracker.admissions.Nonempty
  owed : ∀ i, (s.acquirers i).unwoken →
    s.tracker.admissions.Nonempty ∨ ∃ j, s.acquirers j = .notifies

theorem update_eq_iff {acquirers : Nat → Acquirer} {target : Acquirer}
    (hold : (acquirers i).quiet) (hquiet : acquirer.quiet) (htarget : target.quiet = false) :
    Function.update acquirers i acquirer j = target ↔ acquirers j = target := by
  by_cases hj : j = i
  · subst hj
    rw [Function.update_self]
    exact ⟨fun h => absurd (h ▸ hquiet) (by simp [htarget]),
      fun h => absurd (h ▸ hold) (by simp [htarget])⟩
  · rw [Function.update_of_ne hj]

theorem update_admitted_iff {acquirers : Nat → Acquirer} (hold : (acquirers i).quiet)
    (hquiet : acquirer.quiet) :
    Function.update acquirers i acquirer j = .admitted admissionId generation ↔
      acquirers j = .admitted admissionId generation := update_eq_iff hold hquiet rfl

theorem update_notifies_iff {acquirers : Nat → Acquirer} (hold : (acquirers i).quiet)
    (hquiet : acquirer.quiet) :
    Function.update acquirers i acquirer j = .notifies ↔ acquirers j = .notifies :=
  update_eq_iff hold hquiet rfl

theorem Accounted.quiet {guard : Option Nat} (hs : s.Accounted) (hold : (s.acquirers i).quiet)
    (hquiet : acquirer.quiet)
    (hwaits : acquirer.unwoken → s.tracker.admissions.Nonempty ∨
      s.tracker.activeGeneration.isSome ∨ (s.acquirers i).unwoken) :
    ({ s with guard }.set i acquirer).Accounted where
  fresh := hs.fresh
  held admissionId := by
    simp only [LeaseAuthority.set, update_admitted_iff hold hquiet]
    exact hs.held admissionId
  distinct j k admissionId generation generation' := by
    simp only [LeaseAuthority.set, update_admitted_iff hold hquiet]
    exact hs.distinct j k admissionId generation generation'
  active := hs.active
  owed j hj := by
    simp only [LeaseAuthority.set, update_notifies_iff hold hquiet] at hj ⊢
    by_cases hji : j = i
    · subst hji
      rw [Function.update_self] at hj
      obtain hout | hactive | hunwoken := hwaits hj
      · exact .inl hout
      · exact .inl (hs.active.1 hactive)
      · exact hs.owed j hunwoken
    · rw [Function.update_of_ne hji] at hj
      exact hs.owed j hj

theorem Accounted.insert (hs : s.Accounted) {woken : Bool}
    (hold : s.acquirers i = .inserts woken generation) :
    ({ s with
      tracker := s.tracker.insertAdmission s.nextAdmissionId generation
      nextAdmissionId := s.nextAdmissionId + 1 }.set i
        (.admitted s.nextAdmissionId generation)).Accounted where
  fresh admissionId hmem := by
    obtain rfl | hmem := Finset.mem_insert.1 hmem
    · exact Nat.lt_succ_self _
    · exact Nat.lt_succ_of_lt (hs.fresh admissionId hmem)
  held admissionId := by
    refine Finset.mem_insert.trans ⟨?_, ?_⟩
    · rintro (rfl | hmem)
      · exact ⟨i, generation, Function.update_self ..⟩
      · obtain ⟨j, generation', hj⟩ := (hs.held admissionId).1 hmem
        have hji : j ≠ i := by rintro rfl; cases hold.symm.trans hj
        exact ⟨j, generation', (Function.update_of_ne hji ..).trans hj⟩
    · rintro ⟨j, generation', hj⟩
      by_cases hji : j = i
      · subst hji
        cases (Function.update_self ..).symm.trans hj
        exact .inl rfl
      · exact .inr ((hs.held admissionId).2
          ⟨j, generation', (Function.update_of_ne hji ..).symm.trans hj⟩)
  distinct j k admissionId generation₁ generation₂ hj hk := by
    have hnew : ∀ l generation', s.acquirers l ≠ .admitted s.nextAdmissionId generation' :=
      fun l generation' hl => Nat.lt_irrefl _ (hs.fresh _ ((hs.held _).2 ⟨l, generation', hl⟩))
    by_cases hji : j = i <;> by_cases hki : k = i
    · rw [hji, hki]
    · subst hji
      cases (Function.update_self ..).symm.trans hj
      exact absurd ((Function.update_of_ne hki ..).symm.trans hk) (hnew k generation₂)
    · subst hki
      cases (Function.update_self ..).symm.trans hk
      exact absurd ((Function.update_of_ne hji ..).symm.trans hj) (hnew j generation₁)
    · exact hs.distinct j k admissionId generation₁ generation₂
        ((Function.update_of_ne hji ..).symm.trans hj)
        ((Function.update_of_ne hki ..).symm.trans hk)
  active := ⟨fun _ => Finset.insert_nonempty .., fun _ => rfl⟩
  owed _ _ := .inl (Finset.insert_nonempty ..)

theorem release_last (hmem : admissionId ∈ tracker.admissions)
    (hlast : tracker.admissions.erase admissionId = ∅) :
    tracker.release admissionId = (⟨none, ∅⟩, true) := by
  simp only [AdmissionTrackerState.release, if_neg (not_not_intro hmem), hlast, if_true]

theorem release_not_last (hmem : admissionId ∈ tracker.admissions)
    (hlast : tracker.admissions.erase admissionId ≠ ∅) :
    tracker.release admissionId =
      ({ tracker with admissions := tracker.admissions.erase admissionId }, false) := by
  simp only [AdmissionTrackerState.release, if_neg (not_not_intro hmem), if_neg hlast]

theorem release_admissions (hmem : admissionId ∈ tracker.admissions) :
    (tracker.release admissionId).1.admissions = tracker.admissions.erase admissionId := by
  by_cases hlast : tracker.admissions.erase admissionId = ∅
  · rw [release_last hmem hlast, hlast]
  · rw [release_not_last hmem hlast]

theorem released_admitted_iff {drained : Bool} :
    Function.update s.acquirers i (if drained then .notifies else .released) j =
        .admitted admissionId generation ↔
      j ≠ i ∧ s.acquirers j = .admitted admissionId generation := by
  by_cases hji : j = i
  · subst hji
    rw [Function.update_self]
    cases drained <;> simp
  · rw [Function.update_of_ne hji]
    exact (and_iff_right hji).symm

theorem Accounted.release (hs : s.Accounted)
    (hold : s.acquirers i = .admitted admissionId generation) :
    ({ s with tracker := (s.tracker.release admissionId).1 }.set i
      (if (s.tracker.release admissionId).2 then .notifies else .released)).Accounted := by
  have hmem : admissionId ∈ s.tracker.admissions := (hs.held _).2 ⟨i, generation, hold⟩
  refine ⟨?_, ?_, ?_, ?_, ?_⟩
  · intro admissionId' hmem'
    simp only [LeaseAuthority.set, release_admissions hmem] at hmem'
    exact hs.fresh admissionId' (Finset.mem_of_mem_erase hmem')
  · intro admissionId'
    simp only [LeaseAuthority.set, release_admissions hmem, released_admitted_iff,
      Finset.mem_erase]
    constructor
    · rintro ⟨hne, hmem'⟩
      obtain ⟨j, generation', hj⟩ := (hs.held admissionId').1 hmem'
      refine ⟨j, generation', ?_, hj⟩
      rintro rfl
      cases hold.symm.trans hj
      exact hne rfl
    · rintro ⟨j, generation', hji, hj⟩
      refine ⟨?_, (hs.held admissionId').2 ⟨j, generation', hj⟩⟩
      rintro rfl
      exact hji (hs.distinct _ _ _ _ _ hj hold)
  · intro j k admissionId' generation₁ generation₂ hj hk
    exact hs.distinct j k _ _ _ (released_admitted_iff.1 hj).2 (released_admitted_iff.1 hk).2
  · by_cases hlast : s.tracker.admissions.erase admissionId = ∅
    · simp [LeaseAuthority.set, release_last hmem hlast]
    · simp only [LeaseAuthority.set, release_not_last hmem hlast]
      exact ⟨fun _ => Finset.nonempty_iff_ne_empty.2 hlast, fun _ => hs.active.2 ⟨_, hmem⟩⟩
  · intro j _
    by_cases hlast : s.tracker.admissions.erase admissionId = ∅
    · simp only [LeaseAuthority.set, release_last hmem hlast]
      exact .inr ⟨i, Function.update_self ..⟩
    · simp only [LeaseAuthority.set, release_not_last hmem hlast]
      exact .inl (Finset.nonempty_iff_ne_empty.2 hlast)

theorem wake_eq_admitted {acquirer : Acquirer} :
    acquirer.wake = .admitted admissionId generation ↔
      acquirer = .admitted admissionId generation := by
  cases acquirer <;> simp [Acquirer.wake]

theorem unwoken_wake : acquirer.wake.unwoken = false := by
  cases acquirer <;> rfl

theorem notified_admitted_iff (hold : s.acquirers i = .notifies) :
    Function.update (fun j => (s.acquirers j).wake) i .released j =
        .admitted admissionId generation ↔ s.acquirers j = .admitted admissionId generation := by
  by_cases hji : j = i
  · subst hji
    rw [Function.update_self, hold]
    simp
  · rw [Function.update_of_ne hji]
    exact wake_eq_admitted

theorem Accounted.notify (hs : s.Accounted) (hold : s.acquirers i = .notifies) :
    ({ s with acquirers := fun j => (s.acquirers j).wake }.set i .released).Accounted := by
  refine ⟨hs.fresh, ?_, ?_, hs.active, ?_⟩
  · intro admissionId
    simp only [LeaseAuthority.set, notified_admitted_iff hold]
    exact hs.held admissionId
  · intro j k admissionId generation₁ generation₂ hj hk
    exact hs.distinct j k _ _ _ ((notified_admitted_iff hold).1 hj)
      ((notified_admitted_iff hold).1 hk)
  · intro j hj
    have hwoken : (Function.update (fun j => (s.acquirers j).wake) i .released j).unwoken
        = false := by
      by_cases hji : j = i
      · rw [hji, Function.update_self]
        rfl
      · rw [Function.update_of_ne hji]
        exact unwoken_wake
    exact absurd hj (by simp [LeaseAuthority.set, hwoken])

theorem Accounted.next (hs : s.Accounted) (h : s.next i action = some s') : s'.Accounted := by
  cases effect_of_next h with
  | quiet hold hquiet hwaits => exact hs.quiet hold hquiet hwaits
  | insert hold => exact hs.insert hold
  | release hold => exact hs.release hold
  | notify hold => exact hs.notify hold

theorem Accounted.start : LeaseAuthority.start.Accounted where
  fresh _ h := absurd h (Finset.notMem_empty _)
  held _ := by simp [LeaseAuthority.start]
  distinct _ _ _ _ _ h := by cases h
  active := by simp [LeaseAuthority.start]
  owed _ h := by cases h

theorem accounted (h : leaseAuthority.Reach s) : s.Accounted :=
  h.invariant (by rintro _ rfl; exact .start) fun _ _ _ hs hstep => hs.next hstep

theorem inTime_script {actions : List (Nat × AcquirerAction)}
    (h : scriptInTime actions = some s) : inTime.Reach s :=
  System.Reach.script_avoid (.init rfl) (fun _ _ _ => id) h

/-- The admissions that are out are those that calls hold, each held by one. Where no call has one
and none is about to notify, every call that waits can go on. -/
theorem no_lostWakeUp (h : leaseAuthority.Reach s) :
    (∀ admissionId, admissionId ∈ s.tracker.admissions ↔
      ∃! i, ∃ generation, s.acquirers i = .admitted admissionId generation) ∧
    (s.tracker.activeGeneration.isSome ↔ s.tracker.admissions.Nonempty) ∧
    ((∀ j, s.acquirers j ≠ .notifies ∧ ∀ admissionId generation,
        s.acquirers j ≠ .admitted admissionId generation) →
      ∀ i woken, s.acquirers i = .waits woken → s.next i .resume = some (s.set i .begins)) := by
  have hs := accounted h
  refine ⟨fun admissionId => ?_, hs.active, fun hidle i woken hwaits => ?_⟩
  · refine (hs.held admissionId).trans ⟨?_, fun ⟨i, hi, _⟩ => ⟨i, hi⟩⟩
    rintro ⟨i, generation, hi⟩
    exact ⟨i, ⟨generation, hi⟩, fun j ⟨generation', hj⟩ => hs.distinct j i _ _ _ hj hi⟩
  · have hwoken : woken = true := by
      by_contra hunwoken
      obtain ⟨admissionId, hmem⟩ | ⟨j, hj⟩ :=
        hs.owed i (by simpa [hwaits, Acquirer.unwoken] using hunwoken)
      · obtain ⟨j, generation, hj⟩ := (hs.held admissionId).1 hmem
        exact (hidle j).2 admissionId generation hj
      · exact (hidle j).1 hj
    subst hwoken
    simp only [LeaseAuthority.next, hwaits]

/-- A second call waits for the admission of a first, which is then released. -/
def drained : Option LeaseAuthority :=
  scriptInTime (untilInsertion 0 1 ++ [(0, .insert), (1, .register),
    (1, .lock), (1, .preview (.ok (some 2))), (1, .check), (1, .unlock), (0, .release),
    (0, .notify)])

theorem drained_isSome : drained.isSome := by decide

theorem no_lostWakeUp_drained : ∃ s, drained = some s ∧
    s.next 1 .resume = some (s.set 1 .begins) := by
  have hreach : inTime.Reach (drained.get drained_isSome) :=
    inTime_script (Option.some_get drained_isSome).symm
  obtain ⟨-, -, hgoesOn⟩ := no_lostWakeUp hreach.of_restrict
  refine ⟨_, (Option.some_get drained_isSome).symm, hgoesOn (fun j => ?_) 1 true (by decide)⟩
  have hj : (drained.get drained_isSome).acquirers j ∈ [.released, .waits true, .begins] := by
    match j with
    | 0 => decide
    | 1 => decide
    | j + 2 =>
      have hbegins : (drained.get drained_isSome).acquirers (j + 2) = .begins := rfl
      rw [hbegins]
      decide
  constructor
  · intro hnotifies
    rw [hnotifies] at hj
    simp at hj
  · intro admissionId generation hadmitted
    rw [hadmitted] at hj
    simp at hj

/-! ## Insertions that are overtaken -/

/-- A call that is about to insert does nothing else. -/
theorem next_inserts {woken : Bool} (hold : s.acquirers i = .inserts woken generation)
    (h : s.next i action = some s') :
    s' = { s with
      tracker := s.tracker.insertAdmission s.nextAdmissionId generation
      nextAdmissionId := s.nextAdmissionId + 1 }.set i
        (.admitted s.nextAdmissionId generation) := by
  cases action <;> simp only [LeaseAuthority.next, hold, reduceCtorEq] at h
  exact (Option.some.inj h).symm

theorem not_oneGeneration_of_overtaken (h : s.next i action = some s')
    (hovertaken : s.overtaken i) : ¬ s'.OneGeneration := by
  unfold overtaken at hovertaken
  split at hovertaken
  · next woken generation activeGeneration hold hactive =>
    rw [next_inserts hold h]
    intro hs'
    have hadmitted := hs' i _ _ (Function.update_self ..)
    simp only [LeaseAuthority.set, AdmissionTrackerState.insertAdmission, hactive,
      Option.getD_some] at hadmitted
    exact of_decide_eq_true hovertaken (Option.some.inj hadmitted)
  · cases hovertaken

theorem Accounted.eq_none (hs : s.Accounted) (hactive : s.tracker.activeGeneration = none) :
    s.acquirers j ≠ .admitted admissionId generation := by
  intro hj
  have hsome := hs.active.2 ⟨_, (hs.held _).2 ⟨j, generation, hj⟩⟩
  rw [hactive] at hsome
  cases hsome

theorem OneGeneration.next (hs : s.OneGeneration) (haccounted : s.Accounted)
    (h : s.next i action = some s') (hovertaken : s.overtaken i = false) : s'.OneGeneration := by
  cases effect_of_next h with
  | quiet hold hquiet =>
    intro j admissionId generation hj
    exact hs j admissionId generation ((update_admitted_iff hold hquiet).1 hj)
  | @insert woken generation hold =>
    intro j admissionId' generation' hj
    cases hactive : s.tracker.activeGeneration with
    | none =>
      by_cases hji : j = i
      · subst hji
        cases (Function.update_self ..).symm.trans hj
        simp [LeaseAuthority.set, AdmissionTrackerState.insertAdmission, hactive]
      · exact absurd ((Function.update_of_ne hji ..).symm.trans hj) (haccounted.eq_none hactive)
    | some activeGeneration =>
      have hsame : activeGeneration = generation := by
        simpa [overtaken, hold, hactive] using hovertaken
      have htracker : (s.tracker.insertAdmission s.nextAdmissionId generation).activeGeneration =
          some generation := by
        rw [AdmissionTrackerState.insertAdmission, hactive, hsame, Option.getD_some]
      refine htracker.trans ?_
      by_cases hji : j = i
      · subst hji
        cases (Function.update_self ..).symm.trans hj
        rfl
      · rw [← hs j _ _ ((Function.update_of_ne hji ..).symm.trans hj), hactive, hsame]
  | @release admissionId generation hold =>
    intro j admissionId' generation' hj
    obtain ⟨hji, hj⟩ := released_admitted_iff.1 hj
    have hmem := (haccounted.held _).2 ⟨i, generation, hold⟩
    have hmem' : admissionId' ∈ s.tracker.admissions.erase admissionId := by
      refine Finset.mem_erase.2 ⟨?_, (haccounted.held _).2 ⟨j, generation', hj⟩⟩
      rintro rfl
      exact hji (haccounted.distinct _ _ _ _ _ hj hold)
    simp only [LeaseAuthority.set, release_not_last hmem (Finset.ne_empty_of_mem hmem')]
    exact hs j _ _ hj
  | notify hold =>
    intro j admissionId generation hj
    exact hs j admissionId generation ((notified_admitted_iff hold).1 hj)

/-- As long as no insertion is overtaken, the admissions that are out are of one generation, and
the first insertion that is overtaken ends that. -/
theorem oneGeneration_of_inTime (h : inTime.Reach s) :
    s.OneGeneration ∧ ∀ i action s', s.next i action = some s' →
      (s'.OneGeneration ↔ s.overtaken i = false) := by
  have hs : s.OneGeneration := by
    refine And.left (h.invariant (I := fun s => s.OneGeneration ∧ s.Accounted) ?_ ?_)
    · rintro _ rfl
      exact ⟨nofun, .start⟩
    · rintro s action s' ⟨hs, haccounted⟩ ⟨hovertaken, hstep⟩
      exact ⟨hs.next haccounted hstep hovertaken, haccounted.next hstep⟩
  refine ⟨hs, fun i action s' hstep => ⟨fun hs' => ?_, hs.next (accounted h.of_restrict) hstep⟩⟩
  by_contra hovertaken
  exact not_oneGeneration_of_overtaken hstep (by simpa using hovertaken) hs'

/-- Two calls are at different generations, and the second has yet to insert. -/
def raced : Option LeaseAuthority :=
  scriptInTime (untilInsertion 0 1 ++ untilInsertion 1 2 ++ [(0, .insert)])

theorem raced_isSome : raced.isSome := by decide

theorem oneGeneration_of_inTime_raced : ∃ s s', raced = some s ∧ s.next 1 .insert = some s' ∧
    s.OneGeneration ∧ ¬ s'.OneGeneration := by
  have hstep : (raced.get raced_isSome).next 1 .insert ≠ none := by decide
  obtain ⟨s', hstep⟩ := Option.ne_none_iff_exists'.1 hstep
  have hreach : inTime.Reach (raced.get raced_isSome) :=
    inTime_script (Option.some_get raced_isSome).symm
  have hs := oneGeneration_of_inTime hreach
  exact ⟨_, s', (Option.some_get raced_isSome).symm, hstep, hs.1,
    fun hs' => absurd ((hs.2 1 _ _ hstep).1 hs') (by decide)⟩

end

end LeaseAuthority

end Mcodex.Runtime
