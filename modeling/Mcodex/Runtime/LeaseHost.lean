import Mathlib.Data.Finset.Card
import Mathlib.Logic.Function.Basic
import Mcodex.Lib.Effect
import Mcodex.Lib.Transition

/-!
# The lifecycle of a runtime lease host

A pooled host counts the sessions attached to it and the startups that are pending, and releases its
authority with the last of them. All operations hold the lifecycle lock, also while the release is
awaited; a release that fails is tried again, and a reservation that is dropped is cleaned up by a
task of its own. The record of the last remote context reset is left out.
-/

namespace Mcodex.Runtime

open Transition

structure RuntimeLeaseHostLifecycle where
  attachedSessions : Finset String
  pendingStartups : Finset String

/-- What holds the lifecycle lock while it awaits the release of the authority. -/
inductive Releasing
  | startup (reservationId : String)
  | session (sessionId : String)

structure RuntimeLeaseHost (α : Type) where
  id : String
  authority : Option α
  lifecycle : RuntimeLeaseHostLifecycle
  releasing : Option Releasing

namespace RuntimeLeaseHostLifecycle

/-- The startup or the session goes. -/
def remove (lifecycle : RuntimeLeaseHostLifecycle) : Releasing → RuntimeLeaseHostLifecycle
  | .startup reservationId =>
    { lifecycle with pendingStartups := lifecycle.pendingStartups.erase reservationId }
  | .session sessionId =>
    { lifecycle with attachedSessions := lifecycle.attachedSessions.erase sessionId }

end RuntimeLeaseHostLifecycle

namespace RuntimeLeaseHost

variable {α : Type} (host : RuntimeLeaseHost α)

def attachSession (sessionId : String) : RuntimeLeaseHost α :=
  { host with lifecycle := { host.lifecycle with
      attachedSessions := insert sessionId host.lifecycle.attachedSessions } }

def ensureChildStartupReady : Except String Unit :=
  if host.authority.isNone then
    .error ("runtime lease host " ++ host.id ++
      " has no published pooled authority for child startup")
  else .ok ()

def tryReserveStartupForChild (reservationId : String) : Except String (RuntimeLeaseHost α) := do
  host.ensureChildStartupReady
  .ok { host with lifecycle := { host.lifecycle with
      pendingStartups := insert reservationId host.lifecycle.pendingStartups } }

def promoteStartupReservationToSession (reservationId sessionId : String) :
    Except String (RuntimeLeaseHost α) :=
  if reservationId ∉ host.lifecycle.pendingStartups then
    .error ("runtime lease host " ++ host.id ++ " has no pending startup reservation " ++
      reservationId)
  else
    .ok { host with lifecycle := {
      attachedSessions := insert sessionId host.lifecycle.attachedSessions
      pendingStartups := host.lifecycle.pendingStartups.erase reservationId } }

/-- The rest of an operation once the authority is released. -/
def finishRelease (releasing : Releasing) : RuntimeLeaseHost α :=
  { host with
    authority := none
    lifecycle := host.lifecycle.remove releasing
    releasing := none }

/-- The operation ends with the error of the release, or is cancelled. -/
def failRelease : RuntimeLeaseHost α := { host with releasing := none }

/-- The last one awaits the release of the authority, if there is one. -/
def beginRelease (releasing : Releasing) : RuntimeLeaseHost α :=
  if host.authority.isSome then { host with releasing := some releasing }
  else host.finishRelease releasing

/-- Up to the release, or to the end: then nothing is being released. -/
def rollbackStartupReservation (reservationId : String) : RuntimeLeaseHost α :=
  if reservationId ∉ host.lifecycle.pendingStartups then host
  else if host.lifecycle.attachedSessions ≠ ∅ ∨ 1 < host.lifecycle.pendingStartups.card then
    { host with lifecycle := host.lifecycle.remove (.startup reservationId) }
  else host.beginRelease (.startup reservationId)

/-- Up to the release, or to the end: then nothing is being released. -/
def detachSession (sessionId : String) : RuntimeLeaseHost α :=
  if sessionId ∉ host.lifecycle.attachedSessions then host
  else if 1 < host.lifecycle.attachedSessions.card ∨ host.lifecycle.pendingStartups ≠ ∅ then
    { host with lifecycle := host.lifecycle.remove (.session sessionId) }
  else host.beginRelease (.session sessionId)

end RuntimeLeaseHost

/-! ## Reservations -/

def shutdownReleaseMaxAttempts : Nat := 3

/-- Where a reservation is: with its holder, in an attempt of `rollback`, or with the task that
cleans up after it was dropped; promoted or gone once it was consumed. -/
inductive ReservationPhase
  | held
  | rollingBack (attempt : Nat)
  | cleaning
  | promoted
  | gone
  deriving DecidableEq

namespace ReservationPhase

/-- The startup is pending: the reservation is neither promoted nor rolled back. -/
def pending : ReservationPhase → Bool
  | held | rollingBack _ | cleaning => true
  | promoted | gone => false

/-- The phase in which an attempt awaits a release. -/
def attempting : ReservationPhase → ReservationPhase
  | held => rollingBack 1
  | phase => phase

/-- After a release that failed, `rollback` tries again or gives up and drops the reservation. -/
def afterFailure : ReservationPhase → ReservationPhase
  | rollingBack attempt =>
    if attempt < shutdownReleaseMaxAttempts then rollingBack (attempt + 1) else cleaning
  | phase => phase

/-- A reservation that its holder drops is cleaned up. -/
def afterDrop : ReservationPhase → ReservationPhase
  | held | rollingBack _ => cleaning
  | phase => phase

end ReservationPhase

/-- A host, its reservations, and the sessions that were promoted and are not detached yet. -/
structure HostWorld (α : Type) where
  host : RuntimeLeaseHost α
  reservations : String → Option ReservationPhase
  promoted : Finset String

inductive HostStep
  | reserve (reservationId : String)
  | promote (reservationId sessionId : String)
  | rollback (reservationId : String)
  | drop (reservationId : String)
  | attach (sessionId : String)
  | detach (sessionId : String)
  | released
  | releaseFailed
  | cancelled

namespace HostWorld

variable {α : Type} (w : HostWorld α)

def withHost (host : RuntimeLeaseHost α) : HostWorld α := { w with host }

def setPhase (reservationId : String) (phase : ReservationPhase) : HostWorld α :=
  { w with reservations := Function.update w.reservations reservationId (some phase) }

/-- A startup or a session is gone for good. -/
def leave : Releasing → HostWorld α
  | .startup reservationId => w.setPhase reservationId .gone
  | .session sessionId => { w with promoted := w.promoted.erase sessionId }

/-- The reservation whose release failed or was cancelled changes its phase. -/
def setReleasing (f : ReservationPhase → ReservationPhase) : Releasing → HostWorld α
  | .startup reservationId =>
    { w with
      reservations := Function.update w.reservations reservationId
        ((w.reservations reservationId).map f) }
  | .session _ => w

end HostWorld

/-- Operations begin while nobody holds the lifecycle lock. -/
inductive HostAdvances {α : Type} : HostWorld α → HostStep → HostWorld α → Prop
  | reserve {w host reservationId} : w.host.releasing = none →
      w.reservations reservationId = none →
      w.host.tryReserveStartupForChild reservationId = .ok host →
      HostAdvances w (.reserve reservationId) ((w.withHost host).setPhase reservationId .held)
  | reserveFailed {w err reservationId} : w.host.releasing = none →
      w.host.tryReserveStartupForChild reservationId = .error err →
      HostAdvances w (.reserve reservationId) w
  | promote {w host reservationId sessionId} : w.host.releasing = none →
      w.reservations reservationId = some .held →
      w.host.promoteStartupReservationToSession reservationId sessionId = .ok host →
      HostAdvances w (.promote reservationId sessionId)
        { (w.withHost host).setPhase reservationId .promoted with
          promoted := insert sessionId w.promoted }
  | promoteFailed {w err reservationId sessionId} : w.host.releasing = none →
      w.reservations reservationId = some .held →
      w.host.promoteStartupReservationToSession reservationId sessionId = .error err →
      HostAdvances w (.promote reservationId sessionId) (w.setPhase reservationId .cleaning)
  | rollback {w host reservationId phase} : w.host.releasing = none →
      w.reservations reservationId = some phase → phase.pending →
      w.host.rollbackStartupReservation reservationId = host →
      HostAdvances w (.rollback reservationId) ((w.withHost host).setPhase reservationId
        (if host.releasing.isNone then .gone else phase.attempting))
  | drop {w reservationId phase} : (∀ releasing ∈ w.host.releasing,
        releasing ≠ .startup reservationId) →
      w.reservations reservationId = some phase →
      HostAdvances w (.drop reservationId) (w.setPhase reservationId phase.afterDrop)
  | attach {w sessionId} : w.host.releasing = none →
      HostAdvances w (.attach sessionId) (w.withHost (w.host.attachSession sessionId))
  | detach {w host sessionId} : w.host.releasing = none → w.host.detachSession sessionId = host →
      HostAdvances w (.detach sessionId)
        (if host.releasing.isNone then (w.withHost host).leave (.session sessionId)
          else w.withHost host)
  | released {w releasing} : w.host.releasing = some releasing →
      HostAdvances w .released ((w.withHost (w.host.finishRelease releasing)).leave releasing)
  | releaseFailed {w releasing} : w.host.releasing = some releasing →
      HostAdvances w .releaseFailed
        ((w.withHost w.host.failRelease).setReleasing .afterFailure releasing)
  | cancelled {w releasing} : w.host.releasing = some releasing →
      HostAdvances w .cancelled
        ((w.withHost w.host.failRelease).setReleasing .afterDrop releasing)

/-- A host with an authority installed, to which sessions may be attached. -/
def leaseHost (α : Type) : System (HostWorld α) HostStep where
  init w := w.host.authority.isSome ∧ w.host.lifecycle.pendingStartups = ∅ ∧
    w.host.releasing = none ∧ w.reservations = (fun _ => none) ∧ w.promoted = ∅
  step := HostAdvances

section
variable {α : Type} {host host' : RuntimeLeaseHost α} {w w' : HostWorld α}
  {reservationId sessionId id : String} {releasing : Releasing} {a : HostStep}
  {phase : ReservationPhase}

/-! ## The host -/

/-- The startup is pending, or the session is attached. -/
def Releasing.In (lifecycle : RuntimeLeaseHostLifecycle) : Releasing → Prop
  | .startup reservationId => reservationId ∈ lifecycle.pendingStartups
  | .session sessionId => sessionId ∈ lifecycle.attachedSessions

/-- The startup or the session is the only one. -/
def Releasing.Last (lifecycle : RuntimeLeaseHostLifecycle) : Releasing → Prop
  | .startup reservationId =>
    lifecycle.attachedSessions = ∅ ∧ lifecycle.pendingStartups = {reservationId}
  | .session sessionId =>
    lifecycle.attachedSessions = {sessionId} ∧ lifecycle.pendingStartups = ∅

theorem Releasing.Last.remove (h : releasing.Last host.lifecycle) :
    (host.lifecycle.remove releasing).attachedSessions = ∅ ∧
      (host.lifecycle.remove releasing).pendingStartups = ∅ := by
  cases releasing with
  | startup reservationId => exact ⟨h.1, by rw [RuntimeLeaseHostLifecycle.remove, h.2]; simp⟩
  | session sessionId => exact ⟨by rw [RuntimeLeaseHostLifecycle.remove, h.1]; simp, h.2⟩

theorem eq_singleton_of_card_le_one {s : Finset String} (h : id ∈ s) (hcard : ¬1 < s.card) :
    s = {id} :=
  Finset.eq_singleton_iff_unique_mem.2 ⟨h, fun _ hmem =>
    Finset.card_le_one.1 (Nat.le_of_not_lt hcard) _ hmem _ h⟩

/-- How an operation ends the life of a startup or a session: there is nothing to do, or others
remain, or it is the last one, and the authority has to be released if there is one. -/
inductive Leaves (releasing : Releasing) (host : RuntimeLeaseHost α) : RuntimeLeaseHost α → Prop
  | unknown : ¬releasing.In host.lifecycle → Leaves releasing host host
  | others : releasing.In host.lifecycle →
      Leaves releasing host { host with lifecycle := host.lifecycle.remove releasing }
  | begins : releasing.Last host.lifecycle → host.authority.isSome →
      Leaves releasing host { host with releasing := some releasing }
  | unowned : releasing.Last host.lifecycle → host.authority = none →
      Leaves releasing host (host.finishRelease releasing)

theorem leaves_beginRelease (h : releasing.Last host.lifecycle) :
    Leaves releasing host (host.beginRelease releasing) := by
  rw [RuntimeLeaseHost.beginRelease]
  split
  · exact .begins h ‹_›
  · exact .unowned h (Option.not_isSome_iff_eq_none.1 ‹_›)

theorem leaves_rollbackStartupReservation (host : RuntimeLeaseHost α) (reservationId : String) :
    Leaves (.startup reservationId) host (host.rollbackStartupReservation reservationId) := by
  rw [RuntimeLeaseHost.rollbackStartupReservation]
  split
  · exact .unknown ‹_›
  · rename_i hin
    rw [not_not] at hin
    split
    · exact .others hin
    · rename_i hlast
      rw [not_or, not_not] at hlast
      exact leaves_beginRelease ⟨hlast.1, eq_singleton_of_card_le_one hin hlast.2⟩

theorem leaves_detachSession (host : RuntimeLeaseHost α) (sessionId : String) :
    Leaves (.session sessionId) host (host.detachSession sessionId) := by
  rw [RuntimeLeaseHost.detachSession]
  split
  · exact .unknown ‹_›
  · rename_i hin
    rw [not_not] at hin
    split
    · exact .others hin
    · rename_i hlast
      rw [not_or, not_not] at hlast
      exact leaves_beginRelease ⟨eq_singleton_of_card_le_one hin hlast.1, hlast.2⟩

/-! ## The invariant -/

/-- A reservation is pending. -/
def Pends (reservations : String → Option ReservationPhase) (id : String) : Prop :=
  ∃ phase ∈ reservations id, phase.pending

theorem pends_update {reservations : String → Option ReservationPhase}
    {phase? : Option ReservationPhase} :
    Pends (Function.update reservations reservationId phase?) id ↔
      if id = reservationId then ∃ phase ∈ phase?, phase.pending else Pends reservations id := by
  rw [Pends]
  by_cases heq : id = reservationId
  · subst heq
    rw [Function.update_self, if_pos rfl]
  · rw [Function.update_of_ne heq, if_neg heq, Pends]

/-- The pending startups are those of the reservations that are pending, promoted sessions are
attached, and while there are any, the authority is there. Who releases it is the last one. -/
structure HostWorld.Inv (w : HostWorld α) : Prop where
  pending : ∀ id, id ∈ w.host.lifecycle.pendingStartups ↔ Pends w.reservations id
  promoted : w.promoted ⊆ w.host.lifecycle.attachedSessions
  present : w.host.lifecycle.pendingStartups ≠ ∅ ∨ w.promoted ≠ ∅ → w.host.authority.isSome
  releasing : ∀ releasing ∈ w.host.releasing, releasing.Last w.host.lifecycle

namespace HostWorld

theorem pending_afterFailure (phase : ReservationPhase) :
    phase.afterFailure.pending = phase.pending := by
  cases phase with
  | rollingBack attempt =>
    rw [ReservationPhase.afterFailure]
    split <;> rfl
  | held | cleaning | promoted | gone => rfl

theorem pending_afterDrop (phase : ReservationPhase) : phase.afterDrop.pending = phase.pending := by
  cases phase <;> rfl

theorem pending_attempting (phase : ReservationPhase) :
    phase.attempting.pending = phase.pending := by
  cases phase <;> rfl

/-- A change of phase that leaves a pending startup pending. -/
theorem Inv.update (h : w.Inv) {f : ReservationPhase → ReservationPhase}
    (hf : ∀ phase, (f phase).pending = phase.pending) :
    Inv { w with
      reservations := Function.update w.reservations reservationId
        ((w.reservations reservationId).map f) } where
  pending id := by
    show _ ↔ Pends (Function.update _ _ _) id
    rw [h.pending id, pends_update]
    split
    · rename_i heq
      subst heq
      rw [Pends]
      cases w.reservations id <;> simp [hf]
    · rfl
  promoted := h.promoted
  present := h.present
  releasing := h.releasing

theorem setPhase_eq (hphase : w.reservations reservationId = some phase)
    (f : ReservationPhase → ReservationPhase) :
    w.setPhase reservationId (f phase) = { w with
      reservations := Function.update w.reservations reservationId
        ((w.reservations reservationId).map f) } := by
  rw [setPhase, hphase]
  rfl

theorem Inv.setReleasing (h : w.Inv) {f : ReservationPhase → ReservationPhase}
    (hf : ∀ phase, (f phase).pending = phase.pending) : (w.setReleasing f releasing).Inv := by
  cases releasing with
  | startup reservationId => exact h.update hf
  | session sessionId => exact h

/-- A startup or a session is gone from the host: the authority stays, unless it was the last
one. -/
theorem Inv.leave (h : w.Inv) (hlifecycle : host.lifecycle = w.host.lifecycle.remove releasing)
    (hreleasing : host.releasing = none)
    (hauthority : host.authority = w.host.authority ∨ releasing.Last w.host.lifecycle) :
    ((w.withHost host).leave releasing).Inv := by
  cases releasing with
  | startup reservationId =>
    refine ⟨fun id => ?_, ?_, ?_, ?_⟩
    · show id ∈ host.lifecycle.pendingStartups ↔ Pends (Function.update _ _ _) id
      rw [hlifecycle, pends_update]
      show id ∈ w.host.lifecycle.pendingStartups.erase reservationId ↔ _
      rw [Finset.mem_erase, h.pending id]
      split
      · simp [*, ReservationPhase.pending]
      · exact and_iff_right ‹_›
    · show w.promoted ⊆ host.lifecycle.attachedSessions
      rw [hlifecycle]
      exact h.promoted
    · show host.lifecycle.pendingStartups ≠ ∅ ∨ w.promoted ≠ ∅ → host.authority.isSome
      rcases hauthority with hsame | hlast
      · rw [hlifecycle, hsame]
        refine fun hne => h.present (hne.imp_left fun hne hempty => hne ?_)
        show w.host.lifecycle.pendingStartups.erase reservationId = ∅
        rw [hempty, Finset.erase_empty]
      · rw [hlifecycle, hlast.remove.2]
        have hpromoted : w.promoted = ∅ := Finset.subset_empty.1 (hlast.1 ▸ h.promoted)
        exact fun hne => absurd hne (by simp [hpromoted])
    · show ∀ releasing ∈ host.releasing, _
      rw [hreleasing]
      exact nofun
  | session sessionId =>
    have hpromoted : w.promoted.erase sessionId ⊆ host.lifecycle.attachedSessions := by
      rw [hlifecycle]
      exact Finset.erase_subset_erase sessionId h.promoted
    refine ⟨fun id => ?_, hpromoted, ?_, ?_⟩
    · show id ∈ host.lifecycle.pendingStartups ↔ _
      rw [hlifecycle]
      exact h.pending id
    · show host.lifecycle.pendingStartups ≠ ∅ ∨ w.promoted.erase sessionId ≠ ∅ →
        host.authority.isSome
      rcases hauthority with hsame | hlast
      · rw [hlifecycle, hsame]
        refine fun hne => h.present (hne.imp_right fun hne hempty => hne ?_)
        rw [hempty, Finset.erase_empty]
      · rw [hlifecycle, hlast.remove.1, Finset.subset_empty] at hpromoted
        rw [hlifecycle, hlast.remove.2, hpromoted]
        exact fun hne => absurd hne (by simp)
    · show ∀ releasing ∈ host.releasing, _
      rw [hreleasing]
      exact nofun

/-- An operation that ends the life of a startup or a session, up to its release if it awaits
one. -/
theorem Inv.leaves (h : w.Inv) (hlock : w.host.releasing = none)
    (hleaves : Leaves releasing w.host host) :
    host.releasing = none ∧ ((w.withHost host).leave releasing).Inv ∨
      host.releasing = some releasing ∧ (w.withHost host).Inv := by
  cases hleaves with
  | unknown hout =>
    refine .inl ⟨hlock, h.leave ?_ hlock (.inl rfl)⟩
    cases releasing with
    | startup reservationId =>
      rw [RuntimeLeaseHostLifecycle.remove, Finset.erase_eq_of_notMem hout]
    | session sessionId =>
      rw [RuntimeLeaseHostLifecycle.remove, Finset.erase_eq_of_notMem hout]
  | others => exact .inl ⟨hlock, h.leave rfl hlock (.inl rfl)⟩
  | begins hlast =>
    refine .inr ⟨rfl, h.pending, h.promoted, h.present, fun releasing' hreleasing => ?_⟩
    exact Option.some.inj hreleasing ▸ hlast
  | unowned hlast => exact .inl ⟨rfl, h.leave rfl rfl (.inr hlast)⟩

theorem Inv.failRelease (h : w.Inv) : (w.withHost w.host.failRelease).Inv :=
  ⟨h.pending, h.promoted, h.present, nofun⟩

theorem Inv.reserve (h : w.Inv) (hlock : w.host.releasing = none)
    (hok : w.host.tryReserveStartupForChild reservationId = .ok host) :
    ((w.withHost host).setPhase reservationId .held).Inv := by
  rw [RuntimeLeaseHost.tryReserveStartupForChild, RuntimeLeaseHost.ensureChildStartupReady] at hok
  split at hok
  · cases hok
  · rename_i hsome
    obtain rfl := Except.ok.inj hok
    refine ⟨fun id => ?_, h.promoted, fun _ => Option.isSome_iff_ne_none.2 ?_, ?_⟩
    · show id ∈ insert reservationId w.host.lifecycle.pendingStartups ↔
        Pends (Function.update _ _ _) id
      rw [Finset.mem_insert, pends_update, h.pending id]
      split
      · simp [*, ReservationPhase.pending]
      · exact or_iff_right ‹_›
    · rwa [Option.isNone_iff_eq_none] at hsome
    · show ∀ releasing ∈ w.host.releasing, _
      rw [hlock]
      exact nofun

theorem Inv.promote (h : w.Inv) (hlock : w.host.releasing = none)
    (hok : w.host.promoteStartupReservationToSession reservationId sessionId = .ok host) :
    Inv { (w.withHost host).setPhase reservationId .promoted with
      promoted := insert sessionId w.promoted } := by
  rw [RuntimeLeaseHost.promoteStartupReservationToSession] at hok
  split at hok
  · cases hok
  · rename_i hin
    rw [not_not] at hin
    obtain rfl := Except.ok.inj hok
    have hpresent : w.host.authority.isSome :=
      h.present (.inl (Finset.ne_empty_of_mem hin))
    refine ⟨fun id => ?_, Finset.insert_subset_insert sessionId h.promoted, fun _ => hpresent, ?_⟩
    · show id ∈ w.host.lifecycle.pendingStartups.erase reservationId ↔
        Pends (Function.update _ _ _) id
      rw [Finset.mem_erase, pends_update, h.pending id]
      split
      · simp [*, ReservationPhase.pending]
      · exact and_iff_right ‹_›
    · show ∀ releasing ∈ w.host.releasing, _
      rw [hlock]
      exact nofun

/-- A reservation that its holder has is pending, so that it can be promoted. -/
theorem Inv.not_promoteFailed {err : String} (h : w.Inv)
    (hheld : w.reservations reservationId = some .held) :
    w.host.promoteStartupReservationToSession reservationId sessionId ≠ .error err := by
  have hin : reservationId ∈ w.host.lifecycle.pendingStartups :=
    (h.pending reservationId).2 ⟨.held, hheld, rfl⟩
  rw [RuntimeLeaseHost.promoteStartupReservationToSession, if_neg (not_not.2 hin)]
  exact nofun

theorem Inv.step (h : w.Inv) (hstep : HostAdvances w a w') : w'.Inv := by
  cases hstep with
  | reserve hlock _ hok => exact h.reserve hlock hok
  | reserveFailed => exact h
  | promote hlock _ hok => exact h.promote hlock hok
  | promoteFailed _ hheld herr => exact absurd herr (h.not_promoteFailed hheld)
  | @rollback host reservationId phase hlock hphase _ hhost =>
    have hleaves := hhost ▸ leaves_rollbackStartupReservation w.host reservationId
    obtain ⟨hnone, hinv⟩ | ⟨hsome, hinv⟩ := h.leaves hlock hleaves
    · rw [hnone]
      exact hinv
    · rw [hsome]
      show ((w.withHost host).setPhase reservationId phase.attempting).Inv
      rw [setPhase_eq (w := w.withHost host) hphase]
      exact hinv.update pending_attempting
  | drop _ hphase =>
    rw [setPhase_eq hphase]
    exact h.update pending_afterDrop
  | attach hlock =>
    refine ⟨h.pending, h.promoted.trans (Finset.subset_insert _ _), h.present, ?_⟩
    show ∀ releasing ∈ w.host.releasing, _
    rw [hlock]
    exact nofun
  | @detach host sessionId hlock hhost =>
    have hleaves := hhost ▸ leaves_detachSession w.host sessionId
    obtain ⟨hnone, hinv⟩ | ⟨hsome, hinv⟩ := h.leaves hlock hleaves
    · rw [hnone]
      exact hinv
    · rw [hsome]
      exact hinv
  | released hreleasing => exact h.leave rfl rfl (.inr (h.releasing _ hreleasing))
  | releaseFailed => exact h.failRelease.setReleasing pending_afterFailure
  | cancelled => exact h.failRelease.setReleasing pending_afterDrop

end HostWorld

theorem leaseHost_inv (h : (leaseHost α).Reach w) : w.Inv :=
  h.invariant (fun w ⟨_, hpending, hreleasing, hreservations, hpromoted⟩ => {
    pending := fun id => by
      rw [hpending, hreservations]
      exact iff_of_false (Finset.notMem_empty id) nofun
    promoted := by
      rw [hpromoted]
      exact Finset.empty_subset _
    present := fun hne => absurd hne (by simp [hpending, hpromoted])
    releasing := by
      rw [hreleasing]
      exact nofun }) fun _ _ _ hinv hstep => hinv.step hstep

/-! ## The authority -/

theorem leave_host (w : HostWorld α) (releasing : Releasing) :
    (w.leave releasing).host = w.host := by
  cases releasing <;> rfl

theorem setReleasing_host (w : HostWorld α) (f : ReservationPhase → ReservationPhase)
    (releasing : Releasing) : (w.setReleasing f releasing).host = w.host := by
  cases releasing <;> rfl

theorem Leaves.authority (h : Leaves releasing host host') (hauthority : host.authority.isSome) :
    host'.authority = host.authority := by
  cases h with
  | unknown | others | begins => rfl
  | unowned _ hnone =>
    rw [hnone] at hauthority
    cases hauthority

/-- Only the end of a release takes the authority away, and it leaves nothing behind. -/
theorem HostAdvances.takes (h : w.Inv) (hstep : HostAdvances w a w')
    (hauthority : w.host.authority.isSome) : w'.host.authority = w.host.authority ∨
      w'.host.lifecycle.attachedSessions = ∅ ∧ w'.host.lifecycle.pendingStartups = ∅ := by
  cases hstep with
  | @reserve host reservationId _ _ hok =>
    rw [RuntimeLeaseHost.tryReserveStartupForChild] at hok
    obtain ⟨_, -, hok⟩ := Effect.bind_eq_ok.1 hok
    obtain rfl := Except.ok.inj hok
    exact .inl rfl
  | @promote host reservationId sessionId _ _ hok =>
    rw [RuntimeLeaseHost.promoteStartupReservationToSession] at hok
    split at hok
    · cases hok
    · obtain rfl := Except.ok.inj hok
      exact .inl rfl
  | @rollback host reservationId phase _ _ _ hhost =>
    have hleaves := hhost ▸ leaves_rollbackStartupReservation w.host reservationId
    exact .inl (hleaves.authority hauthority)
  | @detach host sessionId _ hhost =>
    have hleaves := hhost ▸ leaves_detachSession w.host sessionId
    refine .inl ((congrArg RuntimeLeaseHost.authority ?_).trans (hleaves.authority hauthority))
    split <;> rfl
  | released hreleasing =>
    rw [leave_host]
    exact .inr (h.releasing _ hreleasing).remove
  | reserveFailed | promoteFailed | drop | attach => exact .inl rfl
  | releaseFailed | cancelled =>
    rw [setReleasing_host]
    exact .inl rfl

/-- A release that fails, or is cancelled, changes nothing of the host but its lock. -/
theorem HostAdvances.failed (hstep : HostAdvances w a w')
    (ha : a = .releaseFailed ∨ a = .cancelled) :
    w'.host.lifecycle = w.host.lifecycle ∧ w'.host.authority = w.host.authority := by
  cases hstep with
  | releaseFailed | cancelled =>
    rw [setReleasing_host]
    exact ⟨rfl, rfl⟩
  | reserve | reserveFailed | promote | promoteFailed | rollback | drop | attach | detach
  | released => simp at ha

end

/-- A host whose authority is a number, with nothing attached. -/
def freshHost : HostWorld Nat where
  host := ⟨"host", some 7, ⟨∅, ∅⟩, none⟩
  reservations _ := none
  promoted := ∅

end Mcodex.Runtime
