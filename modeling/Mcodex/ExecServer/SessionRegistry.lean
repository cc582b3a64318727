import Mcodex.Lib.Transition
import Mcodex.Lib.Table
import Mathlib.Data.Finset.Basic

/-!
# Sessions of the exec server

A session outlives its connection for a while: a connection that ends detaches, another one may
resume the session until its time is over, and then it is shut down. A resume holds the lock of the
registry throughout, while a detach takes neither that lock nor one lock for its two steps: it
clears the attachment, and then the notification sender, which a resume may have set in between.
-/

namespace Mcodex.ExecServer

open Table Transition

abbrev SessionId := Nat

abbrev ConnectionId := Nat

/-- Milliseconds. -/
abbrev Instant := Nat

def detachedSessionTtl : Nat := 10000

/-! ## Sessions -/

structure AttachmentState where
  currentConnectionId : Option ConnectionId
  detachedConnectionId : Option ConnectionId
  detachedExpiresAt : Option Instant
  deriving DecidableEq

/-- A session, the connection its process handler notifies, and whether that was shut down. -/
structure SessionEntry where
  attachment : AttachmentState
  notifications : Option ConnectionId
  isShutdown : Bool
  deriving DecidableEq

namespace SessionEntry

variable (entry : SessionEntry) (connectionId : ConnectionId) (now : Instant)

def new : SessionEntry where
  attachment := ⟨some connectionId, none, none⟩
  notifications := some connectionId
  isShutdown := false

def attach : SessionEntry := { entry with attachment := ⟨some connectionId, none, none⟩ }

def detach : Bool × SessionEntry :=
  if entry.attachment.currentConnectionId ≠ some connectionId then (false, entry)
  else (true, { entry with
    attachment := ⟨none, some connectionId, some (now + detachedSessionTtl)⟩ })

def hasActiveConnection : Bool := entry.attachment.currentConnectionId.isSome

def isExpired : Bool := entry.attachment.detachedExpiresAt.any (· ≤ now)

def isDetachedConnectionExpired : Bool :=
  entry.attachment.currentConnectionId.isNone &&
    entry.attachment.detachedConnectionId == some connectionId &&
      entry.attachment.detachedExpiresAt.any (· ≤ now)

def setNotificationSender (notifications : Option ConnectionId) : SessionEntry :=
  { entry with notifications }

def shutdown : SessionEntry := { entry with isShutdown := true }

end SessionEntry

/-! ## The registry and the calls under way -/

/-- How far a resume is, which holds the lock of the registry. -/
inductive AttachPhase
  | notExpired
  | noActiveConnection
  | senderSet
  deriving DecidableEq

structure Attaching where
  sessionId : SessionId
  connectionId : ConnectionId
  phase : AttachPhase
  deriving DecidableEq

structure SessionRegistry where
  now : Instant
  /-- The ids that were drawn are below. -/
  uuids : Nat
  /-- The sessions that can be resumed. -/
  sessions : Finset SessionId
  /-- All sessions. -/
  entries : Keyed SessionId SessionEntry
  attaching : Option Attaching
  /-- Detaches between their two steps. -/
  detaching : List (SessionId × ConnectionId)
  /-- Sleeping calls of `expire_if_detached`, and when they wake up. -/
  expiring : List (SessionId × ConnectionId × Instant)
  /-- Sessions that were removed to be shut down. -/
  removed : List SessionId
  /-- The connections that were attached and did not detach since. -/
  attached : Finset (SessionId × ConnectionId)

namespace SessionRegistry

def new : SessionRegistry where
  now := 0
  uuids := 0
  sessions := ∅
  entries := ∅
  attaching := none
  detaching := []
  expiring := []
  removed := []
  attached := ∅

def update (t : SessionRegistry) (sessionId : SessionId) (f : SessionEntry → SessionEntry) :
    SessionRegistry := { t with entries := updateKey sessionId f t.entries }

end SessionRegistry

inductive Step
  | attachNew
  | attachResume (sessionId : SessionId)
  | checkActive
  | setSender
  | attach
  | detach (sessionId : SessionId) (connectionId : ConnectionId)
  | clearSender (sessionId : SessionId) (connectionId : ConnectionId)
  | expireIfDetached (sessionId : SessionId) (connectionId : ConnectionId)
  | shutdown (sessionId : SessionId)
  | sleep (duration : Nat)

/-- The steps that hold a lock. -/
inductive Serves : SessionRegistry → Step → SessionRegistry → Prop
  | attachNew {t} (hlock : t.attaching = none) :
    Serves t .attachNew { t with
      uuids := t.uuids + 2
      sessions := insert (t.uuids + 1) t.sessions
      entries := t.entries.insert (t.uuids + 1) (.new t.uuids)
      attached := insert (t.uuids + 1, t.uuids) t.attached }
  | attachUnknown {t sessionId} (hlock : t.attaching = none) (hunknown : sessionId ∉ t.sessions) :
    Serves t (.attachResume sessionId) { t with uuids := t.uuids + 1 }
  | attachExpired {t sessionId entry} (hlock : t.attaching = none)
    (hsession : sessionId ∈ t.sessions) (hentry : t.entries.lookup sessionId = some entry)
    (hexpired : entry.isExpired t.now) :
    Serves t (.attachResume sessionId) { t with
      uuids := t.uuids + 1
      sessions := t.sessions.erase sessionId
      removed := t.removed ++ [sessionId] }
  | attachResume {t sessionId entry} (hlock : t.attaching = none)
    (hsession : sessionId ∈ t.sessions) (hentry : t.entries.lookup sessionId = some entry)
    (hexpired : ¬ entry.isExpired t.now) :
    Serves t (.attachResume sessionId) { t with
      uuids := t.uuids + 1
      attaching := some ⟨sessionId, t.uuids, .notExpired⟩ }
  | active {t sessionId connectionId entry}
    (hlock : t.attaching = some ⟨sessionId, connectionId, .notExpired⟩)
    (hentry : t.entries.lookup sessionId = some entry) (hactive : entry.hasActiveConnection) :
    Serves t .checkActive { t with attaching := none }
  | notActive {t sessionId connectionId entry}
    (hlock : t.attaching = some ⟨sessionId, connectionId, .notExpired⟩)
    (hentry : t.entries.lookup sessionId = some entry) (hactive : ¬ entry.hasActiveConnection) :
    Serves t .checkActive { t with
      attaching := some ⟨sessionId, connectionId, .noActiveConnection⟩ }
  | setSender {t sessionId connectionId}
    (hlock : t.attaching = some ⟨sessionId, connectionId, .noActiveConnection⟩) :
    Serves t .setSender { t.update sessionId (·.setNotificationSender (some connectionId)) with
      attaching := some ⟨sessionId, connectionId, .senderSet⟩ }
  | attach {t sessionId connectionId}
    (hlock : t.attaching = some ⟨sessionId, connectionId, .senderSet⟩) :
    Serves t .attach { t.update sessionId (·.attach connectionId) with
      attaching := none
      attached := insert (sessionId, connectionId) t.attached }
  | detach {t sessionId connectionId entry} (hentry : t.entries.lookup sessionId = some entry) :
    Serves t (.detach sessionId connectionId)
      { t.update sessionId fun entry => (entry.detach connectionId t.now).2 with
        detaching := if (entry.detach connectionId t.now).1 then
          t.detaching ++ [(sessionId, connectionId)] else t.detaching
        attached := t.attached.erase (sessionId, connectionId) }
  | clearSender {t sessionId connectionId} (hmem : (sessionId, connectionId) ∈ t.detaching) :
    Serves t (.clearSender sessionId connectionId)
      { t.update sessionId (·.setNotificationSender none) with
        detaching := t.detaching.erase (sessionId, connectionId)
        expiring := t.expiring ++ [(sessionId, connectionId, t.now + detachedSessionTtl)] }
  | notExpired {t sessionId connectionId wake} (hlock : t.attaching = none)
    (hmem : (sessionId, connectionId, wake) ∈ t.expiring) (hwake : wake ≤ t.now)
    (hnot : ∀ entry ∈ t.entries.lookup sessionId, sessionId ∈ t.sessions →
      ¬ entry.isDetachedConnectionExpired connectionId t.now) :
    Serves t (.expireIfDetached sessionId connectionId) { t with
      expiring := t.expiring.erase (sessionId, connectionId, wake) }
  | expired {t sessionId connectionId wake entry} (hlock : t.attaching = none)
    (hmem : (sessionId, connectionId, wake) ∈ t.expiring) (hwake : wake ≤ t.now)
    (hsession : sessionId ∈ t.sessions) (hentry : t.entries.lookup sessionId = some entry)
    (hexpired : entry.isDetachedConnectionExpired connectionId t.now) :
    Serves t (.expireIfDetached sessionId connectionId) { t with
      expiring := t.expiring.erase (sessionId, connectionId, wake)
      sessions := t.sessions.erase sessionId
      removed := t.removed ++ [sessionId] }
  | shutdown {t sessionId} (hmem : sessionId ∈ t.removed) :
    Serves t (.shutdown sessionId) { t.update sessionId (·.shutdown) with
      removed := t.removed.erase sessionId }
  | sleep {t duration} : Serves t (.sleep duration) { t with now := t.now + duration }

def registry : System SessionRegistry Step where
  init t := t = .new
  step := Serves

/-! ## What every interleaving keeps -/

section
variable {t t' : SessionRegistry} {sessionId sessionId' : SessionId} {connectionId : ConnectionId}
  {entry : SessionEntry}

namespace SessionRegistry

theorem lookup_update {f : SessionEntry → SessionEntry}
    (h : (t.update sessionId f).entries.lookup sessionId' = some entry) :
    ∃ entry', t.entries.lookup sessionId' = some entry' ∧
      entry = if sessionId' = sessionId then f entry' else entry' := by
  rw [update, lookup_updateKey] at h
  split at h
  · obtain ⟨entry', hentry, rfl⟩ := Option.map_eq_some_iff.1 h
    exact ⟨entry', hentry, (if_pos ‹_›).symm⟩
  · exact ⟨entry, h, (if_neg ‹_›).symm⟩

theorem mem_update {f : SessionEntry → SessionEntry} :
    sessionId' ∈ (t.update sessionId f).entries ↔ sessionId' ∈ t.entries := mem_updateKey

end SessionRegistry

namespace SessionEntry

theorem detach_of_ne {now : Instant}
    (h : entry.attachment.currentConnectionId ≠ some connectionId) :
    entry.detach connectionId now = (false, entry) := if_pos h

theorem detach_of_eq {now : Instant}
    (h : entry.attachment.currentConnectionId = some connectionId) :
    entry.detach connectionId now = (true, { entry with
      attachment := ⟨none, some connectionId, some (now + detachedSessionTtl)⟩ }) :=
  if_neg (not_not.2 h)

end SessionEntry

/-- What holds of one session between two steps. -/
structure Holds (t : SessionRegistry) (sessionId : SessionId) (entry : SessionEntry) : Prop where
  current : ∀ connectionId, (sessionId, connectionId) ∈ t.attached ↔
    entry.attachment.currentConnectionId = some connectionId
  detached : entry.attachment.detachedExpiresAt.isSome →
    entry.attachment.currentConnectionId = none
  registered : entry.attachment.currentConnectionId ≠ none → sessionId ∈ t.sessions
  closed : entry.isShutdown → sessionId ∉ t.sessions
  attaching : ∀ a ∈ t.attaching, a.sessionId = sessionId →
    a.phase ≠ .notExpired → entry.attachment.currentConnectionId = none

/-- What holds between two steps. -/
structure Keeps (t : SessionRegistry) : Prop where
  holds : ∀ sessionId entry, t.entries.lookup sessionId = some entry → Holds t sessionId entry
  attached : ∀ sessionId connectionId, (sessionId, connectionId) ∈ t.attached →
    sessionId ∈ t.entries
  removed : ∀ sessionId ∈ t.removed, sessionId ∉ t.sessions
  attaching : ∀ a ∈ t.attaching, a.sessionId ∈ t.sessions
  known : ∀ sessionId, sessionId ∈ t.sessions ∨ sessionId ∈ t.removed → sessionId ∈ t.entries
  drawn : ∀ sessionId ∈ t.entries, sessionId < t.uuids

theorem Keeps.new : Keeps .new where
  holds _ _ h := nomatch h
  attached _ _ h := nomatch h
  removed _ h := nomatch h
  attaching _ h := nomatch h
  known _ h := by rcases h with h | h <;> cases h
  drawn _ h := nomatch h

theorem SessionEntry.current_eq_none_of_isExpired (h : Holds t sessionId entry) {now : Instant}
    (hexpired : entry.isExpired now) : entry.attachment.currentConnectionId = none := by
  refine h.detached ?_
  rw [isExpired, Option.any_eq_true] at hexpired
  obtain ⟨deadline, hdeadline, -⟩ := hexpired
  rw [hdeadline]
  rfl

theorem SessionEntry.current_eq_none_of_isDetachedConnectionExpired {now : Instant}
    (hexpired : entry.isDetachedConnectionExpired connectionId now) :
    entry.attachment.currentConnectionId = none := by
  rw [isDetachedConnectionExpired, Bool.and_eq_true, Bool.and_eq_true] at hexpired
  exact Option.isNone_iff_eq_none.1 hexpired.1.1

/-- Another session is not touched. -/
theorem Holds.frame (h : Holds t sessionId entry)
    (hattached : ∀ connectionId, (sessionId, connectionId) ∈ t'.attached ↔
      (sessionId, connectionId) ∈ t.attached)
    (hsessions : sessionId ∈ t'.sessions ↔ sessionId ∈ t.sessions)
    (hattaching : ∀ a ∈ t'.attaching, a.sessionId = sessionId → a ∈ t.attaching) :
    Holds t' sessionId entry where
  current connectionId := (hattached connectionId).trans (h.current connectionId)
  detached := h.detached
  registered hcurrent := hsessions.2 (h.registered hcurrent)
  closed hshutdown := mt hsessions.1 (h.closed hshutdown)
  attaching a ha heq := h.attaching a (hattaching a ha heq) heq

/-- The attachment decides, unless the process handler is shut down. -/
theorem Holds.of_attachment (h : Holds t sessionId entry) {entry' : SessionEntry}
    (hattachment : entry'.attachment = entry.attachment)
    (hshutdown : entry'.isShutdown → sessionId ∉ t.sessions) : Holds t sessionId entry' where
  current := hattachment ▸ h.current
  detached := hattachment ▸ h.detached
  registered := hattachment ▸ h.registered
  closed := hshutdown
  attaching := hattachment ▸ h.attaching

namespace Keeps

/-- A session without a connection is removed to be shut down. -/
theorem remove (h : Keeps t) (hlock : t.attaching = none) (hsession : sessionId ∈ t.sessions)
    (hentry : t.entries.lookup sessionId = some entry)
    (hcurrent : entry.attachment.currentConnectionId = none) :
    Keeps { t with
      sessions := t.sessions.erase sessionId
      removed := t.removed ++ [sessionId] } where
  holds sessionId' entry' hentry' := by
    have hholds := h.holds sessionId' entry' hentry'
    by_cases heq : sessionId' = sessionId
    · subst sessionId'
      cases hentry.symm.trans hentry'
      exact {
        current := hholds.current
        detached := hholds.detached
        registered := fun hne => absurd hcurrent hne
        closed := fun _ => Finset.notMem_erase sessionId t.sessions
        attaching := hholds.attaching }
    · exact hholds.frame (fun _ => Iff.rfl) (Finset.mem_erase.trans (and_iff_right heq))
        fun _ ha _ => ha
  attached := h.attached
  removed sessionId' hmem := by
    rcases List.mem_append.1 hmem with hmem | hmem
    · exact fun hsession' => h.removed sessionId' hmem (Finset.mem_of_mem_erase hsession')
    · rw [List.mem_singleton.1 hmem]
      exact Finset.notMem_erase sessionId t.sessions
  attaching a ha := by
    rw [show t.attaching = none from hlock] at ha
    cases ha
  known sessionId' hmem := by
    rcases hmem with hmem | hmem
    · exact h.known sessionId' (.inl (Finset.mem_of_mem_erase hmem))
    · rcases List.mem_append.1 hmem with hmem | hmem
      · exact h.known sessionId' (.inr hmem)
      · rw [List.mem_singleton.1 hmem]
        exact h.known sessionId (.inl hsession)
  drawn := h.drawn

theorem mono (h : Keeps t) {uuids : Nat} (hle : t.uuids ≤ uuids) : Keeps { t with uuids } where
  holds sessionId entry hentry :=
    (h.holds sessionId entry hentry).frame (fun _ => Iff.rfl) Iff.rfl fun _ ha _ => ha
  attached := h.attached
  removed := h.removed
  attaching := h.attaching
  known := h.known
  drawn sessionId hmem := Nat.lt_of_lt_of_le (h.drawn sessionId hmem) hle

/-- The attachments stay as they are. -/
theorem update (h : Keeps t) {f : SessionEntry → SessionEntry}
    (hf : ∀ entry, (f entry).attachment = entry.attachment)
    (hshutdown : ∀ entry, (f entry).isShutdown → ¬ entry.isShutdown → sessionId ∉ t.sessions) :
    Keeps (t.update sessionId f) where
  holds sessionId' entry hentry := by
    obtain ⟨entry', hentry', rfl⟩ := SessionRegistry.lookup_update hentry
    have hholds : Holds (t.update sessionId f) sessionId' entry' :=
      (h.holds sessionId' entry' hentry').frame (fun _ => Iff.rfl) Iff.rfl fun _ ha _ => ha
    split
    · rename_i heq
      subst heq
      refine hholds.of_attachment (hf entry') fun hclosed => ?_
      by_cases hshut : entry'.isShutdown
      · exact hholds.closed hshut
      · exact hshutdown entry' hclosed hshut
    · exact hholds
  attached sessionId' connectionId hmem :=
    SessionRegistry.mem_update.2 (h.attached sessionId' connectionId hmem)
  removed := h.removed
  attaching := h.attaching
  known sessionId' hmem := SessionRegistry.mem_update.2 (h.known sessionId' hmem)
  drawn sessionId' hmem := h.drawn sessionId' (SessionRegistry.mem_update.1 hmem)

/-- The calls under way come and go. -/
theorem tasks (h : Keeps t) (now : Instant) (detaching : List (SessionId × ConnectionId))
    (expiring : List (SessionId × ConnectionId × Instant)) {removed : List SessionId}
    (hremoved : ∀ sessionId ∈ removed, sessionId ∈ t.removed) :
    Keeps { t with now, detaching, expiring, removed } where
  holds sessionId entry hentry :=
    (h.holds sessionId entry hentry).frame (fun _ => Iff.rfl) Iff.rfl fun _ ha _ => ha
  attached := h.attached
  removed sessionId hmem := h.removed sessionId (hremoved sessionId hmem)
  attaching := h.attaching
  known sessionId hmem := h.known sessionId (hmem.imp_right (hremoved sessionId))
  drawn := h.drawn

/-- A resume goes on, or gives the lock back. -/
theorem lock (h : Keeps t) (attaching : Option Attaching)
    (hsession : ∀ a ∈ attaching, a.sessionId ∈ t.sessions)
    (hcurrent : ∀ a ∈ attaching, a.phase ≠ .notExpired → ∀ entry ∈ t.entries.lookup a.sessionId,
      entry.attachment.currentConnectionId = none) : Keeps { t with attaching } where
  holds sessionId entry hentry :=
    { h.holds sessionId entry hentry with
      attaching := fun a ha heq hphase => hcurrent a ha hphase entry (heq ▸ hentry) }
  attached := h.attached
  removed := h.removed
  attaching := hsession
  known := h.known
  drawn := h.drawn

/-- A new session has an id of its own. -/
theorem insert (h : Keeps t) (hlock : t.attaching = none) (connectionId : ConnectionId) :
    Keeps { t with
      uuids := t.uuids + 2
      sessions := Insert.insert (t.uuids + 1) t.sessions
      entries := t.entries.insert (t.uuids + 1) (.new connectionId)
      attached := Insert.insert (t.uuids + 1, connectionId) t.attached } := by
  have hnew {sessionId : SessionId} (hmem : sessionId ∈ t.entries) : sessionId ≠ t.uuids + 1 :=
    Nat.ne_of_lt (Nat.lt_succ_of_lt (h.drawn sessionId hmem))
  exact {
    holds := fun sessionId entry hentry => by
      rw [lookup_insert] at hentry
      split at hentry
      · rename_i heq
        subst heq
        cases hentry
        exact {
          current := fun connectionId' => by
            rw [Finset.mem_insert]
            constructor
            · rintro (heq | hmem)
              · cases heq
                rfl
              · exact absurd rfl (hnew (h.attached _ _ hmem))
            · intro heq
              cases heq
              exact .inl rfl
          detached := fun hsome => nomatch hsome
          registered := fun _ => Finset.mem_insert_self _ _
          closed := fun hshutdown => nomatch hshutdown
          attaching := fun a ha => by
            rw [show t.attaching = none from hlock] at ha
            cases ha }
      · rename_i hne
        refine (h.holds sessionId entry hentry).frame (fun connectionId' => ?_) ?_
          fun _ ha _ => ha
        · exact Finset.mem_insert.trans (or_iff_right fun heq => hne (congrArg Prod.fst heq))
        · exact Finset.mem_insert.trans (or_iff_right hne)
    attached := fun sessionId connectionId' hmem => by
      rw [AList.mem_insert]
      rcases Finset.mem_insert.1 hmem with heq | hmem
      · exact .inl (congrArg Prod.fst heq)
      · exact .inr (h.attached sessionId connectionId' hmem)
    removed := fun sessionId hmem hsession => by
      rcases Finset.mem_insert.1 hsession with heq | hsession
      · exact hnew (h.known sessionId (.inr hmem)) heq
      · exact h.removed sessionId hmem hsession
    attaching := fun a ha => Finset.mem_insert_of_mem (h.attaching a ha)
    known := fun sessionId hmem => by
      rw [AList.mem_insert]
      rcases hmem with hmem | hmem
      · exact (Finset.mem_insert.1 hmem).imp_right fun hmem => h.known sessionId (.inl hmem)
      · exact .inr (h.known sessionId (.inr hmem))
    drawn := fun sessionId hmem => by
      rcases (AList.mem_insert _).1 hmem with heq | hmem
      · rw [heq]
        exact Nat.lt_succ_self _
      · exact Nat.lt_of_lt_of_le (h.drawn sessionId hmem) (Nat.le_add_right _ 2) }

/-- A resume attaches its connection to a session without one. -/
theorem attach (h : Keeps t)
    (hlock : t.attaching = some ⟨sessionId, connectionId, .senderSet⟩) :
    Keeps { t.update sessionId (·.attach connectionId) with
      attaching := none
      attached := Insert.insert (sessionId, connectionId) t.attached } where
  holds sessionId' entry hentry := by
    obtain ⟨entry', hentry', rfl⟩ := SessionRegistry.lookup_update hentry
    have hholds := h.holds sessionId' entry' hentry'
    split
    · rename_i heq
      subst heq
      have hnone := hholds.attaching _ hlock rfl AttachPhase.noConfusion
      have hsession := h.attaching _ hlock
      exact {
        current := fun connectionId' => by
          rw [Finset.mem_insert, hholds.current, hnone]
          simp [SessionEntry.attach, eq_comm]
        detached := fun hsome => nomatch hsome
        registered := fun _ => hsession
        closed := fun hshutdown => absurd hsession (hholds.closed hshutdown)
        attaching := fun _ ha => nomatch ha }
    · rename_i hne
      refine hholds.frame (fun connectionId' => ?_) Iff.rfl fun _ ha => nomatch ha
      exact Finset.mem_insert.trans (or_iff_right fun heq => hne (congrArg Prod.fst heq))
  attached sessionId' connectionId' hmem := by
    rcases Finset.mem_insert.1 hmem with heq | hmem
    · cases heq
      exact SessionRegistry.mem_update.2 (h.known sessionId (.inl (h.attaching _ hlock)))
    · exact SessionRegistry.mem_update.2 (h.attached sessionId' connectionId' hmem)
  removed := h.removed
  attaching _ ha := nomatch ha
  known sessionId' hmem := SessionRegistry.mem_update.2 (h.known sessionId' hmem)
  drawn sessionId' hmem := h.drawn sessionId' (SessionRegistry.mem_update.1 hmem)

/-- A connection detaches, if it was attached. -/
theorem detach (h : Keeps t) (connectionId : ConnectionId)
    (detaching : List (SessionId × ConnectionId)) :
    Keeps { t.update sessionId fun entry => (entry.detach connectionId t.now).2 with
      detaching
      attached := t.attached.erase (sessionId, connectionId) } where
  holds sessionId' entry hentry := by
    obtain ⟨entry', hentry', rfl⟩ := SessionRegistry.lookup_update hentry
    have hholds := h.holds sessionId' entry' hentry'
    split
    · rename_i heq
      subst heq
      by_cases hcurrent : entry'.attachment.currentConnectionId = some connectionId
      · rw [SessionEntry.detach_of_eq hcurrent]
        exact {
          current := fun connectionId' => by
            rw [Finset.mem_erase, hholds.current, hcurrent]
            simp [eq_comm]
          detached := fun _ => rfl
          registered := fun hne => absurd rfl hne
          closed := hholds.closed
          attaching := fun _ _ _ _ => rfl }
      · rw [SessionEntry.detach_of_ne hcurrent]
        refine hholds.frame (fun connectionId' => ?_) Iff.rfl fun _ ha _ => ha
        refine Finset.mem_erase.trans (and_iff_right_of_imp fun hmem heq => ?_)
        cases heq
        exact hcurrent ((hholds.current connectionId).1 hmem)
    · rename_i hne
      refine hholds.frame (fun connectionId' => ?_) Iff.rfl fun _ ha _ => ha
      exact Finset.mem_erase.trans (and_iff_right fun heq => hne (congrArg Prod.fst heq))
  attached sessionId' connectionId' hmem := SessionRegistry.mem_update.2
    (h.attached sessionId' connectionId' (Finset.mem_of_mem_erase hmem))
  removed := h.removed
  attaching := h.attaching
  known sessionId' hmem := SessionRegistry.mem_update.2 (h.known sessionId' hmem)
  drawn sessionId' hmem := h.drawn sessionId' (SessionRegistry.mem_update.1 hmem)

theorem step {a : Step} (h : Keeps t) (hstep : Serves t a t') : Keeps t' := by
  cases hstep with
  | attachNew hlock => exact h.insert hlock t.uuids
  | attachUnknown _ _ => exact h.mono (Nat.le_succ _)
  | attachExpired hlock hsession hentry hexpired =>
    have hcurrent := SessionEntry.current_eq_none_of_isExpired (h.holds _ _ hentry) hexpired
    exact (h.remove hlock hsession hentry hcurrent).mono (Nat.le_succ _)
  | attachResume hlock hsession _ _ =>
    refine (h.mono (Nat.le_succ _)).lock _ (fun a ha => ?_) fun a ha hphase => ?_
    · cases ha
      exact hsession
    · cases ha
      exact absurd rfl hphase
  | active _ _ _ => exact h.lock none (fun _ ha => nomatch ha) fun _ ha => nomatch ha
  | notActive hlock hentry hactive =>
    have hsession := h.attaching _ hlock
    refine h.lock _ (fun a ha => ?_) fun a ha _ entry hentry' => ?_
    · cases ha
      exact hsession
    · cases ha
      cases hentry.symm.trans hentry'
      exact Option.not_isSome_iff_eq_none.1 hactive
  | setSender hlock =>
    rename_i sessionId connectionId
    have hupdate : Keeps (t.update sessionId (·.setNotificationSender (some connectionId))) :=
      h.update (fun _ => rfl) fun _ hshutdown hnot => absurd hshutdown hnot
    have hsession := h.attaching _ hlock
    refine hupdate.lock _ (fun a ha => ?_) fun a ha _ entry hentry => ?_
    · cases ha
      exact hsession
    · cases ha
      exact (hupdate.holds _ entry hentry).attaching _ hlock rfl AttachPhase.noConfusion
  | attach hlock => exact h.attach hlock
  | detach _ => exact h.detach _ _
  | clearSender _ =>
    rename_i sessionId connectionId _
    have hupdate : Keeps (t.update sessionId (·.setNotificationSender none)) :=
      h.update (fun _ => rfl) fun _ hshutdown hnot => absurd hshutdown hnot
    exact hupdate.tasks _ _ _ fun _ hmem => hmem
  | notExpired _ _ _ _ => exact h.tasks _ _ _ fun _ hmem => hmem
  | expired hlock _ _ hsession hentry hexpired =>
    have hremove := h.remove hlock hsession hentry
      (SessionEntry.current_eq_none_of_isDetachedConnectionExpired hexpired)
    exact hremove.tasks _ _ _ fun _ hmem => hmem
  | shutdown hmem =>
    rename_i sessionId
    have hupdate : Keeps (t.update sessionId (·.shutdown)) :=
      h.update (fun _ => rfl) fun _ _ _ => h.removed _ hmem
    exact hupdate.tasks _ _ _ fun _ hmem => List.mem_of_mem_erase hmem
  | sleep => exact h.tasks _ _ _ fun _ hmem => hmem

theorem of_reach (h : registry.Reach t) : Keeps t :=
  h.invariant (fun _ hinit => hinit ▸ .new) fun _ _ _ hkeeps hstep => hkeeps.step hstep

end Keeps

/-! ## The notification sender -/

/-- A detach clears the sender while no connection is attached to the session, nor a resume of it
has set the sender. -/
def ClearsInTime (t : SessionRegistry) : Step → Prop
  | .clearSender sessionId _ =>
    (∀ entry ∈ t.entries.lookup sessionId, entry.attachment.currentConnectionId = none) ∧
      ∀ a ∈ t.attaching, a.sessionId = sessionId → a.phase ≠ .senderSet
  | _ => True

/-- The process handler notifies the connection that is attached, or is about to be. -/
structure Notified (t : SessionRegistry) (sessionId : SessionId) (entry : SessionEntry) :
    Prop where
  current : ∀ connectionId, entry.attachment.currentConnectionId = some connectionId →
    entry.notifications = some connectionId
  attaching : ∀ a ∈ t.attaching, a.sessionId = sessionId → a.phase = .senderSet →
    entry.notifications = some a.connectionId

theorem Notified.frame (h : Notified t sessionId entry)
    (hattaching : ∀ a ∈ t'.attaching, a.sessionId = sessionId → a.phase = .senderSet →
      a ∈ t.attaching) : Notified t' sessionId entry where
  current := h.current
  attaching a ha heq hphase := h.attaching a (hattaching a ha heq hphase) heq hphase

theorem Notified.detach (h : Notified t sessionId entry) (connectionId : ConnectionId)
    (now : Instant) : Notified t sessionId (entry.detach connectionId now).2 := by
  by_cases hcurrent : entry.attachment.currentConnectionId = some connectionId
  · rw [SessionEntry.detach_of_eq hcurrent]
    exact ⟨fun _ heq => (nomatch heq), h.attaching⟩
  · rw [SessionEntry.detach_of_ne hcurrent]
    exact h

/-- One step in time. -/
theorem notified_step {a : Step} (hkeeps : Keeps t)
    (h : ∀ sessionId entry, t.entries.lookup sessionId = some entry →
      Notified t sessionId entry) (htime : ClearsInTime t a) (hstep : Serves t a t')
    (hentry : t'.entries.lookup sessionId = some entry) : Notified t' sessionId entry := by
  have hunlocked (hlock : t'.attaching = none) (h : Notified t sessionId entry) :
      Notified t' sessionId entry := h.frame fun a ha => by
    rw [hlock] at ha
    cases ha
  cases hstep with
  | attachNew hlock =>
    rw [lookup_insert] at hentry
    split at hentry
    · cases hentry
      exact ⟨fun _ heq => heq, fun a ha => by
        rw [show t.attaching = none from hlock] at ha
        cases ha⟩
    · exact hunlocked hlock (h _ _ hentry)
  | attachUnknown hlock _ => exact hunlocked hlock (h _ _ hentry)
  | attachExpired hlock _ _ _ => exact hunlocked hlock (h _ _ hentry)
  | attachResume _ _ _ _ =>
    refine (h _ _ hentry).frame fun a ha _ hphase => ?_
    cases ha
    cases hphase
  | active _ _ _ => exact hunlocked rfl (h _ _ hentry)
  | notActive _ _ _ =>
    refine (h _ _ hentry).frame fun a ha _ hphase => ?_
    cases ha
    cases hphase
  | setSender hlock =>
    obtain ⟨entry', hentry', rfl⟩ := SessionRegistry.lookup_update hentry
    split
    · rename_i heq
      subst heq
      refine ⟨fun connectionId' heq => ?_, fun a ha _ _ => ?_⟩
      · have hnone := (hkeeps.holds _ _ hentry').attaching _ hlock rfl AttachPhase.noConfusion
        cases hnone.symm.trans heq
      · cases ha
        rfl
    · rename_i hne
      refine (h _ _ hentry').frame fun a ha heq _ => ?_
      cases ha
      exact absurd heq.symm hne
  | attach hlock =>
    obtain ⟨entry', hentry', rfl⟩ := SessionRegistry.lookup_update hentry
    split
    · rename_i heq
      subst heq
      refine ⟨fun connectionId' heq => ?_, fun a ha => nomatch ha⟩
      cases heq
      exact (h _ _ hentry').attaching _ hlock rfl rfl
    · exact (h _ _ hentry').frame fun a ha => nomatch ha
  | detach _ =>
    obtain ⟨entry', hentry', rfl⟩ := SessionRegistry.lookup_update hentry
    refine Notified.frame (t := t) ?_ fun _ ha _ _ => ha
    split
    · exact (h _ _ hentry').detach _ _
    · exact h _ _ hentry'
  | clearSender _ =>
    obtain ⟨entry', hentry', rfl⟩ := SessionRegistry.lookup_update hentry
    split
    · rename_i heq
      subst heq
      refine ⟨fun connectionId' heq => ?_, fun a ha heq hphase => ?_⟩
      · cases (htime.1 _ hentry').symm.trans heq
      · exact absurd hphase (htime.2 a ha heq)
    · exact (h _ _ hentry').frame fun _ ha _ _ => ha
  | notExpired hlock _ _ _ => exact hunlocked hlock (h _ _ hentry)
  | expired hlock _ _ _ _ _ => exact hunlocked hlock (h _ _ hentry)
  | shutdown _ =>
    obtain ⟨entry', hentry', rfl⟩ := SessionRegistry.lookup_update hentry
    have hnotified := h _ _ hentry'
    split
    · exact ⟨hnotified.current, hnotified.attaching⟩
    · exact hnotified.frame fun _ ha _ _ => ha
  | sleep => exact (h _ _ hentry).frame fun _ ha _ _ => ha

theorem notified_of_reach (h : (registry.restrict ClearsInTime).Reach t) :
    ∀ sessionId entry, t.entries.lookup sessionId = some entry → Notified t sessionId entry := by
  induction h with
  | init hinit =>
    rw [hinit]
    exact fun _ _ hentry => nomatch hentry
  | step hreach hstep ih =>
    exact fun _ _ hentry =>
      notified_step (Keeps.of_reach hreach.of_restrict) ih hstep.1 hstep.2 hentry

/-! ## Attached connections -/

/-- At most one connection is attached to a session, and the session is then not shut down. -/
structure Exclusive (t : SessionRegistry) : Prop where
  one : ∀ sessionId connectionId connectionId', (sessionId, connectionId) ∈ t.attached →
    (sessionId, connectionId') ∈ t.attached → connectionId = connectionId'
  alive : ∀ sessionId connectionId, (sessionId, connectionId) ∈ t.attached →
    ∃ entry, t.entries.lookup sessionId = some entry ∧ ¬ entry.isShutdown

/-- An attached connection is notified, unless a resume of the session is under way. -/
def NotifiesAttached (t : SessionRegistry) : Prop :=
  ∀ sessionId connectionId, (sessionId, connectionId) ∈ t.attached →
    (∀ a ∈ t.attaching, a.sessionId ≠ sessionId) →
      ∃ entry, t.entries.lookup sessionId = some entry ∧ entry.notifications = some connectionId

theorem Keeps.entry_of_attached (h : Keeps t) (hmem : (sessionId, connectionId) ∈ t.attached) :
    ∃ entry, t.entries.lookup sessionId = some entry ∧
      entry.attachment.currentConnectionId = some connectionId := by
  obtain ⟨entry, hentry⟩ :=
    Option.isSome_iff_exists.1 (AList.lookup_isSome.2 (h.attached _ _ hmem))
  exact ⟨entry, hentry, ((h.holds _ _ hentry).current _).1 hmem⟩

theorem Keeps.exclusive (h : Keeps t) : Exclusive t where
  one sessionId connectionId connectionId' hmem hmem' := by
    obtain ⟨entry, hentry, hcurrent⟩ := h.entry_of_attached hmem
    have hcurrent' := ((h.holds _ _ hentry).current _).1 hmem'
    exact Option.some.inj (hcurrent.symm.trans hcurrent')
  alive sessionId connectionId hmem := by
    obtain ⟨entry, hentry, hcurrent⟩ := h.entry_of_attached hmem
    have hholds := h.holds _ _ hentry
    refine ⟨entry, hentry, fun hshutdown => hholds.closed hshutdown (hholds.registered ?_)⟩
    rw [hcurrent]
    exact Option.some_ne_none connectionId

/-- In every interleaving at most one connection is attached to a session, which is not shut down
meanwhile. The session notifies it if no detach clears the sender late. -/
theorem attached_exclusively (t : SessionRegistry) :
    (registry.Reach t → Exclusive t) ∧
      ((registry.restrict ClearsInTime).Reach t → NotifiesAttached t) := by
  refine ⟨fun h => (Keeps.of_reach h).exclusive, fun h sessionId connectionId hmem _ => ?_⟩
  obtain ⟨entry, hentry, hcurrent⟩ := (Keeps.of_reach h.of_restrict).entry_of_attached hmem
  exact ⟨entry, hentry, (notified_of_reach h _ _ hentry).current _ hcurrent⟩

end

/-! ## A detach overtaken by a resume -/

/-- A registry with one session. -/
def oneSession (uuids : Nat) (entry : SessionEntry) (attaching : Option Attaching)
    (detaching : List (SessionId × ConnectionId)) (attached : Finset (SessionId × ConnectionId)) :
    SessionRegistry where
  now := 0
  uuids := uuids
  sessions := {1}
  entries := (∅ : Keyed SessionId SessionEntry).insert 1 entry
  attaching := attaching
  detaching := detaching
  expiring := []
  removed := []
  attached := attached

/-- Connection 0 has cleared the attachment but not the sender, and connection 2 has resumed the
session. -/
def overtaken : SessionRegistry :=
  oneSession 3 ⟨⟨some 2, none, none⟩, some 2, false⟩ none [(1, 0)] {(1, 2)}

theorem overtaken_reach : (registry.restrict ClearsInTime).Reach overtaken := by
  let detached : SessionEntry := ⟨⟨none, some 0, some detachedSessionTtl⟩, some 0, false⟩
  let notified : SessionEntry := ⟨⟨none, some 0, some detachedSessionTtl⟩, some 2, false⟩
  have hnew : Serves .new .attachNew (oneSession 2 (.new 0) none [] {(1, 0)}) := .attachNew rfl
  have hdetach : Serves (oneSession 2 (.new 0) none [] {(1, 0)}) (.detach 1 0)
      (oneSession 2 detached none [(1, 0)] ∅) := @Serves.detach _ 1 0 (.new 0) rfl
  have hresume : Serves (oneSession 2 detached none [(1, 0)] ∅) (.attachResume 1)
      (oneSession 3 detached (some ⟨1, 2, .notExpired⟩) [(1, 0)] ∅) :=
    .attachResume rfl (by decide) rfl (by decide)
  have hactive : Serves (oneSession 3 detached (some ⟨1, 2, .notExpired⟩) [(1, 0)] ∅) .checkActive
      (oneSession 3 detached (some ⟨1, 2, .noActiveConnection⟩) [(1, 0)] ∅) :=
    .notActive rfl rfl (by decide)
  have hsender : Serves (oneSession 3 detached (some ⟨1, 2, .noActiveConnection⟩) [(1, 0)] ∅)
      .setSender (oneSession 3 notified (some ⟨1, 2, .senderSet⟩) [(1, 0)] ∅) :=
    @Serves.setSender _ 1 2 rfl
  have hattach : Serves (oneSession 3 notified (some ⟨1, 2, .senderSet⟩) [(1, 0)] ∅) .attach
      overtaken := @Serves.attach _ 1 2 rfl
  have hopened : (registry.restrict ClearsInTime).Reach (oneSession 2 (.new 0) none [] {(1, 0)}) :=
    .step_restrict (.init rfl) hnew trivial
  exact ((((hopened.step_restrict hdetach trivial).step_restrict hresume trivial).step_restrict
    hactive trivial).step_restrict hsender trivial).step_restrict hattach trivial

theorem attached_exclusively_overtaken : Exclusive overtaken ∧ NotifiesAttached overtaken :=
  ⟨(attached_exclusively overtaken).1 overtaken_reach.of_restrict,
    (attached_exclusively overtaken).2 overtaken_reach⟩

/-- The second step of the detach then takes the sender from the connection that resumed. -/
theorem sender_lost : ¬ ∀ t, registry.Reach t → Exclusive t ∧ NotifiesAttached t := by
  intro h
  have hclear : Serves overtaken (.clearSender 1 0)
      { oneSession 3 ⟨⟨some 2, none, none⟩, none, false⟩ none [] {(1, 2)} with
        expiring := [(1, 0, detachedSessionTtl)] } := .clearSender (by decide)
  obtain ⟨entry, hentry, hnotifications⟩ :=
    (h _ (overtaken_reach.of_restrict.step hclear)).2 1 2 (by decide) fun _ ha => nomatch ha
  cases hentry
  cases hnotifications

end Mcodex.ExecServer
