import Mcodex.Lib.Retention

/-!
# Replay logs

A log retains its newest elements and hands them, together with everything published later, to who
subscribes. A receiver first drains what was retained, and then follows the live channel, which
holds a bounded number of elements: a receiver that falls further behind has lagged.
-/

namespace Mcodex.ReplayLog

open Retention

universe u

/-- A receiver; `retained` is what the log retained when it subscribed, and `received` what it
received since. -/
structure Receiver (α : Type u) where
  retained : List α
  replay : List α
  position : Nat
  lagged : Bool
  received : List α

/-- A log, with everything that was published. -/
structure Log (α : Type u) where
  history : List α
  retainedSize : Nat
  published : List α
  receivers : List (Receiver α)

section
variable {α : Type u} (size : α → Nat) (exceeds : Nat → Nat → Bool)

namespace Log

def new : Log α := ⟨[], 0, [], []⟩

def publish (t : Log α) (a : α) : Log α :=
  let kept := retain size exceeds (t.history ++ [a]) (t.retainedSize + size a)
  { t with
    history := kept.1
    retainedSize := kept.2
    published := t.published ++ [a] }

def subscribe (t : Log α) : Log α :=
  { t with
    receivers := t.receivers ++ [⟨t.history, t.history, t.published.length, false, []⟩] }

end Log

/-- What receivers do, with a live channel of a capacity. -/
inductive Reads (capacity : Nat) : Log α → Log α → Prop
  | subscribe {t} : Reads capacity t t.subscribe
  | replay {t before after receiver a rest}
    (hreceivers : t.receivers = before ++ receiver :: after)
    (hreplay : receiver.replay = a :: rest) :
    Reads capacity t { t with
      receivers := before ++
        { receiver with replay := rest, received := receiver.received ++ [a] } :: after }
  | live {t before after receiver a} (hreceivers : t.receivers = before ++ receiver :: after)
    (hreplay : receiver.replay = []) (hnext : t.published[receiver.position]? = some a)
    (hfew : t.published.length ≤ receiver.position + capacity) :
    Reads capacity t { t with
      receivers := before ++
        { receiver with
          position := receiver.position + 1, received := receiver.received ++ [a] } :: after }
  | lag {t before after receiver} (hreceivers : t.receivers = before ++ receiver :: after)
    (hreplay : receiver.replay = [])
    (hmany : receiver.position + capacity < t.published.length) :
    Reads capacity t { t with
      receivers := before ++
        { receiver with position := t.published.length - capacity, lagged := true } :: after }

/-- A receiver that never lagged has received, and is about to replay, what was retained and the
first elements published since, up to its position. -/
def Receiver.Follows (receiver : Receiver α) (published : List α) : Prop :=
  ∃ before later count, published = before ++ receiver.retained ++ later ∧ count ≤ later.length ∧
    receiver.received ++ receiver.replay = receiver.retained ++ later.take count ∧
    receiver.position = (before ++ receiver.retained).length + count ∧
    (receiver.replay ≠ [] → count = 0)

/-- What logs keep. -/
structure Log.Replays (t : Log α) : Prop where
  history : t.history <:+ t.published
  receivers : ∀ receiver ∈ t.receivers, ¬ receiver.lagged → receiver.Follows t.published

variable {size exceeds} {t t' : Log α} {receiver : Receiver α}

/-- Receivers publish nothing. -/
theorem Reads.published_eq {capacity : Nat} (h : Reads capacity t t') :
    t'.published = t.published := by
  cases h <;> rfl

theorem Receiver.Follows.publish (h : receiver.Follows t.published) (a : α) :
    receiver.Follows (t.published ++ [a]) := by
  obtain ⟨before, later, count, hpublished, hcount, hreceived, hposition, hreplay⟩ := h
  refine ⟨before, later ++ [a], count, ?_, ?_, ?_, hposition, hreplay⟩
  · rw [hpublished, List.append_assoc _ later]
  · rw [List.length_append]
    omega
  · rw [List.take_append_of_le_length hcount]
    exact hreceived

namespace Log.Replays

theorem new : (new : Log α).Replays where
  history := List.suffix_refl _
  receivers _ hmem := nomatch hmem

theorem publish (h : t.Replays) (a : α) : (t.publish size exceeds a).Replays where
  history := retain_suffix.trans <| by
    obtain ⟨before, hbefore⟩ := h.history
    exact ⟨before, by rw [← List.append_assoc, hbefore]; rfl⟩
  receivers receiver hmem hlagged := (h.receivers receiver hmem hlagged).publish a

theorem set (h : t.Replays) {before after : List (Receiver α)} {receiver' : Receiver α}
    (hreceivers : t.receivers = before ++ receiver :: after)
    (hfollows : ¬ receiver'.lagged → receiver'.Follows t.published) :
    Log.Replays { t with receivers := before ++ receiver' :: after } where
  history := h.history
  receivers receiver'' hmem hlagged := by
    rcases List.mem_append.1 hmem with hmem | hmem
    · refine h.receivers receiver'' ?_ hlagged
      rw [hreceivers]
      exact List.mem_append_left _ hmem
    · rcases List.mem_cons.1 hmem with rfl | hmem
      · exact hfollows hlagged
      · refine h.receivers receiver'' ?_ hlagged
        rw [hreceivers]
        exact List.mem_append_right _ (List.mem_cons_of_mem _ hmem)

theorem reads {capacity : Nat} (h : t.Replays) (hreads : Reads capacity t t') : t'.Replays := by
  cases hreads with
  | subscribe =>
    refine ⟨h.history, fun receiver hmem hlagged => ?_⟩
    rcases List.mem_append.1 hmem with hmem | hmem
    · exact h.receivers receiver hmem hlagged
    · obtain ⟨before, hbefore⟩ := h.history
      rw [List.mem_singleton.1 hmem]
      exact ⟨before, [], 0, by rw [List.append_nil]; exact hbefore.symm, Nat.le_refl 0, by simp,
        by rw [hbefore]; rfl, fun _ => rfl⟩
  | replay hreceivers hreplay =>
    rename_i before after receiver a rest
    refine h.set hreceivers fun hlagged => ?_
    obtain ⟨front, later, count, hpublished, hcount, hreceived, hposition, hzero⟩ :=
      h.receivers receiver (by rw [hreceivers]; simp) hlagged
    refine ⟨front, later, count, hpublished, hcount, ?_, hposition, fun _ => hzero ?_⟩
    · rw [← hreceived, hreplay, List.append_assoc]
      rfl
    · rw [hreplay]
      exact List.cons_ne_nil _ _
  | live hreceivers hreplay hnext hfew =>
    rename_i before after receiver a
    refine h.set hreceivers fun hlagged => ?_
    obtain ⟨front, later, count, hpublished, hcount, hreceived, hposition, -⟩ :=
      h.receivers receiver (by rw [hreceivers]; simp) hlagged
    have hlater : later[count]? = some a := by
      rw [← hnext, hposition, hpublished, List.getElem?_append_right (Nat.le_add_right _ _),
        Nat.add_sub_cancel_left]
    obtain ⟨hlt, -⟩ := List.getElem?_eq_some_iff.1 hlater
    refine ⟨front, later, count + 1, hpublished, hlt, ?_, ?_, fun hne => absurd hreplay hne⟩
    · show (receiver.received ++ [a]) ++ receiver.replay = _
      rw [hreplay, List.append_nil] at hreceived ⊢
      rw [hreceived, List.take_add_one, hlater, List.append_assoc]
      rfl
    · show receiver.position + 1 = _
      rw [hposition, Nat.add_assoc]
  | lag hreceivers _ _ => exact h.set hreceivers fun hlagged => absurd rfl hlagged

/-- **Contiguity.** A receiver that never lagged has received, in order, what was retained when it
subscribed and what was published since, as far as it got. -/
theorem received_prefix (h : t.Replays) (hmem : receiver ∈ t.receivers)
    (hlagged : ¬ receiver.lagged) : ∃ before later,
      t.published = before ++ receiver.retained ++ later ∧
        receiver.received <+: receiver.retained ++ later := by
  obtain ⟨before, later, count, hpublished, -, hreceived, -, -⟩ :=
    h.receivers receiver hmem hlagged
  refine ⟨before, later, hpublished, (List.prefix_append _ receiver.replay).trans ?_⟩
  rw [hreceived]
  exact (List.prefix_append_right_inj _).2 (List.take_prefix count later)

end Log.Replays

end

end Mcodex.ReplayLog
