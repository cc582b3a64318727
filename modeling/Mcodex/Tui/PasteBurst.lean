import Mathlib.Algebra.Ring.Nat
import Mcodex.Lib.Text

/-!
# Paste bursts

A terminal without bracketed paste delivers a paste as a fast stream of keys. `PasteBurst` tells it
from typing: a first character is held for a moment (`pending_first_char`), a burst goes into a
buffer, and what was typed into the text area before the burst was noticed is grabbed back. This
module has the detector. It does not see the text area: `Tui.ChatComposer` does what it decides.

Times are nanoseconds on the clock of `Instant`, where a difference is never below zero.
-/

namespace Mcodex.Tui

open Text

/-- `Duration::from_millis`. -/
def fromMillis (ms : Nat) : Nat := ms * 1000000

/-- What `cfg(windows)` tells apart. -/
inductive Platform
  | windows
  | notWindows
  deriving DecidableEq

/-- `PASTE_BURST_CHAR_INTERVAL`. -/
def pasteBurstCharInterval : Platform → Nat
  | .windows => fromMillis 30
  | .notWindows => fromMillis 8

/-- `PASTE_BURST_ACTIVE_IDLE_TIMEOUT`. -/
def pasteBurstActiveIdleTimeout : Platform → Nat
  | .windows => fromMillis 60
  | .notWindows => fromMillis 8

/-- `PASTE_ENTER_SUPPRESS_WINDOW`. -/
def pasteEnterSuppressWindow : Nat := fromMillis 120

/-- `PASTE_BURST_MIN_CHARS`. -/
def pasteBurstMinChars : Nat := 3

/-- `PasteBurst`, as `Default` makes it. -/
structure PasteBurst where
  lastPlainCharTime : Option Nat := none
  /-- A `u16`. -/
  consecutivePlainCharBurst : Nat := 0
  burstWindowUntil : Option Nat := none
  buffer : List Char := []
  active : Bool := false
  pendingFirstChar : Option (Char × Nat) := none
  deriving DecidableEq

/-- `CharDecision`. -/
inductive CharDecision
  | beginBuffer (retroChars : Nat)
  | bufferAppend
  | retainFirstChar
  | beginBufferFromPending
  deriving DecidableEq

/-- `RetroGrab`. The start counts characters. -/
structure RetroGrab where
  start : Nat
  grabbed : List Char
  deriving DecidableEq

/-- `FlushResult`. -/
inductive FlushResult
  | paste (pasted : List Char)
  | typed (ch : Char)
  | none
  deriving DecidableEq

/-- `u16::saturating_add`. -/
def saturatingAddU16 (n m : Nat) : Nat := min (n + m) (2 ^ 16 - 1)

/-- `retro_start_index`: where the last `retroChars` characters of the text start. -/
def retroStartIndex (before : List Char) (retroChars : Nat) : Nat :=
  if retroChars = 0 then before.length
  else ((List.range before.length).reverse[retroChars - 1]?).getD 0

namespace PasteBurst

/-- The character that `pending_first_char` holds. -/
def held (b : PasteBurst) : List Char := (b.pendingFirstChar.map Prod.fst).toList

/-- `is_active_internal`. -/
def isActiveInternal (b : PasteBurst) : Bool := b.active || !b.buffer.isEmpty

/-- `is_active`. -/
def isActive (b : PasteBurst) : Bool := b.isActiveInternal || b.pendingFirstChar.isSome

/-- `note_plain_char`. -/
def notePlainChar (platform : Platform) (b : PasteBurst) (now : Nat) : PasteBurst :=
  { b with
    consecutivePlainCharBurst :=
      match b.lastPlainCharTime with
      | some prev =>
        if now - prev ≤ pasteBurstCharInterval platform then
          saturatingAddU16 b.consecutivePlainCharBurst 1
        else 1
      | none => 1
    lastPlainCharTime := some now }

/-- `extend_window`. -/
def extendWindow (b : PasteBurst) (now : Nat) : PasteBurst :=
  { b with burstWindowUntil := some (now + pasteEnterSuppressWindow) }

/-- The last test of `on_plain_char` and `on_plain_char_no_hold`. -/
def retroChars? (b : PasteBurst) : Option Nat :=
  if pasteBurstMinChars ≤ b.consecutivePlainCharBurst then some (b.consecutivePlainCharBurst - 1)
  else none

/-- `on_plain_char`. -/
def onPlainChar (platform : Platform) (b : PasteBurst) (ch : Char) (now : Nat) :
    PasteBurst × CharDecision :=
  let b := b.notePlainChar platform now
  if b.active then (b.extendWindow now, .bufferAppend)
  else
    match b.pendingFirstChar.filter fun held => now - held.2 ≤ pasteBurstCharInterval platform with
    | some (held, _) =>
      ({ b with
          active := true
          pendingFirstChar := none
          buffer := b.buffer ++ [held] }.extendWindow now, .beginBufferFromPending)
    | none =>
      match b.retroChars? with
      | some retroChars => (b, .beginBuffer retroChars)
      | none => ({ b with pendingFirstChar := some (ch, now) }, .retainFirstChar)

/-- `on_plain_char_no_hold`. -/
def onPlainCharNoHold (platform : Platform) (b : PasteBurst) (now : Nat) :
    PasteBurst × Option CharDecision :=
  let b := b.notePlainChar platform now
  if b.active then (b.extendWindow now, some .bufferAppend)
  else (b, b.retroChars?.map .beginBuffer)

/-- `timed_out` in `flush_if_due`. -/
def timedOut (platform : Platform) (b : PasteBurst) (now : Nat) : Bool :=
  let timeout :=
    if b.isActiveInternal then pasteBurstActiveIdleTimeout platform
    else pasteBurstCharInterval platform
  b.lastPlainCharTime.any fun t => timeout < now - t

/-- `flush_if_due`. -/
def flushIfDue (platform : Platform) (b : PasteBurst) (now : Nat) : PasteBurst × FlushResult :=
  if b.timedOut platform now && b.isActiveInternal then
    ({ b with active := false, buffer := [] }, .paste b.buffer)
  else if b.timedOut platform now then
    match b.pendingFirstChar with
    | some (ch, _) => ({ b with pendingFirstChar := none }, .typed ch)
    | none => (b, .none)
  else (b, .none)

/-- `append_newline_if_active`. -/
def appendNewlineIfActive (b : PasteBurst) (now : Nat) : PasteBurst × Bool :=
  if b.isActive then ({ b with buffer := b.buffer ++ ['\n'] }.extendWindow now, true)
  else (b, false)

/-- `newline_should_insert_instead_of_submit`. -/
def newlineShouldInsertInsteadOfSubmit (b : PasteBurst) (now : Nat) : Bool :=
  b.isActive || b.burstWindowUntil.any fun limit => now ≤ limit

/-- `begin_with_retro_grabbed`. -/
def beginWithRetroGrabbed (b : PasteBurst) (grabbed : List Char) (now : Nat) : PasteBurst :=
  { b with buffer := b.buffer ++ grabbed, active := true }.extendWindow now

/-- `append_char_to_buffer`. -/
def appendCharToBuffer (b : PasteBurst) (ch : Char) (now : Nat) : PasteBurst :=
  { b with buffer := b.buffer ++ [ch] }.extendWindow now

/-- `try_append_char_if_active`. -/
def tryAppendCharIfActive (b : PasteBurst) (ch : Char) (now : Nat) : PasteBurst × Bool :=
  if b.active || !b.buffer.isEmpty then (b.appendCharToBuffer ch now, true) else (b, false)

/-- `decide_begin_buffer`. -/
def decideBeginBuffer (b : PasteBurst) (now : Nat) (before : List Char) (retroChars : Nat) :
    PasteBurst × Option RetroGrab :=
  let start := retroStartIndex before retroChars
  let grabbed := before.drop start
  let looksPastey := grabbed.any isWhitespace || 16 ≤ grabbed.length
  if looksPastey then (b.beginWithRetroGrabbed grabbed now, some ⟨start, grabbed⟩) else (b, none)

/-- `flush_before_modified_input`. -/
def flushBeforeModifiedInput (b : PasteBurst) : PasteBurst × Option (List Char) :=
  if !b.isActive then (b, none)
  else
    ({ b with active := false, buffer := [], pendingFirstChar := none },
      some (b.buffer ++ b.held))

/-- `clear_window_after_non_char`. -/
def clearWindowAfterNonChar (b : PasteBurst) : PasteBurst :=
  { b with
    consecutivePlainCharBurst := 0
    lastPlainCharTime := none
    burstWindowUntil := none
    active := false
    pendingFirstChar := none }

/-- `clear_after_explicit_paste`. -/
def clearAfterExplicitPaste (b : PasteBurst) : PasteBurst :=
  { b with
    lastPlainCharTime := none
    consecutivePlainCharBurst := 0
    burstWindowUntil := none
    active := false
    buffer := []
    pendingFirstChar := none }

/-! ## What the detector decides -/

/-- Nothing is buffered or held. -/
structure Settled (b : PasteBurst) : Prop where
  active : b.active = false
  buffer : b.buffer = []
  pending : b.pendingFirstChar = none

/-- There is a buffer in a burst only, and a character is held outside bursts only, since the last
plain character. -/
structure Sound (b : PasteBurst) : Prop where
  quiet : b.active = false → b.buffer = []
  pending : ∀ {ch since}, b.pendingFirstChar = some (ch, since) →
    b.active = false ∧ b.lastPlainCharTime = some since

section
variable {platform : Platform} {b : PasteBurst} {now since : Nat} {ch : Char}

theorem held_eq_nil (h : b.pendingFirstChar = none) : b.held = [] := by rw [held, h]; rfl

theorem held_eq_singleton (h : b.pendingFirstChar = some (ch, since)) : b.held = [ch] := by
  rw [held, h]
  rfl

theorem Settled.sound (h : b.Settled) : b.Sound :=
  ⟨fun _ => h.buffer, fun hpending => by rw [h.pending] at hpending; cases hpending⟩

theorem Sound.held_of_active (h : b.Sound) (hactive : b.active = true) :
    b.pendingFirstChar = none := by
  cases hpending : b.pendingFirstChar with
  | none => rfl
  | some held =>
    have hquiet := (h.pending hpending).1
    rw [hactive] at hquiet
    cases hquiet

theorem Sound.isActiveInternal_eq (h : b.Sound) : b.isActiveInternal = b.active := by
  cases hactive : b.active with
  | true => rw [isActiveInternal, hactive, Bool.true_or]
  | false =>
    rw [isActiveInternal, hactive, h.quiet hactive]
    rfl

theorem isActive_eq_false (h : b.Sound) : b.isActive = false ↔ b.Settled := by
  rw [isActive, h.isActiveInternal_eq, Bool.or_eq_false_iff]
  constructor
  · rintro ⟨hactive, hpending⟩
    exact ⟨hactive, h.quiet hactive,
      Option.isNone_iff_eq_none.1 (Option.isSome_eq_false_iff.1 hpending)⟩
  · rintro ⟨hactive, -, hpending⟩
    rw [hactive, hpending]
    exact ⟨rfl, rfl⟩

theorem appendNewlineIfActive_of_isActive (h : b.isActive = true) :
    b.appendNewlineIfActive now = (b.appendCharToBuffer '\n' now, true) := if_pos h

theorem Settled.clearWindowAfterNonChar_eq (h : b.Settled) : b.clearWindowAfterNonChar = {} := by
  rw [clearWindowAfterNonChar, h.buffer]

theorem consecutive_notePlainChar_le (platform : Platform) (b : PasteBurst) (now : Nat) :
    (b.notePlainChar platform now).consecutivePlainCharBurst ≤ b.consecutivePlainCharBurst + 1 := by
  simp only [notePlainChar, saturatingAddU16]
  split
  · split
    · exact Nat.min_le_left _ _
    · exact Nat.le_add_left _ _
  · exact Nat.le_add_left _ _

theorem retroChars?_eq_some {retroChars : Nat} (h : b.retroChars? = some retroChars) :
    b.consecutivePlainCharBurst = retroChars + 1 := by
  obtain ⟨hmin, hretro⟩ := Option.ite_none_right_eq_some.1 h
  rw [pasteBurstMinChars] at hmin
  cases hretro
  omega

/-- What `on_plain_char` makes of a detector whose held character, if any, is recent. -/
inductive Decides (platform : Platform) (b : PasteBurst) (ch : Char) (now : Nat) :
    PasteBurst × CharDecision → Prop
  | append {b' decision}
      (hdecision : decision = .bufferAppend ∨ decision = .beginBufferFromPending)
      (hactive : b'.active = true) (hbuffer : b'.buffer = b.buffer ++ b.held)
      (hpending : b'.pendingFirstChar = none) : Decides platform b ch now (b', decision)
  | begin {retroChars} (hb : b.Settled)
      (hcount : (b.notePlainChar platform now).consecutivePlainCharBurst = retroChars + 1) :
      Decides platform b ch now (b.notePlainChar platform now, .beginBuffer retroChars)
  | retain (hb : b.Settled) :
      Decides platform b ch now
        ({ b.notePlainChar platform now with pendingFirstChar := some (ch, now) },
          .retainFirstChar)

theorem onPlainChar_decides (hb : b.Sound) (hdue : ∀ {held since},
    b.pendingFirstChar = some (held, since) → now - since ≤ pasteBurstCharInterval platform) :
    Decides platform b ch now (b.onPlainChar platform ch now) := by
  unfold onPlainChar
  dsimp only
  split
  · next hactive =>
    have hpending : b.pendingFirstChar = none := hb.held_of_active hactive
    exact .append (.inl rfl) hactive (by rw [held_eq_nil hpending, List.append_nil]; rfl) hpending
  · next hactive =>
    have hquiet : b.active = false := Bool.eq_false_iff.2 hactive
    cases hpending : b.pendingFirstChar with
    | some held =>
      have hrecent := hdue hpending
      simp only [notePlainChar, hpending, Option.filter, hrecent, decide_true, if_true]
      exact .append (.inr rfl) rfl (by rw [held_eq_singleton hpending]; rfl) rfl
    | none =>
      have hsettled : b.Settled := ⟨hquiet, hb.quiet hquiet, hpending⟩
      have hnone : (b.notePlainChar platform now).pendingFirstChar = none := hpending
      rw [hnone, Option.filter_none]
      dsimp only
      split
      · next h => exact .begin hsettled (retroChars?_eq_some h)
      · exact .retain hsettled

theorem Settled.notePlainChar (hb : b.Settled) : (b.notePlainChar platform now).Settled :=
  ⟨hb.active, hb.buffer, hb.pending⟩

/-- Without a hold, a settled detector stays settled. -/
theorem onPlainCharNoHold_cases (platform : Platform) (now : Nat) (hb : b.Settled) :
    b.onPlainCharNoHold platform now = (b.notePlainChar platform now, none) ∨
    ∃ retroChars,
      b.onPlainCharNoHold platform now =
        (b.notePlainChar platform now, some (.beginBuffer retroChars)) ∧
      (b.notePlainChar platform now).consecutivePlainCharBurst = retroChars + 1 := by
  have hactive : (b.notePlainChar platform now).active = false := hb.active
  simp only [onPlainCharNoHold, hactive]
  cases hretro : (b.notePlainChar platform now).retroChars? with
  | none => exact .inl rfl
  | some retroChars => exact .inr ⟨retroChars, rfl, retroChars?_eq_some hretro⟩

/-- A due flush gives out the burst or the held character; else nothing changes, and what is held is
recent. -/
theorem flushIfDue_cases (hb : b.Sound) (platform : Platform) (now : Nat) :
    (b.active = true ∧
      b.flushIfDue platform now = ({ b with active := false, buffer := [] }, .paste b.buffer)) ∨
    (∃ ch since, b.pendingFirstChar = some (ch, since) ∧
      b.flushIfDue platform now = ({ b with pendingFirstChar := none }, .typed ch)) ∨
    (b.flushIfDue platform now = (b, .none) ∧ ∀ {ch since},
      b.pendingFirstChar = some (ch, since) →
      b.timedOut platform now = false ∧ now - since ≤ pasteBurstCharInterval platform) := by
  rw [flushIfDue, hb.isActiveInternal_eq]
  cases hdue : b.timedOut platform now with
  | true =>
    cases hactive : b.active with
    | true => exact .inl ⟨rfl, rfl⟩
    | false =>
      cases hpending : b.pendingFirstChar with
      | none => exact .inr (.inr ⟨rfl, nofun⟩)
      | some held => exact .inr (.inl ⟨held.1, held.2, rfl, rfl⟩)
  | false =>
    refine .inr (.inr ⟨rfl, fun hpending => ⟨rfl, ?_⟩⟩)
    obtain ⟨hactive, hlast⟩ := hb.pending hpending
    rw [timedOut, hb.isActiveInternal_eq, hactive, hlast] at hdue
    exact Nat.le_of_not_lt (of_decide_eq_false hdue)

theorem flushBeforeModifiedInput_cases (hb : b.Sound) :
    (b.Settled ∧ b.flushBeforeModifiedInput = (b, none)) ∨
    ∃ b', b.flushBeforeModifiedInput = (b', some (b.buffer ++ b.held)) := by
  cases hactive : b.isActive with
  | false =>
    refine .inl ⟨(isActive_eq_false hb).1 hactive, ?_⟩
    rw [flushBeforeModifiedInput, hactive]
    rfl
  | true =>
    exact .inr ⟨{ b with active := false, buffer := [], pendingFirstChar := none }, by
      rw [flushBeforeModifiedInput, hactive]
      rfl⟩

end

end PasteBurst

theorem retroStartIndex_eq (before : List Char) (retroChars : Nat) :
    retroStartIndex before retroChars = before.length - retroChars := by
  rw [retroStartIndex]
  split
  · next h => rw [h, Nat.sub_zero]
  · next h =>
    by_cases hlt : retroChars - 1 < before.length
    · rw [List.getElem?_reverse (by rwa [List.length_range]), List.length_range,
        List.getElem?_range (by omega), Option.getD_some]
      omega
    · rw [List.getElem?_eq_none (by rw [List.length_reverse, List.length_range]; omega)]
      simp only [Option.getD_none]
      omega

end Mcodex.Tui
