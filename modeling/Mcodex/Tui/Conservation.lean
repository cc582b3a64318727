import Mcodex.Tui.ChatComposer

/-!
# Paste bursts conserve what is typed

The text area, with the pasted blocks counted as their text, the burst buffer and the held
character are together what was typed (`contents`), in the order in which it was typed. One event
breaks that: an Enter while a character is held. The newline goes into the buffer, which stands
before the held character, and the next flush of the buffer forgets that character.
`conserves_iff` says that in a run where no Enter comes while a character is held every state
conserves the text, and in no other. The times need not even be in order.
-/

namespace Mcodex.Tui

open Text Replacement

/-- No command and no bash mode: the text does not start with a slash or an exclamation mark. -/
def PlainStart (text : List Char) : Prop := ∀ c ∈ text.head?, c ≠ '!' ∧ c ≠ '/'

/-- The last pieces are at least `n` characters, none of them a carriage return. -/
def EndsPlain (n : Nat) (textarea : List Piece) : Prop :=
  ∃ (older : List Piece) (recent : List Char),
    textarea = older ++ recent.map .char ∧ '\r' ∉ recent ∧ n ≤ recent.length

/-- What was typed and is not lost: the text area, the buffer and the held character. -/
def ChatComposer.contents (s : ChatComposer) : List Char :=
  fullText s.textarea ++ s.pasteBurst.buffer ++ s.pasteBurst.held

section
variable {setup : Setup} {isImage : List Char → Bool} {s s' : ChatComposer} {text : List Char}
  {textarea : List Piece} {ch : Char} {now n m : Nat}

/-! ## Texts and pieces -/

theorem PlainStart.of_append {rest : List Char} (h : PlainStart (text ++ rest)) :
    PlainStart text := by
  cases text with
  | nil => exact nofun
  | cons c text => exact h

/-- What is not a character shows a label or a blank. -/
theorem Piece.head_shown (piece : Piece) : (∃ c, piece = .char c) ∨
    piece.shown.head? = some '[' ∨ piece.shown.head? = some ' ' := by
  cases piece with
  | char c => exact .inl ⟨c, rfl⟩
  | paste charCount suffix text =>
    rw [shown, largePastePlaceholder]
    split
    · exact .inr (.inl rfl)
    · exact .inr (.inl rfl)
  | image number path => exact .inr (.inl rfl)
  | imageBlank => exact .inr (.inr rfl)

theorem plainStart_shownText (h : PlainStart (fullText textarea)) :
    PlainStart (shownText textarea) := by
  cases textarea with
  | nil => exact nofun
  | cons piece textarea =>
    intro c hc
    rw [shownText, List.flatMap_cons, List.head?_append] at hc
    rcases piece.head_shown with ⟨first, rfl⟩ | hhead | hhead
    · exact h c hc
    · rw [hhead] at hc
      cases hc
      decide
    · rw [hhead] at hc
      cases hc
      decide

@[simp] theorem fullText_append (older newer : List Piece) :
    fullText (older ++ newer) = fullText older ++ fullText newer := List.flatMap_append

@[simp] theorem fullText_chars (text : List Char) : fullText (text.map Piece.char) = text := by
  induction text with
  | nil => rfl
  | cons c text ih => rw [List.map_cons, fullText, List.flatMap_cons, ← fullText, ih]; rfl

@[simp] theorem shownText_append (older newer : List Piece) :
    shownText (older ++ newer) = shownText older ++ shownText newer := List.flatMap_append

@[simp] theorem shownText_chars (text : List Char) : shownText (text.map Piece.char) = text := by
  induction text with
  | nil => rfl
  | cons c text ih => rw [List.map_cons, shownText, List.flatMap_cons, ← shownText, ih]; rfl

theorem removeFrom_chars (start : Nat) (text : List Char) :
    removeFrom start (text.map .char) = (text.take start).map .char := by
  induction text generalizing start with
  | nil => rw [List.take_nil]; rfl
  | cons c text ih =>
    cases start with
    | zero => rfl
    | succ start =>
      have hshown : (Piece.char c).shown.length ≤ start + 1 := Nat.le_add_left _ _
      rw [List.map_cons, removeFrom, if_pos hshown, List.take_succ_cons, List.map_cons, ← ih]
      rfl

/-- Removing a stretch of characters at the end leaves the pieces before it. -/
theorem removeFrom_append (older : List Piece) (text : List Char) :
    removeFrom ((shownText older).length + n) (older ++ text.map .char) =
      older ++ (text.take n).map .char := by
  induction older with
  | nil =>
    rw [List.nil_append, List.nil_append, ← removeFrom_chars]
    exact congrArg (removeFrom · _) (Nat.zero_add n)
  | cons piece older ih =>
    have hlen : (shownText (piece :: older)).length + n =
        piece.shown.length + ((shownText older).length + n) := by
      rw [shownText, List.flatMap_cons, List.length_append, ← shownText, Nat.add_assoc]
    rw [hlen, List.cons_append, removeFrom, if_pos (Nat.le_add_right _ _),
      Nat.add_sub_cancel_left, ih, List.cons_append]

theorem EndsPlain.zero (textarea : List Piece) : EndsPlain 0 textarea :=
  ⟨textarea, [], (List.append_nil _).symm, List.not_mem_nil, Nat.le_refl _⟩

theorem EndsPlain.mono (h : EndsPlain n textarea) (hm : m ≤ n) : EndsPlain m textarea := by
  obtain ⟨older, recent, htext, hcr, hn⟩ := h
  exact ⟨older, recent, htext, hcr, hm.trans hn⟩

theorem EndsPlain.append_char (h : EndsPlain n textarea) (hch : ch ≠ '\r') :
    EndsPlain (n + 1) (textarea ++ [.char ch]) := by
  obtain ⟨older, recent, rfl, hcr, hn⟩ := h
  refine ⟨older, recent ++ [ch], ?_, ?_, ?_⟩
  · rw [List.map_append, List.append_assoc]
    rfl
  · rw [List.mem_append, List.mem_singleton, not_or]
    exact ⟨hcr, hch.symm⟩
  · rw [List.length_append, List.length_singleton]
    exact Nat.succ_le_succ hn

theorem normalizeLineBreaks_eq (h : '\r' ∉ text) :
    ChatComposer.normalizeLineBreaks text = text := by
  have hkeep : ∀ pattern, replaceAll ('\r' :: pattern) ['\n'] text = text := fun pattern => by
    have happend : replaceAll ('\r' :: pattern) ['\n'] (text ++ []) = text ++ replaceAll _ _ [] :=
      replaceAll_append_of_notMem h
    rwa [replaceAll_nil, List.append_nil] at happend
  rw [ChatComposer.normalizeLineBreaks, hkeep, hkeep]

/-! ## What a part of a step does -/

/-- What the composer keeps as long as no Enter comes while a character is held. The characters of a
burst that are not buffered or held end the text area, so that a grab finds them there. -/
structure Keeps (s : ChatComposer) : Prop where
  sound : s.pasteBurst.Sound
  bash : s.isBashMode = false
  buffer : '\r' ∉ s.pasteBurst.buffer
  held : ∀ c ∈ s.pasteBurst.held, c ≠ '\r' ∧ c ≠ '\n'
  recent : s.pasteBurst.active = false →
    ∃ n, EndsPlain n s.textarea ∧
      s.pasteBurst.consecutivePlainCharBurst ≤ n + s.pasteBurst.held.length

theorem insertStr_eq (h : PlainStart (fullText s.textarea ++ text)) :
    s.insertStr text = { s with textarea := s.textarea ++ text.map .char } := by
  have hshown : PlainStart (shownText (s.textarea ++ text.map .char)) :=
    plainStart_shownText (by rwa [fullText_append, fullText_chars])
  refine if_neg fun hsync => ?_
  rw [Bool.and_eq_true, decide_eq_true_eq] at hsync
  exact (hshown _ hsync.2).1 rfl

theorem handlePaste_spec (setup : Setup) (isImage : List Char → Bool)
    (hbash : s.isBashMode = false) (hcr : '\r' ∉ text)
    (h : PlainStart (fullText s.textarea ++ text)) :
    fullText (s.handlePaste setup isImage text).textarea = fullText s.textarea ++ text ∧
      (s.handlePaste setup isImage text).pasteBurst = {} ∧
      (s.handlePaste setup isImage text).isBashMode = false := by
  unfold ChatComposer.handlePaste
  rw [normalizeLineBreaks_eq hcr]
  dsimp only
  refine ⟨?_, rfl, ?_⟩
  · split
    · rw [fullText_append]
      exact congrArg _ (List.append_nil _)
    · split
      · rw [fullText_append]
        exact congrArg _ (List.append_nil _)
      · rw [insertStr_eq h, fullText_append, fullText_chars]
  · split
    · exact hbash
    · split
      · exact hbash
      · rw [insertStr_eq h]
        exact hbash

theorem Keeps.of_cleared (hburst : s.pasteBurst = {}) (hbash : s.isBashMode = false) :
    Keeps s where
  sound := by rw [hburst]; exact ⟨fun _ => rfl, nofun⟩
  bash := hbash
  buffer := by rw [hburst]; exact List.not_mem_nil
  held := by rw [hburst]; exact nofun
  recent _ := ⟨0, .zero _, by rw [hburst]; exact Nat.zero_le _⟩

theorem contents_of_settled (h : s.pasteBurst.Settled) : s.contents = fullText s.textarea := by
  rw [ChatComposer.contents, h.buffer, PasteBurst.held_eq_nil h.pending, List.append_nil,
    List.append_nil]

theorem settled_cleared : ({} : PasteBurst).Settled := ⟨rfl, rfl, rfl⟩

theorem handlePasteBurstFlush_spec (setup : Setup) (isImage : List Char → Bool) (now : Nat)
    (hs : Keeps s) (h : PlainStart s.contents) :
    Keeps (s.handlePasteBurstFlush setup isImage now) ∧
      (s.handlePasteBurstFlush setup isImage now).contents = s.contents ∧
      ∀ {ch since},
        (s.handlePasteBurstFlush setup isImage now).pasteBurst.pendingFirstChar = some (ch, since) →
        s.pasteBurst.pendingFirstChar = some (ch, since) ∧
        s.pasteBurst.timedOut setup.platform now = false ∧
        now - since ≤ pasteBurstCharInterval setup.platform := by
  rcases PasteBurst.flushIfDue_cases hs.sound setup.platform now with
    ⟨hactive, hflush⟩ | ⟨ch, since, hpending, hflush⟩ | ⟨hflush, hdue⟩
  · -- The burst is over: what is buffered is pasted.
    have hheld := PasteBurst.held_eq_nil (hs.sound.held_of_active hactive)
    have hcontents : s.contents = fullText s.textarea ++ s.pasteBurst.buffer := by
      rw [ChatComposer.contents, hheld, List.append_nil]
    rw [hcontents] at h
    obtain ⟨htext, hburst, hbash⟩ := handlePaste_spec setup isImage
      (s := { s with pasteBurst := { s.pasteBurst with active := false, buffer := [] } })
      hs.bash hs.buffer h
    rw [ChatComposer.handlePasteBurstFlush, hflush]
    refine ⟨.of_cleared hburst hbash, ?_, fun hpending => ?_⟩
    · rw [contents_of_settled (hburst ▸ settled_cleared), htext, hcontents]
    · rw [hburst] at hpending
      cases hpending
  · -- No burst followed the held character: it is typed.
    obtain ⟨hactive, -⟩ := hs.sound.pending hpending
    have hbuffer := hs.sound.quiet hactive
    have hheld := PasteBurst.held_eq_singleton hpending
    have hcontents : s.contents = fullText s.textarea ++ [ch] := by
      rw [ChatComposer.contents, hbuffer, hheld, List.append_nil]
    have hsettled : { s.pasteBurst with pendingFirstChar := none }.Settled :=
      ⟨hactive, hbuffer, rfl⟩
    rw [hcontents] at h
    rw [ChatComposer.handlePasteBurstFlush, hflush]
    dsimp only
    rw [insertStr_eq (s := { s with pasteBurst := { s.pasteBurst with pendingFirstChar := none } })
      h]
    refine ⟨⟨hsettled.sound, hs.bash, ?_, ?_, fun _ => ?_⟩, ?_, nofun⟩
    · exact hs.buffer
    · exact nofun
    · obtain ⟨n, hends, hcount⟩ := hs.recent hactive
      have hch : ch ≠ '\r' := (hs.held ch (by rw [hheld]; exact List.mem_singleton_self _)).1
      rw [hheld] at hcount
      exact ⟨n + 1, hends.append_char hch, hcount⟩
    · rw [contents_of_settled hsettled, fullText_append, fullText_chars, hcontents]
  · rw [ChatComposer.handlePasteBurstFlush, hflush]
    exact ⟨hs, rfl, fun hpending => ⟨hpending, hdue hpending⟩⟩

theorem flushBeforeModifiedInput_of_settled (h : s.pasteBurst.Settled) :
    s.flushBeforeModifiedInput setup isImage = s := by
  have hactive := (PasteBurst.isActive_eq_false h.sound).2 h
  rw [ChatComposer.flushBeforeModifiedInput, PasteBurst.flushBeforeModifiedInput, hactive]
  rfl

theorem flushBeforeModifiedInput_spec (setup : Setup) (isImage : List Char → Bool)
    (hs : Keeps s) (h : PlainStart s.contents) :
    Keeps (s.flushBeforeModifiedInput setup isImage) ∧
      (s.flushBeforeModifiedInput setup isImage).pasteBurst.Settled ∧
      (s.flushBeforeModifiedInput setup isImage).contents = s.contents := by
  rcases PasteBurst.flushBeforeModifiedInput_cases hs.sound with ⟨hsettled, hflush⟩ | ⟨b, hflush⟩
  · rw [flushBeforeModifiedInput_of_settled hsettled]
    exact ⟨hs, hsettled, rfl⟩
  · have hcr : '\r' ∉ s.pasteBurst.buffer ++ s.pasteBurst.held := by
      rw [List.mem_append, not_or]
      exact ⟨hs.buffer, fun hmem => (hs.held _ hmem).1 rfl⟩
    have hcontents : s.contents =
        fullText s.textarea ++ (s.pasteBurst.buffer ++ s.pasteBurst.held) :=
      List.append_assoc _ _ _
    rw [hcontents] at h
    obtain ⟨htext, hburst, hbash⟩ := handlePaste_spec setup isImage
      (s := { s with pasteBurst := b }) hs.bash hcr h
    have hsettled : (({ s with pasteBurst := b } : ChatComposer).handlePaste setup isImage
        (s.pasteBurst.buffer ++ s.pasteBurst.held)).pasteBurst.Settled := hburst ▸ settled_cleared
    rw [ChatComposer.flushBeforeModifiedInput, hflush]
    refine ⟨.of_cleared hburst hbash, hsettled, ?_⟩
    rw [contents_of_settled hsettled, htext, hcontents]

/-- Typing a character at the end of a settled composer. -/
theorem Keeps.append_char (hs : Keeps s) (hsettled : s.pasteBurst.Settled) (hch : ch ≠ '\r') :
    Keeps { s with textarea := s.textarea ++ [.char ch] } := by
  obtain ⟨n, hends, hcount⟩ := hs.recent hsettled.active
  exact { hs with
    recent := fun _ =>
      ⟨n + 1, hends.append_char hch, hcount.trans (Nat.add_le_add_right (Nat.le_succ n) _)⟩ }

/-- **A grab moves what it removes.** A burst that begins grabs characters off the end of the text
area into the buffer, in their order. -/
theorem beginBuffer_spec (hsettled : s.pasteBurst.Settled) (hends : EndsPlain n s.textarea)
    (h : s.beginBuffer ch now n = some s') :
    ∃ (older : List Piece) (recent grabbed : List Char),
      s.textarea = older ++ (recent ++ grabbed).map .char ∧ grabbed.length = n ∧ '\r' ∉ grabbed ∧
      s'.textarea = older ++ recent.map .char ∧ s'.pasteBurst.buffer = grabbed ++ [ch] ∧
      s'.pasteBurst.active = true ∧ s'.pasteBurst.pendingFirstChar = none ∧
      s'.isBashMode = s.isBashMode := by
  obtain ⟨older, recent, htext, hcr, hn⟩ := hends
  have hshown : shownText s.textarea = shownText older ++ recent := by
    rw [htext, shownText_append, shownText_chars]
  have hstart : retroStartIndex (shownText s.textarea) n =
      (shownText older).length + (recent.length - n) := by
    rw [retroStartIndex_eq, hshown, List.length_append]
    omega
  have hgrabbed : (shownText s.textarea).drop (retroStartIndex (shownText s.textarea) n) =
      recent.drop (recent.length - n) := by
    rw [hstart, hshown, List.drop_append, List.drop_eq_nil_of_le (Nat.le_add_right _ _),
      List.nil_append, Nat.add_sub_cancel_left]
  have hremove : removeFrom (retroStartIndex (shownText s.textarea) n) s.textarea =
      older ++ (recent.take (recent.length - n)).map .char := by
    rw [hstart, htext, removeFrom_append]
  refine ⟨older, recent.take (recent.length - n), recent.drop (recent.length - n), ?_, ?_, ?_, ?_⟩
  · rw [List.take_append_drop, htext]
  · rw [List.length_drop]
    omega
  · exact fun hmem => hcr (List.mem_of_mem_drop hmem)
  · rw [ChatComposer.beginBuffer, PasteBurst.decideBeginBuffer, hgrabbed] at h
    by_cases hpastey : ((recent.drop (recent.length - n)).any isWhitespace ||
        decide (16 ≤ (recent.drop (recent.length - n)).length)) = true
    · rw [if_pos hpastey] at h
      cases h
      refine ⟨?_, ?_, rfl, hsettled.pending, rfl⟩
      · dsimp only
        split
        · exact hremove
        · next hnil =>
          rw [htext, List.take_of_length_le (List.drop_eq_nil_iff.1 (not_not.1 hnil))]
      · exact congrArg (· ++ _ ++ [ch]) hsettled.buffer
    · rw [if_neg hpastey] at h
      cases h

/-- A burst is on, and nothing is held. -/
theorem Keeps.of_active (hactive : s.pasteBurst.active = true)
    (hpending : s.pasteBurst.pendingFirstChar = none) (hbuffer : '\r' ∉ s.pasteBurst.buffer)
    (hbash : s.isBashMode = false) : Keeps s where
  sound :=
    ⟨fun hquiet => absurd (hactive.symm.trans hquiet) nofun,
      fun hheld => absurd (hpending.symm.trans hheld) nofun⟩
  bash := hbash
  buffer := hbuffer
  held := by rw [PasteBurst.held_eq_nil hpending]; exact nofun
  recent hquiet := absurd (hactive.symm.trans hquiet) nofun

/-- A composer that differs in its detector only, which has taken what was held and a character into
its buffer. -/
theorem keeps_buffered {b : PasteBurst} (hs : Keeps s) (hch : ch ≠ '\r')
    (hactive : b.active = true) (hpending : b.pendingFirstChar = none)
    (hbuffer : b.buffer = s.pasteBurst.buffer ++ s.pasteBurst.held ++ [ch]) :
    Keeps { s with pasteBurst := b } ∧
      ({ s with pasteBurst := b } : ChatComposer).contents = s.contents ++ [ch] := by
  have hcr : '\r' ∉ b.buffer := by
    rw [hbuffer, List.mem_append, List.mem_append, List.mem_singleton, not_or, not_or]
    exact ⟨⟨hs.buffer, fun hmem => (hs.held _ hmem).1 rfl⟩, hch.symm⟩
  refine ⟨.of_active hactive hpending hcr hs.bash, ?_⟩
  rw [ChatComposer.contents, PasteBurst.held_eq_nil hpending, List.append_nil,
    ChatComposer.contents]
  simp only [hbuffer, List.append_assoc]

theorem keeps_beginBuffer (hbash : s.isBashMode = false) (hsettled : s.pasteBurst.Settled)
    (hends : EndsPlain n s.textarea) (hch : ch ≠ '\r') (h : s.beginBuffer ch now n = some s') :
    Keeps s' ∧ s'.contents = s.contents ++ [ch] := by
  obtain ⟨older, recent, grabbed, htext, -, hcr, htext', hbuffer, hactive, hpending, hbash'⟩ :=
    beginBuffer_spec hsettled hends h
  have hcr' : '\r' ∉ s'.pasteBurst.buffer := by
    rw [hbuffer, List.mem_append, List.mem_singleton, not_or]
    exact ⟨hcr, hch.symm⟩
  refine ⟨.of_active hactive hpending hcr' (hbash'.trans hbash), ?_⟩
  rw [contents_of_settled hsettled, htext, ChatComposer.contents, hbuffer, htext',
    PasteBurst.held_eq_nil hpending]
  simp only [fullText_append, fullText_chars, List.append_nil, List.append_assoc]

/-- A character that no burst takes, after the detector has noted it. -/
theorem keeps_inserted {b : PasteBurst} (hs : Keeps s) (hsettled : s.pasteBurst.Settled)
    (hb : b.Settled)
    (hcount : b.consecutivePlainCharBurst ≤ s.pasteBurst.consecutivePlainCharBurst + 1)
    (hch : ch ≠ '\r') :
    Keeps { s with textarea := s.textarea ++ [.char ch], pasteBurst := b } ∧
      ({ s with textarea := s.textarea ++ [.char ch], pasteBurst := b } : ChatComposer).contents =
        s.contents ++ [ch] := by
  obtain ⟨n, hends, hn⟩ := hs.recent hsettled.active
  rw [PasteBurst.held_eq_nil hsettled.pending] at hn
  refine ⟨⟨hb.sound, hs.bash, ?_, ?_, fun _ => ?_⟩, ?_⟩
  · rw [hb.buffer]
    exact List.not_mem_nil
  · rw [PasteBurst.held_eq_nil hb.pending]
    exact nofun
  · exact ⟨n + 1, hends.append_char hch,
      hcount.trans ((Nat.succ_le_succ hn).trans (Nat.le_add_right _ _))⟩
  · rw [contents_of_settled hsettled, contents_of_settled hb, fullText_append]
    rfl

/-- The burst that the last test of the detector finds: it begins, or the character is typed. -/
theorem keeps_retro {b : PasteBurst} {retroChars : Nat} {inserted : ChatComposer} (hs : Keeps s)
    (hsettled : s.pasteBurst.Settled) (hb : b.Settled)
    (hle : b.consecutivePlainCharBurst ≤ s.pasteBurst.consecutivePlainCharBurst + 1)
    (hcount : b.consecutivePlainCharBurst = retroChars + 1) (hch : ch ≠ '\r')
    (hinserted : inserted = { s with textarea := s.textarea ++ [.char ch], pasteBurst := b }) :
    Keeps ((({ s with pasteBurst := b } : ChatComposer).beginBuffer ch now retroChars).getD
        inserted) ∧
      ((({ s with pasteBurst := b } : ChatComposer).beginBuffer ch now retroChars).getD
        inserted).contents = s.contents ++ [ch] := by
  obtain ⟨n, hends, hn⟩ := hs.recent hsettled.active
  rw [PasteBurst.held_eq_nil hsettled.pending, List.length_nil] at hn
  cases hbegin : ({ s with pasteBurst := b } : ChatComposer).beginBuffer ch now retroChars with
  | none =>
    rw [Option.getD_none, hinserted]
    exact keeps_inserted hs hsettled hb hle hch
  | some begun =>
    have hretro : retroChars ≤ n := by omega
    obtain ⟨hkeeps, hcontents⟩ := keeps_beginBuffer (s := { s with pasteBurst := b }) hs.bash hb
      (hends.mono hretro) hch hbegin
    rw [contents_of_settled (s := { s with pasteBurst := b }) hb,
      ← contents_of_settled hsettled] at hcontents
    exact ⟨hkeeps, hcontents⟩

theorem handleAsciiChar_spec (hs : Keeps s) (h : PlainStart (s.contents ++ [ch]))
    (hch : ch ≠ '\r' ∧ ch ≠ '\n') (hdue : ∀ {held since},
      s.pasteBurst.pendingFirstChar = some (held, since) →
      now - since ≤ pasteBurstCharInterval setup.platform) :
    Keeps (s.handleAsciiChar setup isImage ch now) ∧
      (s.handleAsciiChar setup isImage ch now).contents = s.contents ++ [ch] := by
  have hdecides : PasteBurst.Decides setup.platform s.pasteBurst ch now _ :=
    PasteBurst.onPlainChar_decides hs.sound hdue
  unfold ChatComposer.handleAsciiChar
  cases hb : s.pasteBurst.onPlainChar setup.platform ch now with
  | mk b decision =>
    rw [hb] at hdecides
    cases hdecides with
    | append hdecision hactive hbuffer hpending =>
      have hkeeps := keeps_buffered (b := b.appendCharToBuffer ch now) hs hch.1 hactive hpending
        (congrArg (· ++ [ch]) hbuffer)
      rcases hdecision with rfl | rfl
      · exact hkeeps
      · exact hkeeps
    | begin hsettled hcount =>
      have hle := PasteBurst.consecutive_notePlainChar_le setup.platform s.pasteBurst now
      refine keeps_retro hs hsettled hsettled.notePlainChar hle hcount hch.1 ?_
      rw [ChatComposer.inputChar, flushBeforeModifiedInput_of_settled hsettled.notePlainChar]
      rw [contents_of_settled hsettled] at h
      exact insertStr_eq h
    | retain hsettled =>
      have hle := PasteBurst.consecutive_notePlainChar_le setup.platform s.pasteBurst now
      obtain ⟨n, hends, hn⟩ := hs.recent hsettled.active
      rw [PasteBurst.held_eq_nil hsettled.pending, List.length_nil] at hn
      refine ⟨⟨⟨fun _ => hsettled.buffer, ?_⟩, hs.bash, hs.buffer, ?_, fun _ => ?_⟩, ?_⟩
      · rintro _ _ ⟨⟩
        exact ⟨hsettled.active, rfl⟩
      · intro c hc
        rw [List.mem_singleton.1 hc]
        exact hch
      · exact ⟨n, hends, hle.trans (Nat.succ_le_succ hn)⟩
      · rw [contents_of_settled hsettled]
        exact congrArg (fullText s.textarea ++ · ++ [ch]) hsettled.buffer |>.trans
          (congrArg (· ++ [ch]) (List.append_nil _))

theorem handleNonAsciiChar_spec (hs : Keeps s) (h : PlainStart (s.contents ++ [ch]))
    (hch : ch ≠ '\r') :
    Keeps (s.handleNonAsciiChar setup isImage ch now) ∧
      (s.handleNonAsciiChar setup isImage ch now).contents = s.contents ++ [ch] := by
  unfold ChatComposer.handleNonAsciiChar
  rw [PasteBurst.tryAppendCharIfActive, ← PasteBurst.isActiveInternal,
    hs.sound.isActiveInternal_eq]
  cases hactive : s.pasteBurst.active with
  | true =>
    have hpending := hs.sound.held_of_active hactive
    refine keeps_buffered (b := s.pasteBurst.appendCharToBuffer ch now) hs hch hactive hpending ?_
    rw [PasteBurst.held_eq_nil hpending, List.append_nil]
    rfl
  | false =>
    obtain ⟨hkeeps, hsettled, hcontents⟩ :=
      flushBeforeModifiedInput_spec setup isImage hs h.of_append
    have hle := PasteBurst.consecutive_notePlainChar_le setup.platform
      (s.flushBeforeModifiedInput setup isImage).pasteBurst now
    rw [← hcontents]
    dsimp only [Bool.false_eq_true, if_false]
    rcases PasteBurst.onPlainCharNoHold_cases setup.platform now hsettled with
      hnone | ⟨retroChars, hbegin, hcount⟩
    · rw [hnone]
      dsimp only
      rw [flushBeforeModifiedInput_of_settled hsettled.notePlainChar]
      have hinserted := keeps_inserted hkeeps hsettled hsettled.notePlainChar hle hch
      exact hinserted
    · rw [hbegin]
      refine keeps_retro hkeeps hsettled hsettled.notePlainChar hle hcount hch ?_
      rw [flushBeforeModifiedInput_of_settled hsettled.notePlainChar]

/-! ## Newlines -/

/-- An Enter that is taken into the buffer while a character is held outside it. An Enter with a
modifier lets a due flush go first. -/
def EnterWhileHeld (setup : Setup) (s : ChatComposer) (e : Event) : Prop :=
  match e.action with
  | .submit => s.pasteBurst.pendingFirstChar ≠ none
  | .key .enter =>
    s.pasteBurst.pendingFirstChar ≠ none ∧ s.pasteBurst.timedOut setup.platform e.now = false
  | .tick | .key _ => False

/-- Without a held character the newline goes into the burst, or there is none. -/
theorem appendNewline_cases (hs : Keeps s) (hpending : s.pasteBurst.pendingFirstChar = none)
    (now : Nat) :
    (∃ b, s.pasteBurst.appendNewlineIfActive now = (b, true) ∧ Keeps { s with pasteBurst := b } ∧
      ({ s with pasteBurst := b } : ChatComposer).contents = s.contents ++ ['\n']) ∨
    (s.pasteBurst.Settled ∧ s.pasteBurst.appendNewlineIfActive now = (s.pasteBurst, false)) := by
  cases hactive : s.pasteBurst.active with
  | true =>
    refine .inl ⟨s.pasteBurst.appendCharToBuffer '\n' now, ?_, ?_⟩
    · refine PasteBurst.appendNewlineIfActive_of_isActive ?_
      rw [PasteBurst.isActive, PasteBurst.isActiveInternal, hactive, Bool.true_or, Bool.true_or]
    · refine keeps_buffered hs (by decide) hactive hpending ?_
      rw [PasteBurst.held_eq_nil hpending, List.append_nil]
      rfl
  | false =>
    have hsettled : s.pasteBurst.Settled := ⟨hactive, hs.sound.quiet hactive, hpending⟩
    refine .inr ⟨hsettled, ?_⟩
    rw [PasteBurst.appendNewlineIfActive, (PasteBurst.isActive_eq_false hs.sound).2 hsettled]
    rfl

/-- With a held character the newline gets before it. -/
theorem contents_appendNewline {since : Nat} (hs : Keeps s)
    (hpending : s.pasteBurst.pendingFirstChar = some (ch, since)) (now : Nat) :
    ∃ b, s.pasteBurst.appendNewlineIfActive now = (b, true) ∧
      ({ s with pasteBurst := b } : ChatComposer).contents ≠ s.contents ++ ['\n'] := by
  have hheld := PasteBurst.held_eq_singleton hpending
  have hch : ch ≠ '\n' := (hs.held ch (by rw [hheld]; exact List.mem_singleton_self _)).2
  refine ⟨s.pasteBurst.appendCharToBuffer '\n' now, ?_, fun heq => hch ?_⟩
  · refine PasteBurst.appendNewlineIfActive_of_isActive ?_
    rw [PasteBurst.isActive, hpending, Option.isSome_some, Bool.or_true]
  · have hheld' : (s.pasteBurst.appendCharToBuffer '\n' now).held = [ch] := hheld
    rw [ChatComposer.contents, hheld'] at heq
    exact List.singleton_inj.1 (List.append_inj' heq rfl).2

theorem inSlashContext_eq_false (h : PlainStart s.contents) :
    s.inSlashContext setup = false := by
  rw [ChatComposer.contents, List.append_assoc] at h
  refine Bool.eq_false_iff.2 fun hslash => ?_
  rw [ChatComposer.inSlashContext, Bool.and_eq_true, decide_eq_true_eq] at hslash
  obtain ⟨rest, hrest⟩ := firstLine_isPrefix (shownText s.textarea)
  have hshown := plainStart_shownText h.of_append
  rw [← hrest] at hshown
  exact (hshown.of_append _ hslash.2).2 rfl

/-! ## Steps and runs -/

theorem step_submit (hs : Keeps s) (hpending : s.pasteBurst.pendingFirstChar = none)
    (h : s.handleSubmissionWithTime setup now = some s') :
    Keeps s' ∧ s'.contents = s.contents ++ ['\n'] := by
  unfold ChatComposer.handleSubmissionWithTime at h
  split at h
  · cases h
  · rcases appendNewline_cases hs hpending now with ⟨b, happend, hkeeps⟩ | ⟨hsettled, happend⟩
    · rw [happend] at h
      cases h
      exact hkeeps
    · rw [happend] at h
      dsimp only at h
      split at h
      · cases h
        exact keeps_inserted (b := s.pasteBurst.extendWindow now) hs hsettled
          ⟨hsettled.active, hsettled.buffer, hsettled.pending⟩ (Nat.le_succ _) (by decide)
      · cases h

theorem handleEnter_spec (hs : Keeps s) (hpending : s.pasteBurst.pendingFirstChar = none)
    (h : PlainStart (s.contents ++ ['\n'])) :
    Keeps (s.handleEnter now) ∧ (s.handleEnter now).contents = s.contents ++ ['\n'] := by
  unfold ChatComposer.handleEnter
  rcases appendNewline_cases hs hpending now with ⟨b, happend, hb⟩ | ⟨hsettled, happend⟩
  · rw [happend]
    exact hb
  · rw [contents_of_settled hsettled] at h
    rw [happend, insertStr_eq h]
    exact keeps_inserted hs hsettled hsettled (Nat.le_succ _) (by decide)

theorem handleOtherKey_spec {inserts : List Char} (hs : Keeps s)
    (h : PlainStart (s.contents ++ inserts)) :
    Keeps (s.handleOtherKey setup isImage inserts) ∧
      (s.handleOtherKey setup isImage inserts).contents = s.contents ++ inserts := by
  obtain ⟨hkeeps, hsettled, hcontents⟩ :=
    flushBeforeModifiedInput_spec setup isImage hs h.of_append
  rw [← hcontents, contents_of_settled hsettled] at h ⊢
  rw [ChatComposer.handleOtherKey, insertStr_eq h]
  have hcleared := hsettled.clearWindowAfterNonChar_eq
  refine ⟨.of_cleared hcleared hkeeps.bash, ?_⟩
  rw [contents_of_settled (hcleared ▸ settled_cleared), fullText_append, fullText_chars]

/-- **A step keeps.** What an event types comes at the end of the text. -/
theorem step_spec {e : Event} (hs : Keeps s) (h : PlainStart (s.contents ++ e.action.typed))
    (hheld : ¬EnterWhileHeld setup s e) (hstep : s.step setup e = some s') :
    Keeps s' ∧ s'.contents = s.contents ++ e.action.typed := by
  obtain ⟨hkeeps, hcontents, hdue⟩ :=
    handlePasteBurstFlush_spec setup e.isImage e.now hs h.of_append
  obtain ⟨action, now, isImage⟩ := e
  cases action with
  | tick =>
    cases hstep
    exact ⟨hkeeps, hcontents.trans (List.append_nil _).symm⟩
  | submit => exact step_submit hs (not_not.1 hheld) hstep
  | key key =>
    cases hstep
    unfold ChatComposer.handleInputBasicWithTime
    rw [← hcontents] at h ⊢
    cases key with
    | enter =>
      refine handleEnter_spec hkeeps ?_ h
      by_contra hpending
      obtain ⟨held, hheld'⟩ := Option.ne_none_iff_exists'.1 hpending
      obtain ⟨hbefore, hnotDue, -⟩ := hdue hheld'
      exact hheld ⟨by rw [hbefore]; exact nofun, hnotDue⟩
    | char ch =>
      have hcr : ch.ch ≠ '\r' := fun heq => absurd (heq ▸ ch.plain) (by decide)
      have hnl : ch.ch ≠ '\n' := fun heq => absurd (heq ▸ ch.plain) (by decide)
      dsimp only
      split
      · exact handleAsciiChar_spec hkeeps h ⟨hcr, hnl⟩ fun hpending => (hdue hpending).2.2
      · exact handleNonAsciiChar_spec hkeeps h hcr
    | other inserts => exact handleOtherKey_spec hkeeps h

/-- An Enter while a character is held loses the order. -/
theorem step_enterWhileHeld {e : Event} (hs : Keeps s) (h : PlainStart s.contents)
    (hheld : EnterWhileHeld setup s e) :
    ∃ s', s.step setup e = some s' ∧ s'.contents ≠ s.contents ++ e.action.typed := by
  obtain ⟨action, now, isImage⟩ := e
  cases action with
  | tick => exact hheld.elim
  | submit =>
    obtain ⟨held, hpending⟩ := Option.ne_none_iff_exists'.1 hheld
    obtain ⟨b, happend, hne⟩ := contents_appendNewline hs hpending now
    refine ⟨_, ?_, hne⟩
    rw [ChatComposer.step]
    dsimp only
    rw [ChatComposer.handleSubmissionWithTime, inSlashContext_eq_false h, happend]
    rfl
  | key key =>
    cases key with
    | char ch => exact hheld.elim
    | other inserts => exact hheld.elim
    | enter =>
      obtain ⟨hpending, hnotDue⟩ := hheld
      obtain ⟨held, hpending⟩ := Option.ne_none_iff_exists'.1 hpending
      obtain ⟨b, happend, hne⟩ := contents_appendNewline hs hpending now
      have hflush : s.handlePasteBurstFlush setup isImage now = s := by
        rw [ChatComposer.handlePasteBurstFlush, PasteBurst.flushIfDue, hnotDue]
        rfl
      refine ⟨_, ?_, hne⟩
      rw [ChatComposer.step]
      dsimp only
      rw [ChatComposer.handleInputBasicWithTime, hflush, ChatComposer.handleEnter, happend]

theorem typed_append (es es' : List Event) : typed (es ++ es') = typed es ++ typed es' :=
  List.flatMap_append

theorem run_append_singleton (setup : Setup) (es : List Event) (e : Event) :
    s.run setup (es ++ [e]) = (s.run setup es).bind (ChatComposer.step setup · e) := by
  simp only [ChatComposer.run, List.foldlM_append, List.foldlM_cons, List.foldlM_nil, bind_pure]
  rfl

theorem typed_append_singleton (es : List Event) (e : Event) :
    typed (es ++ [e]) = typed es ++ e.action.typed := by
  rw [typed_append]
  exact congrArg _ (List.append_nil _)

/-- Every state of a run has the text typed so far. -/
def Conserves (setup : Setup) (es : List Event) : Prop :=
  ∀ pre s, pre <+: es → ChatComposer.run setup {} pre = some s → s.contents = typed pre

/-- No Enter of a run comes while a character is held. -/
def NoEnterWhileHeld (setup : Setup) (es : List Event) : Prop :=
  ∀ pre e s, pre ++ [e] <+: es → ChatComposer.run setup {} pre = some s →
    ¬EnterWhileHeld setup s e

/-- A run keeps, as long as no Enter of it comes while a character is held. -/
theorem keeps_run {es : List Event} (hstart : PlainStart (typed es))
    (hno : ∀ pre e s, pre ++ [e] <+: es → ChatComposer.run setup {} pre = some s → Keeps s →
      PlainStart s.contents → ¬EnterWhileHeld setup s e)
    (hrun : ChatComposer.run setup {} es = some s) : Keeps s ∧ s.contents = typed es := by
  induction es using List.reverseRecOn generalizing s with
  | nil =>
    cases hrun
    exact ⟨.of_cleared rfl rfl, rfl⟩
  | append_singleton es e ih =>
    rw [run_append_singleton] at hrun
    obtain ⟨before, hbefore, hstep⟩ := Option.bind_eq_some_iff.1 hrun
    rw [typed_append_singleton] at hstart ⊢
    obtain ⟨hkeeps, hcontents⟩ := ih hstart.of_append
      (fun pre e' t hpre => hno pre e' t (hpre.trans (List.prefix_append es [e]))) hbefore
    rw [← hcontents] at hstart ⊢
    exact step_spec hkeeps hstart
      (hno es e before (List.prefix_refl _) hbefore hkeeps hstart.of_append) hstep

theorem not_enterWhileHeld_of_conserves {es pre : List Event} {e : Event}
    (hconserves : Conserves setup es) (hpre : pre ++ [e] <+: es)
    (hrun : ChatComposer.run setup {} pre = some s) (hs : Keeps s) (h : PlainStart s.contents) :
    ¬EnterWhileHeld setup s e := by
  intro hheld
  obtain ⟨s', hstep, hne⟩ := step_enterWhileHeld hs h hheld
  have hrun' : ChatComposer.run setup {} (pre ++ [e]) = some s' := by
    rw [run_append_singleton, hrun]
    exact hstep
  apply hne
  rw [hconserves _ _ hpre hrun', hconserves _ _ ((List.prefix_append pre [e]).trans hpre) hrun,
    typed_append_singleton]

end

/-- **Typing is conserved, unless an Enter comes while a character is held.** The events are those
of a composer that starts empty, whose text does not start a command or the bash mode, and which no
Enter submits. -/
theorem conserves_iff (setup : Setup) (es : List Event) (hstart : PlainStart (typed es)) :
    Conserves setup es ↔ NoEnterWhileHeld setup es := by
  have hplain : ∀ {pre}, pre <+: es → PlainStart (typed pre) := by
    rintro pre ⟨rest, rfl⟩
    rw [typed_append] at hstart
    exact hstart.of_append
  constructor
  · intro hconserves pre e s hpre hrun
    have hpre' : pre <+: es := (List.prefix_append pre [e]).trans hpre
    obtain ⟨hkeeps, hcontents⟩ := keeps_run (hplain hpre')
      (fun pre' e' t hstep => not_enterWhileHeld_of_conserves hconserves (hstep.trans hpre')) hrun
    exact not_enterWhileHeld_of_conserves hconserves hpre hrun hkeeps
      (hcontents ▸ hplain hpre')
  · intro hno pre s hpre hrun
    exact (keeps_run (hplain hpre)
      (fun pre' e t hpre' ht _ _ => hno pre' e t (hpre'.trans hpre) ht) hrun).2

/-- A key press, in milliseconds, where no text is the path of an image. -/
def press (action : Action) (ms : Nat) : Event := ⟨action, fromMillis ms, fun _ => false⟩

/-- A composer of a terminal that is not on Windows. -/
def exampleSetup : Setup := ⟨.notWindows, true, true, 0⟩

/-- The user types `a` and an Enter one millisecond later; the next ticks flush. -/
def heldThenEnter : List Event :=
  [press (.key (.char ⟨'a', by decide⟩)) 0, press .submit 1, press .tick 20, press .tick 40]

/-- An `a` and a `b` go into the buffer, and an Enter after them. -/
def bufferedThenEnter : List Event :=
  [press (.key (.char ⟨'a', by decide⟩)) 0, press (.key (.char ⟨'b', by decide⟩)) 1,
    press .submit 2, press .tick 20]

/-- The held `a` is lost: after the flush there is a newline and nothing else. -/
theorem not_conserves_heldThenEnter : ¬Conserves exampleSetup heldThenEnter := by
  intro h
  cases hrun : ChatComposer.run exampleSetup {} heldThenEnter with
  | none => cases hrun
  | some s =>
    have hcontents : (ChatComposer.run exampleSetup {} heldThenEnter).map ChatComposer.contents =
        some ['\n'] := by decide
    rw [hrun, Option.map_some, h _ s (List.prefix_refl _) hrun] at hcontents
    revert hcontents
    decide

theorem conserves_iff_bufferedThenEnter :
    Conserves exampleSetup bufferedThenEnter ↔ NoEnterWhileHeld exampleSetup bufferedThenEnter :=
  conserves_iff exampleSetup bufferedThenEnter (by rintro c ⟨⟩; decide)

end Mcodex.Tui
