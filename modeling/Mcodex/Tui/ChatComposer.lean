import Mcodex.Lib.Replacement
import Mcodex.Tui.PasteBurst

/-!
# The composer and its paste bursts

The keys that type, as `ChatComposer` handles them with burst detection enabled and the cursor at
the end of the text. The text area is a list of pieces, where an element of the source is one piece:
what it shows and the text it stands for differ. Which texts are paths of images is the file
system's answer, which comes with the key.
-/

namespace Mcodex.Tui

open Text Replacement

/-- `LARGE_PASTE_CHAR_THRESHOLD`. -/
def largePasteCharThreshold : Nat := 1000

/-- A piece of the text area: a character, the element of a large paste (whose text
`pending_pastes` keeps), the element of an image with the path that was pasted, and the blank that
the composer puts after an image. -/
inductive Piece
  | char (c : Char)
  | paste (charCount suffix : Nat) (text : List Char)
  | image (number : Nat) (path : List Char)
  | imageBlank
  deriving DecidableEq

/-- The label that `next_large_paste_placeholder` makes of a count and its suffix. -/
def largePastePlaceholder (charCount suffix : Nat) : List Char :=
  let base := "[Pasted Content ".toList ++ (toString charCount).toList ++ " chars]".toList
  if suffix = 1 then base else base ++ " #".toList ++ (toString suffix).toList

/-- `local_image_label_text`. -/
def localImageLabelText (number : Nat) : List Char :=
  "[Image #".toList ++ (toString number).toList ++ "]".toList

namespace Piece

/-- What the text area shows. -/
def shown : Piece → List Char
  | char c => [c]
  | paste charCount suffix _ => largePastePlaceholder charCount suffix
  | image number _ => localImageLabelText number
  | imageBlank => [' ']

/-- The text that the piece stands for. A pasted block stands for what was pasted. -/
def text : Piece → List Char
  | char c => [c]
  | paste _ _ text => text
  | image _ path => path
  | imageBlank => []

end Piece

/-- `TextArea::text`. -/
def shownText (textarea : List Piece) : List Char := textarea.flatMap Piece.shown

/-- The text of the text area with the pasted blocks counted as their text. -/
def fullText (textarea : List Piece) : List Char := textarea.flatMap Piece.text

/-- `TextArea::replace_range` of what is shown from `start` on, by nothing. An element that the
range cuts goes too. -/
def removeFrom : Nat → List Piece → List Piece
  | _, [] => []
  | start, piece :: textarea =>
    if piece.shown.length ≤ start then
      piece :: removeFrom (start - piece.shown.length) textarea
    else []

/-- What does not change while the user types. -/
structure Setup where
  platform : Platform
  slashCommandsEnabled : Bool
  imagePasteEnabled : Bool
  /-- How many images `remote_image_urls` has. -/
  remoteImageUrls : Nat

/-- The part of `ChatComposer` that typing reads and writes. -/
structure ChatComposer where
  textarea : List Piece := []
  pasteBurst : PasteBurst := {}
  isBashMode : Bool := false
  largePasteCounters : Nat → Nat := fun _ => 0
  /-- How many images `attached_images` has. -/
  attachedImages : Nat := 0

namespace ChatComposer

/-- `sync_bash_mode_from_text`. -/
def syncBashModeFromText (s : ChatComposer) : ChatComposer :=
  if !s.isBashMode && (shownText s.textarea).head? = some '!' then
    { s with textarea := s.textarea.tail, isBashMode := true }
  else s

/-- `insert_str`, and `TextArea::input` of a key that inserts the text. -/
def insertStr (s : ChatComposer) (text : List Char) : ChatComposer :=
  { s with textarea := s.textarea ++ text.map Piece.char }.syncBashModeFromText

/-- The line breaks of `handle_paste`. -/
def normalizeLineBreaks (pasted : List Char) : List Char :=
  replaceAll ['\r'] ['\n'] (replaceAll ['\r', '\n'] ['\n'] pasted)

/-- `handle_paste`. `isImage` are the texts that `handle_paste_image_path` attaches. -/
def handlePaste (setup : Setup) (isImage : List Char → Bool) (s : ChatComposer)
    (pasted : List Char) : ChatComposer :=
  let pasted := normalizeLineBreaks pasted
  let charCount := pasted.length
  let s :=
    if largePasteCharThreshold < charCount then
      let nextSuffix := s.largePasteCounters charCount + 1
      { s with
        textarea := s.textarea ++ [.paste charCount nextSuffix pasted]
        largePasteCounters := fun count =>
          if count = charCount then nextSuffix else s.largePasteCounters count }
    else if 1 < charCount && setup.imagePasteEnabled && isImage pasted then
      { s with
        textarea :=
          s.textarea ++ [.image (setup.remoteImageUrls + s.attachedImages + 1) pasted, .imageBlank]
        attachedImages := s.attachedImages + 1 }
    else s.insertStr pasted
  { s with pasteBurst := s.pasteBurst.clearAfterExplicitPaste }

/-- `handle_paste_burst_flush`. -/
def handlePasteBurstFlush (setup : Setup) (isImage : List Char → Bool) (s : ChatComposer)
    (now : Nat) : ChatComposer :=
  match s.pasteBurst.flushIfDue setup.platform now with
  | (pasteBurst, .paste pasted) => { s with pasteBurst }.handlePaste setup isImage pasted
  | (pasteBurst, .typed ch) => { s with pasteBurst }.insertStr [ch]
  | (pasteBurst, .none) => { s with pasteBurst }

/-- What a key does with `flush_before_modified_input`. -/
def flushBeforeModifiedInput (setup : Setup) (isImage : List Char → Bool) (s : ChatComposer) :
    ChatComposer :=
  match s.pasteBurst.flushBeforeModifiedInput with
  | (pasteBurst, some pasted) => { s with pasteBurst }.handlePaste setup isImage pasted
  | (pasteBurst, none) => { s with pasteBurst }

/-- The arm of `CharDecision::BeginBuffer`, which the paths of ASCII and other characters share.
Nothing where the burst does not begin. -/
def beginBuffer (s : ChatComposer) (ch : Char) (now retroChars : Nat) : Option ChatComposer :=
  match s.pasteBurst.decideBeginBuffer now (shownText s.textarea) retroChars with
  | (pasteBurst, some grab) =>
    some { s with
      textarea := if grab.grabbed ≠ [] then removeFrom grab.start s.textarea else s.textarea
      pasteBurst := pasteBurst.appendCharToBuffer ch now }
  | (_, none) => none

/-- A character that no burst takes. -/
def inputChar (setup : Setup) (isImage : List Char → Bool) (s : ChatComposer) (ch : Char) :
    ChatComposer :=
  (s.flushBeforeModifiedInput setup isImage).insertStr [ch]

/-- `handle_non_ascii_char`. It leaves the bash mode to the next key of another kind. -/
def handleNonAsciiChar (setup : Setup) (isImage : List Char → Bool) (s : ChatComposer) (ch : Char)
    (now : Nat) : ChatComposer :=
  let insert (s : ChatComposer) : ChatComposer :=
    let s := s.flushBeforeModifiedInput setup isImage
    { s with textarea := s.textarea ++ [.char ch] }
  match s.pasteBurst.tryAppendCharIfActive ch now with
  | (pasteBurst, true) => { s with pasteBurst }
  | (_, false) =>
    let s := s.flushBeforeModifiedInput setup isImage
    match s.pasteBurst.onPlainCharNoHold setup.platform now with
    | (pasteBurst, some .bufferAppend) =>
      { s with pasteBurst := pasteBurst.appendCharToBuffer ch now }
    | (pasteBurst, some (.beginBuffer retroChars)) =>
      let s := { s with pasteBurst }
      (s.beginBuffer ch now retroChars).getD (insert s)
    -- No other decision is made there (`unreachable!`).
    | (pasteBurst, _) => insert { s with pasteBurst }

/-- The ASCII characters of `handle_input_basic_with_time`. -/
def handleAsciiChar (setup : Setup) (isImage : List Char → Bool) (s : ChatComposer) (ch : Char)
    (now : Nat) : ChatComposer :=
  match s.pasteBurst.onPlainChar setup.platform ch now with
  | (pasteBurst, .bufferAppend) | (pasteBurst, .beginBufferFromPending) =>
    { s with pasteBurst := pasteBurst.appendCharToBuffer ch now }
  | (pasteBurst, .beginBuffer retroChars) =>
    let s := { s with pasteBurst }
    (s.beginBuffer ch now retroChars).getD (s.inputChar setup isImage ch)
  | (pasteBurst, .retainFirstChar) => { s with pasteBurst }

end ChatComposer

/-- A character key: what is typed is no control character of ASCII. -/
structure PlainChar where
  ch : Char
  plain : 0x20 ≤ ch.toNat ∧ ch.toNat ≠ 0x7f
  deriving DecidableEq

/-- The keys that reach `handle_input_basic`. -/
inductive Key
  /-- A character without Ctrl or Alt. -/
  | char (ch : PlainChar)
  /-- Enter with a modifier. -/
  | enter
  /-- Any other key that keeps the text there is, with what the text area inserts for it. -/
  | other (inserts : List Char)
  deriving DecidableEq

namespace ChatComposer

/-- An Enter in `handle_input_basic_with_time`, after the flush. -/
def handleEnter (s : ChatComposer) (now : Nat) : ChatComposer :=
  match s.pasteBurst.appendNewlineIfActive now with
  | (pasteBurst, true) => { s with pasteBurst }
  | (_, false) => s.insertStr ['\n']

/-- A key that is no character and no Enter in `handle_input_basic_with_time`, after the flush. -/
def handleOtherKey (setup : Setup) (isImage : List Char → Bool) (s : ChatComposer)
    (inserts : List Char) : ChatComposer :=
  let s := (s.flushBeforeModifiedInput setup isImage).insertStr inserts
  { s with pasteBurst := s.pasteBurst.clearWindowAfterNonChar }

/-- `handle_input_basic_with_time`. -/
def handleInputBasicWithTime (setup : Setup) (isImage : List Char → Bool) (s : ChatComposer)
    (key : Key) (now : Nat) : ChatComposer :=
  let s := s.handlePasteBurstFlush setup isImage now
  match key with
  | .enter => s.handleEnter now
  | .char ch =>
    if ch.ch.toNat < 128 then s.handleAsciiChar setup isImage ch.ch now
    else s.handleNonAsciiChar setup isImage ch.ch now
  | .other inserts => s.handleOtherKey setup isImage inserts

/-- `in_slash_context`. The command popup is there for a first line that starts with a slash
only. -/
def inSlashContext (setup : Setup) (s : ChatComposer) : Bool :=
  setup.slashCommandsEnabled && !s.isBashMode &&
    (((lines (shownText s.textarea)).head?.getD []).head? = some '/')

/-- `handle_submission_with_time` of an Enter that is taken as a newline; nothing where it submits
or dispatches a command. -/
def handleSubmissionWithTime (setup : Setup) (s : ChatComposer) (now : Nat) :
    Option ChatComposer :=
  if s.inSlashContext setup then none
  else
    match s.pasteBurst.appendNewlineIfActive now with
    | (pasteBurst, true) => some { s with pasteBurst }
    | (_, false) =>
      if s.pasteBurst.newlineShouldInsertInsteadOfSubmit now then
        some { s with
          textarea := s.textarea ++ [.char '\n']
          pasteBurst := s.pasteBurst.extendWindow now }
      else none

end ChatComposer

/-- What happens to the composer. -/
inductive Action
  /-- A UI tick: `flush_paste_burst_if_due`. -/
  | tick
  /-- Enter alone. -/
  | submit
  | key (key : Key)
  deriving DecidableEq

/-- An action, when it happens, and which texts are paths of images then. -/
structure Event where
  action : Action
  now : Nat
  isImage : List Char → Bool

/-- What the user types by an action. -/
def Action.typed : Action → List Char
  | tick => []
  | submit | key .enter => ['\n']
  | key (.char ch) => [ch.ch]
  | key (.other inserts) => inserts

/-- The characters typed by the events. -/
def typed (es : List Event) : List Char := es.flatMap fun e => e.action.typed

namespace ChatComposer

/-- The composer after an event, as long as it is not an Enter that submits. -/
def step (setup : Setup) (s : ChatComposer) (e : Event) : Option ChatComposer :=
  match e.action with
  | .tick => some (s.handlePasteBurstFlush setup e.isImage e.now)
  | .submit => s.handleSubmissionWithTime setup e.now
  | .key key => some (s.handleInputBasicWithTime setup e.isImage key e.now)

/-- The composer after a list of events. -/
def run (setup : Setup) (s : ChatComposer) (es : List Event) : Option ChatComposer :=
  es.foldlM (step setup) s

end ChatComposer

end Mcodex.Tui
