import Mcodex.Lib.Utf8
import Mcodex.StreamParser.InlineHiddenTag

/-!
# Streamed bytes

`Utf8StreamParser` feeds the text of streamed bytes to a parser of text. It keeps the bytes of a
character that is not complete yet. The inner parser is pushed the pieces of the text between the
places where chunks end (`collect_eq`), and a chunk that is no UTF-8 changes nothing.
-/

namespace Mcodex.StreamParser

open Utf8

universe u v

/-- Parsers that consume streamed text and emit visible text plus extracted payloads. -/
class StreamTextParser (P : Type u) (E : outParam (Type v)) where
  /-- Feed a new text chunk. -/
  pushStr : P → List Char → StreamTextChunk E × P
  /-- Flush any buffered state at end-of-stream. -/
  finish : P → StreamTextChunk E × P

namespace StreamTextParser

variable {P : Type u} {E : Type v} [StreamTextParser P E]

/-- Push the chunks one after the other, and finish. -/
def collect (parser : P) : List (List Char) → StreamTextChunk E
  | [] => (finish parser).1
  | chunk :: chunks =>
    let (out, parser) := pushStr parser chunk
    out.append (collect parser chunks)

/-- The output does not depend on how the text is cut. -/
def ChunkIndependent (parser : P) : Prop :=
  ∀ chunks chunks' : List (List Char), chunks.flatten = chunks'.flatten →
    collect parser chunks = collect parser chunks'

end StreamTextParser

inductive Utf8StreamParserError where
  | invalidUtf8 (validUpTo errorLen : Nat)
  | incompleteUtf8AtEof
  deriving DecidableEq, Repr

/-- Wraps a parser and accepts raw bytes. -/
structure Utf8StreamParser (P : Type u) where
  inner : P
  pendingUtf8 : List UInt8

instance {T : Type u} : StreamTextParser (InlineHiddenTagParser T) (ExtractedInlineTag T) where
  pushStr := InlineHiddenTagParser.pushStr
  finish := InlineHiddenTagParser.finish

namespace Utf8StreamParser

variable {P : Type u} {E : Type v} [StreamTextParser P E]

def new (inner : P) : Utf8StreamParser P := ⟨inner, []⟩

/-- Feed a raw byte chunk. A chunk that contains invalid UTF-8 is rolled back. -/
def pushBytes (parser : Utf8StreamParser P) (chunk : List UInt8) :
    Except Utf8StreamParserError (StreamTextChunk E) × Utf8StreamParser P :=
  let oldLen := parser.pendingUtf8.length
  let pendingUtf8 := parser.pendingUtf8 ++ chunk
  match fromUtf8 pendingUtf8 with
  | .ok text =>
    let (out, inner) := StreamTextParser.pushStr parser.inner text
    (.ok out, ⟨inner, []⟩)
  | .error err =>
    match err.errorLen with
    | some errorLen =>
      (.error (.invalidUtf8 err.validUpTo errorLen), ⟨parser.inner, pendingUtf8.take oldLen⟩)
    | none =>
      if err.validUpTo = 0 then (.ok .empty, ⟨parser.inner, pendingUtf8⟩)
      else
        match fromUtf8 (pendingUtf8.take err.validUpTo) with
        | .ok text =>
          let (out, inner) := StreamTextParser.pushStr parser.inner text
          (.ok out, ⟨inner, pendingUtf8.drop err.validUpTo⟩)
        | .error prefixErr =>
          (.error (.invalidUtf8 prefixErr.validUpTo (prefixErr.errorLen.getD 0)),
            ⟨parser.inner, pendingUtf8.take oldLen⟩)

/-- What pending bytes at the end of the stream are: nothing, text, or an error. -/
def flushPending (parser : Utf8StreamParser P) :
    Except Utf8StreamParserError (StreamTextChunk E × Utf8StreamParser P) :=
  if parser.pendingUtf8.isEmpty then .ok (.empty, parser)
  else
    match fromUtf8 parser.pendingUtf8 with
    | .ok text =>
      let (out, inner) := StreamTextParser.pushStr parser.inner text
      .ok (out, ⟨inner, []⟩)
    | .error err =>
      match err.errorLen with
      | some errorLen => .error (.invalidUtf8 err.validUpTo errorLen)
      | none => .error .incompleteUtf8AtEof

def finish (parser : Utf8StreamParser P) :
    Except Utf8StreamParserError (StreamTextChunk E) × Utf8StreamParser P :=
  match parser.flushPending with
  | .error err => (.error err, parser)
  | .ok (out, parser) =>
    let (tail, inner) := StreamTextParser.finish parser.inner
    (.ok (out.append tail), { parser with inner })

/-- Push the chunks one after the other, and finish. The first error ends it. -/
def collect (parser : Utf8StreamParser P) :
    List (List UInt8) → Except Utf8StreamParserError (StreamTextChunk E)
  | [] => parser.finish.1
  | chunk :: chunks =>
    match parser.pushBytes chunk with
    | (.error err, _) => .error err
    | (.ok out, parser) => (parser.collect chunks).map out.append

end Utf8StreamParser

section
variable {P : Type u} {E : Type v} [StreamTextParser P E] {parser : Utf8StreamParser P}
  {chunk : List UInt8} {text : List Char}

/-- An error leaves the pending bytes and the inner parser as they were. -/
theorem pushBytes_eq_error {err : Utf8StreamParserError} {parser' : Utf8StreamParser P}
    (h : parser.pushBytes chunk = (.error err, parser')) : parser' = parser := by
  have hrollback : (⟨parser.inner, (parser.pendingUtf8 ++ chunk).take parser.pendingUtf8.length⟩ :
      Utf8StreamParser P) = parser := by rw [List.take_left]
  unfold Utf8StreamParser.pushBytes at h
  dsimp only at h
  split at h
  · cases h
  split at h
  · cases h
    exact hrollback
  split at h
  · cases h
  split at h
  · cases h
  · cases h
    exact hrollback

/-- The pending bytes and the chunk are those of a text and of the beginning of a character. Then
the text is pushed, unless there is none. -/
theorem pushBytes_of_cut {text' : List Char} {bytes : List UInt8}
    (h : parser.pendingUtf8 ++ chunk = encode text ++ bytes) (hcut : Cut bytes text') :
    parser.pushBytes chunk =
        (.ok (StreamTextParser.pushStr parser.inner text).1,
          ⟨(StreamTextParser.pushStr parser.inner text).2, bytes⟩) ∨
      (text = [] ∧ parser.pushBytes chunk = (.ok .empty, ⟨parser.inner, bytes⟩)) := by
  unfold Utf8StreamParser.pushBytes
  dsimp only
  rw [h]
  by_cases hne : bytes = []
  · subst hne
    rw [List.append_nil, fromUtf8_encode]
    exact .inl rfl
  · rw [fromUtf8_encode_append hcut hne]
    dsimp only
    split
    · rename_i hnone
      have hempty : text = [] := encode_eq_nil.1 (List.length_eq_zero_iff.1 hnone)
      subst hempty
      exact .inr ⟨rfl, rfl⟩
    · rw [List.take_left, List.drop_left, fromUtf8_encode]
      exact .inl rfl

/-- The inner parser is pushed the text in pieces. -/
theorem collect_eq (parser : Utf8StreamParser P) {chunks : List (List UInt8)}
    (h : parser.pendingUtf8 ++ chunks.flatten = encode text)
    (hcut : Cut parser.pendingUtf8 text) :
    ∃ pieces, pieces.flatten = text ∧
      parser.collect chunks = .ok (StreamTextParser.collect parser.inner pieces) := by
  induction chunks generalizing parser text with
  | nil =>
    rw [List.flatten_nil, List.append_nil] at h
    have hpending : parser.pendingUtf8 = [] := by
      refine hcut.resolve_right ?_
      rintro ⟨c, text, rfl, hpre, hne⟩
      rw [h, encode_cons] at hpre hne
      exact hne (hpre.eq_of_length_le (by rw [List.length_append]; omega))
    rw [hpending, eq_comm, encode_eq_nil] at h
    subst h
    refine ⟨[], rfl, ?_⟩
    unfold Utf8StreamParser.collect Utf8StreamParser.finish Utf8StreamParser.flushPending
    rw [hpending]
    rfl
  | cons chunk chunks ih =>
    rw [List.flatten_cons, ← List.append_assoc] at h
    obtain ⟨text₁, text₂, bytes, rfl, hbytes, hcut'⟩ :=
      exists_cut ⟨chunks.flatten, h⟩
    rw [hbytes, encode_append, List.append_assoc, List.append_cancel_left_eq] at h
    rw [Utf8StreamParser.collect]
    rcases pushBytes_of_cut hbytes hcut' with hpush | ⟨rfl, hpush⟩
    · rw [hpush]
      obtain ⟨pieces, rfl, hpieces⟩ := ih
        ⟨(StreamTextParser.pushStr parser.inner text₁).2, bytes⟩ h hcut'
      exact ⟨text₁ :: pieces, rfl, by dsimp only; rw [hpieces]; rfl⟩
    · rw [hpush]
      obtain ⟨pieces, rfl, hpieces⟩ := ih ⟨parser.inner, bytes⟩ h hcut'
      exact ⟨pieces, rfl, by dsimp only; rw [hpieces]; rfl⟩

/-- The hidden inline tags of a text do not depend on how it is cut. -/
theorem chunkIndependent_inlineHiddenTag {T : Type u} (specs : List (InlineTagSpec T))
    (h : Separate specs) : StreamTextParser.ChunkIndependent (InlineHiddenTagParser.new specs) := by
  have hcollect : ∀ (chunks : List (List Char)) (parser : InlineHiddenTagParser T),
      StreamTextParser.collect parser chunks = parser.pushAll chunks := by
    intro chunks
    induction chunks with
    | nil => exact fun _ => rfl
    | cons chunk chunks ih =>
      intro parser
      exact congrArg (StreamTextChunk.append (parser.pushStr chunk).1) (ih _)
  intro chunks chunks' hflatten
  have hidle := InlineHiddenTagParser.idle_new specs
  rw [hcollect, hcollect, InlineHiddenTagParser.pushAll_eq _ h hidle,
    InlineHiddenTagParser.pushAll_eq _ h hidle, hflatten]

/-- The chunks of the bytes of a text give what the inner parser gives for the text, and a chunk
that is an error changes nothing. -/
theorem utf8StreamParser_spec (inner : P) :
    (StreamTextParser.ChunkIndependent inner → ∀ (text : List Char) (chunks : List (List UInt8)),
      chunks.flatten = encode text →
      (Utf8StreamParser.new inner).collect chunks = .ok (StreamTextParser.collect inner [text])) ∧
    ∀ (parser : Utf8StreamParser P) (chunk : List UInt8) (err : Utf8StreamParserError),
      (parser.pushBytes chunk).1 = .error err → (parser.pushBytes chunk).2 = parser := by
  constructor
  · intro hinner text chunks hchunks
    obtain ⟨pieces, hpieces, hcollect⟩ :=
      collect_eq (Utf8StreamParser.new inner) hchunks (.inl rfl)
    rw [hcollect]
    exact congrArg _ (hinner pieces [text] (by rw [hpieces, List.flatten_singleton]))
  · intro parser chunk err herr
    exact pushBytes_eq_error (Prod.ext herr rfl)

end

/-- The two bytes of a character come in different chunks. -/
theorem utf8StreamParser_split_character :
    let specs : List (InlineTagSpec Unit) :=
      [⟨(), "<a>".toList, "</a>".toList, by decide, by decide⟩]
    (Utf8StreamParser.new (InlineHiddenTagParser.new specs)).collect
        [[0x41, 0xC3], [0xA9, 0x3C], [0x61, 0x3E, 0x62]] =
      .ok (StreamTextParser.collect (InlineHiddenTagParser.new specs) ["Aé<a>b".toList]) := by
  intro specs
  refine (utf8StreamParser_spec (InlineHiddenTagParser.new specs)).1
    (chunkIndependent_inlineHiddenTag specs ?_) _ _ (by decide)
  simp only [Separate, specs, List.pairwise_cons]
  decide

end Mcodex.StreamParser
