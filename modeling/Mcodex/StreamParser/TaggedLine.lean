import Mcodex.Lib.Segment
import Mcodex.Lib.Text

/-!
# Tags that stand alone on a line

The parser keeps back a line until it can disprove that the line is a tag, and gives the rest of
such a line as it comes. A chunk may end anywhere, so one run of text comes in pieces. The pieces of
a character at a time (`emits`) say what the run is: what any chunk gives has the same runs.
-/

namespace Mcodex.StreamParser

open Segment Text

universe u

structure TagSpec (T : Type u) where
  opening : List Char
  close : List Char
  tag : T

inductive TaggedLineSegment (T : Type u)
  | normal (text : List Char)
  | tagStart (tag : T)
  | tagDelta (tag : T) (text : List Char)
  | tagEnd (tag : T)
  deriving DecidableEq

structure TaggedLineParser (T : Type u) where
  specs : List (TagSpec T)
  activeTag : Option T
  detectTag : Bool
  lineBuffer : List Char

variable {T : Type u} [DecidableEq T]

def pushSegment (segments : List (TaggedLineSegment T)) (segment : TaggedLineSegment T) :
    List (TaggedLineSegment T) :=
  match segment with
  | .normal delta =>
    if delta = [] then segments
    else match segments.getLast? with
      | some (.normal existing) => segments.dropLast ++ [.normal (existing ++ delta)]
      | _ => segments ++ [.normal delta]
  | .tagDelta tag delta =>
    if delta = [] then segments
    else match segments.getLast? with
      | some (.tagDelta existingTag existing) =>
        if existingTag = tag then segments.dropLast ++ [.tagDelta existingTag (existing ++ delta)]
        else segments ++ [.tagDelta tag delta]
      | _ => segments ++ [.tagDelta tag delta]
  | .tagStart tag => segments ++ [.tagStart tag]
  | .tagEnd tag => segments ++ [.tagEnd tag]

namespace TaggedLineParser

def new (specs : List (TagSpec T)) : TaggedLineParser T := ⟨specs, none, true, []⟩

/-- The segment that `push_text` pushes. -/
def textSegment (parser : TaggedLineParser T) (text : List Char) : TaggedLineSegment T :=
  match parser.activeTag with
  | some tag => .tagDelta tag text
  | none => .normal text

def isTagPrefix (parser : TaggedLineParser T) (slug : List Char) : Bool :=
  let slug := trimEnd slug
  parser.specs.any fun spec => slug <+: spec.opening ∨ slug <+: spec.close

def matchOpen (parser : TaggedLineParser T) (slug : List Char) : Option T :=
  (parser.specs.find? (·.opening = slug)).map (·.tag)

def matchClose (parser : TaggedLineParser T) (slug : List Char) : Option T :=
  (parser.specs.find? (·.close = slug)).map (·.tag)

/-- What a buffered line is, once it has ended: the segment that it gives, and the active tag after
it. Both `finish_line` and `finish` decide it in the same way. -/
def endLine (parser : TaggedLineParser T) (line : List Char) : TaggedLineSegment T × Option T :=
  let withoutNewline := if line.getLast? = some '\n' then line.dropLast else line
  let slug := trimEnd (trimStart withoutNewline)
  match (parser.matchOpen slug).filter fun _ => parser.activeTag.isNone with
  | some tag => (.tagStart tag, some tag)
  | none =>
    match (parser.matchClose slug).filter fun tag => parser.activeTag = some tag with
    | some tag => (.tagEnd tag, none)
    | none => (parser.textSegment line, parser.activeTag)

/-- The parser in the loop of `parse`, with its segments and the run it has not pushed. -/
structure Progress (T : Type u) where
  parser : TaggedLineParser T
  segments : List (TaggedLineSegment T)
  run : List Char

/-- `push_text` of the run, unless it is empty. -/
def Progress.flush (progress : Progress T) : List (TaggedLineSegment T) :=
  if progress.run = [] then progress.segments
  else pushSegment progress.segments (progress.parser.textSegment progress.run)

/-- The body of the loop. -/
def parseChar (progress : Progress T) (ch : Char) : Progress T :=
  let parser := progress.parser
  if parser.detectTag then
    let segments := progress.flush
    let line := parser.lineBuffer ++ [ch]
    if ch = '\n' then
      let (segment, activeTag) := parser.endLine line
      ⟨{ parser with activeTag, detectTag := true, lineBuffer := [] },
        pushSegment segments segment, []⟩
    else
      let slug := trimStart line
      if slug = [] ∨ parser.isTagPrefix slug then
        ⟨{ parser with lineBuffer := line }, segments, []⟩
      else
        ⟨{ parser with detectTag := false, lineBuffer := [] },
          pushSegment segments (parser.textSegment line), []⟩
  else
    let run := progress.run ++ [ch]
    if ch = '\n' then
      ⟨{ parser with detectTag := true },
        pushSegment progress.segments (parser.textSegment run), []⟩
    else ⟨parser, progress.segments, run⟩

def parse (parser : TaggedLineParser T) (delta : List Char) :
    List (TaggedLineSegment T) × TaggedLineParser T :=
  let progress := delta.foldl parseChar ⟨parser, [], []⟩
  (progress.flush, progress.parser)

def finish (parser : TaggedLineParser T) : List (TaggedLineSegment T) × TaggedLineParser T :=
  let (segments, activeTag) :=
    if parser.lineBuffer = [] then ([], parser.activeTag)
    else
      let (segment, activeTag) := parser.endLine parser.lineBuffer
      (pushSegment [] segment, activeTag)
  let segments :=
    match activeTag with
    | some tag => pushSegment segments (.tagEnd tag)
    | none => segments
  (segments, { parser with activeTag := none, detectTag := true, lineBuffer := [] })

end TaggedLineParser

/-! ## Runs of segments -/

/-- Two texts of one kind join. -/
def TaggedLineSegment.join : TaggedLineSegment T → TaggedLineSegment T →
    Option (TaggedLineSegment T)
  | .normal text, .normal text' => some (.normal (text ++ text'))
  | .tagDelta tag text, .tagDelta tag' text' =>
    if tag = tag' then some (.tagDelta tag (text ++ text')) else none
  | _, _ => none

namespace TaggedLineSegment

variable {x y z xy : TaggedLineSegment T}

theorem join_eq_some : x.join y = some xy ↔
    (∃ text text', x = .normal text ∧ y = .normal text' ∧ xy = .normal (text ++ text')) ∨
    ∃ tag text text', x = .tagDelta tag text ∧ y = .tagDelta tag text' ∧
      xy = .tagDelta tag (text ++ text') := by
  cases x <;> cases y <;> simp [join, eq_comm]

theorem lawfulJoin_join : LawfulJoin (join (T := T)) where
  assoc {x y z xy yz} hxy hyz := by
    rcases join_eq_some.1 hxy with
      ⟨text, text', rfl, rfl, rfl⟩ | ⟨tag, text, text', rfl, rfl, rfl⟩
    · rcases join_eq_some.1 hyz with ⟨_, text'', heq, rfl, rfl⟩ | ⟨_, _, _, heq, -, -⟩
      · cases heq
        exact ⟨_, rfl, by simp [join]⟩
      · cases heq
    · rcases join_eq_some.1 hyz with ⟨_, _, heq, -, -⟩ | ⟨_, _, text'', heq, rfl, rfl⟩
      · cases heq
      · cases heq
        exact ⟨.tagDelta tag (text ++ text' ++ text''), by simp [join], by simp [join]⟩
  none {x y z xy} hxy hyz := by
    rcases join_eq_some.1 hxy with
      ⟨text, text', rfl, rfl, rfl⟩ | ⟨tag, text, text', rfl, rfl, rfl⟩
    · cases z with
      | normal _ => cases hyz
      | tagStart _ | tagDelta _ _ | tagEnd _ => rfl
    · cases z with
      | normal _ | tagStart _ | tagEnd _ => rfl
      | tagDelta tag' _ =>
        rw [join] at hyz ⊢
        split at hyz
        · cases hyz
        · rw [if_neg ‹_›]

/-- The segment is no text, or one that is not empty. -/
def HasText : TaggedLineSegment T → Prop
  | .normal text => text ≠ []
  | .tagDelta _ text => text ≠ []
  | _ => True

end TaggedLineSegment

open TaggedLineSegment

/-- Pushing joins a segment to the last one or puts it behind. -/
theorem pushSegment_concat {segments : List (TaggedLineSegment T)}
    {last segment : TaggedLineSegment T} (h : segment.HasText) :
    pushSegment (segments ++ [last]) segment =
      segments ++ ((last.join segment).elim [last, segment] fun joined => [joined]) := by
  cases segment with
  | normal delta =>
    rw [pushSegment, if_neg h, List.getLast?_concat, List.dropLast_concat]
    cases last <;> simp [join]
  | tagDelta tag delta =>
    rw [pushSegment, if_neg h, List.getLast?_concat, List.dropLast_concat]
    cases last with
    | tagDelta existingTag existing =>
      by_cases htag : existingTag = tag <;> simp [join, htag]
    | normal _ | tagStart _ | tagEnd _ => simp [join]
  | tagStart tag | tagEnd tag => cases last <;> simp [pushSegment, join]

/-- Pushing gives the runs of putting the segment behind. -/
theorem mergeRuns_pushSegment {segment : TaggedLineSegment T} (h : segment.HasText)
    (segments : List (TaggedLineSegment T)) :
    mergeRuns join (pushSegment segments segment) = mergeRuns join (segments ++ [segment]) := by
  rcases List.eq_nil_or_concat segments with rfl | ⟨init, last, rfl⟩
  · cases segment with
    | normal delta | tagDelta tag delta => simp [pushSegment, show delta ≠ [] from h]
    | tagStart tag | tagEnd tag => rfl
  · rw [List.concat_eq_append, pushSegment_concat h, List.append_assoc]
    refine mergeRuns_append_right ?_ init
    cases hjoin : last.join segment with
    | none => rfl
    | some joined => exact (mergeRuns_pair hjoin).symm

/-! ## One character at a time -/

namespace TaggedLineParser

variable {parser : TaggedLineParser T} {ch : Char}

/-- The parser after a character. -/
def next (parser : TaggedLineParser T) (ch : Char) : TaggedLineParser T :=
  (parseChar ⟨parser, [], []⟩ ch).parser

/-- What a character alone gives. -/
def emits (parser : TaggedLineParser T) (ch : Char) : List (TaggedLineSegment T) :=
  (parse parser [ch]).1

/-- What the characters of a text give one by one. -/
def emitsAll (parser : TaggedLineParser T) : List Char → List (TaggedLineSegment T)
  | [] => []
  | ch :: text => parser.emits ch ++ (parser.next ch).emitsAll text

omit [DecidableEq T] in
theorem hasText_textSegment {text : List Char} (h : text ≠ []) :
    (parser.textSegment text).HasText := by
  rw [textSegment]
  cases parser.activeTag <;> exact h

theorem hasText_endLine {line : List Char} (h : line ≠ []) : (parser.endLine line).1.HasText := by
  rw [endLine]
  split
  · trivial
  · split
    · trivial
    · exact hasText_textSegment h

/-- A run is open only on a line that is no tag. -/
def Progress.Open (progress : Progress T) : Prop :=
  progress.run ≠ [] → progress.parser.detectTag = false

theorem join_textSegment (text text' : List Char) :
    (parser.textSegment text).join (parser.textSegment text') =
      some (parser.textSegment (text ++ text')) := by
  unfold textSegment
  cases parser.activeTag <;> simp [join]

/-- Pushing onto segments or apart from them gives the same runs. -/
theorem mergeRuns_pushSegment_append {segment : TaggedLineSegment T} (h : segment.HasText)
    (segments : List (TaggedLineSegment T)) :
    mergeRuns join (pushSegment segments segment) =
      mergeRuns join (segments ++ pushSegment [] segment) :=
  (mergeRuns_pushSegment h segments).trans
    (mergeRuns_append_right (mergeRuns_pushSegment h []).symm segments)

/-- A run goes on with the next character. -/
theorem mergeRuns_run (segments : List (TaggedLineSegment T)) (run : List Char) (ch : Char) :
    mergeRuns join (pushSegment segments (parser.textSegment (run ++ [ch]))) =
      mergeRuns join (Progress.flush ⟨parser, segments, run⟩ ++
        pushSegment [] (parser.textSegment [ch])) := by
  have hch : (parser.textSegment [ch]).HasText := hasText_textSegment (by simp)
  by_cases hrun : run = []
  · rw [hrun, List.nil_append]
    exact mergeRuns_pushSegment_append hch segments
  · have hrun' : (parser.textSegment run).HasText := hasText_textSegment hrun
    have hpair : mergeRuns join [parser.textSegment run, parser.textSegment [ch]] = _ :=
      mergeRuns_pair (join_textSegment run [ch])
    rw [mergeRuns_pushSegment (hasText_textSegment (by simp)) segments,
      mergeRuns_append_right hpair.symm segments, Progress.flush, if_neg hrun]
    have hflush := mergeRuns_append lawfulJoin_join
      (mergeRuns_pushSegment hrun' segments)
      (pushSegment [] (parser.textSegment [ch]))
    rw [hflush, List.append_assoc]
    exact mergeRuns_append_right (mergeRuns_append_right
      (mergeRuns_pushSegment hch []).symm [parser.textSegment run]) segments

theorem parseChar_spec {progress : Progress T} (h : progress.Open) (ch : Char) :
    (parseChar progress ch).Open ∧ (parseChar progress ch).parser = progress.parser.next ch ∧
      mergeRuns join (parseChar progress ch).flush =
        mergeRuns join (progress.flush ++ progress.parser.emits ch) := by
  obtain ⟨parser, segments, run⟩ := progress
  cases hdetect : parser.detectTag with
  | true =>
    obtain rfl : run = [] := by
      by_contra hrun
      exact absurd (hdetect.symm.trans (h hrun)) (by decide)
    by_cases hline : ch = '\n'
    · have hstep (segments : List (TaggedLineSegment T)) :
          parseChar ⟨parser, segments, []⟩ ch =
            ⟨{ parser with activeTag := (parser.endLine (parser.lineBuffer ++ [ch])).2,
                           detectTag := true, lineBuffer := [] },
              pushSegment segments (parser.endLine (parser.lineBuffer ++ [ch])).1, []⟩ := by
        simp [parseChar, Progress.flush, hdetect, hline]
      refine ⟨fun hrun => ?_, ?_, ?_⟩
      · rw [hstep] at hrun
        exact absurd rfl hrun
      · rw [next, hstep, hstep]
      · rw [hstep, emits, parse, List.foldl_cons, List.foldl_nil, hstep]
        exact mergeRuns_pushSegment_append (hasText_endLine (by simp)) segments
    · by_cases hslug : trimStart (parser.lineBuffer ++ [ch]) = [] ∨
          parser.isTagPrefix (trimStart (parser.lineBuffer ++ [ch]))
      · have hstep (segments : List (TaggedLineSegment T)) :
            parseChar ⟨parser, segments, []⟩ ch =
              ⟨{ parser with lineBuffer := parser.lineBuffer ++ [ch] }, segments, []⟩ := by
          simp [parseChar, Progress.flush, hdetect, hline, hslug]
        refine ⟨fun hrun => ?_, ?_, ?_⟩
        · rw [hstep] at hrun
          exact absurd rfl hrun
        · rw [next, hstep, hstep]
        · rw [hstep, emits, parse, List.foldl_cons, List.foldl_nil, hstep]
          show mergeRuns join segments = mergeRuns join (segments ++ [])
          rw [List.append_nil]
      · have hstep (segments : List (TaggedLineSegment T)) :
            parseChar ⟨parser, segments, []⟩ ch =
              ⟨{ parser with detectTag := false, lineBuffer := [] },
                pushSegment segments (parser.textSegment (parser.lineBuffer ++ [ch])), []⟩ := by
          simp [parseChar, Progress.flush, hdetect, hline, hslug]
        refine ⟨fun hrun => ?_, ?_, ?_⟩
        · rw [hstep] at hrun
          exact absurd rfl hrun
        · rw [next, hstep, hstep]
        · rw [hstep, emits, parse, List.foldl_cons, List.foldl_nil, hstep]
          exact mergeRuns_pushSegment_append (hasText_textSegment (by simp)) segments
  | false =>
    by_cases hline : ch = '\n'
    · have hstep (segments : List (TaggedLineSegment T)) (run : List Char) :
          parseChar ⟨parser, segments, run⟩ ch =
            ⟨{ parser with detectTag := true },
              pushSegment segments (parser.textSegment (run ++ [ch])), []⟩ := by
        simp [parseChar, hdetect, hline]
      refine ⟨fun hrun => ?_, ?_, ?_⟩
      · rw [hstep] at hrun
        exact absurd rfl hrun
      · rw [next, hstep, hstep]
      · rw [hstep, emits, parse, List.foldl_cons, List.foldl_nil, hstep]
        exact mergeRuns_run segments run ch
    · have hstep (segments : List (TaggedLineSegment T)) (run : List Char) :
          parseChar ⟨parser, segments, run⟩ ch = ⟨parser, segments, run ++ [ch]⟩ := by
        simp [parseChar, hdetect, hline]
      refine ⟨fun _ => ?_, ?_, ?_⟩
      · rw [hstep]
        exact hdetect
      · rw [next, hstep, hstep]
      · rw [hstep, emits, parse, List.foldl_cons, List.foldl_nil, hstep]
        show mergeRuns join (Progress.flush ⟨parser, segments, run ++ [ch]⟩) =
          mergeRuns join (_ ++ Progress.flush ⟨parser, [], [ch]⟩)
        rw [Progress.flush, Progress.flush.eq_def ⟨parser, [], [ch]⟩, if_neg (by simp),
          if_neg (by simp)]
        exact mergeRuns_run segments run ch

/-- What a chunk gives has the runs of its characters one by one. -/
theorem foldl_parseChar {progress : Progress T} (h : progress.Open) (delta : List Char) :
    (delta.foldl parseChar progress).parser = delta.foldl next progress.parser ∧
      mergeRuns join (delta.foldl parseChar progress).flush =
        mergeRuns join (progress.flush ++ progress.parser.emitsAll delta) := by
  induction delta generalizing progress with
  | nil => exact ⟨rfl, by rw [emitsAll, List.append_nil]; rfl⟩
  | cons ch delta ih =>
    obtain ⟨hopen, hparser, hruns⟩ := parseChar_spec h ch
    obtain ⟨hparsers, hall⟩ := ih hopen
    rw [hparser] at hparsers hall
    refine ⟨hparsers, hall.trans ?_⟩
    rw [mergeRuns_append lawfulJoin_join hruns, emitsAll, List.append_assoc]

theorem parse_spec (parser : TaggedLineParser T) (delta : List Char) :
    (parser.parse delta).2 = delta.foldl next parser ∧
      mergeRuns join (parser.parse delta).1 = mergeRuns join (parser.emitsAll delta) :=
  foldl_parseChar (fun hrun => absurd rfl hrun) delta

theorem emitsAll_append (parser : TaggedLineParser T) (text rest : List Char) :
    parser.emitsAll (text ++ rest) =
      parser.emitsAll text ++ (text.foldl next parser).emitsAll rest := by
  induction text generalizing parser with
  | nil => rfl
  | cons ch text ih => rw [List.cons_append, emitsAll, emitsAll, ih, List.append_assoc]; rfl

/-- Parse the chunks one after the other. -/
def parseAll (parser : TaggedLineParser T) :
    List (List Char) → List (TaggedLineSegment T) × TaggedLineParser T
  | [] => ([], parser)
  | chunk :: chunks =>
    let (segments, parser) := parser.parse chunk
    let (segments', parser) := parser.parseAll chunks
    (segments ++ segments', parser)

/-- The runs of the segments and the parser in the end depend on the text alone. -/
theorem parseAll_spec (parser : TaggedLineParser T) (chunks : List (List Char)) :
    (parser.parseAll chunks).2 = chunks.flatten.foldl next parser ∧
      mergeRuns join (parser.parseAll chunks).1 =
        mergeRuns join (parser.emitsAll chunks.flatten) := by
  induction chunks generalizing parser with
  | nil => exact ⟨rfl, rfl⟩
  | cons chunk chunks ih =>
    obtain ⟨hparser, hruns⟩ := parse_spec parser chunk
    obtain ⟨hparsers, hall⟩ := ih (parser.parse chunk).2
    rw [hparser] at hparsers hall
    rw [List.flatten_cons, List.foldl_append, emitsAll_append]
    refine ⟨hparser ▸ hparsers, ?_⟩
    show mergeRuns join ((parser.parse chunk).1 ++ ((parser.parse chunk).2.parseAll chunks).1) = _
    rw [hparser, mergeRuns_append_right hall, mergeRuns_append lawfulJoin_join hruns]

end TaggedLineParser

end Mcodex.StreamParser
