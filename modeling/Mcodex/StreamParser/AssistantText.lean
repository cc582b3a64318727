import Mcodex.StreamParser.InlineHiddenTag
import Mcodex.StreamParser.TaggedLine

/-!
# The markup of assistant text

Citations are cut out of the text as it comes, and in plan mode what is left goes on to the parser
of the plan blocks. The first parser cuts the text it leaves into pieces of its own; since both
parsers depend on the text alone, so does what the two give together.
-/

namespace Mcodex.StreamParser

open Segment

universe u

inductive CitationTag
  | citation
  deriving DecidableEq

def citationOpen : List Char := "<oai-mem-citation>".toList

def citationClose : List Char := "</oai-mem-citation>".toList

structure CitationStreamParser where
  inner : InlineHiddenTagParser CitationTag

namespace CitationStreamParser

def new : CitationStreamParser :=
  ⟨.new [⟨.citation, citationOpen, citationClose, by decide, by decide⟩]⟩

/-- The bodies of the citations. -/
def strings (chunk : StreamTextChunk (ExtractedInlineTag CitationTag)) :
    StreamTextChunk (List Char) :=
  ⟨chunk.visibleText, chunk.extracted.map (·.content)⟩

def pushStr (parser : CitationStreamParser) (chunk : List Char) :
    StreamTextChunk (List Char) × CitationStreamParser :=
  let (out, inner) := parser.inner.pushStr chunk
  (strings out, ⟨inner⟩)

def finish (parser : CitationStreamParser) : StreamTextChunk (List Char) × CitationStreamParser :=
  let (out, inner) := parser.inner.finish
  (strings out, ⟨inner⟩)

end CitationStreamParser

inductive PlanTag
  | proposedPlan
  deriving DecidableEq

inductive ProposedPlanSegment
  | normal (text : List Char)
  | proposedPlanStart
  | proposedPlanDelta (text : List Char)
  | proposedPlanEnd
  deriving DecidableEq

namespace ProposedPlanSegment

def mapped : TaggedLineSegment PlanTag → ProposedPlanSegment
  | .normal text => .normal text
  | .tagStart .proposedPlan => .proposedPlanStart
  | .tagDelta .proposedPlan text => .proposedPlanDelta text
  | .tagEnd .proposedPlan => .proposedPlanEnd

/-- The text of a segment that is shown. -/
def visible : ProposedPlanSegment → List Char
  | .normal text => text
  | _ => []

/-- Adjacent normal segments and adjacent plan deltas are merged. -/
def join : ProposedPlanSegment → ProposedPlanSegment → Option ProposedPlanSegment
  | .normal text, .normal text' => some (.normal (text ++ text'))
  | .proposedPlanDelta text, .proposedPlanDelta text' => some (.proposedPlanDelta (text ++ text'))
  | _, _ => none

theorem join_mapped (segment segment' : TaggedLineSegment PlanTag) :
    join (mapped segment) (mapped segment') = (segment.join segment').map mapped := by
  cases segment <;> cases segment' <;> rfl

theorem visible_join {segment segment' joined : ProposedPlanSegment}
    (h : segment.join segment' = some joined) :
    joined.visible = segment.visible ++ segment'.visible := by
  cases segment <;> cases segment' <;> cases h <;> rfl

end ProposedPlanSegment

def openTag : List Char := "<proposed_plan>".toList

def closeTag : List Char := "</proposed_plan>".toList

def mapSegments (segments : List (TaggedLineSegment PlanTag)) :
    StreamTextChunk ProposedPlanSegment :=
  segments.foldl
    (fun out segment =>
      let mapped := ProposedPlanSegment.mapped segment
      ⟨out.visibleText ++ mapped.visible, out.extracted ++ [mapped]⟩)
    .empty

structure ProposedPlanParser where
  parser : TaggedLineParser PlanTag

namespace ProposedPlanParser

def new : ProposedPlanParser := ⟨.new [⟨openTag, closeTag, .proposedPlan⟩]⟩

def pushStr (plan : ProposedPlanParser) (chunk : List Char) :
    StreamTextChunk ProposedPlanSegment × ProposedPlanParser :=
  let (segments, parser) := plan.parser.parse chunk
  (mapSegments segments, ⟨parser⟩)

def finish (plan : ProposedPlanParser) :
    StreamTextChunk ProposedPlanSegment × ProposedPlanParser :=
  let (segments, parser) := plan.parser.finish
  (mapSegments segments, ⟨parser⟩)

end ProposedPlanParser

structure AssistantTextChunk where
  visibleText : List Char
  citations : List (List Char)
  planSegments : List ProposedPlanSegment
  deriving DecidableEq

def AssistantTextChunk.append (first second : AssistantTextChunk) : AssistantTextChunk :=
  ⟨first.visibleText ++ second.visibleText, first.citations ++ second.citations,
    first.planSegments ++ second.planSegments⟩

structure AssistantTextStreamParser where
  planMode : Bool
  citations : CitationStreamParser
  plan : ProposedPlanParser

namespace AssistantTextStreamParser

def new (planMode : Bool) : AssistantTextStreamParser := ⟨planMode, .new, .new⟩

def parseVisibleText (parser : AssistantTextStreamParser) (visibleText : List Char) :
    AssistantTextChunk × AssistantTextStreamParser :=
  if parser.planMode then
    let (planChunk, plan) := parser.plan.pushStr visibleText
    (⟨planChunk.visibleText, [], planChunk.extracted⟩, { parser with plan })
  else (⟨visibleText, [], []⟩, parser)

def pushStr (parser : AssistantTextStreamParser) (chunk : List Char) :
    AssistantTextChunk × AssistantTextStreamParser :=
  let (citationChunk, citations) := parser.citations.pushStr chunk
  let (out, parser) := { parser with citations }.parseVisibleText citationChunk.visibleText
  ({ out with citations := citationChunk.extracted }, parser)

def finish (parser : AssistantTextStreamParser) : AssistantTextChunk × AssistantTextStreamParser :=
  let (citationChunk, citations) := parser.citations.finish
  let (out, parser) := { parser with citations }.parseVisibleText citationChunk.visibleText
  if parser.planMode then
    -- The source appends the tail only when it is not empty.
    let (tail, plan) := parser.plan.finish
    (⟨out.visibleText ++ tail.visibleText, citationChunk.extracted,
        out.planSegments ++ tail.extracted⟩, { parser with plan })
  else ({ out with citations := citationChunk.extracted }, parser)

/-- Push the chunks one after the other, and finish. -/
def pushAll (parser : AssistantTextStreamParser) : List (List Char) → AssistantTextChunk
  | [] => parser.finish.1
  | chunk :: chunks =>
    let (out, parser) := parser.pushStr chunk
    out.append (parser.pushAll chunks)

end AssistantTextStreamParser

/-! ## What the stacked parsers give -/

theorem mapSegments_eq (segments : List (TaggedLineSegment PlanTag)) :
    mapSegments segments =
      ⟨(segments.map ProposedPlanSegment.mapped).flatMap ProposedPlanSegment.visible,
        segments.map ProposedPlanSegment.mapped⟩ := by
  induction segments using List.reverseRecOn with
  | nil => rfl
  | append_singleton segments segment ih =>
    rw [mapSegments, List.foldl_concat, ← mapSegments, ih]
    simp

/-- The visible text that each chunk leaves, and the end of the stream after them. -/
def InlineHiddenTagParser.visiblePieces {T : Type u} (parser : InlineHiddenTagParser T) :
    List (List Char) → List (List Char)
  | [] => [parser.finish.1.visibleText]
  | chunk :: chunks =>
    (parser.pushStr chunk).1.visibleText :: (parser.pushStr chunk).2.visiblePieces chunks

theorem InlineHiddenTagParser.flatten_visiblePieces {T : Type u} (parser : InlineHiddenTagParser T)
    (chunks : List (List Char)) :
    (parser.visiblePieces chunks).flatten = (parser.pushAll chunks).visibleText := by
  induction chunks generalizing parser with
  | nil => rw [visiblePieces, List.flatten_singleton]; rfl
  | cons chunk chunks ih => rw [visiblePieces, List.flatten_cons, ih]; rfl

/-- The segments of a parser that reads the pieces and finishes. -/
def TaggedLineParser.segmentsOf (parser : TaggedLineParser PlanTag) (pieces : List (List Char)) :
    List (TaggedLineSegment PlanTag) :=
  (parser.parseAll pieces).1 ++ (parser.parseAll pieces).2.finish.1

/-- How a text is cut does not change the runs of its segments. -/
theorem TaggedLineParser.mergeRuns_segmentsOf (parser : TaggedLineParser PlanTag)
    (pieces : List (List Char)) :
    mergeRuns TaggedLineSegment.join (parser.segmentsOf pieces) =
      mergeRuns TaggedLineSegment.join (parser.emitsAll pieces.flatten ++
        (pieces.flatten.foldl TaggedLineParser.next parser).finish.1) := by
  obtain ⟨hparser, hruns⟩ := parser.parseAll_spec pieces
  rw [segmentsOf, hparser]
  exact mergeRuns_append TaggedLineSegment.lawfulJoin_join hruns _

namespace AssistantTextStreamParser

theorem pushAll_text (inner : InlineHiddenTagParser CitationTag) (plan : ProposedPlanParser)
    (chunks : List (List Char)) :
    pushAll ⟨false, ⟨inner⟩, plan⟩ chunks =
      ⟨(inner.pushAll chunks).visibleText, (inner.pushAll chunks).extracted.map (·.content), []⟩ := by
  induction chunks generalizing inner with
  | nil => rfl
  | cons chunk chunks ih =>
    show AssistantTextChunk.append
      ⟨(inner.pushStr chunk).1.visibleText, (inner.pushStr chunk).1.extracted.map (·.content), []⟩
      (pushAll ⟨false, ⟨(inner.pushStr chunk).2⟩, plan⟩ chunks) = _
    rw [ih]
    simp [AssistantTextChunk.append, InlineHiddenTagParser.pushAll, StreamTextChunk.append]

theorem pushAll_plan (inner : InlineHiddenTagParser CitationTag) (plan : TaggedLineParser PlanTag)
    (chunks : List (List Char)) :
    pushAll ⟨true, ⟨inner⟩, ⟨plan⟩⟩ chunks =
      let segments := (plan.segmentsOf (inner.visiblePieces chunks)).map ProposedPlanSegment.mapped
      ⟨segments.flatMap ProposedPlanSegment.visible,
        (inner.pushAll chunks).extracted.map (·.content), segments⟩ := by
  induction chunks generalizing inner plan with
  | nil =>
    let piece := inner.finish.1.visibleText
    show AssistantTextChunk.mk
      ((mapSegments (plan.parse piece).1).visibleText ++
        (mapSegments (plan.parse piece).2.finish.1).visibleText) _
      ((mapSegments (plan.parse piece).1).extracted ++
        (mapSegments (plan.parse piece).2.finish.1).extracted) = _
    rw [mapSegments_eq, mapSegments_eq]
    simp [TaggedLineParser.segmentsOf, TaggedLineParser.parseAll,
      InlineHiddenTagParser.visiblePieces, piece]
    rfl
  | cons chunk chunks ih =>
    let piece := (inner.pushStr chunk).1.visibleText
    show AssistantTextChunk.append
      ⟨(mapSegments (plan.parse piece).1).visibleText,
        (inner.pushStr chunk).1.extracted.map (·.content),
        (mapSegments (plan.parse piece).1).extracted⟩
      (pushAll ⟨true, ⟨(inner.pushStr chunk).2⟩, ⟨(plan.parse piece).2⟩⟩ chunks) = _
    rw [ih, mapSegments_eq]
    simp [AssistantTextChunk.append, InlineHiddenTagParser.pushAll, StreamTextChunk.append,
      TaggedLineParser.segmentsOf, TaggedLineParser.parseAll, InlineHiddenTagParser.visiblePieces,
      piece]

/-- Two streams of one text give the same text, citations and runs of plan segments. -/
theorem pushAll_congr (planMode : Bool) {chunks chunks' : List (List Char)}
    (h : chunks.flatten = chunks'.flatten) :
    ((new planMode).pushAll chunks).visibleText = ((new planMode).pushAll chunks').visibleText ∧
    ((new planMode).pushAll chunks).citations = ((new planMode).pushAll chunks').citations ∧
    mergeRuns ProposedPlanSegment.join ((new planMode).pushAll chunks).planSegments =
      mergeRuns ProposedPlanSegment.join ((new planMode).pushAll chunks').planSegments := by
  let inner := CitationStreamParser.new.inner
  have hinner : inner.pushAll chunks = inner.pushAll chunks' := by
    have hspecs : Separate inner.specs := List.pairwise_singleton _ _
    rw [inner.pushAll_eq hspecs (InlineHiddenTagParser.idle_new _) chunks,
      inner.pushAll_eq hspecs (InlineHiddenTagParser.idle_new _) chunks', h]
  cases planMode with
  | false =>
    have htext (chunks : List (List Char)) : (new false).pushAll chunks = _ :=
      pushAll_text inner .new chunks
    rw [htext, htext, hinner]
    exact ⟨rfl, rfl, rfl⟩
  | true =>
    let plan := ProposedPlanParser.new.parser
    have hplan (chunks : List (List Char)) : (new true).pushAll chunks = _ :=
      pushAll_plan inner plan chunks
    -- The pieces that the first parser leaves make the same text.
    have hruns : mergeRuns ProposedPlanSegment.join
          ((plan.segmentsOf (inner.visiblePieces chunks)).map ProposedPlanSegment.mapped) =
        mergeRuns ProposedPlanSegment.join
          ((plan.segmentsOf (inner.visiblePieces chunks')).map ProposedPlanSegment.mapped) := by
      rw [← map_mergeRuns ProposedPlanSegment.join_mapped, plan.mergeRuns_segmentsOf,
        inner.flatten_visiblePieces, hinner, ← inner.flatten_visiblePieces,
        ← plan.mergeRuns_segmentsOf, map_mergeRuns ProposedPlanSegment.join_mapped]
    have hvisible := congrArg (List.flatMap ProposedPlanSegment.visible) hruns
    rw [flatMap_mergeRuns fun _ _ _ => ProposedPlanSegment.visible_join,
      flatMap_mergeRuns fun _ _ _ => ProposedPlanSegment.visible_join] at hvisible
    rw [hplan, hplan, hinner]
    exact ⟨hvisible, rfl, hruns⟩

/-- How a text is cut into chunks changes nothing of what is given for it, and where no opening
delimiter stands inside another, what is given is the leftmost extraction. -/
theorem pushAll_flatten {T : Type u} (specs : List (InlineTagSpec T)) (h : Separate specs)
    (planMode : Bool) (chunks : List (List Char)) :
    (let out := (new planMode).pushAll chunks
      let whole := (new planMode).pushAll [chunks.flatten]
      out.visibleText = whole.visibleText ∧ out.citations = whole.citations ∧
        mergeRuns ProposedPlanSegment.join out.planSegments =
          mergeRuns ProposedPlanSegment.join whole.planSegments) ∧
      (InlineHiddenTagParser.new specs).pushAll chunks =
        leftmostExtraction specs none chunks.flatten := by
  refine ⟨pushAll_congr planMode (by rw [List.flatten_singleton]), ?_⟩
  exact InlineHiddenTagParser.pushAll_eq _ h (InlineHiddenTagParser.idle_new specs) chunks

theorem pushAll_flatten_two_tags :
    let specs : List (InlineTagSpec Bool) :=
      [⟨true, "<a>".toList, "</a>".toList, by decide, by decide⟩,
        ⟨false, "<b>".toList, "</b>".toList, by decide, by decide⟩]
    let chunks := ["1<".toList, "a>x</a".toList, ">2<b>y".toList]
    (InlineHiddenTagParser.new specs).pushAll chunks =
      leftmostExtraction specs none chunks.flatten := by
  intro specs chunks
  refine (pushAll_flatten specs ?_ true chunks).2
  simp only [Separate, specs, List.pairwise_cons]
  decide

end AssistantTextStreamParser

end Mcodex.StreamParser
