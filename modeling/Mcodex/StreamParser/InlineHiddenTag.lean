import Mathlib.Data.List.Pairwise
import Mcodex.Lib.Search

/-!
# Hidden inline tags

The streaming parser hides configured tags and extracts their contents. It keeps back the end of the
text that may be the beginning of a delimiter. Where no opening delimiter stands inside another,
what it gives for a text is the leftmost extraction of the whole text, however the text is cut into
chunks: each push leaves the extraction of what is kept back and all that may follow unchanged.
-/

namespace Mcodex.StreamParser

open Search

universe u

/-- Incremental parser result for one pushed chunk (or final flush). -/
structure StreamTextChunk (E : Type u) where
  visibleText : List Char
  extracted : List E
  deriving DecidableEq

namespace StreamTextChunk

variable {E : Type u}

def empty : StreamTextChunk E := ⟨[], []⟩

/-- What two chunks give one after the other. -/
def append (first second : StreamTextChunk E) : StreamTextChunk E :=
  ⟨first.visibleText ++ second.visibleText, first.extracted ++ second.extracted⟩

theorem empty_append (chunk : StreamTextChunk E) : empty.append chunk = chunk := rfl

theorem append_empty (chunk : StreamTextChunk E) : chunk.append empty = chunk := by
  simp [append, empty]

theorem append_assoc (first second third : StreamTextChunk E) :
    (first.append second).append third = first.append (second.append third) := by
  simp [append]

end StreamTextChunk

variable {T : Type u}

/-- One hidden inline tag. -/
structure ExtractedInlineTag (T : Type u) where
  tag : T
  content : List Char
  deriving DecidableEq

/-- Literal tag specification; the constructor of the parser asserts that both delimiters are
non-empty. -/
structure InlineTagSpec (T : Type u) where
  tag : T
  opening : List Char
  close : List Char
  opening_ne_nil : opening ≠ []
  close_ne_nil : close ≠ []

structure ActiveTag (T : Type u) where
  tag : T
  close : List Char
  content : List Char
  close_ne_nil : close ≠ []

/-- `active.content.push_str(text)`. -/
def ActiveTag.pushStr (active : ActiveTag T) (text : List Char) : ActiveTag T :=
  { active with content := active.content ++ text }

theorem ActiveTag.pushStr_nil (active : ActiveTag T) : active.pushStr [] = active := by
  rw [pushStr, List.append_nil]

theorem ActiveTag.pushStr_append (active : ActiveTag T) (text rest : List Char) :
    active.pushStr (text ++ rest) = (active.pushStr text).pushStr rest := by
  rw [pushStr, pushStr, pushStr, List.append_assoc]

structure InlineHiddenTagParser (T : Type u) where
  specs : List (InlineTagSpec T)
  pending : List Char
  active : Option (ActiveTag T)

namespace InlineHiddenTagParser

def new (specs : List (InlineTagSpec T)) : InlineHiddenTagParser T := ⟨specs, [], none⟩

/-- The better of two candidates of `find_next_open`: the first position, then the longest
delimiter, then the first specification. -/
def pickOpen (best candidate : Nat × InlineTagSpec T) : Nat × InlineTagSpec T :=
  if candidate.1 < best.1 ∨
      (candidate.1 = best.1 ∧ best.2.opening.length < candidate.2.opening.length) then candidate
  else best

def findNextOpen (specs : List (InlineTagSpec T)) (pending : List Char) :
    Option (Nat × InlineTagSpec T) :=
  match specs.filterMap fun spec => (find spec.opening pending).map (·, spec) with
  | [] => none
  | best :: candidates => some (candidates.foldl pickOpen best)

def maxOpenPrefixSuffixLen (specs : List (InlineTagSpec T)) (pending : List Char) : Nat :=
  (specs.map fun spec => longestSuffixPrefixLen pending spec.opening).foldl max 0

theorem le_foldl_max (lengths : List Nat) (bound : Nat) :
    bound ≤ lengths.foldl max bound ∧ ∀ length ∈ lengths, length ≤ lengths.foldl max bound := by
  induction lengths generalizing bound with
  | nil => simp
  | cons length lengths ih =>
    obtain ⟨hbound, hlengths⟩ := ih (max bound length)
    rw [List.foldl_cons, List.forall_mem_cons]
    exact ⟨by omega, by omega, hlengths⟩

theorem le_maxOpenPrefixSuffixLen {specs : List (InlineTagSpec T)} {spec : InlineTagSpec T}
    (h : spec ∈ specs) (pending : List Char) :
    longestSuffixPrefixLen pending spec.opening ≤ maxOpenPrefixSuffixLen specs pending :=
  (le_foldl_max _ 0).2 _ (List.mem_map_of_mem h)

theorem length_drop_lt {needle pending : List Char} {i : Nat} (h : find needle pending = some i)
    (hne : needle ≠ []) : (pending.drop (i + needle.length)).length < pending.length := by
  have hend := add_length_le (find_eq_some h).1 hne
  have hpos := List.length_pos_iff.2 hne
  rw [List.length_drop]
  omega

theorem foldl_pickOpen (candidates : List (Nat × InlineTagSpec T))
    (best : Nat × InlineTagSpec T) :
    candidates.foldl pickOpen best ∈ best :: candidates ∧
      ∀ candidate ∈ best :: candidates, (candidates.foldl pickOpen best).1 ≤ candidate.1 := by
  induction candidates generalizing best with
  | nil => simp
  | cons candidate candidates ih =>
    obtain ⟨hmem, hmin⟩ := ih (pickOpen best candidate)
    obtain ⟨hfirst, hrest⟩ := List.forall_mem_cons.1 hmin
    rw [List.foldl_cons]
    have hpick : pickOpen best candidate ∈ [best, candidate] ∧
        (pickOpen best candidate).1 ≤ best.1 ∧ (pickOpen best candidate).1 ≤ candidate.1 := by
      rw [pickOpen]
      split
      · exact ⟨by simp, by omega, Nat.le_refl _⟩
      · exact ⟨by simp, Nat.le_refl _, by omega⟩
    obtain ⟨hin, hbest, hcandidate⟩ := hpick
    refine ⟨?_, fun other hother => ?_⟩
    · rcases List.mem_cons.1 hmem with heq | hmem
      · rw [heq]
        exact List.mem_append_left candidates hin
      · exact List.mem_cons_of_mem _ (List.mem_cons_of_mem _ hmem)
    · rcases List.mem_cons.1 hother with rfl | hother
      · omega
      rcases List.mem_cons.1 hother with rfl | hother
      · omega
      · exact hrest other hother

theorem mem_opens {specs : List (InlineTagSpec T)} {pending : List Char} {i : Nat}
    {spec : InlineTagSpec T} :
    (i, spec) ∈ (specs.filterMap fun spec => (find spec.opening pending).map (·, spec)) ↔
      spec ∈ specs ∧ find spec.opening pending = some i := by
  rw [List.mem_filterMap]
  constructor
  · rintro ⟨spec', hmem, heq⟩
    obtain ⟨i', hfind, heq⟩ := Option.map_eq_some_iff.1 heq
    cases heq
    exact ⟨hmem, hfind⟩
  · rintro ⟨hmem, hfind⟩
    exact ⟨spec, hmem, by rw [hfind]; rfl⟩

/-- The opening delimiter that is found is one of the first in the text. -/
theorem findNextOpen_eq_some {specs : List (InlineTagSpec T)} {pending : List Char} {i : Nat}
    {spec : InlineTagSpec T} (h : findNextOpen specs pending = some (i, spec)) :
    spec ∈ specs ∧ find spec.opening pending = some i ∧
      ∀ spec' ∈ specs, ∀ j, find spec'.opening pending = some j → i ≤ j := by
  rw [findNextOpen] at h
  split at h
  · cases h
  · rename_i best candidates hopens
    obtain ⟨hmem, hmin⟩ := foldl_pickOpen candidates best
    rw [Option.some.inj h, ← hopens] at hmem hmin
    obtain ⟨hspec, hfind⟩ := mem_opens.1 hmem
    exact ⟨hspec, hfind, fun spec' hspec' j hj => hmin _ (mem_opens.2 ⟨hspec', hj⟩)⟩

theorem findNextOpen_eq_none {specs : List (InlineTagSpec T)} {pending : List Char}
    (h : findNextOpen specs pending = none) :
    ∀ spec ∈ specs, find spec.opening pending = none := by
  intro spec hspec
  rw [findNextOpen] at h
  split at h
  · rename_i hopens
    cases hfind : find spec.opening pending with
    | none => rfl
    | some i => exact absurd (mem_opens.2 ⟨hspec, hfind⟩) (by simp [hopens])
  · cases h

/-- The loop of `push_str`, with what it has given so far. -/
def pushLoop (parser : InlineHiddenTagParser T) (out : StreamTextChunk (ExtractedInlineTag T)) :
    StreamTextChunk (ExtractedInlineTag T) × InlineHiddenTagParser T :=
  match parser.active with
  | some active =>
    match _hclose : find active.close parser.pending with
    | some closeIdx =>
      pushLoop
        { parser with
          pending := parser.pending.drop (closeIdx + active.close.length), active := none }
        { out with extracted :=
            out.extracted ++ [⟨active.tag, active.content ++ parser.pending.take closeIdx⟩] }
    | none =>
      let keep := longestSuffixPrefixLen parser.pending active.close
      let take := parser.pending.length - keep
      (out, { parser with
        pending := parser.pending.drop take
        active := some (active.pushStr (parser.pending.take take)) })
  | none =>
    match _hopen : findNextOpen parser.specs parser.pending with
    | some (openIdx, spec) =>
      pushLoop
        { parser with
          pending := parser.pending.drop (openIdx + spec.opening.length)
          active := some ⟨spec.tag, spec.close, [], spec.close_ne_nil⟩ }
        { out with visibleText := out.visibleText ++ parser.pending.take openIdx }
    | none =>
      let keep := maxOpenPrefixSuffixLen parser.specs parser.pending
      let take := parser.pending.length - keep
      ({ out with visibleText := out.visibleText ++ parser.pending.take take },
        { parser with pending := parser.pending.drop take })
termination_by parser.pending.length
decreasing_by
  · exact length_drop_lt _hclose active.close_ne_nil
  · exact length_drop_lt (findNextOpen_eq_some _hopen).2.1 spec.opening_ne_nil

def pushStr (parser : InlineHiddenTagParser T) (chunk : List Char) :
    StreamTextChunk (ExtractedInlineTag T) × InlineHiddenTagParser T :=
  pushLoop { parser with pending := parser.pending ++ chunk } .empty

def finish (parser : InlineHiddenTagParser T) :
    StreamTextChunk (ExtractedInlineTag T) × InlineHiddenTagParser T :=
  match parser.active with
  | some active => (⟨[], [⟨active.tag, active.content ++ parser.pending⟩]⟩,
      { parser with pending := [], active := none })
  | none => (⟨parser.pending, []⟩, { parser with pending := [] })

/-- Push the chunks one after the other, and finish. -/
def pushAll (parser : InlineHiddenTagParser T) :
    List (List Char) → StreamTextChunk (ExtractedInlineTag T)
  | [] => parser.finish.1
  | chunk :: chunks =>
    let (out, parser) := parser.pushStr chunk
    out.append (parser.pushAll chunks)

end InlineHiddenTagParser

/-! ## The leftmost extraction -/

/-- Reading a text from its first character on: outside of tags a delimiter that opens a tag is
looked for at each place, and within a tag the one that closes it. Tags are not nested, and the end
of the text closes a tag. -/
def leftmostExtraction (specs : List (InlineTagSpec T)) :
    Option (ActiveTag T) → List Char → StreamTextChunk (ExtractedInlineTag T)
  | none, [] => .empty
  | some active, [] => ⟨[], [⟨active.tag, active.content⟩]⟩
  | none, c :: text =>
    match specs.find? (·.opening <+: c :: text) with
    | some spec => leftmostExtraction specs (some ⟨spec.tag, spec.close, [], spec.close_ne_nil⟩)
        ((c :: text).drop spec.opening.length)
    | none => StreamTextChunk.append ⟨[c], []⟩ (leftmostExtraction specs none text)
  | some active, c :: text =>
    if active.close <+: c :: text then
      StreamTextChunk.append ⟨[], [⟨active.tag, active.content⟩]⟩
        (leftmostExtraction specs none ((c :: text).drop active.close.length))
    else leftmostExtraction specs (some (active.pushStr [c])) text
termination_by _ text => text.length
decreasing_by
  · have hpos := List.length_pos_iff.2 spec.opening_ne_nil
    rw [List.length_drop, List.length_cons]
    omega
  · simp
  · have hpos := List.length_pos_iff.2 active.close_ne_nil
    rw [List.length_drop, List.length_cons]
    omega
  · simp

/-! ## Reading what no delimiter begins in -/

variable {specs : List (InlineTagSpec T)} {active : ActiveTag T} {text pre rest : List Char}

/-- No opening delimiter stands inside another. -/
def Separate (specs : List (InlineTagSpec T)) : Prop :=
  specs.Pairwise fun spec spec' =>
    ¬ spec.opening <:+: spec'.opening ∧ ¬ spec'.opening <:+: spec.opening

theorem Separate.eq_of_infix (h : Separate specs) {spec spec' : InlineTagSpec T}
    (hspec : spec ∈ specs) (hspec' : spec' ∈ specs) (hin : spec.opening <:+: spec'.opening) :
    spec = spec' := by
  by_contra hne
  have hsymm : Std.Symm fun spec spec' : InlineTagSpec T =>
      ¬ spec.opening <:+: spec'.opening ∧ ¬ spec'.opening <:+: spec.opening :=
    ⟨fun _ _ h => h.symm⟩
  exact (h.forall hspec hspec' hne).1 hin

/-- Two opening delimiters that begin at one place are one. -/
theorem Separate.eq_of_prefix (h : Separate specs) {spec spec' : InlineTagSpec T}
    (hspec : spec ∈ specs) (hspec' : spec' ∈ specs) (hstart : spec.opening <+: text)
    (hstart' : spec'.opening <+: text) : spec = spec' := by
  rcases List.prefix_or_prefix_of_prefix hstart hstart' with hpre | hpre
  · exact h.eq_of_infix hspec hspec' hpre.isInfix
  · exact (h.eq_of_infix hspec' hspec hpre.isInfix).symm

theorem extraction_visible (h : ∀ j < pre.length, ∀ spec ∈ specs,
    ¬ spec.opening <+: (pre ++ rest).drop j) :
    leftmostExtraction specs none (pre ++ rest) =
      StreamTextChunk.append ⟨pre, []⟩ (leftmostExtraction specs none rest) := by
  induction pre with
  | nil => rfl
  | cons c pre ih =>
    have hnone : specs.find? (·.opening <+: c :: (pre ++ rest)) = none := by
      refine List.find?_eq_none.2 fun spec hspec => ?_
      simpa using h 0 (Nat.succ_pos _) spec hspec
    rw [List.cons_append, leftmostExtraction, hnone]
    dsimp only
    rw [ih fun j hj => h (j + 1) (Nat.succ_lt_succ hj), ← StreamTextChunk.append_assoc]
    rfl

theorem extraction_content (h : ∀ j < pre.length, ¬ active.close <+: (pre ++ rest).drop j) :
    leftmostExtraction specs (some active) (pre ++ rest) =
      leftmostExtraction specs (some (active.pushStr pre)) rest := by
  induction pre generalizing active with
  | nil => rw [active.pushStr_nil, List.nil_append]
  | cons c pre ih =>
    have hstart : ¬ active.close <+: c :: (pre ++ rest) := h 0 (Nat.succ_pos _)
    have hrest : ∀ j < pre.length, ¬ (active.pushStr [c]).close <+: (pre ++ rest).drop j :=
      fun j hj => h (j + 1) (Nat.succ_lt_succ hj)
    rw [List.cons_append, leftmostExtraction, if_neg hstart, ih hrest, ← active.pushStr_append,
      List.singleton_append]

theorem extraction_open (hspecs : Separate specs) {spec : InlineTagSpec T} (hspec : spec ∈ specs)
    (h : spec.opening <+: text) :
    leftmostExtraction specs none text =
      leftmostExtraction specs (some ⟨spec.tag, spec.close, [], spec.close_ne_nil⟩)
        (text.drop spec.opening.length) := by
  cases text with
  | nil => exact absurd (List.prefix_nil.1 h) spec.opening_ne_nil
  | cons c text =>
    have hfound : specs.find? (·.opening <+: c :: text) = some spec := by
      cases hfind : specs.find? (·.opening <+: c :: text) with
      | none => exact absurd h (by simpa using List.find?_eq_none.1 hfind spec hspec)
      | some spec' =>
        have hstart' : spec'.opening <+: c :: text := by simpa using List.find?_some hfind
        rw [hspecs.eq_of_prefix hspec (List.mem_of_find?_eq_some hfind) h hstart']
    rw [leftmostExtraction, hfound]

theorem extraction_close (h : active.close <+: text) :
    leftmostExtraction specs (some active) text =
      StreamTextChunk.append ⟨[], [⟨active.tag, active.content⟩]⟩
        (leftmostExtraction specs none (text.drop active.close.length)) := by
  cases text with
  | nil => exact absurd (List.prefix_nil.1 h) active.close_ne_nil
  | cons c text => rw [leftmostExtraction, if_pos h]

/-! ## What a text that is kept back leaves to read -/

section
variable {pending : List Char} {i : Nat}

theorem length_take_find {needle : List Char} (h : find needle pending = some i)
    (hne : needle ≠ []) : (pending.take i).length = i := by
  have hend := add_length_le (find_eq_some h).1 hne
  exact List.length_take_of_le (by omega)

theorem drop_append_find {needle : List Char} (h : find needle pending = some i)
    (hne : needle ≠ []) (rest : List Char) :
    (pending.drop i ++ rest).drop needle.length = pending.drop (i + needle.length) ++ rest := by
  have hend := add_length_le (find_eq_some h).1 hne
  rw [List.drop_append_of_le_length (by rw [List.length_drop]; omega), List.drop_drop]

theorem extraction_find_close (h : find active.close pending = some i) :
    leftmostExtraction specs (some active) (pending ++ rest) =
      StreamTextChunk.append ⟨[], [⟨active.tag, active.content ++ pending.take i⟩]⟩
        (leftmostExtraction specs none (pending.drop (i + active.close.length) ++ rest)) := by
  have hclose : active.close <+: pending.drop i ++ rest :=
    (find_eq_some h).1.trans (List.prefix_append _ _)
  have hread : leftmostExtraction specs (some active) (pending.take i ++ (pending.drop i ++ rest)) =
      leftmostExtraction specs (some (active.pushStr (pending.take i))) (pending.drop i ++ rest) := by
    refine extraction_content ?_
    rw [← List.append_assoc, List.take_append_drop, length_take_find h active.close_ne_nil]
    exact fun j hj => not_prefix_of_lt h active.close_ne_nil hj
  rw [← List.append_assoc, List.take_append_drop] at hread
  have hleave : leftmostExtraction specs (some (active.pushStr (pending.take i)))
      (pending.drop i ++ rest) = _ := extraction_close hclose
  rw [hread, hleave]
  show StreamTextChunk.append _ (leftmostExtraction specs none
    ((pending.drop i ++ rest).drop active.close.length)) = _
  rw [drop_append_find h active.close_ne_nil]
  rfl

theorem extraction_keep_content (h : find active.close pending = none) :
    let take := pending.length - longestSuffixPrefixLen pending active.close
    leftmostExtraction specs (some active) (pending ++ rest) =
      leftmostExtraction specs (some (active.pushStr (pending.take take)))
        (pending.drop take ++ rest) := by
  intro take
  have hread : leftmostExtraction specs (some active)
      (pending.take take ++ (pending.drop take ++ rest)) =
      leftmostExtraction specs (some (active.pushStr (pending.take take)))
        (pending.drop take ++ rest) := by
    refine extraction_content fun j hj => ?_
    rw [List.length_take] at hj
    rw [← List.append_assoc, List.take_append_drop]
    exact not_prefix_of_add_lt h (by omega)
  rwa [← List.append_assoc, List.take_append_drop] at hread

theorem extraction_find_open (hspecs : Separate specs) {spec : InlineTagSpec T}
    (h : InlineHiddenTagParser.findNextOpen specs pending = some (i, spec)) :
    leftmostExtraction specs none (pending ++ rest) =
      StreamTextChunk.append ⟨pending.take i, []⟩
        (leftmostExtraction specs (some ⟨spec.tag, spec.close, [], spec.close_ne_nil⟩)
          (pending.drop (i + spec.opening.length) ++ rest)) := by
  obtain ⟨hspec, hfind, hfirst⟩ := InlineHiddenTagParser.findNextOpen_eq_some h
  have hend := add_length_le (find_eq_some hfind).1 spec.opening_ne_nil
  have hopen : spec.opening <+: pending.drop i ++ rest :=
    (find_eq_some hfind).1.trans (List.prefix_append _ _)
  have hread : leftmostExtraction specs none (pending.take i ++ (pending.drop i ++ rest)) =
      StreamTextChunk.append ⟨pending.take i, []⟩
        (leftmostExtraction specs none (pending.drop i ++ rest)) := by
    refine extraction_visible ?_
    rw [← List.append_assoc, List.take_append_drop, length_take_find hfind spec.opening_ne_nil]
    intro j hj spec' hspec' hstart
    by_cases hwithin : j + spec'.opening.length ≤ pending.length
    · -- the delimiter would have been found first
      have hstart' := prefix_of_append hstart hwithin
      cases hfind' : find spec'.opening pending with
      | none => exact find_eq_none hfind' j hstart'
      | some i' =>
        have hle := hfirst spec' hspec' i' hfind'
        exact (find_eq_some hfind').2 j (by omega) hstart'
    · -- the delimiter that is found would stand inside of it
      have hfound : spec.opening <+: (pending ++ rest).drop i := by
        rw [List.drop_append_of_le_length (by omega)]
        exact hopen
      have hin := infix_of_covered hfound hstart hj.le (by omega)
      obtain rfl := hspecs.eq_of_infix hspec hspec' hin
      exact not_prefix_of_lt hfind spec.opening_ne_nil hj hstart
  rw [← List.append_assoc, List.take_append_drop] at hread
  rw [hread, extraction_open hspecs hspec hopen, drop_append_find hfind spec.opening_ne_nil]

theorem extraction_keep_visible
    (h : InlineHiddenTagParser.findNextOpen specs pending = none) :
    let take := pending.length - InlineHiddenTagParser.maxOpenPrefixSuffixLen specs pending
    leftmostExtraction specs none (pending ++ rest) =
      StreamTextChunk.append ⟨pending.take take, []⟩
        (leftmostExtraction specs none (pending.drop take ++ rest)) := by
  intro take
  have hread : leftmostExtraction specs none (pending.take take ++ (pending.drop take ++ rest)) =
      StreamTextChunk.append ⟨pending.take take, []⟩
        (leftmostExtraction specs none (pending.drop take ++ rest)) := by
    refine extraction_visible fun j hj spec hspec => ?_
    rw [List.length_take] at hj
    rw [← List.append_assoc, List.take_append_drop]
    have hmax := InlineHiddenTagParser.le_maxOpenPrefixSuffixLen hspec pending
    exact not_prefix_of_add_lt (InlineHiddenTagParser.findNextOpen_eq_none h spec hspec) (by omega)
  rwa [← List.append_assoc, List.take_append_drop] at hread

end

/-! ## The parser against the extraction -/

namespace InlineHiddenTagParser

/-- What the parser gives for the text that it keeps back and that follows. -/
def expects (parser : InlineHiddenTagParser T) (rest : List Char) :
    StreamTextChunk (ExtractedInlineTag T) :=
  leftmostExtraction parser.specs parser.active (parser.pending ++ rest)

theorem expects_some {parser : InlineHiddenTagParser T} (h : parser.active = some active) :
    parser.expects rest =
      leftmostExtraction parser.specs (some active) (parser.pending ++ rest) := by
  rw [expects, h]

theorem expects_none {parser : InlineHiddenTagParser T} (h : parser.active = none) :
    parser.expects rest = leftmostExtraction parser.specs none (parser.pending ++ rest) := by
  rw [expects, h]

/-- No delimiter that the parser looks for stands in what it keeps back. -/
def Idle (parser : InlineHiddenTagParser T) : Prop :=
  match parser.active with
  | some active => find active.close parser.pending = none
  | none => ∀ spec ∈ parser.specs, find spec.opening parser.pending = none

theorem finish_eq {parser : InlineHiddenTagParser T} (h : parser.Idle) :
    parser.finish.1 = parser.expects [] := by
  obtain ⟨specs, pending, active⟩ := parser
  rw [expects]
  cases active with
  | some active =>
    have hidle : find active.close (pending ++ []) = none := by rwa [List.append_nil]
    show _ = leftmostExtraction specs (some active) (pending ++ [])
    rw [extraction_content fun j _ => find_eq_none hidle j, leftmostExtraction]
    rfl
  | none =>
    have hidle : ∀ spec ∈ specs, find spec.opening (pending ++ []) = none := by
      rwa [List.append_nil]
    show _ = leftmostExtraction specs none (pending ++ [])
    rw [extraction_visible fun j _ spec hspec => find_eq_none (hidle spec hspec) j,
      leftmostExtraction, StreamTextChunk.append_empty]
    rfl

/-- A push gives a part of what was expected, and leaves the rest, whatever follows. -/
theorem pushLoop_expects (parser : InlineHiddenTagParser T)
    (out : StreamTextChunk (ExtractedInlineTag T)) (hspecs : Separate parser.specs) :
    (parser.pushLoop out).2.specs = parser.specs ∧ (parser.pushLoop out).2.Idle ∧
      ∀ rest, (parser.pushLoop out).1.append ((parser.pushLoop out).2.expects rest) =
        out.append (parser.expects rest) := by
  fun_induction pushLoop parser out with
  | case1 parser out active hactive closeIdx hfind ih =>
    obtain ⟨hsame, hidle, hexpects⟩ := ih hspecs
    refine ⟨hsame, hidle, fun rest => (hexpects rest).trans ?_⟩
    rw [expects_some hactive, extraction_find_close hfind, ← StreamTextChunk.append_assoc]
    simp [StreamTextChunk.append, expects]
  | case2 parser out active hactive hfind keep take =>
    refine ⟨rfl, find_drop_eq_none hfind take, fun rest => ?_⟩
    rw [expects_some hactive, extraction_keep_content hfind]
    rfl
  | case3 parser out hactive openIdx spec hfind ih =>
    obtain ⟨hsame, hidle, hexpects⟩ := ih hspecs
    refine ⟨hsame, hidle, fun rest => (hexpects rest).trans ?_⟩
    rw [expects_none hactive, extraction_find_open hspecs hfind, ← StreamTextChunk.append_assoc]
    simp [StreamTextChunk.append, expects]
  | case4 parser out hactive hfind keep take =>
    have hidle : ∀ spec ∈ parser.specs, find spec.opening (parser.pending.drop take) = none :=
      fun spec hspec => find_drop_eq_none (findNextOpen_eq_none hfind spec hspec) take
    refine ⟨rfl, ?_, fun rest => ?_⟩
    · show match parser.active with
        | some active => find active.close (parser.pending.drop take) = none
        | none => ∀ spec ∈ parser.specs, find spec.opening (parser.pending.drop take) = none
      rw [hactive]
      exact hidle
    · rw [expects_none hactive, extraction_keep_visible hfind, ← StreamTextChunk.append_assoc]
      simp only [StreamTextChunk.append, expects, hactive]
      simp [take, keep]

theorem idle_new (specs : List (InlineTagSpec T)) : (new specs).Idle := by
  intro spec _
  show (if spec.opening = [] then some 0 else none) = none
  rw [if_neg spec.opening_ne_nil]

/-- Pushing chunks gives the extraction of their text. -/
theorem pushAll_eq (parser : InlineHiddenTagParser T) (hspecs : Separate parser.specs)
    (hidle : parser.Idle) (chunks : List (List Char)) :
    parser.pushAll chunks = parser.expects chunks.flatten := by
  induction chunks generalizing parser with
  | nil => exact finish_eq hidle
  | cons chunk chunks ih =>
    obtain ⟨hsame, hidle', hexpects⟩ :=
      pushLoop_expects { parser with pending := parser.pending ++ chunk } .empty hspecs
    have hrest := ih (parser.pushStr chunk).2 (hsame ▸ hspecs) hidle'
    show (parser.pushStr chunk).1.append ((parser.pushStr chunk).2.pushAll chunks) = _
    rw [hrest]
    refine (hexpects chunks.flatten).trans ?_
    rw [StreamTextChunk.empty_append, expects, expects, List.flatten_cons, List.append_assoc]

end InlineHiddenTagParser

end Mcodex.StreamParser
