import Mcodex.Output.MiddleTruncation
import Mathlib.Algebra.BigOperators.Group.List.Basic

/-!
# Truncation of a tool's output items

`truncate_function_output_items_with_policy` of `utils/output-truncation/src/lib.rs` goes through
the items of an output with one budget for all their texts, in bytes or in estimated tokens. Images
are free. The first text that does not fit is cut in the middle and ends the budget, and the texts
after it are counted in a closing line.
-/

namespace Mcodex.Output

open Bytes

inductive TruncationPolicy where
  | bytes (limit : Nat)
  | tokens (limit : Nat)
  deriving DecidableEq, Repr

namespace TruncationPolicy

def tokenBudget : TruncationPolicy → Nat
  | bytes limit => approxTokensFromByteCount limit
  | tokens limit => limit

def byteBudget : TruncationPolicy → Nat
  | bytes limit => limit
  | tokens limit => approxBytesForTokens limit

/-- The budget that the texts of an output share. -/
def budget (policy : TruncationPolicy) : Nat :=
  match policy with
  | bytes _ => policy.byteBudget
  | tokens _ => policy.tokenBudget

/-- The cost of a text against that budget. -/
def cost (policy : TruncationPolicy) (text : List Char) : Nat :=
  match policy with
  | bytes _ => byteLen text
  | tokens _ => approxTokenCount text

/-- The policy for a snippet that may take what remains. -/
def snippetPolicy (policy : TruncationPolicy) (remainingBudget : Nat) : TruncationPolicy :=
  match policy with
  | bytes _ => bytes remainingBudget
  | tokens _ => tokens remainingBudget

end TruncationPolicy

def truncateText (content : List Char) : TruncationPolicy → List Char
  | .bytes limit => truncateMiddleChars content limit
  | .tokens limit => (truncateMiddleWithTokenBudget content limit).1

inductive ImageDetail where
  | auto
  | low
  | high
  | original
  deriving DecidableEq, Repr

inductive FunctionCallOutputContentItem where
  | inputText (text : List Char)
  | inputImage (imageUrl : List Char) (detail : Option ImageDetail)
  deriving DecidableEq, Repr

/-- What the loop carries. -/
structure ItemScan where
  out : List FunctionCallOutputContentItem
  remainingBudget : Nat
  omittedTextItems : Nat
  deriving DecidableEq, Repr

/-- One round of the loop. -/
def ItemScan.next (policy : TruncationPolicy) (scan : ItemScan) :
    FunctionCallOutputContentItem → ItemScan
  | .inputText text =>
    if scan.remainingBudget = 0 then { scan with omittedTextItems := scan.omittedTextItems + 1 }
    else if policy.cost text ≤ scan.remainingBudget then
      { scan with
        out := scan.out ++ [.inputText text]
        remainingBudget := scan.remainingBudget - policy.cost text }
    else
      let snippet := truncateText text (policy.snippetPolicy scan.remainingBudget)
      if snippet.isEmpty then
        { scan with omittedTextItems := scan.omittedTextItems + 1, remainingBudget := 0 }
      else { scan with out := scan.out ++ [.inputText snippet], remainingBudget := 0 }
  | .inputImage imageUrl detail =>
    { scan with out := scan.out ++ [.inputImage imageUrl detail] }

/-- The closing line. -/
def omittedSummary (omittedTextItems : Nat) : List Char :=
  "[omitted ".toList ++ Nat.toDigits 10 omittedTextItems ++ " text items ...]".toList

def truncateFunctionOutputItemsWithPolicy (items : List FunctionCallOutputContentItem)
    (policy : TruncationPolicy) : List FunctionCallOutputContentItem :=
  let scan := items.foldl (ItemScan.next policy) ⟨[], policy.budget, 0⟩
  if 0 < scan.omittedTextItems then
    scan.out ++ [.inputText (omittedSummary scan.omittedTextItems)]
  else scan.out

/-! ## What is kept -/

/-- The texts of the items, in order. -/
def textsOf (items : List FunctionCallOutputContentItem) : List (List Char) :=
  items.filterMap fun
    | .inputText text => some text
    | .inputImage _ _ => none

/-- The images, in order. -/
def imagesOf (items : List FunctionCallOutputContentItem) :
    List (List Char × Option ImageDetail) :=
  items.filterMap fun
    | .inputText _ => none
    | .inputImage imageUrl detail => some (imageUrl, detail)

/-- A text of which the middle is cut out. -/
structure Cut where
  pre : List Char
  middle : List Char
  suffix : List Char
  removedCount : Nat
  deriving DecidableEq, Repr

/-- The text as it was. -/
def Cut.original (cut : Cut) : List Char := cut.pre ++ cut.middle ++ cut.suffix

/-- What is left of it. -/
def Cut.kept (cut : Cut) : List Char := cut.pre ++ cut.suffix

/-- The text with a marker for what was cut out. -/
def Cut.shortened (useTokens : Bool) (cut : Cut) : List Char :=
  cut.pre ++ formatTruncationMarker useTokens cut.removedCount ++ cut.suffix

def TruncationPolicy.useTokens : TruncationPolicy → Bool
  | .bytes _ => false
  | .tokens _ => true

section
variable {items body : List FunctionCallOutputContentItem} {policy : TruncationPolicy}
  {text : List Char} {scan : ItemScan}

@[simp] theorem textsOf_append (items items' : List FunctionCallOutputContentItem) :
    textsOf (items ++ items') = textsOf items ++ textsOf items' := List.filterMap_append

@[simp] theorem imagesOf_append (items items' : List FunctionCallOutputContentItem) :
    imagesOf (items ++ items') = imagesOf items ++ imagesOf items' := List.filterMap_append

@[simp] theorem textsOf_inputText (text : List Char) : textsOf [.inputText text] = [text] := rfl

@[simp] theorem textsOf_inputImage (imageUrl : List Char) (detail : Option ImageDetail) :
    textsOf [.inputImage imageUrl detail] = [] := rfl

@[simp] theorem imagesOf_inputText (text : List Char) : imagesOf [.inputText text] = [] := rfl

@[simp] theorem imagesOf_inputImage (imageUrl : List Char) (detail : Option ImageDetail) :
    imagesOf [.inputImage imageUrl detail] = [(imageUrl, detail)] := rfl

/-- A text that costs more than what remains is cut to what remains. -/
theorem truncateText_of_cost_lt {remaining : Nat} (h : remaining < policy.cost text) :
    ∃ cut : Cut, cut.original = text ∧
      truncateText text (policy.snippetPolicy remaining) = cut.shortened policy.useTokens ∧
      policy.cost cut.kept ≤ remaining := by
  cases policy with
  | bytes limit =>
    obtain ⟨pre, middle, suffix, htext, hle, htruncated⟩ :=
      (truncateWithByteEstimate_spec text remaining false).2 h
    exact ⟨⟨pre, middle, suffix, middle.length⟩, htext.symm, htruncated,
      (byteLen_append pre suffix).trans_le hle⟩
  | tokens limit =>
    have hlong : approxBytesForTokens remaining < byteLen text := by
      have hcount : remaining < approxTokenCount text := h
      rw [approxTokenCount, approxBytesPerToken] at hcount
      rw [approxBytesForTokens, approxBytesPerToken]
      omega
    have hnonempty : ¬text.isEmpty = true := by
      intro hempty
      rw [List.isEmpty_iff.1 hempty, byteLen_nil] at hlong
      omega
    obtain ⟨pre, middle, suffix, htext, hle, htruncated⟩ :=
      (truncateWithByteEstimate_spec text (approxBytesForTokens remaining) true).2 hlong
    refine ⟨⟨pre, middle, suffix, removedUnits true
      (byteLen text - approxBytesForTokens remaining) middle.length⟩, htext.symm, ?_, ?_⟩
    · refine Eq.trans ?_ htruncated
      change (truncateMiddleWithTokenBudget text remaining).1 = _
      rw [truncateMiddleWithTokenBudget, if_neg hnonempty,
        if_neg fun hfits => Nat.not_le.2 hlong hfits.2]
      dsimp only
      split <;> rfl
    · change approxTokenCount (pre ++ suffix) ≤ remaining
      rw [approxBytesForTokens, approxBytesPerToken] at hle
      rw [approxTokenCount, byteLen_append, approxBytesPerToken]
      omega

/-- What the texts that are kept cost, the whole ones and the cut one. -/
def spent (policy : TruncationPolicy) (whole : List (List Char)) (last : Option Cut) : Nat :=
  (whole.map policy.cost).sum + (last.map fun cut => policy.cost cut.kept).getD 0

/-- What the loop has made of the items it has seen: the images, the first texts whole, the next one
cut, and the others counted. While some budget remains, no text is cut or left out. -/
structure ItemScan.Keeps (policy : TruncationPolicy)
    (seen : List FunctionCallOutputContentItem) (scan : ItemScan) (whole : List (List Char))
    (last : Option Cut) : Prop where
  images : imagesOf scan.out = imagesOf seen
  texts : textsOf scan.out = whole ++ (last.map (Cut.shortened policy.useTokens)).toList
  originals : whole ++ (last.map Cut.original).toList <+: textsOf seen
  count : (textsOf seen).length = whole.length + last.toList.length + scan.omittedTextItems
  spent_le : spent policy whole last + scan.remainingBudget ≤ policy.budget
  remains : 0 < scan.remainingBudget → last = none ∧ scan.omittedTextItems = 0

/-- While some budget remains, all texts were kept. -/
theorem ItemScan.Keeps.texts_eq {whole : List (List Char)} {last : Option Cut}
    (h : scan.Keeps policy items whole last) (hpos : 0 < scan.remainingBudget) :
    last = none ∧ scan.omittedTextItems = 0 ∧ textsOf items = whole := by
  obtain ⟨rfl, hzero⟩ := h.remains hpos
  have hpre := h.originals
  have hcount := h.count
  rw [Option.map_none, Option.toList_none, List.append_nil] at hpre
  rw [Option.toList_none, List.length_nil, hzero] at hcount
  exact ⟨rfl, hzero, (hpre.eq_of_length hcount.symm).symm⟩

theorem ItemScan.Keeps.next {whole : List (List Char)} {last : Option Cut}
    (h : scan.Keeps policy items whole last) (item : FunctionCallOutputContentItem) :
    ∃ whole last, (scan.next policy item).Keeps policy (items ++ [item]) whole last := by
  cases item with
  | inputImage imageUrl detail =>
    refine ⟨whole, last, ⟨?_, ?_, ?_, ?_, h.spent_le, h.remains⟩⟩
    · rw [ItemScan.next, imagesOf_append, imagesOf_append, h.images]
    · rw [ItemScan.next, textsOf_append, textsOf_inputImage, List.append_nil, h.texts]
    · rw [textsOf_append, textsOf_inputImage, List.append_nil]
      exact h.originals
    · rw [textsOf_append, textsOf_inputImage, List.append_nil]
      exact h.count
  | inputText text =>
    have hseen : textsOf (items ++ [.inputText text]) = textsOf items ++ [text] :=
      textsOf_append _ _
    have himages : imagesOf (items ++ [.inputText text]) = imagesOf items := by
      rw [imagesOf_append, imagesOf_inputText, List.append_nil]
    have hlater : ∀ {l : List (List Char)}, l <+: textsOf items →
        l <+: textsOf (items ++ [.inputText text]) := fun hl =>
      hseen ▸ hl.trans (List.prefix_append _ _)
    have hlength : (textsOf (items ++ [.inputText text])).length =
        (textsOf items).length + 1 := by
      rw [hseen, List.length_append, List.length_singleton]
    unfold ItemScan.next
    dsimp only
    split
    · -- the budget is gone: the text is counted
      rename_i hzero
      refine ⟨whole, last, ⟨himages ▸ h.images, h.texts, hlater h.originals, ?_, h.spent_le, ?_⟩⟩
      · rw [hlength, h.count]
        rfl
      · exact fun hpos => absurd hzero hpos.ne'
    rename_i hpos
    obtain ⟨rfl, hzero, hwhole⟩ := h.texts_eq (Nat.pos_of_ne_zero hpos)
    have htexts := h.texts
    have hspent := h.spent_le
    rw [Option.map_none, Option.toList_none, List.append_nil] at htexts
    rw [spent, Option.map_none, Option.getD_none] at hspent
    split
    · -- the text fits
      rename_i hfits
      refine ⟨whole ++ [text], none, ⟨?_, ?_, ?_, ?_, ?_, fun _ => ⟨rfl, hzero⟩⟩⟩
      · rw [himages, imagesOf_append, imagesOf_inputText, List.append_nil, h.images]
      · rw [textsOf_append, textsOf_inputText, htexts]
        exact (List.append_nil _).symm
      · rw [hseen, hwhole, Option.map_none, Option.toList_none, List.append_nil]
      · rw [hlength, hwhole, hzero, List.length_append]
        rfl
      · rw [spent, List.map_append, List.sum_append, List.map_singleton, List.sum_singleton,
          Option.map_none, Option.getD_none]
        dsimp only
        omega
    · -- the text is cut to what remains
      rename_i hlong
      obtain ⟨cut, horiginal, htruncated, hcost⟩ := truncateText_of_cost_lt (Nat.not_le.1 hlong)
      split
      · refine ⟨whole, none, ⟨himages ▸ h.images, h.texts, hlater h.originals, ?_, ?_, ?_⟩⟩
        · rw [hlength, h.count]
          rfl
        · rw [spent, Option.map_none, Option.getD_none]
          dsimp only
          omega
        · exact fun hpos => nomatch hpos
      · refine ⟨whole, some cut, ⟨?_, ?_, ?_, ?_, ?_, fun hpos => nomatch hpos⟩⟩
        · rw [himages, imagesOf_append, imagesOf_inputText, List.append_nil, h.images]
        · rw [textsOf_append, textsOf_inputText, htexts, htruncated]
          rfl
        · rw [hseen, hwhole, Option.map_some, horiginal]
          exact List.prefix_rfl
        · rw [hlength, hwhole, hzero]
          rfl
        · rw [spent, Option.map_some, Option.getD_some]
          dsimp only
          omega

theorem keeps_foldl (items : List FunctionCallOutputContentItem) (policy : TruncationPolicy) :
    ∃ whole last, (items.foldl (ItemScan.next policy) ⟨[], policy.budget, 0⟩).Keeps policy items
      whole last := by
  induction items using List.reverseRecOn with
  | nil =>
    exact ⟨[], none, rfl, rfl, List.prefix_rfl, rfl, (Nat.zero_add _).le, fun _ => ⟨rfl, rfl⟩⟩
  | append_singleton items item ih =>
    obtain ⟨whole, last, h⟩ := ih
    rw [List.foldl_append]
    exact h.next item

/-- All images are kept, and of the texts the first ones whole and the next one at most with its
middle cut out, within the budget. The others are counted in the closing line, which is there when
there are any. -/
theorem truncateFunctionOutputItemsWithPolicy_spec (items : List FunctionCallOutputContentItem)
    (policy : TruncationPolicy) :
    ∃ body whole last omitted,
      truncateFunctionOutputItemsWithPolicy items policy =
        body ++ (if 0 < omitted then [.inputText (omittedSummary omitted)] else []) ∧
      imagesOf body = imagesOf items ∧
      textsOf body = whole ++ (last.map (Cut.shortened policy.useTokens)).toList ∧
      whole ++ (last.map Cut.original).toList <+: textsOf items ∧
      (textsOf body).length + omitted = (textsOf items).length ∧
      spent policy whole last ≤ policy.budget := by
  obtain ⟨whole, last, h⟩ := keeps_foldl items policy
  refine ⟨(items.foldl (ItemScan.next policy) ⟨[], policy.budget, 0⟩).out, whole, last,
    (items.foldl (ItemScan.next policy) ⟨[], policy.budget, 0⟩).omittedTextItems, ?_, h.images,
    h.texts, h.originals, ?_, (Nat.le_add_right _ _).trans h.spent_le⟩
  · unfold truncateFunctionOutputItemsWithPolicy
    dsimp only
    split
    · rfl
    · exact (List.append_nil _).symm
  · rw [h.texts, h.count, List.length_append]
    cases last <;> rfl

end

end Mcodex.Output
