import Mcodex.Rollout.History

/-!
# The history that is sent to the model

Every call gets an output and every output has a call. Calls and outputs belong together by their
kind and call id; a shell call of the local kind is answered by the output of a function.
-/

namespace Mcodex.Rollout

inductive InputModality where
  | text
  | image
  deriving DecidableEq, Repr

/-! ## Missing outputs -/

def isFunctionCallOutput (callId : List Char) : ResponseItem → Bool
  | .functionCallOutput existing _ => existing = callId
  | _ => false

def isToolSearchOutput (callId : List Char) : ResponseItem → Bool
  | .toolSearchOutput (some existing) _ _ _ => existing = callId
  | _ => false

def isCustomToolCallOutput (callId : List Char) : ResponseItem → Bool
  | .customToolCallOutput existing _ _ => existing = callId
  | _ => false

def aborted : FunctionCallOutputPayload := ⟨.text "aborted".toList, none⟩

/-- The output that a call lacks. -/
def missingOutput (items : List ResponseItem) : ResponseItem → Option ResponseItem
  | .functionCall callId _ =>
    if items.any (isFunctionCallOutput callId) then none
    else some (.functionCallOutput callId aborted)
  | .toolSearchCall (some callId) _ =>
    if items.any (isToolSearchOutput callId) then none
    else some (.toolSearchOutput (some callId) "completed" "client" [])
  | .customToolCall callId _ =>
    if items.any (isCustomToolCallOutput callId) then none
    else some (.customToolCallOutput callId none aborted)
  | .localShellCall (some callId) _ =>
    if items.any (isFunctionCallOutput callId) then none
    else some (.functionCallOutput callId aborted)
  | _ => none

def missingOutputsToInsert (items : List ResponseItem) : List (Nat × ResponseItem) :=
  items.zipIdx.filterMap fun entry =>
    (missingOutput items entry.1).map fun output => (entry.2, output)

/-- The outputs are inserted from the last one back, so that no index shifts. -/
def ensureCallOutputsPresent (items : List ResponseItem) : List ResponseItem :=
  (missingOutputsToInsert items).reverse.foldl
    (fun items entry => items.insertIdx (entry.1 + 1) entry.2) items

/-! ## Orphan outputs -/

def functionCallIds (items : List ResponseItem) : List (List Char) :=
  items.filterMap fun
    | .functionCall callId _ => some callId
    | _ => none

def toolSearchCallIds (items : List ResponseItem) : List (List Char) :=
  items.filterMap fun
    | .toolSearchCall (some callId) _ => some callId
    | _ => none

def localShellCallIds (items : List ResponseItem) : List (List Char) :=
  items.filterMap fun
    | .localShellCall (some callId) _ => some callId
    | _ => none

def customToolCallIds (items : List ResponseItem) : List (List Char) :=
  items.filterMap fun
    | .customToolCall callId _ => some callId
    | _ => none

def hasMatch (items : List ResponseItem) : ResponseItem → Bool
  | .functionCallOutput callId _ =>
    callId ∈ functionCallIds items || callId ∈ localShellCallIds items
  | .customToolCallOutput callId _ _ => callId ∈ customToolCallIds items
  | .toolSearchOutput callId _ execution _ =>
    execution = "server" || callId.all (· ∈ toolSearchCallIds items)
  | _ => true

def removeOrphanOutputs (items : List ResponseItem) : List ResponseItem :=
  items.filter (hasMatch items)

/-! ## Images -/

def imageContentOmittedPlaceholder : List Char :=
  "image content omitted because you do not support image input".toList

def stripContentItem : ContentItem → ContentItem
  | .inputImage _ => .inputText imageContentOmittedPlaceholder
  | item => item

def stripOutputContentItem : FunctionCallOutputContentItem → FunctionCallOutputContentItem
  | .inputImage _ => .inputText imageContentOmittedPlaceholder
  | item => item

def stripOutput (output : FunctionCallOutputPayload) : FunctionCallOutputPayload :=
  match output.body with
  | .contentItems items => ⟨.contentItems (items.map stripOutputContentItem), output.success⟩
  | .text _ => output

def stripItem : ResponseItem → ResponseItem
  | .message role content => .message role (content.map stripContentItem)
  | .functionCallOutput callId output => .functionCallOutput callId (stripOutput output)
  | .customToolCallOutput callId name output =>
    .customToolCallOutput callId name (stripOutput output)
  | .imageGenerationCall payload _ => .imageGenerationCall payload []
  | item => item

/-- What the model is given of an item. -/
def stripImages (inputModalities : List InputModality) (item : ResponseItem) : ResponseItem :=
  if .image ∈ inputModalities then item else stripItem item

def stripImagesWhenUnsupported (inputModalities : List InputModality)
    (items : List ResponseItem) : List ResponseItem :=
  items.map (stripImages inputModalities)

def normalizeHistory (inputModalities : List InputModality) (items : List ResponseItem) :
    List ResponseItem :=
  stripImagesWhenUnsupported inputModalities
    (removeOrphanOutputs (ensureCallOutputsPresent items))

def forPrompt (inputModalities : List InputModality) (items : List ResponseItem) :
    List ResponseItem :=
  (normalizeHistory inputModalities items).filter (!isGhostSnapshot ·)

/-! ## Calls and their outputs -/

inductive OutputKind where
  | function
  | toolSearch
  | custom
  deriving DecidableEq, Repr

/-- What a call is answered by. -/
def callKey : ResponseItem → Option (OutputKind × List Char)
  | .functionCall callId _ => some (.function, callId)
  | .localShellCall callId _ => callId.map (OutputKind.function, ·)
  | .toolSearchCall callId _ => callId.map (OutputKind.toolSearch, ·)
  | .customToolCall callId _ => some (.custom, callId)
  | _ => none

/-- What an output answers. -/
def outputKey : ResponseItem → Option (OutputKind × List Char)
  | .functionCallOutput callId _ => some (.function, callId)
  | .toolSearchOutput callId _ _ _ => callId.map (OutputKind.toolSearch, ·)
  | .customToolCallOutput callId _ _ => some (.custom, callId)
  | _ => none

def isServerOutput : ResponseItem → Bool
  | .toolSearchOutput _ _ execution _ => execution = "server"
  | _ => false

/-- The output that is made up for a call. -/
def synthesizedOutput : OutputKind × List Char → ResponseItem
  | (.function, callId) => .functionCallOutput callId aborted
  | (.toolSearch, callId) => .toolSearchOutput (some callId) "completed" "client" []
  | (.custom, callId) => .customToolCallOutput callId none aborted

variable {items : List ResponseItem} {item : ResponseItem} {key : OutputKind × List Char}
  {inputModalities : List InputModality}

@[simp]
theorem outputKey_synthesizedOutput : outputKey (synthesizedOutput key) = some key := by
  obtain ⟨kind, callId⟩ := key
  cases kind <;> rfl

@[simp]
theorem callKey_synthesizedOutput : callKey (synthesizedOutput key) = none := by
  obtain ⟨kind, callId⟩ := key
  cases kind <;> rfl

theorem callKey_eq_none_of_outputKey (h : outputKey item = some key) : callKey item = none := by
  cases item <;> first | rfl | cases h

theorem isFunctionCallOutput_iff {callId : List Char} :
    isFunctionCallOutput callId item ↔ outputKey item = some (.function, callId) := by
  cases item <;> simp [isFunctionCallOutput, outputKey]

theorem isToolSearchOutput_iff {callId : List Char} :
    isToolSearchOutput callId item ↔ outputKey item = some (.toolSearch, callId) := by
  cases item with
  | toolSearchOutput existing _ _ _ => cases existing <;> simp [isToolSearchOutput, outputKey]
  | _ => simp [isToolSearchOutput, outputKey]

theorem isCustomToolCallOutput_iff {callId : List Char} :
    isCustomToolCallOutput callId item ↔ outputKey item = some (.custom, callId) := by
  cases item <;> simp [isCustomToolCallOutput, outputKey]

/-- Some item of the list is an output for the key. -/
def hasOutput (items : List ResponseItem) (key : OutputKind × List Char) : Bool :=
  items.any fun item => outputKey item = some key

/-- Some item of the list is a call with the key. -/
def hasCall (items : List ResponseItem) (key : OutputKind × List Char) : Bool :=
  items.any fun item => callKey item = some key

theorem hasOutput_iff : hasOutput items key ↔ ∃ item ∈ items, outputKey item = some key := by
  simp [hasOutput]

theorem hasCall_iff : hasCall items key ↔ ∃ item ∈ items, callKey item = some key := by
  simp [hasCall]

/-- A call lacks its output when no item is one for its key. -/
theorem missingOutput_eq (items : List ResponseItem) (item : ResponseItem) :
    missingOutput items item = (callKey item).bind fun key =>
      if hasOutput items key then none else some (synthesizedOutput key) := by
  have hany (p : ResponseItem → Bool) (key : OutputKind × List Char)
      (hp : ∀ item, p item ↔ outputKey item = some key) : items.any p = hasOutput items key := by
    unfold hasOutput
    congr 1
    funext item
    rw [Bool.eq_iff_iff, hp, decide_eq_true_eq]
  have hfunction (callId : List Char) := hany (isFunctionCallOutput callId) (.function, callId)
    fun _ => isFunctionCallOutput_iff
  have htoolSearch (callId : List Char) := hany (isToolSearchOutput callId) (.toolSearch, callId)
    fun _ => isToolSearchOutput_iff
  have hcustom (callId : List Char) := hany (isCustomToolCallOutput callId) (.custom, callId)
    fun _ => isCustomToolCallOutput_iff
  cases item with
  | functionCall callId _ => simp [missingOutput, callKey, hfunction, synthesizedOutput]
  | customToolCall callId _ => simp [missingOutput, callKey, hcustom, synthesizedOutput]
  | localShellCall callId _ =>
    cases callId <;> simp [missingOutput, callKey, hfunction, synthesizedOutput]
  | toolSearchCall callId _ =>
    cases callId <;> simp [missingOutput, callKey, htoolSearch, synthesizedOutput]
  | _ => rfl

theorem insertIdx_length_succ {α : Type} (xs : List α) (x y : α) (ys : List α) :
    (xs ++ x :: ys).insertIdx (xs.length + 1) y = xs ++ x :: y :: ys := by
  induction xs with
  | nil => simp
  | cons z xs ih => simp [ih]

/-- Each missing output is put directly after its call. -/
theorem ensureCallOutputsPresent_eq (items : List ResponseItem) :
    ensureCallOutputsPresent items =
      items.flatMap fun item => item :: (missingOutput items item).toList := by
  have hinsert (f : ResponseItem → Option ResponseItem) (xs before : List ResponseItem) :
      ((xs.zipIdx before.length).filterMap fun entry =>
          (f entry.1).map fun output => (entry.2, output)).foldr
        (fun entry items => items.insertIdx (entry.1 + 1) entry.2) (before ++ xs) =
      before ++ xs.flatMap fun item => item :: (f item).toList := by
    induction xs generalizing before with
    | nil => simp
    | cons x xs ih =>
      have hrest := ih (before ++ [x])
      rw [List.length_append, List.length_singleton, List.append_assoc, List.append_assoc] at hrest
      rw [List.zipIdx_cons, List.filterMap_cons, List.flatMap_cons]
      cases hx : f x with
      | none => simpa [hx] using hrest
      | some output =>
        simp only [Option.map_some, List.foldr_cons]
        rw [List.singleton_append] at hrest
        rw [hrest]
        simpa using insertIdx_length_succ before x output _
  have hall := hinsert (missingOutput items) items []
  rw [List.nil_append, List.nil_append] at hall
  rw [ensureCallOutputsPresent, List.foldl_reverse]
  exact hall

/-- An output is kept when the server executed the call, or some item is the call. -/
theorem hasMatch_eq (items : List ResponseItem) (item : ResponseItem) :
    hasMatch items item = (isServerOutput item || (outputKey item).all (hasCall items)) := by
  have hfunction (callId : List Char) : hasCall items (.function, callId) =
      (decide (callId ∈ functionCallIds items) || decide (callId ∈ localShellCallIds items)) := by
    rw [Bool.eq_iff_iff, hasCall_iff, Bool.or_eq_true, decide_eq_true_eq, decide_eq_true_eq,
      functionCallIds, localShellCallIds, List.mem_filterMap, List.mem_filterMap, ← exists_or]
    refine exists_congr fun item => ?_
    rw [← and_or_left]
    refine and_congr_right fun _ => ?_
    cases item with
    | localShellCall callId _ => cases callId <;> simp [callKey]
    | _ => simp [callKey]
  have htoolSearch (callId : List Char) : hasCall items (.toolSearch, callId) =
      decide (callId ∈ toolSearchCallIds items) := by
    rw [Bool.eq_iff_iff, hasCall_iff, decide_eq_true_eq, toolSearchCallIds, List.mem_filterMap]
    refine exists_congr fun item => and_congr_right fun _ => ?_
    cases item with
    | toolSearchCall callId _ => cases callId <;> simp [callKey]
    | _ => simp [callKey]
  have hcustom (callId : List Char) : hasCall items (.custom, callId) =
      decide (callId ∈ customToolCallIds items) := by
    rw [Bool.eq_iff_iff, hasCall_iff, decide_eq_true_eq, customToolCallIds, List.mem_filterMap]
    refine exists_congr fun item => and_congr_right fun _ => ?_
    cases item <;> simp [callKey]
  cases item with
  | functionCallOutput callId _ => simp [hasMatch, isServerOutput, outputKey, hfunction]
  | customToolCallOutput callId _ _ => simp [hasMatch, isServerOutput, outputKey, hcustom]
  | toolSearchOutput callId _ _ _ =>
    cases callId <;> simp [hasMatch, isServerOutput, outputKey, htoolSearch]
  | _ => rfl

/-! ## The prompt -/

@[simp]
theorem callKey_stripImages : callKey (stripImages inputModalities item) = callKey item := by
  unfold stripImages
  split
  · rfl
  · cases item <;> rfl

@[simp]
theorem outputKey_stripImages : outputKey (stripImages inputModalities item) = outputKey item := by
  unfold stripImages
  split
  · rfl
  · cases item <;> rfl

@[simp]
theorem isServerOutput_stripImages :
    isServerOutput (stripImages inputModalities item) = isServerOutput item := by
  unfold stripImages
  split
  · rfl
  · cases item <;> rfl

@[simp]
theorem isGhostSnapshot_stripImages :
    isGhostSnapshot (stripImages inputModalities item) = isGhostSnapshot item := by
  unfold stripImages
  split
  · rfl
  · cases item <;> rfl

@[simp]
theorem stripImages_synthesizedOutput :
    stripImages inputModalities (synthesizedOutput key) = synthesizedOutput key := by
  obtain ⟨kind, callId⟩ := key
  unfold stripImages
  split
  · rfl
  · cases kind <;> rfl

@[simp]
theorem isGhostSnapshot_synthesizedOutput : isGhostSnapshot (synthesizedOutput key) = false := by
  obtain ⟨kind, callId⟩ := key
  cases kind <;> rfl

theorem stripOutput_stripOutput (output : FunctionCallOutputPayload) :
    stripOutput (stripOutput output) = stripOutput output := by
  obtain ⟨body, success⟩ := output
  cases body with
  | text content => rfl
  | contentItems items =>
    have hitems : (items.map stripOutputContentItem).map stripOutputContentItem =
        items.map stripOutputContentItem := by
      rw [List.map_map]
      congr 1
      funext item
      cases item <;> rfl
    exact congrArg (fun items => FunctionCallOutputPayload.mk (.contentItems items) success) hitems

@[simp]
theorem stripImages_stripImages :
    stripImages inputModalities (stripImages inputModalities item) =
      stripImages inputModalities item := by
  unfold stripImages
  split
  · rfl
  · cases item with
    | message role content =>
      have hcontent : (content.map stripContentItem).map stripContentItem =
          content.map stripContentItem := by
        rw [List.map_map]
        congr 1
        funext item
        cases item <;> rfl
      exact congrArg (ResponseItem.message role) hcontent
    | functionCallOutput callId output =>
      exact congrArg (ResponseItem.functionCallOutput callId) (stripOutput_stripOutput output)
    | customToolCallOutput callId name output =>
      exact congrArg (ResponseItem.customToolCallOutput callId name)
        (stripOutput_stripOutput output)
    | _ => rfl

/-- The item stays in the prompt: it is not an orphan output and not a snapshot. -/
def isPrompted (items : List ResponseItem) (item : ResponseItem) : Bool :=
  (isServerOutput item || (outputKey item).all (hasCall items)) && !isGhostSnapshot item

/-- The output that is made up after an item. -/
def outputAfter (items : List ResponseItem) (item : ResponseItem) : Option ResponseItem :=
  (callKey item).bind fun key =>
    if hasOutput items key then none else some (synthesizedOutput key)

theorem hasCall_ensureCallOutputsPresent (items : List ResponseItem) :
    hasCall (ensureCallOutputsPresent items) = hasCall items := by
  funext key
  rw [ensureCallOutputsPresent_eq, hasCall, List.any_flatMap]
  unfold hasCall
  congr 1
  funext item
  rw [missingOutput_eq]
  cases hkey : callKey item with
  | none => simp [hkey]
  | some itemKey =>
    cases hasOutput items itemKey <;> simp [hkey]

theorem isPrompted_of_callKey (h : callKey item = some key) : isPrompted items item := by
  cases item <;> first | rfl | cases h

theorem isPrompted_synthesizedOutput (h : hasCall items key) :
    isPrompted items (synthesizedOutput key) := by
  simp [isPrompted, h]

/-- The items that stay, in their order, each followed by the output that is made up for it. -/
theorem forPrompt_eq (inputModalities : List InputModality) (items : List ResponseItem) :
    forPrompt inputModalities items = (items.filter (isPrompted items)).flatMap fun item =>
      stripImages inputModalities item :: (outputAfter items item).toList := by
  have hfilter (xs : List ResponseItem) : forPrompt inputModalities xs =
      ((ensureCallOutputsPresent xs).filter (isPrompted xs)).map (stripImages inputModalities) := by
    simp only [forPrompt, normalizeHistory, stripImagesWhenUnsupported, removeOrphanOutputs,
      List.filter_map, List.filter_filter]
    congr 2
    funext item
    simp [hasMatch_eq, isPrompted, hasCall_ensureCallOutputsPresent, Bool.and_comm]
  rw [hfilter, ensureCallOutputsPresent_eq]
  -- the made up outputs stay, since their calls are items
  have hstep (xs : List ResponseItem) (hxs : ∀ item ∈ xs, item ∈ items) :
      ((xs.flatMap fun item => item :: (missingOutput items item).toList).filter
        (isPrompted items)).map (stripImages inputModalities) =
      (xs.filter (isPrompted items)).flatMap fun item =>
        stripImages inputModalities item :: (outputAfter items item).toList := by
    induction xs with
    | nil => rfl
    | cons item xs ih =>
      obtain ⟨hitem, hxs⟩ := List.forall_mem_cons.1 hxs
      rw [List.flatMap_cons, List.filter_append, List.map_append, ih hxs, List.filter_cons,
        missingOutput_eq]
      cases hkey : callKey item with
      | none =>
        cases hprompted : isPrompted items item <;> simp [hprompted, outputAfter, hkey]
      | some key =>
        have hcall : hasCall items key := hasCall_iff.2 ⟨item, hitem, hkey⟩
        have hprompted : isPrompted items item := isPrompted_of_callKey hkey
        cases houtput : hasOutput items key <;>
          simp [hprompted, outputAfter, hkey, houtput, isPrompted_synthesizedOutput hcall]
  exact hstep items fun _ h => h

theorem mem_forPrompt : item ∈ forPrompt inputModalities items ↔
    ∃ original ∈ items, isPrompted items original ∧
      (item = stripImages inputModalities original ∨ outputAfter items original = some item) := by
  rw [forPrompt_eq, List.mem_flatMap]
  simp only [List.mem_filter, List.mem_cons, Option.mem_toList, and_assoc]

theorem outputAfter_eq_some {output : ResponseItem} :
    outputAfter items item = some output ↔
      ∃ key, callKey item = some key ∧ hasOutput items key = false ∧
        synthesizedOutput key = output := by
  unfold outputAfter
  cases callKey item with
  | none => simp
  | some key => cases hasOutput items key <;> simp

theorem isPrompted_of_outputKey (h : outputKey item = some key) (hcall : hasCall items key) :
    isPrompted items item := by
  have hghost : isGhostSnapshot item = false := by cases item <;> first | rfl | cases h
  simp [isPrompted, h, hcall, hghost]

theorem exists_output_of_call {call : ResponseItem} (hmem : call ∈ forPrompt inputModalities items)
    (hkey : callKey call = some key) :
    ∃ output ∈ forPrompt inputModalities items, outputKey output = some key := by
  obtain ⟨item, hitem, hprompted, rfl | hafter⟩ := mem_forPrompt.1 hmem
  · rw [callKey_stripImages] at hkey
    cases houtput : hasOutput items key with
    | true =>
      obtain ⟨output, hmemOutput, houtputKey⟩ := hasOutput_iff.1 houtput
      have hcall : hasCall items key := hasCall_iff.2 ⟨item, hitem, hkey⟩
      refine ⟨stripImages inputModalities output, ?_, by simpa using houtputKey⟩
      exact mem_forPrompt.2
        ⟨output, hmemOutput, isPrompted_of_outputKey houtputKey hcall, .inl rfl⟩
    | false =>
      have hafter := outputAfter_eq_some.2 ⟨key, hkey, houtput, rfl⟩
      exact ⟨synthesizedOutput key, mem_forPrompt.2 ⟨item, hitem, hprompted, .inr hafter⟩,
        outputKey_synthesizedOutput⟩
  · obtain ⟨_, _, _, rfl⟩ := outputAfter_eq_some.1 hafter
    simp at hkey

theorem exists_call_of_output {output : ResponseItem}
    (hmem : output ∈ forPrompt inputModalities items) (hkey : outputKey output = some key)
    (hserver : isServerOutput output = false) :
    ∃ call ∈ forPrompt inputModalities items, callKey call = some key := by
  have hprompt {call : ResponseItem} (hcall : call ∈ items) (hcallKey : callKey call = some key) :
      ∃ call ∈ forPrompt inputModalities items, callKey call = some key :=
    ⟨stripImages inputModalities call,
      mem_forPrompt.2 ⟨call, hcall, isPrompted_of_callKey hcallKey, .inl rfl⟩,
      by simpa using hcallKey⟩
  obtain ⟨item, hitem, hprompted, rfl | hafter⟩ := mem_forPrompt.1 hmem
  · rw [outputKey_stripImages] at hkey
    rw [isServerOutput_stripImages] at hserver
    have hcall : hasCall items key := by
      simp only [isPrompted, hserver, hkey, Bool.false_or, Option.all_some, Bool.and_eq_true]
        at hprompted
      exact hprompted.1
    obtain ⟨call, hmemCall, hcallKey⟩ := hasCall_iff.1 hcall
    exact hprompt hmemCall hcallKey
  · obtain ⟨key', hcallKey, -, rfl⟩ := outputAfter_eq_some.1 hafter
    obtain rfl : key' = key := by simpa using hkey
    exact hprompt hitem hcallKey

theorem forPrompt_forPrompt (inputModalities : List InputModality) (items : List ResponseItem) :
    forPrompt inputModalities (forPrompt inputModalities items) =
      forPrompt inputModalities items := by
  have hprompted : ∀ item ∈ forPrompt inputModalities items,
      isPrompted (forPrompt inputModalities items) item := by
    intro item hmem
    have hghost : isGhostSnapshot item = false := by
      simpa using (List.mem_filter.1 hmem).2
    cases hserver : isServerOutput item with
    | true => simp [isPrompted, hserver, hghost]
    | false =>
      cases hkey : outputKey item with
      | none => simp [isPrompted, hkey, hghost]
      | some key =>
        exact isPrompted_of_outputKey hkey
          (hasCall_iff.2 (exists_call_of_output hmem hkey hserver))
  have hafter : ∀ item ∈ forPrompt inputModalities items,
      outputAfter (forPrompt inputModalities items) item = none := by
    intro item hmem
    cases hkey : callKey item with
    | none => simp [outputAfter, hkey]
    | some key =>
      have houtput := hasOutput_iff.2 (exists_output_of_call hmem hkey)
      simp [outputAfter, hkey, houtput]
  have hstrip : ∀ item ∈ forPrompt inputModalities items,
      stripImages inputModalities item = item := by
    intro item hmem
    obtain ⟨original, -, -, rfl | h⟩ := mem_forPrompt.1 hmem
    · exact stripImages_stripImages
    · obtain ⟨key, -, -, rfl⟩ := outputAfter_eq_some.1 h
      exact stripImages_synthesizedOutput
  rw [forPrompt_eq, List.filter_eq_self.2 hprompted]
  calc (forPrompt inputModalities items).flatMap (fun item =>
        stripImages inputModalities item ::
          (outputAfter (forPrompt inputModalities items) item).toList)
      = (forPrompt inputModalities items).flatMap fun item => [item] := by
        refine List.flatMap_congr fun item hmem => ?_
        rw [hstrip item hmem, hafter item hmem]
        rfl
    _ = forPrompt inputModalities items := by simp

/-- The prompt is normal: calls have outputs, outputs have calls, what is made up stands after its
call, the rest is as it was, images apart, and there is nothing left to do. -/
theorem forPrompt_normal (inputModalities : List InputModality) (items : List ResponseItem) :
    let prompt := forPrompt inputModalities items
    (∀ call ∈ prompt, ∀ key, callKey call = some key →
      ∃ output ∈ prompt, outputKey output = some key) ∧
    (∀ output ∈ prompt, ∀ key, outputKey output = some key → isServerOutput output = false →
      ∃ call ∈ prompt, callKey call = some key) ∧
    prompt = (items.filter (isPrompted items)).flatMap (fun item =>
      stripImages inputModalities item :: (outputAfter items item).toList) ∧
    forPrompt inputModalities prompt = prompt :=
  ⟨fun _ hmem _ hkey => exists_output_of_call hmem hkey,
    fun _ hmem _ hkey hserver => exists_call_of_output hmem hkey hserver,
    forPrompt_eq inputModalities items, forPrompt_forPrompt inputModalities items⟩

end Mcodex.Rollout
