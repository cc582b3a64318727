import Mcodex.Guardian.Transcript
import Mcodex.Rollout.Prompt

/-!
# Trimming keeps calls and outputs together

`remove_first_item` and `remove_last_item` take the other half of a pair along. An output of a
function answers a call of a function or a local shell call, so two calls with one id share it: then
the removal of one of them leaves the other without an output, and the removal of the output leaves
it without its call (`SharesOutput`). Otherwise the pairs that are left are whole.
-/

namespace Mcodex.Guardian

open Rollout

/-! ## Pairs -/

inductive CallKind where
  | function
  | localShell
  | toolSearch
  | custom
  deriving DecidableEq, Repr

/-- The outputs that answer a kind of call. -/
def CallKind.answeredBy : CallKind → OutputKind
  | .function | .localShell => .function
  | .toolSearch => .toolSearch
  | .custom => .custom

/-- The kind of a call with its id. -/
def callWithId : ResponseItem → Option (CallKind × List Char)
  | .functionCall callId _ => some (.function, callId)
  | .localShellCall callId _ => callId.map (CallKind.localShell, ·)
  | .toolSearchCall callId _ => callId.map (CallKind.toolSearch, ·)
  | .customToolCall callId _ => some (.custom, callId)
  | _ => none

/-- Ids are unique for each kind of call and of output, and calls and outputs answer each other. -/
structure Paired (items : List ResponseItem) : Prop where
  calls : (items.filterMap callWithId).Nodup
  outputs : (items.filterMap outputKey).Nodup
  answered : ∀ key, hasCall items key → hasOutput items key
  asked : ∀ key, hasOutput items key → hasCall items key

/-- The key that the item shares with its other half. -/
def pairKey (item : ResponseItem) : Option (OutputKind × List Char) :=
  (callKey item).or (outputKey item)

/-- One item is the call and the other one the output. -/
def Counterpart (item half : ResponseItem) : Prop :=
  ∃ key, (callKey item = some key ∧ outputKey half = some key) ∨
    (outputKey item = some key ∧ callKey half = some key)

/-- The output that the item is, or that answers it, answers two calls. -/
def SharesOutput (items : List ResponseItem) (item : ResponseItem) : Prop :=
  ∃ callId, pairKey item = some (.function, callId) ∧
    (.function, callId) ∈ items.filterMap callWithId ∧
    (.localShell, callId) ∈ items.filterMap callWithId

section
variable {items items' rest : List ResponseItem} {item call output half : ResponseItem}
  {key : OutputKind × List Char}

theorem callKey_eq (item : ResponseItem) :
    callKey item = (callWithId item).map fun entry => (entry.1.answeredBy, entry.2) := by
  cases item with
  | localShellCall callId _ => cases callId <;> rfl
  | toolSearchCall callId _ => cases callId <;> rfl
  | _ => rfl

theorem hasCall_perm (h : items.Perm items') : hasCall items key = hasCall items' key :=
  h.any_eq

theorem hasOutput_perm (h : items.Perm items') : hasOutput items key = hasOutput items' key :=
  h.any_eq

theorem Paired.perm (hp : Paired items) (h : items.Perm items') : Paired items' where
  calls := (h.filterMap _).nodup_iff.1 hp.calls
  outputs := (h.filterMap _).nodup_iff.1 hp.outputs
  answered key hcall := hasOutput_perm h ▸ hp.answered key (hasCall_perm h ▸ hcall)
  asked key houtput := hasCall_perm h ▸ hp.asked key (hasOutput_perm h ▸ houtput)

theorem Paired.of_forall (hcalls : (items.filterMap callWithId).Nodup)
    (houtputs : (items.filterMap outputKey).Nodup)
    (hanswered : ∀ item ∈ items, ∀ key ∈ callKey item, hasOutput items key)
    (hasked : ∀ item ∈ items, ∀ key ∈ outputKey item, hasCall items key) : Paired items where
  calls := hcalls
  outputs := houtputs
  answered key hcall := by
    obtain ⟨item, hitem, hkey⟩ := hasCall_iff.1 hcall
    exact hanswered item hitem key hkey
  asked key houtput := by
    obtain ⟨item, hitem, hkey⟩ := hasOutput_iff.1 houtput
    exact hasked item hitem key hkey

theorem hasCall_cons :
    hasCall (item :: items) key ↔ callKey item = some key ∨ hasCall items key := by
  rw [hasCall, List.any_cons, Bool.or_eq_true, decide_eq_true_eq]
  rfl

theorem hasOutput_cons :
    hasOutput (item :: items) key ↔ outputKey item = some key ∨ hasOutput items key := by
  rw [hasOutput, List.any_cons, Bool.or_eq_true, decide_eq_true_eq]
  rfl

/-- Without a pair, the others are paired as long as no other call shared its output. -/
theorem Paired.of_pair (hp : Paired (call :: output :: rest)) (hcall : callKey call = some key)
    (houtput : outputKey output = some key) : Paired rest ↔ ¬hasCall rest key := by
  have hnotOutput : outputKey call = none := by
    cases hkey : outputKey call with
    | none => rfl
    | some key' => rw [callKey_eq_none_of_outputKey hkey] at hcall; cases hcall
  have hnotCall : callKey output = none := callKey_eq_none_of_outputKey houtput
  have houtputs := hp.outputs
  rw [List.filterMap_cons_none hnotOutput, List.filterMap_cons_some houtput, List.nodup_cons]
    at houtputs
  -- no other output has the key
  have hnone : ¬hasOutput rest key := fun h => by
    obtain ⟨item, hitem, hkey⟩ := hasOutput_iff.1 h
    exact houtputs.1 (List.mem_filterMap.2 ⟨item, hitem, hkey⟩)
  constructor
  · exact fun hrest hshared => hnone (hrest.answered key hshared)
  · intro hshared
    refine ⟨hp.calls.sublist ?_, houtputs.2, fun key' hcall' => ?_, fun key' houtput' => ?_⟩
    · exact ((List.sublist_cons_self output rest).cons call).filterMap _
    · have hne : key' ≠ key := fun h => hshared (h ▸ hcall')
      have hall := hp.answered key' (hasCall_cons.2 (.inr (hasCall_cons.2 (.inr hcall'))))
      rcases hasOutput_cons.1 hall with hkey | hall
      · rw [hnotOutput] at hkey
        cases hkey
      rcases hasOutput_cons.1 hall with hkey | hall
      · exact absurd (Option.some.inj (hkey.symm.trans houtput)) hne
      · exact hall
    · have hne : key' ≠ key := fun h => hnone (h ▸ houtput')
      have hall := hp.asked key' (hasOutput_cons.2 (.inr (hasOutput_cons.2 (.inr houtput'))))
      rcases hasCall_cons.1 hall with hkey | hall
      · exact absurd (Option.some.inj (hkey.symm.trans hcall)) hne
      rcases hasCall_cons.1 hall with hkey | hall
      · rw [hnotCall] at hkey
        cases hkey
      · exact hall

theorem pairKey_of_callKey (h : callKey item = some key) : pairKey item = some key := by
  rw [pairKey, h, Option.some_or]

theorem pairKey_of_outputKey (h : outputKey item = some key) : pairKey item = some key := by
  rw [pairKey, callKey_eq_none_of_outputKey h, Option.none_or, h]

/-- A call that is left with the key of a pair is of the other kind of the two that outputs of
functions answer. -/
theorem hasCall_iff_sharesOutput (hp : Paired (call :: output :: rest))
    (hcall : callKey call = some key) (houtput : outputKey output = some key) :
    hasCall rest key ↔ SharesOutput (call :: output :: rest) call := by
  have hnotCall : callWithId output = none := by
    have hnone := callKey_eq_none_of_outputKey houtput
    rw [callKey_eq, Option.map_eq_none_iff] at hnone
    exact hnone
  obtain ⟨⟨kind, callId⟩, hid, hkind⟩ := Option.map_eq_some_iff.1 (callKey_eq call ▸ hcall)
  dsimp only at hkind
  have hcalls := hp.calls
  rw [List.filterMap_cons_some hid, List.filterMap_cons_none hnotCall, List.nodup_cons] at hcalls
  unfold SharesOutput
  rw [List.filterMap_cons_some hid, List.filterMap_cons_none hnotCall, pairKey_of_callKey hcall]
  constructor
  · intro hshared
    obtain ⟨item, hitem, hkey⟩ := hasCall_iff.1 hshared
    obtain ⟨⟨kind', callId'⟩, hid', hkind'⟩ := Option.map_eq_some_iff.1 (callKey_eq item ▸ hkey)
    dsimp only at hkind'
    have hmem : (kind', callId') ∈ rest.filterMap callWithId :=
      List.mem_filterMap.2 ⟨item, hitem, hid'⟩
    obtain ⟨hsame, rfl⟩ := Prod.mk.inj (hkind'.trans hkind.symm)
    have hne : kind' ≠ kind := fun h => hcalls.1 (h ▸ hmem)
    refine ⟨callId', ?_⟩
    rw [← hkind]
    cases kind' <;> cases kind <;> first
      | exact absurd rfl hne
      | exact ⟨rfl, .tail _ hmem, .head _⟩
      | exact ⟨rfl, .head _, .tail _ hmem⟩
      | cases hsame
  · rintro ⟨callId', hkey, hfunction, hshell⟩
    obtain ⟨hfamily, rfl⟩ := Prod.mk.inj (hkind.trans (Option.some.inj hkey))
    -- the one of the two that is not the call itself is among the others
    have hsibling : ∃ kind', kind'.answeredBy = kind.answeredBy ∧
        (kind', callId) ∈ rest.filterMap callWithId := by
      cases kind with
      | function => exact ⟨.localShell, rfl, (List.mem_cons.1 hshell).resolve_left (nomatch ·)⟩
      | localShell => exact ⟨.function, rfl, (List.mem_cons.1 hfunction).resolve_left (nomatch ·)⟩
      | toolSearch => cases hfamily
      | custom => cases hfamily
    obtain ⟨kind', hsame, hmem⟩ := hsibling
    obtain ⟨item, hitem, hid'⟩ := List.mem_filterMap.1 hmem
    refine hasCall_iff.2 ⟨item, hitem, ?_⟩
    rw [callKey_eq, hid', Option.map_some, hsame, ← hkind]

theorem sharesOutput_perm (h : items.Perm items') :
    SharesOutput items item ↔ SharesOutput items' item := by
  unfold SharesOutput
  simp only [(h.filterMap callWithId).mem_iff]

/-- Once both halves of a pair are gone, the others are paired exactly if the pair's output was not
shared. -/
theorem Paired.without_pair (hp : Paired (item :: half :: rest)) (hhalf : Counterpart item half) :
    Paired rest ↔ ¬SharesOutput (item :: half :: rest) item := by
  obtain ⟨key, ⟨hcall, houtput⟩ | ⟨houtput, hcall⟩⟩ := hhalf
  · rw [hp.of_pair hcall houtput, hasCall_iff_sharesOutput hp hcall houtput]
  · have hswap : (item :: half :: rest).Perm (half :: item :: rest) := .swap _ _ _
    have hp' := hp.perm hswap
    rw [hp'.of_pair hcall houtput, hasCall_iff_sharesOutput hp' hcall houtput,
      sharesOutput_perm hswap, SharesOutput, SharesOutput, pairKey_of_callKey hcall,
      pairKey_of_outputKey houtput]

/-- An item that is no half of a pair does not matter to the pairs. -/
theorem Paired.without_unpaired (hp : Paired (item :: rest)) (h : pairKey item = none) :
    Paired rest := by
  obtain ⟨hnotCall, hnotOutput⟩ := Option.or_eq_none_iff.1 h
  refine ⟨hp.calls.sublist ((List.sublist_cons_self _ _).filterMap _),
    hp.outputs.sublist ((List.sublist_cons_self _ _).filterMap _), fun key hcall => ?_,
    fun key houtput => ?_⟩
  · rcases hasOutput_cons.1 (hp.answered key (hasCall_cons.2 (.inr hcall))) with hkey | hall
    · rw [hnotOutput] at hkey
      cases hkey
    · exact hall
  · rcases hasCall_cons.1 (hp.asked key (hasOutput_cons.2 (.inr houtput))) with hkey | hall
    · rw [hnotCall] at hkey
      cases hkey
    · exact hall

/-! ## Removing the counterpart -/

theorem isFunctionCall_iff {callId : List Char} :
    isFunctionCall callId item ↔ callWithId item = some (.function, callId) := by
  cases item with
  | localShellCall existing _ => cases existing <;> simp [isFunctionCall, callWithId]
  | toolSearchCall existing _ => cases existing <;> simp [isFunctionCall, callWithId]
  | _ => simp [isFunctionCall, callWithId]

theorem isLocalShellCall_iff {callId : List Char} :
    isLocalShellCall callId item ↔ callWithId item = some (.localShell, callId) := by
  cases item with
  | localShellCall existing _ => cases existing <;> simp [isLocalShellCall, callWithId]
  | toolSearchCall existing _ => cases existing <;> simp [isLocalShellCall, callWithId]
  | _ => simp [isLocalShellCall, callWithId]

theorem isToolSearchCall_iff {callId : List Char} :
    isToolSearchCall callId item ↔ callWithId item = some (.toolSearch, callId) := by
  cases item with
  | localShellCall existing _ => cases existing <;> simp [isToolSearchCall, callWithId]
  | toolSearchCall existing _ => cases existing <;> simp [isToolSearchCall, callWithId]
  | _ => simp [isToolSearchCall, callWithId]

theorem isCustomToolCall_iff {callId : List Char} :
    isCustomToolCall callId item ↔ callWithId item = some (.custom, callId) := by
  cases item with
  | localShellCall existing _ => cases existing <;> simp [isCustomToolCall, callWithId]
  | toolSearchCall existing _ => cases existing <;> simp [isCustomToolCall, callWithId]
  | _ => simp [isCustomToolCall, callWithId]

/-- Of the items exactly one is gone, the other half of the removed item. -/
def TakesHalf (item : ResponseItem) (items items' : List ResponseItem) : Prop :=
  ∃ before half after, items = before ++ half :: after ∧ Counterpart item half ∧
    items' = before ++ after

theorem removeFirstMatching_takesHalf {p : ResponseItem → Bool}
    (hp : ∀ half, p half → Counterpart item half) (hany : ∃ half ∈ items, p half) :
    TakesHalf item items (removeFirstMatching p items) := by
  obtain ⟨half, hhalf, hmatch⟩ := hany
  obtain ⟨half', before, after, -, hmatch', hitems, herase⟩ := List.exists_of_eraseP hhalf hmatch
  exact ⟨before, half', after, hitems, hp half' hmatch', herase⟩

theorem Paired.exists_output (hp : Paired (item :: items)) (hcall : callKey item = some key) :
    ∃ half ∈ items, outputKey half = some key := by
  have hall := hp.answered key (hasCall_cons.2 (.inl hcall))
  rcases hasOutput_cons.1 hall with houtput | hall
  · rw [callKey_eq_none_of_outputKey houtput] at hcall
    cases hcall
  · exact hasOutput_iff.1 hall

theorem Paired.exists_call (hp : Paired (item :: items)) (houtput : outputKey item = some key) :
    ∃ half ∈ items, callKey half = some key := by
  have hall := hp.asked key (hasOutput_cons.2 (.inl houtput))
  rcases hasCall_cons.1 hall with hcall | hall
  · rw [callKey_eq_none_of_outputKey houtput] at hcall
    cases hcall
  · exact hasCall_iff.1 hall

/-- A call takes its output along. -/
theorem takesHalf_of_call (hp : Paired (item :: items)) (hcall : callKey item = some key)
    {p : ResponseItem → Bool} (hmatch : ∀ half, p half ↔ outputKey half = some key) :
    TakesHalf item items (removeFirstMatching p items) := by
  obtain ⟨half, hhalf, houtput⟩ := hp.exists_output hcall
  exact removeFirstMatching_takesHalf
    (fun half' h => ⟨key, .inl ⟨hcall, (hmatch half').1 h⟩⟩) ⟨half, hhalf, (hmatch half).2 houtput⟩

/-- An output takes a call of one kind along, when there is one. -/
theorem takesHalf_of_output (kind : CallKind) {callId : List Char}
    (houtput : outputKey item = some (kind.answeredBy, callId)) {p : ResponseItem → Bool}
    (hmatch : ∀ half, p half ↔ callWithId half = some (kind, callId))
    (hany : ∃ half ∈ items, callWithId half = some (kind, callId)) :
    TakesHalf item items (removeFirstMatching p items) := by
  obtain ⟨half, hhalf, hcall⟩ := hany
  refine removeFirstMatching_takesHalf (fun half' h => ⟨_, .inr ⟨houtput, ?_⟩⟩)
    ⟨half, hhalf, (hmatch half).2 hcall⟩
  rw [callKey_eq, (hmatch half').1 h, Option.map_some]

/-- The call of an output, by its kind. -/
theorem Paired.exists_kind (hp : Paired (item :: items)) (houtput : outputKey item = some key) :
    ∃ kind, kind.answeredBy = key.1 ∧ ∃ half ∈ items, callWithId half = some (kind, key.2) := by
  obtain ⟨half, hhalf, hcall⟩ := hp.exists_call houtput
  obtain ⟨⟨kind, callId⟩, hid, hkey⟩ := Option.map_eq_some_iff.1 (callKey_eq half ▸ hcall)
  subst hkey
  exact ⟨kind, rfl, half, hhalf, hid⟩

theorem removeCorrespondingFor_spec (hp : Paired (item :: items)) :
    (pairKey item = none → removeCorrespondingFor items item = items) ∧
      (pairKey item ≠ none → TakesHalf item items (removeCorrespondingFor items item)) := by
  cases item with
  | functionCall callId payload =>
    exact ⟨(nomatch ·), fun _ => takesHalf_of_call hp rfl fun _ => isFunctionCallOutput_iff⟩
  | customToolCall callId payload =>
    exact ⟨(nomatch ·), fun _ => takesHalf_of_call hp rfl fun _ => isCustomToolCallOutput_iff⟩
  | localShellCall callId payload =>
    cases callId with
    | none => exact ⟨fun _ => rfl, fun h => absurd rfl h⟩
    | some callId =>
      exact ⟨(nomatch ·), fun _ => takesHalf_of_call hp rfl fun _ => isFunctionCallOutput_iff⟩
  | toolSearchCall callId payload =>
    cases callId with
    | none => exact ⟨fun _ => rfl, fun h => absurd rfl h⟩
    | some callId =>
      exact ⟨(nomatch ·), fun _ => takesHalf_of_call hp rfl fun _ => isToolSearchOutput_iff⟩
  | functionCallOutput callId output =>
    refine ⟨(nomatch ·), fun _ => ?_⟩
    obtain ⟨kind, hkind, half, hhalf, hid⟩ := hp.exists_kind rfl
    rw [removeCorrespondingFor]
    split
    · rename_i hany
      obtain ⟨call, hcall, hmatch⟩ := List.any_eq_true.1 hany
      exact takesHalf_of_output .function rfl (fun _ => isFunctionCall_iff)
        ⟨call, hcall, isFunctionCall_iff.1 hmatch⟩
    · -- without a call of a function it is a local shell call that the output answers
      rename_i hany
      have hshell : kind = .localShell := by
        cases kind with
        | function =>
          exact absurd (List.any_eq_true.2 ⟨half, hhalf, isFunctionCall_iff.2 hid⟩) hany
        | localShell => rfl
        | toolSearch => cases hkind
        | custom => cases hkind
      subst hshell
      exact takesHalf_of_output .localShell rfl (fun _ => isLocalShellCall_iff)
        ⟨half, hhalf, hid⟩
  | customToolCallOutput callId name output =>
    refine ⟨(nomatch ·), fun _ => ?_⟩
    obtain ⟨kind, hkind, hany⟩ := hp.exists_kind rfl
    cases kind with
    | custom => exact takesHalf_of_output .custom rfl (fun _ => isCustomToolCall_iff) hany
    | _ => cases hkind
  | toolSearchOutput callId status execution tools =>
    cases callId with
    | none => exact ⟨fun _ => rfl, fun h => absurd rfl h⟩
    | some callId =>
      refine ⟨(nomatch ·), fun _ => ?_⟩
      obtain ⟨kind, hkind, hany⟩ := hp.exists_kind rfl
      cases kind with
      | toolSearch => exact takesHalf_of_output .toolSearch rfl (fun _ => isToolSearchCall_iff) hany
      | _ => cases hkind
  | _ => exact ⟨fun _ => rfl, fun h => absurd rfl h⟩

/-! ## Trimming -/

/-- The end item is gone, and with it its other half if it has one. What is left is paired unless
the two shared an output with a second call. -/
structure Trims (history : ParentHistory) (item : ResponseItem)
    (others trimmed : List ResponseItem) : Prop where
  alone : pairKey item = none → trimmed = others
  half : pairKey item ≠ none → TakesHalf item others trimmed
  paired : Paired trimmed ↔ ¬SharesOutput history.items item

theorem trims_removeCorrespondingFor {history : ParentHistory} (hp : Paired history.items)
    (hitems : history.items.Perm (item :: items)) :
    Trims history item items (removeCorrespondingFor items item) := by
  have hcons := hp.perm hitems
  obtain ⟨halone, hhalf⟩ := removeCorrespondingFor_spec hcons
  refine ⟨halone, hhalf, ?_⟩
  rw [sharesOutput_perm hitems]
  cases hkey : pairKey item with
  | none =>
    rw [halone hkey]
    refine iff_of_true (hcons.without_unpaired hkey) ?_
    rintro ⟨callId, hshared, -⟩
    rw [hkey] at hshared
    cases hshared
  | some key =>
    obtain ⟨before, half, after, hsplit, hpair, hresult⟩ := hhalf (by rw [hkey]; exact nofun)
    have hperm : (item :: items).Perm (item :: half :: (before ++ after)) := by
      rw [hsplit]
      exact List.perm_middle.cons item
    rw [hresult, sharesOutput_perm hperm]
    exact (hcons.perm hperm).without_pair hpair

/-- Trimming at either end of a paired history. -/
theorem trims_removeItem (history : ParentHistory) (hp : Paired history.items) :
    (history.items = [] → history.removeFirstItem.items = [] ∧ history.removeLastItem.items = []) ∧
      (∀ item others, history.items = item :: others →
        Trims history item others history.removeFirstItem.items) ∧
      ∀ item others, history.items = others ++ [item] →
        Trims history item others history.removeLastItem.items := by
  refine ⟨fun hnil => ?_, fun item others hitems => ?_, fun item others hitems => ?_⟩
  · rw [ParentHistory.removeFirstItem, ParentHistory.removeLastItem, hnil]
    exact ⟨hnil, hnil⟩
  · have htrims := trims_removeCorrespondingFor hp (.of_eq hitems)
    rw [ParentHistory.removeFirstItem, hitems]
    exact htrims
  · have htrims := trims_removeCorrespondingFor hp
      (hitems ▸ List.perm_append_singleton item others)
    rw [ParentHistory.removeLastItem, hitems, List.getLast?_concat, List.dropLast_concat]
    exact htrims

/-- A message between a call and its output. -/
def pairedHistory : ParentHistory where
  items := [.functionCall ['a'] [], .message "user" [], .functionCallOutput ['a'] aborted]
  historyVersion := 0

theorem trims_pairedHistory :
    Trims pairedHistory (.functionCall ['a'] [])
        [.message "user" [], .functionCallOutput ['a'] aborted]
        pairedHistory.removeFirstItem.items ∧
      Trims pairedHistory (.functionCallOutput ['a'] aborted)
        [.functionCall ['a'] [], .message "user" []] pairedHistory.removeLastItem.items := by
  obtain ⟨-, hfirst, hlast⟩ := trims_removeItem pairedHistory
    (.of_forall (by decide) (by decide) (by decide) (by decide))
  exact ⟨hfirst _ _ rfl, hlast _ _ rfl⟩

/-- A call of a function and a local shell call with one id, and the output that answers both. -/
def sharedHistory : ParentHistory where
  items := [.functionCall ['a'] [], .localShellCall (some ['a']) [],
    .functionCallOutput ['a'] aborted]
  historyVersion := 0

/-- The local shell call stays without an output. -/
theorem not_paired_removeFirstItem :
    Paired sharedHistory.items ∧ ¬Paired sharedHistory.removeFirstItem.items := by
  refine ⟨.of_forall (by decide) (by decide) (by decide) (by decide), fun hp => ?_⟩
  have houtput := hp.answered (.function, ['a']) (by decide)
  revert houtput
  decide

end

end Mcodex.Guardian
