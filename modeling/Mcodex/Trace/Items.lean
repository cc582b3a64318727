import Mathlib.Data.List.Basic

/-!
# Items of a trace's conversation

The items of requests and responses, as `normalize_model_items` makes them of a payload, and when
an item that is stored matches one of a payload. References to payloads do not count in summaries of
JSON, and reasoning that is known by its encrypted content only matches what has readable parts too.
-/

namespace Mcodex.Trace

inductive ConversationRole where
  | system
  | developer
  | user
  | assistant
  | tool
  deriving DecidableEq, Repr

inductive ConversationChannel where
  | analysis
  | commentary
  | final
  | summary
  deriving DecidableEq, Repr

inductive ConversationItemKind where
  | message
  | reasoning
  | functionCall
  | functionCallOutput
  | customToolCall
  | customToolCallOutput
  | compactionMarker
  deriving DecidableEq, Repr

inductive ConversationPart where
  | text (text : List Char)
  | summary (text : List Char)
  | encoded (label value : List Char)
  | json (summary rawPayloadId : List Char)
  | code (language source : List Char)
  | payloadRef (label rawPayloadId : List Char)
  deriving DecidableEq, Repr

abbrev ConversationBody := List ConversationPart

structure NormalizedConversationItem where
  role : ConversationRole
  channel : Option ConversationChannel
  kind : ConversationItemKind
  body : ConversationBody
  callId : Option (List Char)
  deriving DecidableEq, Repr

/-- What an item came from, as far as payloads and checkpoints say. -/
inductive ProducerRef where
  | inference (inferenceCallId : List Char)
  | compaction (compactionId : List Char)
  deriving DecidableEq, Repr

structure ConversationItem where
  threadId : List Char
  codexTurnId : Option (List Char)
  firstSeenAtUnixMs : Int
  role : ConversationRole
  channel : Option ConversationChannel
  kind : ConversationItemKind
  body : ConversationBody
  callId : Option (List Char)
  producedBy : List ProducerRef
  deriving DecidableEq, Repr

/-! ## Bodies -/

def conversationPartMatches : ConversationPart → ConversationPart → Bool
  | .json leftSummary _, .json rightSummary _ => leftSummary = rightSummary
  | left, right => left = right

def conversationBodyMatches (left right : ConversationBody) : Bool :=
  left.length = right.length && (left.zip right).all fun parts =>
    conversationPartMatches parts.1 parts.2

def reasoningEncodedPart (body : ConversationBody) : Option (List Char × List Char) :=
  body.findSome? fun
    | .encoded label value => some (label, value)
    | _ => none

def readableReasoningParts (body : ConversationBody) : ConversationBody :=
  body.filter fun
    | .text _ | .summary _ => true
    | _ => false

def readableReasoningPartsMatch (left right : ConversationBody) : Bool :=
  readableReasoningParts left = [] || readableReasoningParts right = [] ||
    readableReasoningParts left = readableReasoningParts right

def reasoningBodyMatches (left right : ConversationBody) : Bool :=
  conversationBodyMatches left right ||
    match reasoningEncodedPart left, reasoningEncodedPart right with
    | some leftEncoded, some rightEncoded =>
      leftEncoded = rightEncoded && readableReasoningPartsMatch left right
    | _, _ => false

def conversationItemMatches (item : ConversationItem) (normalized : NormalizedConversationItem) :
    Bool :=
  let bodyMatches := if item.kind = .reasoning ∧ normalized.kind = .reasoning then
    reasoningBodyMatches item.body normalized.body
  else conversationBodyMatches item.body normalized.body
  item.role = normalized.role && item.channel = normalized.channel &&
    item.kind = normalized.kind && bodyMatches && item.callId = normalized.callId

/-- Readable reasoning replaces a body without any. -/
def mergeReasoningBody (existing incoming : ConversationBody) : Option ConversationBody :=
  if conversationBodyMatches existing incoming then some existing
  else if !reasoningBodyMatches existing incoming then none
  else if readableReasoningParts existing = [] ∧ readableReasoningParts incoming ≠ [] then
    some incoming
  else some existing

/-! ## Matching -/

section
variable {left right other : ConversationBody}

/-- A part less what does not count. -/
def ConversationPart.identity : ConversationPart → ConversationPart
  | .json digest _ => .json digest []
  | part => part

theorem conversationPartMatches_iff {left right : ConversationPart} :
    conversationPartMatches left right = true ↔ left.identity = right.identity := by
  cases left <;> cases right <;> simp [conversationPartMatches, ConversationPart.identity]

theorem conversationBodyMatches_iff : conversationBodyMatches left right = true ↔
    left.map ConversationPart.identity = right.map ConversationPart.identity := by
  induction left generalizing right with
  | nil => cases right <;> simp [conversationBodyMatches]
  | cons part left ih =>
    cases right with
    | nil => simp [conversationBodyMatches]
    | cons part' right =>
      rw [List.map_cons, List.map_cons, List.cons.injEq, ← conversationPartMatches_iff, ← ih]
      simp only [conversationBodyMatches, List.length_cons, List.zip_cons_cons, List.all_cons,
        Nat.add_right_cancel_iff, Bool.and_eq_true, decide_eq_true_eq]
      exact and_left_comm

theorem conversationBodyMatches_refl : conversationBodyMatches left left = true :=
  conversationBodyMatches_iff.2 rfl

theorem reasoningEncodedPart_eq (h : conversationBodyMatches left right = true) :
    reasoningEncodedPart left = reasoningEncodedPart right := by
  have hidentity : ∀ body : ConversationBody,
      reasoningEncodedPart (body.map ConversationPart.identity) = reasoningEncodedPart body := by
    intro body
    rw [reasoningEncodedPart, List.findSome?_map, reasoningEncodedPart]
    congr 1
    funext part
    cases part <;> rfl
  rw [← hidentity left, conversationBodyMatches_iff.1 h, hidentity]

theorem readableReasoningParts_eq (h : conversationBodyMatches left right = true) :
    readableReasoningParts left = readableReasoningParts right := by
  have hidentity : ∀ body : ConversationBody,
      readableReasoningParts (body.map ConversationPart.identity) =
        readableReasoningParts body := by
    intro body
    induction body with
    | nil => rfl
    | cons part body ih =>
      simp only [readableReasoningParts, List.map_cons, List.filter_cons] at ih ⊢
      cases part <;> simp [ConversationPart.identity, ih]
  rw [← hidentity left, conversationBodyMatches_iff.1 h, hidentity]

/-- Reasoning matches by its parts, or by its encrypted content with readable parts that agree. -/
theorem reasoningBodyMatches_iff : reasoningBodyMatches left right = true ↔
    conversationBodyMatches left right = true ∨
      (∃ encoded, reasoningEncodedPart left = some encoded ∧
        reasoningEncodedPart right = some encoded) ∧
        (readableReasoningParts left = [] ∨ readableReasoningParts right = [] ∨
          readableReasoningParts left = readableReasoningParts right) := by
  rw [reasoningBodyMatches, Bool.or_eq_true]
  refine or_congr_right ?_
  cases reasoningEncodedPart left with
  | none => simp
  | some leftEncoded =>
    cases reasoningEncodedPart right with
    | none => simp
    | some rightEncoded =>
      simp only [readableReasoningPartsMatch, Bool.and_eq_true, Bool.or_eq_true, decide_eq_true_eq,
        or_assoc]
      refine and_congr_left fun _ => ⟨fun h => ⟨leftEncoded, rfl, h ▸ rfl⟩, ?_⟩
      rintro ⟨encoded, hleft, hright⟩
      exact (Option.some.inj hleft).trans (Option.some.inj hright).symm

theorem reasoningBodyMatches_refl : reasoningBodyMatches left left = true :=
  reasoningBodyMatches_iff.2 (Or.inl conversationBodyMatches_refl)

/-- What has no readable parts matches what its encrypted content is known by. -/
theorem reasoningBodyMatches_of_encoded {encoded : List Char × List Char}
    (hleft : reasoningEncodedPart left = some encoded)
    (hright : reasoningEncodedPart right = some encoded)
    (hreadable : readableReasoningParts right = []) : reasoningBodyMatches left right = true :=
  reasoningBodyMatches_iff.2 (Or.inr ⟨⟨encoded, hleft, hright⟩, Or.inr (Or.inl hreadable)⟩)

end

/-! ## Sightings -/

section
variable {item : ConversationItem} {normalized seen : NormalizedConversationItem}
  {body : ConversationBody}

theorem conversationItemMatches_iff : conversationItemMatches item normalized = true ↔
    item.role = normalized.role ∧ item.channel = normalized.channel ∧
      item.kind = normalized.kind ∧ item.callId = normalized.callId ∧
      (if item.kind = .reasoning then reasoningBodyMatches item.body normalized.body
        else conversationBodyMatches item.body normalized.body) = true := by
  simp only [conversationItemMatches, Bool.and_eq_true, decide_eq_true_eq]
  constructor
  · rintro ⟨⟨⟨⟨hrole, hchannel⟩, hkind⟩, hbody⟩, hcall⟩
    refine ⟨hrole, hchannel, hkind, hcall, ?_⟩
    simpa only [← hkind, and_self] using hbody
  · rintro ⟨hrole, hchannel, hkind, hcall, hbody⟩
    refine ⟨⟨⟨⟨hrole, hchannel⟩, hkind⟩, ?_⟩, hcall⟩
    simpa only [← hkind, and_self] using hbody

/-- An item was seen as an item of a payload. If it has no readable reasoning, none was seen. -/
structure Sighted (item : ConversationItem) (seen : NormalizedConversationItem) : Prop where
  matched : conversationItemMatches item seen = true
  unread : item.kind = .reasoning → readableReasoningParts item.body = [] →
    readableReasoningParts seen.body = []

/-- An item that has the body of what was seen. -/
theorem Sighted.of_eq (hrole : item.role = seen.role) (hchannel : item.channel = seen.channel)
    (hkind : item.kind = seen.kind) (hcall : item.callId = seen.callId)
    (hbody : item.body = seen.body) : Sighted item seen := by
  refine ⟨conversationItemMatches_iff.2 ⟨hrole, hchannel, hkind, hcall, ?_⟩, fun _ h => hbody ▸ h⟩
  rw [hbody]
  split
  · exact reasoningBodyMatches_refl
  · exact conversationBodyMatches_refl

/-- Producers do not count. -/
theorem Sighted.producedBy (h : Sighted item seen) (producedBy : List ProducerRef) :
    Sighted { item with producedBy } seen := ⟨h.matched, h.unread⟩

/-- What was seen of reasoning matches its body after a merge. -/
theorem Sighted.merge (h : Sighted item seen) (hkind : item.kind = .reasoning)
    (hmerge : mergeReasoningBody item.body normalized.body = some body) :
    Sighted { item with body } seen := by
  rw [mergeReasoningBody] at hmerge
  split at hmerge
  · obtain rfl := Option.some.inj hmerge
    exact h
  · rename_i hdiffer
    split at hmerge
    · cases hmerge
    · rename_i hmatches
      rw [Bool.not_eq_true, Bool.not_eq_false'] at hmatches
      split at hmerge
      · rename_i hread
        obtain rfl := Option.some.inj hmerge
        obtain ⟨hrole, hchannel, hkind', hcall, hbody⟩ := conversationItemMatches_iff.1 h.matched
        rw [if_pos hkind] at hbody
        obtain ⟨⟨encoded, hitem, hnormalized⟩, -⟩ :=
          (reasoningBodyMatches_iff.1 hmatches).resolve_left hdiffer
        -- What was seen has the encrypted content of the item, and nothing readable.
        have hseen : reasoningEncodedPart seen.body = some encoded := by
          rcases reasoningBodyMatches_iff.1 hbody with hsame | ⟨⟨encoded', hitem', hseen⟩, -⟩
          · rw [← reasoningEncodedPart_eq hsame, hitem]
          · rw [hseen, ← hitem', hitem]
        refine ⟨conversationItemMatches_iff.2 ⟨hrole, hchannel, hkind', hcall, ?_⟩,
          fun _ hempty => absurd hempty hread.2⟩
        rw [if_pos hkind]
        exact reasoningBodyMatches_of_encoded hnormalized hseen (h.unread hkind hread.1)
      · obtain rfl := Option.some.inj hmerge
        exact h

/-- An item that matches is seen, once it is merged. -/
theorem Sighted.of_merge (h : conversationItemMatches item normalized = true)
    (hmerge : mergeReasoningBody item.body normalized.body = some body) :
    Sighted { item with body } normalized := by
  obtain ⟨hrole, hchannel, hkind', hcall, -⟩ := conversationItemMatches_iff.1 h
  rw [mergeReasoningBody] at hmerge
  split at hmerge
  · rename_i hsame
    obtain rfl := Option.some.inj hmerge
    exact ⟨h, fun _ hempty => (readableReasoningParts_eq hsame) ▸ hempty⟩
  · split at hmerge
    · cases hmerge
    · split at hmerge
      · obtain rfl := Option.some.inj hmerge
        exact .of_eq hrole hchannel hkind' hcall rfl
      · rename_i hread
        obtain rfl := Option.some.inj hmerge
        rw [not_and, not_not] at hread
        exact ⟨h, fun _ hempty => hread hempty⟩

/-- An item that is not reasoning is seen when it matches. -/
theorem Sighted.of_matches (h : conversationItemMatches item normalized = true)
    (hkind : item.kind ≠ .reasoning) : Sighted item normalized :=
  ⟨h, fun hreasoning => absurd hreasoning hkind⟩

end

end Mcodex.Trace
