import Mathlib.Data.List.Forall2
import Mathlib.Data.List.Nodup
import Mcodex.Trace.Conversation

/-!
# Snapshots of a trace's conversation

The identities of a request name the items of its input, one each and in order. They are distinct
when no item is matched by position with an identity that the request has used already: the search
by content leaves out what is used, the match by position does not.
-/

namespace Mcodex.Trace

open Table Transition

namespace TraceReducer

/-! ## Items as a replay goes on -/

section
variable {reducer next : TraceReducer} {context : ReconcileItems} {itemId : ConversationItemId}
  {normalized : NormalizedConversationItem} {producedBy : List ProducerRef}
  {snapshot usedItemIds : List ConversationItemId}

/-- An identity names an item that was seen so. -/
def Names (reducer : TraceReducer) (itemId : ConversationItemId)
    (seen : NormalizedConversationItem) : Prop :=
  ∃ item, reducer.conversationItems.lookup itemId = some item ∧ Sighted item seen

/-- Identities that are used are below the next one. -/
def Bounded (reducer : TraceReducer) : Prop :=
  ∀ itemId, (reducer.conversationItems.lookup itemId).isSome →
    itemId < reducer.nextConversationItemOrdinal

/-- Items were added and seen, and nothing else changed. -/
structure Extends (reducer next : TraceReducer) : Prop where
  names : ∀ {itemId seen}, reducer.Names itemId seen → next.Names itemId seen
  ordinal : reducer.nextConversationItemOrdinal ≤ next.nextConversationItemOrdinal
  bounded : reducer.Bounded → next.Bounded
  frame : next = { reducer with
    conversationItems := next.conversationItems
    nextConversationItemOrdinal := next.nextConversationItemOrdinal }

theorem Extends.refl : reducer.Extends reducer := ⟨id, le_refl _, id, rfl⟩

theorem Extends.trans {last : TraceReducer} (h : reducer.Extends next) (h' : next.Extends last) :
    reducer.Extends last := by
  refine ⟨h'.names ∘ h.names, h.ordinal.trans h'.ordinal, h'.bounded ∘ h.bounded, ?_⟩
  have hlast := h'.frame
  rw [h.frame] at hlast
  exact hlast

theorem Names.lt (hbounded : reducer.Bounded) {seen : NormalizedConversationItem}
    (h : reducer.Names itemId seen) : itemId < reducer.nextConversationItemOrdinal := by
  obtain ⟨item, hitem, -⟩ := h
  exact hbounded itemId (by rw [hitem]; rfl)

/-- A new item is named by the next identity. -/
theorem createConversationItem_spec (hbounded : reducer.Bounded)
    (h : reducer.createConversationItem context normalized = (next, itemId)) :
    reducer.Extends next ∧ itemId = reducer.nextConversationItemOrdinal ∧
      next.itemMatches itemId normalized = true := by
  obtain ⟨rfl, rfl⟩ := Prod.mk.inj h
  have hlookup : ∀ itemId, (reducer.conversationItems.insert reducer.nextConversationItemOrdinal
      (context.newItem normalized)).lookup itemId = _ := fun _ => lookup_insert _ _
  refine ⟨⟨?_, Nat.le_succ _, fun _ itemId hsome => ?_, rfl⟩, rfl, ?_⟩
  · rintro itemId seen ⟨item, hitem, hsighted⟩
    have hlt := Names.lt hbounded ⟨item, hitem, hsighted⟩
    exact ⟨item, (hlookup itemId).trans ((if_neg (Nat.ne_of_lt hlt)).trans hitem), hsighted⟩
  · change ((reducer.conversationItems.insert _ _).lookup itemId).isSome at hsome
    rw [hlookup] at hsome
    split at hsome
    · rename_i heq
      exact heq ▸ Nat.lt_succ_self _
    · exact Nat.lt_succ_of_lt (hbounded itemId hsome)
  · have hnew := (hlookup reducer.nextConversationItemOrdinal).trans (if_pos rfl)
    rw [itemMatches]
    dsimp only
    rw [hnew]
    exact (Sighted.of_eq rfl rfl rfl rfl rfl).matched

/-- A sighting of an item that matches. -/
theorem updateConversationItemFromSighting_spec
    (hmatches : reducer.itemMatches itemId normalized = true)
    (h : reducer.updateConversationItemFromSighting itemId normalized producedBy = some next) :
    reducer.Extends next ∧ next.Names itemId normalized ∧
      ∀ other, other ≠ itemId →
        next.conversationItems.lookup other = reducer.conversationItems.lookup other := by
  rw [updateConversationItemFromSighting] at h
  obtain ⟨item, hitem, h⟩ := Option.bind_eq_some_iff.1 h
  obtain ⟨body, hbody, h⟩ := Option.bind_eq_some_iff.1 h
  obtain rfl := Option.some.inj h
  rw [itemMatches, hitem] at hmatches
  obtain ⟨updated, hupdated⟩ : ∃ updated : ConversationItem, updated =
      { item with body, producedBy := item.sightedProducers producedBy } := ⟨_, rfl⟩
  have hproducers : ∀ seen, Sighted { item with body } seen → Sighted updated seen := by
    intro seen hsighted
    rw [hupdated]
    exact hsighted.producedBy _
  have hseen : ∀ seen, Sighted item seen → Sighted updated seen := by
    intro seen hsighted
    refine hproducers seen ?_
    rw [ConversationItem.sightedBody] at hbody
    split at hbody
    · exact hsighted.merge ‹_› hbody
    · obtain rfl := Option.some.inj hbody
      exact hsighted
  have hnow : Sighted updated normalized := by
    refine hproducers normalized ?_
    rw [ConversationItem.sightedBody] at hbody
    split at hbody
    · exact .of_merge hmatches hbody
    · obtain rfl := Option.some.inj hbody
      exact .of_matches hmatches ‹_›
  rw [← hupdated]
  have hlookup : ∀ other, (reducer.conversationItems.insert itemId updated).lookup other = _ :=
    fun _ => lookup_insert _ _
  refine ⟨⟨?_, le_refl _, fun hbounded other hsome => ?_, rfl⟩,
    ⟨updated, (hlookup itemId).trans (if_pos rfl), hnow⟩,
    fun other hother => (hlookup other).trans (if_neg hother)⟩
  · rintro other seen ⟨found, hfound, hsighted⟩
    by_cases hother : other = itemId
    · subst hother
      rw [hitem] at hfound
      cases hfound
      exact ⟨updated, (hlookup other).trans (if_pos rfl), hseen seen hsighted⟩
    · exact ⟨found, (hlookup other).trans ((if_neg hother).trans hfound), hsighted⟩
  · change ((reducer.conversationItems.insert itemId updated).lookup other).isSome at hsome
    rw [hlookup] at hsome
    split at hsome
    · rename_i heq
      exact hbounded other (by rw [heq, hitem]; rfl)
    · exact hbounded other hsome

theorem findMatchingSnapshotItem_eq_some
    (h : reducer.findMatchingSnapshotItem snapshot usedItemIds normalized = some itemId) :
    itemId ∈ snapshot ∧ itemId ∉ usedItemIds ∧ reducer.itemMatches itemId normalized = true := by
  have hfound := List.find?_some h
  rw [Bool.and_eq_true, Bool.not_eq_true', List.contains_eq_mem, decide_eq_false_iff_not] at hfound
  exact ⟨List.mem_of_find?_eq_some h, hfound⟩

/-- What is found or created matches and is not used. -/
theorem findOrCreate_spec (hbounded : reducer.Bounded)
    (hused : ∀ used ∈ usedItemIds, used < reducer.nextConversationItemOrdinal)
    (h : reducer.findOrCreate context snapshot usedItemIds normalized = (next, itemId)) :
    reducer.Extends next ∧ next.itemMatches itemId normalized = true ∧ itemId ∉ usedItemIds := by
  rw [findOrCreate] at h
  split at h
  · rename_i found hfound
    obtain ⟨rfl, rfl⟩ := Prod.mk.inj h
    obtain ⟨-, hfresh, hmatches⟩ := findMatchingSnapshotItem_eq_some hfound
    exact ⟨.refl, hmatches, hfresh⟩
  · obtain ⟨hextends, rfl, hmatches⟩ := createConversationItem_spec hbounded h
    exact ⟨hextends, hmatches, fun hmem => Nat.lt_irrefl _ (hused _ hmem)⟩

end

/-! ## The items of a payload -/

section
variable {reducer next : TraceReducer} {context : ReconcileItems} {mode : ReconcileMode}
  {itemId : ConversationItemId} {normalized : NormalizedConversationItem} {index : Nat}
  {before snapshot itemIds result : List ConversationItemId}
  {items : List NormalizedConversationItem}

/-- The item at its position in the snapshot, if it matches, has an identity that is not used. -/
def PositionUnused (reducer : TraceReducer) (snapshot : List ConversationItemId) (index : Nat)
    (used : List ConversationItemId) (normalized : NormalizedConversationItem) : Prop :=
  ∀ previousItemId, snapshot[index]? = some previousItemId →
    reducer.itemMatches previousItemId normalized = true → previousItemId ∉ used

theorem reconcileIdentity_spec (hbounded : reducer.Bounded)
    (hused : ∀ used ∈ before ++ itemIds, used < reducer.nextConversationItemOrdinal)
    (hbefore : mode = .fullSnapshot → before = [])
    (h : reducer.reconcileIdentity context mode snapshot index itemIds normalized =
      some (next, itemId)) :
    reducer.Extends next ∧ next.itemMatches itemId normalized = true ∧
      (itemId ∉ before ++ itemIds ↔
        reducer.PositionUnused snapshot index (before ++ itemIds) normalized) := by
  have hfull (hmode : mode = .fullSnapshot) (hposition : ∀ previousItemId,
        snapshot[index]? = some previousItemId →
          reducer.itemMatches previousItemId normalized ≠ true)
      (h : reducer.findOrCreate context snapshot itemIds normalized = (next, itemId)) :
      reducer.Extends next ∧ next.itemMatches itemId normalized = true ∧
        (itemId ∉ before ++ itemIds ↔
          reducer.PositionUnused snapshot index (before ++ itemIds) normalized) := by
    rw [hbefore hmode, List.nil_append] at hused ⊢
    obtain ⟨hextends, hmatches, hfresh⟩ := findOrCreate_spec hbounded hused h
    exact ⟨hextends, hmatches, iff_of_true hfresh fun previousItemId hprevious hmatch =>
      absurd hmatch (hposition previousItemId hprevious)⟩
  rw [reconcileIdentity] at h
  cases hprevious : snapshot[index]? with
  | some previousItemId =>
    rw [hprevious] at h
    dsimp only at h
    split at h
    · rename_i hmatches
      obtain ⟨rfl, rfl⟩ := Prod.mk.inj (Option.some.inj h)
      refine ⟨.refl, hmatches, ?_⟩
      rw [PositionUnused, hprevious]
      exact ⟨fun hfresh other hother _ => Option.some.inj hother ▸ hfresh,
        fun hposition => hposition previousItemId rfl hmatches⟩
    · rename_i hdiffers
      split at h
      · refine hfull ‹_› (fun other hother => ?_) (Option.some.inj h)
        rw [hprevious] at hother
        exact Option.some.inj hother ▸ hdiffers
      · cases h
  | none =>
    rw [hprevious] at h
    dsimp only at h
    split at h
    · refine hfull ‹_› (fun other hother => ?_) (Option.some.inj h)
      rw [hprevious] at hother
      cases hother
    · obtain ⟨hextends, rfl, hmatches⟩ := createConversationItem_spec hbounded (Option.some.inj h)
      refine ⟨hextends, hmatches, iff_of_true (fun hmem => Nat.lt_irrefl _ (hused _ hmem)) ?_⟩
      intro other hother
      rw [hprevious] at hother
      cases hother

/-- An item gets an identity that names it. It is one that is used only where the item matches by
position. -/
theorem reconcileItem_spec (hbounded : reducer.Bounded)
    (hused : ∀ used ∈ before ++ itemIds, used < reducer.nextConversationItemOrdinal)
    (hbefore : mode = .fullSnapshot → before = [])
    (h : reducer.reconcileItem context mode snapshot index itemIds normalized =
      some (next, itemId)) :
    reducer.Extends next ∧ next.Names itemId normalized ∧
      (itemId ∉ before ++ itemIds ↔
        reducer.PositionUnused snapshot index (before ++ itemIds) normalized) := by
  rw [reconcileItem] at h
  split at h
  · obtain ⟨⟨chosen, chosenId⟩, hidentity, hrest⟩ := Option.bind_eq_some_iff.1 h
    obtain ⟨updated, hsighting, hresult⟩ := Option.bind_eq_some_iff.1 hrest
    obtain ⟨rfl, rfl⟩ := Prod.mk.inj (Option.some.inj hresult)
    obtain ⟨hextends, hmatches, hunused⟩ := reconcileIdentity_spec hbounded hused hbefore hidentity
    obtain ⟨hextends', hnames, -⟩ := updateConversationItemFromSighting_spec hmatches hsighting
    exact ⟨hextends.trans hextends', hnames, hunused⟩
  · cases h

/-- At each item of a payload, the item at its position is not used if it matches. -/
def PositionsUnused (context : ReconcileItems) (mode : ReconcileMode)
    (before snapshot : List ConversationItemId) :
    TraceReducer → Nat → List ConversationItemId → List NormalizedConversationItem → Prop
  | _, _, _, [] => True
  | reducer, index, itemIds, normalized :: items =>
    reducer.PositionUnused snapshot index (before ++ itemIds) normalized ∧
      ∀ next itemId,
        reducer.reconcileItem context mode snapshot index itemIds normalized =
            some (next, itemId) →
          PositionsUnused context mode before snapshot next (index + 1) (itemIds ++ [itemId]) items

theorem used_lt_concat
    (hused : ∀ used ∈ itemIds, used < reducer.nextConversationItemOrdinal)
    (hextends : reducer.Extends next) (hlt : itemId < next.nextConversationItemOrdinal) :
    ∀ used ∈ itemIds ++ [itemId], used < next.nextConversationItemOrdinal := by
  intro used hmem
  rw [List.mem_append, List.mem_singleton] at hmem
  rcases hmem with hmem | rfl
  · exact Nat.lt_of_lt_of_le (hused used hmem) hextends.ordinal
  · exact hlt

/-- **The items of a payload** are named one by one. -/
theorem reconcileConversationItems_names (hbounded : reducer.Bounded)
    (hused : ∀ used ∈ itemIds, used < reducer.nextConversationItemOrdinal)
    (h : reconcileConversationItems context mode snapshot reducer index itemIds items =
      some (next, result)) :
    reducer.Extends next ∧
      ∃ added, result = itemIds ++ added ∧ List.Forall₂ next.Names added items := by
  induction items generalizing reducer index itemIds with
  | nil =>
    obtain ⟨rfl, rfl⟩ := Prod.mk.inj (Option.some.inj h)
    exact ⟨.refl, [], (List.append_nil _).symm, .nil⟩
  | cons normalized items ih =>
    obtain ⟨⟨middle, itemId⟩, hitem, hrest⟩ := Option.bind_eq_some_iff.1 h
    have hused' : ∀ used ∈ [] ++ itemIds, used < reducer.nextConversationItemOrdinal := hused
    obtain ⟨hextends, hnames, -⟩ := reconcileItem_spec hbounded hused' (fun _ => rfl) hitem
    have hbounded' := hextends.bounded hbounded
    obtain ⟨hextends', added, rfl, hadded⟩ :=
      ih hbounded' (used_lt_concat hused hextends (hnames.lt hbounded')) hrest
    exact ⟨hextends.trans hextends', itemId :: added,
      by rw [List.append_assoc, List.singleton_append], .cons (hextends'.names hnames) hadded⟩

/-- **No identity occurs twice** exactly when none is used where it matches by position. -/
theorem reconcileConversationItems_nodup (hbounded : reducer.Bounded)
    (hused : ∀ used ∈ before ++ itemIds, used < reducer.nextConversationItemOrdinal)
    (hnodup : (before ++ itemIds).Nodup) (hbefore : mode = .fullSnapshot → before = [])
    (h : reconcileConversationItems context mode snapshot reducer index itemIds items =
      some (next, result)) :
    (before ++ result).Nodup ↔
      PositionsUnused context mode before snapshot reducer index itemIds items := by
  induction items generalizing reducer index itemIds with
  | nil =>
    obtain ⟨rfl, rfl⟩ := Prod.mk.inj (Option.some.inj h)
    exact iff_of_true hnodup trivial
  | cons normalized items ih =>
    obtain ⟨⟨middle, itemId⟩, hitem, hrest⟩ := Option.bind_eq_some_iff.1 h
    obtain ⟨hextends, hnames, hunused⟩ := reconcileItem_spec hbounded hused hbefore hitem
    have hbounded' := hextends.bounded hbounded
    have hused' : ∀ used ∈ before ++ (itemIds ++ [itemId]),
        used < middle.nextConversationItemOrdinal := by
      rw [← List.append_assoc]
      exact used_lt_concat hused hextends (hnames.lt hbounded')
    by_cases hfresh : itemId ∈ before ++ itemIds
    · -- The identity is used: it stays in the result twice.
      have hsome : ∀ used ∈ itemIds ++ [itemId], used < middle.nextConversationItemOrdinal :=
        fun used hmem => hused' used (List.mem_append_right _ hmem)
      obtain ⟨-, added, rfl, -⟩ := reconcileConversationItems_names hbounded' hsome hrest
      refine iff_of_false (fun hall => ?_) fun hall => hunused.2 hall.1 hfresh
      rw [← List.append_assoc, ← List.append_assoc] at hall
      exact List.disjoint_of_nodup_append hall.of_append_left hfresh (List.mem_singleton.2 rfl)
    · have hnodup' : (before ++ (itemIds ++ [itemId])).Nodup := by
        rw [← List.append_assoc]
        exact hnodup.append (List.nodup_singleton _)
          fun used hmem hlast => hfresh (List.mem_singleton.1 hlast ▸ hmem)
      rw [ih hbounded' hused' hnodup' hrest]
      refine ⟨fun hall => ⟨hunused.1 hfresh, fun next' itemId' hitem' => ?_⟩,
        fun hall => hall.2 middle itemId hitem⟩
      rw [hitem] at hitem'
      obtain ⟨rfl, rfl⟩ := Prod.mk.inj (Option.some.inj hitem')
      exact hall

/-- The items of a checkpoint get identities that are not used. -/
theorem reconcileDetachedConversationItems_spec {candidates : List ConversationItemId}
    (hbounded : reducer.Bounded)
    (hused : ∀ used ∈ itemIds, used < reducer.nextConversationItemOrdinal)
    (hnodup : itemIds.Nodup)
    (h : reconcileDetachedConversationItems context candidates reducer itemIds items =
      some (next, result)) :
    reducer.Extends next ∧ result.Nodup ∧
      ∀ used ∈ result, used < next.nextConversationItemOrdinal := by
  induction items generalizing reducer itemIds with
  | nil =>
    obtain ⟨rfl, rfl⟩ := Prod.mk.inj (Option.some.inj h)
    exact ⟨.refl, hnodup, hused⟩
  | cons normalized items ih =>
    rw [reconcileDetachedConversationItems] at h
    split at h
    · cases hchosen : reducer.findOrCreate context candidates itemIds normalized with
      | mk chosen itemId =>
        rw [hchosen] at h
        obtain ⟨middle, hsighting, hrest⟩ := Option.bind_eq_some_iff.1 h
        obtain ⟨hextends, hmatches, hfresh⟩ := findOrCreate_spec hbounded hused hchosen
        obtain ⟨hextends', hnames, -⟩ := updateConversationItemFromSighting_spec hmatches hsighting
        have hmiddle := hextends.trans hextends'
        have hbounded' := hmiddle.bounded hbounded
        obtain ⟨hlast, hresult⟩ := ih hbounded'
          (used_lt_concat hused hmiddle (hnames.lt hbounded'))
          (hnodup.append (List.nodup_singleton _) fun used hmem hone =>
            hfresh (List.mem_singleton.1 hone ▸ hmem)) hrest
        exact ⟨hmiddle.trans hlast, hresult⟩
    · cases h

/-- An item that matches by position keeps the identity. -/
theorem reconcileItem_of_matches {previousItemId : ConversationItemId}
    (hprevious : snapshot[index]? = some previousItemId)
    (hmatches : reducer.itemMatches previousItemId normalized = true)
    (h : reducer.reconcileItem context mode snapshot index itemIds normalized =
      some (next, itemId)) :
    itemId = previousItemId ∧ reducer.updateConversationItemFromSighting previousItemId normalized
      context.producedBy = some next := by
  rw [reconcileItem] at h
  split at h
  · obtain ⟨⟨chosen, chosenId⟩, hidentity, hrest⟩ := Option.bind_eq_some_iff.1 h
    rw [reconcileIdentity, hprevious] at hidentity
    dsimp only at hidentity
    rw [if_pos hmatches] at hidentity
    obtain ⟨rfl, rfl⟩ := Prod.mk.inj (Option.some.inj hidentity)
    obtain ⟨updated, hsighting, hresult⟩ := Option.bind_eq_some_iff.1 hrest
    obtain ⟨rfl, rfl⟩ := Prod.mk.inj (Option.some.inj hresult)
    exact ⟨rfl, hsighting⟩
  · cases h

/-- **Items that are repeated** in the order of a snapshot keep their identities. -/
theorem reconcileConversationItems_repeats {remaining : List ConversationItemId}
    {repeated rest : List NormalizedConversationItem} (hbounded : reducer.Bounded)
    (hused : ∀ used ∈ itemIds, used < reducer.nextConversationItemOrdinal)
    (hnodup : remaining.Nodup)
    (hmatches : List.Forall₂ (fun itemId normalized =>
      reducer.itemMatches itemId normalized = true) remaining repeated)
    (h : reconcileConversationItems context mode (itemIds ++ remaining) reducer itemIds.length
      itemIds (repeated ++ rest) = some (next, result)) :
    itemIds ++ remaining <+: result := by
  induction remaining generalizing reducer itemIds repeated with
  | nil =>
    obtain ⟨-, added, rfl, -⟩ := reconcileConversationItems_names hbounded hused h
    rw [List.append_nil]
    exact List.prefix_append _ _
  | cons previousItemId remaining ih =>
    cases hmatches with
    | cons hmatch hmatches =>
      rename_i normalized repeated
      obtain ⟨⟨middle, itemId⟩, hitem, hrest⟩ := Option.bind_eq_some_iff.1 h
      have hprevious : (itemIds ++ previousItemId :: remaining)[itemIds.length]? =
          some previousItemId := by simp
      obtain ⟨rfl, hsighting⟩ := reconcileItem_of_matches hprevious hmatch hitem
      obtain ⟨hextends, hnames, hother⟩ :=
        updateConversationItemFromSighting_spec hmatch hsighting
      have hbounded' := hextends.bounded hbounded
      -- The sighting changes no other item of the snapshot.
      have hmatches' : List.Forall₂ (fun itemId normalized =>
          middle.itemMatches itemId normalized = true) remaining repeated := by
        have hdistinct : ∀ other ∈ remaining, other ≠ itemId := fun other hmem heq =>
          (List.nodup_cons.1 hnodup).1 (heq ▸ hmem)
        refine ((List.forall₂_and_left _ _).2 ⟨hdistinct, hmatches⟩).imp ?_
        rintro other seen ⟨hne, hmatch⟩
        rw [itemMatches, hother other hne]
        exact hmatch
      have hsplit : itemIds ++ itemId :: remaining = itemIds ++ [itemId] ++ remaining := by simp
      have hlength : itemIds.length + 1 = (itemIds ++ [itemId]).length := by simp
      rw [hsplit]
      dsimp only at hrest
      rw [hsplit, hlength] at hrest
      exact ih hbounded' (used_lt_concat hused hextends (hnames.lt hbounded'))
        (List.nodup_cons.1 hnodup).2 hmatches' hrest

end

/-! ## The invariant -/

section
variable {reducer next : TraceReducer} {call : InferenceCall} {context : ReconcileItems}
  {request : RequestPayload} {itemIds : List ConversationItemId} {wallTimeUnixMs : Int}
  {threadId codexTurnId : List Char} {inferenceCallId : InferenceCallId}

/-- A call whose identities name the items of its input and output, and are distinct. -/
structure CallOk (reducer : TraceReducer) (call : InferenceCall) : Prop where
  input : List.Forall₂ reducer.Names call.requestItemIds call.input
  output : List.Forall₂ reducer.Names call.responseItemIds call.output
  nodup : (call.requestItemIds ++ call.responseItemIds).Nodup

/-- Distinct identities that are in use. -/
def InUse (reducer : TraceReducer) (itemIds : List ConversationItemId) : Prop :=
  itemIds.Nodup ∧ ∀ used ∈ itemIds, used < reducer.nextConversationItemOrdinal

/-- What is known of a reducer whose requests match by position what is not used. -/
structure Ok (reducer : TraceReducer) : Prop where
  bounded : reducer.Bounded
  calls : ∀ entry ∈ reducer.inferenceCalls, reducer.CallOk entry.2
  snapshots : ∀ threadId, reducer.InUse (reducer.snapshotOf threadId)
  pending : ∀ threadId itemIds,
    reducer.pendingCompactionReplacementItemIds.lookup threadId = some itemIds →
      reducer.InUse itemIds

theorem CallOk.extends (h : reducer.CallOk call) (hextends : reducer.Extends next) :
    next.CallOk call :=
  ⟨h.input.imp fun _ _ => hextends.names, h.output.imp fun _ _ => hextends.names, h.nodup⟩

/-- What is known of a call is about the items only. -/
theorem CallOk.of_items (h : reducer.CallOk call)
    (hitems : next.conversationItems = reducer.conversationItems) : next.CallOk call := by
  have hnames : ∀ itemId seen, reducer.Names itemId seen → next.Names itemId seen := by
    intro itemId seen hseen
    rw [Names, hitems]
    exact hseen
  exact ⟨h.input.imp hnames, h.output.imp hnames, h.nodup⟩

theorem InUse.extends (h : reducer.InUse itemIds) (hextends : reducer.Extends next) :
    next.InUse itemIds :=
  ⟨h.1, fun used hmem => Nat.lt_of_lt_of_le (h.2 used hmem) hextends.ordinal⟩

theorem Ok.extends (h : reducer.Ok) (hextends : reducer.Extends next) : next.Ok := by
  have hcalls : next.inferenceCalls = reducer.inferenceCalls := by rw [hextends.frame]
  have hsnapshots : ∀ threadId, next.snapshotOf threadId = reducer.snapshotOf threadId := by
    intro threadId
    rw [snapshotOf, hextends.frame]
    rfl
  have hpending : next.pendingCompactionReplacementItemIds =
      reducer.pendingCompactionReplacementItemIds := by rw [hextends.frame]
  refine ⟨hextends.bounded h.bounded, fun entry hmem => ?_, fun threadId => ?_,
    fun threadId itemIds hlookup => ?_⟩
  · rw [hcalls] at hmem
    exact (h.calls entry hmem).extends hextends
  · rw [hsnapshots]
    exact (h.snapshots threadId).extends hextends
  · rw [hpending] at hlookup
    exact (h.pending threadId itemIds hlookup).extends hextends

theorem Ok.baseline (h : reducer.Ok) (threadId : List Char) :
    reducer.InUse (reducer.baseline threadId) := by
  rw [TraceReducer.baseline]
  split
  · exact h.pending threadId _ ‹_›
  · exact h.snapshots threadId

theorem Ok.snapshot (h : reducer.Ok) (hids : reducer.InUse itemIds) (threadId : List Char) :
    ({ reducer with threadConversationSnapshots :=
        reducer.threadConversationSnapshots.insert threadId itemIds } : TraceReducer).Ok := by
  refine ⟨h.bounded, fun entry hmem => (h.calls entry hmem).of_items rfl, fun other => ?_,
    h.pending⟩
  change InUse _
    (((reducer.threadConversationSnapshots.insert threadId itemIds).lookup other).getD [])
  rw [lookup_insert]
  split
  · exact hids
  · exact h.snapshots other

/-- A replacement is compared with once. -/
theorem Ok.installed (h : reducer.Ok) (threadId : List Char) :
    ({ reducer with pendingCompactionReplacementItemIds :=
        reducer.pendingCompactionReplacementItemIds.erase threadId } : TraceReducer).Ok := by
  refine ⟨h.bounded, fun entry hmem => (h.calls entry hmem).of_items rfl, h.snapshots,
    fun other itemIds hlookup => ?_⟩
  change (reducer.pendingCompactionReplacementItemIds.erase threadId).lookup other = _ at hlookup
  rw [lookup_erase] at hlookup
  split at hlookup
  · cases hlookup
  · exact h.pending other itemIds hlookup

/-- A replacement that is installed. -/
theorem Ok.checkpoint (h : reducer.Ok) (hids : reducer.InUse itemIds) (threadId : List Char)
    (compactions : Keyed (List Char) Compaction) :
    ({ reducer with
      pendingCompactionReplacementItemIds :=
        reducer.pendingCompactionReplacementItemIds.insert threadId itemIds
      compactions } : TraceReducer).Ok := by
  refine ⟨h.bounded, fun entry hmem => (h.calls entry hmem).of_items rfl, h.snapshots,
    fun other otherIds hlookup => ?_⟩
  change (reducer.pendingCompactionReplacementItemIds.insert threadId itemIds).lookup other = _
    at hlookup
  rw [lookup_insert] at hlookup
  split at hlookup
  · exact Option.some.inj hlookup ▸ hids
  · exact h.pending other otherIds hlookup

/-- The conversation of a thread is not looked at. -/
theorem appendThreadConversationItems_eq_some
    (h : reducer.appendThreadConversationItems threadId itemIds = some next) :
    ∃ threads, next = { reducer with threads } := by
  obtain ⟨conversation, -, h⟩ := Option.bind_eq_some_iff.1 h
  exact ⟨_, (Option.some.inj h).symm⟩

theorem Ok.threads (h : reducer.Ok) (threads : Keyed (List Char) (List ConversationItemId)) :
    ({ reducer with threads } : TraceReducer).Ok :=
  ⟨h.bounded, fun entry hmem => (h.calls entry hmem).of_items rfl, h.snapshots, h.pending⟩

theorem mem_insertCall {entry : InferenceCallId × InferenceCall}
    {calls : List (InferenceCallId × InferenceCall)}
    (h : entry ∈ insertCall inferenceCallId call calls) :
    entry = (inferenceCallId, call) ∨ entry ∈ calls := by
  induction calls with
  | nil => exact Or.inl (List.mem_singleton.1 h)
  | cons head calls ih =>
    rw [insertCall] at h
    split at h
    · exact List.mem_cons.1 h
    · split at h
      · rcases List.mem_cons.1 h with rfl | h
        · exact Or.inl rfl
        · exact Or.inr (List.mem_cons_of_mem _ h)
      · rcases List.mem_cons.1 h with rfl | h
        · exact Or.inr List.mem_cons_self
        · exact (ih h).imp_right (List.mem_cons_of_mem _)

theorem Ok.insertCall (h : reducer.Ok) (hcall : reducer.CallOk call) :
    ({ reducer with
      inferenceCalls := insertCall inferenceCallId call reducer.inferenceCalls } :
        TraceReducer).Ok := by
  refine ⟨h.bounded, fun entry hmem => ?_, h.snapshots, h.pending⟩
  rcases mem_insertCall hmem with rfl | hmem
  · exact hcall.of_items rfl
  · exact (h.calls entry hmem).of_items rfl

/-! ## Steps -/

/-- The condition on an event. A request finds no identity that it has used, in the part of its
input that was rebuilt or before in its payload, where an item matches by position. -/
def UnusedPositions (reducer : TraceReducer) (event : Int × TraceEvent) : Prop :=
  match event.2 with
  | .inferenceStarted _ threadId codexTurnId request =>
    let context : ReconcileItems :=
      { threadId, codexTurnId, wallTimeUnixMs := event.1, producedBy := [] }
    match request.previousResponseId with
    | some responseId => ∀ previous, reducer.previousCall threadId responseId = some previous →
      PositionsUnused context .appendOnly (previous.requestItemIds ++ previous.responseItemIds)
        (reducer.snapshotOf threadId) reducer
        (previous.requestItemIds ++ previous.responseItemIds).length [] request.input
    | none => PositionsUnused context .fullSnapshot [] (reducer.baseline threadId) reducer 0 []
      request.input
  | _ => True

theorem previousCall_eq_some {responseId : List Char} {previous : InferenceCall}
    (h : reducer.previousCall threadId responseId = some previous) :
    ∃ entry ∈ reducer.inferenceCalls, entry.2 = previous := by
  obtain ⟨entry, hfound, rfl⟩ := Option.map_eq_some_iff.1 h
  exact ⟨entry, List.mem_of_find?_eq_some hfound, rfl⟩

theorem forall₂_lt {seen : List NormalizedConversationItem} (hbounded : reducer.Bounded)
    (h : List.Forall₂ reducer.Names itemIds seen) :
    ∀ used ∈ itemIds, used < reducer.nextConversationItemOrdinal := by
  induction h with
  | nil => exact fun used hmem => by cases hmem
  | cons hnames _ ih =>
    intro used hmem
    rcases List.mem_cons.1 hmem with rfl | hmem
    · exact hnames.lt hbounded
    · exact ih used hmem

/-- A request of distinct identities that name the items of its input. -/
theorem Ok.reduceInferenceRequest (h : reducer.Ok) {input : List NormalizedConversationItem}
    (hunused : reducer.UnusedPositions (wallTimeUnixMs,
      .inferenceStarted inferenceCallId threadId codexTurnId request))
    (hrequest : reducer.reduceInferenceRequest
      { threadId, codexTurnId, wallTimeUnixMs, producedBy := [] } request =
        some (next, itemIds, input)) :
    next.Ok ∧ next.inferenceCalls = reducer.inferenceCalls ∧
      List.Forall₂ next.Names itemIds input ∧ itemIds.Nodup := by
  rw [TraceReducer.reduceInferenceRequest] at hrequest
  rw [UnusedPositions] at hunused
  dsimp only at hunused
  cases hprevious : request.previousResponseId with
  | some responseId =>
    rw [hprevious] at hrequest hunused
    obtain ⟨previous, hcall, hrest⟩ := Option.bind_eq_some_iff.1 hrequest
    obtain ⟨⟨middle, delta⟩, hdelta, hrest⟩ := Option.bind_eq_some_iff.1 hrest
    obtain ⟨appended, happended, hresult⟩ := Option.bind_eq_some_iff.1 hrest
    obtain ⟨rfl, hpair⟩ := Prod.mk.inj (Option.some.inj hresult)
    obtain ⟨rfl, rfl⟩ := Prod.mk.inj hpair
    obtain ⟨threads, rfl⟩ := appendThreadConversationItems_eq_some happended
    obtain ⟨entry, hmem, rfl⟩ := previousCall_eq_some hcall
    have hentry := h.calls entry hmem
    have hrebuilt : List.Forall₂ reducer.Names
        (entry.2.requestItemIds ++ entry.2.responseItemIds) (entry.2.input ++ entry.2.output) :=
      List.rel_append hentry.input hentry.output
    obtain ⟨hextends, added, hadded, hnames⟩ := reconcileConversationItems_names h.bounded
      (fun used hused => by cases hused) hdelta
    rw [List.nil_append] at hadded
    subst hadded
    have hnodup : (entry.2.requestItemIds ++ entry.2.responseItemIds ++ delta).Nodup := by
      refine (reconcileConversationItems_nodup h.bounded ?_ ?_ (fun hmode => by cases hmode)
        hdelta).2 (hunused _ hcall)
      · rw [List.append_nil]
        exact forall₂_lt h.bounded hrebuilt
      · rw [List.append_nil]
        exact hentry.nodup
    have hall : List.Forall₂ middle.Names
        (entry.2.requestItemIds ++ entry.2.responseItemIds ++ delta)
        (entry.2.input ++ entry.2.output ++ request.input) :=
      List.rel_append (hrebuilt.imp fun _ _ => hextends.names) hnames
    have hmiddle := h.extends hextends
    exact ⟨(hmiddle.threads threads).snapshot ⟨hnodup, forall₂_lt hmiddle.bounded hall⟩ threadId,
      by rw [hextends.frame], hall, hnodup⟩
  | none =>
    rw [hprevious] at hrequest hunused
    obtain ⟨⟨middle, ids⟩, hids, hrest⟩ := Option.bind_eq_some_iff.1 hrequest
    obtain ⟨appended, happended, hresult⟩ := Option.bind_eq_some_iff.1 hrest
    obtain ⟨rfl, hpair⟩ := Prod.mk.inj (Option.some.inj hresult)
    obtain ⟨rfl, rfl⟩ := Prod.mk.inj hpair
    obtain ⟨threads, rfl⟩ := appendThreadConversationItems_eq_some happended
    obtain ⟨hextends, added, hadded, hnames⟩ := reconcileConversationItems_names h.bounded
      (fun used hused => by cases hused) hids
    rw [List.nil_append] at hadded
    subst hadded
    have hnodup : ids.Nodup := (reconcileConversationItems_nodup h.bounded
      (fun used hused => by cases hused) List.nodup_nil (fun _ => rfl) hids).2 hunused
    have hmiddle := h.extends hextends
    exact ⟨((hmiddle.threads threads).snapshot
        ⟨hnodup, forall₂_lt hmiddle.bounded hnames⟩ threadId).installed threadId,
      by rw [hextends.frame], hnames, hnodup⟩

theorem Ok.startInferenceCall (h : reducer.Ok)
    (hunused : reducer.UnusedPositions (wallTimeUnixMs,
      .inferenceStarted inferenceCallId threadId codexTurnId request))
    (hstart : reducer.startInferenceCall wallTimeUnixMs inferenceCallId threadId codexTurnId
      request = some next) : next.Ok := by
  rw [TraceReducer.startInferenceCall] at hstart
  split at hstart
  · cases hstart
  · split at hstart
    · cases hstart
    · obtain ⟨⟨middle, ids, input⟩, hrequest, hresult⟩ := Option.bind_eq_some_iff.1 hstart
      obtain rfl := Option.some.inj hresult
      obtain ⟨hmiddle, -, hnames, hnodup⟩ := h.reduceInferenceRequest hunused hrequest
      refine hmiddle.insertCall ⟨hnames, .nil, ?_⟩
      rw [List.append_nil]
      exact hnodup

/-- Behind a snapshot nothing matches by position. -/
theorem positionsUnused_of_length_le {mode : ReconcileMode} {index : Nat}
    {before snapshot : List ConversationItemId} {items : List NormalizedConversationItem}
    (hindex : snapshot.length ≤ index) :
    PositionsUnused context mode before snapshot reducer index itemIds items := by
  induction items generalizing reducer index itemIds with
  | nil => trivial
  | cons normalized items ih =>
    refine ⟨fun previousItemId hprevious _ => ?_, fun next itemId _ =>
      ih (Nat.le_succ_of_le hindex)⟩
    rw [List.getElem?_eq_none hindex] at hprevious
    cases hprevious

/-- The items of a response are new ones. -/
theorem Ok.reduceInferenceResponse (h : reducer.Ok) {outputItems : List NormalizedConversationItem}
    (hcall : reducer.CallOk call)
    (hresponse : reducer.reduceInferenceResponse wallTimeUnixMs inferenceCallId call outputItems =
      some (next, itemIds)) :
    next.Ok ∧ List.Forall₂ next.Names call.requestItemIds call.input ∧
      List.Forall₂ next.Names itemIds outputItems ∧ (call.requestItemIds ++ itemIds).Nodup := by
  obtain ⟨⟨middle, ids⟩, hids, hrest⟩ := Option.bind_eq_some_iff.1 hresponse
  obtain ⟨appended, happended, hresult⟩ := Option.bind_eq_some_iff.1 hrest
  obtain ⟨rfl, rfl⟩ := Prod.mk.inj (Option.some.inj hresult)
  obtain ⟨threads, rfl⟩ := appendThreadConversationItems_eq_some happended
  obtain ⟨hextends, added, hadded, hnames⟩ := reconcileConversationItems_names h.bounded
    (fun used hused => by cases hused) hids
  rw [List.nil_append] at hadded
  subst hadded
  have hnodup (before : List ConversationItemId) (hbefore : reducer.InUse before) :
      (before ++ ids).Nodup := by
    rw [← List.append_nil before] at hbefore
    exact (reconcileConversationItems_nodup h.bounded hbefore.2 hbefore.1
      (fun hmode => by cases hmode) hids).2 (positionsUnused_of_length_le (le_refl _))
  have hmiddle := h.extends hextends
  have hsnapshot : middle.InUse (middle.snapshotOf call.threadId ++ ids) := by
    have hsame : middle.snapshotOf call.threadId = reducer.snapshotOf call.threadId := by
      rw [snapshotOf, hextends.frame]
      rfl
    refine ⟨hsame ▸ hnodup _ (h.snapshots call.threadId), fun used hused => ?_⟩
    rcases List.mem_append.1 hused with hused | hused
    · exact (hmiddle.snapshots call.threadId).2 used hused
    · exact forall₂_lt hmiddle.bounded hnames used hused
  exact ⟨(hmiddle.threads threads).snapshot hsnapshot call.threadId,
    (hcall.extends hextends).input, hnames,
    hnodup _ ⟨hcall.nodup.of_append_left, forall₂_lt h.bounded hcall.input⟩⟩

theorem Ok.completeInferenceCall (h : reducer.Ok) {responseId : Option (List Char)}
    {response : Option (List NormalizedConversationItem)}
    (hcomplete : reducer.completeInferenceCall wallTimeUnixMs inferenceCallId responseId response =
      some next) : next.Ok := by
  obtain ⟨entry, hfound, hrest⟩ := Option.bind_eq_some_iff.1 hcomplete
  have hentry := h.calls entry (List.mem_of_find?_eq_some hfound)
  cases response with
  | none =>
    obtain rfl := Option.some.inj hrest
    exact h.insertCall ⟨hentry.input, hentry.output, hentry.nodup⟩
  | some outputItems =>
    obtain ⟨⟨middle, ids⟩, hresponse, hresult⟩ := Option.bind_eq_some_iff.1 hrest
    obtain rfl := Option.some.inj hresult
    obtain ⟨hmiddle, hinput, houtput, hnodup⟩ := h.reduceInferenceResponse hentry hresponse
    exact hmiddle.insertCall ⟨hinput, houtput, hnodup⟩

/-- The items of a checkpoint are compared with next. -/
theorem Ok.reduceCompactionInstalledEvent (h : reducer.Ok) {compactionId : List Char}
    {inputHistory replacementHistory : List NormalizedConversationItem}
    (hinstalled : reducer.reduceCompactionInstalledEvent wallTimeUnixMs threadId codexTurnId
      compactionId inputHistory replacementHistory = some next) : next.Ok := by
  rw [TraceReducer.reduceCompactionInstalledEvent] at hinstalled
  iterate 3
    split at hinstalled
    · cases hinstalled
  obtain ⟨⟨middle, inputItemIds⟩, hinput, hrest⟩ := Option.bind_eq_some_iff.1 hinstalled
  obtain ⟨hextends, -⟩ := reconcileDetachedConversationItems_spec h.bounded
    (fun used hused => by cases hused) List.nodup_nil hinput
  have hmiddle := h.extends hextends
  dsimp only at hrest
  cases hcreated : middle.createConversationItem
      { threadId, codexTurnId, wallTimeUnixMs, producedBy := [.compaction compactionId] }
      compactionMarker with
  | mk marked markerItemId =>
    rw [hcreated] at hrest
    have hmarked := hmiddle.extends (createConversationItem_spec hmiddle.bounded hcreated).1
    obtain ⟨⟨last, replacementItemIds⟩, hreplacement, hrest⟩ := Option.bind_eq_some_iff.1 hrest
    obtain ⟨hextends', hinUse⟩ := reconcileDetachedConversationItems_spec hmarked.bounded
      (fun used hused => by cases hused) List.nodup_nil hreplacement
    have hlast := hmarked.extends hextends'
    obtain ⟨appended, happended, hrest⟩ := Option.bind_eq_some_iff.1 hrest
    obtain ⟨threads, rfl⟩ := appendThreadConversationItems_eq_some happended
    obtain ⟨appended', happended', hrest⟩ := Option.bind_eq_some_iff.1 hrest
    obtain ⟨threads', rfl⟩ := appendThreadConversationItems_eq_some happended'
    obtain ⟨appended'', happended'', hresult⟩ := Option.bind_eq_some_iff.1 hrest
    obtain ⟨threads'', rfl⟩ := appendThreadConversationItems_eq_some happended''
    obtain rfl := Option.some.inj hresult
    exact (hlast.threads threads'').checkpoint hinUse threadId _

theorem Ok.step {event : Int × TraceEvent} (h : reducer.Ok)
    (hunused : reducer.UnusedPositions event)
    (hstep : reducer.applyEvent event.1 event.2 = some next) : next.Ok := by
  obtain ⟨wallTimeUnixMs, event⟩ := event
  cases event with
  | threadStarted threadId =>
    dsimp only [applyEvent] at hstep
    split at hstep
    · cases hstep
    · obtain rfl := Option.some.inj hstep
      exact h.threads _
  | codexTurnStarted codexTurnId threadId =>
    dsimp only [applyEvent] at hstep
    split at hstep
    · cases hstep
    · split at hstep
      · cases hstep
      · obtain rfl := Option.some.inj hstep
        exact ⟨h.bounded, fun entry hmem => (h.calls entry hmem).of_items rfl, h.snapshots,
          h.pending⟩
  | inferenceStarted inferenceCallId threadId codexTurnId request =>
    exact h.startInferenceCall hunused hstep
  | inferenceEnded inferenceCallId responseId response => exact h.completeInferenceCall hstep
  | compactionInstalled threadId codexTurnId compactionId inputHistory replacementHistory =>
    exact h.reduceCompactionInstalledEvent hstep

theorem Ok.new : TraceReducer.new.Ok := by
  refine ⟨fun itemId hsome => ?_, fun entry hmem => ?_, fun threadId => ?_,
    fun threadId itemIds hlookup => ?_⟩
  · cases hsome
  · cases hmem
  · exact ⟨List.nodup_nil, fun used hused => by cases hused⟩
  · cases hlookup

theorem Ok.of_reach (h : (replay.restrict UnusedPositions).Reach reducer) : reducer.Ok := by
  refine h.invariant ?_ ?_
  · rintro reducer rfl
    exact Ok.new
  · rintro reducer event next hok ⟨hunused, hstep⟩
    exact hok.step hunused hstep

/-! ## Faithful snapshots -/

/-- Identities that name items that match, one each and in order. -/
def Matches (reducer : TraceReducer) (itemIds : List ConversationItemId)
    (items : List NormalizedConversationItem) : Prop :=
  List.Forall₂ (fun itemId normalized => reducer.itemMatches itemId normalized = true) itemIds items

/-- A full request whose input begins with the items that it is compared with, in their order, gets
their identities. -/
def Repeats (reducer : TraceReducer) : Prop :=
  ∀ (wallTimeUnixMs : Int) (inferenceCallId : InferenceCallId) (threadId codexTurnId : List Char)
    (repeated rest : List NormalizedConversationItem) (next : TraceReducer),
    reducer.Matches (reducer.baseline threadId) repeated →
      reducer.startInferenceCall wallTimeUnixMs inferenceCallId threadId codexTurnId
          { previousResponseId := none, input := repeated ++ rest } = some next →
        ∃ call, next.inferenceCalls = insertCall inferenceCallId call reducer.inferenceCalls ∧
          reducer.baseline threadId <+: call.requestItemIds

/-- The identities of each request name the items of its input and are distinct, and requests that
repeat a snapshot reuse it. -/
structure SnapshotsFaithful (reducer : TraceReducer) : Prop where
  named : ∀ entry ∈ reducer.inferenceCalls, reducer.Matches entry.2.requestItemIds entry.2.input
  once : ∀ entry ∈ reducer.inferenceCalls, entry.2.requestItemIds.Nodup
  repeats : reducer.Repeats

theorem Names.itemMatches {itemId : ConversationItemId} {seen : NormalizedConversationItem}
    (h : reducer.Names itemId seen) : reducer.itemMatches itemId seen = true := by
  obtain ⟨item, hitem, hsighted⟩ := h
  rw [TraceReducer.itemMatches, hitem]
  exact hsighted.matched

theorem Ok.repeats (h : reducer.Ok) : reducer.Repeats := by
  intro wallTimeUnixMs inferenceCallId threadId codexTurnId repeated rest next hmatches hstart
  rw [TraceReducer.startInferenceCall] at hstart
  split at hstart
  · cases hstart
  · split at hstart
    · cases hstart
    · obtain ⟨⟨middle, ids, input⟩, hrequest, hresult⟩ := Option.bind_eq_some_iff.1 hstart
      obtain rfl := Option.some.inj hresult
      obtain ⟨⟨reconciled, ids⟩, hids, hrest⟩ := Option.bind_eq_some_iff.1 hrequest
      obtain ⟨appended, happended, hresult⟩ := Option.bind_eq_some_iff.1 hrest
      obtain ⟨rfl, hpair⟩ := Prod.mk.inj (Option.some.inj hresult)
      obtain ⟨rfl, rfl⟩ := Prod.mk.inj hpair
      obtain ⟨threads, rfl⟩ := appendThreadConversationItems_eq_some happended
      have hextends := (reconcileConversationItems_names h.bounded
        (fun used hused => by cases hused) hids).1
      refine ⟨_, by rw [hextends.frame], ?_⟩
      have hprefix : [] ++ reducer.baseline threadId <+: ids :=
        reconcileConversationItems_repeats h.bounded (fun used hused => by cases hused)
          (h.baseline threadId).1 hmatches hids
      exact hprefix

end

/-- **Snapshots are faithful** in every replay whose requests match no item by position with an
identity that they have used. -/
theorem snapshots_faithful {reducer : TraceReducer}
    (h : (replay.restrict UnusedPositions).Reach reducer) : reducer.SnapshotsFaithful where
  named entry hmem := ((Ok.of_reach h).calls entry hmem).input.imp fun _ _ => Names.itemMatches
  once entry hmem := ((Ok.of_reach h).calls entry hmem).nodup.of_append_left
  repeats := (Ok.of_reach h).repeats

/-! Requests of a thread, on messages of one letter. -/

def letterMessage (letter : Char) : NormalizedConversationItem where
  role := .user
  channel := none
  kind := .message
  body := [.text [letter]]
  callId := none

/-- Events that are applied one by one. -/
def applyEvents : TraceReducer → List (Int × TraceEvent) → Option TraceReducer
  | reducer, [] => some reducer
  | reducer, event :: events => do
    let reducer ← reducer.applyEvent event.1 event.2
    reducer.applyEvents events

theorem reach_applyEvents {reducer next : TraceReducer} {events : List (Int × TraceEvent)}
    (h : replay.Reach reducer) (hrun : reducer.applyEvents events = some next) :
    replay.Reach next := by
  induction events generalizing reducer with
  | nil =>
    obtain rfl := Option.some.inj hrun
    exact h
  | cons event events ih =>
    obtain ⟨middle, hstep, hrest⟩ := Option.bind_eq_some_iff.1 hrun
    exact ih (.step h hstep) hrest

/-- A thread with a turn. -/
def turnStarted : TraceReducer :=
  { TraceReducer.new with
    threads := TraceReducer.new.threads.insert ['t'] []
    codexTurns := TraceReducer.new.codexTurns.insert ['u'] ['t'] }

/-- A full request of the turn. -/
def fullRequest (inferenceCallId : InferenceCallId) (letters : List Char) : Int × TraceEvent :=
  (0, .inferenceStarted inferenceCallId ['t'] ['u']
    { previousResponseId := none, input := letters.map letterMessage })

theorem turnStarted_reach : (replay.restrict UnusedPositions).Reach turnStarted := by
  have hthread : (replay.restrict UnusedPositions).step TraceReducer.new
      (0, .threadStarted ['t'])
      { TraceReducer.new with threads := TraceReducer.new.threads.insert ['t'] [] } :=
    ⟨trivial, rfl⟩
  have hturn : (replay.restrict UnusedPositions).step
      { TraceReducer.new with threads := TraceReducer.new.threads.insert ['t'] [] }
      (0, .codexTurnStarted ['u'] ['t']) turnStarted := ⟨trivial, rfl⟩
  exact .step (.step (.init rfl) hthread) hturn

/-- The first request of a thread has nothing to match. -/
theorem snapshots_faithful_request : ∃ reducer : TraceReducer, reducer.SnapshotsFaithful ∧
    reducer.inferenceCalls.map (fun entry => entry.2.requestItemIds) = [[1, 2]] := by
  have hids : (turnStarted.applyEvent 0 (fullRequest ['a'] ['a', 'b']).2).map
      (fun reducer => reducer.inferenceCalls.map fun entry => entry.2.requestItemIds) =
        some [[1, 2]] := by decide +kernel
  obtain ⟨reducer, hstep, hcalls⟩ := Option.map_eq_some_iff.1 hids
  refine ⟨reducer, snapshots_faithful (.step (a := fullRequest ['a'] ['a', 'b']) turnStarted_reach
    ⟨?_, hstep⟩), hcalls⟩
  exact positionsUnused_of_length_le (Nat.le_refl 0)

/-- The second of two messages that are equal now finds what the first was found to be. -/
theorem fullRequest_repeats_identity : ∃ reducer : TraceReducer, replay.Reach reducer ∧
    ∃ entry ∈ reducer.inferenceCalls, ¬ entry.2.requestItemIds.Nodup := by
  have hids : (turnStarted.applyEvents
      [fullRequest ['a'] ['a', 'b'], fullRequest ['b'] ['b', 'b']]).map
        (fun reducer => reducer.inferenceCalls.map fun entry => entry.2.requestItemIds) =
          some [[1, 2], [2, 2]] := by decide +kernel
  obtain ⟨reducer, hrun, hcalls⟩ := Option.map_eq_some_iff.1 hids
  refine ⟨reducer, reach_applyEvents (.of_restrict turnStarted_reach) hrun, ?_⟩
  have hmem : [2, 2] ∈ reducer.inferenceCalls.map fun entry => entry.2.requestItemIds := by
    rw [hcalls]
    decide
  obtain ⟨entry, hentry, htwice⟩ := List.mem_map.1 hmem
  refine ⟨entry, hentry, ?_⟩
  rw [htwice]
  decide

end TraceReducer

end Mcodex.Trace
