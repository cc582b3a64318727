import Mathlib.Data.List.Forall2
import Mcodex.Rollout.Turns

/-!
# The ids of turns and items

Made up items are numbered upwards from turn to turn, and the number of an item is at most the count
of the items up to the end of its turn (`Numbered`). So the numbering after a rollback, which goes on
from the count of what is left, gives no number twice. Implicit turns are named after their place in
the rollout, and an event for a turn that is no longer open leaves the open one alone.
-/

namespace Mcodex.Rollout

open ThreadHistoryBuilder

/-! ## Items -/

def ThreadItem.index : ThreadItem → Option Nat
  | .numbered index _ => some index
  | _ => none

def ThreadItem.eventId : ThreadItem → Option String
  | .ofEvent itemId _ => some itemId
  | _ => none

theorem append_toString_inj {text : String} {i j : Nat}
    (h : text ++ toString i = text ++ toString j) : i = j := by
  have hdigits : (toString i).toList = (toString j).toList := by
    simpa using congrArg String.toList h
  rw [Nat.toString_eq_ofList_toDigits, Nat.toString_eq_ofList_toDigits, String.toList_ofList,
    String.toList_ofList] at hdigits
  have hvalue := congrArg (fun digits => Nat.ofDigitChars 10 digits 0) hdigits
  simpa [Nat.ofDigitChars_toDigits] using hvalue

theorem numberedItemId_inj {i j : Nat} (h : numberedItemId i = numberedItemId j) : i = j :=
  append_toString_inj h

theorem rolloutTurnId_inj {i j : Nat} (h : rolloutTurnId i = rolloutTurnId j) : i = j :=
  append_toString_inj h

/-- The item of an event stands after no item with its id. -/
def EventItemsOnce (items : List ThreadItem) : Prop :=
  items.Pairwise fun earlier item => item.eventId ≠ some earlier.id

theorem EventItemsOnce.push {items : List ThreadItem} {item : ThreadItem} (h : EventItemsOnce items)
    (hitem : item.eventId = none) : EventItemsOnce (items ++ [item]) := by
  refine List.pairwise_append.2 ⟨h, List.pairwise_singleton _ _, fun earlier _ last hlast => ?_⟩
  obtain rfl := List.mem_singleton.1 hlast
  simp [hitem]

/-- The ids of event items are distinct. -/
theorem EventItemsOnce.nodup {items : List ThreadItem} (h : EventItemsOnce items) :
    (items.filterMap ThreadItem.eventId).Nodup := by
  refine List.Pairwise.filterMap _ (fun earlier item hne id hid id' hid' => ?_) h
  have hearlier : earlier.id = id := by
    cases earlier <;> first | cases hid; rfl | cases hid
  rintro rfl
  exact hne (by rw [hearlier]; exact hid')

section
variable {itemId : String} {payload : List Char} {items : List ThreadItem}

theorem upsertTurnItem_cases (item : ThreadItem) (items : List ThreadItem) :
    ((∀ existing ∈ items, existing.id ≠ item.id) ∧ upsertTurnItem item items = items ++ [item]) ∨
    ∃ before existing after, items = before ++ existing :: after ∧ existing.id = item.id ∧
      (∀ earlier ∈ before, earlier.id ≠ item.id) ∧
      upsertTurnItem item items = before ++ item :: after := by
  induction items with
  | nil => exact .inl ⟨nofun, rfl⟩
  | cons existing items ih =>
    rw [upsertTurnItem]
    by_cases hid : existing.id = item.id
    · exact .inr ⟨[], existing, items, rfl, hid, nofun, if_pos hid⟩
    · rw [if_neg hid]
      rcases ih with ⟨hnone, heq⟩ | ⟨before, found, after, rfl, hfound, hbefore, heq⟩
      · exact .inl ⟨List.forall_mem_cons.2 ⟨hid, hnone⟩, by rw [heq]; rfl⟩
      · exact .inr ⟨existing :: before, found, after, rfl, hfound,
          List.forall_mem_cons.2 ⟨hid, hbefore⟩, by rw [heq]; rfl⟩

theorem EventItemsOnce.upsert (h : EventItemsOnce items) :
    EventItemsOnce (upsertTurnItem (.ofEvent itemId payload) items) := by
  rcases upsertTurnItem_cases (.ofEvent itemId payload) items with
    ⟨hnone, heq⟩ | ⟨before, existing, after, rfl, hid, hbefore, heq⟩
  · rw [heq]
    refine List.pairwise_append.2 ⟨h, List.pairwise_singleton _ _, fun earlier hmem last hlast => ?_⟩
    obtain rfl := List.mem_singleton.1 hlast
    exact fun heqId => hnone earlier hmem (Option.some.inj heqId).symm
  · obtain ⟨hpre, htail, hcross⟩ := List.pairwise_append.1 h
    obtain ⟨hexisting, hafter⟩ := List.pairwise_cons.1 htail
    rw [heq]
    refine List.pairwise_append.2 ⟨hpre, List.pairwise_cons.2 ⟨fun item hmem => ?_, hafter⟩, ?_⟩
    · rw [← hid]
      exact hexisting item hmem
    · intro earlier hearlier item hitem
      rcases List.mem_cons.1 hitem with rfl | hitem
      · exact fun heqId => hbefore earlier hearlier (Option.some.inj heqId).symm
      · exact hcross earlier hearlier item (.tail _ hitem)

theorem length_le_upsertTurnItem (item : ThreadItem) :
    items.length ≤ (upsertTurnItem item items).length := by
  rcases upsertTurnItem_cases item items with ⟨-, heq⟩ | ⟨before, existing, after, rfl, -, -, heq⟩
  · simp [heq]
  · simp [heq]

/-- The item of an event takes no number away. -/
theorem filterMap_index_upsertTurnItem (hid : ∀ i, itemId ≠ numberedItemId i) :
    (upsertTurnItem (.ofEvent itemId payload) items).filterMap ThreadItem.index =
      items.filterMap ThreadItem.index := by
  rcases upsertTurnItem_cases (.ofEvent itemId payload) items with
    ⟨-, heq⟩ | ⟨before, existing, after, rfl, hexisting, -, heq⟩
  · rw [heq, List.filterMap_append]
    simp [ThreadItem.index]
  · have hindex : existing.index = none := by
      cases existing with
      | numbered i _ => exact absurd hexisting.symm (hid i)
      | _ => rfl
    rw [heq, List.filterMap_append, List.filterMap_append, List.filterMap_cons,
      List.filterMap_cons, hindex]
    rfl

end

/-! ## Turns -/

/-- A change of a turn that takes no item away and adds no number. -/
structure Turn.Extends (turn turn' : Turn) : Prop where
  id : turn'.id = turn.id
  indices : turn'.items.filterMap ThreadItem.index = turn.items.filterMap ThreadItem.index
  length : turn.items.length ≤ turn'.items.length
  once : EventItemsOnce turn.items → EventItemsOnce turn'.items

theorem Turn.Extends.of_items {turn turn' : Turn} (hid : turn'.id = turn.id)
    (hitems : turn'.items = turn.items) : turn.Extends turn' :=
  ⟨hid, by rw [hitems], by rw [hitems], fun h => by rw [hitems]; exact h⟩

theorem Turn.Extends.refl (turn : Turn) : turn.Extends turn := .of_items rfl rfl

theorem Turn.extends_upsert {itemId : String} (payload : List Char)
    (hid : ∀ i, itemId ≠ numberedItemId i) (turn : Turn) :
    turn.Extends (turn.upsert (.ofEvent itemId payload)) :=
  ⟨rfl, filterMap_index_upsertTurnItem hid, length_le_upsertTurnItem _, fun h => h.upsert⟩

theorem Turn.extends_push {item : ThreadItem} (hindex : item.index = none)
    (hevent : item.eventId = none) (turn : Turn) : turn.Extends (turn.push item) := by
  refine ⟨rfl, ?_, ?_, fun h => h.push hevent⟩
  · rw [push, List.filterMap_append, List.filterMap_cons, hindex]
    simp
  · rw [push, List.length_append]
    omega

/-- The numbers of the items, in the order of the turns. -/
def indices (turns : List Turn) : List Nat :=
  turns.flatMap fun turn => turn.items.filterMap ThreadItem.index

/-- The numbers go up, and that of an item is at most the count of the items up to the end of its
turn; the next number is above all of them and at most one above the count. -/
structure Numbered (turns : List Turn) (next : Nat) : Prop where
  increasing : (indices turns).Pairwise (· < ·)
  below : ∀ i ∈ indices turns, i < next
  counted : ∀ k, ∀ i ∈ indices (turns.take k), i ≤ itemCount (turns.take k)
  next_le : next ≤ itemCount turns + 1
  once : ∀ turn ∈ turns, EventItemsOnce turn.items

variable {turns turns' : List Turn} {next : Nat}

theorem indices_append : indices (turns ++ turns') = indices turns ++ indices turns' :=
  List.flatMap_append

theorem indices_of_extends (h : turns.Forall₂ Turn.Extends turns') :
    indices turns' = indices turns := by
  induction h with
  | nil => rfl
  | cons hturn _ ih =>
    simp only [indices, List.flatMap_cons] at ih ⊢
    rw [hturn.indices, ih]

theorem itemCount_of_extends (h : turns.Forall₂ Turn.Extends turns') :
    itemCount turns ≤ itemCount turns' := by
  induction h with
  | nil => exact le_rfl
  | cons hturn _ ih =>
    simp only [itemCount, List.map_cons, List.sum_cons] at ih ⊢
    exact Nat.add_le_add hturn.length ih

theorem map_id_of_extends (h : turns.Forall₂ Turn.Extends turns') :
    turns'.map (·.id) = turns.map (·.id) := by
  induction h with
  | nil => rfl
  | cons hturn _ ih => rw [List.map_cons, List.map_cons, ih, hturn.id]

theorem Numbered.of_extends (h : Numbered turns next) (hturns : turns.Forall₂ Turn.Extends turns') :
    Numbered turns' next where
  increasing := by
    rw [indices_of_extends hturns]
    exact h.increasing
  below := by
    rw [indices_of_extends hturns]
    exact h.below
  counted k i hi := by
    have htake := List.forall₂_take k hturns
    rw [indices_of_extends htake] at hi
    exact (h.counted k i hi).trans (itemCount_of_extends htake)
  next_le := h.next_le.trans (Nat.succ_le_succ (itemCount_of_extends hturns))
  once := by
    intro turn' hturn'
    obtain ⟨k, hk, rfl⟩ := List.getElem_of_mem hturn'
    have hlt : k < turns.length := hturns.length_eq ▸ hk
    exact (hturns.get hlt hk).once (h.once _ (List.getElem_mem hlt))

theorem Numbered.of_isPrefix (h : Numbered turns next) (hturns : turns' <+: turns) :
    Numbered turns' (itemCount turns' + 1) := by
  obtain ⟨rest, rfl⟩ := hturns
  have hcounted := h.counted turns'.length
  rw [List.take_left] at hcounted
  refine ⟨?_, fun i hi => Nat.lt_succ_of_le (hcounted i hi), fun k i hi => ?_, le_rfl,
    fun turn hturn => h.once turn (List.mem_append_left _ hturn)⟩
  · have hall := h.increasing
    rw [indices_append] at hall
    exact (List.pairwise_append.1 hall).1
  · have hk := h.counted (min k turns'.length) i
    rw [List.take_append_of_le_length (Nat.min_le_right _ _)] at hk
    rw [← List.take_eq_take_min] at hk
    exact hk hi

theorem take_append_singleton (turns : List Turn) (turn : Turn) (k : Nat) :
    (turns ++ [turn]).take k =
      if turns.length < k then turns ++ [turn] else turns.take k := by
  split
  · exact List.take_of_length_le (by simpa using Nat.succ_le_of_lt ‹_›)
  · exact List.take_append_of_le_length (Nat.le_of_not_lt ‹_›)

/-- A turn without items at the end adds nothing. -/
theorem numbered_append_empty {turn : Turn} (hitems : turn.items = []) :
    Numbered (turns ++ [turn]) next ↔ Numbered turns next := by
  have hindices : indices (turns ++ [turn]) = indices turns := by
    simp [indices, hitems]
  have hcount : itemCount (turns ++ [turn]) = itemCount turns := by
    simp [itemCount, hitems]
  constructor
  · intro h
    refine ⟨hindices ▸ h.increasing, hindices ▸ h.below, fun k i hi => ?_, hcount ▸ h.next_le,
      fun turn hturn => h.once turn (List.mem_append_left _ hturn)⟩
    have hk := h.counted (min k turns.length) i
    rw [List.take_append_of_le_length (Nat.min_le_right _ _), ← List.take_eq_take_min] at hk
    exact hk hi
  · intro h
    refine ⟨hindices ▸ h.increasing, hindices ▸ h.below, fun k i hi => ?_, hcount ▸ h.next_le,
      fun turn hturn => ?_⟩
    · rw [take_append_singleton] at hi ⊢
      split at hi
      · rw [if_pos ‹_›, hcount]
        rw [hindices] at hi
        have hall := h.counted turns.length i
        rw [List.take_length] at hall
        exact hall hi
      · rw [if_neg ‹_›]
        exact h.counted k i hi
    · rcases List.mem_append.1 hturn with hturn | hturn
      · exact h.once turn hturn
      · rw [List.mem_singleton.1 hturn, hitems]
        exact .nil

theorem Numbered.push {turn : Turn} (h : Numbered (turns ++ [turn]) next) (item : NumberedItem) :
    Numbered (turns ++ [turn.push (.numbered next item)]) (next + 1) := by
  have hindices : indices (turns ++ [turn.push (.numbered next item)]) =
      indices (turns ++ [turn]) ++ [next] := by
    simp [indices, Turn.push, ThreadItem.index]
  have hcount : itemCount (turns ++ [turn.push (.numbered next item)]) =
      itemCount (turns ++ [turn]) + 1 := by
    simp [itemCount, Turn.push, Nat.add_assoc]
  have hnext := h.next_le
  have hall := h.counted (turns ++ [turn]).length
  rw [List.take_length] at hall
  refine ⟨?_, ?_, fun k i hi => ?_, by omega, fun turn' hturn => ?_⟩
  · rw [hindices]
    refine List.pairwise_append.2 ⟨h.increasing, List.pairwise_singleton _ _, fun i hi j hj => ?_⟩
    rw [List.mem_singleton.1 hj]
    exact h.below i hi
  · rw [hindices]
    intro i hi
    rcases List.mem_append.1 hi with hi | hi
    · exact Nat.lt_succ_of_lt (h.below i hi)
    · rw [List.mem_singleton.1 hi]
      exact Nat.lt_succ_self next
  · rw [take_append_singleton] at hi ⊢
    split at hi
    · rw [if_pos ‹_›, hcount]
      rw [hindices] at hi
      rcases List.mem_append.1 hi with hi | hi
      · exact Nat.le_succ_of_le (hall i hi)
      · rw [List.mem_singleton.1 hi]
        exact hnext
    · rw [if_neg ‹_›]
      have hk := h.counted k i
      rw [take_append_singleton, if_neg ‹_›] at hk
      exact hk hi
  · rcases List.mem_append.1 hturn with hturn | hturn
    · exact h.once turn' (List.mem_append_left _ hturn)
    · rw [List.mem_singleton.1 hturn]
      exact (h.once turn (List.mem_append_right _ (.head _))).push rfl

/-- The id that an event brings for its item. -/
def ThreadEvent.itemId? : ThreadEvent → Option String
  | .itemInCurrentTurn itemId _ => some itemId
  | .itemInTurn _ itemId _ => some itemId
  | _ => none

/-! ## The builder -/

namespace ThreadHistoryBuilder

variable {builder : ThreadHistoryBuilder} {started : List String} {bound : Nat}

/-- The finished turns and the open one. -/
def allTurns (builder : ThreadHistoryBuilder) : List Turn :=
  builder.turns ++ (builder.currentTurn.map (·.toTurn)).toList

/-- The turns are distinct, named by a start event or by a place in the rollout before `bound`, and
their items are numbered. -/
structure Distinct (started : List String) (bound : Nat) (builder : ThreadHistoryBuilder) :
    Prop where
  numbered : Numbered builder.allTurns builder.nextItemIndex
  ids : (builder.allTurns.map (·.id)).Nodup
  known : ∀ turn ∈ builder.allTurns, turn.id ∈ started ∨ ∃ i < bound, turn.id = rolloutTurnId i

theorem Distinct.of_extends {builder' : ThreadHistoryBuilder} (h : Distinct started bound builder)
    (hturns : builder.allTurns.Forall₂ Turn.Extends builder'.allTurns)
    (hnext : builder'.nextItemIndex = builder.nextItemIndex) :
    Distinct started bound builder' := by
  refine ⟨hnext ▸ h.numbered.of_extends hturns, ?_, fun turn' hturn' => ?_⟩
  · rw [map_id_of_extends hturns]
    exact h.ids
  · have hid : turn'.id ∈ builder.allTurns.map (·.id) := by
      rw [← map_id_of_extends hturns]
      exact List.mem_map_of_mem hturn'
    obtain ⟨turn, hturn, hid⟩ := List.mem_map.1 hid
    rw [← hid]
    exact h.known turn hturn

theorem Distinct.mono {started' : List String} {bound' : Nat} (h : Distinct started bound builder)
    (hstarted : started ⊆ started') (hbound : bound ≤ bound') :
    Distinct started' bound' builder :=
  ⟨h.numbered, h.ids, fun turn hturn => (h.known turn hturn).imp (hstarted ·)
    fun ⟨i, hi, hid⟩ => ⟨i, hi.trans_le hbound, hid⟩⟩

theorem Distinct.of_isPrefix {builder' : ThreadHistoryBuilder} (h : Distinct started bound builder)
    (hturns : builder'.allTurns <+: builder.allTurns)
    (hnumbered : Numbered builder'.allTurns builder'.nextItemIndex) :
    Distinct started bound builder' :=
  ⟨hnumbered, h.ids.sublist (hturns.sublist.map _), fun turn hturn =>
    h.known turn (hturns.subset hturn)⟩

theorem Distinct.of_allTurns {builder' : ThreadHistoryBuilder}
    (h : Distinct started bound builder) (hturns : builder'.allTurns = builder.allTurns)
    (hnext : builder'.nextItemIndex = builder.nextItemIndex) :
    Distinct started bound builder' :=
  ⟨hturns ▸ hnext ▸ h.numbered, hturns ▸ h.ids, hturns ▸ h.known⟩

theorem Distinct.append {builder' : ThreadHistoryBuilder} {started' : List String} {bound' : Nat}
    {turn : Turn} (h : Distinct started bound builder)
    (hturns : builder'.allTurns = builder.allTurns ++ [turn])
    (hnext : builder'.nextItemIndex = builder.nextItemIndex) (hitems : turn.items = [])
    (hfresh : ∀ other ∈ builder.allTurns, other.id ≠ turn.id) (hstarted : started ⊆ started')
    (hbound : bound ≤ bound')
    (hknown : turn.id ∈ started' ∨ ∃ i < bound', turn.id = rolloutTurnId i) :
    Distinct started' bound' builder' := by
  refine ⟨?_, ?_, fun other hother => ?_⟩
  · rw [hturns, hnext, numbered_append_empty hitems]
    exact h.numbered
  · rw [hturns, List.map_append, List.map_singleton]
    refine List.nodup_append.2 ⟨h.ids, List.pairwise_singleton _ _, fun id hid id' hid' => ?_⟩
    obtain ⟨other, hother, rfl⟩ := List.mem_map.1 hid
    rw [List.mem_singleton.1 hid']
    exact hfresh other hother
  · rw [hturns] at hother
    rcases List.mem_append.1 hother with hother | hother
    · exact (h.mono hstarted hbound).known other hother
    · rw [List.mem_singleton.1 hother]
      exact hknown

theorem allTurns_of_some {turn : PendingTurn} (h : builder.currentTurn = some turn) :
    builder.allTurns = builder.turns ++ [turn.toTurn] := by
  simp [allTurns, h]

theorem allTurns_of_none (h : builder.currentTurn = none) : builder.allTurns = builder.turns := by
  simp [allTurns, h]

theorem Distinct.finishCurrentTurn (h : Distinct started bound builder) :
    Distinct started bound builder.finishCurrentTurn := by
  unfold ThreadHistoryBuilder.finishCurrentTurn
  cases hcurrent : builder.currentTurn with
  | none => exact h
  | some turn =>
    have hall := allTurns_of_some hcurrent
    dsimp only
    split
    · next hempty =>
      refine h.of_isPrefix ?_ ?_
      · rw [hall]
        simp [allTurns]
      · have hnumbered := h.numbered
        rw [hall, numbered_append_empty hempty.1] at hnumbered
        simpa [allTurns] using hnumbered
    · exact h.of_allTurns (by simp [allTurns, hcurrent]) rfl

@[simp]
theorem finishCurrentTurn_currentTurn : builder.finishCurrentTurn.currentTurn = none := by
  unfold ThreadHistoryBuilder.finishCurrentTurn
  split
  · split <;> rfl
  · next h => exact h

@[simp]
theorem finishCurrentTurn_currentRolloutIndex :
    builder.finishCurrentTurn.currentRolloutIndex = builder.currentRolloutIndex := by
  unfold ThreadHistoryBuilder.finishCurrentTurn
  split
  · split <;> rfl
  · rfl

/-- The ids of the turns that events start are not those of implicit turns. -/
def NoRolloutIds (started : List String) : Prop := ∀ id ∈ started, ∀ i, id ≠ rolloutTurnId i

/-- An implicit turn is named after the item that is handled. -/
theorem Distinct.ensured (hs : NoRolloutIds started)
    (h : Distinct started builder.currentRolloutIndex builder) :
    Distinct started (builder.currentRolloutIndex + 1)
      { builder with currentTurn := some (builder.currentTurn.getD builder.newTurn) } := by
  cases hcurrent : builder.currentTurn with
  | some turn =>
    refine (h.mono (List.Subset.refl _) (Nat.le_succ _)).of_allTurns ?_ rfl
    simp [allTurns, hcurrent]
  | none =>
    have hid : builder.newTurn.toTurn.id ∈ started ∨ ∃ i < builder.currentRolloutIndex + 1,
        builder.newTurn.toTurn.id = rolloutTurnId i := .inr ⟨_, Nat.lt_succ_self _, rfl⟩
    refine h.append ?_ rfl rfl (fun other hother heq => ?_)
      (List.Subset.refl _) (Nat.le_succ _) hid
    · simp [allTurns, hcurrent]
    · rcases h.known other hother with hstarted | ⟨i, hi, hid⟩
      · exact hs _ hstarted _ heq
      · exact hi.ne (rolloutTurnId_inj (hid.symm.trans heq))

theorem forall₂_append_singleton (turns : List Turn) {turn turn' : Turn} (h : turn.Extends turn') :
    (turns ++ [turn]).Forall₂ Turn.Extends (turns ++ [turn']) :=
  List.rel_append (List.forall₂_same.2 fun turn _ => .refl turn) (.cons h .nil)

theorem Distinct.onEnsuredTurn (hs : NoRolloutIds started)
    (h : Distinct started builder.currentRolloutIndex builder) (f : PendingTurn → PendingTurn)
    (hf : ∀ turn : PendingTurn, turn.toTurn.Extends (f turn).toTurn) :
    Distinct started (builder.currentRolloutIndex + 1) (builder.onEnsuredTurn f) :=
  (h.ensured hs).of_extends (forall₂_append_singleton builder.turns (hf _)) rfl

theorem Distinct.pushNumbered (hs : NoRolloutIds started)
    (h : Distinct started builder.currentRolloutIndex builder) (item : NumberedItem) :
    Distinct started (builder.currentRolloutIndex + 1) (builder.pushNumbered item) := by
  have hensured := h.ensured hs
  refine ⟨hensured.numbered.push item, ?_, fun turn hturn => ?_⟩
  · have hids := hensured.ids
    rw [allTurns, List.map_append] at hids ⊢
    exact hids
  · rcases List.mem_append.1 hturn with hturn | hturn
    · exact hensured.known turn (List.mem_append_left _ hturn)
    · rw [List.mem_singleton.1 hturn]
      exact hensured.known (builder.currentTurn.getD builder.newTurn).toTurn
        (List.mem_append_right _ (.head _))

theorem Distinct.mapCurrentTurn (h : Distinct started bound builder)
    (f : PendingTurn → PendingTurn)
    (hf : ∀ turn : PendingTurn, turn.toTurn.Extends (f turn).toTurn) :
    Distinct started bound { builder with currentTurn := builder.currentTurn.map f } := by
  refine h.of_extends ?_ rfl
  cases hcurrent : builder.currentTurn with
  | none =>
    rw [allTurns_of_none hcurrent, allTurns_of_none rfl]
    exact List.forall₂_same.2 fun turn _ => .refl turn
  | some turn =>
    rw [allTurns_of_some hcurrent, allTurns_of_some rfl]
    exact forall₂_append_singleton builder.turns (hf turn)

theorem forall₂_updateTurn (turnId : String) {f : Turn → Turn} (hf : ∀ turn : Turn, turn.Extends (f turn))
    (turns : List Turn) : turns.Forall₂ Turn.Extends (updateTurn turnId f turns) := by
  induction turns with
  | nil => exact .nil
  | cons turn turns ih =>
    rw [updateTurn]
    split
    · exact .cons (hf turn) (List.forall₂_same.2 fun turn _ => .refl turn)
    · exact .cons (.refl turn) ih

theorem Distinct.updateTurn (h : Distinct started bound builder) (turnId : String)
    {f : Turn → Turn} (hf : ∀ turn : Turn, turn.Extends (f turn)) :
    Distinct started bound { builder with turns := updateTurn turnId f builder.turns } :=
  h.of_extends (List.rel_append (forall₂_updateTurn turnId hf builder.turns)
    (List.forall₂_same.2 fun turn _ => .refl turn)) rfl

/-! ## Handlers -/

theorem extendReasoning_eq_some {f : List (List Char) → List (List Char) → NumberedItem}
    {items items' : List ThreadItem} (h : extendReasoning f items = some items') :
    ∃ before index summary content,
      items = before ++ [.numbered index (.reasoning summary content)] ∧
      items' = before ++ [.numbered index (f summary content)] := by
  fun_induction extendReasoning f items generalizing items' with
  | case1 => cases h
  | case2 index summary content => cases h; exact ⟨[], index, summary, content, rfl, rfl⟩
  | case3 => cases h
  | case4 item items _ _ ih =>
    obtain ⟨items', hitems', rfl⟩ := Option.map_eq_some_iff.1 h
    obtain ⟨before, index, summary, content, rfl, rfl⟩ := ih hitems'
    exact ⟨item :: before, index, summary, content, rfl, rfl⟩

theorem extends_of_extendReasoning {f : List (List Char) → List (List Char) → NumberedItem}
    {turn : Turn} {items : List ThreadItem} (h : extendReasoning f turn.items = some items) :
    turn.Extends { turn with items } := by
  obtain ⟨before, index, summary, content, hitems, rfl⟩ := extendReasoning_eq_some h
  refine ⟨rfl, ?_, ?_, fun honce => ?_⟩
  · simp [hitems, ThreadItem.index]
  · simp [hitems]
  · rw [hitems] at honce
    exact EventItemsOnce.push (List.pairwise_append.1 honce).1 rfl

theorem Distinct.addReasoning (hs : NoRolloutIds started)
    (h : Distinct started builder.currentRolloutIndex builder) (text : List Char)
    (f : List (List Char) → List (List Char) → NumberedItem) :
    Distinct started (builder.currentRolloutIndex + 1) (builder.addReasoning text f) := by
  unfold ThreadHistoryBuilder.addReasoning
  split
  · exact h.mono (List.Subset.refl _) (Nat.le_succ _)
  · split
    · next items hitems =>
      exact (h.ensured hs).of_extends
        (forall₂_append_singleton builder.turns (extends_of_extendReasoning hitems)) rfl
    · exact h.pushNumbered hs _

theorem Distinct.handleUserMessage (hs : NoRolloutIds started)
    (h : Distinct started builder.currentRolloutIndex builder) (payload : UserMessageEvent) :
    Distinct started (builder.currentRolloutIndex + 1) (builder.handleUserMessage payload) := by
  have hfinish : Distinct started (builder.currentRolloutIndex + 1)
      (builder.finishCurrentTurn.pushNumbered (.userMessage (buildUserInputs payload))) := by
    have hbefore : Distinct started builder.finishCurrentTurn.currentRolloutIndex
        builder.finishCurrentTurn := by simpa using h.finishCurrentTurn
    simpa using hbefore.pushNumbered hs (.userMessage (buildUserInputs payload))
  unfold ThreadHistoryBuilder.handleUserMessage
  cases builder.currentTurn with
  | none => exact h.pushNumbered hs _
  | some turn =>
    dsimp only
    split
    · exact hfinish
    · exact h.pushNumbered hs _

theorem Distinct.upsertItemInTurnId (h : Distinct started bound builder) (turnId : String)
    {itemId : String} (payload : List Char) (hid : ∀ i, itemId ≠ numberedItemId i) :
    Distinct started bound (builder.upsertItemInTurnId turnId (.ofEvent itemId payload)) := by
  have hextends := Turn.extends_upsert payload hid
  have hupdate := h.updateTurn turnId hextends
  unfold ThreadHistoryBuilder.upsertItemInTurnId
  cases hcurrent : builder.currentTurn with
  | none =>
    rw [hcurrent] at hupdate
    exact hupdate
  | some turn =>
    dsimp only
    rw [hcurrent] at hupdate
    split
    · have hmap := h.mapCurrentTurn (PendingTurn.onTurn (·.upsert (.ofEvent itemId payload)))
        fun turn => hextends turn.toTurn
      rw [hcurrent] at hmap
      exact hmap
    · exact hupdate

theorem Distinct.handleTurnAborted (h : Distinct started bound builder)
    (turnId : Option String) : Distinct started bound (builder.handleTurnAborted turnId) := by
  have hextends (turn : Turn) : turn.Extends turn.interrupt := .of_items rfl rfl
  have hcurrent := h.mapCurrentTurn (PendingTurn.onTurn Turn.interrupt)
    fun turn => hextends turn.toTurn
  unfold ThreadHistoryBuilder.handleTurnAborted
  cases turnId with
  | none => exact hcurrent
  | some turnId =>
    dsimp only
    split
    · exact hcurrent
    split
    · exact h.updateTurn turnId hextends
    · exact hcurrent

theorem Distinct.handleTurnComplete (h : Distinct started bound builder) (turnId : String) :
    Distinct started bound (builder.handleTurnComplete turnId) := by
  have hextends (turn : Turn) : turn.Extends turn.markCompleted := .of_items rfl rfl
  have hcurrent := (h.mapCurrentTurn (PendingTurn.onTurn Turn.markCompleted)
    fun turn => hextends turn.toTurn).finishCurrentTurn
  unfold ThreadHistoryBuilder.handleTurnComplete
  dsimp only
  split
  · exact hcurrent
  split
  · exact h.updateTurn turnId hextends
  · exact hcurrent

theorem Distinct.handleTurnStarted (h : Distinct started bound builder) {turnId : String}
    (hnew : turnId ∉ started) (hid : ∀ i, turnId ≠ rolloutTurnId i) :
    Distinct (started ++ [turnId]) bound (builder.handleTurnStarted turnId) := by
  have hfinish := h.finishCurrentTurn
  let turn : Turn := ⟨turnId, [], none, .inProgress⟩
  have hturn : turn.id ∈ started ++ [turnId] ∨ ∃ i < bound, turn.id = rolloutTurnId i :=
    .inl (by simp [turn])
  refine hfinish.append ?_ rfl rfl
    (fun other hother heq => ?_) (List.subset_append_left _ _) le_rfl hturn
  · rw [allTurns_of_none finishCurrentTurn_currentTurn]
    rfl
  · rcases hfinish.known other hother with hstarted | ⟨i, -, hother⟩
    · exact hnew ((show other.id = turnId from heq) ▸ hstarted)
    · exact hid i (heq.symm.trans hother)

theorem Distinct.handleThreadRollback (h : Distinct started bound builder) (numTurns : Nat) :
    Distinct started bound (builder.handleThreadRollback numTurns) := by
  have hfinish := h.finishCurrentTurn
  have hnone : (builder.handleThreadRollback numTurns).currentTurn = none :=
    finishCurrentTurn_currentTurn
  have hturns : (builder.handleThreadRollback numTurns).allTurns <+:
      builder.finishCurrentTurn.allTurns := by
    rw [allTurns_of_none hnone, allTurns_of_none finishCurrentTurn_currentTurn]
    exact List.take_prefix _ _
  refine hfinish.of_isPrefix hturns ?_
  have hnumbered := hfinish.numbered.of_isPrefix hturns
  rw [allTurns_of_none hnone] at hnumbered ⊢
  exact hnumbered

section
variable {lib : Libraries} {hookPromptId : Nat → String}

theorem Distinct.handleThreadEvent (hs : NoRolloutIds started)
    (h : Distinct started builder.currentRolloutIndex builder) {event : ThreadEvent}
    (hid : ∀ itemId ∈ event.itemId?, ∀ i, itemId ≠ numberedItemId i) :
    Distinct started (builder.currentRolloutIndex + 1) (builder.handleThreadEvent event) := by
  have hsame := h.mono (List.Subset.refl _) (Nat.le_succ builder.currentRolloutIndex)
  cases event with
  | agentMessage text =>
    show Distinct _ _ (builder.handleAgentMessage text)
    unfold ThreadHistoryBuilder.handleAgentMessage
    split
    · exact hsame
    · exact h.pushNumbered hs _
  | agentReasoning text => exact h.addReasoning hs text _
  | agentReasoningRawContent text => exact h.addReasoning hs text _
  | contextCompacted => exact h.pushNumbered hs _
  | enteredReviewMode hint => exact h.pushNumbered hs _
  | exitedReviewMode explanation => exact h.pushNumbered hs _
  | itemInCurrentTurn itemId payload =>
    exact h.onEnsuredTurn hs _ fun turn =>
      Turn.extends_upsert payload (hid itemId rfl) turn.toTurn
  | itemInTurn turnId itemId payload =>
    exact hsame.upsertItemInTurnId turnId payload (hid itemId rfl)
  | error affectsTurnStatus message =>
    show Distinct _ _ (builder.handleError affectsTurnStatus message)
    unfold ThreadHistoryBuilder.handleError
    split
    · exact hsame.mapCurrentTurn _ fun turn => .of_items rfl rfl
    · exact hsame
  | unlisted => exact hsame

theorem Distinct.handleResponseItem (hs : NoRolloutIds started)
    (h : Distinct started builder.currentRolloutIndex builder) (item : ResponseItem) :
    Distinct started (builder.currentRolloutIndex + 1)
      (builder.handleResponseItem lib hookPromptId item) := by
  have hsame := h.mono (List.Subset.refl _) (Nat.le_succ builder.currentRolloutIndex)
  cases item with
  | message role content =>
    show Distinct _ _ (if _ then _ else _)
    split
    · exact h.onEnsuredTurn hs _ fun turn => Turn.extends_push rfl rfl turn.toTurn
    · exact hsame
  | _ => exact hsame

end

/-! ## Runs -/

@[simp]
theorem finishCurrentTurn_nextRolloutIndex :
    builder.finishCurrentTurn.nextRolloutIndex = builder.nextRolloutIndex := by
  unfold ThreadHistoryBuilder.finishCurrentTurn
  split
  · split <;> rfl
  · rfl

theorem handleThreadEvent_nextRolloutIndex (event : ThreadEvent) :
    (builder.handleThreadEvent event).nextRolloutIndex = builder.nextRolloutIndex := by
  have hreasoning (text : List Char) (f : List (List Char) → List (List Char) → NumberedItem) :
      (builder.addReasoning text f).nextRolloutIndex = builder.nextRolloutIndex := by
    unfold ThreadHistoryBuilder.addReasoning
    split
    · rfl
    · split <;> rfl
  cases event with
  | agentMessage text =>
    show (if _ then _ else _ : ThreadHistoryBuilder).nextRolloutIndex = _
    split <;> rfl
  | agentReasoning text => exact hreasoning text _
  | agentReasoningRawContent text => exact hreasoning text _
  | itemInTurn turnId itemId payload =>
    show (builder.upsertItemInTurnId turnId _).nextRolloutIndex = _
    unfold ThreadHistoryBuilder.upsertItemInTurnId
    split
    · split <;> rfl
    · rfl
  | error affectsTurnStatus message =>
    show (if _ then _ else _ : ThreadHistoryBuilder).nextRolloutIndex = _
    split <;> rfl
  | _ => rfl

theorem handleRolloutItem_nextRolloutIndex (lib : Libraries) (hookPromptId : Nat → String)
    (item : RolloutItem) :
    (builder.handleRolloutItem lib hookPromptId item).nextRolloutIndex =
      builder.nextRolloutIndex + 1 := by
  cases item with
  | otherEvent event => exact handleThreadEvent_nextRolloutIndex event
  | userMessage payload =>
    show (ThreadHistoryBuilder.handleUserMessage _ payload).nextRolloutIndex = _
    unfold ThreadHistoryBuilder.handleUserMessage
    dsimp only
    split
    · split
      · exact finishCurrentTurn_nextRolloutIndex
      · rfl
    · rfl
  | turnAborted turnId =>
    show (ThreadHistoryBuilder.handleTurnAborted _ turnId).nextRolloutIndex = _
    unfold ThreadHistoryBuilder.handleTurnAborted
    dsimp only
    split
    · split
      · rfl
      · split <;> rfl
    · rfl
  | turnComplete turnId =>
    show (ThreadHistoryBuilder.handleTurnComplete _ turnId).nextRolloutIndex = _
    unfold ThreadHistoryBuilder.handleTurnComplete
    dsimp only
    split
    · exact finishCurrentTurn_nextRolloutIndex
    · split
      · rfl
      · exact finishCurrentTurn_nextRolloutIndex
  | turnStarted turnId => exact finishCurrentTurn_nextRolloutIndex
  | threadRolledBack numTurns => exact finishCurrentTurn_nextRolloutIndex
  | responseItem item =>
    cases item with
    | message role content =>
      show (if _ then _ else _ : ThreadHistoryBuilder).nextRolloutIndex = _
      split <;> rfl
    | _ => rfl
  | _ => rfl

end ThreadHistoryBuilder

def RolloutItem.startedTurnId? : RolloutItem → Option String
  | .turnStarted turnId => some turnId
  | _ => none

def RolloutItem.eventItemId? : RolloutItem → Option String
  | .otherEvent event => event.itemId?
  | _ => none

def startedTurnIds (items : List RolloutItem) : List String :=
  items.filterMap RolloutItem.startedTurnId?

/-- The ids of events differ from those that are made up, and each turn is started once. -/
structure WellNamed (items : List RolloutItem) : Prop where
  started : (startedTurnIds items).Nodup
  noRolloutIds : NoRolloutIds (startedTurnIds items)
  noNumberedIds : ∀ item ∈ items, ∀ itemId ∈ item.eventItemId?, ∀ i, itemId ≠ numberedItemId i

variable {builder : ThreadHistoryBuilder} {started : List String} {lib : Libraries}
  {hookPromptId : Nat → String} {items : List RolloutItem}

theorem ThreadHistoryBuilder.Distinct.handleRolloutItem (hs : NoRolloutIds started)
    (h : Distinct started builder.nextRolloutIndex builder) {item : RolloutItem}
    (hnew : ∀ turnId ∈ item.startedTurnId?, turnId ∉ started ∧ ∀ i, turnId ≠ rolloutTurnId i)
    (hid : ∀ itemId ∈ item.eventItemId?, ∀ i, itemId ≠ numberedItemId i) :
    Distinct (started ++ item.startedTurnId?.toList) (builder.nextRolloutIndex + 1)
      (builder.handleRolloutItem lib hookPromptId item) := by
  have hcurrent : Distinct started builder.advance.currentRolloutIndex builder.advance :=
    h.of_allTurns rfl rfl
  have hsame := hcurrent.mono (List.Subset.refl _) (Nat.le_succ builder.nextRolloutIndex)
  cases item with
  | turnStarted turnId =>
    obtain ⟨hnew, hid⟩ := hnew turnId rfl
    exact hsame.handleTurnStarted hnew hid
  | userMessage payload =>
    have hstep := hcurrent.handleUserMessage hs payload
    rwa [← List.append_nil started] at hstep
  | otherEvent event =>
    have hstep := hcurrent.handleThreadEvent hs hid
    rwa [← List.append_nil started] at hstep
  | compacted _ _ =>
    have hstep := hcurrent.onEnsuredTurn hs (fun turn => { turn with sawCompaction := true })
      fun turn => .of_items rfl rfl
    rwa [← List.append_nil started] at hstep
  | responseItem item =>
    have hstep : Distinct started (builder.nextRolloutIndex + 1)
        (builder.advance.handleResponseItem lib hookPromptId item) :=
      hcurrent.handleResponseItem hs item
    rwa [← List.append_nil started] at hstep
  | threadRolledBack numTurns =>
    exact (List.append_nil started).symm ▸ hsame.handleThreadRollback numTurns
  | turnAborted turnId => exact (List.append_nil started).symm ▸ hsame.handleTurnAborted turnId
  | turnComplete turnId => exact (List.append_nil started).symm ▸ hsame.handleTurnComplete turnId
  | turnContext _ => exact (List.append_nil started).symm ▸ hsame
  | sessionMeta => exact (List.append_nil started).symm ▸ hsame

theorem WellNamed.of_append {after : List RolloutItem} (h : WellNamed (items ++ after)) :
    WellNamed items := by
  have hsplit : startedTurnIds (items ++ after) = startedTurnIds items ++ startedTurnIds after :=
    List.filterMap_append
  refine ⟨(List.nodup_append.1 (hsplit ▸ h.started)).1, fun id hid => ?_, fun item hitem =>
    h.noNumberedIds item (List.mem_append_left _ hitem)⟩
  exact h.noRolloutIds id (hsplit ▸ List.mem_append_left _ hid)

theorem distinct_new : Distinct [] 0 new := by
  refine ⟨⟨.nil, nofun, fun k i hi => ?_, le_rfl, nofun⟩, .nil, nofun⟩
  have hnone : new.allTurns.take k = [] := List.take_nil
  rw [hnone] at hi
  cases hi

variable (lib hookPromptId) in
/-- The turns are distinct and numbered in every state of a run. -/
theorem distinct_handleRolloutItems (h : WellNamed items) :
    let builder := ThreadHistoryBuilder.new.handleRolloutItems lib hookPromptId items
    Distinct (startedTurnIds items) builder.nextRolloutIndex builder := by
  induction items using List.reverseRecOn with
  | nil => exact distinct_new
  | append_singleton items item ih =>
    have hbefore := h.of_append
    have hsplit : startedTurnIds (items ++ [item]) =
        startedTurnIds items ++ item.startedTurnId?.toList := by
      rw [startedTurnIds, List.filterMap_append]
      cases item <;> rfl
    have hstarted := h.started
    have hnoRollout := h.noRolloutIds
    rw [hsplit] at hstarted hnoRollout
    rw [hsplit]
    dsimp only
    rw [handleRolloutItems, List.foldl_concat, handleRolloutItem_nextRolloutIndex]
    refine (ih hbefore).handleRolloutItem hbefore.noRolloutIds (fun turnId hturnId => ?_)
      (h.noNumberedIds item (by simp))
    have hmem : turnId ∈ item.startedTurnId?.toList := by simpa using hturnId
    refine ⟨fun hold => ?_, hnoRollout turnId (List.mem_append_right _ hmem)⟩
    exact (List.nodup_append.1 hstarted).2.2 turnId hold turnId hmem rfl

/-! ## Events for finished turns -/

/-- The turn that an event names. -/
def RolloutItem.namedTurn? : RolloutItem → Option String
  | .turnComplete turnId => some turnId
  | .turnAborted turnId => turnId
  | .otherEvent (.itemInTurn turnId _ _) => some turnId
  | _ => none

theorem updateTurn_eq_map (turnId : String) (f : Turn → Turn) {turns : List Turn}
    (h : (turns.map (·.id)).Nodup) :
    updateTurn turnId f turns = turns.map fun turn => if turn.id = turnId then f turn else turn := by
  induction turns with
  | nil => rfl
  | cons turn turns ih =>
    obtain ⟨hturn, hturns⟩ := List.nodup_cons.1 h
    rw [updateTurn, List.map_cons]
    by_cases hid : turn.id = turnId
    · rw [if_pos hid, if_pos hid]
      congr 1
      have hrest : ∀ other ∈ turns, (if other.id = turnId then f other else other) = other := by
        intro other hother
        exact if_neg fun heq => hturn (List.mem_map.2 ⟨other, hother, heq.trans hid.symm⟩)
      rw [List.map_congr_left hrest, List.map_id']
    · rw [if_neg hid, if_neg hid, ih hturns]

/-- Only the finished turn that the event names is changed. -/
theorem ThreadHistoryBuilder.Distinct.handle_finished {bound : Nat}
    (h : Distinct started bound builder) {item : RolloutItem} {turnId : String}
    (hitem : item.namedTurn? = some turnId) (hfinished : builder.hasTurn turnId) :
    let builder' := builder.handleRolloutItem lib hookPromptId item
    builder'.currentTurn = builder.currentTurn ∧
      builder'.nextItemIndex = builder.nextItemIndex ∧
      ∃ f : Turn → Turn, builder'.turns =
        builder.turns.map fun turn => if turn.id = turnId then f turn else turn := by
  have hids := h.ids
  rw [allTurns, List.map_append] at hids
  obtain ⟨hturns, -, hdisjoint⟩ := List.nodup_append.1 hids
  obtain ⟨turn, hturn, hturnId⟩ : ∃ turn ∈ builder.turns, turn.id = turnId := by
    simpa [hasTurn] using hfinished
  have hother : ∀ current ∈ builder.currentTurn, current.id ≠ turnId := by
    intro current hcurrent heq
    refine hdisjoint turn.id (List.mem_map_of_mem hturn) current.id ?_ (hturnId.trans heq.symm)
    simp [Option.mem_def.1 hcurrent]
  have hupdate (f : Turn → Turn) := updateTurn_eq_map turnId f hturns
  have hcurrent : builder.advance.currentTurn.any (·.id = turnId) = false := by
    show builder.currentTurn.any (·.id = turnId) = false
    cases hsome : builder.currentTurn with
    | none => rfl
    | some current => simpa using hother current hsome
  have hhas : builder.advance.hasTurn turnId = true := hfinished
  have hstep : ∃ f : Turn → Turn, builder.handleRolloutItem lib hookPromptId item =
      { builder.advance with turns := Rollout.updateTurn turnId f builder.turns } := by
    cases item with
    | turnComplete named =>
      obtain rfl : named = turnId := Option.some.inj hitem
      refine ⟨Turn.markCompleted, ?_⟩
      show builder.advance.handleTurnComplete named = _
      simp only [ThreadHistoryBuilder.handleTurnComplete, hcurrent, hhas, if_true, if_false,
        Bool.false_eq_true]
      rfl
    | turnAborted named =>
      obtain rfl : named = some turnId := hitem
      refine ⟨Turn.interrupt, ?_⟩
      show builder.advance.handleTurnAborted (some turnId) = _
      simp only [ThreadHistoryBuilder.handleTurnAborted, hcurrent, hhas, if_true, if_false,
        Bool.false_eq_true]
      rfl
    | otherEvent event =>
      cases event with
      | itemInTurn named itemId payload =>
        obtain rfl : named = turnId := Option.some.inj hitem
        refine ⟨(·.upsert (.ofEvent itemId payload)), ?_⟩
        show builder.advance.upsertItemInTurnId named (.ofEvent itemId payload) = _
        unfold ThreadHistoryBuilder.upsertItemInTurnId
        split
        · next current hsome => exact if_neg (hother current hsome)
        · rfl
      | _ => cases hitem
    | _ => cases hitem
  obtain ⟨f, hstep⟩ := hstep
  dsimp only
  rw [hstep]
  exact ⟨rfl, rfl, f, hupdate f⟩

theorem ThreadHistoryBuilder.Distinct.finish {bound : Nat} (h : Distinct started bound builder) :
    (builder.finish.map (·.id)).Nodup ∧
      ((builder.finish.flatMap (·.items)).filter (·.index.isSome)).Pairwise
        (fun a b => a.id ≠ b.id) ∧
      ∀ turn ∈ builder.finish, (turn.items.filterMap ThreadItem.eventId).Nodup := by
  have hfinish := h.finishCurrentTurn
  have hall : builder.finishCurrentTurn.allTurns = builder.finish :=
    allTurns_of_none finishCurrentTurn_currentTurn
  refine ⟨hall ▸ hfinish.ids, ?_, fun turn hturn =>
    (hfinish.numbered.once turn (hall.symm ▸ hturn)).nodup⟩
  have hincreasing := hfinish.numbered.increasing
  rw [hall, indices, ← List.filterMap_flatMap, List.pairwise_filterMap] at hincreasing
  rw [List.pairwise_filter]
  refine hincreasing.imp fun {a b} hlt ha hb heq => ?_
  obtain ⟨i, hi⟩ := Option.isSome_iff_exists.1 ha
  obtain ⟨j, hj⟩ := Option.isSome_iff_exists.1 hb
  have hid {item : ThreadItem} {i : Nat} (h : item.index = some i) :
      item.id = numberedItemId i := by
    cases item <;> first | cases h; rfl | cases h
  rw [hid hi, hid hj] at heq
  exact (hlt i hi j hj).ne (numberedItemId_inj heq)

/-- Turns and items have ids of their own, an event's item is in its turn once, and an event for a
finished turn touches nothing else. -/
theorem buildTurns_distinct (lib : Libraries) (hookPromptId : Nat → String)
    (items : List RolloutItem) (h : WellNamed items) :
    let turns := buildTurnsFromRolloutItems lib hookPromptId items
    (turns.map (·.id)).Nodup ∧
    ((turns.flatMap (·.items)).filter (·.index.isSome)).Pairwise (fun a b => a.id ≠ b.id) ∧
    (∀ turn ∈ turns, (turn.items.filterMap ThreadItem.eventId).Nodup) ∧
    ∀ before event after turnId, items = before ++ event :: after →
      event.namedTurn? = some turnId →
      let builder := new.handleRolloutItems lib hookPromptId before
      let builder' := new.handleRolloutItems lib hookPromptId (before ++ [event])
      builder.hasTurn turnId →
        builder'.currentTurn = builder.currentTurn ∧
        builder'.nextItemIndex = builder.nextItemIndex ∧
        ∃ f : Turn → Turn, builder'.turns =
          builder.turns.map fun turn => if turn.id = turnId then f turn else turn := by
  obtain ⟨hids, hnumbers, honce⟩ :=
    (distinct_handleRolloutItems lib hookPromptId h).finish
  refine ⟨hids, hnumbers, honce, ?_⟩
  rintro before event after turnId rfl hevent builder builder' hfinished
  have hbefore := distinct_handleRolloutItems lib hookPromptId h.of_append
  have hstep : builder' = builder.handleRolloutItem lib hookPromptId event := by
    show new.handleRolloutItems lib hookPromptId (before ++ [event]) = _
    rw [handleRolloutItems, List.foldl_concat]
    rfl
  rw [hstep]
  exact hbefore.handle_finished hevent hfinished

/-- The command of the first turn ends during the second. -/
theorem buildTurns_distinct_example :
    let lib : Libraries := ⟨fun _ => false, fun _ => false, fun _ text => text, id, id⟩
    let items : List RolloutItem := [.turnStarted "a", .userMessage ⟨['x'], none, []⟩,
      .turnComplete "a", .turnStarted "b", .otherEvent (.itemInTurn "a" "call" ['o', 'k'])]
    ((buildTurnsFromRolloutItems lib (fun _ => "hook") items).map (·.id)).Nodup ∧
      buildTurnsFromRolloutItems lib (fun _ => "hook") items =
        [⟨"a", [.numbered 1 (.userMessage [.text ['x']]), .ofEvent "call" ['o', 'k']], none,
          .completed⟩, ⟨"b", [], none, .inProgress⟩] := by
  have hnamed : WellNamed [.turnStarted "a", .userMessage ⟨['x'], none, []⟩, .turnComplete "a",
      .turnStarted "b", .otherEvent (.itemInTurn "a" "call" ['o', 'k'])] := by
    refine ⟨by decide, ?_, ?_⟩
    · intro id hid i heq
      have hhead := congrArg (fun text : String => text.toList.head?) heq
      rcases List.mem_cons.1 hid with rfl | hid
      · simp [rolloutTurnId] at hhead
      · rw [List.mem_singleton.1 hid] at hhead
        simp [rolloutTurnId] at hhead
    · simp only [List.mem_cons, List.not_mem_nil, or_false]
      rintro item (rfl | rfl | rfl | rfl | rfl) itemId hid i heq <;> cases hid
      have hhead := congrArg (fun text : String => text.toList.head?) heq
      simp [numberedItemId] at hhead
  exact ⟨(buildTurns_distinct _ (fun _ => "hook") _ hnamed).1, by decide⟩

end Mcodex.Rollout
