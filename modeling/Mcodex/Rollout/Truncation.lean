import Mcodex.Rollout.RollbackAgreement
import Mathlib.Data.List.Perm.Subperm

/-!
# Truncating a rollout

A fork starts from a prefix of the rollout, cut before a message of the user, or from a suffix, cut
at one of its last fork turns. Both cuts are found by a scan that keeps the positions of what is
live, and both are to agree with the history: what is replayed of the piece is a piece of what is
replayed of the whole. The scan for fork turns agrees always; the scan for messages takes every turn
that a rollback drops for a message of the user, and agrees exactly when no such slip is left in the
end (`truncations_agree`).
-/

namespace Mcodex.Rollout

open Segment

section
variable (lib : Libraries)

/-! ## The truncations -/

/-- `parse_turn_item` gives a `TurnItem::UserMessage`. -/
def isRealUserMessageBoundary (item : ResponseItem) : Bool := isUserMessage lib item

/-- The envelope asks for a turn, where the texts that do are given. -/
def isTriggerTurnBoundary (triggerTurn : List Char → Bool) : ResponseItem → Bool
  | .message role content =>
    role = "assistant" && match content with
      | [.inputText text] => lib.isInterAgentCommunication text && triggerTurn text
      | [.outputText text] => lib.isInterAgentCommunication text && triggerTurn text
      | _ => false
  | _ => false

/-- One item of `user_message_positions_in_rollout`. -/
def userMessagePosition (userPositions : List Nat) : RolloutItem × Nat → List Nat
  | (.responseItem item, idx) =>
    if isRealUserMessageBoundary lib item then userPositions ++ [idx] else userPositions
  | (.threadRolledBack numTurns, _) => userPositions.take (userPositions.length - numTurns)
  | _ => userPositions

def userMessagePositionsInRollout (items : List RolloutItem) : List Nat :=
  items.zipIdx.foldl (userMessagePosition lib) []

/-- An item that `fork_turn_positions_in_rollout` counts. -/
def isForkTurn (triggerTurn : List Char → Bool) (item : ResponseItem) : Bool :=
  isRealUserMessageBoundary lib item || isTriggerTurnBoundary lib triggerTurn item

/-- One item of `fork_turn_positions_in_rollout`, with the positions that rollbacks count. -/
def forkTurnPosition (triggerTurn : List Char → Bool) (positions : List Nat × List Nat) :
    RolloutItem × Nat → List Nat × List Nat
  | (.responseItem item, idx) =>
    (if isUserTurnBoundary lib item then positions.1 ++ [idx] else positions.1,
      if isForkTurn lib triggerTurn item then positions.2 ++ [idx] else positions.2)
  | (.threadRolledBack numTurns, _) =>
    if numTurns = 0 then positions
    else
      let rollbackStart :=
        if numTurns ≤ positions.1.length then positions.1[positions.1.length - numTurns]?
        else positions.1.head?
      match rollbackStart with
      | none => positions
      | some rollbackStartIdx =>
        (positions.1.take (positions.1.length - numTurns),
          positions.2.filter (· < rollbackStartIdx))
  | _ => positions

def forkTurnPositionsInRollout (triggerTurn : List Char → Bool) (items : List RolloutItem) :
    List Nat :=
  (items.zipIdx.foldl (forkTurnPosition lib triggerTurn) ([], [])).2

def truncateRolloutBeforeNthUserMessageFromStart (items : List RolloutItem) (nFromStart : Nat) :
    List RolloutItem :=
  if nFromStart = maxPending then items
  else
    let userPositions := userMessagePositionsInRollout lib items
    if userPositions.length ≤ nFromStart then items
    else items.take (userPositions.getD nFromStart 0)

def truncateRolloutToLastNForkTurns (triggerTurn : List Char → Bool) (items : List RolloutItem)
    (nFromEnd : Nat) : List RolloutItem :=
  if nFromEnd = 0 then []
  else
    let forkTurnPositions := forkTurnPositionsInRollout lib triggerTurn items
    if forkTurnPositions.length ≤ nFromEnd then items
    else items.drop (forkTurnPositions.getD (forkTurnPositions.length - nFromEnd) 0)

/-! ## What they are to agree with -/

/-- Cut before a message of the user, the rollout is replayed to the history before it. -/
def AgreesBefore (items : List RolloutItem) (n : Nat) : Prop :=
  let truncated := forwardHistory lib (truncateRolloutBeforeNthUserMessageFromStart lib items n)
  truncated <+: forwardHistory lib items ∧
    truncated.countP (isUserMessage lib) =
      min n ((forwardHistory lib items).countP (isUserMessage lib))

/-- Cut at a fork turn, the rollout is replayed to the history from it on. -/
def AgreesAfter (triggerTurn : List Char → Bool) (items : List RolloutItem) (n : Nat) : Prop :=
  let truncated := forwardHistory lib (truncateRolloutToLastNForkTurns lib triggerTurn items n)
  truncated <:+ forwardHistory lib items ∧
    truncated.countP (isForkTurn lib triggerTurn) =
      min n ((forwardHistory lib items).countP (isForkTurn lib triggerTurn))

/-- What one item makes of the history, where each entry keeps its place in the rollout. -/
def recordEntry (history : List (Nat × ResponseItem)) :
    RolloutItem × Nat → List (Nat × ResponseItem)
  | (.responseItem item, idx) =>
    if !isApiMessage item && !isGhostSnapshot item then history
    else history ++ [(idx, processItem lib item)]
  | (.threadRolledBack numTurns, _) =>
    history.take (dropLastNUserTurns lib (history.map (·.2)) numTurns).length
  | _ => history

/-- The history of a rollout without compactions, with the place of each entry. -/
def entries (items : List RolloutItem) : List (Nat × ResponseItem) :=
  items.zipIdx.foldl (recordEntry lib) []

/-- What a rollback drops of a history. -/
def droppedTurns (history : List ResponseItem) (numTurns : Nat) : List ResponseItem :=
  history.drop (dropLastNUserTurns lib history numTurns).length

/-- No instruction between agents is among the turns that a rollback drops. -/
def DropsMessages (before : List RolloutItem) (numTurns : Nat) : Prop :=
  ∀ item ∈ droppedTurns lib (forwardHistory lib before) numTurns, isUserTurnBoundary lib item →
    isUserMessage lib item

/-- A rollback that drops an instruction between agents leaves no message of the user from before
it in the end. -/
def InstructionsStay (items : List RolloutItem) : Prop :=
  ∀ before numTurns after, items = before ++ .threadRolledBack numTurns :: after →
    ¬ DropsMessages lib before numTurns →
    ∀ entry ∈ entries lib items, isUserMessage lib entry.2 → before.length ≤ entry.1

variable {lib} {items : List RolloutItem} {n : Nat}

/-! ## The entries of the history -/

theorem foldl_zipIdx_concat {α β : Type} (f : β → α × Nat → β) (b : β) (xs : List α) (x : α) :
    (xs ++ [x]).zipIdx.foldl f b = f (xs.zipIdx.foldl f b) (x, xs.length) := by
  rw [List.zipIdx_append, List.foldl_append]
  simp

theorem entries_concat (items : List RolloutItem) (item : RolloutItem) :
    entries lib (items ++ [item]) = recordEntry lib (entries lib items) (item, items.length) :=
  foldl_zipIdx_concat _ _ _ _

theorem forwardHistory_concat (items : List RolloutItem) (item : RolloutItem) :
    forwardHistory lib (items ++ [item]) = replayItem lib (forwardHistory lib items) item :=
  replay_append [] items [item]

theorem dropLastNUserTurns_isPrefix (history : List ResponseItem) (n : Nat) :
    dropLastNUserTurns lib history n <+: history := by
  rw [dropLastNUserTurns_eq_keptTurns]
  exact keptTurns_isPrefix lib history n

theorem map_entries (h : ∀ item ∈ items, isCompaction item = false) :
    (entries lib items).map (·.2) = forwardHistory lib items := by
  induction items using List.reverseRecOn with
  | nil => rfl
  | append_singleton items item ih =>
    have hbefore : ∀ item ∈ items, isCompaction item = false := fun item hitem =>
      h item (List.mem_append_left _ hitem)
    rw [entries_concat, forwardHistory_concat, ← ih hbefore]
    cases item with
    | responseItem item =>
      rw [recordEntry, replayItem, recordItem]
      split
      · rfl
      · rw [List.map_append]
        rfl
    | threadRolledBack numTurns =>
      rw [recordEntry, replayItem, List.map_take]
      exact (List.prefix_iff_eq_take.1 (dropLastNUserTurns_isPrefix _ _)).symm
    | compacted message replacementHistory =>
      cases h _ (List.mem_append_right _ List.mem_cons_self)
    | _ => rfl

/-- An entry was recorded when the history held the entries before it. -/
theorem entry_spec {before : List (Nat × ResponseItem)} {idx : Nat} {x : ResponseItem}
    (h : before ++ [(idx, x)] <+: entries lib items) :
    idx < items.length ∧ entries lib (items.take idx) = before ∧
      ∃ item, items[idx]? = some (.responseItem item) ∧ x = processItem lib item := by
  induction items using List.reverseRecOn with
  | nil => simp [entries] at h
  | append_singleton items item ih =>
    have hkeep (hold : before ++ [(idx, x)] <+: entries lib items) :
        idx < (items ++ [item]).length ∧ entries lib ((items ++ [item]).take idx) = before ∧
          ∃ item', (items ++ [item])[idx]? = some (.responseItem item') ∧
            x = processItem lib item' := by
      obtain ⟨hlt, htake, item', hitem', hx⟩ := ih hold
      refine ⟨by rw [List.length_append]; omega, ?_, item', ?_, hx⟩
      · rw [List.take_append_of_le_length hlt.le]
        exact htake
      · rw [List.getElem?_append_left hlt]
        exact hitem'
    rw [entries_concat] at h
    cases item with
    | responseItem item =>
      rw [recordEntry] at h
      split at h
      · exact hkeep h
      · rcases List.prefix_concat_iff.1 h with heq | hold
        · obtain ⟨rfl, hone⟩ := List.append_inj' heq rfl
          obtain ⟨rfl, rfl⟩ := Prod.mk.inj (List.singleton_inj.1 hone)
          exact ⟨by simp, by rw [List.take_left], item, by simp, rfl⟩
        · exact hkeep hold
    | threadRolledBack numTurns => exact hkeep (h.trans (List.take_prefix _ _))
    | _ => exact hkeep h

theorem entry_lt {entry : Nat × ResponseItem} (h : entry ∈ entries lib items) :
    entry.1 < items.length := by
  obtain ⟨before, after, hsplit⟩ := List.append_of_mem h
  have hprefix : before ++ [(entry.1, entry.2)] <+: entries lib items :=
    ⟨after, by rw [hsplit, List.append_assoc]; rfl⟩
  exact (entry_spec hprefix).1

theorem entries_sorted (items : List RolloutItem) :
    (entries lib items).Pairwise fun a b => a.1 < b.1 := by
  induction items using List.reverseRecOn with
  | nil => exact List.Pairwise.nil
  | append_singleton items item ih =>
    rw [entries_concat]
    cases item with
    | responseItem item =>
      rw [recordEntry]
      split
      · exact ih
      · refine List.pairwise_append.2
          ⟨ih, List.pairwise_singleton _ _, fun entry hentry _ hnew => ?_⟩
        rw [List.mem_singleton.1 hnew]
        exact entry_lt hentry
    | threadRolledBack numTurns => exact ih.sublist (List.take_sublist _ _)
    | _ => exact ih

/-! ## Live positions -/

variable (lib) in
/-- The places of the entries of a kind. -/
def livePositions (p : ResponseItem → Bool) (items : List RolloutItem) : List Nat :=
  ((entries lib items).filter fun entry => p entry.2).map (·.1)

variable (lib) in
/-- The places of the entries of a kind that a rollback drops. -/
def droppedPositions (p : ResponseItem → Bool) (items : List RolloutItem) (numTurns : Nat) :
    List Nat :=
  (((entries lib items).drop
    (dropLastNUserTurns lib ((entries lib items).map (·.2)) numTurns).length).filter
      fun entry => p entry.2).map (·.1)

section
variable {p q : ResponseItem → Bool}

variable (lib) in
theorem livePositions_sorted (p : ResponseItem → Bool) (items : List RolloutItem) :
    (livePositions lib p items).Pairwise (· < ·) :=
  List.pairwise_map.2 ((entries_sorted items).sublist List.filter_sublist)

theorem livePositions_lt {idx : Nat} (h : idx ∈ livePositions lib p items) :
    idx < items.length := by
  obtain ⟨entry, hentry, rfl⟩ := List.mem_map.1 h
  exact entry_lt (List.mem_of_mem_filter hentry)

theorem map_filter_subset {xs : List (Nat × ResponseItem)} (hpq : ∀ item, p item → q item) :
    (xs.filter fun entry => p entry.2).map (·.1) ⊆ (xs.filter fun entry => q entry.2).map (·.1) :=
  List.map_subset _ fun entry hentry => by
    obtain ⟨hmem, hp⟩ := List.mem_filter.1 hentry
    exact List.mem_filter.2 ⟨hmem, hpq _ hp⟩

theorem length_livePositions (h : ∀ item ∈ items, isCompaction item = false) :
    (livePositions lib p items).length = (forwardHistory lib items).countP p := by
  rw [← map_entries h, List.countP_map, List.countP_eq_length_filter, livePositions,
    List.length_map]
  rfl

/-- Of the items that begin turns, each is recorded as it is. -/
theorem livePositions_responseItem (hp : ∀ item, p item → isUserTurnBoundary lib item)
    (items : List RolloutItem) (item : ResponseItem) :
    livePositions lib p (items ++ [.responseItem item]) =
      if p item then livePositions lib p items ++ [items.length]
      else livePositions lib p items := by
  rw [livePositions, entries_concat, recordEntry]
  by_cases hitem : p item
  · obtain ⟨hprocess, hapi⟩ := processItem_eq_of_boundary (hp item hitem)
    rw [hapi, if_neg (by simp), hprocess, if_pos hitem, List.filter_append, List.map_append]
    simp [livePositions, hitem]
  · rw [if_neg hitem]
    split
    · rfl
    · have hnone : ¬ p (processItem lib item) := by
        intro hprocessed
        have hboundary := hp _ hprocessed
        rw [processItem_boundary] at hboundary
        rw [(processItem_eq_of_boundary hboundary).1] at hprocessed
        exact hitem hprocessed
      rw [List.filter_append]
      simp [livePositions, hnone]

variable (lib) in
theorem livePositions_rollback (p : ResponseItem → Bool) (items : List RolloutItem) (n : Nat) :
    livePositions lib p items =
      livePositions lib p (items ++ [.threadRolledBack n]) ++ droppedPositions lib p items n := by
  rw [livePositions, livePositions, droppedPositions, entries_concat, recordEntry,
    ← List.map_append, ← List.filter_append, List.take_append_drop]

theorem length_droppedPositions (h : ∀ item ∈ items, isCompaction item = false) (n : Nat) :
    (droppedPositions lib p items n).length =
      (droppedTurns lib (forwardHistory lib items) n).countP p := by
  rw [droppedPositions, List.length_map, map_entries h, droppedTurns, ← map_entries h,
    ← List.map_drop, List.countP_map, List.countP_eq_length_filter]
  rfl

end

/-! ## The turns that a rollback drops -/

theorem turnCount_droppedTurns (history : List ResponseItem) (n : Nat) :
    turnCount lib (droppedTurns lib history n) = min n (turnCount lib history) := by
  have hkept := turnCount_keptTurns lib history n
  rw [← dropLastNUserTurns_eq_keptTurns] at hkept
  have hsplit : history = dropLastNUserTurns lib history n ++ droppedTurns lib history n := by
    conv_lhs => rw [← List.take_append_drop (dropLastNUserTurns lib history n).length history]
    rw [← List.prefix_iff_eq_take.1 (dropLastNUserTurns_isPrefix history n)]
    rfl
  have hcount : turnCount lib history = turnCount lib (dropLastNUserTurns lib history n) +
      turnCount lib (droppedTurns lib history n) := by
    conv_lhs => rw [hsplit]
    exact List.countP_append
  omega

variable (lib) in
/-- The messages of the user are the turns, but for the instructions between agents. -/
theorem turnCount_eq_add (history : List ResponseItem) :
    turnCount lib history = history.countP (isUserMessage lib) +
      history.countP fun item => isUserTurnBoundary lib item && !isUserMessage lib item := by
  induction history with
  | nil => rfl
  | cons item history ih =>
    rw [turnCount] at ih ⊢
    rw [List.countP_cons, List.countP_cons, List.countP_cons, ih]
    cases huser : isUserMessage lib item with
    | true =>
      rw [boundary_of_isUserMessage huser]
      simp
      omega
    | false =>
      cases isUserTurnBoundary lib item with
      | true =>
        simp
        omega
      | false => simp

/-! ## Lists of positions above a bound -/

theorem sublist_take_sub {α : Type} {xs ys : List α} (h : xs.Sublist ys) (n : Nat) :
    (xs.take (xs.length - n)).Sublist (ys.take (ys.length - n)) := by
  have hdrop := (h.reverse.drop n).reverse
  rwa [List.reverse_drop, List.reverse_drop, List.reverse_reverse, List.reverse_reverse,
    List.length_reverse, List.length_reverse] at hdrop

/-- What is taken off the end of sorted positions is taken off those above a bound. -/
theorem filter_take_sub {xs : List Nat} (h : xs.Pairwise (· < ·)) (u n : Nat) :
    (xs.take (xs.length - n)).filter (u ≤ ·) =
      (xs.filter (u ≤ ·)).take ((xs.filter (u ≤ ·)).length - n) := by
  induction xs using List.reverseRecOn generalizing n with
  | nil => simp
  | append_singleton xs x ih =>
    obtain ⟨hxs, -, hlt⟩ := List.pairwise_append.1 h
    cases n with
    | zero => rw [Nat.sub_zero, Nat.sub_zero, List.take_length, List.take_length]
    | succ n =>
      have htake : (xs ++ [x]).take ((xs ++ [x]).length - (n + 1)) = xs.take (xs.length - n) := by
        rw [List.length_append, List.length_singleton, Nat.add_sub_add_right,
          List.take_append_of_le_length (Nat.sub_le _ _)]
      rw [htake, ih hxs]
      by_cases hx : u ≤ x
      · have hfilter : (xs ++ [x]).filter (u ≤ ·) = xs.filter (u ≤ ·) ++ [x] := by simp [hx]
        rw [hfilter, List.length_append, List.length_singleton, Nat.add_sub_add_right,
          List.take_append_of_le_length (Nat.sub_le _ _)]
      · have hnone : xs.filter (u ≤ ·) = [] := by
          refine List.filter_eq_nil_iff.2 fun y hy => ?_
          have := hlt y hy x List.mem_cons_self
          simp
          omega
        have hfilter : (xs ++ [x]).filter (u ≤ ·) = [] := by
          rw [List.filter_append, hnone]
          simp
          omega
        rw [hnone, hfilter, List.take_nil, List.take_nil]

/-! ## The scan for messages of the user -/

theorem userMessagePositions_concat (items : List RolloutItem) (item : RolloutItem) :
    userMessagePositionsInRollout lib (items ++ [item]) =
      userMessagePosition lib (userMessagePositionsInRollout lib items) (item, items.length) :=
  foldl_zipIdx_concat _ _ _ _

theorem livePositions_userMessage (items : List RolloutItem) (item : ResponseItem) :
    livePositions lib (isUserMessage lib) (items ++ [.responseItem item]) =
      if isUserMessage lib item then
        livePositions lib (isUserMessage lib) items ++ [items.length]
      else livePositions lib (isUserMessage lib) items :=
  livePositions_responseItem (fun _ => boundary_of_isUserMessage) items item

/-- Messages among the dropped turns are at most as many as the turns. -/
theorem length_droppedPositions_le (h : ∀ item ∈ items, isCompaction item = false) (n : Nat) :
    (droppedPositions lib (isUserMessage lib) items n).length ≤ n := by
  have hcount := turnCount_eq_add lib (droppedTurns lib (forwardHistory lib items) n)
  rw [turnCount_droppedTurns] at hcount
  rw [length_droppedPositions h]
  omega

theorem livePositions_take (items : List RolloutItem) (n : Nat) {p : ResponseItem → Bool} :
    livePositions lib p (items ++ [.threadRolledBack n]) =
      (livePositions lib p items).take ((livePositions lib p items).length -
        (droppedPositions lib p items n).length) := by
  rw [livePositions_rollback lib p items n, List.length_append, Nat.add_sub_cancel, List.take_left]

variable (lib) in
/-- The scan finds live messages only. -/
theorem userMessagePositions_sublist (h : ∀ item ∈ items, isCompaction item = false) :
    (userMessagePositionsInRollout lib items).Sublist
      (livePositions lib (isUserMessage lib) items) := by
  induction items using List.reverseRecOn with
  | nil => exact List.Sublist.refl _
  | append_singleton items item ih =>
    have hbefore : ∀ item ∈ items, isCompaction item = false := fun item hitem =>
      h item (List.mem_append_left _ hitem)
    have hsublist := ih hbefore
    rw [userMessagePositions_concat]
    cases item with
    | responseItem item =>
      rw [livePositions_userMessage, userMessagePosition, isRealUserMessageBoundary]
      split
      · exact hsublist.append_right _
      · exact hsublist
    | threadRolledBack numTurns =>
      rw [livePositions_take]
      refine (sublist_take_sub hsublist numTurns).trans (List.IsPrefix.sublist ?_)
      exact List.take_prefix_take_left
        (Nat.sub_le_sub_left (length_droppedPositions_le hbefore numTurns) _)
    | _ =>
      rw [livePositions, entries_concat]
      exact hsublist

/-- A rollback that leaves a message of the user drops as many turns as it says. -/
theorem turnCount_droppedTurns_of_live (h : ∀ item ∈ items, isCompaction item = false) {u n : Nat}
    (hlive : u ∈ livePositions lib (isUserMessage lib) (items ++ [.threadRolledBack n])) :
    turnCount lib (droppedTurns lib (forwardHistory lib items) n) = n := by
  have hafter : ∀ item ∈ items ++ [.threadRolledBack n], isCompaction item = false := by
    intro item hitem
    rcases List.mem_append.1 hitem with hold | hnew
    · exact h item hold
    · rw [List.mem_singleton.1 hnew]
      rfl
  have hpos := List.length_pos_of_mem hlive
  rw [length_livePositions hafter, forwardHistory_concat, replayItem] at hpos
  have hturns := turnCount_eq_add lib (dropLastNUserTurns lib (forwardHistory lib items) n)
  rw [dropLastNUserTurns_eq_keptTurns, turnCount_keptTurns, ← dropLastNUserTurns_eq_keptTurns]
    at hturns
  rw [turnCount_droppedTurns]
  omega

theorem length_droppedPositions_eq (h : ∀ item ∈ items, isCompaction item = false) {u : Nat}
    (hlive : u ∈ livePositions lib (isUserMessage lib) (items ++ [.threadRolledBack n]))
    (hdrops : DropsMessages lib items n) :
    (droppedPositions lib (isUserMessage lib) items n).length = n := by
  have hturns := turnCount_droppedTurns_of_live h hlive
  have hnone : ((droppedTurns lib (forwardHistory lib items) n).countP fun item =>
      isUserTurnBoundary lib item && !isUserMessage lib item) = 0 := by
    refine List.countP_eq_zero.2 fun item hitem => ?_
    have hmessage := hdrops item hitem
    cases hboundary : isUserTurnBoundary lib item with
    | false => simp
    | true => simp [hmessage hboundary]
  rw [turnCount_eq_add, hnone, Nat.add_zero] at hturns
  rw [length_droppedPositions h, hturns]

theorem length_droppedPositions_lt (h : ∀ item ∈ items, isCompaction item = false) {u : Nat}
    (hlive : u ∈ livePositions lib (isUserMessage lib) (items ++ [.threadRolledBack n]))
    (hdrops : ¬ DropsMessages lib items n) :
    (droppedPositions lib (isUserMessage lib) items n).length < n := by
  have hturns := turnCount_droppedTurns_of_live h hlive
  have hpos : 0 < (droppedTurns lib (forwardHistory lib items) n).countP fun item =>
      isUserTurnBoundary lib item && !isUserMessage lib item := by
    simp only [DropsMessages, not_forall] at hdrops
    obtain ⟨item, hitem, hboundary, hmessage⟩ := hdrops
    exact List.countP_pos_iff.2 ⟨item, hitem, by simp [hboundary, hmessage]⟩
  rw [turnCount_eq_add] at hturns
  rw [length_droppedPositions h]
  omega

theorem mem_livePositions_of_concat {p : ResponseItem → Bool} {item : RolloutItem} {u : Nat}
    (hu : u < items.length) (h : u ∈ livePositions lib p (items ++ [item])) :
    u ∈ livePositions lib p items := by
  obtain ⟨entry, hentry, rfl⟩ := List.mem_map.1 h
  obtain ⟨hmem, hp⟩ := List.mem_filter.1 hentry
  refine List.mem_map.2 ⟨entry, List.mem_filter.2 ⟨?_, hp⟩, rfl⟩
  rw [entries_concat] at hmem
  cases item with
  | responseItem item =>
    rw [recordEntry] at hmem
    split at hmem
    · exact hmem
    · rcases List.mem_append.1 hmem with hold | hnew
      · exact hold
      · rw [List.mem_singleton.1 hnew] at hu
        exact absurd hu (Nat.lt_irrefl _)
  | threadRolledBack numTurns => exact List.mem_of_mem_take hmem
  | _ => exact hmem

/-- From a message that stays on, the scan keeps what stays, as long as rollbacks drop messages. -/
theorem filter_userMessagePositions (h : ∀ item ∈ items, isCompaction item = false) {u : Nat}
    (hlive : u ∈ livePositions lib (isUserMessage lib) items)
    (hdrops : ∀ before n after, items = before ++ .threadRolledBack n :: after →
      u < before.length → DropsMessages lib before n) :
    (userMessagePositionsInRollout lib items).filter (u ≤ ·) =
      (livePositions lib (isUserMessage lib) items).filter (u ≤ ·) := by
  induction items using List.reverseRecOn with
  | nil => cases hlive
  | append_singleton items item ih =>
    have hbefore : ∀ item ∈ items, isCompaction item = false := fun item hitem =>
      h item (List.mem_append_left _ hitem)
    have hdrops' : ∀ before n after, items = before ++ .threadRolledBack n :: after →
        u < before.length → DropsMessages lib before n := by
      rintro before n after rfl
      exact hdrops before n (after ++ [item]) (by simp)
    have hsublist := userMessagePositions_sublist lib hbefore
    have hlt := livePositions_lt hlive
    rw [List.length_append, List.length_singleton] at hlt
    rcases Nat.lt_or_eq_of_le (Nat.le_of_lt_succ hlt) with hold | rfl
    · have heq := ih hbefore (mem_livePositions_of_concat hold hlive) hdrops'
      rw [userMessagePositions_concat]
      cases item with
      | responseItem item =>
        rw [livePositions_userMessage, userMessagePosition, isRealUserMessageBoundary]
        split
        · rw [List.filter_append, List.filter_append, heq]
        · exact heq
      | threadRolledBack numTurns =>
        have hmessages := hdrops items numTurns [] rfl hold
        rw [livePositions_take, length_droppedPositions_eq hbefore hlive hmessages,
          userMessagePosition, filter_take_sub (livePositions_sorted lib _ items), ← heq]
        exact filter_take_sub ((livePositions_sorted lib _ items).sublist hsublist) u numTurns
      | _ =>
        rw [livePositions, entries_concat]
        exact heq
    · -- The message is the last item.
      have hnone : ∀ xs : List Nat, xs.Sublist (livePositions lib (isUserMessage lib) items) →
          xs.filter (items.length ≤ ·) = [] := by
        intro xs hxs
        refine List.filter_eq_nil_iff.2 fun idx hidx => ?_
        have := livePositions_lt (hxs.subset hidx)
        simp
        omega
      rw [userMessagePositions_concat]
      cases item with
      | responseItem item =>
        rw [livePositions_userMessage, userMessagePosition, isRealUserMessageBoundary]
        split
        · rw [List.filter_append, List.filter_append, hnone _ hsublist,
            hnone _ (List.Sublist.refl _)]
        · rw [hnone _ hsublist, hnone _ (List.Sublist.refl _)]
      | threadRolledBack numTurns =>
        rw [livePositions_take] at hlive
        exact absurd (livePositions_lt (List.mem_of_mem_take hlive)) (Nat.lt_irrefl _)
      | _ =>
        rw [livePositions, entries_concat] at hlive
        exact absurd (livePositions_lt hlive) (Nat.lt_irrefl _)

/-- A rollback keeps the distance to what is live above a message, and an instruction that it drops
makes one. -/
theorem length_filter_rollback (h : ∀ item ∈ items, isCompaction item = false) {u : Nat}
    (hlive : u ∈ livePositions lib (isUserMessage lib) (items ++ [.threadRolledBack n]))
    (hless : ((userMessagePositionsInRollout lib items).filter (u ≤ ·)).length <
        ((livePositions lib (isUserMessage lib) items).filter (u ≤ ·)).length ∨
      ¬ DropsMessages lib items n) :
    ((userMessagePositionsInRollout lib (items ++ [.threadRolledBack n])).filter (u ≤ ·)).length <
      ((livePositions lib (isUserMessage lib)
        (items ++ [.threadRolledBack n])).filter (u ≤ ·)).length := by
  have hsublist := userMessagePositions_sublist lib h
  have hle := (hsublist.filter (u ≤ ·)).length_le
  have hpos : 0 < ((livePositions lib (isUserMessage lib)
      (items ++ [.threadRolledBack n])).filter (u ≤ ·)).length :=
    List.length_pos_of_mem (List.mem_filter.2 ⟨hlive, decide_eq_true (le_refl u)⟩)
  have hdropped : (droppedPositions lib (isUserMessage lib) items n).length ≤ n ∧
      (DropsMessages lib items n ∨
        (droppedPositions lib (isUserMessage lib) items n).length < n) := by
    refine ⟨length_droppedPositions_le h n, ?_⟩
    by_cases hdrops : DropsMessages lib items n
    · exact Or.inl hdrops
    · exact Or.inr (length_droppedPositions_lt h hlive hdrops)
  rw [userMessagePositions_concat, userMessagePosition,
    filter_take_sub ((livePositions_sorted lib _ items).sublist hsublist)]
  rw [livePositions_take, filter_take_sub (livePositions_sorted lib _ items)] at hpos ⊢
  rw [List.length_take] at hpos
  rw [List.length_take, List.length_take]
  rcases hdropped with ⟨hdropped, hdrops | hfewer⟩
  · have hless := hless.resolve_right (not_not_intro hdrops)
    omega
  · omega

/-- Once a rollback dropped an instruction, the scan misses a message above each that stays on. -/
theorem length_filter_of_instruction {before after : List RolloutItem} {u : Nat}
    (h : ∀ item ∈ before ++ .threadRolledBack n :: after, isCompaction item = false)
    (hdrops : ¬ DropsMessages lib before n) (hu : u < before.length)
    (hlive : u ∈ livePositions lib (isUserMessage lib) (before ++ .threadRolledBack n :: after)) :
    ((userMessagePositionsInRollout lib
      (before ++ .threadRolledBack n :: after)).filter (u ≤ ·)).length <
        ((livePositions lib (isUserMessage lib)
          (before ++ .threadRolledBack n :: after)).filter (u ≤ ·)).length := by
  induction after using List.reverseRecOn with
  | nil =>
    exact length_filter_rollback (fun item hitem => h item (List.mem_append_left _ hitem)) hlive
      (Or.inr hdrops)
  | append_singleton after item ih =>
    rw [← List.cons_append, ← List.append_assoc] at h hlive ⊢
    have hbefore : ∀ item ∈ before ++ .threadRolledBack n :: after, isCompaction item = false :=
      fun item hitem => h item (List.mem_append_left _ hitem)
    have hlive' := mem_livePositions_of_concat (by simp; omega) hlive
    have hless := ih hbefore hlive'
    cases item with
    | responseItem item =>
      rw [userMessagePositions_concat, livePositions_userMessage, userMessagePosition,
        isRealUserMessageBoundary]
      split
      · simp only [List.filter_append, List.length_append]
        omega
      · exact hless
    | threadRolledBack numTurns => exact length_filter_rollback hbefore hlive (Or.inl hless)
    | _ =>
      rw [userMessagePositions_concat, livePositions, entries_concat]
      exact hless

/-- The scan finds all live messages exactly when instructions stay. -/
theorem userMessagePositions_eq_iff (h : ∀ item ∈ items, isCompaction item = false) :
    userMessagePositionsInRollout lib items = livePositions lib (isUserMessage lib) items ↔
      InstructionsStay lib items := by
  have hsublist := userMessagePositions_sublist lib h
  constructor
  · rintro heq before n after rfl hdrops entry hentry hmessage
    by_contra hlt
    have hlive : entry.1 ∈ livePositions lib (isUserMessage lib)
        (before ++ .threadRolledBack n :: after) :=
      List.mem_map_of_mem (List.mem_filter.2 ⟨hentry, hmessage⟩)
    have hless := length_filter_of_instruction h hdrops (Nat.lt_of_not_le hlt) hlive
    rw [heq] at hless
    exact Nat.lt_irrefl _ hless
  · intro hstay
    refine hsublist.eq_of_length_le (List.Subperm.length_le ?_)
    have hnodup := (livePositions_sorted lib (isUserMessage lib) items).imp Nat.ne_of_lt
    refine List.subperm_of_subset hnodup fun u hlive => ?_
    have heq := filter_userMessagePositions h hlive (by
      intro before n after hsplit hu
      by_contra hdrops
      obtain ⟨entry, hentry, rfl⟩ := List.mem_map.1 hlive
      obtain ⟨hmem, hmessage⟩ := List.mem_filter.1 hentry
      exact absurd hu (Nat.not_lt.2 (hstay before n after hsplit hdrops entry hmem hmessage)))
    have hmem : u ∈ (livePositions lib (isUserMessage lib) items).filter (u ≤ ·) :=
      List.mem_filter.2 ⟨hlive, decide_eq_true (le_refl u)⟩
    rw [← heq] at hmem
    exact List.mem_of_mem_filter hmem

/-- An entry of a kind splits the entries, and the rollout at its place. -/
theorem exists_split_of_livePositions {p : ResponseItem → Bool}
    (h : ∀ item ∈ items, isCompaction item = false) {idx : Nat}
    (hidx : (livePositions lib p items)[n]? = some idx) :
    ∃ item, p (processItem lib item) ∧ items[idx]? = some (.responseItem item) ∧
      forwardHistory lib (items.take idx) ++ [processItem lib item] <+: forwardHistory lib items ∧
      (forwardHistory lib (items.take idx)).countP p = n ∧
      entries lib (items.take idx) ++ [(idx, processItem lib item)] <+: entries lib items := by
  rw [livePositions, List.getElem?_map, Option.map_eq_some_iff] at hidx
  obtain ⟨⟨idx, x⟩, hentry, rfl⟩ := hidx
  obtain ⟨before, after, hsplit, hp, hcount⟩ := exists_split_of_filter hentry
  have hprefix : before ++ [(idx, x)] <+: entries lib items :=
    ⟨after, by rw [hsplit, List.append_assoc]; rfl⟩
  obtain ⟨-, hbefore, item, hitem, rfl⟩ := entry_spec hprefix
  have htake : (entries lib (items.take idx)).map (·.2) = forwardHistory lib (items.take idx) :=
    map_entries fun item hitem => h item (List.mem_of_mem_take hitem)
  refine ⟨item, hp, hitem, ?_, ?_, ?_⟩
  · rw [← map_entries h, ← htake, hbefore]
    have hmap := hprefix.map (·.2)
    rwa [List.map_append] at hmap
  · rw [← htake, hbefore, List.countP_map]
    exact hcount
  · rw [hbefore]
    exact hprefix

/-- Where the scan finds all live messages, a cut before one of them leaves the history before it,
and elsewhere a cut fails. -/
theorem agreesBefore_iff (h : ∀ item ∈ items, isCompaction item = false)
    (hlength : items.length ≤ maxPending) :
    (∀ n, AgreesBefore lib items n) ↔ InstructionsStay lib items := by
  rw [← userMessagePositions_eq_iff h]
  have hsublist := userMessagePositions_sublist lib h
  have hcount : (livePositions lib (isUserMessage lib) items).length =
      (forwardHistory lib items).countP (isUserMessage lib) := length_livePositions h
  have hbound : (livePositions lib (isUserMessage lib) items).length ≤ items.length := by
    have hnodup := (livePositions_sorted lib (isUserMessage lib) items).imp Nat.ne_of_lt
    have hsubset : livePositions lib (isUserMessage lib) items ⊆ List.range items.length :=
      fun idx hidx => List.mem_range.2 (livePositions_lt hidx)
    have hle := (List.subperm_of_subset hnodup hsubset).length_le
    rwa [List.length_range] at hle
  constructor
  · intro hagrees
    by_contra hne
    have hlt : (userMessagePositionsInRollout lib items).length <
        (livePositions lib (isUserMessage lib) items).length :=
      Nat.lt_of_le_of_ne hsublist.length_le fun heq => hne (hsublist.eq_of_length heq)
    have htotal := (hagrees (userMessagePositionsInRollout lib items).length).2
    rw [truncateRolloutBeforeNthUserMessageFromStart, if_neg (by omega), if_pos (le_refl _),
      ← hcount] at htotal
    omega
  · intro heq n
    rw [AgreesBefore, truncateRolloutBeforeNthUserMessageFromStart, ← hcount, heq]
    by_cases hmax : n = maxPending
    · rw [if_pos hmax]
      exact ⟨List.prefix_refl _, by omega⟩
    rw [if_neg hmax]
    dsimp only
    by_cases hall : (livePositions lib (isUserMessage lib) items).length ≤ n
    · rw [if_pos hall]
      exact ⟨List.prefix_refl _, by omega⟩
    · rw [if_neg hall, List.getD_eq_getElem?_getD, List.getElem?_eq_getElem (by omega),
        Option.getD_some]
      obtain ⟨item, -, -, hprefix, htake, -⟩ := exists_split_of_livePositions h
        (List.getElem?_eq_getElem (Nat.lt_of_not_le hall))
      exact ⟨(List.prefix_append _ _).trans hprefix, by omega⟩

/-! ## The scan for fork turns -/

section
variable {triggerTurn : List Char → Bool}

theorem boundary_of_isForkTurn {item : ResponseItem} (h : isForkTurn lib triggerTurn item) :
    isUserTurnBoundary lib item := by
  rcases Bool.or_eq_true_iff.1 h with huser | htrigger
  · exact boundary_of_isUserMessage huser
  · cases item with
    | message role content =>
      obtain ⟨hrole, hcontent⟩ := Bool.and_eq_true_iff.1 htrigger
      refine Bool.or_eq_true_iff.2 (Or.inr (Bool.and_eq_true_iff.2 ⟨hrole, ?_⟩))
      split at hcontent
      · exact (Bool.and_eq_true_iff.1 hcontent).1
      · exact (Bool.and_eq_true_iff.1 hcontent).1
      · cases hcontent
    | _ => cases htrigger

/-- The positions that rollbacks count are those of the live turns, and the fork turns are those of
the live ones. -/
theorem forkTurnPositions_eq (h : ∀ item ∈ items, isCompaction item = false) :
    items.zipIdx.foldl (forkTurnPosition lib triggerTurn) ([], []) =
      (livePositions lib (isUserTurnBoundary lib) items,
        livePositions lib (isForkTurn lib triggerTurn) items) := by
  induction items using List.reverseRecOn with
  | nil => rfl
  | append_singleton items item ih =>
    have hbefore : ∀ item ∈ items, isCompaction item = false := fun item hitem =>
      h item (List.mem_append_left _ hitem)
    rw [foldl_zipIdx_concat, ih hbefore]
    cases item with
    | responseItem item =>
      rw [livePositions_responseItem (fun _ hboundary => hboundary),
        livePositions_responseItem (fun _ => boundary_of_isForkTurn)]
      rfl
    | threadRolledBack numTurns =>
      have hturns := livePositions_rollback lib (isUserTurnBoundary lib) items numTurns
      have hforks := livePositions_rollback lib (isForkTurn lib triggerTurn) items numTurns
      have hdropped : (droppedPositions lib (isUserTurnBoundary lib) items numTurns).length =
          min numTurns (livePositions lib (isUserTurnBoundary lib) items).length := by
        rw [length_droppedPositions hbefore, length_livePositions hbefore]
        exact turnCount_droppedTurns _ _
      have hkept : livePositions lib (isForkTurn lib triggerTurn)
            (items ++ [.threadRolledBack numTurns]) ⊆
          livePositions lib (isUserTurnBoundary lib) (items ++ [.threadRolledBack numTurns]) :=
        map_filter_subset fun _ => boundary_of_isForkTurn
      have hgone : droppedPositions lib (isForkTurn lib triggerTurn) items numTurns ⊆
          droppedPositions lib (isUserTurnBoundary lib) items numTurns :=
        map_filter_subset fun _ => boundary_of_isForkTurn
      cases hstart : droppedPositions lib (isUserTurnBoundary lib) items numTurns with
      | nil =>
        -- Nothing is dropped, so there are no turns, or none are to be dropped.
        rw [hstart, List.append_nil] at hturns
        rw [hstart, List.subset_nil] at hgone
        rw [hgone, List.append_nil] at hforks
        rw [hstart, List.length_nil] at hdropped
        rw [← hturns, ← hforks, forkTurnPosition]
        split
        · rfl
        · rename_i hpos
          have hnone : livePositions lib (isUserTurnBoundary lib) items = [] :=
            List.length_eq_zero_iff.1 (by omega)
          simp [hnone, hpos]
      | cons start rest =>
        have hsorted := livePositions_sorted lib (isUserTurnBoundary lib) items
        rw [hstart] at hturns hgone hdropped
        rw [List.length_cons] at hdropped
        have hlength := congrArg List.length hturns
        rw [List.length_append, List.length_cons] at hlength
        have hleft : (livePositions lib (isUserTurnBoundary lib) items).length - numTurns =
            (livePositions lib (isUserTurnBoundary lib)
              (items ++ [.threadRolledBack numTurns])).length := by omega
        have hindex : (livePositions lib (isUserTurnBoundary lib) items)[
            (livePositions lib (isUserTurnBoundary lib) items).length - numTurns]? =
              some start := by
          rw [hleft, hturns, List.getElem?_append_right (le_refl _), Nat.sub_self]
          rfl
        have hrollback : (if numTurns ≤
              (livePositions lib (isUserTurnBoundary lib) items).length then
            (livePositions lib (isUserTurnBoundary lib) items)[
              (livePositions lib (isUserTurnBoundary lib) items).length - numTurns]?
            else (livePositions lib (isUserTurnBoundary lib) items).head?) = some start := by
          split
          · exact hindex
          · rename_i hmany
            rw [Nat.sub_eq_zero_of_le (by omega)] at hindex
            rw [List.head?_eq_getElem?]
            exact hindex
        rw [forkTurnPosition, if_neg (by omega)]
        dsimp only
        rw [hrollback]
        rw [hturns, List.pairwise_append] at hsorted
        refine Prod.ext ?_ ?_
        · show (livePositions lib (isUserTurnBoundary lib) items).take _ = _
          rw [hleft, hturns, List.take_left]
        · show (livePositions lib (isForkTurn lib triggerTurn) items).filter _ = _
          rw [hforks, List.filter_append, List.filter_eq_self.2, List.filter_eq_nil_iff.2,
            List.append_nil]
          · intro idx hidx
            have hle : start ≤ idx := by
              rcases List.mem_cons.1 (hgone hidx) with rfl | hrest
              · exact le_refl _
              · exact ((List.pairwise_cons.1 hsorted.2.1).1 idx hrest).le
            simpa using hle
          · intro idx hidx
            exact decide_eq_true (hsorted.2.2 idx (hkept hidx) start List.mem_cons_self)
    | _ =>
      simp only [livePositions, entries_concat]
      rfl

/-- A rollback of fewer turns than a list has that begins with one leaves what is before it. -/
theorem dropLastNUserTurns_append {item : ResponseItem} (hboundary : isUserTurnBoundary lib item)
    (history newer : List ResponseItem) (hn : n < turnCount lib (item :: newer)) :
    dropLastNUserTurns lib (history ++ item :: newer) n =
      history ++ dropLastNUserTurns lib (item :: newer) n := by
  rw [dropLastNUserTurns_eq_keptTurns, dropLastNUserTurns_eq_keptTurns]
  rcases Nat.eq_zero_or_pos n with rfl | hpos
  · rfl
  have hcount : turnCount lib (history ++ item :: newer) =
      turnCount lib history + turnCount lib (item :: newer) := List.countP_append
  rw [keptTurns_of_lt hpos (by omega), keptTurns_of_lt hpos hn, hcount, Nat.add_sub_assoc hn.le]
  have hbefore : beforeTurn lib (turnCount lib history + (turnCount lib (item :: newer) - n))
      (history ++ item :: newer) =
        history ++ beforeTurn lib (turnCount lib (item :: newer) - n) (item :: newer) :=
    beforeNth_append_right
  obtain ⟨kept, hkept⟩ : ∃ kept, beforeTurn lib (turnCount lib (item :: newer) - n)
      (item :: newer) = item :: kept := by
    obtain ⟨m, hm⟩ : ∃ m, turnCount lib (item :: newer) - n = m + 1 :=
      ⟨turnCount lib (item :: newer) - n - 1, by omega⟩
    exact ⟨_, by rw [hm, beforeTurn, beforeNth]⟩
  have hupdate : isPreTurnContextUpdate lib item = false := by
    rw [← Bool.not_eq_true]
    intro hupdate
    rw [not_boundary_of_isPreTurnContextUpdate hupdate] at hboundary
    cases hboundary
  -- The walk back over updates stops at the turn.
  have hstop : (item :: kept).rdropWhile (isPreTurnContextUpdate lib) ≠ [] := by
    rw [Ne, List.rdropWhile_eq_nil_iff]
    intro hall
    rw [hall item List.mem_cons_self] at hupdate
    cases hupdate
  rw [keptBeforeTurn, keptBeforeTurn, hbefore, hkept, List.rdropWhile, List.reverse_append,
    List.dropWhile_append, if_neg, List.reverse_append, List.reverse_reverse]
  · rfl
  · rw [List.isEmpty_iff]
    intro hnil
    exact hstop (by rw [List.rdropWhile, hnil]; rfl)

/-- From a turn that stays on, the rollout is replayed by itself. -/
theorem forwardHistory_of_live {before after : List RolloutItem} {item : ResponseItem}
    (h : ∀ item' ∈ before ++ RolloutItem.responseItem item :: after, isCompaction item' = false)
    (hboundary : isUserTurnBoundary lib item)
    (hlive : entries lib before ++ [(before.length, item)] <+:
      entries lib (before ++ .responseItem item :: after)) :
    forwardHistory lib (before ++ .responseItem item :: after) =
      forwardHistory lib before ++ forwardHistory lib (.responseItem item :: after) := by
  have hbefore : ∀ item ∈ before, isCompaction item = false := fun item hitem =>
    h item (List.mem_append_left _ hitem)
  induction after using List.reverseRecOn with
  | nil =>
    obtain ⟨hprocess, hapi⟩ := processItem_eq_of_boundary hboundary
    have hrecord : ∀ history, recordItem lib history item = history ++ [item] := by
      intro history
      rw [recordItem, hapi, if_neg (by simp), hprocess]
    rw [forwardHistory_concat, replayItem, hrecord]
    exact congrArg _ (hrecord []).symm
  | append_singleton after new ih =>
    rw [← List.cons_append, ← List.append_assoc] at h hlive
    rw [← List.cons_append, ← List.append_assoc, forwardHistory_concat, forwardHistory_concat]
    have hshorter : ∀ item' ∈ before ++ RolloutItem.responseItem item :: after,
        isCompaction item' = false :=
      fun item' hitem => h item' (List.mem_append_left _ hitem)
    have hlive' : entries lib before ++ [(before.length, item)] <+:
        entries lib (before ++ .responseItem item :: after) := by
      rw [entries_concat] at hlive
      cases new with
      | responseItem new =>
        rw [recordEntry] at hlive
        split at hlive
        · exact hlive
        · rcases List.prefix_concat_iff.1 hlive with heq | hold
          · have hone := (List.append_inj' heq rfl).2
            have hplace := congrArg Prod.fst (List.singleton_inj.1 hone)
            simp at hplace
          · exact hold
      | threadRolledBack numTurns => exact hlive.trans (List.take_prefix _ _)
      | _ => exact hlive
    have heq := ih hshorter hlive'
    rw [heq]
    cases new with
    | responseItem new =>
      rw [replayItem, replayItem, recordItem, recordItem]
      split
      · rfl
      · rw [List.append_assoc]
    | threadRolledBack numTurns =>
      -- The turn is live after the rollback, so fewer turns are dropped than follow from it on.
      have hkept := hlive.map (·.2)
      rw [map_entries h, List.map_append, map_entries hbefore, forwardHistory_concat, replayItem,
        dropLastNUserTurns_eq_keptTurns] at hkept
      have hturns : turnCount lib (forwardHistory lib before ++ [item]) ≤ turnCount lib
          (keptTurns lib (forwardHistory lib (before ++ .responseItem item :: after)) numTurns) :=
        hkept.countP_le
      rw [turnCount_keptTurns, heq] at hturns
      have hbegins := hlive'.map (·.2)
      rw [map_entries hshorter, List.map_append, map_entries hbefore, heq,
        List.prefix_append_right_inj] at hbegins
      obtain ⟨newer, hnewer⟩ := hbegins
      have hcount : ∀ items, turnCount lib (forwardHistory lib before ++ items) =
          turnCount lib (forwardHistory lib before) + turnCount lib items := fun _ =>
        List.countP_append
      have hone : turnCount lib [item] = 1 := by simp [turnCount, hboundary]
      rw [hcount, hcount, hone] at hturns
      rw [← hnewer] at hturns ⊢
      exact dropLastNUserTurns_append hboundary _ _ (by
        show numTurns < turnCount lib ([item] ++ newer)
        simp only [List.map_cons, List.map_nil] at hturns
        omega)
    | compacted message replacementHistory =>
      cases h _ (List.mem_append_right _ List.mem_cons_self)
    | _ => rfl

theorem agreesAfter (h : ∀ item ∈ items, isCompaction item = false) (hn : 0 < n) :
    AgreesAfter lib triggerTurn items n := by
  have hforks : forkTurnPositionsInRollout lib triggerTurn items =
      livePositions lib (isForkTurn lib triggerTurn) items := by
    rw [forkTurnPositionsInRollout, forkTurnPositions_eq h]
  have hcount : (livePositions lib (isForkTurn lib triggerTurn) items).length =
      (forwardHistory lib items).countP (isForkTurn lib triggerTurn) := length_livePositions h
  rw [AgreesAfter, truncateRolloutToLastNForkTurns, if_neg (by omega), hforks, ← hcount]
  dsimp only
  by_cases hall : (livePositions lib (isForkTurn lib triggerTurn) items).length ≤ n
  · rw [if_pos hall]
    exact ⟨List.suffix_refl _, by omega⟩
  · have hlt : (livePositions lib (isForkTurn lib triggerTurn) items).length - n <
        (livePositions lib (isForkTurn lib triggerTurn) items).length := by omega
    obtain ⟨idx, hkept⟩ : ∃ idx, (livePositions lib (isForkTurn lib triggerTurn) items)[
        (livePositions lib (isForkTurn lib triggerTurn) items).length - n]? = some idx :=
      ⟨_, List.getElem?_eq_getElem hlt⟩
    rw [if_neg hall, List.getD_eq_getElem?_getD, hkept, Option.getD_some]
    obtain ⟨item, hfork, hitem, -, hbefore, hlive⟩ := exists_split_of_livePositions h hkept
    have hboundary : isUserTurnBoundary lib item := by
      rw [← processItem_boundary]
      exact boundary_of_isForkTurn hfork
    obtain ⟨hidx, hget⟩ := List.getElem?_eq_some_iff.1 hitem
    have hsplit : items = items.take idx ++ .responseItem item :: items.drop (idx + 1) := by
      rw [← hget, List.getElem_cons_drop, List.take_append_drop]
    have hdrop : items.drop idx = .responseItem item :: items.drop (idx + 1) := by
      rw [← hget, List.getElem_cons_drop]
    have htake : (items.take idx).length = idx := by
      rw [List.length_take]
      omega
    have hhistory : forwardHistory lib items =
        forwardHistory lib (items.take idx) ++ forwardHistory lib (items.drop idx) := by
      rw [hdrop]
      conv_lhs => rw [hsplit]
      refine forwardHistory_of_live (hsplit ▸ h) hboundary ?_
      rw [htake, ← hsplit]
      rwa [(processItem_eq_of_boundary hboundary).1] at hlive
    refine ⟨⟨_, hhistory.symm⟩, ?_⟩
    rw [hhistory, List.countP_append] at hcount
    omega

/-- **Truncating a rollout.** In a rollout without compactions, each truncation is replayed to the
piece of the history that it stands for, exactly when no rollback that drops an instruction between
agents leaves a message of the user from before it. -/
theorem truncations_agree (triggerTurn : List Char → Bool)
    (h : ∀ item ∈ items, isCompaction item = false) (hlength : items.length ≤ maxPending) :
    ((∀ n, AgreesBefore lib items n) ∧ ∀ n, 0 < n → AgreesAfter lib triggerTurn items n) ↔
      InstructionsStay lib items := by
  rw [← agreesBefore_iff h hlength]
  exact and_iff_left fun n hn => agreesAfter h hn

end

end

/-! ## An instruction that is rolled back -/

def envelope : List Char :=
  ("\x7b\"author\":\"/root\",\"recipient\":\"/root/worker\",\"content\":\"go\"," ++
    "\"trigger_turn\":true\x7d").toList

/-- The envelope is JSON of a communication, and no other text is. -/
def envelopeLibraries : Libraries :=
  { plainLibraries with isInterAgentCommunication := fun text => text = envelope }

def userText (text : String) : RolloutItem :=
  .responseItem (.message "user" [.inputText text.toList])

def instruction : RolloutItem := .responseItem (.message "assistant" [.outputText envelope])

theorem truncations_agree_rolledBack :
    let items := [userText "a", userText "b", .threadRolledBack 1]
    (∀ n, AgreesBefore envelopeLibraries items n) ∧
      ∀ n, 0 < n → AgreesAfter envelopeLibraries (fun _ => true) items n := by
  refine (truncations_agree _ (by decide) (by decide)).2 ?_
  intro before n after hsplit hdrops
  rcases before with _ | ⟨_, _ | ⟨_, _ | ⟨_, before⟩⟩⟩ <;>
    simp only [List.nil_append, List.cons_append, List.cons.injEq, userText, reduceCtorEq,
      false_and, and_false, List.nil_eq, List.append_eq_nil_iff] at hsplit
  obtain ⟨rfl, rfl, hn, -⟩ := hsplit
  cases hn
  exact absurd (by unfold DropsMessages; decide) hdrops

/-- The rollback of an instruction takes the message before it from the positions, and a rollout
cut before that message keeps it. -/
theorem truncation_keeps_message :
    let items := [userText "a", instruction, .threadRolledBack 1]
    (∀ item ∈ items, isCompaction item = false) ∧ ¬ AgreesBefore envelopeLibraries items 0 := by
  refine ⟨by decide, fun h => ?_⟩
  have hcount := h.2
  revert hcount
  decide

end Mcodex.Rollout
