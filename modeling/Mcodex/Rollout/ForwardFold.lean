import Mcodex.Rollout.Reconstruction

/-!
# Reconstruction against a forward fold

A forward fold over the whole rollout says what the history is. The reconstruction reads back for a
base and replays only what comes after it. A replacement history that it meets on the way cuts the
replay there at once, before the rollbacks decide whether its segment stays, so that a dropped
segment can leave the rest of the rollout without a base (`CheckpointKept`).
-/

namespace Mcodex.Rollout

variable {lib : Libraries} {scan : Scan} {item : RolloutItem} {newer older : List RolloutItem}

/-- The history, as a fold over the rollout from its oldest item on gives it. -/
def forwardHistory (lib : Libraries) (rolloutItems : List RolloutItem) : List ResponseItem :=
  replay lib [] rolloutItems

def hasReplacementHistory : RolloutItem → Bool
  | .compacted _ (some _) => true
  | _ => false

/-! ## Where a segment starts -/

structure OpenSegment where
  turnId : Option String
  countsAsUserTurn : Bool
  deriving DecidableEq, Repr

/-- Of what is read back: the segment that is open and the rollbacks that still wait for turns to
drop. -/
structure Cursor where
  pendingRollbackTurns : Nat
  segment : Option OpenSegment
  deriving DecidableEq, Repr

namespace Cursor

def onSegment (cursor : Cursor) (f : OpenSegment → OpenSegment) : Cursor :=
  { cursor with segment := some (f (cursor.segment.getD ⟨none, false⟩)) }

/-- The segment ends at the start of its turn. -/
def close (cursor : Cursor) (segment : OpenSegment) : Cursor :=
  ⟨if segment.countsAsUserTurn then cursor.pendingRollbackTurns - 1
    else cursor.pendingRollbackTurns, none⟩

/-- One step back over an item. -/
def step (lib : Libraries) (cursor : Cursor) : RolloutItem → Cursor
  | .compacted _ _ => cursor.onSegment id
  | .threadRolledBack numTurns => { cursor with
      pendingRollbackTurns := min (cursor.pendingRollbackTurns + numTurns) maxPending }
  | .turnComplete turnId =>
    cursor.onSegment fun segment => { segment with turnId := segment.turnId <|> some turnId }
  | .turnAborted turnId =>
    if cursor.segment.isNone ∧ turnId.isNone then cursor
    else cursor.onSegment fun segment => { segment with turnId := segment.turnId <|> turnId }
  | .userMessage _ => cursor.onSegment fun segment => { segment with countsAsUserTurn := true }
  | .turnContext ctx =>
    cursor.onSegment fun segment => { segment with turnId := segment.turnId <|> ctx.turnId }
  | .turnStarted turnId =>
    match cursor.segment with
    | some segment =>
      if turnIdsAreCompatible segment.turnId (some turnId) then cursor.close segment else cursor
    | none => cursor
  | .responseItem item =>
    cursor.onSegment fun segment => { segment with
      countsAsUserTurn := segment.countsAsUserTurn || isUserTurnBoundary lib item }
  | .otherEvent _ => cursor
  | .sessionMeta => cursor

/-- The cursor when the items are read back to the oldest. -/
def past (lib : Libraries) (items : List RolloutItem) : Cursor :=
  items.foldr (fun item cursor => cursor.step lib item) ⟨0, none⟩

/-- The cursor when the open segment ends, and the items that are older than the segment. -/
def segmentStart (lib : Libraries) : Cursor → List RolloutItem → Cursor × List RolloutItem
  | cursor, [] => (cursor, [])
  | cursor, item :: older =>
    if (cursor.step lib item).segment.isNone then (cursor, older)
    else segmentStart lib (cursor.step lib item) older

end Cursor

/-- A segment with a replacement history leaves a base: itself, or an older one. -/
def LeavesBase (start : Cursor × List RolloutItem) : Prop :=
  start.1.pendingRollbackTurns = 0 ∨ start.2.any hasReplacementHistory

/-- The newest replacement history is of use: its segment is not dropped, or there is another one
before the segment, or what comes after it makes the same history without it. -/
def CheckpointKept (lib : Libraries) (rolloutItems : List RolloutItem) : Prop :=
  ∀ older message replacementHistory newer,
    rolloutItems = older ++ .compacted message (some replacementHistory) :: newer →
    (∀ item ∈ newer, hasReplacementHistory item = false) →
    LeavesBase (((Cursor.past lib newer).onSegment id).segmentStart lib older.reverse) ∨
      replay lib replacementHistory newer = replay lib [] newer

def Scan.cursor (scan : Scan) : Cursor :=
  ⟨scan.pendingRollbackTurns,
    scan.activeSegment.map fun segment => ⟨segment.turnId, segment.countsAsUserTurn⟩⟩

section
variable {segment : ActiveReplaySegment}

@[simp]
theorem finalizeActiveSegment_activeSegment :
    (finalizeActiveSegment segment scan).activeSegment = scan.activeSegment := by
  unfold finalizeActiveSegment
  split
  · split <;> rfl
  · rfl

@[simp]
theorem finalizeActiveSegment_rolloutSuffix :
    (finalizeActiveSegment segment scan).rolloutSuffix = scan.rolloutSuffix := by
  unfold finalizeActiveSegment
  split
  · split <;> rfl
  · rfl

@[simp]
theorem finalizeActiveSegment_pending :
    (finalizeActiveSegment segment scan).pendingRollbackTurns =
      if segment.countsAsUserTurn then scan.pendingRollbackTurns - 1
      else scan.pendingRollbackTurns := by
  unfold finalizeActiveSegment
  by_cases hpending : 0 < scan.pendingRollbackTurns
  · simp only [hpending, if_true]
    split <;> rfl
  · simp only [hpending, if_false]
    split <;> omega

@[simp]
theorem finalizeActiveSegment_base :
    (finalizeActiveSegment segment scan).baseReplacementHistory =
      if 0 < scan.pendingRollbackTurns then scan.baseReplacementHistory
      else scan.baseReplacementHistory <|> segment.baseReplacementHistory := by
  unfold finalizeActiveSegment
  split
  · split <;> rfl
  · rfl

end

theorem Scan.cursor_onSegment {f : ActiveReplaySegment → ActiveReplaySegment}
    {g : OpenSegment → OpenSegment}
    (hf : ∀ segment, OpenSegment.mk (f segment).turnId (f segment).countsAsUserTurn =
      g ⟨segment.turnId, segment.countsAsUserTurn⟩) :
    (scan.onSegment f).cursor = scan.cursor.onSegment g := by
  unfold Scan.onSegment Scan.cursor Cursor.onSegment
  cases hactive : scan.activeSegment with
  | none => exact congrArg (fun segment => Cursor.mk _ (some segment)) (hf .fresh)
  | some segment => exact congrArg (fun segment => Cursor.mk _ (some segment)) (hf segment)

/-- The cursor is what the scan knows of the turns. -/
theorem cursor_scanItem :
    (scanItem lib newer scan item).cursor = scan.cursor.step lib item := by
  cases item with
  | compacted message replacementHistory =>
    show (scanItem lib newer scan (.compacted message replacementHistory)).cursor =
      scan.cursor.onSegment id
    unfold Cursor.onSegment Scan.cursor scanItem
    cases hactive : scan.activeSegment <;> dsimp only <;> split <;> rfl
  | turnAborted turnId =>
    cases hactive : scan.activeSegment with
    | some segment => simp [scanItem, Cursor.step, Cursor.onSegment, Scan.cursor, hactive]
    | none =>
      cases turnId <;>
        simp [scanItem, Cursor.step, Cursor.onSegment, Scan.cursor, hactive,
          ActiveReplaySegment.fresh]
  | turnContext ctx =>
    simp only [scanItem, Cursor.step]
    exact scan.cursor_onSegment fun _ => by simp
  | turnStarted turnId =>
    cases hactive : scan.activeSegment with
    | none => simp [scanItem, Cursor.step, Scan.cursor, hactive]
    | some segment =>
      simp only [scanItem, Cursor.step, Scan.cursor, hactive, Option.map_some]
      split
      · simp [Cursor.close]
      · simp [hactive]
  | turnComplete turnId =>
    simp only [scanItem, Cursor.step]
    exact scan.cursor_onSegment fun _ => rfl
  | userMessage event =>
    simp only [scanItem, Cursor.step]
    exact scan.cursor_onSegment fun _ => rfl
  | responseItem item =>
    simp only [scanItem, Cursor.step]
    exact scan.cursor_onSegment fun _ => rfl
  | threadRolledBack numTurns => rfl
  | otherEvent event => rfl
  | sessionMeta => rfl

/-! ## Bases -/

/-- The replacement history that the open segment brings. -/
def Scan.segmentBase (scan : Scan) : Option (List ResponseItem) :=
  scan.activeSegment.bind (·.baseReplacementHistory)

theorem Scan.segmentBase_onSegment {f : ActiveReplaySegment → ActiveReplaySegment}
    (hf : ∀ segment, (f segment).baseReplacementHistory = segment.baseReplacementHistory) :
    (scan.onSegment f).segmentBase = scan.segmentBase := by
  unfold Scan.onSegment Scan.segmentBase
  cases scan.activeSegment with
  | none => exact hf .fresh
  | some segment => exact hf segment

/-- A step back leaves the bases and the suffix alone, or meets the newest replacement history of
the open segment, or ends the segment. -/
theorem scanItem_cases (lib : Libraries) (newer : List RolloutItem) (scan : Scan)
    (item : RolloutItem) :
    let scan' := scanItem lib newer scan item
    (scan'.baseReplacementHistory = scan.baseReplacementHistory ∧
      scan'.rolloutSuffix = scan.rolloutSuffix ∧ scan'.segmentBase = scan.segmentBase ∧
      (scan'.activeSegment = none → scan.activeSegment = none) ∧
      (hasReplacementHistory item → scan.segmentBase ≠ none)) ∨
    (∃ message replacementHistory, item = .compacted message (some replacementHistory) ∧
      scan.segmentBase = none ∧ scan'.baseReplacementHistory = scan.baseReplacementHistory ∧
      scan'.rolloutSuffix = newer ∧ scan'.segmentBase = some replacementHistory) ∨
    (hasReplacementHistory item = false ∧ scan'.activeSegment = none ∧
      scan'.rolloutSuffix = scan.rolloutSuffix ∧ scan'.baseReplacementHistory =
        if 0 < scan.pendingRollbackTurns then scan.baseReplacementHistory
        else scan.baseReplacementHistory <|> scan.segmentBase) := by
  have honSegment (f : ActiveReplaySegment → ActiveReplaySegment)
      (hf : ∀ segment, (f segment).baseReplacementHistory = segment.baseReplacementHistory) :=
    scan.segmentBase_onSegment hf
  cases item with
  | compacted message replacementHistory =>
    have hbase : (scan.activeSegment.getD .fresh).baseReplacementHistory = scan.segmentBase := by
      unfold Scan.segmentBase
      cases scan.activeSegment <;> rfl
    cases replacementHistory with
    | none =>
      left
      simp [scanItem, Scan.segmentBase, hbase, hasReplacementHistory]
    | some replacementHistory =>
      cases hsegment : scan.segmentBase with
      | none =>
        refine .inr (.inl ⟨message, replacementHistory, rfl, rfl, ?_⟩)
        simp only [scanItem, ActiveReplaySegment.clearReferenceContextItem_base, hbase, hsegment]
        simp [Scan.segmentBase]
      | some older =>
        left
        simp only [scanItem, ActiveReplaySegment.clearReferenceContextItem_base, hbase, hsegment,
          Option.isNone_some, Bool.false_eq_true, false_and, if_false]
        exact ⟨trivial, trivial, hbase.trans hsegment, nofun, fun _ => nofun⟩
  | turnAborted turnId =>
    left
    cases hactive : scan.activeSegment with
    | some segment => simp [scanItem, hactive, Scan.segmentBase, hasReplacementHistory]
    | none =>
      cases turnId <;>
        simp [scanItem, hactive, Scan.segmentBase, hasReplacementHistory,
          ActiveReplaySegment.fresh]
  | turnStarted turnId =>
    cases hactive : scan.activeSegment with
    | none => simp [scanItem, hactive, hasReplacementHistory]
    | some segment =>
      by_cases hcompatible : turnIdsAreCompatible segment.turnId (some turnId)
      · refine .inr (.inr ⟨rfl, ?_⟩)
        simp [scanItem, hactive, hcompatible, Scan.segmentBase]
      · left
        simp [scanItem, hactive, hcompatible, hasReplacementHistory]
  | turnContext ctx => exact .inl ⟨rfl, rfl, honSegment _ fun _ => by simp, nofun, nofun⟩
  | turnComplete turnId => exact .inl ⟨rfl, rfl, honSegment _ fun _ => rfl, nofun, nofun⟩
  | userMessage event => exact .inl ⟨rfl, rfl, honSegment _ fun _ => rfl, nofun, nofun⟩
  | responseItem item => exact .inl ⟨rfl, rfl, honSegment _ fun _ => rfl, nofun, nofun⟩
  | threadRolledBack numTurns => exact .inl ⟨rfl, rfl, rfl, id, nofun⟩
  | otherEvent event => exact .inl ⟨rfl, rfl, rfl, id, nofun⟩
  | sessionMeta => exact .inl ⟨rfl, rfl, rfl, id, nofun⟩

/-! ## Once the history is settled -/

/-- The items make one history, whatever they are replayed on. -/
def Settles (lib : Libraries) (items : List RolloutItem) (history : List ResponseItem) : Prop :=
  ∀ base, replay lib base items = history

/-- The scan gives the history, whatever base it may still find. -/
def Scan.Gives (lib : Libraries) (scan : Scan) (history : List ResponseItem) : Prop :=
  ∀ base, replay lib (scan.baseReplacementHistory.getD base) scan.rolloutSuffix = history

variable {history : List ResponseItem}

theorem Settles.cons (h : Settles lib newer history) (item : RolloutItem) :
    Settles lib (item :: newer) history :=
  fun base => h (replayItem lib base item)

theorem Settles.append (h : Settles lib newer history) (items : List RolloutItem) :
    Settles lib (items ++ newer) history := by
  intro base
  rw [replay, List.foldl_append]
  exact h _

theorem settles_checkpoint (lib : Libraries) (message : List Char)
    (replacementHistory : List ResponseItem) (newer : List RolloutItem) :
    Settles lib (.compacted message (some replacementHistory) :: newer)
      (replay lib replacementHistory newer) :=
  fun _ => rfl

theorem Scan.Gives.finalized {scan' : Scan} (h : scan.Gives lib history)
    {segmentBase : Option (List ResponseItem)}
    (hbase : scan'.baseReplacementHistory =
      if 0 < scan.pendingRollbackTurns then scan.baseReplacementHistory
      else scan.baseReplacementHistory <|> segmentBase)
    (hsuffix : scan'.rolloutSuffix = scan.rolloutSuffix) : scan'.Gives lib history := by
  intro base
  rw [hbase, hsuffix]
  split
  · exact h base
  · rw [← h (segmentBase.getD base)]
    cases scan.baseReplacementHistory <;> rfl

theorem Scan.Gives.scanItem (h : scan.Gives lib history) (hnewer : Settles lib newer history)
    (item : RolloutItem) : (scanItem lib newer scan item).Gives lib history := by
  rcases scanItem_cases lib newer scan item with
    ⟨hbase, hsuffix, -⟩ | ⟨_, _, -, -, -, hsuffix, -⟩ | ⟨-, -, hsuffix, hbase⟩
  · intro base
    rw [hbase, hsuffix]
    exact h base
  · intro base
    rw [hsuffix]
    exact hnewer _
  · exact h.finalized hbase hsuffix

theorem Scan.Gives.scanOlder (h : scan.Gives lib history) (hnewer : Settles lib newer history)
    (older : List RolloutItem) : (scanOlder lib older newer scan).Gives lib history := by
  induction older generalizing newer scan with
  | nil => exact h
  | cons item older ih =>
    rw [Rollout.scanOlder]
    split
    · exact h.scanItem hnewer item
    · exact ih (h.scanItem hnewer item) (hnewer.cons item)

theorem Scan.finish_cases (scan : Scan) :
    scan.finish.rolloutSuffix = scan.rolloutSuffix ∧
      scan.finish.baseReplacementHistory =
        if 0 < scan.pendingRollbackTurns then scan.baseReplacementHistory
        else scan.baseReplacementHistory <|> scan.segmentBase := by
  unfold Scan.finish Scan.segmentBase
  cases scan.activeSegment with
  | none =>
    refine ⟨rfl, ?_⟩
    cases scan.baseReplacementHistory <;> simp
  | some segment => simp

theorem Scan.Gives.finish (h : scan.Gives lib history) : scan.finish.Gives lib history :=
  h.finalized scan.finish_cases.2 scan.finish_cases.1

/-! ## Before a replacement history is met -/

/-- Neither the scan nor its open segment has a base. -/
structure Scan.NoBase (scan : Scan) : Prop where
  base : scan.baseReplacementHistory = none
  segment : scan.segmentBase = none

theorem Scan.isComplete_of_base (h : scan.baseReplacementHistory = none) :
    scan.isComplete = false := by
  simp [Scan.isComplete, h]

variable (lib newer) in
theorem Scan.NoBase.scanItem (h : scan.NoBase) (hitem : hasReplacementHistory item = false) :
    (scanItem lib newer scan item).NoBase ∧
      (scanItem lib newer scan item).rolloutSuffix = scan.rolloutSuffix := by
  rcases scanItem_cases lib newer scan item with
    ⟨hbase, hsuffix, hsegment, -⟩ | ⟨_, _, rfl, -⟩ | ⟨-, hactive, hsuffix, hbase⟩
  · exact ⟨⟨hbase.trans h.base, hsegment.trans h.segment⟩, hsuffix⟩
  · exact absurd hitem (by simp [hasReplacementHistory])
  · refine ⟨⟨?_, ?_⟩, hsuffix⟩
    · rw [hbase, h.base, h.segment]
      exact ite_self _
    · simp [Scan.segmentBase, hactive]

variable (lib newer) in
/-- Without a replacement history among them, items are passed with nothing but the turns noted. -/
theorem Scan.NoBase.scanOlder (h : scan.NoBase) {items : List RolloutItem}
    (hitems : ∀ item ∈ items, hasReplacementHistory item = false) (older : List RolloutItem) :
    ∃ scan' : Scan, scan'.NoBase ∧ scan'.rolloutSuffix = scan.rolloutSuffix ∧
      scan'.cursor = items.foldl (Cursor.step lib) scan.cursor ∧
      scanOlder lib (items ++ older) newer scan =
        scanOlder lib older (items.reverse ++ newer) scan' := by
  induction items generalizing newer scan with
  | nil => exact ⟨scan, h, rfl, rfl, rfl⟩
  | cons item items ih =>
    obtain ⟨hitem, hitems⟩ := List.forall_mem_cons.1 hitems
    obtain ⟨hnext, hsuffix⟩ := h.scanItem lib newer hitem
    obtain ⟨scan', hscan', hsuffix', hcursor, hrun⟩ := ih (item :: newer) hnext hitems
    refine ⟨scan', hscan', hsuffix'.trans hsuffix, ?_, ?_⟩
    · rw [hcursor, cursor_scanItem, List.foldl_cons]
    · rw [List.cons_append, Rollout.scanOlder, if_neg (by simp [isComplete_of_base hnext.base]),
        hrun, List.reverse_cons, List.append_assoc]
      rfl

/-- A replacement history that is met later settles what the suffix makes. -/
theorem Scan.NoBase.gives (h : scan.NoBase) (hnewer : Settles lib newer history)
    (holder : older.any hasReplacementHistory) :
    (Rollout.scanOlder lib older newer scan).Gives lib history := by
  induction older generalizing newer scan with
  | nil => simp at holder
  | cons item older ih =>
    cases hitem : hasReplacementHistory item with
    | false =>
      obtain ⟨hnext, -⟩ := h.scanItem lib newer hitem
      rw [Rollout.scanOlder, if_neg (by simp [isComplete_of_base hnext.base])]
      exact ih hnext (hnewer.cons item) (by simpa [hitem] using holder)
    | true =>
      have hgives : (Rollout.scanItem lib newer scan item).Gives lib history := by
        rcases scanItem_cases lib newer scan item with
          ⟨-, -, -, -, hsegment⟩ | ⟨_, _, -, -, -, hsuffix, -⟩ | ⟨hfalse, -⟩
        · exact absurd h.segment (hsegment hitem)
        · intro base
          rw [hsuffix]
          exact hnewer _
        · exact absurd (hfalse.symm.trans hitem) Bool.false_ne_true
      rw [Rollout.scanOlder]
      split
      · exact hgives
      · exact hgives.scanOlder (hnewer.cons item) older

/-! ## The segment of the newest replacement history -/

variable (lib scan item newer) in
theorem segment_step_isNone :
    ((scan.cursor.step lib item).segment.isNone) =
      (scanItem lib newer scan item).activeSegment.isNone := by
  have hcursor : (scanItem lib newer scan item).cursor = scan.cursor.step lib item :=
    cursor_scanItem
  rw [← hcursor, Scan.cursor, Option.isNone_map]

variable {base : List ResponseItem} {suffix : List RolloutItem}

variable (lib newer older) in
/-- Without a base and without an older replacement history, only the suffix is left. -/
theorem Scan.NoBase.suffix_only (h : scan.NoBase)
    (holder : ¬ older.any hasReplacementHistory) :
    let scan' := (Rollout.scanOlder lib older newer scan).finish
    scan'.baseReplacementHistory = none ∧ scan'.rolloutSuffix = scan.rolloutSuffix := by
  have hitems : ∀ item ∈ older, hasReplacementHistory item = false := by simpa using holder
  obtain ⟨last, hlast, hsuffix, -, hrun⟩ :=
    h.scanOlder lib newer hitems []
  rw [List.append_nil] at hrun
  obtain ⟨hsuffix', hbase'⟩ := last.finish_cases
  rw [hrun, Rollout.scanOlder]
  refine ⟨?_, hsuffix'.trans hsuffix⟩
  rw [hbase', hlast.base, hlast.segment]
  exact ite_self _

/-- With no rollback pending, the base of a segment is taken when it ends. -/
theorem Scan.gives_of_segment {scan' : Scan} (hpending : scan.pendingRollbackTurns = 0)
    (hbase : scan.baseReplacementHistory = none) (hsegment : scan.segmentBase = some base)
    (hhistory : replay lib base scan.rolloutSuffix = history)
    (hsuffix' : scan'.rolloutSuffix = scan.rolloutSuffix)
    (hbase' : scan'.baseReplacementHistory =
      if 0 < scan.pendingRollbackTurns then scan.baseReplacementHistory
      else scan.baseReplacementHistory <|> scan.segmentBase) : scan'.Gives lib history := by
  rw [if_neg (by omega), hbase, hsegment] at hbase'
  intro _
  rw [hbase', hsuffix']
  exact hhistory

variable (older) in
/-- The scan from within a segment that has a base: the base is taken unless rollbacks drop the
segment. -/
theorem scanOlder_segment (hbase : scan.baseReplacementHistory = none)
    (hsegment : scan.segmentBase = some base) (hsuffix : scan.rolloutSuffix = suffix)
    (hhistory : replay lib base suffix = history) (hnewer : Settles lib newer history) :
    let start := scan.cursor.segmentStart lib older
    let scan' := (scanOlder lib older newer scan).finish
    (LeavesBase start → scan'.Gives lib history) ∧
      (¬ LeavesBase start →
        scan'.baseReplacementHistory = none ∧ scan'.rolloutSuffix = suffix) := by
  induction older generalizing newer scan with
  | nil =>
    obtain ⟨hsuffix', hbase'⟩ := scan.finish_cases
    refine ⟨fun h => ?_, fun h => ?_⟩
    · have hpending := h.resolve_right (by simp [Cursor.segmentStart])
      exact Scan.gives_of_segment hpending hbase hsegment (hsuffix ▸ hhistory) hsuffix' hbase'
    · have hpending : 0 < scan.pendingRollbackTurns :=
        Nat.pos_of_ne_zero fun hzero => h (.inl hzero)
      rw [if_pos hpending, hbase] at hbase'
      exact ⟨hbase', hsuffix'.trans hsuffix⟩
  | cons item older ih =>
    have hclosed := segment_step_isNone lib scan item newer
    rw [Cursor.segmentStart]
    rcases scanItem_cases lib newer scan item with
      ⟨hbase', hsuffix', hsegment', -⟩ | ⟨_, _, -, hnone, -⟩ | ⟨-, hactive, hsuffix', hbase'⟩
    · -- the segment goes on
      rw [hsegment] at hsegment'
      have hopen : (scanItem lib newer scan item).activeSegment.isNone = false := by
        cases hsome : (scanItem lib newer scan item).activeSegment with
        | none => simp [Scan.segmentBase, hsome] at hsegment'
        | some segment => rfl
      have hnext := hbase'.trans hbase
      have hcursor : (scanItem lib newer scan item).cursor = scan.cursor.step lib item :=
        cursor_scanItem
      rw [if_neg (by simp [hclosed, hopen]), ← hcursor, Rollout.scanOlder,
        if_neg (by simp [Scan.isComplete_of_base hnext])]
      exact ih hnext hsegment' (hsuffix'.trans hsuffix) (hnewer.cons item)
    · exact absurd (hsegment.symm.trans hnone) nofun
    · -- the turn of the segment starts here
      rw [if_pos (by simp [hclosed, hactive])]
      by_cases hpending : scan.pendingRollbackTurns = 0
      · have hgives :=
          Scan.gives_of_segment hpending hbase hsegment (hsuffix ▸ hhistory) hsuffix' hbase'
        refine ⟨fun _ => ?_, fun h => absurd (.inl hpending) h⟩
        rw [Rollout.scanOlder]
        split
        · exact hgives.finish
        · exact (hgives.scanOlder (hnewer.cons item) older).finish
      · rw [if_pos (by omega), hbase] at hbase'
        have hnext : (scanItem lib newer scan item).NoBase :=
          ⟨hbase', by simp [Scan.segmentBase, hactive]⟩
        rw [Rollout.scanOlder, if_neg (by simp [Scan.isComplete_of_base hbase'])]
        refine ⟨fun h => ?_, fun h => ?_⟩
        · exact (hnext.gives (hnewer.cons item) (h.resolve_left hpending)).finish
        · obtain ⟨hlost, hsuffixLost⟩ := hnext.suffix_only lib (item :: newer) older
            fun holder => h (.inr holder)
          exact ⟨hlost, hsuffixLost.trans (hsuffix'.trans hsuffix)⟩

/-! ## The whole rollout -/

theorem Scan.noBase_start (rolloutItems : List RolloutItem) : (start rolloutItems).NoBase :=
  ⟨rfl, rfl⟩

theorem history_eq_forward_of_noCheckpoint {rolloutItems : List RolloutItem}
    (h : ¬ rolloutItems.any hasReplacementHistory) :
    (reconstructHistoryFromRollout lib rolloutItems).history = forwardHistory lib rolloutItems := by
  obtain ⟨hbase, hsuffix⟩ := (Scan.noBase_start rolloutItems).suffix_only lib []
    rolloutItems.reverse (by simpa using h)
  show replay lib ((scanRollout lib rolloutItems).baseReplacementHistory.getD [])
    (scanRollout lib rolloutItems).rolloutSuffix = replay lib [] rolloutItems
  unfold scanRollout
  rw [hbase, hsuffix]
  rfl

variable (lib) in
/-- From the newest replacement history on, the scan goes as its segment does. -/
theorem scanRollout_checkpoint (older : List RolloutItem) (message : List Char)
    (replacementHistory : List ResponseItem) {newer : List RolloutItem}
    (hnewer : ∀ item ∈ newer, hasReplacementHistory item = false) :
    let scan' := scanRollout lib (older ++ .compacted message (some replacementHistory) :: newer)
    let start := ((Cursor.past lib newer).onSegment id).segmentStart lib older.reverse
    (LeavesBase start → scan'.Gives lib (replay lib replacementHistory newer)) ∧
      (¬ LeavesBase start →
        scan'.baseReplacementHistory = none ∧ scan'.rolloutSuffix = newer) := by
  let checkpoint : RolloutItem := .compacted message (some replacementHistory)
  have hitems : ∀ item ∈ newer.reverse, hasReplacementHistory item = false := by simpa using hnewer
  obtain ⟨scan, hscan, -, hcursor, hrun⟩ :=
    (Scan.noBase_start (older ++ checkpoint :: newer)).scanOlder lib [] hitems
      (checkpoint :: older.reverse)
  rw [List.append_nil, List.reverse_reverse] at hrun
  rcases scanItem_cases lib newer scan checkpoint with
    ⟨-, -, -, -, hsegment⟩ | ⟨_, _, hitem, -, hbase, hsuffix, hsegment⟩ | ⟨hfalse, -⟩
  · exact absurd hscan.segment (hsegment rfl)
  · obtain ⟨rfl, hreplacement⟩ := RolloutItem.compacted.inj hitem
    cases hreplacement
    have hnext := hbase.trans hscan.base
    have hcursor' : (scanItem lib newer scan checkpoint).cursor =
        (Cursor.past lib newer).onSegment id := by
      rw [cursor_scanItem, hcursor, List.foldl_reverse]
      rfl
    have hwhole : scanRollout lib (older ++ checkpoint :: newer) =
        (scanOlder lib older.reverse (checkpoint :: newer)
          (scanItem lib newer scan checkpoint)).finish := by
      unfold scanRollout
      rw [List.reverse_append, List.reverse_cons, List.append_assoc, List.singleton_append, hrun,
        scanOlder, if_neg (by simp [Scan.isComplete_of_base hnext])]
    have hsegmentScan := scanOlder_segment older.reverse hnext hsegment hsuffix rfl
      (settles_checkpoint lib message replacementHistory newer)
    rw [hcursor'] at hsegmentScan
    rw [hwhole]
    exact hsegmentScan
  · exact absurd hfalse nofun

theorem forwardHistory_checkpoint (older : List RolloutItem) (message : List Char)
    (replacementHistory : List ResponseItem) (newer : List RolloutItem) :
    forwardHistory lib (older ++ .compacted message (some replacementHistory) :: newer) =
      replay lib replacementHistory newer :=
  (settles_checkpoint lib message replacementHistory newer).append older []

theorem exists_newest_checkpoint {rolloutItems : List RolloutItem}
    (h : rolloutItems.any hasReplacementHistory) :
    ∃ older message replacementHistory newer,
      rolloutItems = older ++ .compacted message (some replacementHistory) :: newer ∧
      ∀ item ∈ newer, hasReplacementHistory item = false := by
  induction rolloutItems with
  | nil => simp at h
  | cons item items ih =>
    by_cases hitems : items.any hasReplacementHistory
    · obtain ⟨older, message, replacementHistory, newer, rfl, hnewer⟩ := ih hitems
      exact ⟨item :: older, message, replacementHistory, newer, rfl, hnewer⟩
    · have hitem : hasReplacementHistory item := by simpa [hitems] using h
      obtain ⟨message, replacementHistory, rfl⟩ :
          ∃ message replacementHistory, item = .compacted message (some replacementHistory) := by
        unfold hasReplacementHistory at hitem
        split at hitem
        · exact ⟨_, _, rfl⟩
        · cases hitem
      exact ⟨[], message, replacementHistory, items, rfl, by simpa using hitems⟩

/-- The reconstruction gives the history of the forward fold just when the newest replacement
history is of use. -/
theorem history_eq_forward_iff (lib : Libraries) (rolloutItems : List RolloutItem) :
    (reconstructHistoryFromRollout lib rolloutItems).history = forwardHistory lib rolloutItems ↔
      CheckpointKept lib rolloutItems := by
  have hsplit (older : List RolloutItem) (message : List Char)
      (replacementHistory : List ResponseItem) (newer : List RolloutItem)
      (hrollout : rolloutItems = older ++ .compacted message (some replacementHistory) :: newer)
      (hnewer : ∀ item ∈ newer, hasReplacementHistory item = false) :
      (reconstructHistoryFromRollout lib rolloutItems).history = forwardHistory lib rolloutItems ↔
        LeavesBase (((Cursor.past lib newer).onSegment id).segmentStart lib older.reverse) ∨
          replay lib replacementHistory newer = replay lib [] newer := by
    obtain ⟨hkept, hlost⟩ := scanRollout_checkpoint lib older message replacementHistory
      hnewer
    rw [hrollout, forwardHistory_checkpoint]
    show replay lib ((scanRollout lib _).baseReplacementHistory.getD []) _ = _ ↔ _
    by_cases hleaves :
        LeavesBase (((Cursor.past lib newer).onSegment id).segmentStart lib older.reverse)
    · exact ⟨fun _ => .inl hleaves, fun _ => hkept hleaves []⟩
    · rw [(hlost hleaves).1, (hlost hleaves).2]
      exact ⟨fun h => .inr h.symm, fun h => (h.resolve_left hleaves).symm⟩
  by_cases hany : rolloutItems.any hasReplacementHistory
  · obtain ⟨older, message, replacementHistory, newer, hrollout, hnewer⟩ :=
      exists_newest_checkpoint hany
    refine ⟨fun h older message replacementHistory newer hrollout hnewer =>
      (hsplit older message replacementHistory newer hrollout hnewer).1 h, fun h => ?_⟩
    exact (hsplit older message replacementHistory newer hrollout hnewer).2
      (h older message replacementHistory newer hrollout hnewer)
  · refine ⟨fun _ older message replacementHistory newer hrollout _ => ?_,
      fun _ => history_eq_forward_of_noCheckpoint hany⟩
    exact absurd (by simp [hrollout, hasReplacementHistory]) hany

/-- A turn that compacted the history is rolled back: the reconstruction loses the turn before it,
which the fold keeps. -/
theorem history_loses_turn :
    let lib : Libraries := ⟨fun _ => false, fun _ => false, fun _ text => text, id, id⟩
    let first : ResponseItem := .message "user" [.inputImage ['a']]
    let second : ResponseItem := .message "user" [.inputImage ['b']]
    let rolloutItems : List RolloutItem :=
      [.turnStarted "1", .userMessage ⟨[], some [['a']], []⟩, .responseItem first,
        .turnComplete "1", .turnStarted "2", .userMessage ⟨[], some [['b']], []⟩,
        .responseItem second, .compacted [] (some [first, second, .compaction ['s']]),
        .turnComplete "2", .threadRolledBack 1]
    (reconstructHistoryFromRollout lib rolloutItems).history = [] ∧
      forwardHistory lib rolloutItems = [first] := by
  decide

end Mcodex.Rollout
