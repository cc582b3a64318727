import Mcodex.Lib.Segment
import Mcodex.Rollout.Reconstruction

/-!
# Rolling back the history

A rollback drops the last turns and the context updates above the cut. When such an update is a
bundle of the initial context that holds more than context, the baseline for the settings is cleared
too. Only updates directly above the cut are looked at: a bundle further down in what is dropped
leaves the baseline (`dropLastNUserTurns_add_iff`).
-/

namespace Mcodex.Rollout

open Segment

/-- The history with the baseline that settings are compared with. -/
structure ContextManager where
  items : List ResponseItem
  referenceContextItem : Option TurnContextItem
  deriving DecidableEq, Repr

def hasNonContextualDevMessageContent (content : List ContentItem) : Bool :=
  content.any fun item => !isContextualDevFragment item

/-- A developer message with context and with other text. -/
def isMixedDevBundle : ResponseItem → Bool
  | .message role content => role = "developer" && isContextualDevMessageContent content &&
    hasNonContextualDevMessageContent content
  | _ => false

section
variable (lib : Libraries)

namespace ContextManager

/-- The walk back from a cut, with the baseline. -/
def trimPreTurnContextUpdates (snapshot : List ResponseItem) (firstInstructionTurnIdx : Nat) :
    Nat → Option TurnContextItem → Nat × Option TurnContextItem
  | 0, referenceContextItem => (0, referenceContextItem)
  | cutIdx + 1, referenceContextItem =>
    if firstInstructionTurnIdx < cutIdx + 1 then
      match snapshot[cutIdx]? with
      | some (.message role content) =>
        if role = "developer" ∧ isContextualDevMessageContent content then
          trimPreTurnContextUpdates snapshot firstInstructionTurnIdx cutIdx
            (if hasNonContextualDevMessageContent content then none else referenceContextItem)
        else if role = "user" ∧ isContextualUserMessageContent lib content then
          trimPreTurnContextUpdates snapshot firstInstructionTurnIdx cutIdx referenceContextItem
        else (cutIdx + 1, referenceContextItem)
      | _ => (cutIdx + 1, referenceContextItem)
    else (cutIdx + 1, referenceContextItem)

def dropLastNUserTurns (manager : ContextManager) (numTurns : Nat) : ContextManager :=
  if numTurns = 0 then manager
  else
    let userPositions := userMessagePositions lib manager.items
    match userPositions with
    | [] => manager
    | firstInstructionTurnIdx :: _ =>
      let cutIdx :=
        if userPositions.length ≤ numTurns then firstInstructionTurnIdx
        else userPositions.getD (userPositions.length - numTurns) 0
      let trimmed := trimPreTurnContextUpdates lib manager.items firstInstructionTurnIdx cutIdx
        manager.referenceContextItem
      ⟨manager.items.take trimmed.1, trimmed.2⟩

end ContextManager

end

variable {lib : Libraries} {item : ResponseItem} {items : List ResponseItem}

theorem isPreTurnContextUpdate_message {role : String} {content : List ContentItem} :
    isPreTurnContextUpdate lib (.message role content) ↔
      (role = "developer" ∧ isContextualDevMessageContent content) ∨
        (role = "user" ∧ isContextualUserMessageContent lib content) := by
  simp [isPreTurnContextUpdate]

theorem not_boundary_of_isPreTurnContextUpdate (h : isPreTurnContextUpdate lib item) :
    isUserTurnBoundary lib item = false := by
  cases item with
  | message role content =>
    rcases isPreTurnContextUpdate_message.1 h with ⟨rfl, -⟩ | ⟨rfl, hcontextual⟩
    · rfl
    · simp [isUserTurnBoundary, hcontextual]
  | _ => rfl

/-- One step of the walk: an update is passed, and takes the baseline with it if it is mixed. -/
theorem ContextManager.trim_succ {first cut : Nat} {ref : Option TurnContextItem}
    (hcut : cut < items.length) :
    trimPreTurnContextUpdates lib items first (cut + 1) ref =
      if first < cut + 1 ∧ isPreTurnContextUpdate lib items[cut] then
        trimPreTurnContextUpdates lib items first cut
          (if isMixedDevBundle items[cut] then none else ref)
      else (cut + 1, ref) := by
  rw [trimPreTurnContextUpdates, List.getElem?_eq_getElem hcut]
  by_cases hfirst : first < cut + 1
  · rw [if_pos hfirst]
    cases items[cut] with
    | message role content =>
      by_cases hdev : role = "developer" ∧ isContextualDevMessageContent content
      · obtain ⟨rfl, hcontextual⟩ := hdev
        simp [isPreTurnContextUpdate, isMixedDevBundle, hfirst, hcontextual]
      · by_cases huser : role = "user" ∧ isContextualUserMessageContent lib content
        · obtain ⟨rfl, hcontextual⟩ := huser
          simp [isPreTurnContextUpdate, isMixedDevBundle, hfirst, hcontextual]
        · have hupdate : ¬ isPreTurnContextUpdate lib (.message role content) := fun h =>
            (isPreTurnContextUpdate_message.1 h).elim hdev huser
          simp [hdev, huser, hupdate]
    | _ => simp [isPreTurnContextUpdate]
  · rw [if_neg hfirst, if_neg fun h => hfirst h.1]

theorem ContextManager.trim_fst (first cut : Nat) (ref : Option TurnContextItem)
    (hcut : cut ≤ items.length) :
    (trimPreTurnContextUpdates lib items first cut ref).1 =
      Rollout.trimPreTurnContextUpdates lib items first cut := by
  induction cut generalizing ref with
  | zero => rfl
  | succ cut ih =>
    rw [trim_succ hcut, Rollout.trimPreTurnContextUpdates, List.getElem?_eq_getElem hcut,
      Option.any_some]
    split
    · exact ih _ (Nat.le_of_succ_le hcut)
    · rfl

/-- The items are those that the replay of a rollout keeps. -/
theorem ContextManager.dropLastNUserTurns_items (manager : ContextManager) (n : Nat) :
    (manager.dropLastNUserTurns lib n).items = Rollout.dropLastNUserTurns lib manager.items n := by
  have hbound : ∀ i ∈ userMessagePositions lib manager.items, i ≤ manager.items.length := by
    intro i hi
    exact (List.mem_range.1 (List.mem_filter.1 hi).1).le
  unfold dropLastNUserTurns Rollout.dropLastNUserTurns
  by_cases hn : n = 0
  · rw [if_pos hn, if_pos hn]
  rw [if_neg hn, if_neg hn]
  cases hpositions : userMessagePositions lib manager.items with
  | nil => rfl
  | cons first rest =>
    rw [hpositions] at hbound
    dsimp only
    rw [trim_fst]
    split
    · exact hbound first (.head _)
    · rw [List.getD_eq_getElem?_getD]
      cases hcut : (first :: rest)[(first :: rest).length - n]? with
      | none => exact Nat.zero_le _
      | some cut => exact hbound cut (List.mem_of_getElem? hcut)

/-- Above the first turn, the walk drops the updates at the end of what is kept. -/
theorem ContextManager.trim_spec {first cut : Nat} (ref : Option TurnContextItem)
    (hfirst : first < cut) (hcut : cut ≤ items.length)
    (hboundary : isUserTurnBoundary lib (items.get ⟨first, by omega⟩)) :
    let kept := trimPreTurnContextUpdates lib items first cut ref
    items.take kept.1 = (items.take cut).rdropWhile (isPreTurnContextUpdate lib) ∧
      kept.2 = if ((items.take cut).rtakeWhile (isPreTurnContextUpdate lib)).any isMixedDevBundle
        then none else ref := by
  induction cut generalizing ref with
  | zero => omega
  | succ cut ih =>
    have htake : items.take (cut + 1) = items.take cut ++ [items[cut]] :=
      (List.take_append_getElem hcut).symm
    rw [trim_succ hcut, htake]
    by_cases hupdate : isPreTurnContextUpdate lib items[cut]
    · have hne : first ≠ cut := by
        rintro rfl
        have hhead : isUserTurnBoundary lib items[first] := hboundary
        exact absurd (not_boundary_of_isPreTurnContextUpdate hupdate) (by simp [hhead])
      obtain ⟨hkept, href⟩ := ih (if isMixedDevBundle items[cut] then none else ref) (by omega)
        (by omega) hboundary
      rw [if_pos ⟨by omega, hupdate⟩, List.rdropWhile_concat_pos _ _ _ hupdate,
        List.rtakeWhile_concat_pos _ _ _ hupdate]
      refine ⟨hkept, href.trans ?_⟩
      rw [List.any_append, List.any_cons, List.any_nil, Bool.or_false]
      cases isMixedDevBundle items[cut] <;>
        cases (List.rtakeWhile (isPreTurnContextUpdate lib) (items.take cut)).any
          isMixedDevBundle <;> rfl
    · rw [if_neg fun h => hupdate h.2, List.rdropWhile_concat_neg _ _ _ hupdate,
        List.rtakeWhile_concat_neg _ _ _ hupdate]
      exact ⟨htake, rfl⟩

/-! ## What a rollback keeps -/

/-- The number of turns. -/
def turnCount (lib : Libraries) (items : List ResponseItem) : Nat :=
  items.countP (isUserTurnBoundary lib)

/-- The items before the turn number `n`, counted from zero. -/
def beforeTurn (lib : Libraries) (n : Nat) (items : List ResponseItem) : List ResponseItem :=
  beforeNth (isUserTurnBoundary lib) n items

/-- What is left before a turn that is dropped. -/
def keptBeforeTurn (lib : Libraries) (n : Nat) (items : List ResponseItem) : List ResponseItem :=
  (beforeTurn lib n items).rdropWhile (isPreTurnContextUpdate lib)

/-- A mixed bundle stands among the updates directly above a turn. -/
def hasMixedBundleAbove (lib : Libraries) (n : Nat) (items : List ResponseItem) : Bool :=
  ((beforeTurn lib n items).rtakeWhile (isPreTurnContextUpdate lib)).any isMixedDevBundle

theorem beforeTurn_of_turnCount_eq_zero (h : turnCount lib items = 0) :
    beforeTurn lib 0 items = items := by
  rw [beforeTurn, beforeNth_zero, List.takeWhile_eq_self_iff]
  intro item hitem
  simpa using List.countP_eq_zero.1 h item hitem

theorem ContextManager.dropLastNUserTurns_eq (manager : ContextManager) (n : Nat) :
    manager.dropLastNUserTurns lib n =
      let turns := turnCount lib manager.items
      if n = 0 then manager
      else if turns ≤ n then ⟨beforeTurn lib 0 manager.items, manager.referenceContextItem⟩
      else ⟨keptBeforeTurn lib (turns - n) manager.items,
        if hasMixedBundleAbove lib (turns - n) manager.items then none
        else manager.referenceContextItem⟩ := by
  obtain ⟨items, ref⟩ := manager
  have hlength : (userMessagePositions lib items).length = turnCount lib items := length_positions
  unfold dropLastNUserTurns
  by_cases hn : n = 0
  · rw [if_pos hn, if_pos hn]
  rw [if_neg hn, if_neg hn]
  cases hpositions : userMessagePositions lib items with
  | nil =>
    have hzero : turnCount lib items = 0 := by rw [← hlength, hpositions]; rfl
    simp [hzero, beforeTurn_of_turnCount_eq_zero hzero]
  | cons first rest =>
    have hfirst : (userMessagePositions lib items)[0]? = some first := by rw [hpositions]; rfl
    have hmem : first ∈ userMessagePositions lib items := by rw [hpositions]; exact .head _
    obtain ⟨hrange, hboundary⟩ := List.mem_filter.1 hmem
    have hlt : first < items.length := by simpa using hrange
    rw [List.getElem?_eq_getElem hlt, Option.any_some] at hboundary
    have hlen : (first :: rest).length = turnCount lib items := by rw [← hpositions, hlength]
    dsimp only
    rw [hlen]
    by_cases hturns : turnCount lib items ≤ n
    · have hkept : trimPreTurnContextUpdates lib items first first ref = (first, ref) := by
        cases first with
        | zero => rfl
        | succ first => rw [trim_succ (by omega), if_neg (by omega)]
      rw [if_pos hturns, if_pos hturns, hkept, take_positions hfirst]
      rfl
    · have hlast : turnCount lib items - n < (userMessagePositions lib items).length := by omega
      obtain ⟨cut, hcut⟩ : ∃ cut, (userMessagePositions lib items)[turnCount lib items - n]? =
        some cut := ⟨_, List.getElem?_eq_getElem hlast⟩
      have hcutMem := List.mem_of_getElem? hcut
      have hcutLt : cut < items.length := by simpa using (List.mem_filter.1 hcutMem).1
      have hfirstLt : first < cut := positions_lt hfirst hcut (by omega)
      have hget : (first :: rest).getD (turnCount lib items - n) 0 = cut := by
        rw [List.getD_eq_getElem?_getD, ← hpositions, hcut, Option.getD_some]
      obtain ⟨hitems, href⟩ := trim_spec ref hfirstLt hcutLt.le hboundary
      rw [take_positions hcut] at hitems href
      rw [if_neg hturns, if_neg hturns, hget, hitems, href]
      rfl

theorem keptBeforeTurn_isPrefix (n : Nat) : keptBeforeTurn lib n items <+: items :=
  (List.rdropWhile_prefix _ _).trans beforeNth_isPrefix

theorem turnCount_beforeTurn (n : Nat) :
    turnCount lib (beforeTurn lib n items) = min n (turnCount lib items) :=
  countP_beforeNth

/-- The updates that are dropped with a turn begin no turn. -/
theorem turnCount_keptBeforeTurn (n : Nat) :
    turnCount lib (keptBeforeTurn lib n items) = min n (turnCount lib items) := by
  have hsplit := congrArg (turnCount lib)
    (List.rdropWhile_append_rtakeWhile (p := isPreTurnContextUpdate lib)
      (l := beforeTurn lib n items))
  have hupdates : turnCount lib
      ((beforeTurn lib n items).rtakeWhile (isPreTurnContextUpdate lib)) = 0 := by
    refine List.countP_eq_zero.2 fun item hitem => ?_
    simp [not_boundary_of_isPreTurnContextUpdate (List.mem_rtakeWhile_imp hitem)]
  rw [turnCount, List.countP_append] at hsplit
  rw [← turnCount_beforeTurn, ← hsplit]
  exact (Nat.add_zero _).symm.trans (congrArg _ hupdates.symm)

section
variable {kept : List ResponseItem} {n : Nat}

theorem beforeTurn_of_isPrefix (h : kept <+: items) (hn : n < turnCount lib kept) :
    beforeTurn lib n kept = beforeTurn lib n items :=
  (beforeNth_of_isPrefix h hn).symm

theorem keptBeforeTurn_of_isPrefix (h : kept <+: items) (hn : n < turnCount lib kept) :
    keptBeforeTurn lib n kept = keptBeforeTurn lib n items := by
  rw [keptBeforeTurn, beforeTurn_of_isPrefix h hn]
  rfl

theorem hasMixedBundleAbove_of_isPrefix (h : kept <+: items) (hn : n < turnCount lib kept) :
    hasMixedBundleAbove lib n kept = hasMixedBundleAbove lib n items := by
  rw [hasMixedBundleAbove, beforeTurn_of_isPrefix h hn]
  rfl

end

/-- A rollback of `n` turns clears the baseline. -/
def clearsBaseline (lib : Libraries) (items : List ResponseItem) (n : Nat) : Bool :=
  0 < n && n < turnCount lib items && hasMixedBundleAbove lib (turnCount lib items - n) items

/-- The items that `n` turns leave. -/
def keptTurns (lib : Libraries) (items : List ResponseItem) (n : Nat) : List ResponseItem :=
  if n = 0 then items
  else if turnCount lib items ≤ n then beforeTurn lib 0 items
  else keptBeforeTurn lib (turnCount lib items - n) items

theorem ContextManager.dropLastNUserTurns_eq_kept (manager : ContextManager) (n : Nat) :
    manager.dropLastNUserTurns lib n = ⟨keptTurns lib manager.items n,
      if clearsBaseline lib manager.items n then none else manager.referenceContextItem⟩ := by
  rw [dropLastNUserTurns_eq]
  unfold keptTurns clearsBaseline
  by_cases hn : n = 0
  · simp [hn]
  by_cases hturns : turnCount lib manager.items ≤ n
  · simp [hn, hturns, Nat.not_lt.2 hturns]
  · simp [hn, hturns, Nat.pos_of_ne_zero hn, Nat.lt_of_not_le hturns]

variable (lib) in
theorem dropLastNUserTurns_eq_keptTurns (items : List ResponseItem) (n : Nat) :
    dropLastNUserTurns lib items n = keptTurns lib items n := by
  have hmanager := @ContextManager.dropLastNUserTurns_items lib ⟨items, none⟩ n
  rw [ContextManager.dropLastNUserTurns_eq_kept] at hmanager
  exact hmanager.symm

theorem keptTurns_of_le {n : Nat} (hn : 0 < n) (h : turnCount lib items ≤ n) :
    keptTurns lib items n = beforeTurn lib 0 items := by
  rw [keptTurns, if_neg (Nat.pos_iff_ne_zero.1 hn), if_pos h]

theorem keptTurns_of_lt {n : Nat} (hn : 0 < n) (h : n < turnCount lib items) :
    keptTurns lib items n = keptBeforeTurn lib (turnCount lib items - n) items := by
  rw [keptTurns, if_neg (Nat.pos_iff_ne_zero.1 hn), if_neg (Nat.not_le.2 h)]

variable (lib) in
theorem turnCount_keptTurns (items : List ResponseItem) (n : Nat) :
    turnCount lib (keptTurns lib items n) = turnCount lib items - n := by
  unfold keptTurns
  split
  · omega
  split
  · rw [turnCount_beforeTurn]
    omega
  · rw [turnCount_keptBeforeTurn]
    omega

variable (lib) in
theorem keptTurns_isPrefix (items : List ResponseItem) (n : Nat) :
    keptTurns lib items n <+: items := by
  unfold keptTurns
  split
  · exact List.prefix_refl items
  split
  · exact beforeNth_isPrefix
  · exact keptBeforeTurn_isPrefix _

theorem keptTurns_add (items : List ResponseItem) (m n : Nat) :
    keptTurns lib (keptTurns lib items m) n = keptTurns lib items (m + n) := by
  have hcount := turnCount_keptTurns lib items m
  have hprefix := keptTurns_isPrefix lib items m
  rcases Nat.eq_zero_or_pos n with rfl | hn
  · rfl
  rcases Nat.eq_zero_or_pos m with rfl | hm
  · rw [Nat.zero_add]
    rfl
  by_cases hall : turnCount lib items ≤ m
  · have hzero : turnCount lib (keptTurns lib items m) = 0 := by omega
    rw [keptTurns_of_le hn (by omega), beforeTurn_of_turnCount_eq_zero hzero,
      keptTurns_of_le hm hall, keptTurns_of_le (by omega) (by omega)]
  · by_cases hturns : turnCount lib items ≤ m + n
    · rw [keptTurns_of_le hn (by omega), keptTurns_of_le (by omega) hturns,
        beforeTurn_of_isPrefix hprefix (by omega)]
    · have hboth : 0 < m + n := by omega
      rw [keptTurns_of_lt hn (by omega), hcount, keptBeforeTurn_of_isPrefix hprefix (by omega),
        keptTurns_of_lt hboth (by omega), Nat.sub_sub]

theorem clearsBaseline_keptTurns (items : List ResponseItem) (m : Nat) {n : Nat} (hn : 0 < n) :
    clearsBaseline lib (keptTurns lib items m) n = clearsBaseline lib items (m + n) := by
  have hcount := turnCount_keptTurns lib items m
  unfold clearsBaseline
  rw [hcount]
  by_cases hturns : m + n < turnCount lib items
  · rw [hasMixedBundleAbove_of_isPrefix (keptTurns_isPrefix lib items m) (by omega), Nat.sub_sub]
    have hleft : n < turnCount lib items - m := by omega
    have hboth : 0 < m + n := by omega
    simp [hn, hturns, hleft, hboth]
  · have hleft : ¬ n < turnCount lib items - m := by omega
    simp [hturns, hleft]

/-- What is left after a rollback of `n` turns: items from the oldest on, with as many turns fewer
and all that came before the first, and no update above the cut unless no turn is left. -/
structure CutsAtTurn (lib : Libraries) (n : Nat) (items kept : List ResponseItem) : Prop where
  isPrefix : kept <+: items
  turns : turnCount lib kept = turnCount lib items - n
  beforeFirst : items.takeWhile (!isUserTurnBoundary lib ·) <+: kept
  atCut : kept ≠ items → ∀ item ∈ kept.getLast?, isPreTurnContextUpdate lib item →
    ∀ item ∈ kept, isUserTurnBoundary lib item = false

theorem keptTurns_cutsAtTurn (items : List ResponseItem) (n : Nat) :
    CutsAtTurn lib n items (keptTurns lib items n) where
  isPrefix := keptTurns_isPrefix lib items n
  turns := turnCount_keptTurns lib items n
  beforeFirst := by
    rw [← beforeNth_zero]
    rcases Nat.eq_zero_or_pos n with rfl | hn
    · exact beforeNth_isPrefix
    by_cases hturns : turnCount lib items ≤ n
    · rw [keptTurns_of_le hn hturns]
      exact List.prefix_refl _
    · rw [keptTurns_of_lt hn (by omega)]
      have hkept : 0 < turnCount lib (keptBeforeTurn lib (turnCount lib items - n) items) := by
        rw [turnCount_keptBeforeTurn]
        omega
      rw [← beforeTurn, ← beforeTurn_of_isPrefix (keptBeforeTurn_isPrefix _) hkept]
      exact beforeNth_isPrefix
  atCut := by
    intro hcut item hlast hupdate
    have hn : 0 < n := Nat.pos_of_ne_zero fun hzero => hcut (if_pos hzero)
    by_cases hturns : turnCount lib items ≤ n
    · rw [keptTurns_of_le hn hturns, beforeTurn, beforeNth_zero]
      intro item hitem
      simpa using List.mem_takeWhile_imp hitem
    · rw [keptTurns_of_lt hn (by omega)] at hlast
      have hne := List.ne_nil_of_mem (List.mem_of_getLast? hlast)
      rw [List.getLast?_eq_some_getLast hne, Option.mem_some_iff] at hlast
      exact absurd (hlast ▸ hupdate) (List.rdropWhile_last_not _ _ hne)

/-- Two rollbacks do what one does, unless the first clears a baseline that the one of both keeps.
-/
theorem dropLastNUserTurns_add_iff (lib : Libraries) (manager : ContextManager) (m n : Nat) :
    ((manager.dropLastNUserTurns lib m).dropLastNUserTurns lib n =
        manager.dropLastNUserTurns lib (m + n) ∧
      CutsAtTurn lib n manager.items (manager.dropLastNUserTurns lib n).items) ↔
    (manager.referenceContextItem = none ∨ n = 0 ∨ clearsBaseline lib manager.items m = false ∨
      clearsBaseline lib manager.items (m + n)) := by
  have hcuts : CutsAtTurn lib n manager.items (manager.dropLastNUserTurns lib n).items := by
    rw [manager.dropLastNUserTurns_eq_kept]
    exact keptTurns_cutsAtTurn manager.items n
  rw [and_iff_left hcuts]
  simp only [ContextManager.dropLastNUserTurns_eq_kept, keptTurns_add, ContextManager.mk.injEq,
    true_and]
  rcases Nat.eq_zero_or_pos n with rfl | hn
  · have hnone : clearsBaseline lib (keptTurns lib manager.items m) 0 = false := rfl
    simp [hnone]
  rw [clearsBaseline_keptTurns manager.items m hn]
  cases clearsBaseline lib manager.items (m + n) with
  | true => simp
  | false =>
    cases clearsBaseline lib manager.items m with
    | true => simp [hn.ne', eq_comm]
    | false => simp

/-- A turn whose context came with a mixed bundle is passed over by the rollback of two turns. -/
theorem dropLastNUserTurns_two_ne_one_one :
    let lib : Libraries := ⟨fun _ => false, fun _ => false, fun _ text => text, id, id⟩
    let turn : ResponseItem := .message "user" [.inputImage ['a']]
    let bundle : ResponseItem := .message "developer"
      [.inputText "<model_switch>".toList, .inputText "be brief".toList]
    let manager : ContextManager := ⟨[turn, turn, bundle, turn], some ⟨none, "m", none⟩⟩
    manager.dropLastNUserTurns lib 2 = ⟨[turn], some ⟨none, "m", none⟩⟩ ∧
      (manager.dropLastNUserTurns lib 1).dropLastNUserTurns lib 1 = ⟨[turn], none⟩ := by
  decide

end Mcodex.Rollout
