import Mathlib.Algebra.Ring.Nat
import Mcodex.Lib.Ends
import Mathlib.Data.List.Flatten

/-!
# The output that a process keeps: its two ends

`core/src/unified_exec/head_tail_buffer.rs` keeps the first bytes of what it is given and the last,
in chunks, within a budget of which each end has a half. What it holds is a function of the bytes it
was given since it was drained, whatever the chunks were (`Holds`). The count of omitted bytes stops
at the largest `usize`.
-/

namespace Mcodex.UnifiedExec

open Ends

/-- `usize::MAX`. -/
def usizeMax : Nat := 2 ^ 64 - 1

/-- `usize::saturating_add`. -/
def saturatingAdd (a b : Nat) : Nat := min (a + b) usizeMax

/-! ## The buffer -/

abbrev Chunk := List UInt8

structure HeadTailBuffer where
  maxBytes : Nat
  headBudget : Nat
  tailBudget : Nat
  head : List Chunk
  tail : List Chunk
  headBytes : Nat
  tailBytes : Nat
  omittedBytes : Nat
  deriving DecidableEq, Repr

/-- The loop of `trim_tail_to_budget` over the tail, with the bytes of the tail and the omitted
ones. -/
def trimTail : Nat → List Chunk → Nat → Nat → List Chunk × Nat × Nat
  | _, [], tailBytes, omittedBytes => ([], tailBytes, omittedBytes)
  | excess, front :: tail, tailBytes, omittedBytes =>
    if excess = 0 then (front :: tail, tailBytes, omittedBytes)
    else if front.length ≤ excess then
      trimTail (excess - front.length) tail (tailBytes - front.length)
        (saturatingAdd omittedBytes front.length)
    else (front.drop excess :: tail, tailBytes - excess, saturatingAdd omittedBytes excess)

namespace HeadTailBuffer

def new (maxBytes : UInt64) : HeadTailBuffer :=
  let headBudget := maxBytes.toNat / 2
  { maxBytes := maxBytes.toNat
    headBudget
    tailBudget := maxBytes.toNat - headBudget
    head := []
    tail := []
    headBytes := 0
    tailBytes := 0
    omittedBytes := 0 }

def retainedBytes (b : HeadTailBuffer) : Nat := saturatingAdd b.headBytes b.tailBytes

def trimTailToBudget (b : HeadTailBuffer) : HeadTailBuffer :=
  let (tail, tailBytes, omittedBytes) :=
    trimTail (b.tailBytes - b.tailBudget) b.tail b.tailBytes b.omittedBytes
  { b with tail, tailBytes, omittedBytes }

def pushToTail (b : HeadTailBuffer) (chunk : Chunk) : HeadTailBuffer :=
  if b.tailBudget = 0 then
    { b with omittedBytes := saturatingAdd b.omittedBytes chunk.length }
  else if b.tailBudget ≤ chunk.length then
    let kept := chunk.drop (chunk.length - b.tailBudget)
    let dropped := chunk.length - kept.length
    { b with
      omittedBytes := saturatingAdd (saturatingAdd b.omittedBytes b.tailBytes) dropped
      tail := [kept]
      tailBytes := kept.length }
  else
    trimTailToBudget { b with
      tailBytes := saturatingAdd b.tailBytes chunk.length
      tail := b.tail ++ [chunk] }

def pushChunk (b : HeadTailBuffer) (chunk : Chunk) : HeadTailBuffer :=
  if b.maxBytes = 0 then { b with omittedBytes := saturatingAdd b.omittedBytes chunk.length }
  else if b.headBytes < b.headBudget then
    let remainingHead := b.headBudget - b.headBytes
    if chunk.length ≤ remainingHead then
      { b with
        headBytes := saturatingAdd b.headBytes chunk.length
        head := b.head ++ [chunk] }
    else
      let headPart := chunk.take remainingHead
      let tailPart := chunk.drop remainingHead
      let b := if headPart.isEmpty then b else
        { b with
          headBytes := saturatingAdd b.headBytes headPart.length
          head := b.head ++ [headPart] }
      b.pushToTail tailPart
  else b.pushToTail chunk

def snapshotChunks (b : HeadTailBuffer) : List Chunk := b.head ++ b.tail

def toBytes (b : HeadTailBuffer) : List UInt8 := b.head.flatten ++ b.tail.flatten

def drainChunks (b : HeadTailBuffer) : List Chunk × HeadTailBuffer :=
  (b.head ++ b.tail,
    { b with head := [], tail := [], headBytes := 0, tailBytes := 0, omittedBytes := 0 })

end HeadTailBuffer

/-! ## What it holds -/

section
variable {maxBytes : UInt64} {b : HeadTailBuffer} {given chunk : List UInt8}

theorem saturatingAdd_of_le {a c : Nat} (h : a + c ≤ usizeMax) : saturatingAdd a c = a + c :=
  Nat.min_eq_left h

/-- A saturated count goes on as the saturated sum. -/
theorem saturatingAdd_min (a c : Nat) :
    saturatingAdd (min a usizeMax) c = min (a + c) usizeMax := by
  rw [saturatingAdd]
  omega

/-- The loop takes the excess from the front of the tail. -/
theorem trimTail_spec {tail : List Chunk} {excess : Nat} (tailBytes omitted : Nat)
    (h : excess ≤ tail.flatten.length) :
    (trimTail excess tail tailBytes (min omitted usizeMax)).1.flatten = tail.flatten.drop excess ∧
    (trimTail excess tail tailBytes (min omitted usizeMax)).2.1 = tailBytes - excess ∧
    (trimTail excess tail tailBytes (min omitted usizeMax)).2.2 =
      min (omitted + excess) usizeMax := by
  induction tail generalizing excess tailBytes omitted with
  | nil =>
    obtain rfl : excess = 0 := Nat.le_zero.1 h
    exact ⟨rfl, rfl, rfl⟩
  | cons front tail ih =>
    rw [trimTail]
    split
    · rename_i hzero
      subst hzero
      exact ⟨rfl, rfl, rfl⟩
    split
    · rename_i hfront
      have hrest : excess - front.length ≤ tail.flatten.length := by
        rw [List.flatten_cons, List.length_append] at h
        omega
      rw [saturatingAdd_min]
      obtain ⟨hbytes, htail, homitted⟩ := ih (tailBytes - front.length)
        (omitted + front.length) hrest
      refine ⟨?_, ?_, ?_⟩
      · rw [hbytes, List.flatten_cons, List.drop_append, List.drop_eq_nil_of_le hfront,
          List.nil_append]
      · rw [htail, Nat.sub_sub, Nat.add_sub_of_le hfront]
      · rw [homitted, Nat.add_assoc, Nat.add_sub_of_le hfront]
    · rename_i hfront
      rw [saturatingAdd_min]
      exact ⟨by rw [List.flatten_cons, List.flatten_cons,
        List.drop_append_of_le_length (Nat.le_of_not_le hfront)], rfl, rfl⟩

/-- The budgets that a buffer is made with stay: each end has a half. -/
structure Budgeted (maxBytes : UInt64) (b : HeadTailBuffer) : Prop where
  maxBytes_eq : b.maxBytes = maxBytes.toNat
  headBudget : b.headBudget = maxBytes.toNat / 2
  tailBudget : b.tailBudget = maxBytes.toNat - maxBytes.toNat / 2

/-- The buffer holds the two ends of the bytes that it was given, and counts them right; the count
of what it omits stops at the largest `usize`. -/
structure Holds (maxBytes : UInt64) (b : HeadTailBuffer) (given : List UInt8) : Prop
    extends Budgeted maxBytes b where
  head : b.head.flatten = given.take b.headBudget
  tail : b.tail.flatten = (given.drop b.headBudget).rtake b.tailBudget
  headBytes : b.headBytes = min b.headBudget given.length
  tailBytes : b.tailBytes = min b.tailBudget (given.length - b.headBudget)
  omittedBytes : b.omittedBytes =
    min (given.length - b.headBudget - b.tailBudget) usizeMax

theorem toNat_le_usizeMax (maxBytes : UInt64) : maxBytes.toNat ≤ usizeMax :=
  Nat.le_sub_one_of_lt maxBytes.toNat_lt

theorem Holds.new (maxBytes : UInt64) : Holds maxBytes (.new maxBytes) [] where
  maxBytes_eq := rfl
  headBudget := rfl
  tailBudget := rfl
  head := (List.take_nil).symm
  tail := by rw [List.drop_nil, List.rtake, List.drop_nil]; rfl
  headBytes := by rw [List.length_nil, Nat.min_zero]; rfl
  tailBytes := by rw [List.length_nil, Nat.zero_sub, Nat.min_zero]; rfl
  omittedBytes := by rw [List.length_nil, Nat.zero_sub, Nat.zero_sub, Nat.zero_min]; rfl

/-- Once the head is full, the tail takes a chunk. -/
theorem Holds.pushToTail (h : Holds maxBytes b given) (chunk : Chunk)
    (hfull : b.headBudget ≤ given.length) :
    Holds maxBytes (b.pushToTail chunk) (given ++ chunk) := by
  have hdrop : (given ++ chunk).drop b.headBudget = given.drop b.headBudget ++ chunk :=
    List.drop_append_of_le_length hfull
  have hhead : b.head.flatten = (given ++ chunk).take b.headBudget := by
    rw [h.head, List.take_append_of_le_length hfull]
  have hheadBytes : b.headBytes = min b.headBudget (given ++ chunk).length := by
    rw [h.headBytes, List.length_append]
    omega
  have hlength : (given ++ chunk).length = given.length + chunk.length := List.length_append
  have htailBytes := h.tailBytes
  unfold HeadTailBuffer.pushToTail
  split
  · -- no budget for a tail: the whole chunk is omitted
    rename_i hzero
    refine ⟨⟨h.maxBytes_eq, h.headBudget, h.tailBudget⟩, hhead, ?_, hheadBytes, ?_, ?_⟩
    · rw [h.tail, hzero, List.rtake_zero, List.rtake_zero]
    · rw [htailBytes, hzero, Nat.zero_min, Nat.zero_min]
    · dsimp only
      rw [h.omittedBytes, saturatingAdd_min, hlength]
      congr 1
      omega
  split
  · -- the chunk alone fills the tail
    rename_i hpos hlarge
    have hkept : (chunk.drop (chunk.length - b.tailBudget)).length = b.tailBudget := by
      rw [List.length_drop]
      omega
    refine ⟨⟨h.maxBytes_eq, h.headBudget, h.tailBudget⟩, hhead, ?_, hheadBytes, ?_, ?_⟩
    · rw [hdrop, rtake_append_of_le hlarge, List.rtake]
      exact List.flatten_singleton
    · dsimp only
      rw [hkept, hlength]
      omega
    · dsimp only
      rw [h.omittedBytes, saturatingAdd_min, saturatingAdd_min, hkept, hlength, htailBytes]
      congr 1
      omega
  · -- the chunk joins the tail, and the front of the tail goes
    rename_i hpos hsmall
    have hfit : b.tailBytes + chunk.length ≤ usizeMax := by
      have hmax := toNat_le_usizeMax maxBytes
      have hbudget := h.tailBudget
      omega
    have htail : (b.tail ++ [chunk]).flatten = b.tail.flatten ++ chunk := by
      rw [List.flatten_append, List.flatten_singleton]
    have htailLength : b.tail.flatten.length = b.tailBytes := by
      rw [h.tail, length_rtake, List.length_drop, htailBytes]
    have hexcess : b.tailBytes + chunk.length - b.tailBudget ≤
        (b.tail ++ [chunk]).flatten.length := by
      rw [htail, List.length_append, htailLength]
      omega
    obtain ⟨hbytes, htailCount, homittedCount⟩ := trimTail_spec (b.tailBytes + chunk.length)
      (given.length - b.headBudget - b.tailBudget) hexcess
    rw [HeadTailBuffer.trimTailToBudget]
    dsimp only
    rw [saturatingAdd_of_le hfit, h.omittedBytes]
    refine ⟨⟨h.maxBytes_eq, h.headBudget, h.tailBudget⟩, hhead, ?_, hheadBytes, ?_, ?_⟩
    · have hcut : (b.tail.flatten ++ chunk).length - b.tailBudget =
          b.tailBytes + chunk.length - b.tailBudget := by
        rw [List.length_append, htailLength]
      rw [hbytes, htail, ← hcut, hdrop, ← rtake_append_rtake, ← h.tail, List.rtake]
    · refine htailCount.trans ?_
      rw [hlength]
      dsimp only
      omega
    · refine homittedCount.trans ?_
      rw [hlength]
      dsimp only
      congr 1
      omega

/-- While the head has room for a chunk, the head takes it. -/
theorem Holds.pushHead (h : Holds maxBytes b given)
    (hfits : given.length + chunk.length ≤ b.headBudget) :
    Holds maxBytes { b with
      headBytes := saturatingAdd b.headBytes chunk.length
      head := b.head ++ [chunk] } (given ++ chunk) := by
  have hmax := toNat_le_usizeMax maxBytes
  have hbudget := h.headBudget
  have hheadBytes := h.headBytes
  have hlength : (given ++ chunk).length = given.length + chunk.length := List.length_append
  refine ⟨⟨h.maxBytes_eq, h.headBudget, h.tailBudget⟩, ?_, ?_, ?_, ?_, ?_⟩
  · rw [List.flatten_append, List.flatten_singleton, h.head,
      List.take_of_length_le (le_trans (Nat.le_add_right _ _) hfits),
      List.take_of_length_le (by rw [hlength]; exact hfits)]
  · dsimp only
    rw [h.tail, List.drop_eq_nil_of_le (le_trans (Nat.le_add_right _ _) hfits),
      List.drop_eq_nil_of_le (by rw [hlength]; exact hfits)]
  · dsimp only
    rw [saturatingAdd_of_le (by omega), hlength]
    omega
  · dsimp only
    rw [h.tailBytes, hlength]
    omega
  · dsimp only
    rw [h.omittedBytes, hlength]
    congr 1
    omega

theorem Holds.pushChunk (h : Holds maxBytes b given) :
    Holds maxBytes (b.pushChunk chunk) (given ++ chunk) := by
  have hheadBytes := h.headBytes
  have hlength : (given ++ chunk).length = given.length + chunk.length := List.length_append
  unfold HeadTailBuffer.pushChunk
  split
  · -- nothing is kept at all
    rename_i hzero
    have hmax : maxBytes.toNat = 0 := by rw [← h.maxBytes_eq, hzero]
    have hhead : b.headBudget = 0 := by rw [h.headBudget, hmax]
    have htail : b.tailBudget = 0 := by rw [h.tailBudget, hmax]
    refine ⟨⟨h.maxBytes_eq, h.headBudget, h.tailBudget⟩, ?_, ?_, ?_, ?_, ?_⟩
    · rw [h.head, hhead, List.take_zero, List.take_zero]
    · rw [h.tail, htail, List.rtake_zero, List.rtake_zero]
    · rw [h.headBytes, hhead, Nat.zero_min, Nat.zero_min]
    · rw [h.tailBytes, htail, Nat.zero_min, Nat.zero_min]
    · dsimp only
      rw [h.omittedBytes, saturatingAdd_min, hlength]
      congr 1
      omega
  split
  · rename_i hpos hroom
    dsimp only
    split
    · exact h.pushHead (by omega)
    · -- the chunk is split where the head is full
      rename_i hlarge
      have hpart : (chunk.take (b.headBudget - b.headBytes)).length =
          b.headBudget - b.headBytes := by
        rw [List.length_take]
        omega
      have hne : (chunk.take (b.headBudget - b.headBytes)).isEmpty = false := by
        rw [List.isEmpty_eq_false_iff_exists_mem]
        exact List.exists_mem_of_length_pos (by omega)
      have hfits : given.length + (chunk.take (b.headBudget - b.headBytes)).length ≤
          b.headBudget := by omega
      have hfull : b.headBudget ≤
          (given ++ chunk.take (b.headBudget - b.headBytes)).length := by
        rw [List.length_append, hpart]
        omega
      have hfilled := (h.pushHead hfits).pushToTail
        (chunk.drop (b.headBudget - b.headBytes)) hfull
      rw [List.append_assoc, List.take_append_drop] at hfilled
      rw [hne]
      exact hfilled
  · rename_i hpos hfull
    exact h.pushToTail chunk (by omega)

theorem Holds.drainChunks (h : Holds maxBytes b given) :
    Holds maxBytes b.drainChunks.2 [] where
  maxBytes_eq := h.maxBytes_eq
  headBudget := h.headBudget
  tailBudget := h.tailBudget
  head := List.take_nil.symm
  tail := by rw [List.drop_nil, List.rtake, List.drop_nil]; rfl
  headBytes := (Nat.min_zero _).symm
  tailBytes := by rw [List.length_nil, Nat.zero_sub, Nat.min_zero]; rfl
  omittedBytes := by rw [List.length_nil, Nat.zero_sub, Nat.zero_sub, Nat.zero_min]; rfl

/-- The bytes that it returns, by chunk or all together. -/
theorem Holds.toBytes (h : Holds maxBytes b given) :
    b.toBytes = ends b.headBudget b.tailBudget given ∧
      b.snapshotChunks.flatten = b.toBytes ∧ b.drainChunks.1.flatten = b.toBytes := by
  refine ⟨?_, List.flatten_append, List.flatten_append⟩
  rw [HeadTailBuffer.toBytes, h.head, h.tail, ends]

theorem Holds.retainedBytes (h : Holds maxBytes b given) :
    b.retainedBytes = b.toBytes.length ∧ b.retainedBytes ≤ maxBytes.toNat := by
  have hhead := h.headBytes
  have htail := h.tailBytes
  have hheadBudget := h.headBudget
  have htailBudget := h.tailBudget
  have hmax := toNat_le_usizeMax maxBytes
  have hsum : b.retainedBytes = b.headBytes + b.tailBytes := saturatingAdd_of_le (by omega)
  rw [h.toBytes.1, length_ends, hsum]
  omega

end

/-! ## Runs -/

/-- What the process does with its buffer. -/
inductive BufferEvent where
  | pushChunk (chunk : Chunk)
  | drainChunks
  deriving DecidableEq, Repr

def HeadTailBuffer.handle (b : HeadTailBuffer) : BufferEvent → HeadTailBuffer
  | .pushChunk chunk => b.pushChunk chunk
  | .drainChunks => b.drainChunks.2

/-- The buffer after a sequence of events. -/
def HeadTailBuffer.run (maxBytes : UInt64) (events : List BufferEvent) : HeadTailBuffer :=
  events.foldl HeadTailBuffer.handle (.new maxBytes)

/-- The bytes that were given since the last drain. -/
def sinceDrain (events : List BufferEvent) : List UInt8 :=
  events.foldl (fun given event => match event with
    | .pushChunk chunk => given ++ chunk
    | .drainChunks => []) []

theorem holds_run (maxBytes : UInt64) (events : List BufferEvent) :
    Holds maxBytes (.run maxBytes events) (sinceDrain events) := by
  induction events using List.reverseRecOn with
  | nil => exact Holds.new maxBytes
  | append_singleton events event ih =>
    rw [HeadTailBuffer.run, sinceDrain, List.foldl_append, List.foldl_append]
    cases event with
    | pushChunk chunk => exact Holds.pushChunk ih
    | drainChunks => exact Holds.drainChunks ih

/-- Whatever the chunks, the two ends of what was given since the last drain are kept, within the
budget. The bytes in between are counted as omitted, up to the largest `usize`. -/
theorem run_keeps_ends (maxBytes : UInt64) (events : List BufferEvent) :
    (HeadTailBuffer.run maxBytes events).toBytes =
        ends (maxBytes.toNat / 2) (maxBytes.toNat - maxBytes.toNat / 2) (sinceDrain events) ∧
      (HeadTailBuffer.run maxBytes events).drainChunks.1.flatten =
        (HeadTailBuffer.run maxBytes events).toBytes ∧
      (HeadTailBuffer.run maxBytes events).retainedBytes =
        (HeadTailBuffer.run maxBytes events).toBytes.length ∧
      (HeadTailBuffer.run maxBytes events).retainedBytes ≤ maxBytes.toNat ∧
      (HeadTailBuffer.run maxBytes events).omittedBytes =
        min ((sinceDrain events).length - (HeadTailBuffer.run maxBytes events).retainedBytes)
          usizeMax := by
  have h := holds_run maxBytes events
  obtain ⟨hbytes, -, hdrained⟩ := h.toBytes
  obtain ⟨hretained, hle⟩ := h.retainedBytes
  rw [h.headBudget, h.tailBudget] at hbytes
  refine ⟨hbytes, hdrained, hretained, hle, ?_⟩
  rw [hretained, hbytes, length_ends, h.omittedBytes, h.headBudget, h.tailBudget]
  congr 1
  omega

/-- Three chunks as long as a `Vec` may be are more bytes than a `usize` counts. -/
theorem omittedBytes_saturates :
    (HeadTailBuffer.run 0 (List.replicate 3
        (.pushChunk (List.replicate (2 ^ 63 - 1) 0)))).omittedBytes +
      (HeadTailBuffer.run 0 (List.replicate 3
        (.pushChunk (List.replicate (2 ^ 63 - 1) 0)))).retainedBytes ≠
      (sinceDrain (List.replicate 3 (.pushChunk (List.replicate (2 ^ 63 - 1) 0)))).length := by
  have hchunk : (List.replicate (2 ^ 63 - 1) (0 : UInt8)).length = 2 ^ 63 - 1 :=
    List.length_replicate
  generalize List.replicate (2 ^ 63 - 1) (0 : UInt8) = chunk at hchunk ⊢
  have h := holds_run 0 (List.replicate 3 (.pushChunk chunk))
  have hgiven : (sinceDrain (List.replicate 3 (.pushChunk chunk))).length = 3 * (2 ^ 63 - 1) := by
    change ([] ++ chunk ++ chunk ++ chunk).length = _
    rw [List.length_append, List.length_append, List.length_append, hchunk]
    rfl
  have hretained : _ ≤ (0 : UInt64).toNat := h.retainedBytes.2
  have homitted : _ ≤ usizeMax := h.omittedBytes ▸ Nat.min_le_right _ _
  rw [UInt64.toNat_zero] at hretained
  rw [hgiven]
  rw [usizeMax] at homitted
  omega

end Mcodex.UnifiedExec
