import Mcodex.Lib.Retention

/-!
# Running processes

A process numbers its events: output chunks, its exit, and that it is closed. It retains the newest
chunks for reads, which page through them from a sequence number on.
-/

namespace Mcodex.ExecServer

open Retention

inductive ExecOutputStream
  | stdout
  | stderr
  | pty
  deriving DecidableEq

structure ProcessOutputChunk where
  seq : Nat
  stream : ExecOutputStream
  chunk : List UInt8
  deriving DecidableEq

inductive ExecProcessEvent
  | output (chunk : ProcessOutputChunk)
  | exited (seq : Nat) (exitCode : Int)
  | closed (seq : Nat)
  | failed (message : String)
  deriving DecidableEq

namespace ExecProcessEvent

def seq : ExecProcessEvent → Option Nat
  | output chunk => some chunk.seq
  | exited seq _ | closed seq => some seq
  | failed _ => none

def retainedLen : ExecProcessEvent → Nat
  | output chunk => chunk.chunk.length
  | failed message => message.utf8ByteSize
  | exited _ _ | closed _ => 0

def isExited : ExecProcessEvent → Bool
  | exited _ _ => true
  | output _ | closed _ | failed _ => false

def isClosed : ExecProcessEvent → Bool
  | closed _ => true
  | output _ | exited _ _ | failed _ => false

end ExecProcessEvent

def retainedOutputBytesPerProcess : Nat := 1024 * 1024

/-- `usize::MAX`. -/
def usizeMax : Nat := 2 ^ 64 - 1

structure ReadResponse where
  chunks : List ProcessOutputChunk
  nextSeq : Nat
  exited : Bool
  exitCode : Option Int
  closed : Bool
  deriving DecidableEq

structure RunningProcess where
  output : List ProcessOutputChunk
  retainedBytes : Nat
  nextSeq : Nat
  exitCode : Option Int
  openStreams : Nat
  closed : Bool
  deriving DecidableEq

namespace RunningProcess

def new : RunningProcess where
  output := []
  retainedBytes := 0
  nextSeq := 1
  exitCode := none
  openStreams := 2
  closed := false

variable (process : RunningProcess)

/-! ## Events -/

/-- The chunks that are retained once a chunk is appended, and the bytes of them. -/
def retained (chunk : ProcessOutputChunk) : List ProcessOutputChunk × Nat :=
  retain (·.chunk.length) (fun _ bytes => retainedOutputBytesPerProcess < bytes)
    (process.output ++ [chunk]) (process.retainedBytes + chunk.chunk.length)

/-- The chunks that go once a chunk is appended. -/
def evictedBy (chunk : ProcessOutputChunk) : List ProcessOutputChunk :=
  evicted (·.chunk.length) (fun _ bytes => retainedOutputBytesPerProcess < bytes)
    (process.output ++ [chunk]) (process.retainedBytes + chunk.chunk.length)

/-- `stream_output` for one chunk. -/
def pushOutput (stream : ExecOutputStream) (bytes : List UInt8) :
    ProcessOutputChunk × RunningProcess :=
  let chunk : ProcessOutputChunk := ⟨process.nextSeq, stream, bytes⟩
  (chunk, { process with
    output := (process.retained chunk).1
    retainedBytes := (process.retained chunk).2
    nextSeq := process.nextSeq + 1 })

/-- `watch_exit`. -/
def exit (exitCode : Int) : ExecProcessEvent × RunningProcess :=
  (.exited process.nextSeq exitCode,
    { process with nextSeq := process.nextSeq + 1, exitCode := some exitCode })

def finishOutputStream : RunningProcess :=
  if process.openStreams > 0 then { process with openStreams := process.openStreams - 1 }
  else process

def maybeEmitClosed : Option (ExecProcessEvent × RunningProcess) :=
  if process.closed || process.openStreams != 0 || process.exitCode.isNone then none
  else some (.closed process.nextSeq,
    { process with nextSeq := process.nextSeq + 1, closed := true })

/-! ## Reads -/

/-- The chunks of a page after those already in it, which have `totalBytes`. -/
def readLoop (maxBytes : Nat) : List ProcessOutputChunk → List ProcessOutputChunk → Nat → Nat →
    List ProcessOutputChunk × Nat
  | [], chunks, _, nextSeq => (chunks, nextSeq)
  | retained :: rest, chunks, totalBytes, nextSeq =>
    if chunks ≠ [] ∧ totalBytes + retained.chunk.length > maxBytes then (chunks, nextSeq)
    else if totalBytes + retained.chunk.length ≥ maxBytes then
      (chunks ++ [retained], retained.seq + 1)
    else readLoop maxBytes rest (chunks ++ [retained]) (totalBytes + retained.chunk.length)
      (retained.seq + 1)

/-- The response that `exec_read` computes under the lock. -/
def readResponse (afterSeq maxBytes : Nat) : ReadResponse :=
  let page := readLoop maxBytes (process.output.filter (afterSeq < ·.seq)) [] 0 process.nextSeq
  { chunks := page.1
    nextSeq := page.2
    exited := process.exitCode.isSome
    exitCode := process.exitCode
    closed := process.closed }

end RunningProcess

/-- `exec_read` returns the response without waiting for the deadline. -/
def ReadResponse.isReady (response : ReadResponse) (afterSeq : Nat) : Bool :=
  response.chunks ≠ [] || response.closed || (response.exited && afterSeq < response.nextSeq - 1)

/-! ## Pages -/

section
variable {maxBytes totalBytes nextSeq afterSeq : Nat} {retained chunks : List ProcessOutputChunk}

/-- A page goes on with the next chunks, and the next read with those after the page. -/
theorem RunningProcess.readLoop_spec :
    ∃ taken rest, retained = taken ++ rest ∧
      (readLoop maxBytes retained chunks totalBytes nextSeq).1 = chunks ++ taken ∧
      (readLoop maxBytes retained chunks totalBytes nextSeq).2 =
        ((taken.getLast?.map (·.seq + 1)).getD nextSeq) ∧
      (chunks = [] → retained ≠ [] → taken ≠ []) ∧
      (totalBytes + (retained.map (·.chunk.length)).sum < maxBytes → rest = []) := by
  induction retained generalizing chunks totalBytes nextSeq with
  | nil => exact ⟨[], [], rfl, (List.append_nil chunks).symm, rfl, fun _ h => h, fun _ => rfl⟩
  | cons chunk retained ih =>
    rw [readLoop, List.map_cons, List.sum_cons]
    split
    · rename_i hstop
      refine ⟨[], chunk :: retained, rfl, (List.append_nil chunks).symm, rfl,
        fun hnil => absurd hnil hstop.1, fun hlt => ?_⟩
      omega
    · split
      · exact ⟨[chunk], retained, rfl, rfl, rfl, fun _ _ => List.cons_ne_nil _ _,
          fun hlt => by omega⟩
      · obtain ⟨taken, rest, heq, hchunks, hnext, -, hall⟩ := @ih
          (totalBytes + chunk.chunk.length) (chunk.seq + 1) (chunks ++ [chunk])
        refine ⟨chunk :: taken, rest, congrArg _ heq, ?_, ?_, fun _ _ => List.cons_ne_nil _ _,
          fun hlt => hall (by omega)⟩
        · rw [hchunks, List.append_assoc]
          rfl
        · rw [hnext, List.getLast?_cons]
          cases taken.getLast? <;> rfl

/-- What a read gets of the retained chunks, whose numbers increase up to the next one. -/
structure ReadResponse.Pages (response : ReadResponse) (process : RunningProcess)
    (afterSeq : Nat) : Prop where
  mem : ∀ chunk ∈ response.chunks,
    chunk ∈ process.output ∧ afterSeq < chunk.seq ∧ chunk.seq < response.nextSeq
  increasing : response.chunks.Pairwise (·.seq < ·.seq)
  complete : ∀ chunk ∈ process.output, afterSeq < chunk.seq → chunk.seq < response.nextSeq →
    chunk ∈ response.chunks
  le : response.nextSeq ≤ process.nextSeq
  after : afterSeq < process.nextSeq → afterSeq < response.nextSeq

theorem RunningProcess.readResponse_pages {process : RunningProcess}
    (hincreasing : process.output.Pairwise (·.seq < ·.seq))
    (hlt : ∀ chunk ∈ process.output, chunk.seq < process.nextSeq) (afterSeq maxBytes : Nat) :
    (process.readResponse afterSeq maxBytes).Pages process afterSeq := by
  obtain ⟨taken, rest, heq, hchunks, hnext, hsome, -⟩ :=
    @readLoop_spec maxBytes 0 process.nextSeq (process.output.filter (afterSeq < ·.seq)) []
  have hchunks : (process.readResponse afterSeq maxBytes).chunks = taken := hchunks
  have hnext : (process.readResponse afterSeq maxBytes).nextSeq =
      (taken.getLast?.map (·.seq + 1)).getD process.nextSeq := hnext
  have hmem {chunk : ProcessOutputChunk} : chunk ∈ process.output ∧ afterSeq < chunk.seq ↔
      chunk ∈ taken ∨ chunk ∈ rest := by
    rw [← List.mem_append, ← heq, List.mem_filter, decide_eq_true_iff]
  have hsorted : (taken ++ rest).Pairwise fun chunk chunk' => chunk.seq < chunk'.seq := by
    rw [← heq]
    exact hincreasing.filter _
  obtain ⟨htaken, -, hbefore⟩ := List.pairwise_append.1 hsorted
  have hget {chunk : ProcessOutputChunk} (htaken : chunk ∈ taken) :=
    hmem.2 (.inl htaken : chunk ∈ taken ∨ chunk ∈ rest)
  rcases List.eq_nil_or_concat taken with rfl | ⟨front, last, rfl⟩
  · have hnil : rest = [] := by
      by_contra hne
      exact hsome rfl (by rwa [heq]) rfl
    rw [List.getLast?_nil] at hnext
    exact {
      mem := fun chunk hchunk => by
        rw [hchunks] at hchunk
        cases hchunk
      increasing := hchunks ▸ .nil
      complete := fun chunk hchunk hafter _ => by
        have hnone := hmem.1 ⟨hchunk, hafter⟩
        rw [hnil] at hnone
        exact absurd hnone (by simp)
      le := hnext.le
      after := fun hlt => hnext ▸ hlt }
  · rw [List.concat_eq_append] at hchunks htaken hbefore hget hmem hnext
    rw [List.getLast?_concat, Option.map_some, Option.getD_some] at hnext
    obtain ⟨hlast, hafter⟩ := hget (List.mem_append_right front (List.mem_singleton_self last))
    exact {
      mem := fun chunk hchunk => by
        rw [hchunks] at hchunk
        refine ⟨(hget hchunk).1, (hget hchunk).2, ?_⟩
        rw [hnext, Nat.lt_succ_iff]
        rcases List.mem_append.1 hchunk with hfront | heq
        · exact ((List.pairwise_append.1 htaken).2.2 chunk hfront last
            (List.mem_singleton_self last)).le
        · rw [List.mem_singleton.1 heq]
      increasing := hchunks ▸ htaken
      complete := fun chunk hchunk hafter hlt => by
        rw [hchunks]
        refine (hmem.1 ⟨hchunk, hafter⟩).resolve_right fun hrest => ?_
        have hlater := hbefore last (List.mem_append_right front (List.mem_singleton_self last))
          chunk hrest
        omega
      le := hnext ▸ hlt last hlast
      after := fun _ => by
        rw [hnext]
        omega }

/-- A read without a bound gets all that is retained. -/
theorem RunningProcess.readResponse_complete {process : RunningProcess} {afterSeq maxBytes : Nat}
    (hfew : (process.output.map (·.chunk.length)).sum < maxBytes) {chunk : ProcessOutputChunk}
    (hchunk : chunk ∈ process.output) (hafter : afterSeq < chunk.seq) :
    chunk ∈ (process.readResponse afterSeq maxBytes).chunks := by
  obtain ⟨taken, rest, heq, hchunks, -, -, hall⟩ :=
    @readLoop_spec maxBytes 0 process.nextSeq (process.output.filter (afterSeq < ·.seq)) []
  have hsum : ((process.output.filter (afterSeq < ·.seq)).map (·.chunk.length)).sum ≤
      (process.output.map (·.chunk.length)).sum :=
    (List.filter_sublist.map _).sum_le_sum fun _ _ => Nat.zero_le _
  have hrest : rest = [] := hall (by omega)
  show chunk ∈ (readLoop maxBytes _ [] 0 process.nextSeq).1
  rw [hchunks, List.nil_append, ← List.append_nil taken, ← hrest, ← heq]
  exact List.mem_filter.2 ⟨hchunk, decide_eq_true hafter⟩

end

end Mcodex.ExecServer
