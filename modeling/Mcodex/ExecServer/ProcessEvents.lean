import Mcodex.Lib.Transition
import Mcodex.ExecServer.RunningProcess

/-!
# The events of one process

Two tasks log the output streams of a process and one its exit, each under the lock of the process
table, and each then looks whether the process can be closed. A reader pages through what is
retained, from the last number it knows.
-/

namespace Mcodex.ExecServer

open Retention Transition

/-! ## The process and its tasks -/

inductive Pipe
  | stdout
  | stderr
  deriving DecidableEq

inductive StreamPhase
  | reading
  | finishing
  | closing
  | ended
  deriving DecidableEq

/-- A `stream_output` task: the chunks that were sent to it, and whether more may come. -/
structure StreamOutput where
  stream : ExecOutputStream
  queue : List (List UInt8)
  isOpen : Bool
  phase : StreamPhase

/-- The task has not decremented `open_streams`. -/
def StreamOutput.live (task : StreamOutput) : Nat :=
  match task.phase with
  | .reading | .finishing => 1
  | .closing | .ended => 0

inductive ExitPhase
  | waiting
  | closing
  | ended
  deriving DecidableEq

/-- A reader that passes `after_seq = next_seq - 1`. -/
structure Reader where
  afterSeq : Nat
  received : List ProcessOutputChunk
  /-- A response had `closed = true`. -/
  sawClosed : Bool
  /-- No read gave `max_bytes`. -/
  unbounded : Bool

/-- A process, its tasks and one reader; `events` are those published, and `evicted` the chunks that
the limit on retained bytes has evicted. -/
structure ProcessRun where
  process : Option RunningProcess
  tasks : Pipe → StreamOutput
  exit : ExitPhase
  /-- The retention task sleeps. -/
  retention : Bool
  events : List ExecProcessEvent
  evicted : List ProcessOutputChunk
  reader : Reader

namespace ProcessRun

def new (tty : Bool) : ProcessRun where
  process := some .new
  tasks
    | .stdout => ⟨if tty then .pty else .stdout, [], true, .reading⟩
    | .stderr => ⟨if tty then .pty else .stderr, [], true, .reading⟩
  exit := .waiting
  retention := false
  events := []
  evicted := []
  reader := ⟨0, [], false, true⟩

variable (t : ProcessRun)

def setTask (pipe : Pipe) (task : StreamOutput) : ProcessRun :=
  { t with tasks := fun pipe' => if pipe' = pipe then task else t.tasks pipe' }

def setPhase (pipe : Pipe) (phase : StreamPhase) : ProcessRun :=
  t.setTask pipe { t.tasks pipe with phase }

/-- The lock section of `stream_output`. -/
def pushOutput (process : RunningProcess) (stream : ExecOutputStream) (bytes : List UInt8) :
    ProcessRun :=
  let (chunk, process') := process.pushOutput stream bytes
  { t with
    process := some process'
    events := t.events ++ [.output chunk]
    evicted := t.evicted ++ process.evictedBy chunk }

/-- The lock section of `watch_exit`. -/
def watchExit (exitCode : Int) : ProcessRun :=
  match t.process with
  | some process =>
    { t with
      process := some (process.exit exitCode).2
      events := t.events ++ [(process.exit exitCode).1] }
  | none => t

/-- The lock section of `maybe_emit_closed`. -/
def maybeEmitClosed : ProcessRun :=
  match t.process.bind (·.maybeEmitClosed) with
  | some (event, process) =>
    { t with process := some process, events := t.events ++ [event], retention := true }
  | none => t

/-- What `exec_read` computes in one round. -/
def readResponse (afterSeq : Nat) (maxBytes : Option Nat) : Option ReadResponse :=
  t.process.map (·.readResponse afterSeq (maxBytes.getD usizeMax))

/-- The reader gets a response. -/
def receive (maxBytes : Option Nat) (response : ReadResponse) : ProcessRun :=
  { t with
    reader :=
      { afterSeq := response.nextSeq - 1
        received := t.reader.received ++ response.chunks
        sawClosed := t.reader.sawClosed || response.closed
        unbounded := t.reader.unbounded && maxBytes.isNone } }

end ProcessRun

inductive ProcessStep
  | send (pipe : Pipe) (bytes : List UInt8)
  | close (pipe : Pipe)
  | output (pipe : Pipe)
  | finish (pipe : Pipe)
  | closeAfterOutput (pipe : Pipe)
  | exit (exitCode : Int)
  | closeAfterExit
  | retention
  | shutdown
  | read (maxBytes : Option Nat)

/-- The steps of the tasks, one for each section that holds the lock. Reads of others than the
reader change nothing. -/
inductive Logs : ProcessRun → ProcessStep → ProcessRun → Prop
  | send {t pipe bytes} (hopen : (t.tasks pipe).isOpen) :
    Logs t (.send pipe bytes)
      (t.setTask pipe { t.tasks pipe with queue := (t.tasks pipe).queue ++ [bytes] })
  | close {t pipe} : Logs t (.close pipe) (t.setTask pipe { t.tasks pipe with isOpen := false })
  | output {t pipe bytes queue process} (hphase : (t.tasks pipe).phase = .reading)
    (hqueue : (t.tasks pipe).queue = bytes :: queue) (hprocess : t.process = some process) :
    Logs t (.output pipe) ((t.pushOutput process (t.tasks pipe).stream bytes).setTask pipe
      { t.tasks pipe with queue })
  | outputUnknown {t pipe bytes queue} (hphase : (t.tasks pipe).phase = .reading)
    (hqueue : (t.tasks pipe).queue = bytes :: queue) (hprocess : t.process = none) :
    Logs t (.output pipe) (t.setTask pipe { t.tasks pipe with queue, phase := .finishing })
  | outputEnd {t pipe} (hphase : (t.tasks pipe).phase = .reading)
    (hqueue : (t.tasks pipe).queue = []) (hopen : (t.tasks pipe).isOpen = false) :
    Logs t (.output pipe) (t.setPhase pipe .finishing)
  | finish {t pipe process} (hphase : (t.tasks pipe).phase = .finishing)
    (hprocess : t.process = some process) :
    Logs t (.finish pipe)
      { t.setPhase pipe .closing with process := some process.finishOutputStream }
  | finishUnknown {t pipe} (hphase : (t.tasks pipe).phase = .finishing)
    (hprocess : t.process = none) : Logs t (.finish pipe) (t.setPhase pipe .ended)
  | closeAfterOutput {t pipe} (hphase : (t.tasks pipe).phase = .closing) :
    Logs t (.closeAfterOutput pipe) (t.maybeEmitClosed.setPhase pipe .ended)
  | exit {t exitCode} (hexit : t.exit = .waiting) :
    Logs t (.exit exitCode) { t.watchExit exitCode with exit := .closing }
  | closeAfterExit {t} (hexit : t.exit = .closing) :
    Logs t .closeAfterExit { t.maybeEmitClosed with exit := .ended }
  | retention {t} (hretention : t.retention) :
    Logs t .retention { t with process := t.process.filter (!·.closed), retention := false }
  | shutdown {t} : Logs t .shutdown { t with process := none }
  | read {t maxBytes response} (timedOut : Bool)
    (hresponse : t.readResponse t.reader.afterSeq maxBytes = some response)
    (hready : response.isReady t.reader.afterSeq || timedOut) :
    Logs t (.read maxBytes) (t.receive maxBytes response)

/-- A process that was started in a terminal, or with pipes. -/
def processEvents (tty : Bool) : System ProcessRun ProcessStep where
  init t := t = .new tty
  step := Logs

/-! ## Numbering and closing -/

section
variable {t t' : ProcessRun} {process process' : RunningProcess} {pipe : Pipe}
  {task : StreamOutput} {event : ExecProcessEvent}

/-- What the tasks keep: events are numbered, the exit is logged once, and nothing comes after the
process is closed, which both streams and the exit precede. -/
structure Logged (t : ProcessRun) : Prop where
  numbered : t.events.map (·.seq) = (List.range' 1 t.events.length).map some
  next : ∀ process ∈ t.process, process.nextSeq = t.events.length + 1
  exited : t.events.countP (·.isExited) ≤ if t.exit = .waiting then 0 else 1
  exitCode : ∀ process ∈ t.process, process.exitCode.isSome = t.events.any (·.isExited)
  openStreams : ∀ process ∈ t.process,
    process.openStreams = (t.tasks .stdout).live + (t.tasks .stderr).live
  closed : ∀ process ∈ t.process, process.closed = t.events.any (·.isClosed)
  last : ∀ before event after, t.events = before ++ event :: after → event.isClosed →
    after = [] ∧ before.any (·.isExited)
  ended : t.events.any (·.isClosed) → t.exit ≠ .waiting ∧ ∀ pipe, (t.tasks pipe).live = 0
  drained : ∀ pipe, (t.tasks pipe).phase ≠ .reading →
    (t.tasks pipe).queue = [] ∧ (t.tasks pipe).isOpen = false ∨
      t.process = none ∧ t.events.any (·.isClosed) = false

namespace Logged

theorem tasks_setTask (pipe' : Pipe) :
    (t.setTask pipe task).tasks pipe' = if pipe' = pipe then task else t.tasks pipe' := rfl

theorem new (tty : Bool) : Logged (.new tty) where
  numbered := rfl
  next process h := by
    cases h
    rfl
  exited := le_refl 0
  exitCode process h := by
    cases h
    rfl
  openStreams process h := by
    cases h
    rfl
  closed process h := by
    cases h
    rfl
  last before event after heq := by
    have hlength := congrArg List.length heq
    simp [ProcessRun.new] at hlength
  ended hclosed := nomatch hclosed
  drained pipe hphase := by cases pipe <;> exact absurd rfl hphase

/-- A task goes on without its process, or without finishing. -/
theorem setTask (h : Logged t) (hle : task.live ≤ (t.tasks pipe).live)
    (hlive : t.process ≠ none → task.live = (t.tasks pipe).live)
    (hdrained : task.phase ≠ .reading → task.queue = [] ∧ task.isOpen = false ∨
      t.process = none ∧ t.events.any (·.isClosed) = false) : Logged (t.setTask pipe task) where
  numbered := h.numbered
  next := h.next
  exited := h.exited
  exitCode := h.exitCode
  openStreams process hprocess := by
    have hsame : ∀ pipe', ((t.setTask pipe task).tasks pipe').live = (t.tasks pipe').live := by
      intro pipe'
      rw [tasks_setTask]
      split
      · rename_i heq
        rw [heq]
        refine hlive fun hnone => ?_
        rw [show t.process = some process from hprocess] at hnone
        cases hnone
      · rfl
    rw [hsame, hsame]
    exact h.openStreams process hprocess
  closed := h.closed
  last := h.last
  ended hclosed := by
    refine ⟨(h.ended hclosed).1, fun pipe' => ?_⟩
    rw [tasks_setTask]
    split
    · exact Nat.le_zero.1 (((h.ended hclosed).2 pipe) ▸ hle)
    · exact (h.ended hclosed).2 pipe'
  drained pipe' := by
    rw [tasks_setTask]
    split
    · exact hdrained
    · exact h.drained pipe'

/-- The process may be removed. -/
theorem forget (h : Logged t) (process' : Option RunningProcess)
    (hsub : ∀ process ∈ process', process ∈ t.process) :
    Logged { t with process := process' } where
  numbered := h.numbered
  next process hprocess := h.next process (hsub process hprocess)
  exited := h.exited
  exitCode process hprocess := h.exitCode process (hsub process hprocess)
  openStreams process hprocess := h.openStreams process (hsub process hprocess)
  closed process hprocess := h.closed process (hsub process hprocess)
  last := h.last
  ended := h.ended
  drained pipe hphase := by
    refine (h.drained pipe hphase).imp_right fun ⟨hnone, hclosed⟩ => ⟨?_, hclosed⟩
    refine Option.eq_none_iff_forall_not_mem.2 fun process hprocess => ?_
    have hmem := hsub process hprocess
    rw [hnone] at hmem
    cases hmem

theorem numbered_append (h : Logged t) (hprocess : t.process = some process)
    (hseq : event.seq = some process.nextSeq) :
    (t.events ++ [event]).map (·.seq) =
      (List.range' 1 (t.events ++ [event]).length).map some := by
  rw [List.map_append, h.numbered, List.length_append, List.length_singleton,
    List.range'_1_concat, List.map_append, List.map_singleton, List.map_singleton, hseq,
    h.next process hprocess, Nat.add_comm]

theorem last_append (hnot : t.events.any (·.isClosed) = false)
    (hexited : event.isClosed → t.events.any (·.isExited)) :
    ∀ before event' after, t.events ++ [event] = before ++ event' :: after → event'.isClosed →
      after = [] ∧ before.any (·.isExited) := by
  intro before event' after heq hclosed
  rcases List.eq_nil_or_concat after with rfl | ⟨front, last, rfl⟩
  · obtain ⟨rfl, hlast⟩ := List.append_inj' heq rfl
    cases hlast
    exact ⟨rfl, hexited hclosed⟩
  · have hfront : t.events ++ [event] = (before ++ event' :: front) ++ [last] := by
      simpa using heq
    have hevents : t.events = before ++ event' :: front := (List.append_inj' hfront rfl).1
    rw [hevents, List.any_append, List.any_cons, hclosed] at hnot
    simp at hnot

/-- The process logs an event that is not the last one. -/
theorem append (h : Logged t) (event : ExecProcessEvent) (process' : RunningProcess)
    (hprocess : t.process = some process)
    (hseq : event.seq = some process.nextSeq) (hnext : process'.nextSeq = process.nextSeq + 1)
    (hopenStreams : process'.openStreams = process.openStreams)
    (hclosed : process'.closed = process.closed) (hnot : process.closed = false)
    (hevent : event.isClosed = false)
    (hexitCode : process'.exitCode.isSome = (process.exitCode.isSome || event.isExited))
    (hexit : event.isExited → t.exit = .waiting) (exit : ExitPhase)
    (hlater : event.isExited ∨ t.exit ≠ .waiting → exit ≠ .waiting)
    (evicted : List ProcessOutputChunk) :
    Logged { t with process := some process', events := t.events ++ [event], evicted, exit } where
  numbered := h.numbered_append hprocess hseq
  next _ heq := by
    cases heq
    rw [hnext, h.next process hprocess, List.length_append, List.length_singleton]
  exited := by
    have hcount := h.exited
    show (t.events ++ [event]).countP (·.isExited) ≤ if exit = .waiting then 0 else 1
    rw [List.countP_append, List.countP_singleton]
    cases hisExited : event.isExited with
    | true =>
      rw [if_pos (hexit hisExited)] at hcount
      rw [if_neg (hlater (.inl hisExited)), if_pos rfl]
      omega
    | false =>
      rw [if_neg Bool.false_ne_true, Nat.add_zero]
      refine hcount.trans ?_
      split
      · exact Nat.zero_le _
      · rename_i hwaiting
        rw [if_neg (hlater (.inr hwaiting))]
  exitCode _ heq := by
    cases heq
    rw [hexitCode, h.exitCode process hprocess, List.any_append, List.any_cons, List.any_nil,
      Bool.or_false]
  openStreams _ heq := by
    cases heq
    rw [hopenStreams, h.openStreams process hprocess]
  closed _ heq := by
    cases heq
    rw [hclosed, h.closed process hprocess, List.any_append, List.any_cons, hevent,
      List.any_nil, Bool.or_false, Bool.or_false]
  last := last_append ((h.closed process hprocess).symm.trans hnot) fun hclosed => by
    rw [hevent] at hclosed
    cases hclosed
  ended hsome := by
    have hnone := (h.closed process hprocess).symm.trans hnot
    have hsome : (t.events ++ [event]).any (·.isClosed) := hsome
    rw [List.any_append, List.any_cons, hnone, hevent] at hsome
    cases hsome
  drained pipe hphase := by
    rcases h.drained pipe hphase with hdrained | ⟨hnone, -⟩
    · exact .inl hdrained
    · cases hprocess.symm.trans hnone

theorem watchExit (h : Logged t) (hexit : t.exit = .waiting) (exitCode : Int) :
    Logged { t.watchExit exitCode with exit := .closing } := by
  rw [ProcessRun.watchExit]
  split
  · rename_i process hprocess
    have hnot : process.closed = false := by
      rw [h.closed process hprocess, Bool.eq_false_iff]
      exact fun hclosed => (h.ended hclosed).1 hexit
    exact h.append (process.exit exitCode).1 (process.exit exitCode).2 hprocess rfl rfl rfl rfl hnot
      rfl (Bool.or_true _).symm (fun _ => hexit) .closing (fun _ => ExitPhase.noConfusion) t.evicted
  · exact { h with
      exited := h.exited.trans (by rw [if_pos hexit]; exact Nat.zero_le _)
      ended := fun hclosed => ⟨ExitPhase.noConfusion, (h.ended hclosed).2⟩ }

theorem pushOutput (h : Logged t) (hprocess : t.process = some process)
    (hlive : (t.tasks pipe).live ≠ 0) (stream : ExecOutputStream) (bytes : List UInt8) :
    Logged (t.pushOutput process stream bytes) := by
  have hnot : process.closed = false := by
    rw [h.closed process hprocess, Bool.eq_false_iff]
    exact fun hclosed => hlive ((h.ended hclosed).2 pipe)
  exact h.append (.output (process.pushOutput stream bytes).1)
    (process.pushOutput stream bytes).2 hprocess rfl rfl rfl rfl hnot rfl (Bool.or_false _).symm
    (fun hexited => nomatch hexited) t.exit (fun hlater => hlater.resolve_left Bool.false_ne_true)
    (t.evicted ++ process.evictedBy (process.pushOutput stream bytes).1)

theorem finish (h : Logged t) (hphase : (t.tasks pipe).phase = .finishing)
    (hprocess : t.process = some process) :
    Logged { t.setPhase pipe .closing with process := some process.finishOutputStream } where
  numbered := h.numbered
  next _ heq := by
    cases heq
    rw [RunningProcess.finishOutputStream]
    split <;> exact h.next process hprocess
  exited := h.exited
  exitCode _ heq := by
    cases heq
    rw [RunningProcess.finishOutputStream]
    split <;> exact h.exitCode process hprocess
  openStreams _ heq := by
    cases heq
    have hstreams := h.openStreams process hprocess
    have hlive : (t.tasks pipe).live = 1 := by
      rw [StreamOutput.live, hphase]
    rw [RunningProcess.finishOutputStream]
    cases pipe with
    | stdout =>
      rw [if_pos (by omega)]
      show process.openStreams - 1 = 0 + (t.tasks .stderr).live
      omega
    | stderr =>
      rw [if_pos (by omega)]
      show process.openStreams - 1 = (t.tasks .stdout).live + 0
      omega
  closed _ heq := by
    cases heq
    rw [RunningProcess.finishOutputStream]
    split <;> exact h.closed process hprocess
  last := h.last
  ended hclosed := by
    have hzero := (h.ended hclosed).2 pipe
    rw [StreamOutput.live, hphase] at hzero
    cases hzero
  drained pipe' hphase' := by
    have hdrained {pipe : Pipe} (hphase : (t.tasks pipe).phase ≠ .reading) :
        (t.tasks pipe).queue = [] ∧ (t.tasks pipe).isOpen = false :=
      (h.drained pipe hphase).resolve_right fun hnone => by cases hprocess.symm.trans hnone.1
    revert hphase'
    show ((t.setPhase pipe .closing).tasks pipe').phase ≠ _ →
      ((t.setPhase pipe .closing).tasks pipe').queue = [] ∧
        ((t.setPhase pipe .closing).tasks pipe').isOpen = false ∨ _
    rw [ProcessRun.setPhase, tasks_setTask]
    split
    · exact fun _ => .inl (hdrained (by rw [hphase]; exact StreamPhase.noConfusion))
    · exact fun hphase' => .inl (hdrained hphase')

theorem maybeEmitClosed (h : Logged t) : Logged t.maybeEmitClosed := by
  rw [ProcessRun.maybeEmitClosed]
  split
  · rename_i event process' hbind
    obtain ⟨process, hprocess, hemit⟩ := Option.bind_eq_some_iff.1 hbind
    rw [RunningProcess.maybeEmitClosed] at hemit
    split at hemit
    · cases hemit
    cases hemit
    rename_i hready
    simp only [Bool.or_eq_true, bne_iff_ne, ne_eq, not_or, Bool.not_eq_true, not_not,
      Option.isNone_eq_false_iff] at hready
    obtain ⟨⟨hnot, hopen⟩, hexitCode⟩ := hready
    have hnone := (h.closed process hprocess).symm.trans hnot
    have hexited := (h.exitCode process hprocess).symm.trans hexitCode
    have hstreams := h.openStreams process hprocess
    have hlive (pipe : Pipe) : (t.tasks pipe).live = 0 := by cases pipe <;> omega
    have hwaiting : t.exit ≠ .waiting := fun hwaiting => by
      have hcount := h.exited
      rw [if_pos hwaiting, Nat.le_zero, List.countP_eq_zero] at hcount
      obtain ⟨event, hevent, hexited⟩ := List.any_eq_true.1 hexited
      exact hcount event hevent hexited
    exact {
      numbered := h.numbered_append hprocess rfl
      next := fun _ heq => by
        cases heq
        rw [List.length_append, List.length_singleton, ← h.next process hprocess]
      exited := by
        rw [List.countP_append]
        exact h.exited
      exitCode := fun _ heq => by
        cases heq
        rw [List.any_append, hexited]
        exact hexitCode
      openStreams := fun _ heq => by
        cases heq
        exact hstreams
      closed := fun _ heq => by
        cases heq
        rw [List.any_append]
        exact (Bool.or_true _).symm
      last := last_append hnone fun _ => hexited
      ended := fun _ => ⟨hwaiting, hlive⟩
      drained := fun pipe hphase => .inl
        ((h.drained pipe hphase).resolve_right fun hnone => by cases hprocess.symm.trans hnone.1) }
  · exact h

theorem tasks_maybeEmitClosed : t.maybeEmitClosed.tasks = t.tasks := by
  rw [ProcessRun.maybeEmitClosed]
  split <;> rfl

theorem step {a : ProcessStep} (h : Logged t) (hstep : Logs t a t') : Logged t' := by
  cases hstep with
  | send hopen =>
    rename_i pipe bytes
    refine h.setTask (le_refl _) (fun _ => rfl) fun hphase => ?_
    rcases h.drained pipe hphase with ⟨-, hclosed⟩ | hnone
    · rw [hclosed] at hopen
      cases hopen
    · exact .inr hnone
  | close =>
    rename_i pipe
    exact h.setTask (le_refl _) (fun _ => rfl) fun hphase =>
      (h.drained pipe hphase).imp_left fun hdrained => ⟨hdrained.1, rfl⟩
  | output hphase hqueue hprocess =>
    rename_i pipe bytes queue process
    have hlive : (t.tasks pipe).live ≠ 0 := by
      rw [StreamOutput.live, hphase]
      exact Nat.one_ne_zero
    exact (h.pushOutput hprocess hlive (t.tasks pipe).stream bytes).setTask (le_refl _)
      (fun _ => rfl) fun hreading => absurd hphase hreading
  | outputUnknown hphase hqueue hprocess =>
    rename_i pipe bytes queue
    have hlive : (t.tasks pipe).live = 1 := by
      rw [StreamOutput.live, hphase]
    refine h.setTask (hlive ▸ le_refl 1) (fun _ => hlive.symm) fun _ => .inr ⟨hprocess, ?_⟩
    refine Bool.eq_false_iff.2 fun hclosed => ?_
    cases hlive.symm.trans ((h.ended hclosed).2 pipe)
  | outputEnd hphase hqueue hopen =>
    rename_i pipe
    have hlive : (t.tasks pipe).live = 1 := by
      rw [StreamOutput.live, hphase]
    exact h.setTask (hlive ▸ le_refl 1) (fun _ => hlive.symm) fun _ => .inl ⟨hqueue, hopen⟩
  | finish hphase hprocess => exact h.finish hphase hprocess
  | finishUnknown hphase hprocess =>
    rename_i pipe
    refine h.setTask (Nat.zero_le _) (fun hsome => absurd hprocess hsome) fun _ => ?_
    exact h.drained pipe (by rw [hphase]; exact StreamPhase.noConfusion)
  | closeAfterOutput hphase =>
    rename_i pipe
    have hlive : (t.maybeEmitClosed.tasks pipe).live = 0 := by
      rw [tasks_maybeEmitClosed, StreamOutput.live, hphase]
    refine h.maybeEmitClosed.setTask (Nat.zero_le _) (fun _ => hlive.symm) fun _ => ?_
    refine h.maybeEmitClosed.drained pipe ?_
    rw [tasks_maybeEmitClosed, hphase]
    exact StreamPhase.noConfusion
  | exit hexit => exact h.watchExit hexit _
  | closeAfterExit hexit =>
    have hemit := h.maybeEmitClosed
    have hclosing : t.maybeEmitClosed.exit = .closing := by
      rw [ProcessRun.maybeEmitClosed]
      split <;> exact hexit
    exact { hemit with
      exited := hemit.exited.trans (by rw [hclosing]; exact le_refl 1)
      ended := fun hclosed => ⟨ExitPhase.noConfusion, (hemit.ended hclosed).2⟩ }
  | retention _ =>
    have hforget := h.forget (t.process.filter (!·.closed)) fun process hmem =>
      (Option.mem_filter_iff.1 hmem).1
    exact { hforget with }
  | shutdown => exact h.forget none fun _ heq => nomatch heq
  | read _ _ _ => exact { h with }

theorem of_reach {tty : Bool} (h : (processEvents tty).Reach t) : Logged t :=
  h.invariant (fun _ hinit => hinit ▸ .new tty) fun _ _ _ hlogged hstep => hlogged.step hstep

/-- The numbers of the events end with their count. -/
theorem seq_le (h : Logged t) (hevent : event ∈ t.events) {seq : Nat} (hseq : event.seq = some seq) :
    seq ≤ t.events.length := by
  have hmem : some seq ∈ t.events.map (·.seq) := hseq ▸ List.mem_map_of_mem hevent
  rw [h.numbered, List.mem_map] at hmem
  obtain ⟨_, hrange, heq⟩ := hmem
  cases heq
  have := (List.mem_range'_1.1 hrange).2
  omega

end Logged

/-! ## Reading -/

/-- What the process retains of its output. -/
structure Retains (process : RunningProcess) (events : List ExecProcessEvent)
    (evicted : List ProcessOutputChunk) : Prop where
  output : ∀ chunk, .output chunk ∈ events ↔ chunk ∈ evicted ++ process.output
  increasing : process.output.Pairwise (·.seq < ·.seq)
  bytes : process.retainedBytes = (process.output.map (·.chunk.length)).sum
  le : process.retainedBytes ≤ retainedOutputBytesPerProcess

theorem Retains.append {events : List ExecProcessEvent} {evicted : List ProcessOutputChunk}
    (h : Retains process events evicted) (event : ExecProcessEvent) (process' : RunningProcess)
    (houtput : process'.output = process.output)
    (hbytes : process'.retainedBytes = process.retainedBytes)
    (hevent : ∀ chunk, event ≠ .output chunk) :
    Retains process' (events ++ [event]) (evicted ++ []) where
  output chunk := by
    rw [List.append_nil, houtput, ← h.output chunk, List.mem_append, List.mem_singleton]
    exact or_iff_left fun heq => hevent chunk heq.symm
  increasing := houtput ▸ h.increasing
  bytes := by
    rw [hbytes, houtput]
    exact h.bytes
  le := hbytes ▸ h.le

theorem Retains.pushOutput {events : List ExecProcessEvent} {evicted : List ProcessOutputChunk}
    (h : Retains process events evicted)
    (hlt : ∀ chunk ∈ process.output, chunk.seq < process.nextSeq) (stream : ExecOutputStream)
    (bytes : List UInt8) :
    Retains (process.pushOutput stream bytes).2
      (events ++ [.output (process.pushOutput stream bytes).1])
      (evicted ++ process.evictedBy (process.pushOutput stream bytes).1) where
  output chunk := by
    show _ ↔ chunk ∈ evicted ++ process.evictedBy (process.pushOutput stream bytes).1 ++
      (process.retained (process.pushOutput stream bytes).1).1
    rw [List.append_assoc, RunningProcess.evictedBy, RunningProcess.retained,
      evicted_append_retain, ← List.append_assoc, List.mem_append, List.mem_append, h.output,
      List.mem_singleton, List.mem_singleton, ExecProcessEvent.output.injEq]
  increasing := by
    refine List.Pairwise.sublist retain_suffix.sublist (List.pairwise_append.2
      ⟨h.increasing, List.pairwise_singleton _ _, fun chunk hchunk last hlast => ?_⟩)
    rw [List.mem_singleton.1 hlast]
    exact hlt chunk hchunk
  bytes := retain_total (by
    rw [h.bytes, List.map_append, List.sum_append, List.map_singleton, List.sum_singleton])
  le := by
    by_cases hnil : (process.retained (process.pushOutput stream bytes).1).1 = []
    · refine (retain_total ?_).trans_le ?_
      · rw [h.bytes, List.map_append, List.sum_append, List.map_singleton, List.sum_singleton]
      · show (((process.retained (process.pushOutput stream bytes).1).1).map _).sum ≤ _
        rw [hnil]
        exact Nat.zero_le _
    · exact Nat.not_lt.1 (decide_eq_true_iff.not.1 (not_exceeds_retain hnil))

theorem Logged.seq_lt (h : Logged t) {evicted : List ProcessOutputChunk}
    (hretains : Retains process t.events evicted) (hprocess : t.process = some process) :
    ∀ chunk ∈ process.output, chunk.seq < process.nextSeq := by
  intro chunk hchunk
  rw [h.next process hprocess]
  exact Nat.lt_succ_of_le (h.seq_le ((hretains.output chunk).2 (List.mem_append_right _ hchunk)) rfl)

/-- The reader has got what its number covers, unless that was evicted. -/
structure Delivered (t : ProcessRun) : Prop where
  afterSeq : t.reader.afterSeq ≤ t.events.length
  received : ∀ chunk ∈ t.reader.received,
    .output chunk ∈ t.events ∧ chunk.seq ≤ t.reader.afterSeq
  increasing : t.reader.received.Pairwise (·.seq < ·.seq)
  missing : ∀ chunk, .output chunk ∈ t.events → chunk.seq ≤ t.reader.afterSeq →
    chunk ∈ t.reader.received ∨ chunk ∈ t.evicted
  retains : ∀ process ∈ t.process, Retains process t.events t.evicted
  closed : t.reader.sawClosed → t.events.any (·.isClosed)
  complete : t.reader.sawClosed → t.reader.unbounded → ∀ chunk, .output chunk ∈ t.events →
    chunk ∈ t.reader.received ∨ chunk ∈ t.evicted

namespace Delivered

theorem new (tty : Bool) : Delivered (.new tty) where
  afterSeq := le_refl 0
  received _ hmem := nomatch hmem
  increasing := .nil
  missing _ hmem := nomatch hmem
  retains process heq := by
    cases heq
    exact ⟨fun _ => iff_of_false List.not_mem_nil List.not_mem_nil, .nil, rfl, Nat.zero_le _⟩
  closed hsaw := nomatch hsaw
  complete hsaw := nomatch hsaw

/-- The tasks go on, and the process may be removed. -/
theorem frame (h : Delivered t) (hprocess : ∀ process ∈ t'.process, process ∈ t.process)
    (hevents : t'.events = t.events) (hevicted : t'.evicted = t.evicted)
    (hreader : t'.reader = t.reader) : Delivered t' where
  afterSeq := by
    rw [hevents, hreader]
    exact h.afterSeq
  received := by
    rw [hevents, hreader]
    exact h.received
  increasing := hreader ▸ h.increasing
  missing := by
    rw [hevents, hreader, hevicted]
    exact h.missing
  retains process hmem := by
    rw [hevents, hevicted]
    exact h.retains process (hprocess process hmem)
  closed := by
    rw [hevents, hreader]
    exact h.closed
  complete := by
    rw [hevents, hreader, hevicted]
    exact h.complete

/-- The process logs an event, and may evict chunks. -/
theorem append (h : Delivered t) (hlogged : Logged t) (event : ExecProcessEvent)
    (process' : RunningProcess) (hprocess : t.process = some process)
    (hnot : t.events.any (·.isClosed) = false) {dropped : List ProcessOutputChunk}
    (hretains : Retains process' (t.events ++ [event]) (t.evicted ++ dropped))
    (hnew : ∀ chunk, event = .output chunk → chunk.seq = process.nextSeq)
    (htprocess : t'.process = some process') (hevents : t'.events = t.events ++ [event])
    (hevicted : t'.evicted = t.evicted ++ dropped) (hreader : t'.reader = t.reader) :
    Delivered t' where
  afterSeq := by
    rw [hevents, hreader, List.length_append]
    exact h.afterSeq.trans (Nat.le_add_right _ _)
  received chunk hmem := by
    rw [hreader] at hmem ⊢
    rw [hevents]
    exact (h.received chunk hmem).imp_left (List.mem_append_left _)
  increasing := hreader ▸ h.increasing
  missing chunk hmem hle := by
    rw [hevents] at hmem
    rw [hreader] at hle ⊢
    rw [hevicted]
    rcases List.mem_append.1 hmem with hmem | hmem
    · exact (h.missing chunk hmem hle).imp_right (List.mem_append_left _)
    · have hnext := hlogged.next process hprocess
      rw [← hnew chunk (List.mem_singleton.1 hmem).symm] at hnext
      have := h.afterSeq
      omega
  retains _ heq := by
    rw [htprocess] at heq
    cases heq
    rw [hevents, hevicted]
    exact hretains
  closed hsaw := by
    rw [hreader] at hsaw
    rw [hevents, List.any_append, h.closed hsaw]
    rfl
  complete hsaw := by
    rw [hreader] at hsaw
    cases hnot.symm.trans (h.closed hsaw)

theorem maybeEmitClosed (h : Delivered t) (hlogged : Logged t) :
    Delivered t.maybeEmitClosed := by
  rw [ProcessRun.maybeEmitClosed]
  split
  · rename_i event process' hbind
    obtain ⟨process, hprocess, hemit⟩ := Option.bind_eq_some_iff.1 hbind
    rw [RunningProcess.maybeEmitClosed] at hemit
    split at hemit
    · cases hemit
    cases hemit
    rename_i hready
    have hnot : t.events.any (·.isClosed) = false := by
      rw [← hlogged.closed process hprocess]
      simp only [Bool.or_eq_true, not_or, Bool.not_eq_true] at hready
      exact hready.1.1
    have hretains := (h.retains process hprocess).append (.closed process.nextSeq)
      { process with nextSeq := process.nextSeq + 1, closed := true } rfl rfl
      fun _ => ExecProcessEvent.noConfusion
    exact h.append hlogged _ _ hprocess hnot hretains (fun _ heq => nomatch heq) rfl rfl
      (List.append_nil _).symm rfl
  · exact h

theorem pushOutput (h : Delivered t) (hlogged : Logged t) (hprocess : t.process = some process)
    (hlive : (t.tasks pipe).live ≠ 0) (stream : ExecOutputStream) (bytes : List UInt8) :
    Delivered (t.pushOutput process stream bytes) := by
  have hnot : t.events.any (·.isClosed) = false :=
    Bool.eq_false_iff.2 fun hclosed => hlive ((hlogged.ended hclosed).2 pipe)
  have hretains := (h.retains process hprocess).pushOutput
    (hlogged.seq_lt (h.retains process hprocess) hprocess) stream bytes
  refine h.append hlogged _ _ hprocess hnot hretains (fun chunk heq => ?_) rfl rfl rfl rfl
  cases heq
  rfl

theorem watchExit (h : Delivered t) (hlogged : Logged t) (hexit : t.exit = .waiting)
    (exitCode : Int) : Delivered (t.watchExit exitCode) := by
  rw [ProcessRun.watchExit]
  split
  · rename_i process hprocess
    have hnot : t.events.any (·.isClosed) = false :=
      Bool.eq_false_iff.2 fun hclosed => (hlogged.ended hclosed).1 hexit
    have hretains := (h.retains process hprocess).append (process.exit exitCode).1
      (process.exit exitCode).2 rfl rfl fun _ => ExecProcessEvent.noConfusion
    exact h.append hlogged _ _ hprocess hnot hretains (fun _ heq => nomatch heq) rfl rfl
      (List.append_nil _).symm rfl
  · exact h

theorem finish (h : Delivered t) (hprocess : t.process = some process)
    (tasks : Pipe → StreamOutput) :
    Delivered { t with process := some process.finishOutputStream, tasks } where
  afterSeq := h.afterSeq
  received := h.received
  increasing := h.increasing
  missing := h.missing
  retains _ heq := by
    cases heq
    rw [RunningProcess.finishOutputStream]
    split
    · exact { h.retains process hprocess with }
    · exact h.retains process hprocess
  closed := h.closed
  complete := h.complete

theorem read (h : Delivered t) (hlogged : Logged t) {maxBytes : Option Nat}
    {response : ReadResponse}
    (hresponse : t.readResponse t.reader.afterSeq maxBytes = some response) :
    Delivered (t.receive maxBytes response) := by
  obtain ⟨process, hprocess, rfl⟩ := Option.map_eq_some_iff.1 hresponse
  have hretains := h.retains process hprocess
  have hnext := hlogged.next process hprocess
  have hafter := h.afterSeq
  have hpages := process.readResponse_pages hretains.increasing (hlogged.seq_lt hretains hprocess)
    t.reader.afterSeq (maxBytes.getD usizeMax)
  have hmono := hpages.after (by omega)
  have hle := hpages.le
  have hfound (chunk : ProcessOutputChunk) (hevent : .output chunk ∈ t.events)
      (hnew : chunk ∈ process.output → t.reader.afterSeq < chunk.seq →
        chunk ∈ (process.readResponse t.reader.afterSeq (maxBytes.getD usizeMax)).chunks) :
      chunk ∈ t.reader.received ++
        (process.readResponse t.reader.afterSeq (maxBytes.getD usizeMax)).chunks ∨
          chunk ∈ t.evicted := by
    rcases Nat.lt_or_ge t.reader.afterSeq chunk.seq with hlater | hearlier
    · rcases List.mem_append.1 ((hretains.output chunk).1 hevent) with hevicted | houtput
      · exact .inr hevicted
      · exact .inl (List.mem_append_right _ (hnew houtput hlater))
    · exact (h.missing chunk hevent hearlier).imp_left (List.mem_append_left _)
  exact {
    afterSeq := by
      show (process.readResponse _ _).nextSeq - 1 ≤ t.events.length
      omega
    received := fun chunk hmem => by
      show _ ∧ chunk.seq ≤ (process.readResponse _ _).nextSeq - 1
      rcases List.mem_append.1 hmem with hmem | hmem
      · obtain ⟨hevent, hseq⟩ := h.received chunk hmem
        exact ⟨hevent, by omega⟩
      · obtain ⟨houtput, -, hlt⟩ := hpages.mem chunk hmem
        exact ⟨(hretains.output chunk).2 (List.mem_append_right _ houtput), by omega⟩
    increasing := List.pairwise_append.2 ⟨h.increasing, hpages.increasing,
      fun chunk hmem chunk' hmem' =>
        (h.received chunk hmem).2.trans_lt (hpages.mem chunk' hmem').2.1⟩
    missing := fun chunk hevent hseq => by
      have hseq : chunk.seq ≤ (process.readResponse _ _).nextSeq - 1 := hseq
      refine hfound chunk hevent fun houtput hlater => ?_
      exact hpages.complete chunk houtput hlater (by omega)
    retains := h.retains
    closed := fun hsaw => by
      rcases Bool.or_eq_true _ _ ▸ hsaw with hsaw | hclosed
      · exact h.closed hsaw
      · exact (hlogged.closed process hprocess).symm.trans hclosed
    complete := fun _ hunbounded chunk hevent => by
      have hnone : maxBytes = none := by
        have hunbounded : (t.reader.unbounded && maxBytes.isNone) = true := hunbounded
        exact Option.isNone_iff_eq_none.1 (Bool.and_eq_true _ _ ▸ hunbounded).2
      refine hfound chunk hevent fun houtput hlater => ?_
      refine RunningProcess.readResponse_complete ?_ houtput hlater
      rw [← hretains.bytes, hnone]
      exact hretains.le.trans_lt (by decide) }

theorem step {a : ProcessStep} (h : Delivered t) (hlogged : Logged t) (hstep : Logs t a t') :
    Delivered t' := by
  cases hstep with
  | send _ => exact h.frame (fun _ hmem => hmem) rfl rfl rfl
  | close => exact h.frame (fun _ hmem => hmem) rfl rfl rfl
  | output hphase hqueue hprocess =>
    rename_i pipe bytes queue process
    have hlive : (t.tasks pipe).live ≠ 0 := by
      rw [StreamOutput.live, hphase]
      exact Nat.one_ne_zero
    exact (h.pushOutput hlogged hprocess hlive (t.tasks pipe).stream bytes).frame
      (fun _ hmem => hmem) rfl rfl rfl
  | outputUnknown _ _ _ => exact h.frame (fun _ hmem => hmem) rfl rfl rfl
  | outputEnd _ _ _ => exact h.frame (fun _ hmem => hmem) rfl rfl rfl
  | finish _ hprocess =>
    exact h.finish hprocess (t.setPhase _ .closing).tasks
  | finishUnknown _ _ => exact h.frame (fun _ hmem => hmem) rfl rfl rfl
  | closeAfterOutput _ =>
    exact (h.maybeEmitClosed hlogged).frame (fun _ hmem => hmem) rfl rfl rfl
  | exit hexit => exact (h.watchExit hlogged hexit _).frame (fun _ hmem => hmem) rfl rfl rfl
  | closeAfterExit _ =>
    exact (h.maybeEmitClosed hlogged).frame (fun _ hmem => hmem) rfl rfl rfl
  | retention _ => exact h.frame (fun _ hmem => (Option.mem_filter_iff.1 hmem).1) rfl rfl rfl
  | shutdown => exact h.frame (fun _ hmem => nomatch hmem) rfl rfl rfl
  | read _ hresponse _ => exact h.read hlogged hresponse

theorem of_reach {tty : Bool} (h : (processEvents tty).Reach t) : Delivered t := by
  induction h with
  | init hinit => exact hinit ▸ .new tty
  | step hreach hstep ih => exact ih.step (.of_reach hreach) hstep

end Delivered

/-- What only the last element satisfies, at most one satisfies. -/
theorem countP_le_one {α : Type} {p : α → Bool} {as : List α}
    (h : ∀ before a after, as = before ++ a :: after → p a → after = []) : as.countP p ≤ 1 := by
  induction as with
  | nil => exact Nat.zero_le 1
  | cons a as ih =>
    rw [List.countP_cons]
    split
    · rename_i ha
      rw [h [] a as rfl ha]
      exact le_refl 1
    · exact ih fun before a' after heq => h (a :: before) a' after (congrArg _ heq)

/-- Events are numbered from one without gaps; at most one says that the process exited, and at most
one that it is closed, which is the last one, comes after the exit, and leaves nothing of either
stream to log. The reader gets chunks in order, all up to its number but those evicted by then; and
once it has seen that the process is closed, without ever bounding its reads, all but those
evicted. -/
theorem events_and_reads {tty : Bool} (h : (processEvents tty).Reach t) :
    t.events.map (·.seq) = (List.range' 1 t.events.length).map some ∧
    t.events.countP (·.isExited) ≤ 1 ∧ t.events.countP (·.isClosed) ≤ 1 ∧
    (∀ before event after, t.events = before ++ event :: after → event.isClosed →
      after = [] ∧ before.any (·.isExited) ∧
        ∀ pipe, (t.tasks pipe).queue = [] ∧ (t.tasks pipe).isOpen = false) ∧
    (∀ chunk ∈ t.reader.received, .output chunk ∈ t.events) ∧
    t.reader.received.Pairwise (·.seq < ·.seq) ∧
    (∀ chunk, .output chunk ∈ t.events → chunk.seq ≤ t.reader.afterSeq →
      chunk ∈ t.reader.received ∨ chunk ∈ t.evicted) ∧
    (t.reader.sawClosed → t.reader.unbounded → ∀ chunk, .output chunk ∈ t.events →
      chunk ∈ t.reader.received ∨ chunk ∈ t.evicted) := by
  have hlogged := Logged.of_reach h
  have hdelivered := Delivered.of_reach h
  refine ⟨hlogged.numbered, hlogged.exited.trans ?_,
    countP_le_one fun before event after heq hclosed =>
      (hlogged.last before event after heq hclosed).1,
    fun before event after heq hclosed => ?_, fun chunk hmem => (hdelivered.received chunk hmem).1,
    hdelivered.increasing, hdelivered.missing, hdelivered.complete⟩
  · split <;> decide
  · obtain ⟨hlast, hexited⟩ := hlogged.last before event after heq hclosed
    have hany : t.events.any (·.isClosed) := by
      rw [heq, List.any_append, List.any_cons, hclosed, Bool.true_or, Bool.or_true]
    refine ⟨hlast, hexited, fun pipe => (hlogged.drained pipe fun hphase => ?_).resolve_right
      fun hnone => by cases hany.symm.trans hnone.2⟩
    have hlive := (hlogged.ended hany).2 pipe
    rw [StreamOutput.live, hphase] at hlive
    cases hlive

end

/-! ## A process with one chunk -/

/-- The process wrote a byte. -/
def exampleSent : ProcessRun :=
  (ProcessRun.new false).setTask .stdout ⟨.stdout, [[104]], true, .reading⟩

/-- The byte was logged. -/
def exampleOutput : ProcessRun :=
  (exampleSent.pushOutput .new .stdout [104]).setTask .stdout ⟨.stdout, [], true, .reading⟩

/-- The reader got it. -/
def exampleRead : ProcessRun :=
  exampleOutput.receive none ⟨[⟨1, .stdout, [104]⟩], 2, false, none, false⟩

theorem exampleRead_reach : (processEvents false).Reach exampleRead := by
  have hsend : Logs (.new false) (.send .stdout [104]) exampleSent :=
    @Logs.send (.new false) .stdout [104] rfl
  have houtput : Logs exampleSent (.output .stdout) exampleOutput :=
    @Logs.output exampleSent .stdout [104] [] .new rfl rfl rfl
  have hread : Logs exampleOutput (.read none) exampleRead :=
    @Logs.read exampleOutput none ⟨[⟨1, .stdout, [104]⟩], 2, false, none, false⟩ false (by decide)
      (by decide)
  exact .step (.step (.step (.init rfl) hsend) houtput) hread

theorem events_and_reads_example :
    exampleRead.events.map (·.seq) = (List.range' 1 exampleRead.events.length).map some ∧
    exampleRead.events.countP (·.isExited) ≤ 1 ∧ exampleRead.events.countP (·.isClosed) ≤ 1 ∧
    (∀ before event after, exampleRead.events = before ++ event :: after → event.isClosed →
      after = [] ∧ before.any (·.isExited) ∧ ∀ pipe, (exampleRead.tasks pipe).queue = [] ∧
        (exampleRead.tasks pipe).isOpen = false) ∧
    (∀ chunk ∈ exampleRead.reader.received, .output chunk ∈ exampleRead.events) ∧
    exampleRead.reader.received.Pairwise (·.seq < ·.seq) ∧
    (∀ chunk, .output chunk ∈ exampleRead.events → chunk.seq ≤ exampleRead.reader.afterSeq →
      chunk ∈ exampleRead.reader.received ∨ chunk ∈ exampleRead.evicted) ∧
    (exampleRead.reader.sawClosed → exampleRead.reader.unbounded →
      ∀ chunk, .output chunk ∈ exampleRead.events →
        chunk ∈ exampleRead.reader.received ∨ chunk ∈ exampleRead.evicted) :=
  events_and_reads exampleRead_reach

end Mcodex.ExecServer
