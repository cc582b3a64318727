import Mcodex.Lib.Transition
import Mcodex.MessageHistory.Log
import Mathlib.Logic.Function.Basic

/-!
# Processes that share the message history

Processes append to one history file, which is never replaced, count its lines and look entries up.
Appends hold an exclusive lock and lookups a shared one; `history_metadata` takes no lock and reads
the file chunk by chunk. A trim empties the file and writes it again in place, so that its identity
stays: the offsets below a count are good as long as no trim follows the count
(`messageHistory_spec`).
-/

namespace Mcodex.MessageHistory

open Records Transition

/-- The file and the configurations of the processes. -/
structure Setup where
  softCap : Nat → Nat
  fromStr : List Char → Option HistoryEntry
  /-- `history_log_id` of the file. -/
  logId : Nat
  maxBytes : Nat → Option Nat

/-- What a call of `history_metadata` returned, and the file when it reached its end. -/
structure Answer where
  logId : Nat
  count : Nat
  content : List UInt8
  deriving DecidableEq

/-- A call of `lookup`, and the answers returned before it. -/
structure Lookup where
  known : List Answer
  logId : Nat
  offset : Nat
  deriving DecidableEq

/-- The advisory lock of the file. -/
inductive Lock
  | free
  | exclusive (p : Nat)
  | shared (others : Nat)
  deriving DecidableEq

/-- `try_lock_shared`. -/
def Lock.share : Lock → Option Lock
  | free => some (shared 0)
  | shared others => some (shared (others + 1))
  | exclusive _ => none

/-- What a holder of a shared lock leaves. -/
def Lock.unshare : Lock → Option Lock
  | shared 0 => some free
  | shared (others + 1) => some (shared others)
  | free | exclusive _ => none

/-- Where a process is. -/
inductive Process
  | idle
  | appendOpen (entry : HistoryEntry)
  | appendLocked (entry : HistoryEntry)
  /-- The line is written, and lines before it are to be dropped. -/
  | trimming (before tail : List UInt8)
  /-- `set_len(0)` is done. -/
  | truncated (before tail : List UInt8)
  /-- The file is done, but locked. What it was before a trim is remembered. -/
  | appended (before : Option (List UInt8))
  | lookupOpen (call : Lookup)
  | lookupLocked (call : Lookup)
  | lookupRead (call : Lookup) (result : Option HistoryEntry)
  | lookupDone (call : Lookup) (result : Option HistoryEntry)
  | metadataOpen (pos count : Nat)
  deriving DecidableEq

/-- The process may call. -/
def Process.free : Process → Bool
  | idle | lookupDone _ _ => true
  | _ => false

structure World where
  file : Option (List UInt8)
  lock : Lock := .free
  procs : Nat → Process := fun _ => .idle
  answers : List Answer := []

/-- What a process is set to. -/
def World.set (w : World) (p : Nat) (proc : Process) : World :=
  { w with procs := Function.update w.procs p proc }

/-- A trim empties the file in one of its steps. -/
inductive Action
  | truncate
  | other

/-- After its write a process measures the file, which only it writes, and goes on to a trim or is
done. -/
def afterWrite (setup : Setup) (p : Nat) (content : List UInt8) : Process :=
  match enforceHistoryLimit setup.softCap (setup.maxBytes p) content with
  | none => .appended none
  | some tail => .trimming content tail

/-- A step of a process. The locks are obtained, sooner or later, and the file stays. -/
inductive Step (setup : Setup) (w : World) : Action → World → Prop
  | append {p entry} (hp : (w.procs p).free) :
      Step setup w .other
        (World.set { w with file := some (w.file.getD []) } p (.appendOpen entry))
  | lock {p entry} (hp : w.procs p = .appendOpen entry) (hlock : w.lock = .free) :
      Step setup w .other (World.set { w with lock := .exclusive p } p (.appendLocked entry))
  | write {p entry content} (hp : w.procs p = .appendLocked entry) (hfile : w.file = some content) :
      Step setup w .other
        (World.set { w with file := some (content ++ historyLine entry) } p
          (afterWrite setup p (content ++ historyLine entry)))
  | truncate {p before tail} (hp : w.procs p = .trimming before tail) :
      Step setup w .truncate (World.set { w with file := some [] } p (.truncated before tail))
  | rewrite {p before tail content} (hp : w.procs p = .truncated before tail)
      (hfile : w.file = some content) :
      Step setup w .other
        (World.set { w with file := some (content ++ tail) } p (.appended (some before)))
  | unlock {p before} (hp : w.procs p = .appended before) :
      Step setup w .other (World.set { w with lock := .free } p .idle)
  | lookup {p content logId offset} (hp : (w.procs p).free) (hfile : w.file = some content)
      (hid : logId = 0 ∨ setup.logId = logId) :
      Step setup w .other (w.set p (.lookupOpen ⟨w.answers, logId, offset⟩))
  | lookupMiss {p logId offset} (hp : (w.procs p).free)
      (hmiss : w.file = none ∨ (logId ≠ 0 ∧ setup.logId ≠ logId)) :
      Step setup w .other (w.set p (.lookupDone ⟨w.answers, logId, offset⟩ none))
  | lockShared {p call lock} (hp : w.procs p = .lookupOpen call) (hlock : w.lock.share = some lock) :
      Step setup w .other (World.set { w with lock } p (.lookupLocked call))
  | read {p call content} (hp : w.procs p = .lookupLocked call) (hfile : w.file = some content) :
      Step setup w .other
        (w.set p (.lookupRead call (lookupHistoryEntry setup.fromStr content call.offset)))
  | unlockShared {p call result lock} (hp : w.procs p = .lookupRead call result)
      (hlock : w.lock.unshare = some lock) :
      Step setup w .other (World.set { w with lock } p (.lookupDone call result))
  | metadata {p content} (hp : (w.procs p).free) (hfile : w.file = some content) :
      Step setup w .other (w.set p (.metadataOpen 0 0))
  | metadataMiss {p} (hp : (w.procs p).free) (hfile : w.file = none) :
      Step setup w .other (World.set { w with answers := ⟨0, 0, []⟩ :: w.answers } p .idle)
  /-- A chunk of at most 8192 bytes from the file as it is now. -/
  | readChunk {p pos count content n} (hp : w.procs p = .metadataOpen pos count)
      (hfile : w.file = some content) (hn : 0 < n ∧ n ≤ 8192) (hlen : pos + n ≤ content.length) :
      Step setup w .other
        (w.set p (.metadataOpen (pos + n)
          (count + countNewlines ((content.drop pos).take n))))
  | readEnd {p pos count content} (hp : w.procs p = .metadataOpen pos count)
      (hfile : w.file = some content) (hlen : content.length ≤ pos) :
      Step setup w .other
        (World.set { w with answers := ⟨setup.logId, count, content⟩ :: w.answers } p .idle)

/-- The processes start when there is no history or one of earlier sessions. -/
def system (setup : Setup) : System World Action where
  init w := ∃ entries file, (file = none ∨ file = some (contentsOf entries)) ∧ w = { file }
  step := Step setup

/-! ## What holds in every run -/

/-- A trim leaves lines from the end of the file, the newest one among them. -/
def Trims (before tail : List UInt8) : Prop :=
  ∃ entries n, n < entries.length ∧ before = contentsOf entries ∧
    tail = contentsOf (entries.drop n)

/-- What a writer knows of the file that it has locked. -/
def WriteFact (file : Option (List UInt8)) (lock : Lock) (p : Nat) : Process → Prop
  | .appendLocked _ => lock = .exclusive p
  | .trimming before tail => lock = .exclusive p ∧ Trims before tail
  | .truncated before tail => lock = .exclusive p ∧ Trims before tail ∧ file = some []
  | .appended before =>
    lock = .exclusive p ∧ ∀ content ∈ before, ∃ tail, Trims content tail ∧ file = some tail
  | _ => True

/-- The file consists of whole lines, and a trim keeps the newest. -/
structure Whole (w : World) : Prop where
  file : ∀ content ∈ w.file, ∃ entries, content = contentsOf entries
  procs : ∀ p, WriteFact w.file w.lock p (w.procs p)

section
variable {setup : Setup} {w w' : World} {p q : Nat} {proc : Process} {action : Action}
  {file file' : Option (List UInt8)} {lock lock' : Lock} {before tail content : List UInt8}

theorem Trims.of_enforce {maxBytes : Option Nat} {entries : List HistoryEntry}
    (h : enforceHistoryLimit setup.softCap maxBytes (contentsOf entries) = some tail) :
    Trims (contentsOf entries) tail := by
  obtain ⟨n, hn, htail⟩ := enforceHistoryLimit_spec h
  exact ⟨entries, n, hn, rfl, htail⟩

/-- A fact of a writer is about a file that it has locked. -/
theorem WriteFact.frame (h : WriteFact file lock p proc)
    (hkeep : lock = .exclusive p → lock' = lock ∧ (file' = file ∨ file = none)) :
    WriteFact file' lock' p proc := by
  cases proc with
  | appendLocked entry => exact (hkeep h).1.trans h
  | trimming before tail => exact ⟨(hkeep h.1).1.trans h.1, h.2⟩
  | truncated before tail =>
    obtain ⟨hlock, htrims, hfile⟩ := h
    obtain ⟨hlock', rfl | hnone⟩ := hkeep hlock
    · exact ⟨hlock'.trans hlock, htrims, hfile⟩
    · cases hnone.symm.trans hfile
  | appended before =>
    obtain ⟨hlock, hbefore⟩ := h
    obtain ⟨hlock', hfile⟩ := hkeep hlock
    refine ⟨hlock'.trans hlock, fun content hcontent => ?_⟩
    obtain ⟨tail, htrims, hsome⟩ := hbefore content hcontent
    rcases hfile with rfl | hnone
    · exact ⟨tail, htrims, hsome⟩
    · cases hnone.symm.trans hsome
  | _ => trivial

/-- A step of one process: its own fact, and what the others need. -/
theorem Whole.of_set {file lock answers} (hw : Whole w)
    (hfile : ∀ content ∈ file, ∃ entries, content = contentsOf entries)
    (hproc : WriteFact file lock p proc)
    (hkeep : ∀ q, q ≠ p → w.lock = .exclusive q → lock = w.lock ∧ (file = w.file ∨ w.file = none)) :
    Whole (World.set ⟨file, lock, w.procs, answers⟩ p proc) where
  file := hfile
  procs := by
    refine (Function.forall_update_iff w.procs fun q proc => WriteFact file lock q proc).2
      ⟨hproc, fun q hq => (hw.procs q).frame (hkeep q hq)⟩

theorem Whole.step (hw : Whole w) (hstep : Step setup w action w') : Whole w' := by
  cases hstep with
  | append hp =>
    refine hw.of_set ?_ trivial fun q _ _ => ⟨rfl, ?_⟩
    · intro content hcontent
      cases hfile : w.file with
      | none =>
        rw [hfile] at hcontent
        cases hcontent
        exact ⟨[], rfl⟩
      | some content' =>
        rw [hfile] at hcontent
        cases hcontent
        exact hw.file content' hfile
    · cases hfile : w.file with
      | none => exact .inr rfl
      | some content => exact .inl rfl
  | lock hp hlock =>
    refine hw.of_set hw.file rfl fun q _ hq => ?_
    rw [hlock] at hq
    cases hq
  | @write p entry content hp hfile =>
    have hlock : w.lock = .exclusive p := by
      have hfact := hw.procs p
      rwa [hp] at hfact
    obtain ⟨entries, rfl⟩ := hw.file content hfile
    have hwrite : contentsOf entries ++ historyLine entry = contentsOf (entries ++ [entry]) := by
      rw [contentsOf_append, contentsOf_singleton]
    refine hw.of_set ?_ ?_ fun q hq hother => ?_
    · rintro _ ⟨⟩
      exact ⟨_, hwrite⟩
    · rw [afterWrite, hwrite]
      split
      · exact ⟨hlock, nofun⟩
      · next tail htrim => exact ⟨hlock, Trims.of_enforce htrim⟩
    · rw [hlock] at hother
      cases hother
      exact absurd rfl hq
  | @truncate p before tail hp =>
    have hfact := hw.procs p
    rw [hp] at hfact
    refine hw.of_set ?_ ⟨hfact.1, hfact.2, rfl⟩ fun q hq hother => ?_
    · rintro _ ⟨⟩
      exact ⟨[], rfl⟩
    · rw [hfact.1] at hother
      cases hother
      exact absurd rfl hq
  | @rewrite p before tail content hp hfile =>
    have hfact := hw.procs p
    rw [hp] at hfact
    obtain ⟨hlock, htrims, hempty⟩ := hfact
    rw [hfile] at hempty
    cases hempty
    refine hw.of_set ?_ ⟨hlock, ?_⟩ fun q hq hother => ?_
    · rintro _ ⟨⟩
      obtain ⟨entries, n, -, -, htail⟩ := htrims
      exact ⟨entries.drop n, htail⟩
    · rintro _ ⟨⟩
      exact ⟨tail, htrims, rfl⟩
    · rw [hlock] at hother
      cases hother
      exact absurd rfl hq
  | @unlock p before hp =>
    have hfact := hw.procs p
    rw [hp] at hfact
    refine hw.of_set hw.file trivial fun q hq hother => ?_
    rw [hfact.1] at hother
    cases hother
    exact absurd rfl hq
  | lookup hp hfile hid => exact hw.of_set hw.file trivial fun _ _ _ => ⟨rfl, .inl rfl⟩
  | lookupMiss hp hmiss => exact hw.of_set hw.file trivial fun _ _ _ => ⟨rfl, .inl rfl⟩
  | lockShared hp hlock =>
    refine hw.of_set hw.file trivial fun q _ hother => ?_
    rw [hother] at hlock
    cases hlock
  | read hp hfile => exact hw.of_set hw.file trivial fun _ _ _ => ⟨rfl, .inl rfl⟩
  | unlockShared hp hlock =>
    refine hw.of_set hw.file trivial fun q _ hother => ?_
    rw [hother] at hlock
    cases hlock
  | metadata hp hfile => exact hw.of_set hw.file trivial fun _ _ _ => ⟨rfl, .inl rfl⟩
  | metadataMiss hp hfile => exact hw.of_set hw.file trivial fun _ _ _ => ⟨rfl, .inl rfl⟩
  | readChunk hp hfile hn hlen => exact hw.of_set hw.file trivial fun _ _ _ => ⟨rfl, .inl rfl⟩
  | readEnd hp hfile hlen => exact hw.of_set hw.file trivial fun _ _ _ => ⟨rfl, .inl rfl⟩

theorem whole_of_reach (h : (system setup).Reach w) : Whole w := by
  refine h.invariant (fun w hw => ?_) fun w action w' hI hstep => hI.step hstep
  obtain ⟨entries, file, hfile, rfl⟩ := hw
  refine ⟨fun content hcontent => ?_, fun p => trivial⟩
  rcases hfile with rfl | rfl
  · cases hcontent
  · cases hcontent
    exact ⟨entries, rfl⟩

end

/-! ## Offsets -/

/-- Something is counted: a call has returned a count that is not 0, or has read some of the file. -/
def Counted (w : World) : Prop :=
  (∃ answer ∈ w.answers, 0 < answer.count) ∨
    ∃ p pos count, w.procs p = .metadataOpen pos count ∧ 0 < pos

/-- The file is not emptied once something is counted. -/
def Clear (w : World) (action : Action) : Prop := action = .truncate → ¬ Counted w

/-- The entries that a count stands for. -/
structure Answer.Counts (answer : Answer) (entries : List HistoryEntry) : Prop where
  content : answer.content = contentsOf entries
  count : answer.count = entries.length

/-- A result at an offset is what the line of the counted entry parses to, or nothing. -/
def Agrees (setup : Setup) (answer : Answer) (offset : Nat) (result : Option HistoryEntry) : Prop :=
  ∃ entries, answer.Counts entries ∧
    (result = none ∨ result = entries[offset]?.bind fun entry => setup.fromStr entry.toJson)

/-- Every lookup below a count that was returned before it agrees with the count. -/
def OffsetsValid (setup : Setup) (w : World) : Prop :=
  ∀ p call result, w.procs p = .lookupDone call result → ∀ answer ∈ call.known,
    call.logId = answer.logId → call.offset < answer.count →
    Agrees setup answer call.offset result

/-- The file goes on. -/
def Grows (file file' : Option (List UInt8)) : Prop :=
  ∀ content ∈ file, ∃ content' ∈ file', content <+: content'

/-- What is counted is what the file begins with. -/
def AnswerFact (file : Option (List UInt8)) (answer : Answer) : Prop :=
  (∃ entries, answer.Counts entries) ∧
    (0 < answer.count → ∃ content ∈ file, answer.content <+: content)

/-- What a reader knows. -/
def ReadFact (setup : Setup) (file : Option (List UInt8)) (answers : List Answer) :
    Process → Prop
  | .metadataOpen pos count =>
    ∃ content ∈ file, pos ≤ content.length ∧ count = countNewlines (content.take pos)
  | .lookupOpen call | .lookupLocked call => ∀ answer ∈ call.known, answer ∈ answers
  | .lookupRead call result | .lookupDone call result =>
    ∀ answer ∈ call.known, call.offset < answer.count → Agrees setup answer call.offset result
  | _ => True

/-- Counts and lookups agree with the file. -/
structure Kept (setup : Setup) (w : World) : Prop where
  answers : ∀ answer ∈ w.answers, AnswerFact w.file answer
  procs : ∀ p, ReadFact setup w.file w.answers (w.procs p)

section
variable {setup : Setup} {w w' : World} {p : Nat} {proc : Process} {action : Action}
  {file file' : Option (List UInt8)} {lock : Lock} {answer : Answer} {answers answers' : List Answer}
  {content content' : List UInt8}

theorem Grows.refl (file : Option (List UInt8)) : Grows file file :=
  fun content hcontent => ⟨content, hcontent, List.prefix_rfl⟩

theorem AnswerFact.grow (h : AnswerFact file answer) (hgrows : Grows file file') :
    AnswerFact file' answer := by
  refine ⟨h.1, fun hcount => ?_⟩
  obtain ⟨content, hcontent, hpre⟩ := h.2 hcount
  obtain ⟨content', hcontent', hpre'⟩ := hgrows content hcontent
  exact ⟨content', hcontent', hpre.trans hpre'⟩

theorem ReadFact.grow (h : ReadFact setup file answers proc) (hgrows : Grows file file')
    (hsub : ∀ answer ∈ answers, answer ∈ answers') : ReadFact setup file' answers' proc := by
  cases proc with
  | metadataOpen pos count =>
    obtain ⟨content, hcontent, hpos, hcount⟩ := h
    obtain ⟨content', hcontent', rest, rfl⟩ := hgrows content hcontent
    refine ⟨content ++ rest, hcontent', ?_, ?_⟩
    · rw [List.length_append]
      omega
    · rw [hcount, List.take_append_of_le_length hpos]
  | lookupOpen call => exact fun answer hanswer => hsub answer (h answer hanswer)
  | lookupLocked call => exact fun answer hanswer => hsub answer (h answer hanswer)
  | lookupRead call result => exact h
  | lookupDone call result => exact h
  | _ => trivial

/-- A step that does not empty the file. -/
theorem Kept.of_set (h : Kept setup w) (hgrows : Grows w.file file)
    (hanswers : ∀ answer ∈ answers, answer ∈ w.answers ∨ AnswerFact file answer)
    (hsub : ∀ answer ∈ w.answers, answer ∈ answers) (hproc : ReadFact setup file answers proc) :
    Kept setup (World.set ⟨file, lock, w.procs, answers⟩ p proc) where
  answers answer hanswer := by
    rcases hanswers answer hanswer with hold | hnew
    · exact (h.answers answer hold).grow hgrows
    · exact hnew
  procs := (Function.forall_update_iff w.procs fun _ proc => ReadFact setup file answers proc).2
    ⟨hproc, fun q _ => (h.procs q).grow hgrows hsub⟩

theorem lookupLines_append (fromStr : List Char → Option HistoryEntry)
    {lines : List (List UInt8)} (rest : List (List UInt8)) {offset : Nat}
    (h : offset < lines.length) :
    lookupLines fromStr offset (lines ++ rest) = lookupLines fromStr offset lines := by
  induction lines generalizing offset with
  | nil => exact absurd h (Nat.not_lt_zero _)
  | cons line lines ih =>
    rw [List.cons_append, lookupLines, lookupLines]
    cases offset with
    | zero => rfl
    | succ offset =>
      have hrest := ih (Nat.lt_of_succ_lt_succ h)
      simp only [Nat.succ_ne_zero, if_false, Nat.add_sub_cancel, hrest]

/-- What is read below a count is what was counted. -/
theorem agrees_of_prefix {setup : Setup} {entries : List HistoryEntry}
    (hfact : AnswerFact (some (contentsOf entries)) answer) {offset : Nat}
    (hoffset : offset < answer.count) :
    Agrees setup answer offset
      (lookupHistoryEntry setup.fromStr (contentsOf entries) offset) := by
  obtain ⟨⟨counted, hcounts⟩, hpre⟩ := hfact
  obtain ⟨content, hcontent, hpre⟩ := hpre (Nat.zero_lt_of_lt hoffset)
  cases hcontent
  refine ⟨counted, hcounts, .inr ?_⟩
  rw [hcounts.content] at hpre
  obtain ⟨rest, hrest⟩ := isPrefix_of_flatten (isRecord_of_mem counted) (isRecord_of_mem entries)
    hpre
  have hlt : offset < (counted.map historyLine).length := by
    rwa [List.length_map, ← hcounts.count]
  rw [← lookupHistoryEntry_contentsOf, lookupHistoryEntry, lookupHistoryEntry, split_contentsOf,
    split_contentsOf, ← hrest, lookupLines_append setup.fromStr rest hlt]

theorem countNewlines_append (bytes bytes' : List UInt8) :
    countNewlines (bytes ++ bytes') = countNewlines bytes + countNewlines bytes' :=
  List.count_append

/-- As long as nothing is counted the file may be emptied. -/
theorem Kept.truncate (h : Kept setup w) (hnone : ¬ Counted w) (p : Nat)
    (before tail : List UInt8) :
    Kept setup (World.set { w with file := some [] } p (.truncated before tail)) where
  answers answer hanswer :=
    ⟨(h.answers answer hanswer).1, fun hcount => absurd (.inl ⟨answer, hanswer, hcount⟩) hnone⟩
  procs := by
    refine (Function.forall_update_iff w.procs fun _ proc =>
      ReadFact setup (some []) w.answers proc).2 ⟨trivial, fun q _ => ?_⟩
    have hfact := h.procs q
    cases hproc : w.procs q with
    | metadataOpen pos count =>
      rw [hproc] at hfact
      obtain ⟨content, -, -, hcount⟩ := hfact
      have hzero : pos = 0 :=
        Nat.eq_zero_of_not_pos fun hpos => hnone (.inr ⟨q, pos, count, hproc, hpos⟩)
      subst hzero
      exact ⟨[], rfl, Nat.le_refl _, hcount⟩
    | _ => rwa [hproc] at hfact

theorem Kept.step (h : Kept setup w) (hw : Whole w) (hclear : Clear w action)
    (hstep : Step setup w action w') : Kept setup w' := by
  have hself : ∀ answer ∈ w.answers, answer ∈ w.answers ∨ AnswerFact w.file answer :=
    fun _ => .inl
  cases hstep with
  | append hp =>
    refine h.of_set (fun content hcontent => ?_) (fun _ => .inl) (fun _ => id) trivial
    exact ⟨w.file.getD [], rfl, by rw [hcontent]; exact List.prefix_rfl⟩
  | lock hp hlock => exact h.of_set (.refl _) hself (fun _ => id) trivial
  | @write p entry content hp hfile =>
    refine h.of_set (fun content' hcontent' => ?_) (fun _ => .inl) (fun _ => id) ?_
    · rw [hfile] at hcontent'
      cases hcontent'
      exact ⟨_, rfl, List.prefix_append _ _⟩
    · rw [afterWrite]
      split
      · trivial
      · trivial
  | @truncate p before tail hp =>
    exact h.truncate (hclear rfl) p before tail
  | rewrite hp hfile =>
    refine h.of_set (fun content' hcontent' => ?_) (fun _ => .inl) (fun _ => id) trivial
    rw [hfile] at hcontent'
    cases hcontent'
    exact ⟨_, rfl, List.prefix_append _ _⟩
  | unlock hp => exact h.of_set (.refl _) hself (fun _ => id) trivial
  | lookup hp hfile hid =>
    exact h.of_set (.refl _) hself (fun _ => id) fun answer hanswer => hanswer
  | lookupMiss hp hmiss =>
    refine h.of_set (.refl _) hself (fun _ => id) fun answer hanswer _ => ?_
    obtain ⟨entries, hcounts⟩ := (h.answers answer hanswer).1
    exact ⟨entries, hcounts, .inl rfl⟩
  | @lockShared p call lock hp hlock =>
    have hfact := h.procs p
    rw [hp] at hfact
    exact h.of_set (.refl _) hself (fun _ => id) hfact
  | @read p call content hp hfile =>
    have hfact := h.procs p
    rw [hp] at hfact
    refine h.of_set (.refl _) hself (fun _ => id) fun answer hanswer hoffset => ?_
    have hanswer' := h.answers answer (hfact answer hanswer)
    obtain ⟨entries, rfl⟩ := hw.file content hfile
    rw [hfile] at hanswer'
    exact agrees_of_prefix hanswer' hoffset
  | @unlockShared p call result lock hp hlock =>
    have hfact := h.procs p
    rw [hp] at hfact
    exact h.of_set (.refl _) hself (fun _ => id) hfact
  | metadata hp hfile =>
    refine h.of_set (.refl _) hself (fun _ => id) ⟨_, hfile, Nat.zero_le _, rfl⟩
  | metadataMiss hp hfile =>
    refine h.of_set (.refl _) (fun answer hanswer => ?_) (fun _ => List.mem_cons_of_mem _) trivial
    rcases List.mem_cons.1 hanswer with rfl | hold
    · exact .inr ⟨⟨[], rfl, rfl⟩, fun hcount => absurd hcount (Nat.lt_irrefl 0)⟩
    · exact .inl hold
  | @readChunk p pos count content n hp hfile hn hlen =>
    have hfact := h.procs p
    rw [hp] at hfact
    obtain ⟨content', hcontent', hpos, hcount⟩ := hfact
    rw [hfile] at hcontent'
    cases hcontent'
    refine h.of_set (.refl _) hself (fun _ => id) ⟨content, hfile, hlen, ?_⟩
    rw [hcount, ← countNewlines_append, List.take_add]
  | @readEnd p pos count content hp hfile hlen =>
    have hfact := h.procs p
    rw [hp] at hfact
    obtain ⟨content', hcontent', hpos, hcount⟩ := hfact
    rw [hfile] at hcontent'
    cases hcontent'
    obtain ⟨entries, hentries⟩ := hw.file content hfile
    refine h.of_set (.refl _) (fun answer hanswer => ?_) (fun _ => List.mem_cons_of_mem _) trivial
    rcases List.mem_cons.1 hanswer with rfl | hold
    · refine .inr ⟨⟨entries, hentries, ?_⟩, fun _ => ⟨content, hfile, List.prefix_rfl⟩⟩
      rw [hcount, List.take_of_length_le hlen, hentries, countNewlines_contentsOf]
    · exact .inl hold

/-- **The shared history.** In every run the file consists of whole lines and a trim keeps the
newest. In the runs in which the file is not emptied once something is counted the offsets below a
count are good. -/
theorem messageHistory_spec (setup : Setup) :
    (∀ w, (system setup).Reach w →
      (∀ content ∈ w.file, ∃ entries, content = contentsOf entries) ∧
      ∀ p before, w.procs p = .appended (some before) →
        ∃ tail, Trims before tail ∧ w.file = some tail) ∧
    ∀ w, ((system setup).restrict Clear).Reach w → OffsetsValid setup w := by
  refine ⟨fun w hreach => ?_, fun w hreach => ?_⟩
  · have hw := whole_of_reach hreach
    refine ⟨hw.file, fun p before hp => ?_⟩
    have hfact := hw.procs p
    rw [hp] at hfact
    exact hfact.2 before rfl
  · have hkept : Whole w ∧ Kept setup w := by
      refine hreach.invariant (I := fun w => Whole w ∧ Kept setup w) (fun w hinit => ?_)
        fun w action w' hI hstep => ⟨hI.1.step hstep.2, hI.2.step hI.1 hstep.1 hstep.2⟩
      have hstart : (system setup).Reach w := .init hinit
      refine ⟨whole_of_reach hstart, ?_⟩
      obtain ⟨entries, file, -, rfl⟩ := hinit
      exact ⟨nofun, fun p => trivial⟩
    intro p call result hp answer hanswer _ hoffset
    have hfact := hkept.2.procs p
    rw [hp] at hfact
    exact hfact answer hanswer hoffset

end

/-! ## Calls on their own -/

section
variable {setup : Setup} {w u v : World} {p : Nat} {content tail : List UInt8}
  {entry : HistoryEntry} {before after : Process} {action : Action}

theorem World.procs_set (w : World) (p : Nat) (proc : Process) : (w.set p proc).procs p = proc :=
  Function.update_self ..

/-- A run goes on with another step of the process. -/
theorem run_set (h : (system setup).Run w (u.set p before))
    (hstep : Step setup (u.set p before) action (v.set p after))
    (hprocs : v.procs = (u.set p before).procs) :
    (system setup).Run w (World.set { v with procs := u.procs } p after) := by
  have hsame : World.set { v with procs := u.procs } p after = v.set p after := by
    simp [World.set, hprocs]
  rw [hsame]
  exact h.step hstep

theorem run_proc (h : (system setup).Run w (u.set p before))
    (hstep : Step setup (u.set p before) action ((u.set p before).set p after)) :
    (system setup).Run w (u.set p after) := by
  have hset : (u.set p before).set p after = u.set p after := by simp [World.set]
  rw [hset] at hstep
  exact h.step hstep

/-- An append with a trim. -/
theorem run_append (hp : (w.procs p).free) (hlock : w.lock = .free) (hfile : w.file = some content)
    (htrim : enforceHistoryLimit setup.softCap (setup.maxBytes p) (content ++ historyLine entry) =
      some tail) :
    (system setup).Run w (World.set { w with file := some tail, lock := .free } p .idle) := by
  have hafter : afterWrite setup p (content ++ historyLine entry) =
      .trimming (content ++ historyLine entry) tail := by
    rw [afterWrite, htrim]
  have hopen : (system setup).Run w
      (World.set { w with file := some content } p (.appendOpen entry)) := by
    have hgetD : w.file.getD [] = content := by rw [hfile]; rfl
    have hstep : Step setup w .other
        (World.set { w with file := some (w.file.getD []) } p (.appendOpen entry)) := .append hp
    rw [hgetD] at hstep
    exact .step .refl hstep
  have hlocked : (system setup).Run w
      (World.set { w with file := some content, lock := .exclusive p } p (.appendLocked entry)) :=
    run_set hopen (.lock (World.procs_set ..) hlock) rfl
  have hwritten : (system setup).Run w
      (World.set { w with file := some (content ++ historyLine entry), lock := .exclusive p } p
        (afterWrite setup p (content ++ historyLine entry))) :=
    run_set hlocked (.write (World.procs_set ..) rfl) rfl
  rw [hafter] at hwritten
  have htruncated : (system setup).Run w
      (World.set { w with file := some [], lock := .exclusive p } p
        (.truncated (content ++ historyLine entry) tail)) :=
    run_set hwritten (.truncate (World.procs_set ..)) rfl
  have hrewritten : (system setup).Run w
      (World.set { w with file := some tail, lock := .exclusive p } p
        (.appended (some (content ++ historyLine entry)))) :=
    run_set htruncated (.rewrite (World.procs_set ..) rfl) rfl
  exact run_set hrewritten (.unlock (World.procs_set ..)) rfl

/-- A count of a short file. -/
theorem run_metadata (hp : (w.procs p).free) (hfile : w.file = some content)
    (hlen : 0 < content.length ∧ content.length ≤ 8192) :
    (system setup).Run w (World.set { w with
      answers := ⟨setup.logId, countNewlines content, content⟩ :: w.answers } p .idle) := by
  have hopen : (system setup).Run w (w.set p (.metadataOpen 0 0)) :=
    .step .refl (.metadata hp hfile)
  have hread : (system setup).Run w (w.set p (.metadataOpen (0 + content.length)
      (0 + countNewlines ((content.drop 0).take content.length)))) :=
    run_proc hopen (.readChunk (World.procs_set ..) hfile hlen (Nat.zero_add _).le)
  rw [List.drop_zero, List.take_length, Nat.zero_add, Nat.zero_add] at hread
  exact run_set hread (.readEnd (World.procs_set ..) hfile (Nat.le_refl _)) rfl

/-- A lookup with the identity of the file. -/
theorem run_lookup (hp : (w.procs p).free) (hlock : w.lock = .free) (hfile : w.file = some content)
    (offset : Nat) :
    (system setup).Run w (World.set { w with lock := .free } p
      (.lookupDone ⟨w.answers, setup.logId, offset⟩
        (lookupHistoryEntry setup.fromStr content offset))) := by
  have hopen : (system setup).Run w (w.set p (.lookupOpen ⟨w.answers, setup.logId, offset⟩)) :=
    .step .refl (.lookup hp hfile (.inr rfl))
  have hshared : w.lock.share = some (.shared 0) := by rw [hlock]; rfl
  have hlocked : (system setup).Run w (World.set { w with lock := .shared 0 } p
      (.lookupLocked ⟨w.answers, setup.logId, offset⟩)) :=
    run_set hopen (.lockShared (World.procs_set ..) hshared) rfl
  have hread : (system setup).Run w (World.set { w with lock := .shared 0 } p
      (.lookupRead ⟨w.answers, setup.logId, offset⟩
        (lookupHistoryEntry setup.fromStr content offset))) :=
    run_proc hlocked (.read (World.procs_set ..) hfile)
  exact run_set hread (.unlockShared (World.procs_set ..) rfl) rfl

end

/-! ## A trim after a count -/

/-- The entry with a text. -/
def entryOf (text : String) : HistoryEntry := ⟨[], 0, text.toList⟩

/-- The file may have 50 bytes, which is one line of the entries `a` and `b`. -/
def smallSetup : Setup where
  softCap maxBytes := max 1 (maxBytes * 4 / 5)
  fromStr text := [entryOf "a", entryOf "b"].find? fun entry => entry.toJson = text
  logId := 7
  maxBytes _ := some 50

/-- One entry is counted, another one takes its place, and the first is looked up. -/
theorem not_offsetsValid_small :
    ¬ ∀ w, (system smallSetup).Reach w → OffsetsValid smallSetup w := by
  intro h
  have hstart : (system smallSetup).Reach { file := some (contentsOf [entryOf "a"]) } :=
    .init ⟨[entryOf "a"], _, .inr rfl, rfl⟩
  have htrim : enforceHistoryLimit smallSetup.softCap (smallSetup.maxBytes 1)
      (contentsOf [entryOf "a"] ++ historyLine (entryOf "b")) = some (contentsOf [entryOf "b"]) := by
    decide +kernel
  have hcounted := hstart.run (run_metadata (p := 0) rfl rfl (by decide +kernel))
  have happended := hcounted.run (run_append (p := 1) rfl rfl rfl htrim)
  have hlooked := happended.run (run_lookup (p := 0) rfl rfl rfl 0)
  obtain ⟨entries, hcounts, hresult⟩ := h _ hlooked 0 _ _ (World.procs_set ..) _
    List.mem_cons_self rfl (by decide +kernel)
  rw [← lookupHistoryEntry_contentsOf, ← hcounts.content] at hresult
  exact absurd hresult (by decide +kernel)

end Mcodex.MessageHistory
