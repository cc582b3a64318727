import Mathlib.Data.Prod.Lex
import Mcodex.Lib.Behavior
import Mcodex.AgentJobs.Watching

/-!
# The loop comes to its end

An item whose worker cannot be spawned is to be failed, but the statement that fails an item selects
running items only, and the item is pending. So it stays pending, and is tried again in each round.
In runs where only the limit of agents keeps workers from being spawned, and not for ever, the loop
ends with all its items final, or cancelled (`progresses_iff`).
-/

namespace Mcodex.AgentJobs

open Transition Table

/-! ## What an infinite run promises, and what is claimed of it -/

section
variable {maxConcurrency : Nat} (run : (agentJob maxConcurrency).Behavior)

/-- The runner tries to spawn a worker for the item. -/
def Attempts (i : Nat) (item : AgentJobItem) : Prop :=
  run.action i = .runner ∧ ∃ rest, (run.state i).pc = .spawn (item :: rest)

/-- The attempt finds that the limit of agents is reached. -/
def LimitReached (i : Nat) : Prop :=
  (∃ item, Attempts run i item) ∧ (run.state (i + 1)).pc = .reap

/-- The attempt fails with another error. -/
def SpawnFails (i : Nat) (item : AgentJobItem) : Prop :=
  run.action i = .runner ∧
    ∃ rest, (run.state i).pc = .spawn (item :: rest) ∧ (run.state (i + 1)).pc = .spawn rest

/-- The runner runs its loop, is not restarted, and no statement of it fails; each worker ends its
turn or times out at some time, the runner finds those that have ended, and the limit of agents is
reached finitely often. -/
structure Fair : Prop where
  begins : (run.state 0).pc = .listRunning
  one : ∀ i, run.action i ≠ .restart
  stores : ∀ i, (run.state i).pc ≠ .failing
  goesOn : ∀ i, ∃ j ≥ i, (run.state j).pc = .done ∨ run.action j = .runner ∨
    run.action j = .finalWrite
  ends : ∀ i, ∀ threadId ∈ (run.state i).live, ∃ j ≥ i, threadId ∉ (run.state j).live
  finds : ∀ i, run.action i = .runner → (run.state i).pc = .findFinished →
    ∀ worker ∈ (run.state i).activeItems, worker.1 ∉ (run.state i).live →
      ∃ finished, (run.state (i + 1)).pc = .finalizing finished ∧ worker ∈ finished
  limits : ∃ n, ∀ i ≥ n, ¬ LimitReached run i

structure Progresses : Prop where
  attempts : ∃ n, ∀ i ≥ n, ∀ item, ¬ Attempts run i item
  ends : ∃ i, (run.state i).pc = .done ∧
    (AllFinal (run.state i) ∨ (run.state i).cancelRequested = true)
  fails : ∀ i item, SpawnFails run i item →
    Has (run.state (i + 1)).db item.itemId (·.status = .failed) ∧
      ∀ j > i, ∀ item', item'.itemId = item.itemId → ¬ Attempts run j item'

end

/-! ## What each step lowers -/

/-- The changes that are left for an item. -/
def AgentJobItem.toGo (item : AgentJobItem) : Nat :=
  match item.status with
  | .pending => 2
  | .running => 1
  | .completed | .failed => 0

def itemsToGo : List AgentJobItem → Nat
  | [] => 0
  | item :: items => item.toGo + itemsToGo items

def AgentJobDb.toGo (db : AgentJobDb) : Nat := itemsToGo db.items

/-- The statements up to the first round of the loop. -/
def Pc.recovering : Pc → Bool
  | .created | .listRunning | .recover _ | .finalizeRead _ (.recover _)
  | .finalizeWrite _ _ (.recover _) | .readCancelled => true
  | _ => false

/-- The statements behind the loop. -/
def Pc.left : Pc → Bool
  | .exporting | .exportFailed | .readFinalCancelled | .completing | .completed | .done => true
  | _ => false

/-- How far it is to the next search for finished threads, or to the end. -/
def Pc.rank : Pc → Nat ×ₗ Nat
  | .created => toLex (16, 0)
  | .listRunning => toLex (15, 0)
  | .recover rest => toLex (14, 3 * rest.length)
  | .finalizeRead _ (.recover rest) => toLex (14, 3 * rest.length + 2)
  | .finalizeWrite _ _ (.recover rest) => toLex (14, 3 * rest.length + 1)
  | .readCancelled => toLex (13, 0)
  | .finalizing finished => toLex (12, 3 * finished.length)
  | .finalizeRead _ (.finished rest) => toLex (12, 3 * rest.length + 2)
  | .finalizeWrite _ _ (.finished rest) => toLex (12, 3 * rest.length + 1)
  | .readProgress => toLex (11, 0)
  | .loopHead => toLex (10, 0)
  | .listPending => toLex (9, 0)
  | .spawn rest => toLex (8, 2 * rest.length)
  | .assign _ _ rest => toLex (8, 2 * rest.length + 1)
  | .reap => toLex (7, 0)
  | .reaping stale => toLex (6, stale.length)
  | .findFinished => toLex (5, 0)
  | .exporting => toLex (4, 0)
  | .exportFailed | .readFinalCancelled => toLex (3, 0)
  | .completing => toLex (2, 0)
  | .completed => toLex (1, 0)
  | .failing | .done => toLex (0, 0)

section
variable {maxConcurrency : Nat} {s t : JobState} {a : Action} {db db' : AgentJobDb}

theorem map_eq_or_lt {f : AgentJobItem → AgentJobItem} (items : List AgentJobItem)
    (h : ∀ item ∈ items, f item = item ∨ (f item).toGo < item.toGo) :
    items.map f = items ∨ itemsToGo (items.map f) < itemsToGo items := by
  induction items with
  | nil => exact Or.inl rfl
  | cons item items ih =>
    obtain ⟨hitem, hitems⟩ := List.forall_mem_cons.1 h
    rw [List.map_cons, itemsToGo, itemsToGo]
    rcases hitem with heq | hlt <;> rcases ih hitems with heq' | hlt'
    · exact Or.inl (by rw [heq, heq'])
    · exact Or.inr (by rw [heq]; omega)
    · exact Or.inr (by rw [heq']; omega)
    · exact Or.inr (by omega)

theorem ItemEnds.eq_or_lt {item item' : AgentJobItem} (h : ItemEnds item item') :
    item' = item ∨ item'.toGo < item.toGo := by
  cases h with
  | stay h => exact Or.inl h
  | ends hrunning hfinal _ _ =>
    right
    simp only [AgentJobItem.isFinal, Bool.or_eq_true, decide_eq_true_eq] at hfinal
    rcases hfinal with hstatus | hstatus <;> simp [AgentJobItem.toGo, hrunning, hstatus]

theorem ItemsEnd.eq_or_lt (h : ItemsEnd db db') : db'.items = db.items ∨ db'.toGo < db.toGo := by
  obtain ⟨f, hitems, hends⟩ := h
  rw [AgentJobDb.toGo, hitems]
  exact map_eq_or_lt db.items fun item hitem => (hends item hitem).eq_or_lt

theorem assigned_eq_or_lt (itemId : ItemId) (threadId : ThreadId) :
    (db.markAgentJobItemRunningWithThread itemId threadId).1.items = db.items ∨
      (db.markAgentJobItemRunningWithThread itemId threadId).1.toGo < db.toGo := by
  refine map_eq_or_lt db.items fun item _ => ?_
  split
  · rename_i hselected
    simp only [Bool.and_eq_true, decide_eq_true_eq] at hselected
    right
    simp [AgentJobItem.toGo, hselected.2]
  · exact Or.inl rfl

/-- Items only go forward: nothing that is released was running. -/
theorem Watched.items_eq_or_lt (h : Watched s) (hstep : JobStep maxConcurrency s a t) :
    t.db.items = s.db.items ∨ t.db.toGo < s.db.toGo := by
  have hsees := h.sees
  cases hstep with
  | runner hrunner =>
    cases hrunner with
    | recoverStale | recoverUnassigned | reapItem => exact (itemsEnd_fail _).eq_or_lt
    | finalizeWrite =>
      rw [resume_db]
      exact (itemsEnd_finalize s _ _).eq_or_lt
    | agentLimitReached hpc =>
      rw [hpc] at hsees
      rw [AgentJobDb.markAgentJobItemPending, updateItem_of_pending h.ids
        (hsees.2 _ List.mem_cons_self) fun _ hguard => of_decide_eq_true hguard]
      exact Or.inl rfl
    | spawnFailed _ hpc => exact (itemsEnd_fail _).eq_or_lt
    | assigned hpc _ => exact assigned_eq_or_lt _ _
    | _ => exact Or.inl rfl
  | finalWrite hwrite => cases hwrite <;> exact Or.inl rfl
  | report threadId itemId resultJson stop => exact (itemsEnd_report threadId resultJson).eq_or_lt
  | stop => exact Or.inl (markAgentJobCancelled_items _ _)
  | finish | restart => exact Or.inl rfl

theorem RunnerStep.rank_lt (h : RunnerStep maxConcurrency s t) (hpc : s.pc ≠ .findFinished)
    (hfail : s.pc ≠ .failing) (hfail' : t.pc ≠ .failing) : t.pc.rank < s.pc.rank := by
  have hlt {a b c d : Nat} (h : a < c ∨ a = c ∧ b < d) : toLex (a, b) < toLex (c, d) :=
    Prod.Lex.toLex_lt_toLex.2 h
  cases h with
  | optionsFailed | error => exact absurd rfl hfail'
  | notFailed hpc => exact absurd hpc hfail
  | findFinished hfinished => exact absurd hfinished hpc
  | finalizeRead hpc =>
    rename_i worker after item _
    rw [hpc]
    cases after <;> exact hlt (by omega)
  | finalizeWrite hpc =>
    rename_i item worker after
    rw [hpc]
    cases after <;> exact hlt (by omega)
  | nextFinished hpc | recoverFinal hpc _ _ | spawned hpc _ _ =>
    rw [hpc]
    refine hlt (Or.inr ⟨rfl, ?_⟩)
    rw [List.length_cons]
    omega
  | readProgress hpc =>
    rw [hpc]
    show (if s.loopDone then Pc.exporting else Pc.loopHead).rank < _
    split <;> exact hlt (by omega)
  | readFinalCancelled hpc =>
    rw [hpc]
    show (if s.cancelRequested || s.db.isAgentJobCancelled then Pc.done else Pc.completing).rank < _
    split <;> exact hlt (by omega)
  | recoverStale _ hpc | recoverUnassigned hpc _ | recoverActive hpc _ _ | agentLimitReached hpc
  | spawnFailed _ hpc | assigned hpc _ | notAssigned hpc _
  | reap hpc _ | reapItem _ hpc | listPending hpc _ _ | skipPending hpc _ | markRunning hpc
  | notRunning hpc | listRunning hpc | recovered hpc | readCancelled hpc | loopHead hpc
  | spawnedAll hpc | reaped hpc | finalizedAll hpc | exported hpc | notExported hpc
  | finished hpc =>
    rw [hpc]
    exact hlt (by simp)

/-- Where the statements of a round lead to, if they do not fail. -/
def Next (maxConcurrency : Nat) (s t : JobState) : Pc → Prop
  | .loopHead => t.pc = .listPending
  | .listPending =>
    s.cancelRequested = false → s.activeItems.length < maxConcurrency →
      t.pc = .spawn (s.db.listAgentJobItems (some .pending)
        (some (maxConcurrency - s.activeItems.length)))
  | .spawn (item :: rest) =>
    (∃ threadId, t.pc = .assign item threadId rest) ∨ t.pc = .reap ∨
      (t.pc = .spawn rest ∧
        ∃ errorMessage, t.db = (s.db.markAgentJobItemFailed item.itemId errorMessage).1)
  | .assign item threadId _ =>
    (s.db.markAgentJobItemRunningWithThread item.itemId threadId).2 = false ∨
      t.db = (s.db.markAgentJobItemRunningWithThread item.itemId threadId).1
  | .findFinished => ∃ finished, finished.Sublist s.activeItems ∧
    t.pc = if finished.isEmpty then .readProgress else .finalizing finished
  | .finalizing (worker :: finished) => t.pc = .finalizeRead worker (.finished finished)
  | .finalizeRead worker after => ∃ item, t.pc = .finalizeWrite item worker after
  | .finalizeWrite _ worker (.finished _) =>
    t.activeItems = s.activeItems.filter (·.1 ≠ worker.1)
  | .readProgress => t.pc = if s.loopDone then .exporting else .loopHead
  | _ => True

theorem RunnerStep.next (h : RunnerStep maxConcurrency s t) (hfail : t.pc ≠ .failing) :
    Next maxConcurrency s t s.pc := by
  cases h with
  | optionsFailed | error => exact absurd rfl hfail
  | loopHead hpc | nextFinished hpc | readProgress hpc =>
    rw [hpc]
    rfl
  | listPending hpc hcancel hslots =>
    rw [hpc]
    exact fun _ _ => rfl
  | skipPending hpc hskip =>
    rw [hpc]
    intro hcancel hslots
    rw [hcancel] at hskip
    exact absurd (hskip.resolve_left Bool.false_ne_true) (Nat.not_le.2 hslots)
  | spawned hpc _ _ =>
    rw [hpc]
    exact Or.inl ⟨_, rfl⟩
  | agentLimitReached hpc =>
    rw [hpc]
    exact Or.inr (Or.inl rfl)
  | spawnFailed _ hpc =>
    rw [hpc]
    exact Or.inr (Or.inr ⟨rfl, _, rfl⟩)
  | assigned hpc _ =>
    rw [hpc]
    exact Or.inr rfl
  | notAssigned hpc hassigned =>
    rw [hpc]
    exact Or.inl hassigned
  | findFinished hpc hactive _ =>
    rw [hpc]
    exact ⟨_, hactive, rfl⟩
  | finalizeRead hpc _ =>
    rw [hpc]
    exact ⟨_, rfl⟩
  | @finalizeWrite item worker after hpc =>
    rw [hpc]
    cases after with
    | recover => trivial
    | finished =>
      show ((s.finalize item worker).drop worker).activeItems = _
      rw [JobState.finalize]
      rfl
  | markRunning hpc | notRunning hpc | listRunning hpc | recoverStale _ hpc
  | recoverUnassigned hpc _ | recoverFinal hpc _ _ | recoverActive hpc _ _ | recovered hpc
  | readCancelled hpc | spawnedAll hpc | reap hpc _ | reapItem _ hpc | reaped hpc
  | finalizedAll hpc | exported hpc | notExported hpc | readFinalCancelled hpc | finished hpc
  | notFailed hpc =>
    rw [hpc]
    trivial

theorem FinalWrite.rank_lt (h : FinalWrite s t) (hfail : s.pc ≠ .failing) :
    t.pc.rank < s.pc.rank := by
  cases h with
  | failed _ hpc => exact absurd hpc hfail
  | exportFailed _ hpc | completed hpc =>
    rw [hpc]
    exact Prod.Lex.toLex_lt_toLex.2 (by simp)

theorem FinalWrite.pc (h : FinalWrite s t) :
    s.pc = .exportFailed ∨ s.pc = .completing ∨ s.pc = .failing := by
  cases h with
  | exportFailed _ hpc => exact Or.inl hpc
  | completed hpc => exact Or.inr (Or.inl hpc)
  | failed _ hpc => exact Or.inr (Or.inr hpc)

/-- Only the runner goes on. -/
theorem JobStep.pc_eq (h : JobStep maxConcurrency s a t) (hrunner : a ≠ .runner)
    (hwrite : a ≠ .finalWrite) (hrestart : a ≠ .restart) : t.pc = s.pc := by
  cases h with
  | runner => exact absurd rfl hrunner
  | finalWrite => exact absurd rfl hwrite
  | restart => exact absurd rfl hrestart
  | report | stop | finish => rfl

theorem JobStep.not_recovering (h : JobStep maxConcurrency s a t) (hrestart : a ≠ .restart)
    (hpc : s.pc.recovering = false) : t.pc.recovering = false := by
  cases h with
  | runner hrunner =>
    cases hrunner with
    | @finalizeRead worker after item hfinalize hitem =>
      rw [hfinalize] at hpc
      cases after with
      | recover => cases hpc
      | finished => rfl
    | @finalizeWrite item worker after hfinalize =>
      rw [hfinalize] at hpc
      cases after with
      | recover => cases hpc
      | finished => rfl
    | findFinished | readProgress | readFinalCancelled =>
      rw [JobState.goto]
      split <;> rfl
    | markRunning h | listRunning h | recoverStale _ h | recoverUnassigned h _
    | recoverFinal h _ _ | recoverActive h _ _ | recovered h =>
      rw [h] at hpc
      cases hpc
    | _ => rfl
  | finalWrite hwrite => cases hwrite <;> rfl
  | restart => exact absurd rfl hrestart
  | report | stop | finish => exact hpc

theorem JobStep.left (h : JobStep maxConcurrency s a t) (hrestart : a ≠ .restart)
    (hfail : t.pc ≠ .failing) (hpc : s.pc.left = true) :
    t.pc.left = true ∧ t.cancelRequested = s.cancelRequested ∧ ItemsEnd s.db t.db := by
  cases h with
  | runner hrunner =>
    cases hrunner with
    | readFinalCancelled =>
      refine ⟨?_, rfl, itemsEnd_of_items_eq rfl⟩
      rw [JobState.goto]
      split <;> rfl
    | exported | notExported | finished => exact ⟨rfl, rfl, itemsEnd_of_items_eq rfl⟩
    | optionsFailed | error => exact absurd rfl hfail
    | recoverStale _ h | recoverUnassigned h _ | recoverActive h _ _ | agentLimitReached h
    | spawnFailed _ h | assigned h _ | notAssigned h _ | reap h _ | reapItem _ h
    | listPending h _ _ | skipPending h _ | markRunning h | notRunning h | listRunning h
    | recovered h | readCancelled h | loopHead h | spawnedAll h | reaped h | finalizedAll h
    | nextFinished h | recoverFinal h _ _ | spawned h _ _ | findFinished h _ _ | readProgress h
    | finalizeRead h _ | finalizeWrite h | notFailed h =>
      rw [h] at hpc
      cases hpc
  | finalWrite hwrite => cases hwrite <;> exact ⟨rfl, rfl, itemsEnd_of_items_eq rfl⟩
  | restart => exact absurd rfl hrestart
  | report threadId itemId resultJson stop =>
    exact ⟨hpc, rfl, itemsEnd_report threadId resultJson⟩
  | stop => exact ⟨hpc, rfl, itemsEnd_of_items_eq (markAgentJobCancelled_items _ _)⟩
  | finish => exact ⟨hpc, rfl, itemsEnd_of_items_eq rfl⟩

theorem JobStep.ne_created (h : JobStep maxConcurrency s a t) (hpc : s.pc ≠ .created) :
    t.pc ≠ .created := by
  intro hcreated
  cases h with
  | runner hrunner =>
    cases hrunner with
    | @finalizeWrite item worker after => cases after <;> cases hcreated
    | findFinished | readProgress | readFinalCancelled =>
      rw [JobState.goto] at hcreated
      dsimp only at hcreated
      split at hcreated <;> cases hcreated
    | _ => cases hcreated
  | finalWrite hwrite => cases hwrite <;> cases hcreated
  | restart => cases hcreated
  | report | stop | finish => exact hpc hcreated

/-- The loop is left where it is found to be done. -/
theorem JobStep.loopDone (h : JobStep maxConcurrency s a t) (hcreated : s.pc ≠ .created)
    (hfail : s.pc ≠ .failing) (hloop : s.pc.left = false) (hleft : t.pc.left = true) :
    s.loopDone = true ∧ t.db = s.db ∧ t.cancelRequested = s.cancelRequested := by
  cases h with
  | runner hrunner =>
    cases hrunner with
    | readProgress hpc =>
      cases hdone : s.loopDone with
      | true => exact ⟨rfl, rfl, rfl⟩
      | false =>
        rw [hdone] at hleft
        cases hleft
    | @finalizeWrite item worker after => cases after <;> cases hleft
    | findFinished =>
      rw [JobState.goto] at hleft
      split at hleft <;> cases hleft
    | notRunning hpc => exact absurd hpc hcreated
    | notFailed hpc => exact absurd hpc hfail
    | exported hpc | notExported hpc | readFinalCancelled hpc | finished hpc =>
      rw [hpc] at hloop
      cases hloop
    | _ => cases hleft
  | finalWrite hwrite =>
    cases hwrite with
    | failed _ hpc => exact absurd hpc hfail
    | exportFailed _ hpc | completed hpc =>
      rw [hpc] at hloop
      cases hloop
  | restart => cases hleft
  | report | stop | finish =>
    have hsame : s.pc.left = true := hleft
    rw [hloop] at hsame
    cases hsame

/-- With no worker that is watched, the loop is done unless items are pending. -/
theorem Watched.exists_pending (h : Watched s) (hpc : s.pc = .readProgress)
    (hactive : s.activeItems = []) (hdone : s.loopDone = false) :
    s.cancelRequested = false ∧ ∃ item ∈ s.db.items, item.status = .pending := by
  have hnone : s.db.items.countP (·.status = .running) = 0 := by
    rw [List.countP_eq_zero]
    intro item hitem hrunning
    rcases h.running (by rw [hpc]; rfl) item hitem (of_decide_eq_true hrunning) with
      ⟨worker, hworker, -⟩ | hunread
    · rw [hactive] at hworker
      cases hworker
    · rw [hpc] at hunread
      cases hunread
  rw [JobState.loopDone] at hdone
  split at hdone
  · simp [AgentJobDb.getAgentJobProgress, hnone, hactive] at hdone
  · rename_i hcancel
    refine ⟨Bool.eq_false_iff.2 hcancel, ?_⟩
    simpa [AgentJobDb.getAgentJobProgress, hnone, hactive] using hdone

theorem listPending_ne_nil {db : AgentJobDb} {item : AgentJobItem} (hitem : item ∈ db.items)
    (hpending : item.status = .pending) (slots : Nat) (hslots : 0 < slots) :
    db.listAgentJobItems (some .pending) (some slots) ≠ [] := by
  have hmem : item ∈ db.items.filter fun item =>
      (some AgentJobItemStatus.pending).all (item.status = ·) :=
    List.mem_filter.2 ⟨hitem, by simp [hpending]⟩
  intro hnil
  rcases List.take_eq_nil_iff.1 hnil with hzero | hempty
  · omega
  · rw [hempty] at hmem
    cases hmem

/-! ## Rounds without a spawn -/

/-- What is left to be done without a change of the items. -/
def JobState.watch (s : JobState) : Nat :=
  (if s.cancelRequested then 0 else 1) + s.live.length + s.activeItems.length

/-- Whether workers are to be spawned no more, the threads that run their turns, and the workers
that are watched. -/
def JobState.workers (s : JobState) : Bool × List ThreadId × List Worker :=
  (s.cancelRequested, s.live, s.activeItems)

theorem filter_eq_or_lt {α : Type} (p : α → Bool) (l : List α) :
    l.filter p = l ∨ (l.filter p).length < l.length := by
  rcases Nat.lt_or_ge (l.filter p).length l.length with hlt | hge
  · exact Or.inr hlt
  · exact Or.inl (List.filter_sublist.eq_of_length_le hge)

theorem live_eq_or_lt {live : List ThreadId} (h : live = s.live ∨ live.length < s.live.length)
    (hlive : t.live = live) (hcancel : t.cancelRequested = s.cancelRequested)
    (hactive : t.activeItems = s.activeItems) : t.workers = s.workers ∨ t.watch < s.watch := by
  rcases h with heq | hlt
  · exact Or.inl (by rw [JobState.workers, JobState.workers, hlive, heq, hcancel, hactive])
  · right
    rw [JobState.watch, JobState.watch, hlive, hcancel, hactive]
    omega

theorem drop_eq_or_lt (worker : Worker) (hcancel : t.cancelRequested = s.cancelRequested)
    (hlive : t.live = s.live.filter (· ≠ worker.1))
    (hactive : t.activeItems = s.activeItems.filter (·.1 ≠ worker.1)) :
    t.workers = s.workers ∨ t.watch < s.watch := by
  have hl := filter_eq_or_lt (fun threadId => decide (threadId ≠ worker.1)) s.live
  have ha := filter_eq_or_lt (fun active : Worker => decide (active.1 ≠ worker.1)) s.activeItems
  rw [JobState.workers, JobState.workers, JobState.watch, JobState.watch, hcancel, hlive, hactive]
  rcases hl with heq | hlt <;> rcases ha with heq' | hlt'
  · exact Or.inl (by rw [heq, heq'])
  · exact Or.inr (by rw [heq]; omega)
  · exact Or.inr (by rw [heq']; omega)
  · exact Or.inr (by omega)

theorem cancel_eq_or_lt (cancelled : Bool)
    (hcancel : t.cancelRequested = (s.cancelRequested || cancelled)) (hlive : t.live = s.live)
    (hactive : t.activeItems = s.activeItems) : t.workers = s.workers ∨ t.watch < s.watch := by
  rw [JobState.workers, JobState.workers, JobState.watch, JobState.watch, hcancel, hlive, hactive]
  cases s.cancelRequested <;> cases cancelled
  · exact Or.inl rfl
  · right
    simp
  · exact Or.inl rfl
  · exact Or.inl rfl

/-- Behind the recovery, workers become fewer unless one is spawned. -/
theorem JobStep.workers_eq_or_lt (h : JobStep maxConcurrency s a t) (hrestart : a ≠ .restart)
    (hpc : s.pc.recovering = false)
    (hspawn : a = .runner → ∀ item rest, s.pc ≠ .spawn (item :: rest))
    (hassign : ∀ item threadId rest, s.pc ≠ .assign item threadId rest) :
    t.workers = s.workers ∨ t.watch < s.watch := by
  cases h with
  | runner hrunner =>
    cases hrunner with
    | @finalizeWrite item worker after hfinalize =>
      rw [hfinalize] at hpc
      cases after with
      | recover => cases hpc
      | finished =>
        refine drop_eq_or_lt worker ?_ ?_ ?_ <;>
        · rw [JobState.finalize]
          rfl
    | reapItem _ _ => exact drop_eq_or_lt _ rfl rfl rfl
    | loopHead => exact cancel_eq_or_lt _ rfl rfl rfl
    | markRunning h | listRunning h | recoverStale _ h | recoverUnassigned h _
    | recoverFinal h _ _ | recoverActive h _ _ | readCancelled h =>
      rw [h] at hpc
      cases hpc
    | spawned h _ _ => exact absurd h (hspawn rfl _ _)
    | assigned h _ | notAssigned h _ => exact absurd h (hassign _ _ _)
    | _ => exact Or.inl rfl
  | finalWrite hwrite => cases hwrite <;> exact Or.inl rfl
  | restart => exact absurd rfl hrestart
  | report | stop => exact Or.inl rfl
  | finish => exact live_eq_or_lt (filter_eq_or_lt _ _) rfl rfl rfl

end

/-! ## Fair runs -/

section
variable {maxConcurrency : Nat} {run : (agentJob maxConcurrency).Behavior}

theorem watched_state (run : (agentJob maxConcurrency).Behavior) (i : Nat) :
    Watched (run.state i) := .of_reach (run.reach i)

/-- The items change finitely often. -/
theorem items_settled (run : (agentJob maxConcurrency).Behavior) :
    ∃ n, ∀ i ≥ n, (run.state i).db.items = (run.state n).db.items := by
  obtain ⟨n, -, hn⟩ := exists_constant (f := fun i => (run.state i).db.items)
    (w := itemsToGo) (n := 0)
    fun i _ => (watched_state run i).items_eq_or_lt (run.step i)
  exact ⟨n, hn⟩

namespace Fair

variable (h : Fair run)
include h

/-- The runner stays at a statement until it executes it. -/
theorem executes {i : Nat} {pc : Pc} (hpc : (run.state i).pc = pc) (hdone : pc ≠ .done) :
    ∃ j ≥ i, (run.state j).pc = pc ∧ (run.action j = .runner ∨ run.action j = .finalWrite) := by
  obtain ⟨j, hj, hstays, hacts⟩ := exists_acts h.goesOn (p := fun j => (run.state j).pc = pc)
    (fun j hj hacts => by
      rw [not_or, not_or] at hacts
      exact ((run.step j).pc_eq hacts.2.1 hacts.2.2 (h.one j)).trans hj) hpc
  refine ⟨j, hj, hstays, hacts.resolve_left fun hend => hdone (hstays.symm.trans hend)⟩

/-- The runner goes on from a statement of the loop. -/
theorem next {i : Nat} {pc : Pc} (hpc : (run.state i).pc = pc)
    (hloop : pc.watching = true) :
    ∃ j ≥ i, (run.state j).pc = pc ∧ run.action j = .runner ∧
      Next maxConcurrency (run.state j) (run.state (j + 1)) pc := by
  have hne (pc' : Pc) (hpc' : pc'.watching = false) : pc ≠ pc' := by
    rintro rfl
    rw [hloop] at hpc'
    cases hpc'
  obtain ⟨j, hj, hstays, hacts⟩ := h.executes hpc (hne .done rfl)
  have hstep : JobStep maxConcurrency (run.state j) (run.action j) (run.state (j + 1)) := run.step j
  rcases hacts with haction | haction
  · rw [haction] at hstep
    cases hstep with
    | runner hrunner =>
      exact ⟨j, hj, hstays, haction, hstays ▸ hrunner.next (h.stores (j + 1))⟩
  · rw [haction] at hstep
    cases hstep with
    | finalWrite hwrite =>
      rcases hwrite.pc with hwrite | hwrite | hwrite
      · exact absurd (hstays.symm.trans hwrite) (hne .exportFailed rfl)
      · exact absurd (hstays.symm.trans hwrite) (hne .completing rfl)
      · exact absurd hwrite (h.stores j)

/-- The runner searches for finished threads again and again, or it is done. -/
theorem searches (i : Nat) : ∃ j ≥ i, (run.state j).pc = .done ∨
    ((run.state j).pc = .findFinished ∧ run.action j = .runner) := by
  let searching (j : Nat) : Prop := (run.state j).pc = .done ∨
    ((run.state j).pc = .findFinished ∧ run.action j = .runner)
  obtain ⟨k, hk, j, hj, hsearching⟩ := exists_of_rank (p := fun i => ∃ j ≥ i, searching j)
    (r := fun i => (run.state i).pc.rank) (fun i => by
      by_cases hdone : (run.state i).pc = .done
      · exact Or.inl ⟨i, Nat.le_refl i, Or.inl hdone⟩
      obtain ⟨j, hj, hpc, hacts⟩ := h.executes rfl hdone
      by_cases hfind : (run.state j).pc = .findFinished ∧ run.action j = .runner
      · exact Or.inl ⟨j, hj, Or.inr hfind⟩
      have hstep : JobStep maxConcurrency (run.state j) (run.action j) (run.state (j + 1)) :=
        run.step j
      refine Or.inr ⟨j + 1, by omega, ?_⟩
      rw [← hpc]
      rcases hacts with haction | haction <;> rw [haction] at hstep
      · cases hstep with
        | runner hrunner =>
          exact hrunner.rank_lt (fun hpc => hfind ⟨hpc, haction⟩) (h.stores j) (h.stores (j + 1))
      · cases hstep with
        | finalWrite hwrite => exact hwrite.rank_lt (h.stores j)) i
  exact ⟨j, hj.trans' hk, hsearching⟩

/-- Behind the first search the recovery is over. -/
theorem recovered : ∃ n, ∀ i ≥ n, (run.state i).pc.recovering = false := by
  obtain ⟨n, -, hn⟩ := h.searches 0
  have hpc : (run.state n).pc.recovering = false := by
    rcases hn with hpc | ⟨hpc, -⟩ <;> rw [hpc] <;> rfl
  exact ⟨n, forall_ge_of_step hpc fun i _ hi =>
    JobStep.not_recovering (run.step i) (h.one i) hi⟩

/-- Once no item changes any more, no worker is assigned. -/
theorem not_assigning {n : Nat} (hn : ∀ i ≥ n, (run.state i).db.items = (run.state n).db.items)
    {i : Nat} (hi : i ≥ n) (item : AgentJobItem) (threadId : ThreadId) (rest : List AgentJobItem) :
    (run.state i).pc ≠ .assign item threadId rest := by
  intro hpc
  obtain ⟨j, hj, hpc, -, hnext⟩ := h.next hpc rfl
  have hsees := (watched_state run j).sees
  rw [hpc] at hsees
  obtain ⟨item', hitem', hid, hpending⟩ := hsees.2.2 item List.mem_cons_self
  have hselected : (decide (item'.itemId = item.itemId) &&
      decide (item'.status = .pending)) = true := by simp [hid, hpending]
  rcases hnext with hfalse | hdb
  · exact absurd (List.any_eq_true.2 ⟨item', hitem', hselected⟩) (Bool.eq_false_iff.1 hfalse)
  · have hsame : (run.state (j + 1)).db.items = (run.state j).db.items :=
      (hn (j + 1) (by omega)).trans (hn j (by omega)).symm
    have hrunning : { item' with
        status := .running, assignedThreadId := some threadId, lastError := none } ∈
        (run.state j).db.items := by
      rw [← hsame, hdb]
      exact mem_updateWhere.2 ⟨item', hitem', (if_pos hselected).symm⟩
    have heq := List.inj_on_of_nodup_map (watched_state run j).ids hrunning hitem' rfl
    rw [← heq] at hpending
    cases hpending

/-- Attempts that only the limit of agents keeps from succeeding come to an end. -/
theorem not_attempting (hspawns : ∀ i item, ¬ SpawnFails run i item) {n : Nat}
    (hsettled : ∀ i ≥ n, (run.state i).db.items = (run.state n).db.items)
    (hlimits : ∀ i ≥ n, ¬ LimitReached run i) {i : Nat} (hi : i ≥ n) (item : AgentJobItem) :
    ¬ Attempts run i item := by
  rintro ⟨haction, rest, hpc⟩
  have hstep : JobStep maxConcurrency (run.state i) (run.action i) (run.state (i + 1)) := run.step i
  rw [haction] at hstep
  cases hstep with
  | runner hrunner =>
    have hnext := hrunner.next (h.stores (i + 1))
    rw [hpc] at hnext
    rcases hnext with ⟨threadId, hassign⟩ | hreap | ⟨hspawn, -⟩
    · exact h.not_assigning hsettled (by omega) item threadId rest hassign
    · exact hlimits i hi ⟨⟨item, haction, rest, hpc⟩, hreap⟩
    · exact hspawns i item ⟨haction, rest, hpc, hspawn⟩

/-- At some time only the runner moves, in rounds that find nothing to do. -/
theorem quiet (hspawns : ∀ i item, ¬ SpawnFails run i item) :
    ∃ n, (∀ i ≥ n, ∀ item, ¬ Attempts run i item) ∧
      (∀ i ≥ n, (run.state i).db.items = (run.state n).db.items) ∧
      ∀ i ≥ n, (run.state i).workers = (run.state n).workers := by
  obtain ⟨k, hrecovered⟩ := h.recovered
  obtain ⟨l, hsettled⟩ := items_settled run
  obtain ⟨m, hlimits⟩ := h.limits
  let n := max k (max l m)
  have hsettled' : ∀ i ≥ n, (run.state i).db.items = (run.state n).db.items := fun i hi =>
    (hsettled i (by omega)).trans (hsettled n (by omega)).symm
  have hattempts : ∀ i ≥ n, ∀ item, ¬ Attempts run i item := fun i hi item =>
    h.not_attempting hspawns hsettled' (fun j hj => hlimits j (by omega)) hi item
  obtain ⟨r, hr, hworkers⟩ := exists_constant (f := fun i => (run.state i).workers)
    (w := fun workers => (if workers.1 then 0 else 1) + workers.2.1.length + workers.2.2.length)
    (n := n) fun i hi => JobStep.workers_eq_or_lt (run.step i) (h.one i)
      (hrecovered i (by omega)) (fun haction item rest hpc => hattempts i hi item ⟨haction, rest, hpc⟩)
      (h.not_assigning hsettled' hi)
  exact ⟨r, fun i hi => hattempts i (by omega),
    fun i hi => (hsettled' i (by omega)).trans (hsettled' r hr).symm, hworkers⟩

/-- No worker is watched any more, since all have ended and would be found. -/
theorem activeItems_eq_nil {n : Nat} (hworkers : ∀ i ≥ n, (run.state i).workers =
    (run.state n).workers) {i : Nat} (hi : i ≥ n) (haction : run.action i = .runner)
    (hpc : (run.state i).pc = .findFinished) : (run.state i).activeItems = [] := by
  have hsame (j : Nat) (hj : j ≥ i) : (run.state j).live = (run.state i).live ∧
      (run.state j).activeItems = (run.state i).activeItems := by
    have heq := (hworkers j (by omega)).trans (hworkers i hi).symm
    exact ⟨congrArg (fun workers => workers.2.1) heq, congrArg (fun workers => workers.2.2) heq⟩
  have hdead (threadId : ThreadId) : threadId ∉ (run.state i).live := by
    intro hlive
    obtain ⟨j, hj, hend⟩ := h.ends i threadId hlive
    exact hend ((hsame j hj).1 ▸ hlive)
  refine List.eq_nil_iff_forall_not_mem.2 fun worker hworker => ?_
  obtain ⟨finished, hfinished, hmem⟩ := h.finds i haction hpc worker hworker (hdead worker.1)
  have hstep : JobStep maxConcurrency (run.state i) (run.action i) (run.state (i + 1)) := run.step i
  rw [haction] at hstep
  cases hstep with
  | runner hrunner =>
    have hnext := hrunner.next (h.stores (i + 1))
    rw [hpc] at hnext
    obtain ⟨finished', hactive, hpc'⟩ := hnext
    rw [hfinished] at hpc'
    split at hpc'
    · cases hpc'
    · obtain rfl := Pc.finalizing.inj hpc'
      obtain ⟨first, rest, rfl⟩ := List.exists_cons_of_ne_nil (List.ne_nil_of_mem hmem)
      obtain ⟨j, hj, -, -, hread⟩ := h.next hfinished rfl
      obtain ⟨k, hk, -, -, item, hwrite⟩ := h.next hread rfl
      obtain ⟨l, hl, -, -, hdrop⟩ := h.next hwrite rfl
      -- The first of them is dropped, but none is.
      have hfirst : first ∈ (run.state (l + 1)).activeItems :=
        (hsame (l + 1) (by omega)).2 ▸ hactive.subset List.mem_cons_self
      rw [hdrop] at hfirst
      exact of_decide_eq_true (List.mem_filter.1 hfirst).2 rfl

/-- The loop is left. -/
theorem leaves (hslots : 0 < maxConcurrency) (hspawns : ∀ i item, ¬ SpawnFails run i item) :
    ∃ i, (run.state i).pc.left = true := by
  by_contra hnever
  rw [not_exists] at hnever
  obtain ⟨n, hattempts, hitems, hworkers⟩ := h.quiet hspawns
  obtain ⟨i, hi, hdone | ⟨hpc, haction⟩⟩ := h.searches n
  · exact hnever i (by rw [hdone]; rfl)
  have hnone := h.activeItems_eq_nil hworkers hi haction hpc
  have hsame (j : Nat) (hj : j ≥ i) : (run.state j).activeItems = [] ∧
      (run.state j).cancelRequested = (run.state i).cancelRequested := by
    have heq := (hworkers j (by omega)).trans (hworkers i hi).symm
    exact ⟨(congrArg (fun workers => workers.2.2) heq).trans hnone, congrArg Prod.fst heq⟩
  have hprogress : (run.state (i + 1)).pc = .readProgress := by
    have hstep : JobStep maxConcurrency (run.state i) (run.action i) (run.state (i + 1)) :=
      run.step i
    rw [haction] at hstep
    cases hstep with
    | runner hrunner =>
      have hnext := hrunner.next (h.stores (i + 1))
      rw [hpc] at hnext
      obtain ⟨finished, hfinished, hpc'⟩ := hnext
      rw [hnone, List.sublist_nil] at hfinished
      rw [hpc', hfinished]
      rfl
  obtain ⟨j, hj, hread, -, hhead⟩ := h.next hprogress rfl
  have hloop : (run.state j).loopDone = false := by
    by_contra hdone
    have hpc' := hhead.trans (if_pos (Bool.of_not_eq_false hdone))
    exact hnever (j + 1) (by rw [hpc']; rfl)
  rw [Next, hloop] at hhead
  obtain ⟨hcancel, item, hitem, hpending⟩ := (watched_state run j).exists_pending hread
    (hsame j (by omega)).1 hloop
  obtain ⟨k, hk, -, -, hlist⟩ := h.next hhead rfl
  obtain ⟨l, hl, -, -, hspawn⟩ := h.next hlist rfl
  have hactive := (hsame l (by omega)).1
  have hpc' := hspawn
    ((hsame l (by omega)).2.trans ((hsame j (by omega)).2.symm.trans hcancel))
    (by rw [hactive]; exact hslots)
  have hpendingItem : item ∈ (run.state l).db.items := by
    rw [hitems l (by omega), ← hitems j (by omega)]
    exact hitem
  obtain ⟨first, rest, hlisted⟩ := List.exists_cons_of_ne_nil
    (listPending_ne_nil hpendingItem hpending (maxConcurrency - (run.state l).activeItems.length)
      (by rw [hactive]; exact hslots))
  rw [hlisted] at hpc'
  obtain ⟨m, hm, hattempt, haction, -⟩ := h.next hpc' rfl
  exact hattempts m (by omega) first ⟨haction, rest, hattempt⟩

theorem left_of_left {i j : Nat} (hi : (run.state i).pc.left = true) (hj : j ≥ i) :
    (run.state j).pc.left = true :=
  forall_ge_of_step (p := fun j => (run.state j).pc.left = true) hi
    (fun j _ hj => (JobStep.left (run.step j) (h.one j) (h.stores (j + 1)) hj).1) j hj

theorem pc_ne_created (i : Nat) : (run.state i).pc ≠ .created := by
  induction i with
  | zero => exact fun hpc => by cases h.begins.symm.trans hpc
  | succ i ih => exact JobStep.ne_created (run.step i) ih

/-- Behind the loop all items are final, unless the job was cancelled. -/
theorem allFinal (i : Nat) (hleft : (run.state i).pc.left = true) :
    AllFinal (run.state i) ∨ (run.state i).cancelRequested = true := by
  induction i with
  | zero =>
    rw [h.begins] at hleft
    cases hleft
  | succ i ih =>
    cases hpc : (run.state i).pc.left with
    | true =>
      obtain ⟨-, hcancel, hitems⟩ :=
        JobStep.left (run.step i) (h.one i) (h.stores (i + 1)) hpc
      rw [hcancel]
      exact (ih hpc).imp (fun hall => hall.itemsStep (JobStep.itemsStep (run.step i))) id
    | false =>
      obtain ⟨hdone, hdb, hcancel⟩ :=
        JobStep.loopDone (run.step i) (h.pc_ne_created i) (h.stores i) hpc hleft
      rw [hcancel]
      cases hflag : (run.state i).cancelRequested with
      | true => exact Or.inr rfl
      | false =>
        refine Or.inl ?_
        rw [AllFinal, hdb]
        exact allFinal_of_loopDone hflag hdone

end Fair

/-- An item whose worker cannot be spawned stays pending. -/
theorem not_failed_of_spawnFails {i : Nat} {item : AgentJobItem} (h : SpawnFails run i item) :
    ¬ Has (run.state (i + 1)).db item.itemId (·.status = .failed) := by
  obtain ⟨haction, rest, hpc, hpc'⟩ := h
  have hsees := (watched_state run i).sees
  rw [hpc] at hsees
  have hlisted := hsees.2 item List.mem_cons_self
  have hstep : JobStep maxConcurrency (run.state i) (run.action i) (run.state (i + 1)) := run.step i
  rw [haction] at hstep
  cases hstep with
  | runner hrunner =>
    have hnext := hrunner.next (by rw [hpc']; exact fun hfail => by cases hfail)
    rw [hpc, Next, hpc'] at hnext
    rcases hnext with ⟨threadId, hassign⟩ | hreap | ⟨-, errorMessage, hdb⟩
    · cases hassign
    · cases hreap
    · rw [AgentJobDb.markAgentJobItemFailed, updateItem_of_pending (watched_state run i).ids hlisted
        fun _ hguard => of_decide_eq_true hguard] at hdb
      rintro ⟨item', hitem', hid, hfailed⟩
      rw [hdb] at hitem'
      have hpending := eq_of_has (watched_state run i).ids hlisted item' hitem' hid
      rw [hfailed] at hpending
      cases hpending

/-- In a fair run the loop comes to its end as it should if and only if no worker fails to be
spawned but for the limit of agents. -/
theorem progresses_iff (hslots : 0 < maxConcurrency) (h : Fair run) :
    Progresses run ↔ ∀ i item, ¬ SpawnFails run i item := by
  constructor
  · exact fun hprogresses i item hfails =>
      not_failed_of_spawnFails hfails (hprogresses.fails i item hfails).1
  · intro hspawns
    obtain ⟨n, hattempts, -⟩ := h.quiet hspawns
    obtain ⟨i, hleft⟩ := h.leaves hslots hspawns
    obtain ⟨j, hj, hdone | ⟨hpc, -⟩⟩ := h.searches i
    · exact ⟨⟨n, hattempts⟩, ⟨j, hdone, h.allFinal j (h.left_of_left hleft hj)⟩,
        fun i item hfails => absurd hfails (hspawns i item)⟩
    · have hleft' := h.left_of_left hleft hj
      rw [hpc] at hleft'
      cases hleft'

end

/-! ## A run in which no worker can be spawned -/

def stuckItem : AgentJobItem := .create "row-1".toList

def stuckJob : JobState :=
  { JobState.create ["row-1".toList] with
    db := (AgentJobDb.create ["row-1".toList]).markAgentJobRunning }

/-- The statements of a round. -/
def roundPc : Nat → Pc
  | 0 => .loopHead
  | 1 => .listPending
  | 2 => .spawn [stuckItem]
  | 3 => .spawn []
  | 4 => .reap
  | 5 => .reaping []
  | 6 => .findFinished
  | _ => .readProgress

def stuckPc : Nat → Pc
  | 0 => .listRunning
  | 1 => .recover []
  | 2 => .readCancelled
  | i + 3 => roundPc (i % 8)

theorem round_step (i : Nat) :
    RunnerStep 1 (stuckJob.goto (roundPc (i % 8))) (stuckJob.goto (roundPc ((i + 1) % 8))) := by
  have hcases : i % 8 = 0 ∨ i % 8 = 1 ∨ i % 8 = 2 ∨ i % 8 = 3 ∨ i % 8 = 4 ∨ i % 8 = 5 ∨ i % 8 = 6 ∨
      i % 8 = 7 := by omega
  rcases hcases with h | h | h | h | h | h | h | h <;> rw [Nat.add_mod, h]
  · exact .loopHead rfl
  · exact .listPending rfl rfl Nat.one_pos
  · exact .spawnFailed (s := stuckJob.goto (.spawn [stuckItem])) [] rfl
  · exact .spawnedAll rfl
  · exact .reap rfl (List.nil_sublist _)
  · exact .reaped rfl
  · exact .findFinished (s := stuckJob.goto .findFinished) rfl (List.nil_sublist _)
      (fun _ hmem => absurd hmem List.not_mem_nil)
  · exact .readProgress rfl

theorem stuck_step : ∀ i, RunnerStep 1 (stuckJob.goto (stuckPc i)) (stuckJob.goto (stuckPc (i + 1)))
  | 0 => .listRunning rfl
  | 1 => .recovered rfl
  | 2 => .readCancelled rfl
  | i + 3 => round_step i

def stuckRun : (agentJob 1).Behavior where
  state i := stuckJob.goto (stuckPc i)
  action _ := .runner
  start := .step (.init ⟨["row-1".toList], List.nodup_singleton _, rfl⟩) (.runner (.markRunning rfl))
  step i := .runner (stuck_step i)

theorem roundPc_ne_failing : ∀ i, roundPc i ≠ .failing
  | 0 | 1 | 2 | 3 | 4 | 5 | 6 | _ + 7 => fun h => by cases h

theorem stuckPc_ne_failing : ∀ i, stuckPc i ≠ .failing
  | 0 | 1 | 2 => fun h => by cases h
  | i + 3 => roundPc_ne_failing (i % 8)

theorem eq_two_of_roundPc {item : AgentJobItem} {rest : List AgentJobItem} :
    ∀ i, roundPc i = .spawn (item :: rest) → i = 2
  | 0 | 1 | 3 | 4 | 5 | 6 | _ + 7 => fun h => by cases h
  | 2 => fun _ => rfl

theorem stuckPc_succ {item : AgentJobItem} {rest : List AgentJobItem} :
    ∀ i, stuckPc i = .spawn (item :: rest) → stuckPc (i + 1) = .spawn []
  | 0 | 1 | 2 => fun h => by cases h
  | i + 3 => fun h => by
    have hi := eq_two_of_roundPc (i % 8) h
    have hnext : (i + 1) % 8 = 3 := by omega
    show roundPc ((i + 1) % 8) = .spawn []
    rw [hnext]
    rfl

theorem stuckRun_fair : Fair stuckRun where
  begins := rfl
  one _ h := by cases h
  stores := stuckPc_ne_failing
  goesOn i := ⟨i, Nat.le_refl i, Or.inr (Or.inl rfl)⟩
  ends _ _ hlive := absurd hlive List.not_mem_nil
  finds _ _ _ _ hworker := absurd hworker List.not_mem_nil
  limits := by
    refine ⟨0, fun i _ hlimit => ?_⟩
    obtain ⟨⟨item, -, rest, hpc⟩, hreap⟩ := hlimit
    have hspawn : stuckPc (i + 1) = .spawn [] := stuckPc_succ i hpc
    cases hspawn.symm.trans hreap

theorem progresses_iff_stuckRun :
    Progresses stuckRun ↔ ∀ i item, ¬ SpawnFails stuckRun i item :=
  progresses_iff Nat.one_pos stuckRun_fair

/-- An item whose worker cannot be spawned is tried in each round, for ever. -/
theorem stuckRun_not_progresses : Fair stuckRun ∧ ¬ Progresses stuckRun := by
  refine ⟨stuckRun_fair, fun h => ?_⟩
  obtain ⟨n, hattempts⟩ := h.attempts
  refine hattempts (8 * n + 5) (by omega) stuckItem ⟨rfl, [], ?_⟩
  have hround : (8 * n + 2) % 8 = 2 := by omega
  show roundPc ((8 * n + 2) % 8) = .spawn [stuckItem]
  rw [hround]
  rfl

end Mcodex.AgentJobs
