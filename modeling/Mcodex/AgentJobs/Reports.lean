import Mcodex.AgentJobs.Settling

/-!
# The reports of workers

A worker runs before its item is assigned to its thread, and the runner writes the job's last
status without looking at it. In runs where each worker reports after its assignment, and no last
status is written over a cancellation, no report of a worker is lost and a cancelled job stays
cancelled (`reports_kept`). In other runs they are (`report_lost`).
-/

namespace Mcodex.AgentJobs

open Transition Table

/-- A live worker's first report comes after the write of its assignment, the job is not cancelled
when the runner writes its last status, and the runner is not restarted. -/
def Orderly (s : JobState) : Action → Prop
  | .runner | .stop | .finish _ => True
  | .finalWrite => s.db.job.status ≠ .cancelled
  | .report threadId itemId _ _ => (threadId, itemId) ∈ s.spawned → threadId ∈ s.live →
    (threadId, itemId) ∈ s.assigned ∧ ∀ report ∈ s.reports, report.threadId ≠ threadId
  | .restart => False

/-- The job, its runner and its workers in orderly runs. -/
def orderly (maxConcurrency : Nat) : System JobState Action :=
  (agentJob maxConcurrency).restrict Orderly

/-! ## Items by their ids -/

/-- The table has an item of this id for which `p` holds. -/
def Has (db : AgentJobDb) (itemId : ItemId) (p : AgentJobItem → Prop) : Prop :=
  ∃ item ∈ db.items, item.itemId = itemId ∧ p item

def NotPending (db : AgentJobDb) (itemId : ItemId) : Prop :=
  ∀ item ∈ db.items, item.itemId = itemId → item.status ≠ .pending

section
variable {db : AgentJobDb} {itemId itemId' : ItemId} {guard : AgentJobItem → Bool}
  {set : AgentJobItem → AgentJobItem} {p : AgentJobItem → Prop}

theorem Has.updateItem_of_ne (h : Has db itemId p) (hne : itemId ≠ itemId') :
    Has (db.updateItem itemId' guard set).1 itemId p := by
  obtain ⟨item, hitem, hid, hp⟩ := h
  refine ⟨item, mem_updateWhere.2 ⟨item, hitem, ?_⟩, hid, hp⟩
  rw [if_neg]
  simp [hid, hne]

theorem Has.updateItem_of_guard (h : Has db itemId p) (hguard : ∀ item, p item → ¬ guard item) :
    Has (db.updateItem itemId' guard set).1 itemId p := by
  obtain ⟨item, hitem, hid, hp⟩ := h
  refine ⟨item, mem_updateWhere.2 ⟨item, hitem, ?_⟩, hid, hp⟩
  rw [if_neg]
  simp [hguard item hp]

theorem NotPending.updateItem (h : NotPending db itemId)
    (hset : ∀ item, (set item).status ≠ .pending ∧ (set item).itemId = item.itemId) :
    NotPending (db.updateItem itemId' guard set).1 itemId := by
  intro item hitem hid
  obtain ⟨item₀, hitem₀, rfl⟩ := mem_updateWhere.1 hitem
  split at hid
  · rename_i hselected
    rw [if_pos hselected]
    exact (hset item₀).1
  · rename_i hselected
    rw [if_neg hselected]
    exact h item₀ hitem₀ hid

/-- A statement that selects no item changes nothing. -/
theorem updateItem_eq_self (h : ∀ item ∈ db.items, item.itemId = itemId → ¬ guard item) :
    (db.updateItem itemId guard set).1 = db := by
  have hitems : updateWhere (fun item => decide (item.itemId = itemId) && guard item) set
      db.items = db.items := by
    refine updateWhere_of_none fun item hitem => ?_
    simp only [Bool.and_eq_false_iff, decide_eq_false_iff_not]
    by_cases hid : item.itemId = itemId
    · exact Or.inr (Bool.not_eq_true _ ▸ h item hitem hid)
    · exact Or.inl hid
  rw [AgentJobDb.updateItem]
  simp only [hitems]

/-- Items are told apart by their ids. -/
theorem eq_of_has (hids : (db.items.map (·.itemId)).Nodup) (h : Has db itemId p) :
    ∀ item ∈ db.items, item.itemId = itemId → p item := by
  intro item hitem hid
  obtain ⟨item', hitem', hid', hp⟩ := h
  rwa [List.inj_on_of_nodup_map hids hitem hitem' (hid.trans hid'.symm)]

theorem updateItem_of_pending (hids : (db.items.map (·.itemId)).Nodup)
    (h : Has db itemId (·.status = .pending)) (hguard : ∀ item, guard item → item.status = .running) :
    (db.updateItem itemId guard set).1 = db :=
  updateItem_eq_self fun item hitem hid hselected => by
    have hpending := eq_of_has hids h item hitem hid
    rw [hguard item hselected] at hpending
    cases hpending

end

/-! ## The invariant of orderly runs -/

/-- The worker that was spawned and is being assigned. -/
def Pc.assigning : Pc → Option Worker
  | .assign item threadId _ => some (threadId, item.itemId)
  | _ => none

/-- The runner spawns no more workers. -/
def Pc.over : Pc → Bool
  | .failing | .done => true
  | _ => false

/-- The listed items are pending. -/
def Listed (s : JobState) (items : List AgentJobItem) : Prop :=
  (items.map (·.itemId)).Nodup ∧ ∀ item ∈ items, Has s.db item.itemId (·.status = .pending)

/-- The workers were spawned, and their turns ended. -/
def Finished (s : JobState) (workers : List Worker) : Prop :=
  ∀ worker ∈ workers, worker ∈ s.spawned ∧ worker.1 ∉ s.live

/-- What the runner knows at a statement. -/
def Knows (s : JobState) : Pc → Prop
  | .created => s.db.job.status = .pending ∧ s.stops = 0 ∧
    ∀ item ∈ s.db.items, item.status = .pending
  | .listRunning => ∀ item ∈ s.db.items, item.status = .pending
  | .recover rest => rest = []
  | .finalizeRead worker after | .finalizeWrite _ worker after =>
    ∃ finished, after = .finished finished ∧ Finished s (worker :: finished)
  | .spawn rest => Listed s rest
  | .assign item threadId rest => (threadId, item.itemId) ∈ s.spawned ∧ Listed s (item :: rest)
  | .reaping stale => stale ⊆ s.spawned
  | .finalizing finished => Finished s finished
  | _ => True

/-- The item of a live worker is its own, until it reported. -/
def Holds (s : JobState) (worker : Worker) : Prop :=
  Has s.db worker.2 (fun item => item.status = .running ∧
    item.assignedThreadId = some worker.1) ∨
  ∃ report ∈ s.reports, report.threadId = worker.1

structure Tracked (s : JobState) : Prop where
  ids : (s.db.items.map (·.itemId)).Nodup
  knows : Knows s s.pc
  one : ∀ worker ∈ s.spawned, ∀ worker' ∈ s.spawned, worker.2 = worker'.2 → worker = worker'
  assigned : s.assigned ⊆ s.spawned
  active : s.activeItems ⊆ s.spawned
  taken : ¬ s.pc.over → ∀ worker ∈ s.spawned, s.pc.assigning ≠ some worker →
    NotPending s.db worker.2
  holds : ∀ worker ∈ s.assigned, worker.1 ∈ s.live → Holds s worker

section
variable {maxConcurrency : Nat} {s t u : JobState} {a : Action} {pc : Pc}

/-- Statements that only go on. -/
theorem Tracked.goto (h : Tracked s) (hknows : Knows (s.goto pc) pc)
    (hassigning : s.pc.assigning = none ∨ pc.over) (hover : s.pc.over → pc.over) :
    Tracked (s.goto pc) where
  ids := h.ids
  knows := hknows
  one := h.one
  assigned := h.assigned
  active := h.active
  taken hnot worker hworker _ := by
    refine h.taken (fun hold => hnot (hover hold)) worker hworker ?_
    rw [hassigning.resolve_right hnot]
    exact fun heq => by cases heq
  holds := h.holds

theorem listed_listAgentJobItems (hids : (s.db.items.map (·.itemId)).Nodup) (limit : Option Nat) :
    Listed s (s.db.listAgentJobItems (some .pending) limit) := by
  have hsublist : (s.db.listAgentJobItems (some .pending) limit).Sublist s.db.items := by
    unfold AgentJobDb.listAgentJobItems
    cases limit with
    | none => exact List.filter_sublist
    | some limit => exact (List.take_sublist _ _).trans List.filter_sublist
  refine ⟨hids.sublist (hsublist.map _), fun item hitem => ⟨item, hsublist.subset hitem, rfl, ?_⟩⟩
  unfold AgentJobDb.listAgentJobItems at hitem
  have hmem : item ∈ s.db.items.filter fun item => (some AgentJobItemStatus.pending).all
      (item.status = ·) := by
    cases limit with
    | none => exact hitem
    | some limit => exact List.mem_of_mem_take hitem
  exact of_decide_eq_true (List.mem_filter.1 hmem).2

theorem Listed.tail {item : AgentJobItem} {rest : List AgentJobItem}
    (h : Listed s (item :: rest)) : Listed s rest :=
  ⟨(List.nodup_cons.1 h.1).2, fun item' hitem' => h.2 item' (List.mem_cons_of_mem _ hitem')⟩

/-- A statement about a worker's item leaves the other items. -/
structure Touches (itemId : ItemId) (db db' : AgentJobDb) : Prop where
  items : ItemsStep db db'
  others : ∀ {itemId' p}, itemId' ≠ itemId → Has db itemId' p → Has db' itemId' p
  notPending : ∀ {itemId'}, NotPending db itemId' → NotPending db' itemId'

theorem touches_fail {db : AgentJobDb} {itemId : ItemId} (errorMessage : List Char) :
    Touches itemId db (db.markAgentJobItemFailed itemId errorMessage).1 where
  items := itemsStep_fail errorMessage
  others hne h := h.updateItem_of_ne hne
  notPending h := h.updateItem fun _ => ⟨(fun hstatus => by cases hstatus), rfl⟩

theorem touches_finalize (item : AgentJobItem) (worker : Worker) :
    Touches worker.2 s.db (s.finalize item worker).db := by
  rw [JobState.finalize]
  split
  · split
    · exact ⟨itemsStep_complete, fun hne h => h.updateItem_of_ne hne,
        fun h => h.updateItem fun _ => ⟨(fun hstatus => by cases hstatus), rfl⟩⟩
    · exact touches_fail _
  · exact ⟨itemsStep_refl, fun _ h => h, fun h => h⟩

/-- The item of a worker is settled, and the worker is shut down. -/
theorem Tracked.drop {worker : Worker} {db : AgentJobDb} (h : Tracked s)
    (hworker : worker ∈ s.spawned) (htouches : Touches worker.2 s.db db)
    (hpc : s.pc.assigning = none) (hover : ¬ s.pc.over)
    (hknows : Knows ((({ s with db } : JobState).drop worker).goto pc) pc) :
    Tracked ((({ s with db } : JobState).drop worker).goto pc) where
  ids := htouches.items.ids ▸ h.ids
  knows := hknows
  one := h.one
  assigned := h.assigned
  active := fun _ hmem => h.active (List.mem_of_mem_filter hmem)
  taken _ worker' hworker' _ := htouches.notPending
    (h.taken hover worker' hworker' (by rw [hpc]; exact fun heq => by cases heq))
  holds worker' hworker' hlive := by
    obtain ⟨hlive, hne⟩ := List.mem_filter.1 hlive
    have hids : worker'.2 ≠ worker.2 := fun heq => of_decide_eq_true hne
      (congrArg Prod.fst (h.one worker' (h.assigned hworker') worker hworker heq))
    exact (h.holds worker' hworker' hlive).imp (htouches.others hids) id

theorem Finished.filter {workers : List Worker} {p : ThreadId → Bool} (h : Finished s workers) :
    ∀ worker ∈ workers, worker ∈ s.spawned ∧ worker.1 ∉ s.live.filter p :=
  fun worker hworker => ⟨(h worker hworker).1, fun hlive =>
    (h worker hworker).2 (List.mem_of_mem_filter hlive)⟩

theorem Tracked.spawned {item : AgentJobItem} {rest : List AgentJobItem} {threadId : ThreadId}
    (h : Tracked s) (hpc : s.pc = .spawn (item :: rest)) (hlisted : Listed s (item :: rest))
    (hfresh : ∀ worker ∈ s.spawned, worker.1 ≠ threadId) :
    Tracked (({ s with
      live := threadId :: s.live
      spawned := s.spawned ++ [(threadId, item.itemId)] } : JobState).goto
        (.assign item threadId rest)) := by
  have htaken : ∀ worker ∈ s.spawned, NotPending s.db worker.2 := fun worker hworker =>
    h.taken (by rw [hpc]; exact Bool.false_ne_true) worker hworker
      (by rw [hpc]; exact fun heq => by cases heq)
  -- The item is pending, so it has no worker yet.
  have hnew : ∀ worker ∈ s.spawned, worker.2 ≠ item.itemId := by
    intro worker hworker heq
    obtain ⟨item', hitem', hid, hpending⟩ := hlisted.2 item List.mem_cons_self
    exact htaken worker hworker item' hitem' (hid.trans heq.symm) hpending
  constructor
  · exact h.ids
  · exact ⟨List.mem_append_right _ List.mem_cons_self, hlisted⟩
  · intro worker hworker worker' hworker' heq
    rcases List.mem_append.1 hworker with hold | hone <;>
      rcases List.mem_append.1 hworker' with hold' | hone'
    · exact h.one worker hold worker' hold' heq
    · rw [List.mem_singleton.1 hone'] at heq
      exact absurd heq (hnew worker hold)
    · rw [List.mem_singleton.1 hone] at heq
      exact absurd heq.symm (hnew worker' hold')
    · rw [List.mem_singleton.1 hone, List.mem_singleton.1 hone']
  · exact fun worker hworker => List.mem_append_left _ (h.assigned hworker)
  · exact fun worker hworker => List.mem_append_left _ (h.active hworker)
  · intro _ worker hworker hassigning
    rcases List.mem_append.1 hworker with hold | hone
    · exact htaken worker hold
    · rw [List.mem_singleton.1 hone] at hassigning
      exact absurd rfl hassigning
  · intro worker hworker hlive
    rcases List.mem_cons.1 hlive with heq | hlive
    · exact absurd heq (hfresh worker (h.assigned hworker))
    · exact h.holds worker hworker hlive

theorem Tracked.assign {item : AgentJobItem} {rest : List AgentJobItem} {threadId : ThreadId}
    (h : Tracked s) (hpc : s.pc = .assign item threadId rest)
    (hspawned : (threadId, item.itemId) ∈ s.spawned) (hlisted : Listed s (item :: rest)) :
    Tracked (({ s with
      db := (s.db.markAgentJobItemRunningWithThread item.itemId threadId).1
      assigned := s.assigned ++ [(threadId, item.itemId)]
      activeItems := s.activeItems.filter (·.1 ≠ threadId) ++ [(threadId, item.itemId)] } :
        JobState).goto (.spawn rest)) := by
  have hstep : ItemsStep s.db (s.db.markAgentJobItemRunningWithThread item.itemId threadId).1 :=
    itemsStep_assign threadId
  obtain ⟨hhead, htail⟩ := List.nodup_cons.1 hlisted.1
  constructor
  · exact hstep.ids ▸ h.ids
  · refine ⟨htail, fun item' hitem' => ?_⟩
    refine (hlisted.2 item' (List.mem_cons_of_mem _ hitem')).updateItem_of_ne fun heq => ?_
    exact hhead (List.mem_map.2 ⟨item', hitem', heq⟩)
  · exact h.one
  · refine List.append_subset.2 ⟨h.assigned, List.cons_subset.2 ⟨hspawned, List.nil_subset _⟩⟩
  · refine List.append_subset.2 ⟨fun worker hworker => h.active (List.mem_of_mem_filter hworker),
      List.cons_subset.2 ⟨hspawned, List.nil_subset _⟩⟩
  · intro _ worker hworker _
    by_cases heq : worker = (threadId, item.itemId)
    · subst heq
      intro item' hitem' hid
      obtain ⟨item₀, hitem₀, rfl⟩ := mem_updateWhere.1 hitem'
      split at hid
      · rename_i hselected
        rw [if_pos hselected]
        exact fun hstatus => by cases hstatus
      · rename_i hselected
        rw [if_neg hselected]
        simpa [hid] using hselected
    · refine NotPending.updateItem (h.taken (by rw [hpc]; exact Bool.false_ne_true) worker hworker
        ?_) fun _ => ⟨(fun hstatus => by cases hstatus), rfl⟩
      rw [hpc]
      exact fun hsome => heq (Option.some.inj hsome).symm
  · intro worker hworker hlive
    by_cases heq : worker.2 = item.itemId
    · have hworker' : worker = (threadId, item.itemId) := by
        rcases List.mem_append.1 hworker with hold | hone
        · exact h.one worker (h.assigned hold) _ hspawned heq
        · exact List.mem_singleton.1 hone
      subst hworker'
      obtain ⟨item', hitem', hid, hpending⟩ := hlisted.2 item List.mem_cons_self
      refine Or.inl ⟨_, mem_updateWhere.2 ⟨item', hitem', rfl⟩, ?_⟩
      rw [if_pos (by simp [hid, hpending])]
      exact ⟨hid, rfl, rfl⟩
    · have hold : worker ∈ s.assigned := by
        rcases List.mem_append.1 hworker with hold | hone
        · exact hold
        · rw [List.mem_singleton.1 hone] at heq
          exact absurd rfl heq
      exact (h.holds worker hold hlive).imp (fun hhas => hhas.updateItem_of_ne heq) id

theorem Tracked.runner (h : Tracked s) (hstep : RunnerStep maxConcurrency s t) : Tracked t := by
  have hknows := h.knows
  cases hstep with
  | optionsFailed hpc => exact h.goto trivial (Or.inr rfl) fun _ => rfl
  | notRunning hpc => exact h.goto trivial (Or.inr rfl) fun _ => rfl
  | markRunning hpc =>
    rw [hpc] at hknows
    exact ⟨h.ids, hknows.2.2, h.one, h.assigned, h.active,
      fun _ worker hworker _ => h.taken (by rw [hpc]; exact Bool.false_ne_true) worker hworker
        (by rw [hpc]; exact fun heq => by cases heq), h.holds⟩
  | listRunning hpc =>
    rw [hpc] at hknows
    refine h.goto ?_ (Or.inl (by rw [hpc]; rfl)) fun hover => by rw [hpc] at hover; cases hover
    refine List.filter_eq_nil_iff.2 fun item hitem => ?_
    simp [hknows item hitem]
  | recoverStale _ hpc | recoverUnassigned hpc _ | recoverFinal hpc _ _ | recoverActive hpc _ _ =>
    rw [hpc] at hknows
    cases hknows
  | finalizeRead hpc hitem =>
    rw [hpc] at hknows
    exact h.goto hknows (Or.inl (by rw [hpc]; rfl)) fun hover => by rw [hpc] at hover; cases hover
  | finalizeWrite hpc =>
    rw [hpc] at hknows
    obtain ⟨finished, rfl, hfinished⟩ := hknows
    obtain ⟨⟨hworker, -⟩, hrest⟩ := List.forall_mem_cons.1 hfinished
    exact h.drop hworker (touches_finalize _ _) (by rw [hpc]; rfl)
      (by rw [hpc]; exact Bool.false_ne_true) (Finished.filter hrest)
  | readCancelled hpc | loopHead hpc =>
    exact ⟨h.ids, trivial, h.one, h.assigned, h.active,
      fun _ worker hworker _ => h.taken (by rw [hpc]; exact Bool.false_ne_true) worker hworker
        (by rw [hpc]; exact fun heq => by cases heq), h.holds⟩
  | listPending hpc _ _ =>
    exact h.goto (listed_listAgentJobItems h.ids _) (Or.inl (by rw [hpc]; rfl))
      fun hover => by rw [hpc] at hover; cases hover
  | spawned hpc hfresh hlive =>
    rw [hpc] at hknows
    exact h.spawned hpc hknows hfresh
  | agentLimitReached hpc =>
    rw [hpc] at hknows
    rw [AgentJobDb.markAgentJobItemPending, updateItem_of_pending h.ids
      (hknows.2 _ List.mem_cons_self) fun _ hguard => of_decide_eq_true hguard]
    exact h.goto trivial (Or.inl (by rw [hpc]; rfl)) fun hover => by rw [hpc] at hover; cases hover
  | spawnFailed _ hpc =>
    rw [hpc] at hknows
    rw [AgentJobDb.markAgentJobItemFailed, updateItem_of_pending h.ids
      (hknows.2 _ List.mem_cons_self) fun _ hguard => of_decide_eq_true hguard]
    exact h.goto hknows.tail (Or.inl (by rw [hpc]; rfl))
      fun hover => by rw [hpc] at hover; cases hover
  | assigned hpc hassigned =>
    rw [hpc] at hknows
    exact h.assign hpc hknows.1 hknows.2
  | notAssigned hpc hassigned =>
    rw [hpc] at hknows
    obtain ⟨item', hitem', hid, hpending⟩ := hknows.2.2 _ List.mem_cons_self
    refine absurd (List.any_eq_true.2 ⟨item', hitem', ?_⟩) (Bool.eq_false_iff.1 hassigned)
    simp [hid, hpending]
  | reap hpc hstale =>
    exact h.goto (fun _ hworker => h.active (hstale.subset hworker)) (Or.inl (by rw [hpc]; rfl))
      fun hover => by rw [hpc] at hover; cases hover
  | reapItem errorMessage hpc =>
    rw [hpc] at hknows
    obtain ⟨hworker, hstale⟩ := List.cons_subset.1 hknows
    exact h.drop hworker (touches_fail errorMessage) (by rw [hpc]; rfl)
      (by rw [hpc]; exact Bool.false_ne_true) hstale
  | findFinished hpc hactive hfinal =>
    refine h.goto ?_ (Or.inl (by rw [hpc]; rfl)) fun hover => by rw [hpc] at hover; cases hover
    split
    · trivial
    · exact fun worker hworker => ⟨h.active (hactive.subset hworker), hfinal worker hworker⟩
  | nextFinished hpc =>
    rw [hpc] at hknows
    exact h.goto ⟨_, rfl, hknows⟩ (Or.inl (by rw [hpc]; rfl))
      fun hover => by rw [hpc] at hover; cases hover
  | readProgress hpc | readFinalCancelled hpc =>
    refine h.goto ?_ (Or.inl (by rw [hpc]; rfl)) fun hover => by rw [hpc] at hover; cases hover
    split <;> trivial
  | error hpc hdone => exact h.goto trivial (Or.inr rfl) fun _ => rfl
  | notFailed hpc => exact h.goto trivial (Or.inr rfl) fun _ => rfl
  | finished hpc => exact h.goto trivial (Or.inr rfl) fun _ => rfl
  | recovered hpc | skipPending hpc _ | spawnedAll hpc | reaped hpc | finalizedAll hpc
  | exported hpc | notExported hpc =>
    exact h.goto trivial (Or.inl (by rw [hpc]; rfl)) fun hover => by rw [hpc] at hover; cases hover

theorem Tracked.finalWrite (h : Tracked s) (hstep : FinalWrite s t) : Tracked t := by
  cases hstep with
  | exportFailed _ hpc | failed _ hpc =>
    exact ⟨h.ids, trivial, h.one, h.assigned, h.active, fun hnot => absurd rfl hnot, h.holds⟩
  | completed hpc =>
    exact ⟨h.ids, trivial, h.one, h.assigned, h.active,
      fun _ worker hworker _ => h.taken (by rw [hpc]; exact Bool.false_ne_true) worker hworker
        (by rw [hpc]; exact fun heq => by cases heq), h.holds⟩

/-- The runner's knowledge is about the items, and the turns that ended. -/
theorem Knows.of_items_eq (h : Knows s pc) (hpc : pc ≠ .created)
    (hitems : t.db.items = s.db.items) (hspawned : t.spawned = s.spawned)
    (hlive : t.live ⊆ s.live) : Knows t pc := by
  have hlisted {items : List AgentJobItem} (hitem : Listed s items) : Listed t items := by
    refine ⟨hitem.1, fun item hmem => ?_⟩
    rw [Has, hitems]
    exact hitem.2 item hmem
  have hfinished {workers : List Worker} (hworkers : Finished s workers) : Finished t workers :=
    fun worker hworker => ⟨hspawned ▸ (hworkers worker hworker).1,
      fun hmem => (hworkers worker hworker).2 (hlive hmem)⟩
  cases pc with
  | created => exact absurd rfl hpc
  | listRunning => exact fun item hitem => h item (hitems ▸ hitem)
  | recover => exact h
  | finalizeRead worker after =>
    obtain ⟨finished, hafter, hworkers⟩ := h
    exact ⟨finished, hafter, hfinished hworkers⟩
  | finalizeWrite item worker after =>
    obtain ⟨finished, hafter, hworkers⟩ := h
    exact ⟨finished, hafter, hfinished hworkers⟩
  | spawn => exact hlisted h
  | assign => exact ⟨hspawned ▸ h.1, hlisted h.2⟩
  | reaping => exact fun worker hworker => hspawned ▸ h hworker
  | finalizing => exact hfinished h
  | _ => trivial

theorem Tracked.stop {stops : Nat} (h : Tracked s) (hstops : s.stops = stops + 1) :
    Tracked { s with
      db := (s.db.markAgentJobCancelled "cancelled by worker request".toList).1
      stops } := by
  have hitems := markAgentJobCancelled_items s.db "cancelled by worker request".toList
  refine ⟨hitems ▸ h.ids, h.knows.of_items_eq ?_ hitems rfl (List.Subset.refl _), h.one,
    h.assigned, h.active, fun hnot worker hworker hassigning => ?_,
    fun worker hworker hlive => ?_⟩
  · intro hpc
    have hknows := h.knows
    rw [hpc] at hknows
    exact absurd (hknows.2.1.symm.trans hstops) (Nat.succ_ne_zero _).symm
  · rw [NotPending, hitems]
    exact h.taken hnot worker hworker hassigning
  · rw [Holds, Has, hitems]
    exact h.holds worker hworker hlive

theorem Tracked.finish (h : Tracked s) (threadId : ThreadId) :
    Tracked { s with live := s.live.filter (· ≠ threadId) } where
  ids := h.ids
  knows := by
    by_cases hpc : s.pc = .created
    · have hknows := h.knows
      dsimp only
      rw [hpc] at hknows ⊢
      exact hknows
    · exact h.knows.of_items_eq hpc rfl rfl fun _ hmem => List.mem_of_mem_filter hmem
  one := h.one
  assigned := h.assigned
  active := h.active
  taken := h.taken
  holds worker hworker hlive := h.holds worker hworker (List.mem_of_mem_filter hlive)

section
variable {threadId : ThreadId} {itemId : ItemId}

/-- A report that is not accepted changes nothing. -/
theorem report_eq_self (resultJson : List Char) (stop : Bool)
    (h : (s.db.reportAgentJobItemResult itemId threadId resultJson).2 = false) :
    s.report threadId itemId resultJson stop = s := by
  have hdb : (s.db.reportAgentJobItemResult itemId threadId resultJson).1 = s.db := by
    refine updateItem_eq_self fun item hitem hid hguard => ?_
    refine absurd (List.any_eq_true.2 ⟨item, hitem, ?_⟩) (Bool.eq_false_iff.1 h)
    simpa [hid] using hguard
  rw [JobState.report]
  dsimp only
  rw [h, hdb]
  rfl

/-- What the runner knows is about items that no report is accepted for. -/
theorem Knows.report {item : AgentJobItem} (h : Knows s pc) (hitem : item ∈ s.db.items)
    (hrunning : item.status = .running) (resultJson : List Char) (stop : Bool) :
    Knows (s.report threadId itemId resultJson stop) pc := by
  have hpending (hall : ∀ item ∈ s.db.items, item.status = .pending) : False := by
    rw [hall item hitem] at hrunning
    cases hrunning
  have hlisted {items : List AgentJobItem} (hlisted : Listed s items) :
      Listed (s.report threadId itemId resultJson stop) items := by
    refine ⟨hlisted.1, fun item hmem => (hlisted.2 item hmem).updateItem_of_guard ?_⟩
    intro item hpending
    simp [hpending]
  cases pc with
  | created => exact (hpending h.2.2).elim
  | listRunning => exact (hpending h).elim
  | spawn => exact hlisted h
  | assign => exact ⟨h.1, hlisted h.2⟩
  | recover | finalizeRead | finalizeWrite | reaping | finalizing => exact h
  | _ => trivial

theorem Tracked.report (h : Tracked s) (resultJson : List Char) (stop : Bool) :
    Tracked (s.report threadId itemId resultJson stop) := by
  cases haccepted : (s.db.reportAgentJobItemResult itemId threadId resultJson).2 with
  | false => rwa [report_eq_self resultJson stop haccepted]
  | true =>
    obtain ⟨item, hitem, hid, hrunning, hassigned⟩ := exists_of_reported haccepted
    have hreports : (s.report threadId itemId resultJson stop).reports =
        s.reports ++ [⟨threadId, itemId, resultJson⟩] := by
      rw [JobState.report]
      dsimp only
      rw [haccepted, if_pos rfl]
    have hstep : ItemsStep s.db (s.report threadId itemId resultJson stop).db :=
      itemsStep_report threadId resultJson
    refine ⟨hstep.ids ▸ h.ids, h.knows.report hitem hrunning resultJson stop, h.one, h.assigned,
      h.active, fun hnot worker hworker hassigning => ?_, fun worker hworker hlive => ?_⟩
    · exact (h.taken hnot worker hworker hassigning).updateItem
        fun _ => ⟨(fun hstatus => by cases hstatus), rfl⟩
    · rw [Holds, hreports]
      rcases h.holds worker hworker hlive with hhas | ⟨report, hreport, hthread⟩
      · by_cases heq : worker.2 = itemId
        · -- The thread of the item is the one that reports.
          have hown := (eq_of_has h.ids hhas item hitem (hid.trans heq.symm)).2
          exact Or.inr ⟨_, List.mem_append_right _ List.mem_cons_self,
            Option.some.inj (hassigned.symm.trans hown)⟩
        · exact Or.inl (hhas.updateItem_of_ne heq)
      · exact Or.inr ⟨report, List.mem_append_left _ hreport, hthread⟩

end

theorem Tracked.step (h : Tracked s) (hstep : (orderly maxConcurrency).step s a t) :
    Tracked t := by
  obtain ⟨horderly, hstep⟩ := hstep
  cases hstep with
  | runner hrunner => exact h.runner hrunner
  | finalWrite hwrite => exact h.finalWrite hwrite
  | report threadId itemId resultJson stop => exact h.report resultJson stop
  | stop hstops => exact h.stop hstops
  | finish hlive => exact h.finish _
  | restart => exact horderly.elim

theorem Tracked.of_reach (h : (orderly maxConcurrency).Reach s) : Tracked s := by
  refine h.invariant ?_ fun _ _ _ h hstep => h.step hstep
  rintro _ ⟨itemIds, hnodup, rfl⟩
  have hids : (itemIds.map AgentJobItem.create).map (·.itemId) = itemIds := by
    rw [List.map_map]
    exact List.map_id _
  refine ⟨hids.symm ▸ hnodup, ⟨rfl, rfl, fun item hitem => ?_⟩,
    fun _ hworker => absurd hworker List.not_mem_nil, List.nil_subset _, List.nil_subset _,
    fun _ _ hworker => absurd hworker List.not_mem_nil,
    fun _ hworker => absurd hworker List.not_mem_nil⟩
  obtain ⟨itemId, -, rfl⟩ := List.mem_map.1 hitem
  rfl

/-! ## Cancelled jobs -/

/-- In orderly runs, no step takes a job out of cancellation. -/
theorem cancelled_step (h : Tracked s) (hstep : (orderly maxConcurrency).step s a t)
    (hcancelled : s.db.job.status = .cancelled) : t.db.job.status = .cancelled := by
  obtain ⟨horderly, hstep⟩ := hstep
  cases hstep with
  | runner hrunner =>
    cases hrunner with
    | markRunning hpc =>
      have hknows := h.knows
      rw [hpc] at hknows
      exact absurd (hknows.1.symm.trans hcancelled) (fun heq => by cases heq)
    | finalizeWrite hpc =>
      rw [resume_db, JobState.finalize]
      split
      · split <;> exact hcancelled
      · exact hcancelled
    | _ => exact hcancelled
  | finalWrite => exact absurd hcancelled horderly
  | stop =>
    rw [AgentJobDb.markAgentJobCancelled]
    split
    · rfl
    · exact hcancelled
  | report | finish | restart => exact hcancelled

theorem cancelled_run (h : Tracked s) (hcancelled : s.db.job.status = .cancelled)
    (hrun : (orderly maxConcurrency).Run s u) : u.db.job.status = .cancelled := by
  have hkept : Tracked u ∧ u.db.job.status = .cancelled :=
    hrun.invariant (I := fun s => Tracked s ∧ s.db.job.status = .cancelled) ⟨h, hcancelled⟩
      fun _ _ _ hkept hstep => ⟨hkept.1.step hstep, cancelled_step hkept.1 hstep hkept.2⟩
  exact hkept.2

/-- **A worker's word.** In orderly runs, the report of a worker that runs its turn is accepted and
is stored in every later state, and a cancelled job stays cancelled. -/
theorem reports_kept (h : (orderly maxConcurrency).Reach s) :
    (∀ threadId itemId resultJson stop t,
      (orderly maxConcurrency).step s (.report threadId itemId resultJson stop) t →
      (threadId, itemId) ∈ s.spawned → threadId ∈ s.live →
      t.reports = s.reports ++ [⟨threadId, itemId, resultJson⟩] ∧
      ∀ u, (agentJob maxConcurrency).Run t u → Stores u.db ⟨threadId, itemId, resultJson⟩) ∧
    (s.db.job.status = .cancelled →
      ∀ u, (orderly maxConcurrency).Run s u → u.db.job.status = .cancelled) := by
  have htracked := Tracked.of_reach h
  refine ⟨?_, fun hcancelled u hrun => cancelled_run htracked hcancelled hrun⟩
  rintro threadId itemId resultJson stop t ⟨horderly, hstep⟩ hspawned hlive
  obtain ⟨hassigned, hfirst⟩ := horderly hspawned hlive
  have haccepted : (s.db.reportAgentJobItemResult itemId threadId resultJson).2 = true := by
    rcases htracked.holds _ hassigned hlive with hhas | ⟨report, hreport, hthread⟩
    · obtain ⟨item, hitem, hid, hrunning, hown⟩ := hhas
      refine List.any_eq_true.2 ⟨item, hitem, ?_⟩
      simp [hid, hrunning, hown]
    · exact absurd hthread (hfirst report hreport)
  cases hstep
  refine ⟨?_, fun u hrun => Stores.run (s := s.report threadId itemId resultJson stop)
    (stores_of_reported haccepted) hrun⟩
  rw [JobState.report]
  dsimp only
  rw [haccepted, if_pos rfl]

end

theorem reports_kept_row : (rowAssigned.report 1 row.itemId "done".toList false).reports =
    [⟨1, row.itemId, "done".toList⟩] := by
  have h : (orderly 1).Reach (.create [row.itemId]) := .init ⟨_, List.nodup_singleton _, rfl⟩
  have h := h.step_restrict (.runner (.markRunning rfl)) trivial
  have h := h.step_restrict (.runner (.listRunning rfl)) trivial
  have h := h.step_restrict (.runner (.recovered rfl)) trivial
  have h := h.step_restrict (.runner (.readCancelled rfl)) trivial
  have h := h.step_restrict (.runner (.loopHead rfl)) trivial
  have h := h.step_restrict (.runner (.listPending rfl rfl Nat.one_pos)) trivial
  have h : (orderly 1).Reach rowSpawned := h.step_restrict (.runner (.spawned rfl
    (fun _ hworker => absurd hworker List.not_mem_nil) List.not_mem_nil)) trivial
  have h := h.step_restrict (.runner (.assigned rfl rfl)) trivial
  exact ((reports_kept (s := rowAssigned) h).1 1 row.itemId "done".toList false _
    ⟨fun _ _ => ⟨List.mem_cons_self, fun _ hreport => absurd hreport List.not_mem_nil⟩,
      .report 1 row.itemId "done".toList false⟩ List.mem_cons_self List.mem_cons_self).1

/-! ## Runs that are not orderly -/

/-- The job's only row is reported, with a request to stop that is to come, and the runner found
all items final. -/
def rowReported : JobState where
  db := ⟨⟨.running, none⟩, [⟨row.itemId, .completed, none, some "done".toList, none⟩]⟩
  pc := .completing
  activeItems := []
  cancelRequested := false
  live := []
  spawned := [(1, row.itemId)]
  assigned := [(1, row.itemId)]
  stops := 1
  reports := [⟨1, row.itemId, "done".toList⟩]

theorem reach_rowReported : (agentJob 1).Reach rowReported := by
  have h := reach_rowAssigned.step (.report 1 row.itemId "done".toList true)
  have h := h.step (.finish (List.mem_cons_self : 1 ∈ [1]))
  have h := h.step (.runner (.spawnedAll rfl))
  have h := h.step (.runner (.reap rfl (List.nil_sublist _)))
  have h := h.step (.runner (.reaped rfl))
  have h := h.step (.runner (.findFinished rfl (List.Sublist.refl _)
    (by decide : ∀ worker ∈ [(1, row.itemId)], worker.1 ∉ [])))
  have h := h.step (.runner (.nextFinished rfl))
  have h := h.step (.runner (.finalizeRead rfl rfl))
  have h := h.step (.runner (.finalizeWrite rfl))
  have h := h.step (.runner (.finalizedAll rfl))
  have h := h.step (.runner (.loopHead rfl))
  have h := h.step (.runner (.listPending rfl rfl Nat.one_pos))
  have h := h.step (.runner (.spawnedAll rfl))
  have h := h.step (.runner (.reap rfl (List.nil_sublist _)))
  have h := h.step (.runner (.reaped rfl))
  have h := h.step (.runner (.findFinished rfl (List.nil_sublist _)
    (fun _ hworker => absurd hworker List.not_mem_nil)))
  have h := h.step (.runner (.readProgress rfl))
  have h := h.step (.runner (.exported rfl))
  exact h.step (.runner (.readFinalCancelled rfl))

/-- The worker reports before its item is assigned to its thread, and its report is not accepted;
the request to stop comes between the last look at the job's status and the last write of it. -/
theorem report_lost :
    (∃ s, (agentJob 1).Reach s ∧ (1, row.itemId) ∈ s.spawned ∧ 1 ∈ s.live ∧
      s.db.job.status = .running ∧ ∀ resultJson stop,
      (s.report 1 row.itemId resultJson stop).reports = [] ∧
      ¬ Stores (s.report 1 row.itemId resultJson stop).db ⟨1, row.itemId, resultJson⟩) ∧
    ∃ s u, (agentJob 1).Reach s ∧ s.db.job.status = .cancelled ∧ (agentJob 1).Run s u ∧
      u.db.job.status = .completed := by
  refine ⟨⟨rowSpawned, reach_rowSpawned, List.mem_cons_self, List.mem_cons_self, rfl,
    fun resultJson stop => ?_⟩, _, _, reach_rowReported.step (.stop rfl), rfl,
    .step .refl (.finalWrite (.completed rfl)), rfl⟩
  rw [report_eq_self resultJson stop rfl]
  refine ⟨rfl, ?_⟩
  rintro ⟨item, hitem, -, hstatus, -⟩
  rw [List.mem_singleton.1 hitem] at hstatus
  cases hstatus

end Mcodex.AgentJobs
