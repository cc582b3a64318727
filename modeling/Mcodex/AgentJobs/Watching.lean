import Mcodex.AgentJobs.Reports

/-!
# What the loop watches

In every run, whatever threads report and however often the runner was restarted before, the loop of
a job watches a worker for each running item that its recovery reached, and the items that it spawns
workers for are pending (`Watched`).
-/

namespace Mcodex.AgentJobs

open Transition Table

/-! ## Items that end -/

/-- An item stays as it is, or ends. -/
inductive ItemEnds (item item' : AgentJobItem) : Prop
  | stay (h : item' = item)
  | ends (hrunning : item.status = .running) (hfinal : item'.isFinal)
    (hid : item'.itemId = item.itemId) (hassigned : item'.assignedThreadId = none)

def ItemsEnd (db db' : AgentJobDb) : Prop :=
  ∃ f, db'.items = db.items.map f ∧ ∀ item ∈ db.items, ItemEnds item (f item)

/-- No item of this id is running. -/
def NotRunning (db : AgentJobDb) (itemId : ItemId) : Prop :=
  ∀ item ∈ db.items, item.itemId = itemId → item.status ≠ .running

section
variable {db db' : AgentJobDb} {item item' : AgentJobItem} {itemId : ItemId}
  {guard : AgentJobItem → Bool} {set : AgentJobItem → AgentJobItem}

theorem ItemEnds.itemId_eq (h : ItemEnds item item') : item'.itemId = item.itemId := by
  cases h with
  | stay h => rw [h]
  | ends _ _ hid _ => exact hid

theorem itemsEnd_of_items_eq (h : db'.items = db.items) : ItemsEnd db db' :=
  ⟨id, h.trans (List.map_id _).symm, fun _ _ => .stay rfl⟩

/-- A statement that ends the running items it selects. -/
theorem itemsEnd_updateItem
    (h : ∀ item, guard item → item.status = .running ∧ (set item).isFinal ∧
      (set item).itemId = item.itemId ∧ (set item).assignedThreadId = none) :
    ItemsEnd db (db.updateItem itemId guard set).1 := by
  refine ⟨_, rfl, fun item _ => ?_⟩
  split
  · rename_i hselected
    obtain ⟨hrunning, hfinal, hid, hassigned⟩ := h item (Bool.and_eq_true_iff.1 hselected).2
    exact .ends hrunning hfinal hid hassigned
  · exact .stay rfl

theorem itemsEnd_fail (errorMessage : List Char) :
    ItemsEnd db (db.markAgentJobItemFailed itemId errorMessage).1 :=
  itemsEnd_updateItem fun _ h => ⟨of_decide_eq_true h, rfl, rfl, rfl⟩

theorem itemsEnd_report (threadId : ThreadId) (resultJson : List Char) :
    ItemsEnd db (db.reportAgentJobItemResult itemId threadId resultJson).1 :=
  itemsEnd_updateItem fun _ h => ⟨of_decide_eq_true (Bool.and_eq_true_iff.1 h).1, rfl, rfl, rfl⟩

theorem itemsEnd_complete : ItemsEnd db (db.markAgentJobItemCompleted itemId).1 :=
  itemsEnd_updateItem fun _ h => ⟨of_decide_eq_true (Bool.and_eq_true_iff.1 h).1, rfl, rfl, rfl⟩

theorem itemsEnd_finalize (s : JobState) (item : AgentJobItem) (worker : Worker) :
    ItemsEnd s.db (s.finalize item worker).db := by
  rw [JobState.finalize]
  split
  · split
    · exact itemsEnd_complete
    · exact itemsEnd_fail _
  · exact itemsEnd_of_items_eq rfl

theorem notRunning_fail (errorMessage : List Char) :
    NotRunning (db.markAgentJobItemFailed itemId errorMessage).1 itemId := by
  intro item hitem hid hrunning
  obtain ⟨item, -, rfl⟩ := mem_updateWhere.1 hitem
  split at hrunning
  · cases hrunning
  · rename_i hselected
    rw [if_neg hselected] at hid
    simp [hid, hrunning] at hselected

namespace ItemsEnd

theorem ids (h : ItemsEnd db db') : db'.items.map (·.itemId) = db.items.map (·.itemId) := by
  obtain ⟨f, hitems, hends⟩ := h
  rw [hitems, List.map_map]
  exact List.map_congr_left fun item hitem => (hends item hitem).itemId_eq

theorem exists_of_mem (h : ItemsEnd db db') (hitem : item' ∈ db'.items) :
    ∃ item ∈ db.items, ItemEnds item item' := by
  obtain ⟨f, hitems, hends⟩ := h
  rw [hitems] at hitem
  obtain ⟨item, hmem, rfl⟩ := List.mem_map.1 hitem
  exact ⟨item, hmem, hends item hmem⟩

/-- An item that is not final was there before. -/
theorem mem_of_not_final (h : ItemsEnd db db') (hitem : item ∈ db'.items)
    (hfinal : item.isFinal = false) : item ∈ db.items := by
  obtain ⟨item₀, hitem₀, hends⟩ := h.exists_of_mem hitem
  cases hends with
  | stay heq => rwa [heq]
  | ends _ hends _ _ => rw [hfinal] at hends; cases hends

theorem mem_of_not_running (h : ItemsEnd db db') (hitem : item ∈ db.items)
    (hrunning : item.status ≠ .running) : item ∈ db'.items := by
  obtain ⟨f, hitems, hends⟩ := h
  have hmem : f item ∈ db'.items := hitems ▸ List.mem_map_of_mem hitem
  cases hends item hitem with
  | stay heq => rwa [heq] at hmem
  | ends hstatus _ _ _ => exact absurd hstatus hrunning

theorem notRunning (h : ItemsEnd db db') (hnot : NotRunning db itemId) : NotRunning db' itemId := by
  intro item hitem hid hrunning
  have hfinal : item.isFinal = false := by simp [AgentJobItem.isFinal, hrunning]
  exact hnot item (h.mem_of_not_final hitem hfinal) hid hrunning

end ItemsEnd

end

/-! ## The invariant of all runs -/

/-- The items that the recovery has listed, and not reached or finalized. -/
def Pc.unread : Pc → List ItemId
  | .recover rest => rest.map (·.itemId)
  | .finalizeRead worker (.recover rest) | .finalizeWrite _ worker (.recover rest) =>
    worker.2 :: rest.map (·.itemId)
  | _ => []

/-- The statements of the loop, and of the recovery once it listed the running items. -/
def Pc.watching : Pc → Bool
  | .created | .listRunning | .exporting | .exportFailed | .readFinalCancelled | .completing
  | .completed | .failing | .done => false
  | _ => true

/-- The items are assigned to workers that were spawned for them. -/
def Expects (s : JobState) (items : List AgentJobItem) : Prop :=
  ∀ item ∈ items, ∀ threadId, item.assignedThreadId = some threadId →
    (threadId, item.itemId) ∈ s.spawned

def After.Sees (s : JobState) : After → Prop
  | .recover rest => Expects s rest
  | .finished rest => rest ⊆ s.spawned

/-- What the runner knows at a statement. -/
def Sees (s : JobState) : Pc → Prop
  | .recover rest => Expects s rest
  | .finalizeRead worker after => worker ∈ s.spawned ∧ after.Sees s
  | .finalizeWrite item worker after => worker ∈ s.spawned ∧ after.Sees s ∧
    (item.status = .running → item.resultJson = none) ∧
    (item.status ≠ .running → NotRunning s.db worker.2)
  | .spawn rest => Listed s rest
  | .assign item threadId rest => (threadId, item.itemId) ∈ s.spawned ∧ Listed s (item :: rest)
  | .reaping stale => stale ⊆ s.spawned
  | .finalizing finished => finished ⊆ s.spawned
  | _ => True

/-- The item has a worker that is watched, or the recovery is to reach it. -/
def JobState.Watches (s : JobState) (itemId : ItemId) : Prop :=
  (∃ worker ∈ s.activeItems, worker.2 = itemId) ∨ itemId ∈ s.pc.unread

structure Watched (s : JobState) : Prop where
  ids : (s.db.items.map (·.itemId)).Nodup
  results : ∀ item ∈ s.db.items, item.isFinal = false → item.resultJson = none
  threads : (s.spawned.map Prod.fst).Nodup
  expects : Expects s s.db.items
  active : s.activeItems ⊆ s.spawned
  running : s.pc.watching → ∀ item ∈ s.db.items, item.status = .running → s.Watches item.itemId
  sees : Sees s s.pc

section
variable {maxConcurrency : Nat} {s t : JobState} {a : Action} {pc : Pc}

theorem Listed.of_itemsEnd {items : List AgentJobItem} (h : Listed s items)
    (hitems : ItemsEnd s.db t.db) : Listed t items := by
  refine ⟨h.1, fun item hitem => ?_⟩
  obtain ⟨item', hitem', hid, hpending⟩ := h.2 item hitem
  refine ⟨item', hitems.mem_of_not_running hitem' ?_, hid, hpending⟩
  rw [hpending]
  exact fun hstatus => by cases hstatus

theorem After.Sees.of_spawned {after : After} (h : after.Sees s) (hspawned : t.spawned = s.spawned) :
    after.Sees t := by
  cases after with
  | recover rest =>
    exact fun item hitem threadId hassigned => hspawned ▸ h item hitem threadId hassigned
  | finished rest => exact fun worker hworker => hspawned ▸ h hworker

theorem Sees.of_itemsEnd (h : Sees s pc) (hitems : ItemsEnd s.db t.db)
    (hspawned : t.spawned = s.spawned) : Sees t pc := by
  cases pc with
  | recover rest =>
    have hafter : (After.recover rest).Sees s := h
    exact hafter.of_spawned hspawned
  | finalizeRead worker after => exact ⟨hspawned ▸ h.1, h.2.of_spawned hspawned⟩
  | finalizeWrite item worker after =>
    obtain ⟨hworker, hafter, hresult, hnot⟩ := h
    exact ⟨hspawned ▸ hworker, hafter.of_spawned hspawned, hresult,
      fun hstatus => hitems.notRunning (hnot hstatus)⟩
  | spawn rest => exact h.of_itemsEnd hitems
  | assign item threadId rest => exact ⟨hspawned ▸ h.1, h.2.of_itemsEnd hitems⟩
  | reaping stale => exact fun worker hworker => hspawned ▸ h hworker
  | finalizing finished => exact fun worker hworker => hspawned ▸ h hworker
  | _ => trivial

namespace Watched

/-- Workers of one thread are the same. -/
theorem eq_of_thread (h : Watched s) {worker worker' : Worker} (hworker : worker ∈ s.spawned)
    (hworker' : worker' ∈ s.spawned) (heq : worker.1 = worker'.1) : worker = worker' :=
  List.inj_on_of_nodup_map h.threads hworker hworker' heq

/-- Statements that end items at most. -/
theorem of_itemsEnd (h : Watched s) (hitems : ItemsEnd s.db t.db)
    (hspawned : t.spawned = s.spawned) (hactive : t.activeItems ⊆ s.spawned)
    (hrunning : t.pc.watching → ∀ item ∈ s.db.items, item.status = .running →
      t.Watches item.itemId ∨ NotRunning t.db item.itemId)
    (hsees : Sees t t.pc) : Watched t where
  ids := hitems.ids ▸ h.ids
  results item hitem hfinal := h.results item (hitems.mem_of_not_final hitem hfinal) hfinal
  threads := hspawned ▸ h.threads
  expects item hitem threadId hassigned := by
    obtain ⟨item₀, hitem₀, hends⟩ := hitems.exists_of_mem hitem
    cases hends with
    | stay heq =>
      subst heq
      exact hspawned ▸ h.expects item hitem₀ threadId hassigned
    | ends _ _ _ hnone =>
      rw [hnone] at hassigned
      cases hassigned
  active := hspawned ▸ hactive
  running hwatching item hitem hstatus := by
    have hfinal : item.isFinal = false := by simp [AgentJobItem.isFinal, hstatus]
    rcases hrunning hwatching item (hitems.mem_of_not_final hitem hfinal) hstatus with hwatched | hnot
    · exact hwatched
    · exact absurd hstatus (hnot item hitem rfl)
  sees := hsees

/-- Statements that only go on. -/
theorem goto (h : Watched s) (hwatching : pc.watching → s.pc.watching)
    (hunread : s.pc.unread ⊆ pc.unread) (hsees : Sees (s.goto pc) pc) : Watched (s.goto pc) :=
  h.of_itemsEnd (itemsEnd_of_items_eq rfl) rfl h.active
    (fun hpc item hitem hstatus => Or.inl ((h.running (hwatching hpc) item hitem hstatus).imp id
      fun hmem => hunread hmem)) hsees

/-- Outside of the loop nothing is watched. -/
theorem unwatched (h : Watched s) (hitems : t.db.items = s.db.items)
    (hspawned : t.spawned = s.spawned) (hactive : t.activeItems ⊆ s.spawned)
    (hwatching : t.pc.watching = false) (hsees : Sees t t.pc) : Watched t :=
  h.of_itemsEnd (itemsEnd_of_items_eq hitems) hspawned hactive
    (fun hpc => by rw [hwatching] at hpc; cases hpc) hsees

/-- The item of a worker has ended, and the worker is watched no more. -/
theorem drop (h : Watched s) {worker : Worker} {db : AgentJobDb} (hworker : worker ∈ s.spawned)
    (hitems : ItemsEnd s.db db) (hnot : NotRunning db worker.2) (hpc : s.pc.watching)
    (hunread : ∀ itemId ∈ s.pc.unread, itemId = worker.2 ∨ itemId ∈ pc.unread)
    (hsees : Sees ((({ s with db } : JobState).drop worker).goto pc) pc) :
    Watched ((({ s with db } : JobState).drop worker).goto pc) := by
  refine h.of_itemsEnd hitems rfl (fun _ hmem => h.active (List.mem_of_mem_filter hmem)) ?_ hsees
  intro _ item hitem hstatus
  rcases h.running hpc item hitem hstatus with ⟨worker', hworker', hid⟩ | hmem
  · by_cases hthread : worker'.1 = worker.1
    · have heq := h.eq_of_thread (h.active hworker') hworker hthread
      rw [← hid, heq]
      exact Or.inr hnot
    · exact Or.inl (Or.inl ⟨worker', List.mem_filter.2 ⟨hworker', decide_eq_true hthread⟩, hid⟩)
  · rcases hunread _ hmem with heq | hmem
    · rw [heq]
      exact Or.inr hnot
    · exact Or.inl (Or.inr hmem)

/-- An item that the recovery reached has ended, and its worker was not watched. -/
theorem recover (h : Watched s) {db : AgentJobDb} {itemId : ItemId} {live : List ThreadId}
    {rest : List AgentJobItem} (hitems : ItemsEnd s.db db) (hnot : NotRunning db itemId)
    (hpc : s.pc.watching) (hunread : s.pc.unread = itemId :: rest.map (·.itemId))
    (hsees : Expects s rest) :
    Watched (({ s with db, live } : JobState).goto (.recover rest)) := by
  refine h.of_itemsEnd hitems rfl h.active (fun _ item hitem hstatus => ?_) hsees
  rcases h.running hpc item hitem hstatus with hactive | hmem
  · exact Or.inl (Or.inl hactive)
  · rw [hunread] at hmem
    rcases List.mem_cons.1 hmem with heq | hmem
    · rw [heq]
      exact Or.inr hnot
    · exact Or.inl (Or.inr hmem)

theorem recoverActive (h : Watched s) {item : AgentJobItem} {rest : List AgentJobItem}
    {threadId : ThreadId} (hpc : s.pc = .recover (item :: rest))
    (hassigned : item.assignedThreadId = some threadId) :
    Watched (({ s with activeItems := s.activeItems.filter (·.1 ≠ threadId) ++
      [(threadId, item.itemId)] } : JobState).goto (.recover rest)) := by
  have hsees : Expects s (item :: rest) := by
    have hsees := h.sees
    rwa [hpc] at hsees
  have hspawned := hsees item List.mem_cons_self threadId hassigned
  refine h.of_itemsEnd (itemsEnd_of_items_eq rfl) rfl ?_ ?_
    fun other hother => hsees other (List.mem_cons_of_mem _ hother)
  · refine List.append_subset.2 ⟨fun worker hworker => h.active (List.mem_of_mem_filter hworker),
      List.cons_subset.2 ⟨hspawned, List.nil_subset _⟩⟩
  · intro _ other hother hstatus
    have hlast : (threadId, item.itemId) ∈ s.activeItems.filter (·.1 ≠ threadId) ++
        [(threadId, item.itemId)] := List.mem_append_right _ List.mem_cons_self
    refine Or.inl ?_
    rcases h.running (by rw [hpc]; rfl) other hother hstatus with ⟨worker, hworker, hid⟩ | hmem
    · by_cases hthread : worker.1 = threadId
      · have heq := h.eq_of_thread (h.active hworker) hspawned hthread
        exact Or.inl ⟨_, hlast, heq ▸ hid⟩
      · exact Or.inl ⟨worker, List.mem_append_left _
          (List.mem_filter.2 ⟨hworker, decide_eq_true hthread⟩), hid⟩
    · rw [hpc] at hmem
      rcases List.mem_cons.1 hmem with heq | hmem
      · exact Or.inl ⟨_, hlast, heq.symm⟩
      · exact Or.inr hmem

theorem spawned (h : Watched s) {item : AgentJobItem} {rest : List AgentJobItem}
    {threadId : ThreadId} (hpc : s.pc = .spawn (item :: rest))
    (hfresh : ∀ worker ∈ s.spawned, worker.1 ≠ threadId) :
    Watched (({ s with
      live := threadId :: s.live
      spawned := s.spawned ++ [(threadId, item.itemId)] } : JobState).goto
        (.assign item threadId rest)) where
  ids := h.ids
  results := h.results
  threads := by
    have hnew : threadId ∉ s.spawned.map Prod.fst := by
      rintro hmem
      obtain ⟨worker, hworker, heq⟩ := List.mem_map.1 hmem
      exact hfresh worker hworker heq
    show ((s.spawned ++ [(threadId, item.itemId)]).map Prod.fst).Nodup
    rw [List.map_append, List.map_singleton, ← List.concat_eq_append]
    exact h.threads.concat hnew
  expects other hother otherId hassigned :=
    List.mem_append_left _ (h.expects other hother otherId hassigned)
  active _ hworker := List.mem_append_left _ (h.active hworker)
  running _ other hother hstatus := by
    have hwatches := h.running (by rw [hpc]; rfl) other hother hstatus
    rw [JobState.Watches, hpc] at hwatches
    exact hwatches
  sees := by
    have hsees := h.sees
    rw [hpc] at hsees
    exact ⟨List.mem_append_right _ List.mem_cons_self, hsees⟩

theorem assigned (h : Watched s) {item : AgentJobItem} {rest : List AgentJobItem}
    {threadId : ThreadId} (hpc : s.pc = .assign item threadId rest) :
    Watched (({ s with
      db := (s.db.markAgentJobItemRunningWithThread item.itemId threadId).1
      assigned := s.assigned ++ [(threadId, item.itemId)]
      activeItems := s.activeItems.filter (·.1 ≠ threadId) ++ [(threadId, item.itemId)] } :
        JobState).goto (.spawn rest)) := by
  have hsees := h.sees
  rw [hpc] at hsees
  obtain ⟨hspawned, hlisted⟩ := hsees
  obtain ⟨hhead, htail⟩ := List.nodup_cons.1 hlisted.1
  have hlast : (threadId, item.itemId) ∈ s.activeItems.filter (·.1 ≠ threadId) ++
      [(threadId, item.itemId)] := List.mem_append_right _ List.mem_cons_self
  have hstep : ItemsStep s.db (s.db.markAgentJobItemRunningWithThread item.itemId threadId).1 :=
    itemsStep_assign threadId
  constructor
  · exact hstep.ids ▸ h.ids
  · intro other hother hfinal
    obtain ⟨item₀, hitem₀, rfl⟩ := mem_updateWhere.1 hother
    split
    · rename_i hselected
      refine h.results item₀ hitem₀ ?_
      simp only [Bool.and_eq_true, decide_eq_true_eq] at hselected
      simp [AgentJobItem.isFinal, hselected.2]
    · rename_i hselected
      rw [if_neg hselected] at hfinal
      exact h.results item₀ hitem₀ hfinal
  · exact h.threads
  · intro other hother otherId hassigned
    obtain ⟨item₀, hitem₀, rfl⟩ := mem_updateWhere.1 hother
    split at hassigned
    · rename_i hselected
      simp only [Bool.and_eq_true, decide_eq_true_eq] at hselected
      rw [if_pos (by simpa using hselected), ← Option.some.inj hassigned]
      exact hselected.1 ▸ hspawned
    · rename_i hselected
      rw [if_neg hselected]
      exact h.expects item₀ hitem₀ otherId hassigned
  · refine List.append_subset.2 ⟨fun worker hworker => h.active (List.mem_of_mem_filter hworker),
      List.cons_subset.2 ⟨hspawned, List.nil_subset _⟩⟩
  · intro _ other hother hstatus
    obtain ⟨item₀, hitem₀, rfl⟩ := mem_updateWhere.1 hother
    split at hstatus
    · rename_i hselected
      simp only [Bool.and_eq_true, decide_eq_true_eq] at hselected
      rw [if_pos (by simpa using hselected)]
      exact Or.inl ⟨_, hlast, hselected.1.symm⟩
    · rename_i hselected
      rw [if_neg hselected]
      rcases h.running (by rw [hpc]; rfl) item₀ hitem₀ hstatus with ⟨worker, hworker, hid⟩ | hmem
      · by_cases hthread : worker.1 = threadId
        · have heq := h.eq_of_thread (h.active hworker) hspawned hthread
          exact Or.inl ⟨_, hlast, heq ▸ hid⟩
        · exact Or.inl ⟨worker, List.mem_append_left _
            (List.mem_filter.2 ⟨hworker, decide_eq_true hthread⟩), hid⟩
      · rw [hpc] at hmem
        cases hmem
  · refine ⟨htail, fun other hother => ?_⟩
    refine (hlisted.2 other (List.mem_cons_of_mem _ hother)).updateItem_of_ne fun heq => ?_
    exact hhead (List.mem_map.2 ⟨other, hother, heq⟩)

/-- The rows that are read for finalizing have no result that was not reported. -/
theorem finalizeRead (h : Watched s) {worker : Worker} {after : After} {item : AgentJobItem}
    (hpc : s.pc = .finalizeRead worker after) (hitem : s.db.getAgentJobItem worker.2 = some item) :
    Watched (s.goto (.finalizeWrite item worker after)) := by
  have hsees := h.sees
  rw [hpc] at hsees
  have hmem : item ∈ s.db.items := List.mem_of_find?_eq_some hitem
  have hid : item.itemId = worker.2 := by simpa using List.find?_some hitem
  refine h.goto (fun _ => by rw [hpc]; rfl) (by rw [hpc]; cases after <;> exact List.Subset.refl _)
    ⟨hsees.1, hsees.2, fun hstatus => ?_, fun hstatus other hother hother' => ?_⟩
  · exact h.results item hmem (by simp [AgentJobItem.isFinal, hstatus])
  · rwa [List.inj_on_of_nodup_map h.ids hother hmem (hother'.trans hid.symm)]

theorem notRunning_finalize {item : AgentJobItem} {worker : Worker}
    (hresult : item.status = .running → item.resultJson = none)
    (hnot : item.status ≠ .running → NotRunning s.db worker.2) :
    NotRunning (s.finalize item worker).db worker.2 := by
  rw [JobState.finalize]
  split
  · rename_i hrunning
    rw [if_neg (by simp [hresult hrunning])]
    exact notRunning_fail _
  · rename_i hrunning
    exact hnot hrunning

theorem finalizeWrite (h : Watched s) {item : AgentJobItem} {worker : Worker} {after : After}
    (hpc : s.pc = .finalizeWrite item worker after) :
    Watched ((s.finalize item worker).resume worker after) := by
  have hsees := h.sees
  rw [hpc] at hsees
  obtain ⟨hworker, hafter, hresult, hnot⟩ := hsees
  have hended := notRunning_finalize (s := s) hresult hnot
  cases after with
  | recover rest =>
    exact h.recover (itemsEnd_finalize s item worker) hended (by rw [hpc]; rfl) (by rw [hpc]; rfl)
      hafter
  | finished rest =>
    refine h.drop hworker (itemsEnd_finalize s item worker) hended (by rw [hpc]; rfl) ?_ hafter
    rw [hpc]
    exact fun _ hmem => absurd hmem List.not_mem_nil

theorem runner (h : Watched s) (hstep : RunnerStep maxConcurrency s t) : Watched t := by
  have hsees := h.sees
  cases hstep with
  | optionsFailed hpc | notRunning hpc | error hpc hdone | notFailed hpc | finished hpc
  | exported hpc | notExported hpc =>
    exact h.unwatched rfl rfl h.active rfl trivial
  | readFinalCancelled hpc =>
    split <;> exact h.unwatched rfl rfl h.active rfl trivial
  | markRunning hpc => exact h.unwatched rfl rfl h.active rfl trivial
  | listRunning hpc =>
    refine ⟨h.ids, h.results, h.threads, h.expects, h.active, fun _ item hitem hstatus => ?_,
      fun item hitem => h.expects item (List.mem_of_mem_filter hitem)⟩
    refine Or.inr (List.mem_map_of_mem (List.mem_filter.2 ⟨hitem, ?_⟩))
    simp [hstatus]
  | recoverStale errorMessage hpc =>
    rw [hpc] at hsees
    exact h.recover (itemsEnd_fail _) (notRunning_fail _) (by rw [hpc]; rfl) (by rw [hpc]; rfl)
      fun item hitem => hsees item (List.mem_cons_of_mem _ hitem)
  | recoverUnassigned hpc hassigned =>
    rw [hpc] at hsees
    exact h.recover (itemsEnd_fail _) (notRunning_fail _) (by rw [hpc]; rfl) (by rw [hpc]; rfl)
      fun item hitem => hsees item (List.mem_cons_of_mem _ hitem)
  | recoverFinal hpc hassigned hfinal =>
    rw [hpc] at hsees
    exact h.goto (fun _ => by rw [hpc]; rfl) (by rw [hpc]; exact List.Subset.refl _)
      ⟨hsees _ List.mem_cons_self _ hassigned,
        fun item hitem => hsees item (List.mem_cons_of_mem _ hitem)⟩
  | recoverActive hpc hassigned hlive => exact h.recoverActive hpc hassigned
  | finalizeRead hpc hitem => exact h.finalizeRead hpc hitem
  | finalizeWrite hpc => exact h.finalizeWrite hpc
  | readCancelled hpc | loopHead hpc =>
    refine h.of_itemsEnd (itemsEnd_of_items_eq rfl) rfl h.active
      (fun _ item hitem hstatus => Or.inl ?_) trivial
    have hwatches := h.running (by rw [hpc]; rfl) item hitem hstatus
    rw [JobState.Watches, hpc] at hwatches
    exact hwatches
  | listPending hpc _ _ =>
    exact h.goto (fun _ => by rw [hpc]; rfl) (by rw [hpc]; exact List.Subset.refl _)
      (listed_listAgentJobItems h.ids _)
  | spawned hpc hfresh hlive => exact h.spawned hpc hfresh
  | agentLimitReached hpc =>
    rw [hpc] at hsees
    rw [AgentJobDb.markAgentJobItemPending, updateItem_of_pending h.ids
      (hsees.2 _ List.mem_cons_self) fun _ hguard => of_decide_eq_true hguard]
    exact h.goto (fun _ => by rw [hpc]; rfl) (by rw [hpc]; exact List.Subset.refl _) trivial
  | spawnFailed _ hpc =>
    rw [hpc] at hsees
    rw [AgentJobDb.markAgentJobItemFailed, updateItem_of_pending h.ids
      (hsees.2 _ List.mem_cons_self) fun _ hguard => of_decide_eq_true hguard]
    exact h.goto (fun _ => by rw [hpc]; rfl) (by rw [hpc]; exact List.Subset.refl _) hsees.tail
  | assigned hpc hassigned => exact h.assigned hpc
  | notAssigned hpc hassigned =>
    rw [hpc] at hsees
    obtain ⟨item', hitem', hid, hpending⟩ := hsees.2.2 _ List.mem_cons_self
    refine absurd (List.any_eq_true.2 ⟨item', hitem', ?_⟩) (Bool.eq_false_iff.1 hassigned)
    simp [hid, hpending]
  | reap hpc hstale =>
    exact h.goto (fun _ => by rw [hpc]; rfl) (by rw [hpc]; exact List.Subset.refl _)
      fun _ hworker => h.active (hstale.subset hworker)
  | reapItem errorMessage hpc =>
    rw [hpc] at hsees
    obtain ⟨hworker, hstale⟩ := List.cons_subset.1 hsees
    refine h.drop hworker (itemsEnd_fail _) (notRunning_fail _) (by rw [hpc]; rfl) ?_ hstale
    rw [hpc]
    exact fun _ hmem => absurd hmem List.not_mem_nil
  | findFinished hpc hactive hfinal =>
    refine h.goto (fun _ => by rw [hpc]; rfl) (by rw [hpc]; exact List.nil_subset _) ?_
    split
    · trivial
    · exact fun worker hworker => h.active (hactive.subset hworker)
  | nextFinished hpc =>
    rw [hpc] at hsees
    exact h.goto (fun _ => by rw [hpc]; rfl) (by rw [hpc]; exact List.nil_subset _)
      (List.cons_subset.1 hsees)
  | readProgress hpc =>
    refine h.goto (fun _ => by rw [hpc]; rfl) (by rw [hpc]; exact List.nil_subset _) ?_
    split <;> trivial
  | recovered hpc | skipPending hpc _ | spawnedAll hpc | reaped hpc | finalizedAll hpc =>
    exact h.goto (fun _ => by rw [hpc]; rfl) (by rw [hpc]; exact List.nil_subset _) trivial

/-- What comes from outside of the runner leaves it at its statement. -/
theorem outside (h : Watched s) (hitems : ItemsEnd s.db t.db) (hspawned : t.spawned = s.spawned)
    (hactive : t.activeItems = s.activeItems) (hpc : t.pc = s.pc) : Watched t := by
  refine h.of_itemsEnd hitems hspawned (hactive ▸ h.active) ?_
    (hpc ▸ h.sees.of_itemsEnd hitems hspawned)
  intro hwatching item hitem hstatus
  rw [JobState.Watches, hactive, hpc]
  exact Or.inl (h.running (hpc ▸ hwatching) item hitem hstatus)

theorem step (h : Watched s) (hstep : (agentJob maxConcurrency).step s a t) : Watched t := by
  cases hstep with
  | runner hrunner => exact h.runner hrunner
  | finalWrite hwrite =>
    cases hwrite <;> exact h.unwatched rfl rfl h.active rfl trivial
  | report threadId itemId resultJson stop =>
    exact h.outside (itemsEnd_report threadId resultJson) rfl rfl rfl
  | stop hstops =>
    exact h.outside (itemsEnd_of_items_eq (markAgentJobCancelled_items _ _)) rfl rfl rfl
  | finish hlive => exact h.outside (itemsEnd_of_items_eq rfl) rfl rfl rfl
  | restart hlive hstops =>
    exact h.unwatched rfl rfl (List.nil_subset _) rfl trivial

theorem of_reach (h : (agentJob maxConcurrency).Reach s) : Watched s := by
  refine h.invariant ?_ fun _ _ _ h hstep => h.step hstep
  rintro _ ⟨itemIds, hnodup, rfl⟩
  have hids : (itemIds.map AgentJobItem.create).map (·.itemId) = itemIds := by
    rw [List.map_map]
    exact List.map_id _
  refine ⟨hids.symm ▸ hnodup, fun item hitem _ => ?_, List.nodup_nil, fun item hitem => ?_,
    List.nil_subset _, fun hwatching => absurd hwatching Bool.false_ne_true, trivial⟩
  · obtain ⟨itemId, -, rfl⟩ := List.mem_map.1 hitem
    rfl
  · obtain ⟨itemId, -, rfl⟩ := List.mem_map.1 hitem
    rintro threadId hnone
    cases hnone

end Watched

end

end Mcodex.AgentJobs
