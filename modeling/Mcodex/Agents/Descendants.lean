import Mcodex.Agents.Registry
import Mcodex.Lib.Traversal

/-!
# The threads that are shut down with a tree

The descendants of some roots are found in two ways: by the parents that live threads name, and by
the root thread in the metadata of a thread, for threads whose chain of parents is broken. The two
searches share the threads that were seen and a table of children from which each thread takes its
own. Parents are arbitrary: chains may be cyclic, and a parent need not be alive.
-/

namespace Mcodex.Agents

open Table Traversal

inductive SubAgentSource
  | review
  | compact
  | threadSpawn (parentThreadId : ThreadId)
  | memoryConsolidation
  | other (label : String)

inductive SessionSource
  | cli
  | vsCode
  | exec
  | mcp
  | custom (label : String)
  | subAgent (source : SubAgentSource)
  | unknown

def threadSpawnParentThreadId : SessionSource → Option ThreadId
  | .subAgent (.threadSpawn parentThreadId) => some parentThreadId
  | _ => none

/-- A live thread, with the session source of its snapshot. -/
structure CodexThread where
  sessionSource : SessionSource

/-- `ThreadManagerState::threads`, in the order of its iteration. -/
abbrev Threads := Keyed ThreadId CodexThread

namespace AgentRegistry

variable (registry : AgentRegistry) (threadId : ThreadId)

/-- The loop of `preferred_agent_key_for_thread`: the key of the root is kept for the end. -/
def preferredAgentKeyFrom :
    Option String → List (Sigma fun _ : String => AgentMetadata) → Option String
  | rootKey, [] => rootKey
  | rootKey, ⟨key, metadata⟩ :: entries =>
    if metadata.agentId ≠ some threadId then preferredAgentKeyFrom rootKey entries
    else if metadata.isRoot then preferredAgentKeyFrom (rootKey.or (some key)) entries
    else some key

def preferredAgentKeyForThread : Option String :=
  preferredAgentKeyFrom threadId none registry.agentTree.entries

def agentMetadataForThread : Option AgentMetadata := do
  let key ← registry.preferredAgentKeyForThread threadId
  registry.agentTree.lookup key

end AgentRegistry

/-- The order of `sort_by`: by the path of the agent, then by the id. -/
def compareByPath (left right : ThreadId × AgentMetadata) : Ordering :=
  (compare (left.2.agentPath.getD "") (right.2.agentPath.getD "")).then (compare left.1 right.1)

def sortByPath (threads : List (ThreadId × AgentMetadata)) : List (ThreadId × AgentMetadata) :=
  threads.mergeSort fun left right => (compareByPath left right).isLE

section
variable (threads : Threads) (registry : AgentRegistry)

/-- A live thread is pushed to the children of its parent. -/
def pushChild (childrenByParent : Keyed ThreadId (List (ThreadId × AgentMetadata)))
    (threadId : ThreadId) : Keyed ThreadId (List (ThreadId × AgentMetadata)) :=
  match threads.lookup threadId with
  | none => childrenByParent
  | some thread =>
    match threadSpawnParentThreadId thread.sessionSource with
    | none => childrenByParent
    | some parentThreadId =>
      childrenByParent.insert parentThreadId
        ((childrenByParent.lookup parentThreadId).getD [] ++
          [(threadId, (registry.agentMetadataForThread threadId).getD
            { agentId := some threadId })])

def liveThreadSpawnChildren : Keyed ThreadId (List (ThreadId × AgentMetadata)) :=
  mapRows sortByPath (threads.keys.foldl (pushChild threads registry) ∅)

def drainLiveThreadSpawnDescendantsStack :
    Walk ThreadId (ThreadId × AgentMetadata) → Walk ThreadId (ThreadId × AgentMetadata) :=
  Walk.drain Prod.fst

/-- The metadata of the thread, where it names one of the roots as its root thread. -/
def orphanMetadata (rootThreadIds : List ThreadId) (threadId : ThreadId) : Option AgentMetadata :=
  (registry.agentMetadataForThread threadId).filter (·.rootThreadId.any (· ∈ rootThreadIds))

/-- The threads that the search by parents did not see and whose metadata names a root. -/
def orphanDescendants (rootThreadIds : List ThreadId) (seen : Finset ThreadId) :
    List (ThreadId × AgentMetadata) :=
  sortByPath (threads.keys.filterMap fun threadId =>
    if threadId ∈ seen ∨ threadId ∈ rootThreadIds then none
    else (orphanMetadata registry rootThreadIds threadId).map (threadId, ·))

/-- The first loop: the children of the roots are on the stack. -/
def walkRoots (rootThreadIds : List ThreadId) : Walk ThreadId (ThreadId × AgentMetadata) :=
  rootThreadIds.reverse.foldl (fun walk root => walk.take Prod.fst root)
    ⟨[], liveThreadSpawnChildren threads registry, rootThreadIds.toFinset, []⟩

def liveThreadSpawnDescendantsFromRoots (rootThreadIds : List ThreadId) : List ThreadId :=
  let walk := drainLiveThreadSpawnDescendantsStack (walkRoots threads registry rootThreadIds)
  let orphans := orphanDescendants threads registry rootThreadIds walk.seen
  let walk := (orphans.map Prod.fst).foldl (fun walk threadId => walk.enter Prod.fst threadId) walk
  (drainLiveThreadSpawnDescendantsStack walk).visited

end

/-! ## Children -/

/-- A live thread names the parent it was spawned by. -/
def Child (threads : Threads) (parent child : ThreadId) : Prop :=
  ∃ thread, threads.lookup child = some thread ∧
    threadSpawnParentThreadId thread.sessionSource = some parent

/-- A live thread whose metadata names one of the roots as its root thread. -/
def NamesRoot (threads : Threads) (registry : AgentRegistry) (rootThreadIds : List ThreadId)
    (threadId : ThreadId) : Prop :=
  threadId ∈ threads ∧ ∃ metadata, registry.agentMetadataForThread threadId = some metadata ∧
    ∃ root ∈ rootThreadIds, metadata.rootThreadId = some root

section
variable {threads : Threads} {registry : AgentRegistry} {rootThreadIds : List ThreadId}
  {childrenByParent : Keyed ThreadId (List (ThreadId × AgentMetadata))}
  {parent child threadId : ThreadId}

theorem listsChild_pushChild :
    ListsChild Prod.fst (pushChild threads registry childrenByParent threadId) parent child ↔
      ListsChild Prod.fst childrenByParent parent child ∨
        child = threadId ∧ Child threads parent child := by
  rw [pushChild]
  split
  · rename_i hnone
    refine ⟨.inl, fun h => h.elim id ?_⟩
    rintro ⟨rfl, thread, hthread, -⟩
    rw [hnone] at hthread
    cases hthread
  · rename_i thread hthread
    split
    · rename_i hnone
      refine ⟨.inl, fun h => h.elim id ?_⟩
      rintro ⟨rfl, thread', hthread', hparent⟩
      rw [hthread] at hthread'
      cases hthread'
      rw [hnone] at hparent
      cases hparent
    · rename_i parent' hparent'
      have hchild : child = threadId ∧ Child threads parent child ↔
          child = threadId ∧ parent = parent' := by
        refine and_congr_right fun heq => ⟨?_, ?_⟩
        · rintro ⟨thread', hthread', hparent⟩
          rw [heq, hthread] at hthread'
          cases hthread'
          exact Option.some.inj (hparent.symm.trans hparent')
        · rintro rfl
          exact ⟨thread, heq ▸ hthread, hparent'⟩
      rw [hchild, ListsChild, ListsChild, lookup_insert]
      split
      · rename_i heq
        subst heq
        simp only [Option.getD_some, List.mem_append, List.mem_singleton, or_and_right, exists_or,
          exists_eq_left, and_true]
        exact or_congr_right eq_comm
      · rename_i hne
        simp [hne]

theorem listsChild_foldl_pushChild : ∀ (threadIds : List ThreadId)
    (childrenByParent : Keyed ThreadId (List (ThreadId × AgentMetadata))),
    ListsChild Prod.fst (threadIds.foldl (pushChild threads registry) childrenByParent)
        parent child ↔
      ListsChild Prod.fst childrenByParent parent child ∨
        child ∈ threadIds ∧ Child threads parent child
  | [], _ => by simp
  | threadId :: threadIds, childrenByParent => by
    rw [List.foldl_cons, listsChild_foldl_pushChild threadIds, listsChild_pushChild, List.mem_cons,
      or_and_right, or_assoc]

/-- The table lists the children of every parent. -/
theorem listsChild_liveThreadSpawnChildren :
    ListsChild Prod.fst (liveThreadSpawnChildren threads registry) parent child ↔
      Child threads parent child := by
  have hlists : ListsChild Prod.fst (liveThreadSpawnChildren threads registry) parent child ↔
      ListsChild Prod.fst (threads.keys.foldl (pushChild threads registry) ∅) parent child := by
    rw [liveThreadSpawnChildren, ListsChild, ListsChild, lookup_mapRows]
    cases (threads.keys.foldl (pushChild threads registry) ∅).lookup parent with
    | none => rfl
    | some entries => simp only [Option.map_some, Option.getD_some, sortByPath, List.mem_mergeSort]
  rw [hlists, listsChild_foldl_pushChild]
  refine ⟨?_, fun h => .inr ⟨?_, h⟩⟩
  · rintro (⟨entry, hentry, -⟩ | ⟨-, h⟩)
    · cases hentry
    · exact h
  · obtain ⟨thread, hthread, -⟩ := h
    exact AList.mem_keys.1 (AList.lookup_isSome.1 (by rw [hthread]; rfl))

theorem mem_orphanDescendants {seen : Finset ThreadId} :
    threadId ∈ (orphanDescendants threads registry rootThreadIds seen).map Prod.fst ↔
      threadId ∉ seen ∧ threadId ∉ rootThreadIds ∧
        NamesRoot threads registry rootThreadIds threadId := by
  have hnames : threadId ∈ threads ∧ (orphanMetadata registry rootThreadIds threadId).isSome ↔
      NamesRoot threads registry rootThreadIds threadId := by
    refine and_congr_right fun _ => ?_
    simp only [orphanMetadata, Option.isSome_filter, Option.any_eq_true, decide_eq_true_eq]
    refine exists_congr fun metadata => and_congr_right fun _ => ?_
    exact ⟨fun ⟨root, hroot, hmem⟩ => ⟨root, hmem, hroot⟩, fun ⟨root, hmem, hroot⟩ =>
      ⟨root, hroot, hmem⟩⟩
  rw [← hnames, List.mem_map]
  constructor
  · rintro ⟨entry, hentry, rfl⟩
    rw [orphanDescendants, sortByPath, List.mem_mergeSort, List.mem_filterMap] at hentry
    obtain ⟨threadId, hmem, hentry⟩ := hentry
    split at hentry
    · cases hentry
    · rename_i hnew
      obtain ⟨metadata, hmetadata, rfl⟩ := Option.map_eq_some_iff.1 hentry
      rw [not_or] at hnew
      exact ⟨hnew.1, hnew.2, AList.mem_keys.2 hmem, by rw [hmetadata]; rfl⟩
  · rintro ⟨hseen, hroot, hmem, hsome⟩
    obtain ⟨metadata, hmetadata⟩ := Option.isSome_iff_exists.1 hsome
    refine ⟨(threadId, metadata), ?_, rfl⟩
    rw [orphanDescendants, sortByPath, List.mem_mergeSort, List.mem_filterMap]
    refine ⟨threadId, AList.mem_keys.1 hmem, ?_⟩
    rw [if_neg (not_or.2 ⟨hseen, hroot⟩), hmetadata]
    rfl

/-! ## The threads found -/

/-- A thread is reached from a root, or from a thread that names one. -/
def Descends (threads : Threads) (registry : AgentRegistry) (rootThreadIds : List ThreadId)
    (threadId : ThreadId) : Prop :=
  ∃ start, (start ∈ rootThreadIds ∨ NamesRoot threads registry rootThreadIds start) ∧
    Relation.ReflTransGen (Child threads) start threadId

theorem Descends.tail (h : Descends threads registry rootThreadIds parent)
    (hchild : Child threads parent child) : Descends threads registry rootThreadIds child := by
  obtain ⟨start, hstart, hreach⟩ := h
  exact ⟨start, hstart, hreach.tail hchild⟩

/-- The search begins with the children of the roots on the stack. -/
theorem sweep_walkRoots :
    Sweep Prod.fst rootThreadIds.toFinset (Child threads) (Descends threads registry rootThreadIds)
      (walkRoots threads registry rootThreadIds) ∧
    Taken (walkRoots threads registry rootThreadIds) := by
  have hstart : Sweep Prod.fst rootThreadIds.toFinset (Child threads)
      (Descends threads registry rootThreadIds)
      ⟨[], liveThreadSpawnChildren threads registry, rootThreadIds.toFinset, []⟩ := {
    nodup := .nil
    notRoot := fun _ h => nomatch h
    seen := fun x => by simp
    found := fun x h => by simp at h
    lists := fun _ _ => listsChild_liveThreadSpawnChildren.1
    kept := fun _ _ h => .inl (listsChild_liveThreadSpawnChildren.2 h) }
  refine ⟨hstart.takes _ _ (fun root hroot => ?_) fun root hroot child hchild => ?_,
    fun root hroot => ?_⟩
  · exact List.mem_toFinset.2 (List.mem_reverse.1 hroot)
  · exact ⟨root, .inl (List.mem_reverse.1 hroot), .single hchild⟩
  · rw [walkRoots, (Taken.takes _ _).1] at hroot
    exact (Taken.takes _ _).2 root (.inl (List.mem_reverse.2 (List.mem_toFinset.1 hroot)))

/-- **The threads shut down with some roots** are those reached by the child relation from a root
or from a live thread whose metadata names one, each once, and no root. -/
theorem liveThreadSpawnDescendantsFromRoots_spec (threads : Threads) (registry : AgentRegistry)
    (rootThreadIds : List ThreadId) :
    (liveThreadSpawnDescendantsFromRoots threads registry rootThreadIds).Nodup ∧
      ∀ threadId,
        threadId ∈ liveThreadSpawnDescendantsFromRoots threads registry rootThreadIds ↔
          threadId ∉ rootThreadIds ∧
            ∃ start, (start ∈ rootThreadIds ∨ NamesRoot threads registry rootThreadIds start) ∧
              Relation.ReflTransGen (Child threads) start threadId := by
  have hclosed : ∀ parent child, Descends threads registry rootThreadIds parent →
      Child threads parent child → Descends threads registry rootThreadIds child :=
    fun _ _ => Descends.tail
  -- the search by parents, then the one that begins at the threads whose metadata names a root
  obtain ⟨hsweep, htaken⟩ := @sweep_walkRoots threads registry rootThreadIds
  obtain ⟨hsweep, htaken, -, -⟩ := hsweep.drain htaken hclosed
  obtain ⟨hsweep', htaken', hseen, horphans⟩ := hsweep.enters
    ((orphanDescendants threads registry rootThreadIds _).map Prod.fst) _ htaken hclosed
    fun orphan horphan =>
      ⟨orphan, .inr (mem_orphanDescendants.1 horphan).2.2, .refl⟩
  obtain ⟨hsweep'', htaken'', hseen', hstack⟩ := hsweep'.drain htaken' hclosed
  refine ⟨hsweep''.nodup, fun threadId => ⟨fun hmem => ?_, ?_⟩⟩
  · exact ⟨fun hroot => hsweep''.notRoot _ hmem (List.mem_toFinset.2 hroot),
      hsweep''.found _ (.inr hmem)⟩
  · rintro ⟨hroot, start, hstart, hreach⟩
    have hstart' : start ∈ (drainLiveThreadSpawnDescendantsStack
        (walkRoots threads registry rootThreadIds)).seen ∨
        start ∈ (orphanDescendants threads registry rootThreadIds
          (drainLiveThreadSpawnDescendantsStack
            (walkRoots threads registry rootThreadIds)).seen).map Prod.fst := by
      rw [or_iff_not_imp_left]
      intro hnew
      have hnotRoot : start ∉ rootThreadIds := fun hmem =>
        hnew ((hsweep.seen start).2 (.inl (List.mem_toFinset.2 hmem)))
      exact mem_orphanDescendants.2 ⟨hnew, hnotRoot, hstart.resolve_left hnotRoot⟩
    have hreached := hsweep''.mem_of_reach htaken'' hstack
      (hseen' (hstart'.elim (@hseen _) (horphans start))) hreach
    exact ((hsweep''.seen threadId).1 hreached).resolve_left fun hmem =>
      hroot (List.mem_toFinset.1 hmem)

end

end Mcodex.Agents
