import Mathlib.Data.Finset.Insert
import Mathlib.Logic.Relation
import Mcodex.Lib.Table

/-!
# Traversals that take children away

Who is visited takes its children from a table and puts them on a stack, so that a node found twice
is passed over (`drain`). A traversal can start at several nodes, and again once the stack is empty:
what it has seen is closed under the edges of the table it began with (`Sweep.mem_of_reach`).
-/

namespace Mcodex.Traversal

open Table

universe u v

/-- The state of a traversal; the top of the stack comes first. -/
structure Walk (α : Type u) (β : Type v) where
  stack : List α
  children : Keyed α (List β)
  seen : Finset α
  visited : List α

variable {α : Type u} {β : Type v} [DecidableEq α]

/-- The table lists the node among the children of `parent`. -/
def ListsChild (key : β → α) (children : Keyed α (List β)) (parent child : α) : Prop :=
  ∃ entry ∈ (children.lookup parent).getD [], key entry = child

namespace Walk

variable (key : β → α) (x : α) (w : Walk α β)

/-- Move the children of a node to the stack. -/
def take : Walk α β :=
  { w with
    stack := ((w.children.lookup x).getD []).map key ++ w.stack
    children := w.children.erase x }

def visit : Walk α β :=
  { w.take key x with
    seen := insert x w.seen
    visited := w.visited ++ [x] }

/-- Visit a node that was not seen. -/
def enter : Walk α β := if x ∈ w.seen then w else w.visit key x

/-- A step leaves fewer children to take, or as many and a shorter stack. -/
theorem enter_decreases (stack : List α) :
    Prod.Lex (· < ·) (· < ·)
      ((({ w with stack } : Walk α β).enter key x).children.keys.length,
        (({ w with stack } : Walk α β).enter key x).stack.length)
      (w.children.keys.length, (x :: stack).length) := by
  rw [enter]
  split
  · exact .right _ (Nat.lt_succ_self _)
  · by_cases hx : x ∈ w.children.keys
    · refine .left _ _ ?_
      show (w.children.erase x).keys.length < _
      rw [AList.keys_erase, List.length_erase_of_mem hx]
      exact Nat.sub_lt (List.length_pos_of_mem hx) Nat.one_pos
    · have hnone : w.children.lookup x = none := AList.lookup_eq_none.2 hx
      have hkeys : (w.children.erase x).keys = w.children.keys := by
        rw [AList.keys_erase, List.erase_of_not_mem hx]
      show Prod.Lex _ _ ((w.children.erase x).keys.length,
        (((w.children.lookup x).getD []).map key ++ stack).length) _
      rw [hkeys, hnone]
      exact .right _ (Nat.lt_succ_self _)

def drain (w : Walk α β) : Walk α β :=
  match _h : w.stack with
  | [] => w
  | x :: stack => drain (({ w with stack } : Walk α β).enter key x)
termination_by (w.children.keys.length, w.stack.length)
decreasing_by
  rw [_h]
  exact enter_decreases key x w stack

variable {key x w}

/-- What every step on a stack keeps holds after all of them. -/
theorem drain_induction {motive : Walk α β → Prop}
    (hstep : ∀ (w : Walk α β) x stack, motive w → w.stack = x :: stack →
      motive (({ w with stack } : Walk α β).enter key x)) (w : Walk α β) (h : motive w) :
    motive (w.drain key) ∧ (w.drain key).stack = [] := by
  fun_induction drain key w with
  | case1 w hstack => exact ⟨h, hstack⟩
  | case2 w x stack hstack ih => exact ih (hstep w x stack h hstack)

end Walk

/-! ## What a traversal has seen -/

/-- A traversal of the graph with the given edges: the nodes it has seen are the roots and those it
has visited, once each, and a child of a node is found, or still listed, or the node is not seen. -/
structure Sweep (key : β → α) (roots : Finset α) (edge : α → α → Prop) (found : α → Prop)
    (w : Walk α β) : Prop where
  nodup : w.visited.Nodup
  notRoot : ∀ x ∈ w.visited, x ∉ roots
  seen : ∀ x, x ∈ w.seen ↔ x ∈ roots ∨ x ∈ w.visited
  found : ∀ x, x ∈ w.stack ∨ x ∈ w.visited → found x
  lists : ∀ parent child, ListsChild key w.children parent child → edge parent child
  kept : ∀ parent child, edge parent child → ListsChild key w.children parent child ∨
    parent ∈ w.seen ∧ (child ∈ w.seen ∨ child ∈ w.stack)

/-- The nodes that were seen have no children left to take. -/
def Taken (w : Walk α β) : Prop := ∀ x ∈ w.seen, w.children.lookup x = none

section
variable {key : β → α} {roots : Finset α} {edge : α → α → Prop} {found : α → Prop} {x : α}
  {w : Walk α β}

theorem listsChild_erase {children : Keyed α (List β)} {parent child : α} :
    ListsChild key (children.erase x) parent child ↔
      parent ≠ x ∧ ListsChild key children parent child := by
  rw [ListsChild, ListsChild, lookup_erase]
  by_cases h : parent = x <;> simp [h]

/-- The children of a node that was seen are moved to the stack. -/
theorem Sweep.take (h : Sweep key roots edge found w) (hx : x ∈ w.seen)
    (hfound : ∀ child, edge x child → found child) : Sweep key roots edge found (w.take key x) where
  nodup := h.nodup
  notRoot := h.notRoot
  seen := h.seen
  found y hy := by
    rcases hy with hstack | hvisited
    · rcases List.mem_append.1 hstack with hchild | hstack
      · obtain ⟨entry, hentry, rfl⟩ := List.mem_map.1 hchild
        exact hfound _ (h.lists _ _ ⟨entry, hentry, rfl⟩)
      · exact h.found y (.inl hstack)
    · exact h.found y (.inr hvisited)
  lists parent child hlists := h.lists _ _ (listsChild_erase.1 hlists).2
  kept parent child hedge := by
    rcases h.kept parent child hedge with hlists | ⟨hparent, hchild⟩
    · by_cases heq : parent = x
      · obtain ⟨entry, hentry, rfl⟩ := hlists
        subst heq
        exact .inr ⟨hx, .inr (List.mem_append_left _ (List.mem_map_of_mem hentry))⟩
      · exact .inl (listsChild_erase.2 ⟨heq, hlists⟩)
    · exact .inr ⟨hparent, hchild.imp id (List.mem_append_right _)⟩

theorem Taken.takes : ∀ (nodes : List α) (w : Walk α β),
    (nodes.foldl (fun w x => w.take key x) w).seen = w.seen ∧
      ∀ x, x ∈ nodes ∨ w.children.lookup x = none →
        (nodes.foldl (fun w x => w.take key x) w).children.lookup x = none
  | [], _ => ⟨rfl, fun _ h => h.resolve_left (by simp)⟩
  | y :: nodes, w => by
    obtain ⟨hseen, hnone⟩ := Taken.takes nodes (w.take key y)
    refine ⟨hseen, fun x hx => hnone x ?_⟩
    rw [or_iff_not_imp_left]
    intro hx'
    show (w.children.erase y).lookup x = none
    rw [lookup_erase]
    split
    · rfl
    · exact hx.resolve_left fun hmem => (List.mem_cons.1 hmem).elim ‹_› hx'

theorem Sweep.takes : ∀ (nodes : List α) (w : Walk α β), Sweep key roots edge found w →
    (∀ x ∈ nodes, x ∈ w.seen) → (∀ x ∈ nodes, ∀ child, edge x child → found child) →
    Sweep key roots edge found (nodes.foldl (fun w x => w.take key x) w)
  | [], _, h, _, _ => h
  | x :: nodes, w, h, hseen, hfound =>
    Sweep.takes nodes (w.take key x)
      (h.take (hseen x List.mem_cons_self) (hfound x List.mem_cons_self))
      (fun y hy => hseen y (List.mem_cons_of_mem _ hy))
      fun y hy => hfound y (List.mem_cons_of_mem _ hy)

/-- A node that was found and not seen is marked as visited. -/
theorem Sweep.mark (h : Sweep key roots edge found w) (hx : x ∉ w.seen) (hfound : found x) :
    Sweep key roots edge found
      { w with seen := insert x w.seen, visited := w.visited ++ [x] } where
  nodup := List.Nodup.append h.nodup (List.nodup_singleton x) fun y hy hy' =>
    hx ((h.seen x).2 (.inr (List.mem_singleton.1 hy' ▸ hy)))
  notRoot y hy := by
    rcases List.mem_append.1 hy with hy | hy
    · exact h.notRoot y hy
    · obtain rfl := List.mem_singleton.1 hy
      exact fun hroot => hx ((h.seen y).2 (.inl hroot))
  seen y := by
    simp only [Finset.mem_insert, List.mem_append, List.mem_singleton, h.seen y]
    tauto
  found y hy := by
    rcases hy with hstack | hvisited
    · exact h.found y (.inl hstack)
    · rcases List.mem_append.1 hvisited with hvisited | hy
      · exact h.found y (.inr hvisited)
      · exact List.mem_singleton.1 hy ▸ hfound
  lists := h.lists
  kept parent child hedge := (h.kept parent child hedge).imp id fun ⟨hparent, hchild⟩ =>
    ⟨Finset.mem_insert_of_mem hparent, hchild.imp Finset.mem_insert_of_mem id⟩

/-- A child that is on top of the stack is no longer owed once it was seen. -/
theorem Sweep.pop {stack : List α} (h : Sweep key roots edge found w)
    (hstack : w.stack = x :: stack) (hx : x ∈ w.seen) :
    Sweep key roots edge found { w with stack } where
  nodup := h.nodup
  notRoot := h.notRoot
  seen := h.seen
  found y hy := h.found y (hy.imp (fun hy => hstack ▸ List.mem_cons_of_mem _ hy) id)
  lists := h.lists
  kept parent child hedge := (h.kept parent child hedge).imp id fun ⟨hparent, hchild⟩ => by
    refine ⟨hparent, hchild.elim .inl fun hchild => ?_⟩
    rcases List.mem_cons.1 (hstack ▸ hchild) with rfl | hchild
    · exact .inl hx
    · exact .inr hchild

theorem Sweep.visit (h : Sweep key roots edge found w) (hx : x ∉ w.seen) (hfound : found x)
    (hclosed : ∀ child, edge x child → found child) :
    Sweep key roots edge found (w.visit key x) :=
  (h.mark hx hfound).take (Finset.mem_insert_self x _) hclosed

theorem Sweep.enter (h : Sweep key roots edge found w) (hfound : found x)
    (hclosed : ∀ child, edge x child → found child) :
    Sweep key roots edge found (w.enter key x) := by
  rw [Walk.enter]
  split
  · exact h
  · exact h.visit ‹_› hfound hclosed

/-- One round of the loop: the top of the stack is looked at. -/
theorem Sweep.next {stack : List α} (h : Sweep key roots edge found w)
    (hclosed : ∀ parent child, found parent → edge parent child → found child)
    (hstack : w.stack = x :: stack) :
    Sweep key roots edge found (({ w with stack } : Walk α β).enter key x) := by
  have hfound : found x := h.found x (.inl (hstack ▸ List.mem_cons_self))
  rw [Walk.enter]
  split
  · exact h.pop hstack ‹_›
  · -- the node is marked while it is still on the stack, and its children are taken after that
    exact ((h.mark ‹_› hfound).pop hstack (Finset.mem_insert_self x _)).take
      (Finset.mem_insert_self x _) fun child => hclosed x child hfound

theorem Taken.enter (h : Taken w) : Taken (w.enter key x) := by
  rw [Walk.enter]
  split
  · exact h
  · intro y hy
    show (w.children.erase x).lookup y = none
    rw [lookup_erase]
    split
    · rfl
    · exact h y ((Finset.mem_insert.1 hy).resolve_left ‹_›)

theorem seen_subset_enter : w.seen ⊆ (w.enter key x).seen := by
  rw [Walk.enter]
  split
  · exact fun _ => id
  · exact Finset.subset_insert x w.seen

theorem mem_seen_enter : x ∈ (w.enter key x).seen := by
  rw [Walk.enter]
  split
  · assumption
  · exact Finset.mem_insert_self x _

/-- **The loop** looks at every node on the stack, and at what it finds from there. -/
theorem Sweep.drain (h : Sweep key roots edge found w) (htaken : Taken w)
    (hclosed : ∀ parent child, found parent → edge parent child → found child) :
    Sweep key roots edge found (w.drain key) ∧ Taken (w.drain key) ∧
      w.seen ⊆ (w.drain key).seen ∧ (w.drain key).stack = [] := by
  obtain ⟨⟨hsweep, htaken, hseen⟩, hstack⟩ := @Walk.drain_induction _ _ _ key
    (fun w' => Sweep key roots edge found w' ∧ Taken w' ∧ w.seen ⊆ w'.seen)
    (fun w' x stack hw' hstack => ⟨hw'.1.next hclosed hstack,
      Taken.enter (w := { w' with stack }) hw'.2.1,
      hw'.2.2.trans (seen_subset_enter (w := { w' with stack }))⟩)
    w ⟨h, htaken, fun _ => id⟩
  exact ⟨hsweep, htaken, hseen, hstack⟩

/-- Other nodes to start at, one after the other. -/
theorem Sweep.enters : ∀ (nodes : List α) (w : Walk α β), Sweep key roots edge found w → Taken w →
    (∀ parent child, found parent → edge parent child → found child) →
    (∀ x ∈ nodes, found x) →
    Sweep key roots edge found (nodes.foldl (fun w x => w.enter key x) w) ∧
      Taken (nodes.foldl (fun w x => w.enter key x) w) ∧
      w.seen ⊆ (nodes.foldl (fun w x => w.enter key x) w).seen ∧
      ∀ x ∈ nodes, x ∈ (nodes.foldl (fun w x => w.enter key x) w).seen
  | [], _, h, htaken, _, _ => ⟨h, htaken, fun _ => id, fun _ hx => nomatch hx⟩
  | x :: nodes, w, h, htaken, hclosed, hfound => by
    have hx : found x := hfound x List.mem_cons_self
    obtain ⟨hsweep, htaken, hseen, hnodes⟩ := Sweep.enters nodes (w.enter key x)
      (h.enter hx fun child => hclosed x child hx) htaken.enter hclosed
      fun y hy => hfound y (List.mem_cons_of_mem _ hy)
    refine ⟨hsweep, htaken, seen_subset_enter.trans hseen, fun y hy => ?_⟩
    rcases List.mem_cons.1 hy with rfl | hy
    · exact hseen mem_seen_enter
    · exact hnodes y hy

/-- With nothing left on the stack, what was seen is closed under the edges. -/
theorem Sweep.mem_of_reach {start : α} (h : Sweep key roots edge found w) (htaken : Taken w)
    (hstack : w.stack = []) (hstart : start ∈ w.seen)
    (hreach : Relation.ReflTransGen edge start x) : x ∈ w.seen := by
  induction hreach with
  | refl => exact hstart
  | tail _ hedge ih =>
    rcases h.kept _ _ hedge with ⟨entry, hentry, -⟩ | ⟨-, hseen | hchild⟩
    · rw [htaken _ ih] at hentry
      cases hentry
    · exact hseen
    · rw [hstack] at hchild
      cases hchild

end

end Mcodex.Traversal
