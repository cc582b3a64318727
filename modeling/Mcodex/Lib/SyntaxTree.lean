import Mathlib.Data.List.Pairwise
import Mathlib.Data.List.Flatten

/-!
# Syntax trees over a text

A node of a syntax tree has a kind, the bytes of the text it covers and its children in order. A
traversal with a stack visits the nodes in another order than the text has them; the nodes of a
kind that covers text and does not nest are put back into that order by their first bytes.
-/

namespace Mcodex.SyntaxTree

inductive Node where
  | mk (kind : String) (isNamed : Bool) (startByte endByte : Nat) (children : List Node)

namespace Node

def kind : Node → String
  | mk kind _ _ _ _ => kind

def isNamed : Node → Bool
  | mk _ isNamed _ _ _ => isNamed

def startByte : Node → Nat
  | mk _ _ startByte _ _ => startByte

def endByte : Node → Nat
  | mk _ _ _ endByte _ => endByte

def children : Node → List Node
  | mk _ _ _ _ children => children

def namedChildren (node : Node) : List Node := node.children.filter isNamed

mutual

/-- The nodes of a tree, each before its children. -/
def preorder : Node → List Node
  | mk kind isNamed startByte endByte children =>
    mk kind isNamed startByte endByte children :: preorders children

def preorders : List Node → List Node
  | [] => []
  | node :: nodes => preorder node ++ preorders nodes

end

theorem preorders_eq_flatMap (nodes : List Node) : preorders nodes = nodes.flatMap preorder := by
  induction nodes with
  | nil => rfl
  | cons node nodes ih => rw [preorders, ih, List.flatMap_cons]

theorem preorder_eq (node : Node) : node.preorder = node :: node.children.flatMap preorder := by
  cases node with
  | mk kind isNamed startByte endByte children =>
    rw [preorder, preorders_eq_flatMap]
    rfl

theorem mem_preorder_self (node : Node) : node ∈ node.preorder := by
  rw [preorder_eq]
  exact List.mem_cons_self

theorem mem_preorder_of_child {node child x : Node} (hchild : child ∈ node.children)
    (hx : x ∈ child.preorder) : x ∈ node.preorder := by
  rw [preorder_eq]
  exact List.mem_cons_of_mem _ (List.mem_flatMap.2 ⟨child, hchild, hx⟩)

theorem sizeOf_child {node child : Node} (h : child ∈ node.children) :
    sizeOf child < sizeOf node := by
  cases node with
  | mk kind isNamed startByte endByte children =>
    have hlt : sizeOf child < sizeOf children := List.sizeOf_lt_of_mem h
    rw [mk.sizeOf_spec]
    omega

/-- What holds of a node if it holds of its children holds of every node. -/
theorem induct {motive : Node → Prop}
    (step : ∀ node, (∀ child ∈ node.children, motive child) → motive node) (node : Node) :
    motive node :=
  step node fun child _h => induct step child
termination_by sizeOf node
decreasing_by exact sizeOf_child _h

theorem preorder_trans {node x y : Node} (hx : x ∈ node.preorder) (hy : y ∈ x.preorder) :
    y ∈ node.preorder := by
  induction node using induct with
  | step node ih =>
    rw [preorder_eq, List.mem_cons, List.mem_flatMap] at hx
    rcases hx with rfl | ⟨child, hchild, hx⟩
    · exact hy
    · exact mem_preorder_of_child hchild (ih child hchild hx)

/-! ## Traversal with a stack -/

/-- The nodes that a stack still gives. -/
def stackSize (stack : List Node) : Nat := (stack.flatMap preorder).length

theorem stackSize_lt (node : Node) (rest : List Node) :
    stackSize (node.children.reverse ++ rest) < stackSize (node :: rest) := by
  have hreverse : (node.children.reverse.flatMap preorder).length =
      (node.children.flatMap preorder).length :=
    ((List.reverse_perm _).flatMap_right _).length_eq
  rw [stackSize, stackSize, List.flatMap_append, List.flatMap_cons, List.length_append,
    List.length_append, preorder_eq, List.length_cons, hreverse]
  omega

/-- The nodes in the order in which a stack gives them: the last child of a node comes first. -/
def walk (stack : List Node) : List Node :=
  match stack with
  | [] => []
  | node :: rest => node :: walk (node.children.reverse ++ rest)
termination_by stackSize stack
decreasing_by exact stackSize_lt node rest

theorem walk_nil : walk [] = [] := by
  rw [walk]

theorem walk_cons (node : Node) (rest : List Node) :
    walk (node :: rest) = node :: walk (node.children.reverse ++ rest) := by
  rw [walk]

/-- The traversal visits every node once. -/
theorem walk_perm (stack : List Node) : (walk stack).Perm (stack.flatMap preorder) := by
  induction stack using walk.induct with
  | case1 => rw [walk_nil]; exact List.Perm.refl _
  | case2 node rest ih =>
    rw [walk_cons, List.flatMap_cons, preorder_eq, List.cons_append]
    refine List.Perm.cons node (ih.trans ?_)
    rw [List.flatMap_append]
    exact ((List.reverse_perm _).flatMap_right _).append_right _

theorem walk_root_perm (root : Node) : (walk [root]).Perm root.preorder := by
  have hperm := walk_perm [root]
  rwa [List.flatMap_singleton] at hperm

/-! ## Order of the text -/

/-- The children of a node lie inside it, one after the other. -/
structure Laid (node : Node) : Prop where
  start_le : ∀ child ∈ node.children, node.startByte ≤ child.startByte
  le_end : ∀ child ∈ node.children, child.endByte ≤ node.endByte
  ordered : node.children.Pairwise fun a b => a.endByte ≤ b.startByte

instance (node : Node) : Decidable node.Laid :=
  decidable_of_iff ((∀ child ∈ node.children, node.startByte ≤ child.startByte) ∧
    (∀ child ∈ node.children, child.endByte ≤ node.endByte) ∧
      node.children.Pairwise fun a b => a.endByte ≤ b.startByte)
    ⟨fun ⟨hstart, hend, hordered⟩ => ⟨hstart, hend, hordered⟩,
      fun h => ⟨h.start_le, h.le_end, h.ordered⟩⟩

theorem span_le {root x : Node} (h : ∀ node ∈ root.preorder, node.Laid) (hx : x ∈ root.preorder) :
    root.startByte ≤ x.startByte ∧ x.endByte ≤ root.endByte := by
  induction root using induct with
  | step root ih =>
    have hroot := h root (mem_preorder_self root)
    rw [preorder_eq, List.mem_cons, List.mem_flatMap] at hx
    rcases hx with rfl | ⟨child, hchild, hx⟩
    · exact ⟨Nat.le_refl _, Nat.le_refl _⟩
    · obtain ⟨hstart, hend⟩ :=
        ih child hchild (fun node hn => h node (mem_preorder_of_child hchild hn)) hx
      exact ⟨Nat.le_trans (hroot.start_le child hchild) hstart,
        Nat.le_trans hend (hroot.le_end child hchild)⟩

/-- Nodes of a kind that covers text and does not nest begin one after the other. -/
theorem pairwise_startByte {root : Node} {p : Node → Bool}
    (hlaid : ∀ node ∈ root.preorder, node.Laid)
    (hcovers : ∀ node ∈ root.preorder, p node → node.startByte < node.endByte)
    (hnest : ∀ node ∈ root.preorder, p node → ∀ child ∈ node.children, ∀ x ∈ child.preorder, ¬ p x) :
    (root.preorder.filter p).Pairwise fun a b => a.startByte < b.startByte := by
  induction root using induct with
  | step root ih =>
    have hself := mem_preorder_self root
    rw [preorder_eq, List.filter_cons]
    split
    · next hp =>
      have hnone : (root.children.flatMap preorder).filter p = [] := by
        refine List.filter_eq_nil_iff.2 fun x hx => ?_
        obtain ⟨child, hchild, hx⟩ := List.mem_flatMap.1 hx
        exact hnest root hself hp child hchild x hx
      rw [hnone]
      exact List.pairwise_singleton _ _
    · rw [List.filter_flatMap, List.pairwise_flatMap]
      constructor
      · intro child hchild
        exact ih child hchild (fun node hn => hlaid node (mem_preorder_of_child hchild hn))
          (fun node hn => hcovers node (mem_preorder_of_child hchild hn))
          (fun node hn => hnest node (mem_preorder_of_child hchild hn))
      · refine (hlaid root hself).ordered.imp_of_mem fun {a b} ha hb hab x hx y hy => ?_
        rw [List.mem_filter] at hx hy
        have hspan := span_le (fun node hn => hlaid node (mem_preorder_of_child ha hn)) hx.1
        have hspan' := span_le (fun node hn => hlaid node (mem_preorder_of_child hb hn)) hy.1
        have hlt := hcovers x (mem_preorder_of_child ha hx.1) hx.2
        omega

/-- Sorted by their first bytes, the visited nodes of such a kind are in the order of the text. -/
theorem mergeSort_walk {root : Node} {p : Node → Bool}
    (h : (root.preorder.filter p).Pairwise fun a b => a.startByte < b.startByte) :
    ((walk [root]).filter p).mergeSort (fun a b => a.startByte ≤ b.startByte) =
      root.preorder.filter p := by
  have hperm : ((walk [root]).filter p).mergeSort (fun a b => decide (a.startByte ≤ b.startByte))
      |>.Perm (root.preorder.filter p) :=
    (List.mergeSort_perm _ _).trans ((walk_root_perm root).filter p)
  have hsorted : ((walk [root]).filter p).mergeSort (fun a b => decide (a.startByte ≤ b.startByte))
      |>.Pairwise fun a b => a.startByte ≤ b.startByte := by
    refine (List.pairwise_mergeSort ?_ ?_ _).imp fun hab => by simpa using hab
    · intro a b c hab hbc
      simp only [decide_eq_true_eq] at hab hbc ⊢
      omega
    · intro a b
      simp only [Bool.or_eq_true, decide_eq_true_eq]
      omega
  refine List.Perm.eq_of_pairwise ?_ hsorted (h.imp Nat.le_of_lt) hperm
  intro a b ha hb hab hba
  by_contra hne
  have hsymm : Std.Symm fun a b : Node => a.startByte ≠ b.startByte := ⟨fun _ _ h => h.symm⟩
  exact (h.imp Nat.ne_of_lt).forall (hperm.mem_iff.1 ha) hb hne (Nat.le_antisymm hab hba)

end Node

/-! ## Text of a node -/

/-- A text before and after a byte, when a character begins there. -/
def splitAtByte : Nat → List Char → Option (List Char × List Char)
  | 0, text => some ([], text)
  | _ + 1, [] => none
  | n + 1, c :: text =>
    if c.utf8Size ≤ n + 1 then
      (splitAtByte (n + 1 - c.utf8Size) text).map fun split => (c :: split.1, split.2)
    else none

/-- `Node::utf8_text`. -/
def Node.utf8Text (src : List Char) (node : Node) : Option (List Char) := do
  let (_, rest) ← splitAtByte node.startByte src
  let (text, _) ← splitAtByte (node.endByte - node.startByte) rest
  return text

end Mcodex.SyntaxTree
