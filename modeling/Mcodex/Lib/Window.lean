import Mathlib.Algebra.Order.BigOperators.Group.List
import Mathlib.Algebra.Order.Group.Nat
import Mathlib.Algebra.Ring.Nat
import Mathlib.Data.List.Sort

/-!
# Window functions and the newest rows within a budget

`SUM(…) OVER` and `ROW_NUMBER() OVER` a window that is ordered newest first give each row the size
and the number of the rows that are not older. Rows whose totals exceed a budget are the older part
of the window: what is left is the longest run of newest rows within the budget.
-/

namespace Mcodex.Window

universe u v

/-- Bounds on the size and on the number of rows. -/
structure Budget where
  bytes : Nat
  rows : Nat

section
variable {α : Type u} {κ : Type v} [LinearOrder κ] (key : α → κ) (size : α → Nat)

def totalSize (rows : List α) : Nat := (rows.map size).sum

/-- The rows up to this one in the window, newest first. -/
def upTo (rows : List α) (row : α) : List α := rows.filter (key row ≤ key ·)

/-- The sum and the number of the rows are within the budget. -/
def Within (budget : Budget) (rows : List α) : Prop :=
  totalSize size rows ≤ budget.bytes ∧ rows.length ≤ budget.rows

instance (budget : Budget) (rows : List α) : Decidable (Within size budget rows) :=
  inferInstanceAs (Decidable (_ ∧ _))

/-- The rows whose totals in the window of all rows are within the budget. -/
def kept (budget : Budget) (rows : List α) : List α :=
  rows.filter fun row => Within size budget (upTo key rows row)

def newestFirst (rows : List α) : List α := rows.mergeSort fun row row' => key row' ≤ key row

/-- The longest run of first rows that is within the budget. -/
structure IsLongestRun (budget : Budget) (rows run : List α) : Prop where
  isPrefix : run <+: rows
  within : Within size budget run
  longest : ∀ run', run' <+: rows → Within size budget run' → run' <+: run

variable {key size} {budget : Budget} {rows rows' : List α} {row : α}

theorem Within.of_prefix (h : Within size budget rows) (hpre : rows' <+: rows) :
    Within size budget rows' := by
  obtain ⟨rest, rfl⟩ := hpre
  rw [Within, totalSize, List.map_append, List.sum_append, List.length_append] at h
  exact ⟨(Nat.le_add_right _ _).trans h.1, (Nat.le_add_right _ _).trans h.2⟩

theorem Within.perm (h : rows.Perm rows') :
    Within size budget rows ↔ Within size budget rows' := by
  rw [Within, Within, totalSize, totalSize, (h.map size).sum_eq, h.length_eq]

/-- In rows that get older, the window of a row is what comes before it. -/
theorem kept_cons (hsorted : (row :: rows).Pairwise fun row row' => key row' < key row) :
    kept key size budget (row :: rows) =
      if Within size budget [row] then
        row :: kept key size ⟨budget.bytes - size row, budget.rows - 1⟩ rows
      else [] := by
  rw [List.pairwise_cons] at hsorted
  have hfirst : upTo key (row :: rows) row = [row] := by
    rw [upTo, List.filter_cons_of_pos (by simp), List.filter_eq_nil_iff.2]
    intro row' hrow'
    simpa using hsorted.1 row' hrow'
  have hrest : ∀ row' ∈ rows, upTo key (row :: rows) row' = row :: upTo key rows row' := by
    intro row' hrow'
    rw [upTo, List.filter_cons_of_pos (by simpa using (hsorted.1 row' hrow').le), upTo]
  have hwithin : ∀ row' ∈ rows, (Within size budget (upTo key (row :: rows) row') ↔
      Within size budget [row] ∧
        Within size ⟨budget.bytes - size row, budget.rows - 1⟩ (upTo key rows row')) := by
    intro row' hrow'
    rw [hrest row' hrow']
    simp only [Within, totalSize, List.map_cons, List.map_nil, List.sum_cons, List.sum_nil,
      List.length_cons, List.length_nil]
    omega
  rw [kept]
  split
  · rename_i hrow
    rw [List.filter_cons_of_pos (by rw [hfirst]; simpa using hrow), kept]
    refine congrArg _ (List.filter_congr fun row' hrow' => ?_)
    rw [decide_eq_decide, hwithin row' hrow']
    exact and_iff_right hrow
  · rename_i hrow
    rw [List.filter_cons_of_neg (by rw [hfirst]; simpa using hrow), List.filter_eq_nil_iff]
    intro row' hrow'
    rw [decide_eq_true_eq, hwithin row' hrow']
    exact fun h => hrow h.1

theorem isLongestRun_cons (hrow : Within size budget [row])
    (h : IsLongestRun size ⟨budget.bytes - size row, budget.rows - 1⟩ rows rows') :
    IsLongestRun size budget (row :: rows) (row :: rows') := by
  have hwithin : ∀ run, Within size budget (row :: run) ↔
      Within size ⟨budget.bytes - size row, budget.rows - 1⟩ run := by
    intro run
    simp only [Within, totalSize, List.map_cons, List.map_nil, List.sum_cons, List.sum_nil,
      List.length_cons, List.length_nil] at hrow ⊢
    omega
  refine ⟨(List.prefix_cons_inj row).2 h.isPrefix, (hwithin _).2 h.within, ?_⟩
  intro run' hprefix hrun'
  cases run' with
  | nil => exact List.nil_prefix
  | cons row' run' =>
    obtain ⟨rfl, hrest⟩ := List.cons_prefix_cons.1 hprefix
    exact (List.prefix_cons_inj row').2 (h.longest run' hrest ((hwithin run').1 hrun'))

/-- Rows in order that keep within the budget are the longest run that does. -/
theorem isLongestRun_kept (hsorted : rows.Pairwise fun row row' => key row' < key row) :
    IsLongestRun size budget rows (kept key size budget rows) := by
  induction rows generalizing budget with
  | nil => exact ⟨List.nil_prefix, ⟨Nat.zero_le _, Nat.zero_le _⟩, fun _ h _ => h⟩
  | cons row rows ih =>
    rw [kept_cons hsorted]
    split
    · exact isLongestRun_cons ‹_› (ih hsorted.of_cons)
    · rename_i hrow
      refine ⟨List.nil_prefix, ⟨Nat.zero_le _, Nat.zero_le _⟩, fun run' hprefix hrun' => ?_⟩
      cases run' with
      | nil => exact List.nil_prefix
      | cons row' run' =>
        obtain ⟨rfl, -⟩ := List.cons_prefix_cons.1 hprefix
        exact absurd (hrun'.of_prefix ((List.prefix_cons_inj row').2 List.nil_prefix)) hrow

/-! ## Rows in any order -/

theorem newestFirst_perm (rows : List α) : (newestFirst key rows).Perm rows :=
  List.mergeSort_perm _ _

/-- Rows of different keys get strictly older. -/
theorem newestFirst_pairwise (hnodup : (rows.map key).Nodup) :
    (newestFirst key rows).Pairwise fun row row' => key row' < key row := by
  have hsorted : (newestFirst key rows).Pairwise fun row row' => key row' ≤ key row := by
    refine (List.pairwise_mergeSort ?_ ?_ rows).imp of_decide_eq_true
    · intro row row' row'' h h'
      exact decide_eq_true ((of_decide_eq_true h').trans (of_decide_eq_true h))
    · intro row row'
      simpa using le_total (key row') (key row)
  have hne : (newestFirst key rows).Pairwise fun row row' => key row ≠ key row' :=
    List.pairwise_map.1 (((newestFirst_perm rows).map key).nodup_iff.2 hnodup)
  exact (hsorted.and hne).imp fun h => lt_of_le_of_ne h.1 h.2.symm

theorem newestFirst_eq (hsorted : rows'.Pairwise fun row row' => key row' < key row)
    (hperm : rows.Perm rows') : newestFirst key rows = rows' := by
  have hnodup : (rows.map key).Nodup := (hperm.map key).nodup_iff.2
    (List.pairwise_map.2 (hsorted.imp fun h => h.ne'))
  refine List.Perm.eq_of_pairwise (fun row row' _ _ h h' => absurd h h'.asymm)
    (newestFirst_pairwise hnodup) hsorted ((newestFirst_perm rows).trans hperm)

theorem kept_perm (h : rows.Perm rows') :
    (kept key size budget rows).Perm (kept key size budget rows') := by
  have hwindow : ∀ row, Within size budget (upTo key rows row) ↔
      Within size budget (upTo key rows' row) := fun row => Within.perm (h.filter _)
  rw [kept, kept]
  simp only [hwindow]
  exact h.filter _

/-- **The rows that keep within the budget** are the longest run of newest rows that does. -/
theorem isLongestRun_newestFirst (hnodup : (rows.map key).Nodup) :
    IsLongestRun size budget (newestFirst key rows)
      (newestFirst key (kept key size budget rows)) := by
  have hsorted := newestFirst_pairwise hnodup
  have hkept : newestFirst key (kept key size budget rows) =
      kept key size budget (newestFirst key rows) :=
    newestFirst_eq (hsorted.sublist List.filter_sublist)
      (kept_perm (newestFirst_perm rows).symm)
  rw [hkept]
  exact isLongestRun_kept hsorted

/-- Rows that together are within the budget all stay. -/
theorem kept_of_within (h : Within size budget rows) : kept key size budget rows = rows := by
  refine List.filter_eq_self.2 fun row _ => decide_eq_true ?_
  have hsub : (upTo key rows row).Sublist rows := List.filter_sublist
  exact ⟨((hsub.map size).sum_le_sum fun _ _ => Nat.zero_le _).trans h.1,
    hsub.length_le.trans h.2⟩

end

end Mcodex.Window
