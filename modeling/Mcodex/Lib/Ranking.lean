import Mathlib.Data.List.Forall2
import Mathlib.Data.List.Sort

/-!
# Ranking by a comparison function

`sortBy cmp` is a stable sort and `maxBy cmp` the last greatest element, as Rust's `slice::sort_by`
and `Iterator::max_by` compute them for a comparison that is a total preorder. What a caller relies
on is that the element it takes is in the list and that no element of the list ranks before it.
-/

namespace Mcodex.Ranking

universe u v

section
variable {α : Type u} {cmp : α → α → Ordering} {l : List α} {a b : α}

/-- A stable sort, least first. -/
def sortBy (cmp : α → α → Ordering) (l : List α) : List α :=
  l.insertionSort fun a b => (cmp a b).isLE

@[simp] theorem mem_sortBy : a ∈ sortBy cmp l ↔ a ∈ l := List.mem_insertionSort _

@[simp] theorem sortBy_eq_nil : sortBy cmp l = [] ↔ l = [] := by
  rw [← List.length_eq_zero_iff, sortBy, List.length_insertionSort, List.length_eq_zero_iff]

/-- The sorted list is increasing. -/
theorem sortBy_pairwise [Std.TransCmp cmp] (l : List α) :
    (sortBy cmp l).Pairwise fun a b => (cmp a b).isLE := by
  have : Std.Total fun a b => ((cmp a b).isLE : Prop) := ⟨fun a b => by
    rw [@Std.OrientedCmp.eq_swap _ cmp _ b]
    cases cmp a b <;> simp⟩
  have : IsTrans α fun a b => ((cmp a b).isLE : Prop) := ⟨fun _ _ _ => Std.TransCmp.isLE_trans⟩
  exact List.pairwise_insertionSort _ l

theorem pairwise_orderedInsert {le R : α → α → Prop} [DecidableRel le] [IsTrans α le]
    (hsorted : l.Pairwise le) : (l.orderedInsert le a).Pairwise R ↔
      (∀ b ∈ l, if le a b then R a b else R b a) ∧ l.Pairwise R := by
  induction l with
  | nil => simp
  | cons b l ih =>
    rw [List.pairwise_cons] at hsorted
    rw [List.orderedInsert_cons]
    split
    · rename_i hle
      have hall : ∀ c ∈ b :: l, le a c := by
        intro c hc
        rcases List.mem_cons.1 hc with rfl | hc
        · exact hle
        · exact IsTrans.trans a b c hle (hsorted.1 c hc)
      rw [List.pairwise_cons]
      refine and_congr_left fun _ => forall₂_congr fun c hc => ?_
      rw [if_pos (hall c hc)]
    · rename_i hle
      rw [List.pairwise_cons, ih hsorted.2, List.pairwise_cons, List.forall_mem_cons, if_neg hle]
      simp only [List.mem_orderedInsert, forall_eq_or_imp]
      tauto

/-- A stable sort brings two elements in order, and keeps them as they are where both orders
are right. -/
theorem pairwise_sortBy_iff [Std.TransCmp cmp] {R : α → α → Prop} :
    (sortBy cmp l).Pairwise R ↔
      l.Pairwise fun a b => if (cmp a b).isLE then R a b else R b a := by
  have : IsTrans α fun a b => ((cmp a b).isLE : Prop) := ⟨fun _ _ _ => Std.TransCmp.isLE_trans⟩
  induction l with
  | nil => simp [sortBy]
  | cons a l ih =>
    have hsorted := @sortBy_pairwise _ cmp _ l
    rw [List.pairwise_cons, sortBy, List.insertionSort_cons]
    refine (pairwise_orderedInsert hsorted).trans (and_congr ?_ ih)
    exact forall_congr' fun b => imp_congr_left mem_sortBy

/-- No element ranks before the first one. -/
theorem head_sortBy_isLE [Std.TransCmp cmp] (h : (sortBy cmp l).head? = some a) (hb : b ∈ l) :
    (cmp a b).isLE := by
  obtain ⟨t, ht⟩ := List.head?_eq_some_iff.1 h
  have hmem : b ∈ a :: t := ht ▸ mem_sortBy.2 hb
  rcases List.mem_cons.1 hmem with rfl | hbt
  · simp [Std.ReflCmp.compare_self]
  · have hsorted := @sortBy_pairwise _ cmp _ l
    rw [ht] at hsorted
    exact (List.pairwise_cons.1 hsorted).1 b hbt

/-- The element that ranks strictly before all others is the first one. -/
theorem head_sortBy_eq_some [Std.TransCmp cmp] (ha : a ∈ l)
    (hlt : ∀ b ∈ l, b ≠ a → cmp a b = .lt) : (sortBy cmp l).head? = some a := by
  cases h : (sortBy cmp l).head? with
  | none =>
    rw [List.head?_eq_none_iff, sortBy_eq_nil] at h
    simp [h] at ha
  | some c =>
    have hc : c ∈ l := mem_sortBy.1 (List.mem_of_head? h)
    by_contra hne
    have hca := head_sortBy_isLE h ha
    rw [@Std.OrientedCmp.eq_swap _ cmp, hlt c hc fun e => hne (e ▸ rfl)] at hca
    cases hca

/-- The last greatest element. -/
def maxBy (cmp : α → α → Ordering) : List α → Option α
  | [] => none
  | a :: l => some (l.foldl (fun best b => if (cmp best b).isGT then best else b) a)

theorem maxBy_eq_none : maxBy cmp l = none ↔ l = [] := by
  cases l <;> simp [maxBy]

theorem mem_of_maxBy (h : maxBy cmp l = some a) : a ∈ l := by
  have hfold : ∀ (l : List α) (best : α),
      l.foldl (fun best b => if (cmp best b).isGT then best else b) best ∈ best :: l := by
    intro l
    induction l with
    | nil => simp
    | cons b l ih =>
      intro best
      rw [List.foldl_cons]
      rcases List.mem_cons.1 (ih (if (cmp best b).isGT then best else b)) with h | h
      · rw [h]
        split <;> simp
      · exact List.mem_cons_of_mem _ (List.mem_cons_of_mem _ h)
  cases l with
  | nil => cases h
  | cons b l => exact Option.some.inj h ▸ hfold l b

/-- No element is greater. -/
theorem isLE_of_maxBy [Std.TransCmp cmp] (h : maxBy cmp l = some a) (hb : b ∈ l) :
    (cmp b a).isLE := by
  have hfold : ∀ (l : List α) (best : α), ∀ b ∈ best :: l,
      (cmp b (l.foldl (fun best b => if (cmp best b).isGT then best else b) best)).isLE := by
    intro l
    induction l with
    | nil => simp [Std.ReflCmp.compare_self]
    | cons c l ih =>
      intro best b hb
      rw [List.foldl_cons]
      have hbest : (cmp best (if (cmp best c).isGT then best else c)).isLE ∧
          (cmp c (if (cmp best c).isGT then best else c)).isLE := by
        split
        · rename_i hgt
          refine ⟨by simp [Std.ReflCmp.compare_self], ?_⟩
          rw [@Std.OrientedCmp.eq_swap _ cmp, Ordering.isGT_iff_eq_gt.1 hgt]
          rfl
        · rename_i hle
          exact ⟨Ordering.isLE_iff_ne_gt.2 (by simpa using hle), by simp [Std.ReflCmp.compare_self]⟩
      rcases List.mem_cons.1 hb with rfl | hb
      · exact Std.TransCmp.isLE_trans hbest.1 (ih _ _ List.mem_cons_self)
      rcases List.mem_cons.1 hb with rfl | hb
      · exact Std.TransCmp.isLE_trans hbest.2 (ih _ _ List.mem_cons_self)
      · exact ih _ b (List.mem_cons_of_mem _ hb)
  cases l with
  | nil => cases h
  | cons c l => exact Option.some.inj h ▸ hfold l c b hb

/-- Only the comparisons within the list matter. -/
theorem maxBy_congr {cmp' : α → α → Ordering} (h : ∀ a ∈ l, ∀ b ∈ l, cmp a b = cmp' a b) :
    maxBy cmp l = maxBy cmp' l := by
  cases l with
  | nil => rfl
  | cons a l =>
    refine congrArg some ?_
    induction l generalizing a with
    | nil => rfl
    | cons b l ih =>
      have hab := h a List.mem_cons_self b (List.mem_cons_of_mem _ List.mem_cons_self)
      rw [List.foldl_cons, List.foldl_cons, hab]
      refine ih _ fun c hc d hd => h c ?_ d ?_ <;> grind

/-! ## Ranking a permuted list

A comparison that is `eq` only between equal elements leaves a ranking no choice. -/

theorem eq_of_isLE [Std.OrientedCmp cmp] (hab : (cmp a b).isLE) (hba : (cmp b a).isLE) :
    cmp a b = .eq := by
  rw [@Std.OrientedCmp.eq_swap _ cmp] at hba
  cases h : cmp a b <;> simp [h] at hab hba ⊢

variable {l' : List α}

theorem sortBy_eq_of_perm [Std.TransCmp cmp] (hperm : l.Perm l')
    (heq : ∀ a ∈ l, ∀ b ∈ l, cmp a b = .eq → a = b) : sortBy cmp l = sortBy cmp l' := by
  have hsorted : (sortBy cmp l).Perm (sortBy cmp l') :=
    (List.perm_insertionSort _ l).trans (hperm.trans (List.perm_insertionSort _ l').symm)
  refine hsorted.eq_of_pairwise ?_ (sortBy_pairwise l) (sortBy_pairwise l')
  intro a b ha hb hab hba
  rw [mem_sortBy] at ha hb
  exact heq a ha b (hperm.mem_iff.2 hb) (eq_of_isLE hab hba)

theorem maxBy_eq_of_perm [Std.TransCmp cmp] (hperm : l.Perm l')
    (heq : ∀ a ∈ l, ∀ b ∈ l, cmp a b = .eq → a = b) : maxBy cmp l = maxBy cmp l' := by
  cases h : maxBy cmp l with
  | none =>
    rw [maxBy_eq_none] at h
    rw [h] at hperm
    exact (maxBy_eq_none.2 hperm.nil_eq.symm).symm
  | some a =>
    cases h' : maxBy cmp l' with
    | none =>
      rw [maxBy_eq_none] at h'
      rw [h'] at hperm
      rw [hperm.eq_nil] at h
      cases h
    | some b =>
      have ha := mem_of_maxBy h
      have hb := hperm.mem_iff.2 (mem_of_maxBy h')
      have hba := isLE_of_maxBy h hb
      have hab := isLE_of_maxBy h' (hperm.mem_iff.1 ha)
      exact congrArg some (heq a ha b hb (eq_of_isLE hab hba))

end

section
variable {α : Type u} {κ : Type v} [LinearOrder κ] {key : α → κ} {l : List α} {a b : α}

/-- The last element with the greatest key, as Rust's `Iterator::max_by_key` computes it. -/
def maxByKey (key : α → κ) (l : List α) : Option α := maxBy (fun a b => compare (key a) (key b)) l

theorem maxByKey_eq_none : maxByKey key l = none ↔ l = [] := maxBy_eq_none

theorem mem_of_maxByKey (h : maxByKey key l = some a) : a ∈ l := mem_of_maxBy h

/-- No element has a greater key. -/
theorem le_of_maxByKey (h : maxByKey key l = some a) (hb : b ∈ l) : key b ≤ key a := by
  have : Std.TransCmp fun a b => compare (key a) (key b) :=
    inferInstanceAs (Std.TransCmp (compareOn key))
  have hle := @isLE_of_maxBy _ (fun a b => compare (key a) (key b)) _ _ _ _ h hb
  exact compare_le_iff_le.1 (Ordering.ne_gt_iff_isLE.2 hle)

end

/-! ## Lists related element by element -/

section
variable {α : Type u} {β : Type v} {R : α → β → Prop} {l : List α} {l' : List β}

theorem exists_of_mem_left (h : List.Forall₂ R l l') {a : α} (ha : a ∈ l) : ∃ b ∈ l', R a b := by
  induction h with
  | nil => cases ha
  | cons hab _ ih =>
    rcases List.mem_cons.1 ha with rfl | ha
    · exact ⟨_, List.mem_cons_self, hab⟩
    · obtain ⟨b, hb, hr⟩ := ih ha
      exact ⟨b, List.mem_cons_of_mem _ hb, hr⟩

theorem exists_getElem?_left (h : List.Forall₂ R l l') {i : Nat} {a : α} (ha : l[i]? = some a) :
    ∃ b, l'[i]? = some b ∧ R a b := by
  induction h generalizing i with
  | nil => simp at ha
  | cons hab _ ih =>
    cases i with
    | zero => exact ⟨_, rfl, Option.some.inj ha ▸ hab⟩
    | succ i => exact ih ha

theorem exists_getElem?_right (h : List.Forall₂ R l l') {i : Nat} {b : β} (hb : l'[i]? = some b) :
    ∃ a, l[i]? = some a ∧ R a b :=
  exists_getElem?_left h.flip hb

theorem exists_of_mem_right (h : List.Forall₂ R l l') {b : β} (hb : b ∈ l') : ∃ a ∈ l, R a b :=
  exists_of_mem_left h.flip hb

end

/-! ## A cell that the latest value keeps -/

section
variable {α : Type u} {after : α → α → Bool} {latest : α} {values : List α} {held : Option α}

/-- A value replaces the one held if it comes after it. -/
def replace (after : α → α → Bool) (held : Option α) (value : α) : Option α :=
  if held.all (after · value) then some value else held

/-- Nothing replaces the latest value. -/
theorem foldl_replace_latest (h : ∀ value ∈ values, value ≠ latest → after latest value = false) :
    values.foldl (replace after) (some latest) = some latest := by
  induction values with
  | nil => rfl
  | cons value values ih =>
    rw [List.forall_mem_cons] at h
    have hvalue : replace after (some latest) value = some latest := by
      rw [replace, Option.all_some]
      split
      · rename_i hafter
        exact congrArg some (Classical.byContradiction fun hne =>
          Bool.false_ne_true ((h.1 hne).symm.trans hafter))
      · rfl
    rw [List.foldl_cons, hvalue, ih h.2]

/-- **Values in any order** leave the one that comes after all others. -/
theorem foldl_replace_eq (hmem : latest ∈ values)
    (hafter : ∀ value ∈ values, value ≠ latest → after value latest)
    (hbefore : ∀ value ∈ values, value ≠ latest → after latest value = false)
    (hheld : ∀ value ∈ held, after value latest) :
    values.foldl (replace after) held = some latest := by
  induction values generalizing held with
  | nil => cases hmem
  | cons value values ih =>
    rw [List.forall_mem_cons] at hafter hbefore
    rw [List.foldl_cons]
    by_cases heq : value = latest
    · subst heq
      have hnow : replace after held value = some value := by
        rw [replace, if_pos ((Option.all_eq_true _ _).2 hheld)]
      rw [hnow]
      exact foldl_replace_latest hbefore.2
    · refine ih ((List.mem_cons.1 hmem).resolve_left (Ne.symm heq)) hafter.2 hbefore.2 ?_
      intro value' hvalue'
      rw [replace] at hvalue'
      split at hvalue'
      · exact Option.some.inj hvalue' ▸ hafter.1 heq
      · exact hheld value' hvalue'

end

end Mcodex.Ranking
