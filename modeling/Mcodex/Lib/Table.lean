import Mathlib.Data.Finset.Card
import Mathlib.Data.List.AList

/-!
# Row tables with partial unique indexes

A table is the list of its rows in insertion order. `UniqueOn active key rows` is a unique index on
`key` restricted to the rows that satisfy `active`, as SQL's `CREATE UNIQUE INDEX … WHERE …` builds
it. Two kinds of statement keep it: an update that leaves keys alone and wakes no row up, and an
insertion of a row whose key no active row carries.
-/

namespace Mcodex.Table

universe u v w

section
variable {ρ : Type u} {κ : Type v} {active : ρ → Prop} {key : ρ → κ} {rows : List ρ}

/-- A unique index on `key` over the rows that satisfy `active`. -/
def UniqueOn (active : ρ → Prop) (key : ρ → κ) (rows : List ρ) : Prop :=
  rows.Pairwise fun r r' => active r → active r' → key r ≠ key r'

instance [DecidablePred active] [DecidableEq κ] : Decidable (UniqueOn active key rows) :=
  inferInstanceAs (Decidable (List.Pairwise _ _))

/-- Two active rows of one key are one row of the table. -/
theorem UniqueOn.eq_of_mem (h : UniqueOn active key rows) {r r' : ρ} (hr : r ∈ rows)
    (hr' : r' ∈ rows) (ha : active r) (ha' : active r') (hk : key r = key r') : r = r' := by
  by_contra hne
  have hsymm : Std.Symm fun r r' : ρ => active r → active r' → key r ≠ key r' :=
    ⟨fun _ _ h ha' ha e => h ha ha' e.symm⟩
  exact h.forall hr hr' hne ha ha' hk

/-- An update that keeps keys and wakes no row up keeps the index. -/
theorem UniqueOn.map (h : UniqueOn active key rows) {f : ρ → ρ} (hkey : ∀ r, key (f r) = key r)
    (hact : ∀ r, active (f r) → active r) : UniqueOn active key (rows.map f) := by
  refine List.pairwise_map.2 (List.Pairwise.imp (fun hr ha ha' => ?_) h)
  rw [hkey, hkey]
  exact hr (hact _ ha) (hact _ ha')

/-- Inserting a row whose key no active row carries keeps the index. -/
theorem UniqueOn.append (h : UniqueOn active key rows) {r : ρ}
    (hr : ∀ r' ∈ rows, active r' → key r' ≠ key r) : UniqueOn active key (rows ++ [r]) := by
  refine List.pairwise_append.2 ⟨h, List.pairwise_singleton _ _, fun r' hr' r₀ hr₀ ha _ => ?_⟩
  rw [List.mem_singleton.1 hr₀]
  exact hr r' hr' ha

/-! ## Updating the rows a condition selects -/

/-- `UPDATE … SET f WHERE p`: the rows that satisfy `p` are rewritten, the others stay. -/
def updateWhere (p : ρ → Bool) (f : ρ → ρ) (rows : List ρ) : List ρ :=
  rows.map fun r => if p r then f r else r

theorem mem_updateWhere {p : ρ → Bool} {f : ρ → ρ} {r : ρ} :
    r ∈ updateWhere p f rows ↔ ∃ r₀ ∈ rows, r = if p r₀ then f r₀ else r₀ := by
  rw [updateWhere, List.mem_map]
  exact exists_congr fun _ => and_congr_right fun _ => eq_comm

/-- An update whose condition no row meets changes nothing. -/
theorem updateWhere_of_none {p : ρ → Bool} {f : ρ → ρ} (h : ∀ r ∈ rows, p r = false) :
    updateWhere p f rows = rows := by
  refine (List.map_congr_left fun r hr => ?_).trans (List.map_id rows)
  simp [h r hr]

end

/-! ## Tables with a primary key -/

/-- A table read and written through its primary key. -/
abbrev Keyed (κ : Type u) (ρ : Type v) := AList fun _ : κ => ρ

section
variable {κ : Type u} {ρ : Type v} [DecidableEq κ] {k k' : κ}

/-- `UPDATE … SET f WHERE key = k`. -/
def updateKey (k : κ) (f : ρ → ρ) (t : Keyed κ ρ) : Keyed κ ρ :=
  match t.lookup k with
  | some r => t.insert k (f r)
  | none => t

theorem lookup_insert (r : ρ) (t : Keyed κ ρ) :
    (t.insert k r).lookup k' = if k' = k then some r else t.lookup k' := by
  split
  · subst k'
    exact AList.lookup_insert t
  · exact AList.lookup_insert_ne ‹_›

theorem lookup_erase (t : Keyed κ ρ) :
    (t.erase k).lookup k' = if k' = k then none else t.lookup k' := by
  split
  · subst k'
    exact AList.lookup_erase k t
  · exact AList.lookup_erase_ne ‹_›

theorem lookup_updateKey (f : ρ → ρ) (t : Keyed κ ρ) :
    (updateKey k f t).lookup k' = if k' = k then (t.lookup k').map f else t.lookup k' := by
  unfold updateKey
  split
  · rw [lookup_insert]
    split
    · subst k'
      simp_all
    · rfl
  · split
    · subst k'
      simp_all
    · rfl

theorem mem_updateKey {f : ρ → ρ} {t : Keyed κ ρ} : k' ∈ updateKey k f t ↔ k' ∈ t := by
  rw [← AList.lookup_isSome, ← AList.lookup_isSome, lookup_updateKey]
  split <;> simp

/-! ## Deleting and counting rows -/

/-- `DELETE … WHERE NOT p`. -/
def retain (p : ρ → Bool) (t : Keyed κ ρ) : Keyed κ ρ :=
  ⟨t.entries.filter fun entry => p entry.2, t.nodupKeys.sublist List.filter_sublist⟩

/-- `SELECT COUNT(*) … WHERE p`. -/
def count (p : ρ → Bool) (t : Keyed κ ρ) : Nat := t.entries.countP fun entry => p entry.2

theorem count_insert (p : ρ → Bool) (r : ρ) (t : Keyed κ ρ) :
    count p (t.insert k r) = count p (t.erase k) + if p r then 1 else 0 := by
  rw [count, AList.entries_insert, List.countP_cons]
  rfl

/-- Erasing a key does not change the count of the rows of which the key has none. -/
theorem count_erase {p : ρ → Bool} {t : Keyed κ ρ} (h : ∀ r, t.lookup k = some r → p r = false) :
    count p (t.erase k) = count p t := by
  have hentries : ∀ entry ∈ t.entries, k = entry.1 → p entry.2 = false := by
    rintro ⟨k', r⟩ hmem rfl
    exact h r (AList.mem_lookup_iff.2 hmem)
  show (t.entries.eraseP fun entry => k = entry.1).countP _ = t.entries.countP _
  generalize t.entries = entries at hentries ⊢
  induction entries with
  | nil => rfl
  | cons entry entries ih =>
    have ih := ih fun entry hmem => hentries entry (List.mem_cons_of_mem _ hmem)
    by_cases heq : k = entry.1
    · simp [heq, hentries entry List.mem_cons_self heq]
    · simp [heq, ih, List.countP_cons]

omit [DecidableEq κ] in
theorem count_retain (p q : ρ → Bool) (t : Keyed κ ρ) :
    count p (retain q t) + count (fun r => p r && !q r) t = count p t := by
  simp only [count, retain]
  induction t.entries with
  | nil => rfl
  | cons entry entries ih =>
    rw [List.filter_cons]
    cases hp : p entry.2 <;> cases hq : q entry.2 <;> simp [hp, hq] <;> omega

/-- The keys of rows that satisfy `p` are at most as many as those rows. -/
theorem card_le_count {p : ρ → Bool} {t : Keyed κ ρ} {keys : Finset κ}
    (h : ∀ k ∈ keys, ∃ r, t.lookup k = some r ∧ p r = true) : keys.card ≤ count p t := by
  have hsubset : keys ⊆ ((t.entries.filter fun entry => p entry.2).map (·.1)).toFinset := by
    intro k hmem
    obtain ⟨r, hlookup, hp⟩ := h k hmem
    refine List.mem_toFinset.2 (List.mem_map.2 ⟨⟨k, r⟩, List.mem_filter.2 ⟨?_, hp⟩, rfl⟩)
    exact AList.mem_lookup_iff.1 hlookup
  calc keys.card ≤ _ := Finset.card_le_card hsubset
    _ ≤ ((t.entries.filter fun entry => p entry.2).map (·.1)).length := List.toFinset_card_le _
    _ = count p t := by rw [List.length_map, ← List.countP_eq_length_filter, count]

/-! ## Updating all rows, deleting a list of keys -/

omit [DecidableEq κ] in
theorem keys_map (f : ρ → ρ) (entries : List (Sigma fun _ : κ => ρ)) :
    (entries.map fun entry => (⟨entry.1, f entry.2⟩ : Sigma fun _ : κ => ρ)).keys =
      entries.keys := by
  simp [List.keys]

/-- `UPDATE … SET f`. -/
def mapRows (f : ρ → ρ) (t : Keyed κ ρ) : Keyed κ ρ where
  entries := t.entries.map fun entry => ⟨entry.1, f entry.2⟩
  nodupKeys := by
    rw [List.NodupKeys, keys_map]
    exact t.nodupKeys

theorem lookup_mapRows (f : ρ → ρ) (t : Keyed κ ρ) :
    (mapRows f t).lookup k = (t.lookup k).map f := by
  show List.dlookup (β := fun _ => ρ) k (t.entries.map _) =
    Option.map f (List.dlookup (β := fun _ => ρ) k t.entries)
  induction t.entries with
  | nil => rfl
  | cons entry entries ih =>
    obtain ⟨k', r⟩ := entry
    rw [List.map_cons]
    by_cases heq : k = k'
    · cases heq
      rw [List.dlookup_cons_eq, List.dlookup_cons_eq]
      rfl
    · rw [List.dlookup_cons_ne entries ⟨k', r⟩ heq]
      exact (List.dlookup_cons_ne _ ⟨k', f r⟩ heq).trans ih

/-- `DELETE … WHERE key IN keys`. -/
def eraseAll (keys : List κ) (t : Keyed κ ρ) : Keyed κ ρ := keys.foldl (fun t k => t.erase k) t

theorem lookup_eraseAll (keys : List κ) (t : Keyed κ ρ) :
    (eraseAll keys t).lookup k = if k ∈ keys then none else t.lookup k := by
  induction keys generalizing t with
  | nil => rfl
  | cons k' keys ih =>
    show (eraseAll keys (t.erase k')).lookup k = _
    rw [ih, lookup_erase]
    by_cases hmem : k ∈ keys <;> by_cases heq : k = k' <;> simp [hmem, heq]

/-- A row goes through the updates of its own key. -/
theorem lookup_foldl_updateKey {α : Type w} (key : α → κ) (f : α → ρ → ρ) (xs : List α)
    (t : Keyed κ ρ) :
    (xs.foldl (fun t x => updateKey (key x) (f x) t) t).lookup k =
      (t.lookup k).map fun r => (xs.filter fun x => key x = k).foldl (fun r x => f x r) r := by
  induction xs generalizing t with
  | nil => exact Option.map_id'.symm
  | cons x xs ih =>
    rw [List.foldl_cons, ih, lookup_updateKey, List.filter_cons]
    by_cases heq : k = key x
    · simp [heq, Function.comp_def]
    · simp [heq, Ne.symm heq]

end

end Mcodex.Table
