import Mathlib.Data.List.Nodup

/-!
# Trees of tables, arrays and scalars

The values of configuration languages: a table gives each of its keys a tree, an array its items in
order, and scalars are the leaves. A path is a list of steps, each a key or an index. In a tree
whose tables give a key once, the leaves that are listed are the leaves that paths lead to, and the
texts of the steps of a leaf's path determine the path.
-/

namespace Mcodex

universe u v w

/-! ## Tables as lists of entries -/

namespace Entries

variable {κ : Type u} {β : Type v} {γ : Type w} [DecidableEq κ] {table : List (κ × β)} {k : κ}
  {value : β}

/-- `Map::get`. -/
def lookup (k : κ) : List (κ × β) → Option β
  | [] => none
  | (k', value) :: table => if k = k' then some value else lookup k table

/-- Write what `f` makes of the value at `k`. -/
def upsert (k : κ) (f : Option β → β) : List (κ × β) → List (κ × β)
  | [] => [(k, f none)]
  | (k', value) :: table =>
    if k' = k then (k, f (some value)) :: table else (k', value) :: upsert k f table

/-- `Map::remove`, less the value it returns. -/
def remove (k : κ) (table : List (κ × β)) : List (κ × β) := table.filter (·.1 ≠ k)

theorem lookup_cons (k : κ) (entry : κ × β) (table : List (κ × β)) :
    lookup k (entry :: table) = if k = entry.1 then some entry.2 else lookup k table :=
  rfl

theorem lookup_upsert (k' k : κ) (f : Option β → β) (table : List (κ × β)) :
    lookup k' (upsert k f table) =
      if k' = k then some (f (lookup k table)) else lookup k' table := by
  induction table with
  | nil =>
    rw [upsert, lookup_cons]
    rfl
  | cons entry table ih =>
    obtain ⟨key, value⟩ := entry
    rw [upsert]
    by_cases hkey : key = k
    · subst hkey
      rw [if_pos rfl, lookup_cons, lookup_cons, lookup_cons, if_pos rfl]
      split <;> rfl
    · rw [if_neg hkey, lookup_cons, lookup_cons, lookup_cons, ih, if_neg (Ne.symm hkey)]
      by_cases hk : k' = key
      · rw [if_pos hk, if_pos hk, if_neg (hk ▸ hkey)]
      · rw [if_neg hk, if_neg hk]

theorem mem_upsert {f : Option β → β} {entry : κ × β} (h : entry ∈ upsert k f table) :
    entry ∈ table ∨ entry = (k, f (lookup k table)) := by
  induction table with
  | nil => exact .inr (List.mem_singleton.1 h)
  | cons head table ih =>
    obtain ⟨key, value⟩ := head
    rw [upsert] at h
    rw [lookup_cons]
    split at h
    · rename_i hkey
      rcases List.mem_cons.1 h with rfl | h
      · rw [if_pos hkey.symm]
        exact .inr rfl
      · exact .inl (List.mem_cons_of_mem _ h)
    · rename_i hkey
      rw [if_neg (Ne.symm hkey)]
      rcases List.mem_cons.1 h with rfl | h
      · exact .inl List.mem_cons_self
      · exact (ih h).imp_left (List.mem_cons_of_mem _)

theorem nodup_upsert {f : Option β → β} (h : (table.map (·.1)).Nodup) :
    ((upsert k f table).map (·.1)).Nodup := by
  induction table with
  | nil => exact List.nodup_singleton k
  | cons head table ih =>
    obtain ⟨key, value⟩ := head
    obtain ⟨hhead, htable⟩ := List.nodup_cons.1 h
    rw [upsert]
    split
    · rename_i hkey
      exact List.nodup_cons.2 ⟨hkey ▸ hhead, htable⟩
    · rename_i hkey
      refine List.nodup_cons.2 ⟨fun hmem => ?_, ih htable⟩
      obtain ⟨entry, hentry, heq⟩ := List.mem_map.1 hmem
      rcases mem_upsert hentry with hentry | rfl
      · exact hhead (List.mem_map.2 ⟨entry, hentry, heq⟩)
      · exact hkey heq.symm

theorem nodup_remove (h : (table.map (·.1)).Nodup) : ((remove k table).map (·.1)).Nodup :=
  (List.filter_sublist.map _).nodup h

theorem lookup_remove (k' k : κ) (table : List (κ × β)) :
    lookup k' (remove k table) = if k' = k then none else lookup k' table := by
  induction table with
  | nil => simp [remove, lookup]
  | cons entry table ih =>
    rw [remove] at ih ⊢
    by_cases hkey : entry.1 = k
    · rw [List.filter_cons_of_neg (by simp [hkey]), ih, lookup_cons, hkey]
      split <;> rfl
    · rw [List.filter_cons_of_pos (by simp [hkey]), lookup_cons, lookup_cons, ih]
      by_cases hk : k' = entry.1
      · rw [if_pos hk, if_pos hk, if_neg (hk ▸ hkey)]
      · rw [if_neg hk, if_neg hk]

theorem lookup_map (f : κ → β → γ) (k : κ) (table : List (κ × β)) :
    lookup k (table.map fun entry => (entry.1, f entry.1 entry.2)) = (lookup k table).map (f k) := by
  induction table with
  | nil => rfl
  | cons entry table ih =>
    rw [List.map_cons, lookup_cons, lookup_cons, ih]
    by_cases hk : k = entry.1 <;> simp [hk]

theorem lookup_eq_some_iff (h : (table.map (·.1)).Nodup) :
    lookup k table = some value ↔ (k, value) ∈ table := by
  induction table with
  | nil => simp [lookup]
  | cons entry table ih =>
    obtain ⟨hentry, htable⟩ := List.nodup_cons.1 h
    rw [lookup_cons, List.mem_cons]
    by_cases hk : k = entry.1
    · rw [if_pos hk]
      refine ⟨fun hvalue => .inl (by rw [hk, ← Option.some.inj hvalue]), ?_⟩
      rintro (heq | hmem)
      · rw [← heq]
      · have hkey : k ∈ table.map (·.1) := List.mem_map_of_mem hmem
        rw [hk] at hkey
        exact absurd hkey hentry
    · rw [if_neg hk, ih htable]
      refine ⟨.inr, ?_⟩
      rintro (heq | hmem)
      · exact absurd (congrArg Prod.fst heq) hk
      · exact hmem

theorem mem_of_lookup_eq_some (h : lookup k table = some value) : (k, value) ∈ table := by
  induction table with
  | nil => cases h
  | cons entry table ih =>
    rw [lookup_cons] at h
    split at h
    · rename_i hk
      rw [hk, ← Option.some.inj h]
      exact List.mem_cons_self
    · exact List.mem_cons_of_mem _ (ih h)

/-- Each entry of a table with unique keys is written once. -/
theorem lookup_foldl_upsert (f : κ × γ → Option β → β) {overlay : List (κ × γ)}
    (h : (overlay.map (·.1)).Nodup) (k : κ) (table : List (κ × β)) :
    lookup k (overlay.foldl (fun table entry => upsert entry.1 (f entry) table) table) =
      (lookup k overlay).elim (lookup k table) fun value =>
        some (f (k, value) (lookup k table)) := by
  induction overlay generalizing table with
  | nil => rfl
  | cons entry overlay ih =>
    obtain ⟨hentry, hoverlay⟩ := List.nodup_cons.1 h
    rw [List.foldl_cons, ih hoverlay, lookup_cons, lookup_upsert]
    by_cases hk : k = entry.1
    · have hnone : lookup k overlay = none := by
        cases hvalue : lookup k overlay with
        | none => rfl
        | some value =>
          have hkey : k ∈ overlay.map (·.1) := List.mem_map_of_mem (mem_of_lookup_eq_some hvalue)
          rw [hk] at hkey
          exact absurd hkey hentry
      rw [hnone, if_pos hk, if_pos hk, hk]
      rfl
    · rw [if_neg hk, if_neg hk]

end Entries

/-! ## Trees -/

/-- A value of a configuration language. -/
inductive Tree (κ : Type u) (σ : Type v) : Type (max u v)
  | scalar (value : σ)
  | array (items : List (Tree κ σ))
  | table (entries : List (κ × Tree κ σ))

namespace Tree

/-- A step of a path. -/
inductive Step (κ : Type u)
  | key (k : κ)
  | index (i : Nat)
  deriving DecidableEq

variable {κ : Type u} {σ : Type v}

theorem sizeOf_item_lt [SizeOf κ] [SizeOf σ] {item : Tree κ σ} {items : List (Tree κ σ)} (h : item ∈ items) :
    sizeOf item < sizeOf (Tree.array items) := by
  have hitem := List.sizeOf_lt_of_mem h
  rw [array.sizeOf_spec]
  omega

theorem sizeOf_entry_lt [SizeOf κ] [SizeOf σ] {k : κ} {child : Tree κ σ}
    {entries : List (κ × Tree κ σ)} (h : (k, child) ∈ entries) :
    sizeOf child < sizeOf (Tree.table entries) := by
  have hentry := List.sizeOf_lt_of_mem h
  rw [Prod.mk.sizeOf_spec] at hentry
  rw [table.sizeOf_spec]
  omega

/-- Induction on a tree, with the hypothesis for its items or its entries. -/
@[elab_as_elim]
theorem induct {motive : Tree κ σ → Prop} (scalar : ∀ value, motive (.scalar value))
    (array : ∀ items, (∀ item ∈ items, motive item) → motive (.array items))
    (table : ∀ entries, (∀ entry ∈ entries, motive entry.2) → motive (.table entries)) :
    ∀ tree, motive tree
  | .scalar value => scalar value
  | .array items => array items fun item _ => induct scalar array table item
  | .table entries => table entries fun entry _ => induct scalar array table entry.2
termination_by tree => sizeOf tree
decreasing_by
  · exact sizeOf_item_lt ‹_›
  · exact sizeOf_entry_lt ‹_›

/-- Each table gives a key once, and its keys satisfy `p`. -/
inductive WellKeyed (p : κ → Prop) : Tree κ σ → Prop
  | scalar (value : σ) : WellKeyed p (.scalar value)
  | array {items : List (Tree κ σ)} (h : ∀ item ∈ items, WellKeyed p item) :
    WellKeyed p (.array items)
  | table {entries : List (κ × Tree κ σ)} (hkeys : (entries.map (·.1)).Nodup)
    (hp : ∀ entry ∈ entries, p entry.1) (h : ∀ entry ∈ entries, WellKeyed p entry.2) :
    WellKeyed p (.table entries)

theorem WellKeyed.of_array {p : κ → Prop} {items : List (Tree κ σ)}
    (h : WellKeyed p (.array items)) : ∀ item ∈ items, item.WellKeyed p := by
  cases h
  assumption

theorem WellKeyed.of_table {p : κ → Prop} {entries : List (κ × Tree κ σ)}
    (h : WellKeyed p (.table entries)) : (entries.map (·.1)).Nodup ∧
      (∀ entry ∈ entries, p entry.1) ∧ ∀ entry ∈ entries, entry.2.WellKeyed p := by
  cases h
  exact ⟨‹_›, ‹_›, ‹_›⟩

section
variable [DecidableEq κ]

/-- The tree that a path leads to. -/
def get? : Tree κ σ → List (Step κ) → Option (Tree κ σ)
  | tree, [] => some tree
  | .table entries, .key k :: path => (Entries.lookup k entries).bind (get? · path)
  | .array items, .index i :: path => items[i]?.bind (get? · path)
  | _, _ :: _ => none

/-- The scalar that a path leads to. -/
def leafAt : Tree κ σ → List (Step κ) → Option σ
  | .scalar value, [] => some value
  | .table entries, .key k :: path => (Entries.lookup k entries).bind (leafAt · path)
  | .array items, .index i :: path => items[i]?.bind (leafAt · path)
  | _, _ => none

end

/-! ## The leaves of a tree -/

mutual

/-- The paths to the scalars of a tree, in order. -/
def leafPaths : Tree κ σ → List (List (Step κ))
  | .scalar _ => [[]]
  | .array items => itemPaths 0 items
  | .table entries => entryPaths entries

/-- The paths to the scalars of items that are numbered from `i` on. -/
def itemPaths (i : Nat) : List (Tree κ σ) → List (List (Step κ))
  | [] => []
  | item :: items => (leafPaths item).map (.index i :: ·) ++ itemPaths (i + 1) items

/-- The paths to the scalars of the entries of a table. -/
def entryPaths : List (κ × Tree κ σ) → List (List (Step κ))
  | [] => []
  | (k, child) :: entries => (leafPaths child).map (.key k :: ·) ++ entryPaths entries

end

theorem mem_itemPaths {path : List (Step κ)} {i : Nat} {items : List (Tree κ σ)} :
    path ∈ itemPaths i items ↔ ∃ j item rest, items[j]? = some item ∧
      path = .index (i + j) :: rest ∧ rest ∈ leafPaths item := by
  induction items generalizing i with
  | nil => simp [itemPaths]
  | cons item items ih =>
    rw [itemPaths, List.mem_append, ih, List.mem_map]
    constructor
    · rintro (⟨rest, hrest, rfl⟩ | ⟨j, item', rest, hitem, rfl, hrest⟩)
      · exact ⟨0, item, rest, rfl, rfl, hrest⟩
      · exact ⟨j + 1, item', rest, hitem, by rw [Nat.add_assoc, Nat.add_comm 1], hrest⟩
    · rintro ⟨j, item', rest, hitem, rfl, hrest⟩
      cases j with
      | zero =>
        cases hitem
        exact .inl ⟨rest, hrest, rfl⟩
      | succ j => exact .inr ⟨j, item', rest, hitem, by rw [Nat.add_assoc, Nat.add_comm 1], hrest⟩

theorem mem_entryPaths {path : List (Step κ)} {entries : List (κ × Tree κ σ)} :
    path ∈ entryPaths entries ↔ ∃ entry ∈ entries, ∃ rest,
      path = .key entry.1 :: rest ∧ rest ∈ leafPaths entry.2 := by
  induction entries with
  | nil => simp [entryPaths]
  | cons entry entries ih =>
    obtain ⟨k, child⟩ := entry
    rw [entryPaths, List.mem_append, ih, List.mem_map, List.exists_mem_cons_iff]
    refine or_congr (exists_congr fun rest => ?_) Iff.rfl
    rw [and_comm, eq_comm]

variable [DecidableEq κ] {p : κ → Prop} {tree : Tree κ σ} {path path' : List (Step κ)}

/-- The listed paths are those that lead to a scalar. -/
theorem mem_leafPaths (h : tree.WellKeyed p) :
    path ∈ tree.leafPaths ↔ (tree.leafAt path).isSome := by
  induction tree using induct generalizing path with
  | scalar value => cases path <;> simp [leafPaths, leafAt]
  | array items ih =>
    have h := h.of_array
    rw [leafPaths, mem_itemPaths]
    constructor
    · rintro ⟨j, item, rest, hitem, rfl, hrest⟩
      have hmem := List.mem_of_getElem? hitem
      rw [Nat.zero_add, leafAt, hitem]
      exact (ih item hmem (h item hmem)).1 hrest
    · intro hpath
      cases path with
      | nil => cases hpath
      | cons step rest =>
        cases step with
        | key k => cases hpath
        | index i =>
          rw [leafAt] at hpath
          cases hitem : items[i]? with
          | none =>
            rw [hitem] at hpath
            cases hpath
          | some item =>
            have hmem := List.mem_of_getElem? hitem
            rw [hitem] at hpath
            exact ⟨i, item, rest, hitem, by rw [Nat.zero_add], (ih item hmem (h item hmem)).2 hpath⟩
  | table entries ih =>
    obtain ⟨hkeys, -, h⟩ := h.of_table
    rw [leafPaths, mem_entryPaths]
    constructor
    · rintro ⟨entry, hentry, rest, rfl, hrest⟩
      rw [leafAt, (Entries.lookup_eq_some_iff hkeys).2 hentry]
      exact (ih entry hentry (h entry hentry)).1 hrest
    · intro hpath
      cases path with
      | nil => cases hpath
      | cons step rest =>
        cases step with
        | index i => cases hpath
        | key k =>
          rw [leafAt] at hpath
          cases hchild : Entries.lookup k entries with
          | none =>
            rw [hchild] at hpath
            cases hpath
          | some child =>
            have hentry := Entries.mem_of_lookup_eq_some hchild
            rw [hchild] at hpath
            exact ⟨(k, child), hentry, rest, rfl, (ih _ hentry (h _ hentry)).2 hpath⟩

/-! ## The texts of a path -/

/-- A step as a text: a key, or what stands for an index. -/
def Step.text (ofIndex : Nat → κ) : Step κ → κ
  | .key k => k
  | .index i => ofIndex i

/-- A tree has no two leaves whose paths read the same. -/
theorem leafAt_text_inj {ofIndex : Nat → κ} (hindex : ofIndex.Injective)
    (h : (tree.leafAt path).isSome) (h' : (tree.leafAt path').isSome)
    (htext : path.map (Step.text ofIndex) = path'.map (Step.text ofIndex)) : path = path' := by
  induction path generalizing tree path' with
  | nil => exact (List.map_eq_nil_iff.1 htext.symm).symm
  | cons step path ih =>
    cases path' with
    | nil => cases htext
    | cons step' path' =>
      obtain ⟨hstep, hrest⟩ := List.cons.inj htext
      cases tree with
      | scalar value => cases step <;> cases h
      | array items =>
        cases step with
        | key k => cases h
        | index i =>
          cases step' with
          | key k => cases h'
          | index j =>
            obtain rfl := hindex hstep
            rw [leafAt] at h h'
            cases hitem : items[i]? with
            | none =>
              rw [hitem] at h
              cases h
            | some item =>
              rw [hitem] at h h'
              rw [ih h h' hrest]
      | table entries =>
        cases step with
        | index i => cases h
        | key k =>
          cases step' with
          | index j => cases h'
          | key k' =>
            obtain rfl : k = k' := hstep
            rw [leafAt] at h h'
            cases hchild : Entries.lookup k entries with
            | none =>
              rw [hchild] at h
              cases h
            | some child =>
              rw [hchild] at h h'
              rw [ih h h' hrest]

end Tree

end Mcodex
