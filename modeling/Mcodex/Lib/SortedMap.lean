import Mathlib.Data.List.Nodup
import Mathlib.Order.Lattice

/-!
# Maps ordered by their keys

A `SortedMap` is the list of its entries in ascending order of the keys, as `BTreeMap` iterates over
them. It is known by its entries (`get?_eq_some_iff`), and an operation by the entries it leaves
(`mem_insert`, `mem_remove`).
-/

namespace Mcodex

universe u v

/-- Entries in ascending order of their keys. -/
structure SortedMap (κ : Type u) (ρ : Type v) [LinearOrder κ] where
  entries : List (κ × ρ)
  sorted : entries.Pairwise fun e e' => e.1 < e'.1

namespace SortedMap

variable {κ : Type u} {ρ : Type v} [LinearOrder κ] {key key' : κ} {value : ρ} {entry : κ × ρ}

def empty : SortedMap κ ρ := ⟨[], .nil⟩

/-- Where the key belongs, in the place of an entry that has it. -/
def insertEntry (key : κ) (value : ρ) : List (κ × ρ) → List (κ × ρ)
  | [] => [(key, value)]
  | entry :: entries =>
    if key < entry.1 then (key, value) :: entry :: entries
    else if key = entry.1 then (key, value) :: entries
    else entry :: insertEntry key value entries

theorem mem_insertEntry {entries : List (κ × ρ)}
    (h : entries.Pairwise fun e e' => e.1 < e'.1) :
    entry ∈ insertEntry key value entries ↔
      entry = (key, value) ∨ entry ∈ entries ∧ entry.1 ≠ key := by
  induction entries with
  | nil => simp [insertEntry]
  | cons first entries ih =>
    obtain ⟨hfirst, hrest⟩ := List.pairwise_cons.1 h
    unfold insertEntry
    split_ifs with hlt heq
    · have hne : ∀ e ∈ first :: entries, e.1 ≠ key := by
        intro e he
        rcases List.mem_cons.1 he with rfl | he
        · exact hlt.ne'
        · exact (hlt.trans (hfirst e he)).ne'
      rw [List.mem_cons]
      exact or_congr_right ⟨fun he => ⟨he, hne _ he⟩, And.left⟩
    · have hne : ∀ e ∈ entries, e.1 ≠ key := fun e he => heq ▸ (hfirst e he).ne'
      rw [List.mem_cons, List.mem_cons]
      refine or_congr_right ⟨fun he => ⟨.inr he, hne _ he⟩, ?_⟩
      rintro ⟨rfl | he, hkey⟩
      · exact absurd heq.symm hkey
      · exact he
    · rw [List.mem_cons, List.mem_cons, ih hrest]
      constructor
      · rintro (rfl | rfl | ⟨he, hkey⟩)
        · exact .inr ⟨.inl rfl, fun hkey => heq hkey.symm⟩
        · exact .inl rfl
        · exact .inr ⟨.inr he, hkey⟩
      · rintro (rfl | ⟨rfl | he, hkey⟩)
        · exact .inr (.inl rfl)
        · exact .inl rfl
        · exact .inr (.inr ⟨he, hkey⟩)

theorem sorted_insertEntry {entries : List (κ × ρ)}
    (h : entries.Pairwise fun e e' => e.1 < e'.1) :
    (insertEntry key value entries).Pairwise fun e e' => e.1 < e'.1 := by
  induction entries with
  | nil => exact List.pairwise_singleton _ _
  | cons first entries ih =>
    obtain ⟨hfirst, hrest⟩ := List.pairwise_cons.1 h
    unfold insertEntry
    split_ifs with hlt heq
    · refine List.pairwise_cons.2 ⟨fun e he => ?_, h⟩
      rcases List.mem_cons.1 he with rfl | he
      · exact hlt
      · exact hlt.trans (hfirst e he)
    · exact List.pairwise_cons.2 ⟨fun e he => heq ▸ hfirst e he, hrest⟩
    · refine List.pairwise_cons.2 ⟨fun e he => ?_, ih hrest⟩
      rcases (mem_insertEntry hrest).1 he with rfl | ⟨he, -⟩
      · exact lt_of_le_of_ne (not_lt.1 hlt) (Ne.symm heq)
      · exact hfirst e he

variable (map : SortedMap κ ρ)

/-- `BTreeMap::insert`. -/
def insert (key : κ) (value : ρ) : SortedMap κ ρ :=
  ⟨insertEntry key value map.entries, sorted_insertEntry map.sorted⟩

/-- `BTreeMap::remove`. -/
def remove (key : κ) : SortedMap κ ρ :=
  ⟨map.entries.filter (·.1 ≠ key), map.sorted.filter _⟩

/-- `BTreeMap::get`. -/
def get? (key : κ) : Option ρ := (map.entries.find? (·.1 = key)).map (·.2)

/-- `BTreeMap::keys`. -/
def keys : List κ := map.entries.map (·.1)

variable {map}

theorem mem_insert :
    entry ∈ (map.insert key value).entries ↔
      entry = (key, value) ∨ entry ∈ map.entries ∧ entry.1 ≠ key :=
  mem_insertEntry map.sorted

theorem mem_remove : entry ∈ (map.remove key).entries ↔ entry ∈ map.entries ∧ entry.1 ≠ key := by
  simp [remove, List.mem_filter]

theorem nodup_keys : map.keys.Nodup :=
  List.pairwise_map.2 (map.sorted.imp fun h => h.ne)

/-- A key has one entry. -/
theorem eq_of_mem {entry' : κ × ρ} (h : entry ∈ map.entries) (h' : entry' ∈ map.entries)
    (hkey : entry.1 = entry'.1) : entry = entry' :=
  List.inj_on_of_nodup_map map.nodup_keys h h' hkey

theorem get?_eq_some_iff : map.get? key = some value ↔ (key, value) ∈ map.entries := by
  rw [get?, Option.map_eq_some_iff]
  constructor
  · rintro ⟨entry, hfind, rfl⟩
    have hkey : entry.1 = key := by simpa using List.find?_some hfind
    rw [← hkey]
    exact List.mem_of_find?_eq_some hfind
  · intro hmem
    obtain ⟨entry, hfind⟩ : ∃ entry, map.entries.find? (·.1 = key) = some entry :=
      Option.isSome_iff_exists.1 (List.find?_isSome.2 ⟨_, hmem, by simp⟩)
    have hkey : entry.1 = key := by simpa using List.find?_some hfind
    refine ⟨entry, hfind, ?_⟩
    rw [eq_of_mem (List.mem_of_find?_eq_some hfind) hmem hkey]

theorem remove_of_get?_eq_none (h : map.get? key = none) : map.remove key = map := by
  have hfilter : map.entries.filter (·.1 ≠ key) = map.entries := by
    refine List.filter_eq_self.2 fun entry hentry => decide_eq_true fun hkey => ?_
    have hsome := get?_eq_some_iff.2 (show (entry.1, entry.2) ∈ map.entries from hentry)
    rw [hkey, h] at hsome
    cases hsome
  cases map
  simpa [remove] using hfilter

end SortedMap

end Mcodex
