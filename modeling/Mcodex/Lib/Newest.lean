import Mathlib.Data.List.Range
import Mathlib.Data.List.Infix

/-!
# The newest values with distinct keys

A log has values at some of the offsets below its total. `newest` lists, from the newest to the
oldest, those from an offset on whose key no newer value has. A scan towards older offsets finds
them one after the other: an offset adds its value when its key is new (`newest_of_new`) and nothing
otherwise (`newest_of_old`, `newest_of_none`).
-/

namespace Mcodex.Newest

universe u v

section
variable {α : Type u} {κ : Type v} (value : Nat → Option α) (total : Nat)

/-- The values from an offset on, the newest first. -/
def values (start : Nat) : List α := (List.range' start (total - start)).reverse.filterMap value

variable [DecidableEq κ] (key : α → κ) (offset : α → Nat)

/-- The values from an offset on whose key no newer value has, the newest first. -/
def newest (start : Nat) : List α :=
  (values value total start).filter fun a => key a ∉ (values value total (offset a + 1)).map key

variable {value total key offset} {start start' : Nat} {a b : α} {k : κ}

theorem mem_values :
    a ∈ values value total start ↔ ∃ o, start ≤ o ∧ o < total ∧ value o = some a := by
  simp only [values, List.mem_filterMap, List.mem_reverse, List.mem_range'_1]
  constructor
  · rintro ⟨o, ⟨hle, hlt⟩, hvalue⟩
    exact ⟨o, hle, by omega, hvalue⟩
  · rintro ⟨o, hle, hlt, hvalue⟩
    exact ⟨o, ⟨hle, by omega⟩, hvalue⟩

theorem values_of_le (h : total ≤ start) : values value total start = [] := by
  rw [values, Nat.sub_eq_zero_of_le h]
  rfl

theorem values_of_lt (h : start < total) :
    values value total start = values value total (start + 1) ++ (value start).toList := by
  obtain ⟨n, hn⟩ := Nat.exists_eq_add_of_lt h
  have hcount : total - start = n + 1 := by omega
  have hcount' : total - (start + 1) = n := by omega
  rw [values, values, hcount, hcount', List.range'_succ, List.reverse_cons, List.filterMap_append]
  cases hvalue : value start with
  | none => rw [List.filterMap_cons_none hvalue]; rfl
  | some a => rw [List.filterMap_cons_some hvalue]; rfl

theorem mem_newest : a ∈ newest value total key offset start ↔
    a ∈ values value total start ∧ key a ∉ (values value total (offset a + 1)).map key := by
  rw [newest, List.mem_filter, decide_eq_true_eq]

theorem newest_of_le (h : total ≤ start) : newest value total key offset start = [] := by
  rw [newest, values_of_le h, List.filter_nil]

/-- Going on to an older offset keeps what is listed. -/
theorem newest_of_lt (h : start < total) :
    newest value total key offset start = newest value total key offset (start + 1) ++
      (value start).toList.filter fun a =>
        key a ∉ (values value total (offset a + 1)).map key := by
  rw [newest, values_of_lt h, List.filter_append]
  rfl

theorem newest_of_none (hvalue : value start = none) :
    newest value total key offset start = newest value total key offset (start + 1) := by
  rcases Nat.lt_or_ge start total with h | h
  · rw [newest_of_lt h, hvalue]
    exact List.append_nil _
  · rw [newest_of_le h, newest_of_le (Nat.le_succ_of_le h)]

section
variable (hoffset : ∀ o a, value o = some a → offset a = o)
include hoffset

theorem newest_of_some (h : start < total) (hvalue : value start = some a) :
    newest value total key offset start = newest value total key offset (start + 1) ++
      if key a ∈ (values value total (start + 1)).map key then [] else [a] := by
  rw [newest_of_lt h, hvalue, Option.toList_some]
  congr 1
  split_ifs with hkey
  · exact List.filter_cons_of_neg (by rw [hoffset start a hvalue]; simpa using hkey)
  · exact List.filter_cons_of_pos (by rw [hoffset start a hvalue]; exact decide_eq_true hkey)

/-- Every key that occurs from an offset on is that of a listed value. -/
theorem mem_map_newest :
    k ∈ (newest value total key offset start).map key ↔ k ∈ (values value total start).map key := by
  induction hn : total - start generalizing start with
  | zero => rw [newest_of_le (by omega), values_of_le (by omega)]
  | succ n ih =>
    have hlt : start < total := by omega
    cases hvalue : value start with
    | none =>
      rw [newest_of_none hvalue, values_of_lt hlt, hvalue, ih (by omega), Option.toList_none,
        List.append_nil]
    | some a =>
      rw [newest_of_some hoffset hlt hvalue, values_of_lt hlt, hvalue, List.map_append,
        List.map_append, List.mem_append, List.mem_append, ih (by omega), Option.toList_some]
      split_ifs with hkey
      · refine ⟨fun hmem => .inl (hmem.resolve_right List.not_mem_nil), fun hmem => .inl ?_⟩
        rcases hmem with hmem | hmem
        · exact hmem
        · rwa [List.mem_singleton.1 hmem]
      · rfl

/-- An offset whose value has a key that is not listed adds the value. -/
theorem newest_of_new (h : start < total) (hvalue : value start = some a)
    (hkey : key a ∉ (newest value total key offset (start + 1)).map key) :
    newest value total key offset start = newest value total key offset (start + 1) ++ [a] := by
  rw [newest_of_some hoffset h hvalue, if_neg fun hmem => hkey ((mem_map_newest hoffset).2 hmem)]

/-- An offset whose value has a listed key adds nothing. -/
theorem newest_of_old (h : start < total) (hvalue : value start = some a)
    (hkey : key a ∈ (newest value total key offset (start + 1)).map key) :
    newest value total key offset start = newest value total key offset (start + 1) := by
  rw [newest_of_some hoffset h hvalue, if_pos ((mem_map_newest hoffset).1 hkey), List.append_nil]

end

/-- What is listed from a newer offset on comes first. -/
theorem newest_isPrefix (h : start ≤ start') :
    newest value total key offset start' <+: newest value total key offset start := by
  induction h with
  | refl => exact List.prefix_rfl
  | @step stop _ ih =>
    rcases Nat.lt_or_ge stop total with hlt | hge
    · refine List.IsPrefix.trans ?_ ih
      rw [newest_of_lt hlt]
      exact List.prefix_append _ _
    · rw [newest_of_le (Nat.le_succ_of_le hge)]
      exact List.nil_prefix

section
variable (hoffset : ∀ o a, value o = some a → offset a = o)
include hoffset

theorem offset_of_mem (h : a ∈ newest value total key offset start) :
    start ≤ offset a ∧ offset a < total ∧ value (offset a) = some a := by
  obtain ⟨o, hle, hlt, hvalue⟩ := mem_values.1 (mem_newest.1 h).1
  rw [hoffset o a hvalue]
  exact ⟨hle, hlt, hvalue⟩

/-- The list goes from newer to older offsets. -/
theorem pairwise_newest :
    (newest value total key offset start).Pairwise fun a b => offset b < offset a := by
  induction hn : total - start generalizing start with
  | zero =>
    rw [newest_of_le (by omega)]
    exact .nil
  | succ n ih =>
    have hrest : (newest value total key offset (start + 1)).Pairwise fun a b =>
        offset b < offset a := ih (by omega)
    cases hvalue : value start with
    | none => rwa [newest_of_none hvalue]
    | some a =>
      rw [newest_of_some hoffset (by omega) hvalue]
      refine List.pairwise_append.2 ⟨hrest, ?_, ?_⟩
      · split_ifs
        · exact .nil
        · exact List.pairwise_singleton _ _
      · intro b hb c hc
        have hbound := (offset_of_mem hoffset hb).1
        split_ifs at hc
        · cases hc
        · rw [List.mem_singleton.1 hc, hoffset start a hvalue]
          omega

/-- No two listed values have one key. -/
theorem pairwise_key_newest :
    (newest value total key offset start).Pairwise fun a b => key a ≠ key b := by
  refine (pairwise_newest hoffset).imp_of_mem fun {a b} ha hb hlt heq => ?_
  obtain ⟨-, hbound, hvalue⟩ := offset_of_mem hoffset ha
  refine (mem_newest.1 hb).2 (List.mem_map.2 ⟨a, mem_values.2 ?_, heq⟩)
  exact ⟨offset a, hlt, hbound, hvalue⟩

/-- Nothing is listed beyond the last value of the list. -/
theorem newest_of_getLast? (h : (newest value total key offset start).getLast? = some a) :
    newest value total key offset (offset a) = newest value total key offset start := by
  induction hn : total - start generalizing start with
  | zero =>
    rw [newest_of_le (by omega)] at h
    cases h
  | succ n ih =>
    have hskip : newest value total key offset start =
          newest value total key offset (start + 1) →
        newest value total key offset (offset a) = newest value total key offset start := by
      intro hsame
      rw [hsame] at h ⊢
      exact ih h (by omega)
    cases hvalue : value start with
    | none => exact hskip (newest_of_none hvalue)
    | some b =>
      by_cases hkey : key b ∈ (newest value total key offset (start + 1)).map key
      · exact hskip (newest_of_old hoffset (by omega) hvalue hkey)
      · rw [newest_of_new hoffset (by omega) hvalue hkey, List.getLast?_concat] at h
        cases h
        rw [hoffset start _ hvalue]

/-- The log has no value newer than the first of the list. -/
theorem eq_none_of_head? {o : Nat}
    (h : (newest value total key offset start).head? = some a) (hlt : offset a < o)
    (hbound : o < total) : value o = none := by
  refine Option.eq_none_iff_forall_ne_some.2 fun b hvalue => ?_
  have hmem : key b ∈ (newest value total key offset o).map key := by
    rw [mem_map_newest hoffset]
    exact List.mem_map_of_mem (mem_values.2 ⟨o, Nat.le_refl o, hbound, hvalue⟩)
  obtain ⟨c, hc, -⟩ := List.mem_map.1 hmem
  have hstart : start ≤ o := by
    have hle := (offset_of_mem hoffset (List.mem_of_mem_head? h)).1
    omega
  have hpre : newest value total key offset o <+: newest value total key offset start :=
    newest_isPrefix hstart
  obtain ⟨rest, hrest⟩ := hpre
  cases hnewer : newest value total key offset o with
  | nil =>
    rw [hnewer] at hc
    cases hc
  | cons d ds =>
    rw [← hrest, hnewer] at h
    cases h
    have hle := (offset_of_mem hoffset (hnewer ▸ List.mem_cons_self)).1
    omega

end

end

end Mcodex.Newest
