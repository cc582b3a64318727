import Mcodex.Config.Layers
import Mcodex.Lib.Segment

/-!
# The origins of the effective config

A leaf of the effective config comes from the last layer that has it, and each layer above leaves
it alone. The origins know of the last layer that has a leaf, and not of the layers above that take
it away: an array or a scalar replaces what is below as a whole. So the origins are those of the
effective config just when each leaf that no layer above sets again is left alone by all of them.
-/

namespace Mcodex.Config

open Table Tree Segment

variable {Scalar : Type} {p : Key → Prop} {path : List Key} {value : TomlValue Scalar}

/-! ## Normalised values -/

theorem normalizedItems_eq_map (path : List Key) (items : List (TomlValue Scalar)) :
    normalizedItems path items = items.map (normalizedWithKeyAliases path) := by
  induction items with
  | nil => rfl
  | cons item items ih => rw [normalizedItems, ih, List.map_cons]

theorem normalizedEntries_eq_map (path : List Key) (table : TomlTable Scalar) :
    normalizedEntries path table =
      table.map fun entry => (entry.1, normalizedWithKeyAliases (path ++ [entry.1]) entry.2) := by
  induction table with
  | nil => rfl
  | cons entry table ih => rw [normalizedEntries, ih, List.map_cons]

theorem normalizeKeyAliases_eq_self {table : TomlTable Scalar} (h : 2 ≤ path.length) :
    normalizeKeyAliases path table = table := by
  refine if_neg ?_
  rintro rfl
  exact absurd h (by decide)

/-- Below the tables with an alias nothing changes. -/
theorem normalized_eq_self (h : 2 ≤ path.length) : normalizedWithKeyAliases path value = value := by
  induction value using Tree.induct generalizing path with
  | scalar value => rfl
  | array items ih =>
    rw [normalizedWithKeyAliases, normalizedItems_eq_map]
    exact congrArg Tree.array ((List.map_congr_left fun item hitem => ih item hitem h).trans
      (List.map_id items))
  | table table ih =>
    rw [normalizedWithKeyAliases, normalizeKeyAliases_eq_self h, normalizedEntries_eq_map]
    refine congrArg Tree.table ((List.map_congr_left fun entry hentry => ?_).trans
      (List.map_id table))
    have hlength : 2 ≤ (path ++ [entry.1]).length := by
      rw [List.length_append]
      omega
    rw [ih entry hentry hlength]
    rfl

/-- A child of a normalised table is a normalised child. -/
theorem lookup_normalized (path : List Key) (table : TomlTable Scalar) (key : Key) :
    Entries.lookup key (normalizeKeyAliases path (normalizedEntries path table)) =
      (Entries.lookup key (normalizeKeyAliases path table)).map
        (normalizedWithKeyAliases (path ++ [key])) := by
  have hchild (key : Key) : Entries.lookup key (normalizedEntries path table) =
      (Entries.lookup key table).map (normalizedWithKeyAliases (path ++ [key])) := by
    rw [normalizedEntries_eq_map]
    exact Entries.lookup_map (fun key => normalizedWithKeyAliases (path ++ [key])) key table
  rw [lookup_normalizeKeyAliases, lookup_normalizeKeyAliases, hchild, hchild, hchild]
  split
  · rename_i hpath
    have hid (key : Key) :
        (normalizedWithKeyAliases (path ++ [key]) : TomlValue Scalar → TomlValue Scalar) = id := by
      funext value
      refine normalized_eq_self ?_
      rw [hpath, List.length_append]
      exact Nat.le_refl 2
    rw [hid, hid, hid, Option.map_id, id, id, id]
    split
    · rfl
    · split <;> simp
  · rfl

theorem nodup_normalizeKeyAliases {table : TomlTable Scalar} (h : (table.map (·.1)).Nodup) :
    ((normalizeKeyAliases path table).map (·.1)).Nodup := by
  rw [normalizeKeyAliases_eq]
  split
  · split
    · exact Entries.nodup_upsert (Entries.nodup_remove h)
    · exact h
  · exact h

theorem wellKeyed_normalizeKeyAliases {table : TomlTable Scalar}
    (hcanonical : p memoriesAlias.canonicalKey) (h : WellKeyed p (.table table)) :
    WellKeyed p (.table (normalizeKeyAliases path table)) := by
  obtain ⟨hkeys, hp, hchildren⟩ := h.of_table
  refine .table (nodup_normalizeKeyAliases hkeys) (fun entry hentry => ?_) fun entry hentry => ?_
  · rw [normalizeKeyAliases_eq] at hentry
    split at hentry
    · split at hentry
      · rcases Entries.mem_upsert hentry with hentry | rfl
        · exact hp entry (List.mem_filter.1 hentry).1
        · exact hcanonical
      · exact hp entry hentry
    · exact hp entry hentry
  · obtain ⟨key, hmem⟩ := mem_normalizeKeyAliases hentry
    exact hchildren (key, entry.2) hmem

theorem wellKeyed_normalized (hcanonical : p memoriesAlias.canonicalKey) (h : value.WellKeyed p) :
    (normalizedWithKeyAliases path value).WellKeyed p := by
  induction value using Tree.induct generalizing path with
  | scalar value => exact .scalar value
  | array items ih =>
    have h := h.of_array
    rw [normalizedWithKeyAliases, normalizedItems_eq_map]
    refine .array fun item' hitem' => ?_
    obtain ⟨item, hitem, rfl⟩ := List.mem_map.1 hitem'
    exact ih item hitem (h item hitem)
  | table table ih =>
    obtain ⟨hkeys, hp, h⟩ := h.of_table
    rw [normalizedWithKeyAliases, normalizedEntries_eq_map]
    refine wellKeyed_normalizeKeyAliases hcanonical (.table ?_ ?_ ?_)
    · rw [List.map_map]
      exact hkeys
    · intro entry' hentry'
      obtain ⟨entry, hentry, rfl⟩ := List.mem_map.1 hentry'
      exact hp entry hentry
    · intro entry' hentry'
      obtain ⟨entry, hentry, rfl⟩ := List.mem_map.1 hentry'
      exact ih entry hentry (h entry hentry)

/-! ## Merged values -/

theorem mergeTomlValuesAtPath_table (path : List Key) (base overlay : TomlTable Scalar) :
    mergeTomlValuesAtPath path (.table base) (.table overlay) =
      .table ((normalizeKeyAliases path overlay).foldl (fun table entry =>
        Entries.upsert entry.1 (fun existing =>
          existing.elim (normalizedWithKeyAliases (path ++ [entry.1]) entry.2)
            fun existing => mergeTomlValuesAtPath (path ++ [entry.1]) existing entry.2) table)
        (normalizeKeyAliases path base)) := by
  rw [mergeTomlValuesAtPath]
  exact congrArg Tree.table (List.foldl_attach (f := fun table (entry : Key × TomlValue Scalar) =>
    Entries.upsert entry.1 (fun existing =>
      existing.elim (normalizedWithKeyAliases (path ++ [entry.1]) entry.2)
        fun existing => mergeTomlValuesAtPath (path ++ [entry.1]) existing entry.2) table))

theorem mergeTomlValuesAtPath_other {base overlay : TomlValue Scalar}
    (h : ∀ baseTable overlayTable, base = .table baseTable → overlay ≠ .table overlayTable) :
    mergeTomlValuesAtPath path base overlay = normalizedWithKeyAliases path overlay := by
  rw [mergeTomlValuesAtPath]
  exact h

/-- A value that is no table, or comes over none, replaces what is there; tables are merged child by
child. -/
theorem mergeTomlValuesAtPath_cases {overlay : TomlValue Scalar} (h : overlay.WellKeyed p)
    (path : List Key) (base : TomlValue Scalar) :
    ((∀ baseTable overlayTable, base = .table baseTable → overlay ≠ .table overlayTable) ∧
      mergeTomlValuesAtPath path base overlay = normalizedWithKeyAliases path overlay) ∨
    ∃ baseTable overlayTable table, base = .table baseTable ∧ overlay = .table overlayTable ∧
      mergeTomlValuesAtPath path base overlay = .table table ∧
      ∀ key, Entries.lookup key table =
        (Entries.lookup key (normalizeKeyAliases path overlayTable)).elim
          (Entries.lookup key (normalizeKeyAliases path baseTable)) fun value =>
            some ((Entries.lookup key (normalizeKeyAliases path baseTable)).elim
              (normalizedWithKeyAliases (path ++ [key]) value)
              fun existing => mergeTomlValuesAtPath (path ++ [key]) existing value) := by
  by_cases htables : ∃ baseTable overlayTable, base = .table baseTable ∧
      overlay = .table overlayTable
  · obtain ⟨baseTable, overlayTable, rfl, rfl⟩ := htables
    exact .inr ⟨baseTable, overlayTable, _, rfl, rfl,
      mergeTomlValuesAtPath_table path baseTable overlayTable, fun key =>
        Entries.lookup_foldl_upsert _ (nodup_normalizeKeyAliases h.of_table.1) key _⟩
  · have hother (baseTable overlayTable : TomlTable Scalar) (hbase : base = .table baseTable) :
        overlay ≠ .table overlayTable :=
      fun hoverlay => htables ⟨baseTable, overlayTable, hbase, hoverlay⟩
    exact .inl ⟨hother, mergeTomlValuesAtPath_other hother⟩

/-- The children that an overlay puts over a table are well keyed. -/
theorem wellKeyed_child {table : TomlTable Scalar} {key : Key} {child : TomlValue Scalar}
    (h : WellKeyed p (.table table))
    (hchild : Entries.lookup key (normalizeKeyAliases path table) = some child) :
    child.WellKeyed p := by
  obtain ⟨key', hmem⟩ := mem_normalizeKeyAliases (Entries.mem_of_lookup_eq_some hchild)
  exact h.of_table.2.2 (key', child) hmem

/-! ## Values without legacy keys -/

/-- No table below has a key that the aliases at its path replace. -/
def Settled (path : List Key) (value : TomlValue Scalar) : Prop :=
  ∀ rest table, path ++ rest = memoriesAlias.tablePath →
    value.get? (rest.map .key) = some (.table table) →
      Entries.lookup memoriesAlias.legacyKey table = none

theorem Settled.child {table : TomlTable Scalar} {key : Key} {child : TomlValue Scalar}
    (h : Settled path (.table table)) (hchild : Entries.lookup key table = some child) :
    Settled (path ++ [key]) child := by
  intro rest below hpath hbelow
  refine h (key :: rest) below (by simpa using hpath) ?_
  rw [List.map_cons, get?, hchild]
  exact hbelow

theorem Settled.lookup_normalizeKeyAliases {table : TomlTable Scalar}
    (h : Settled path (.table table)) (key : Key) :
    Entries.lookup key (normalizeKeyAliases path table) = Entries.lookup key table := by
  rw [Config.lookup_normalizeKeyAliases]
  split
  · rename_i hpath
    have hlegacy := h [] table (by simpa using hpath) rfl
    split
    · rename_i hkey
      rw [hkey, hlegacy]
    · split
      · rename_i hkey
        rw [hkey, hlegacy]
        cases Entries.lookup memoriesAlias.canonicalKey table <;> rfl
      · rfl
  · rfl

theorem lookup_legacyKey {table : TomlTable Scalar} (h : path = memoriesAlias.tablePath) :
    Entries.lookup memoriesAlias.legacyKey (normalizeKeyAliases path table) = none := by
  rw [lookup_normalizeKeyAliases, if_pos h, if_pos rfl]

theorem settled_normalized (path : List Key) (value : TomlValue Scalar) :
    Settled path (normalizedWithKeyAliases path value) := by
  intro rest
  induction rest generalizing path value with
  | nil =>
    intro table hpath htable
    rw [List.append_nil] at hpath
    cases value with
    | scalar value => cases htable
    | array items => cases htable
    | table entries =>
      cases htable
      exact lookup_legacyKey hpath
  | cons key rest ih =>
    intro table hpath htable
    cases value with
    | scalar value => cases htable
    | array items => cases htable
    | table entries =>
      rw [List.map_cons, normalizedWithKeyAliases, get?, lookup_normalized] at htable
      cases hchild : Entries.lookup key (normalizeKeyAliases path entries) with
      | none =>
        rw [hchild] at htable
        cases htable
      | some child =>
        rw [hchild] at htable
        exact ih (path ++ [key]) child table (by simpa using hpath) htable

theorem Settled.merge {base overlay : TomlValue Scalar} (hbase : Settled path base)
    (hoverlay : overlay.WellKeyed p) : Settled path (mergeTomlValuesAtPath path base overlay) := by
  intro rest
  induction rest generalizing path base overlay with
  | nil =>
    intro table hpath htable
    rcases mergeTomlValuesAtPath_cases hoverlay path base with
      ⟨-, hmerge⟩ | ⟨baseTable, overlayTable, merged, rfl, rfl, hmerge, hlookup⟩
    · rw [hmerge] at htable
      exact settled_normalized path overlay [] table hpath htable
    · rw [List.append_nil] at hpath
      rw [hmerge] at htable
      cases htable
      rw [hlookup, lookup_legacyKey hpath, lookup_legacyKey hpath]
      rfl
  | cons key rest ih =>
    intro table hpath htable
    rcases mergeTomlValuesAtPath_cases hoverlay path base with
      ⟨-, hmerge⟩ | ⟨baseTable, overlayTable, merged, rfl, rfl, hmerge, hlookup⟩
    · rw [hmerge] at htable
      exact settled_normalized path overlay (key :: rest) table hpath htable
    · have hpath' : (path ++ [key]) ++ rest = memoriesAlias.tablePath := by simpa using hpath
      rw [hmerge, List.map_cons, get?, hlookup, hbase.lookup_normalizeKeyAliases] at htable
      cases hvalue : Entries.lookup key (normalizeKeyAliases path overlayTable) with
      | none =>
        cases hexisting : Entries.lookup key baseTable with
        | none =>
          rw [hvalue, hexisting] at htable
          cases htable
        | some existing =>
          rw [hvalue, hexisting] at htable
          exact hbase.child hexisting rest table hpath' htable
      | some value =>
        cases hexisting : Entries.lookup key baseTable with
        | none =>
          rw [hvalue, hexisting] at htable
          exact settled_normalized (path ++ [key]) value rest table hpath' htable
        | some existing =>
          rw [hvalue, hexisting] at htable
          exact ih (hbase.child hexisting) (wellKeyed_child hoverlay hvalue) table hpath' htable

/-! ## The leaves of merged values -/

/-- Whether a value that is laid over another leaves the leaf at the path alone. -/
def leavesAlone : TomlValue Scalar → List (Step Key) → Bool
  | .table entries, .key key :: leaf =>
    (Entries.lookup key entries).elim true (leavesAlone · leaf)
  | _, _ => false

@[simp] theorem leavesAlone_nil (value : TomlValue Scalar) : leavesAlone value [] = false := by
  cases value <;> rfl

/-- A value has no leaf whose path reads as one that it leaves alone. -/
theorem leafAt_of_leavesAlone (ofIndex : Nat → Key) {leaf leaf' : List (Step Key)}
    (h : leavesAlone value leaf)
    (htext : leaf'.map (Step.text ofIndex) = leaf.map (Step.text ofIndex)) :
    value.leafAt leaf' = none := by
  induction leaf generalizing value leaf' with
  | nil => simp at h
  | cons step leaf ih =>
    cases leaf' with
    | nil => cases htext
    | cons step' leaf' =>
      obtain ⟨hstep, hrest⟩ := List.cons.inj htext
      cases value with
      | scalar value => cases h
      | array items => cases h
      | table entries =>
        cases step with
        | index i => cases h
        | key key =>
          cases step' with
          | index j => rfl
          | key key' =>
            obtain rfl : key' = key := hstep
            rw [leavesAlone] at h
            rw [leafAt]
            cases hchild : Entries.lookup key' entries with
            | none => rfl
            | some child =>
              rw [hchild] at h
              exact ih h hrest

/-- What comes over no table leaves no leaf alone. -/
theorem leafAt_of_other {base overlay : TomlValue Scalar}
    (hother : ∀ baseTable overlayTable, base = .table baseTable → overlay ≠ .table overlayTable)
    {leaf : List (Step Key)} (h : leavesAlone (normalizedWithKeyAliases path overlay) leaf) :
    base.leafAt leaf = none := by
  cases overlay with
  | scalar value => simp [normalizedWithKeyAliases, leavesAlone] at h
  | array items => simp [normalizedWithKeyAliases, leavesAlone] at h
  | table overlayTable =>
    cases base with
    | table baseTable => exact absurd rfl (hother baseTable overlayTable rfl)
    | scalar value =>
      cases leaf with
      | nil => simp at h
      | cons step leaf => cases step <;> rfl
    | array items =>
      cases leaf with
      | nil => simp at h
      | cons step leaf =>
        cases step with
        | key key => rfl
        | index i => cases h

/-- A leaf of merged values is the overlay's, or one of the base that the overlay leaves alone. -/
theorem leafAt_merge {base overlay : TomlValue Scalar} (hbase : Settled path base)
    (hoverlay : overlay.WellKeyed p) (leaf : List (Step Key)) :
    (mergeTomlValuesAtPath path base overlay).leafAt leaf =
      if leavesAlone (normalizedWithKeyAliases path overlay) leaf then base.leafAt leaf
      else (normalizedWithKeyAliases path overlay).leafAt leaf := by
  induction leaf generalizing path base overlay with
  | nil =>
    rw [leavesAlone_nil]
    rcases mergeTomlValuesAtPath_cases hoverlay path base with
      ⟨-, hmerge⟩ | ⟨baseTable, overlayTable, merged, rfl, rfl, hmerge, -⟩
    · rw [hmerge]
      rfl
    · rw [hmerge]
      rfl
  | cons step leaf ih =>
    rcases mergeTomlValuesAtPath_cases hoverlay path base with
      ⟨hother, hmerge⟩ | ⟨baseTable, overlayTable, merged, rfl, rfl, hmerge, hlookup⟩
    · rw [hmerge]
      split
      · rename_i halone
        rw [leafAt_of_other hother halone]
        exact leafAt_of_leavesAlone (fun _ => []) halone rfl
      · rfl
    · rw [hmerge, normalizedWithKeyAliases]
      cases step with
      | index i => rfl
      | key key =>
        rw [leafAt, leavesAlone, leafAt, leafAt, hlookup, lookup_normalized,
          hbase.lookup_normalizeKeyAliases]
        cases hvalue : Entries.lookup key (normalizeKeyAliases path overlayTable) with
        | none => rfl
        | some value =>
          cases hexisting : Entries.lookup key baseTable with
          | none =>
            show (normalizedWithKeyAliases (path ++ [key]) value).leafAt leaf =
              if leavesAlone (normalizedWithKeyAliases (path ++ [key]) value) leaf then none
              else (normalizedWithKeyAliases (path ++ [key]) value).leafAt leaf
            split
            · rename_i halone
              exact leafAt_of_leavesAlone (fun _ => []) halone rfl
            · rfl
          | some existing => exact ih (hbase.child hexisting) (wellKeyed_child hoverlay hvalue)

/-! ## The recorded origins -/

/-- The keys and indices of a path, as the origins have them. -/
def pathText (leaf : List (Step Key)) : List Key := leaf.map (Step.text (Nat.toDigits 10))

/-- The key is the dotted path of one of the leaves below `path`. -/
def Names (path : List Key) (leaves : List (List (Step Key))) (key : Key) : Prop :=
  ∃ leaf ∈ leaves, path ++ pathText leaf ≠ [] ∧ dotted (path ++ pathText leaf) = key

instance (path : List Key) (leaves : List (List (Step Key))) (key : Key) :
    Decidable (Names path leaves key) :=
  inferInstanceAs (Decidable (∃ leaf ∈ leaves, _))

variable {leaves leaves' : List (List (Step Key))} {key : Key} {metadata : ConfigLayerMetadata}

theorem names_append : Names path (leaves ++ leaves') key ↔
    Names path leaves key ∨ Names path leaves' key := by
  simp only [Names, List.mem_append, or_and_right, exists_or]

theorem names_map (step : Step Key) : Names path (leaves.map (step :: ·)) key ↔
    Names (path ++ [step.text (Nat.toDigits 10)]) leaves key := by
  simp only [Names, List.mem_map, exists_exists_and_eq_and, pathText, List.map_cons,
    List.append_assoc, List.singleton_append]

/-- Recording one value after another. -/
theorem ite_names_append {origins : Option ConfigLayerMetadata} :
    (if Names path leaves' key then some metadata
      else if Names path leaves key then some metadata else origins) =
      if Names path (leaves ++ leaves') key then some metadata else origins := by
  by_cases hleaves : Names path leaves key
  · by_cases hleaves' : Names path leaves' key <;> simp [names_append, hleaves, hleaves']
  · by_cases hleaves' : Names path leaves' key <;> simp [names_append, hleaves, hleaves']

theorem lookup_recordOrigins (value : TomlValue Scalar) (path : List Key)
    (origins : Keyed Key ConfigLayerMetadata) :
    (recordOrigins metadata path value origins).lookup key =
      if Names path value.leafPaths key then some metadata else origins.lookup key := by
  induction value using Tree.induct generalizing path origins with
  | scalar value =>
    rw [recordOrigins]
    by_cases hpath : path = []
    · simp [hpath, leafPaths, Names, pathText]
    · have hnames : Names path (leafPaths (.scalar value)) key ↔ dotted path = key := by
        simp [hpath, leafPaths, Names, pathText]
      rw [if_neg (by simpa using hpath), lookup_insert]
      simp only [hnames, eq_comm]
  | array items ih =>
    rw [recordOrigins, leafPaths]
    generalize 0 = idx
    induction items generalizing idx origins with
    | nil => simp [recordItems, itemPaths, Names]
    | cons item items ihitems =>
      obtain ⟨hitem, hitems⟩ := List.forall_mem_cons.1 ih
      rw [recordItems, itemPaths, ihitems hitems, hitem, ← ite_names_append]
      simp only [names_map]
      rfl
  | table entries ih =>
    rw [recordOrigins, leafPaths]
    induction entries generalizing origins with
    | nil => simp [recordEntries, entryPaths, Names]
    | cons entry entries ihentries =>
      obtain ⟨k, child⟩ := entry
      obtain ⟨hentry, hentries⟩ := List.forall_mem_cons.1 ih
      rw [recordEntries, entryPaths, ihentries hentries, hentry, ← ite_names_append]
      simp only [names_map]
      rfl

/-! ## Keys without dots -/

/-- No key of the value has a dot, and each table gives a key once. -/
def DotFree (value : TomlValue Scalar) : Prop := value.WellKeyed fun key => '.' ∉ key

theorem dotted_inj {path path' : List Key} (hpath : ∀ key ∈ path, '.' ∉ key)
    (hpath' : ∀ key ∈ path', '.' ∉ key) (hne : path ≠ []) (hne' : path' ≠ [])
    (h : dotted path = dotted path') : path = path' := by
  rw [← List.splitOn_intercalate '.' hpath hne, ← List.splitOn_intercalate '.' hpath' hne']
  exact congrArg (List.splitOn '.') h

theorem toDigits_injective : (Nat.toDigits 10).Injective := fun i j h => by
  rw [← Nat.ofDigitChars_ten_toDigits (n := i), h, Nat.ofDigitChars_ten_toDigits]

theorem not_mem_pathText {leaf : List (Step Key)} (h : DotFree value)
    (hleaf : (value.leafAt leaf).isSome) : ∀ key ∈ pathText leaf, '.' ∉ key := by
  induction leaf generalizing value with
  | nil => simp [pathText]
  | cons step leaf ih =>
    rw [pathText, List.map_cons, List.forall_mem_cons]
    cases value with
    | scalar value => cases step <;> cases hleaf
    | array items =>
      cases step with
      | key key => cases hleaf
      | index i =>
        rw [leafAt] at hleaf
        cases hitem : items[i]? with
        | none =>
          rw [hitem] at hleaf
          cases hleaf
        | some item =>
          rw [hitem] at hleaf
          refine ⟨fun hdot => ?_, ih (h.of_array item (List.mem_of_getElem? hitem)) hleaf⟩
          exact absurd (Nat.isDigit_of_mem_toDigits (by omega) (by omega) hdot) (by decide)
    | table entries =>
      cases step with
      | index i => cases hleaf
      | key key =>
        rw [leafAt] at hleaf
        cases hchild : Entries.lookup key entries with
        | none =>
          rw [hchild] at hleaf
          cases hleaf
        | some child =>
          rw [hchild] at hleaf
          have hentry := Entries.mem_of_lookup_eq_some hchild
          obtain ⟨-, hkeys, hchildren⟩ := h.of_table
          exact ⟨hkeys _ hentry, ih (hchildren _ hentry) hleaf⟩

theorem pathText_ne_nil {leaf : List (Step Key)} (h : leaf ≠ []) : pathText leaf ≠ [] := by
  simpa [pathText] using h

/-- A value that has a leaf at the path names its dotted path, and any leaf it is named by is
that leaf in text. -/
theorem names_iff {leaf : List (Step Key)} (h : DotFree value)
    (hleaf : ∀ key ∈ pathText leaf, '.' ∉ key) (hne : leaf ≠ []) :
    Names [] value.leafPaths (dotted (pathText leaf)) ↔
      ∃ leaf', (value.leafAt leaf').isSome ∧ pathText leaf' = pathText leaf := by
  constructor
  · rintro ⟨leaf', hleaf', hne', htext⟩
    have hleaf' := (mem_leafPaths h).1 hleaf'
    exact ⟨leaf', hleaf', dotted_inj (not_mem_pathText h hleaf') hleaf hne' (pathText_ne_nil hne)
      htext⟩
  · rintro ⟨leaf', hleaf', htext⟩
    refine ⟨leaf', (mem_leafPaths h).2 hleaf', ?_, ?_⟩
    · show pathText leaf' ≠ []
      rw [htext]
      exact pathText_ne_nil hne
    · show dotted (pathText leaf') = _
      rw [htext]

/-! ## The origins of a stack -/

namespace ConfigLayerStack

variable {stack : ConfigLayerStack Scalar} {leaf : List (Step Key)}

/-- The origins are those of the effective config: their keys are the dotted paths of its leaves,
and each comes with the highest layer that has the value there. -/
structure OriginsMatch (stack : ConfigLayerStack Scalar) : Prop where
  keys : ∀ key, key ∈ stack.origins ↔ ∃ leaf : List (Step Key), leaf ≠ [] ∧
    (stack.effectiveConfig.leafAt leaf).isSome ∧ dotted (pathText leaf) = key
  layers : ∀ leaf : List (Step Key), leaf ≠ [] →
    ∀ value, stack.effectiveConfig.leafAt leaf = some value →
      ∃ below layer above, stack.enabledLayers = below ++ layer :: above ∧
        layer.normalizedConfig.leafAt leaf = some value ∧
        (∀ layer' ∈ above, layer'.normalizedConfig.leafAt leaf ≠ some value) ∧
        stack.origins.lookup (dotted (pathText leaf)) = some layer.metadata

/-- A leaf of a layer that no layer above sets again is left alone by all of them: none of them has
an array or a scalar at its path or above, or a table where the layer has an array. -/
def LeavesKept (stack : ConfigLayerStack Scalar) : Prop :=
  ∀ below layer above (leaf : List (Step Key)), stack.enabledLayers = below ++ layer :: above →
    leaf ≠ [] → (layer.normalizedConfig.leafAt leaf).isSome →
    (∀ layer' ∈ above, ∀ leaf', pathText leaf' = pathText leaf →
      layer'.normalizedConfig.leafAt leaf' = none) →
    ∀ layer' ∈ above, leavesAlone layer'.normalizedConfig leaf

theorem dotFree_normalizedConfig {layer : ConfigLayerEntry Scalar} (h : DotFree layer.config) :
    DotFree layer.normalizedConfig :=
  wellKeyed_normalized (by decide) h

theorem lookup_origins (key : Key) {metadata : ConfigLayerMetadata} :
    stack.origins.lookup key = some metadata ↔
      LastWrite
        (fun layer : ConfigLayerEntry Scalar => ¬ Names [] layer.normalizedConfig.leafPaths key)
        (fun layer => some layer.metadata) stack.enabledLayers metadata := by
  refine (read_foldl (AList.lookup key) (P := fun _ => True) (Q := fun _ => True) (fun _ _ _ _ => trivial)
    (fun origins layer _ _ => ?_) trivial (AList.lookup_empty key) (fun _ _ => trivial)).2
  rw [lookup_recordOrigins]
  by_cases hnames : Names [] layer.normalizedConfig.leafPaths key <;> simp [hnames]

section
variable (h : ∀ layer ∈ stack.layers, DotFree layer.config)
include h

theorem dotFree_enabledLayers : ∀ layer ∈ stack.enabledLayers, DotFree layer.config :=
  fun layer hlayer => h layer (List.mem_filter.1 hlayer).1

/-- A leaf of the effective config is one of the last layer that does not leave it alone. -/
theorem leafAt_effectiveConfig (leaf : List (Step Key)) {value : Scalar} :
    stack.effectiveConfig.leafAt leaf = some value ↔
      LastWrite (fun layer : ConfigLayerEntry Scalar => leavesAlone layer.normalizedConfig leaf)
        (fun layer => layer.normalizedConfig.leafAt leaf) stack.enabledLayers value := by
  have hempty : (Tree.table [] : TomlValue Scalar).leafAt leaf = none := by
    cases leaf with
    | nil => rfl
    | cons step leaf => cases step <;> rfl
  have hsettled : Settled [] (Tree.table [] : TomlValue Scalar) := by
    intro rest table hrest htable
    cases rest with
    | nil => cases hrest
    | cons key rest => cases htable
  exact (read_foldl (leafAt · leaf) (P := Settled [])
    (Q := fun layer : ConfigLayerEntry Scalar => DotFree layer.config) (fun merged layer hmerged hlayer => hmerged.merge hlayer)
    (fun merged layer hmerged hlayer => leafAt_merge hmerged hlayer leaf) hsettled hempty
    (dotFree_enabledLayers h)).2

/-- A leaf of the effective config has its origin. -/
theorem origin_of_leaf {value : Scalar} (hleaf : leaf ≠ [])
    (hvalue : stack.effectiveConfig.leafAt leaf = some value) :
    ∃ below layer above, stack.enabledLayers = below ++ layer :: above ∧
      layer.normalizedConfig.leafAt leaf = some value ∧
      (∀ layer' ∈ above, layer'.normalizedConfig.leafAt leaf ≠ some value) ∧
      stack.origins.lookup (dotted (pathText leaf)) = some layer.metadata := by
  obtain ⟨below, layer, above, hlayers, -, hlayer, habove⟩ :=
    (leafAt_effectiveConfig h leaf).1 hvalue
  have hfree : ∀ layer ∈ stack.enabledLayers, DotFree layer.normalizedConfig :=
    fun layer hlayer => dotFree_normalizedConfig (dotFree_enabledLayers h layer hlayer)
  rw [hlayers] at hfree
  have htext := not_mem_pathText (hfree layer (by simp)) (Option.isSome_iff_exists.2 ⟨value, hlayer⟩)
  refine ⟨below, layer, above, hlayers, hlayer, fun layer' hlayer' hvalue' => ?_, ?_⟩
  · have hnone := leafAt_of_leavesAlone (Nat.toDigits 10) (habove layer' hlayer') rfl
    rw [hvalue'] at hnone
    cases hnone
  · refine (lookup_origins _).2 ⟨below, layer, above, hlayers, ?_, rfl, fun layer' hlayer' => ?_⟩
    · rw [decide_eq_false_iff_not, not_not, names_iff (hfree layer (by simp)) htext hleaf]
      exact ⟨leaf, Option.isSome_iff_exists.2 ⟨value, hlayer⟩, rfl⟩
    · rw [decide_eq_true_iff, names_iff (hfree layer' (by simp [hlayer'])) htext hleaf]
      rintro ⟨leaf', hleaf', heq⟩
      rw [leafAt_of_leavesAlone (Nat.toDigits 10) (habove layer' hlayer') heq] at hleaf'
      cases hleaf'

/-- The origins are those of the effective config just when no leaf is taken away without being set
again. -/
theorem originsMatch_iff : stack.OriginsMatch ↔ stack.LeavesKept := by
  have hfree : ∀ layer ∈ stack.enabledLayers, DotFree layer.normalizedConfig :=
    fun layer hlayer => dotFree_normalizedConfig (dotFree_enabledLayers h layer hlayer)
  constructor
  · intro hmatch below layer above leaf hlayers hne hleaf hunset
    have hlayer : layer ∈ stack.enabledLayers := by simp [hlayers]
    have htext := not_mem_pathText (hfree layer hlayer) hleaf
    have hnames (layer' : ConfigLayerEntry Scalar) (hlayer' : layer' ∈ stack.enabledLayers) :=
      names_iff (hfree layer' hlayer') htext hne
    -- the origins have the leaf
    have horigin : dotted (pathText leaf) ∈ stack.origins := by
      refine AList.lookup_isSome.1 (Option.isSome_iff_exists.2 ⟨layer.metadata, ?_⟩)
      refine (lookup_origins _).2 ⟨below, layer, above, hlayers, ?_, rfl, fun layer' hlayer' => ?_⟩
      · rw [decide_eq_false_iff_not, not_not, hnames layer hlayer]
        exact ⟨leaf, hleaf, rfl⟩
      · rw [decide_eq_true_iff, hnames layer' (by simp [hlayers, hlayer'])]
        rintro ⟨leaf', hleaf', heq⟩
        rw [hunset layer' hlayer' leaf' heq] at hleaf'
        cases hleaf'
    -- so the effective config has it, from some layer
    obtain ⟨leaf', hne', hvalue', hdotted⟩ := (hmatch.keys _).1 horigin
    obtain ⟨value, hvalue'⟩ := Option.isSome_iff_exists.1 hvalue'
    obtain ⟨below', layer', above', hlayers', -, hleaf', habove'⟩ :=
      (leafAt_effectiveConfig h leaf').1 hvalue'
    have hlayer' : layer' ∈ stack.enabledLayers := by simp [hlayers']
    have hsome' : (layer'.normalizedConfig.leafAt leaf').isSome :=
      Option.isSome_iff_exists.2 ⟨value, hleaf'⟩
    have heq : pathText leaf' = pathText leaf :=
      dotted_inj (not_mem_pathText (hfree layer' hlayer') hsome') htext
        (pathText_ne_nil hne') (pathText_ne_nil hne) hdotted
    rcases split_cases (hlayers.symm.trans hlayers') with ⟨rfl, rfl⟩ | hmem | hmem
    · obtain rfl := leafAt_text_inj toDigits_injective hsome' hleaf heq
      exact habove'
    · rw [hunset layer' hmem leaf' heq] at hsome'
      cases hsome'
    · rw [leafAt_of_leavesAlone (Nat.toDigits 10) (habove' layer hmem) heq.symm] at hleaf
      cases hleaf
  · intro hkept
    refine ⟨fun key => ⟨fun hkey => ?_, ?_⟩, fun leaf hleaf value hvalue =>
      origin_of_leaf h hleaf hvalue⟩
    · obtain ⟨metadata, hmetadata⟩ := Option.isSome_iff_exists.1 (AList.lookup_isSome.2 hkey)
      obtain ⟨below, layer, above, hlayers, hnames, -, habove⟩ := (lookup_origins key).1 hmetadata
      obtain ⟨leaf, hmem, hne, hdotted⟩ := not_not.1 (decide_eq_false_iff_not.1 hnames)
      have hlayer := hfree layer (by simp [hlayers])
      have hleaf := (mem_leafPaths hlayer).1 hmem
      have htext := not_mem_pathText hlayer hleaf
      have hne : leaf ≠ [] := by
        rintro rfl
        exact hne rfl
      have halone := hkept below layer above leaf hlayers hne hleaf fun layer' hlayer' leaf' heq => by
        have hunnamed := of_decide_eq_true (habove layer' hlayer')
        rw [← hdotted] at hunnamed
        by_contra hleaf'
        refine hunnamed ((names_iff (hfree layer' (by simp [hlayers, hlayer'])) htext hne).2
          ⟨leaf', Option.isSome_iff_ne_none.2 hleaf', heq⟩)
      obtain ⟨value, hvalue⟩ := Option.isSome_iff_exists.1 hleaf
      refine ⟨leaf, hne, Option.isSome_iff_exists.2 ⟨value, ?_⟩, hdotted⟩
      refine (leafAt_effectiveConfig h leaf).2 ⟨below, layer, above, hlayers, ?_, hvalue, halone⟩
      rw [← Bool.not_eq_true]
      intro hself
      rw [leafAt_of_leavesAlone (Nat.toDigits 10) hself rfl] at hvalue
      cases hvalue
    · rintro ⟨leaf, hne, hleaf, rfl⟩
      obtain ⟨value, hvalue⟩ := Option.isSome_iff_exists.1 hleaf
      obtain ⟨-, layer, -, -, -, -, horigin⟩ := origin_of_leaf h hne hvalue
      exact AList.lookup_isSome.1 (horigin ▸ rfl)

end

/-- A system layer below a user layer. -/
def systemThenUser (system user : TomlValue String) : ConfigLayerStack String where
  layers := [⟨.system ["etc", "config.toml"], system, "1", none⟩,
    ⟨.user ["home", "config.toml"], user, "2", none⟩]
  userLayerIndex := some 1
  ordered := by simp [verifyLayerOrdering, verifyLayers, ConfigLayerSource.precedence]

/-- The system layer has `a = ["x", "y"]`, and the user layer replaces it with `a = ["x"]`: the
origins still have `a.1`. -/
theorem origins_keep_replaced : ¬ ∀ stack : ConfigLayerStack String,
    (∀ layer ∈ stack.layers, DotFree layer.config) → stack.OriginsMatch := by
  intro h
  let arrayOf (items : List String) : TomlValue String := .table [(['a'], .array (items.map .scalar))]
  let stack := systemThenUser (arrayOf ["x", "y"]) (arrayOf ["x"])
  have hfree (items : List String) : DotFree (arrayOf items) := by
    refine .table (by simp) (by simp) ?_
    simp only [List.mem_singleton, forall_eq]
    refine .array fun item hitem => ?_
    obtain ⟨value, -, rfl⟩ := List.mem_map.1 hitem
    exact .scalar value
  have hmatch : stack.OriginsMatch := by
    refine h stack fun layer hlayer => ?_
    rcases List.mem_cons.1 hlayer with rfl | hlayer
    · exact hfree _
    · rw [List.mem_singleton.1 hlayer]
      exact hfree _
  have horigin : ['a', '.', '1'] ∈ stack.origins := by decide
  have hsystem : mergeTomlValues (.table []) (arrayOf ["x", "y"]) = arrayOf ["x", "y"] := by
    rw [mergeTomlValues, mergeTomlValuesAtPath_table]
    rfl
  have heffective : stack.effectiveConfig = arrayOf ["x"] := by
    show mergeTomlValues (mergeTomlValues (.table []) (arrayOf ["x", "y"])) (arrayOf ["x"]) = _
    rw [hsystem, mergeTomlValues, mergeTomlValuesAtPath_table]
    show Tree.table [(['a'], mergeTomlValuesAtPath [['a']] (.array [.scalar "x", .scalar "y"])
      (.array [.scalar "x"]))] = _
    rw [mergeTomlValuesAtPath_other (by simp)]
    rfl
  obtain ⟨leaf, hne, hleaf, htext⟩ := (hmatch.keys _).1 horigin
  rw [heffective, ← mem_leafPaths (hfree _)] at hleaf
  rw [List.mem_singleton.1 hleaf] at htext
  exact absurd htext (by decide)

/-- The user layer sets again what the system layer has. -/
theorem originsMatch_set_again :
    (systemThenUser (.table [(['a'], .scalar "x")]) (.table [(['a'], .scalar "y")])).OriginsMatch := by
  have hfree (value : String) : DotFree (.table [(['a'], .scalar value)]) :=
    .table (by simp) (by simp) (by simp [WellKeyed.scalar])
  refine (originsMatch_iff fun layer hlayer => ?_).2 ?_
  · rcases List.mem_cons.1 hlayer with rfl | hlayer
    · exact hfree _
    · rw [List.mem_singleton.1 hlayer]
      exact hfree _
  · intro below layer above leaf hlayers hne hleaf hunset layer' hlayer'
    rcases below with - | ⟨first, - | ⟨second, below⟩⟩
    · obtain ⟨rfl, rfl⟩ := List.cons.inj hlayers
      rw [← mem_leafPaths (dotFree_normalizedConfig (hfree "x"))] at hleaf
      obtain rfl := List.mem_singleton.1 hleaf
      exact absurd (hunset _ List.mem_cons_self [.key ['a']] rfl) (by decide)
    · obtain ⟨-, rfl⟩ := List.cons.inj (List.cons.inj hlayers).2
      cases hlayer'
    · have hlength : 2 = (first :: second :: below ++ layer :: above).length :=
        congrArg List.length hlayers
      simp at hlength

end ConfigLayerStack

end Mcodex.Config
