import Mcodex.Lib.Table
import Mcodex.Lib.Tree

/-!
# Config layers

A stack of layers, lowest precedence first. The effective config is the fold of the layers with a
recursive merge: tables are merged key by key, anything else is replaced as a whole. The origins
come from a scan of their own, which notes for each scalar of each layer the layer that has it, the
last one winning. Both read a layer through the key aliases. The order of a table's entries is not
part of the model.
-/

namespace Mcodex.Config

open Table (Keyed)

variable {Scalar : Type}

/-- A key of a table, as its characters. -/
abbrev Key := List Char

/-- `toml::Value`. -/
abbrev TomlValue (Scalar : Type) := Tree Key Scalar

/-- `toml::map::Map`. -/
abbrev TomlTable (Scalar : Type) := List (Key × TomlValue Scalar)

/-! ## Key aliases -/

structure ConfigKeyAlias where
  tablePath : List Key
  legacyKey : Key
  canonicalKey : Key

def memoriesAlias : ConfigKeyAlias where
  tablePath := ["memories".toList]
  legacyKey := "no_memories_if_mcp_or_web_search".toList
  canonicalKey := "disable_on_external_context".toList

/-- `CONFIG_KEY_ALIASES`. -/
def configKeyAliases : List ConfigKeyAlias := [memoriesAlias]

def normalizeKeyAliases (path : List Key) (table : TomlTable Scalar) : TomlTable Scalar :=
  configKeyAliases.foldl (fun table keyAlias =>
    if path = keyAlias.tablePath then
      match Entries.lookup keyAlias.legacyKey table with
      | some value =>
        -- `entry(canonical_key).or_insert(value)`: a canonical key that is there wins
        Entries.upsert keyAlias.canonicalKey (·.getD value)
          (Entries.remove keyAlias.legacyKey table)
      | none => table
    else table) table

mutual

def normalizedWithKeyAliases (path : List Key) : TomlValue Scalar → TomlValue Scalar
  | .scalar value => .scalar value
  | .array items => .array (normalizedItems path items)
  | .table table => .table (normalizeKeyAliases path (normalizedEntries path table))

/-- The items of an array are read at the path of the array. -/
def normalizedItems (path : List Key) : List (TomlValue Scalar) → List (TomlValue Scalar)
  | [] => []
  | item :: items => normalizedWithKeyAliases path item :: normalizedItems path items

def normalizedEntries (path : List Key) : TomlTable Scalar → TomlTable Scalar
  | [] => []
  | (key, child) :: table =>
    (key, normalizedWithKeyAliases (path ++ [key]) child) :: normalizedEntries path table

end

theorem canonicalKey_ne : memoriesAlias.canonicalKey ≠ memoriesAlias.legacyKey := by decide

theorem normalizeKeyAliases_eq (path : List Key) (table : TomlTable Scalar) :
    normalizeKeyAliases path table =
      if path = memoriesAlias.tablePath then
        match Entries.lookup memoriesAlias.legacyKey table with
        | some value => Entries.upsert memoriesAlias.canonicalKey (·.getD value)
            (Entries.remove memoriesAlias.legacyKey table)
        | none => table
      else table :=
  rfl

theorem lookup_normalizeKeyAliases (path : List Key) (table : TomlTable Scalar) (key : Key) :
    Entries.lookup key (normalizeKeyAliases path table) =
      if path = memoriesAlias.tablePath then
        if key = memoriesAlias.legacyKey then none
        else if key = memoriesAlias.canonicalKey then
          Entries.lookup memoriesAlias.canonicalKey table <|> Entries.lookup memoriesAlias.legacyKey table
        else Entries.lookup key table
      else Entries.lookup key table := by
  rw [normalizeKeyAliases_eq]
  split
  · cases hlegacy : Entries.lookup memoriesAlias.legacyKey table with
    | none =>
      dsimp only
      split
      · rename_i hkey
        rw [hkey, hlegacy]
      · split
        · rename_i hkey
          rw [hkey]
          cases Entries.lookup memoriesAlias.canonicalKey table <;> rfl
        · rfl
    | some value =>
      dsimp only
      rw [Entries.lookup_upsert, Entries.lookup_remove, Entries.lookup_remove]
      by_cases hkey : key = memoriesAlias.canonicalKey
      · rw [if_pos hkey, if_neg canonicalKey_ne, if_neg (hkey ▸ canonicalKey_ne), if_pos hkey]
        cases Entries.lookup memoriesAlias.canonicalKey table <;> rfl
      · rw [if_neg hkey, if_neg hkey]
  · rfl

theorem mem_normalizeKeyAliases {path : List Key} {table : TomlTable Scalar}
    {entry : Key × TomlValue Scalar} (h : entry ∈ normalizeKeyAliases path table) :
    ∃ key, (key, entry.2) ∈ table := by
  rw [normalizeKeyAliases_eq] at h
  split at h
  · split at h
    · rename_i value hvalue
      rcases Entries.mem_upsert h with h | rfl
      · exact ⟨entry.1, (List.mem_filter.1 h).1⟩
      · rw [Entries.lookup_remove, if_neg canonicalKey_ne]
        cases hcanonical : Entries.lookup memoriesAlias.canonicalKey table with
        | none => exact ⟨_, Entries.mem_of_lookup_eq_some hvalue⟩
        | some value => exact ⟨_, Entries.mem_of_lookup_eq_some hcanonical⟩
    · exact ⟨entry.1, h⟩
  · exact ⟨entry.1, h⟩

/-! ## Merging -/

def mergeTomlValuesAtPath (path : List Key) (base overlay : TomlValue Scalar) :
    TomlValue Scalar :=
  match base, overlay with
  | .table baseTable, .table overlayTable =>
    .table ((normalizeKeyAliases path overlayTable).attach.foldl (fun table entry =>
      Entries.upsert entry.1.1 (fun existing =>
        existing.elim (normalizedWithKeyAliases (path ++ [entry.1.1]) entry.1.2)
          fun existing => mergeTomlValuesAtPath (path ++ [entry.1.1]) existing entry.1.2) table)
      (normalizeKeyAliases path baseTable))
  | _, overlay => normalizedWithKeyAliases path overlay
termination_by sizeOf overlay
decreasing_by
  obtain ⟨key, hmem⟩ := mem_normalizeKeyAliases entry.2
  exact Tree.sizeOf_entry_lt hmem

/-- Merge `overlay` into `base`, giving `overlay` precedence. -/
def mergeTomlValues (base overlay : TomlValue Scalar) : TomlValue Scalar :=
  mergeTomlValuesAtPath [] base overlay

/-! ## Layers -/

/-- An absolute path, as its components. -/
abbrev AbsolutePathBuf := List String

inductive ConfigLayerSource
  | mdm (domain key : String)
  | system (file : AbsolutePathBuf)
  | user (file : AbsolutePathBuf)
  | project (dotCodexFolder : AbsolutePathBuf)
  | sessionFlags
  | legacyManagedConfigTomlFromFile (file : AbsolutePathBuf)
  | legacyManagedConfigTomlFromMdm
  deriving DecidableEq

def ConfigLayerSource.precedence : ConfigLayerSource → Nat
  | .mdm .. => 0
  | .system _ => 10
  | .user _ => 20
  | .project _ => 25
  | .sessionFlags => 30
  | .legacyManagedConfigTomlFromFile _ => 40
  | .legacyManagedConfigTomlFromMdm => 50

structure ConfigLayerMetadata where
  name : ConfigLayerSource
  version : String
  deriving DecidableEq

structure ConfigLayerEntry (Scalar : Type) where
  name : ConfigLayerSource
  config : TomlValue Scalar
  version : String
  disabledReason : Option String

namespace ConfigLayerEntry

def isDisabled (layer : ConfigLayerEntry Scalar) : Bool := layer.disabledReason.isSome

def metadata (layer : ConfigLayerEntry Scalar) : ConfigLayerMetadata := ⟨layer.name, layer.version⟩

/-- The config of a layer, read through the key aliases. -/
def normalizedConfig (layer : ConfigLayerEntry Scalar) : TomlValue Scalar :=
  normalizedWithKeyAliases [] layer.config

end ConfigLayerEntry

/-- The loop of `verify_layer_ordering`: one user layer at most, project layers from root to cwd. -/
def verifyLayers (index : Nat) (userLayerIndex : Option Nat) (previous : Option AbsolutePathBuf) :
    List ConfigLayerSource → Except String (Option Nat)
  | [] => .ok userLayerIndex
  | .user _ :: names =>
    if userLayerIndex.isSome then .error "multiple user config layers found"
    else verifyLayers (index + 1) (some index) previous names
  | .project current :: names =>
    match previous with
    | none => verifyLayers (index + 1) userLayerIndex (some current) names
    | some [] => .error "project layer has no parent directory"
    | some previous =>
      if previous = current ∨ ¬ previous.dropLast <+: current then
        .error "project layers are not ordered from root to cwd"
      else verifyLayers (index + 1) userLayerIndex (some current) names
  | _ :: names => verifyLayers (index + 1) userLayerIndex previous names

def verifyLayerOrdering (layers : List (ConfigLayerEntry Scalar)) : Except String (Option Nat) :=
  if (layers.map (·.name.precedence)).Pairwise (· ≤ ·) then
    verifyLayers 0 none none (layers.map (·.name))
  else .error "config layers are not in correct precedence order"

/-- The layers of a stack, from lowest precedence (base) to highest (top). -/
structure ConfigLayerStack (Scalar : Type) where
  layers : List (ConfigLayerEntry Scalar)
  userLayerIndex : Option Nat
  ordered : verifyLayerOrdering layers = .ok userLayerIndex

/-! ## Origins -/

/-- `path.join(".")`. -/
def dotted (path : List Key) : Key := ['.'].intercalate path

mutual

/-- `record_origins`; an index of the source has 32 bits. -/
def recordOrigins (metadata : ConfigLayerMetadata) (path : List Key) :
    TomlValue Scalar → Keyed Key ConfigLayerMetadata → Keyed Key ConfigLayerMetadata
  | .table table, origins => recordEntries metadata path table origins
  | .array items, origins => recordItems metadata path 0 items origins
  | .scalar _, origins =>
    if path.isEmpty then origins else origins.insert (dotted path) metadata

def recordItems (metadata : ConfigLayerMetadata) (path : List Key) (idx : Nat) :
    List (TomlValue Scalar) → Keyed Key ConfigLayerMetadata → Keyed Key ConfigLayerMetadata
  | [], origins => origins
  | item :: items, origins => recordItems metadata path (idx + 1) items
      (recordOrigins metadata (path ++ [Nat.toDigits 10 idx]) item origins)

def recordEntries (metadata : ConfigLayerMetadata) (path : List Key) :
    TomlTable Scalar → Keyed Key ConfigLayerMetadata → Keyed Key ConfigLayerMetadata
  | [], origins => origins
  | (key, val) :: table, origins => recordEntries metadata path table
      (recordOrigins metadata (path ++ [key]) val origins)

end

namespace ConfigLayerStack

/-- `get_layers(LowestPrecedenceFirst, include_disabled: false)`. -/
def enabledLayers (stack : ConfigLayerStack Scalar) : List (ConfigLayerEntry Scalar) :=
  stack.layers.filter (!·.isDisabled)

/-- Returns the merged config-layer view. -/
def effectiveConfig (stack : ConfigLayerStack Scalar) : TomlValue Scalar :=
  stack.enabledLayers.foldl (fun merged layer => mergeTomlValues merged layer.config) (.table [])

/-- Returns field origins for the merged config-layer view. -/
def origins (stack : ConfigLayerStack Scalar) : Keyed Key ConfigLayerMetadata :=
  stack.enabledLayers.foldl (fun origins layer =>
    recordOrigins layer.metadata [] layer.normalizedConfig origins) ∅

end ConfigLayerStack

end Mcodex.Config
