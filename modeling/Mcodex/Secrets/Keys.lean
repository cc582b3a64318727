import Mcodex.Lib.Segment
import Mcodex.Lib.Text

/-!
# Names, scopes and keys of secrets

A secret is kept under one text, made of its scope and its name with slashes between them. Two pairs
never have the same key (`canonicalKey_inj`), but a key is read back only when its environment id
has no slash (`parseCanonicalKey_canonicalKey`).
-/

namespace Mcodex.Secrets

open Segment Text

def isNameChar (c : Char) : Bool := ('A' ≤ c && c ≤ 'Z') || isAsciiDigit c || c = '_'

structure SecretName where
  text : List Char
  nonempty : text ≠ []
  valid : ∀ c ∈ text, isNameChar c
  deriving DecidableEq

/-- The id of an environment, trimmed. -/
structure EnvironmentId where
  text : List Char
  nonempty : text ≠ []
  trimmed : trim text = text
  deriving DecidableEq

inductive SecretScope
  | global
  | ofEnvironment (id : EnvironmentId)
  deriving DecidableEq

structure SecretListEntry where
  scope : SecretScope
  name : SecretName
  deriving DecidableEq

def SecretName.new (raw : List Char) : Except String SecretName :=
  let trimmed := trim raw
  if hempty : trimmed = [] then .error "secret name must not be empty"
  else if hvalid : trimmed.all isNameChar then
    .ok ⟨trimmed, hempty, List.all_eq_true.1 hvalid⟩
  else .error "secret name must contain only A-Z, 0-9, or _"

namespace SecretScope

def environment (environmentId : List Char) : Except String SecretScope :=
  let trimmed := trim environmentId
  if hempty : trimmed = [] then .error "environment id must not be empty"
  else .ok (.ofEnvironment ⟨trimmed, hempty, trim_trim environmentId⟩)

def canonicalKey : SecretScope → SecretName → List Char
  | global, name => "global".toList ++ '/' :: name.text
  | ofEnvironment id, name => "env".toList ++ '/' :: (id.text ++ '/' :: name.text)

/-- A scope that `parse_canonical_key` splits in two. -/
def hasSlash : SecretScope → Bool
  | global => false
  | ofEnvironment id => id.text.contains '/'

end SecretScope

def parseCanonicalKey (canonicalKey : List Char) : Option SecretListEntry :=
  match canonicalKey.splitOn '/' with
  | [] => none
  | scopeKind :: parts =>
    if scopeKind = "global".toList then
      match parts with
      | [name] => do
        let name ← (SecretName.new name).toOption
        some { scope := .global, name }
      | _ => none
    else if scopeKind = "env".toList then
      match parts with
      | [environmentId, name] => do
        let name ← (SecretName.new name).toOption
        let scope ← (SecretScope.environment environmentId).toOption
        some { scope, name }
      | _ => none
    else none

section
variable {name name' : SecretName} {scope scope' : SecretScope}

theorem SecretName.not_mem_slash (name : SecretName) : '/' ∉ name.text := fun hmem =>
  absurd (name.valid '/' hmem) (by decide)

theorem isWhitespace_of_isNameChar {c : Char} (h : isNameChar c) : isWhitespace c = false := by
  have hrange : 48 ≤ c.toNat ∧ c.toNat ≤ 95 := by
    simp only [isNameChar, isAsciiDigit, Bool.or_eq_true, Bool.and_eq_true, decide_eq_true_eq,
      Char.le_def, UInt32.le_iff_toNat_le] at h
    change (65 ≤ c.toNat ∧ c.toNat ≤ 90 ∨ 48 ≤ c.toNat ∧ c.toNat ≤ 57) ∨ c = '_' at h
    rcases h with (h | h) | rfl
    · omega
    · omega
    · decide
  simp only [isWhitespace, Bool.or_eq_false_iff, Bool.and_eq_false_iff, decide_eq_false_iff_not]
  omega

theorem SecretName.trim_text (name : SecretName) : trim name.text = name.text :=
  trim_eq_self
    (fun c hc => isWhitespace_of_isNameChar (name.valid c (List.mem_of_mem_head? hc)))
    fun c hc => isWhitespace_of_isNameChar (name.valid c (List.mem_of_getLast? hc))

/-- A name is read back from its text. -/
theorem SecretName.new_text (name : SecretName) : SecretName.new name.text = .ok name := by
  unfold SecretName.new
  simp only [name.trim_text, dif_neg name.nonempty, dif_pos (List.all_eq_true.2 name.valid)]

/-- An environment id is read back from its text. -/
theorem SecretScope.environment_text (id : EnvironmentId) :
    SecretScope.environment id.text = .ok (.ofEnvironment id) := by
  unfold SecretScope.environment
  simp only [id.trimmed, dif_neg id.nonempty]

/-- The last slash of a key is the one before the name. -/
theorem canonicalKey_inj (h : scope.canonicalKey name = scope'.canonicalKey name') :
    scope = scope' ∧ name = name' := by
  have hlast : ∀ before before' : List Char,
      before ++ '/' :: name.text = before' ++ '/' :: name'.text →
        before = before' ∧ name = name' := by
    intro before before' heq
    rcases split_cases heq with ⟨-, htext⟩ | hmem | hmem
    · rw [htext] at heq
      refine ⟨List.append_cancel_right heq, ?_⟩
      cases name
      cases name'
      cases htext
      rfl
    · exact absurd hmem name.not_mem_slash
    · exact absurd hmem name'.not_mem_slash
  cases scope with
  | global =>
    cases scope' with
    | global => exact ⟨rfl, (hlast _ _ h).2⟩
    | ofEnvironment id => cases h
  | ofEnvironment id =>
    cases scope' with
    | global => cases h
    | ofEnvironment id' =>
      have htail : id.text ++ '/' :: name.text = id'.text ++ '/' :: name'.text :=
        (List.append_right_inj "env/".toList).1 h
      obtain ⟨htext, hname⟩ := hlast id.text id'.text htail
      refine ⟨?_, hname⟩
      cases id
      cases id'
      cases htext
      rfl

theorem splitOn_of_mem {text : List Char} (h : '/' ∈ text) :
    ∃ first second rest, text.splitOn '/' = first :: second :: rest := by
  obtain ⟨first, after, rfl, hfirst⟩ := List.eq_append_cons_of_mem h
  obtain ⟨second, rest, hafter⟩ := List.exists_cons_of_ne_nil (List.splitOn_ne_nil '/' after)
  exact ⟨first, second, rest, by
    rw [List.splitOn_append_cons_self_of_not_mem hfirst, hafter]⟩

/-- **Reading a key back.** It works but for an environment id with a slash. -/
theorem parseCanonicalKey_canonicalKey (scope : SecretScope) (name : SecretName) :
    parseCanonicalKey (scope.canonicalKey name) =
      if scope.hasSlash then none else some { scope, name } := by
  have hname : name.text.splitOn '/' = [name.text] :=
    List.splitOn_eq_singleton name.not_mem_slash
  cases scope with
  | global =>
    have hkind : '/' ∉ "global".toList := by decide
    have hparts : (SecretScope.global.canonicalKey name).splitOn '/' =
        ["global".toList, name.text] :=
      (List.splitOn_append_cons_self_of_not_mem hkind _).trans (congrArg _ hname)
    simp [parseCanonicalKey, hparts, name.new_text, SecretScope.hasSlash, Except.toOption]
  | ofEnvironment id =>
    have hkind : '/' ∉ "env".toList := by decide
    have hparts : ((SecretScope.ofEnvironment id).canonicalKey name).splitOn '/' =
        "env".toList :: (id.text ++ '/' :: name.text).splitOn '/' :=
      List.splitOn_append_cons_self_of_not_mem hkind _
    by_cases hslash : '/' ∈ id.text
    · obtain ⟨before, after, hid, hbefore⟩ := List.eq_append_cons_of_mem hslash
      have hmem : '/' ∈ after ++ '/' :: name.text := by simp
      obtain ⟨first, second, rest, hafter⟩ := splitOn_of_mem hmem
      have hpieces : (id.text ++ '/' :: name.text).splitOn '/' =
          before :: first :: second :: rest := by
        rw [hid, List.append_assoc, List.cons_append,
          List.splitOn_append_cons_self_of_not_mem hbefore, hafter]
      simp [parseCanonicalKey, hparts, hpieces, SecretScope.hasSlash, hslash]
    · have hid : (id.text ++ '/' :: name.text).splitOn '/' = [id.text, name.text] := by
        rw [List.splitOn_append_cons_self_of_not_mem hslash, hname]
      simp [parseCanonicalKey, hparts, hid, name.new_text, SecretScope.environment_text,
        SecretScope.hasSlash, hslash, Except.toOption]

end

end Mcodex.Secrets
