import Mathlib.Data.Char
import Mathlib.Data.List.Lex
import Mcodex.Lib.SortedMap
import Mcodex.Secrets.Keys

/-!
# The local secrets backend

The secrets are one encrypted file, read and written as a whole by each call; its passphrase is in
the keyring. A secret is got as it was set last. It is listed if its environment id has no slash,
and not otherwise (`localSecretsBackend_spec`). The file system and the keyring answer; encryption
and JSON are parameters that round trip.
-/

namespace Mcodex.Secrets

def secretsVersion : Nat := 1

structure SecretsFile where
  version : Nat
  secrets : SortedMap (List Char) (List Char)

def SecretsFile.newEmpty : SecretsFile := { version := secretsVersion, secrets := .empty }

/-- Encryption under a passphrase with random bits, and JSON. -/
structure Codec (Passphrase Bits Plain Cipher : Type) where
  encrypt : Bits → Passphrase → Plain → Except String Cipher
  decrypt : Passphrase → Cipher → Except String Plain
  toVec : SecretsFile → Except String Plain
  fromSlice : Plain → Except String SecretsFile
  decrypt_encrypt : ∀ bits passphrase plain cipher,
    encrypt bits passphrase plain = .ok cipher → decrypt passphrase cipher = .ok plain
  fromSlice_toVec : ∀ file plain, toVec file = .ok plain → fromSlice plain = .ok file

/-- The secrets file and the keyring. -/
structure Store (Passphrase Cipher : Type) where
  file : Option Cipher
  passphrase : Option Passphrase

/-- What a call draws: a passphrase, if it needs one, and bits for the encryption. -/
structure Entropy (Passphrase Bits : Type) where
  passphrase : Passphrase
  bits : Bits

section
variable {Passphrase Bits Plain Cipher : Type} (codec : Codec Passphrase Bits Plain Cipher)
  (entropy : Entropy Passphrase Bits) (store : Store Passphrase Cipher)

def loadOrCreatePassphrase : Passphrase × Store Passphrase Cipher :=
  match store.passphrase with
  | some existing => (existing, store)
  | none => (entropy.passphrase, { store with passphrase := some entropy.passphrase })

/-- The version that a file has when it is read. -/
def checkVersion (parsed : SecretsFile) : Except String SecretsFile :=
  let version := if parsed.version = 0 then secretsVersion else parsed.version
  if version ≤ secretsVersion then .ok { parsed with version }
  else .error ("secrets file version " ++ toString version ++
    " is newer than supported version " ++ toString secretsVersion)

def loadFile : Except String SecretsFile × Store Passphrase Cipher :=
  match store.file with
  | none => (.ok .newEmpty, store)
  | some ciphertext =>
    let (passphrase, store) := loadOrCreatePassphrase entropy store
    (codec.decrypt passphrase ciphertext >>= codec.fromSlice >>= checkVersion, store)

def saveFile (file : SecretsFile) : Except String Unit × Store Passphrase Cipher :=
  let (passphrase, store) := loadOrCreatePassphrase entropy store
  match codec.toVec file >>= codec.encrypt entropy.bits passphrase with
  | .error error => (.error error, store)
  | .ok ciphertext => (.ok (), { store with file := some ciphertext })

namespace LocalSecretsBackend

def set (scope : SecretScope) (name : SecretName) (value : List Char) :
    Except String Unit × Store Passphrase Cipher :=
  if value.isEmpty then (.error "secret value must not be empty", store)
  else
    match loadFile codec entropy store with
    | (.error error, store) => (.error error, store)
    | (.ok file, store) =>
      saveFile codec entropy store
        { file with secrets := file.secrets.insert (scope.canonicalKey name) value }

def get (scope : SecretScope) (name : SecretName) :
    Except String (Option (List Char)) × Store Passphrase Cipher :=
  match loadFile codec entropy store with
  | (.error error, store) => (.error error, store)
  | (.ok file, store) => (.ok (file.secrets.get? (scope.canonicalKey name)), store)

def delete (scope : SecretScope) (name : SecretName) :
    Except String Bool × Store Passphrase Cipher :=
  match loadFile codec entropy store with
  | (.error error, store) => (.error error, store)
  | (.ok file, store) =>
    if (file.secrets.get? (scope.canonicalKey name)).isSome then
      match saveFile codec entropy store
          { file with secrets := file.secrets.remove (scope.canonicalKey name) } with
      | (.error error, store) => (.error error, store)
      | (.ok (), store) => (.ok true, store)
    else (.ok false, store)

/-- What `list` makes of a key. -/
def listEntry (scopeFilter : Option SecretScope) (canonicalKey : List Char) :
    Option SecretListEntry :=
  (parseCanonicalKey canonicalKey).filter fun entry =>
    match scopeFilter with
    | none => true
    | some scope => entry.scope = scope

def list (scopeFilter : Option SecretScope) :
    Except String (List SecretListEntry) × Store Passphrase Cipher :=
  match loadFile codec entropy store with
  | (.error error, store) => (.error error, store)
  | (.ok file, store) => (.ok (file.secrets.keys.filterMap (listEntry scopeFilter)), store)

end LocalSecretsBackend

end

/-! ## Runs -/

/-- A call that writes. -/
inductive Call
  | set (scope : SecretScope) (name : SecretName) (value : List Char)
  | delete (scope : SecretScope) (name : SecretName)

namespace Call

def pair : Call → SecretScope × SecretName
  | set scope name _ | delete scope name => (scope, name)

/-- What the call leaves under its pair. -/
def value? : Call → Option (List Char)
  | set _ _ value => some value
  | delete _ _ => none

/-- The call returns no error. -/
def Succeeds {Passphrase Bits Plain Cipher : Type} (codec : Codec Passphrase Bits Plain Cipher)
    (entropy : Entropy Passphrase Bits) (store store' : Store Passphrase Cipher) : Call → Prop
  | set scope name value =>
    LocalSecretsBackend.set codec entropy store scope name value = (.ok (), store')
  | delete scope name => ∃ removed,
    LocalSecretsBackend.delete codec entropy store scope name = (.ok removed, store')

end Call

/-- The value of the last `set` of a pair that no `delete` follows. The newest call is first. -/
def stored (scope : SecretScope) (name : SecretName) : List Call → Option (List Char)
  | [] => none
  | call :: calls => if call.pair = (scope, name) then call.value? else stored scope name calls

/-- A pair is present and passes the filter. -/
def Present (calls : List Call) (scopeFilter : Option SecretScope) (entry : SecretListEntry) :
    Prop :=
  (stored entry.scope entry.name calls).isSome ∧ ∀ scope ∈ scopeFilter, entry.scope = scope

section
variable {Passphrase Bits Plain Cipher : Type}

/-- The stores that successful calls lead to from a store without a file. The newest call is
first. -/
inductive Run (codec : Codec Passphrase Bits Plain Cipher) :
    List Call → Store Passphrase Cipher → Prop
  | nil (passphrase : Option Passphrase) : Run codec [] { file := none, passphrase }
  | cons {calls store store' entropy call} (h : Run codec calls store)
      (hcall : Call.Succeeds codec entropy store store' call) : Run codec (call :: calls) store'

/-- Secrets are found under the pairs that they were stored under. -/
structure Faithful (codec : Codec Passphrase Bits Plain Cipher)
    (entropy : Entropy Passphrase Bits) (store : Store Passphrase Cipher) (calls : List Call)
    (scopeFilter : Option SecretScope) : Prop where
  get : ∀ scope name, LocalSecretsBackend.get codec entropy store scope name =
    (.ok (stored scope name calls), store)
  frame : ∀ call store', Call.Succeeds codec entropy store store' call →
    ∀ scope name, call.pair ≠ (scope, name) →
      (LocalSecretsBackend.get codec entropy store' scope name).1 =
        (LocalSecretsBackend.get codec entropy store scope name).1
  list : ∃ entries,
    LocalSecretsBackend.list codec entropy store scopeFilter = (.ok entries, store) ∧
      entries.Nodup ∧ ∀ entry, entry ∈ entries ↔ Present calls scopeFilter entry

/-- A file that has the pairs set and not deleted, under their keys. -/
structure Holds (calls : List Call) (file : SecretsFile) : Prop where
  version : file.version = secretsVersion
  mem_iff : ∀ key value, (key, value) ∈ file.secrets.entries ↔
    ∃ scope name, key = scope.canonicalKey name ∧ stored scope name calls = some value

variable {codec : Codec Passphrase Bits Plain Cipher} {entropy : Entropy Passphrase Bits}
  {store store' : Store Passphrase Cipher} {calls : List Call} {file : SecretsFile}
  {scope : SecretScope} {name : SecretName} {value : List Char}

theorem loadOrCreatePassphrase_of_some {passphrase : Passphrase}
    (h : store.passphrase = some passphrase) :
    loadOrCreatePassphrase entropy store = (passphrase, store) := by
  rw [loadOrCreatePassphrase, h]

/-- A passphrase is in the keyring once it is used. -/
theorem passphrase_loadOrCreatePassphrase :
    (loadOrCreatePassphrase entropy store).2.passphrase =
      some (loadOrCreatePassphrase entropy store).1 := by
  unfold loadOrCreatePassphrase
  split
  · assumption
  · rfl

theorem checkVersion_of_current (h : file.version = secretsVersion) :
    checkVersion file = .ok file := by
  cases file with
  | mk version secrets =>
    obtain rfl : version = secretsVersion := h
    rfl

/-- What is saved is loaded, whatever a later call draws. -/
theorem loadFile_of_saveFile (hversion : file.version = secretsVersion)
    (hsave : saveFile codec entropy store file = (.ok (), store'))
    (entropy' : Entropy Passphrase Bits) :
    loadFile codec entropy' store' = (.ok file, store') := by
  have hpassphrase : (loadOrCreatePassphrase entropy store).2.passphrase =
      some (loadOrCreatePassphrase entropy store).1 := passphrase_loadOrCreatePassphrase
  unfold saveFile at hsave
  generalize loadOrCreatePassphrase entropy store = loaded at hsave hpassphrase
  obtain ⟨passphrase, store⟩ := loaded
  simp only at hsave hpassphrase
  split at hsave
  · cases hsave
  · next ciphertext hencrypt =>
    obtain rfl := (Prod.mk.inj hsave).2
    obtain ⟨plain, hplain, hcipher⟩ : ∃ plain, codec.toVec file = .ok plain ∧
        codec.encrypt entropy.bits passphrase plain = .ok ciphertext := by
      cases hplain : codec.toVec file with
      | error error =>
        rw [hplain] at hencrypt
        cases hencrypt
      | ok plain =>
        rw [hplain] at hencrypt
        exact ⟨plain, rfl, hencrypt⟩
    have hdecrypt := codec.decrypt_encrypt _ _ _ _ hcipher
    have hparse := codec.fromSlice_toVec _ _ hplain
    simp only [loadFile]
    have hload : loadOrCreatePassphrase entropy' { store with file := some ciphertext } =
        (passphrase, { store with file := some ciphertext }) :=
      loadOrCreatePassphrase_of_some hpassphrase
    simp only [hload, hdecrypt, bind, Except.bind, hparse, checkVersion_of_current hversion]

theorem Holds.get? (h : Holds calls file) (scope : SecretScope) (name : SecretName) :
    file.secrets.get? (scope.canonicalKey name) = stored scope name calls := by
  refine Option.ext fun value => ?_
  rw [SortedMap.get?_eq_some_iff, h.mem_iff]
  constructor
  · rintro ⟨scope', name', hkey, hstored⟩
    obtain ⟨rfl, rfl⟩ := canonicalKey_inj hkey
    exact hstored
  · exact fun hstored => ⟨scope, name, rfl, hstored⟩

theorem Holds.set (h : Holds calls file) :
    Holds (.set scope name value :: calls)
      { file with secrets := file.secrets.insert (scope.canonicalKey name) value } where
  version := h.version
  mem_iff key value' := by
    rw [SortedMap.mem_insert]
    constructor
    · rintro (heq | ⟨hmem, hkey⟩)
      · obtain ⟨rfl, rfl⟩ := Prod.mk.inj heq
        exact ⟨scope, name, rfl, if_pos rfl⟩
      · obtain ⟨scope', name', rfl, hstored⟩ := (h.mem_iff key value').1 hmem
        refine ⟨scope', name', rfl, (if_neg fun hpair => hkey ?_).trans hstored⟩
        obtain ⟨rfl, rfl⟩ := Prod.mk.inj hpair
        rfl
    · rintro ⟨scope', name', rfl, hstored⟩
      rw [stored] at hstored
      split at hstored
      · next hpair =>
        obtain ⟨rfl, rfl⟩ := Prod.mk.inj hpair
        obtain rfl := Option.some.inj hstored
        exact .inl rfl
      · next hpair =>
        refine .inr ⟨(h.mem_iff _ _).2 ⟨scope', name', rfl, hstored⟩, fun hkey => hpair ?_⟩
        obtain ⟨rfl, rfl⟩ := canonicalKey_inj hkey
        rfl

theorem Holds.delete (h : Holds calls file) :
    Holds (.delete scope name :: calls)
      { file with secrets := file.secrets.remove (scope.canonicalKey name) } where
  version := h.version
  mem_iff key value' := by
    rw [SortedMap.mem_remove]
    constructor
    · rintro ⟨hmem, hkey⟩
      obtain ⟨scope', name', rfl, hstored⟩ := (h.mem_iff key value').1 hmem
      refine ⟨scope', name', rfl, (if_neg fun hpair => hkey ?_).trans hstored⟩
      obtain ⟨rfl, rfl⟩ := Prod.mk.inj hpair
      rfl
    · rintro ⟨scope', name', rfl, hstored⟩
      rw [stored] at hstored
      split at hstored
      · cases hstored
      · next hpair =>
        refine ⟨(h.mem_iff _ _).2 ⟨scope', name', rfl, hstored⟩, fun hkey => hpair ?_⟩
        obtain ⟨rfl, rfl⟩ := canonicalKey_inj hkey
        rfl

/-- A successful call goes from a file to one that has the pairs after it. -/
theorem Call.Succeeds.holds {call : Call} (hholds : Holds calls file)
    (hload : ∀ entropy, loadFile codec entropy store = (.ok file, store))
    (hcall : call.Succeeds codec entropy store store') :
    ∃ file', Holds (call :: calls) file' ∧
      ∀ entropy, loadFile codec entropy store' = (.ok file', store') := by
  cases call with
  | set scope name value =>
    simp only [Call.Succeeds, LocalSecretsBackend.set, hload] at hcall
    split_ifs at hcall
    · cases hcall
    · exact ⟨_, hholds.set, loadFile_of_saveFile hholds.version hcall⟩
  | delete scope name =>
    obtain ⟨removed, hdelete⟩ := hcall
    simp only [LocalSecretsBackend.delete, hload] at hdelete
    split_ifs at hdelete with hpresent
    · split at hdelete
      · cases hdelete
      · next store'' hsave =>
        obtain rfl := (Prod.mk.inj hdelete).2
        exact ⟨_, hholds.delete, loadFile_of_saveFile hholds.version hsave⟩
    · obtain rfl := (Prod.mk.inj hdelete).2
      have hsame := SortedMap.remove_of_get?_eq_none (Option.not_isSome_iff_eq_none.1 hpresent)
      refine ⟨file, ?_, hload⟩
      have hdeleted : Holds (.delete scope name :: calls) _ := hholds.delete
      rwa [hsame] at hdeleted

/-- A run leaves the pairs set and not deleted. -/
theorem Run.holds (h : Run codec calls store) :
    ∃ file, Holds calls file ∧ ∀ entropy, loadFile codec entropy store = (.ok file, store) := by
  induction h with
  | nil passphrase =>
    refine ⟨.newEmpty, ⟨rfl, fun key value => ⟨nofun, ?_⟩⟩, fun _ => rfl⟩
    rintro ⟨scope, name, -, hstored⟩
    cases hstored
  | cons h hcall ih =>
    obtain ⟨file, hholds, hload⟩ := ih
    exact hcall.holds hholds hload

theorem get_of_holds (hholds : Holds calls file)
    (hload : loadFile codec entropy store = (.ok file, store)) (scope : SecretScope)
    (name : SecretName) :
    LocalSecretsBackend.get codec entropy store scope name =
      (.ok (stored scope name calls), store) := by
  simp only [LocalSecretsBackend.get, hload, hholds.get?]

theorem listEntry_canonicalKey {scopeFilter : Option SecretScope} {entry : SecretListEntry} :
    LocalSecretsBackend.listEntry scopeFilter (scope.canonicalKey name) = some entry ↔
      scope.hasSlash = false ∧ entry = { scope, name } ∧
        ∀ scope' ∈ scopeFilter, scope = scope' := by
  rw [LocalSecretsBackend.listEntry, parseCanonicalKey_canonicalKey]
  cases hslash : scope.hasSlash with
  | true => simp
  | false =>
    cases scopeFilter with
    | none => simp [Option.filter, eq_comm]
    | some scope' =>
      simp only [Bool.false_eq_true, if_false, Option.filter_some, decide_eq_true_eq,
        Option.mem_some_iff, forall_eq', true_and]
      split
      · next hscope => simp [hscope, eq_comm]
      · next hscope => simp [hscope]

theorem mem_keys_of_holds (hholds : Holds calls file) {key : List Char} :
    key ∈ file.secrets.keys ↔
      ∃ scope name, key = scope.canonicalKey name ∧ (stored scope name calls).isSome := by
  rw [SortedMap.keys, List.mem_map]
  constructor
  · rintro ⟨⟨key, value⟩, hmem, rfl⟩
    obtain ⟨scope, name, hkey, hstored⟩ := (hholds.mem_iff key value).1 hmem
    exact ⟨scope, name, hkey, Option.isSome_of_eq_some hstored⟩
  · rintro ⟨scope, name, hkey, hstored⟩
    obtain ⟨value, hvalue⟩ := Option.isSome_iff_exists.1 hstored
    exact ⟨(key, value), (hholds.mem_iff key value).2 ⟨scope, name, hkey, hvalue⟩, rfl⟩

/-- The entries listed are the present pairs whose keys are read back. -/
theorem mem_list_of_holds (hholds : Holds calls file) (scopeFilter : Option SecretScope)
    (entry : SecretListEntry) :
    entry ∈ file.secrets.keys.filterMap (LocalSecretsBackend.listEntry scopeFilter) ↔
      Present calls scopeFilter entry ∧ entry.scope.hasSlash = false := by
  rw [List.mem_filterMap]
  constructor
  · rintro ⟨key, hkey, hentry⟩
    obtain ⟨scope, name, rfl, hstored⟩ := (mem_keys_of_holds hholds).1 hkey
    obtain ⟨hslash, rfl, hfilter⟩ := listEntry_canonicalKey.1 hentry
    exact ⟨⟨hstored, hfilter⟩, hslash⟩
  · rintro ⟨⟨hstored, hfilter⟩, hslash⟩
    exact ⟨_, (mem_keys_of_holds hholds).2 ⟨_, _, rfl, hstored⟩,
      listEntry_canonicalKey.2 ⟨hslash, rfl, hfilter⟩⟩

theorem nodup_list_of_holds (hholds : Holds calls file) (scopeFilter : Option SecretScope) :
    (file.secrets.keys.filterMap (LocalSecretsBackend.listEntry scopeFilter)).Nodup := by
  refine List.pairwise_filterMap.2 (file.secrets.nodup_keys.imp_of_mem ?_)
  intro key key' hkey hkey' hne entry hentry entry' hentry' heq
  obtain ⟨scope, name, rfl, -⟩ := (mem_keys_of_holds hholds).1 hkey
  obtain ⟨scope', name', rfl, -⟩ := (mem_keys_of_holds hholds).1 hkey'
  obtain ⟨-, rfl, -⟩ := listEntry_canonicalKey.1 hentry
  obtain ⟨-, rfl, -⟩ := listEntry_canonicalKey.1 hentry'
  cases heq
  exact hne rfl

/-- **The secrets of a process.** A secret is got as it was set last, and calls for other pairs do
not change that. The present pairs are listed as far as their environment ids have no slash, so the
list is right when that is all of them. -/
theorem localSecretsBackend_spec (codec : Codec Passphrase Bits Plain Cipher)
    (entropy : Entropy Passphrase Bits) (scopeFilter : Option SecretScope)
    (h : Run codec calls store) :
    Faithful codec entropy store calls scopeFilter ↔
      ∀ entry, Present calls scopeFilter entry → entry.scope.hasSlash = false := by
  obtain ⟨file, hholds, hload⟩ := h.holds
  have hlist : LocalSecretsBackend.list codec entropy store scopeFilter =
      (.ok (file.secrets.keys.filterMap (LocalSecretsBackend.listEntry scopeFilter)), store) := by
    simp only [LocalSecretsBackend.list, hload]
  constructor
  · rintro ⟨-, -, entries, hentries, -, hmem⟩ entry hpresent
    rw [hlist] at hentries
    cases hentries
    exact ((mem_list_of_holds hholds scopeFilter entry).1 ((hmem entry).2 hpresent)).2
  · intro hslash
    refine ⟨get_of_holds hholds (hload entropy), fun call store' hcall scope name hpair => ?_,
      _, hlist, nodup_list_of_holds hholds scopeFilter, fun entry => ?_⟩
    · obtain ⟨file', hholds', hload'⟩ := hcall.holds hholds hload
      rw [get_of_holds hholds' (hload' entropy), get_of_holds hholds (hload entropy), stored,
        if_neg hpair]
    · rw [mem_list_of_holds hholds]
      exact and_iff_left_of_imp (hslash entry)

end

/-- A codec that keeps the passphrase with the file. -/
def sealedFile : Codec Nat Unit SecretsFile (Nat × SecretsFile) where
  encrypt _ passphrase file := .ok (passphrase, file)
  decrypt passphrase cipher :=
    if cipher.1 = passphrase then .ok cipher.2 else .error "failed to decrypt secrets file"
  toVec := .ok
  fromSlice := .ok
  decrypt_encrypt _ _ _ _ h := by
    cases h
    exact if_pos rfl
  fromSlice_toVec _ _ h := by
    cases h
    rfl

/-- The name `API_KEY`. -/
def apiKey : SecretName := ⟨"API_KEY".toList, by decide, List.all_eq_true.1 (by decide)⟩

/-- The environment `web`. -/
def web : SecretScope := .ofEnvironment ⟨"web".toList, by decide, by decide⟩

/-- The environment `team/web`. -/
def teamWeb : SecretScope := .ofEnvironment ⟨"team/web".toList, by decide, by decide⟩

/-- The file with one secret. -/
def oneSecret (scope : SecretScope) : SecretsFile where
  version := secretsVersion
  secrets := SortedMap.empty.insert (scope.canonicalKey apiKey) "s".toList

/-- A call stores one secret. -/
theorem run_oneSecret (scope : SecretScope) :
    Run sealedFile [.set scope apiKey "s".toList]
      { file := some (0, oneSecret scope), passphrase := some 0 } :=
  have hcall : Call.Succeeds sealedFile ⟨0, ()⟩ { file := none, passphrase := some 0 }
      { file := some (0, oneSecret scope), passphrase := some 0 }
      (.set scope apiKey "s".toList) := rfl
  .cons (.nil (some 0)) hcall

theorem localSecretsBackend_spec_web :
    Faithful sealedFile ⟨0, ()⟩ { file := some (0, oneSecret web), passphrase := some 0 }
      [.set web apiKey "s".toList] none ↔
      ∀ entry, Present [.set web apiKey "s".toList] none entry → entry.scope.hasSlash = false :=
  localSecretsBackend_spec sealedFile ⟨0, ()⟩ none (run_oneSecret web)

/-- A secret of `team/web` is not listed. -/
theorem not_faithful_teamWeb :
    ¬ ∀ calls store, Run sealedFile calls store → Faithful sealedFile ⟨0, ()⟩ store calls none := by
  intro h
  obtain ⟨-, -, entries, hentries, -, hmem⟩ := h _ _ (run_oneSecret teamWeb)
  have hnone : entries = [] := by
    have hlist : LocalSecretsBackend.list sealedFile ⟨0, ()⟩
        { file := some (0, oneSecret teamWeb), passphrase := some 0 } none =
        (.ok [], { file := some (0, oneSecret teamWeb), passphrase := some 0 }) := rfl
    rw [hlist] at hentries
    cases hentries
    rfl
  have hpresent : Present [.set teamWeb apiKey "s".toList] none ⟨teamWeb, apiKey⟩ :=
    ⟨rfl, nofun⟩
  rw [hnone] at hmem
  exact List.not_mem_nil ((hmem _).2 hpresent)

end Mcodex.Secrets
