import Mcodex.ApplyPatch.Apply

/-!
# What is approved is what is applied

A patch is verified before it is applied: each hunk is read against the files as they are, and the
changes are collected by the path of their hunk (`verifyHunks`). Where no path is touched twice, a
patch that is applied leaves the files that its verified changes describe, and it stops for nothing
but a call that fails (`applied_of_verified`).
-/

namespace Mcodex.ApplyPatch

open Effect Permissions
open FileTree (ErrorKind)

inductive ApplyPatchFileChange
  | add (content : List Char)
  | delete (content : List Char)
  | update (unifiedDiff : List Char) (movePath : Option AbsolutePathBuf) (newContent : List Char)
  deriving DecidableEq

/-- The changes of a patch, by path. -/
abbrev Changes := AList fun _ : AbsolutePathBuf => ApplyPatchFileChange

namespace Environment

variable (env : Environment) (textDiff : List Char → List Char → List Char)

/-- The change of a hunk. `textDiff` is the unified diff of two texts. -/
def verifyHunk (hunk : Hunk) : Prog Disk ApplyError ApplyPatchFileChange :=
  let path := env.resolvePath hunk.source
  match hunk with
  | .addFile _ contents => pure (.add contents)
  | .deleteFile _ => do
    let content ← mapErr (.io ("Failed to read " ++ display path)) (env.readFileText path)
    pure (.delete content)
  | .updateFile _ movePath chunks => do
    let applied ← env.deriveNewContentsFromChunks path chunks
    pure (.update (textDiff applied.originalContents applied.newContents)
      (movePath.map env.resolvePath) applied.newContents)

def verifyHunks (hunks : List Hunk) : Prog Disk ApplyError Changes :=
  hunks.foldlM (fun changes hunk => do
    let change ← env.verifyHunk textDiff hunk
    pure (changes.insert (env.resolvePath hunk.source) change)) ∅

end Environment

/-- The files that changes describe. -/
structure Describes (changes : Changes) (files files' : Files) : Prop where
  add : ∀ path content, changes.lookup path = some (.add content) →
    files'.fileAt path.names = some (Utf8.encode content)
  delete : ∀ path content, changes.lookup path = some (.delete content) →
    files'.fileAt path.names = none
  update : ∀ path diff newContent, changes.lookup path = some (.update diff none newContent) →
    files'.fileAt path.names = some (Utf8.encode newContent)
  move : ∀ path diff dest newContent,
    changes.lookup path = some (.update diff (some dest) newContent) →
      files'.fileAt path.names = none ∧
        files'.fileAt dest.names = some (Utf8.encode newContent)
  other : ∀ path, changes.lookup path = none →
    (∀ source diff newContent,
      changes.lookup source ≠ some (.update diff (some path) newContent)) →
    files'.fileAt path.names = files.fileAt path.names

section
variable {env : Environment} {textDiff : List Char → List Char → List Char} {disk : Disk}
  {files files' : Files} {hunk : Hunk} {hunks : List Hunk} {change : ApplyPatchFileChange}
  {made : List ApplyPatchFileChange} {changes : Changes} {path : AbsolutePathBuf}

/-! ## Verification -/

/-- The change of a hunk in some files. -/
def Environment.Verified (env : Environment) (textDiff : List Char → List Char → List Char)
    (files : Files) (hunk : Hunk) (change : ApplyPatchFileChange) : Prop :=
  match hunk with
  | .addFile _ contents => change = .add contents
  | .deleteFile _ => ∃ content, change = .delete content
  | .updateFile path movePath chunks => ∃ text newContents,
    readText files (env.resolvePath path) = .ok text ∧
    newContentsOf text (display (env.resolvePath path)) chunks = .ok newContents ∧
    change = .update (textDiff text newContents) (movePath.map env.resolvePath) newContents

theorem readText_congr {text : List Char} (h : files'.fileAt path.names = files.fileAt path.names)
    (hread : readText files path = .ok text) : readText files' path = .ok text := by
  rw [readText_eq_ok_iff] at hread ⊢
  rwa [h]

theorem source_mem_touched (env : Environment) (hunk : Hunk) :
    env.resolvePath hunk.source ∈ env.touched hunk := by
  cases hunk with
  | addFile path contents => exact List.mem_singleton_self _
  | deleteFile path => exact List.mem_singleton_self _
  | updateFile path movePath chunks =>
    cases movePath with
    | none => exact List.mem_singleton_self _
    | some dest => exact List.mem_cons_self

/-- A change depends on the file that its hunk reads. -/
theorem Verified.congr (h : env.Verified textDiff files hunk change)
    (hsame : files'.fileAt (env.resolvePath hunk.source).names =
      files.fileAt (env.resolvePath hunk.source).names) :
    env.Verified textDiff files' hunk change := by
  cases hunk with
  | addFile path contents => exact h
  | deleteFile path => exact h
  | updateFile path movePath chunks =>
    obtain ⟨text, newContents, hread, hrest⟩ := h
    exact ⟨text, newContents, readText_congr hsame hread, hrest⟩

theorem wp_verifyHunk (hunk : Hunk) (disk : Disk) : wp (env.verifyHunk textDiff hunk)
    (fun change disk' => disk'.files = disk.files ∧
      env.Verified textDiff disk.files hunk change)
    (Stops fun _ disk' => disk'.files = disk.files) disk := by
  cases hunk with
  | addFile path contents => exact ⟨rfl, rfl⟩
  | deleteFile path =>
    simp only [Environment.verifyHunk, wp_bind]
    exact wp_mapErr_stops (wp_readFileText.imp_stops (fun content disk' h => ⟨h.2, content, rfl⟩)
      fun _ _ h => h)
  | updateFile path movePath chunks =>
    simp only [Environment.verifyHunk, wp_bind]
    exact wp_deriveNewContentsFromChunks.imp_stops
      (fun applied disk' h => ⟨h.1, _, _, h.2.1, h.2.2, rfl⟩) fun _ _ h => h.1

/-- The changes are those of the hunks in the files as they are. -/
theorem wp_verifyHunks_from (start : Changes) (hunks : List Hunk) (disk : Disk) :
    wp (hunks.foldlM (fun changes hunk => do
        let change ← env.verifyHunk textDiff hunk
        pure (changes.insert (env.resolvePath hunk.source) change)) start)
      (fun changes disk' => disk'.files = disk.files ∧ ∃ made,
        List.Forall₂ (env.Verified textDiff disk.files) hunks made ∧
        changes = (hunks.zip made).foldl (fun changes entry =>
          changes.insert (env.resolvePath entry.1.source) entry.2) start)
      (Stops fun _ disk' => disk'.files = disk.files) disk := by
  induction hunks generalizing start disk with
  | nil => exact ⟨rfl, [], .nil, rfl⟩
  | cons hunk hunks ih =>
    rw [List.foldlM_cons, wp_bind, wp_bind]
    refine (wp_verifyHunk hunk disk).imp_stops (fun change disk₁ ⟨hsame, hchange⟩ => ?_)
      fun _ _ h => h
    refine (ih _ disk₁).imp_stops ?_ fun _ _ h => h.trans hsame
    rintro changes disk₂ ⟨hsame', made, hmade, hchanges⟩
    rw [hsame] at hsame' hmade
    exact ⟨hsame', change :: made, .cons hchange hmade, hchanges⟩

theorem mem_entries_iff {entries : List (AbsolutePathBuf × ApplyPatchFileChange)}
    (hnodup : (entries.map Prod.fst).Nodup) (start : Changes)
    (hstart : ∀ entry ∈ entries, start.lookup entry.1 = none) :
    (entries.foldl (fun changes entry => changes.insert entry.1 entry.2) start).lookup path =
        some change ↔
      start.lookup path = some change ∨ (path, change) ∈ entries := by
  induction entries generalizing start with
  | nil => simp
  | cons entry entries ih =>
    rw [List.map_cons, List.nodup_cons] at hnodup
    rw [List.foldl_cons, ih hnodup.2]
    · rw [List.mem_cons]
      by_cases hpath : path = entry.1
      · subst hpath
        have hfree := hstart entry List.mem_cons_self
        rw [AList.lookup_insert, hfree]
        constructor
        · rintro (h | h)
          · cases h
            exact .inr (.inl rfl)
          · exact .inr (.inr h)
        · rintro (h | h | h)
          · cases h
          · exact .inl (by rw [← h])
          · exact .inr h
      · rw [AList.lookup_insert_ne hpath]
        refine or_congr_right ⟨.inr, ?_⟩
        rintro (h | h)
        · exact absurd (congrArg Prod.fst h) hpath
        · exact h
    · intro other hother
      have hne : other.1 ≠ entry.1 := fun h => hnodup.1 (h ▸ List.mem_map_of_mem hother)
      rw [AList.lookup_insert_ne hne]
      exact hstart other (List.mem_cons_of_mem _ hother)

/-! ## Application -/

/-- The destination of a move. -/
def ApplyPatchFileChange.dest : ApplyPatchFileChange → Option AbsolutePathBuf
  | .update _ dest _ => dest
  | _ => none

/-- A change of a path is what the files show there. -/
def Made (files' : Files) (path : AbsolutePathBuf) : ApplyPatchFileChange → Prop
  | .add content => files'.fileAt path.names = some (Utf8.encode content)
  | .delete _ => files'.fileAt path.names = none
  | .update _ none newContent => files'.fileAt path.names = some (Utf8.encode newContent)
  | .update _ (some dest) newContent => files'.fileAt path.names = none ∧
    files'.fileAt dest.names = some (Utf8.encode newContent)

theorem touched_of_verified (h : env.Verified textDiff files hunk change) :
    env.touched hunk = env.resolvePath hunk.source :: change.dest.toList := by
  cases hunk with
  | addFile path contents =>
    cases h
    rfl
  | deleteFile path =>
    obtain ⟨content, rfl⟩ := h
    rfl
  | updateFile path movePath chunks =>
    obtain ⟨text, newContents, -, -, rfl⟩ := h
    cases movePath with
    | none => rfl
    | some dest => rfl

theorem Made.congr (h : Made files path change)
    (hsame : ∀ path' ∈ path :: change.dest.toList,
      files'.fileAt path'.names = files.fileAt path'.names) : Made files' path change := by
  have hpath := hsame path List.mem_cons_self
  cases change with
  | add content => exact hpath.trans h
  | delete content => exact hpath.trans h
  | update diff movePath newContent =>
    cases movePath with
    | none => exact hpath.trans h
    | some dest =>
      have hdest := hsame dest (List.mem_cons_of_mem _ (List.mem_singleton_self _))
      exact ⟨hpath.trans h.1, hdest.trans h.2⟩

theorem made_of_applied (hnodup : (env.touched hunk).Nodup)
    (hverified : env.Verified textDiff files hunk change) (h : env.Applied files files' hunk) :
    Made files' (env.resolvePath hunk.source) change := by
  cases hunk with
  | addFile path contents =>
    cases hverified
    exact h
  | deleteFile path =>
    obtain ⟨content, rfl⟩ := hverified
    exact h
  | updateFile path movePath chunks =>
    obtain ⟨text, newContents, hread, hnew, rfl⟩ := hverified
    obtain ⟨text', newContents', hread', hnew', hfiles⟩ := h
    rw [hread] at hread'
    cases hread'
    rw [hnew] at hnew'
    cases hnew'
    cases movePath with
    | none => exact hfiles
    | some dest =>
      have hne : env.resolvePath dest ≠ env.resolvePath path := fun heq =>
        (List.nodup_cons.1 hnodup).1 (heq ▸ List.mem_singleton_self _)
      exact ⟨hfiles.1, hfiles.2 hne⟩

/-- The chunks of a verified hunk match their file. -/
theorem io_of_rejects {error : ApplyError} (hverified : env.Verified textDiff files hunk change)
    (h : env.Rejects files files' hunk error) : ∃ context kind, error = .io context kind := by
  rcases h with hio | ⟨-, path, movePath, chunks, text, message, rfl, hread, hnew, -⟩
  · exact hio
  · obtain ⟨text', newContents, hread', hnew', -⟩ := hverified
    rw [hread] at hread'
    cases hread'
    rw [hnew] at hnew'
    cases hnew'

theorem wp_foldlM_verified (affected : AffectedPaths) (hnodup : (hunks.flatMap env.touched).Nodup)
    (hmade : List.Forall₂ (env.Verified textDiff disk.files) hunks made) :
    wp (hunks.foldlM env.applyHunk affected)
      (fun _ disk' => Touches (hunks.flatMap env.touched) disk.files disk'.files ∧
        List.Forall₂ (fun hunk change => Made disk'.files (env.resolvePath hunk.source) change)
          hunks made)
      (Stops fun error _ => ∃ context kind, error = .io context kind) disk := by
  induction hunks generalizing affected disk made with
  | nil =>
    cases hmade
    exact ⟨.refl _ _, .nil⟩
  | cons hunk hunks ih =>
    obtain ⟨change, made, hchange, htail, rfl⟩ := List.forall₂_cons_left_iff.1 hmade
    rw [List.flatMap_cons, List.nodup_append'] at hnodup
    obtain ⟨hself, hnodup, hdisjoint⟩ := hnodup
    rw [List.foldlM_cons, wp_bind]
    refine (wp_applyHunk affected hunk disk).imp_stops ?_ fun error disk₁ h =>
      io_of_rejects hchange h.2.2
    rintro affected₁ disk₁ ⟨-, htouches, happlied⟩
    have hlater : List.Forall₂ (env.Verified textDiff disk₁.files) hunks made := by
      refine List.forall₂_iff_zip.2 ⟨htail.length_eq, fun {later change'} hmem => ?_⟩
      refine Verified.congr (List.forall₂_iff_zip.1 htail |>.2 hmem) (htouches.fileAt ?_)
      exact fun path hpath => names_ne fun heq => hdisjoint hpath <|
        heq ▸ List.mem_flatMap.2 ⟨later, (List.of_mem_zip hmem).1, source_mem_touched env later⟩
    refine (ih affected₁ hnodup hlater).imp_stops ?_ fun _ _ => id
    rintro affected₂ disk₂ ⟨hrest, hall⟩
    refine ⟨(htouches.mono (List.subset_append_left _ _)).trans
      (hrest.mono (List.subset_append_right _ _)), .cons ?_ hall⟩
    refine (made_of_applied hself hchange happlied).congr fun path hpath => hrest.fileAt ?_
    rw [← touched_of_verified hchange] at hpath
    exact fun path' hpath' => names_ne fun heq => hdisjoint hpath (heq ▸ hpath')

/-! ## What is approved -/

theorem nodup_sources (h : (hunks.flatMap env.touched).Nodup) :
    (hunks.map fun hunk => env.resolvePath hunk.source).Nodup := by
  refine h.sublist ?_
  induction hunks with
  | nil => exact .slnil
  | cons hunk hunks ih =>
    rw [List.map_cons, List.flatMap_cons]
    have hhead : [env.resolvePath hunk.source].Sublist (env.touched hunk) :=
      List.singleton_sublist.2 (source_mem_touched env hunk)
    exact hhead.append (ih (h.sublist (List.sublist_append_right _ _)))

/-- The verified changes are those of the hunks. -/
theorem lookup_changes (hnodup : (hunks.flatMap env.touched).Nodup)
    (hlength : hunks.length = made.length) :
    ((hunks.zip made).foldl (fun changes entry =>
        changes.insert (env.resolvePath entry.1.source) entry.2) (∅ : Changes)).lookup path =
      some change ↔ ∃ hunk, (hunk, change) ∈ hunks.zip made ∧
        env.resolvePath hunk.source = path := by
  have hentries : ((hunks.zip made).map fun entry =>
      (env.resolvePath entry.1.source, entry.2)).map Prod.fst =
        hunks.map fun hunk => env.resolvePath hunk.source :=
    calc _ = ((hunks.zip made).map Prod.fst).map fun hunk => env.resolvePath hunk.source := by
          rw [List.map_map, List.map_map]
          rfl
      _ = _ := by rw [List.map_fst_zip hlength.le]
  have hlookup := @mem_entries_iff change path _
    (hentries.symm ▸ nodup_sources hnodup) ∅ fun _ _ => AList.lookup_empty _
  rw [List.foldl_map] at hlookup
  rw [hlookup, AList.lookup_empty]
  simp

/-- **What is approved is what is applied**, where no path is touched twice. A verified patch stops
only for a call that fails. -/
theorem applied_of_verified {disk₀ disk₁ : Disk} (hnodup : (hunks.flatMap env.touched).Nodup)
    (hverify : env.verifyHunks textDiff hunks disk₀ = .ok changes disk₁)
    (hfiles : disk.files = disk₀.files) :
    wp (env.applyHunksToFiles hunks)
      (fun _ disk' => Describes changes disk₀.files disk'.files)
      (Stops fun error _ => hunks = [] ∧ error = .noFilesWereModified ∨
        ∃ context kind, error = .io context kind) disk := by
  obtain ⟨-, made, hmade, rfl⟩ := (wp_verifyHunks_from ∅ hunks disk₀).of_ok hverify
  have hlookup := fun path change => @lookup_changes env hunks change made path hnodup
    hmade.length_eq
  unfold Environment.applyHunksToFiles
  split_ifs with hnil
  · exact .inl ⟨hnil, rfl⟩
  rw [← hfiles] at hmade ⊢
  refine (wp_foldlM_verified {} hnodup hmade).imp_stops ?_ fun _ _ h => .inr h
  rintro affected disk' ⟨htouches, hall⟩
  have hshown : ∀ path change, _ → Made disk'.files path change := fun path change h => by
    obtain ⟨hunk, hmem, rfl⟩ := (hlookup path change).1 h
    exact (List.forall₂_iff_zip.1 hall).2 hmem
  refine ⟨fun path content => hshown path (.add content),
    fun path content => hshown path (.delete content),
    fun path diff newContent => hshown path (.update diff none newContent),
    fun path diff dest newContent => hshown path (.update diff (some dest) newContent), ?_⟩
  intro path hnone hdest
  refine htouches.fileAt fun path' hpath' hnames => ?_
  obtain rfl := AbsolutePathBuf.ext_names hnames
  obtain ⟨hunk, hmem, hpath⟩ := List.mem_flatMap.1 hpath'
  obtain ⟨change, hzip⟩ : ∃ change, (hunk, change) ∈ hunks.zip made := by
    obtain ⟨n, hn, rfl⟩ := List.getElem_of_mem hmem
    have hn' : n < made.length := hmade.length_eq ▸ hn
    exact ⟨made[n], List.mem_iff_getElem.2 ⟨n, by simp [hn, hn'], by simp⟩⟩
  have hsource := (hlookup _ change).2 ⟨hunk, hzip, rfl⟩
  rw [touched_of_verified ((List.forall₂_iff_zip.1 hmade).2 hzip), List.mem_cons,
    Option.mem_toList] at hpath
  rcases hpath with rfl | hpath
  · rw [hnone] at hsource
    cases hsource
  · cases change with
    | add content => cases hpath
    | delete content => cases hpath
    | update diff movePath newContent =>
      cases movePath with
      | none => cases hpath
      | some dest =>
        cases hpath
        exact hdest _ diff newContent hsource

end

/-! ## A patch with a move -/

def plainHost : Host where
  home := none
  tmpdir := none
  isDir _ := false
  isFile _ := false
  fileExists _ := false
  readToString _ := none

/-- The working directory is the root, and no call fails from outside. -/
def workEnvironment : Environment := ⟨plainHost, .root, fun _ => none⟩

/-- A root directory with one file. -/
def notes : Files where
  node path :=
    if path = [] then some .directory
    else if path = ["notes".toList] then some (.file (Utf8.encode "a\n".toList))
    else none
  root := rfl
  parent path name h := by
    split_ifs at h with hroot hfile
    · simp at hroot
    · rw [(List.append_eq_singleton_iff.1 hfile).elim (fun h => h.1)
        fun h => absurd h.2 (by simp)]
      rfl
    · cases h

def renameChunks : List UpdateFileChunk := [⟨none, [['a']], [['b']], false⟩]

def renameNotes : List Hunk :=
  [.updateFile "notes".toList (some "done".toList) renameChunks, .addFile "list".toList ['c']]

def renamedChange : ApplyPatchFileChange :=
  .update ['b', '\n'] (some (workEnvironment.resolvePath "done".toList)) ['b', '\n']

def renamedChanges : Changes :=
  ((∅ : Changes).insert (workEnvironment.resolvePath "notes".toList) renamedChange).insert
    (workEnvironment.resolvePath "list".toList) (.add ['c'])

theorem verifyHunks_renameNotes :
    workEnvironment.verifyHunks (fun _ newContents => newContents) renameNotes ⟨notes, 0⟩ =
      .ok renamedChanges ⟨notes, 1⟩ := by
  have hread : readText notes (workEnvironment.resolvePath "notes".toList) = .ok "a\n".toList :=
    readText_eq_ok_iff.2 ⟨_, rfl, by decide, Utf8.fromUtf8_encode _⟩
  have hcall : workEnvironment.readFileText (workEnvironment.resolvePath "notes".toList)
      ⟨notes, 0⟩ = .ok "a\n".toList ⟨notes, 1⟩ := by
    simp only [Environment.readFileText, Environment.call, hread]
    rfl
  have hverify : workEnvironment.verifyHunk (fun _ newContents => newContents)
      (.updateFile "notes".toList (some "done".toList) renameChunks) ⟨notes, 0⟩ =
        .ok renamedChange ⟨notes, 1⟩ := by
    simp only [Environment.verifyHunk, Environment.deriveNewContentsFromChunks, bind,
      EStateM.bind, mapErr, Hunk.source, hcall]
    rfl
  simp only [Environment.verifyHunks, renameNotes, List.foldlM_cons, bind, EStateM.bind, hverify]
  rfl

theorem applied_of_verified_rename :
    wp (workEnvironment.applyHunksToFiles renameNotes)
      (fun _ disk' => Describes renamedChanges notes disk'.files)
      (Stops fun error _ => renameNotes = [] ∧ error = .noFilesWereModified ∨
        ∃ context kind, error = .io context kind) ⟨notes, 1⟩ :=
  applied_of_verified (by decide) verifyHunks_renameNotes rfl

end Mcodex.ApplyPatch
