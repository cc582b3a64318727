import Mathlib.Data.List.AList
import Mcodex.ApplyPatch.Replacements
import Mcodex.Lib.FileTree
import Mcodex.Lib.Utf8
import Mcodex.Permissions.Path

/-!
# Applying a patch

The hunks of a patch are applied one after the other. Each call to the file system may fail, of what
the files are or of anything else (`Environment.fault`), and a write that fails may leave its file
with other contents. What a hunk leaves is said by the paths that it touches
(`applyHunk_spec`), and a patch that stops leaves the paths of the hunks after it alone
(`applyHunksToFiles_spec`).
-/

namespace Mcodex.ApplyPatch

open Effect Permissions
open FileTree (ErrorKind)

abbrev Files := FileTree (List Char) (List UInt8)

/-- Why a call fails whatever the files are, and what a write that fails leaves in its file. -/
structure Fault where
  kind : ErrorKind
  left : Option (List UInt8)

/-- The files, and how many calls were made. -/
structure Disk where
  files : Files
  calls : Nat

/-- The host that resolves paths, the working directory and the fault of each call. -/
structure Environment where
  host : Host
  cwd : AbsolutePathBuf
  fault : Nat → Option Fault

def maxReadFileBytes : Nat := 512 * 1024 * 1024

inductive ApplyError
  | noFilesWereModified
  | io (context : String) (kind : ErrorKind)
  | computeReplacements (message : String)
  deriving DecidableEq

def display (path : AbsolutePathBuf) : String := String.ofList path.text

/-! ## The calls -/

/-- The text of a file that is not too large. -/
def readText (files : Files) (path : AbsolutePathBuf) : Except ErrorKind (List Char) := do
  let bytes ← files.read path.names
  if bytes.length > maxReadFileBytes then .error .invalidInput
  else
    match Utf8.fromUtf8 bytes with
    | .ok text => .ok text
    | .error _ => .error .invalidData

namespace Environment

variable (env : Environment)

/-- A call that may fail from outside. `torn` says what a write leaves then. -/
def call {α : Type} (torn : List UInt8 → Files → Files)
    (x : Files → Except ErrorKind (α × Files)) : Prog Disk ErrorKind α := fun disk =>
  match env.fault disk.calls with
  | some fault => .error (.raised fault.kind)
      { files := fault.left.elim disk.files (torn · disk.files), calls := disk.calls + 1 }
  | none =>
    match x disk.files with
    | .ok (a, files) => .ok a { files, calls := disk.calls + 1 }
    | .error kind => .error (.raised kind) { disk with calls := disk.calls + 1 }

def readFileText (path : AbsolutePathBuf) : Prog Disk ErrorKind (List Char) :=
  env.call (fun _ files => files) fun files => (readText files path).map (·, files)

def writeFile (path : AbsolutePathBuf) (contents : List UInt8) : Prog Disk ErrorKind Unit :=
  env.call (fun left files => orElseKeep files (files.write path.names left)) fun files =>
    (files.write path.names contents).map ((), ·)

def createDirectory (path : AbsolutePathBuf) : Prog Disk ErrorKind Unit :=
  env.call (fun _ files => files) fun files => (files.createDirectories path.names).map ((), ·)

/-- `get_metadata`, of which only `is_directory` is read. -/
def getMetadata (path : AbsolutePathBuf) : Prog Disk ErrorKind Bool :=
  env.call (fun _ files => files) fun files => (files.isDirectory path.names).map (·, files)

/-- `remove`, of what is no directory. -/
def remove (path : AbsolutePathBuf) : Prog Disk ErrorKind Unit :=
  env.call (fun _ files => files) fun files => (files.remove path.names).map ((), ·)

/-! ## The hunks -/

def resolvePath (path : List Char) : AbsolutePathBuf := env.host.join env.cwd path

end Environment

namespace Hunk

/-- The path affected by a hunk, which is the destination of a move. -/
def path : Hunk → List Char
  | addFile path _ | deleteFile path | updateFile path none _ => path
  | updateFile _ (some path) _ => path

/-- The path that a hunk is resolved to. -/
def source : Hunk → List Char
  | addFile path _ | deleteFile path | updateFile path _ _ => path

end Hunk

structure AppliedPatch where
  originalContents : List Char
  newContents : List Char

/-- The lines of a text, without the empty one after a final newline. -/
def linesOf (text : List Char) : List Line :=
  let lines := text.splitOn '\n'
  if endsEmpty lines then lines.dropLast else lines

/-- The text of lines, with a final newline. -/
def joinLines (lines : List Line) : List Char :=
  ['\n'].intercalate (if endsEmpty lines then lines else lines ++ [[]])

def newContentsOf (original : List Char) (path : String) (chunks : List UpdateFileChunk) :
    Except ApplyPatchError (List Char) :=
  let lines := linesOf original
  (computeReplacements lines path chunks).map fun replacements =>
    joinLines (applyReplacements lines replacements)

structure AffectedPaths where
  added : List (List Char) := []
  modified : List (List Char) := []
  deleted : List (List Char) := []
  deriving DecidableEq

namespace AffectedPaths

def add (affected : AffectedPaths) (path : List Char) : AffectedPaths :=
  { affected with added := affected.added ++ [path] }

def modify (affected : AffectedPaths) (path : List Char) : AffectedPaths :=
  { affected with modified := affected.modified ++ [path] }

def delete (affected : AffectedPaths) (path : List Char) : AffectedPaths :=
  { affected with deleted := affected.deleted ++ [path] }

end AffectedPaths

namespace Environment

variable (env : Environment)

def createParentDirectories (path : AbsolutePathBuf) : Prog Disk ApplyError Unit :=
  match path.parent with
  | some parent => mapErr (.io ("Failed to create parent directories for " ++ display path))
      (env.createDirectory parent)
  | none => pure ()

def writeFileWithMissingParentRetry (path : AbsolutePathBuf) (contents : List UInt8) :
    Prog Disk ApplyError Unit := do
  match ← attempt (env.writeFile path contents) with
  | .ok _ => pure ()
  | .error .notFound =>
    env.createParentDirectories path
    mapErr (.io ("Failed to write file " ++ display path)) (env.writeFile path contents)
  | .error kind => raise (.io ("Failed to write file " ++ display path) kind)

def deriveNewContentsFromChunks (path : AbsolutePathBuf) (chunks : List UpdateFileChunk) :
    Prog Disk ApplyError AppliedPatch := do
  let originalContents ←
    mapErr (.io ("Failed to read file to update " ++ display path)) (env.readFileText path)
  match newContentsOf originalContents (display path) chunks with
  | .ok newContents => pure { originalContents, newContents }
  | .error (.computeReplacements message) => raise (.computeReplacements message)

/-- A file is removed unless it is a directory. -/
def removeFile (path : AbsolutePathBuf) : Prog Disk ErrorKind Unit := do
  if ← env.getMetadata path then raise .invalidInput
  else env.remove path

/-- The body of the loop over the hunks. -/
def applyHunk (affected : AffectedPaths) (hunk : Hunk) : Prog Disk ApplyError AffectedPaths := do
  let pathAbs := env.resolvePath hunk.source
  match hunk with
  | .addFile _ contents =>
    env.writeFileWithMissingParentRetry pathAbs (Utf8.encode contents)
    pure (affected.add hunk.path)
  | .deleteFile _ =>
    mapErr (.io ("Failed to delete file " ++ display pathAbs)) (env.removeFile pathAbs)
    pure (affected.delete hunk.path)
  | .updateFile _ movePath chunks =>
    let applied ← env.deriveNewContentsFromChunks pathAbs chunks
    match movePath with
    | some dest =>
      env.writeFileWithMissingParentRetry (env.resolvePath dest)
        (Utf8.encode applied.newContents)
      mapErr (.io ("Failed to remove original " ++ display pathAbs)) (env.removeFile pathAbs)
      pure (affected.modify hunk.path)
    | none =>
      mapErr (.io ("Failed to write file " ++ display pathAbs))
        (env.writeFile pathAbs (Utf8.encode applied.newContents))
      pure (affected.modify hunk.path)

def applyHunksToFiles (hunks : List Hunk) : Prog Disk ApplyError AffectedPaths :=
  if hunks = [] then raise .noFilesWereModified
  else hunks.foldlM env.applyHunk {}

end Environment

/-! ## What is touched -/

/-- The paths that a hunk reads or writes. -/
def Environment.touched (env : Environment) : Hunk → List AbsolutePathBuf
  | .addFile path _ | .deleteFile path | .updateFile path none _ => [env.resolvePath path]
  | .updateFile path (some dest) _ => [env.resolvePath path, env.resolvePath dest]

/-- The summary of hunks that are applied. -/
def AffectedPaths.record (affected : AffectedPaths) (hunk : Hunk) : AffectedPaths :=
  match hunk with
  | .addFile .. => affected.add hunk.path
  | .deleteFile .. => affected.delete hunk.path
  | .updateFile .. => affected.modify hunk.path

namespace Environment

/-- What a hunk leaves that is applied to some files. -/
def Applied (env : Environment) (files files' : Files) : Hunk → Prop
  | .addFile path contents =>
    files'.fileAt (env.resolvePath path).names = some (Utf8.encode contents)
  | .deleteFile path => files'.fileAt (env.resolvePath path).names = none
  | .updateFile path movePath chunks => ∃ text newContents,
    readText files (env.resolvePath path) = .ok text ∧
    newContentsOf text (display (env.resolvePath path)) chunks = .ok newContents ∧
    match movePath with
    | none => files'.fileAt (env.resolvePath path).names = some (Utf8.encode newContents)
    | some dest => files'.fileAt (env.resolvePath path).names = none ∧
      (env.resolvePath dest ≠ env.resolvePath path →
        files'.fileAt (env.resolvePath dest).names = some (Utf8.encode newContents))

/-- What a hunk keeps that takes a file away and fails. -/
def KeepsSource (env : Environment) (files files' : Files) : Hunk → Prop
  | .deleteFile path => files'.fileAt (env.resolvePath path).names =
      files.fileAt (env.resolvePath path).names
  | .updateFile path (some dest) _ => env.resolvePath dest ≠ env.resolvePath path →
    files'.fileAt (env.resolvePath path).names = files.fileAt (env.resolvePath path).names
  | _ => True

/-- A hunk fails of a call, or of a file that its chunks do not match. -/
def Rejects (env : Environment) (files files' : Files) (hunk : Hunk) (error : ApplyError) : Prop :=
  (∃ context kind, error = .io context kind) ∨
    files' = files ∧ ∃ path movePath chunks text message,
      hunk = .updateFile path movePath chunks ∧
      readText files (env.resolvePath path) = .ok text ∧
      newContentsOf text (display (env.resolvePath path)) chunks =
        .error (.computeReplacements message) ∧
      error = .computeReplacements message

end Environment

/-- Nothing changes but at some paths, and directories above them are made. -/
def Touches (paths : List AbsolutePathBuf) (files files' : Files) : Prop :=
  ∀ names, (∀ path ∈ paths, path.names ≠ names) → files'.node names = files.node names ∨
    (∃ path ∈ paths, names <+: path.names) ∧ files.node names = none ∧
      files'.node names = some .directory

section
variable {env : Environment} {disk : Disk} {files files' files'' : Files}
  {path path' : AbsolutePathBuf} {paths paths' : List AbsolutePathBuf} {hunk : Hunk}
  {hunks : List Hunk} {contents : List UInt8} {names : List (List Char)} {context : String}

theorem Touches.refl (paths : List AbsolutePathBuf) (files : Files) : Touches paths files files :=
  fun _ _ => .inl rfl

theorem Touches.trans (h : Touches paths files files') (h' : Touches paths files' files'') :
    Touches paths files files'' := by
  intro names hnames
  rcases h names hnames with heq | ⟨hpre, hnone, hdir⟩
  · rcases h' names hnames with heq' | ⟨hpre, hnone, hdir⟩
    · exact .inl (heq'.trans heq)
    · exact .inr ⟨hpre, heq ▸ hnone, hdir⟩
  · rcases h' names hnames with heq' | ⟨-, hnone', -⟩
    · exact .inr ⟨hpre, hnone, heq'.trans hdir⟩
    · rw [hdir] at hnone'
      cases hnone'

theorem Touches.mono (h : Touches paths files files') (hsub : paths ⊆ paths') :
    Touches paths' files files' := by
  intro names hnames
  refine (h names fun path hmem => hnames path (hsub hmem)).imp_right ?_
  rintro ⟨⟨path, hmem, hpre⟩, hrest⟩
  exact ⟨⟨path, hsub hmem, hpre⟩, hrest⟩

/-- A file at another path stays as it is. -/
theorem Touches.fileAt (h : Touches paths files files')
    (hnames : ∀ path ∈ paths, path.names ≠ names) :
    files'.fileAt names = files.fileAt names := by
  rcases h names hnames with heq | ⟨-, hnone, hdir⟩
  · exact FileTree.fileAt_congr heq
  · rw [FileTree.fileAt, FileTree.fileAt, hnone, hdir]

theorem touches_write (h : files.write path.names contents = .ok files') :
    Touches [path] files files' := by
  intro names hnames
  have hne := (hnames path (List.mem_singleton_self path)).symm
  exact .inl ((FileTree.write_node h names).trans (if_neg hne))

theorem touches_remove (h : files.remove path.names = .ok files') :
    Touches [path] files files' := by
  intro names hnames
  have hne := (hnames path (List.mem_singleton_self path)).symm
  exact .inl ((FileTree.remove_node h names).trans (if_neg hne))

theorem touches_createDirectories (h : files.createDirectories path.names = .ok files')
    (hpre : path.names <+: path'.names) : Touches [path'] files files' := by
  intro names _
  refine (FileTree.createDirectories_node h names).imp_right ?_
  rintro ⟨hnames, hrest⟩
  exact ⟨⟨path', List.mem_singleton_self path', hnames.trans hpre⟩, hrest⟩

/-! ## The calls -/

theorem wp_call {α : Type} {torn : List UInt8 → Files → Files}
    {x : Files → Except ErrorKind (α × Files)} {Q : α → Disk → Prop}
    {P : ErrorKind → Disk → Prop}
    (hok : ∀ a files, x disk.files = .ok (a, files) → Q a ⟨files, disk.calls + 1⟩)
    (herror : ∀ kind, P kind ⟨disk.files, disk.calls + 1⟩)
    (htorn : ∀ kind left, P kind ⟨torn left disk.files, disk.calls + 1⟩) :
    wp (env.call torn x) Q (Stops P) disk := by
  unfold wp Environment.call
  split
  · next a disk' hrun =>
    split at hrun
    · cases hrun
    · split at hrun
      · next a' files hx =>
        cases hrun
        exact hok a files hx
      · cases hrun
  · next e disk' hrun =>
    split at hrun
    · next fault _ =>
      cases hrun
      cases hleft : fault.left with
      | none => exact herror _
      | some left => exact htorn _ left
    · split at hrun
      · cases hrun
      · cases hrun
        exact herror _

theorem readText_eq_ok_iff {text : List Char} : readText files path = .ok text ↔
    ∃ bytes, files.fileAt path.names = some bytes ∧ bytes.length ≤ maxReadFileBytes ∧
      Utf8.fromUtf8 bytes = .ok text := by
  rw [readText, bind_eq_ok]
  refine exists_congr fun bytes => and_congr FileTree.read_eq_ok_iff ?_
  split_ifs with hlong
  · exact ⟨nofun, fun h => absurd h.1 (Nat.not_le.2 hlong)⟩
  · rw [and_iff_right (Nat.not_lt.1 hlong)]
    cases Utf8.fromUtf8 bytes with
    | ok text' =>
      constructor
      · rintro ⟨⟩
        rfl
      · rintro ⟨⟩
        rfl
    | error e => exact ⟨nofun, nofun⟩

theorem wp_readFileText : wp (env.readFileText path)
    (fun text disk' => readText disk.files path = .ok text ∧ disk'.files = disk.files)
    (Stops fun _ disk' => disk'.files = disk.files) disk := by
  refine wp_call (fun text files h => ?_) (fun _ => rfl) fun _ _ => rfl
  cases hread : readText disk.files path with
  | ok text' =>
    rw [hread] at h
    cases h
    exact ⟨rfl, rfl⟩
  | error kind =>
    rw [hread] at h
    cases h

theorem except_map_unit {x : Except ErrorKind Files} {a : Unit}
    (h : x.map ((), ·) = .ok (a, files)) : x = .ok files := by
  cases x with
  | ok files' =>
    cases h
    rfl
  | error kind => cases h

theorem wp_writeFile : wp (env.writeFile path contents)
    (fun _ disk' => Touches [path] disk.files disk'.files ∧
      disk'.files.fileAt path.names = some contents)
    (Stops fun _ disk' => Touches [path] disk.files disk'.files) disk := by
  refine wp_call (fun _ files h => ?_) (fun _ => .refl _ _) fun _ left => ?_
  · have hwrite := except_map_unit h
    refine ⟨touches_write hwrite, ?_⟩
    rw [FileTree.fileAt_write hwrite, if_pos rfl]
  · exact orElseKeep_rel (.refl _ _) fun files' hwrite => touches_write hwrite

theorem wp_createDirectory (hpre : path.names <+: path'.names) : wp (env.createDirectory path)
    (fun _ disk' => Touches [path'] disk.files disk'.files)
    (Stops fun _ disk' => Touches [path'] disk.files disk'.files) disk :=
  wp_call (fun _ _ h => touches_createDirectories (except_map_unit h) hpre) (fun _ => .refl _ _)
    fun _ _ => .refl _ _

theorem wp_getMetadata : wp (env.getMetadata path) (fun _ disk' => disk'.files = disk.files)
    (Stops fun _ disk' => disk'.files = disk.files) disk := by
  refine wp_call (fun _ files h => ?_) (fun _ => rfl) fun _ _ => rfl
  cases hdir : disk.files.isDirectory path.names with
  | ok isDirectory =>
    rw [hdir] at h
    cases h
    rfl
  | error kind =>
    rw [hdir] at h
    cases h

theorem wp_remove : wp (env.remove path)
    (fun _ disk' => Touches [path] disk.files disk'.files ∧
      disk'.files.fileAt path.names = none)
    (Stops fun _ disk' => disk'.files = disk.files) disk := by
  refine wp_call (fun _ files h => ?_) (fun _ => rfl) fun _ _ => rfl
  have hremove := except_map_unit h
  refine ⟨touches_remove hremove, ?_⟩
  rw [FileTree.fileAt_remove hremove, if_pos rfl]

/-! ## The hunks -/

theorem parent_isPrefix (h : path.parent = some path') : path'.names <+: path.names := by
  unfold AbsolutePathBuf.parent at h
  split_ifs at h
  cases h
  exact List.dropLast_prefix _

theorem wp_createParentDirectories : wp (env.createParentDirectories path)
    (fun _ disk' => Touches [path] disk.files disk'.files)
    (Stops fun error disk' => (∃ context kind, error = .io context kind) ∧
      Touches [path] disk.files disk'.files) disk := by
  unfold Environment.createParentDirectories
  split
  · next parent hparent =>
    exact wp_mapErr_stops ((wp_createDirectory (parent_isPrefix hparent)).imp_stops
      (fun _ _ => id) fun _ _ h => ⟨⟨_, _, rfl⟩, h⟩)
  · exact .refl _ _

theorem wp_writeFile_io : wp (mapErr (ApplyError.io context) (env.writeFile path contents))
    (fun _ disk' => Touches [path] disk.files disk'.files ∧
      disk'.files.fileAt path.names = some contents)
    (Stops fun error disk' => (∃ context kind, error = .io context kind) ∧
      Touches [path] disk.files disk'.files) disk :=
  wp_mapErr_stops (wp_writeFile.imp_stops (fun _ _ => id) fun _ _ h => ⟨⟨_, _, rfl⟩, h⟩)

theorem wp_writeFileWithMissingParentRetry :
    wp (env.writeFileWithMissingParentRetry path contents)
      (fun _ disk' => Touches [path] disk.files disk'.files ∧
        disk'.files.fileAt path.names = some contents)
      (Stops fun error disk' => (∃ context kind, error = .io context kind) ∧
        Touches [path] disk.files disk'.files) disk := by
  unfold Environment.writeFileWithMissingParentRetry
  rw [wp_bind]
  refine wp_attempt_stops (wp_writeFile.imp_stops (fun _ disk₁ h => h) fun kind disk₁ htorn => ?_)
  by_cases hkind : kind = .notFound
  · subst hkind
    rw [wp_bind]
    refine wp_createParentDirectories.imp_stops (fun _ disk₂ hparents => ?_)
      fun error disk₂ h => ⟨h.1, htorn.trans h.2⟩
    exact wp_writeFile_io.imp_stops
      (fun _ disk₃ h => ⟨htorn.trans (hparents.trans h.1), h.2⟩)
      fun error disk₃ h => ⟨h.1, htorn.trans (hparents.trans h.2)⟩
  · cases kind with
    | notFound => exact absurd rfl hkind
    | isADirectory | notADirectory | invalidInput | invalidData | permissionDenied | other =>
      exact ⟨⟨_, _, rfl⟩, htorn⟩

theorem wp_deriveNewContentsFromChunks {chunks : List UpdateFileChunk} :
    wp (env.deriveNewContentsFromChunks path chunks)
      (fun applied disk' => disk'.files = disk.files ∧
        readText disk.files path = .ok applied.originalContents ∧
        newContentsOf applied.originalContents (display path) chunks = .ok applied.newContents)
      (Stops fun error disk' => disk'.files = disk.files ∧
        ((∃ context kind, error = .io context kind) ∨ ∃ text message,
          readText disk.files path = .ok text ∧
          newContentsOf text (display path) chunks = .error (.computeReplacements message) ∧
          error = .computeReplacements message)) disk := by
  unfold Environment.deriveNewContentsFromChunks
  rw [wp_bind]
  refine wp_mapErr_stops (wp_readFileText.imp_stops (fun text disk₁ hread => ?_)
    fun kind disk₁ h => ⟨h, .inl ⟨_, _, rfl⟩⟩)
  cases hnew : newContentsOf text (display path) chunks with
  | ok newContents => exact ⟨hread.2, hread.1, hnew⟩
  | error error =>
    cases error with
    | computeReplacements message => exact ⟨hread.2, .inr ⟨text, message, hread.1, hnew, rfl⟩⟩

theorem wp_removeFile : wp (mapErr (ApplyError.io context) (env.removeFile path))
    (fun _ disk' => Touches [path] disk.files disk'.files ∧
      disk'.files.fileAt path.names = none)
    (Stops fun error disk' => (∃ context kind, error = .io context kind) ∧
      disk'.files = disk.files) disk := by
  refine wp_mapErr_stops ?_
  unfold Environment.removeFile
  rw [wp_bind]
  refine wp_getMetadata.imp_stops (fun isDirectory disk₁ hsame => ?_)
    fun kind disk₁ h => ⟨⟨_, _, rfl⟩, h⟩
  split
  · exact ⟨⟨_, _, rfl⟩, hsame⟩
  · refine wp_remove.imp_stops (fun _ disk₂ h => ?_)
      fun kind disk₂ h => ⟨⟨_, _, rfl⟩, h.trans hsame⟩
    rw [← hsame]
    exact h

/-- What a hunk leaves, applied or not. -/
def Environment.HunkSpec (env : Environment) (affected : AffectedPaths) (hunk : Hunk)
    (disk : Disk) : Prop :=
  wp (env.applyHunk affected hunk)
    (fun affected' disk' => affected' = affected.record hunk ∧
      Touches (env.touched hunk) disk.files disk'.files ∧
      env.Applied disk.files disk'.files hunk)
    (Stops fun error disk' => Touches (env.touched hunk) disk.files disk'.files ∧
      env.KeepsSource disk.files disk'.files hunk ∧
      env.Rejects disk.files disk'.files hunk error) disk

theorem names_ne (h : path ≠ path') : path.names ≠ path'.names :=
  fun hnames => h (AbsolutePathBuf.ext_names hnames)

theorem wp_applyHunk_add {affected : AffectedPaths} {path contents : List Char} :
    env.HunkSpec affected (.addFile path contents) disk := by
  simp only [Environment.HunkSpec, Environment.applyHunk, wp_bind]
  exact wp_writeFileWithMissingParentRetry.imp_stops (fun _ disk' h => ⟨rfl, h⟩)
    fun error disk' h => ⟨h.2, trivial, .inl h.1⟩

theorem wp_applyHunk_delete {affected : AffectedPaths} {path : List Char} :
    env.HunkSpec affected (.deleteFile path) disk := by
  simp only [Environment.HunkSpec, Environment.applyHunk, wp_bind]
  refine wp_removeFile.imp_stops (fun _ disk' h => ⟨rfl, h⟩) ?_
  rintro error disk' ⟨hio, hsame⟩
  rw [hsame]
  exact ⟨.refl _ _, rfl, .inl hio⟩

theorem wp_applyHunk_update {affected : AffectedPaths} {path : List Char}
    {chunks : List UpdateFileChunk} :
    env.HunkSpec affected (.updateFile path none chunks) disk := by
  simp only [Environment.HunkSpec, Environment.applyHunk, wp_bind]
  refine wp_deriveNewContentsFromChunks.imp_stops ?_ ?_
  · rintro applied disk₁ ⟨hsame, hread, hnew⟩
    refine wp_writeFile_io.imp_stops (fun _ disk₂ h => ?_) fun error disk₂ h => ?_
    · rw [hsame] at h
      exact ⟨rfl, h.1, _, _, hread, hnew, h.2⟩
    · rw [hsame] at h
      exact ⟨h.2, trivial, .inl h.1⟩
  · rintro error disk₁ ⟨hsame, herror⟩
    rw [hsame]
    refine ⟨.refl _ _, trivial, herror.imp_right ?_⟩
    rintro ⟨text, message, hread, hnew, rfl⟩
    exact ⟨rfl, path, none, chunks, text, message, rfl, hread, hnew, rfl⟩

theorem wp_applyHunk_move {affected : AffectedPaths} {path dest : List Char}
    {chunks : List UpdateFileChunk} :
    env.HunkSpec affected (.updateFile path (some dest) chunks) disk := by
  have hdest : [env.resolvePath dest] ⊆ env.touched (.updateFile path (some dest) chunks) :=
    List.subset_cons_self _ _
  have hsource : [env.resolvePath path] ⊆ env.touched (.updateFile path (some dest) chunks) :=
    List.cons_subset_cons _ (List.nil_subset _)
  have hkeeps : ∀ {files files' : Files}, Touches [env.resolvePath dest] files files' →
      env.KeepsSource files files' (.updateFile path (some dest) chunks) := fun h hne =>
    h.fileAt fun path' hmem => List.mem_singleton.1 hmem ▸ names_ne hne
  simp only [Environment.HunkSpec, Environment.applyHunk, wp_bind]
  refine wp_deriveNewContentsFromChunks.imp_stops ?_ ?_
  · rintro applied disk₁ ⟨hsame, hread, hnew⟩
    refine wp_writeFileWithMissingParentRetry.imp_stops ?_ ?_
    · rintro _ disk₂ ⟨hwrite, hwritten⟩
      rw [hsame] at hwrite
      refine wp_removeFile.imp_stops ?_ ?_
      · rintro _ disk₃ ⟨hremove, hremoved⟩
        refine ⟨rfl, (hwrite.mono hdest).trans (hremove.mono hsource), _, _, hread, hnew, hremoved,
          fun hne => ?_⟩
        rw [hremove.fileAt fun path' hmem => List.mem_singleton.1 hmem ▸ (names_ne hne).symm]
        exact hwritten
      · rintro error disk₃ ⟨hio, hleft⟩
        rw [hleft]
        exact ⟨hwrite.mono hdest, hkeeps hwrite, .inl hio⟩
    · rintro error disk₂ ⟨hio, hwrite⟩
      rw [hsame] at hwrite
      exact ⟨hwrite.mono hdest, hkeeps hwrite, .inl hio⟩
  · rintro error disk₁ ⟨hsame, herror⟩
    rw [hsame]
    refine ⟨.refl _ _, fun _ => rfl, herror.imp_right ?_⟩
    rintro ⟨text, message, hread, hnew, rfl⟩
    exact ⟨rfl, path, some dest, chunks, text, message, rfl, hread, hnew, rfl⟩

theorem wp_applyHunk (affected : AffectedPaths) (hunk : Hunk) (disk : Disk) :
    env.HunkSpec affected hunk disk := by
  cases hunk with
  | addFile path contents => exact wp_applyHunk_add
  | deleteFile path => exact wp_applyHunk_delete
  | updateFile path movePath chunks =>
    cases movePath with
    | none => exact wp_applyHunk_update
    | some dest => exact wp_applyHunk_move

/-! ## A patch -/

theorem wp_foldlM_applyHunk (affected : AffectedPaths) (hunks : List Hunk) (disk : Disk) :
    wp (hunks.foldlM env.applyHunk affected)
      (fun affected' disk' => affected' = hunks.foldl AffectedPaths.record affected ∧
        Touches (hunks.flatMap env.touched) disk.files disk'.files)
      (Stops fun error disk' => ∃ done hunk rest disk₁, hunks = done ++ hunk :: rest ∧
        done.foldlM env.applyHunk affected disk =
          .ok (done.foldl AffectedPaths.record affected) disk₁ ∧
        Touches (done.flatMap env.touched) disk.files disk₁.files ∧
        Touches (env.touched hunk) disk₁.files disk'.files ∧
        env.KeepsSource disk₁.files disk'.files hunk ∧
        env.Rejects disk₁.files disk'.files hunk error) disk := by
  induction hunks generalizing affected disk with
  | nil => exact ⟨rfl, .refl _ _⟩
  | cons hunk hunks ih =>
    rw [List.foldlM_cons, wp_bind]
    refine (wp_applyHunk affected hunk disk).with_run.imp_stops ?_ ?_
    · rintro affected₁ disk₁ ⟨hrun, rfl, htouches, -⟩
      refine (ih _ disk₁).imp_stops ?_ ?_
      · rintro affected₂ disk₂ ⟨rfl, hrest⟩
        exact ⟨rfl, (htouches.mono (List.subset_append_left _ _)).trans
          (hrest.mono (List.subset_append_right _ _))⟩
      · rintro error disk₂ ⟨done, failing, rest, disk₃, rfl, hdone, hbefore, hfailing⟩
        refine ⟨hunk :: done, failing, rest, disk₃, rfl, ?_,
          (htouches.mono (List.subset_append_left _ _)).trans
            (hbefore.mono (List.subset_append_right _ _)), hfailing⟩
        simp only [List.foldlM_cons, bind, EStateM.bind, hrun]
        exact hdone
    · rintro error disk₁ hfails
      exact ⟨[], hunk, hunks, disk, rfl, rfl, .refl _ _, hfails⟩

end

end Mcodex.ApplyPatch
