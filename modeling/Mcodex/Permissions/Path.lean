import Mathlib.Data.List.Infix

/-!
# Absolute paths

An absolute path is the list of its names after the filesystem root. The names are normal: a path
that is resolved against a base is normalised by its text alone, so no `.` or `..` is left. There
are no symbolic links here: normalising the effective path of an entry gives the path itself.
-/

namespace Mcodex.Permissions

/-- `Component::Normal`. -/
def IsNormal (name : List Char) : Prop :=
  name ≠ [] ∧ '/' ∉ name ∧ name ≠ ".".toList ∧ name ≠ "..".toList

instance (name : List Char) : Decidable (IsNormal name) := by
  unfold IsNormal
  infer_instance

/-- A path as it is written: whether it begins at the root, and its components. -/
structure PathBuf where
  absolute : Bool
  components : List (List Char)
  deriving DecidableEq

/-- A path that is guaranteed to be absolute and normalized. -/
structure AbsolutePathBuf where
  names : List (List Char)
  normal : ∀ name ∈ names, IsNormal name
  deriving DecidableEq

/-- The components of a text: what stands between separators, without `.` except in front of a
relative path. -/
def PathBuf.ofText (text : List Char) : PathBuf :=
  let parts := (text.splitOn '/').filter (· ≠ [])
  if text.head? = some '/' then ⟨true, parts.filter (· ≠ ".".toList)⟩
  else ⟨false, parts.take 1 ++ (parts.drop 1).filter (· ≠ ".".toList)⟩

/-- What the code asks its host for: the home directory, `TMPDIR` as an absolute path where it is
set and not empty, and the files. -/
structure Host where
  home : Option PathBuf
  tmpdir : Option AbsolutePathBuf
  isDir : AbsolutePathBuf → Bool
  isFile : AbsolutePathBuf → Bool
  fileExists : AbsolutePathBuf → Bool
  readToString : AbsolutePathBuf → Option (List Char)

namespace AbsolutePathBuf

variable {path base : AbsolutePathBuf}

theorem ext_names (h : path.names = base.names) : path = base := by
  cases path
  cases base
  cases h
  rfl

def root : AbsolutePathBuf := ⟨[], by simp⟩

/-- The step of `normalize_path` for one component. -/
def pushComponent (path : AbsolutePathBuf) (component : List Char) : AbsolutePathBuf :=
  if component = "..".toList then
    ⟨path.names.dropLast, fun name h => path.normal name (List.mem_of_mem_dropLast h)⟩
  else if h : IsNormal component then
    ⟨path.names ++ [component], by
      intro name hname
      rcases List.mem_append.1 hname with hname | hname
      · exact path.normal name hname
      · exact List.mem_singleton.1 hname ▸ h⟩
  else path

/-- `Path::starts_with`. -/
def startsWith (path base : AbsolutePathBuf) : Bool := base.names <+: path.names

theorem startsWith_iff : path.startsWith base ↔ base.names <+: path.names := decide_eq_true_iff

def parent (path : AbsolutePathBuf) : Option AbsolutePathBuf :=
  if path.names = [] then none
  else some ⟨path.names.dropLast, fun name h => path.normal name (List.mem_of_mem_dropLast h)⟩

/-- The number of components, with the one for the root. -/
def componentsCount (path : AbsolutePathBuf) : Nat := path.names.length + 1

/-- The text of a path. -/
def text (path : AbsolutePathBuf) : List Char :=
  if path.names = [] then ['/'] else path.names.flatMap ('/' :: ·)

def slashTmp : AbsolutePathBuf := ⟨["tmp".toList], by simp; decide⟩

end AbsolutePathBuf

namespace Host

variable (host : Host)

def maybeExpandHomeDirectory (path : PathBuf) : PathBuf :=
  match path.absolute, path.components, host.home with
  | false, ['~'] :: rest, some home => ⟨home.absolute, home.components ++ rest⟩
  | _, _, _ => path

def resolvePathAgainstBase (path : PathBuf) (base : AbsolutePathBuf) : AbsolutePathBuf :=
  let expanded := host.maybeExpandHomeDirectory path
  expanded.components.foldl AbsolutePathBuf.pushComponent
    (if expanded.absolute then .root else base)

def join (base : AbsolutePathBuf) (path : List Char) : AbsolutePathBuf :=
  host.resolvePathAgainstBase (.ofText path) base

end Host

/-! ## The text of a path -/

theorem splitOn_flatMap {pre : List Char} {names : List (List Char)} (hpre : '/' ∉ pre)
    (h : ∀ name ∈ names, '/' ∉ name) :
    (pre ++ names.flatMap ('/' :: ·)).splitOn '/' = pre :: names := by
  induction names generalizing pre with
  | nil => rw [List.flatMap_nil, List.append_nil, List.splitOn_eq_singleton hpre]
  | cons name names ih =>
    rw [List.forall_mem_cons] at h
    rw [List.flatMap_cons, List.cons_append, List.splitOn_append_cons_self_of_not_mem hpre,
      ih h.1 h.2]

theorem PathBuf.ofText_text (path : AbsolutePathBuf) :
    PathBuf.ofText path.text = ⟨true, path.names⟩ := by
  obtain ⟨names, normal⟩ := path
  cases names with
  | nil => rfl
  | cons name names =>
    have hsplit : ((name :: names).flatMap ('/' :: ·)).splitOn '/' = [] :: name :: names :=
      splitOn_flatMap (List.not_mem_nil) fun name h => (normal name h).2.1
    have hparts : ([] :: name :: names).filter (· ≠ []) = name :: names := by
      rw [List.filter_cons_of_neg (by simp), List.filter_eq_self]
      exact fun name h => decide_eq_true (normal name h).1
    have hdots : (name :: names).filter (· ≠ ".".toList) = name :: names :=
      List.filter_eq_self.2 fun name h => decide_eq_true (normal name h).2.2.1
    rw [AbsolutePathBuf.text, if_neg (List.cons_ne_nil name names), PathBuf.ofText, hsplit]
    simp only [hparts, hdots]
    exact if_pos rfl

namespace AbsolutePathBuf

theorem pushComponent_normal (path : AbsolutePathBuf) {name : List Char} (h : IsNormal name) :
    (path.pushComponent name).names = path.names ++ [name] := by
  rw [pushComponent, if_neg h.2.2.2, dif_pos h]

theorem foldl_pushComponent {names : List (List Char)} (h : ∀ name ∈ names, IsNormal name)
    (path : AbsolutePathBuf) : (names.foldl pushComponent path).names = path.names ++ names := by
  induction names generalizing path with
  | nil => exact (List.append_nil _).symm
  | cons name names ih =>
    rw [List.forall_mem_cons] at h
    rw [List.foldl_cons, ih h.2, pushComponent_normal path h.1, List.append_assoc,
      List.singleton_append]

end AbsolutePathBuf

/-- A path is resolved from its text. -/
theorem Host.resolve_text (host : Host) (path base : AbsolutePathBuf) :
    host.resolvePathAgainstBase (.ofText path.text) base = path := by
  refine AbsolutePathBuf.ext_names ?_
  rw [PathBuf.ofText_text]
  exact AbsolutePathBuf.foldl_pushComponent path.normal .root

/-- There are no symbolic links. -/
def normalizeEffectiveAbsolutePath (path : AbsolutePathBuf) : AbsolutePathBuf := path

end Mcodex.Permissions
