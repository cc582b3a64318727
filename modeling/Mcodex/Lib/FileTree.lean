import Mathlib.Data.List.Infix

/-!
# Trees of files and directories

A path is the list of the names from the root. A tree says what stands at each path; whatever stands
below the root stands in a directory. An operation is known by what it leaves at each path
(`write_node`, `remove_node`, `createDirectories_node`), and so by the files that it leaves
(`fileAt`).
-/

namespace Mcodex

universe u v

/-- What a system call fails of. -/
inductive FileTree.ErrorKind
  | notFound
  | isADirectory
  | notADirectory
  | invalidInput
  | invalidData
  | permissionDenied
  | other
  deriving DecidableEq, Repr

inductive FileTree.Node (γ : Type v)
  | file (contents : γ)
  | directory

structure FileTree (ν : Type u) (γ : Type v) where
  node : List ν → Option (FileTree.Node γ)
  root : node [] = some .directory
  parent : ∀ path name, (node (path ++ [name])).isSome → node path = some .directory

namespace FileTree

section
variable {ν : Type u} {γ : Type v} {t t' : FileTree ν γ} {path path' pre : List ν} {contents : γ}

instance : (node : Option (Node γ)) → Decidable (node = some .directory)
  | some .directory => isTrue rfl
  | some (.file _) => isFalse nofun
  | none => isFalse nofun

/-- The contents of the regular file at a path. -/
def fileAt (t : FileTree ν γ) (path : List ν) : Option γ :=
  match t.node path with
  | some (.file contents) => some contents
  | _ => none

theorem fileAt_eq_some_iff :
    t.fileAt path = some contents ↔ t.node path = some (.file contents) := by
  unfold fileAt
  split
  · next contents' h => rw [h, Option.some.injEq, Option.some.injEq, Node.file.injEq]
  · next h => exact ⟨nofun, fun hfile => absurd hfile (h contents)⟩

theorem fileAt_congr (h : t'.node path = t.node path) : t'.fileAt path = t.fileAt path := by
  rw [fileAt, h, ← fileAt]

/-! ## Operations -/

/-- The kind of the error for a path whose parent is no directory. -/
def missing (t : FileTree ν γ) (path : List ν) : ErrorKind :=
  if path.inits.any fun pre => (t.fileAt pre).isSome then .notADirectory else .notFound

/-- `metadata`: whether it is a directory. -/
def isDirectory (t : FileTree ν γ) (path : List ν) : Except ErrorKind Bool :=
  match t.node path with
  | some .directory => .ok true
  | some (.file _) => .ok false
  | none => .error (t.missing path)

/-- `read`. -/
def read (t : FileTree ν γ) (path : List ν) : Except ErrorKind γ :=
  match t.node path with
  | some (.file contents) => .ok contents
  | some .directory => .error .isADirectory
  | none => .error (t.missing path)

theorem read_eq_ok_iff : t.read path = .ok contents ↔ t.fileAt path = some contents := by
  rw [fileAt_eq_some_iff, read]
  split
  · next contents' h => rw [h, Except.ok.injEq, Option.some.injEq, Node.file.injEq]
  · next h => rw [h]; exact ⟨nofun, nofun⟩
  · next h => rw [h]; exact ⟨nofun, nofun⟩

variable [DecidableEq ν]

/-- A file in the place of a file or of nothing. -/
def put (t : FileTree ν γ) (path : List ν) (contents : γ)
    (hnode : t.node path ≠ some .directory)
    (hparent : t.node path.dropLast = some .directory) : FileTree ν γ where
  node path' := if path' = path then some (.file contents) else t.node path'
  root := by
    rw [if_neg]
    · exact t.root
    · rintro rfl
      exact hnode t.root
  parent path' name h := by
    have hsome : path' ++ [name] ≠ path → t.node path' = some .directory := fun hne => by
      rw [if_neg hne] at h
      exact t.parent path' name h
    by_cases hself : path' = path
    · rw [hself] at hsome
      exact absurd (hsome (by simp)) hnode
    · rw [if_neg hself]
      by_cases hchild : path' ++ [name] = path
      · rw [← hchild, List.dropLast_concat] at hparent
        exact hparent
      · exact hsome hchild

/-- What is no directory is taken away. -/
def erase (t : FileTree ν γ) (path : List ν) (hnode : t.node path ≠ some .directory) :
    FileTree ν γ where
  node path' := if path' = path then none else t.node path'
  root := by
    rw [if_neg]
    · exact t.root
    · rintro rfl
      exact hnode t.root
  parent path' name h := by
    split at h
    · cases h
    · have hdirectory := t.parent path' name h
      rw [if_neg]
      · exact hdirectory
      · rintro rfl
        exact hnode hdirectory

/-- The path and its ancestors become directories. -/
def spread (t : FileTree ν γ) (path : List ν) : FileTree ν γ where
  node path' := if path' <+: path then some .directory else t.node path'
  root := if_pos (List.nil_prefix)
  parent path' name h := by
    split at h
    · next hpre => exact if_pos ((List.prefix_append path' [name]).trans hpre)
    · rw [t.parent path' name h, ite_self]

/-- `write`: a file is replaced, or is made in a directory. -/
def write (t : FileTree ν γ) (path : List ν) (contents : γ) : Except ErrorKind (FileTree ν γ) :=
  if hnode : t.node path = some .directory then .error .isADirectory
  else if hparent : t.node path.dropLast = some .directory then
    .ok (t.put path contents hnode hparent)
  else .error (t.missing path)

/-- `remove_file`. -/
def remove (t : FileTree ν γ) (path : List ν) : Except ErrorKind (FileTree ν γ) :=
  if hnode : t.node path = some .directory then .error .isADirectory
  else if (t.node path).isSome then .ok (t.erase path hnode)
  else .error (t.missing path)

/-- `create_dir_all`. -/
def createDirectories (t : FileTree ν γ) (path : List ν) : Except ErrorKind (FileTree ν γ) :=
  if path.inits.any fun pre => (t.fileAt pre).isSome then .error .notADirectory
  else .ok (t.spread path)

theorem write_node (h : t.write path contents = .ok t') (path' : List ν) :
    t'.node path' = if path' = path then some (.file contents) else t.node path' := by
  unfold write at h
  split_ifs at h
  cases h
  rfl

theorem fileAt_write (h : t.write path contents = .ok t') (path' : List ν) :
    t'.fileAt path' = if path' = path then some contents else t.fileAt path' := by
  have hnode := write_node h path'
  split_ifs at hnode ⊢ with hself
  · exact fileAt_eq_some_iff.2 hnode
  · exact fileAt_congr hnode

theorem remove_node (h : t.remove path = .ok t') (path' : List ν) :
    t'.node path' = if path' = path then none else t.node path' := by
  unfold remove at h
  split_ifs at h
  cases h
  rfl

theorem fileAt_remove (h : t.remove path = .ok t') (path' : List ν) :
    t'.fileAt path' = if path' = path then none else t.fileAt path' := by
  have hnode := remove_node h path'
  split_ifs at hnode ⊢ with hself
  · rw [fileAt, hnode]
  · exact fileAt_congr hnode

theorem createDirectories_node (h : t.createDirectories path = .ok t') (path' : List ν) :
    t'.node path' = t.node path' ∨
      path' <+: path ∧ t.node path' = none ∧ t'.node path' = some .directory := by
  unfold createDirectories at h
  split_ifs at h with hfile
  cases h
  by_cases hpre : path' <+: path
  · have hnode : (t.spread path).node path' = some .directory := if_pos hpre
    cases hold : t.node path' with
    | none => exact .inr ⟨hpre, rfl, hnode⟩
    | some node =>
      cases node with
      | directory => exact .inl hnode
      | file contents =>
        refine absurd (List.any_eq_true.2 ⟨path', (List.mem_inits _ _).2 hpre, ?_⟩) hfile
        rw [fileAt_eq_some_iff.2 hold]
        rfl
  · exact .inl (if_neg hpre)

end

end FileTree

end Mcodex
