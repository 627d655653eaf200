import DaggerWorkflows.FilePath
import DaggerWorkflows.Traced

/-!
# Trees of files

The files to be written, in the order they were generated in. No two of them
have the same path, which is part of the type: a file whose path is taken is
refused and the first one stays.
-/

namespace DaggerWorkflows

/-- A file to be written. -/
structure TreeFile where
  path : String
  contents : String
deriving DecidableEq, Repr

/-- Files with different paths, in the order of their generation. -/
structure FileTree where
  files : List TreeFile
  distinct : files.Pairwise
    (fun a b => FilePath.components a.path ≠ FilePath.components b.path) :=
    by exact .nil
deriving Repr

namespace FileTree

/-- No files. -/
def empty : FileTree := ⟨[], .nil⟩

instance : Inhabited FileTree := ⟨empty⟩

instance : DecidableEq FileTree := fun a b =>
  decidable_of_iff (a.files = b.files) <| by
    cases a; cases b; simp

/-- The file with a path. -/
def find? (tree : FileTree) (path : String) : Option TreeFile :=
  tree.files.find? fun f =>
    FilePath.components f.path = FilePath.components path

/-- The contents of the file with a path. -/
def get? (tree : FileTree) (path : String) :
    Option String := (tree.find? path).map (·.contents)

/-- One more file, unless its path is taken. -/
def insert (tree : FileTree) (file : TreeFile) : Except Error FileTree :=
  match h : tree.find? file.path with
  | some _ => .error (.duplicateFile file.path)
  | none => .ok
      { files := tree.files ++ [file]
        distinct := by
          have hnone := List.find?_eq_none.1 h
          refine List.pairwise_append.2
            ⟨tree.distinct, List.pairwise_singleton _ _, ?_⟩
          intro a ha b hb
          rw [List.mem_singleton] at hb
          subst hb
          simpa using hnone a ha }

/-- The number of files. -/
def size (tree : FileTree) : Nat := tree.files.length

/-- The paths in the order of generation. -/
def paths (tree : FileTree) : List String := tree.files.map (·.path)

/-- All files as one text, each after a line with its path. -/
def text (tree : FileTree) : String :=
  String.join (tree.files.map fun f => s!"# {f.path}\n" ++ f.contents)

end FileTree

end DaggerWorkflows
