import DaggerWorkflows.FileTree
import DaggerWorkflows.Proofs.PathSpelling
import Mathlib.Data.List.Induction
import Mathlib.Data.List.Pairwise

/-!
# The first file with a path stays

A tree grows by files that are put into it one after the other, and a file
whose path is taken is refused and changes nothing. Here that is followed along
a whole history of insertions, from the empty tree on. A path is taken if
another spelling of it is, so what has to be known about spellings is only that
they are told by components (`components_eq_iff_alike`).

What carries it is that the files of the tree are those of the history that were
not refused, in their order (`files_insertEach`).
-/

namespace DaggerWorkflows.FileTree

open FilePath (Alike components components_eq_iff_alike)

/-! ## One insertion -/

theorem find?_eq_none_iff {tree : FileTree} {path : String} :
    tree.find? path = none ↔ ∀ f ∈ tree.files, ¬ Alike f.path path := by
  rw [find?, List.find?_eq_none]
  simp only [decide_eq_true_eq, components_eq_iff_alike]

/-- The file that a path leads to is the only one with a spelling of that
path. -/
theorem find?_eq_some {tree : FileTree} {path : String} {file : TreeFile}
    (h : tree.find? path = some file) :
    file ∈ tree.files ∧ Alike file.path path ∧
      ∀ other ∈ tree.files, Alike other.path path → other = file := by
  have hmem : file ∈ tree.files := List.mem_of_find?_eq_some h
  have hcomponents : components file.path = components path := by
    simpa using List.find?_some h
  refine ⟨hmem, components_eq_iff_alike.1 hcomponents, ?_⟩
  intro other hother halike
  have hsame : components other.path = components file.path := by
    rw [hcomponents]
    exact components_eq_iff_alike.2 halike
  have hsymm : Std.Symm fun a b : TreeFile =>
      components a.path ≠ components b.path :=
    ⟨fun _ _ => Ne.symm⟩
  by_contra hne
  exact tree.distinct.forall hother hmem hne hsame

theorem insert_cases (tree : FileTree) (file : TreeFile) :
    (∃ tree', tree.insert file = .ok tree' ∧
      tree'.files = tree.files ++ [file] ∧
      ∀ f ∈ tree.files, ¬ Alike f.path file.path) ∨
    (tree.insert file = .error (.duplicateFile file.path) ∧
      ∃ f ∈ tree.files, Alike f.path file.path) := by
  unfold insert
  split
  · next f hfind =>
      obtain ⟨hmem, halike, -⟩ := find?_eq_some hfind
      exact .inr ⟨rfl, f, hmem, halike⟩
  · next hfind => exact .inl ⟨_, rfl, rfl, find?_eq_none_iff.1 hfind⟩

/-! ## Many insertions -/

/-- Insert a file, if its path is free. -/
def attempt (tree : FileTree) (file : TreeFile) : FileTree :=
  match tree.insert file with
  | .ok tree => tree
  | .error _ => tree

/-- Insert files one after the other, as far as their paths are free. -/
def insertEach (tree : FileTree) (files : List TreeFile) :
    FileTree := files.foldl attempt tree

/-- Whether a file is put into the tree that a history has led to. -/
def accepts (history : List TreeFile) (file : TreeFile) : Bool :=
  ((empty.insertEach history).insert file).isOk

/-- The files of a history that were not refused when their turn came. -/
def accepted (history : List TreeFile) : List TreeFile :=
  (history.zipIdx.filter fun e => accepts (history.take e.2) e.1).map (·.1)

theorem insertEach_concat (tree : FileTree) (files : List TreeFile)
    (file : TreeFile) :
    tree.insertEach (files ++ [file]) =
      (tree.insertEach files).attempt file := by
  rw [insertEach, insertEach, List.foldl_append, List.foldl_cons,
    List.foldl_nil]

theorem accepted_concat (history : List TreeFile) (file : TreeFile) :
    accepted (history ++ [file]) =
      accepted history ++ if accepts history file then [file] else [] := by
  have hearlier : history.zipIdx.filter
    (fun e => accepts ((history ++ [file]).take e.2) e.1) =
      history.zipIdx.filter fun e => accepts (history.take e.2) e.1 := by
    refine List.filter_congr fun e he => ?_
    have hlt : e.2 < history.length := by
      simpa using List.snd_lt_of_mem_zipIdx he
    rw [List.take_append_of_le_length (Nat.le_of_lt hlt)]
  rw [accepted, accepted, List.zipIdx_append, List.filter_append,
    List.map_append, hearlier,
    Nat.zero_add, List.zipIdx_singleton, List.filter_cons, List.filter_nil,
      List.take_left]
  cases accepts history file <;> rfl

/-- A tree has the files that were not refused. -/
theorem files_insertEach (history : List TreeFile) :
    (empty.insertEach history).files = accepted history := by
  induction history using List.reverseRecOn with
  | nil => rfl
  | append_singleton history file ih =>
      rw [insertEach_concat, accepted_concat, ← ih, attempt, accepts]
      rcases (empty.insertEach history).insert_cases file
        with ⟨tree', hok, hfiles, -⟩ | ⟨herror, -⟩
      · rw [hok, hfiles]
        rfl
      · rw [herror]
        exact (List.append_nil _).symm

/-- A tree after any insertions: a file is refused if an earlier one was
accepted whose path is another spelling of its own, and then nothing changes;
the files are those that were accepted, in their order and as they were given;
and a path leads to the one of them that has a spelling of it. -/
theorem insertEach_first_wins (history : List TreeFile) :
    (∀ file,
      match (empty.insertEach history).insert file with
      | .ok tree => tree = empty.insertEach (history ++ [file]) ∧
          ∀ f ∈ accepted history, ¬ Alike f.path file.path
      | .error e => e = .duplicateFile file.path ∧
          empty.insertEach (history ++ [file]) = empty.insertEach history ∧
          ∃ f ∈ accepted history, Alike f.path file.path) ∧
    (empty.insertEach history).files = accepted history ∧
    (empty.insertEach history).paths = (accepted history).map (·.path) ∧
    (empty.insertEach history).size = (accepted history).length ∧
    (accepted history).Pairwise (fun f g => ¬ Alike f.path g.path) ∧
    ∀ path,
      match (empty.insertEach history).get? path with
      | some contents =>
        ∃ f ∈ accepted history, Alike f.path path ∧ contents = f.contents ∧
          ∀ g ∈ accepted history, Alike g.path path → g = f
      | none => ∀ f ∈ accepted history, ¬ Alike f.path path := by
  have hfiles := files_insertEach history
  have hdistinct := (empty.insertEach history).distinct
  simp only [ne_eq, components_eq_iff_alike, hfiles] at hdistinct
  refine ⟨?_, hfiles, by
    rw [paths, hfiles], by rw [size, hfiles], hdistinct, ?_⟩
  · intro file
    rw [insertEach_concat, attempt]
    rcases (empty.insertEach history).insert_cases file with
      ⟨tree', hok, -, hfree⟩ | ⟨herror, htaken⟩
    · rw [hok]
      rw [hfiles] at hfree
      exact ⟨rfl, hfree⟩
    · rw [herror]
      rw [hfiles] at htaken
      exact ⟨rfl, rfl, htaken⟩
  · intro path
    rw [get?, ← hfiles]
    cases hfind : (empty.insertEach history).find? path with
    | none => exact find?_eq_none_iff.1 hfind
    | some file =>
        obtain ⟨hmem, halike, hunique⟩ := find?_eq_some hfind
        exact ⟨file, hmem, halike, rfl, hunique⟩

example :
    (empty.insertEach [⟨"a//b", "1"⟩, ⟨"./a/b", "2"⟩, ⟨"a/./b/", "3"⟩]).paths =
    ["a//b", "./a/b"] := by
  decide +kernel

end DaggerWorkflows.FileTree
