import DaggerWorkflows.FileSystem
import DaggerWorkflows.FileTree

/-!
# Writing trees of files

The files of a tree are written one after the other below a directory. The
first one that cannot be written ends it; those before it stay.
-/

namespace DaggerWorkflows.FileTree

/-- Write one file and make the directories it needs. -/
def writeFile (fs : FileSystem) (path contents : String) :
    FileSystem × Except StorageFault Unit :=
  match fs.makeParents path with
  | (fs, .error e) => (fs, .error e)
  | (fs, .ok ()) =>
      match fs.write path contents.toUTF8 with
      | .ok fs => (fs, .ok ())
      | .error e => (fs, .error e)

/-- Write files below a directory. -/
def writeFiles (root : String) :
    List TreeFile → FileSystem → FileSystem × Traced (List String)
  | [], fs => (fs, .ok [])
  | file :: files, fs =>
      let path := FilePath.join root file.path
      match writeFile fs path file.contents with
      | (fs, .error e) => (fs, .error (.storage e.message))
      | (fs, .ok ()) =>
          let (fs, rest) := writeFiles root files fs
          (fs, do
            Traced.tell (.workflowWritten path)
            return path :: (← rest))

/-- Write a tree below a directory. The result is the paths that were
written. -/
def write (tree : FileTree) (root : String) (fs : FileSystem) :
    FileSystem × Traced (List String) :=
  writeFiles root tree.files fs

end DaggerWorkflows.FileTree
