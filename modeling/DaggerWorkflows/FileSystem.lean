import DaggerWorkflows.FilePath

/-!
# File systems

Files and directories by their place below the root. A directory has to be
there before anything is put into it, and a file does not turn into a directory
or the other way round; what goes wrong is told by a cause. A failed operation
leaves everything as it was.
-/

namespace DaggerWorkflows

/-- Why an operation on files failed. -/
inductive StorageFault where
  | notFound
  | occupied
  | notDirectory
  | isDirectory
  | nameTooLong
  /-- A path with a null character, which no file can have. -/
  | nullInPath
  /-- Contents that are no text. -/
  | notText
deriving DecidableEq, Repr

/-- The wording of a fault. -/
def StorageFault.message : StorageFault → String
  | notFound => "No such file or directory (os error 2)"
  | occupied => "File exists (os error 17)"
  | notDirectory => "Not a directory (os error 20)"
  | isDirectory => "Is a directory (os error 21)"
  | nameTooLong => "File name too long (os error 36)"
  | nullInPath => "file name contained an unexpected NUL byte"
  | notText => "stream did not contain valid UTF-8"

/-- What stands at a place. -/
inductive StorageEntry where
  | directory
  | file (contents : ByteArray)

instance : DecidableEq StorageEntry
  | .directory, .directory => .isTrue rfl
  | .directory, .file _ => .isFalse nofun
  | .file _, .directory => .isFalse nofun
  | .file a, .file b =>
      match ByteArray.instDecidableEq a b with
      | .isTrue h => .isTrue (congrArg StorageEntry.file h)
      | .isFalse h => .isFalse fun heq => h (StorageEntry.file.inj heq)

/-- Entries by their place: the names that lead to it from the root. -/
structure FileSystem where
  entries : List (List String × StorageEntry)
  /-- The place that paths are read from if they do not start at the root. -/
  workingDirectory : List String
deriving DecidableEq

namespace FileSystem

/-- The entry at a place. The root is always there. -/
def get? (fs : FileSystem) (place : List String) : Option StorageEntry :=
  if place.isEmpty then some .directory
  else (fs.entries.find? (·.1 == place)).map (·.2)

/-- Put an entry into a list, in place of the one at its place. -/
def putInto (place : List String) (entry : StorageEntry) :
    List (List String × StorageEntry) → List (List String × StorageEntry)
  | [] => [(place, entry)]
  | e :: entries =>
      if e.1 = place then (place, entry) :: entries
        else e :: putInto place entry entries

/-- Put an entry at a place. -/
def put (fs : FileSystem) (place : List String) (entry : StorageEntry) :
    FileSystem :=
  { fs with entries := putInto place entry fs.entries }

/-- The octets that a name may have. -/
def maxName : Nat := 255

/-- The octets that a path may have. -/
def maxPath : Nat := 4096

/-- Go into the directories that `names` lead through, from a place. -/
def walk (fs : FileSystem) :
    List String → List String → Except StorageFault (List String)
  | place, [] => .ok place
  | place, name :: names =>
      if name = "." then fs.walk place names
      else if name = ".." then fs.walk place.dropLast names
      else if maxName < name.utf8ByteSize then .error .nameTooLong
      else
        match fs.get? (place ++ [name]) with
        | none => .error .notFound
        | some (.file _) => .error .notDirectory
        | some .directory => fs.walk (place ++ [name]) names

/-- The place that a path starts from. -/
def origin (fs : FileSystem) (absolute : Bool) : List String :=
  if absolute then [] else fs.workingDirectory

/-- Whether a path leads to a directory. -/
def isDirectory (fs : FileSystem) (absolute : Bool) (names : List String) :
    Bool :=
  (fs.walk (fs.origin absolute) names).isOk

/-- Make one directory inside one that is there. -/
def makeDirectory (fs : FileSystem) (absolute : Bool) (parents : List String)
    (name : String) :
    Except StorageFault FileSystem := do
  let place ← fs.walk (fs.origin absolute) parents
  if name = "." || name = ".." then throw .occupied
  if maxName < name.utf8ByteSize then throw .nameTooLong
  match fs.get? (place ++ [name]) with
  | some _ => throw .occupied
  | none => return fs.put (place ++ [name]) .directory

/-- Make a directory and those around it that are missing. The names are given
from the last to the first. Directories that have been made stay, whatever
happens after. -/
def makeDirectories (fs : FileSystem) (absolute : Bool) :
    List String → FileSystem × Except StorageFault Unit
  | [] => (fs, .ok ())
  | name :: parents =>
      let attempt (fs : FileSystem) : FileSystem × Except StorageFault Unit :=
        match fs.makeDirectory absolute parents.reverse name with
        | .ok fs => (fs, .ok ())
        | .error e =>
            (fs, if fs.isDirectory absolute (name :: parents).reverse
              then .ok () else .error e)
      match fs.makeDirectory absolute parents.reverse name with
      | .error .notFound =>
          match fs.makeDirectories absolute parents with
          | (fs, .ok ()) => attempt fs
          | (fs, .error e) => (fs, .error e)
      | _ => attempt fs

/-- A path that no operation accepts. -/
def refusal? (path : String) : Option StorageFault :=
  if path.contains '\x00' then some .nullInPath
  else if maxPath ≤ path.utf8ByteSize then some .nameTooLong
  else none

/-- The names that a path leads through and the last one. -/
def splitLast (path : String) : Option (List String × String) :=
  match (FilePath.parts path).reverse with
  | [] => none
  | name :: parents => some (parents.reverse, name)

/-- Make the directory that a path lies in. -/
def makeParents (fs : FileSystem) (path : String) :
    FileSystem × Except StorageFault Unit :=
  match refusal? (FilePath.parent path) with
  | some e => (fs, .error e)
  | none =>
      let c := FilePath.components path
      let names := (if c.leadingDot then ["."] else []) ++ c.names
      fs.makeDirectories c.absolute names.dropLast.reverse

/-- Write a file, in place of one that is there. -/
def write (fs : FileSystem) (path : String) (contents : ByteArray) :
    Except StorageFault FileSystem := do
  if let some e := refusal? path then throw e
  match splitLast path with
  | none => throw (if FilePath.isAbsolute path then .isDirectory else .notFound)
  | some (parents, name) =>
      let place ← fs.walk (fs.origin (FilePath.isAbsolute path)) parents
      if FilePath.endsWithSlash path || name = "." || name = ".."
        then throw .isDirectory
      if maxName < name.utf8ByteSize then throw .nameTooLong
      match fs.get? (place ++ [name]) with
      | some .directory => throw .isDirectory
      | _ => return fs.put (place ++ [name]) (.file contents)

/-- Read a file. -/
def read (fs : FileSystem) (path : String) : Except StorageFault ByteArray := do
  if let some e := refusal? path then throw e
  match splitLast path with
  | none => throw (if FilePath.isAbsolute path then .isDirectory else .notFound)
  | some (parents, name) =>
      let place ← fs.walk (fs.origin (FilePath.isAbsolute path)) parents
      if name = "." || name = ".." then throw .isDirectory
      if maxName < name.utf8ByteSize then throw .nameTooLong
      match fs.get? (place ++ [name]) with
      | none => throw .notFound
      | some .directory => throw .isDirectory
      | some (.file contents) =>
          if FilePath.endsWithSlash path then throw .notDirectory
            else return contents

/-- Read a file as text. -/
def readText (fs : FileSystem) (path : String) :
    Except StorageFault String := do
  match String.fromUTF8? (← fs.read path) with
  | some text => return text
  | none => throw .notText

/-- The files below a place: the names that lead to them from there, and their
contents. -/
def filesBelow (fs : FileSystem) (place : List String) :
    List (List String × ByteArray) :=
  fs.entries.filterMap fun (p, entry) =>
    match entry with
    | .file contents =>
        if place.isPrefixOf p then some (p.drop place.length, contents)
          else none
    | .directory => none

end FileSystem

end DaggerWorkflows
