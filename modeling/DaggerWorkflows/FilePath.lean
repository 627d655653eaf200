import DaggerWorkflows.Text.Split

/-!
# Paths of files

A path is kept as it was written, and shown so, but which file it names depends
on its parts alone: repeated slashes, a slash at the end and dots in the middle
do not count. A dot at the start does.
-/

namespace DaggerWorkflows.FilePath

/-- The parts between the slashes of a path, without the empty ones. -/
def parts (path : String) : List String :=
  ((Text.split '/' path.toList).filter (!·.isEmpty)).map String.ofList

/-- Whether a path starts at the root. -/
def isAbsolute (path : String) : Bool := path.toList.head? == some '/'

/-- Whether a path ends with a slash. -/
def endsWithSlash (path : String) : Bool := path.toList.getLast? == some '/'

/-- What a path says about the file it names. -/
structure Components where
  absolute : Bool
  /-- Whether the path starts with a dot of its own. -/
  leadingDot : Bool
  /-- The other parts. -/
  names : List String
deriving DecidableEq, Repr

/-- The components of a path. -/
def components (path : String) : Components :=
  let absolute := isAbsolute path
  { absolute
    leadingDot := !absolute && (parts path).head? == some "."
    names := (parts path).filter (· != ".") }

/-- Whether two paths name the same file. -/
def same (a b : String) : Bool := components a == components b

/-- Go past the slashes at the end of a path, given from its end, and past the
dots that are parts of their own. -/
def dropBlanks : List Char → List Char
  | '/' :: cs => dropBlanks cs
  | '.' :: '/' :: cs => dropBlanks cs
  | cs => cs

/-- What a path says before its last part. -/
def parent (path : String) : String :=
  let before := (dropBlanks path.toList.reverse).dropWhile (· != '/')
  String.ofList (dropBlanks before).reverse

/-- A path below a directory; a path that starts at the root stays what it
is. -/
def join (directory path : String) : String :=
  if isAbsolute path then path
  else if directory.isEmpty || endsWithSlash directory then directory ++ path
  else directory ++ "/" ++ path

end DaggerWorkflows.FilePath
