/-!
# Words of the command line

By its dashes a word names options or is plain text. What it means depends on
where it stands.
-/

namespace DaggerWorkflows.CommandLine

/-- A word by its form. -/
inductive Word where
  /-- Two dashes alone: no options follow. -/
  | terminator
  /-- Two dashes and a name, perhaps with an equals sign and a value. -/
  | long (name : String) (value : Option String)
  /-- One dash and letters, which may end in a value. -/
  | short (letters : List Char)
  | plain
deriving DecidableEq, Repr

namespace Word

/-- A name up to the first equals sign and the value behind it. -/
def splitValue (cs : List Char) : String × Option String :=
  let name := String.ofList (cs.takeWhile (· != '='))
  match cs.dropWhile (· != '=') with
  | [] => (name, none)
  | _ :: value => (name, some (String.ofList value))

/-- The form of a word. A dash alone is plain. -/
def ofText (s : String) : Word :=
  match s.toList with
  | ['-', '-'] => .terminator
  | '-' :: '-' :: cs => .long (splitValue cs).1 (splitValue cs).2
  | ['-'] => .plain
  | '-' :: cs => .short cs
  | _ => .plain

end Word

end DaggerWorkflows.CommandLine
