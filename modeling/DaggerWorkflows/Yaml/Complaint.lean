import DaggerWorkflows.Yaml.Atom
import DaggerWorkflows.Yaml.Fault
import DaggerWorkflows.Yaml.Path

/-!
# Complaints about a document

A document whose form is right may still not be what is asked for. A complaint
says what was found instead and, where it arose while a value was read, which
value that was and where it stands. The wording is here alone.
-/

namespace DaggerWorkflows.Yaml

/-- What stands in a document. -/
inductive Found where
  | atom (atom : Atom)
  | sequence
  | map
deriving DecidableEq, Repr

/-- What was asked for. -/
inductive Wanted where
  | struct (name : String)
  | sequence
  | map
  | string
  | boolean
  | key
  | anyValue
deriving DecidableEq, Repr

/-- What a tag promises of a scalar. -/
inductive Promise where
  | boolean
  | integer
  | float
  | null
deriving DecidableEq, Repr

/-- What is wrong with a value. -/
inductive Mismatch where
  | type (found : Found) (wanted : Wanted)
  /-- A scalar that is not what its tag promises. -/
  | promise (text : String) (promise : Promise)
  | missingField (name : String)
  | duplicateField (name : String)
  | unknownField (name : String) (known : List String)
  /-- A repeated key, described by what it is. -/
  | duplicateEntry (key : String)
  /-- A sequence with fewer values than the fields that have to be there. -/
  | fewerValues (count : Nat) (name : String) (fields : Nat)
  /-- A sequence with more values than there are fields. -/
  | moreValues (count : Nat) (fields : Nat)
  /-- A tag of the document's own, which no value may have. -/
  | taggedValue
deriving DecidableEq, Repr

/-- Why a document cannot be used. -/
inductive Complaint where
  | fault (fault : Fault)
  /-- The document ends where a value should stand. -/
  | ended
  | tooDeep (mark : Mark)
  | tooManyAliases
  | severalDocuments
  | mismatch (mismatch : Mismatch) (place : Option (Path × Mark))
deriving DecidableEq, Repr

/-- A found thing as messages name it. -/
def Found.describe : Found → String
  | atom a => a.describe
  | sequence => "sequence"
  | map => "map"

/-- A wanted thing as messages name it. -/
def Wanted.describe : Wanted → String
  | struct name => "struct " ++ name
  | sequence => "a sequence"
  | map => "a map"
  | string => "a string"
  | boolean => "a boolean"
  | key => "field identifier"
  | anyValue => "any value"

/-- A promise as messages name it. -/
def Promise.describe : Promise → String
  | boolean => "a boolean"
  | integer => "an integer"
  | float => "a float"
  | null => "null"

/-- A list of names as messages show it. -/
def namesList (names : List String) : String :=
  match names.map fun n => s!"`{n}`" with
  | [] => ""
  | [a] => a
  | [a, b] => a ++ " or " ++ b
  | many => "one of " ++ String.intercalate ", " many

/-- The wording of a mismatch. -/
def Mismatch.message : Mismatch → String
  | type found wanted =>
    s!"invalid type: {found.describe}, expected {wanted.describe}"
  | promise text p =>
      s!"invalid value: string {Text.quote text}, expected {p.describe}"
  | missingField name => s!"missing field `{name}`"
  | duplicateField name => s!"duplicate field `{name}`"
  | unknownField name [] => s!"unknown field `{name}`, there are no fields"
  | unknownField name known =>
      s!"unknown field `{name}`, expected {namesList known}"
  | duplicateEntry key => "duplicate entry " ++ key
  | fewerValues count name fields =>
      s!"invalid length {count}, expected struct {name} with {fields} elements"
  | moreValues count fields =>
      s!"invalid length {count}, expected {fields} elements in sequence"
  | taggedValue =>
      "untagged and internally tagged enums do not support enum input"

namespace Complaint

/-- The complaint as shown to people. The root and the first character go
unnamed. -/
def message : Complaint → String
  | fault f => f.message
  | ended => "EOF while parsing a value"
  | tooDeep mark => "recursion limit exceeded" ++ Fault.suffixAt mark
  | tooManyAliases => "repetition limit exceeded"
  | severalDocuments =>
      "deserializing from YAML containing more than one document is not supported"
  | mismatch m none => m.message
  | mismatch m (some (path, mark)) =>
      (if path = .root then "" else path.render ++ ": ") ++ m.message ++
        Fault.suffixAt mark

/-- Say where a mismatch arose, unless a value inside has said so. -/
def locate (path : Path) (mark : Mark) : Complaint → Complaint
  | mismatch m none => mismatch m (some (path, mark))
  | complaint => complaint

end Complaint

end DaggerWorkflows.Yaml
