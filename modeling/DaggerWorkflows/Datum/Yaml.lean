import DaggerWorkflows.Datum
import DaggerWorkflows.Datum.Scalar

/-!
# Data as YAML

Collections are written by indentation. The entries of a map inside another one
stand two columns further in, and so do those of a collection inside a list; a
list that is the value of a short key starts in the column of that key. Empty
collections are written with brackets.
-/

namespace DaggerWorkflows.Datum

open Scalar (pad)

/-- A truth value. -/
def yamlFlag : Bool → List Char
  | true => "true".toList
  | false => "false".toList

mutual

/-- Data after a colon, a dash or a question mark that stands at column
`indent`, with the end of its last line. A collection may start on the same
line, unless it comes after the colon of a short key. -/
def yamlAfter (indent : Nat) (short : Bool) : Datum → List Char
  | text s => ' ' :: Scalar.endLine (Scalar.render indent s)
  | flag b => ' ' :: yamlFlag b ++ ['\n']
  | list [] => [' ', '[', ']', '\n']
  | list (d :: items) =>
      if short then '\n' :: yamlItems indent true (d :: items)
      else ' ' :: yamlItems (indent + 2) false (d :: items)
  | map [] => [' ', '{', '}', '\n']
  | map (e :: entries) =>
      if short then '\n' :: yamlEntries (indent + 2) true (e :: entries)
      else ' ' :: yamlEntries (indent + 2) false (e :: entries)
termination_by structural d => d

/-- The items of a list at column `indent`; without `padded` the first one
starts where the line has come to. -/
def yamlItems (indent : Nat) (padded : Bool) : List Datum → List Char
  | [] => []
  | d :: items =>
      (if padded then pad indent else []) ++ '-' :: d.yamlAfter indent false
        ++ yamlItems indent true items
termination_by structural items => items

/-- The entries of a map at column `indent`; without `padded` the first one
starts where the line has come to. A key that is not short has a line of its
own, as its value has. -/
def yamlEntries (indent : Nat) (padded : Bool) :
    List (String × Datum) → List Char
  | [] => []
  | (key, d) :: entries =>
      (if padded then pad indent else [])
        ++ (if Scalar.isSimpleKey key then
              Scalar.render indent key ++ ':' :: d.yamlAfter indent true
            else
              '?' :: ' ' :: Scalar.endLine (Scalar.render indent key)
                ++ pad indent ++ ':' :: d.yamlAfter indent false)
        ++ yamlEntries indent true entries
termination_by structural entries => entries

end

/-- Data as a YAML text. -/
def yaml : Datum → String
  | text s => String.ofList (Scalar.endLine (Scalar.render 0 s))
  | flag b => String.ofList (yamlFlag b ++ ['\n'])
  | list [] => "[]\n"
  | list items => String.ofList (yamlItems 0 false items)
  | map [] => "\x7b\x7d\n"
  | map entries => String.ofList (yamlEntries 0 false entries)

end DaggerWorkflows.Datum
