import DaggerWorkflows.Yaml.Complaint
import DaggerWorkflows.Yaml.Token

/-!
# Values

A value is what a node means: aliases are replaced by what they stand for and
scalars by what they mean. A mapping of values may not have a key twice; which
keys are the same is decided by meaning, so `1` and `0x1` are.
-/

namespace DaggerWorkflows.Yaml

/-- The meaning of a node. -/
inductive Value where
  | atom (atom : Atom)
  | sequence (items : List Value)
  | map (entries : List (Value × Value))
deriving Repr, Inhabited

namespace Atom

/-- Whether a tag's promise can be kept by a scalar, and what it then means. -/
def ofTagged? (tag : Tag) (text : String) : Option (Except Mismatch Atom) :=
  if tag = .bool then
    some (((boolWord? text).map Atom.bool).elim
      (.error (.promise text .boolean)) .ok)
  else if tag = .int then
    let cs := text.toList
    some (((integer? cs).map Atom.integer <|> (wide? cs).map Atom.wide).elim
      (.error (.promise text .integer)) .ok)
  else if tag = .float then
    some
      (((float? text).map Atom.float).elim (.error (.promise text .float)) .ok)
  else if tag = .null then
    some (if isNullWord text then .ok .null else .error (.promise text .null))
  else none

/-- The meaning of a scalar with its style and its tag. -/
def ofScalar (text : String) (style : ScalarStyle) (tag : Option Tag) :
    Except Mismatch Atom :=
  match tag with
  | none => .ok (if style = .plain then ofPlain text else .text text)
  | some tag =>
      (ofTagged? tag text).getD
        (.ok
          (if tag.isLocal && style = .plain then ofPlain text else .text text))

/-- Whether two atoms are the same key: zeros of either sign are, and so are two
values that are no number. -/
def same : Atom → Atom → Bool
  | float (.finite _ 0 _), float (.finite _ 0 _) => true
  | a, b => a == b

/-- A repeated key as messages show it. -/
def describeKey : Atom → String
  | null => "with null key"
  | bool b => s!"with key `{b}`"
  | integer n | wide n => s!"with key {n}"
  | float x => "with key " ++ x.render
  | text s => "with key " ++ Text.quote s

end Atom

namespace Value

/-- A value as messages name it. -/
def found : Value → Found
  | atom a => .atom a
  | sequence _ => .sequence
  | map _ => .map

mutual

/-- Whether two values are the same key; the order of entries does not count. -/
def same : Value → Value → Bool
  | atom a, atom b => a.same b
  | sequence items, sequence items' => sameItems items items'
  | map entries, map entries' =>
      entries.length == entries'.length && sameEntries entries entries'
  | _, _ => false
termination_by structural v => v

/-- Whether two sequences have the same items. -/
def sameItems : List Value → List Value → Bool
  | [], [] => true
  | v :: items, v' :: items' => v.same v' && sameItems items items'
  | _, _ => false
termination_by structural items => items

/-- Whether each entry of a mapping stands in another one. -/
def sameEntries : List (Value × Value) → List (Value × Value) → Bool
  | [], _ => true
  | (key, value) :: entries, entries' =>
      entries'.any (fun e => key.same e.1 && value.same e.2) &&
        sameEntries entries entries'
termination_by structural entries => entries

end

/-- A repeated key as messages show it. -/
def describeKey : Value → String
  | atom a => a.describeKey
  | _ => "in YAML map"

mutual

/-- Complain about the first mapping in the value that has a key twice. -/
def checkKeys : Value → Except Mismatch Unit
  | atom _ => .ok ()
  | sequence items => checkItems items
  | map entries => checkEntries [] entries
termination_by structural v => v

/-- Check the items of a sequence. -/
def checkItems : List Value → Except Mismatch Unit
  | [] => .ok ()
  | v :: items => do
      v.checkKeys
      checkItems items
termination_by structural items => items

/-- Check the entries of a mapping, given the keys before them. -/
def checkEntries (before : List Value) :
    List (Value × Value) → Except Mismatch Unit
  | [] => .ok ()
  | (key, value) :: entries => do
      key.checkKeys
      match before.find? (key.same ·) with
      | some first => throw (.duplicateEntry first.describeKey)
      | none =>
        value.checkKeys
        checkEntries (before ++ [key]) entries
termination_by structural entries => entries

end

end Value

end DaggerWorkflows.Yaml
