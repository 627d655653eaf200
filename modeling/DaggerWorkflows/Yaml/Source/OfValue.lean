import DaggerWorkflows.Yaml.Source

/-!
# Records of values

Values are strict: a text is a text and nothing that only looks like one, and
null is no empty collection. They no longer know where they stand, so a
mismatch is left for what surrounds them to locate.
-/

namespace DaggerWorkflows.Yaml.Value

/-- Complain that a value is not what was wanted. -/
def unexpected {β : Type} (v : Value) (wanted : Wanted) : Except Complaint β :=
  .error (.mismatch (.type v.found wanted) none)

/-- A text. -/
def readText : Value → Except Complaint String
  | atom (.text s) => .ok s
  | v => v.unexpected .string

/-- A truth value. -/
def readFlag : Value → Except Complaint Bool
  | atom (.bool b) => .ok b
  | v => v.unexpected .boolean

/-- Null, or something else. -/
def readOptional {β : Type} (read : Value → Except Complaint β) :
    Value → Except Complaint (Option β)
  | atom .null => .ok none
  | v => some <$> read v

/-- A sequence. -/
def readItems {β : Type} (read : Value → Except Complaint β) :
    Value → Except Complaint (List β)
  | sequence items => items.mapM read
  | v => v.unexpected .sequence

/-- A mapping with texts for keys. -/
def readFields {β : Type} (read : Value → Except Complaint β) :
    Value → Except Complaint (List (String × β))
  | map entries => entries.mapM fun (key, value) => do
      let key ← readText key
      return (key, ← read value)
  | v => v.unexpected .map

/-- A record: a mapping, or a sequence of its fields in their order. The first
field of a record has to be there. -/
def readRecord {β : Type} (title : String) (names : List String)
    (read : List (Value × Value) → Except Complaint β) :
    Value → Except Complaint β
  | map entries => read entries
  | sequence [] => .error (.mismatch (.fewerValues 0 title names.length) none)
  | sequence items => do
      let r ← read
        (List.zipWith (fun name item => (atom (.text name), item)) names items)
      if names.length < items.length then
        .error (.mismatch (.moreValues items.length names.length) none)
      else return r
  | v => v.unexpected (.struct title)

/-- A field of a record, by its name or by its position. -/
def readFieldName (names : List String) :
    Value → Except Complaint (Option String)
  | atom (.text s) => .ok (if names.contains s then some s else none)
  | atom (.integer n) =>
      if 0 ≤ n then .ok names[n.toNat]? else (atom (.integer n)).unexpected .key
  | v => v.unexpected .key

instance : Source Value (Except Complaint) where
  text := readText
  flag := readFlag
  optional := readOptional
  items := readItems
  fields := readFields
  record := readRecord
  fieldName := readFieldName
  ignore _ := .ok ()

end DaggerWorkflows.Yaml.Value
