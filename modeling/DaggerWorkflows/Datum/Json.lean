import DaggerWorkflows.Datum

/-!
# Data as JSON

Every item and every entry stands on a line of its own, two columns further in
than the bracket it belongs to. Characters are escaped only where the format
asks for it.
-/

namespace DaggerWorkflows.Datum

/-- A digit of base sixteen, in small letters. -/
def hexDigit (n : Nat) : Char := Nat.digitChar (n % 16)

/-- A character inside a JSON string. -/
def jsonChar (c : Char) : List Char :=
  match c with
  | '"' => ['\\', '"']
  | '\\' => ['\\', '\\']
  | '\x08' => ['\\', 'b']
  | '\x0c' => ['\\', 'f']
  | '\n' => ['\\', 'n']
  | '\r' => ['\\', 'r']
  | '\t' => ['\\', 't']
  | c =>
      if c.toNat < 32 then ['\\', 'u', '0', '0', hexDigit (c.toNat / 16),
        hexDigit c.toNat]
      else [c]

/-- A JSON string. -/
def jsonString (s : String) :
    List Char := '"' :: s.toList.flatMap jsonChar ++ ['"']

/-- The end of a line and the blanks before the next one. -/
def jsonLine (indent : Nat) : List Char := '\n' :: List.replicate indent ' '

mutual

/-- Data as JSON, whose first line starts `indent` columns in. -/
def jsonAt (indent : Nat) : Datum → List Char
  | text s => jsonString s
  | flag true => ['t', 'r', 'u', 'e']
  | flag false => ['f', 'a', 'l', 's', 'e']
  | list [] => ['[', ']']
  | list (d :: items) =>
      '[' :: jsonLine (indent + 2) ++ d.jsonAt (indent + 2) ++
        jsonItems indent items ++ jsonLine indent ++ [']']
  | map [] => ['{', '}']
  | map ((key, d) :: entries) =>
      '{' :: jsonLine (indent + 2) ++ jsonString key ++ [':', ' '] ++
        d.jsonAt (indent + 2)
        ++ jsonEntries indent entries ++ jsonLine indent ++ ['}']
termination_by structural d => d

/-- The items of a list after the first. -/
def jsonItems (indent : Nat) : List Datum → List Char
  | [] => []
  | d :: items =>
      ',' :: jsonLine (indent + 2) ++ d.jsonAt (indent + 2) ++
        jsonItems indent items
termination_by structural items => items

/-- The entries of a map after the first. -/
def jsonEntries (indent : Nat) : List (String × Datum) → List Char
  | [] => []
  | (key, d) :: entries =>
      ',' :: jsonLine (indent + 2) ++ jsonString key ++ [':', ' '] ++
        d.jsonAt (indent + 2) ++ jsonEntries indent entries
termination_by structural entries => entries

end

/-- Data as a JSON text that ends its last line. -/
def json (d : Datum) : String := String.ofList (d.jsonAt 0 ++ ['\n'])

end DaggerWorkflows.Datum
