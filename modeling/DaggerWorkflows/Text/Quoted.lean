import DaggerWorkflows.Text.Unprintable

/-!
# Quoted texts in messages

A text that a message quotes stands between double quotes, with a backslash
before quotes and backslashes and escapes for what cannot be shown.
-/

namespace DaggerWorkflows.Text

/-- A hexadecimal number without leading zeros, in small letters. -/
def hex (n : Nat) : String := String.ofList (Nat.toDigits 16 n)

/-- A character inside a quoted text. -/
def quoteChar (c : Char) : String :=
  match c with
  | '\x00' => "\\0"
  | '\t' => "\\t"
  | '\r' => "\\r"
  | '\n' => "\\n"
  | '"' => "\\\""
  | '\\' => "\\\\"
  | c =>
      if isUnprintable c then "\\u\x7b" ++ hex c.toNat ++ "\x7d" else c.toString

/-- A text between double quotes. -/
def quote (s : String) : String :=
  "\"" ++ String.join (s.toList.map quoteChar) ++ "\""

end DaggerWorkflows.Text
