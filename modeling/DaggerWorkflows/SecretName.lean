import DaggerWorkflows.Traced

/-!
# Secret names

The name of a secret ends up inside an expression and as the name of an
environment variable. It may therefore hold nothing that either could be broken
out of: letters and digits of ASCII and underscores.
-/

namespace DaggerWorkflows.SecretName

/-- Whether a character may stand in the name of a secret. -/
def isAllowed (c : Char) : Bool := c.isAlphanum || c == '_'

/-- Whether a text is the name of a secret. -/
def isValid (name : String) : Bool := !name.isEmpty && name.toList.all isAllowed

/-- The first of some names that is none. -/
def firstInvalid? (names : List String) :
    Option String := names.find? (!isValid ·)

/-- Refuse names unless all are valid. -/
def check (names : List String) : Traced Unit :=
  match firstInvalid? names with
  | none => .ok ()
  | some name => do
      Traced.tell (.secretRejected name)
      Traced.error (.invalidSecretName name)

end DaggerWorkflows.SecretName
