import DaggerWorkflows.Yaml.Value

/-!
# Records in a document

A record is read from something with named fields. There are two kinds of such
things: the places of a document, and values that have been read from it
already. `Source` says what both can be asked for, so that the shape of a
record is written down once; they differ in how strict they are and in what
they say about where a mismatch arose.
-/

namespace DaggerWorkflows.Yaml

/-- Things of type `α` that records can be read from. -/
class Source (α : Type) (m : outParam (Type → Type)) where
  /-- A text. -/
  text : α → m String
  /-- A truth value. -/
  flag : α → m Bool
  /-- Null, or something that is read as said. -/
  optional {β : Type} : (α → m β) → α → m (Option β)
  /-- A sequence, the items of which are read as said. -/
  items {β : Type} : (α → m β) → α → m (List β)
  /-- A mapping whose keys are texts, the values of which are read as said, in
  their order. -/
  fields {β : Type} : (α → m β) → α → m (List (String × β))
  /-- A record of that name with those fields, read from its keys and values as
  said. -/
  record {β : Type} : String → List String → (List (α × α) → m β) → α → m β
  /-- Which of those fields a key names. -/
  fieldName : List String → α → m (Option String)
  /-- Pass over a value. -/
  ignore : α → m Unit

namespace Source

variable {α : Type} {m : Type → Type} [Monad m] [MonadExceptOf Complaint m]
  [Source α m]

/-- A list of texts. -/
def texts : α → m (List String) := items text

/-- Complain about a mismatch; where it arose is said by what surrounds it. -/
def mismatch {β : Type} (e : Mismatch) : m β := throw (.mismatch e none)

/-- Read the fields among `names` one after the other, each with `set`, and pass
over the others. `seen` are the fields that have been read. -/
def foldFields {ρ : Type} (names : List String) (set : String → α → ρ → m ρ) :
    List (α × α) → List String → ρ → m ρ
  | [], _, r => pure r
  | (key, value) :: entries, seen, r => do
      match ← fieldName names key with
      | none =>
          ignore value
          foldFields names set entries seen r
      | some name =>
          if seen.contains name then mismatch (.duplicateField name)
          else do
            let r ← set name value r
            foldFields names set entries (name :: seen) r

end Source

end DaggerWorkflows.Yaml
