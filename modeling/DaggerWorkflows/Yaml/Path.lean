/-!
# Paths to values

A message about a value says where in the document it is: the keys and
positions that lead to it from the root.
-/

namespace DaggerWorkflows.Yaml

/-- How a value is reached from the root of a document. -/
inductive Path where
  | root
  | item (parent : Path) (position : Nat)
  | field (parent : Path) (key : String)
  /-- The value of a key that is no scalar. -/
  | unnamed (parent : Path)
deriving DecidableEq, Repr, Inhabited

namespace Path

/-- The path as messages show it; the root alone is a dot. -/
def render : Path → String
  | root => "."
  | item parent position => parent.render ++ s!"[{position}]"
  | field root key => key
  | field parent key => parent.render ++ "." ++ key
  | unnamed root => "?"
  | unnamed parent => parent.render ++ ".?"

end Path

end DaggerWorkflows.Yaml
