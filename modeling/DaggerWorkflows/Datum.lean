/-!
# Data

What a workflow says, apart from how it is written: texts, truth values, lists
and maps whose entries have an order. JSON and YAML are two ways to write the
same data.
-/

namespace DaggerWorkflows

/-- Data to be written down. -/
inductive Datum where
  | text (text : String)
  | flag (value : Bool)
  | list (items : List Datum)
  | map (entries : List (String × Datum))
deriving Repr, Inhabited

end DaggerWorkflows
