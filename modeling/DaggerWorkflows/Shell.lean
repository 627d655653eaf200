/-!
# Shell words

A text that is to be one word of a shell command stands between single quotes,
inside which nothing is special. A quote in it is written outside of them.
-/

namespace DaggerWorkflows.Shell

/-- The characters of a quoted word after its opening quote. -/
def quoteTail : List Char → List Char
  | [] => ['\'']
  | c :: cs =>
      if c = '\'' then '\'' :: '\\' :: '\'' :: '\'' :: quoteTail cs
        else c :: quoteTail cs

/-- A text as one word. -/
def quote (s : String) : String := String.ofList ('\'' :: quoteTail s.toList)

end DaggerWorkflows.Shell
