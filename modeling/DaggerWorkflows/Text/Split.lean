/-!
# Splitting at a character

A list of characters falls into the parts between the occurrences of one
character; there is one part more than there are occurrences.
-/

namespace DaggerWorkflows.Text

/-- The parts of a list of characters between the separators. -/
def split (separator : Char) : List Char → List (List Char)
  | [] => [[]]
  | c :: cs =>
      if c = separator then [] :: split separator cs
      else
        match split separator cs with
        | [] => [[c]]
        | part :: parts => (c :: part) :: parts

end DaggerWorkflows.Text
