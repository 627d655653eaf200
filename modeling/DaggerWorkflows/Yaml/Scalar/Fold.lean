import DaggerWorkflows.Yaml.Glyph

/-!
# Folding

Between two words of a scalar that spans lines stand blanks and line breaks.
A `Gap` collects them, and `Gap.text` is what they stand for: blanks on one
line stay, a single line feed becomes a space, and of several breaks the first
line feed is dropped. Line and paragraph separators are never dropped.
-/

namespace DaggerWorkflows.Yaml

/-- What has been read since the last word of a scalar. -/
structure Gap where
  /-- Blanks, while no line break has been seen. -/
  blanks : List Char
  /-- Whether a line has ended since. -/
  broken : Bool
  /-- The first line break, unless it was escaped. -/
  first : List Char
  /-- The line breaks after it. -/
  others : List Char
deriving DecidableEq, Repr, Inhabited

namespace Gap

/-- Nothing stands between two characters of a word. -/
def empty : Gap := ⟨[], false, [], []⟩

/-- The gap right after a line break that is not part of the text. -/
def escaped : Gap := ⟨[], true, [], []⟩

/-- Whether anything stands between. -/
def isEmpty (gap : Gap) : Bool := gap.blanks.isEmpty && !gap.broken

/-- Add a blank; blanks at the start of a line are dropped. -/
def addBlank (gap : Gap) (c : Char) : Gap :=
  if gap.broken then gap else { gap with blanks := gap.blanks ++ [c] }

/-- Add a line break; blanks at the end of a line are dropped. -/
def addBreak (gap : Gap) (c : Char) : Gap :=
  if gap.broken then { gap with others := gap.others ++ [c] }
    else ⟨[], true, [c], []⟩

/-- The characters the gap stands for. -/
def text (gap : Gap) : List Char :=
  if !gap.broken then gap.blanks
  else if gap.first =
    ['\n'] then (if gap.others.isEmpty then [' '] else gap.others)
  else gap.first ++ gap.others

end Gap

end DaggerWorkflows.Yaml
