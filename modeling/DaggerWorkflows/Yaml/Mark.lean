/-!
# Marks

Every complaint about a text names the place it was found at. A mark counts
characters from the start of the text and also keeps the line and the column,
all from zero; it is shown to people counting from one.
-/

namespace DaggerWorkflows.Yaml

/-- A place in a text. -/
structure Mark where
  /-- Characters before this place, a carriage return and its line feed counting
  as two. -/
  index : Nat
  /-- Line breaks before this place. -/
  line : Nat
  /-- Characters between the start of the line and this place. -/
  column : Nat
deriving DecidableEq, Repr, Inhabited

namespace Mark

/-- The start of a text. -/
def start : Mark := ⟨0, 0, 0⟩

/-- The place after one more character of the same line. -/
def next (m : Mark) : Mark := ⟨m.index + 1, m.line, m.column + 1⟩

/-- The start of the next line, `width` characters on. -/
def nextLine (m : Mark) (width : Nat) : Mark := ⟨m.index + width, m.line + 1, 0⟩

/-- The start of the next line when something already stands on this one. -/
def pastLine (m : Mark) : Mark :=
  if m.column = 0 then m else ⟨m.index, m.line + 1, 0⟩

/-- Whether the mark names the first character; such a place is never shown. -/
def isOrigin (m : Mark) : Bool := m.line == 0 && m.column == 0

/-- Whether two marks name the same line and column. -/
def samePlace (m n : Mark) : Bool := m.line == n.line && m.column == n.column

/-- The place as shown to people. -/
def describe (m : Mark) : String := s!"line {m.line + 1} column {m.column + 1}"

end Mark

end DaggerWorkflows.Yaml
