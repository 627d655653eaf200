import DaggerWorkflows.Yaml.Fault
import DaggerWorkflows.Yaml.Glyph

/-!
# Horizons

A text is taken in piece by piece, and a character that no text may hold is
noticed with the piece it stands in, before anything of that piece is read.
What stands in the pieces before it is read as if nothing were wrong: a reader
that asks for less never gets there, and another fault may come first.
-/

namespace DaggerWorkflows.Yaml

/-- How far a text can be read. -/
structure Horizon where
  /-- Characters before the piece with the fault. -/
  reach : Nat
  /-- Octets before the character that the text may not hold. -/
  octets : Nat
deriving DecidableEq, Repr

namespace Horizon

/-- The octets that are taken in at a time; a character stays in one piece. -/
def pieceSize : Nat := 16384

/-- Look on for a character that a text may not hold, after so many octets and
characters; the piece has started after `start` octets and `reach`
characters. -/
def scan : List Char → (octets index start reach : Nat) → Option Horizon
  | [], _, _, _, _ => none
  | c :: cs, octets, index, start, reach =>
      let isFull := decide (start + pieceSize < octets + c.utf8Size)
      let start := if isFull then octets else start
      let reach := if isFull then index else reach
      if isAllowed c then scan cs (octets + c.utf8Size) (index + 1) start reach
      else some ⟨reach, octets⟩

/-- The horizon of a text, unless all of it can be read. -/
def ofText? (text : String) : Option Horizon := scan text.toList 0 0 0 0

/-- The fault that stands behind a horizon. -/
def fault (h : Horizon) : Fault := .control h.octets

/-- The characters that a token takes to be told from others. -/
def lookahead : Nat := 4

/-- Whether a reader can tell which token starts at a place. -/
def shows (h : Horizon) (m : Mark) :
    Bool := decide (m.index + lookahead ≤ h.reach)

/-- Whether a reader can get to a place and see that nothing more belongs to its
token. -/
def passes (h : Horizon) (m : Mark) : Bool := decide (m.index < h.reach)

end Horizon

end DaggerWorkflows.Yaml
