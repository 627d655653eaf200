import DaggerWorkflows.Yaml.Fault
import DaggerWorkflows.Yaml.Scalar.Fold

/-!
# Plain scalars

A plain scalar has no quotes: it ends where its text could be taken for
something else. Its words run up to a blank, a line break or an indicator, and
the gaps between them are folded.
-/

namespace DaggerWorkflows.Yaml

/-- A plain scalar that has been read. -/
structure PlainScalar where
  text : List Char
  /-- Whether a line ended after the last word. -/
  broken : Bool
  /-- What follows; blanks and line breaks after the last word have been
  taken. -/
  rest : List Glyph
deriving DecidableEq, Repr

namespace PlainScalar

/-- The characters that end a plain scalar inside brackets or braces. -/
def isFlowIndicator (c : Char) : Bool :=
  c == ',' || c == '[' || c == ']' || c == '{' || c == '}'

/-- Whether a colon before `gs` is out of place inside brackets or braces. -/
def colonMisplaced (gs : List Glyph) : Bool :=
  match gs with
  | [] => false
  | g :: _ => isFlowIndicator g.char || g.char == '?'

/-- Whether the character `c` before `gs` ends the scalar. -/
def endsBefore (flow : Bool) (c : Char) (gs : List Glyph) : Bool :=
  (c == ':' && Glyph.endsWord gs) || (flow && isFlowIndicator c)

/-- Whether the scalar ends at the first word of `gs`, after a gap. -/
def endsAfterGap (flow : Bool) (indent : Nat) (gs : List Glyph) : Bool :=
  match gs with
  | [] => true
  | g :: _ =>
      (!flow && g.mark.column < indent) || Glyph.isDocumentBoundary gs ||
        g.char == '#'

/-- Read on from `gs`, with the characters read so far in reverse and the gap
after them. -/
def readFrom (flow : Bool) (indent : Nat) (start : Mark) :
    List Glyph → List Char → Gap → Except Fault PlainScalar
  | [], text, gap => .ok ⟨text.reverse, gap.broken, []⟩
  | g :: gs, text, gap =>
      if g.isBlank then
        if gap.broken && g.mark.column < indent && g.char == '\t' then
          .error (.form .tabInScalar g.mark (some (.plainScalar, start)))
        else readFrom flow indent start gs text (gap.addBlank g.char)
      else if g.isBreak then readFrom flow indent start gs text
        (gap.addBreak g.char)
      else if !gap.isEmpty && endsAfterGap flow indent (g :: gs) then
        .ok ⟨text.reverse, gap.broken, g :: gs⟩
      else if flow && g.char == ':' && colonMisplaced gs then
        .error (.form .colonInScalar g.mark (some (.plainScalar, start)))
      else if endsBefore flow g.char gs
        then .ok ⟨text.reverse, gap.broken, g :: gs⟩
      else readFrom flow indent start gs (g.char :: (gap.text.reverse ++ text))
        .empty

/-- Read the plain scalar that `gs` starts with. Outside brackets and braces, a
continuation line stands at column `indent` or further right. -/
def read (flow : Bool) (indent : Nat) (start : Mark) (gs : List Glyph) :
    Except Fault PlainScalar :=
  readFrom flow indent start gs [] .empty

end PlainScalar

end DaggerWorkflows.Yaml
