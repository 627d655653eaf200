import DaggerWorkflows.Yaml.Mark

/-!
# Glyphs

A text is read as a list of glyphs: its characters, each with the mark it
stands at. Line breaks are made uniform here and nowhere else. A carriage
return, a line feed, the two together and a next-line character all become a
line feed; the line and paragraph separators stay as they are, because a
scalar that spans lines keeps them.
-/

namespace DaggerWorkflows.Yaml

/-- A character and the place it stands at. -/
structure Glyph where
  char : Char
  mark : Mark
deriving DecidableEq, Repr, Inhabited

/-- Whether a character ends a line once line breaks are uniform. -/
def isBreak (c : Char) : Bool := c == '\n' || c == '\u2028' || c == '\u2029'

/-- Whether a character is a space or a tab. -/
def isBlank (c : Char) : Bool := c == ' ' || c == '\t'

/-- Whether a character may stand in a directive name, an anchor or a tag
handle. -/
def isWordChar (c : Char) : Bool := c.isAlphanum || c == '_' || c == '-'

/-- Whether a text may hold the character unescaped. -/
def isAllowed (c : Char) : Bool :=
  c == '\t' || c == '\n' || c == '\r' || (' ' ≤ c && c ≤ '~') || c == '\u0085'
    || ('\u00a0' ≤ c && c != '\ufffe' && c != '\uffff')

/-- The value of a hexadecimal digit. -/
def hexValue? (c : Char) : Option Nat :=
  if '0' ≤ c && c ≤ '9' then some (c.toNat - '0'.toNat)
  else if 'a' ≤ c && c ≤ 'f' then some (c.toNat - 'a'.toNat + 10)
  else if 'A' ≤ c && c ≤ 'F' then some (c.toNat - 'A'.toNat + 10)
  else none

namespace Glyph

/-- Whether the glyph ends a line. -/
def isBreak (g : Glyph) : Bool := Yaml.isBreak g.char

/-- Whether the glyph is a space or a tab. -/
def isBlank (g : Glyph) : Bool := Yaml.isBlank g.char

/-- The glyphs of `cs`, the first of which stands at `m`, and the place after
the last. -/
def listOf : List Char → Mark → List Glyph × Mark
  | [], m => ([], m)
  | '\r' :: '\n' :: cs, m =>
      let (gs, stop) := listOf cs (m.nextLine 2)
      (⟨'\n', m⟩ :: gs, stop)
  | c :: cs, m =>
      if c == '\r' || c == '\u0085' then
        let (gs, stop) := listOf cs (m.nextLine 1)
        (⟨'\n', m⟩ :: gs, stop)
      else
        let (gs, stop) :=
          listOf cs (if Yaml.isBreak c then m.nextLine 1 else m.next)
        (⟨c, m⟩ :: gs, stop)

/-- Whether a word ends before `gs`: at a blank, at a line break or at the end
of the text. -/
def endsWord : List Glyph → Bool
  | [] => true
  | g :: _ => g.isBlank || g.isBreak

/-- Whether a line ends before `gs`. -/
def endsLine : List Glyph → Bool
  | [] => true
  | g :: _ => g.isBreak

/-- The place where `gs` starts, in a text that ends at `stop`. -/
def place (gs : List Glyph) (stop : Mark) : Mark :=
  match gs with
  | [] => stop
  | g :: _ => g.mark

/-- Whether the line that `gs` starts marks a document boundary with three of
`c`. -/
def isBoundary (c : Char) (gs : List Glyph) : Bool :=
  match gs with
  | g₁ :: g₂ :: g₃ :: rest =>
      g₁.mark.column == 0 && g₁.char == c && g₂.char == c && g₃.char == c &&
        endsWord rest
  | _ => false

/-- Whether a line that starts or ends a document stands here. -/
def isDocumentBoundary (gs : List Glyph) : Bool :=
  isBoundary '-' gs || isBoundary '.' gs

end Glyph

end DaggerWorkflows.Yaml
