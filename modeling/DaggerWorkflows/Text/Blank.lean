/-!
# Blank characters

The characters that separate words: those that Unicode calls white space.
-/

namespace DaggerWorkflows.Text

/-- Whether a character is white space. -/
def isBlank (c : Char) : Bool :=
  ('\t' ≤ c && c ≤ '\r') || c == ' ' || c == '\u0085' || c == '\u00a0' ||
    c == '\u1680'
    || ('\u2000' ≤ c && c ≤ '\u200a') || c == '\u2028' || c == '\u2029' ||
      c == '\u202f'
    || c == '\u205f' || c == '\u3000'

/-- A list of characters without the blanks at both its ends. -/
def trimList (cs : List Char) : List Char :=
  ((cs.dropWhile isBlank).reverse.dropWhile isBlank).reverse

/-- A text without the blanks at both its ends. -/
def trim (s : String) : String := String.ofList (trimList s.toList)

/-- Whether a text holds nothing but blanks. -/
def isBlankText (s : String) : Bool := s.toList.all isBlank

/-- The first word of a text; empty if there is none. -/
def firstWord (s : String) : String :=
  String.ofList ((s.toList.dropWhile isBlank).takeWhile (!isBlank ·))

end DaggerWorkflows.Text
