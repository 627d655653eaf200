import DaggerWorkflows.Yaml.Atom

/-!
# Texts as YAML scalars

A text can be written in several styles, and what stands in it decides which of
them would be read back as the same text. The plainest one that would be is
taken: no quotes, then single quotes, then double quotes. A text of several
lines is written line by line instead, if it can be.
-/

namespace DaggerWorkflows.Datum

/-- The styles a text is written in. -/
inductive Style where
  | plain
  | single
  | double
  | literal
deriving DecidableEq, Repr

namespace Scalar

/-- Whether a character ends a line in one of the ways that a reader of YAML
knows. -/
def isBreak (c : Char) : Bool :=
  c == '\n' || c == '\r' || c == '\u0085' || c == '\u2028' || c == '\u2029'

/-- Whether a character can stand in a text that is not escaped. -/
def isPrintable (c : Char) : Bool :=
  c == '\n' || (' ' ≤ c && c ≤ '~')
    || ('\u00a0' ≤ c && c != '\ufeff' && c != '\ufffe' && c != '\uffff')

/-- Whether a blank, a line break or the end of the text stands here. -/
def endsWord : List Char → Bool
  | [] => true
  | c :: _ => c == ' ' || c == '\t' || c == '\x00' || isBreak c

/-- Whether a text that starts with `c` before `cs` would not be read as a plain
scalar. -/
def startsIndicator (c : Char) (cs : List Char) : Bool :=
  "#,[]\x7b\x7d&*!|>'\"%@`".contains c ||
    ((c == '?' || c == ':' || c == '-') && endsWord cs)

/-- Whether a colon before a blank or a sharp after one stands in `cs`, which
comes after `before`. -/
def hasIndicator (before : Char) : List Char → Bool
  | [] => false
  | c :: cs =>
      (c == ':' && endsWord cs) || (c == '#' && endsWord [before]) ||
        hasIndicator c cs

/-- Whether a text starts like a line that marks a document boundary. -/
def startsBoundary (cs : List Char) : Bool :=
  cs.take 3 == ['-', '-', '-'] || cs.take 3 == ['.', '.', '.']

/-- Whether somewhere in the text a character of the first kind stands right
before one of the second kind. -/
def hasPair (first second : Char → Bool) : List Char → Bool
  | c :: d :: cs => (first c && second d) || hasPair first second (d :: cs)
  | _ => false

/-- Whether the first or the last character is of a kind. -/
def atEnd (kind : Char → Bool) (cs : List Char) : Bool :=
  cs.head?.any kind || cs.getLast?.any kind

/-- Whether a reader would take indicators in the text for something else. -/
def hasIndicators (cs : List Char) : Bool :=
  startsBoundary cs ||
    match cs with
    | [] => false
    | c :: cs => startsIndicator c cs || hasIndicator c cs

/-- Whether the text has to be escaped: a character cannot be written as it is,
or a blank stands before a line break. -/
def needsEscapes (cs : List Char) : Bool :=
  cs.any (!isPrintable ·) || hasPair (· == ' ') isBreak cs

/-- Whether the text can do without quotes. -/
def allowsPlain (cs : List Char) : Bool :=
  !(needsEscapes cs || cs.any isBreak || atEnd (· == ' ') cs ||
    hasIndicators cs)

/-- Whether the text can stand between single quotes. -/
def allowsSingle (cs : List Char) : Bool :=
  !(needsEscapes cs || hasPair isBreak (· == ' ') cs)

/-- Whether the text can be written line by line. -/
def allowsLiteral (cs : List Char) : Bool :=
  !(needsEscapes cs || cs.getLast? == some ' ')

/-- Whether the text without quotes would be read as something other than a
text. -/
def looksDifferent (s : String) : Bool :=
  match Yaml.Atom.ofPlain s with
  | .text _ => Yaml.Atom.isPadded s.toList
  | _ => true

/-- The style of a text. -/
def style (s : String) : Style :=
  let cs := s.toList
  if cs.contains '\n' then if allowsLiteral cs then .literal else .double
  else if !looksDifferent s && allowsPlain cs then .plain
  else if allowsSingle cs then .single
  else .double

/-- Blanks up to a column. -/
def pad (column : Nat) : List Char := List.replicate column ' '

/-- The lines of a text, each of which starts at a column. -/
def lines (column : Nat) : (atStart : Bool) → List Char → List Char
  | _, [] => []
  | atStart, c :: cs =>
      if isBreak c then c :: lines column true cs
      else (if atStart then pad column else []) ++ c :: lines column false cs

/-- The header of a literal scalar: the indentation if the lines cannot tell,
and what becomes of the line breaks at the end. -/
def header (cs : List Char) : List Char :=
  let hint := if cs.head?.any fun c => c == ' ' || isBreak c then ['2'] else []
  let chomp :=
    match cs.reverse with
    | [] => ['-']
    | [c] => if isBreak c then ['+'] else ['-']
    | c :: d :: _ =>
        if !isBreak c then ['-'] else if isBreak d then ['+'] else []
  '|' :: hint ++ chomp

/-- A text between single quotes; lines after the first start at a column. -/
def singleQuoted (column : Nat) : (atStart : Bool) → List Char → List Char
  | atStart, [] => (if atStart then pad column else []) ++ ['\'']
  | atStart, c :: cs =>
      if isBreak c then c :: singleQuoted column true cs
      else
        (if atStart then pad column else []) ++
          (if c == '\'' then ['\'', '\''] else [c])
          ++ singleQuoted column false cs

/-- A number in base sixteen with capital letters, in so many digits. -/
def hexDigits : Nat → Nat → List Char
  | 0, _ => []
  | width + 1, n =>
      hexDigits width (n / 16) ++ [(Nat.digitChar (n % 16)).toUpper]

/-- A character between double quotes. -/
def escaped (c : Char) : List Char :=
  if isPrintable c && !isBreak c && c != '"' && c != '\\' then [c]
  else
    '\\' ::
      match c with
      | '\x00' => ['0']
      | '\x07' => ['a']
      | '\x08' => ['b']
      | '\t' => ['t']
      | '\n' => ['n']
      | '\x0b' => ['v']
      | '\x0c' => ['f']
      | '\r' => ['r']
      | '\x1b' => ['e']
      | '"' => ['"']
      | '\\' => ['\\']
      | '\u0085' => ['N']
      | '\u2028' => ['L']
      | '\u2029' => ['P']
      | c =>
          if c.toNat ≤ 0xff then 'x' :: hexDigits 2 c.toNat
          else if c.toNat ≤ 0xffff then 'u' :: hexDigits 4 c.toNat
          else 'U' :: hexDigits 8 c.toNat

/-- A text as a scalar of a collection whose entries start at column
`indent`. -/
def render (indent : Nat) (s : String) : List Char :=
  let cs := s.toList
  match style s with
  | .plain => cs
  | .single => '\'' :: singleQuoted (indent + 2) false cs
  | .double => '"' :: cs.flatMap escaped ++ ['"']
  | .literal => header cs ++ '\n' :: lines (indent + 2) true cs

/-- A scalar and the end of its line, which a literal one may bring along. -/
def endLine (cs : List Char) : List Char :=
  if cs.getLast?.any isBreak then cs else cs ++ ['\n']

/-- The octets that a key may have that stands before its colon. -/
def maxKeyOctets : Nat := 128

/-- Whether a text can be a key that stands before its colon: it is short and on
one line. -/
def isSimpleKey (s : String) : Bool :=
  s.utf8ByteSize ≤ maxKeyOctets && !s.toList.any isBreak

end Scalar

end DaggerWorkflows.Datum
