import DaggerWorkflows.Yaml.Fault
import DaggerWorkflows.Yaml.Scalar.Fold

/-!
# Quoted scalars

Between single quotes a quote is written twice and nothing else is special;
between double quotes a backslash starts an escape. In both, gaps that span
lines are folded as in plain scalars.
-/

namespace DaggerWorkflows.Yaml

/-- Where a reader of a quoted scalar stands between two characters. -/
inductive QuotedState where
  /-- In the text, `gap` having been read since the last word. -/
  | text (gap : Gap)
  /-- After a backslash that stands at `mark`. -/
  | escape (mark : Mark)
  /-- With `left` hexadecimal digits to come, the first of them at `mark`. -/
  | digits (left : Nat) (value : Nat) (mark : Mark)
deriving DecidableEq, Repr

/-- A quoted scalar that has been read, and what follows its closing quote. -/
structure QuotedScalar where
  text : List Char
  rest : List Glyph
deriving DecidableEq, Repr

namespace QuotedScalar

/-- The characters that a backslash and one letter stand for. -/
def escapeValue? (c : Char) : Option Char :=
  match c with
  | '0' => some '\x00'
  | 'a' => some '\x07'
  | 'b' => some '\x08'
  | 't' => some '\t'
  | '\t' => some '\t'
  | 'n' => some '\n'
  | 'v' => some '\x0b'
  | 'f' => some '\x0c'
  | 'r' => some '\r'
  | 'e' => some '\x1b'
  | ' ' => some ' '
  | '"' => some '"'
  | '/' => some '/'
  | '\\' => some '\\'
  | 'N' => some '\u0085'
  | '_' => some '\u00a0'
  | 'L' => some '\u2028'
  | 'P' => some '\u2029'
  | _ => none

/-- How many hexadecimal digits follow a backslash and one letter. -/
def escapeWidth? (c : Char) : Option Nat :=
  match c with
  | 'x' => some 2
  | 'u' => some 4
  | 'U' => some 8
  | _ => none

/-- The character of a code point, when it is one. -/
def charOfNat? (n : Nat) : Option Char :=
  if h : n.isValidChar then some (Char.ofNatAux n h) else none

/-- Read on from a list of glyphs that ends at `stop`, with the characters read
so far in reverse. -/
def readFrom (single : Bool) (start stop : Mark) :
    List Glyph → List Char → QuotedState → Except Fault QuotedScalar
  | [], _, .text _ =>
    .error (.form .endInScalar stop (some (.quotedScalar, start)))
  | [], _, .escape mark =>
      .error (.form .escapeUnknown mark (some (.quotedEscape, start)))
  | [], _, .digits _ _ mark =>
      .error (.form .escapeDigitExpected mark (some (.quotedEscape, start)))
  | g :: gs, text, .escape mark =>
      if g.isBreak then readFrom single start stop gs text (.text .escaped)
      else match escapeValue? g.char with
        | some c => readFrom single start stop gs (c :: text) (.text .empty)
        | none =>
          match escapeWidth? g.char with
          | some width =>
              readFrom single start stop gs text (.digits width 0 g.mark.next)
          | none =>
              .error (.form .escapeUnknown mark (some (.quotedEscape, start)))
  | g :: gs, text, .digits left value mark =>
      match hexValue? g.char with
      | none =>
          .error (.form .escapeDigitExpected mark (some (.quotedEscape, start)))
      | some digit =>
        if left ≤ 1 then
          match charOfNat? (value * 16 + digit) with
          | some c => readFrom single start stop gs (c :: text) (.text .empty)
          | none =>
            .error (.form .escapeOutOfRange mark (some (.quotedEscape, start)))
        else readFrom single start stop gs text
          (.digits (left - 1) (value * 16 + digit) mark)
  | g :: gs, text, .text gap =>
      if g.isBlank then readFrom single start stop gs text
        (.text (gap.addBlank g.char))
      else if g.isBreak then readFrom single start stop gs text
        (.text (gap.addBreak g.char))
      else if Glyph.isDocumentBoundary (g :: gs) then
        .error (.form .boundaryInScalar g.mark (some (.quotedScalar, start)))
      else
        let text := gap.text.reverse ++ text
        if single then
          if g.char == '\'' then
            match gs with
            | g' :: gs' =>
                if g'.char == '\'' then readFrom single start stop gs'
                  ('\'' :: text) (.text .empty)
                else .ok ⟨text.reverse, g' :: gs'⟩
            | [] => .ok ⟨text.reverse, []⟩
          else readFrom single start stop gs (g.char :: text) (.text .empty)
        else if g.char == '"' then .ok ⟨text.reverse, gs⟩
        else if g.char == '\\' then readFrom single start stop gs text
          (.escape g.mark)
        else readFrom single start stop gs (g.char :: text) (.text .empty)

/-- Read the scalar whose opening quote stands at `start`, right before `gs`. -/
def read (single : Bool) (start stop : Mark) (gs : List Glyph) :
    Except Fault QuotedScalar :=
  readFrom single start stop gs [] (.text .empty)

end QuotedScalar

end DaggerWorkflows.Yaml
