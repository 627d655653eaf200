import DaggerWorkflows.Yaml.Glyph
import DaggerWorkflows.Yaml.Fault

/-!
# Block scalars

A block scalar is a run of indented lines after a header. The header says
whether line breaks are kept (`|`) or folded (`>`), what becomes of the breaks
at the end, and, if the lines cannot tell, how far they are indented.
-/

namespace DaggerWorkflows.Yaml

/-- What becomes of the line breaks at the end of a block scalar. -/
inductive Chomping where
  /-- None is kept. -/
  | strip
  /-- The first one is kept. -/
  | clip
  /-- All are kept. -/
  | keep
deriving DecidableEq, Repr

/-- What the header of a block scalar says. -/
structure BlockHeader where
  chomping : Chomping
  /-- Indentation of the lines below the collection they belong to; zero if left
  to the lines. -/
  increment : Nat
deriving DecidableEq, Repr

/-- A block scalar that has been read, and what follows it. -/
structure BlockScalar where
  text : List Char
  rest : List Glyph
deriving DecidableEq, Repr

namespace BlockScalar

/-- The chomping that a character asks for. -/
def chomping? (c : Char) : Option Chomping :=
  match c with
  | '+' => some .keep
  | '-' => some .strip
  | _ => none

/-- Read an indentation digit, if one stands here. -/
def readIncrement (start : Mark) (gs : List Glyph) :
    Except Fault (Nat × List Glyph) :=
  match gs with
  | [] => .ok (0, [])
  | g :: gs' =>
      if g.char == '0'
        then .error (.form .indentationZero g.mark (some (.blockScalar, start)))
      else if g.char.isDigit then .ok (g.char.toNat - '0'.toNat, gs')
      else .ok (0, g :: gs')

/-- Read a chomping sign, if one stands here. -/
def readChomping (gs : List Glyph) : Chomping × List Glyph :=
  match gs with
  | [] => (.clip, [])
  | g :: gs' =>
      match chomping? g.char with
      | some chomping => (chomping, gs')
      | none => (.clip, g :: gs')

/-- Read the sign and the digit of a header, in either order. -/
def readIndicators (start : Mark) (gs : List Glyph) :
    Except Fault (BlockHeader × List Glyph) := do
  match (gs.head?.map Glyph.char).bind chomping? with
  | some chomping =>
      let (increment, rest) ← readIncrement start gs.tail
      return (⟨chomping, increment⟩, rest)
  | none =>
      let (increment, rest) ← readIncrement start gs
      let (chomping, rest) :=
        if increment = 0 then (.clip, rest) else readChomping rest
      return (⟨chomping, increment⟩, rest)

/-- Skip blanks and a comment. -/
def skipComment (gs : List Glyph) : List Glyph :=
  let gs := gs.dropWhile Glyph.isBlank
  if (gs.head?.map Glyph.char) == some '#' then gs.dropWhile (!·.isBreak)
    else gs

/-- Read a header, up to the end of its line. -/
def readHeader (start stop : Mark) (gs : List Glyph) :
    Except Fault (BlockHeader × List Glyph) := do
  let (header, rest) ← readIndicators start gs
  let rest := skipComment rest
  if Glyph.endsLine rest then return (header, rest.tail)
  throw (.form .lineEndExpected (Glyph.place rest stop)
    (some (.blockScalar, start)))

/-- Where a reader of a block scalar stands between two characters. -/
inductive State where
  /-- Before the first character of a line; `indent` is zero while the lines
  have not told, and `widest` is the longest run of spaces so far. -/
  | lineStart (indent widest : Nat)
  /-- Inside a line of a scalar indented by `indent`. -/
  | inLine (indent : Nat)
deriving DecidableEq, Repr

/-- What has been read of a block scalar. -/
structure Progress where
  /-- The characters so far, in reverse. -/
  text : List Char
  /-- The break that ended the last line. -/
  first : List Char
  /-- The breaks of the empty lines since. -/
  others : List Char
  /-- Whether the last line started with a blank; such lines are not folded. -/
  afterBlank : Bool
deriving DecidableEq, Repr

namespace Progress

/-- Nothing read. -/
def empty : Progress := ⟨[], [], [], false⟩

/-- Start a line with the character `c`, joining it to the line before. -/
def startLine (literal : Bool) (p : Progress) (c : Char) : Progress :=
  let blank := isBlank c
  let folded := !literal && p.first = ['\n'] && !p.afterBlank && !blank
  let joint := if folded then (if p.others.isEmpty then [' '] else [])
    else p.first
  ⟨c :: ((joint ++ p.others).reverse ++ p.text), [], [], blank⟩

/-- The text once the scalar has ended. -/
def finish (chomping : Chomping) (p : Progress) : List Char :=
  p.text.reverse ++
    match chomping with
    | .strip => []
    | .clip => p.first
    | .keep => p.first ++ p.others

end Progress

/-- The column that lines start at, once the first one with text has been
reached. -/
def settleIndent (level indent widest : Nat) : Nat :=
  if indent = 0 then max (max widest level) 1 else indent

/-- Read on from a list of glyphs. `level` is one more than the column of the
surrounding block collection, or zero outside of one. -/
def readFrom (literal : Bool) (level : Nat) (start : Mark)
    (chomping : Chomping) :
    List Glyph → Progress → State → Except Fault BlockScalar
  | [], p, _ => .ok ⟨p.finish chomping, []⟩
  | g :: gs, p, .inLine indent =>
      if g.isBreak then
        readFrom literal level start chomping gs { p with first := [g.char] }
          (.lineStart indent 0)
      else
        let p := { p with text := g.char :: p.text }
        readFrom literal level start chomping gs p (.inLine indent)
  | g :: gs, p, .lineStart indent widest =>
      let short := indent = 0 || g.mark.column < indent
      if short && g.char == ' ' then
        readFrom literal level start chomping gs p
          (.lineStart indent (max widest (g.mark.column + 1)))
      else if short && g.char == '\t' then
        .error (.form .indentationTab g.mark (some (.blockScalar, start)))
      else if g.isBreak then
        readFrom literal level start chomping gs
          { p with others := p.others ++ [g.char] } (.lineStart indent widest)
      else if g.mark.column = settleIndent level indent widest then
        readFrom literal level start chomping gs (p.startLine literal g.char)
          (.inLine (settleIndent level indent widest))
      else .ok ⟨p.finish chomping, g :: gs⟩

/-- Read the block scalar whose indicator stands at `start`, right before
`gs`. -/
def read (literal : Bool) (level : Nat) (start stop : Mark) (gs : List Glyph) :
    Except Fault BlockScalar := do
  let (header, rest) ← readHeader start stop gs
  let indent := if header.increment = 0 then 0 else level - 1 + header.increment
  readFrom literal level start header.chomping rest .empty (.lineStart indent 0)

end BlockScalar

end DaggerWorkflows.Yaml
