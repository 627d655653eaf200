import DaggerWorkflows.Yaml.Tag
import DaggerWorkflows.Yaml.Scalar.Block

/-!
# Directives

A line that starts with a percent sign speaks about the document after it:
which version of the format it is written in, or what a tag handle stands for.
-/

namespace DaggerWorkflows.Yaml

/-- A directive line. -/
inductive Directive where
  /-- The version of the format. -/
  | version (major minor : Nat)
  /-- What a tag handle stands for. -/
  | tag (handle : String) (expansion : List UInt8)
deriving DecidableEq, Repr

namespace Directive

/-- Digits a version number may have. -/
def maxDigits : Nat := 9

/-- Read a number, `count` digits of which have been read. -/
def readNumber (start stop : Mark) :
    List Glyph → (count value : Nat) → Except Fault (Nat × List Glyph)
  | [], count, value =>
      if count = 0 then .error
        (.form .versionNumberMissing stop (some (.versionDirective, start)))
      else .ok (value, [])
  | g :: gs, count, value =>
      if g.char.isDigit then
        if count = maxDigits then
          .error (.form .versionNumberTooLong g.mark
            (some (.versionDirective, start)))
        else readNumber start stop gs (count + 1)
          (value * 10 + (g.char.toNat - '0'.toNat))
      else if count = 0 then
        .error
          (.form .versionNumberMissing g.mark (some (.versionDirective, start)))
      else .ok (value, g :: gs)

/-- Read the value of a version directive. -/
def readVersion (start stop : Mark) (gs : List Glyph) :
    Except Fault (Directive × List Glyph) := do
  let (major, rest) ← readNumber start stop (gs.dropWhile Glyph.isBlank) 0 0
  if !WrittenTag.startsWith '.' rest then
    throw (.form .versionSeparatorMissing (Glyph.place rest stop)
      (some (.versionDirective, start)))
  let (minor, rest) ← readNumber start stop rest.tail 0 0
  return (.version major minor, rest)

/-- Read the handle of a tag directive. -/
def readHandle (start stop : Mark) (gs : List Glyph) :
    Except Fault (String × List Glyph) := do
  if !WrittenTag.startsWith '!' gs then
    throw (.form .tagMarkExpected (Glyph.place gs stop)
      (some (.tagDirectiveHandle, start)))
  let (word, rest) := WrittenTag.readWord gs.tail
  if WrittenTag.startsWith '!' rest then
    return (String.ofList ('!' :: word ++ ['!']), rest.tail)
  if !word.isEmpty then
    throw (.form .tagMarkExpected (Glyph.place rest stop)
      (some (.tagDirectiveHandleEnd, start)))
  return ("!", rest)

/-- Read the value of a tag directive. -/
def readTag (start stop : Mark) (gs : List Glyph) :
    Except Fault (Directive × List Glyph) := do
  let (handle, rest) ← readHandle start stop (gs.dropWhile Glyph.isBlank)
  if !(rest.head?.any Glyph.isBlank) then
    throw (.form .blankExpected (Glyph.place rest stop)
      (some (.tagDirective, start)))
  let (expansion, rest) ←
    WrittenTag.readSuffix true .tagDirectiveValue start stop
      (rest.dropWhile Glyph.isBlank)
  if !Glyph.endsWord rest then
    throw (.form .blankOrBreakExpected (Glyph.place rest stop)
      (some (.tagDirective, start)))
  return (.tag handle expansion, rest)

/-- Read a directive without the end of its line, after its percent sign. -/
def readBody (start stop : Mark) (gs : List Glyph) :
    Except Fault (Directive × List Glyph) := do
  let (name, rest) := WrittenTag.readWord gs
  if name.isEmpty then
    throw (.form .directiveNameMissing (Glyph.place rest stop)
      (some (.directive, start)))
  if !Glyph.endsWord rest then
    throw (.form .directiveNameBroken (Glyph.place rest stop)
      (some (.directive, start)))
  if name = "YAML".toList then readVersion start stop rest
  else if name = "TAG".toList then readTag start stop rest
  else throw (.form .directiveUnknown (Glyph.place rest stop)
    (some (.directive, start)))

/-- Read the directive whose percent sign stands at `start`, right before `gs`,
with its line. -/
def read (start stop : Mark) (gs : List Glyph) :
    Except Fault (Directive × List Glyph) := do
  let (directive, rest) ← readBody start stop gs
  let rest := BlockScalar.skipComment rest
  if Glyph.endsLine rest then return (directive, rest.tail)
  throw (.form .lineEndExpected (Glyph.place rest stop)
    (some (.directive, start)))

end Directive

end DaggerWorkflows.Yaml
