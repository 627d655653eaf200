import DaggerWorkflows.Yaml.Horizon
import DaggerWorkflows.Yaml.Scalar.Plain
import DaggerWorkflows.Yaml.Scalar.Quoted
import DaggerWorkflows.Yaml.Token.Lexer

/-!
# Tokens of a text

What starts at a place decides which token stands there. A fault ends the
reading, but the tokens before it that are settled are kept: what they mean is
looked at first, and may itself be wrong.
-/

namespace DaggerWorkflows.Yaml

namespace Lexer

/-- Take one character as an indicator. -/
def indicator (s : Lexer) (kind : Token.Kind) : Lexer :=
  { s.emit kind s.mark s.mark.next with rest := s.rest.tail }

/-- The end of the text closes everything. -/
def finish (s : Lexer) : Except Fault Lexer := do
  let s := { s with stop := s.stop.pastLine }
  let s ← (s.unroll 0).dropKey
  return { s.emit .streamEnd s.mark s.mark with keyAllowed := false }

/-- A line of three dashes or three dots. -/
def boundary (s : Lexer) (kind : Token.Kind) : Except Fault Lexer := do
  let s ← (s.unroll 0).dropKey
  return { s.emit kind s.mark s.mark with
    keyAllowed := false, rest := s.rest.drop 3 }

/-- A directive line. -/
def directive (s : Lexer) : Except Fault Lexer := do
  let s ← (s.unroll 0).dropKey
  let (directive, rest) ← Directive.read s.mark s.stop s.rest.tail
  return { s.emit (.directive directive) s.mark s.mark with
    keyAllowed := false, rest }

/-- An opening bracket, which may start a key and inside which keys are
allowed. -/
def openFlow (s : Lexer) (kind : Token.Kind) : Except Fault Lexer := do
  let s ← s.saveKey
  return { s.indicator kind with
    keyAllowed := true, key := none, outer := s.key :: s.outer }

/-- A closing bracket; one too many changes nothing. -/
def closeFlow (s : Lexer) (kind : Token.Kind) : Except Fault Lexer := do
  let s := { ← s.dropKey with keyAllowed := false }
  match s.outer with
  | [] => return s.indicator kind
  | key :: outer => return { s.indicator kind with key, outer }

/-- A comma between brackets. -/
def flowEntry (s : Lexer) : Except Fault Lexer := do
  let s ← s.dropKey
  return { s.indicator .flowEntry with keyAllowed := true }

/-- Open a block collection for an indicator, where that is allowed. -/
def rollHere (s : Lexer) (kind : Token.Kind) (problem : Problem) :
    Except Fault Lexer :=
  if s.inFlow then .ok s
  else if s.keyAllowed then .ok (s.roll s.mark.column s.tokens.size kind s.mark)
  else .error (.form problem s.mark none)

/-- A dash before an entry of a block sequence. -/
def blockEntry (s : Lexer) : Except Fault Lexer := do
  let s ← s.rollHere .blockSequenceStart .blockEntryMisplaced
  let s ← s.dropKey
  return { s.indicator .blockEntry with keyAllowed := true }

/-- A question mark before a key. -/
def explicitKey (s : Lexer) : Except Fault Lexer := do
  let s ← s.rollHere .blockMappingStart .keyMisplaced
  let s ← s.dropKey
  return { s.indicator .key with keyAllowed := !s.inFlow }

/-- A colon before a value. If a key may have started before it, it did. -/
def value (s : Lexer) : Except Fault Lexer :=
  match s.key with
  | some k =>
      let s :=
        { s with
          tokens := s.tokens.insertIdxIfInBounds k.number
            ⟨.key, k.mark, k.mark⟩ }
      let s := s.roll k.mark.column k.number .blockMappingStart k.mark
      .ok { s.indicator .value with key := none, keyAllowed := false }
  | none => do
      let s ← s.rollHere .blockMappingStart .valueMisplaced
      return { s.indicator .value with keyAllowed := !s.inFlow }

/-- Whether a name may end before `gs`. -/
def endsName (gs : List Glyph) : Bool :=
  Glyph.endsWord gs || (gs.head?.any fun g => "?:,]\x7d%@`".contains g.char)

/-- An anchor or an alias. -/
def name (s : Lexer) (context : Context) (kind : String → Token.Kind) :
    Except Fault Lexer := do
  let s := { ← s.saveKey with keyAllowed := false }
  let (word, rest) := WrittenTag.readWord s.rest.tail
  if word.isEmpty || !endsName rest then
    throw (.form .anchorNameExpected (Glyph.place rest s.stop)
      (some (context, s.mark)))
  return { s.emit (kind (String.ofList word)) s.mark s.mark with rest }

/-- A tag. -/
def tag (s : Lexer) : Except Fault Lexer := do
  let s := { ← s.saveKey with keyAllowed := false }
  let (tag, rest) ← WrittenTag.read s.inFlow s.mark s.stop s.rest.tail
  return { s.emit (.tag tag) s.mark s.mark with rest }

/-- A block scalar, which cannot be a key. -/
def blockScalar (s : Lexer) (literal : Bool) : Except Fault Lexer := do
  let s := { ← s.dropKey with keyAllowed := true }
  let scalar ← BlockScalar.read literal s.level s.mark s.stop s.rest.tail
  let style := if literal then .literal else .folded
  let token := Token.Kind.scalar (String.ofList scalar.text) style
  return { s.emit token s.mark s.mark with rest := scalar.rest }

/-- A quoted scalar. -/
def quotedScalar (s : Lexer) (single : Bool) : Except Fault Lexer := do
  let s := { ← s.saveKey with keyAllowed := false }
  let scalar ← QuotedScalar.read single s.mark s.stop s.rest.tail
  let style := if single then .singleQuoted else .doubleQuoted
  let token := Token.Kind.scalar (String.ofList scalar.text) style
  return { s.emit token s.mark s.mark with rest := scalar.rest }

/-- A plain scalar; if a line ended after it, a key is allowed there. -/
def plainScalar (s : Lexer) : Except Fault Lexer := do
  let s ← s.saveKey
  let scalar ← PlainScalar.read s.inFlow s.level s.mark s.rest
  return { s.emit (.scalar (String.ofList scalar.text) .plain) s.mark s.mark
    with
    keyAllowed := scalar.broken, rest := scalar.rest }

/-- The characters that cannot start a plain scalar unless the next one makes it
clear. -/
def isIndicator (c : Char) : Bool := "-?:,[]\x7b\x7d#&*!|>'\"%@`".contains c

/-- Whether a plain scalar may start with the character `c` before `gs`. -/
def startsPlain (inFlow : Bool) (c : Char) (gs : List Glyph) : Bool :=
  !(isBlank c || isBreak c || isIndicator c)
    || (c == '-' && !(gs.head?.any Glyph.isBlank))
    || (!inFlow && (c == '?' || c == ':') && !Glyph.endsWord gs)

/-- Read the token that starts with the glyph `g`, right before `gs`. -/
def readAt (s : Lexer) (g : Glyph) (gs : List Glyph) : Except Fault Lexer :=
  if g.char == '%' && g.mark.column == 0 then s.directive
  else if Glyph.isBoundary '-' s.rest then s.boundary .documentStart
  else if Glyph.isBoundary '.' s.rest then s.boundary .documentEnd
  else if g.char == '[' then s.openFlow .flowSequenceStart
  else if g.char == '{' then s.openFlow .flowMappingStart
  else if g.char == ']' then s.closeFlow .flowSequenceEnd
  else if g.char == '}' then s.closeFlow .flowMappingEnd
  else if g.char == ',' then s.flowEntry
  else if g.char == '-' && Glyph.endsWord gs then s.blockEntry
  else if g.char == '?' && (s.inFlow || Glyph.endsWord gs) then s.explicitKey
  else if g.char == ':' && (s.inFlow || Glyph.endsWord gs) then s.value
  else if g.char == '*' then s.name .reference .reference
  else if g.char == '&' then s.name .anchor .anchor
  else if g.char == '!' then s.tag
  else if g.char == '|' && !s.inFlow then s.blockScalar true
  else if g.char == '>' && !s.inFlow then s.blockScalar false
  else if g.char == '\'' then s.quotedScalar true
  else if g.char == '"' then s.quotedScalar false
  else if startsPlain s.inFlow g.char gs then s.plainScalar
  else .error (.form .tokenExpected s.mark (some (.nextToken, s.mark)))

/-- Read one token, with the ones that indentation puts around it. -/
def step (s : Lexer) : Except Fault Lexer := do
  let s ← s.skip.dropStale
  let s := s.unroll (s.mark.column + 1)
  let s ←
    match s.rest with
    | [] => s.finish
    | g :: gs => s.readAt g gs
  s.dropStale

/-- Read one token as far as the horizon allows. A fault counts only if the
place where it is noticed can be got to. -/
def stepWithin (s : Lexer) : Option Horizon → Except Fault Lexer
  | none => s.step
  | some h =>
      if !h.shows s.skip.mark then .error h.fault
      else
        match s.step with
        | .ok s' => if h.passes s'.mark then .ok s' else .error h.fault
        | .error fault =>
            .error (if fault.mark?.all h.passes then fault else h.fault)

/-- Read up to the end of the text, its horizon or a fault, in that many
steps. -/
def run (h : Option Horizon) : Nat → Lexer → List Token × Option Fault
  | 0, s => (s.tokens.toList, none)
  | fuel + 1, s =>
      match s.stepWithin h with
      | .error fault => (s.tokens.toList.take s.settled, some fault)
      | .ok s' =>
          if s'.tokens.back?.any (·.kind == .streamEnd)
            then (s'.tokens.toList, none)
          else run h fuel s'

end Lexer

/-- The tokens of a text, and the fault that ends them if there is one. -/
structure Tokens where
  list : List Token
  fault : Option Fault
deriving DecidableEq, Repr

namespace Tokens

/-- The tokens of a text. Every step but the last takes a character, so there is
one step more than there are characters. -/
def ofText (text : String) : Tokens :=
  let (glyphs, stop) := Glyph.listOf text.toList .start
  let (tokens, fault) :=
    Lexer.run (Horizon.ofText? text) (glyphs.length + 1) (.ofGlyphs glyphs stop)
  ⟨tokens, fault⟩

end Tokens

end DaggerWorkflows.Yaml
