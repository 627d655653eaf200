import DaggerWorkflows.Yaml.Fault
import DaggerWorkflows.Yaml.Token

/-!
# The state of a reader of tokens

Two things about a text of tokens are not local. Indentation opens and closes
collections without a character of their own, so the reader keeps the columns
of the block collections that are open. And a key is known to be one only when
its colon is reached, so the reader keeps, for every open bracket, the place
where a key may have started; the token that marks the key is put there later.
-/

namespace DaggerWorkflows.Yaml

/-- A place where a key may have started. -/
structure PossibleKey where
  /-- Tokens before the place. -/
  number : Nat
  /-- Whether the text is wrong unless a key starts there: it stands where the
  surrounding mapping's keys stand. -/
  required : Bool
  mark : Mark
deriving DecidableEq, Repr

namespace PossibleKey

/-- How many characters a key may have. -/
def reach : Nat := 1024

/-- Whether it is too late for a colon at `m`: keys are short and stay on one
line. -/
def isStale (k : PossibleKey) (m : Mark) : Bool :=
  decide (k.mark.line < m.line) || decide (k.mark.index + reach < m.index)

/-- The fault of a required key whose colon has not come by `m`. -/
def fault (k : PossibleKey) (m : Mark) : Fault :=
  .form .colonExpected m (some (.simpleKey, k.mark))

end PossibleKey

/-- A reader of tokens between two of them. -/
structure Lexer where
  /-- What has not been read. -/
  rest : List Glyph
  /-- Where the text ends. -/
  stop : Mark
  /-- What has been read. -/
  tokens : Array Token
  /-- One more than the column of the innermost open block collection, or
  zero. -/
  level : Nat
  /-- The same for the collections around it. -/
  levels : List Nat
  /-- Whether a key may start here. -/
  keyAllowed : Bool
  /-- Where a key may have started since the innermost open bracket. -/
  key : Option PossibleKey
  /-- The same for the brackets around it and for the text outside of all
  brackets. -/
  outer : List (Option PossibleKey)
deriving DecidableEq, Repr

namespace Lexer

/-- A reader before the first token. -/
def ofGlyphs (rest : List Glyph) (stop : Mark) : Lexer :=
  ⟨rest, stop, #[], 0, [], true, none, []⟩

/-- Whether a bracket or brace is open. -/
def inFlow (s : Lexer) : Bool := !s.outer.isEmpty

/-- The place that has been reached. -/
def mark (s : Lexer) : Mark := Glyph.place s.rest s.stop

/-- Add a token that ends at `stop`. -/
def emit (s : Lexer) (kind : Token.Kind) (start stop : Mark) : Lexer :=
  { s with tokens := s.tokens.push ⟨kind, start, stop⟩ }

/-- Open a block collection at `column` unless one is open there, its token
going before the token with that number. Brackets suspend indentation. -/
def roll (s : Lexer) (column number : Nat) (kind : Token.Kind) (mark : Mark) :
    Lexer :=
  if s.inFlow || decide (column < s.level) then s
  else
    { s with
      level := column + 1
      levels := s.level :: s.levels
      tokens := s.tokens.insertIdxIfInBounds number ⟨kind, mark, mark⟩ }

/-- Close the innermost collections while `level` is above `floor`. -/
def unrollFrom (floor : Nat) : List Nat → Lexer → Lexer
  | [], s => s
  | outer :: levels, s =>
      if s.level ≤ floor then s
      else unrollFrom floor levels
        { s.emit .blockEnd s.mark s.mark with level := outer, levels := levels }

/-- Close the block collections to the right of a column, given as one more than
the column. -/
def unroll (s : Lexer) (floor : Nat) : Lexer :=
  if s.inFlow then s else unrollFrom floor s.levels s

/-- The places where a key may have started. -/
def keys (s : Lexer) : List PossibleKey := (s.key :: s.outer).filterMap id

/-- Give up the keys that are too far back. -/
def dropStale (s : Lexer) : Except Fault Lexer :=
  match s.keys.reverse.find? (fun k => k.required && k.isStale s.mark) with
  | some k => .error (k.fault s.mark)
  | none =>
      .ok { s with
        key := s.key.filter (!·.isStale s.mark)
        outer := s.outer.map (·.filter (!·.isStale s.mark)) }

/-- Give up the innermost key. -/
def dropKey (s : Lexer) : Except Fault Lexer :=
  match s.key with
  | some k =>
      if k.required then .error (k.fault s.mark) else .ok { s with key := none }
  | none => .ok s

/-- Note that a key may start here, where keys are allowed. -/
def saveKey (s : Lexer) : Except Fault Lexer := do
  if !s.keyAllowed then return s
  let s ← s.dropKey
  return { s with
    key := some
      ⟨s.tokens.size, !s.inFlow && s.level == s.mark.column + 1, s.mark⟩ }

/-- How many tokens are settled: a possible key may still put tokens in front of
a later one. -/
def settled (s : Lexer) : Nat :=
  s.keys.foldl (fun n k => min n k.number) s.tokens.size

/-- Skip blanks, comments, line breaks and a byte order mark that starts a line;
a new line allows a key. A mark that is skipped still takes a column, so its
line starts no document. -/
def skipFrom (inFlow : Bool) :
    List Glyph → (keyAllowed comment : Bool) → List Glyph × Bool
  | [], keyAllowed, _ => ([], keyAllowed)
  | g :: gs, keyAllowed, comment =>
      if g.isBreak then skipFrom inFlow gs (!inFlow || keyAllowed) false
      else if comment || g.char == '#' then skipFrom inFlow gs keyAllowed true
      else if g.char == ' ' || (g.char == '\t' && (inFlow || !keyAllowed))
          || (g.char == '\ufeff' && g.mark.column == 0) then
        skipFrom inFlow gs keyAllowed false
      else (g :: gs, keyAllowed)

/-- Go on to where the next token starts. -/
def skip (s : Lexer) : Lexer :=
  let (rest, keyAllowed) := skipFrom s.inFlow s.rest s.keyAllowed false
  { s with rest, keyAllowed }

end Lexer

end DaggerWorkflows.Yaml
