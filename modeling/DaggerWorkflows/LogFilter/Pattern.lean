import DaggerWorkflows.Number.Digits
import DaggerWorkflows.Number.Double
import DaggerWorkflows.Text.Alphanumeric

/-!
# Patterns

A field of a log filter may have a value: a number, or a regular expression
that values have to match. Only whether it is well formed is of interest here.
A comma, an equals sign and a closing brace end a value, so what needs one of
them, like a repetition with a count, is never complete.
-/

namespace DaggerWorkflows.LogFilter.Pattern

/-- What one piece of a pattern stands for. -/
inductive Item where
  | character (c : Char)
  /-- A class of characters. -/
  | kind
  /-- The start or the end of a value. -/
  | boundary
deriving DecidableEq, Repr

/-- A character by its code point in so many hexadecimal digits. -/
def codePoint (width : Nat) (cs : List Char) : Option (Item × List Char) :=
  let digits := cs.take width
  if digits.length < width then none
  else
    ((Number.digits? 16 digits).filter fun n => decide n.isValidChar).map
      fun n => (.character (Char.ofNat n), cs.drop width)

/-- Whether a letter names a category of characters. -/
def isCategory (c : Char) : Bool := "CLMNPSZ".contains c.toUpper

/-- What follows a backslash. Letters that mean nothing are refused; so are the
bounds of words, which no matcher of log fields looks for. -/
def escape : List Char → Option (Item × List Char)
  | [] => none
  | c :: cs =>
      match c with
      | 'x' => codePoint 2 cs
      | 'u' => codePoint 4 cs
      | 'U' => codePoint 8 cs
      | 'p' | 'P' =>
          if cs.head?.any isCategory then some (.kind, cs.tail) else none
      | 'd' | 's' | 'w' | 'D' | 'S' | 'W' => some (.kind, cs)
      | 'A' | 'z' => some (.boundary, cs)
      | 'a' => some (.character '\x07', cs)
      | 'f' => some (.character '\x0c', cs)
      | 'n' => some (.character '\n', cs)
      | 'r' => some (.character '\r', cs)
      | 't' => some (.character '\t', cs)
      | 'v' => some (.character '\x0b', cs)
      | c =>
          if decide (c.toNat < 128) && !c.isAlphanum && c != '<' &&
            c != '>' then
            some (.character c, cs)
          else none

/-! ### Classes of characters between brackets -/

/-- A member of a class, or one end of a range of members. -/
def member : List Char → Option (Item × List Char)
  | [] => none
  | '\\' :: cs => (escape cs).filter (·.1 != .boundary)
  | c :: cs => some (.character c, cs)

/-- The names of classes that are written between colons. -/
def kindNames : List String :=
  ["alnum", "alpha", "ascii", "blank", "cntrl", "digit", "graph", "lower",
    "print", "punct", "space", "upper", "word", "xdigit"]

/-- What follows a class between colons, from behind its bracket. -/
def afterKind? : List Char → Option (List Char)
  | ':' :: cs =>
      let cs := if cs.head? == some '^' then cs.tail else cs
      match cs.dropWhile (· != ':') with
      | ':' :: ']' :: rest =>
          if kindNames.contains (String.ofList (cs.takeWhile (· != ':')))
            then some rest else none
      | _ => none
  | _ => none

/-- Skip what is special right behind an opening bracket: a caret, and then
dashes or a closing bracket that are members. -/
def enterClass (cs : List Char) : List Char :=
  let cs := if cs.head? == some '^' then cs.tail else cs
  if cs.head? == some ']' then cs.tail else cs.dropWhile (· == '-')

/-- What follows a class that is open, with `depth` classes around it. Every
step takes a character, which bounds them. -/
def afterClass : (fuel depth : Nat) → List Char → Option (List Char)
  | 0, _, _ => none
  | _ + 1, _, [] => none
  | fuel + 1, depth, '[' :: cs =>
      match afterKind? cs with
      | some cs => afterClass fuel depth cs
      | none => afterClass fuel (depth + 1) (enterClass cs)
  | fuel + 1, depth, ']' :: cs =>
      if depth = 0 then some cs else afterClass fuel (depth - 1) cs
  | fuel + 1, depth, '&' :: '&' :: cs => afterClass fuel depth cs
  | fuel + 1, depth, '-' :: '-' :: cs => afterClass fuel depth cs
  | fuel + 1, depth, '~' :: '~' :: cs => afterClass fuel depth cs
  | fuel + 1, depth, cs =>
      match member cs with
      | none => none
      | some (low, '-' :: c :: cs) =>
          if c == ']' || c == '-' then afterClass fuel depth ('-' :: c :: cs)
          else
            match low, member (c :: cs) with
            | .character low, some (.character high, cs) =>
                if low ≤ high then afterClass fuel depth cs else none
            | _, _ => none
      | some (_, cs) => afterClass fuel depth cs

/-! ### Groups -/

/-- What an opening parenthesis starts. -/
inductive Opening where
  | group (name : Option String)
  /-- Nothing but flags for what follows. -/
  | flags
deriving DecidableEq, Repr

/-- Whether the name of a group may hold the character. -/
def isNameChar (first : Bool) (c : Char) : Bool :=
  c == '_' || (Text.isAlphanumeric c && !(first && c.isDigit))
    || (!first && (c == '.' || c == '[' || c == ']'))

/-- The name of a group, up to the angle that closes it. -/
def groupName (cs : List Char) : Option (Opening × List Char) :=
  let name := cs.takeWhile (· != '>')
  match cs.dropWhile (· != '>') with
  | _ :: rest =>
      if !name.isEmpty && name.head?.all (isNameChar true) &&
        name.all (isNameChar false) then
        some (.group (some (String.ofList name)), rest)
      else none
  | [] => none

/-- The flags of a group, each at most once, the last one first in `seen`; a
dash before some turns them off. -/
def flags : List Char → (seen : List Char) → Option (Opening × List Char)
  | [], _ => none
  | c :: cs, seen =>
      if c == ':' then if seen.head? == some '-' then none
        else some (.group none, cs)
      else if c == ')' then
        if seen.isEmpty ||
          seen.head? == some '-' then none else some (.flags, cs)
      else if "imsUuxR-".contains c &&
        !seen.contains c then flags cs (c :: seen)
      else none

/-- What follows an opening parenthesis. -/
def opening : List Char → Option (Opening × List Char)
  | '?' :: 'P' :: '<' :: cs | '?' :: '<' :: cs => groupName cs
  | '?' :: cs => flags cs []
  | cs => some (.group none, cs)

/-! ### Patterns -/

/-- How far a pattern has been read. -/
structure Progress where
  /-- Groups that are open. -/
  depth : Nat
  /-- Whether something stands here that can be repeated. -/
  repeatable : Bool
  /-- The names of groups so far. -/
  names : List String
deriving DecidableEq, Repr

namespace Progress

/-- Before the first character. -/
def start : Progress := ⟨0, false, []⟩

/-- After something that can be repeated. -/
def item (p : Progress) : Progress := { p with repeatable := true }

/-- Where an alternative starts. -/
def fresh (p : Progress) : Progress := { p with repeatable := false }

/-- Open a group. A name is used once. -/
def enter (p : Progress) : Option String → Option Progress
  | none => some { p.fresh with depth := p.depth + 1 }
  | some name =>
      if p.names.contains name then none
      else some { p.fresh with depth := p.depth + 1, names := name :: p.names }

/-- Close a group. -/
def leave (p : Progress) : Option Progress :=
  if p.depth = 0 then none else some { p.item with depth := p.depth - 1 }

end Progress

/-- Read one piece of a pattern that starts with the character `c` before
`cs`. -/
def step (p : Progress) (c : Char) (cs : List Char) :
    Option (Progress × List Char) :=
  match c with
  | '(' =>
      match opening cs with
      | some (.group name, rest) => (p.enter name).map fun p => (p, rest)
      | some (.flags, rest) => some (p.fresh, rest)
      | none => none
  | ')' => p.leave.map fun p => (p, cs)
  | '|' => some (p.fresh, cs)
  | '*' | '+' | '?' =>
      if p.repeatable
        then some (p, if cs.head? == some '?' then cs.tail else cs) else none
  | '{' => none
  | '[' =>
      (afterClass (cs.length + 1) 0 (enterClass cs)).map fun rest =>
        (p.item, rest)
  | '\\' => (escape cs).map fun found => (p.item, found.2)
  | _ => some (p.item, cs)

/-- Whether the rest of a pattern is well formed. Every step takes a character,
which bounds them. -/
def completes : Nat → List Char → Progress → Bool
  | _, [], p => p.depth == 0
  | 0, _ :: _, _ => false
  | fuel + 1, c :: cs, p =>
      match step p c cs with
      | some (p, rest) => completes fuel rest p
      | none => false

/-- Whether a value is a number, which may start with a plus sign. -/
def isNumber (cs : List Char) : Bool :=
  (Decimal.read cs).isSome
    || ["inf", "infinity", "nan"].contains
      (String.ofList (Decimal.takeSign cs).2).toLower

/-- Whether the value of a field is well formed. -/
def isWellFormed (cs : List Char) : Bool :=
  isNumber cs || completes cs.length cs .start

end DaggerWorkflows.LogFilter.Pattern
