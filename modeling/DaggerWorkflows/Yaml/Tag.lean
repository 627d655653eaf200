import DaggerWorkflows.Yaml.Glyph
import DaggerWorkflows.Yaml.Fault

/-!
# Tags

A tag says of which kind a node is. In a document it is written as a handle
and a suffix, the handle standing for a longer text that a directive or the
format itself gives it. Escapes may put any octet into a tag, so a tag is a
list of octets and need not be text. A null octet ends the piece it stands in:
what follows it has to be well formed and says nothing.
-/

namespace DaggerWorkflows.Yaml

/-- A tag with its handle replaced. -/
structure Tag where
  octets : List UInt8
deriving DecidableEq, Repr, Inhabited

namespace Tag

/-- The tag written as a text. -/
def ofString (s : String) : Tag := ⟨s.toUTF8.toList⟩

/-- The tag of the null value. -/
def null : Tag := ofString "tag:yaml.org,2002:null"

/-- The tag of truth values. -/
def bool : Tag := ofString "tag:yaml.org,2002:bool"

/-- The tag of integers. -/
def int : Tag := ofString "tag:yaml.org,2002:int"

/-- The tag of floating point numbers. -/
def float : Tag := ofString "tag:yaml.org,2002:float"

/-- Whether a tag belongs to the document alone: it starts with an exclamation
mark. -/
def isLocal (t : Tag) : Bool := t.octets.head? == some 33

/-- Whether a tag names a variant: it is local and the rest of it is text. -/
def namesVariant (t : Tag) : Bool :=
  t.isLocal && ByteArray.validateUTF8 ⟨t.octets.tail.toArray⟩

end Tag

/-- A tag as written: a handle, empty for a tag written in full, and a
suffix. -/
structure WrittenTag where
  handle : String
  suffix : List UInt8
deriving DecidableEq, Repr

namespace WrittenTag

/-- Whether a character may stand in the suffix of a tag; some only inside `!<`
and `>`. -/
def isUriChar (verbatim : Bool) (c : Char) : Bool :=
  isWordChar c || ";/?:@&=+$.!~*'()".contains c ||
    (verbatim && ",[]".contains c)

/-- How many octets a character has whose first octet is this. -/
def leadingWidth? (octet : Nat) : Option Nat :=
  if octet < 0x80 then some 1
  else if octet < 0xc0 then none
  else if octet < 0xe0 then some 2
  else if octet < 0xf0 then some 3
  else if octet < 0xf8 then some 4
  else none

/-- Read the octets that `gs` starts with, `pending` of a character's octets
being due. -/
def readUri (verbatim : Bool) (context : Context) (start stop : Mark) :
    List Glyph → Nat → List UInt8 → Except Fault (List UInt8 × List Glyph)
  | [], pending, octets =>
      if pending = 0 then .ok (octets.reverse, [])
      else .error (.form .uriEscapeExpected stop (some (context, start)))
  | g :: gs, pending, octets =>
      if g.char == '%' then
        match gs with
        | g₁ :: g₂ :: gs' =>
          match hexValue? g₁.char, hexValue? g₂.char with
          | some high, some low =>
            let octet := high * 16 + low
            if pending = 0 then
              match leadingWidth? octet with
              | some width =>
                  readUri verbatim context start stop gs' (width - 1)
                    (octet.toUInt8 :: octets)
              | none =>
                  .error
                    (.form .uriEscapeLeading g.mark (some (context, start)))
            else if 0x80 ≤ octet && octet < 0xc0 then
              readUri verbatim context start stop gs' (pending - 1)
                (octet.toUInt8 :: octets)
            else .error
              (.form .uriEscapeTrailing g.mark (some (context, start)))
          | _, _ =>
              .error (.form .uriEscapeExpected g.mark (some (context, start)))
        | _ => .error (.form .uriEscapeExpected g.mark (some (context, start)))
      else if pending ≠ 0 then
        .error (.form .uriEscapeExpected g.mark (some (context, start)))
      else if isUriChar verbatim g.char then
        readUri verbatim context start stop gs 0
          (g.char.toNat.toUInt8 :: octets)
      else .ok (octets.reverse, g :: gs)

/-- The part of a piece of a tag that counts: it ends at the first null
octet. -/
def meaningful (octets : List UInt8) : List UInt8 := octets.takeWhile (· != 0)

/-- Read a suffix that may not be empty as written. -/
def readSuffix (verbatim : Bool) (context : Context) (start stop : Mark)
    (gs : List Glyph) :
    Except Fault (List UInt8 × List Glyph) := do
  let (octets, rest) ← readUri verbatim context start stop gs 0 []
  if octets.isEmpty then
    throw (.form .tagUriMissing (Glyph.place rest stop) (some (context, start)))
  return (meaningful octets, rest)

/-- The word characters that `gs` starts with, and the rest. -/
def readWord (gs : List Glyph) : List Char × List Glyph :=
  ((gs.takeWhile (isWordChar ·.char)).map Glyph.char,
    gs.dropWhile (isWordChar ·.char))

/-- Whether `gs` starts with the character `c`. -/
def startsWith (c : Char) (gs : List Glyph) :
    Bool := (gs.head?.map Glyph.char) == some c

/-- Read a tag without looking at what follows it, after its exclamation
mark. -/
def readBody (start stop : Mark) (gs : List Glyph) :
    Except Fault (WrittenTag × List Glyph) := do
  if startsWith '<' gs then
    let (suffix, rest) ← readSuffix true .tagText start stop gs.tail
    if startsWith '>' rest then return (⟨"", suffix⟩, rest.tail)
    throw (.form .tagEndExpected (Glyph.place rest stop) (some (.tag, start)))
  let (word, rest) := readWord gs
  if startsWith '!' rest then
    let (suffix, rest) ← readSuffix false .tagText start stop rest.tail
    return (⟨String.ofList ('!' :: word ++ ['!']), suffix⟩, rest)
  let (octets, rest) ← readUri false .tagText start stop rest 0 []
  let suffix := meaningful (word.map (·.toNat.toUInt8) ++ octets)
  if suffix.isEmpty then return (⟨"", [33]⟩, rest)
  return (⟨"!", suffix⟩, rest)

/-- Read the tag whose exclamation mark stands at `start`, right before `gs`. -/
def read (flow : Bool) (start stop : Mark) (gs : List Glyph) :
    Except Fault (WrittenTag × List Glyph) := do
  let (tag, rest) ← readBody start stop gs
  if Glyph.endsWord rest ||
    (flow && startsWith ',' rest) then return (tag, rest)
  throw (.form .blankOrBreakExpected (Glyph.place rest stop)
    (some (.tag, start)))

end WrittenTag

end DaggerWorkflows.Yaml
