import DaggerWorkflows.Number.Digits
import DaggerWorkflows.Number.Double
import DaggerWorkflows.Text.Quoted

/-!
# What a scalar means

A scalar without quotes may be null, a truth value, an integer, a floating
point number or a text; which of them is decided by its characters alone.
Quoted scalars are texts. The writer asks the same questions to know which
texts need quotes.
-/

namespace DaggerWorkflows.Yaml

/-- The meaning of a scalar. -/
inductive Atom where
  | null
  | bool (value : Bool)
  /-- An integer of at most 64 bits. -/
  | integer (value : Int)
  /-- An integer of more than 64 and at most 128 bits, which no place of a
  document takes. -/
  | wide (value : Int)
  | float (value : Double)
  | text (value : String)
deriving DecidableEq, Repr

namespace Atom

/-- Whether a scalar is a word for null. -/
def isNullWord (s : String) : Bool :=
  s == "null" || s == "Null" || s == "NULL" || s == "~"

/-- The truth value that a scalar is a word for. -/
def boolWord? (s : String) : Option Bool :=
  if s == "true" || s == "True" || s == "TRUE" then some true
  else if s == "false" || s == "False" || s == "FALSE" then some false
  else none

/-- The value of digits behind a mark for their base, if there is one. -/
def magnitude? : List Char → Option Nat
  | '0' :: 'x' :: cs => Number.digits? 16 cs
  | '0' :: 'o' :: cs => Number.digits? 8 cs
  | '0' :: 'b' :: cs => Number.digits? 2 cs
  | cs => Number.digits? 10 cs

/-- Whether a scalar has only digits after its sign but starts with a needless
zero; such a scalar is a text. -/
def isPadded (cs : List Char) : Bool :=
  match (Decimal.takeSign cs).2 with
  | '0' :: c :: cs => (c :: cs).all Char.isDigit
  | _ => false

/-- The integer that a scalar writes, of whatever size. -/
def int? (cs : List Char) : Option Int :=
  if isPadded cs then none
  else
    let (negative, cs) := Decimal.takeSign cs
    (magnitude? cs).map fun n => if negative then -(n : Int) else n

/-- The integer that a scalar writes, if it has at most 64 bits. -/
def integer? (cs : List Char) : Option Int :=
  (int? cs).filter fun n =>
    decide (-(Nat.pow 2 63 : Int) ≤ n) && decide (n < (Nat.pow 2 64 : Int))

/-- The integer that a scalar writes, if it has at most 128 bits. -/
def wide? (cs : List Char) : Option Int :=
  (int? cs).filter fun n =>
    decide (-(Nat.pow 2 127 : Int) ≤ n) && decide (n < (Nat.pow 2 128 : Int))

/-- The floating point number that a scalar writes, needless zeros allowed. -/
def float? (s : String) : Option Double :=
  if s == ".inf" || s == ".Inf" || s == ".INF" || s == "+.inf" ||
    s == "+.Inf" || s == "+.INF" then
    some (.infinite false)
  else if s == "-.inf" || s == "-.Inf" ||
    s == "-.INF" then some (.infinite true)
  else if s == ".nan" || s == ".NaN" || s == ".NAN" then some .nan
  else ((Decimal.read s.toList).map Double.ofDecimal).filter Double.isFinite

/-- The meaning of a scalar without quotes. -/
def ofPlain (s : String) : Atom :=
  let cs := s.toList
  if s.isEmpty || isNullWord s then .null
  else match boolWord? s with
    | some b => .bool b
    | none =>
      match integer? cs, wide? cs with
      | some n, _ => .integer n
      | none, some n => .wide n
      | none, none =>
        match (if isPadded cs then none else float? s) with
        | some x => .float x
        | none => .text s

/-- An atom as messages name it. -/
def describe : Atom → String
  | null => "unit value"
  | bool b => s!"boolean `{b}`"
  | integer n => s!"integer `{n}`"
  | wide n => s!"integer `{n}` as " ++ (if n < 0 then "i128" else "u128")
  | float x => "floating point `" ++ x.describe ++ "`"
  | text s => "string " ++ Text.quote s

end Atom

end DaggerWorkflows.Yaml
