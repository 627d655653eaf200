/-!
# Binary64 numbers

Numbers in a document are read to the nearest binary64 number, a half going to
the even neighbour, and are shown with the fewest digits that read back. Both
are done in exact arithmetic on natural numbers.
-/

namespace DaggerWorkflows

/-- A binary64 number; `finite negative m e` is `m * 2 ^ (e - 1074)` with
`m < 2 ^ 53`, where `e` is zero or `m` is at least `2 ^ 52`. -/
inductive Double where
  | finite (negative : Bool) (mantissa exponent : Nat)
  | infinite (negative : Bool)
  | nan
deriving DecidableEq, Repr

/-- A decimal fraction: `digits * 10 ^ exponent`. -/
structure Decimal where
  negative : Bool
  digits : Nat
  exponent : Int
deriving DecidableEq, Repr

namespace Decimal

/-- The value of a list of digits that starts from `n`. -/
def ofDigits (n : Nat) (cs : List Char) : Nat :=
  cs.foldl (fun n c => n * 10 + (c.toNat - '0'.toNat)) n

/-- A sign, if there is one, and the rest. -/
def takeSign : List Char → Bool × List Char
  | '-' :: cs => (true, cs)
  | '+' :: cs => (false, cs)
  | cs => (false, cs)

/-- Read an exponent that is everything that is left, if anything is. -/
def readExponent : List Char → Option Int
  | [] => some 0
  | c :: cs =>
      if c == 'e' || c == 'E' then
        let (negative, digits) := takeSign cs
        if !digits.isEmpty && digits.all Char.isDigit then
          let n : Int := ofDigits 0 digits
          some (if negative then -n else n)
        else none
      else none

/-- Read a decimal fraction: a sign, digits with a point among them, an
exponent. Only the digits, at least one of them, have to be there. -/
def read (cs : List Char) : Option Decimal :=
  let (negative, cs) := takeSign cs
  let whole := cs.takeWhile Char.isDigit
  let rest := cs.dropWhile Char.isDigit
  let (part, rest) :=
    match rest with
    | '.' :: rest => (rest.takeWhile Char.isDigit, rest.dropWhile Char.isDigit)
    | _ => ([], rest)
  if whole.isEmpty && part.isEmpty then none
  else (readExponent rest).map fun e =>
    ⟨negative, ofDigits (ofDigits 0 whole) part, e - part.length⟩

end Decimal

namespace Double

/-- The largest exponent of a finite number. -/
def maxExponent : Nat := 2045

/-- Whether the number is neither infinite nor no number. -/
def isFinite : Double → Bool
  | finite _ _ _ => true
  | _ => false

/-- The integer nearest to `n / d`, a half going to the even one. -/
def roundDiv (n d : Nat) : Nat :=
  let q := n / d
  let r := 2 * (n % d)
  if r < d then q else if r > d then q + 1 else q + q % 2

/-- The exponent under which `n / d` has 53 binary digits, or zero if it has
fewer than that under all. -/
def exponentFor (n d : Nat) : Nat :=
  let guess := n.log2 + 1074 - (d.log2 + 52)
  if guess = 0 then 0
  else if n * Nat.pow 2 1074 < d * Nat.pow 2 (guess + 52) then guess - 1
  else guess

/-- The number nearest to `n / d`. -/
def ofRatio (negative : Bool) (n d : Nat) : Double :=
  let e := exponentFor n d
  let m := roundDiv (n * Nat.pow 2 1074) (d * Nat.pow 2 e)
  let (m, e) := if m = Nat.pow 2 53 then (Nat.pow 2 52, e + 1) else (m, e)
  if e > maxExponent then infinite negative else finite negative m e

/-- The number nearest to a decimal fraction. Fractions that are out of reach by
their magnitude alone are settled first. -/
def ofDecimal (x : Decimal) : Double :=
  if x.digits = 0 then finite x.negative 0 0
  else
    let magnitude : Int := x.digits.log2 * 3 / 10 + x.exponent
    if magnitude > 400 then infinite x.negative
    else if magnitude < -400 then finite x.negative 0 0
    else if x.exponent < 0 then ofRatio x.negative x.digits
      (Nat.pow 10 x.exponent.natAbs)
    else ofRatio x.negative (x.digits * Nat.pow 10 x.exponent.natAbs) 1

/-- The number of decimal digits of a positive number. -/
def digitCount (n : Nat) : Nat := (Nat.toDigits 10 n).length

/-- Which of two decimal digits strings next to a value is shown: the nearer of
those that read back, the even one of two equally near. The value is `n / d` in
units of the last digit. -/
def pick (low : Nat) (n d : Nat) (readsBack : Nat → Bool) : Option Nat :=
  let toLow := n - low * d
  let toHigh := (low + 1) * d - n
  match readsBack low, readsBack (low + 1) with
  | false, false => none
  | true, false => some low
  | false, true => some (low + 1)
  | true, true =>
      if toLow < toHigh then some low
      else if toHigh < toLow then some (low + 1)
      else some (low + low % 2)

/-- The fewest digits that read back as `m * 2 ^ (e - 1074)`, trying units
`10 ^ unit` from the largest down, in that many steps. -/
def shortestFrom (m e : Nat) : Nat → Int → Decimal
  | 0, unit => ⟨false, 0, unit⟩
  | fuel + 1, unit =>
      let n := m * Nat.pow 2 e * if unit < 0 then Nat.pow 10 unit.natAbs else 1
      let d := Nat.pow 2 1074 * if unit < 0 then 1 else Nat.pow 10 unit.natAbs
      let readsBack (digits : Nat) : Bool :=
        digits != 0 && ofDecimal ⟨false, digits, unit⟩ == finite false m e
      match pick (n / d) n d readsBack with
      | some digits => ⟨false, digits, unit⟩
      | none => shortestFrom m e fuel (unit - 1)

/-- The shortest decimal fraction that reads back as `m * 2 ^ (e - 1074)`.
Seventeen digits always do, and the first unit tried is above the number. -/
def shortest (m e : Nat) : Decimal :=
  if m = 0 then ⟨false, 0, 0⟩
  else
    let whole := m * Nat.pow 2 e / Nat.pow 2 1074
    let top : Int :=
      if whole ≠ 0 then digitCount whole
      else -((digitCount (Nat.pow 2 1074 / (m * Nat.pow 2 e)) : Int) - 1)
    shortestFrom m e 20 top

/-- A decimal fraction without an exponent. -/
def positional (x : Decimal) : String :=
  let digits := (Nat.toDigits 10 x.digits)
  if 0 ≤ x.exponent then
    String.ofList
      (digits ++ List.replicate (if x.digits = 0 then 0 else x.exponent.natAbs)
        '0')
  else
    let places := x.exponent.natAbs
    let padded := List.replicate (places + 1 - digits.length) '0' ++ digits
    let whole := padded.length - places
    String.ofList (padded.take whole ++ '.' :: padded.drop whole)

/-- A decimal fraction with an exponent: one digit before the point. -/
def scientific (x : Decimal) : String :=
  match Nat.toDigits 10 x.digits with
  | [] => ""
  | first :: digits =>
      let point := if digits.isEmpty then [] else '.' :: digits
      String.ofList (first :: point) ++ "e" ++
        toString (x.exponent + digits.length)

/-- The sign of a number as it is written. -/
def sign (negative : Bool) : String := if negative then "-" else ""

/-- A whole number gets a point and a zero, so that it does not look like an
integer. -/
def withPoint (s : String) : String := if s.contains '.' then s else s ++ ".0"

/-- The number without an exponent, however large it is. -/
def describe : Double → String
  | finite negative m e =>
    sign negative ++ withPoint (positional (shortest m e))
  | infinite negative => sign negative ++ "inf"
  | nan => "NaN"

/-- The number as a document writes it: with an exponent if it has more than
sixteen digits before the point or more than four zeros after it. -/
def render : Double → String
  | finite negative m e =>
      let x := shortest m e
      let point : Int := digitCount x.digits + x.exponent
      if x.digits ≠ 0 && (16 < point || point ≤ -5) then sign negative ++
        scientific x
      else sign negative ++ withPoint (positional x)
  | infinite negative => sign negative ++ ".inf"
  | nan => ".nan"

end Double

end DaggerWorkflows
