/-!
# Natural numbers in digits

A natural number is written in the digits of a base, the highest first. Zeros
in front do not change it.
-/

namespace DaggerWorkflows.Number

/-- The value of a digit in a base up to sixteen. -/
def digitValue? (base : Nat) (c : Char) : Option Nat :=
  (if '0' ≤ c && c ≤ '9' then some (c.toNat - '0'.toNat)
   else if 'a' ≤ c && c ≤ 'f' then some (c.toNat - 'a'.toNat + 10)
   else if 'A' ≤ c && c ≤ 'F' then some (c.toNat - 'A'.toNat + 10)
   else none).filter (· < base)

/-- The value of digits that start from `n`, unless one is no digit. -/
def digitsFrom? (base : Nat) : Nat → List Char → Option Nat
  | n, [] => some n
  | n, c :: cs =>
      (digitValue? base c).bind fun d => digitsFrom? base (n * base + d) cs

/-- The value of a list of digits, at least one. -/
def digits? (base : Nat) (cs : List Char) : Option Nat :=
  if cs.isEmpty then none else digitsFrom? base 0 cs

/-- A number of at most 64 bits in decimal digits, which may have a plus
sign. -/
def word? (s : String) : Option Nat :=
  let digits :=
    match s.toList with
    | '+' :: cs => cs
    | cs => cs
  (digits? 10 digits).filter (· < Nat.pow 2 64)

end DaggerWorkflows.Number
