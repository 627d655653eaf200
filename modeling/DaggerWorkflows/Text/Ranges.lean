/-!
# Ranges of code points

A large class of characters is a list of ranges of code points.
-/

namespace DaggerWorkflows.Text

/-- Whether the code point lies in one of the ranges, which are in ascending
order, both ends included. -/
def inRanges (n : Nat) : List (Nat × Nat) → Bool
  | [] => false
  | (low, high) :: ranges =>
      if n ≤ high then decide (low ≤ n) else inRanges n ranges

end DaggerWorkflows.Text
