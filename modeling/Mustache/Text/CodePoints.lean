/-!
# Sets of code points

A set of characters that a standard lists is kept as closed ranges of code points in increasing
order, so that looking for a character ends at the first range that starts behind it.
-/

namespace Mustache.Text

/-- Whether a code point is in one of the closed ranges, which are in increasing order. -/
def inRanges (n : Nat) : List (Nat × Nat) → Bool
  | [] => false
  | (first, last) :: ranges =>
    if n < first then false else n ≤ last || inRanges n ranges

example : inRanges 5 [(1, 2), (4, 6), (9, 9)] = true := by decide
example : inRanges 7 [(1, 2), (4, 6), (9, 9)] = false := by decide

end Mustache.Text
