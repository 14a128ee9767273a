/-!
# Tables of code point intervals

A class of characters that no short rule describes is a list of intervals in
increasing order.  Membership walks the list and stops at the first interval
that lies beyond the code point.
-/

namespace SourceChunks.Text

/-- Whether a code point lies in one of the intervals of an increasing table. -/
def inRanges (n : Nat) : List (Nat × Nat) → Bool
  | [] => false
  | (low, high) :: rest => !(n < low) && (n ≤ high || inRanges n rest)

end SourceChunks.Text
