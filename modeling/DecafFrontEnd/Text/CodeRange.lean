/-
  DecafFrontEnd/Text/CodeRange.lean --- classes of characters as ranges.

  A property of characters that a standard lists is kept as a list of ranges of code
  points, each with its first and its last one, in ascending order.
-/
set_option autoImplicit false

namespace DecafFrontEnd

/-- Whether a character lies in one of several ranges, ends included. -/
def inRanges (ranges : List (Nat × Nat)) (c : Char) : Bool :=
  ranges.any fun (first, last) => first ≤ c.toNat && c.toNat ≤ last

end DecafFrontEnd
