/-!
# Ranges of characters

A property of characters is given as a list of ranges of code points, in increasing order. A search
ends at the first range that starts behind the character.
-/

namespace StructScript.CharRange

/-- Whether `c` lies in one of the ranges. The ranges are in increasing order, both ends of a range
belong to it. -/
def covers : List (Nat × Nat) → Char → Bool
  | [], _ => false
  | (first, last) :: rest, c =>
    if c.toNat < first then false
    else if c.toNat ≤ last then true
    else covers rest c

end StructScript.CharRange
