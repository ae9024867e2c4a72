/-! # Classes of characters

A class of characters as an ascending list of ranges of code points. A search ends at the first
range that lies beyond the character. -/

namespace Daedalus.Text

/-- Ranges of code points, each given by its first and its last one. -/
abbrev Ranges := List (Nat × Nat)

namespace Ranges

/-- Whether a code point lies in one of the ranges of an ascending list. -/
def has : Ranges → Nat → Bool
  | [], _ => false
  | (first, last) :: ranges, n => first ≤ n && (n ≤ last || has ranges n)

end Ranges

end Daedalus.Text
