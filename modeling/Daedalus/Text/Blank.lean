import Daedalus.Text.Ranges

/-! # Blank space

The characters with the Unicode property `White_Space`, and the removal of blanks around a text. -/

namespace Daedalus.Text

/-- The characters with the Unicode property `White_Space`. -/
def blanks : Ranges :=
  [(0x09, 0x0d), (0x20, 0x20), (0x85, 0x85), (0xa0, 0xa0), (0x1680, 0x1680), (0x2000, 0x200a),
    (0x2028, 0x2029), (0x202f, 0x202f), (0x205f, 0x205f), (0x3000, 0x3000)]

/-- Whether a character is a blank. -/
def isBlank (c : Char) : Bool := blanks.has c.toNat

/-- A list of characters without the blanks at both of its ends. -/
def trimmed (cs : List Char) : List Char :=
  ((cs.dropWhile isBlank).reverse.dropWhile isBlank).reverse

end Daedalus.Text
