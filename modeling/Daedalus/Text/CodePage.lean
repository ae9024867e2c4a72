/-! # Code page 1252

Text in a script image is stored with one byte for each character. The bytes from 80 to 9F carry
typographic characters; the five of them without one, like all other bytes, stand for the code point
of the same number. -/

namespace Daedalus.Text.CodePage

/-- The characters of the bytes from 80 to 9F. -/
def typographic : List Char :=
  ['\u20ac', '\u0081', '\u201a', '\u0192', '\u201e', '\u2026', '\u2020', '\u2021',
   '\u02c6', '\u2030', '\u0160', '\u2039', '\u0152', '\u008d', '\u017d', '\u008f',
   '\u0090', '\u2018', '\u2019', '\u201c', '\u201d', '\u2022', '\u2013', '\u2014',
   '\u02dc', '\u2122', '\u0161', '\u203a', '\u0153', '\u009d', '\u017e', '\u0178']

/-- The character that a byte stands for. -/
def char (byte : UInt8) : Char :=
  if 0x80 ≤ byte.toNat ∧ byte.toNat < 0xA0 then
    typographic[byte.toNat - 0x80]?.getD ' '
  else
    Char.ofNat byte.toNat

/-- The byte that stands for a character, if there is one. -/
def byte? (c : Char) : Option UInt8 :=
  match typographic.findIdx? (· == c) with
  | some place => some (UInt8.ofNat (0x80 + place))
  | none =>
    if c.toNat < 0x80 ∨ (0xA0 ≤ c.toNat ∧ c.toNat < 0x100) then some (UInt8.ofNat c.toNat) else none

/-- The text that a sequence of bytes stands for. -/
def decode (bytes : List UInt8) : String := String.ofList (bytes.map char)

/-- Every byte is the one that stands for its character. -/
theorem byte?_char : ∀ byte : UInt8, byte? (char byte) = some byte := by
  intro byte
  have h : ∀ n : Fin 256, byte? (char (UInt8.ofNat n.val)) = some (UInt8.ofNat n.val) := by
    decide +kernel
  have := h ⟨byte.toNat, byte.toNat_lt⟩
  simpa using this

end Daedalus.Text.CodePage
