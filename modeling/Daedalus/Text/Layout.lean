/-! # Columns and number texts

Fixed-width columns count characters. Hexadecimal numbers are written in lower case. -/

namespace Daedalus.Text

/-- A text of `count` spaces. -/
def spaces (count : Nat) : String := String.ofList (List.replicate count ' ')

/-- Fills `text` up on the left to `width` characters; a longer text stays as it is. -/
def padLeft (fill : Char) (width : Nat) (text : String) : String :=
  String.ofList (List.replicate (width - text.length) fill) ++ text

/-- Fills `text` up on the right with spaces to `width` characters; a longer text stays as it is. -/
def padRight (width : Nat) (text : String) : String :=
  text ++ spaces (width - text.length)

/-- Lines with their line ends, as one text. -/
def unlines (lines : List String) : String := String.join (lines.map (· ++ "\n"))

/-- The hexadecimal digits of a number, without leading zeros. -/
def hex (value : Nat) : String := String.ofList (Nat.toDigits 16 value)

/-- A number as at least eight hexadecimal digits, the width of a machine word. -/
def hexWord (value : Nat) : String := padLeft '0' 8 (hex value)

/-- A byte as two hexadecimal digits. -/
def hexByte (value : UInt8) : String := padLeft '0' 2 (hex value.toNat)

/-- What holds of the digits of a base holds of all digits of a number. -/
theorem forall_mem_toDigits {P : Char → Prop} {base : Nat} (hbase : 1 < base)
    (hdigit : ∀ d < base, P (Nat.digitChar d)) (n : Nat) : ∀ c ∈ Nat.toDigits base n, P c := by
  induction n using Nat.strongRecOn with
  | ind n ih =>
    intro c hc
    rw [Nat.toDigits_eq_if hbase] at hc
    split at hc
    · next hlt => exact List.mem_singleton.mp hc ▸ hdigit n hlt
    · next hge =>
      rcases List.mem_append.mp hc with hc | hc
      · exact ih (n / base) (Nat.div_lt_self (by omega) hbase) c hc
      · exact List.mem_singleton.mp hc ▸ hdigit _ (Nat.mod_lt n (by omega))

end Daedalus.Text
