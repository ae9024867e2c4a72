/-! # Little-endian words

A 32-bit word is stored as four bytes, the least significant one first. `ofBytes` and `toBytes` are
inverse to each other. -/

namespace Daedalus.Word

/-- The word whose bytes are `b₀` to `b₃`, the least significant one first. -/
def ofBytes (b₀ b₁ b₂ b₃ : UInt8) : UInt32 :=
  UInt32.ofNat (b₀.toNat + 256 * (b₁.toNat + 256 * (b₂.toNat + 256 * b₃.toNat)))

/-- The byte of `word` at a place, counted from the least significant one. -/
def byte (word : UInt32) (place : Nat) : UInt8 :=
  UInt8.ofNat (word.toNat / Nat.pow 256 place)

/-- The four bytes of a word, the least significant one first. -/
def toBytes (word : UInt32) : List UInt8 :=
  [byte word 0, byte word 1, byte word 2, byte word 3]

/-- The first byte of a word is its lowest one. -/
theorem toNat_ofBytes (b₀ b₁ b₂ b₃ : UInt8) :
    (ofBytes b₀ b₁ b₂ b₃).toNat =
      b₀.toNat + 256 * (b₁.toNat + 256 * (b₂.toNat + 256 * b₃.toNat)) := by
  have h₀ := b₀.toNat_lt
  have h₁ := b₁.toNat_lt
  have h₂ := b₂.toNat_lt
  have h₃ := b₃.toNat_lt
  rw [ofBytes, UInt32.toNat_ofNat']
  omega

/-- The bytes of a word are its digits in base 256. -/
theorem toNat_byte (word : UInt32) (place : Nat) :
    (byte word place).toNat = word.toNat / Nat.pow 256 place % 256 := by
  rw [byte, UInt8.toNat_ofNat']

/-- A word is the one its bytes make up. -/
@[simp] theorem ofBytes_byte (word : UInt32) :
    ofBytes (byte word 0) (byte word 1) (byte word 2) (byte word 3) = word := by
  apply UInt32.toNat_inj.mp
  have h := word.toNat_lt
  rw [toNat_ofBytes]
  simp only [toNat_byte, Nat.pow_eq, Nat.reducePow]
  omega

/-- Four bytes are those of the word they make up. -/
@[simp] theorem toBytes_ofBytes (b₀ b₁ b₂ b₃ : UInt8) :
    toBytes (ofBytes b₀ b₁ b₂ b₃) = [b₀, b₁, b₂, b₃] := by
  have h₀ := b₀.toNat_lt
  have h₁ := b₁.toNat_lt
  have h₂ := b₂.toNat_lt
  have h₃ := b₃.toNat_lt
  have (place : Nat) (b : UInt8) (h : (ofBytes b₀ b₁ b₂ b₃).toNat / Nat.pow 256 place % 256 = b.toNat) :
      byte (ofBytes b₀ b₁ b₂ b₃) place = b :=
    UInt8.toNat_inj.mp (by rw [toNat_byte, h])
  simp only [toBytes, List.cons.injEq, and_true]
  refine ⟨this 0 _ ?_, this 1 _ ?_, this 2 _ ?_, this 3 _ ?_⟩ <;>
    simp only [toNat_ofBytes, Nat.pow_eq, Nat.reducePow] <;> omega

end Daedalus.Word
