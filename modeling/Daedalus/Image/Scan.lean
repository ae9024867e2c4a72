import Daedalus.Bytes.Word
import Daedalus.Fault

/-! # Scanning bytes

Scanners read from the front of a sequence of bytes and leave the rest. The only fault of the
scanners below is that the bytes end too early. -/

namespace Daedalus

/-- A reader from the front of a sequence of bytes. -/
abbrev Scan := StateT (List UInt8) (Except Fault)

namespace Scan

/-- Reads one byte. -/
def byte : Scan UInt8 := fun
  | b :: rest => .ok (b, rest)
  | [] => .error .endOfInput

/-- Reads a little-endian word. -/
def word : Scan UInt32 := fun
  | b₀ :: b₁ :: b₂ :: b₃ :: rest => .ok (Word.ofBytes b₀ b₁ b₂ b₃, rest)
  | _ => .error .endOfInput

/-- Reads a number of bytes. -/
def bytes (count : Nat) : Scan (List UInt8) := fun input =>
  if count ≤ input.length then .ok (input.take count, input.drop count) else .error .endOfInput

/-- Reads the bytes up to the next line feed, and the line feed. -/
def line : Scan (List UInt8) := fun input =>
  match input.dropWhile (· != 10) with
  | _ :: rest => .ok (input.takeWhile (· != 10), rest)
  | [] => .error .endOfInput

/-- Reads something a number of times and puts it behind what was read before. -/
def timesOnto {α : Type} (read : Scan α) (before : Array α) : Nat → Scan (Array α)
  | 0, input => .ok (before, input)
  | count + 1, input =>
    match read input with
    | .ok (x, rest) => timesOnto read (before.push x) count rest
    | .error fault => .error fault

/-- Reads something a number of times. -/
def times {α : Type} (read : Scan α) (count : Nat) : Scan (List α) :=
  Array.toList <$> timesOnto read #[] count

end Scan

end Daedalus
