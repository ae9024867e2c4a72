import Daedalus.Text.Layout

/-! # Faults

Everything that can go wrong while a script is read, and the words in which it is reported. -/

namespace Daedalus

open Text

/-- The reasons for which an operation on a script fails. -/
inductive Fault where
  /-- The image ends before all of it is read. -/
  | endOfInput
  /-- No opcode is assigned to the byte at `pc`. -/
  | invalidOpcode (pc : Nat) (byte : UInt8)
  /-- The instruction at `pc` needs `size` bytes, and only `remaining` are left. -/
  | truncated (pc size remaining : Nat)
  /-- There is no code at `pc`. -/
  | outOfBounds (pc length : Nat)
  /-- The symbol is defined by the host program. -/
  | external (name : String)
  /-- The symbol is of a kind that has no body. -/
  | notCallable (name : String)
  /-- The conditional branch at `pc` goes back. -/
  | backwardBranch (pc target : Nat)
  /-- The block at `pc` lies deeper than allowed. -/
  | nestingTooDeep (limit pc : Nat)
  /-- No symbol has this name. -/
  | symbolNotFound (name : String)
  deriving DecidableEq, Repr

/-- The report of a fault. Addresses are hexadecimal, lengths and limits decimal. -/
def Fault.message : Fault → String
  | .endOfInput => "unexpected end of input"
  | .invalidOpcode pc byte => "invalid opcode 0x" ++ hexByte byte ++ " at pc=0x" ++ hex pc
  | .truncated pc size remaining =>
      "truncated instruction at pc=0x" ++ hex pc ++ " (size=" ++ toString size ++ ", remaining=" ++
        toString remaining ++ ")"
  | .outOfBounds pc length =>
      "pc=0x" ++ hex pc ++ " is outside the code segment (length " ++ toString length ++ ")"
  | .external name => "symbol " ++ name ++ " is external and has no body"
  | .notCallable name => "symbol " ++ name ++ " is not a function, prototype or instance"
  | .backwardBranch pc target =>
      "conditional branch at pc=0x" ++ hex pc ++ " jumps back to 0x" ++ hex target
  | .nestingTooDeep limit pc =>
      "blocks nested deeper than " ++ toString limit ++ " at pc=0x" ++ hex pc
  | .symbolNotFound name => "symbol " ++ name ++ " not found"

end Daedalus
