import Daedalus.Bytecode.Instruction
import Daedalus.Fault

/-! # Decoding

`decode` reads the instruction at a position of a code segment. It looks at no byte outside that
instruction, and a decoded instruction lies within the code. -/

namespace Daedalus

/-- A code segment. -/
abbrev Code := Array UInt8

/-- The instruction at `pc`. It fails if `pc` lies outside the code, if the byte there is no opcode,
or if the code ends within the instruction. -/
def decode (code : Code) (pc : Nat) : Except Fault Instr :=
  match code[pc]? with
  | none => .error (.outOfBounds pc code.size)
  | some byte =>
    match Opcode.ofByte? byte with
    | none => .error (.invalidOpcode pc byte)
    | some op =>
      if pc + op.size ≤ code.size then
        .ok ⟨pc, op.operation fun place => code[pc + 1 + place]?.getD 0⟩
      else
        .error (.truncated pc op.size (code.size - pc))

variable {code : Code} {pc : Nat} {instr : Instr}

/-- A decoded instruction stands where it was asked for, takes space and lies within the code. -/
theorem decode_eq_ok (h : decode code pc = .ok instr) :
    instr.pc = pc ∧ pc < instr.next ∧ instr.next ≤ code.size := by
  unfold decode at h
  split at h
  · cases h
  · split at h
    · cases h
    · split at h
      · next op _ hle =>
        cases h
        have := op.size_pos
        simp only [Instr.next, Operation.size, Opcode.opcode_operation, true_and]
        omega
      · cases h

/-- A decoded instruction starts where it was asked for. -/
theorem pc_of_decode (h : decode code pc = .ok instr) : instr.pc = pc := (decode_eq_ok h).1

/-- Decoding moves on. -/
theorem lt_next_of_decode (h : decode code pc = .ok instr) : pc < instr.next := (decode_eq_ok h).2.1

/-- A decoded instruction lies within the code. -/
theorem next_le_of_decode (h : decode code pc = .ok instr) : instr.next ≤ code.size :=
  (decode_eq_ok h).2.2

/-- The position behind a decoded instruction is computed in 32 bits without a wrap. -/
theorem toNat_next_of_decode (hcode : code.size < UInt32.size) (h : decode code pc = .ok instr) :
    (UInt32.ofNat pc + UInt32.ofNat instr.op.size).toNat = instr.next := by
  have hnext : instr.next = pc + instr.op.size := by rw [Instr.next, pc_of_decode h]
  have hle := next_le_of_decode h
  rw [← UInt32.ofNat_add, UInt32.toNat_ofNat_of_lt' (by omega), hnext]

end Daedalus
