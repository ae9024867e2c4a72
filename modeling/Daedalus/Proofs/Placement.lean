import Daedalus.Bytecode.Decode

/-! # Operations in a code segment

Writing an operation into a code segment and decoding there gives the operation back, whatever
stands before and behind it. `Placed code pc ops` says that a list of operations stands in the code
from `pc` on, one directly behind the other; it splits along `++`, so facts about code that is
composed of parts are facts about the parts. -/

namespace Daedalus

/-! ### One operation -/

/-- An operation is made from as many operand bytes as its opcode takes, and from no others. -/
theorem Opcode.operation_congr (op : Opcode) {f g : Nat → UInt8}
    (h : ∀ i < op.operandSize, f i = g i) : op.operation f = op.operation g := by
  -- The opcodes fall into those with a word, the one with a word and a byte, and those with nothing.
  cases op with
  | call | callExternal | pushInt | pushVar | pushInstance | jump | jumpIfZero | setInstance =>
    simp only [Opcode.operation, h 0 (by decide), h 1 (by decide), h 2 (by decide), h 3 (by decide)]
  | pushElement =>
    simp only [Opcode.operation, h 0 (by decide), h 1 (by decide), h 2 (by decide), h 3 (by decide),
      h 4 (by decide)]
  | _ => rfl

/-- An operand is encoded in as many bytes as its opcode asks for. -/
@[simp] theorem Operation.length_operandBytes (op : Operation) :
    op.operandBytes.length = op.opcode.operandSize := by
  cases op <;> rfl

/-- Every operation is read back from its operand bytes. -/
theorem Operation.operation_operandBytes (op : Operation) :
    (op.opcode.operation fun i => op.operandBytes[i]?.getD 0) = op := by
  cases op <;> simp [Operation.opcode, Opcode.operation, Operation.operandBytes, Word.toBytes]

/-- Decoding where an operation was written gives that operation. -/
theorem decode_encode {code : Code} {before after : List UInt8} {op : Operation}
    (h : code.toList = before ++ (op.encode ++ after)) :
    decode code before.length = .ok ⟨before.length, op⟩ := by
  -- Every byte that is read lies behind `before`, so it is one of the written bytes.
  have at? (i : Nat) : code[before.length + i]? = (op.encode ++ after)[i]? := by
    rw [← Array.getElem?_toList, h, List.getElem?_append_right (Nat.le_add_right _ _),
      Nat.add_sub_cancel_left]
  have hbyte : code[before.length]? = some op.opcode.byte := by
    simpa [Operation.encode] using at? 0
  have hsize : before.length + op.opcode.size ≤ code.size := by
    have hlen := congrArg List.length h
    simp only [Array.length_toList, List.length_append, Operation.length_encode] at hlen
    rw [Operation.size] at hlen
    omega
  have hoperand : ∀ i < op.opcode.operandSize,
      code[before.length + 1 + i]?.getD 0 = op.operandBytes[i]?.getD 0 := by
    intro i hi
    rw [Nat.add_assoc, at?, Operation.encode, List.cons_append, Nat.add_comm 1 i,
      List.getElem?_cons_succ, List.getElem?_append_left (by simpa using hi)]
  rw [decode, hbyte]
  simp only [Opcode.ofByte?_byte, if_pos hsize]
  rw [Opcode.operation_congr _ hoperand, Operation.operation_operandBytes]

/-- A conditional jump takes five bytes. -/
@[simp] theorem Operation.size_jumpIfZero (target : UInt32) : (jumpIfZero target).size = 5 := rfl

/-! ### Lists of operations -/

/-- The number of bytes that a list of operations takes. -/
def byteSize : List Operation → Nat
  | [] => 0
  | op :: ops => op.size + byteSize ops

/-- No operations take no bytes. -/
@[simp] theorem byteSize_nil : byteSize [] = 0 := rfl

/-- The bytes of the first operation and of the others. -/
@[simp] theorem byteSize_cons (op : Operation) (ops : List Operation) :
    byteSize (op :: ops) = op.size + byteSize ops := rfl

/-- The bytes of both lists. -/
@[simp] theorem byteSize_append (left right : List Operation) :
    byteSize (left ++ right) = byteSize left + byteSize right := by
  induction left with
  | nil => simp
  | cons op left ih => simp [ih, Nat.add_assoc]

/-- Code that ends with an operation takes at least one byte. -/
theorem byteSize_concat_pos (ops : List Operation) (op : Operation) :
    0 < byteSize (ops ++ [op]) := by
  have := op.size_pos
  rw [byteSize_append, byteSize_cons]
  omega

/-- The bytes of a list of operations. -/
def encodeAll (ops : List Operation) : List UInt8 := ops.flatMap Operation.encode

/-- Operations are encoded in as many bytes as they take. -/
@[simp] theorem length_encodeAll (ops : List Operation) : (encodeAll ops).length = byteSize ops := by
  induction ops with
  | nil => rfl
  | cons op ops ih => simpa [encodeAll] using ih

/-- The operations stand in the code from `pc` on, one directly behind the other. -/
def Placed (code : Code) : Nat → List Operation → Prop
  | _, [] => True
  | pc, op :: ops => decode code pc = .ok ⟨pc, op⟩ ∧ Placed code (pc + op.size) ops

/-- No operations stand everywhere. -/
@[simp] theorem placed_nil (code : Code) (pc : Nat) : Placed code pc [] := trivial

/-- The first operation is decoded at the place itself, and the others stand behind it. -/
@[simp] theorem placed_cons (code : Code) (pc : Nat) (op : Operation) (ops : List Operation) :
    Placed code pc (op :: ops) ↔
      decode code pc = .ok ⟨pc, op⟩ ∧ Placed code (pc + op.size) ops := Iff.rfl

/-- Composed code stands where its parts stand. -/
@[simp] theorem placed_append (code : Code) (pc : Nat) (left right : List Operation) :
    Placed code pc (left ++ right) ↔
      Placed code pc left ∧ Placed code (pc + byteSize left) right := by
  induction left generalizing pc with
  | nil => simp
  | cons op left ih => simp [ih, and_assoc, Nat.add_assoc]

/-- Operations stand where they were written. -/
theorem placed_of_encodeAll {code : Code} {before after : List UInt8} {ops : List Operation}
    (h : code.toList = before ++ (encodeAll ops ++ after)) : Placed code before.length ops := by
  induction ops generalizing before with
  | nil => trivial
  | cons op ops ih =>
    -- The bytes of the first operation become part of what stands before the others.
    have hcons : code.toList = before ++ (op.encode ++ (encodeAll ops ++ after)) := by
      simpa [encodeAll] using h
    have hrest : Placed code (before ++ op.encode).length ops := ih (by simpa using hcons)
    rw [List.length_append, Operation.length_encode] at hrest
    exact ⟨decode_encode hcons, hrest⟩

end Daedalus
