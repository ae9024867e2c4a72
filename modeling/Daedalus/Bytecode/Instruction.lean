import Daedalus.Bytes.Word
import Daedalus.Bytecode.Opcode

/-! # Operations and instructions

An operation is an opcode together with its operand; an instruction is an operation at a position in
the code. `encode` writes an operation as its opcode byte followed by the operand, words in
little-endian order. -/

namespace Daedalus

/-- What one instruction does, with the operand it carries. -/
inductive Operation where
  /-- Combines the two topmost operands. -/
  | binary (op : BinaryOp)
  /-- Changes the topmost operand. -/
  | unary (op : UnaryOp)
  /-- Stores into the topmost operand, combined with its old value. -/
  | compound (op : CompoundOp)
  /-- Stores into the topmost operand. -/
  | move (kind : MoveKind)
  /-- Does nothing. -/
  | nop
  /-- Leaves the current function. -/
  | ret
  /-- Calls the function whose body starts at `target`. -/
  | call (target : UInt32)
  /-- Calls the host function named by a symbol. -/
  | callExternal (symbol : UInt32)
  /-- Pushes a literal; a float is pushed as its bit pattern. -/
  | pushInt (value : Int32)
  /-- Pushes the variable named by a symbol. -/
  | pushVar (symbol : UInt32)
  /-- Pushes the instance named by a symbol. -/
  | pushInstance (symbol : UInt32)
  /-- Pushes one element of the array variable named by a symbol. -/
  | pushElement (symbol : UInt32) (element : UInt8)
  /-- Goes on at `target`. -/
  | jump (target : UInt32)
  /-- Goes on at `target` if the topmost operand is zero. -/
  | jumpIfZero (target : UInt32)
  /-- Makes the instance named by a symbol the active one. -/
  | setInstance (symbol : UInt32)
  deriving DecidableEq, Repr

namespace Operation

/-- The opcode of an operation. -/
def opcode : Operation → Opcode
  | .binary op => .binary op
  | .unary op => .unary op
  | .compound op => .compound op
  | .move kind => .move kind
  | .nop => .nop
  | .ret => .ret
  | .call _ => .call
  | .callExternal _ => .callExternal
  | .pushInt _ => .pushInt
  | .pushVar _ => .pushVar
  | .pushInstance _ => .pushInstance
  | .pushElement _ _ => .pushElement
  | .jump _ => .jump
  | .jumpIfZero _ => .jumpIfZero
  | .setInstance _ => .setInstance

/-- The code address that an operation refers to. -/
def address? : Operation → Option UInt32
  | .call target | .jump target | .jumpIfZero target => some target
  | _ => none

/-- The literal that an operation pushes. -/
def immediate? : Operation → Option Int32
  | .pushInt value => some value
  | _ => none

/-- The symbol that an operation refers to. -/
def symbol? : Operation → Option UInt32
  | .callExternal symbol | .pushVar symbol | .pushInstance symbol => some symbol
  | .pushElement symbol _ | .setInstance symbol => some symbol
  | _ => none

/-- The array element that an operation refers to. -/
def element? : Operation → Option UInt8
  | .pushElement _ element => some element
  | _ => none

/-- The operand bytes of an operation. -/
def operandBytes : Operation → List UInt8
  | .call target | .jump target | .jumpIfZero target => Word.toBytes target
  | .pushInt value => Word.toBytes value.toUInt32
  | .callExternal symbol | .pushVar symbol | .pushInstance symbol | .setInstance symbol =>
    Word.toBytes symbol
  | .pushElement symbol element => Word.toBytes symbol ++ [element]
  | _ => []

/-- The bytes of an operation: its opcode, then its operand. -/
def encode (op : Operation) : List UInt8 := op.opcode.byte :: op.operandBytes

/-- The number of bytes that an operation takes. -/
def size (op : Operation) : Nat := op.opcode.size

/-- Every operation takes space. -/
theorem size_pos (op : Operation) : 0 < op.size := op.opcode.size_pos

/-- An operation is encoded in as many bytes as it takes. -/
@[simp] theorem length_encode (op : Operation) : op.encode.length = op.size := by
  cases op <;> rfl

end Operation

/-- The operation with this opcode whose operand bytes are `operand 0`, `operand 1` and so on. -/
def Opcode.operation (op : Opcode) (operand : Nat → UInt8) : Operation :=
  let word := Word.ofBytes (operand 0) (operand 1) (operand 2) (operand 3)
  match op with
  | .binary op => .binary op
  | .unary op => .unary op
  | .compound op => .compound op
  | .move kind => .move kind
  | .nop => .nop
  | .ret => .ret
  | .call => .call word
  | .callExternal => .callExternal word
  | .pushInt => .pushInt word.toInt32
  | .pushVar => .pushVar word
  | .pushInstance => .pushInstance word
  | .pushElement => .pushElement word (operand 4)
  | .jump => .jump word
  | .jumpIfZero => .jumpIfZero word
  | .setInstance => .setInstance word

/-- The operation that an opcode makes of its operand has this opcode. -/
@[simp] theorem Opcode.opcode_operation (op : Opcode) (operand : Nat → UInt8) :
    (op.operation operand).opcode = op := by
  cases op <;> rfl

/-- An operation at a position in the code. -/
structure Instr where
  /-- The position of the opcode byte. -/
  pc : Nat
  /-- What the instruction does. -/
  op : Operation
  deriving DecidableEq, Repr

/-- The position behind an instruction. -/
def Instr.next (instr : Instr) : Nat := instr.pc + instr.op.size

end Daedalus
