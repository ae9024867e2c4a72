/-! # Opcodes

The operation codes of the Daedalus virtual machine: the byte that stands for each, its assembler
mnemonic, the source operator it computes and the number of operand bytes that follow it. -/

namespace Daedalus

/-- Operators that combine two operands. -/
inductive BinaryOp where
  | add
  | sub
  | mul
  | div
  | mod
  | bitOr
  | bitAnd
  | less
  | greater
  | logOr
  | logAnd
  | shiftLeft
  | shiftRight
  | lessEq
  | equal
  | notEqual
  | greaterEq
  deriving DecidableEq, Repr

/-- Operators in front of one operand. -/
inductive UnaryOp where
  | plus
  | negate
  | not
  | complement
  deriving DecidableEq, Repr

/-- Assignments that combine the old value of their target with an operand. -/
inductive CompoundOp where
  | add
  | sub
  | mul
  | div
  deriving DecidableEq, Repr

/-- Plain assignments, one for each kind of value that is stored. -/
inductive MoveKind where
  | int
  | string
  | stringRef
  | floatVar
  | float
  | instanceVar
  deriving DecidableEq, Repr

/-- Every operation code of the machine. -/
inductive Opcode where
  /-- Combines the two topmost operands. -/
  | binary (op : BinaryOp)
  /-- Changes the topmost operand. -/
  | unary (op : UnaryOp)
  /-- Stores into the topmost operand, combined with its old value. -/
  | compound (op : CompoundOp)
  /-- Stores into the topmost operand. -/
  | move (kind : MoveKind)
  /-- Does nothing. -/
  | nop
  /-- Leaves the current function. -/
  | ret
  /-- Calls the function at an address. -/
  | call
  /-- Calls a function of the host program. -/
  | callExternal
  /-- Pushes a literal. -/
  | pushInt
  /-- Pushes a variable. -/
  | pushVar
  /-- Pushes an instance. -/
  | pushInstance
  /-- Pushes an element of an array variable. -/
  | pushElement
  /-- Goes on at an address. -/
  | jump
  /-- Goes on at an address if the topmost operand is zero. -/
  | jumpIfZero
  /-- Makes an instance the active one. -/
  | setInstance
  deriving DecidableEq, Repr

/-- The source text of a binary operator. -/
def BinaryOp.text : BinaryOp → String
  | .add => "+"
  | .sub => "-"
  | .mul => "*"
  | .div => "/"
  | .mod => "%"
  | .bitOr => "|"
  | .bitAnd => "&"
  | .less => "<"
  | .greater => ">"
  | .logOr => "||"
  | .logAnd => "&&"
  | .shiftLeft => "<<"
  | .shiftRight => ">>"
  | .lessEq => "<="
  | .equal => "=="
  | .notEqual => "!="
  | .greaterEq => ">="

/-- The source text of a unary operator. -/
def UnaryOp.text : UnaryOp → String
  | .plus => "+"
  | .negate => "-"
  | .not => "!"
  | .complement => "~"

/-- The source text of a compound assignment. -/
def CompoundOp.text : CompoundOp → String
  | .add => "+="
  | .sub => "-="
  | .mul => "*="
  | .div => "/="

namespace Opcode

/-- The opcode that a byte stands for, if it is assigned. -/
def ofByte? (byte : UInt8) : Option Opcode :=
  match byte.toNat with
  | 0 => some (.binary .add)
  | 1 => some (.binary .sub)
  | 2 => some (.binary .mul)
  | 3 => some (.binary .div)
  | 4 => some (.binary .mod)
  | 5 => some (.binary .bitOr)
  | 6 => some (.binary .bitAnd)
  | 7 => some (.binary .less)
  | 8 => some (.binary .greater)
  | 9 => some (.move .int)
  | 11 => some (.binary .logOr)
  | 12 => some (.binary .logAnd)
  | 13 => some (.binary .shiftLeft)
  | 14 => some (.binary .shiftRight)
  | 15 => some (.binary .lessEq)
  | 16 => some (.binary .equal)
  | 17 => some (.binary .notEqual)
  | 18 => some (.binary .greaterEq)
  | 19 => some (.compound .add)
  | 20 => some (.compound .sub)
  | 21 => some (.compound .mul)
  | 22 => some (.compound .div)
  | 30 => some (.unary .plus)
  | 31 => some (.unary .negate)
  | 32 => some (.unary .not)
  | 33 => some (.unary .complement)
  | 45 => some .nop
  | 60 => some .ret
  | 61 => some .call
  | 62 => some .callExternal
  | 64 => some .pushInt
  | 65 => some .pushVar
  | 67 => some .pushInstance
  | 70 => some (.move .string)
  | 71 => some (.move .stringRef)
  | 72 => some (.move .floatVar)
  | 73 => some (.move .float)
  | 74 => some (.move .instanceVar)
  | 75 => some .jump
  | 76 => some .jumpIfZero
  | 80 => some .setInstance
  | 245 => some .pushElement
  | _ => none

/-- The byte that stands for an opcode. -/
def byte : Opcode → UInt8
  | .binary .add => 0
  | .binary .sub => 1
  | .binary .mul => 2
  | .binary .div => 3
  | .binary .mod => 4
  | .binary .bitOr => 5
  | .binary .bitAnd => 6
  | .binary .less => 7
  | .binary .greater => 8
  | .move .int => 9
  | .binary .logOr => 11
  | .binary .logAnd => 12
  | .binary .shiftLeft => 13
  | .binary .shiftRight => 14
  | .binary .lessEq => 15
  | .binary .equal => 16
  | .binary .notEqual => 17
  | .binary .greaterEq => 18
  | .compound .add => 19
  | .compound .sub => 20
  | .compound .mul => 21
  | .compound .div => 22
  | .unary .plus => 30
  | .unary .negate => 31
  | .unary .not => 32
  | .unary .complement => 33
  | .nop => 45
  | .ret => 60
  | .call => 61
  | .callExternal => 62
  | .pushInt => 64
  | .pushVar => 65
  | .pushInstance => 67
  | .move .string => 70
  | .move .stringRef => 71
  | .move .floatVar => 72
  | .move .float => 73
  | .move .instanceVar => 74
  | .jump => 75
  | .jumpIfZero => 76
  | .setInstance => 80
  | .pushElement => 245

/-- The traditional assembler mnemonic. -/
def mnemonic : Opcode → String
  | .binary .add => "ADD"
  | .binary .sub => "SUB"
  | .binary .mul => "MUL"
  | .binary .div => "DIV"
  | .binary .mod => "MOD"
  | .binary .bitOr => "OR"
  | .binary .bitAnd => "ANDB"
  | .binary .less => "LT"
  | .binary .greater => "GT"
  | .binary .logOr => "ORR"
  | .binary .logAnd => "AND"
  | .binary .shiftLeft => "LSL"
  | .binary .shiftRight => "LSR"
  | .binary .lessEq => "LTE"
  | .binary .equal => "EQ"
  | .binary .notEqual => "NEQ"
  | .binary .greaterEq => "GTE"
  | .compound .add => "ADDMOVI"
  | .compound .sub => "SUBMOVI"
  | .compound .mul => "MULMOVI"
  | .compound .div => "DIVMOVI"
  | .unary .plus => "PLUS"
  | .unary .negate => "NEGATE"
  | .unary .not => "NOT"
  | .unary .complement => "CMPL"
  | .nop => "NOP"
  | .ret => "RSR"
  | .call => "BL"
  | .callExternal => "BE"
  | .pushInt => "PUSHI"
  | .pushVar => "PUSHV"
  | .pushInstance => "PUSHVI"
  | .pushElement => "PUSHVV"
  | .move .int => "MOVI"
  | .move .string => "MOVS"
  | .move .stringRef => "MOVSS"
  | .move .floatVar => "MOVVF"
  | .move .float => "MOVF"
  | .move .instanceVar => "MOVVI"
  | .jump => "B"
  | .jumpIfZero => "BZ"
  | .setInstance => "GMOVI"

/-- The source operator that an opcode computes, if it computes one. -/
def operator? : Opcode → Option String
  | .binary op => some op.text
  | .unary op => some op.text
  | .compound op => some op.text
  | _ => none

/-- Whether the opcode combines two operands. -/
def isBinary : Opcode → Bool
  | .binary _ => true
  | _ => false

/-- Whether the opcode changes one operand. -/
def isUnary : Opcode → Bool
  | .unary _ => true
  | _ => false

/-- Whether the opcode is a compound assignment. -/
def isCompound : Opcode → Bool
  | .compound _ => true
  | _ => false

/-- Whether the opcode is a plain assignment. -/
def isMove : Opcode → Bool
  | .move _ => true
  | _ => false

/-- Whether the opcode goes on at another address within a body. -/
def isBranch : Opcode → Bool
  | .jump | .jumpIfZero => true
  | _ => false

/-- The number of operand bytes behind the opcode byte. -/
def operandSize : Opcode → Nat
  | .call | .callExternal | .pushInt | .pushVar | .pushInstance => 4
  | .jump | .jumpIfZero | .setInstance => 4
  | .pushElement => 5
  | _ => 0

/-- The length of an instruction with this opcode. -/
def size (op : Opcode) : Nat := 1 + op.operandSize

/-- Every instruction has at least its opcode byte. -/
theorem size_pos (op : Opcode) : 0 < op.size := by
  rw [size]
  omega

/-- Every opcode is read back from its byte. -/
@[simp] theorem ofByte?_byte (op : Opcode) : ofByte? op.byte = some op := by
  cases op with
  | binary op => cases op <;> rfl
  | unary op => cases op <;> rfl
  | compound op => cases op <;> rfl
  | move kind => cases kind <;> rfl
  | _ => rfl

/-- A byte stands for at most the opcode whose byte it is. -/
theorem ofByte?_eq_some_iff {b : UInt8} {op : Opcode} : ofByte? b = some op ↔ op.byte = b := by
  constructor
  · have hall : ∀ n < 256, ∀ op ∈ ofByte? (UInt8.ofNat n), op.byte = UInt8.ofNat n := by
      decide +kernel
    have hb := hall b.toNat b.toNat_lt op
    rw [UInt8.ofNat_toNat] at hb
    exact hb
  · rintro rfl
    exact ofByte?_byte op

end Opcode

end Daedalus
