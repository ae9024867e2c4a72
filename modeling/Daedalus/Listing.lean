import Daedalus.Script
import Daedalus.Text.Layout

/-! # Listings

Code in assembler form: one line for each instruction with its address, its bytes, its mnemonic and
its operand, and the name of the symbol that it refers to. The listing of a callable ends with the
first return that no branch before it goes beyond. -/

namespace Daedalus

open Text

/-- The address that a branch within a body goes to. -/
def Operation.branchTarget? : Operation → Option UInt32
  | .jump target | .jumpIfZero target => some target
  | _ => none

/-- The operand of an operation in assembler form, with a space in front. -/
def Operation.operandText : Operation → String
  | .call target | .jump target | .jumpIfZero target => " " ++ hexWord target.toNat
  | .pushInt value => " " ++ toString value.toInt
  | .callExternal symbol | .pushVar symbol | .pushInstance symbol | .setInstance symbol =>
    " " ++ hexWord symbol.toNat
  | .pushElement symbol element => " " ++ hexWord symbol.toNat ++ " + " ++ toString element.toNat
  | _ => ""

/-- An operation in assembler form. -/
def Operation.text (op : Operation) : String := op.opcode.mnemonic ++ op.operandText

namespace Table

variable (table : Table)

/-- What the operand of an operation refers to: the name of the symbol, and its value if it is a
constant. -/
def annotation : Operation → String
  | .call target =>
    match table.callableAt? target with
    | some callee => " ; <" ++ callee.name ++ ">"
    | none => ""
  | .callExternal symbol | .pushVar symbol | .pushInstance symbol | .setInstance symbol =>
    match table.symbolOf? symbol with
    | some sym =>
      " ; <" ++ sym.name ++ ">" ++ (if sym.hasConstantValue then " = " ++ sym.valueText else "")
    | none => ""
  | .pushElement symbol element =>
    match table.symbolOf? symbol with
    | some sym =>
      " ; <" ++ sym.name ++ "+" ++ toString element.toNat ++ ">" ++
        (if sym.hasConstantValue then " = " ++ (sym.element? element.toNat).getD "" else "")
    | none => ""
  | _ => ""

/-- An operation in assembler form, with what its operand refers to. -/
def annotated (op : Operation) : String := op.text ++ table.annotation op

end Table

namespace Script

variable (script : Script)

/-- The bytes of an instruction in hexadecimal, in a column that is wide enough for the longest
instruction. -/
def bytesColumn (instr : Instr) : String :=
  let bytes := (script.code.extract instr.pc instr.next).toList
  padRight 18 (String.join (bytes.map fun byte => hexByte byte ++ " "))

/-- The line of an instruction, without the line end. -/
def listingLine (instr : Instr) : String :=
  padLeft ' ' 8 (hex instr.pc) ++ ":\t" ++ script.bytesColumn instr ++ " " ++
    script.annotated instr.op

/-- The instructions from `pc` to the first return that ends beyond `reach` and all branch targets
met on the way, or to the end of the code, behind those listed before. -/
def listFrom (before : Array Instr) (reach pc : Nat) : Except Fault (Array Instr) :=
  if pc < script.code.size then
    match _h : decode script.code pc with
    | .error fault => .error fault
    | .ok instr =>
      let reach := max reach ((instr.op.branchTarget?.map UInt32.toNat).getD 0)
      if instr.op = .ret ∧ reach < instr.next then .ok (before.push instr)
      else listFrom (before.push instr) reach instr.next
  else
    .ok before
termination_by script.code.size - pc
decreasing_by
  have := lt_next_of_decode _h
  have := next_le_of_decode _h
  omega

/-- The instructions that the listing of a callable shows. -/
def listed (sym : Symbol) : Except Fault (List Instr) :=
  Array.toList <$> script.listFrom #[] sym.address.toNat sym.address.toNat

/-- The line over the listing of a callable. -/
def listingTitle (sym : Symbol) : String := hexWord sym.address.toNat ++ " <" ++ sym.name ++ ">:\n"

/-- The listing of a callable. -/
def listing (sym : Symbol) : Except Fault String :=
  if sym.isExternal then .error (.external sym.name)
  else if !sym.kind.isCallable then .error (.notCallable sym.name)
  else
    (fun instrs => listingTitle sym ++ unlines (instrs.map script.listingLine)) <$>
      script.listed sym

/-- The listing of a callable, or its title with the reason why it cannot be listed. -/
def listingOrReason (sym : Symbol) : String :=
  match script.listing sym with
  | .ok text => text
  | .error fault => listingTitle sym ++ "\t; " ++ fault.message ++ "\n"

/-- The listings of all symbols that define a body, each with an empty line behind it. -/
def fullListing : String :=
  unlines ((script.symbols.toList.filter Symbol.definesBody).map script.listingOrReason)

end Script

end Daedalus
