import Daedalus.Bytecode.Decode
import Daedalus.Symbols.Table

/-! # Scripts

A compiled script: a code segment and the symbol table that it refers to. -/

namespace Daedalus

/-- A compiled script. -/
structure Script extends Table where
  /-- The code segment. -/
  code : Code

namespace Script

/-- The script with this code and these symbols, numbered by their positions. -/
def ofParts (code : Code) (symbols : List Symbol) : Script :=
  { Table.ofList symbols with code }

/-- The instruction at a position of the code. -/
def instrAt (script : Script) (pc : Nat) : Except Fault Instr := decode script.code pc

end Script

end Daedalus
