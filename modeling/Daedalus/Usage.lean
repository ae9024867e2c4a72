import Daedalus.Listing

/-! # Usages

Where the code refers to a symbol. The whole code is decoded from its start; each usage is
attributed to the callable whose body was entered last. -/

namespace Daedalus

open Text

/-- An instruction that refers to a symbol. -/
structure Usage where
  instr : Instr
  /-- The callable in whose body the instruction stands, if there is one. -/
  within : Option Symbol
  deriving DecidableEq, Repr

/-- The line that reports a usage, without the line end. -/
def Usage.text (usage : Usage) : String :=
  "[" ++ usage.instr.op.text ++ "] at " ++ hexWord usage.instr.pc ++ " in " ++
    (usage.within.map Symbol.name).getD "???"

/-- Whether an operation calls or pushes a symbol. A callable is called by its address or, if it is
external, by its position. -/
def Operation.uses (op : Operation) (sym : Symbol) : Bool :=
  match op with
  | .call target => sym.kind.isCallable && target == sym.address
  | .callExternal symbol | .pushVar symbol | .pushInstance symbol | .pushElement symbol _ =>
    symbol.toNat == sym.index
  | _ => false

namespace Script

variable (script : Script)

/-- All instructions of the code from `pc` on, each behind the one before it, put behind those in
`before`. -/
def sweepFrom (before : Array Instr) (pc : Nat) : Except Fault (Array Instr) :=
  if pc < script.code.size then
    match _h : decode script.code pc with
    | .error fault => .error fault
    | .ok instr => sweepFrom (before.push instr) instr.next
  else
    .ok before
termination_by script.code.size - pc
decreasing_by
  have := lt_next_of_decode _h
  have := next_le_of_decode _h
  omega

/-- All instructions of the code, from its start on. -/
def sweep : Except Fault (List Instr) := Array.toList <$> script.sweepFrom #[] 0

/-- The callable in whose body an instruction stands, when `within` is the callable that was entered
last before it. -/
def enclosing (within : Option Symbol) (instr : Instr) : Option Symbol :=
  script.callableAt? (UInt32.ofNat instr.pc) <|> within

/-- Goes on to an instruction, with the callable that was entered last and the usages of a symbol
found so far. -/
def scanUsage (sym : Symbol) (state : Option Symbol × Array Usage) (instr : Instr) :
    Option Symbol × Array Usage :=
  let within := script.enclosing state.1 instr
  (within, if instr.op.uses sym then state.2.push ⟨instr, within⟩ else state.2)

/-- The instructions that refer to a symbol, in the order of their addresses. -/
def usages (sym : Symbol) : Except Fault (List Usage) :=
  (fun instrs => (instrs.foldl (script.scanUsage sym) (none, #[])).2.toList) <$> script.sweep

end Script

end Daedalus
