import Daedalus.Script

/-! # Cutting code into statements

A statement ends at the first instruction that consumes the stack, that branches or that calls
without a result, or where the enclosing block ends. `cut` collects the operands before that
instruction on a stack. Every operand remembers the instance that was active when it was pushed. -/

namespace Daedalus

/-- An instruction on the operand stack, with the instance that was active when it was pushed. -/
structure Frame where
  instr : Instr
  active : Option UInt32
  deriving DecidableEq, Repr

/-- The active instance behind an operation. -/
def Operation.activate : Operation → Option UInt32 → Option UInt32
  | .setInstance symbol, _ => some symbol
  | _, active => active

/-- Whether an operation is an operand, that is, leaves something to pop. -/
def Operation.isOperand : Operation → Bool
  | .nop | .setInstance _ => false
  | _ => true

/-- The frame of an instruction behind which `active` was the active instance before it. -/
def Frame.ofInstr (instr : Instr) (active : Option UInt32) : Frame :=
  ⟨instr, instr.op.activate active⟩

/-- The stack behind a frame; the top comes first. -/
def Frame.push (frame : Frame) (stack : List Frame) : List Frame :=
  if frame.instr.op.isOperand then frame :: stack else stack

/-- Whether a statement ends with an operation. A call ends it unless the callee is known to leave a
result. -/
def Script.endsStatement (script : Script) : Operation → Bool
  | .move _ | .compound _ | .ret | .jump _ | .jumpIfZero _ => true
  | .call target => !(script.callableAt? target).any Symbol.returnsValue
  | .callExternal symbol => !(script.symbolOf? symbol).any Symbol.returnsValue
  | _ => false

/-- How control goes on behind a statement. -/
inductive Flow where
  /-- With the next statement. -/
  | next
  /-- At the caller. -/
  | ret
  /-- At `target`. -/
  | jump (target : Nat)
  /-- With the next statement, or at `target` if the condition on the stack does not hold. -/
  | branch (target : Nat)
  deriving DecidableEq, Repr

/-- How control goes on behind a statement that ends with an operation. -/
def Operation.flow : Operation → Flow
  | .ret => .ret
  | .jump target => .jump target.toNat
  | .jumpIfZero target => .branch target.toNat
  | _ => .next

/-- A statement cut off from the code: its last instruction, and the operands below it. -/
structure Cut where
  last : Frame
  stack : List Frame
  deriving DecidableEq, Repr

namespace Cut

/-- The position behind a statement. -/
def next (c : Cut) : Nat := c.last.instr.next

/-- How control goes on behind a statement. -/
def flow (c : Cut) : Flow := c.last.instr.op.flow

/-- The active instance behind a statement. -/
def active (c : Cut) : Option UInt32 := c.last.active

end Cut

/-- Cuts off the statement at `pc`: the instructions up to the first one that ends a statement or
that reaches `bound`. -/
def Script.cut (script : Script) (bound : Nat) (active : Option UInt32) (stack : List Frame)
    (pc : Nat) : Except Fault Cut :=
  match _h : decode script.code pc with
  | .error fault => .error fault
  | .ok instr =>
    let frame := Frame.ofInstr instr active
    if script.endsStatement instr.op || bound ≤ instr.next then
      .ok ⟨frame, stack⟩
    else
      script.cut bound frame.active (frame.push stack) instr.next
termination_by script.code.size - pc
decreasing_by
  have := lt_next_of_decode _h
  have := next_le_of_decode _h
  omega

variable {script : Script} {bound pc : Nat} {active : Option UInt32} {stack : List Frame} {c : Cut}

/-- No statement is cut off where nothing can be decoded. -/
theorem cut_of_error {fault : Fault} (h : decode script.code pc = .error fault) :
    script.cut bound active stack pc = .error fault := by
  rw [Script.cut]
  split
  · next fault' hfault =>
    cases h.symm.trans hfault
    rfl
  · next instr hinstr => cases h.symm.trans hinstr

/-- One turn of a cut: a decoded instruction ends the statement, or the cut goes on behind it. -/
theorem cut_of_ok {instr : Instr} (h : decode script.code pc = .ok instr) :
    script.cut bound active stack pc =
      if script.endsStatement instr.op || bound ≤ instr.next then
        .ok ⟨Frame.ofInstr instr active, stack⟩
      else
        script.cut bound (Frame.ofInstr instr active).active
          ((Frame.ofInstr instr active).push stack) instr.next := by
  rw [Script.cut]
  split
  · next fault hfault => cases h.symm.trans hfault
  · next instr' hinstr =>
    cases h.symm.trans hinstr
    rfl

/-- A statement that was cut off ends behind its start and within the code. -/
theorem cut_bounds (h : script.cut bound active stack pc = .ok c) :
    pc < c.next ∧ c.next ≤ script.code.size := by
  fun_induction Script.cut script bound active stack pc with
  | case1 => cases h
  | case2 active stack pc instr hd frame hend =>
    cases h
    exact ⟨lt_next_of_decode hd, next_le_of_decode hd⟩
  | case3 active stack pc instr hd frame hend ih =>
    have := ih h
    have := lt_next_of_decode hd
    omega

/-- Cutting off a statement moves on. -/
theorem lt_next_of_cut (h : script.cut bound active stack pc = .ok c) : pc < c.next :=
  (cut_bounds h).1

/-- A statement lies within the code. -/
theorem next_le_of_cut (h : script.cut bound active stack pc = .ok c) : c.next ≤ script.code.size :=
  (cut_bounds h).2

end Daedalus
