import Daedalus.Proofs.Placement
import Daedalus.Recovery.Statement

/-! # Cutting placed code

What `cut` gives on code whose operations are known: it goes over operands that end before the
bound, and ends at the first operation that ends a statement. The operands are found on the stack
as frames, the last one on top. -/

namespace Daedalus

/-! ### Frames of operations -/

/-- The operations of a list of frames. -/
def operations (frames : List Frame) : List Operation := frames.map fun frame => frame.instr.op

/-- Frames of composed code are composed of the frames of the parts. -/
theorem exists_append_of_operations {frames : List Frame} {left right : List Operation}
    (h : operations frames = left ++ right) :
    ∃ ls rs, frames = ls ++ rs ∧ operations ls = left ∧ operations rs = right :=
  List.map_eq_append_iff.mp h

/-- Frames of code that ends with an operation end with its frame. -/
theorem exists_concat_of_operations {frames : List Frame} {ops : List Operation} {op : Operation}
    (h : operations frames = ops ++ [op]) :
    ∃ below frame, frames = below ++ [frame] ∧ operations below = ops ∧ frame.instr.op = op := by
  obtain ⟨below, last, rfl, hbelow, hlast⟩ := exists_append_of_operations h
  obtain ⟨frame, rest, rfl, hop, hrest⟩ := List.map_eq_cons_iff.mp hlast
  obtain rfl := List.map_eq_nil_iff.mp hrest
  exact ⟨below, frame, rfl, hbelow, hop⟩

/-- The frames of operations that stand from `pc` on, with the same instance active at each. -/
def framesAt (active : Option UInt32) : Nat → List Operation → List Frame
  | _, [] => []
  | pc, op :: ops => ⟨⟨pc, op⟩, active⟩ :: framesAt active (pc + op.size) ops

/-- The frames of operations hold these operations. -/
@[simp] theorem operations_framesAt (active : Option UInt32) (pc : Nat) (ops : List Operation) :
    operations (framesAt active pc ops) = ops := by
  induction ops generalizing pc with
  | nil => rfl
  | cons op ops ih => exact congrArg (op :: ·) (ih _)

/-! ### Cutting -/

/-- An operation is collected as an operand: it is pushed, it ends no statement, and it leaves the
active instance as it is. -/
structure Script.Collects (script : Script) (op : Operation) : Prop where
  endsStatement : script.endsStatement op = false
  isOperand : op.isOperand = true
  activate : ∀ active, op.activate active = active

variable {script : Script} {bound pc : Nat} {active : Option UInt32} {stack : List Frame}

/-- One step of a cut, at an operand that ends before the bound. -/
theorem cut_operand {op : Operation} (hop : script.Collects op)
    (hdecode : decode script.code pc = .ok ⟨pc, op⟩) (hbound : pc + op.size < bound) :
    script.cut bound active stack pc =
      script.cut bound active (⟨⟨pc, op⟩, active⟩ :: stack) (pc + op.size) := by
  -- Neither reason to end the cut applies, so it goes on with the operand pushed.
  have hgoes : ¬(script.endsStatement op || decide (bound ≤ pc + op.size)) := by
    simpa [hop.endsStatement] using hbound
  rw [cut_of_ok hdecode]
  simp only [Instr.next, Frame.ofInstr, Frame.push, hop.isOperand, hop.activate, if_true]
  exact if_neg hgoes

/-- A cut goes over operands that end before the bound, and puts their frames on the stack. -/
theorem cut_operands {ops : List Operation} (hops : ∀ op ∈ ops, script.Collects op)
    (hplaced : Placed script.code pc ops) (hbound : pc + byteSize ops < bound) :
    script.cut bound active stack pc =
      script.cut bound active ((framesAt active pc ops).reverse ++ stack) (pc + byteSize ops) := by
  induction ops generalizing pc stack with
  | nil => rfl
  | cons op ops ih =>
    -- The first operand ends before the bound because all of them do.
    obtain ⟨hdecode, hrest⟩ := hplaced
    rw [byteSize_cons] at hbound
    rw [cut_operand (hops op List.mem_cons_self) hdecode (by omega),
      ih (fun o ho => hops o (List.mem_cons_of_mem _ ho)) hrest (by omega), byteSize_cons,
      framesAt, List.reverse_cons, List.append_assoc, List.singleton_append, Nat.add_assoc]

/-- A cut ends at an operation that ends a statement or reaches the bound. -/
theorem cut_last {op : Operation} (hdecode : decode script.code pc = .ok ⟨pc, op⟩)
    (hend : script.endsStatement op = true ∨ bound ≤ pc + op.size) :
    script.cut bound active stack pc = .ok ⟨⟨⟨pc, op⟩, op.activate active⟩, stack⟩ := by
  have hends : (script.endsStatement op || decide (bound ≤ pc + op.size)) = true := by
    simpa using hend
  rw [cut_of_ok hdecode]
  exact if_pos hends

/-- **Cutting off a statement.** Operands and the operation behind them are cut off together, if
that operation ends the statement or reaches the bound. -/
theorem cut_statement {ops : List Operation} {op : Operation}
    (hops : ∀ op ∈ ops, script.Collects op) (hplaced : Placed script.code pc (ops ++ [op]))
    (hactivate : op.activate active = active) (hbound : pc + byteSize ops < bound)
    (hend : script.endsStatement op = true ∨ bound ≤ pc + byteSize ops + op.size) :
    script.cut bound active stack pc =
      .ok ⟨⟨⟨pc + byteSize ops, op⟩, active⟩, (framesAt active pc ops).reverse ++ stack⟩ := by
  rw [placed_append] at hplaced
  rw [cut_operands hops hplaced.1 hbound, cut_last hplaced.2.1 hend, hactivate]

end Daedalus
