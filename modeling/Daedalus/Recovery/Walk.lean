import Daedalus.Recovery.Operand
import Daedalus.Source.Block

/-! # Recovering blocks

The code of a block is walked from its start to its bound. A conditional branch opens an arm that
ends at the target of the branch; where the arm is left by a jump that goes further, more arms
follow up to the target of that jump. A walk starts no statement at or before a position that it has
reached, so it ends for every code, and the nesting limit is not needed for that.

All positions are compared as natural numbers, and the functions below recur on the code that is
left. -/

namespace Daedalus

/-- What walking through the code of a block gives. -/
structure Walk where
  /-- The statements of the block. -/
  block : Block
  /-- Where the walk ended: the target of the jump that left the block, or the position that was
  reached. -/
  exit : Nat
  /-- The active instance at the end. -/
  active : Option UInt32
  deriving Repr

/-- The walk with a block that is made from its own. -/
def Walk.mapBlock (f : Block → Block) (walk : Walk) : Walk := { walk with block := f walk.block }

/-- The end of a walk at a position. -/
def Walk.stop (active : Option UInt32) (pc : Nat) : Walk := ⟨.done, pc, active⟩

/-- Where a block is left behind a return at `pc`. The return may be followed by the jump over the
further arms of a chain, the last instruction before the bound. -/
def Script.exitAfterReturn (script : Script) (bound pc : Nat) : Nat :=
  match script.instrAt pc with
  | .ok instr =>
    match instr.op with
    | .jump target => if instr.next = bound then target.toNat else pc
    | _ => pc
  | .error _ => pc

namespace Setting

variable (s : Setting)

mutual

/-- Walks the block at `pc`, at a depth of nesting. -/
def block (depth bound : Nat) (active : Option UInt32) (pc : Nat) : Except Fault Walk :=
  if s.limit ≤ depth then .error (.nestingTooDeep s.limit pc)
  else statements depth bound active [] pc
termination_by 3 * (s.script.code.size - pc) + 2
decreasing_by omega

/-- Walks the statements of a block from `pc` on, with the operands that are left from before. -/
def statements (depth bound : Nat) (active : Option UInt32) (stack : List Frame) (pc : Nat) :
    Except Fault Walk :=
  match _h : s.script.cut bound active stack pc with
  | .error fault => .error fault
  | .ok c =>
    match c.flow with
    | .branch target =>
      if target < c.next then .error (.backwardBranch c.last.instr.pc target)
      else
        -- The condition takes its operands, and what is left on the stack waits for the code behind
        -- the chain.
        let condition := s.popExpr c.active c.stack
        if c.next = target then
          (Walk.mapBlock (.chain condition.1 .done .done)) <$>
            resume depth bound c.active condition.2 c.next
        else
          match block (depth + 1) target c.active c.next with
          | .error fault => .error fault
          | .ok body =>
            (fun more => more.2.mapBlock (.chain condition.1 body.block more.1)) <$>
              arms depth bound body.active condition.2 body.exit target
    | .jump target => .ok (Walk.stop c.active target)
    | .ret =>
      let step := s.statement c
      let exit := if bound ≤ c.next then c.next else s.script.exitAfterReturn bound c.next
      .ok ⟨.step step.1 step.2 .done, exit, c.active⟩
    | .next =>
      let step := s.statement c
      (Walk.mapBlock (.step step.1 step.2)) <$> resume depth bound c.active [] c.next
termination_by 3 * (s.script.code.size - pc)
decreasing_by
  all_goals
    have := lt_next_of_cut _h
    have := next_le_of_cut _h
    omega

/-- Goes on with the statements of a block at `pc`, unless its bound is reached. -/
def resume (depth bound : Nat) (active : Option UInt32) (stack : List Frame) (pc : Nat) :
    Except Fault Walk :=
  if bound ≤ pc then .ok (Walk.stop active pc)
  else statements depth bound active stack pc
termination_by 3 * (s.script.code.size - pc) + 1
decreasing_by omega

/-- Walks the further arms of a chain, and the block behind the chain. An arm has ended at `pc`, and
the code before it is left for `exit`. -/
def arms (depth bound : Nat) (active : Option UInt32) (stack : List Frame) (exit pc : Nat) :
    Except Fault (Arms × Walk) :=
  if pc < exit ∧ pc < bound then
    match _h : s.script.cut bound active stack pc with
    | .error fault => .error fault
    | .ok c =>
      match c.flow with
      | .branch target =>
        if target < c.next then .error (.backwardBranch c.last.instr.pc target)
        else
          let condition := s.popExpr c.active c.stack
          if c.next = target then
            (fun more => (.elseIf condition.1 .done more.1, more.2)) <$>
              arms depth bound c.active condition.2 exit target
          else
            match block (depth + 1) target c.active c.next with
            | .error fault => .error fault
            | .ok body =>
              (fun more => (.elseIf condition.1 body.block more.1, more.2)) <$>
                arms depth bound body.active condition.2 body.exit target
      -- Without a branch there is no condition: what was cut off belongs to the last arm.
      | .jump _ => otherwise depth bound c.active c.stack id exit c.next
      | .ret | .next =>
        let step := s.statement c
        otherwise depth bound c.active [] (.step step.1 step.2) exit c.next
  else
    (fun rest => (.done, rest)) <$> resume depth bound active stack pc
termination_by 3 * (s.script.code.size - pc) + 2
decreasing_by
  all_goals first
    | have := lt_next_of_cut _h
      have := next_le_of_cut _h
      omega
    | omega

/-- Walks the arm without a condition from `pc` to its end at `exit`, and the block behind the
chain. The statements of the arm that come before `pc` are put in front by `opening`. -/
def otherwise (depth bound : Nat) (active : Option UInt32) (stack : List Frame)
    (opening : Block → Block) (exit pc : Nat) : Except Fault (Arms × Walk) :=
  if pc < exit then
    match block (depth + 1) exit active pc with
    | .error fault => .error fault
    | .ok body =>
      (fun rest => (.otherwise (opening body.block), rest)) <$>
        resume depth bound body.active stack exit
  else
    (fun rest => (.otherwise (opening .done), rest)) <$> resume depth bound active stack pc
termination_by 3 * (s.script.code.size - pc) + 3
decreasing_by
  all_goals omega

end

end Setting

end Daedalus
