import Daedalus.Proofs.Calls

/-! # The expressions of a walk

A walk gathers statements and conditions in a tree. They are recovered from stacks of operands: an
instruction that leaves nothing to pop is never pushed. What holds of every statement and every
condition that can be recovered from such a stack therefore holds in the whole tree, along the calls
of the walk. -/

namespace Daedalus

/-! ### Stacks of operands -/

/-- Every frame of a stack leaves something to pop. -/
def Operands (stack : List Frame) : Prop := ∀ frame ∈ stack, frame.instr.op.isOperand = true

/-- There are only operands on an empty stack. -/
theorem Operands.nil : Operands [] := fun _ h => by cases h

/-- There are only operands on what is left of a stack of operands. -/
theorem Operands.suffix {stack rest : List Frame} (h : Operands stack) (hrest : rest <:+ stack) :
    Operands rest := fun frame hframe => h frame (hrest.subset hframe)

/-- Only operands are pushed. -/
theorem Operands.push {stack : List Frame} (h : Operands stack) (frame : Frame) :
    Operands (frame.push stack) := by
  rw [Frame.push]
  split
  · next hoperand => exact List.forall_mem_cons.mpr ⟨hoperand, h⟩
  · exact h

/-- A statement is cut off with operands only on the stack. -/
theorem Operands.of_cut {script : Script} {bound pc : Nat} {active : Option UInt32}
    {stack : List Frame} {c : Cut} (h : Operands stack)
    (hcut : script.cut bound active stack pc = .ok c) : Operands c.stack := by
  fun_induction Script.cut script bound active stack pc with
  | case1 => cases hcut
  | case2 => exact Except.ok.inj hcut ▸ h
  | case3 active stack pc instr hd frame hend ih => exact ih (h.push frame) hcut

/-- The operands below a condition. -/
theorem Setting.operands_popExpr (s : Setting) {stack : List Frame} (h : Operands stack)
    (active : Option UInt32) : Operands (s.popExpr active stack).2 :=
  h.suffix (pop_suffix (s.recover_takesFromTop active s.limit) stack)

/-! ### Trees -/

mutual
/-- All statements and conditions of a block have a property. -/
def Block.All (P : Expr → Prop) : Block → Prop
  | .done => True
  | .step main unused rest => P main ∧ (∀ e ∈ unused, P e) ∧ rest.All P
  | .chain condition body arms rest => P condition ∧ body.All P ∧ arms.All P ∧ rest.All P
/-- All statements and conditions of the further arms of a chain have a property. -/
def Arms.All (P : Expr → Prop) : Arms → Prop
  | .done => True
  | .elseIf condition body rest => P condition ∧ body.All P ∧ rest.All P
  | .otherwise body => body.All P
end

mutual
/-- What holds of all expressions holds in every block. -/
theorem Block.all_of_forall {P : Expr → Prop} (h : ∀ e, P e) : ∀ block : Block, block.All P
  | .done => trivial
  | .step main _ rest => ⟨h main, fun e _ => h e, rest.all_of_forall h⟩
  | .chain condition body arms rest =>
    ⟨h condition, body.all_of_forall h, arms.all_of_forall h, rest.all_of_forall h⟩
/-- What holds of all expressions holds in all further arms of a chain. -/
theorem Arms.all_of_forall {P : Expr → Prop} (h : ∀ e, P e) : ∀ arms : Arms, arms.All P
  | .done => trivial
  | .elseIf condition body rest => ⟨h condition, body.all_of_forall h, rest.all_of_forall h⟩
  | .otherwise body => body.all_of_forall h
end

namespace Setting

/-- What is recovered from any stack of operands has a property. -/
structure Recovers (s : Setting) (P : Expr → Prop) : Prop where
  condition : ∀ active stack, Operands stack → P (s.popExpr active stack).1
  statement : ∀ c : Cut, Operands c.stack →
    P (s.statement c).1 ∧ ∀ e ∈ (s.statement c).2, P e

/-- What is left unused on a stack of operands has a property that all has that is recovered from one.
-/
theorem forall_mem_unwind {s : Setting} {P : Expr → Prop} {active : Option UInt32}
    (h : ∀ frame stack, Operands stack → P (s.recover active s.limit frame stack).1)
    {stack : List Frame} (hstack : Operands stack) : ∀ e ∈ s.unwind active stack, P e := by
  fun_induction s.unwind active stack with
  | case1 => simp
  | case2 frame stack read ih =>
    have hbelow : Operands stack := (List.forall_mem_cons.mp hstack).2
    have hrest : Operands read.2 := hbelow.suffix (s.recover_takesFromTop active s.limit frame stack)
    exact List.forall_mem_cons.mpr ⟨h frame stack hbelow, ih hrest⟩

/-- A property of the mark for a missing operand, and of all single expressions that are recovered
from stacks of operands, is one of conditions and statements. -/
theorem Recovers.of_recover {s : Setting} {P : Expr → Prop} (hmissing : P .missing)
    (h : ∀ active frame stack, Operands stack → P (s.recover active s.limit frame stack).1) :
    s.Recovers P where
  condition active stack hstack := by
    cases stack with
    | nil => exact hmissing
    | cons frame stack => exact h active frame stack (List.forall_mem_cons.mp hstack).2
  statement c hstack :=
    have hread : Operands (s.recover c.active s.limit c.last c.stack).2 :=
      hstack.suffix (s.recover_takesFromTop c.active s.limit c.last c.stack)
    ⟨h c.active c.last c.stack hstack, forall_mem_unwind (h c.active) hread⟩

/-- What follows from a property of all that is recovered holds of all that is recovered. -/
theorem Recovers.imp {s : Setting} {P P' : Expr → Prop} (h : s.Recovers P)
    (himp : ∀ e, P e → P' e) : s.Recovers P' where
  condition active stack hstack := himp _ (h.condition active stack hstack)
  statement c hstack :=
    have ⟨hmain, hunused⟩ := h.statement c hstack
    ⟨himp _ hmain, fun e he => himp e (hunused e he)⟩

/-- The tree that a call on a stack of operands gives has a property throughout. -/
def Gathers (s : Setting) (P : Expr → Prop) : Call → Prop
  | .block depth bound active pc =>
    ∀ walk, s.block depth bound active pc = .ok walk → walk.block.All P
  | .statements depth bound active stack pc =>
    Operands stack → ∀ walk, s.statements depth bound active stack pc = .ok walk → walk.block.All P
  | .resume depth bound active stack pc =>
    Operands stack → ∀ walk, s.resume depth bound active stack pc = .ok walk → walk.block.All P
  | .arms depth bound active stack exit pc =>
    Operands stack → ∀ result, s.arms depth bound active stack exit pc = .ok result →
      result.1.All P ∧ result.2.block.All P
  | .otherwise depth bound active stack opening exit pc =>
    Operands stack → (∀ body, body.All P → (opening body).All P) →
      ∀ result, s.otherwise depth bound active stack opening exit pc = .ok result →
        result.1.All P ∧ result.2.block.All P

variable {s : Setting} {P : Expr → Prop} {depth bound exit pc : Nat} {active : Option UInt32}
  {stack : List Frame} {c : Cut} {opening : Block → Block}

/-- A tree is gathered from the statement that is cut off first and from the calls behind it. -/
theorem gathers_statements (hrecovers : s.Recovers P)
    (ih : ∀ next, s.Makes (.statements depth bound active stack pc) next → s.Gathers P next) :
    s.Gathers P (.statements depth bound active stack pc) := by
  intro hstack walk h
  rw [statements_eq] at h
  obtain ⟨c, hcut, hafter⟩ := exists_of_bind_eq_ok h
  -- Only operands are ever on the stack: they are what the condition and the statement are
  -- recovered from.
  have hbelow : Operands c.stack := hstack.of_cut hcut
  have hrest : Operands (s.popExpr c.active c.stack).2 := s.operands_popExpr hbelow c.active
  have hcondition := hrecovers.condition c.active c.stack hbelow
  obtain ⟨hmain, hunused⟩ := hrecovers.statement c hbelow
  cases s.walkedFrom_of_afterCut hafter with
  | jump hflow => exact trivial
  | ret hflow => exact ⟨hmain, hunused, trivial⟩
  | next hflow hwalk =>
    have hall := ih _ (.next hcut) .nil _ hwalk
    exact ⟨hmain, hunused, hall⟩
  | emptyArm hflow hwalk =>
    have hall := ih _ (.next hcut) hrest _ hwalk
    exact ⟨hcondition, trivial, trivial, hall⟩
  | arm hflow hforward hbody harms =>
    have hallBody := ih _ (.arm hcut hflow hforward) _ hbody
    obtain ⟨hallArms, hallRest⟩ := ih _ (.behindArm hcut hflow hforward hbody) hrest _ harms
    exact ⟨hcondition, hallBody, hallArms, hallRest⟩

/-- Further arms are gathered from the statement that is cut off first and from the calls behind it.
-/
theorem gathers_arms (hrecovers : s.Recovers P)
    (ih : ∀ next, s.Makes (.arms depth bound active stack exit pc) next → s.Gathers P next) :
    s.Gathers P (.arms depth bound active stack exit pc) := by
  intro hstack result h
  by_cases hturn : pc < exit ∧ pc < bound
  · rw [s.arms_eq hturn.1 hturn.2] at h
    obtain ⟨c, hcut, hafter⟩ := exists_of_bind_eq_ok h
    have hbelow : Operands c.stack := hstack.of_cut hcut
    have hrest : Operands (s.popExpr c.active c.stack).2 := s.operands_popExpr hbelow c.active
    have hcondition := hrecovers.condition c.active c.stack hbelow
    obtain ⟨hmain, hunused⟩ := hrecovers.statement c hbelow
    cases s.armsWalkedFrom_of_armAfterCut hafter with
    | jumped hflow hresult =>
      exact ih _ (.otherwise hcut) hbelow (fun _ hbody => hbody) result hresult
    | stepped hflow hresult =>
      -- The statement becomes the first step of the arm without a condition.
      have hopening : ∀ body : Block, body.All P →
          (Block.step (s.statement c).1 (s.statement c).2 body).All P :=
        fun body hbody => ⟨hmain, hunused, hbody⟩
      exact ih _ (.otherwise hcut) .nil hopening result hresult
    | emptyElseIf hflow harms =>
      obtain ⟨hallArms, hallRest⟩ := ih _ (.emptyElseIf hcut) hrest _ harms
      exact ⟨⟨hcondition, trivial, hallArms⟩, hallRest⟩
    | elseIf hflow hforward hbody harms =>
      have hallBody := ih _ (.elseIf hcut hflow hforward) _ hbody
      obtain ⟨hallArms, hallRest⟩ := ih _ (.behindElseIf hcut hflow hforward hbody) hrest _ harms
      exact ⟨⟨hcondition, hallBody, hallArms⟩, hallRest⟩
  · rw [Setting.arms, if_neg hturn] at h
    obtain ⟨rest, hrest, rfl⟩ := exists_of_map_eq_ok h
    exact ⟨trivial, ih _ (.noArm hturn) hstack rest hrest⟩

/-- The arm without a condition is gathered by the walk through it, behind what opens it. -/
theorem gathers_otherwise
    (ih : ∀ next, s.Makes (.otherwise depth bound active stack opening exit pc) next →
      s.Gathers P next) :
    s.Gathers P (.otherwise depth bound active stack opening exit pc) := by
  intro hstack hopening result h
  rcases Nat.lt_or_ge pc exit with hlt | hge
  · rw [s.otherwise_of_lt hlt] at h
    obtain ⟨body, hbody, h⟩ := exists_of_bind_eq_ok h
    obtain ⟨rest, hrest, rfl⟩ := exists_of_map_eq_ok h
    have hallBody := ih _ (.lastArm hlt) body hbody
    exact ⟨hopening _ hallBody, ih _ (.behindLastArm hlt hbody) hstack rest hrest⟩
  · rw [s.otherwise_of_le hge] at h
    obtain ⟨rest, hrest, rfl⟩ := exists_of_map_eq_ok h
    exact ⟨hopening _ trivial, ih _ (.lastArmEnded hge) hstack rest hrest⟩

/-- **What holds of all that is recovered from operands holds in every block.** -/
theorem gathers (hrecovers : s.Recovers P) (call : Call) : s.Gathers P call := by
  induction call using s.call_induction with
  | step call ih =>
    cases call with
    | block depth bound active pc =>
      intro walk h
      rw [Setting.block] at h
      split at h
      · cases h
      · next hdepth => exact ih _ (.enter (Nat.not_le.mp hdepth)) .nil walk h
    | statements => exact gathers_statements hrecovers ih
    | resume depth bound active stack pc =>
      intro hstack walk h
      rw [Setting.resume] at h
      split at h
      · cases h
        exact trivial
      · next hbound => exact ih _ (.goOn (Nat.not_le.mp hbound)) hstack walk h
    | arms => exact gathers_arms hrecovers ih
    | otherwise => exact gathers_otherwise ih

end Setting

end Daedalus
