import Daedalus.Proofs.Results
import Daedalus.Recovery.Walk

/-! # The steps of a walk

The walk through a block by its steps: one lemma for each way in which control goes on behind the
statement that is cut off. What a walk does depends on the code before that only through the cut, so
a walk may be taken up behind operands that were already collected. -/

namespace Daedalus

/-- A function on blocks changes the block of a walk. -/
@[simp] theorem Walk.mapBlock_block (f : Block → Block) (walk : Walk) :
    (walk.mapBlock f).block = f walk.block := rfl

/-- A function on blocks does not change where a walk ends. -/
@[simp] theorem Walk.mapBlock_exit (f : Block → Block) (walk : Walk) :
    (walk.mapBlock f).exit = walk.exit := rfl

namespace Setting

variable (s : Setting) {depth bound exit pc target : Nat} {active : Option UInt32}
  {stack : List Frame} {c : Cut}

/-! ### Blocks -/

/-- How a block goes on with the statement that is cut off first. -/
def afterCut (depth bound : Nat) (c : Cut) : Except Fault Walk :=
  match c.flow with
  | .branch target =>
    if target < c.next then .error (.backwardBranch c.last.instr.pc target)
    else
      let condition := s.popExpr c.active c.stack
      if c.next = target then
        (Walk.mapBlock (.chain condition.1 .done .done)) <$>
          s.resume depth bound c.active condition.2 c.next
      else
        match s.block (depth + 1) target c.active c.next with
        | .error fault => .error fault
        | .ok body =>
          (fun more => more.2.mapBlock (.chain condition.1 body.block more.1)) <$>
            s.arms depth bound body.active condition.2 body.exit target
  | .jump target => .ok (Walk.stop c.active target)
  | .ret =>
    let step := s.statement c
    let exit := if bound ≤ c.next then c.next else s.script.exitAfterReturn bound c.next
    .ok ⟨.step step.1 step.2 .done, exit, c.active⟩
  | .next =>
    let step := s.statement c
    (Walk.mapBlock (.step step.1 step.2)) <$> s.resume depth bound c.active [] c.next

/-- The statements of a block are walked by cutting off the first one. -/
theorem statements_eq : s.statements depth bound active stack pc =
    s.script.cut bound active stack pc >>= s.afterCut depth bound := by
  rw [statements]
  split
  · next fault h => rw [h]; rfl
  · next c h => rw [h]; rfl

/-- Statements with the same first cut are walked alike. -/
theorem statements_congr {stack' : List Frame} {pc' : Nat}
    (h : s.script.cut bound active stack pc = s.script.cut bound active stack' pc') :
    s.statements depth bound active stack pc = s.statements depth bound active stack' pc' := by
  rw [statements_eq, statements_eq, h]

/-- The walk goes on by the statement that is cut off. -/
theorem statements_of_cut (hcut : s.script.cut bound active stack pc = .ok c) :
    s.statements depth bound active stack pc = s.afterCut depth bound c := by
  rw [statements_eq, hcut]
  rfl

/-- A jump ends the block and is its exit. -/
theorem afterCut_jump (hflow : c.flow = .jump target) :
    s.afterCut depth bound c = .ok (Walk.stop c.active target) := by
  simp only [afterCut, hflow]

/-- A return ends the block. Where it is not the last instruction, a jump behind it is the exit. -/
theorem afterCut_ret (hflow : c.flow = .ret) :
    s.afterCut depth bound c =
      .ok ⟨.step (s.statement c).1 (s.statement c).2 .done,
        if bound ≤ c.next then c.next else s.script.exitAfterReturn bound c.next, c.active⟩ := by
  simp only [afterCut, hflow]

/-- A statement is one step, and the walk goes on behind it with an empty stack. -/
theorem afterCut_next (hflow : c.flow = .next) :
    s.afterCut depth bound c =
      (Walk.mapBlock (.step (s.statement c).1 (s.statement c).2)) <$>
        s.resume depth bound c.active [] c.next := by
  simp only [afterCut, hflow]

/-- A branch to its own end opens a chain with one empty arm. -/
theorem afterCut_branch_empty (hflow : c.flow = .branch target) (htarget : c.next = target) :
    s.afterCut depth bound c =
      (Walk.mapBlock (.chain (s.popExpr c.active c.stack).1 .done .done)) <$>
        s.resume depth bound c.active (s.popExpr c.active c.stack).2 target := by
  simp only [afterCut, hflow, htarget, Nat.lt_irrefl, if_true, if_false]

/-- A branch opens a chain: its body ends at the target, and the further arms end at the exit of the
body. -/
theorem afterCut_branch (hflow : c.flow = .branch target) (htarget : c.next < target) :
    s.afterCut depth bound c =
      s.block (depth + 1) target c.active c.next >>= fun body =>
        (fun more => more.2.mapBlock (.chain (s.popExpr c.active c.stack).1 body.block more.1)) <$>
          s.arms depth bound body.active (s.popExpr c.active c.stack).2 body.exit target := by
  simp only [afterCut, hflow, if_neg (Nat.not_lt.mpr (Nat.le_of_lt htarget)),
    if_neg (Nat.ne_of_lt htarget)]
  cases s.block (depth + 1) target c.active c.next <;> rfl

/-- A block above the limit is walked from an empty stack. -/
theorem block_eq (hdepth : depth < s.limit) :
    s.block depth bound active pc = s.statements depth bound active [] pc := by
  rw [block, if_neg (Nat.not_le.mpr hdepth)]

/-- Before the bound, the walk goes on. -/
theorem resume_of_lt (h : pc < bound) :
    s.resume depth bound active stack pc = s.statements depth bound active stack pc := by
  rw [resume, if_neg (Nat.not_le.mpr h)]

/-- At the bound, the walk ends. -/
theorem resume_of_le (h : bound ≤ pc) :
    s.resume depth bound active stack pc = .ok (Walk.stop active pc) := by
  rw [resume, if_pos h]

/-! ### Further arms -/

/-- How the further arms of a chain go on with the statement that is cut off first. -/
def armAfterCut (depth bound exit : Nat) (c : Cut) : Except Fault (Arms × Walk) :=
  match c.flow with
  | .branch target =>
    if target < c.next then .error (.backwardBranch c.last.instr.pc target)
    else
      let condition := s.popExpr c.active c.stack
      if c.next = target then
        (fun more => (.elseIf condition.1 .done more.1, more.2)) <$>
          s.arms depth bound c.active condition.2 exit target
      else
        match s.block (depth + 1) target c.active c.next with
        | .error fault => .error fault
        | .ok body =>
          (fun more => (.elseIf condition.1 body.block more.1, more.2)) <$>
            s.arms depth bound body.active condition.2 body.exit target
  | .jump _ => s.otherwise depth bound c.active c.stack id exit c.next
  | .ret | .next =>
    let step := s.statement c
    s.otherwise depth bound c.active [] (.step step.1 step.2) exit c.next

/-- The further arms of a chain are walked by cutting off the first statement. -/
theorem arms_eq (hexit : pc < exit) (hbound : pc < bound) :
    s.arms depth bound active stack exit pc =
      s.script.cut bound active stack pc >>= s.armAfterCut depth bound exit := by
  rw [arms, if_pos ⟨hexit, hbound⟩]
  split
  · next fault h => rw [h]; rfl
  · next c h => rw [h]; rfl

/-- Arms with the same first cut are walked alike. -/
theorem arms_congr {stack' : List Frame} {pc' : Nat} (hexit : pc < exit) (hbound : pc < bound)
    (hexit' : pc' < exit) (hbound' : pc' < bound)
    (h : s.script.cut bound active stack pc = s.script.cut bound active stack' pc') :
    s.arms depth bound active stack exit pc = s.arms depth bound active stack' exit pc' := by
  rw [arms_eq s hexit hbound, arms_eq s hexit' hbound', h]

/-- Before the end of the chain and of the block, a further arm starts with what is cut off. -/
theorem arms_of_cut (hexit : pc < exit) (hbound : pc < bound)
    (hcut : s.script.cut bound active stack pc = .ok c) :
    s.arms depth bound active stack exit pc = s.armAfterCut depth bound exit c := by
  rw [arms_eq s hexit hbound, hcut]
  rfl

/-- There are no further arms where the arm before was not left for a later position. -/
theorem arms_of_le (hexit : exit ≤ pc) :
    s.arms depth bound active stack exit pc =
      (fun rest => (.done, rest)) <$> s.resume depth bound active stack pc := by
  rw [arms, if_neg (by omega)]

/-- A jump at the start of a further arm is dropped, and the arm goes on behind it. -/
theorem armAfterCut_jump (hflow : c.flow = .jump target) :
    s.armAfterCut depth bound exit c = s.otherwise depth bound c.active c.stack id exit c.next := by
  simp only [armAfterCut, hflow]

/-- A return at the start of a further arm opens an arm without a condition. -/
theorem armAfterCut_ret (hflow : c.flow = .ret) :
    s.armAfterCut depth bound exit c =
      s.otherwise depth bound c.active [] (.step (s.statement c).1 (s.statement c).2) exit
        c.next := by
  simp only [armAfterCut, hflow]

/-- A statement at the start of a further arm opens an arm without a condition. -/
theorem armAfterCut_next (hflow : c.flow = .next) :
    s.armAfterCut depth bound exit c =
      s.otherwise depth bound c.active [] (.step (s.statement c).1 (s.statement c).2) exit
        c.next := by
  simp only [armAfterCut, hflow]

/-- A branch to its own end opens an empty arm with a condition. -/
theorem armAfterCut_branch_empty (hflow : c.flow = .branch target) (htarget : c.next = target) :
    s.armAfterCut depth bound exit c =
      (fun more => (.elseIf (s.popExpr c.active c.stack).1 .done more.1, more.2)) <$>
        s.arms depth bound c.active (s.popExpr c.active c.stack).2 exit target := by
  simp only [armAfterCut, hflow, htarget, Nat.lt_irrefl, if_true, if_false]

/-- A branch opens an arm with a condition, and the exit of its body becomes the end of the chain.
-/
theorem armAfterCut_branch (hflow : c.flow = .branch target) (htarget : c.next < target) :
    s.armAfterCut depth bound exit c =
      s.block (depth + 1) target c.active c.next >>= fun body =>
        (fun more => (.elseIf (s.popExpr c.active c.stack).1 body.block more.1, more.2)) <$>
          s.arms depth bound body.active (s.popExpr c.active c.stack).2 body.exit target := by
  simp only [armAfterCut, hflow, if_neg (Nat.not_lt.mpr (Nat.le_of_lt htarget)),
    if_neg (Nat.ne_of_lt htarget)]
  cases s.block (depth + 1) target c.active c.next <;> rfl

/-- How the walk of a block goes on behind a cut, if it comes to an end. -/
inductive WalkedFrom (depth bound : Nat) (c : Cut) : Walk → Prop where
  | jump {target : Nat} (hflow : c.flow = .jump target) :
    WalkedFrom depth bound c (Walk.stop c.active target)
  | ret (hflow : c.flow = .ret) :
    WalkedFrom depth bound c
      ⟨.step (s.statement c).1 (s.statement c).2 .done,
        if bound ≤ c.next then c.next else s.script.exitAfterReturn bound c.next, c.active⟩
  | next {rest : Walk} (hflow : c.flow = .next)
    (hrest : s.resume depth bound c.active [] c.next = .ok rest) :
    WalkedFrom depth bound c (rest.mapBlock (.step (s.statement c).1 (s.statement c).2))
  | emptyArm {rest : Walk} (hflow : c.flow = .branch c.next)
    (hrest : s.resume depth bound c.active (s.popExpr c.active c.stack).2 c.next = .ok rest) :
    WalkedFrom depth bound c
      (rest.mapBlock (.chain (s.popExpr c.active c.stack).1 .done .done))
  | arm {target : Nat} {body rest : Walk} {arms : Arms} (hflow : c.flow = .branch target)
    (hforward : c.next < target) (hbody : s.block (depth + 1) target c.active c.next = .ok body)
    (harms : s.arms depth bound body.active (s.popExpr c.active c.stack).2 body.exit target =
      .ok (arms, rest)) :
    WalkedFrom depth bound c
      (rest.mapBlock (.chain (s.popExpr c.active c.stack).1 body.block arms))

/-- How the walk of further arms goes on behind a cut, if it comes to an end. -/
inductive ArmsWalkedFrom (depth bound exit : Nat) (c : Cut) : Arms × Walk → Prop where
  | jumped {target : Nat} {result : Arms × Walk} (hflow : c.flow = .jump target)
    (hresult : s.otherwise depth bound c.active c.stack id exit c.next = .ok result) :
    ArmsWalkedFrom depth bound exit c result
  | stepped {result : Arms × Walk} (hflow : c.flow = .ret ∨ c.flow = .next)
    (hresult : s.otherwise depth bound c.active [] (.step (s.statement c).1 (s.statement c).2) exit
      c.next = .ok result) :
    ArmsWalkedFrom depth bound exit c result
  | emptyElseIf {arms : Arms} {rest : Walk} (hflow : c.flow = .branch c.next)
    (harms : s.arms depth bound c.active (s.popExpr c.active c.stack).2 exit c.next =
      .ok (arms, rest)) :
    ArmsWalkedFrom depth bound exit c
      (.elseIf (s.popExpr c.active c.stack).1 .done arms, rest)
  | elseIf {target : Nat} {body rest : Walk} {arms : Arms} (hflow : c.flow = .branch target)
    (hforward : c.next < target) (hbody : s.block (depth + 1) target c.active c.next = .ok body)
    (harms : s.arms depth bound body.active (s.popExpr c.active c.stack).2 body.exit target =
      .ok (arms, rest)) :
    ArmsWalkedFrom depth bound exit c
      (.elseIf (s.popExpr c.active c.stack).1 body.block arms, rest)

/-- A walk behind a cut is of one of the listed forms. -/
theorem walkedFrom_of_afterCut {walk : Walk} (h : s.afterCut depth bound c = .ok walk) :
    s.WalkedFrom depth bound c walk := by
  cases hflow : c.flow with
  | jump target =>
    rw [afterCut_jump s hflow] at h
    cases h
    exact .jump hflow
  | ret =>
    rw [afterCut_ret s hflow] at h
    cases h
    exact .ret hflow
  | next =>
    rw [afterCut_next s hflow] at h
    obtain ⟨rest, hrest, rfl⟩ := exists_of_map_eq_ok h
    exact .next hflow hrest
  | branch target =>
    -- A branch that goes back is a fault, so it does not lead to a walk.
    rcases Nat.lt_trichotomy target c.next with hlt | rfl | hgt
    · simp [afterCut, hflow, hlt] at h
    · rw [afterCut_branch_empty s hflow rfl] at h
      obtain ⟨rest, hrest, rfl⟩ := exists_of_map_eq_ok h
      exact .emptyArm hflow hrest
    · rw [afterCut_branch s hflow hgt] at h
      obtain ⟨body, hbody, hmap⟩ := exists_of_bind_eq_ok h
      obtain ⟨⟨arms, rest⟩, harms, rfl⟩ := exists_of_map_eq_ok hmap
      exact .arm hflow hgt hbody harms

/-- A walk behind the cut of a further arm is of one of the listed forms. -/
theorem armsWalkedFrom_of_armAfterCut {result : Arms × Walk}
    (h : s.armAfterCut depth bound exit c = .ok result) :
    s.ArmsWalkedFrom depth bound exit c result := by
  cases hflow : c.flow with
  | jump target =>
    rw [armAfterCut_jump s hflow] at h
    exact .jumped hflow h
  | ret =>
    rw [armAfterCut_ret s hflow] at h
    exact .stepped (.inl hflow) h
  | next =>
    rw [armAfterCut_next s hflow] at h
    exact .stepped (.inr hflow) h
  | branch target =>
    -- As for blocks, a branch that goes back is a fault.
    rcases Nat.lt_trichotomy target c.next with hlt | rfl | hgt
    · simp [armAfterCut, hflow, hlt] at h
    · rw [armAfterCut_branch_empty s hflow rfl] at h
      obtain ⟨⟨arms, rest⟩, harms, rfl⟩ := exists_of_map_eq_ok h
      exact .emptyElseIf hflow harms
    · rw [armAfterCut_branch s hflow hgt] at h
      obtain ⟨body, hbody, hmap⟩ := exists_of_bind_eq_ok h
      obtain ⟨⟨arms, rest⟩, harms, rfl⟩ := exists_of_map_eq_ok hmap
      exact .elseIf hflow hgt hbody harms

/-- The arm without a condition goes on as a block up to its end. -/
theorem otherwise_of_lt {opening : Block → Block} (h : pc < exit) :
    s.otherwise depth bound active stack opening exit pc =
      s.block (depth + 1) exit active pc >>= fun body =>
        (fun rest => (.otherwise (opening body.block), rest)) <$>
          s.resume depth bound body.active stack exit := by
  rw [otherwise, if_pos h]
  cases s.block (depth + 1) exit active pc <;> rfl

/-- The arm without a condition has ended with its first statement. -/
theorem otherwise_of_le {opening : Block → Block} (h : exit ≤ pc) :
    s.otherwise depth bound active stack opening exit pc =
      (fun rest => (.otherwise (opening .done), rest)) <$>
        s.resume depth bound active stack pc := by
  rw [otherwise, if_neg (Nat.not_lt.mpr h)]

/-! ### Unused results -/

/-- An empty stack leaves nothing. -/
@[simp] theorem unwind_nil (active : Option UInt32) : s.unwind active [] = [] := by
  rw [unwind]

/-- The top of the stack is recovered first, and then what it leaves. -/
theorem unwind_cons (active : Option UInt32) (frame : Frame) (stack : List Frame) :
    s.unwind active (frame :: stack) =
      (s.recover active s.limit frame stack).1 ::
        s.unwind active (s.recover active s.limit frame stack).2 := by
  rw [unwind]

/-- Only an empty stack leaves nothing. -/
theorem unwind_eq_nil {active : Option UInt32} {stack : List Frame} :
    s.unwind active stack = [] ↔ stack = [] := by
  cases stack with
  | nil => simp
  | cons frame stack => simp [unwind_cons]

end Setting

end Daedalus
