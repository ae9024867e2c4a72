import Daedalus.Listing
import Daedalus.Proofs.Placement

/-! # Where a listing ends

A listing ends with the first return that no branch before it goes beyond. `Covered` says of a list
of operations that it has no such return, and `Script.listFrom_placed` that the listing then runs
over all of it.

An `Outline` is code whose branches all come from chains of conditional arms, laid out without gaps.
A branch over an arm goes at least to the end of the arm, so it covers the returns in there, at any
depth; and no branch leaves the code. So if the only return outside arms is the end of a function, just
the function is listed. -/

namespace Daedalus

open Text

/-! ### Returns and branches -/

/-- The instructions of a list of operations that stands in the code from `pc` on. -/
def instrsAt : Nat → List Operation → List Instr
  | _, [] => []
  | pc, op :: ops => ⟨pc, op⟩ :: instrsAt (pc + op.size) ops

/-- What stands behind other code starts where that code ends. -/
theorem instrsAt_append (pc : Nat) (left right : List Operation) :
    instrsAt pc (left ++ right) = instrsAt pc left ++ instrsAt (pc + byteSize left) right := by
  induction left generalizing pc with
  | nil => rfl
  | cons op left ih =>
    rw [List.cons_append, instrsAt, ih, instrsAt, List.cons_append, byteSize_cons, Nat.add_assoc]

/-- The address up to which a listing has to go on because of an operation. -/
def Operation.reach (op : Operation) : Nat := (op.branchTarget?.map UInt32.toNat).getD 0

/-- The address up to which a listing has to go on behind a list of operations. -/
def reachBehind (reach : Nat) : List Operation → Nat
  | [] => reach
  | op :: ops => reachBehind (max reach op.reach) ops

/-- No return of a list of operations, which stands in the code from `pc` on, ends beyond `reach`
and all branches before it. -/
def Covered : Nat → Nat → List Operation → Prop
  | _, _, [] => True
  | reach, pc, op :: ops =>
    (op = .ret → pc + op.size ≤ max reach op.reach) ∧
      Covered (max reach op.reach) (pc + op.size) ops

/-- The condition on a return concerns the branches before it and its own place. -/
theorem covered_cons {reach pc : Nat} {op : Operation} {ops : List Operation} :
    Covered reach pc (op :: ops) ↔
      (op = .ret → pc + op.size ≤ max reach op.reach) ∧
        Covered (max reach op.reach) (pc + op.size) ops := Iff.rfl

/-- Operations never take back how far a listing has to go. -/
theorem le_reachBehind (reach : Nat) (ops : List Operation) : reach ≤ reachBehind reach ops := by
  induction ops generalizing reach with
  | nil => exact Nat.le_refl _
  | cons op ops ih => exact Nat.le_trans (Nat.le_max_left _ _) (ih _)

/-- A listing goes on at least to the target of a branch that was met. -/
theorem reach_le_reachBehind {op : Operation} {ops : List Operation} (reach : Nat) (h : op ∈ ops) :
    op.reach ≤ reachBehind reach ops := by
  induction ops generalizing reach with
  | nil => cases h
  | cons first ops ih =>
    rcases List.mem_cons.mp h with rfl | h
    · exact Nat.le_trans (Nat.le_max_right _ _) (le_reachBehind _ _)
    · exact ih _ h

/-- What no branch goes beyond is not reached beyond. -/
theorem reachBehind_le {reach bound : Nat} {ops : List Operation} (hreach : reach ≤ bound)
    (hops : ∀ op ∈ ops, op.reach ≤ bound) : reachBehind reach ops ≤ bound := by
  induction ops generalizing reach with
  | nil => exact hreach
  | cons op ops ih =>
    exact ih (Nat.max_le.mpr ⟨hreach, hops op List.mem_cons_self⟩)
      fun op hop => hops op (List.mem_cons_of_mem _ hop)

/-- The second part is covered by the branches of the first one and its own. -/
theorem covered_append {reach pc : Nat} {left right : List Operation} :
    Covered reach pc (left ++ right) ↔
      Covered reach pc left ∧ Covered (reachBehind reach left) (pc + byteSize left) right := by
  induction left generalizing reach pc with
  | nil => simp [Covered, reachBehind]
  | cons op left ih => simp [Covered, reachBehind, ih, and_assoc, Nat.add_assoc]

/-- Whatever ends before a branch target that was met is covered. -/
theorem covered_of_le {reach pc : Nat} {ops : List Operation} (h : pc + byteSize ops ≤ reach) :
    Covered reach pc ops := by
  induction ops generalizing reach pc with
  | nil => trivial
  | cons op ops ih =>
    rw [byteSize_cons, ← Nat.add_assoc] at h
    have hreach : pc + op.size + byteSize ops ≤ max reach op.reach :=
      Nat.le_trans h (Nat.le_max_left _ _)
    exact ⟨fun _ => Nat.le_trans (Nat.le_add_right _ _) hreach, ih hreach⟩

/-- What has no returns is covered. -/
theorem covered_of_ne_ret {reach pc : Nat} {ops : List Operation} (h : ∀ op ∈ ops, op ≠ .ret) :
    Covered reach pc ops := by
  induction ops generalizing reach pc with
  | nil => trivial
  | cons op ops ih =>
    exact ⟨fun hop => absurd hop (h op List.mem_cons_self),
      ih fun op hop => h op (List.mem_cons_of_mem _ hop)⟩

namespace Script

variable {script : Script} {reach pc : Nat}

/-- One turn of a listing: it ends with the operation or goes on behind it. -/
theorem listFrom_of_decode {op : Operation} (h : decode script.code pc = .ok ⟨pc, op⟩)
    (before : Array Instr) :
    script.listFrom before reach pc =
      if op = .ret ∧ max reach op.reach < pc + op.size then .ok (before.push ⟨pc, op⟩)
      else script.listFrom (before.push ⟨pc, op⟩) (max reach op.reach) (pc + op.size) := by
  have hsize : pc < script.code.size :=
    Nat.lt_of_lt_of_le (lt_next_of_decode h) (next_le_of_decode h)
  rw [listFrom, if_pos hsize]
  split
  · next fault hfault => cases h.symm.trans hfault
  · next instr hinstr =>
    cases h.symm.trans hinstr
    rfl

/-- A listing runs over covered code. -/
theorem listFrom_placed {ops : List Operation} (hplaced : Placed script.code pc ops)
    (hcovered : Covered reach pc ops) (before : Array Instr) :
    script.listFrom before reach pc =
      script.listFrom (before ++ (instrsAt pc ops).toArray) (reachBehind reach ops)
        (pc + byteSize ops) := by
  induction ops generalizing before reach pc with
  | nil => simp [instrsAt, reachBehind]
  | cons op ops ih =>
    obtain ⟨hdecode, hplaced⟩ := hplaced
    obtain ⟨hret, hcovered⟩ := hcovered
    have hgoes : ¬(op = .ret ∧ max reach op.reach < pc + op.size) := fun h =>
      Nat.not_lt.mpr (hret h.1) h.2
    rw [listFrom_of_decode hdecode, if_neg hgoes, ih hplaced hcovered]
    simp [instrsAt, reachBehind, Nat.add_assoc]

/-- A listing ends at a return that no branch before it goes beyond. -/
theorem listFrom_ret (hdecode : decode script.code pc = .ok ⟨pc, .ret⟩) (hreach : reach ≤ pc)
    (before : Array Instr) :
    script.listFrom before reach pc = .ok (before.push ⟨pc, .ret⟩) := by
  have hends : max reach (Operation.reach .ret) < pc + Operation.size .ret :=
    Nat.lt_of_le_of_lt (Nat.max_le.mpr ⟨hreach, Nat.zero_le _⟩)
      (Nat.lt_add_of_pos_right (Operation.size_pos _))
  rw [listFrom_of_decode hdecode, if_pos ⟨rfl, hends⟩]

/-- There is nothing to list behind the code. -/
theorem listFrom_of_size_le (h : script.code.size ≤ pc) (before : Array Instr) :
    script.listFrom before reach pc = .ok before := by
  rw [listFrom, if_neg (Nat.not_lt.mpr h)]

/-- A listing fails where the code cannot be decoded. -/
theorem listFrom_of_error {fault : Fault} (h : decode script.code pc = .error fault)
    (hsize : pc < script.code.size) (before : Array Instr) :
    script.listFrom before reach pc = .error fault := by
  rw [listFrom, if_pos hsize]
  split
  · next fault' hfault =>
    cases h.symm.trans hfault
    rfl
  · next instr hinstr => cases h.symm.trans hinstr

end Script

/-! ### Code under a condition -/

/-- Code that is run if a condition holds: the condition, a jump over the code, and the code. -/
def guarded (pc : Nat) (condition body : List Operation) : List Operation :=
  condition ++ .jumpIfZero (UInt32.ofNat (pc + byteSize condition + 5 + byteSize body)) :: body

/-- Code that is run if a condition holds, and behind a jump over it, code that is run if not. -/
def alternative (pc : Nat) (condition body other : List Operation) : List Operation :=
  let next := pc + byteSize condition + 5 + (byteSize body + 5)
  guarded pc condition (body ++ [.jump (UInt32.ofNat (next + byteSize other))]) ++ other

/-- A jump takes five bytes. -/
@[simp] theorem Operation.size_jump (target : UInt32) : (jump target).size = 5 := rfl

section Condition

variable {pc : Nat} {condition body other : List Operation}

/-- The condition, its jump and the body. -/
@[simp] theorem byteSize_guarded :
    byteSize (guarded pc condition body) = byteSize condition + 5 + byteSize body := by
  simp [guarded, Nat.add_assoc]

/-- The condition, its jump, the body with the jump behind it, and the other arm. -/
@[simp] theorem byteSize_alternative :
    byteSize (alternative pc condition body other) =
      byteSize condition + 5 + (byteSize body + 5) + byteSize other := by
  simp [alternative]

/-- A listing goes on up to the target of a conditional jump. -/
theorem reach_jumpIfZero {target : Nat} (h : target < UInt32.size) :
    Operation.reach (.jumpIfZero (UInt32.ofNat target)) = target :=
  UInt32.toNat_ofNat_of_lt' h

/-- A listing goes on up to the target of a jump. -/
theorem reach_jump {target : Nat} (h : target < UInt32.size) :
    Operation.reach (.jump (UInt32.ofNat target)) = target :=
  UInt32.toNat_ofNat_of_lt' h

/-- The jump over code that is run under a condition covers every return in there. -/
theorem covered_guarded (reach : Nat) (hcondition : ∀ op ∈ condition, op ≠ .ret)
    (hsize : pc + byteSize (guarded pc condition body) < UInt32.size) :
    Covered reach pc (guarded pc condition body) := by
  rw [byteSize_guarded, ← Nat.add_assoc, ← Nat.add_assoc] at hsize
  rw [guarded, covered_append, covered_cons, reach_jumpIfZero hsize]
  exact ⟨covered_of_ne_ret hcondition, fun h => (nomatch h), covered_of_le (Nat.le_max_right _ _)⟩

/-- The jump over the other code covers every return in there. -/
theorem covered_alternative (reach : Nat) (hcondition : ∀ op ∈ condition, op ≠ .ret)
    (hsize : pc + byteSize (alternative pc condition body other) < UInt32.size) :
    Covered reach pc (alternative pc condition body other) := by
  rw [byteSize_alternative] at hsize
  have hstop :
      pc + byteSize condition + 5 + (byteSize body + 5) + byteSize other < UInt32.size := by
    omega
  rw [alternative, covered_append]
  constructor
  · refine covered_guarded reach hcondition ?_
    simp only [byteSize_guarded, byteSize_append, byteSize_cons, byteSize_nil, Operation.size_jump]
    omega
  · -- The jump is the last operation before the other code.
    have hmem (stop : UInt32) :
        .jump stop ∈ guarded pc condition (body ++ [.jump stop]) :=
      List.mem_append_right _ (List.mem_cons_of_mem _ List.mem_concat_self)
    have hjump := reach_le_reachBehind reach (hmem (UInt32.ofNat
      (pc + byteSize condition + 5 + (byteSize body + 5) + byteSize other)))
    rw [reach_jump hstop] at hjump
    refine covered_of_le (Nat.le_trans ?_ hjump)
    simp only [byteSize_guarded, byteSize_append, byteSize_cons, byteSize_nil, Operation.size_jump]
    omega

/-- The jump over code that is run under a condition goes to its end. -/
theorem reach_of_mem_guarded {bound : Nat} (hcondition : ∀ op ∈ condition, op.reach = 0)
    (hbody : ∀ op ∈ body, op.reach ≤ bound)
    (hbound : pc + byteSize (guarded pc condition body) ≤ bound) :
    ∀ op ∈ guarded pc condition body, op.reach ≤ bound := by
  intro op hop
  rw [byteSize_guarded, ← Nat.add_assoc, ← Nat.add_assoc] at hbound
  rcases List.mem_append.mp hop with hop | hop
  · exact hcondition op hop ▸ Nat.zero_le _
  · rcases List.mem_cons.mp hop with rfl | hop
    · exact Nat.le_trans (Nat.mod_le _ _) hbound
    · exact hbody op hop

/-- Both jumps stay inside. -/
theorem reach_of_mem_alternative {bound : Nat} (hcondition : ∀ op ∈ condition, op.reach = 0)
    (hbody : ∀ op ∈ body, op.reach ≤ bound) (hother : ∀ op ∈ other, op.reach ≤ bound)
    (hbound : pc + byteSize (alternative pc condition body other) ≤ bound) :
    ∀ op ∈ alternative pc condition body other, op.reach ≤ bound := by
  intro op hop
  rw [byteSize_alternative, ← Nat.add_assoc, ← Nat.add_assoc, ← Nat.add_assoc] at hbound
  rcases List.mem_append.mp hop with hop | hop
  · refine reach_of_mem_guarded hcondition (fun op hop => ?_) (Nat.le_trans ?_ hbound) op hop
    · rcases List.mem_append.mp hop with hop | hop
      · exact hbody op hop
      · obtain rfl := List.mem_singleton.mp hop
        exact Nat.le_trans (Nat.mod_le _ _) hbound
    · simp [← Nat.add_assoc]
  · exact hother op hop

end Condition

/-! ### Outlines -/

/-- An operation that hands control on to what stands behind it: neither a branch nor a return. -/
structure PlainOp where
  op : Operation
  noBranch : op.branchTarget? = none
  noReturn : op ≠ .ret

/-- A listing does not have to go on because of an operation without a target. -/
theorem PlainOp.reach_op (plain : PlainOp) : plain.op.reach = 0 := by
  rw [Operation.reach, plain.noBranch]
  rfl

/-- The operations of a condition. -/
def conditionCode (condition : List PlainOp) : List Operation := condition.map PlainOp.op

/-- A listing does not have to go on because of a condition. -/
theorem reach_conditionCode (condition : List PlainOp) :
    ∀ op ∈ conditionCode condition, op.reach = 0 := by
  intro op hop
  obtain ⟨plain, -, rfl⟩ := List.mem_map.mp hop
  exact plain.reach_op

/-- There is no return within a condition. -/
theorem conditionCode_ne_ret (condition : List PlainOp) :
    ∀ op ∈ conditionCode condition, op ≠ .ret := by
  intro op hop
  obtain ⟨plain, -, rfl⟩ := List.mem_map.mp hop
  exact plain.noReturn

mutual
/-- Code whose branches come from chains of conditional arms. -/
inductive Outline where
  /-- The end of the code. -/
  | done
  /-- Part of a statement. -/
  | plain (op : PlainOp) (rest : Outline)
  /-- A return, with dead code behind it. -/
  | ret (rest : Outline)
  /-- A chain of arms. -/
  | chain (arms : OutlineArms) (rest : Outline)
/-- The arms of a chain, of which the first one has a condition. -/
inductive OutlineArms where
  /-- A single arm. -/
  | only (condition : List PlainOp) (body : Outline)
  /-- An arm and a last one without a condition. -/
  | orElse (condition : List PlainOp) (body other : Outline)
  /-- An arm and further ones. -/
  | orIf (condition : List PlainOp) (body : Outline) (arms : OutlineArms)
end

mutual
/-- The number of bytes of the code of an outline. -/
def Outline.size : Outline → Nat
  | .done => 0
  | .plain plain rest => plain.op.size + rest.size
  | .ret rest => Operation.size .ret + rest.size
  | .chain arms rest => arms.size + rest.size
/-- The number of bytes of the code of the arms of a chain. -/
def OutlineArms.size : OutlineArms → Nat
  | .only condition body => byteSize (conditionCode condition) + 5 + body.size
  | .orElse condition body other =>
    byteSize (conditionCode condition) + 5 + (body.size + 5) + other.size
  | .orIf condition body arms =>
    byteSize (conditionCode condition) + 5 + (body.size + 5) + arms.size
end

mutual
/-- The code of an outline that starts at `pc`. -/
def Outline.code (pc : Nat) : Outline → List Operation
  | .done => []
  | .plain plain rest => plain.op :: rest.code (pc + plain.op.size)
  | .ret rest => .ret :: rest.code (pc + Operation.size .ret)
  | .chain arms rest => arms.code pc ++ rest.code (pc + arms.size)
/-- The code of the arms of a chain that starts at `pc`. Each condition is followed by a jump to the
next arm, and each arm that another one follows by a jump to the end of the chain. -/
def OutlineArms.code (pc : Nat) : OutlineArms → List Operation
  | .only condition body =>
    let start := pc + byteSize (conditionCode condition) + 5
    guarded pc (conditionCode condition) (body.code start)
  | .orElse condition body other =>
    let start := pc + byteSize (conditionCode condition) + 5
    alternative pc (conditionCode condition) (body.code start)
      (other.code (start + (body.size + 5)))
  | .orIf condition body arms =>
    let start := pc + byteSize (conditionCode condition) + 5
    alternative pc (conditionCode condition) (body.code start) (arms.code (start + (body.size + 5)))
end

mutual
/-- The code of an outline takes as many bytes as the outline says. -/
@[simp] theorem Outline.byteSize_code :
    ∀ (o : Outline) (pc : Nat), byteSize (o.code pc) = o.size
  | .done, _ => rfl
  | .plain _ rest, _ => by simp [Outline.code, Outline.size, rest.byteSize_code]
  | .ret rest, _ => by simp [Outline.code, Outline.size, rest.byteSize_code]
  | .chain arms rest, _ => by
    simp [Outline.code, Outline.size, arms.byteSize_code, rest.byteSize_code]
/-- The same for the arms of a chain. -/
@[simp] theorem OutlineArms.byteSize_code :
    ∀ (a : OutlineArms) (pc : Nat), byteSize (a.code pc) = a.size
  | .only _ body, _ => by simp [OutlineArms.code, OutlineArms.size, body.byteSize_code]
  | .orElse _ body other, _ => by
    simp [OutlineArms.code, OutlineArms.size, body.byteSize_code, other.byteSize_code]
  | .orIf _ body arms, _ => by
    simp [OutlineArms.code, OutlineArms.size, body.byteSize_code, arms.byteSize_code]
end

mutual
/-- No branch of an outline goes beyond its end. -/
theorem Outline.reach_le : ∀ (o : Outline) (pc bound : Nat), pc + o.size ≤ bound →
    ∀ op ∈ o.code pc, op.reach ≤ bound
  | .done, _, _, _, _, hop => nomatch hop
  | .plain plain rest, pc, bound, hbound, op, hop => by
    rw [Outline.size, ← Nat.add_assoc] at hbound
    rcases List.mem_cons.mp hop with rfl | hop
    · exact plain.reach_op ▸ Nat.zero_le _
    · exact rest.reach_le _ _ hbound op hop
  | .ret rest, pc, bound, hbound, op, hop => by
    rw [Outline.size, ← Nat.add_assoc] at hbound
    rcases List.mem_cons.mp hop with rfl | hop
    · exact Nat.zero_le _
    · exact rest.reach_le _ _ hbound op hop
  | .chain arms rest, pc, bound, hbound, op, hop => by
    rw [Outline.size, ← Nat.add_assoc] at hbound
    -- An operation of the chain, or of what follows it.
    rcases List.mem_append.mp hop with hop | hop
    · exact arms.reach_le _ _ (Nat.le_trans (Nat.le_add_right _ _) hbound) op hop
    · exact rest.reach_le _ _ hbound op hop
/-- No branch of the arms of a chain goes beyond their end. -/
theorem OutlineArms.reach_le : ∀ (a : OutlineArms) (pc bound : Nat), pc + a.size ≤ bound →
    ∀ op ∈ a.code pc, op.reach ≤ bound
  | .only condition body, pc, bound, hbound, op, hop => by
    -- The jump of the condition goes to the end of the arm, which is within the bound.
    refine reach_of_mem_guarded (reach_conditionCode condition)
      (body.reach_le _ _ (Nat.le_trans (Nat.le_of_eq ?_) hbound)) ?_ op hop
    · simp only [OutlineArms.size, Nat.add_assoc]
    · rwa [byteSize_guarded, body.byteSize_code]
  | .orElse condition body other, pc, bound, hbound, op, hop => by
    refine reach_of_mem_alternative (reach_conditionCode condition)
      (body.reach_le _ _ (Nat.le_trans ?_ hbound))
      (other.reach_le _ _ (Nat.le_trans (Nat.le_of_eq ?_) hbound)) ?_ op hop
    · simp only [OutlineArms.size]
      omega
    · simp only [OutlineArms.size, Nat.add_assoc]
    · rwa [byteSize_alternative, body.byteSize_code, other.byteSize_code]
  | .orIf condition body arms, pc, bound, hbound, op, hop => by
    refine reach_of_mem_alternative (reach_conditionCode condition)
      (body.reach_le _ _ (Nat.le_trans ?_ hbound))
      (arms.reach_le _ _ (Nat.le_trans (Nat.le_of_eq ?_) hbound)) ?_ op hop
    · simp only [OutlineArms.size]
      omega
    · simp only [OutlineArms.size, Nat.add_assoc]
    · rwa [byteSize_alternative, body.byteSize_code, arms.byteSize_code]
end

/-- Every return in the arms of a chain is covered by a branch of the chain. -/
theorem OutlineArms.covered {a : OutlineArms} {pc : Nat} (hsize : pc + a.size < UInt32.size)
    (reach : Nat) : Covered reach pc (a.code pc) := by
  rw [← a.byteSize_code pc] at hsize
  cases a with
  | only condition body => exact covered_guarded reach (conditionCode_ne_ret condition) hsize
  | orElse condition body other =>
    exact covered_alternative reach (conditionCode_ne_ret condition) hsize
  | orIf condition body arms =>
    exact covered_alternative reach (conditionCode_ne_ret condition) hsize

namespace Outline

/-- Whether all returns are inside arms. -/
def returnsInArms : Outline → Bool
  | .done => true
  | .plain _ rest => rest.returnsInArms
  | .ret _ => false
  | .chain _ rest => rest.returnsInArms

/-- The code of a function that starts at `pc`: an outline and the final return. -/
def function (pc : Nat) (o : Outline) : List Operation := o.code pc ++ [.ret]

/-- If all returns are inside arms, they are covered by branches of their chains. -/
theorem covered : ∀ {o : Outline} {pc : Nat}, o.returnsInArms = true →
    pc + o.size < UInt32.size → ∀ reach, Covered reach pc (o.code pc)
  | .done, _, _, _, _ => trivial
  | .plain part rest, _, hreturns, hsize, reach => by
    rw [size, ← Nat.add_assoc] at hsize
    exact ⟨fun h => absurd h part.noReturn, covered (o := rest) hreturns hsize _⟩
  | .chain arms rest, pc, hreturns, hsize, reach => by
    rw [size, ← Nat.add_assoc] at hsize
    have harms : pc + arms.size < UInt32.size := Nat.lt_of_le_of_lt (Nat.le_add_right _ _) hsize
    rw [code, covered_append, arms.byteSize_code]
    exact ⟨OutlineArms.covered harms reach, covered (o := rest) hreturns hsize _⟩

/-- A listing of a function ends with its last return. No branch goes beyond it, and the returns before
it are covered. -/
theorem listed_function {script : Script} {sym : Symbol} {o : Outline} (hreturns : o.returnsInArms = true)
    (hplaced : Placed script.code sym.address.toNat (o.function sym.address.toNat))
    (hsize : sym.address.toNat + byteSize (o.function sym.address.toNat) < UInt32.size) :
    script.listed sym = .ok (instrsAt sym.address.toNat (o.function sym.address.toNat)) := by
  obtain ⟨hbody, hret, -⟩ := (placed_append _ _ _ _).mp hplaced
  rw [byteSize_code] at hret
  have hfits : sym.address.toNat + o.size < UInt32.size := by
    rw [function, byteSize_append, byteSize_code, ← Nat.add_assoc] at hsize
    exact Nat.lt_of_le_of_lt (Nat.le_add_right _ _) hsize
  have hreach : reachBehind sym.address.toNat (o.code sym.address.toNat) ≤
      sym.address.toNat + o.size :=
    reachBehind_le (Nat.le_add_right _ _) (o.reach_le _ _ (Nat.le_refl _))
  rw [Script.listed, Script.listFrom_placed hbody (covered hreturns hfits _), byteSize_code,
    Script.listFrom_ret hret hreach, function, instrsAt_append, byteSize_code]
  exact congrArg Except.ok (by simp [instrsAt])

end Outline

end Daedalus
