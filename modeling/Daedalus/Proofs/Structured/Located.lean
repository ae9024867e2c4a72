import Daedalus.Proofs.Structured.Shape
import Daedalus.Proofs.Walk

/-! # Structured programs in a code segment

`Program.At` says that the code of a program stands at a position of the code segment, within a
bound. It is inherited by the parts of the program. For each kind of statement this module tells
what `cut` gives where the statement stands, with any operands on the stack from before. -/

namespace Daedalus.Structured

/-! ### Positions of programs -/

/-- The code of a program stands at `pc` and ends within the bound, and the program is what its
place asks for. -/
structure Program.At (s : Setting) (depth bound pc : Nat) (p : Program) : Prop where
  placed : Placed s.script.code pc (p.code pc)
  fits : p.Fits s depth
  le_bound : pc + p.size ≤ bound
  bound_lt : bound < UInt32.size

/-- The code of the further arms of a chain stands at `pc` and ends within the bound, and the arms
are what their places ask for. -/
structure Branches.At (s : Setting) (depth bound pc : Nat) (b : Branches) : Prop where
  placed : Placed s.script.code pc (b.code pc)
  fits : b.Fits s depth
  le_bound : pc + b.size ≤ bound
  bound_lt : bound < UInt32.size

/-- Where the first arm of a chain has its body. -/
def armStart (pc : Nat) (condition : Term) : Nat := pc + byteSize condition.code + 5

/-- Where the arm behind the first one starts, or else the chain ends. -/
def armNext (pc : Nat) (condition : Term) (body : Program) (arms : Branches) : Nat :=
  armStart pc condition + body.size + arms.leaveSize

variable {s : Setting} {depth bound pc : Nat} {active : Option UInt32} {stack : List Frame}

namespace Program.At

/-- A statement in front of the rest of a sequence. -/
theorem step {st : Statement} {rest : Program} (h : (Program.step st rest).At s depth bound pc) :
    Placed s.script.code pc st.code ∧ st.Fits s ∧
      rest.At s depth bound (pc + byteSize st.code) := by
  obtain ⟨hplaced, hfits, hle, hlt⟩ := h
  rw [Program.code, placed_append] at hplaced
  rw [Program.size, ← Nat.add_assoc] at hle
  exact ⟨hplaced.1, hfits.1, hplaced.2, hfits.2, hle, hlt⟩

/-- A chain in front of the rest of a sequence. -/
theorem chain {condition : Term} {body rest : Program} {arms : Branches}
    (h : (Program.chain condition body arms rest).At s depth bound pc) :
    (Branches.elseIf condition body arms).At s depth bound pc ∧
      rest.At s depth bound (pc + (Branches.elseIf condition body arms).size) := by
  obtain ⟨hplaced, ⟨hcondition, hheight, hbody, harms, hrest⟩, hle, hlt⟩ := h
  rw [Program.code_chain, placed_append, Branches.byteSize_code] at hplaced
  rw [Program.size_chain, ← Nat.add_assoc] at hle
  exact ⟨⟨hplaced.1, ⟨hcondition, hheight, hbody, harms⟩, by omega, hlt⟩, hplaced.2, hrest, hle, hlt⟩

/-- A sequence stands within every bound behind its end. -/
theorem within {p : Program} {bound' : Nat} (h : p.At s depth bound pc)
    (hend : pc + p.size ≤ bound') (hle : bound' ≤ bound) : p.At s depth bound' pc :=
  ⟨h.placed, h.fits, hend, Nat.lt_of_le_of_lt hle h.bound_lt⟩

end Program.At

/-- Further arms may stand less deep. -/
theorem Branches.At.mono {b : Branches} {depth' : Nat} (h : b.At s depth bound pc)
    (hle : depth' ≤ depth) : b.At s depth' bound pc :=
  ⟨h.placed, h.fits.mono hle, h.le_bound, h.bound_lt⟩

/-- What stands behind a sequence that does not end with a return: the end of the block if `tail`
holds, and otherwise the jump that closes the block. -/
def Closed (script : Script) (bound stop : Nat) (tail : Bool) : Prop :=
  if tail then stop = bound
  else ∃ target, decode script.code stop = .ok ⟨stop, .jump target⟩ ∧ stop + 5 = bound

/-- What stands behind a sequence that ends its block. -/
theorem Closed.of_tail {script : Script} {stop : Nat} (h : stop = bound) :
    Closed script bound stop true := h

/-- Nothing stands at the bound of a block, and the walk stops there. -/
theorem Program.At.done_of_eq_bound {p : Program} {tail : Bool} (h : p.At s depth bound pc)
    (hstop : pc = bound) (hclosed : p.returns = false → Closed s.script bound (pc + p.size) tail) :
    p = .done ∧ tail = true := by
  obtain rfl : p = .done := eq_done_of_size (by have := h.le_bound; omega)
  refine ⟨rfl, ?_⟩
  cases tail with
  | true => rfl
  | false =>
    obtain ⟨target, -, hjump⟩ := hclosed rfl
    rw [size] at hjump
    omega

/-- Where a block is left whose statements end at `stop`. -/
def exitAt (script : Script) (bound stop : Nat) : Nat :=
  if bound ≤ stop then stop else script.exitAfterReturn bound stop

/-- A block that goes up to its bound is left where its statements end. -/
theorem exitAt_of_le {script : Script} {stop : Nat} (h : bound ≤ stop) :
    exitAt script bound stop = stop := if_pos h

/-- A block is left for the target of the jump that closes it. -/
theorem exitAt_of_jump {script : Script} {stop : Nat} {target : UInt32}
    (hjump : decode script.code stop = .ok ⟨stop, .jump target⟩) (hbound : stop + 5 = bound) :
    exitAt script bound stop = target.toNat := by
  rw [exitAt, if_neg (by omega), Script.exitAfterReturn, Script.instrAt, hjump]
  exact if_pos hbound

/-! ### Arms of a chain -/

/-- Where no jump stands behind a body, no arm follows. -/
theorem Branches.eq_done_of_leaveSize {b : Branches} (h : b.leaveSize = 0) : b = .done := by
  cases b with
  | done => rfl
  | _ => cases h

namespace Branches

variable {condition : Term} {body : Program} {arms : Branches}

/-- An arm stands where its condition, its body, the jump behind that and the arms behind it stand.
-/
theorem placed_elseIf {code : Code} :
    Placed code pc ((Branches.elseIf condition body arms).code pc) ↔
      Placed code pc
          (condition.code ++ [.jumpIfZero (UInt32.ofNat (armNext pc condition body arms))]) ∧
        Placed code (armStart pc condition) (body.code (armStart pc condition)) ∧
        Placed code (armStart pc condition + body.size)
          (arms.leave (armNext pc condition body arms + arms.size)) ∧
        Placed code (armNext pc condition body arms)
          (arms.code (armNext pc condition body arms)) := by
  simp only [Branches.code, armNext, armStart, placed_append, byteSize_append, byteSize_cons,
    byteSize_nil, Operation.size_jumpIfZero, Program.byteSize_code, byteSize_leave, Nat.add_zero,
    Nat.add_assoc, and_assoc]

/-- A chain ends where the arms behind its first one end. -/
theorem end_elseIf (pc : Nat) (condition : Term) (body : Program) (arms : Branches) :
    pc + (Branches.elseIf condition body arms).size =
      armNext pc condition body arms + arms.size := by
  simp only [Branches.size, armNext, armStart]
  omega

/-- If the walk stops behind a sequence that ends with a chain, it stops behind the chain. -/
theorem stop_eq_bound {rest : Program} {tail : Bool}
    (hclosed : rest.returns = false → Closed s.script bound
      (pc + (Branches.elseIf condition body arms).size + rest.size) tail)
    (htail : (tail && rest.isDone) = true) : armNext pc condition body arms + arms.size = bound := by
  rw [Bool.and_eq_true] at htail
  obtain ⟨rfl, hdone⟩ := htail
  obtain rfl := Program.eq_done_of_isDone hdone
  rw [← end_elseIf]
  exact hclosed rfl

variable (h : (Branches.elseIf condition body arms).At s depth bound pc)
include h

/-- The arms behind the first one end within the bound. -/
theorem At.next_le : armNext pc condition body arms + arms.size ≤ bound := by
  rw [← end_elseIf]
  exact h.le_bound

/-- The body of the first arm stands where the arm has it, one level down, and ends where the next
arm starts. -/
theorem At.bodyAt : body.At s (depth + 1) (armNext pc condition body arms) (armStart pc condition) :=
  ⟨(placed_elseIf.mp h.placed).2.1, h.fits.2.2.1, Nat.le_add_right _ _,
    Nat.lt_of_le_of_lt (Nat.le_trans (Nat.le_add_right _ _) h.next_le) h.bound_lt⟩

/-- The arms behind the first one stand where it says. -/
theorem At.armsAt : arms.At s depth bound (armNext pc condition body arms) :=
  ⟨(placed_elseIf.mp h.placed).2.2.2, h.fits.2.2.2, h.next_le, h.bound_lt⟩

/-- The body of an arm is closed by a jump if another arm follows. -/
theorem At.closed_body :
    Closed s.script (armNext pc condition body arms) (armStart pc condition + body.size)
      arms.isDone := by
  cases hdone : arms.isDone with
  | true => simp [Closed, armNext, leaveSize, hdone]
  | false =>
    -- Another arm follows, so the first operation behind the body is the jump over it.
    have hleave := (placed_elseIf.mp h.placed).2.2.1
    simp only [leave, hdone, Bool.false_eq_true, if_false, placed_cons] at hleave
    exact ⟨_, hleave.1, by simp [armNext, leaveSize, hdone]⟩

/-- All bodies of a chain are left for the end of the chain. -/
theorem At.exitAt_body :
    exitAt s.script (armNext pc condition body arms) (armStart pc condition + body.size) =
      armNext pc condition body arms + arms.size := by
  cases hdone : arms.isDone with
  | true =>
    -- The last arm runs into the end of the chain.
    have hsize : arms.size = 0 := by
      rw [eq_done_of_isDone hdone]
      rfl
    rw [exitAt_of_le (by simp [armNext, leaveSize, hdone])]
    simp [armNext, leaveSize, hdone, hsize]
  | false =>
    -- The jump goes to the end of the chain, which lies below the bound of all positions.
    have hleave := (placed_elseIf.mp h.placed).2.2.1
    simp only [leave, hdone, Bool.false_eq_true, if_false, placed_cons] at hleave
    rw [exitAt_of_jump hleave.1 (by simp [armNext, leaveSize, hdone])]
    exact UInt32.toNat_ofNat_of_lt' (Nat.lt_of_le_of_lt h.next_le h.bound_lt)

end Branches

/-! ### Cutting off statements -/

/-- **A statement that is cut off.** Where operands stand in front of an operation that makes `e` of
them, the cut gives `e`, together with all that was left on the stack from before. -/
theorem Reads.exists_cut {operands : List Operation} {root : Operation} {e : Expr}
    (hreads : Reads (s.recover active s.limit) operands root e)
    (hoperands : ∀ op ∈ operands, s.script.Collects op)
    (hplaced : Placed s.script.code pc (operands ++ [root]))
    (hactivate : root.activate active = active) (hle : pc + byteSize (operands ++ [root]) ≤ bound)
    (hend : s.script.endsStatement root = true ∨ pc + byteSize (operands ++ [root]) = bound)
    (stack : List Frame) :
    ∃ c, s.script.cut bound active stack pc = .ok c ∧
      c.next = pc + byteSize (operands ++ [root]) ∧ c.flow = root.flow ∧ c.active = active ∧
      s.statement c = (e, s.unwind active stack) := by
  have hsize : byteSize (operands ++ [root]) = byteSize operands + root.size := by simp
  have hpos := root.size_pos
  rw [hsize] at hle hend ⊢
  refine ⟨_, cut_statement hoperands hplaced hactivate (by omega) (hend.imp id (by omega)),
    Nat.add_assoc _ _ _, rfl, rfl, ?_⟩
  -- The operands that were just cut off are taken, and all that lies below them is unused.
  have hroot := hreads ⟨⟨pc + byteSize operands, root⟩, active⟩ (framesAt active pc operands) stack
    rfl (operations_framesAt active pc operands)
  simp only [Setting.statement, Cut.active, hroot]

/-- The unused result of an expression is found on top of the stack. -/
theorem Reads.unwind {operands : List Operation} {root : Operation} {e : Expr}
    (hreads : Reads (s.recover active s.limit) operands root e) {frames : List Frame}
    (hframes : operations frames = operands ++ [root]) :
    s.unwind active (frames.reverse ++ stack) = e :: s.unwind active stack := by
  obtain ⟨below, frame, rfl, hbelow, hframe⟩ := exists_concat_of_operations hframes
  rw [List.reverse_append, List.reverse_singleton, List.singleton_append, List.cons_append,
    s.unwind_cons, hreads frame below stack hframe hbelow]

/-- The condition of an arm is cut off with the branch behind it, and leaves the stack as it was. -/
theorem exists_cut_condition {condition : Term} {target : UInt32}
    (hfits : condition.Fits s.script) (hheight : condition.height ≤ s.limit)
    (hplaced : Placed s.script.code pc (condition.code ++ [.jumpIfZero target]))
    (hle : pc + byteSize condition.code + 5 ≤ bound) (active : Option UInt32) (stack : List Frame) :
    ∃ c, s.script.cut bound active stack pc = .ok c ∧ c.next = armStart pc condition ∧
      c.flow = .branch target.toNat ∧ c.active = active ∧
      s.popExpr active c.stack = (condition.expr s.script, stack) := by
  refine ⟨_, cut_statement (Term.collects hfits) hplaced rfl (by omega) (.inl rfl), rfl, rfl, rfl,
    ?_⟩
  have hread : Reads (s.recover active s.limit) condition.operands condition.root
      (condition.expr s.script) := Term.reads_recover s hfits hheight
  exact hread.pop stack (by rw [operations_framesAt, Term.code_eq])

/-- An arm ends behind its condition. -/
theorem armStart_le_armNext (pc : Nat) (condition : Term) (body : Program) (arms : Branches) :
    armStart pc condition ≤ armNext pc condition body arms := by
  rw [armNext]
  omega

/-- What follows an empty chain in a sequence starts where the next arm would. -/
theorem Program.size_passed (pc : Nat) (condition : Term) (more : Program) :
    pc + (Program.chain condition .done .done more).size =
      armNext pc condition .done .done + more.size := by
  simp only [size_chain, ← Nat.add_assoc, Branches.end_elseIf]
  rfl

/-- The next arm stands behind the start of the chain. -/
theorem lt_armNext (pc : Nat) (condition : Term) (body : Program) (arms : Branches) :
    pc < armNext pc condition body arms := by
  simp only [armNext, armStart]
  omega

/-- A chain ends behind its start. -/
theorem lt_stop (pc : Nat) (condition : Term) (body : Program) (arms : Branches) :
    pc < armNext pc condition body arms + arms.size :=
  Nat.lt_of_lt_of_le (lt_armNext ..) (Nat.le_add_right _ _)

/-- The first statement of an arm is its condition, with a branch to the next arm. -/
theorem Branches.At.exists_cut {condition : Term} {body : Program} {arms : Branches}
    (h : (Branches.elseIf condition body arms).At s depth bound pc) (active : Option UInt32)
    (stack : List Frame) :
    ∃ c, s.script.cut bound active stack pc = .ok c ∧ c.next = armStart pc condition ∧
      c.flow = .branch (armNext pc condition body arms) ∧ c.active = active ∧
      s.popExpr active c.stack = (condition.expr s.script, stack) := by
  have hnext := h.next_le
  have hstart := armStart_le_armNext pc condition body arms
  -- The target is read back from four bytes, so it has to be a position that fits in them.
  have hlt : armNext pc condition body arms < UInt32.size :=
    Nat.lt_of_le_of_lt (Nat.le_trans (Nat.le_add_right _ _) hnext) h.bound_lt
  have hle : pc + byteSize condition.code + 5 ≤ bound := by
    rw [armStart] at hstart
    omega
  have hcut := exists_cut_condition h.fits.1 h.fits.2.1 (Branches.placed_elseIf.mp h.placed).1 hle
    active stack
  rwa [UInt32.toNat_ofNat_of_lt' hlt] at hcut

/-! ### Walking an arm -/

section Arm

variable {condition : Term} {body : Program} {arms : Branches}
  (h : (Branches.elseIf condition body arms).At s depth bound pc) (active : Option UInt32)
  (stack : List Frame)
include h

/-- Further arms start before the bound. -/
theorem Branches.At.lt_bound : pc < bound :=
  Nat.lt_of_lt_of_le (lt_stop pc condition body arms) h.next_le

/-- **Walking an arm.** The body of an arm is walked up to the next arm, whether the arm starts a chain
or follows another one. An empty body is walked in no step, and only the last arm ends where it
starts. -/
theorem Branches.At.exists_cut_arm :
    ∃ c, s.script.cut bound active stack pc = .ok c ∧
      s.afterCut depth bound c =
        (s.resume (depth + 1) (armNext pc condition body arms) active [] (armStart pc condition) >>=
          fun walk =>
            (fun more => more.2.mapBlock (.chain (condition.expr s.script) walk.block more.1)) <$>
              s.arms depth bound walk.active stack walk.exit (armNext pc condition body arms)) ∧
      s.armAfterCut depth bound (armNext pc condition body arms + arms.size) c =
        (s.resume (depth + 1) (armNext pc condition body arms) active [] (armStart pc condition) >>=
          fun walk =>
            (fun more => (.elseIf (condition.expr s.script) walk.block more.1, more.2)) <$>
              s.arms depth bound walk.active stack walk.exit
                (armNext pc condition body arms)) := by
  obtain ⟨c, hcut, hnext, hflow, hactive, hcondition⟩ := h.exists_cut active stack
  refine ⟨c, hcut, ?_⟩
  rcases Nat.eq_or_lt_of_le (armStart_le_armNext pc condition body arms) with hempty | hlt
  · -- An empty body closed by a jump would not be empty in the code, so no arm follows.
    have hdone : arms = .done :=
      Branches.eq_done_of_leaveSize (by rw [armNext] at hempty; omega)
    subst hdone
    rw [s.afterCut_branch_empty hflow (hnext.trans hempty),
      s.armAfterCut_branch_empty hflow (hnext.trans hempty),
      s.resume_of_le (Nat.le_of_eq hempty.symm), hactive, hcondition]
    constructor
    · simp only [bind, Except.bind, Walk.stop, s.arms_of_le (Nat.le_of_eq hempty), Functor.map_map]
    · simp only [bind, Except.bind, Walk.stop, Branches.size, Nat.add_zero, hempty]
  · -- The body is a block one level deeper, walked from the branch up to its target.
    rw [s.afterCut_branch hflow (hnext ▸ hlt), s.armAfterCut_branch hflow (hnext ▸ hlt), hactive,
      hnext, hcondition, s.block_eq h.bodyAt.fits.depth_lt, s.resume_of_lt hlt]
    exact ⟨rfl, rfl⟩

/-- The walk through a block with a chain at its start. -/
theorem Branches.At.resume_chain :
    s.resume depth bound active stack pc =
      (s.resume (depth + 1) (armNext pc condition body arms) active [] (armStart pc condition) >>=
        fun walk =>
          (fun more => more.2.mapBlock (.chain (condition.expr s.script) walk.block more.1)) <$>
            s.arms depth bound walk.active stack walk.exit (armNext pc condition body arms)) := by
  obtain ⟨c, hcut, hafter, -⟩ := h.exists_cut_arm active stack
  rw [s.resume_of_lt h.lt_bound, s.statements_of_cut hcut, hafter]

/-- The walk through the further arms of a chain, of which the first one has a condition. -/
theorem Branches.At.arms_elseIf :
    s.arms depth bound active stack (armNext pc condition body arms + arms.size) pc =
      (s.resume (depth + 1) (armNext pc condition body arms) active [] (armStart pc condition) >>=
        fun walk =>
          (fun more => (.elseIf (condition.expr s.script) walk.block more.1, more.2)) <$>
            s.arms depth bound walk.active stack walk.exit (armNext pc condition body arms)) := by
  obtain ⟨c, hcut, -, hafter⟩ := h.exists_cut_arm active stack
  rw [s.arms_of_cut (lt_stop ..) h.lt_bound hcut, hafter]

end Arm

end Daedalus.Structured
