import Daedalus.Proofs.Structured.Joined
import Daedalus.Proofs.Structured.Located

/-! # Recovering structured programs

What the walk recovers from the code of a sound program is the block of the program, with its chains
joined. The proof follows the program: each statement is cut off as it was laid out, each body is
walked up to the next arm and left for the end of its chain, and the walk goes on behind the chain
with nothing on the stack. -/

namespace Daedalus.Structured

variable {s : Setting} {depth bound pc : Nat} {active : Option UInt32} {stack : List Frame}

/-- The walk from `pc` on gives the block of the program, with what was left on the stack in front of
it, and ends where the program does. -/
def Program.Recovered (s : Setting) (depth bound : Nat) (active : Option UInt32)
    (stack : List Frame) (pc : Nat) (p : Program) : Prop :=
  ∃ walk, s.resume depth bound active stack pc = .ok walk ∧
    walk.block.split = Block.prepend (s.unwind active stack) (p.joined.block s.script) ∧
    walk.exit = exitAt s.script bound (pc + p.size) ∧ walk.active = active

/-! ### Statements -/

/-- The walk over a statement that leaves no result. -/
theorem Statement.Fits.exists_cut {st : Statement} (hfits : st.Fits s)
    (hplaced : Placed s.script.code pc st.code) (hle : pc + byteSize st.code ≤ bound)
    (hend : st.isDiscard = false ∨ pc + byteSize st.code = bound) (active : Option UInt32)
    (stack : List Frame) :
    ∃ c, s.script.cut bound active stack pc = .ok c ∧ c.next = pc + byteSize st.code ∧
      c.flow = .next ∧ c.active = active ∧
      s.statement c = (st.expr s.script, s.unwind active stack) := by
  obtain ⟨c, hcut, hnext, hflow, hactive, hstatement⟩ :=
    (hfits.reads active).exists_cut hfits.collects hplaced (st.activate_root active) hle
      (hend.imp hfits.endsStatement id) stack
  exact ⟨c, hcut, hnext, hflow.trans st.flow_root, hactive, hstatement⟩

/-- The stack behind an unused result. -/
def pushUnused (active : Option UInt32) (pc : Nat) (st : Statement) (stack : List Frame) :
    List Frame :=
  (framesAt active pc st.code).reverse ++ stack

/-- An unused result is left on the stack. -/
theorem pushUnused_ne_nil (active : Option UInt32) (pc : Nat) (st : Statement)
    (stack : List Frame) : pushUnused active pc st stack ≠ [] := by
  intro h
  have hframes := List.reverse_eq_nil_iff.mp (List.append_eq_nil_iff.mp h).1
  have hcode := operations_framesAt active pc st.code
  rw [hframes] at hcode
  exact List.append_ne_nil_of_right_ne_nil _ (List.cons_ne_nil _ _) hcode.symm

/-- An unused result comes after those that were left before. -/
theorem Statement.Fits.unwind_pushUnused {st : Statement} (hfits : st.Fits s) :
    s.unwind active (pushUnused active pc st stack) =
      st.expr s.script :: s.unwind active stack :=
  (hfits.reads active).unwind (operations_framesAt active pc st.code)

/-- A cut goes over a call whose result is not used, if the bound is not reached with it. -/
theorem Statement.Fits.cut_discard {st : Statement} (hfits : st.Fits s)
    (hdiscard : st.isDiscard = true) (hplaced : Placed s.script.code pc st.code)
    (hlt : pc + byteSize st.code < bound) :
    s.script.cut bound active stack pc =
      s.script.cut bound active (pushUnused active pc st stack) (pc + byteSize st.code) := by
  refine cut_operands (fun op hop => ?_) hplaced hlt
  rcases List.mem_append.mp hop with hop | hop
  · exact hfits.collects op hop
  · obtain rfl := List.mem_singleton.mp hop
    exact hfits.collects_root hdiscard

/-! ### One step of a program -/

namespace Program

/-- A sequence that is recovered from the stack behind an unused result is recovered with it. -/
theorem Recovered.of_discard {st : Statement} {rest : Program} (hfits : st.Fits s)
    (hdiscard : st.isDiscard = true) (hplaced : Placed s.script.code pc st.code)
    (hlt : pc + byteSize st.code < bound)
    (hrest : rest.Recovered s depth bound active (pushUnused active pc st stack)
      (pc + byteSize st.code)) :
    (step st rest).Recovered s depth bound active stack pc := by
  obtain ⟨walk, hwalk, hblock, hexit, hactive⟩ := hrest
  refine ⟨walk, ?_, ?_, ?_, hactive⟩
  · rw [s.resume_of_lt hlt] at hwalk
    rw [s.resume_of_lt (by omega), s.statements_congr (hfits.cut_discard hdiscard hplaced hlt),
      hwalk]
  · rw [hblock, hfits.unwind_pushUnused, Block.prepend_cons]
    rfl
  · rw [hexit, Program.size, Nat.add_assoc]

/-- A statement that is cut off is recovered in front of the rest of the sequence. -/
theorem Recovered.of_step {st : Statement} {rest : Program} (hfits : st.Fits s)
    (hplaced : Placed s.script.code pc st.code) (hle : pc + byteSize st.code ≤ bound)
    (hend : st.isDiscard = false ∨ pc + byteSize st.code = bound)
    (hrest : rest.Recovered s depth bound active [] (pc + byteSize st.code)) :
    (step st rest).Recovered s depth bound active stack pc := by
  obtain ⟨walk, hwalk, hblock, hexit, hactive⟩ := hrest
  -- The statement takes what was left on the stack, so the rest starts from an empty one.
  obtain ⟨c, hcut, hnext, hflow, hcactive, hstatement⟩ :=
    hfits.exists_cut hplaced hle hend active stack
  have hpos : 0 < byteSize st.code := byteSize_concat_pos _ _
  refine ⟨walk.mapBlock (.step (st.expr s.script) (s.unwind active stack)), ?_, ?_, ?_, hactive⟩
  · rw [s.resume_of_lt (by omega), s.statements_of_cut hcut, s.afterCut_next hflow, hstatement,
      hcactive, hnext, hwalk]
    rfl
  · rw [Walk.mapBlock_block, Block.split, hblock, s.unwind_nil, Block.prepend_nil]
    rfl
  · rw [Walk.mapBlock_exit, hexit, Program.size, Nat.add_assoc]

/-- A return is recovered, and leaves the block. -/
theorem Recovered.of_ret {result : Result} (h : (ret result).At s depth bound pc) :
    (ret result).Recovered s depth bound active stack pc := by
  have hle := h.le_bound
  have hpos : 0 < byteSize result.code := byteSize_concat_pos _ _
  rw [Program.size] at hle
  obtain ⟨c, hcut, hnext, hflow, hcactive, hstatement⟩ :=
    (h.fits.2.reads (Nat.zero_lt_of_lt h.fits.1) active).exists_cut h.fits.2.collects h.placed rfl
      hle (.inl rfl) stack
  have hwalk : s.resume depth bound active stack pc =
      .ok ⟨.step (result.expr s.script) (s.unwind active stack) .done,
        exitAt s.script bound (pc + byteSize result.code), active⟩ := by
    rw [s.resume_of_lt (by omega), s.statements_of_cut hcut, s.afterCut_ret hflow, hstatement,
      hnext, hcactive]
    rfl
  exact ⟨_, hwalk, by rw [Block.split, Block.split]; rfl, rfl, rfl⟩

/-- The end of a sequence is recovered where the block ends or a jump leaves it. -/
theorem Recovered.of_closed {tail : Bool} (hclosed : Closed s.script bound pc tail) :
    done.Recovered s depth bound active [] pc := by
  cases tail with
  | true =>
    obtain rfl : pc = bound := by simpa [Closed] using hclosed
    refine ⟨_, s.resume_of_le (Nat.le_refl _), ?_, ?_, rfl⟩
    · rw [s.unwind_nil]
      rfl
    · exact (exitAt_of_le (Nat.le_refl _)).symm
  | false =>
    -- The jump is a statement of its own for the cut, and the walk leaves the block with it.
    obtain ⟨target, hjump, hbound⟩ : ∃ target, decode s.script.code pc =
        .ok ⟨pc, .jump target⟩ ∧ pc + 5 = bound := by simpa [Closed] using hclosed
    refine ⟨Walk.stop active target.toNat, ?_, ?_, ?_, rfl⟩
    · have hlt : pc < bound := by omega
      rw [s.resume_of_lt hlt, s.statements_of_cut (cut_last hjump (.inl rfl)),
        s.afterCut_jump rfl]
      rfl
    · rw [s.unwind_nil]
      rfl
    · exact (exitAt_of_jump hjump hbound).symm

end Program

/-! ### One arm of a chain -/

/-- The walk through the further arms of a chain gives their arms, and goes on behind the chain with
nothing on the stack. -/
def Branches.Recovered (s : Setting) (depth bound : Nat) (active : Option UInt32) (pc : Nat)
    (b : Branches) : Prop :=
  ∃ arms, arms.split = b.joined.arms s.script ∧
    s.arms depth bound active [] (pc + b.size) pc =
      (fun rest => (arms, rest)) <$> s.resume depth bound active [] (pc + b.size)

/-- The walk through the body of an arm without a condition gives the last arms for it, with what was
left on the stack in front, and goes on behind the chain with nothing on the stack. -/
def Program.ElseRecovered (s : Setting) (depth bound : Nat) (active : Option UInt32)
    (stack : List Frame) (pc : Nat) (p : Program) : Prop :=
  ∃ arms, arms.split = (p.joinedElse.arms s.script).prepend (s.unwind active stack) ∧
    s.arms depth bound active stack (pc + p.size) pc =
      (fun rest => (arms, rest)) <$> s.resume depth bound active [] (pc + p.size)

namespace Branches

variable {condition : Term} {body rest : Program} {following : Branches}

/-- No further arms are recovered as none. -/
theorem Recovered.of_done : done.Recovered s depth bound active pc :=
  ⟨.done, rfl, s.arms_of_le (Nat.le_refl _)⟩

/-- An arm without a condition is recovered as its body is. -/
theorem Recovered.of_otherwise (h : body.ElseRecovered s depth bound active [] pc) :
    (otherwise body).Recovered s depth bound active pc := by
  obtain ⟨arms, hsplit, harms⟩ := h
  rw [s.unwind_nil, Arms.prepend_nil] at hsplit
  exact ⟨arms, hsplit, harms⟩

/-- An arm with a condition is recovered in front of the arms behind it. -/
theorem Recovered.of_elseIf (h : (elseIf condition body following).At s depth bound pc)
    (hbody : body.Recovered s (depth + 1) (armNext pc condition body following) active []
      (armStart pc condition))
    (hfollowing : following.Recovered s depth bound active (armNext pc condition body following)) :
    (elseIf condition body following).Recovered s depth bound active pc := by
  obtain ⟨walk, hwalk, hblock, hexit, hactive⟩ := hbody
  obtain ⟨arms, hsplit, harms⟩ := hfollowing
  rw [s.unwind_nil, Block.prepend_nil] at hblock
  rw [h.exitAt_body] at hexit
  refine ⟨.elseIf (condition.expr s.script) walk.block arms, ?_, ?_⟩
  · rw [Arms.split, hblock, hsplit]
    rfl
  · rw [end_elseIf, h.arms_elseIf, hwalk]
    simp only [bind, Except.bind, hactive, hexit, harms, Functor.map_map]

end Branches

/-- A chain is recovered in front of the rest of the sequence. -/
theorem Program.Recovered.of_chain {condition : Term} {body rest : Program} {following : Branches}
    (h : (Branches.elseIf condition body following).At s depth bound pc)
    (hbody : body.Recovered s (depth + 1) (armNext pc condition body following) active []
      (armStart pc condition))
    (hfollowing : following.Recovered s depth bound active (armNext pc condition body following))
    (hrest : rest.Recovered s depth bound active []
      (pc + (Branches.elseIf condition body following).size)) :
    (chain condition body following rest).Recovered s depth bound active [] pc := by
  obtain ⟨walkBody, hwalkBody, hbodyBlock, hbodyExit, hbodyActive⟩ := hbody
  obtain ⟨arms, hsplit, harms⟩ := hfollowing
  obtain ⟨walk, hwalk, hblock, hexit, hactive⟩ := hrest
  rw [s.unwind_nil, Block.prepend_nil] at hbodyBlock hblock
  -- The body is left for the end of the chain, where the arms behind it end as well.
  rw [h.exitAt_body] at hbodyExit
  rw [Branches.end_elseIf] at hwalk
  refine ⟨walk.mapBlock (.chain (condition.expr s.script) walkBody.block arms), ?_, ?_, ?_, hactive⟩
  · rw [h.resume_chain, hwalkBody]
    simp only [bind, Except.bind, hbodyActive, hbodyExit, harms, hwalk]
    rfl
  · rw [Walk.mapBlock_block, Block.split, hbodyBlock, hsplit, hblock, s.unwind_nil,
      Block.prepend_nil]
    rfl
  · rw [Walk.mapBlock_exit, hexit, size_chain, Nat.add_assoc]

/-! ### One step of an arm without a condition -/

namespace Program

/-- An arm that is recovered from the stack behind an unused result is recovered with it. -/
theorem ElseRecovered.of_discard {st : Statement} {rest : Program} (hfits : st.Fits s)
    (hdiscard : st.isDiscard = true) (hplaced : Placed s.script.code pc st.code)
    (hsome : rest.isDone = false) (hchain : rest.startsWithChain = false)
    (hle : pc + (step st rest).size ≤ bound)
    (hrest : rest.ElseRecovered s depth bound active (pushUnused active pc st stack)
      (pc + byteSize st.code)) :
    (step st rest).ElseRecovered s depth bound active stack pc := by
  obtain ⟨arms, hsplit, harms⟩ := hrest
  have hpos := size_pos hsome
  rw [size] at hle
  refine ⟨arms, ?_, ?_⟩
  · rw [hsplit, hfits.unwind_pushUnused, joinedElse_eq hchain]
    rfl
  · rw [Nat.add_assoc] at harms
    rw [size, s.arms_congr (by omega) (by omega) (by omega) (by omega)
      (hfits.cut_discard hdiscard hplaced (by omega)), harms]

/-- The first statement of an arm without a condition is recovered in front of the rest of it, which
is walked up to the end of the chain. -/
theorem ElseRecovered.of_step {st : Statement} {rest : Program} (hfits : st.Fits s)
    (hplaced : Placed s.script.code pc st.code) (hle : pc + (step st rest).size ≤ bound)
    (hend : st.isDiscard = false ∨ pc + byteSize st.code = bound) (hdepth : depth + 1 < s.limit)
    (hrest : rest.Recovered s (depth + 1) (pc + (step st rest).size) active []
      (pc + byteSize st.code)) :
    (step st rest).ElseRecovered s depth bound active stack pc := by
  obtain ⟨walk, hwalk, hblock, -, hactive⟩ := hrest
  have hpos : 0 < byteSize st.code := byteSize_concat_pos _ _
  rw [size] at hle hwalk
  obtain ⟨c, hcut, hnext, hflow, hcactive, hstatement⟩ :=
    hfits.exists_cut hplaced (by omega) hend active stack
  rw [s.unwind_nil, Block.prepend_nil] at hblock
  refine ⟨.otherwise (.step (st.expr s.script) (s.unwind active stack) walk.block), ?_, ?_⟩
  · rw [Arms.split, Block.split, hblock]
    rfl
  rw [size, s.arms_of_cut (by omega) (by omega) hcut, s.armAfterCut_next hflow, hstatement, hcactive,
    hnext]
  -- The rest is walked as a block up to the end of the chain, unless there is no rest.
  by_cases hlt : pc + byteSize st.code < pc + (byteSize st.code + rest.size)
  · rw [s.resume_of_lt hlt, ← s.block_eq hdepth] at hwalk
    rw [s.otherwise_of_lt hlt, hwalk]
    simp only [bind, Except.bind, hactive]
  · have hstop : pc + (byteSize st.code + rest.size) = pc + byteSize st.code := by omega
    rw [hstop, s.resume_of_le (Nat.le_refl _)] at hwalk
    cases hwalk
    rw [hstop, s.otherwise_of_le (Nat.le_refl _)]
    rfl

/-- A return that is all of an arm without a condition is recovered. -/
theorem ElseRecovered.of_ret {result : Result} (h : (ret result).At s (depth + 1) bound pc) :
    (ret result).ElseRecovered s depth bound active stack pc := by
  have hle := h.le_bound
  have hpos : 0 < byteSize result.code := byteSize_concat_pos _ _
  rw [Program.size] at hle
  obtain ⟨c, hcut, hnext, hflow, hcactive, hstatement⟩ :=
    (h.fits.2.reads (Nat.zero_lt_of_lt h.fits.1) active).exists_cut h.fits.2.collects h.placed rfl
      hle (.inl rfl) stack
  refine ⟨.otherwise (.step (result.expr s.script) (s.unwind active stack) .done), ?_, ?_⟩
  · rw [Arms.split, Block.split, Block.split]
    rfl
  · rw [size, s.arms_of_cut (by omega) (by omega) hcut, s.armAfterCut_ret hflow, hstatement,
      hcactive, hnext]
    exact s.otherwise_of_le (Nat.le_refl _)

/-- A chain that is all of an arm without a condition is recovered as more arms. -/
theorem ElseRecovered.of_chain {condition : Term} {body : Program} {following : Branches}
    (h : (Branches.elseIf condition body following).Recovered s depth bound active pc) :
    (chain condition body following done).ElseRecovered s depth bound active [] pc := by
  obtain ⟨arms, hsplit, harms⟩ := h
  refine ⟨arms, ?_, ?_⟩
  · rw [s.unwind_nil, Arms.prepend_nil, joinedElse_chain, hsplit]
    rfl
  · rw [size_chain, size, Nat.add_zero, harms]

/-- An empty chain at the start of an arm without a condition is recovered as an arm of its own, and
what follows as the arm without a condition. -/
theorem ElseRecovered.of_passed {condition : Term} {more : Program}
    (h : (Branches.elseIf condition done .done).At s depth bound pc)
    (hsome : more.isDone = false) (hchain : more.startsWithChain = false)
    (hmore : more.ElseRecovered s depth bound active [] (armNext pc condition done .done)) :
    (chain condition done .done more).ElseRecovered s depth bound active [] pc := by
  obtain ⟨arms, hsplit, harms⟩ := hmore
  rw [s.unwind_nil, Arms.prepend_nil, joinedElse_eq hchain] at hsplit
  have hlt := lt_armNext pc condition done .done
  obtain ⟨c, hcut, hcnext, hflow, hactive, hcondition⟩ := h.exists_cut active []
  refine ⟨.elseIf (condition.expr s.script) .done arms, ?_, ?_⟩
  · rw [s.unwind_nil, Arms.prepend_nil, joinedElse_passed condition hsome, Arms.split, hsplit]
    rfl
  · -- The body is empty, so the arms behind it are still left for the end of the chain.
    rw [size_passed, s.arms_of_cut (by omega) h.lt_bound hcut,
      s.armAfterCut_branch_empty hflow hcnext, hactive, hcondition, harms, Functor.map_map]

end Program

/-! ### Whole programs -/

mutual
/-- **Recovering a sequence.** The walk recovers a sound sequence from its code, whatever results were
left before it. The induction is on the sequence; `tail` tells whether the walk stops where the
sequence ends. -/
theorem Program.At.recovered : ∀ {p : Program} {depth bound pc : Nat} {tail : Bool}
    {stack : List Frame}, p.At s depth bound pc →
      (p.returns = false → Closed s.script bound (pc + p.size) tail) →
      (stack ≠ [] → pc < bound) → p.sound (!stack.isEmpty) tail = true →
      p.Recovered s depth bound active stack pc
  | .done, _, _, _, tail, stack, _, hclosed, hstack, hsound => by
    have hclosed := hclosed rfl
    cases stack with
    | nil => exact .of_closed hclosed
    | cons frame stack =>
      -- Results before the end of a block are sound only where the walk stops before it sees them.
      have htail : tail = true := hsound
      subst htail
      exact absurd hclosed (Nat.ne_of_lt (hstack (List.cons_ne_nil _ _)))
  | .ret _, _, _, _, _, _, h, _, _, _ => .of_ret h
  | .step st rest, _, bound, pc, tail, stack, h, hclosed, hstack, hsound => by
    obtain ⟨hplaced, hfits, hrest⟩ := h.step
    rw [Program.returns, Program.size, ← Nat.add_assoc] at hclosed
    have hle : pc + byteSize st.code ≤ bound :=
      Nat.le_trans (Nat.le_add_right _ _) hrest.le_bound
    rw [Program.sound] at hsound
    cases hdiscard : st.isDiscard with
    | false =>
      rw [hdiscard] at hsound
      exact .of_step hfits hplaced hle (.inl hdiscard) (hrest.recovered hclosed (absurd rfl) hsound)
    | true =>
      rw [hdiscard] at hsound
      rcases Nat.lt_or_eq_of_le hle with hlt | hbound
      · -- The cut takes the call in with what follows it.
        have hne := pushUnused_ne_nil active pc st stack
        refine .of_discard hfits hdiscard hplaced hlt (hrest.recovered hclosed (fun _ => hlt) ?_)
        rwa [List.isEmpty_eq_false_iff.mpr hne]
      · -- The walk stops with the call, so nothing follows it.
        obtain ⟨rfl, -⟩ := hrest.done_of_eq_bound hbound hclosed
        exact .of_step hfits hplaced hle (.inr hbound) (.of_closed (.of_tail hbound))
  | .chain condition body arms rest, _, _, _, tail, stack, h, hclosed, hstack, hsound => by
    obtain ⟨harms, hrest⟩ := h.chain
    rw [Program.returns, Program.size_chain, ← Nat.add_assoc] at hclosed
    simp only [Program.sound, Bool.and_eq_true, Bool.not_eq_true'] at hsound
    obtain ⟨⟨⟨hempty, hbodySound⟩, harmsSound⟩, hrestSound⟩ := hsound
    -- A condition takes nothing from before the chain, so nothing may lie there.
    obtain rfl : stack = [] := by simpa using hempty
    refine .of_chain harms
      (harms.bodyAt.recovered (fun _ => harms.closed_body) (absurd rfl) hbodySound)
      (harms.armsAt.recovered (Branches.stop_eq_bound hclosed) harmsSound)
      (hrest.recovered hclosed (absurd rfl) hrestSound)
/-- **Recovering an arm without a condition.** `tail` tells whether the walk stops at its end also
before its first statement is complete. -/
theorem Program.At.elseRecovered : ∀ {p : Program} {depth bound pc : Nat} {tail : Bool}
    {stack : List Frame}, p.At s (depth + 1) bound pc → p.isDone = false →
      (tail = true → pc + p.size = bound) → p.elseSound (!stack.isEmpty) tail = true →
      p.ElseRecovered s depth bound active stack pc
  | .done, _, _, _, _, _, _, hsome, _, _ => by cases hsome
  | .ret _, _, _, _, _, _, h, _, _, _ => .of_ret h
  | .step st rest, depth, bound, pc, tail, stack, h, _, htail, hsound => by
    obtain ⟨hplaced, hfits, hrest⟩ := h.step
    have hle := h.le_bound
    have hend : pc + byteSize st.code + rest.size = pc + (Program.step st rest).size := by
      rw [Program.size, Nat.add_assoc]
    have hrestWithin := hrest.within (Nat.le_of_eq hend) hle
    rw [Program.elseSound] at hsound
    cases hdiscard : st.isDiscard with
    | false =>
      -- Behind the first statement, the arm is a block of its own with the end of the chain as bound.
      rw [hdiscard, if_neg Bool.false_ne_true] at hsound
      exact .of_step hfits hplaced hle (.inl hdiscard) h.fits.depth_lt
        (hrestWithin.recovered (fun _ => .of_tail hend) (absurd rfl) hsound)
    | true =>
      rw [hdiscard, if_pos rfl] at hsound
      cases hdone : rest.isDone with
      | false =>
        have hne := pushUnused_ne_nil active pc st stack
        refine .of_discard hfits hdiscard hplaced hdone
          (Program.startsWithChain_of_elseSound hsound) hle
          (hrest.elseRecovered hdone (fun h => hend.trans (htail h)) ?_)
        rwa [List.isEmpty_eq_false_iff.mpr hne]
      | true =>
        -- The call is the last of the arm, and the walk stops with it.
        obtain rfl := Program.eq_done_of_isDone hdone
        exact .of_step hfits hplaced hle (.inr (htail hsound)) h.fits.depth_lt
          (.of_closed (.of_tail hend))
  | .chain condition body arms more, depth, bound, pc, tail, stack, h, _, htail, hsound => by
    obtain ⟨harms, hmore⟩ := h.chain
    have harms := harms.mono (Nat.le_succ depth)
    rw [Program.size_chain, ← Nat.add_assoc, Branches.end_elseIf] at htail
    rw [Branches.end_elseIf] at hmore
    simp only [Program.elseSound, Bool.and_eq_true, Bool.not_eq_true'] at hsound
    obtain ⟨hempty, hsound⟩ := hsound
    obtain rfl : stack = [] := by simpa using hempty
    cases hdone : more.isDone with
    | true =>
      rw [hdone, if_pos rfl, Bool.and_eq_true] at hsound
      -- The chain is all of the arm, so its arms are walked as those of the chain around it.
      obtain rfl := Program.eq_done_of_isDone hdone
      exact .of_chain (.of_elseIf harms
        (harms.bodyAt.recovered (fun _ => harms.closed_body) (absurd rfl) hsound.1)
        (harms.armsAt.recovered htail hsound.2))
    | false =>
      -- Something follows the chain, so the chain is a condition with an empty body.
      rw [hdone, if_neg Bool.false_ne_true] at hsound
      simp only [Bool.and_eq_true, Bool.not_eq_true'] at hsound
      obtain ⟨⟨⟨hbody, harmsDone⟩, hchain⟩, hmoreSound⟩ := hsound
      obtain rfl := Program.eq_done_of_isDone hbody
      obtain rfl := Branches.eq_done_of_isDone harmsDone
      exact .of_passed harms hdone hchain (hmore.elseRecovered hdone htail hmoreSound)
/-- **Recovering the further arms of a chain.** `tail` tells whether the walk stops behind them. -/
theorem Branches.At.recovered : ∀ {b : Branches} {depth bound pc : Nat} {tail : Bool},
    b.At s depth bound pc → (tail = true → pc + b.size = bound) → b.sound tail = true →
      b.Recovered s depth bound active pc
  | .done, _, _, _, _, _, _, _ => .of_done
  | .elseIf condition body arms, _, _, _, _, h, htail, hsound => by
    rw [Branches.sound, Bool.and_eq_true] at hsound
    rw [Branches.end_elseIf] at htail
    exact .of_elseIf h
      (h.bodyAt.recovered (fun _ => h.closed_body) (absurd rfl) hsound.1)
      (h.armsAt.recovered htail hsound.2)
  | .otherwise body, depth, bound, pc, _, h, htail, hsound => by
    have hbody : body.At s (depth + 1) bound pc := ⟨h.placed, h.fits.2, h.le_bound, h.bound_lt⟩
    exact .of_otherwise (hbody.elseRecovered h.fits.1 htail hsound)
end

end Daedalus.Structured
