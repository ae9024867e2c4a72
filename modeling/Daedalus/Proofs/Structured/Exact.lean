import Daedalus.Proofs.Structured.RoundTrip

/-! # Which structured programs are recovered

A structured program is shown by what the walk recovers from its code only if its shape is sound.
Together with the recovery of sound programs this gives an exact condition. The proof goes through
the program up to the first place where the condition is not met. What the walk gives there does not
match the program, whatever follows: a block with an arm in place of an unused result, a block that
ends without the result, or an arm that takes a statement from behind the chain. -/

namespace Daedalus.Structured

open Text

variable {s : Setting} {depth bound pc : Nat} {active : Option UInt32} {stack : List Frame}
  {c : Cut} {walk : Walk}

/-! ### What a walk starts with -/

/-- Where a condition is cut off, the next arm has a condition. -/
theorem exists_elseIf_of_armAfterCut {target exit : Nat} {arms : Arms}
    (hflow : c.flow = .branch target) (h : s.armAfterCut depth bound exit c = .ok (arms, walk)) :
    ∃ condition body rest, arms = .elseIf condition body rest := by
  simp only [Setting.armAfterCut, hflow] at h
  split at h
  · cases h
  · split at h
    · obtain ⟨rest, -, hrest⟩ := exists_of_map_eq_ok h
      cases hrest
      exact ⟨_, _, _, rfl⟩
    · split at h
      · cases h
      · obtain ⟨more, -, hmore⟩ := exists_of_map_eq_ok h
        cases hmore
        exact ⟨_, _, _, rfl⟩

/-- Results that were left before a block give a step at its start. -/
theorem exists_step_of_unwind (s : Setting) (active : Option UInt32) (frame : Frame)
    (stack : List Frame) (block : Block) :
    ∃ e rest, Block.prepend (s.unwind active (frame :: stack)) block = .step e [] rest :=
  Block.exists_step_of_prepend (fun h => List.cons_ne_nil _ _ (s.unwind_eq_nil.mp h)) block

/-! ### Results that are still on the stack -/

/-- What is cut off where results were left before: a jump, a condition, or a statement that leaves
all these results unused. -/
def Passes (s : Setting) (unused : List Expr) (c : Cut) : Prop :=
  (∃ target, c.flow = .jump target) ∨ (∃ target, c.flow = .branch target) ∨
    (c.flow = .next ∨ c.flow = .ret) ∧ ∃ e results, s.statement c = (e, results ++ unused)

/-- No statement of a program takes results that were left before it. -/
theorem Program.At.exists_passes : ∀ {p : Program} {depth bound pc : Nat} {tail : Bool},
    p.At s depth bound pc → (p.returns = false → Closed s.script bound (pc + p.size) tail) →
      pc < bound → ∀ stack : List Frame,
      ∃ c, s.script.cut bound active stack pc = .ok c ∧ Passes s (s.unwind active stack) c
  | .done, _, _, pc, tail, _, hclosed, hlt, _ => by
    have hclosed := hclosed rfl
    cases tail with
    | true => exact absurd hclosed (Nat.ne_of_lt hlt)
    | false =>
      -- The jump that closes the block stands where the sequence ends.
      obtain ⟨target, hjump, -⟩ := hclosed
      exact ⟨_, cut_last hjump (.inl rfl), .inl ⟨_, rfl⟩⟩
  | .ret result, _, _, _, _, h, _, _, stack => by
    obtain ⟨c, hcut, -, hflow, -, hstatement⟩ :=
      (h.fits.2.reads (Nat.zero_lt_of_lt h.fits.1) active).exists_cut h.fits.2.collects h.placed rfl
        h.le_bound (.inl rfl) stack
    exact ⟨c, hcut, .inr (.inr ⟨.inr hflow, _, [], hstatement⟩)⟩
  | .step st rest, _, bound, pc, _, h, hclosed, _, stack => by
    obtain ⟨hplaced, hfits, hrest⟩ := h.step
    have hle : pc + byteSize st.code ≤ bound := Nat.le_trans (Nat.le_add_right _ _) hrest.le_bound
    rw [Program.returns, Program.size, ← Nat.add_assoc] at hclosed
    by_cases hend : st.isDiscard = false ∨ pc + byteSize st.code = bound
    · obtain ⟨c, hcut, -, hflow, -, hstatement⟩ :=
        hfits.exists_cut hplaced hle hend active stack
      exact ⟨c, hcut, .inr (.inr ⟨.inl hflow, _, [], hstatement⟩)⟩
    · -- The call is taken in with what follows it, and its result becomes one of those unused.
      rw [not_or, Bool.not_eq_false] at hend
      have hlt : pc + byteSize st.code < bound := by omega
      obtain ⟨c, hcut, hpasses⟩ :=
        hrest.exists_passes hclosed hlt (pushUnused active pc st stack)
      rw [← hfits.cut_discard hend.1 hplaced hlt] at hcut
      rw [hfits.unwind_pushUnused] at hpasses
      refine ⟨c, hcut, hpasses.imp id (Or.imp id (And.imp id ?_))⟩
      rintro ⟨e, results, hstatement⟩
      exact ⟨e, results ++ [st.expr s.script], by rw [hstatement, List.append_assoc]; rfl⟩
  | .chain _ _ _ _, _, _, _, _, h, _, _, stack => by
    obtain ⟨c, hcut, -, hflow, -⟩ := h.chain.1.exists_cut active stack
    exact ⟨c, hcut, .inr (.inl ⟨_, hflow⟩)⟩

/-- Arms show the body of an arm without a condition, behind results that are not used. -/
def Program.ShownElse (script : Script) (unused : List Expr) (p : Program) (arms : Arms) : Prop :=
  (∃ block, p.Shows script block ∧ arms = .otherwise (Block.prepend unused block)) ∨
    unused = [] ∧ (Branches.otherwise p).Shows script arms

/-- An arm that does not start with a chain is shown without a condition. -/
theorem Program.ShownElse.exists_otherwise {script : Script} {unused : List Expr} {p : Program}
    {arms : Arms} (h : p.ShownElse script unused arms) (hchain : p.startsWithChain = false) :
    ∃ block, p.Shows script block ∧ arms = .otherwise (Block.prepend unused block) := by
  rcases h with h | ⟨rfl, hshows⟩
  · exact h
  · cases hshows with
    | otherwise hshows => exact ⟨_, hshows, rfl⟩
    | joined => cases hchain
    | passed => cases hchain

/-- If the first statement of an arm without a condition is only complete behind the chain, the arm
does not show a body that is nothing but unused results. -/
theorem not_shownElse_of_passes {st : Statement} {unused : List Expr} {exit : Nat} {arms : Arms}
    (hpasses : Passes s (st.expr s.script :: unused) c) (hexit : exit ≤ c.next)
    (h : s.armAfterCut depth bound exit c = .ok (arms, walk)) :
    ¬(Program.step st .done).ShownElse s.script unused arms.split := by
  intro hshown
  obtain ⟨block, hshows, hsplit⟩ := hshown.exists_otherwise rfl
  cases hshows with
  | step hrest =>
  cases hrest
  rcases hpasses with ⟨target, hflow⟩ | ⟨target, hflow⟩ | ⟨hflow, e, results, hstatement⟩
  · -- The jump is taken for an empty arm.
    rw [s.armAfterCut_jump hflow, s.otherwise_of_le hexit] at h
    obtain ⟨rest, -, hrest⟩ := exists_of_map_eq_ok h
    cases hrest
    obtain ⟨e, block, hblock⟩ :=
      Block.exists_step_of_prepend (List.cons_ne_nil (st.expr s.script) unused) .done
    rw [Block.prepend_cons] at hblock
    rw [hblock] at hsplit
    cases hsplit
  · -- A branch makes an arm with a condition.
    obtain ⟨condition, body, rest, rfl⟩ := exists_elseIf_of_armAfterCut hflow h
    cases hsplit
  · have hafter : s.armAfterCut depth bound exit c = s.otherwise depth bound c.active []
        (.step (s.statement c).1 (s.statement c).2) exit c.next :=
      hflow.elim s.armAfterCut_next s.armAfterCut_ret
    rw [hafter, s.otherwise_of_le hexit, hstatement] at h
    obtain ⟨rest, -, hrest⟩ := exists_of_map_eq_ok h
    cases hrest
    -- The statement comes behind all the results, so it is one too many.
    rw [Arms.split, Block.split, Block.prepend_append, Block.prepend_cons, Arms.otherwise.injEq]
      at hsplit
    have hstep := Block.prepend_inj hsplit
    injection hstep with _ _ hdone
    cases results with
    | nil => cases hdone
    | cons r results =>
      obtain ⟨e, block, hblock⟩ :=
        Block.exists_step_of_prepend (List.cons_ne_nil r results) (.step e [] Block.done.split)
      rw [hblock] at hdone
      cases hdone

/-! ### One step of a program -/

namespace Program

/-- The walk from `pc` on shows the program only if the program is sound. -/
def SoundIfShown (s : Setting) (depth bound : Nat) (active : Option UInt32) (stack : List Frame)
    (pc : Nat) (tail : Bool) (p : Program) : Prop :=
  ∀ walk block, s.resume depth bound active stack pc = .ok walk → p.Shows s.script block →
    walk.block.split = Block.prepend (s.unwind active stack) block →
    p.sound (!stack.isEmpty) tail = true

/-- A walk with nothing left before it shows the program by its own block. -/
theorem SoundIfShown.sound_of_shows {p : Program} {tail : Bool}
    (h : p.SoundIfShown s depth bound active [] pc tail)
    (hwalk : s.resume depth bound active [] pc = .ok walk)
    (hshows : p.Shows s.script walk.block.split) : p.sound false tail = true := by
  refine h walk _ hwalk hshows ?_
  rw [s.unwind_nil, Block.prepend_nil]

/-- The end of a block drops the results that are left on the stack, unless the walk stops there. -/
theorem SoundIfShown.of_done {tail : Bool} (hclosed : Closed s.script bound pc tail)
    (hstack : stack ≠ [] → pc < bound) :
    done.SoundIfShown s depth bound active stack pc tail := by
  intro walk block hwalk _ hblock
  cases stack with
  | nil => rfl
  | cons frame stack =>
    have hlt := hstack (List.cons_ne_nil _ _)
    cases tail with
    | true => exact absurd hclosed (Nat.ne_of_lt hlt)
    | false =>
      -- The walk leaves with the jump and gives an empty block, but a result should be shown.
      obtain ⟨target, hjump, -⟩ := hclosed
      rw [s.resume_of_lt hlt, s.statements_of_cut (cut_last hjump (.inl rfl)),
        s.afterCut_jump rfl] at hwalk
      cases hwalk
      obtain ⟨e, rest, hstep⟩ := exists_step_of_unwind s active frame stack block
      rw [hstep] at hblock
      cases hblock

/-- An unused result is shown with the statement that it stands in front of. -/
theorem SoundIfShown.of_discard {st : Statement} {rest : Program} {tail : Bool}
    (hfits : st.Fits s) (hdiscard : st.isDiscard = true)
    (hplaced : Placed s.script.code pc st.code) (hlt : pc + byteSize st.code < bound)
    (hrest : rest.SoundIfShown s depth bound active (pushUnused active pc st stack)
      (pc + byteSize st.code) tail) :
    (step st rest).SoundIfShown s depth bound active stack pc tail := by
  intro walk block hwalk hshows hblock
  rw [s.resume_of_lt (by omega), s.statements_congr (hfits.cut_discard hdiscard hplaced hlt),
    ← s.resume_of_lt hlt] at hwalk
  cases hshows with
  | step hshows =>
    have hsound := hrest walk _ hwalk hshows (by
      rw [hblock, hfits.unwind_pushUnused, Block.prepend_cons])
    rw [List.isEmpty_eq_false_iff.mpr (pushUnused_ne_nil active pc st stack)] at hsound
    rwa [sound, hdiscard]

/-- A statement that is cut off is shown in front of the rest of the sequence. -/
theorem exists_rest_of_shown {st : Statement} {rest : Program} {walk : Walk} {block : Block}
    (hfits : st.Fits s) (hplaced : Placed s.script.code pc st.code)
    (hle : pc + byteSize st.code ≤ bound)
    (hend : st.isDiscard = false ∨ pc + byteSize st.code = bound)
    (hwalk : s.resume depth bound active stack pc = .ok walk)
    (hshows : (step st rest).Shows s.script block)
    (hblock : walk.block.split = Block.prepend (s.unwind active stack) block) :
    ∃ walk', s.resume depth bound active [] (pc + byteSize st.code) = .ok walk' ∧
      rest.Shows s.script walk'.block.split := by
  have hpos : 0 < byteSize st.code := byteSize_concat_pos _ _
  obtain ⟨c, hcut, hnext, hflow, hcactive, hstatement⟩ :=
    hfits.exists_cut hplaced hle hend active stack
  rw [s.resume_of_lt (by omega), s.statements_of_cut hcut, s.afterCut_next hflow, hstatement,
    hcactive, hnext] at hwalk
  obtain ⟨walk', hwalk', rfl⟩ := exists_of_map_eq_ok hwalk
  cases hshows with
  | step hshows =>
    -- The statement takes the results in front of it in both blocks, so what follows it is the
    -- same.
    have hstep := Block.prepend_inj hblock
    injection hstep with _ _ hrest
    exact ⟨walk', hwalk', hrest ▸ hshows⟩

end Program

/-! ### One arm of a chain -/

/-- The walk through the further arms of a chain shows them only if they are sound. -/
def Branches.SoundIfShown (s : Setting) (depth bound : Nat) (active : Option UInt32) (pc : Nat)
    (tail : Bool) (b : Branches) : Prop :=
  ∀ arms walk, s.arms depth bound active [] (pc + b.size) pc = .ok (arms, walk) →
    b.Shows s.script arms.split → b.sound tail = true

/-- A body that is shown is sound, so it is recovered and left for the end of the chain. Then the arms
behind it are walked as they should be. -/
theorem Branches.At.sound_body {condition : Term} {body : Program} {following : Branches}
    {result : Except Fault (Arms × Walk)}
    (h : (Branches.elseIf condition body following).At s depth bound pc)
    (hbody : body.SoundIfShown s (depth + 1) (armNext pc condition body following) active []
      (armStart pc condition) following.isDone)
    (hwalk : s.resume (depth + 1) (armNext pc condition body following) active []
      (armStart pc condition) = .ok walk)
    (hshows : body.Shows s.script walk.block.split)
    (harms : s.arms depth bound walk.active stack walk.exit (armNext pc condition body following) =
      result) :
    body.sound false following.isDone = true ∧
      s.arms depth bound active stack (armNext pc condition body following + following.size)
        (armNext pc condition body following) = result := by
  have hsound := hbody.sound_of_shows hwalk hshows
  obtain ⟨walk', hwalk', -, hexit, hactive⟩ :=
    h.bodyAt.recovered (fun _ => h.closed_body) (absurd rfl) hsound
  -- The recovered walk is the one that was given, so its exit is known.
  cases hwalk.symm.trans hwalk'
  rw [hexit, h.exitAt_body, hactive] at harms
  exact ⟨hsound, harms⟩

/-- A chain is shown by its arms in front of the rest of the sequence. Results that are left before a
chain are lost. -/
theorem Program.SoundIfShown.of_chain {condition : Term} {body rest : Program} {following : Branches}
    {tail : Bool} (h : (Branches.elseIf condition body following).At s depth bound pc)
    (hbody : body.SoundIfShown s (depth + 1) (armNext pc condition body following) active []
      (armStart pc condition) following.isDone)
    (hfollowing : following.SoundIfShown s depth bound active (armNext pc condition body following)
      (tail && rest.isDone))
    (hstop : (tail && rest.isDone) = true →
      armNext pc condition body following + following.size = bound)
    (hrest : rest.SoundIfShown s depth bound active []
      (pc + (Branches.elseIf condition body following).size) tail) :
    (chain condition body following rest).SoundIfShown s depth bound active stack pc tail := by
  intro walk block hwalk hshows hblock
  rw [h.resume_chain] at hwalk
  obtain ⟨walkBody, hwalkBody, hmap⟩ := exists_of_bind_eq_ok hwalk
  obtain ⟨⟨arms, walkRest⟩, harms, rfl⟩ := exists_of_map_eq_ok hmap
  rw [Walk.mapBlock_block, Block.split] at hblock
  cases stack with
  | cons frame stack =>
    -- A result should come first, but the block starts with the chain.
    obtain ⟨e, rest, hstep⟩ := exists_step_of_unwind s active frame stack block
    rw [hstep] at hblock
    cases hblock
  | nil =>
    rw [s.unwind_nil, Block.prepend_nil] at hblock
    subst hblock
    cases hshows with
    | chain hshowsBody hshowsArms hshowsRest =>
    obtain ⟨hbodySound, harms⟩ := h.sound_body hbody hwalkBody hshowsBody harms
    have harmsSound := hfollowing arms walkRest harms hshowsArms
    obtain ⟨arms', -, harmsEq⟩ : following.Recovered s depth bound active _ :=
      h.armsAt.recovered hstop harmsSound
    rw [harmsEq, ← Branches.end_elseIf] at harms
    obtain ⟨walkRest', hwalkRest, hpair⟩ := exists_of_map_eq_ok harms
    cases hpair
    have hrestSound := hrest.sound_of_shows hwalkRest hshowsRest
    simp [sound, hbodySound, harmsSound, hrestSound]

/-- What stands behind a chain: the end of the block if `tail` holds, and otherwise code that takes
no results from before it. -/
def Follows (s : Setting) (bound : Nat) (active : Option UInt32) (stop : Nat) (tail : Bool) : Prop :=
  (stop = bound → tail = true) ∧
    (stop < bound → ∀ stack, ∃ c, s.script.cut bound active stack stop = .ok c ∧
      Passes s (s.unwind active stack) c)

/-- An arm with a condition, with what its body and the arms behind it are shown by. -/
theorem Branches.At.sound_of_shown {condition : Term} {body : Program} {following : Branches}
    {tail : Bool} {arms : Arms}
    (h : (Branches.elseIf condition body following).At s depth bound pc)
    (hbody : body.SoundIfShown s (depth + 1) (armNext pc condition body following) active []
      (armStart pc condition) following.isDone)
    (hfollowing : following.SoundIfShown s depth bound active (armNext pc condition body following)
      tail)
    (harms : s.arms depth bound active [] (pc + (Branches.elseIf condition body following).size) pc =
      .ok (arms, walk)) :
    ∃ e block rest, arms.split = .elseIf e block rest ∧
      (body.Shows s.script block → following.Shows s.script rest →
        body.sound false following.isDone = true ∧ following.sound tail = true) := by
  rw [Branches.end_elseIf, h.arms_elseIf] at harms
  obtain ⟨walkBody, hwalkBody, hmap⟩ := exists_of_bind_eq_ok harms
  obtain ⟨⟨rest, walkRest⟩, hrest, hpair⟩ := exists_of_map_eq_ok hmap
  cases hpair
  refine ⟨_, _, _, rfl, fun hshowsBody hshowsArms => ?_⟩
  obtain ⟨hbodySound, harms⟩ := h.sound_body hbody hwalkBody hshowsBody hrest
  exact ⟨hbodySound, hfollowing rest walkRest harms hshowsArms⟩

namespace Program

/-- An unused result in an arm without a condition is shown with the statement that it stands in
front of. -/
theorem shownElse_of_discard {st : Statement} {rest : Program} {arms : Arms} (hfits : st.Fits s)
    (h : (step st rest).ShownElse s.script (s.unwind active stack) arms) :
    rest.ShownElse s.script (s.unwind active (pushUnused active pc st stack)) arms := by
  obtain ⟨block, hshows, harms⟩ := h.exists_otherwise rfl
  cases hshows with
  | step hshows =>
    refine .inl ⟨_, hshows, ?_⟩
    rw [harms, hfits.unwind_pushUnused, Block.prepend_cons]

/-- The first statement of an arm without a condition is shown in front of the rest of the arm. -/
theorem exists_rest_of_shownElse {st : Statement} {rest : Program} {arms : Arms}
    (hfits : st.Fits s) (hplaced : Placed s.script.code pc st.code)
    (hle : pc + (step st rest).size ≤ bound)
    (hend : st.isDiscard = false ∨ pc + byteSize st.code = bound) (hdepth : depth + 1 < s.limit)
    (harms : s.arms depth bound active stack (pc + (step st rest).size) pc = .ok (arms, walk))
    (hshown : (step st rest).ShownElse s.script (s.unwind active stack) arms.split) :
    ∃ walk', s.resume (depth + 1) (pc + (step st rest).size) active [] (pc + byteSize st.code) =
      .ok walk' ∧ rest.Shows s.script walk'.block.split := by
  have hpos : 0 < byteSize st.code := byteSize_concat_pos _ _
  rw [size] at hle harms ⊢
  obtain ⟨c, hcut, hnext, hflow, hcactive, hstatement⟩ :=
    hfits.exists_cut hplaced (by omega) hend active stack
  rw [s.arms_of_cut (by omega) (by omega) hcut, s.armAfterCut_next hflow, hstatement, hcactive,
    hnext] at harms
  obtain ⟨block, hshows, hsplit⟩ := hshown.exists_otherwise rfl
  cases hshows with
  | step hshows =>
  -- The rest of the arm is a block of its own, unless nothing is left of it.
  by_cases hlt : pc + byteSize st.code < pc + (byteSize st.code + rest.size)
  · rw [s.otherwise_of_lt hlt, s.block_eq hdepth, ← s.resume_of_lt hlt] at harms
    cases hwalk : s.resume (depth + 1) (pc + (byteSize st.code + rest.size)) active []
        (pc + byteSize st.code) with
    | error fault =>
      rw [hwalk] at harms
      cases harms
    | ok walk' =>
      rw [hwalk] at harms
      obtain ⟨walkRest, -, hpair⟩ := exists_of_map_eq_ok harms
      cases hpair
      have hstep := Block.prepend_inj (Arms.otherwise.inj hsplit)
      injection hstep with _ _ hrest
      exact ⟨walk', rfl, hrest ▸ hshows⟩
  · have hstop : pc + (byteSize st.code + rest.size) = pc + byteSize st.code := by omega
    rw [hstop, s.otherwise_of_le (Nat.le_refl _)] at harms
    obtain ⟨walkRest, -, hpair⟩ := exists_of_map_eq_ok harms
    cases hpair
    have hstep := Block.prepend_inj (Arms.otherwise.inj hsplit)
    injection hstep with _ _ hrest
    rw [hstop]
    exact ⟨_, s.resume_of_le (Nat.le_refl _), hrest ▸ hshows⟩

end Program

/-- An unused result that is all of an arm without a condition is shown only if the walk stops behind
it. -/
theorem Program.At.tail_of_shownElse {st : Statement} {tail : Bool} {arms : Arms}
    (h : (Program.step st .done).At s (depth + 1) bound pc) (hdiscard : st.isDiscard = true)
    (hfollows : Follows s bound active (pc + (Program.step st .done).size) tail)
    (harms : s.arms depth bound active stack (pc + (Program.step st .done).size) pc =
      .ok (arms, walk))
    (hshown : (Program.step st .done).ShownElse s.script (s.unwind active stack) arms.split) :
    tail = true := by
  obtain ⟨hplaced, hfits, -⟩ := h.step
  have hle := h.le_bound
  have hpos : 0 < byteSize st.code := byteSize_concat_pos _ _
  rw [Program.size, Program.size, Nat.add_zero] at hfollows harms hle
  by_cases hbound : pc + byteSize st.code = bound
  · exact hfollows.1 hbound
  · -- The cut goes on behind the chain and takes a statement from there into the arm.
    exfalso
    have hlt : pc + byteSize st.code < bound := by omega
    obtain ⟨c, hcut, hpasses⟩ := hfollows.2 hlt (pushUnused active pc st stack)
    have hnext := lt_next_of_cut hcut
    rw [← hfits.cut_discard hdiscard hplaced hlt] at hcut
    rw [s.arms_of_cut (by omega) (by omega) hcut] at harms
    rw [hfits.unwind_pushUnused] at hpasses
    exact not_shownElse_of_passes hpasses (Nat.le_of_lt hnext) harms hshown

/-- Where an arm without a condition starts with a chain, the next arm is read as one with a
condition. -/
theorem Program.At.exists_elseIf {p : Program} {depth' exit : Nat} {arms : Arms}
    (h : p.At s depth bound pc) (hchain : p.startsWithChain = true) (hexit : pc + p.size ≤ exit)
    (harms : s.arms depth' bound active stack exit pc = .ok (arms, walk)) :
    ∃ e block rest, arms = .elseIf e block rest := by
  cases p with
  | chain condition body following rest =>
    have hle := h.le_bound
    have hpos : 0 < (Program.chain condition body following rest).size := by
      simp only [Program.size]
      omega
    obtain ⟨c, hcut, -, hflow, -⟩ := h.chain.1.exists_cut active stack
    rw [s.arms_of_cut (by omega) (by omega) hcut] at harms
    exact exists_elseIf_of_armAfterCut hflow harms
  | _ => cases hchain

/-- An arm that passes over an empty chain shows what follows as the arm without a condition. -/
theorem Branches.At.exists_passed {condition : Term} {exit : Nat} {e : Expr} {block : Block}
    {rest : Arms}
    (h : (Branches.elseIf condition .done .done).At s depth bound pc)
    (hexit : armNext pc condition .done .done ≤ exit)
    (harms : s.arms depth bound active [] exit pc = .ok (.elseIf e block rest, walk)) :
    s.arms depth bound active [] exit (armNext pc condition .done .done) = .ok (rest, walk) := by
  have hlt := lt_armNext pc condition .done .done
  obtain ⟨c, hcut, hcnext, hflow, hactive, hcondition⟩ := h.exists_cut active []
  rw [s.arms_of_cut (by omega) h.lt_bound hcut, s.armAfterCut_branch_empty hflow hcnext, hactive,
    hcondition] at harms
  obtain ⟨⟨rest', walk'⟩, hrest, hpair⟩ := exists_of_map_eq_ok harms
  cases hpair
  exact hrest

/-! ### Whole programs -/

mutual
/-- **Only sound sequences are shown.** The induction is on the sequence. What comes before a place
is recovered as it was written, so the walk is known up to there. -/
theorem Program.At.soundIfShown : ∀ {p : Program} {depth bound pc : Nat} {tail : Bool}
    {stack : List Frame}, p.At s depth bound pc →
      (p.returns = false → Closed s.script bound (pc + p.size) tail) →
      (stack ≠ [] → pc < bound) → p.SoundIfShown s depth bound active stack pc tail
  | .done, _, _, _, _, _, _, hclosed, hstack => .of_done (hclosed rfl) hstack
  | .ret _, _, _, _, _, _, _, _, _ => fun _ _ _ _ _ => rfl
  | .step st rest, _, bound, pc, tail, stack, h, hclosed, hstack => by
    obtain ⟨hplaced, hfits, hrest⟩ := h.step
    rw [Program.returns, Program.size, ← Nat.add_assoc] at hclosed
    have hle : pc + byteSize st.code ≤ bound :=
      Nat.le_trans (Nat.le_add_right _ _) hrest.le_bound
    cases hdiscard : st.isDiscard with
    | false =>
      intro walk block hwalk hshows hblock
      obtain ⟨walk', hwalk', hshows'⟩ :=
        Program.exists_rest_of_shown hfits hplaced hle (.inl hdiscard) hwalk hshows hblock
      have hsoundIf : rest.SoundIfShown s _ bound active [] _ tail :=
        hrest.soundIfShown hclosed (absurd rfl)
      rw [Program.sound, hdiscard]
      exact hsoundIf.sound_of_shows hwalk' hshows'
    | true =>
      -- An unused result goes on the stack if the walk does not stop behind it.
      rcases Nat.lt_or_eq_of_le hle with hlt | hbound
      · exact .of_discard hfits hdiscard hplaced hlt (hrest.soundIfShown hclosed fun _ => hlt)
      · -- The bound is reached with the call, so the walk stops where its result is shown.
        obtain ⟨rfl, rfl⟩ := hrest.done_of_eq_bound hbound hclosed
        intro walk block hwalk hshows hblock
        rw [Program.sound, hdiscard]
        rfl
  | .chain condition body arms rest, _, bound, _, tail, stack, h, hclosed, hstack => by
    obtain ⟨harms, hrest⟩ := h.chain
    rw [Program.returns, Program.size_chain, ← Nat.add_assoc] at hclosed
    refine .of_chain harms
      (harms.bodyAt.soundIfShown (fun _ => harms.closed_body) (absurd rfl))
      (harms.armsAt.soundIfShown ⟨fun hstop => ?_, fun hlt stack => ?_⟩)
      (Branches.stop_eq_bound hclosed)
      (hrest.soundIfShown hclosed (absurd rfl))
    · -- The chain reaches the bound, so nothing follows it and no jump closes the block.
      rw [← Branches.end_elseIf] at hstop
      obtain ⟨rfl, rfl⟩ := hrest.done_of_eq_bound hstop hclosed
      rfl
    · rw [← Branches.end_elseIf] at hlt ⊢
      exact hrest.exists_passes hclosed hlt stack
/-- **Only sound arms without a condition are shown.** -/
theorem Program.At.elseSoundIfShown : ∀ {p : Program} {depth bound pc : Nat} {tail : Bool}
    {stack : List Frame} {arms : Arms} {walk : Walk}, p.At s (depth + 1) bound pc →
      p.isDone = false → Follows s bound active (pc + p.size) tail →
      s.arms depth bound active stack (pc + p.size) pc = .ok (arms, walk) →
      p.ShownElse s.script (s.unwind active stack) arms.split →
      p.elseSound (!stack.isEmpty) tail = true
  | .done, _, _, _, _, _, _, _, _, hsome, _, _, _ => by cases hsome
  | .ret _, _, _, _, _, _, _, _, _, _, _, _, _ => rfl
  | .step st rest, depth, bound, pc, tail, stack, arms, walk, h, _, hfollows, harms, hshown => by
    obtain ⟨hplaced, hfits, hrest⟩ := h.step
    have hle := h.le_bound
    have hpos : 0 < byteSize st.code := byteSize_concat_pos _ _
    have hend : pc + byteSize st.code + rest.size = pc + (Program.step st rest).size := by
      rw [Program.size, Nat.add_assoc]
    rw [Program.elseSound]
    cases hdiscard : st.isDiscard with
    | false =>
      obtain ⟨walk', hwalk', hshows⟩ := Program.exists_rest_of_shownElse hfits hplaced hle
        (.inl hdiscard) h.fits.depth_lt harms hshown
      have hrestWithin := hrest.within (Nat.le_of_eq hend) hle
      have hsoundIf : rest.SoundIfShown s (depth + 1) _ active [] _ true :=
        hrestWithin.soundIfShown (fun _ => .of_tail hend) (absurd rfl)
      exact hsoundIf.sound_of_shows hwalk' hshows
    | true =>
      rw [if_pos rfl]
      have hne := List.isEmpty_eq_false_iff.mpr (pushUnused_ne_nil active pc st stack)
      cases hdone : rest.isDone with
      | false =>
        have hsome := Program.size_pos hdone
        rw [s.arms_congr (by omega) (by omega) (by omega) (by omega)
          (hfits.cut_discard hdiscard hplaced (by omega)), ← hend] at harms
        rw [← hend] at hfollows
        have hsound := hrest.elseSoundIfShown hdone hfollows harms
          (Program.shownElse_of_discard hfits hshown)
        rwa [hne] at hsound
      | true =>
        obtain rfl := Program.eq_done_of_isDone hdone
        exact h.tail_of_shownElse hdiscard hfollows harms hshown
  | .chain condition body following more, depth, bound, pc, tail, stack, arms, walk, h, _, hfollows,
      harms, hshown => by
    obtain ⟨hchainAt, hmoreAt⟩ := h.chain
    have hchainAt := hchainAt.mono (Nat.le_succ depth)
    rw [Branches.end_elseIf] at hmoreAt
    -- The walk reads the chain as an arm with a condition, so it is shown as one.
    obtain ⟨e, block, rest, rfl⟩ := h.exists_elseIf rfl (Nat.le_refl _) harms
    rcases hshown with ⟨shown, -, hsplit⟩ | ⟨hnil, hshows⟩
    · cases hsplit
    obtain rfl := s.unwind_eq_nil.mp hnil
    rw [Program.elseSound, List.isEmpty_nil, Bool.not_true, Bool.not_false, Bool.true_and]
    rw [Arms.split] at hshows
    generalize hblock : block.split = blockSplit, hrest : rest.split = restSplit at hshows
    cases hshows with
    | joined hshowsBody hshowsArms =>
      rw [Program.size_chain, Program.size, Nat.add_zero] at hfollows harms
      obtain ⟨e', block', rest', hsplit, hsound⟩ := hchainAt.sound_of_shown
        (hchainAt.bodyAt.soundIfShown (fun _ => hchainAt.closed_body) (absurd rfl))
        (hchainAt.armsAt.soundIfShown (Branches.end_elseIf .. ▸ hfollows)) harms
      cases hsplit
      subst hblock hrest
      simp only [Program.isDone, if_true, Bool.and_eq_true]
      exact hsound hshowsBody hshowsArms
    | passed hsome hshowsMore =>
      rw [Program.size_passed] at hfollows harms
      have harmsMore := hchainAt.exists_passed (Nat.le_add_right _ _) harms
      have hsound := hmoreAt.elseSoundIfShown hsome hfollows harmsMore
        (.inl ⟨_, hshowsMore, by rw [hrest, s.unwind_nil, Block.prepend_nil]⟩)
      -- A second chain would again be read as an arm with a condition.
      have hchain : more.startsWithChain = false := by
        rw [← Bool.not_eq_true]
        intro hchain
        obtain ⟨e', block', rest', rfl⟩ := hmoreAt.exists_elseIf hchain (Nat.le_refl _) harmsMore
        cases hrest
      rw [List.isEmpty_nil, Bool.not_true] at hsound
      have hdone : Program.done.isDone = true ∧ Branches.done.isDone = true := ⟨rfl, rfl⟩
      simp [hsome, hchain, hsound, hdone]
/-- **Only sound arms are shown.** -/
theorem Branches.At.soundIfShown : ∀ {b : Branches} {depth bound pc : Nat} {tail : Bool},
    b.At s depth bound pc → Follows s bound active (pc + b.size) tail →
      b.SoundIfShown s depth bound active pc tail
  | .done, _, _, _, _, _, _ => fun _ _ _ _ => rfl
  | .elseIf condition body following, _, _, _, _, h, hfollows => by
    intro arms walk harms hshows
    rw [Branches.end_elseIf] at hfollows
    obtain ⟨e, block, rest, hsplit, hsound⟩ := h.sound_of_shown
      (h.bodyAt.soundIfShown (fun _ => h.closed_body) (absurd rfl))
      (h.armsAt.soundIfShown hfollows) harms
    rw [hsplit] at hshows
    cases hshows with
    | elseIf hshowsBody hshowsArms =>
      rw [Branches.sound, Bool.and_eq_true]
      exact hsound hshowsBody hshowsArms
  | .otherwise body, depth, bound, pc, _, h, hfollows => by
    intro arms walk harms hshows
    have hbody : body.At s (depth + 1) bound pc := ⟨h.placed, h.fits.2, h.le_bound, h.bound_lt⟩
    exact hbody.elseSoundIfShown h.fits.1 hfollows harms (.inr ⟨s.unwind_nil active, hshows⟩)
end

/-! ### The exact conditions -/

variable {script : Script} {sym : Symbol} {limit : Nat} {p : Program}

/-- A body is shown by its recovered statements if and only if its program is sound. -/
theorem LaidOut.exists_shows_iff (h : LaidOut script sym limit p) :
    (∃ block, script.bodyBlock sym limit = .ok block ∧ p.Shows script block.split) ↔
      p.sound false false = true := by
  refine ⟨?_, h.exists_shows⟩
  rintro ⟨block, hblock, hshows⟩
  obtain ⟨start, hat, hbody⟩ := h.exists_at
  rw [hbody] at hblock
  obtain ⟨walk, hwalk, rfl⟩ := exists_of_map_eq_ok hblock
  have hsound : p.SoundIfShown ⟨script, sym, limit⟩ 0 script.code.size sym.initialActive [] start
      false := hat.soundIfShown h.closed (absurd rfl)
  exact hsound.sound_of_shows hwalk hshows

/-- **Arms that start with a chain.** Where unused results are settled, a body is shown if and only
if each arm without a condition that starts with a chain is nothing but this chain, or the chain is a
condition with an empty body and no other chain follows it. Then the source text of the body is
recovered, with such chains joined. -/
theorem exists_shows_iff_elsesKept (h : LaidOut script sym limit p)
    (hsettled : p.settled false = true) (indent : Nat) :
    ((∃ block, script.bodyBlock sym limit = .ok block ∧ p.Shows script block.split) ↔
      p.elsesKept = true) ∧
    (p.elsesKept = true →
      script.decompileBody sym indent limit = .ok (p.joined.bodyText script sym indent)) := by
  have hsound := Program.sound_of_settled false hsettled
  refine ⟨by rw [h.exists_shows_iff, hsound], fun hkept => ?_⟩
  exact h.decompileBody_joined (hsound.trans hkept) indent

/-- An arm that is all a chain, and one that starts with an empty chain. -/
def keptProgram : Program :=
  .chain (.global 1) .done (.otherwise (.chain (.global 2) (.step (.assign 3 (.int 2)) .done) .done
      .done))
    (.chain (.global 1) .done (.otherwise (.chain (.global 2) .done .done
      (.step (.assign 3 (.int 3)) .done)))
    (.ret none))

/-- The chain at the start of an arm without a condition is shown as further arms. -/
theorem keptProgram_shown : keptProgram.settled false = true ∧ keptProgram.elsesKept = true ∧
    (sampleScript keptProgram).decompileBody sampleCallable 4 256 = .ok (unlines
      ["    if (A) \x7b",
        "    \x7d else if (B) \x7b",
        "        X = 2;",
        "    \x7d;",
        "    if (A) \x7b",
        "    \x7d else if (B) \x7b",
        "    \x7d else \x7b",
        "        X = 3;",
        "    \x7d;"]) := by
  have hfits (p : Program) : keptProgram.Fits ⟨sampleScript p, sampleCallable, 256⟩ 0 := by
    simp [keptProgram, Program.Fits, Branches.Fits, Statement.Fits, Result.Fits, Term.Fits,
      Term.height, Program.isDone, sample_int, sample_global]
    rfl
  refine ⟨rfl, rfl, ?_⟩
  rw [(exists_shows_iff_elsesKept (laidOut_sample (by decide) (hfits _) rfl) rfl 4).2 rfl]
  rfl

/-- An arm that goes on behind the chain at its start. -/
def leftProgram : Program :=
  .chain (.global 1) (.step (.assign 3 (.int 1)) .done)
    (.otherwise (.chain (.global 2) (.step (.assign 3 (.int 2)) .done) .done
      (.step (.assign 3 (.int 3)) .done)))
    (.ret none)

/-- What stands behind the chain in an arm without a condition is printed behind the outer chain. -/
theorem leftProgram_not_shown : leftProgram.settled false = true ∧
    LaidOut (sampleScript leftProgram) sampleCallable 256 leftProgram ∧
    (¬∃ block, (sampleScript leftProgram).bodyBlock sampleCallable 256 = .ok block ∧
      leftProgram.Shows (sampleScript leftProgram) block.split) ∧
    ((sampleScript leftProgram).decompileBody sampleCallable 4 256).toOption = some (unlines
      ["    if (A) \x7b",
        "        X = 1;",
        "    \x7d else if (B) \x7b",
        "        X = 2;",
        "    \x7d;",
        "    X = 3;"]) := by
  have hfits (p : Program) : leftProgram.Fits ⟨sampleScript p, sampleCallable, 256⟩ 0 := by
    simp [leftProgram, Program.Fits, Branches.Fits, Statement.Fits, Result.Fits, Term.Fits,
      Term.height, Program.isDone, sample_int, sample_global]
    rfl
  have hlaid : LaidOut (sampleScript leftProgram) sampleCallable 256 leftProgram :=
    laidOut_sample (by decide) (hfits _) rfl
  refine ⟨rfl, hlaid, fun hshown => ?_, by decide +kernel⟩
  cases hlaid.exists_shows_iff.mp hshown

/-- **Unused results.** Where no arm without a condition starts with a chain, a body is shown if and
only if its unused results stand where the walk finds them at the end of a statement of their block.
Then the source text of the body is recovered. -/
theorem exists_shows_iff_callsSafe (h : LaidOut script sym limit p) (hplain : p.plainElses = true)
    (indent : Nat) :
    ((∃ block, script.bodyBlock sym limit = .ok block ∧ p.Shows script block.split) ↔
      p.callsSafe false false = true) ∧
    (p.callsSafe false false = true →
      script.decompileBody sym indent limit = .ok (p.bodyText script sym indent)) := by
  have hsound := Program.sound_of_plainElses false false hplain
  refine ⟨by rw [h.exists_shows_iff, hsound], fun hsafe => ?_⟩
  rw [h.decompileBody_joined (hsound.trans hsafe), Program.joined_eq hplain]

/-- An unused result at the end of an arm that no other arm follows, and one at the end of an arm
without a condition. -/
def unusedProgram : Program :=
  .chain (.global 1) (.step (.discard (.host 4) []) .done) .done
    (.chain (.global 1) .done (.otherwise (.step (.assign 3 (.int 1)) (.step (.discard (.host 4) [])
      .done)))
    (.ret none))

/-- Unused results at the ends of arms stay in their arms. -/
theorem unusedProgram_shown : unusedProgram.plainElses = true ∧
    (sampleScript unusedProgram).decompileBody sampleCallable 4 256 = .ok (unlines
      ["    if (A) \x7b",
        "        RAND();",
        "    \x7d;",
        "    if (A) \x7b",
        "    \x7d else \x7b",
        "        X = 1;",
        "        RAND();",
        "    \x7d;"]) := by
  have hfits (p : Program) : unusedProgram.Fits ⟨sampleScript p, sampleCallable, 256⟩ 0 := by
    simp [unusedProgram, Program.Fits, Branches.Fits, Statement.Fits, Result.Fits, Term.Fits,
      Term.AllFit, Term.height, Term.heights, Program.isDone, sample_int, sample_global,
      sample_host]
    rfl
  refine ⟨rfl, ?_⟩
  rw [(exists_shows_iff_callsSafe (laidOut_sample (by decide) (hfits _) rfl) rfl 4).2 rfl]
  rfl

/-- An unused result in front of a chain. -/
def lostProgram : Program :=
  .step (.discard (.host 4) []) (.chain (.global 1) (.step (.assign 3 (.int 1)) .done) .done
    (.step (.assign 3 (.int 3)) (.ret none)))

/-- An unused result in front of a chain is printed behind the chain. -/
theorem lostProgram_not_shown : lostProgram.plainElses = true ∧
    LaidOut (sampleScript lostProgram) sampleCallable 256 lostProgram ∧
    (¬∃ block, (sampleScript lostProgram).bodyBlock sampleCallable 256 = .ok block ∧
      lostProgram.Shows (sampleScript lostProgram) block.split) ∧
    ((sampleScript lostProgram).decompileBody sampleCallable 4 256).toOption = some (unlines
      ["    if (A) \x7b",
        "        X = 1;",
        "    \x7d;",
        "    RAND();",
        "    X = 3;"]) := by
  have hfits (p : Program) : lostProgram.Fits ⟨sampleScript p, sampleCallable, 256⟩ 0 := by
    simp [lostProgram, Program.Fits, Branches.Fits, Statement.Fits, Result.Fits, Term.Fits,
      Term.AllFit, Term.height, Term.heights, sample_int, sample_global, sample_host]
    rfl
  have hlaid : LaidOut (sampleScript lostProgram) sampleCallable 256 lostProgram :=
    laidOut_sample (by decide) (hfits _) rfl
  refine ⟨rfl, hlaid, fun hshown => ?_, by decide +kernel⟩
  cases hlaid.exists_shows_iff.mp hshown

end Daedalus.Structured
