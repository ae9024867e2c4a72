import Daedalus.Proofs.Turns

/-! # Instructions are taken once

A walk takes instructions from the code where it cuts off a statement. Behind an arm it goes on at
the target of the branch over the arm, wherever the walk through the arm has ended. In code that is
properly nested this never goes back: the walk through each block keeps to the positions from its
start to its bound, and the blocks and turns that follow one another start where the last one is
bounded.

The main result is `Setting.takenOnce`: in the walk through a body of such code the instructions are
taken from lower to higher positions, so none of them comes into the text twice. -/

namespace Daedalus

/-- The positions of the instructions of frames. -/
def positions (frames : List Frame) : List Nat := frames.map fun frame => frame.instr.pc

/-- Control does not branch beyond a bound. -/
def Flow.BranchesTo (bound : Nat) : Flow → Prop
  | .branch target => target ≤ bound
  | .next | .ret | .jump _ => True

instance (bound : Nat) : DecidablePred (Flow.BranchesTo bound)
  | .branch target => inferInstanceAs (Decidable (target ≤ bound))
  | .next | .ret | .jump _ => .isTrue trivial

namespace Script

variable {script : Script} {bound pc p : Nat} {active : Option UInt32} {stack : List Frame} {c : Cut}

/-! ### Cutting off a statement -/

/-- The positions of the instructions that are taken to cut off the statement at `pc`. -/
def taken (script : Script) (bound pc : Nat) : List Nat :=
  (script.cutTurns bound pc).filter fun turn => (decode script.code turn).isOk

/-- Where decoding fails, no instruction is taken. -/
theorem taken_of_error {fault : Fault} (h : decode script.code pc = .error fault) :
    script.taken bound pc = [] := by
  have hnot : ¬(decode script.code pc).isOk = true := by rw [h]; exact Bool.false_ne_true
  rw [taken, cutTurns_of_error h]
  exact List.filter_cons_of_neg hnot

/-- An instruction is taken, and the ones behind it unless it ends the statement or the block. -/
theorem taken_of_ok {instr : Instr} (h : decode script.code pc = .ok instr) :
    script.taken bound pc =
      if script.endsStatement instr.op || bound ≤ instr.next then [pc]
      else pc :: script.taken bound instr.next := by
  have hok : (decode script.code pc).isOk = true := by rw [h]; rfl
  rw [taken, cutTurns_of_ok h]
  split
  · exact List.filter_cons_of_pos hok
  · exact List.filter_cons_of_pos hok

/-- Instructions are taken from lower to higher positions. -/
theorem taken_pairwise : (script.taken bound pc).Pairwise (· < ·) :=
  cutTurns_pairwise.1.filter _

/-- No instruction before the statement is taken. -/
theorem le_of_mem_taken (h : p ∈ script.taken bound pc) : pc ≤ p :=
  cutTurns_pairwise.2 p (List.mem_filter.mp h).1

/-- Only instructions of the code are taken. -/
theorem lt_size_of_mem_taken (h : p ∈ script.taken bound pc) : p < script.code.size := by
  have hok := (List.mem_filter.mp h).2
  cases hdecode : decode script.code p with
  | error fault =>
    rw [hdecode] at hok
    cases hok
  | ok instr =>
    exact Nat.lt_of_lt_of_le (lt_next_of_decode hdecode) (next_le_of_decode hdecode)

/-- A cut that starts before its bound takes no instruction at or behind it. -/
theorem lt_bound_of_mem_taken (hpc : pc < bound) (h : p ∈ script.taken bound pc) : p < bound := by
  fun_induction Script.cutTurns script bound pc with
  | case1 pc fault hdecode =>
    rw [taken_of_error hdecode] at h
    cases h
  | case2 pc instr hdecode hend =>
    rw [taken_of_ok hdecode, if_pos hend] at h
    exact List.mem_singleton.mp h ▸ hpc
  | case3 pc instr hdecode hend ih =>
    rw [taken_of_ok hdecode, if_neg hend] at h
    rw [Bool.or_eq_true, not_or, decide_eq_true_iff, Nat.not_le] at hend
    rcases List.mem_cons.mp h with rfl | h
    · exact hpc
    · exact ih hend.2 h

/-- What a cut takes stands before the position behind it. -/
theorem lt_next_of_mem_taken (hcut : script.cut bound active stack pc = .ok c)
    (h : p ∈ script.taken bound pc) : p < c.next := by
  fun_induction Script.cut script bound active stack pc with
  | case1 => cases hcut
  | case2 active stack pc instr hdecode frame hend =>
    cases hcut
    rw [taken_of_ok hdecode, if_pos hend] at h
    exact List.mem_singleton.mp h ▸ lt_next_of_decode hdecode
  | case3 active stack pc instr hdecode frame hend ih =>
    rw [taken_of_ok hdecode, if_neg hend] at h
    rcases List.mem_cons.mp h with rfl | h
    · exact Nat.lt_trans (lt_next_of_decode hdecode) (lt_next_of_cut hcut)
    · exact ih hcut h

/-- An instruction adds no more than itself to the stack. -/
theorem count_positions_push_le {instr : Instr} (hdecode : decode script.code pc = .ok instr) :
    (positions ((Frame.ofInstr instr active).push stack)).count p ≤
      (pc :: positions stack).count p := by
  have hpc : (Frame.ofInstr instr active).instr.pc = pc := pc_of_decode hdecode
  rw [Frame.push]
  split
  · rw [positions, List.map_cons, hpc]
    exact Nat.le_refl _
  · exact List.count_le_count_cons

/-- The frames of a cut are among those it was handed and the instructions that it takes. -/
theorem count_positions_cut_le (hcut : script.cut bound active stack pc = .ok c) :
    (positions (c.last :: c.stack)).count p ≤
      (positions stack).count p + (script.taken bound pc).count p := by
  fun_induction Script.cut script bound active stack pc with
  | case1 => cases hcut
  | case2 active stack pc instr hdecode frame hend =>
    cases hcut
    have hpc : frame.instr.pc = pc := pc_of_decode hdecode
    apply Nat.le_of_eq
    rw [taken_of_ok hdecode, if_pos hend, positions, List.map_cons, hpc, ← positions,
      ← List.singleton_append, List.count_append, Nat.add_comm]
  | case3 active stack pc instr hdecode frame hend ih =>
    -- The frame that is pushed comes from this turn, and the rest from the turns behind it.
    have hpush : (positions (frame.push stack)).count p ≤ (pc :: positions stack).count p :=
      count_positions_push_le hdecode
    have hrest := ih hcut
    rw [taken_of_ok hdecode, if_neg hend]
    simp only [List.count_cons] at hpush ⊢
    omega

end Script

namespace Setting

/-! ### Properly nested runs -/

/-- The positions of the instructions that a call takes by itself. -/
def taken (s : Setting) (call : Call) : List Nat :=
  if call.IsTurn then s.script.taken call.bound call.pc else []

/-- The positions of the instructions that are taken in the run of a call, in order. -/
def takenIn (s : Setting) (call : Call) : List Nat := (s.trace call).flatMap s.taken

/-- The chain of a call, if it walks the further arms of one, was left for no position behind the
block of the chain. -/
def Call.ExitsWithin : Call → Prop
  | .arms _ bound _ _ exit _ => exit ≤ bound
  | .block _ _ _ _ | .statements _ _ _ _ _ | .resume _ _ _ _ _ | .otherwise _ _ _ _ _ _ _ => True

instance : DecidablePred Call.ExitsWithin
  | .arms _ bound _ _ exit _ => inferInstanceAs (Decidable (exit ≤ bound))
  | .block _ _ _ _ | .statements _ _ _ _ _ | .resume _ _ _ _ _ | .otherwise _ _ _ _ _ _ _ =>
    .isTrue trivial

/-- The blocks of a run are properly nested: no branch leaves the block in which it is met, and no
arm of a chain is left for a position behind the block of the chain. -/
structure WellNested (s : Setting) (root : Call) : Prop where
  branches : ∀ call ∈ s.trace root, ∀ c ∈ s.cut? call, c.flow.BranchesTo call.bound
  exits : ∀ call ∈ s.trace root, call.ExitsWithin

/-- A call keeps to its bound: its first instruction stands before it, unless the code ends there, and
its arms are left for no position behind it. -/
def Call.KeepsTo (size : Nat) : Call → Prop
  | .block _ bound _ pc | .statements _ bound _ _ pc => pc < bound ∨ size ≤ bound
  | .resume _ _ _ _ _ => True
  | .arms _ bound _ _ exit _ | .otherwise _ bound _ _ _ exit _ => exit ≤ bound

variable {s : Setting} {call next : Call} {p : Nat}

/-- A call takes its own instructions, and then its calls take theirs. -/
theorem takenIn_eq (call : Call) :
    s.takenIn call = s.taken call ++ (s.calls call).flatMap s.takenIn :=
  flatMap_trace s.taken call

/-- Only turns take instructions, those of their statements. -/
theorem isTurn_of_mem_taken (h : p ∈ s.taken call) :
    call.IsTurn ∧ p ∈ s.script.taken call.bound call.pc := by
  rw [taken] at h
  split at h
  · next hturn => exact ⟨hturn, h⟩
  · cases h

/-- The runs of the calls that a call makes are part of its run. -/
theorem mem_trace_of_mem_calls (h : next ∈ s.calls call) {later : Call}
    (hlater : later ∈ s.trace next) : later ∈ s.trace call := by
  rw [trace_eq]
  exact List.mem_cons_of_mem _ (List.mem_flatMap.mpr ⟨next, h, hlater⟩)

/-- A call belongs to its own run. -/
theorem self_mem_trace (call : Call) : call ∈ s.trace call := by
  rw [trace_eq]
  exact List.mem_cons_self

/-- Each call of a properly nested run has a properly nested run. -/
theorem WellNested.of_mem_calls (h : s.WellNested call) (hnext : next ∈ s.calls call) :
    s.WellNested next where
  branches later hlater := h.branches later (mem_trace_of_mem_calls hnext hlater)
  exits later hlater := h.exits later (mem_trace_of_mem_calls hnext hlater)

/-- A turn goes on behind the statement that it cuts off. -/
theorem exists_cut_of_makes (hturn : call.IsTurn) (h : s.Makes call next) :
    ∃ c, s.script.cut call.bound call.active call.stack call.pc = .ok c ∧ c.next ≤ next.pc := by
  cases h with
  | enter | goOn | lastArm | lastArmEnded | behindLastArm => exact hturn.elim
  | noArm hended => exact absurd hturn hended
  | next hcut | arm hcut | emptyElseIf hcut | elseIf hcut | otherwise hcut =>
    exact ⟨_, hcut, Nat.le_refl _⟩
  | behindArm hcut _ hforward | behindElseIf hcut _ hforward =>
    exact ⟨_, hcut, Nat.le_of_lt hforward⟩

/-- What follows an inner block starts behind the bound of that block. -/
theorem blockThen_pairwise {depth bound pc : Nat} {active : Option UInt32} {more : Walk → Call}
    (h : ∀ body, bound ≤ (more body).pc) :
    (s.blockThen depth bound active pc more).Pairwise fun first second =>
      first.bound ≤ second.pc := by
  rw [blockThen]
  split
  · exact List.pairwise_singleton _ _
  · exact List.pairwise_pair.mpr (h _)

/-- Behind a cut, each call starts behind the bounds of the calls before it. -/
theorem callsAfterCut_pairwise (s : Setting) (depth bound : Nat) (c : Cut) :
    (s.callsAfterCut depth bound c).Pairwise fun first second => first.bound ≤ second.pc := by
  unfold callsAfterCut
  split
  · dsimp only
    split
    · exact .nil
    · split
      · exact List.pairwise_singleton _ _
      · exact blockThen_pairwise fun _ => Nat.le_refl _
  · exact .nil
  · exact .nil
  · exact List.pairwise_singleton _ _

/-- Behind the cut of an arm, each call starts behind the bounds of the calls before it. -/
theorem callsAfterArm_pairwise (s : Setting) (depth bound exit : Nat) (c : Cut) :
    (s.callsAfterArm depth bound exit c).Pairwise fun first second => first.bound ≤ second.pc := by
  unfold callsAfterArm
  split
  · dsimp only
    split
    · exact .nil
    · split
      · exact List.pairwise_singleton _ _
      · exact blockThen_pairwise fun _ => Nat.le_refl _
  all_goals exact List.pairwise_singleton _ _

/-- **Of the calls that a call makes, each starts where the one before it is bounded.** -/
theorem calls_pairwise (s : Setting) (call : Call) :
    (s.calls call).Pairwise fun first second => first.bound ≤ second.pc := by
  cases call with
  | block depth bound active pc =>
    rw [calls]
    split
    · exact .nil
    · exact List.pairwise_singleton _ _
  | statements depth bound active stack pc =>
    rw [calls]
    split
    · exact .nil
    · exact s.callsAfterCut_pairwise depth bound _
  | resume depth bound active stack pc =>
    rw [calls]
    split
    · exact .nil
    · exact List.pairwise_singleton _ _
  | arms depth bound active stack exit pc =>
    rw [calls]
    split
    · split
      · exact .nil
      · exact s.callsAfterArm_pairwise depth bound exit _
    · exact List.pairwise_singleton _ _
  | otherwise depth bound active stack opening exit pc =>
    rw [calls]
    split
    · -- What follows the last arm starts at the exit of the chain, where the arm is bounded.
      exact blockThen_pairwise fun _ => Nat.le_refl _
    · exact List.pairwise_singleton _ _

/-! ### Bounds -/

/-- In a properly nested run the branch of a turn stays within the block. -/
theorem WellNested.target_le {c : Cut} {target : Nat} (h : s.WellNested call) (hturn : call.IsTurn)
    (hcut : s.script.cut call.bound call.active call.stack call.pc = .ok c)
    (hflow : c.flow = .branch target) : target ≤ call.bound := by
  have hbranches := h.branches call (self_mem_trace call) c (cut?_of_isTurn hturn hcut)
  rw [hflow] at hbranches
  exact hbranches

/-- In a properly nested run, calls that keep to their bounds make calls that do so too, and whose
bounds are no higher. -/
theorem keepsTo_of_mem_calls (hnested : s.WellNested call)
    (hkeeps : call.KeepsTo s.script.code.size) (h : next ∈ s.calls call) :
    next.KeepsTo s.script.code.size ∧ next.bound ≤ call.bound := by
  have hexits := (hnested.of_mem_calls h).exits next (self_mem_trace next)
  cases makes_of_mem_calls h with
  | enter => exact ⟨hkeeps, Nat.le_refl _⟩
  | goOn hbound => exact ⟨.inl hbound, Nat.le_refl _⟩
  | next | noArm | behindLastArm | lastArmEnded => exact ⟨trivial, Nat.le_refl _⟩
  | arm hcut hflow hforward => exact ⟨.inl hforward, hnested.target_le trivial hcut hflow⟩
  | behindArm | emptyElseIf | behindElseIf => exact ⟨hexits, Nat.le_refl _⟩
  | @elseIf depth bound pc exit target active stack c hcut hflow hforward =>
    -- Only a turn opens a block.
    have hturn : pc < exit ∧ pc < bound := by
      by_cases hturn : pc < exit ∧ pc < bound
      · exact hturn
      · rw [calls, if_neg hturn] at h
        cases List.mem_singleton.mp h
    exact ⟨.inl hforward, hnested.target_le hturn hcut hflow⟩
  | otherwise => exact ⟨hkeeps, Nat.le_refl _⟩
  | lastArm hexit => exact ⟨.inl hexit, hkeeps⟩

/-- A call that keeps to its bound takes no instruction at or behind it. -/
theorem lt_bound_of_mem_taken (hkeeps : call.KeepsTo s.script.code.size) (h : p ∈ s.taken call) :
    p < call.bound := by
  obtain ⟨hturn, hmem⟩ := isTurn_of_mem_taken h
  cases call with
  | block | resume | otherwise => exact hturn.elim
  | statements depth bound active stack pc =>
    rcases hkeeps with hpc | hsize
    · exact Script.lt_bound_of_mem_taken hpc hmem
    · exact Nat.lt_of_lt_of_le (Script.lt_size_of_mem_taken hmem) hsize
  | arms depth bound active stack exit pc => exact Script.lt_bound_of_mem_taken hturn.2 hmem

/-- What a turn takes stands before the calls that it makes. -/
theorem lt_pc_of_mem_taken (h : p ∈ s.taken call) (hnext : next ∈ s.calls call) : p < next.pc := by
  obtain ⟨hturn, hmem⟩ := isTurn_of_mem_taken h
  obtain ⟨c, hcut, hle⟩ := exists_cut_of_makes hturn (makes_of_mem_calls hnext)
  exact Nat.lt_of_lt_of_le (Script.lt_next_of_mem_taken hcut hmem) hle

/-- A run takes no instruction before its start. -/
theorem le_of_mem_takenIn (h : p ∈ s.takenIn call) : call.pc ≤ p := by
  obtain ⟨later, hlater, hp⟩ := List.mem_flatMap.mp h
  exact Nat.le_trans (le_pc_of_mem_trace hlater)
    (Script.le_of_mem_taken (isTurn_of_mem_taken hp).2)

/-- A properly nested run takes no instruction at its bound or behind it. -/
theorem lt_bound_of_mem_takenIn (hnested : s.WellNested call)
    (hkeeps : call.KeepsTo s.script.code.size) (h : p ∈ s.takenIn call) : p < call.bound := by
  induction call using s.call_induction with
  | step call ih =>
    rw [takenIn_eq] at h
    rcases List.mem_append.mp h with h | h
    · exact lt_bound_of_mem_taken hkeeps h
    · obtain ⟨next, hnext, h⟩ := List.mem_flatMap.mp h
      obtain ⟨hkeeps', hle⟩ := keepsTo_of_mem_calls hnested hkeeps hnext
      exact Nat.lt_of_lt_of_le
        (ih next (makes_of_mem_calls hnext) (hnested.of_mem_calls hnext) hkeeps' h) hle

/-- **A properly nested run takes instructions from lower to higher positions.** -/
theorem takenIn_pairwise (hnested : s.WellNested call) (hkeeps : call.KeepsTo s.script.code.size) :
    (s.takenIn call).Pairwise (· < ·) := by
  induction call using s.call_induction with
  | step call ih =>
    have hnext : ∀ next ∈ s.calls call,
        s.WellNested next ∧ next.KeepsTo s.script.code.size := fun next h =>
      ⟨hnested.of_mem_calls h, (keepsTo_of_mem_calls hnested hkeeps h).1⟩
    rw [takenIn_eq]
    refine List.pairwise_append.mpr ⟨?_, List.pairwise_flatMap.mpr ⟨?_, ?_⟩, ?_⟩
    · rw [taken]
      split
      · exact Script.taken_pairwise
      · exact .nil
    · intro next h
      exact ih next (makes_of_mem_calls h) (hnext next h).1 (hnext next h).2
    · -- The run of each call ends before the next call starts.
      refine (s.calls_pairwise call).imp_of_mem fun hfirst _ hle p hp q hq => ?_
      have hlt := lt_bound_of_mem_takenIn (hnext _ hfirst).1 (hnext _ hfirst).2 hp
      exact Nat.lt_of_lt_of_le hlt (Nat.le_trans hle (le_of_mem_takenIn hq))
    · intro p hp q hq
      -- The calls of a call start behind what it takes by itself.
      obtain ⟨next, h, hq⟩ := List.mem_flatMap.mp hq
      exact Nat.lt_of_lt_of_le (lt_pc_of_mem_taken hp h) (le_of_mem_takenIn hq)

/-! ### Frames in the text -/

/-- The frames from which the text behind a cut is recovered: those of the condition of a branch, and
all of a statement. A jump has no text. -/
def shownBehind (s : Setting) (c : Cut) : List Frame :=
  match c.flow with
  | .branch _ =>
    c.last :: c.stack.take (c.stack.length - (s.popExpr c.active c.stack).2.length)
  | .jump _ => []
  | .ret | .next => c.last :: c.stack

/-- The frames from which a call recovers text by itself. -/
def shown (s : Setting) (call : Call) : List Frame := (s.cut? call).toList.flatMap s.shownBehind

/-- The frames from which text is recovered in the run of a call, turn by turn. -/
def shownIn (s : Setting) (call : Call) : List Frame := (s.trace call).flatMap s.shown

/-- A call recovers its own text, and then its calls recover theirs. -/
theorem shownIn_eq (call : Call) :
    s.shownIn call = s.shown call ++ (s.calls call).flatMap s.shownIn :=
  flatMap_trace s.shown call

/-- Where nothing is cut off, no text is recovered. -/
theorem shown_of_cut?_eq_none (h : s.cut? call = none) : s.shown call = [] := by
  rw [shown, h]
  rfl

/-- The frames that the calls of a call are handed. -/
def handedOn (s : Setting) (call : Call) : List Frame := (s.calls call).flatMap Call.stack

/-- An inner block starts with an empty stack, so only what follows it is handed the operands. -/
theorem sublist_stack_blockThen {depth bound pc : Nat} {active : Option UInt32}
    {stack : List Frame} {more : Walk → Call} (h : ∀ body, (more body).stack = stack) :
    ((s.blockThen depth bound active pc more).flatMap Call.stack).Sublist stack := by
  -- The block itself starts without operands.
  rw [blockThen]
  split
  · exact List.nil_sublist stack
  · rw [List.flatMap_cons, List.flatMap_singleton, h]
    exact List.Sublist.refl stack

/-- Where every call that follows a branch is handed the same frames, none of them is handed on
twice. -/
theorem sublist_stack_branch {depth target pc : Nat} {active : Option UInt32} {stack : List Frame}
    {behind : Call} {more : Walk → Call} (hbehind : behind.stack = stack)
    (hmore : ∀ body, (more body).stack = stack) :
    ((if target < pc then [] else if pc = target then [behind]
      else s.blockThen depth target active pc more).flatMap Call.stack).Sublist stack := by
  split
  · exact List.nil_sublist stack
  · split
    · have hsame : [behind].flatMap Call.stack = stack := by rw [List.flatMap_singleton, hbehind]
      exact hsame ▸ List.Sublist.refl _
    · exact sublist_stack_blockThen hmore

/-- A condition is recovered from the frames on top of the stack and leaves the others. -/
theorem take_append_popExpr (active : Option UInt32) (stack : List Frame) :
    stack.take (stack.length - (s.popExpr active stack).2.length) ++ (s.popExpr active stack).2 =
      stack := by
  have hsuffix : (s.popExpr active stack).2 <:+ stack :=
    pop_suffix (s.recover_takesFromTop active s.limit) stack
  obtain ⟨front, hfront⟩ := hsuffix
  have hlength : stack.length - (s.popExpr active stack).2.length = front.length := by
    have hsum := congrArg List.length hfront
    rw [List.length_append] at hsum
    omega
  have htake : stack.take front.length = front :=
    (congrArg (List.take front.length) hfront.symm).trans List.take_left
  rw [hlength, htake, hfront]

/-- Where the calls behind a branch are handed what the condition leaves, a frame is in the text or
handed on, but not both. -/
theorem sublist_condition (s : Setting) (c : Cut) {calls : List Call}
    (h : (calls.flatMap Call.stack).Sublist (s.popExpr c.active c.stack).2) :
    (c.last :: c.stack.take (c.stack.length - (s.popExpr c.active c.stack).2.length) ++
      calls.flatMap Call.stack).Sublist (c.last :: c.stack) := by
  have hstack := (List.Sublist.refl
    (c.stack.take (c.stack.length - (s.popExpr c.active c.stack).2.length))).append h
  rw [take_append_popExpr] at hstack
  exact hstack.cons_cons c.last

/-- Behind a cut, a frame is in the text or handed on, but not both. -/
theorem sublist_afterCut (s : Setting) (depth bound : Nat) (c : Cut) :
    (s.shownBehind c ++ (s.callsAfterCut depth bound c).flatMap Call.stack).Sublist
      (c.last :: c.stack) := by
  cases hflow : c.flow with
  | branch target =>
    simp only [shownBehind, callsAfterCut, hflow]
    exact s.sublist_condition c (sublist_stack_branch rfl fun _ => rfl)
  | jump target =>
    simp only [shownBehind, callsAfterCut, hflow]
    exact List.nil_sublist _
  | ret | next => simp [shownBehind, callsAfterCut, hflow, Call.stack]

/-- Behind a cut among further arms, a frame is in the text or handed on, but not both. -/
theorem sublist_afterArm (s : Setting) (depth bound exit : Nat) (c : Cut) :
    (s.shownBehind c ++ (s.callsAfterArm depth bound exit c).flatMap Call.stack).Sublist
      (c.last :: c.stack) := by
  cases hflow : c.flow with
  | branch target =>
    simp only [shownBehind, callsAfterArm, hflow]
    exact s.sublist_condition c (sublist_stack_branch rfl fun _ => rfl)
  | jump target =>
    simp only [shownBehind, callsAfterArm, hflow, List.nil_append, List.flatMap_singleton]
    exact List.sublist_cons_self _ _
  | ret | next => simp [shownBehind, callsAfterArm, hflow, Call.stack]

/-- A turn shows or hands on the frames of the statement that it cuts off. -/
theorem shown_append_handedOn_sublist {c : Cut} (hturn : call.IsTurn)
    (hcut : s.script.cut call.bound call.active call.stack call.pc = .ok c) :
    (s.shown call ++ s.handedOn call).Sublist (c.last :: c.stack) := by
  rw [shown, flatMap_cut? s.shownBehind hturn hcut, handedOn]
  cases call with
  | block | resume | otherwise => exact hturn.elim
  | statements depth bound active stack pc =>
    have hcut : s.script.cut bound active stack pc = .ok c := hcut
    rw [calls, hcut]
    exact s.sublist_afterCut depth bound c
  | arms depth bound active stack exit pc =>
    have hturn : pc < exit ∧ pc < bound := hturn
    have hcut : s.script.cut bound active stack pc = .ok c := hcut
    rw [calls, if_pos hturn, hcut]
    exact s.sublist_afterArm depth bound exit c

/-- A turn that cuts off no statement makes no calls. -/
theorem handedOn_of_error {fault : Fault} (hturn : call.IsTurn)
    (hcut : s.script.cut call.bound call.active call.stack call.pc = .error fault) :
    s.handedOn call = [] := by
  rw [handedOn]
  cases hcalls : s.calls call with
  | nil => rfl
  | cons next rest =>
    have hmakes := makes_of_mem_calls (hcalls ▸ List.mem_cons_self : next ∈ s.calls call)
    obtain ⟨c, hok, -⟩ := exists_cut_of_makes hturn hmakes
    cases hcut.symm.trans hok

/-- A call that is no turn hands on what it was handed. -/
theorem handedOn_sublist_of_not_isTurn (h : ¬call.IsTurn) :
    (s.handedOn call).Sublist call.stack := by
  rw [handedOn]
  cases call with
  | statements => exact absurd trivial h
  | block depth bound active pc =>
    rw [calls]
    split <;> exact List.nil_sublist _
  | resume depth bound active stack pc =>
    rw [calls]
    split
    · exact List.nil_sublist _
    · rw [List.flatMap_singleton]
      exact List.Sublist.refl stack
  | arms depth bound active stack exit pc =>
    -- A chain that is no turn has ended, so the stack goes on to what follows it.
    have hended : ¬(pc < exit ∧ pc < bound) := h
    rw [calls, if_neg hended, List.flatMap_singleton]
    exact List.Sublist.refl stack
  | otherwise depth bound active stack opening exit pc =>
    rw [calls]
    split
    · exact sublist_stack_blockThen fun _ => rfl
    · rw [List.flatMap_singleton]
      exact List.Sublist.refl stack

/-- The positions of both lists. -/
theorem positions_append (left right : List Frame) :
    positions (left ++ right) = positions left ++ positions right := List.map_append

/-- Fewer frames have fewer instructions at any position. -/
theorem count_positions_le {frames frames' : List Frame} (h : frames.Sublist frames') (p : Nat) :
    (positions frames).count p ≤ (positions frames').count p := (h.map _).count_le p

/-- **What a call shows or hands on, it has been handed or has taken.** -/
theorem count_shown_add_handedOn_le (call : Call) (p : Nat) :
    (positions (s.shown call)).count p + (positions (s.handedOn call)).count p ≤
      (positions call.stack).count p + (s.taken call).count p := by
  rw [← List.count_append, ← positions_append]
  by_cases hturn : call.IsTurn
  · cases hcut : s.script.cut call.bound call.active call.stack call.pc with
    | error fault =>
      rw [shown_of_cut?_eq_none (cut?_of_error hcut), handedOn_of_error hturn hcut]
      exact Nat.zero_le _
    | ok c =>
      rw [taken, if_pos hturn]
      exact Nat.le_trans (count_positions_le (shown_append_handedOn_sublist hturn hcut) p)
        (Script.count_positions_cut_le hcut)
  · rw [shown_of_cut?_eq_none (cut?_of_not_isTurn hturn), List.nil_append]
    exact Nat.le_trans (count_positions_le (handedOn_sublist_of_not_isTurn hturn) p)
      (Nat.le_add_right _ _)

/-- What passes from calls to their runs passes from the calls of a list to the runs of all. -/
theorem count_flatMap_shownIn_le {calls : List Call} {p : Nat}
    (h : ∀ call ∈ calls, (positions (s.shownIn call)).count p ≤
      (positions call.stack).count p + (s.takenIn call).count p) :
    (positions (calls.flatMap s.shownIn)).count p ≤
      (positions (calls.flatMap Call.stack)).count p + (calls.flatMap s.takenIn).count p := by
  induction calls with
  | nil => exact Nat.le_refl 0
  | cons call calls ih =>
    have hfirst := h call List.mem_cons_self
    have hrest := ih fun next hnext => h next (List.mem_cons_of_mem _ hnext)
    simp only [List.flatMap_cons, positions_append, List.count_append]
    omega

/-- **No frame comes into the text of a run more often than it was handed over or taken.** -/
theorem count_shownIn_le (call : Call) (p : Nat) :
    (positions (s.shownIn call)).count p ≤
      (positions call.stack).count p + (s.takenIn call).count p := by
  induction call using s.call_induction with
  | step call ih =>
    have hcall := count_shown_add_handedOn_le (s := s) call p
    have hcalls := count_flatMap_shownIn_le fun next h => ih next (makes_of_mem_calls h)
    rw [handedOn] at hcall
    rw [shownIn_eq, takenIn_eq, positions_append, List.count_append, List.count_append]
    omega

/-! ### The walk through a body -/

/-- The walk through a body from `start` takes every instruction once. -/
structure TakesOnce (s : Setting) (start : Nat) : Prop where
  /-- The instructions are taken from lower to higher positions. -/
  increasing : (s.takenIn (s.root start)).Pairwise (· < ·)
  /-- No instruction comes into the text twice. -/
  shownOnce : (positions (s.shownIn (s.root start))).Nodup
  /-- All that comes into the text has been taken. -/
  shownTaken : ∀ p ∈ positions (s.shownIn (s.root start)), p ∈ s.takenIn (s.root start)
  /-- The statements and conditions of the text are those that the turns of the walk recover from
  these instructions, in this order. -/
  text : ∀ indent text, s.script.decompileBody s.callable indent s.limit = .ok text →
    ∃ block : Block, text = s.script.bodyText s.callable indent block ∧
      block.expressions = s.recoveredIn (s.root start)

/-- **In properly nested code every instruction is taken once.** -/
theorem takenOnce {start : Nat} (hstart : s.script.bodyStart s.callable = .ok start)
    (hnested : s.WellNested (s.root start)) : s.TakesOnce start := by
  have hkeeps : (s.root start).KeepsTo s.script.code.size := .inr (Nat.le_refl _)
  have hincreasing := takenIn_pairwise hnested hkeeps
  have hnodup : (s.takenIn (s.root start)).Nodup := hincreasing.imp Nat.ne_of_lt
  -- A body starts without operands, so all that it shows it has taken.
  have hcount : ∀ p, (positions (s.shownIn (s.root start))).count p ≤
      (s.takenIn (s.root start)).count p := fun p => by
    have hstack : positions (s.root start).stack = [] := rfl
    have hle := count_shownIn_le (s := s) (s.root start) p
    rwa [hstack, List.count_nil, Nat.zero_add] at hle
  refine ⟨hincreasing, ?_, fun p hp => ?_, fun indent text h => ?_⟩
  · rw [List.nodup_iff_count]
    exact fun p => Nat.le_trans (hcount p) (List.nodup_iff_count.mp hnodup p)
  · exact List.count_pos_iff.mp (Nat.lt_of_lt_of_le (List.count_pos_iff.mpr hp) (hcount p))
  · obtain ⟨block, hblock, rfl⟩ := exists_of_map_eq_ok h
    obtain ⟨start', walk, hstart', hwalk, rfl⟩ := Script.exists_walk_of_bodyBlock hblock
    cases hstart.symm.trans hstart'
    exact ⟨walk.block, rfl, inOrder (s.root start) walk hwalk⟩

/-- A function whose chain has three arms, each with a return: behind the return of the first arm
stands the jump over the others, which is looked at but not taken. -/
def returningSetting : Setting where
  script := Script.ofParts
    #[0x41, 1, 0, 0, 0, 0x4c, 16, 0, 0, 0, 0x3c, 0x4b, 33, 0, 0, 0, 0x41, 2, 0, 0, 0, 0x4c, 31, 0,
      0, 0, 0x4b, 33, 0, 0, 0, 0x3c, 0x3c, 0x3c]
    [{ name := "F", kind := .func, flags := Flags.none.add .const }, { name := "A", kind := .int },
      { name := "B", kind := .int }]
  callable := { name := "F", kind := .func, flags := Flags.none.add .const }
  limit := 256

/-- A body in which a jump behind a return is passed over: it is the only instruction that is not
taken. -/
theorem takenOnce_returningSetting :
    returningSetting.script.bodyStart returningSetting.callable = .ok 0 ∧
    returningSetting.WellNested (returningSetting.root 0) ∧ returningSetting.TakesOnce 0 ∧
    returningSetting.takenIn (returningSetting.root 0) = [0, 5, 10, 16, 21, 26, 31, 32, 33] := by
  have hnested : returningSetting.WellNested (returningSetting.root 0) :=
    ⟨by decide +kernel, by decide +kernel⟩
  exact ⟨rfl, hnested, takenOnce rfl hnested, by decide +kernel⟩

end Setting

end Daedalus
